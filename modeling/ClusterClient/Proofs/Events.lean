import ClusterClient.Proofs.Addressing
import ClusterClient.Proofs.Records

/-!
# Events, sent and read

The body in which an event is sent, and the event that it is read as. Nothing is lost but a progress
that is no finite number, which JSON cannot write; what has been read once and sent again no longer
changes.

* **`Event.Member`**: the members that the body has.
* **`Event.settled`**: the event as it arrives.
* **`Event.decode_toValue`**: the body is read as that.
* **`Event.event_roundtrip`**: the body, what is read of it, and what becomes of any body that is
  read and sent again.
-/

namespace ClusterClient

open Json

/-- Every kind is read back by its name. -/
theorem ContentKind.decodes (k : ContentKind) : Decodes ContentKind.decoder k.toValue k := by
  intro room t ht
  cases ht with
  | string text =>
    have hlookup : named.lookup k.name = some k := by cases k <;> rfl
    show Decoder.variantOfToken named (.scalar (.string _)) = .ok k
    unfold Decoder.variantOfToken
    dsimp only
    rw [value_string text]
    dsimp only
    rw [Decoder.variant, hlookup]

namespace Event

/-- The members of the body of an event. -/
inductive Member (e : Event) : String → Value → Prop where
  | tenant : Member e "tenant_id" (.string e.tenant)
  | content : Member e "content" (.string e.content)
  | kind {k : ContentKind} (set : e.kind = some k) : Member e "content_type" (.string k.name)
  | level {n : UInt8} (set : e.level = some n) : Member e "level" (.number (.integer n.toNat))
  | parent {s : String} (set : e.parent = some s) : Member e "parent_id" (.string s)
  | taskStatus {s : String} (set : e.taskStatus = some s) : Member e "task_status" (.string s)
  | taskProgress {x : Binary32} (set : e.taskProgress = some x) (finite : x.isFinite = true) :
      Member e "task_progress" (.number (.real (x.convert .double)))
  /-- A progress that is no finite number is sent as null. -/
  | lostProgress {x : Binary32} (set : e.taskProgress = some x) (infinite : x.isFinite = false) :
      Member e "task_progress" .null

/-- The event as it arrives: a progress that is no finite number is lost. -/
def settled (e : Event) : Event :=
  { e with taskProgress := e.taskProgress.filter Binary.isFinite }

/-! ## The body -/

/-- The members of the body, sorted, with what reading each of them does. -/
def components (e : Event) : List (Component Event) :=
  [⟨"content", some (.string e.content), fun x => { x with content := e.content }⟩,
    ⟨"content_type", e.kind.map ContentKind.toValue,
      e.kind.elim id fun k x => { x with kind := some k }⟩,
    ⟨"level", e.level.map fun n => .ofNat n.toNat,
      e.level.elim id fun n x => { x with level := some n }⟩,
    ⟨"parent_id", e.parent.map .string, e.parent.elim id fun s x => { x with parent := some s }⟩,
    ⟨"task_progress", e.taskProgress.map .ofSingle, e.taskProgress.elim id fun p x =>
      { x with taskProgress := (some p).filter Binary.isFinite }⟩,
    ⟨"task_status", e.taskStatus.map .string,
      e.taskStatus.elim id fun s x => { x with taskStatus := some s }⟩,
    ⟨"tenant_id", some (.string e.tenant), fun x => { x with tenant := e.tenant }⟩]

/-- Every component of an event is read by its field. -/
theorem components_reads (e : Event) : ∀ p ∈ e.components, p.Reads record := by
  have hcontent : record.field? "content" =
    some (.needed "content" Decoder.ofString fun s x => { x with content := s }) := rfl
  have hkind : record.field? "content_type" =
    some (.defaulted "content_type" ContentKind.decoder.optional
      fun k x => { x with kind := k }) := rfl
  have hlevel : record.field? "level" =
    some (.defaulted "level" Decoder.ofUInt8.optional fun n x => { x with level := n }) := rfl
  have hparent : record.field? "parent_id" =
    some (.defaulted "parent_id" Decoder.ofString.optional fun s x => { x with parent := s }) := rfl
  have hstatus : record.field? "task_status" =
    some (.defaulted "task_status" Decoder.ofString.optional
      fun s x => { x with taskStatus := s }) := rfl
  have hprogress : record.field? "task_progress" =
    some (.defaulted "task_progress" Decoder.ofSingle.optional
      fun p x => { x with taskProgress := p }) := rfl
  have htenant : record.field? "tenant_id" =
    some (.needed "tenant_id" Decoder.ofString fun s x => { x with tenant := s }) := rfl
  unfold components
  simp only [List.forall_mem_cons]
  refine ⟨?_, ?_, ?_, ?_, ?_, ?_, ?_, fun _ h => absurd h List.not_mem_nil⟩
  · exact .of_needed hcontent (decodes_string e.content)
  · exact .of_optional hkind (fun k _ => k.decodes) (fun _ => nofun)
  · exact .of_optional hlevel (fun n _ => decodes_uint8 n) (fun _ => nofun)
  · exact .of_optional hparent (fun s _ => decodes_string s) (fun _ => nofun)
  · exact .of_present hprogress fun x _ => decodes_optional_single x
  · exact .of_optional hstatus (fun s _ => decodes_string s) (fun _ => nofun)
  · exact .of_needed htenant (decodes_string e.tenant)

/-- **The body is read as the event**, but for a progress that is no finite number. -/
theorem decode_toValue (e : Event) : decode decoder e.toValue.toBytes = .ok e.settled := by
  have hfold : e.components.foldl (fun x p => p.effect x) record.blank = e.settled := by
    -- a member that is absent leaves the blank as it is
    obtain ⟨tenant, content, kind, level, parent, status, progress⟩ := e
    cases kind <;> cases level <;> cases parent <;> cases status <;> cases progress <;> rfl
  rw [← hfold]
  unfold toValue
  apply decode_ofPresent e.components
  · simp [components, Component.entry]
  · simp [components]
  · exact e.components_reads
  · simp [record, components, Field.needed, Field.defaulted]

/-- **The body has these members, and no other.** -/
theorem get?_toValue (e : Event) {name : String} {v : Value} :
    e.toValue.get? name = some v ↔ e.Member name v := by
  unfold toValue
  rw [get?_ofPresent (by simp)]
  simp only [List.mem_cons, Prod.mk.injEq, List.not_mem_nil, or_false]
  constructor
  · rintro (⟨rfl, hv⟩ | ⟨rfl, hv⟩ | ⟨rfl, hv⟩ | ⟨rfl, hv⟩ | ⟨rfl, hv⟩ | ⟨rfl, hv⟩ | ⟨rfl, hv⟩)
    · exact Option.some.inj hv ▸ .tenant
    · exact Option.some.inj hv ▸ .content
    · obtain ⟨k, hk, rfl⟩ := Option.map_eq_some_iff.mp hv.symm
      exact .kind hk
    · obtain ⟨n, hn, rfl⟩ := Option.map_eq_some_iff.mp hv.symm
      exact .level hn
    · obtain ⟨s, hs, rfl⟩ := Option.map_eq_some_iff.mp hv.symm
      exact .parent hs
    · obtain ⟨s, hs, rfl⟩ := Option.map_eq_some_iff.mp hv.symm
      exact .taskStatus hs
    · obtain ⟨x, hx, rfl⟩ := Option.map_eq_some_iff.mp hv.symm
      -- a progress that is no finite number is sent as null
      unfold Value.ofSingle
      cases hfinite : x.isFinite with
      | true => exact .taskProgress hx hfinite
      | false => exact .lostProgress hx hfinite
  · intro h
    cases h with
    | tenant | content => simp
    | kind set | level set | parent set | taskStatus set =>
      simp [set, ContentKind.toValue, Value.ofNat]
    | taskProgress set hfinite | lostProgress set hfinite => simp [set, Value.ofSingle, hfinite]

/-! ## What any body is read as -/

/-- The progress that is read is a finite number or infinite. -/
theorem progress_of_decode {body : List UInt8} {e : Event} (h : decode decoder body = .ok e)
    {x : Binary32} (hx : e.taskProgress = some x) :
    x.isFinite = true ∨ x = .infinity x.negative := by
  have hmost : ∀ x, e.taskProgress = some x → x.magnitude ≤ BinaryFormat.single.infinite := by
    apply Record.decoder_invariant
      (fun e => ∀ x, e.taskProgress = some x → x.magnitude ≤ BinaryFormat.single.infinite)
      nofun ?_ (decode_eq_ok.mp h).1
    intro f hf room t set hread a ha
    simp only [record, List.mem_cons, List.not_mem_nil, or_false] at hf
    -- only the last field has to do with the progress
    rcases hf with rfl | rfl | rfl | rfl | rfl | rfl | rfl
    case inr.inr.inr.inr.inr.inr =>
      obtain ⟨o, ho, rfl⟩ := Decoder.map_eq_ok.mp hread
      rintro x rfl
      exact ofSingle_le (optional_eq_some ho)
    all_goals
      obtain ⟨b, -, rfl⟩ := Decoder.map_eq_ok.mp hread
      exact ha
  rcases Nat.lt_or_ge x.magnitude BinaryFormat.single.infinite with hlt | hge
  · exact .inl (decide_eq_true hlt)
  · right
    have heq : x.magnitude = BinaryFormat.single.infinite := Nat.le_antisymm (hmost x hx) hge
    rw [Binary.infinity, ← heq]

/-! ## Round trips -/

/-- What comes back from one round trip comes back from every further one. -/
theorem settled_settled (e : Event) : e.settled.settled = e.settled := by
  unfold settled
  rw [Option.filter_filter]
  simp

/-- **An event is sent as it is and comes back.** The body has the event's tenant and content and,
of the other five members, those that are set, and no other; it is read as the event, but that a
progress that is no finite number is sent as null and is lost. A body that is read and sent again
is read as before, with the same exception, which then is an infinite progress; and sending it once
more changes nothing. -/
theorem event_roundtrip (e : Event) :
    (∀ stream tenant, (∃ s, World.Sends (.store e) stream tenant s) ∧
      ∀ s, World.Sends (.store e) stream tenant s → s.request.bodyBytes = e.toValue.toBytes) ∧
    (∃ ms, e.toValue = .object ms ∧ Ascending ms) ∧
    (∀ name v, e.toValue.get? name = some v ↔ e.Member name v) ∧
    decode decoder e.toValue.toBytes =
      .ok { e with taskProgress := e.taskProgress.filter Binary.isFinite } ∧
    ∀ body, decode decoder body = .ok e →
      (∀ x, e.taskProgress = some x → x.isFinite = true ∨ x = .infinity x.negative) ∧
      decode decoder e.toValue.toBytes = .ok e.settled ∧
      decode decoder e.settled.toValue.toBytes = .ok e.settled := by
  refine ⟨fun stream tenant => ⟨World.exists_sends _ stream tenant, fun s hs => ?_⟩, ?_,
    fun name v => e.get?_toValue, e.decode_toValue, fun body hbody => ?_⟩
  · have hbody : s.request.body = some e.toValue := hs.body_eq
    unfold Request.bodyBytes
    rw [hbody]
  · exact Value.ascending_ofMembers _
  · refine ⟨fun x hx => progress_of_decode hbody hx, e.decode_toValue, ?_⟩
    have hagain := e.settled.decode_toValue
    rwa [settled_settled] at hagain

/-- An event that was read with a progress too large for single precision. -/
def overdue : Event :=
  { tenant := "acme", content := "\"é\\\"", kind := some .json, level := some 255,
    taskProgress := some (.infinity false) }

/-- A body that is read as that event. -/
def overdueText : String :=
  "\x7b\"level\":255,\"content_type\":\x7b\"json\":null\x7d,\"task_progress\":1e39," ++
    "\"content\":\"\\\"\\u00e9\\\\\\\"\",\"tenant_id\":\"acme\"\x7d"

/-- It is sent with a null for its progress, and comes back without one. -/
theorem event_roundtrip_of_overdue :
    decode decoder (Utf8.encode overdueText) = .ok overdue ∧
    overdue.toValue.get? "task_progress" = some .null ∧
    overdue.toValue.get? "parent_id" = none ∧
    decode decoder overdue.toValue.toBytes = .ok { overdue with taskProgress := none } := by
  have hbody : decode decoder (Utf8.encode overdueText) = .ok overdue := by decide +kernel
  obtain ⟨-, -, hmember, -, hread⟩ := event_roundtrip overdue
  have hother : ∀ name v, overdue.Member name v → name ≠ "parent_id" := by
    intro name v h
    cases h with
    | parent set => cases set
    | tenant | content | kind | level | taskStatus | taskProgress | lostProgress => decide
  refine ⟨hbody, (hmember _ _).mpr (.lostProgress rfl (by decide)), ?_, (hread _ hbody).2.1⟩
  apply Option.eq_none_iff_forall_ne_some.mpr
  intro v hget
  exact hother _ _ ((hmember _ _).mp hget) rfl

end Event

end ClusterClient
