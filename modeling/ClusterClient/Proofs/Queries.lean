import ClusterClient.Proofs.Addressing
import ClusterClient.Proofs.Records
import ClusterClient.Proofs.Timestamps

/-!
# Queries, sent and read

The body in which a query is sent, and the query that it is read as. The instants are written as
timestamps and come back as they were, in all the years that have dates and with their leap seconds;
only a least score that is no finite number is lost. An instant may also lie in a second that is too
long without being the last of its minute. No clock shows such a second, and no timestamp names it:
the instant comes back in the next one.

* **`Query.Member`**: the members that the body has.
* **`Query.instants`**: the instants that are written into it.
* **`Query.settled`**: the query as it arrives.
* **`Query.decode_toValue`**: the body is read as that.
* **`Query.instants_of_decode`**: the instants of a query that was read.
* **`Query.query_roundtrip`**: the body, what is read of it, and the timestamps in it.
* **`Query.overlong_runs_over`**: an instant that does not come back, and a text that is cut.
-/

namespace ClusterClient

open Json

namespace Query

/-- The members of the body of a query. -/
inductive Member (q : Query) : String → Value → Prop where
  | text : Member q "query" (.string q.text)
  | start {t : Instant} (set : q.start = some t) :
      Member q "start_time" (.string (String.ofList t.timestamp))
  /-- A bound that is open is sent as null. -/
  | openStart (unset : q.start = none) : Member q "start_time" .null
  | finish {t : Instant} (set : q.finish = some t) :
      Member q "end_time" (.string (String.ofList t.timestamp))
  | openFinish (unset : q.finish = none) : Member q "end_time" .null
  | vectors : Member q "include_vector" (.bool q.vectors)
  | arbitration : Member q "enable_arbitration" (.bool q.arbitration)
  | minScore {x : Binary32} (set : q.minScore = some x) (finite : x.isFinite = true) :
      Member q "min_score" (.number (.real (x.convert .double)))
  /-- A least score that is no finite number is sent as null. -/
  | lostScore {x : Binary32} (set : q.minScore = some x) (infinite : x.isFinite = false) :
      Member q "min_score" .null
  | depth {n : UInt64} (set : q.depth = some n) :
      Member q "graph_depth" (.number (.integer n.toNat))
  | asOf {t : Instant} (set : q.asOf = some t) :
      Member q "as_of" (.string (String.ofList t.timestamp))

/-- The instants of a query. -/
def instants (q : Query) : List Instant :=
  q.start.toList ++ q.finish.toList ++ q.asOf.toList

/-- The query as it arrives: its instants are those that their timestamps name, and a least score
that is no finite number is lost. -/
def settled (q : Query) : Query :=
  { q with
    start := q.start.map Instant.settled
    finish := q.finish.map Instant.settled
    minScore := q.minScore.filter Binary.isFinite
    asOf := q.asOf.map Instant.settled }

/-- The instants of a query are its bounds and the moment that it is about. -/
theorem mem_instants {q : Query} {t : Instant} :
    t ∈ q.instants ↔ q.start = some t ∨ q.finish = some t ∨ q.asOf = some t := by
  simp [instants]

/-- Instants that a clock shows arrive as they are. -/
theorem settled_of_regular {q : Query} (h : ∀ t ∈ q.instants, t.Regular) :
    q.settled = { q with minScore := q.minScore.filter Binary.isFinite } := by
  have hmap : ∀ o : Option Instant, (∀ t, o = some t → t ∈ q.instants) →
      o.map Instant.settled = o := by
    intro o ho
    cases o with
    | none => rfl
    | some t => exact congrArg some (Instant.settled_of_regular (h t (ho t rfl)))
  unfold settled
  rw [hmap q.start fun t ht => mem_instants.mpr (.inl ht),
    hmap q.finish fun t ht => mem_instants.mpr (.inr (.inl ht)),
    hmap q.asOf fun t ht => mem_instants.mpr (.inr (.inr ht))]

/-- **Which queries arrive as they are.** -/
theorem settled_eq_self_iff {q : Query} :
    q.settled = q ↔ (∀ t ∈ q.instants, t.Regular) ∧ ∀ x, q.minScore = some x → x.isFinite = true := by
  constructor
  · intro h
    -- an instant that arrives as it is, is one that a clock shows
    have hkept : ∀ {o : Option Instant} {t : Instant}, o.map Instant.settled = o → o = some t →
        t.Regular := by
      rintro o t hmap rfl
      exact Instant.settled_eq_self_iff.mp (Option.some.inj hmap)
    refine ⟨fun t ht => ?_, fun x hx => ?_⟩
    · rcases mem_instants.mp ht with hstart | hfinish | hasOf
      · exact hkept (congrArg start h) hstart
      · exact hkept (congrArg finish h) hfinish
      · exact hkept (congrArg asOf h) hasOf
    · have hscore : q.minScore.filter Binary.isFinite = q.minScore := congrArg minScore h
      rw [hx, Option.filter_eq_some_iff] at hscore
      exact hscore.2
  · rintro ⟨hregular, hfinite⟩
    have hscore : q.minScore.filter Binary.isFinite = q.minScore := by
      cases hset : q.minScore with
      | none => rfl
      | some x => exact Option.filter_some_pos (hfinite x hset)
    rw [settled_of_regular hregular, hscore]

/-! ## The body -/

/-- The text of an instant is read as the instant that it names. -/
theorem decodes_instant {t : Instant} (h : t.Representable) :
    Decodes Decoder.ofTimestamp.optional (instantValue t) (some t.settled) := by
  apply Decodes.optional
  · apply decodes_text
    rw [String.toList_ofList, Timestamp.read_timestamp h]
    rfl
  · exact Value.noConfusion

/-- A bound of the window, which is there whether it is open or not. -/
theorem decodes_bound {o : Option Instant} (h : ∀ t, o = some t → t.Representable) :
    Decodes Decoder.ofTimestamp.optional ((o.map instantValue).getD .null)
      (o.map Instant.settled) := by
  cases o with
  | none => exact decodes_null
  | some t => exact decodes_instant (h t rfl)

/-- The members of the body, sorted, with what reading each of them does. -/
def components (q : Query) : List (Component Query) :=
  [⟨"as_of", q.asOf.map instantValue, q.asOf.elim id fun t x => { x with asOf := some t.settled }⟩,
    ⟨"enable_arbitration", some (.bool q.arbitration),
      fun x => { x with arbitration := q.arbitration }⟩,
    ⟨"end_time", some ((q.finish.map instantValue).getD .null),
      fun x => { x with finish := q.finish.map Instant.settled }⟩,
    ⟨"graph_depth", q.depth.map fun n => .ofNat n.toNat,
      q.depth.elim id fun n x => { x with depth := some n }⟩,
    ⟨"include_vector", some (.bool q.vectors), fun x => { x with vectors := q.vectors }⟩,
    ⟨"min_score", q.minScore.map .ofSingle, q.minScore.elim id fun s x =>
      { x with minScore := (some s).filter Binary.isFinite }⟩,
    ⟨"query", some (.string q.text), fun x => { x with text := q.text }⟩,
    ⟨"start_time", some ((q.start.map instantValue).getD .null),
      fun x => { x with start := q.start.map Instant.settled }⟩]

/-- Every component of a query is read by its field, if its instants have a text. -/
theorem components_reads {q : Query} (h : ∀ t ∈ q.instants, t.Representable) :
    ∀ p ∈ q.components, p.Reads record := by
  have htext : record.field? "query" =
    some (.needed "query" Decoder.ofString fun s x => { x with text := s }) := rfl
  have hstart : record.field? "start_time" =
    some (.defaulted "start_time" Decoder.ofTimestamp.optional
      fun t x => { x with start := t }) := rfl
  have hfinish : record.field? "end_time" =
    some (.defaulted "end_time" Decoder.ofTimestamp.optional
      fun t x => { x with finish := t }) := rfl
  have hvectors : record.field? "include_vector" =
    some (.defaulted "include_vector" Decoder.ofBool fun b x => { x with vectors := b }) := rfl
  have harbitration : record.field? "enable_arbitration" =
    some (.defaulted "enable_arbitration" Decoder.ofBool
      fun b x => { x with arbitration := b }) := rfl
  have hscore : record.field? "min_score" =
    some (.defaulted "min_score" Decoder.ofSingle.optional
      fun s x => { x with minScore := s }) := rfl
  have hdepth : record.field? "graph_depth" =
    some (.defaulted "graph_depth" (Decoder.ofUInt64 "usize").optional
      fun n x => { x with depth := n }) := rfl
  have hasOf : record.field? "as_of" =
    some (.defaulted "as_of" Decoder.ofTimestamp.optional fun t x => { x with asOf := t }) := rfl
  unfold components
  simp only [List.forall_mem_cons]
  refine ⟨?_, ?_, ?_, ?_, ?_, ?_, ?_, ?_, fun _ hp => absurd hp List.not_mem_nil⟩
  -- in the order of the names
  · apply Component.Reads.of_present hasOf
    exact fun t ht => decodes_instant (h t (mem_instants.mpr (.inr (.inr ht))))
  · exact .of_defaulted harbitration (decodes_bool q.arbitration)
  · apply Component.Reads.of_defaulted hfinish
    exact decodes_bound fun t ht => h t (mem_instants.mpr (.inr (.inl ht)))
  · exact .of_optional hdepth (fun n _ => decodes_uint64 "usize" n) (fun _ => nofun)
  · exact .of_defaulted hvectors (decodes_bool q.vectors)
  · exact .of_present hscore fun s _ => decodes_optional_single s
  · exact .of_needed htext (decodes_string q.text)
  · apply Component.Reads.of_defaulted hstart
    exact decodes_bound fun t ht => h t (mem_instants.mpr (.inl ht))

/-- **The body is read as the query**, as it arrives. -/
theorem decode_toValue {q : Query} (h : ∀ t ∈ q.instants, t.Representable) :
    decode decoder q.toValue.toBytes = .ok q.settled := by
  have hfold : q.components.foldl (fun x p => p.effect x) record.blank = q.settled := by
    -- a member that is absent leaves the blank as it is
    obtain ⟨text, start, finish, vectors, arbitration, score, depth, asOf⟩ := q
    cases score <;> cases depth <;> cases asOf <;> rfl
  rw [← hfold]
  unfold toValue
  apply decode_ofPresent q.components
  · simp [components, Component.entry]
  · simp [components]
  · exact components_reads h
  · simp [record, components, Field.needed, Field.defaulted]

/-- **The body has these members, and no other.** -/
theorem get?_toValue (q : Query) {name : String} {v : Value} :
    q.toValue.get? name = some v ↔ q.Member name v := by
  unfold toValue
  rw [get?_ofPresent (by simp)]
  simp only [List.mem_cons, Prod.mk.injEq, List.not_mem_nil, or_false]
  -- a bound is there when it is open too, and a score when it is lost
  constructor
  · intro h
    rcases h with ⟨rfl, hv⟩ | ⟨rfl, hv⟩ | ⟨rfl, hv⟩ | ⟨rfl, hv⟩ | ⟨rfl, hv⟩ | ⟨rfl, hv⟩ | ⟨rfl, hv⟩ |
      ⟨rfl, hv⟩
    · exact Option.some.inj hv ▸ .text
    · rw [Option.some.inj hv]
      cases hstart : q.start with
      | none => exact .openStart hstart
      | some t => exact .start hstart
    · rw [Option.some.inj hv]
      cases hfinish : q.finish with
      | none => exact .openFinish hfinish
      | some t => exact .finish hfinish
    · exact Option.some.inj hv ▸ .vectors
    · exact Option.some.inj hv ▸ .arbitration
    · obtain ⟨x, hx, rfl⟩ := Option.map_eq_some_iff.mp hv.symm
      unfold Value.ofSingle
      cases hfinite : x.isFinite with
      | true => exact .minScore hx hfinite
      | false => exact .lostScore hx hfinite
    · obtain ⟨n, hn, rfl⟩ := Option.map_eq_some_iff.mp hv.symm
      exact .depth hn
    · obtain ⟨t, ht, rfl⟩ := Option.map_eq_some_iff.mp hv.symm
      exact .asOf ht
  · intro h
    cases h with
    | text | vectors | arbitration => simp
    | start set | finish set | openStart set | openFinish set | asOf set => simp [set, instantValue]
    | depth set => simp [set, Value.ofNat]
    | minScore set hfinite | lostScore set hfinite => simp [set, Value.ofSingle, hfinite]

/-! ## What any body is read as -/

/-- Every instant of a query that was read is one that a clock shows. -/
theorem instants_of_decode {body : List UInt8} {q : Query} (h : decode decoder body = .ok q) :
    ∀ t ∈ q.instants, t.Representable ∧ t.Regular := by
  have hkept : (∀ t, q.start = some t → t.Representable ∧ t.Regular) ∧
      (∀ t, q.finish = some t → t.Representable ∧ t.Regular) ∧
      ∀ t, q.asOf = some t → t.Representable ∧ t.Regular := by
    apply Record.decoder_invariant (fun q => (∀ t, q.start = some t → t.Representable ∧ t.Regular) ∧
      (∀ t, q.finish = some t → t.Representable ∧ t.Regular) ∧
      ∀ t, q.asOf = some t → t.Representable ∧ t.Regular) ⟨nofun, nofun, nofun⟩ ?_
      (decode_eq_ok.mp h).1
    intro f hf room tree set hread a ⟨hstart, hfinish, hasOf⟩
    -- what is read of a text is an instant that a clock shows, null is none
    have htime : ∀ {o : Option Instant}, Decoder.ofTimestamp.optional room tree = .ok o →
        ∀ t, o = some t → t.Representable ∧ t.Regular := by
      rintro o ho t rfl
      obtain ⟨cs, hcs⟩ := ofText_eq_ok (optional_eq_some ho)
      exact Timestamp.spec_of_read (mapError_eq_ok.mp hcs)
    simp only [record, List.mem_cons, List.not_mem_nil, or_false] at hf
    -- three of the fields have to do with instants
    rcases hf with rfl | rfl | rfl | rfl | rfl | rfl | rfl | rfl
    case inr.inl =>
      obtain ⟨o, ho, rfl⟩ := Decoder.map_eq_ok.mp hread
      exact ⟨htime ho, hfinish, hasOf⟩
    case inr.inr.inl =>
      obtain ⟨o, ho, rfl⟩ := Decoder.map_eq_ok.mp hread
      exact ⟨hstart, htime ho, hasOf⟩
    case inr.inr.inr.inr.inr.inr.inr =>
      obtain ⟨o, ho, rfl⟩ := Decoder.map_eq_ok.mp hread
      exact ⟨hstart, hfinish, htime ho⟩
    all_goals
      obtain ⟨b, -, rfl⟩ := Decoder.map_eq_ok.mp hread
      exact ⟨hstart, hfinish, hasOf⟩
  intro t ht
  rcases mem_instants.mp ht with hstart | hfinish | hasOf
  · exact hkept.1 t hstart
  · exact hkept.2.1 t hfinish
  · exact hkept.2.2 t hasOf

/-! ## Round trips -/

/-- **A query is sent as it is and comes back.** The body always has the text, both bounds of the
window, null where the window is open, and the two flags; least score, depth and last instant are
there when they are set, and nothing else is. It is read as the query: every instant that a clock
shows comes back, in any year that has dates, whatever its nanoseconds and be it in a leap second;
only a least score that is no finite number is sent as null and is lost. An instant in a second that
is too long, and not the last of its minute, comes back in the next second. So exactly those queries
come back as they are whose instants a clock shows and whose score is finite. Every text that is
read as an instant, whatever its offset, is read as one that a clock shows, whose own timestamp is
in universal time and is read as it again. -/
theorem query_roundtrip (q : Query) (h : ∀ t ∈ q.instants, t.Representable) :
    (∀ stream tenant, (∃ s, World.Sends (.search q) stream tenant s) ∧
      ∀ s, World.Sends (.search q) stream tenant s → s.request.bodyBytes = q.toValue.toBytes) ∧
    (∃ ms, q.toValue = .object ms ∧ Ascending ms) ∧
    (∀ name v, q.toValue.get? name = some v ↔ q.Member name v) ∧
    decode decoder q.toValue.toBytes = .ok q.settled ∧
    ((∀ t ∈ q.instants, t.Regular) →
      decode decoder q.toValue.toBytes =
        .ok { q with minScore := q.minScore.filter Binary.isFinite }) ∧
    (decode decoder q.toValue.toBytes = .ok q ↔
      (∀ t ∈ q.instants, t.Regular) ∧ ∀ x, q.minScore = some x → x.isFinite = true) ∧
    (∀ body, decode decoder body = .ok q → ∀ t ∈ q.instants, t.Regular) ∧
    ∀ cs t, Timestamp.read cs = .ok t →
      t.timestamp.getLast? = some 'Z' ∧ Timestamp.read t.timestamp = .ok t := by
  -- every part follows from what the body is read as
  have hread := decode_toValue h
  refine ⟨fun stream tenant => ⟨World.exists_sends _ stream tenant, fun s hs => ?_⟩, ?_,
    fun name v => q.get?_toValue, hread, fun hregular => ?_, ?_,
    fun body hbody t ht => (instants_of_decode hbody t ht).2,
    fun cs t ht => ⟨Timestamp.getLast?_timestamp t, Timestamp.read_again ht⟩⟩
  · have hbody : s.request.body = some q.toValue := hs.body_eq
    unfold Request.bodyBytes
    rw [hbody]
  · exact Value.ascending_ofMembers _
  · rw [hread, settled_of_regular hregular]
  · rw [hread, Except.ok.injEq, settled_eq_self_iff]

/-- A query over all of time, from the first instant that has a date to the leap second after the
last, with a score that is no number. -/
def sweeping : Query :=
  { text := "\"?\"", start := some ⟨-8334601228800, 0⟩,
    finish := some ⟨8210266876799, 1500000000⟩, minScore := some .nan,
    depth := some 18446744073709551615, asOf := some ⟨-62162074800, 123000⟩ }

/-- It comes back without the score. A leap second that a clock behind universal time shows at the
end of a year lies in the next year, whose number takes a sign. -/
theorem query_roundtrip_of_sweeping :
    sweeping.toValue.get? "start_time" = some (.string "-262143-01-01T00:00:00Z") ∧
    sweeping.toValue.get? "end_time" = some (.string "+262142-12-31T23:59:60.500Z") ∧
    sweeping.toValue.get? "as_of" = some (.string "0000-02-29T13:00:00.000123Z") ∧
    sweeping.toValue.get? "min_score" = some .null ∧
    decode decoder sweeping.toValue.toBytes = .ok { sweeping with minScore := none } ∧
    ∃ t, Timestamp.read "9999-12-31 23:59:60.5 -00:01".toList = .ok t ∧
      t.timestamp = "+10000-01-01T00:00:60.500Z".toList ∧ Timestamp.read t.timestamp = .ok t := by
  have hall : ∀ t ∈ sweeping.instants, t.Representable ∧ t.Regular := by
    simp only [sweeping, instants, Option.toList, List.cons_append, List.nil_append,
      List.forall_mem_cons]
    exact ⟨⟨⟨by decide, by decide⟩, by decide⟩, ⟨⟨by decide, by decide⟩, by decide⟩,
      ⟨⟨by decide, by decide⟩, by decide⟩, nofun⟩
  obtain ⟨-, -, hmember, -, hregular, -, -, htime⟩ :=
    query_roundtrip sweeping fun t ht => (hall t ht).1
  have hread := hregular fun t ht => (hall t ht).2
  have hlost : sweeping.minScore.filter Binary.isFinite = none := by decide
  rw [hlost] at hread
  have hstart : "-262143-01-01T00:00:00Z" =
      String.ofList (Instant.timestamp ⟨-8334601228800, 0⟩) := by decide +kernel
  have hfinish : "+262142-12-31T23:59:60.500Z" =
      String.ofList (Instant.timestamp ⟨8210266876799, 1500000000⟩) := by decide +kernel
  have hasOf : "0000-02-29T13:00:00.000123Z" =
      String.ofList (Instant.timestamp ⟨-62162074800, 123000⟩) := by decide +kernel
  have hleap : Timestamp.read "9999-12-31 23:59:60.5 -00:01".toList =
      .ok ⟨253402300859, 1500000000⟩ := by decide +kernel
  rw [hstart, hfinish, hasOf]
  refine ⟨?_, ?_, ?_, ?_, hread, _, hleap, by decide +kernel, (htime _ _ hleap).2⟩
  · exact (hmember _ _).mpr (.start rfl)
  · exact (hmember _ _).mpr (.finish rfl)
  · exact (hmember _ _).mpr (.asOf rfl)
  · exact (hmember _ _).mpr (.lostScore rfl (by decide))

/-- A query from the fifth second of all time on, with a third of a second more than that second
has. -/
def overlong : Query :=
  { text := "q", start := some ⟨4, 1333333333⟩ }

/-- The body of a query whose window begins with a fraction of ten digits. -/
def tenthDigit : List UInt8 :=
  Utf8.encode "\x7b\"query\":\"q\",\"start_time\":\"1970-01-01T00:00:00.1234567891Z\"\x7d"

/-- **An instant that does not come back.** It has a date and fewer than two thousand million
nanoseconds, but its timestamp names the next second. So a query may be read as another one. And of
a text that is read, the tenth digit of the fraction does not come back. -/
theorem overlong_runs_over :
    (∀ t ∈ overlong.instants, t.Representable) ∧
    overlong.toValue.get? "start_time" = some (.string "1970-01-01T00:00:05.333333333Z") ∧
    decode decoder overlong.toValue.toBytes =
      .ok { overlong with start := some ⟨5, 333333333⟩ } ∧
    decode decoder overlong.toValue.toBytes ≠ .ok overlong ∧
    ∃ q, decode decoder tenthDigit = .ok q ∧
      q.toValue.get? "start_time" = some (.string "1970-01-01T00:00:00.123456789Z") := by
  have hrepresentable : ∀ t ∈ overlong.instants, t.Representable := by
    simp only [overlong, instants, Option.toList, List.append_nil, List.forall_mem_cons]
    exact ⟨⟨by decide, by decide⟩, nofun⟩
  have hread : decode decoder overlong.toValue.toBytes =
      .ok { overlong with start := some ⟨5, 333333333⟩ } := by
    rw [decode_toValue hrepresentable]
    decide
  have hstart : "1970-01-01T00:00:05.333333333Z" =
      String.ofList (Instant.timestamp ⟨4, 1333333333⟩) := by decide +kernel
  have hcut : "1970-01-01T00:00:00.123456789Z" =
      String.ofList (Instant.timestamp ⟨0, 123456789⟩) := by decide +kernel
  have htenth : decode decoder tenthDigit = .ok { text := "q", start := some ⟨0, 123456789⟩ } := by
    decide +kernel
  refine ⟨hrepresentable, ?_, hread, ?_, _, htenth, ?_⟩
  · rw [hstart]
    exact (get?_toValue overlong).mpr (.start rfl)
  · rw [hread]
    decide
  · rw [hcut]
    exact (get?_toValue _).mpr (.start rfl)

end Query

end ClusterClient
