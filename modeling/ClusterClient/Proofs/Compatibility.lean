import ClusterClient.Message.Event
import ClusterClient.Message.Findings
import ClusterClient.Message.Query
import ClusterClient.Settings
import ClusterClient.Proofs.MemberOrder

/-!
# Compatibility of messages

The nodes and their clients are of different versions: one writes its members in another order than
the other expects, adds some the other does not know, or leaves out what has its default. All
records of the client take such a text for the same message.

* **`Record.Compatible`**: what makes no difference to a record of some shape, and what does.
* **`Record.Regular.compatible`**: it holds of every record with regular fields.
* **`Event.shape`**, **`Event.regular`** and their neighbours: the members of each record, in their
  order, with the defaults of those that may be left out.
* **`records_compatible`**: all records of the client.
-/

namespace ClusterClient

namespace Json

open Decoder

variable {α : Type} {r : Record α}

namespace Record

/-- **What makes no difference to a record** whose messages have some shape, and what does. The
shape is given apart from the record, so that it says by itself which members are known. -/
structure Compatible (r : Record α) (shape : Shape) : Prop where
  /-- The fields have the names of the shape in its order, and those without a default must be
  present. -/
  declared : r.fields.map (fun f => (f.name, f.required)) = shape.map fun m => (m.1, m.2.isNone)
  /-- Some text is read at all. -/
  inhabited : ∃ bs a, decode r.decoder bs = .ok a
  /-- The space in a text. -/
  spaced {t : Tree} {bs bs' : List UInt8} :
    TreeText t bs → TreeText t bs' → decode r.decoder bs = decode r.decoder bs'
  /-- The order of the members, others of foreign names among them, and whether a default is written
  out. -/
  rearranged {ms ms' extra : List (Token × Tree)} {bs bs' : List UInt8} :
    TreeText (.object ms) bs → TreeText (.object ms') bs' → shape.Single ms' →
    ms'.Perm (ms ++ extra) → (∀ m ∈ extra, shape.Foreign m ∨ shape.Standard m) →
      ∀ a, decode r.decoder bs = .ok a ↔ decode r.decoder bs' = .ok a
  /-- Whether all members are written as an object, or their values as an array in the order of the
  shape. -/
  listed {ms : List (Token × Tree)} {bs bs' : List UInt8} :
    List.Forall₂ (fun name m => m.1.name = .ok name) shape.names ms →
    TreeText (.object ms) bs → TreeText (.array (ms.map Prod.snd)) bs' →
      ∀ a, decode r.decoder bs = .ok a ↔ decode r.decoder bs' = .ok a
  /-- A member of the shape that comes again is a fault. -/
  repeated {before between after : List (Token × Tree)} {m m' : Token × Tree} {name : String}
    {bs : List UInt8} :
    TreeText (.object (before ++ m :: (between ++ m' :: after))) bs →
    name ∈ shape.names → m.1.name = .ok name → m'.1.name = .ok name →
      ∃ p, decode r.decoder bs = .error p
  /-- A member of the shape that has no default and is left out is a fault. -/
  missing {ms : List (Token × Tree)} {name : String} {bs : List UInt8} :
    TreeText (.object ms) bs → (name, none) ∈ shape → (∀ m ∈ ms, m.1.name ≠ .ok name) →
      ∃ p, decode r.decoder bs = .error p

theorem error_of_not_ok {ε : Type} {x : Except ε α} (h : ∀ a, x ≠ .ok a) : ∃ e, x = .error e := by
  cases x with
  | ok a => exact absurd rfl (h a)
  | error e => exact ⟨e, rfl⟩

/-- The text of an object is read by its members. -/
theorem decode_object {ms : List (Token × Tree)} {bs : List UInt8}
    (h : TreeText (.object ms) bs) :
    decode r.decoder bs = r.readMembers (nestingLimit - 1) [] r.blank ms :=
  h.decode r.decoder

/-- Members that are not readable are a fault. -/
theorem decode_unreadable {ms : List (Token × Tree)} {bs : List UInt8}
    (h : TreeText (.object ms) bs) (hms : ¬ r.Readable (nestingLimit - 1) [] ms) :
    ∃ p, decode r.decoder bs = .error p := by
  refine error_of_not_ok fun a ha => hms ?_
  rw [decode_object h] at ha
  exact (readMembers_eq_ok_iff.mp ha).1

/-- **A record with regular fields is compatible**, if it reads anything. -/
theorem Regular.compatible {shape : Shape} (h : r.Regular shape)
    (hread : ∃ bs a, decode r.decoder bs = .ok a) : r.Compatible shape where
  declared := h.declared
  inhabited := hread
  spaced ht ht' := (ht.decode r.decoder).trans (ht'.decode r.decoder).symm
  rearranged hbs hbs' hsingle hperm hextra a := by
    rw [decode_object hbs, decode_object hbs']
    exact h.readMembers_rearranged hperm hextra (h.nodup_fieldNames hsingle)
  listed hnames hbs hbs' a := by
    rw [← h.names_eq, List.forall₂_map_left_iff] at hnames
    rw [decode_object hbs, hbs'.decode]
    exact (h.readItems_iff hnames).symm
  repeated hbs hname hm hm' := by
    obtain ⟨f, hf, rfl⟩ := h.exists_field hname
    have hfield := h.field?_of_mem hf
    exact decode_unreadable hbs (not_readable_of_repeated
      (fieldName?_eq_some.mpr ⟨hm, f, hfield⟩) (fieldName?_eq_some.mpr ⟨hm', f, hfield⟩))
  missing {ms name bs} hbs hname hms := by
    obtain ⟨f, hf, rfl, hrequired⟩ := h.exists_required hname
    refine decode_unreadable hbs fun hreadable => ?_
    have hmem := (hreadable.complete f hf hrequired).resolve_left List.not_mem_nil
    obtain ⟨m, hm, hfield⟩ := List.mem_filterMap.mp hmem
    exact hms m hm (fieldName?_eq_some.mp hfield).1

end Record

/-! ## Defaults written out -/

/-- A list of values that are each read back is read back, item by item. -/
theorem each_spelled {β : Type} {d : Decoder β} {encode : β → Value} {bs : List β}
    (h : ∀ b ∈ bs, Decodes d (encode b) b) (room : Nat) {ts : List Tree}
    (hts : SpellsItems ts (bs.map encode)) : each d room ts = .ok bs := by
  induction bs generalizing ts with
  | nil =>
    cases hts
    rfl
  | cons b bs ih =>
    obtain ⟨hb, hbs⟩ := List.forall_mem_cons.mp h
    cases hts with
    | cons first rest =>
      rw [each, hb room _ first, ih hbs rest]
      rfl

/-- The same for the array that holds them. -/
theorem listOf_spelled {β : Type} {d : Decoder β} (encode : β → Value) (bs : List β)
    (h : ∀ b ∈ bs, Decodes d (encode b) b) (room : Nat) {t : Tree}
    (ht : Spells t (.array (bs.map encode))) : d.listOf (room + 1) t = .ok bs := by
  cases ht with
  | array items => exact each_spelled h room items

/-- A member with its default, whose value the blank record has. -/
theorem Record.blank_of_spelled {name : String} {β : Type} {d : Decoder β} {set : β → α → α}
    (hfield : r.field? name = some (.defaulted name d set)) {v : Value} {b : β}
    (hset : set b r.blank = r.blank) (hread : ∀ room t, Spells t v → d (room + 1) t = .ok b) :
    ∃ f ∈ r.fields, f.name = name ∧ f.required = false ∧
      ∀ room t, Spells t v → ∃ effect, f.read (room + 1) t = .ok effect ∧
        effect r.blank = r.blank := by
  refine ⟨_, (field?_eq_some hfield).1, rfl, rfl, fun room t ht => ⟨set b, ?_, hset⟩⟩
  exact map_eq_ok.mpr ⟨b, hread room t ht, rfl⟩

/-- A member that is null. -/
theorem Record.blank_of_null {name : String} {β : Type} {d : Decoder β} {set : Option β → α → α}
    (hfield : r.field? name = some (.defaulted name d.optional set))
    (hset : set none r.blank = r.blank) :
    ∃ f ∈ r.fields, f.name = name ∧ f.required = false ∧
      ∀ room t, Spells t .null → ∃ effect, f.read (room + 1) t = .ok effect ∧
        effect r.blank = r.blank :=
  blank_of_spelled hfield hset fun room => decodes_null (room + 1)

end Json

open Json

/-! ## The records of the client -/

/-- An event names its tenant and its content; the rest may be left out. -/
def Event.shape : Shape :=
  [("tenant_id", none), ("content", none), ("content_type", some .null), ("level", some .null),
    ("parent_id", some .null), ("task_status", some .null), ("task_progress", some .null)]

/-- The fields of an event are those of its shape, and what may be left out is null. -/
theorem Event.regular : Event.record.Regular shape where
  declared := rfl
  nodup := by decide
  apart := by
    simp only [record, List.pairwise_cons, List.forall_mem_cons, List.not_mem_nil,
      IsEmpty.forall_iff, implies_true, List.Pairwise.nil, and_true]
    and_intros <;> exact Field.apart_of_comm fun _ _ _ => rfl
  blank := by
    simp only [shape, List.forall_mem_cons, Option.some.injEq, forall_eq', reduceCtorEq,
      IsEmpty.forall_iff, implies_true, true_and]
    refine ⟨?_, ?_, ?_, ?_, ?_, nofun⟩ <;> exact Record.blank_of_null rfl rfl

/-- A receipt is complete. -/
def Receipt.shape : Shape :=
  [("status", none), ("event_id", none)]

/-- A receipt has no defaults. -/
theorem Receipt.regular : Receipt.record.Regular shape where
  declared := rfl
  nodup := by decide
  apart := by
    simp only [record, List.pairwise_cons, List.forall_mem_cons, List.not_mem_nil,
      IsEmpty.forall_iff, implies_true, List.Pairwise.nil, and_true]
    exact Field.apart_of_comm fun _ _ _ => rfl
  blank := by simp [shape]

/-- A query has a text; what may be left out are open bounds, and options that are not asked for. -/
def Query.shape : Shape :=
  [("query", none), ("start_time", some .null), ("end_time", some .null),
    ("include_vector", some (.bool false)), ("enable_arbitration", some (.bool false)),
    ("min_score", some .null), ("graph_depth", some .null), ("as_of", some .null)]

/-- The bounds and numbers of a query are null by default, its two options false. -/
theorem Query.regular : Query.record.Regular shape where
  declared := rfl
  nodup := by decide
  apart := by
    simp only [record, List.pairwise_cons, List.forall_mem_cons, List.not_mem_nil,
      IsEmpty.forall_iff, implies_true, List.Pairwise.nil, and_true]
    and_intros <;> exact Field.apart_of_comm fun _ _ _ => rfl
  blank := by
    simp only [shape, List.forall_mem_cons, Option.some.injEq, forall_eq', reduceCtorEq,
      IsEmpty.forall_iff, implies_true, true_and]
    refine ⟨?_, ?_, ?_, ?_, ?_, ?_, ?_, nofun⟩
    · exact Record.blank_of_null rfl rfl
    · exact Record.blank_of_null rfl rfl
    · exact Record.blank_of_spelled rfl rfl fun room => decodes_bool false (room + 1)
    · exact Record.blank_of_spelled rfl rfl fun room => decodes_bool false (room + 1)
    · exact Record.blank_of_null rfl rfl
    · exact Record.blank_of_null rfl rfl
    · exact Record.blank_of_null rfl rfl

/-- An answer may be empty. -/
def Findings.shape : Shape :=
  [("stream_id", some .null), ("query", some .null), ("results", some (.array []))]

/-- An answer without results has none. -/
theorem Findings.regular : Findings.record.Regular shape where
  declared := rfl
  nodup := by decide
  apart := by
    simp only [record, List.pairwise_cons, List.forall_mem_cons, List.not_mem_nil,
      IsEmpty.forall_iff, implies_true, List.Pairwise.nil, and_true]
    and_intros <;> exact Field.apart_of_comm fun _ _ _ => rfl
  blank := by
    simp only [shape, List.forall_mem_cons, Option.some.injEq, forall_eq']
    refine ⟨?_, ?_, ?_, nofun⟩
    · exact Record.blank_of_null rfl rfl
    · exact Record.blank_of_null rfl rfl
    · exact Record.blank_of_spelled rfl rfl fun room _ =>
        listOf_spelled (fun _ => .null) [] nofun room

/-- A backlog is complete. -/
def Backlog.shape : Shape :=
  [("pending", none), ("ready", none)]

/-- A backlog has no defaults either. -/
theorem Backlog.regular : Backlog.record.Regular shape where
  declared := rfl
  nodup := by decide
  apart := by
    simp only [record, List.pairwise_cons, List.forall_mem_cons, List.not_mem_nil,
      IsEmpty.forall_iff, implies_true, List.Pairwise.nil, and_true]
    exact Field.apart_of_comm fun _ _ _ => rfl
  blank := by simp [shape]

/-- Settings that say nothing are the standard ones. -/
def Settings.shape : Shape :=
  [("endpoints", some (.array [.string "http://localhost:3000"])),
    ("tenant_id", some (.string "default")), ("timeout_ms", some (.number (.integer 30000)))]

/-- What settings leave out has the standard that the blank record holds. -/
theorem Settings.regular : Settings.record.Regular shape where
  declared := rfl
  nodup := by decide
  apart := by
    simp only [record, List.pairwise_cons, List.forall_mem_cons, List.not_mem_nil,
      IsEmpty.forall_iff, implies_true, List.Pairwise.nil, and_true]
    and_intros <;> exact Field.apart_of_comm fun _ _ _ => rfl
  blank := by
    simp only [shape, List.forall_mem_cons, Option.some.injEq, forall_eq']
    refine ⟨?_, ?_, ?_, nofun⟩
    · exact Record.blank_of_spelled rfl rfl fun room _ =>
        listOf_spelled .string ["http://localhost:3000"] (fun s _ => decodes_string s) room
    · exact Record.blank_of_spelled rfl rfl fun room => decodes_string "default" (room + 1)
    · exact Record.blank_of_spelled rfl rfl fun room => decodes_uint64 "u64" 30000 (room + 1)

/-- A text that is read. -/
theorem Json.exists_decode {α : Type} {d : Decoder α} (s : String)
    (h : (decode d (Utf8.encode s)).isOk = true) : ∃ bs a, decode d bs = .ok a := by
  cases hdecode : decode d (Utf8.encode s) with
  | ok a => exact ⟨_, a, hdecode⟩
  | error p =>
    rw [hdecode] at h
    cases h

/-- **All records of the client are compatible**, each with its members and their defaults. -/
theorem records_compatible :
    Event.record.Compatible Event.shape ∧ Receipt.record.Compatible Receipt.shape ∧
      Query.record.Compatible Query.shape ∧ Findings.record.Compatible Findings.shape ∧
      Backlog.record.Compatible Backlog.shape ∧ Settings.record.Compatible Settings.shape := by
  refine ⟨Event.regular.compatible ?_, Receipt.regular.compatible ?_, Query.regular.compatible ?_,
    Findings.regular.compatible ?_, Backlog.regular.compatible ?_, Settings.regular.compatible ?_⟩
  · exact exists_decode "[\"t\",\"c\"]" (by decide +kernel)
  · exact exists_decode "[\"\",\"00000000-0000-0000-0000-000000000000\"]" (by decide +kernel)
  · exact exists_decode "[\"q\"]" (by decide +kernel)
  · exact exists_decode "[]" (by decide +kernel)
  · exact exists_decode "[0,true]" (by decide +kernel)
  · exact exists_decode "[]" (by decide +kernel)

/-! ## Texts that come to the same -/

instance (s : Shape) (ms : List (Token × Tree)) : Decidable (s.Single ms) := by
  unfold Shape.Single
  infer_instance

/-- A string without escapes. -/
def plainString (s : String) : Scalar :=
  .string ((Utf8.encode s).map .byte)

/-- A member whose name has no escapes. -/
def plainMember (name : String) (t : Tree) : Token × Tree :=
  (.scalar (plainString name), t)

/-- The name of the tenant. -/
def tenantMember : Token × Tree :=
  plainMember "tenant_id" (.scalar (plainString "acme"))

/-- A member that settings do not have. -/
def zoneMember : Token × Tree :=
  plainMember "zone" (.array [.scalar .null, .object []])

/-- The time limit where settings say nothing. -/
def timeoutMember : Token × Tree :=
  plainMember "timeout_ms" (.scalar (.number ⟨false, [3, 0, 0, 0, 0], [], none⟩))

/-- Settings that name the tenant and nothing else. -/
def briefSettings : List UInt8 :=
  Utf8.encode "\x7b\"tenant_id\":\"acme\"\x7d"

/-- The same, after a foreign member and a default that is written out. -/
def wordySettings : List UInt8 :=
  Utf8.encode (" \x7b\"zone\": [null, \x7b\x7d], \"timeout_ms\":30000,\n" ++
    "\"tenant_id\":\"acme\"\x7d")

/-- One hit, a bare unit. -/
def resultsMember : Token × Tree :=
  plainMember "results" (.array [.scalar (.number ⟨false, [1], [], none⟩)])

/-- All members of an answer, in their order. -/
def findingsMembers : List (Token × Tree) :=
  [plainMember "stream_id" (.scalar .null), plainMember "query" (.scalar (plainString "q")),
    resultsMember]

/-- Both texts of settings are read, and as the same settings; so is an answer whose values stand in
an array. An answer that has its hits twice is not read, and no receipt without its event. -/
theorem records_compatible_of_messages :
    (decode Settings.record.decoder briefSettings =
        .ok ⟨["http://localhost:3000"], "acme", 30000⟩ ∧
      decode Settings.record.decoder wordySettings =
        .ok ⟨["http://localhost:3000"], "acme", 30000⟩) ∧
    (∃ a, a.hits.length = 1 ∧
      decode Findings.record.decoder
        (Utf8.encode "\x7b\"stream_id\":null,\"query\":\"q\",\"results\":[1]\x7d") = .ok a ∧
      decode Findings.record.decoder (Utf8.encode "[null,\"q\",[1]]") = .ok a) ∧
    (∃ p, decode Findings.record.decoder
      (Utf8.encode "\x7b\"results\":[1],\"results\":[1]\x7d") = .error p) ∧
    ∃ p, decode Receipt.record.decoder (Utf8.encode "\x7b\"status\":\"stored\"\x7d") =
      .error p := by
  obtain ⟨-, hreceipt, -, hfindings, -, hsettings⟩ := records_compatible
  refine ⟨?settings, ?listed, ?repeated, ?missing⟩
  case settings =>
    have hbrief : decode Settings.record.decoder briefSettings =
        .ok ⟨["http://localhost:3000"], "acme", 30000⟩ := by decide +kernel
    have hbriefText : TreeText (.object [tenantMember]) briefSettings :=
      treeText_iff.mpr ⟨rfl, by decide +kernel⟩
    have hwordyText : TreeText (.object [zoneMember, timeoutMember, tenantMember]) wordySettings :=
      treeText_iff.mpr ⟨rfl, by decide +kernel⟩
    have hsingle : Settings.shape.Single [zoneMember, timeoutMember, tenantMember] := by
      decide +kernel
    have hperm : ([zoneMember, timeoutMember] ++ [tenantMember]).Perm
        ([tenantMember] ++ [zoneMember, timeoutMember]) := List.perm_append_comm
    have hzone : Settings.shape.Foreign zoneMember :=
      ⟨⟨"zone", by decide +kernel, by decide +kernel⟩, rfl⟩
    have htimeout : Settings.shape.Standard timeoutMember := by
      have hnumeral : NumeralText (Utf8.encodeChars (Number.integer 30000).written)
          ⟨false, [3, 0, 0, 0, 0], [], none⟩ := numeralText_integer 30000
      exact ⟨"timeout_ms", .number (.integer 30000), by simp [Settings.shape], by decide +kernel,
        .number hnumeral⟩
    have hextra : ∀ m ∈ [zoneMember, timeoutMember],
        Settings.shape.Foreign m ∨ Settings.shape.Standard m :=
      List.forall_mem_cons.mpr ⟨.inl hzone, List.forall_mem_cons.mpr ⟨.inr htimeout, nofun⟩⟩
    exact ⟨hbrief, (hsettings.rearranged hbriefText hwordyText hsingle hperm hextra _).mp hbrief⟩
  case listed =>
    have hobject : TreeText (.object findingsMembers)
        (Utf8.encode "\x7b\"stream_id\":null,\"query\":\"q\",\"results\":[1]\x7d") :=
      treeText_iff.mpr ⟨rfl, by decide +kernel⟩
    have harray : TreeText (.array (findingsMembers.map Prod.snd))
        (Utf8.encode "[null,\"q\",[1]]") := treeText_iff.mpr ⟨rfl, by decide +kernel⟩
    have hnames : List.Forall₂ (fun name m => m.1.name = .ok name) Findings.shape.names
        findingsMembers :=
      .cons (by decide +kernel) (.cons (by decide +kernel) (.cons (by decide +kernel) .nil))
    have hread : (decode Findings.record.decoder (Utf8.encode
        "\x7b\"stream_id\":null,\"query\":\"q\",\"results\":[1]\x7d")).map (·.hits.length) =
          .ok 1 := by decide +kernel
    obtain ⟨a, ha, hlength⟩ := Decoder.map_eq_ok.mp hread
    exact ⟨a, hlength, ha, (hfindings.listed hnames hobject harray a).mp ha⟩
  case repeated =>
    have htext : TreeText (.object ([] ++ resultsMember :: ([] ++ [resultsMember])))
        (Utf8.encode "\x7b\"results\":[1],\"results\":[1]\x7d") :=
      treeText_iff.mpr ⟨rfl, by decide +kernel⟩
    have hname : resultsMember.1.name = .ok "results" := by decide +kernel
    exact hfindings.repeated htext (by decide +kernel) hname hname
  case missing =>
    have htext : TreeText (.object [plainMember "status" (.scalar (plainString "stored"))])
        (Utf8.encode "\x7b\"status\":\"stored\"\x7d") := treeText_iff.mpr ⟨rfl, by decide +kernel⟩
    exact hreceipt.missing htext (by simp [Receipt.shape] : ("event_id", none) ∈ Receipt.shape)
      (by decide +kernel)

end ClusterClient
