import ClusterClient.Proofs.Requests
import ClusterClient.Proofs.Utf8

/-!
# What an operation addresses

An operation of a client works on one resource of the cluster: the events of a stream, the memory of
a stream, the data of a tenant, or the backlog. Method and path of its request name this resource,
so two operations send the same method and path exactly when they work on the same resource. That
hangs on two encodings: identifiers are written with a fixed number of digits, and the name of a
tenant is written so that it is one segment of the path, whatever characters it has.

* **`Resource`**, **`Operation.resource`**: what an operation works on.
* **`Resource.line_injective`**: no two resources have the same method and path.
* **`World.resources_apart`**: what attempts of operations send.
-/

namespace ClusterClient

/-! ## Segments -/

/-- A character that stands for itself in a segment. -/
def isUnreservedChar (c : Char) : Bool :=
  c.isAlphanum || c = '-' || c = '.' || c = '_' || c = '~'

def isUpperHexDigit (c : Char) : Bool :=
  c.isDigit || ('A' ≤ c && c ≤ 'F')

/-- A segment of a path as it is written. -/
inductive Segment : List Char → Prop where
  | nil : Segment []
  | plain {c : Char} {cs : List Char} (unreserved : isUnreservedChar c = true)
      (rest : Segment cs) : Segment (c :: cs)
  | escaped {a b : Char} {cs : List Char} (high : isUpperHexDigit a = true)
      (low : isUpperHexDigit b = true) (rest : Segment cs) : Segment ('%' :: a :: b :: cs)

/-- No character of a segment ends it. -/
theorem Segment.not_mem {cs : List Char} (h : Segment cs) {c : Char} (hchar : c ∈ cs) :
    c ≠ '/' ∧ c ≠ '?' ∧ c ≠ '#' := by
  have hhex : ∀ d : Char, isUpperHexDigit d = true → d ≠ '/' ∧ d ≠ '?' ∧ d ≠ '#' := by
    rintro d hd
    refine ⟨?_, ?_, ?_⟩ <;> rintro rfl <;> exact absurd hd (by decide)
  induction h with
  | nil => cases hchar
  | plain unreserved rest ih =>
    rcases List.mem_cons.mp hchar with rfl | hrest
    · refine ⟨?_, ?_, ?_⟩ <;> rintro rfl <;> exact absurd unreserved (by decide)
    · exact ih hrest
  | escaped high low rest ih =>
    simp only [List.mem_cons] at hchar
    rcases hchar with rfl | rfl | rfl | hrest
    · decide
    · exact hhex _ high
    · exact hhex _ low
    · exact ih hrest

/-- Two parts of one segment are part of a segment. -/
theorem Segment.append {cs ds : List Char} (hc : Segment cs) (hd : Segment ds) :
    Segment (cs ++ ds) := by
  induction hc with
  | nil => exact hd
  | plain unreserved _ ih => exact .plain unreserved ih
  | escaped high low _ ih => exact .escaped high low ih

/-- The digits after a percent sign are written in upper case. -/
theorem isUpperHexDigit_hexDigit (n : Nat) : isUpperHexDigit (hexDigit n).toUpper = true := by
  have all : ∀ d : Fin 16, isUpperHexDigit (hexDigit d.val).toUpper = true := by decide
  have h := all ⟨n % 16, Nat.mod_lt n (by decide)⟩
  simpa [hexDigit] using h

/-- A byte that need not be encoded is a character that may stand in a segment. -/
theorem isUnreservedChar_of_byte {b : UInt8} (h : isUnreserved b = true) :
    isUnreservedChar (Char.ofNat b.toNat) = true := by
  have all : ∀ n : Fin 128, isUnreserved (UInt8.ofNat n.val) = true →
      isUnreservedChar (Char.ofNat n.val) = true := by decide +kernel
  exact all ⟨b.toNat, (toNat_of_isUnreserved h).1⟩ (by simpa using h)

/-- **What is percent-encoded is a segment.** -/
theorem segment_percentEncode (bytes : List UInt8) : Segment (percentEncode bytes) := by
  induction bytes with
  | nil => exact .nil
  | cons b bytes ih =>
    rw [percentEncode, List.flatMap_cons]
    refine Segment.append ?_ ih
    unfold percentByte
    split
    · next hb => exact .plain (isUnreservedChar_of_byte hb) .nil
    · exact .escaped (isUpperHexDigit_hexDigit _) (isUpperHexDigit_hexDigit _) .nil

/-- Different bytes are encoded differently, since encoding can be undone. -/
theorem percentEncode_injective {xs ys : List UInt8} (h : percentEncode xs = percentEncode ys) :
    xs = ys := by
  have hdecoded := congrArg percentDecode? h
  rw [percentDecode?_percentEncode, percentDecode?_percentEncode] at hdecoded
  exact Option.some.inj hdecoded

/-! ## Paths -/

theorem toList_streamPath (stream : Uuid) (resource : String) :
    (streamPath stream resource).toList =
      "/v1/streams/".toList ++ (stream.text ++ '/' :: resource.toList) := by
  simp [streamPath]

theorem toList_tenantPath (tenant : String) :
    (tenantPath tenant).toList = "/v1/tenants/".toList ++ percentEncode (Utf8.encode tenant) := by
  simp [tenantPath]

/-- Identifiers are of one length, so a path shows where they end. -/
theorem streamPath_inj {stream stream' : Uuid} {resource resource' : String}
    (h : streamPath stream resource = streamPath stream' resource') :
    stream = stream' ∧ resource = resource' := by
  have hlists := congrArg String.toList h
  rw [toList_streamPath, toList_streamPath] at hlists
  have hrest := List.append_cancel_left hlists
  have hlength : stream.text.length = stream'.text.length := by
    rw [Uuid.length_text, Uuid.length_text]
  obtain ⟨htext, hresource⟩ := List.append_inj hrest hlength
  exact ⟨Uuid.text_injective htext, String.toList_inj.mp (List.cons.inj hresource).2⟩

/-- Different tenants have different paths. -/
theorem tenantPath_inj {tenant tenant' : String} (h : tenantPath tenant = tenantPath tenant') :
    tenant = tenant' := by
  have hlists := congrArg String.toList h
  rw [toList_tenantPath, toList_tenantPath] at hlists
  exact Utf8.encode_injective (percentEncode_injective (List.append_cancel_left hlists))

/-! ## Resources -/

/-- What an operation works on. -/
inductive Resource where
  /-- The events of a stream. -/
  | events (stream : Uuid)
  /-- What has become of the events of a stream. -/
  | memory (stream : Uuid)
  | tenant (name : String)
  | backlog
  deriving DecidableEq, Repr

/-- What an operation works on, for the stream and the tenant of the client. -/
def Operation.resource (stream : Uuid) (tenant : String) : Operation → Resource
  | .store _ => .events stream
  | .search _ => .memory stream
  | .erase target => .tenant (target.getD tenant)
  | .backlog => .backlog

/-- Method and path of a request. -/
def Request.line (r : Request) : Method × String := (r.method, r.path)

namespace Resource

/-- The method and the path that a resource is addressed with. -/
def line : Resource → Method × String
  | .events stream => (.post, streamPath stream "events")
  | .memory stream => (.post, streamPath stream "retrieve")
  | .tenant name => (.delete, tenantPath name)
  | .backlog => (.get, backlogPath)

/-- **No two resources are addressed alike.** -/
theorem line_injective : Function.Injective line := by
  intro x y h
  have hmethod := congrArg Prod.fst h
  have hpath := congrArg Prod.snd h
  cases x with
  | events stream =>
    cases y with
    | events stream' => rw [(streamPath_inj hpath).1]
    | memory stream' => exact absurd (streamPath_inj hpath).2 (by decide)
    | tenant | backlog => cases hmethod
  | memory stream =>
    cases y with
    | events stream' => exact absurd (streamPath_inj hpath).2 (by decide)
    | memory stream' => rw [(streamPath_inj hpath).1]
    | tenant | backlog => cases hmethod
  | tenant name =>
    cases y with
    | tenant name' => rw [tenantPath_inj hpath]
    | events | memory | backlog => cases hmethod
  | backlog =>
    cases y with
    | backlog => rfl
    | events | memory | tenant => cases hmethod

end Resource

/-- The request of an operation addresses what the operation works on. -/
theorem Operation.line_request (o : Operation) (r : Roster) (stream : Uuid) :
    (r.request (o.draft stream r.tenant)).line = (o.resource stream r.tenant).line := by
  have hstream : ∀ resource : String, (streamPath stream resource).toList.head? = some '/' := by
    intro resource
    rw [toList_streamPath]
    rfl
  have htenant : ∀ tenant : String, (tenantPath tenant).toList.head? = some '/' := by
    intro tenant
    rw [toList_tenantPath]
    rfl
  have hbacklog : backlogPath.toList.head? = some '/' := by decide
  simp only [Request.line, Roster.request]
  -- the path of every operation begins with a slash already
  cases o with
  | store e =>
    simp only [Operation.draft, Operation.resource, Resource.line]
    rw [absolutePath_of_slash (hstream "events")]
  | search q =>
    simp only [Operation.draft, Operation.resource, Resource.line]
    rw [absolutePath_of_slash (hstream "retrieve")]
  | erase target =>
    simp only [Operation.draft, Operation.resource, Resource.line]
    rw [absolutePath_of_slash (htenant (target.getD r.tenant))]
  | backlog =>
    simp only [Operation.draft, Operation.resource, Resource.line]
    rw [absolutePath_of_slash hbacklog]

namespace World

/-- In some run an attempt of an operation is sent, for a client with this stream and this
tenant. -/
def Sends (o : Operation) (stream : Uuid) (tenant : String) (s : Sending) : Prop :=
  ∃ (w : World) (handle : Handle) (r : Router) (id : String) (token : Option String)
    (script : List Planned) (after : List Act),
    w.WellFormed ∧ w.routerOf? handle = some r ∧ handle.stream = stream ∧
      r.roster.tenant = tenant ∧
      s ∈ (w.exec (.start id handle (.operation o) token script :: after)).sendings w.jobs.length

/-- The line of every request is that of the resource that the operation is about. -/
theorem Sends.line_eq {o : Operation} {stream : Uuid} {tenant : String} {s : Sending}
    (h : Sends o stream tenant s) : s.request.line = (o.resource stream tenant).line := by
  obtain ⟨w, handle, r, id, token, script, after, hw, hr, rfl, rfl, hs⟩ := h
  rw [request_of_sending hw hr hs]
  exact o.line_request r.roster handle.stream

/-- What an attempt sends is the body of the operation. -/
theorem Sends.body_eq {o : Operation} {stream : Uuid} {tenant : String} {s : Sending}
    (h : Sends o stream tenant s) : s.request.body = (o.draft stream tenant).body := by
  obtain ⟨w, handle, r, id, token, script, after, hw, hr, rfl, rfl, hs⟩ := h
  rw [request_of_sending hw hr hs]
  rfl

/-- A run of one operation on one node. -/
theorem exists_sends (o : Operation) (stream : Uuid) (tenant : String) :
    ∃ s, Sends o stream tenant s := by
  let roster : Roster := ⟨["http://a"], tenant⟩
  have hw : (single roster stream).WellFormed := by
    refine .of_idle rfl rfl ?_
    intro r hr
    obtain rfl := List.mem_singleton.mp hr
    exact Nat.one_pos
  exact ⟨⟨0, "http://a", roster.request (o.draft stream tenant)⟩, single roster stream,
    ⟨0, stream⟩, ⟨roster, 0⟩, "x", none, [], [.work 0], hw, rfl, rfl, rfl, List.mem_singleton_self _⟩

/-- **Different resources never share a request line.** Attempts of any two operations, of the same
client or of different ones, send the same method and path exactly when the operations work on the
same resource: they are of the same kind, and on the same stream or the same tenant, which is the
client's own where none is named. The path for a tenant ends in one segment of unreserved characters
and escapes, in which nothing stands that ends a segment, and decoding it gives the tenant's
bytes. -/
theorem resources_apart :
    (∀ o stream tenant, ∃ s, Sends o stream tenant s) ∧
    (∀ o o' stream stream' tenant tenant' s s', Sends o stream tenant s →
      Sends o' stream' tenant' s' →
        (s.request.line = s'.request.line ↔
          o.resource stream tenant = o'.resource stream' tenant')) ∧
    ∀ target stream tenant s, Sends (.erase target) stream tenant s →
      ∃ segment, s.request.line = (.delete, "/v1/tenants/" ++ String.ofList segment) ∧
        Segment segment ∧ (∀ c ∈ segment, c ≠ '/' ∧ c ≠ '?' ∧ c ≠ '#') ∧
        percentDecode? segment = some (Utf8.encode (target.getD tenant)) := by
  refine ⟨exists_sends, ?_, ?_⟩
  · intro o o' stream stream' tenant tenant' s s' hs hs'
    rw [hs.line_eq, hs'.line_eq]
    exact Resource.line_injective.eq_iff
  · intro target stream tenant s hs
    have hsegment := segment_percentEncode (Utf8.encode (target.getD tenant))
    exact ⟨_, hs.line_eq, hsegment, fun c hc => hsegment.not_mem hc,
      percentDecode?_percentEncode _⟩

/-- Two clients delete: one the tenant `a/b` by name, the other, whose own name is the written form
of that one, itself. They do not meet. A third one, which is `a/b` itself, sends what the first one
sends. -/
theorem resources_apart_of_escape :
    ∃ s s' s'' : Sending, Sends (.erase (some "a/b")) .nil "x" s ∧ Sends (.erase none) .nil "a%2Fb" s' ∧
      Sends (.erase none) .nil "a/b" s'' ∧ s.request.line ≠ s'.request.line ∧
      s.request.line = s''.request.line ∧
      ∃ segment, s'.request.line = (.delete, "/v1/tenants/" ++ String.ofList segment) ∧
        percentDecode? segment = some (Utf8.encode "a%2Fb") := by
  obtain ⟨hsent, hlines, hsegment⟩ := resources_apart
  obtain ⟨s, hs⟩ := hsent (.erase (some "a/b")) .nil "x"
  obtain ⟨s', hs'⟩ := hsent (.erase none) .nil "a%2Fb"
  obtain ⟨s'', hs''⟩ := hsent (.erase none) .nil "a/b"
  have hother := hlines _ _ _ _ _ _ s s' hs hs'
  have hsame := hlines _ _ _ _ _ _ s s'' hs hs''
  obtain ⟨segment, hline, -, -, hdecoded⟩ := hsegment none .nil "a%2Fb" s' hs'
  exact ⟨s, s', s'', hs, hs', hs'', fun h => absurd (hother.mp h) (by decide), hsame.mpr (by decide),
    segment, hline, hdecoded⟩

end World

end ClusterClient
