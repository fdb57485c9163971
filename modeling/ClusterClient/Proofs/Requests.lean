import ClusterClient.Proofs.Course

/-!
# What every attempt of a call sends

A call makes its request once, when it is started, and every attempt sends that request: a retry
repeats the write of the first attempt, for the same tenant. The caller may list header fields of
any names in any letter case, also those that the router sets. They never reach a node with the
caller's value.

* **`Request.Honours`**: what a request owes to the caller's draft, and what to the tenant.
* **`Roster.request_honours`**: the request of a roster does.
* **`World.tenant_isolation`**: so does whatever an attempt sends, in every schedule.
-/

namespace ClusterClient

/-- What a request owes to the caller's draft, whose header fields were listed in some order, and
what to the tenant. -/
structure Request.Honours (req : Request) (d : Draft) (fields : List (String × String))
    (tenant : String) : Prop where
  method : req.method = d.method
  body : req.body = d.body
  slash : req.path.toList.head? = some '/'
  path : req.path = d.path ∨ d.path.toList.head? ≠ some '/' ∧ req.path = "/" ++ d.path
  tenantField : req.headers.values tenantHeader = [tenant]
  typeField : req.headers.values contentTypeHeader = [jsonType]
  /-- Any other name has the caller's values, in the caller's order. -/
  others : ∀ name : String, name.toLower ≠ tenantHeader → name.toLower ≠ contentTypeHeader →
    req.headers.values name = (fields.filter fun f => f.1.toLower == name.toLower).map Prod.snd
  /-- There is no field besides. -/
  only : ∀ h ∈ req.headers, h = (tenantHeader, tenant) ∨ h = (contentTypeHeader, jsonType) ∨
    ∃ f ∈ fields, h = (f.1.toLower, f.2)

namespace Roster

variable (r : Roster) (hs : Headers)

/-- Whatever headers are given, the tenant's is the client's own. -/
theorem values_headers_tenant : (r.headers hs).values tenantHeader = [r.tenant] := by
  have hne : tenantHeader.toLower ≠ contentTypeHeader.toLower := by
    rw [toLower_tenantHeader, toLower_contentTypeHeader]
    decide
  rw [headers, Headers.values_set_of_ne hne, Headers.values_set_self]

theorem values_headers_type : (r.headers hs).values contentTypeHeader = [jsonType] :=
  Headers.values_set_self _ _ _

/-- All other headers are sent as they are given. -/
theorem values_headers_of_ne {name : String} (htenant : name.toLower ≠ tenantHeader)
    (htype : name.toLower ≠ contentTypeHeader) : (r.headers hs).values name = hs.values name := by
  rw [← toLower_tenantHeader] at htenant
  rw [← toLower_contentTypeHeader] at htype
  rw [headers, Headers.values_set_of_ne htype, Headers.values_set_of_ne htenant]

/-- No header is sent beside these. -/
theorem mem_headers {h : String × String} (hmem : h ∈ r.headers hs) :
    h = (tenantHeader, r.tenant) ∨ h = (contentTypeHeader, jsonType) ∨ h ∈ hs := by
  rw [headers, Headers.mem_set, Headers.mem_set, toLower_tenantHeader,
    toLower_contentTypeHeader] at hmem
  rcases hmem with ⟨⟨hold, -⟩ | htenant, -⟩ | htype
  · exact .inr (.inr hold)
  · exact .inl htenant
  · exact .inr (.inl htype)

/-- **The request of a roster.** -/
theorem request_honours {d : Draft} {fields : List (String × String)}
    (hfields : d.headers = Headers.ofList fields) : (r.request d).Honours d fields r.tenant where
  method := rfl
  body := rfl
  slash := head?_absolutePath d.path
  path := by
    by_cases h : d.path.toList.head? = some '/'
    · exact .inl (absolutePath_of_slash h)
    · exact .inr ⟨h, absolutePath_of_no_slash h⟩
  tenantField := r.values_headers_tenant d.headers
  typeField := r.values_headers_type d.headers
  others name htenant htype := by
    show (r.headers d.headers).values name = _
    rw [r.values_headers_of_ne d.headers htenant htype, hfields, Headers.values_ofList]
  only h hmem := by
    rcases r.mem_headers d.headers hmem with htenant | htype | hold
    · exact .inl htenant
    · exact .inr (.inl htype)
    · rw [hfields] at hold
      obtain ⟨f, hf, rfl⟩ := List.mem_map.mp hold
      exact .inr (.inr ⟨f, hf, rfl⟩)

end Roster

namespace World

/-- **One request for all attempts.** -/
theorem request_of_sending {w : World} (hw : w.WellFormed) {handle : Handle} {r : Router}
    (hr : w.routerOf? handle = some r) {id : String} {purpose : Purpose} {token : Option String}
    {script : List Planned} {after : List Act} {s : Sending}
    (hs : s ∈ (w.exec (.start id handle purpose token script :: after)).sendings w.jobs.length) :
    s.request = r.roster.request (purpose.draft handle.stream r.roster.tenant) := by
  obtain ⟨job, hjob, hsame⟩ := continues_exec (started_job hr id purpose token script) after
  rw [← exec_cons] at hjob
  obtain ⟨r', hr', -⟩ := (hw.exec _).fits w.jobs.length job hjob
  rw [sendings_exec hw (Nat.le_refl _) _ hjob hr'] at hs
  obtain ⟨place, -, rfl⟩ := List.mem_map.mp hs
  exact hsame.request

/-- **Isolation of tenants.** Whatever call a client starts, and whatever else happens before and
after, all its attempts send one request. The request honours the caller's draft and bears the
tenant of the client's router; when the call is to note a text, so does its body. -/
theorem tenant_isolation {w : World} (hw : w.WellFormed) (before after : List Act) (id : String)
    (handle : Handle) (purpose : Purpose) (token : Option String) (script : List Planned)
    {r : Router} (hr : (w.exec before).routerOf? handle = some r)
    {fields : List (String × String)}
    (hfields : (purpose.draft handle.stream r.roster.tenant).headers = Headers.ofList fields) :
    ∃ request : Request,
      (∀ s ∈ (w.exec (before ++ .start id handle purpose token script :: after)).sendings
        (w.exec before).jobs.length, s.request = request) ∧
      request.Honours (purpose.draft handle.stream r.roster.tenant) fields r.roster.tenant ∧
      ∀ content, purpose = .note r.roster content →
        ∃ body, request.body = some body ∧ body.textOf? "tenant_id" = some r.roster.tenant := by
  refine ⟨r.roster.request (purpose.draft handle.stream r.roster.tenant), ?_,
    r.roster.request_honours hfields, ?_⟩
  · intro s hs
    rw [exec_append] at hs
    exact request_of_sending (hw.exec before) hr hs
  · rintro content rfl
    exact ⟨_, rfl, Event.tenant_toValue _⟩

/-- Header fields that claim another tenant, twice, and another type. -/
def impostorFields : List (String × String) :=
  [("X-Tenant-Id", "evil"), ("X-Trace", "1"), ("x-tenant-id", "worse"),
    ("Content-Type", "text/plain"), ("x-trace", "2")]

/-- A caller's own request with these fields. -/
def impostor : Draft :=
  ⟨.post, "v1/x", some (.bool true), .ofList impostorFields⟩

/-- Both attempts of a call with this request, to one node and to the other, send the tenant and the
type of the router, and the caller's other field with both its values. A text that is noted bears
the tenant in its body. -/
theorem tenant_isolation_of_impostor :
    let w := (pair 0).exec [.start "x" ⟨0, .nil⟩ (.plain impostor) none [.refusal, .broken],
      .work 0, .work 0, .work 0]
    let noted := (pair 0).exec [.start "x" ⟨0, .nil⟩ (.note .pair "hello") none [.broken], .work 0]
    w.targets 0 = [0, 1] ∧ (∀ s ∈ w.sendings 0, s.request.method = .post ∧
      s.request.path = "/v1/x" ∧ s.request.body = some (.bool true) ∧
      s.request.headers.values "x-tenant-id" = ["acme"] ∧
      s.request.headers.values "content-type" = ["application/json"] ∧
      s.request.headers.values "X-Trace" = ["1", "2"]) ∧
    noted.targets 0 = [0] ∧ ∀ s ∈ noted.sendings 0,
      ∃ body, s.request.body = some body ∧ body.textOf? "tenant_id" = some "acme" := by
  intro w noted
  have hwf : (pair 0).WellFormed := .pair (by decide)
  have hclient : ((pair 0).exec []).routerOf? ⟨0, .nil⟩ = some ⟨.pair, 0⟩ := rfl
  have hfields : (Purpose.draft .nil "acme" (.plain impostor)).headers =
      Headers.ofList impostorFields := rfl
  obtain ⟨request, hsame, hhonours, -⟩ := tenant_isolation hwf [] [.work 0, .work 0, .work 0] "x"
    ⟨0, .nil⟩ (.plain impostor) none [.refusal, .broken] hclient hfields
  have hnone : (Purpose.draft .nil "acme" (.note .pair "hello")).headers = Headers.ofList [] := rfl
  obtain ⟨request', hsame', -, hnote⟩ := tenant_isolation hwf [] [.work 0] "x" ⟨0, .nil⟩
    (.note .pair "hello") none [.broken] hclient hnone
  refine ⟨rfl, ?_, rfl, ?_⟩
  · intro s hs
    rw [hsame s hs]
    have hlower : "X-Trace".toLower = "x-trace" := by
      rw [toLower_eq]
      decide
    have htrace : request.headers.values "X-Trace" = ["1", "2"] := by
      rw [hhonours.others "X-Trace" (by rw [hlower]; decide) (by rw [hlower]; decide)]
      simp only [toLower_eq]
      decide
    -- the path had no slash, so it was given one
    have hpath : request.path = "/v1/x" := by
      rcases hhonours.path with hkept | ⟨-, hslash⟩
      · have hhead := hhonours.slash
        rw [hkept] at hhead
        exact absurd hhead (by decide)
      · exact hslash
    exact ⟨hhonours.method, hpath, hhonours.body, hhonours.tenantField, hhonours.typeField, htrace⟩
  · intro s hs
    rw [hsame' s hs]
    exact hnote "hello" rfl

end World

end ClusterClient
