import ClusterClient.Proofs.Requests

/-!
# Which settings make a client

Settings are looked through in a fixed order, and the first rule that they break is reported. A
roster of nodes looks through endpoints and tenant once more, by checks of its own, and is the only
one to ask whether the tenant can be sent. Between the two, the system is asked for an HTTP client.

## The architecture

* **`Settings.Breaks`**: the rules, each stated without the function that checks it.
* **`Misconfiguration.turn`**: the order in which they are looked at. `Settings.Passes` is how far
  settings get, and `Settings.FirstBroken` the rule at which they stop, of which there is one only.
* **`Settings.check_spec`**, **`Roster.build_spec`**, **`Roster.ofSettings_spec`**: one lemma for
  each of the three functions. The two sequences of checks climb the same stairs.
* **`HttpSystem.Works`**: what is relied on where a client is promised to all settings in order.
* **`Roster.construction`**: the account of all settings.
-/

namespace ClusterClient

/-- A text begins like a web URL. -/
def StartsWeb (endpoint : String) : Prop :=
  "http://".toList <+: endpoint.toList ∨ "https://".toList <+: endpoint.toList

theorem isWebUrl_iff {endpoint : String} : isWebUrl endpoint = true ↔ StartsWeb endpoint := by
  simp [isWebUrl, StartsWeb]

theorem isSendable_iff {b : UInt8} :
    isSendable b = true ↔ b = 9 ∨ 32 ≤ b.toNat ∧ b.toNat ≠ 127 := by
  simp [isSendable]

/-! ## The rules -/

/-- The rules that settings break. -/
inductive Settings.Breaks (s : Settings) : Misconfiguration → Prop where
  | noEndpoint (none : s.endpoints = []) : Settings.Breaks s .noEndpoint
  /-- All endpoints before this one are in order. -/
  | invalidEndpoint {before after : List String} {endpoint : String}
      (eq : s.endpoints = before ++ endpoint :: after) (valid : ∀ e ∈ before, StartsWeb e)
      (invalid : ¬ StartsWeb endpoint) : Settings.Breaks s (.invalidEndpoint endpoint)
  | noTenant (empty : s.tenant = "") : Settings.Breaks s .noTenant
  | noTimeout (zero : s.timeoutMillis = 0) : Settings.Breaks s .noTimeout
  | unsendableTenant {b : UInt8} (mem : b ∈ Utf8.encode s.tenant)
      (control : ¬(b = 9 ∨ 32 ≤ b.toNat ∧ b.toNat ≠ 127)) :
      Settings.Breaks s (.unsendableTenant s.tenant)

/-- When a rule has its turn. -/
@[simp] def Misconfiguration.turn : Misconfiguration → Nat
  | .noEndpoint => 0
  | .invalidEndpoint _ => 1
  | .noTenant => 2
  | .noTimeout => 3
  | .unsendableTenant _ => 4

/-- Two splittings of a list at its first member without a property are the same. -/
theorem eq_of_first {α : Type} {p : α → Prop} {es before before' after after' : List α}
    {e e' : α} (h : es = before ++ e :: after) (h' : es = before' ++ e' :: after')
    (hbefore : ∀ x ∈ before, p x) (hbefore' : ∀ x ∈ before', p x) (he : ¬ p e) (he' : ¬ p e') :
    e = e' := by
  induction before generalizing es before' with
  | nil =>
    cases before' with
    | nil => exact (List.cons.inj (h.symm.trans h')).1
    | cons x before' =>
      have hx : e = x := (List.cons.inj (h.symm.trans h')).1
      exact absurd (hbefore' e (hx ▸ List.mem_cons_self)) he
  | cons x before ih =>
    cases before' with
    | nil =>
      have hx : x = e' := (List.cons.inj (h.symm.trans h')).1
      exact absurd (hbefore e' (hx ▸ List.mem_cons_self)) he'
    | cons x' before' =>
      have htail := (List.cons.inj (h.symm.trans h')).2
      exact ih rfl htail (List.forall_mem_cons.mp hbefore).2 (List.forall_mem_cons.mp hbefore').2

namespace Settings

variable {s : Settings} {m m' : Misconfiguration}

/-- Settings keep all rules before a turn. -/
def Passes (s : Settings) (turn : Nat) : Prop :=
  ∀ m, s.Breaks m → turn ≤ m.turn

/-- The first rule that settings break. -/
def FirstBroken (s : Settings) (m : Misconfiguration) : Prop :=
  s.Breaks m ∧ s.Passes m.turn

/-- Settings that pass some checks and do not fail at the next one pass one more. -/
theorem Passes.succ {turn : Nat} (h : s.Passes turn) (hkeeps : ∀ m, s.Breaks m → m.turn ≠ turn) :
    s.Passes (turn + 1) := fun m hm =>
  Nat.lt_of_le_of_ne (h m hm) (Ne.symm (hkeeps m hm))

theorem passes_zero (s : Settings) : s.Passes 0 :=
  fun m _ => Nat.zero_le m.turn

/-- Each turn has one rule, and settings break it in one way. -/
theorem Breaks.eq_of_turn (h : s.Breaks m) (h' : s.Breaks m') (hturn : m.turn = m'.turn) :
    m = m' := by
  cases h with
  | noEndpoint | noTenant | noTimeout | unsendableTenant => cases h' <;> first | rfl | cases hturn
  | invalidEndpoint eq valid invalid =>
    cases h' with
    | invalidEndpoint eq' valid' invalid' =>
      rw [eq_of_first eq eq' valid valid' invalid invalid']
    | noEndpoint | noTenant | noTimeout | unsendableTenant => cases hturn

/-- **There is one first broken rule.** -/
theorem FirstBroken.unique (h : s.FirstBroken m) (h' : s.FirstBroken m') : m = m' :=
  h.1.eq_of_turn h'.1 (Nat.le_antisymm (h.2 m' h'.1) (h'.2 m h.1))

/-! ## The checks -/

/-- **What checking endpoints says.** It settles the first two turns. -/
theorem checkEndpoints_spec (s : Settings) :
    (∃ m, checkEndpoints s.endpoints = .error m ∧ s.FirstBroken m ∧ m.turn < 2) ∨
      checkEndpoints s.endpoints = .ok () ∧ s.Passes 2 := by
  unfold checkEndpoints
  by_cases hnone : s.endpoints = []
  · left
    rw [if_pos (by simp [hnone])]
    exact ⟨_, rfl, ⟨.noEndpoint hnone, s.passes_zero⟩, by decide⟩
  · rw [if_neg (by simp [hnone])]
    have hone : s.Passes 1 := s.passes_zero.succ fun m hm => by
      cases hm with
      | noEndpoint none => exact absurd none hnone
      | invalidEndpoint | noTenant | noTimeout | unsendableTenant => simp
    cases hfind : s.endpoints.find? (!isWebUrl ·) with
    | some endpoint =>
      -- the endpoint that is found is the first of its kind
      left
      obtain ⟨hinvalid, before, after, heq, hvalid⟩ := List.find?_eq_some_iff_append.mp hfind
      have hbreaks : s.Breaks (.invalidEndpoint endpoint) := by
        refine .invalidEndpoint heq (fun e he => ?_) fun hweb => ?_
        · exact isWebUrl_iff.mp (by simpa using hvalid e he)
        · simp [isWebUrl_iff.mpr hweb] at hinvalid
      exact ⟨_, rfl, ⟨hbreaks, hone⟩, Nat.lt_add_one 1⟩
    | none =>
      -- no endpoint breaks the second rule, so both are passed
      right
      refine ⟨rfl, hone.succ fun m hm => ?_⟩
      cases hm with
      | @invalidEndpoint before after endpoint eq valid invalid =>
        have hweb := List.find?_eq_none.mp hfind endpoint (by simp [eq])
        exact absurd (isWebUrl_iff.mp (by simpa using hweb)) invalid
      | noEndpoint | noTenant | noTimeout | unsendableTenant => simp

/-- The turn of the tenant. -/
theorem passes_three (h : s.Passes 2) (htenant : s.tenant ≠ "") : s.Passes 3 :=
  h.succ fun m hm => by
    cases hm with
    | noTenant empty => exact absurd empty htenant
    | noEndpoint | invalidEndpoint | noTimeout | unsendableTenant => simp

/-- The turn of the time limit. -/
theorem passes_four (h : s.Passes 3) (htimeout : s.timeoutMillis ≠ 0) : s.Passes 4 :=
  h.succ fun m hm => by
    cases hm with
    | noTimeout zero => exact absurd zero htimeout
    | noEndpoint | invalidEndpoint | noTenant | unsendableTenant => simp

/-- **What checking settings says.** It settles all turns but the last. -/
theorem check_spec (s : Settings) :
    (∃ m, s.check = .error m ∧ s.FirstBroken m ∧ m.turn < 4) ∨ s.check = .ok () ∧ s.Passes 4 := by
  unfold check
  rcases s.checkEndpoints_spec with ⟨m, hm, hfirst, hturn⟩ | ⟨hok, htwo⟩
  · rw [hm]
    exact .inl ⟨m, rfl, hfirst, by omega⟩
  · rw [hok]
    by_cases htenant : s.tenant = ""
    · left
      rw [if_pos (String.isEmpty_iff.mpr htenant)]
      exact ⟨_, rfl, ⟨.noTenant htenant, htwo⟩, by decide⟩
    have hthree := passes_three htwo htenant
    by_cases htimeout : s.timeoutMillis = 0
    · left
      dsimp only
      rw [if_neg (mt String.isEmpty_iff.mp htenant), if_pos htimeout]
      exact ⟨_, rfl, ⟨.noTimeout htimeout, hthree⟩, by decide⟩
    · right
      dsimp only
      rw [if_neg (mt String.isEmpty_iff.mp htenant), if_neg htimeout]
      exact ⟨rfl, passes_four hthree htimeout⟩

/-- Settings that pass all turns keep all rules. -/
theorem passes_five_iff : s.Passes 5 ↔ ∀ m, ¬ s.Breaks m := by
  constructor
  · intro h m hm
    have := h m hm
    cases hm <;> simp at this
  · exact fun h m hm => absurd hm (h m)

/-- **Settings that keep all rules**, rule by rule. -/
theorem passes_five_iff_rules : s.Passes 5 ↔
    s.endpoints ≠ [] ∧ (∀ e ∈ s.endpoints, StartsWeb e) ∧ s.tenant ≠ "" ∧ s.timeoutMillis ≠ 0 ∧
      ∀ b ∈ Utf8.encode s.tenant, b = 9 ∨ 32 ≤ b.toNat ∧ b.toNat ≠ 127 := by
  rw [passes_five_iff]
  constructor
  · intro h
    have hendpoints : checkEndpoints s.endpoints = .ok () := by
      rcases s.checkEndpoints_spec with ⟨m, -, hfirst, -⟩ | ⟨hok, -⟩
      · exact absurd hfirst.1 (h m)
      · exact hok
    refine ⟨fun hnone => h _ (.noEndpoint hnone), fun e he => ?_, fun hempty => h _ (.noTenant hempty),
      fun hzero => h _ (.noTimeout hzero), fun b hb => ?_⟩
    · -- the search for an endpoint that is no URL found none
      unfold checkEndpoints at hendpoints
      split at hendpoints
      · cases hendpoints
      · split at hendpoints
        · cases hendpoints
        · next hfind => exact isWebUrl_iff.mp (by simpa using List.find?_eq_none.mp hfind e he)
    · by_contra hcontrol
      exact h _ (.unsendableTenant hb hcontrol)
  · rintro ⟨hsome, hweb, htenant, htimeout, hbytes⟩ m hm
    -- each rule is broken in its own way
    cases hm with
    | noEndpoint none => exact hsome none
    | invalidEndpoint eq valid invalid => exact invalid (hweb _ (by simp [eq]))
    | noTenant empty => exact htenant empty
    | noTimeout zero => exact htimeout zero
    | unsendableTenant mem control => exact control (hbytes _ mem)

end Settings

namespace Roster

/-- **What building a roster says**, of any settings with its endpoints and its tenant and with a
time limit. -/
theorem build_spec {s : Settings} (htimeout : s.timeoutMillis ≠ 0) :
    (∃ m, build s.endpoints s.tenant = .error m ∧ s.FirstBroken m) ∨
      build s.endpoints s.tenant = .ok ⟨s.endpoints, s.tenant⟩ ∧ s.Passes 5 := by
  unfold build
  rcases s.checkEndpoints_spec with ⟨m, hm, hfirst, -⟩ | ⟨hok, htwo⟩
  · rw [hm]
    exact .inl ⟨m, rfl, hfirst⟩
  · rw [hok]
    by_cases htenant : s.tenant = ""
    · left
      rw [if_pos (String.isEmpty_iff.mpr htenant)]
      exact ⟨_, rfl, .noTenant htenant, htwo⟩
    -- a roster has no time limit, so that turn is passed by assumption
    have hfour := Settings.passes_four (Settings.passes_three htwo htenant) htimeout
    dsimp only
    rw [if_neg (mt String.isEmpty_iff.mp htenant)]
    by_cases hbytes : (Utf8.encode s.tenant).all isSendable = true
    · right
      rw [if_pos hbytes]
      refine ⟨rfl, hfour.succ fun m hm => ?_⟩
      cases hm with
      | unsendableTenant mem control =>
        exact absurd (isSendable_iff.mp (List.all_eq_true.mp hbytes _ mem)) control
      | noEndpoint | invalidEndpoint | noTenant | noTimeout => simp
    · left
      rw [if_neg hbytes]
      obtain ⟨b, hb, hcontrol⟩ : ∃ b ∈ Utf8.encode s.tenant, ¬ isSendable b = true := by
        simpa using hbytes
      exact ⟨_, rfl, .unsendableTenant hb (mt isSendable_iff.mpr hcontrol), hfour⟩

/-- What making a roster from settings comes to. -/
inductive Made (http : HttpSystem) (s : Settings) : Except Obstacle Roster → Prop where
  /-- One of the settings' own rules is broken. -/
  | refused {m : Misconfiguration} (first : s.FirstBroken m) (early : m.turn < 4) :
      Made http s (.error (.misconfigured m))
  /-- The settings have passed their own rules, and the tenant has not had its turn. -/
  | unequipped {reason : String} (passes : s.Passes 4) (none : http s.timeout = .error reason) :
      Made http s (.error (.noHttpClient reason))
  /-- The one rule that the roster alone asks about is broken. -/
  | unsendable {m : Misconfiguration} (first : s.FirstBroken m) (late : m.turn = 4)
      (equipped : http s.timeout = .ok ()) : Made http s (.error (.misconfigured m))
  | made (passes : s.Passes 5) (equipped : http s.timeout = .ok ()) :
      Made http s (.ok ⟨s.endpoints, s.tenant⟩)

/-- **What making a roster from settings says.** -/
theorem ofSettings_spec (http : HttpSystem) (s : Settings) : Made http s (ofSettings http s) := by
  unfold ofSettings
  rcases s.check_spec with ⟨m, hm, hfirst, hturn⟩ | ⟨hok, hfour⟩
  · rw [hm]
    exact .refused hfirst hturn
  rw [hok]
  cases hhttp : http s.timeout with
  | error reason => exact .unequipped hfour hhttp
  | ok client =>
    have htimeout : s.timeoutMillis ≠ 0 := fun hzero =>
      absurd (hfour _ (.noTimeout hzero)) (by decide)
    rcases build_spec htimeout with ⟨m, hm, hfirst⟩ | ⟨hbuild, hfive⟩
    · -- the only rule that is left
      have hlate : m.turn = 4 := by
        have hleast := hfour m hfirst.1
        cases m <;> simp at hleast ⊢
      rw [hm]
      exact .unsendable hfirst hlate hhttp
    · rw [hbuild]
      exact .made hfive hhttp

variable {http : HttpSystem} {s : Settings}

/-- Which settings make a roster, and which roster. -/
theorem ofSettings_eq_ok_iff {r : Roster} : ofSettings http s = .ok r ↔
    s.Passes 5 ∧ http s.timeout = .ok () ∧ r = ⟨s.endpoints, s.tenant⟩ := by
  have hspec := ofSettings_spec http s
  generalize ofSettings http s = made at hspec
  cases hspec with
  | refused first | unsendable first =>
    exact iff_of_false nofun fun h => Settings.passes_five_iff.mp h.1 _ first.1
  | unequipped passes none =>
    refine iff_of_false nofun fun h => ?_
    rw [none] at h
    cases h.2.1
  | made passes equipped =>
    rw [Except.ok.injEq]
    exact ⟨fun h => ⟨passes, equipped, h.symm⟩, fun h => h.2.2.symm⟩

/-- A broken rule is reported if it is the first one. That the tenant cannot be sent is reported
only where there is an HTTP client. -/
theorem ofSettings_eq_misconfigured_iff {m : Misconfiguration} :
    ofSettings http s = .error (.misconfigured m) ↔
      s.FirstBroken m ∧ (m.turn < 4 ∨ http s.timeout = .ok ()) := by
  have hspec := ofSettings_spec http s
  generalize ofSettings http s = made at hspec
  cases hspec with
  | @refused m' first early =>
    rw [Except.error.injEq, Obstacle.misconfigured.injEq]
    constructor
    · rintro rfl
      exact ⟨first, .inl early⟩
    · exact fun h => first.unique h.1
  | @unsendable m' first late equipped =>
    rw [Except.error.injEq, Obstacle.misconfigured.injEq]
    constructor
    · rintro rfl
      exact ⟨first, .inr equipped⟩
    · exact fun h => first.unique h.1
  | @unequipped reason passes none =>
    -- no early rule is broken, and later ones are not looked at
    refine iff_of_false nofun fun ⟨hfirst, hturn⟩ => ?_
    have hlate := passes m hfirst.1
    rw [none] at hturn
    exact absurd (hturn.resolve_right nofun) (by omega)
  | made passes equipped =>
    exact iff_of_false nofun fun h => Settings.passes_five_iff.mp passes m h.1.1

/-- That there is no HTTP client is reported after the settings' own rules, and before the tenant is
looked at as a header value. -/
theorem ofSettings_eq_noHttpClient_iff {reason : String} :
    ofSettings http s = .error (.noHttpClient reason) ↔
      s.Passes 4 ∧ http s.timeout = .error reason := by
  have hspec := ofSettings_spec http s
  generalize ofSettings http s = made at hspec
  cases hspec with
  | @refused m first early =>
    refine iff_of_false nofun fun h => ?_
    have hlate := h.1 m first.1
    omega
  | @unequipped reason' passes none =>
    rw [none, Except.error.injEq, Obstacle.noHttpClient.injEq, Except.error.injEq,
      and_iff_right passes]
  | unsendable first late equipped | made passes equipped =>
    refine iff_of_false nofun fun h => ?_
    rw [equipped] at h
    cases h.2

/-- **Settings and rosters agree.** -/
theorem build_of_check (htimeout : s.timeoutMillis ≠ 0) :
    (∀ m, s.check = .error m → build s.endpoints s.tenant = .error m) ∧
      (s.check = .ok () → ∀ m, build s.endpoints s.tenant = .error m →
        m = .unsendableTenant s.tenant) := by
  constructor
  · -- both report the first rule that is broken
    intro m hm
    rcases s.check_spec with ⟨m', hm', hfirst, -⟩ | ⟨hok, -⟩
    · obtain rfl : m' = m := by simpa [hm] using hm'.symm
      rcases build_spec htimeout with ⟨m'', hm'', hfirst'⟩ | ⟨-, hfive⟩
      · rw [hm'', hfirst'.unique hfirst]
      · exact absurd hfirst.1 (Settings.passes_five_iff.mp hfive m')
    · rw [hm] at hok
      cases hok
  · -- only the last turn is left, and settings do not take it
    intro hok m hm
    rcases s.check_spec with ⟨m', hm', -⟩ | ⟨-, hfour⟩
    · rw [hok] at hm'
      cases hm'
    · rcases build_spec htimeout with ⟨m', hm', hfirst⟩ | ⟨hok', -⟩
      · obtain rfl : m' = m := by simpa [hm] using hm'.symm
        have hlate := hfour m' hfirst.1
        cases hfirst.1 with
        | unsendableTenant => rfl
        | noEndpoint | invalidEndpoint | noTenant | noTimeout => simp at hlate
      · rw [hm] at hok'
        cases hok'

/-! ## What a roster sends -/

/-- A world of one client with endpoints is well formed. -/
theorem wellFormed_single {r : Roster} (h : r.endpoints ≠ []) (stream : Uuid) :
    (World.single r stream).WellFormed := by
  refine .of_idle rfl rfl fun router hrouter => ?_
  obtain rfl := List.mem_singleton.mp hrouter
  exact List.length_pos_iff.mpr h

/-- **The tenant of what is sent.** All attempts of a call on a roster's router, whatever was done
before it was started and whatever is done afterwards, bear the roster's tenant and no other. -/
theorem tenant_of_sending {r : Roster} (h : r.endpoints ≠ []) {stream stream' : Uuid}
    {before after : List Act} {id : String} {purpose : Purpose} {token : Option String}
    {script : List Planned} {s : Sending}
    (hs : s ∈ ((World.single r stream).exec
      (before ++ .start id ⟨0, stream'⟩ purpose token script :: after)).sendings
        ((World.single r stream).exec before).jobs.length) :
    s.request.headers.values tenantHeader = [r.tenant] := by
  have hwf := (wellFormed_single h stream).exec before
  have hrouter : (World.single r stream).router? 0 = some ⟨r, 0⟩ := rfl
  obtain ⟨router, hr, hroster⟩ := World.router?_exec_roster hrouter before
  have hclient : ((World.single r stream).exec before).routerOf? ⟨0, stream'⟩ = some router := hr
  rw [World.exec_append] at hs
  rw [World.request_of_sending hwf hclient hs, hroster]
  exact r.values_headers_tenant _

end Roster

/-! ## The account -/

/-- The system has an HTTP client for every time limit. Whether one can be set up hangs on the
encryption and the name service that the system has, and not on the settings. -/
def HttpSystem.Works (http : HttpSystem) : Prop :=
  ∀ limit, http limit = .ok ()

/-- An endpoint that is no URL is reported with its own kind of fault, which names it. -/
theorem Misconfiguration.fault_eq_invalidUrl_iff {m : Misconfiguration} {detail : String} :
    m.fault = .invalidUrl detail ↔ ∃ endpoint, m = .invalidEndpoint endpoint ∧
      detail = "URL must start with http:// or https://, got: " ++ endpoint := by
  cases m with
  | invalidEndpoint endpoint => simp [fault, eq_comm]
  | noEndpoint | noTenant | noTimeout | unsendableTenant => simp [fault]

/-- Any other broken rule is reported as a fault of the settings. -/
theorem Misconfiguration.fault_eq_settings_iff {m : Misconfiguration} :
    (∃ detail, m.fault = .settings detail) ↔ ∀ endpoint, m ≠ .invalidEndpoint endpoint := by
  cases m <;> simp [fault]

/-- A missing HTTP client is reported with a kind of fault that no broken rule has. -/
theorem Obstacle.fault_eq_httpClient_iff {o : Obstacle} {reason : String} :
    o.fault = .httpClient reason ↔ o = .noHttpClient reason := by
  cases o with
  | misconfigured m => cases m <;> simp [fault, Misconfiguration.fault]
  | noHttpClient reason' => simp [fault]

namespace Roster

/-- **Which settings make a client, and which client they make.** Settings make a roster exactly if
they keep all rules and the system has an HTTP client for their time limit. The first rule that they
break is reported otherwise; a missing HTTP client has its turn after the settings' own rules and
before the rule that the tenant can be sent. So where HTTP clients are to be had, the rules alone
decide, in their order. An endpoint that is no URL is named, a missing HTTP client is a fault of its
own, and any other fault is one of the settings. A roster that is built without settings refuses all
that settings with a time limit refuse, for the same reason, and besides only a tenant that cannot
be sent. A roster has the endpoints of its settings in their order, one attempt more than endpoints
and its pointer at the first, and whatever is sent for it bears the bytes of the tenant. -/
theorem construction (http : HttpSystem) :
    (∀ s : Settings, (∃ r, ofSettings http s = .ok r) ↔
      (s.endpoints ≠ [] ∧ (∀ e ∈ s.endpoints, StartsWeb e) ∧ s.tenant ≠ "" ∧
        s.timeoutMillis ≠ 0 ∧ ∀ b ∈ Utf8.encode s.tenant, b = 9 ∨ 32 ≤ b.toNat ∧ b.toNat ≠ 127) ∧
      http s.timeout = .ok ()) ∧
    (∀ (s : Settings) (m : Misconfiguration), ofSettings http s = .error (.misconfigured m) ↔
      s.FirstBroken m ∧ (m.turn < 4 ∨ http s.timeout = .ok ())) ∧
    (∀ (s : Settings) (reason : String), ofSettings http s = .error (.noHttpClient reason) ↔
      s.Passes 4 ∧ http s.timeout = .error reason) ∧
    (http.Works → ∀ s : Settings,
      ((∃ r, ofSettings http s = .ok r) ↔
        s.endpoints ≠ [] ∧ (∀ e ∈ s.endpoints, StartsWeb e) ∧ s.tenant ≠ "" ∧
          s.timeoutMillis ≠ 0 ∧
          ∀ b ∈ Utf8.encode s.tenant, b = 9 ∨ 32 ≤ b.toNat ∧ b.toNat ≠ 127) ∧
      ∀ o : Obstacle, ofSettings http s = .error o ↔
        ∃ m, o = .misconfigured m ∧ s.FirstBroken m) ∧
    (∀ (o : Obstacle) (reason : String), o.fault = .httpClient reason ↔
      o = .noHttpClient reason) ∧
    (∀ (m : Misconfiguration) (detail : String), m.fault = .invalidUrl detail ↔
      ∃ endpoint, m = .invalidEndpoint endpoint ∧
        detail = "URL must start with http:// or https://, got: " ++ endpoint) ∧
    (∀ m : Misconfiguration, (∃ detail, m.fault = .settings detail) ↔
      ∀ endpoint, m ≠ .invalidEndpoint endpoint) ∧
    (∀ s : Settings, s.timeoutMillis ≠ 0 →
      (∀ m, s.check = .error m → build s.endpoints s.tenant = .error m) ∧
      (s.check = .ok () → ∀ m, build s.endpoints s.tenant = .error m →
        m = .unsendableTenant s.tenant)) ∧
    ∀ (s : Settings) (r : Roster), ofSettings http s = .ok r →
      r.endpoints = s.endpoints ∧ r.budget = s.endpoints.length + 1 ∧
      (∀ stream, (World.single r stream).router? 0 = some ⟨r, 0⟩) ∧
      ∀ stream stream' before after id purpose token script sending,
        sending ∈ ((World.single r stream).exec
          (before ++ .start id ⟨0, stream'⟩ purpose token script :: after)).sendings
            ((World.single r stream).exec before).jobs.length →
        (sending.request.headers.values tenantHeader).map Utf8.encode =
          [Utf8.encode s.tenant] := by
  have hmade : ∀ s : Settings, (∃ r, ofSettings http s = .ok r) ↔
      s.Passes 5 ∧ http s.timeout = .ok () := by
    intro s
    simp only [ofSettings_eq_ok_iff, exists_and_left, exists_eq, and_true]
  refine ⟨fun s => ?_, fun s m => ofSettings_eq_misconfigured_iff,
    fun s reason => ofSettings_eq_noHttpClient_iff, fun hworks s => ⟨?_, fun o => ?_⟩,
    fun o reason => Obstacle.fault_eq_httpClient_iff,
    fun m detail => Misconfiguration.fault_eq_invalidUrl_iff,
    fun m => Misconfiguration.fault_eq_settings_iff, fun s => build_of_check, fun s r hr => ?_⟩
  · rw [hmade, Settings.passes_five_iff_rules]
  · rw [hmade, Settings.passes_five_iff_rules, and_iff_left (hworks _)]
  · cases o with
    | misconfigured m =>
      rw [ofSettings_eq_misconfigured_iff, and_iff_left (.inr (hworks _))]
      simp
    | noHttpClient reason =>
      rw [ofSettings_eq_noHttpClient_iff, hworks]
      simp
  · -- a roster that is made keeps all rules, so it has an endpoint
    obtain ⟨hfive, -, rfl⟩ := ofSettings_eq_ok_iff.mp hr
    have hsome : s.endpoints ≠ [] := (Settings.passes_five_iff_rules.mp hfive).1
    refine ⟨rfl, rfl, fun stream => rfl, ?_⟩
    intro stream stream' before after id purpose token script sending hsending
    rw [tenant_of_sending hsome hsending]
    rfl

/-- Settings with three faults. -/
def threefold : Settings :=
  ⟨["http://a", "b", "ftp://c"], "", 5⟩

/-- Settings whose only fault is a line end in the tenant. -/
def broken : Settings :=
  ⟨["https://a"], "ac\nme", 5⟩

/-- Settings in order, for a tenant whose name is not ASCII. -/
def sound : Settings :=
  ⟨["http://a", "https://b/"], "ü", 1⟩

/-- A system that has an HTTP client for every time limit. -/
def equipped : HttpSystem :=
  fun _ => .ok ()

/-- A system without encryption. -/
def bare : HttpSystem :=
  fun _ => .error "no TLS backend"

/-- Of three faults the first is reported, by settings and rosters alike; a line end is refused by
the roster only, and not before there is an HTTP client; and settings in order make a roster whose
first attempt bears both bytes of `ü`. -/
theorem construction_of_threefold :
    ofSettings equipped threefold = .error (.misconfigured (.invalidEndpoint "b")) ∧
      threefold.FirstBroken (.invalidEndpoint "b") ∧
      build threefold.endpoints threefold.tenant = .error (.invalidEndpoint "b") ∧
      broken.check = .ok () ∧
      build broken.endpoints broken.tenant = .error (.unsendableTenant broken.tenant) ∧
      ofSettings bare broken = .error (.noHttpClient "no TLS backend") ∧
      ∃ r, ofSettings equipped sound = .ok r ∧ r.budget = 3 ∧
        ∃ sending ∈ ((World.single r .nil).exec
          [.start "x" ⟨0, .nil⟩ (.operation .backlog) none [], .work 0]).sendings 0,
          (sending.request.headers.values tenantHeader).map Utf8.encode = [[0xC3, 0xBC]] := by
  have hworks : equipped.Works := fun _ => rfl
  obtain ⟨-, -, -, hruled, -, -, -, hboth, hmade⟩ := construction equipped
  obtain ⟨-, -, hnone, -⟩ := construction bare
  have hthreefold : ofSettings equipped threefold =
      .error (.misconfigured (.invalidEndpoint "b")) := rfl
  obtain ⟨m, hm, hfirst⟩ := ((hruled hworks threefold).2 _).mp hthreefold
  obtain rfl := Obstacle.misconfigured.inj hm
  have hcheck : threefold.check = .error (.invalidEndpoint "b") := rfl
  have hbroken : broken.check = .ok () := rfl
  have hrefused : ∃ m, build broken.endpoints broken.tenant = .error m := ⟨_, rfl⟩
  obtain ⟨m, hm⟩ := hrefused
  have hsame := (hboth broken (by decide)).2 hbroken m hm
  have hfour : broken.Passes 4 := by
    rcases broken.check_spec with ⟨m, herror, -⟩ | ⟨-, hfour⟩
    · cases hbroken.symm.trans herror
    · exact hfour
  have hsound : ofSettings equipped sound = .ok ⟨sound.endpoints, sound.tenant⟩ := rfl
  obtain ⟨-, hbudget, -, hsent⟩ := hmade sound _ hsound
  refine ⟨hthreefold, hfirst, (hboth threefold (by decide)).1 _ hcheck, hbroken, hsame ▸ hm,
    (hnone broken _).mpr ⟨hfour, rfl⟩, _, hsound, hbudget, ?_⟩
  have hsending := hsent .nil .nil [] [.work 0] "x" (.operation .backlog) none [] _
    List.mem_cons_self
  exact ⟨_, List.mem_cons_self, hsending.trans rfl⟩

end Roster

end ClusterClient
