import Mathlib.Algebra.Group.Nat.Defs
import ClusterClient.Proofs.Construction

/-!
# Which time limit is configured

Whoever puts settings together names the time limit of an attempt as a length of time. Settings keep
it in whole milliseconds and have 64 bits for them, while a length of time has 64 bits for its
seconds alone. So the limit that is configured is the one that was asked for, to the millisecond,
up to 2^64 milliseconds and not beyond: there it starts again from zero.

* **`Duration.total`**: a length of time as one number.
* **`Settings.timeoutMillis_adjusted`**: of all steps only the last time limit counts.
* **`Settings.time_limit`**: what is configured, and for which lengths it is what was asked for.
-/

namespace ClusterClient

namespace Duration

/-- A length of time in nanoseconds. -/
def total (d : Duration) : Nat :=
  d.seconds.toNat * 1000000000 + d.nanos.toNat

/-- The nanoseconds of a number of milliseconds, none of which is lost. -/
theorem nanos_ofMillis (ms : UInt64) : (ofMillis ms).nanos.toNat = ms.toNat % 1000 * 1000000 := by
  have hlt : ms.toNat % 1000 * 1000000 < UInt32.size := by
    have : ms.toNat % 1000 < 1000 := Nat.mod_lt _ (by decide)
    show _ < 4294967296
    omega
  exact UInt32.toNat_ofNat_of_lt' hlt

/-- No part of a number of milliseconds is lost. -/
theorem total_ofMillis (ms : UInt64) : (ofMillis ms).total = ms.toNat * 1000000 := by
  have hseconds : (ofMillis ms).seconds.toNat = ms.toNat / 1000 := by
    show (ms / 1000).toNat = _
    rw [UInt64.toNat_div]
    rfl
  rw [total, hseconds, nanos_ofMillis]
  have := Nat.div_add_mod ms.toNat 1000
  omega

end Duration

namespace Settings

/-- The time limit that a step sets. -/
def Adjustment.timeout? : Adjustment → Option Duration
  | .timeout d => some d
  | _ => none

/-- The last time limit among steps. -/
def lastTimeout (steps : List Adjustment) : Option Duration :=
  (steps.filterMap Adjustment.timeout?).getLast?

/-- Everything but the time limit is in order. -/
def OtherwiseValid (s : Settings) : Prop :=
  s.endpoints ≠ [] ∧ (∀ e ∈ s.endpoints, StartsWeb e) ∧ s.tenant ≠ ""

/-- Only a step that sets the time limit changes it. -/
theorem timeoutMillis_adjust (s : Settings) (step : Adjustment) :
    (s.adjust step).timeoutMillis =
      (step.timeout?.map fun d => d.millis.toUInt64).getD s.timeoutMillis := by
  cases step <;> rfl

/-- **Only the last time limit counts**, whatever is set before, between and after. -/
theorem timeoutMillis_adjusted (steps : List Adjustment) :
    (adjusted steps).timeoutMillis =
      ((lastTimeout steps).map fun d => d.millis.toUInt64).getD standard.timeoutMillis := by
  induction steps using List.reverseRecOn with
  | nil => rfl
  | append_singleton steps step ih =>
    have hstep : adjusted (steps ++ [step]) = (adjusted steps).adjust step := by
      rw [adjusted, List.foldl_append]
      rfl
    rw [hstep, timeoutMillis_adjust, ih, lastTimeout, lastTimeout, List.filterMap_append]
    cases hd : step.timeout? with
    | none => simp [hd]
    | some d => simp [hd]

/-- **Settings that are otherwise valid** are refused for their time limit, or not at all. -/
theorem build_of_otherwiseValid {s : Settings} (h : s.OtherwiseValid) :
    s.build = if s.timeoutMillis = 0 then .error .noTimeout else .ok s := by
  obtain ⟨hsome, hweb, htenant⟩ := h
  unfold build
  rcases s.check_spec with ⟨m, hm, ⟨hbreaks, -⟩, hturn⟩ | ⟨hok, hfour⟩
  · rw [hm]
    cases hbreaks with
    | noTimeout zero =>
      rw [if_pos zero]
      rfl
    | noEndpoint none => exact absurd none hsome
    | invalidEndpoint eq valid invalid => exact absurd (hweb _ (by simp [eq])) invalid
    | noTenant empty => exact absurd empty htenant
    | unsendableTenant => simp at hturn
  · have hlimit : s.timeoutMillis ≠ 0 := fun hzero => by
      have hturn := hfour _ (.noTimeout hzero)
      simp at hturn
    rw [hok, if_neg hlimit]
    rfl

section Limit

variable {steps : List Adjustment} {d : Duration}

/-- **What is configured**: the milliseconds that were asked for, modulo 2^64, and settings without
any are refused. -/
theorem assemble_eq (hlast : lastTimeout steps = some d)
    (hvalid : (adjusted steps).OtherwiseValid) :
    assemble steps = if d.total / 1000000 % 2 ^ 64 = 0 then .error .noTimeout
      else .ok (adjusted steps) := by
  have hmillis : (adjusted steps).timeoutMillis.toNat = d.total / 1000000 % 2 ^ 64 := by
    rw [timeoutMillis_adjusted, hlast]
    exact UInt64.toNat_ofNat'
  have hzero : (adjusted steps).timeoutMillis = 0 ↔ d.total / 1000000 % 2 ^ 64 = 0 := by
    rw [← hmillis, ← UInt64.toNat_inj]
    rfl
  rw [assemble, build_of_otherwiseValid hvalid]
  simp only [hzero]

/-- The time limit that is kept is that of the last step, in whole milliseconds and 64 bits of them.
-/
theorem total_timeout_adjusted (hlast : lastTimeout steps = some d) :
    (adjusted steps).timeout.total = d.total / 1000000 % 2 ^ 64 * 1000000 := by
  rw [timeout, Duration.total_ofMillis, timeoutMillis_adjusted, hlast]
  exact congrArg (· * 1000000) UInt64.toNat_ofNat'

/-- **Up to 2^64 milliseconds nothing is lost** but what is no whole millisecond. -/
theorem assemble_of_lt (hlast : lastTimeout steps = some d)
    (hvalid : (adjusted steps).OtherwiseValid) (hleast : 1000000 ≤ d.total)
    (hlt : d.total < 2 ^ 64 * 1000000) :
    assemble steps = .ok (adjusted steps) ∧
      (adjusted steps).timeout.total = d.total / 1000000 * 1000000 := by
  have hmod : d.total / 1000000 % 2 ^ 64 = d.total / 1000000 := by
    refine Nat.mod_eq_of_lt ?_
    omega
  have hne : d.total / 1000000 ≠ 0 := by omega
  rw [assemble_eq hlast hvalid, total_timeout_adjusted hlast, hmod, if_neg hne]
  exact ⟨rfl, rfl⟩

end Limit

/-- **Which time limit is configured.** Let `d` be the last time limit of steps that are otherwise
in order. What is configured is the number of whole milliseconds in `d`, modulo 2^64; if that is
zero, the settings are refused. So if `d` is a millisecond at least, the configured limit is `d`
rounded down to whole milliseconds exactly if `d` is less than 2^64 milliseconds. Up to there it is
less than a millisecond off, and a longer time limit never gives a shorter one. -/
theorem time_limit {steps : List Adjustment} {d : Duration} (hlast : lastTimeout steps = some d)
    (hvalid : (adjusted steps).OtherwiseValid) :
    (d.total / 1000000 % 2 ^ 64 = 0 → assemble steps = .error .noTimeout) ∧
    (d.total / 1000000 % 2 ^ 64 ≠ 0 → ∃ s, assemble steps = .ok s ∧
      s.timeout.total = d.total / 1000000 % 2 ^ 64 * 1000000) ∧
    (1000000 ≤ d.total →
      ((∃ s, assemble steps = .ok s ∧ s.timeout.total = d.total / 1000000 * 1000000) ↔
        d.total < 2 ^ 64 * 1000000)) ∧
    (1000000 ≤ d.total → d.total < 2 ^ 64 * 1000000 →
      ∃ s, assemble steps = .ok s ∧ s.timeout.total ≤ d.total ∧
        d.total < s.timeout.total + 1000000 ∧
        ∀ (steps' : List Adjustment) (d' : Duration), lastTimeout steps' = some d' →
          (adjusted steps').OtherwiseValid → d.total ≤ d'.total → d'.total < 2 ^ 64 * 1000000 →
            ∃ s', assemble steps' = .ok s' ∧ s.timeout.total ≤ s'.timeout.total) := by
  have hassemble := assemble_eq hlast hvalid
  have htotal := total_timeout_adjusted hlast
  refine ⟨fun hzero => ?_, fun hne => ?_, fun hleast => ?_, fun hleast hlt => ?_⟩
  · rw [hassemble, if_pos hzero]
  · rw [if_neg hne] at hassemble
    exact ⟨_, hassemble, htotal⟩
  · constructor
    · rintro ⟨s, hs, hkept⟩
      rw [hassemble] at hs
      split at hs
      · cases hs
      · obtain rfl := Except.ok.inj hs
        -- what is left of the milliseconds modulo 2^64 is all of them
        have hmod : d.total / 1000000 % 2 ^ 64 = d.total / 1000000 := by
          rw [htotal] at hkept
          omega
        have hsmall : d.total / 1000000 < 2 ^ 64 := by
          rw [← hmod]
          exact Nat.mod_lt _ (by decide)
        omega
    · intro hlt
      exact ⟨_, assemble_of_lt hlast hvalid hleast hlt⟩
  · obtain ⟨hok, hkept⟩ := assemble_of_lt hlast hvalid hleast hlt
    refine ⟨_, hok, by omega, by omega, ?_⟩
    intro steps' d' hlast' hvalid' hle hlt'
    obtain ⟨hok', hkept'⟩ := assemble_of_lt hlast' hvalid' (Nat.le_trans hleast hle) hlt'
    have hdiv : d.total / 1000000 ≤ d'.total / 1000000 := Nat.div_le_div_right hle
    exact ⟨_, hok', by omega⟩

/-- Steps that end with a time limit, after another one. -/
def withLimit (d : Duration) : List Adjustment :=
  [.timeout ⟨0, 0⟩, .endpoint "http://a", .timeout d, .tenant "acme"]

/-- Nothing but the time limit can be wrong with these settings. -/
theorem otherwiseValid_withLimit (d : Duration) : (adjusted (withLimit d)).OtherwiseValid := by
  have hweb : StartsWeb "http://a" := isWebUrl_iff.mp rfl
  have htenant : "acme" ≠ "" := by decide
  refine ⟨List.cons_ne_nil _ _, ?_, htenant⟩
  intro e he
  rw [List.mem_singleton.mp he]
  exact hweb

/-- The longest limit that is kept, and a second and a half: neither is more than a millisecond off,
and they are in order. -/
theorem time_limit_of_longest :
    ∃ s s', assemble (withLimit ⟨1, 500000001⟩) = .ok s ∧
      assemble (withLimit ⟨18446744073709551, 615999999⟩) = .ok s' ∧
      s.timeout.total ≤ 1500000001 ∧ 1500000001 < s.timeout.total + 1000000 ∧
      s'.timeout.total = 18446744073709551615000000 ∧ s.timeout.total ≤ s'.timeout.total := by
  obtain ⟨-, -, -, hkept⟩ :=
    time_limit (d := ⟨1, 500000001⟩) rfl (otherwiseValid_withLimit ⟨1, 500000001⟩)
  obtain ⟨s, hs, hle, hlt, hmono⟩ := hkept (by decide) (by decide)
  obtain ⟨-, -, hiff, -⟩ := time_limit (d := ⟨18446744073709551, 615999999⟩) rfl
    (otherwiseValid_withLimit ⟨18446744073709551, 615999999⟩)
  obtain ⟨s', hs', htotal⟩ := (hiff (by decide)).mpr (by decide)
  obtain ⟨s'', hs'', hordered⟩ := hmono (withLimit ⟨18446744073709551, 615999999⟩)
    ⟨18446744073709551, 615999999⟩ rfl (otherwiseValid_withLimit _) (by decide) (by decide)
  obtain rfl : s'' = s' := Except.ok.inj (hs''.symm.trans hs')
  exact ⟨s, s'', hs, hs', hle, hlt, htotal, hordered⟩

/-- **Longer limits are lost.** 2^64 milliseconds are refused as no limit at all, and half a second
more than that is configured as a limit of half a second. -/
theorem time_limit_lost :
    lastTimeout (withLimit ⟨18446744073709551, 616000000⟩) = some ⟨18446744073709551, 616000000⟩ ∧
      (adjusted (withLimit ⟨18446744073709551, 616000000⟩)).OtherwiseValid ∧
      1000000 ≤ (⟨18446744073709551, 616000000⟩ : Duration).total ∧
      assemble (withLimit ⟨18446744073709551, 616000000⟩) = .error .noTimeout ∧
      ∃ s, assemble (withLimit ⟨18446744073709552, 116000000⟩) = .ok s ∧
        s.timeout = ⟨0, 500000000⟩ :=
  ⟨rfl, otherwiseValid_withLimit _, by decide, rfl, _, rfl, rfl⟩

end Settings

end ClusterClient
