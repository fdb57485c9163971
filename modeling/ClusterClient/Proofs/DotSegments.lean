import Mathlib
import ClusterClient.Loopback
import ClusterClient.Proofs.Addressing

/-!
# Where a deletion arrives

Before a request is put on the wire the dot segments of its path are resolved: a segment `.` stands
for the place where it is, and a segment `..` for the place above it. Percent encoding keeps the
name of a tenant within one segment, but it keeps letters and dots as they are. So a name that is
itself a dot segment does not survive, and a deletion of it arrives somewhere else; and the empty
name leaves no segment at all.

## The architecture

* **`removeDots`**: the removal of dot segments as the syntax of addresses prescribes it, on the
  characters of a path.
* **`removeDots_join`**: on absolute paths it is what `Address.resolve` does to their segments.
* **`plainDots_percentEncode`**: no escape of an encoded name counts as a dot.
* **`Network.seen_ask`**, **`target_of_origin`**: what a node sees of a request.
* **`World.erasure_target`**: which names arrive as they were sent, and where the others go.
-/

namespace ClusterClient

/-! ## The removal of dot segments -/

/-- The text without its last segment and the slash before that. -/
def dropSegment (cs : List Char) : List Char :=
  ((cs.reverse.dropWhile (· != '/')).drop 1).reverse

/-- Removes the dot segments of what is left of a path. Whole segments go to the end of what has
been put out; `/../` takes the last of them away again, and what begins a relative path is
dropped. -/
def removeDots (out : List Char) : List Char → List Char
  | [] => out
  | '.' :: '.' :: '/' :: rest => removeDots out rest
  | '.' :: '/' :: rest => removeDots out rest
  | '/' :: '.' :: '/' :: rest => removeDots out ('/' :: rest)
  | ['/', '.'] => removeDots out ['/']
  | '/' :: '.' :: '.' :: '/' :: rest => removeDots (dropSegment out) ('/' :: rest)
  | ['/', '.', '.'] => removeDots (dropSegment out) ['/']
  | ['.'] => out
  | ['.', '.'] => out
  | c :: rest => removeDots (out ++ c :: rest.takeWhile (· != '/')) (rest.dropWhile (· != '/'))
termination_by input => input.length
decreasing_by
  all_goals simp only [List.length_cons, List.length_nil]
  all_goals first | omega | exact Nat.lt_succ_of_le (List.dropWhile_suffix _).length_le

/-- The characters behind the last slash. -/
def lastSegment (cs : List Char) : List Char :=
  (cs.reverse.takeWhile (· != '/')).reverse

/-- A path as its segments, with a slash before each. -/
def joinSegments (segments : List (List Char)) : List Char :=
  segments.flatMap ('/' :: ·)

theorem joinSegments_cons (s : List Char) (ss : List (List Char)) :
    joinSegments (s :: ss) = '/' :: (s ++ joinSegments ss) :=
  List.flatMap_cons

theorem joinSegments_reverse_cons (s : List Char) (ss : List (List Char)) :
    joinSegments (s :: ss).reverse = joinSegments ss.reverse ++ '/' :: s := by
  simp [joinSegments]

/-- What follows a segment: the end of the path, or a slash. -/
def Follows (rest : List Char) : Prop :=
  rest = [] ∨ ∃ more, rest = '/' :: more

/-- A joined path is empty or begins with a slash, so a segment before it ends there. -/
theorem follows_join (ss : List (List Char)) : Follows (joinSegments ss) := by
  cases ss with
  | nil => exact .inl rfl
  | cons s ss => exact .inr ⟨_, joinSegments_cons s ss⟩

section Last

variable {seg : List Char} (hseg : '/' ∉ seg)

include hseg

theorem ne_slash {c : Char} (hc : c ∈ seg) : (c != '/') = true := by
  have hne : c ≠ '/' := ne_of_mem_of_not_mem hc hseg
  simpa using hne

/-- The last segment is dropped with the slash before it. -/
theorem dropSegment_append (cs : List Char) : dropSegment (cs ++ '/' :: seg) = cs := by
  have hreverse : (cs ++ '/' :: seg).reverse = seg.reverse ++ '/' :: cs.reverse := by simp
  have hdrop : (seg.reverse ++ '/' :: cs.reverse).dropWhile (· != '/') = '/' :: cs.reverse := by
    rw [List.dropWhile_append_of_pos fun c hc => ne_slash hseg (List.mem_reverse.mp hc)]
    exact List.dropWhile_cons_of_neg (by decide)
  rw [dropSegment, hreverse, hdrop]
  simp

/-- What comes after the last slash is the last segment. -/
theorem lastSegment_append (cs : List Char) : lastSegment (cs ++ '/' :: seg) = seg := by
  have hreverse : (cs ++ '/' :: seg).reverse = seg.reverse ++ '/' :: cs.reverse := by simp
  have htake : (seg.reverse ++ '/' :: cs.reverse).takeWhile (· != '/') = seg.reverse := by
    rw [List.takeWhile_append_of_pos fun c hc => ne_slash hseg (List.mem_reverse.mp hc)]
    simp
  rw [lastSegment, hreverse, htake, List.reverse_reverse]

/-- A segment is read up to the slash that follows it. -/
theorem takeWhile_segment {rest : List Char} (hrest : Follows rest) :
    (seg ++ rest).takeWhile (· != '/') = seg := by
  rw [List.takeWhile_append_of_pos fun c hc => ne_slash hseg hc]
  rcases hrest with rfl | ⟨more, rfl⟩ <;> simp

/-- After a segment the rest is left. -/
theorem dropWhile_segment {rest : List Char} (hrest : Follows rest) :
    (seg ++ rest).dropWhile (· != '/') = rest := by
  rw [List.dropWhile_append_of_pos fun c hc => ne_slash hseg hc]
  rcases hrest with rfl | ⟨more, rfl⟩ <;> simp

/-- A path begins with one segment only. -/
theorem segment_inj {dots rest more : List Char} (hdots : '/' ∉ dots) (hrest : Follows rest)
    (hmore : Follows more) (h : seg ++ rest = dots ++ more) : seg = dots := by
  have htake := congrArg (List.takeWhile (· != '/')) h
  rwa [takeWhile_segment hseg hrest, takeWhile_segment hdots hmore] at htake

/-- A segment that is no dot segment is put out. -/
theorem removeDots_segment (hone : seg ≠ ['.']) (htwo : seg ≠ ['.', '.']) (out : List Char)
    {rest : List Char} (hrest : Follows rest) :
    removeDots out ('/' :: (seg ++ rest)) = removeDots (out ++ '/' :: seg) rest := by
  have hnever : ∀ more, Follows more → seg ++ rest ≠ ['.'] ++ more ∧ seg ++ rest ≠ ['.', '.'] ++ more :=
    fun more hmore =>
      ⟨fun h => hone (segment_inj hseg (by decide) hrest hmore h),
        fun h => htwo (segment_inj hseg (by decide) hrest hmore h)⟩
  rw [removeDots]
  · rw [takeWhile_segment hseg hrest, dropWhile_segment hseg hrest]
  -- the rows for dot segments do not apply
  · nofun
  · nofun
  · rintro more - h
    exact (hnever _ (.inr ⟨more, rfl⟩)).1 h
  · rintro - h
    exact (hnever _ (.inl rfl)).1 h
  · rintro more - h
    exact (hnever _ (.inr ⟨more, rfl⟩)).2 h
  · rintro - h
    exact (hnever _ (.inl rfl)).2 h
  · nofun
  · nofun

end Last

/-- Dropping the last segment of a joined path is dropping the last of the segments. -/
theorem dropSegment_join {done : List (List Char)} (h : ∀ s ∈ done, '/' ∉ s) :
    dropSegment (joinSegments done.reverse) = joinSegments done.tail.reverse := by
  cases done with
  | nil => rfl
  | cons s ss =>
    rw [joinSegments_reverse_cons, List.tail_cons]
    exact dropSegment_append (h s List.mem_cons_self) _

/-- **The removal of dot segments resolves the segments of a path.** The induction is on the
segments that are left; those that were put out are kept in reverse order, so the one that `..`
takes away is the first. -/
theorem removeDots_join {segs done : List (List Char)} (hdone : ∀ s ∈ done, '/' ∉ s)
    (hsegs : ∀ s ∈ segs, '/' ∉ s ∧ Address.plainDots s = s) :
    removeDots (joinSegments done.reverse) (joinSegments segs) =
      joinSegments (Address.resolve done segs) := by
  have hempty : ∀ out, removeDots out ['/'] = out ++ ['/'] := by
    intro out
    have h := removeDots_segment (show '/' ∉ [] by simp) (by simp) (by simp) out (.inl rfl)
    rwa [removeDots] at h
  induction segs generalizing done with
  | nil => rw [Address.resolve, show joinSegments [] = [] from rfl, removeDots]
  | cons s ss ih =>
    obtain ⟨⟨hs, hplain⟩, hss⟩ := List.forall_mem_cons.mp hsegs
    have htail : ∀ s ∈ done.tail, '/' ∉ s := fun s hs => hdone s (List.mem_of_mem_tail hs)
    rw [joinSegments_cons]
    by_cases htwo : s = ['.', '.']
    · -- at the end of the path a dot segment leaves an empty one behind
      subst htwo
      cases ss with
      | nil =>
        show removeDots _ ['/', '.', '.'] = joinSegments ([] :: done.tail).reverse
        rw [removeDots, dropSegment_join hdone, hempty, joinSegments_reverse_cons]
      | cons t ss =>
        show removeDots _ ('/' :: '.' :: '.' :: joinSegments (t :: ss)) =
          joinSegments (Address.resolve done.tail (t :: ss))
        rw [← ih htail hss, ← dropSegment_join hdone, joinSegments_cons, removeDots]
    -- a single dot takes nothing away
    by_cases hone : s = ['.']
    · subst hone
      cases ss with
      | nil =>
        show removeDots _ ['/', '.'] = joinSegments ([] :: done).reverse
        rw [removeDots, hempty, joinSegments_reverse_cons]
      | cons t ss =>
        show removeDots _ ('/' :: '.' :: joinSegments (t :: ss)) =
          joinSegments (Address.resolve done (t :: ss))
        rw [← ih hdone hss, joinSegments_cons, removeDots]
    · have hresolve : Address.resolve done (s :: ss) = Address.resolve (s :: done) ss := by
        cases ss with
        | nil => simp [Address.resolve, hplain, hone, htwo]
        | cons t ss => simp [Address.resolve, hplain, hone, htwo]
      have hboth : ∀ t ∈ s :: done, '/' ∉ t := List.forall_mem_cons.mpr ⟨hs, hdone⟩
      rw [removeDots_segment hs hone htwo _ (follows_join ss), ← joinSegments_reverse_cons,
        ih hboth hss, hresolve]

/-! ## Characters that stand as they are -/

/-- What holds of every character of a text, found by looking at each of them. -/
theorem forall_mem_of_all {p : Char → Prop} [DecidablePred p] {cs : List Char}
    (h : cs.all (fun c => decide (p c)) = true) : ∀ c ∈ cs, p c :=
  fun c hc => of_decide_eq_true (List.all_eq_true.mp h c hc)

/-- A character that no part of an address changes or takes for a mark. -/
def Literal (c : Char) : Prop :=
  32 < c.toNat ∧ c.toNat ≤ 126 ∧ c ∉ Address.pathMarks ∧ Address.isSeparator c = false

/-- A literal character ends neither a segment nor the path. -/
theorem Literal.ne_mark {c : Char} (h : Literal c) : c ≠ '/' ∧ c ≠ '?' ∧ c ≠ '#' := by
  obtain ⟨-, -, hmarks, hseparator⟩ := h
  refine ⟨?_, ?_, ?_⟩
  · rintro rfl
    exact absurd hseparator (by decide)
  · rintro rfl
    exact hmarks (by decide)
  · rintro rfl
    exact hmarks (by decide)

instance (c : Char) : Decidable (Literal c) :=
  inferInstanceAs (Decidable (_ ∧ _ ∧ _ ∧ _))

/-- Unreserved characters are ASCII. -/
theorem toNat_of_isUnreservedChar {c : Char} (h : isUnreservedChar c = true) : c.toNat < 128 := by
  simp only [isUnreservedChar, Char.isAlphanum, Char.isAlpha, Char.isUpper, Char.isLower,
    Char.isDigit, Bool.or_eq_true, Bool.and_eq_true, decide_eq_true_eq, ge_iff_le,
    UInt32.le_iff_toNat_le] at h
  show c.val.toNat < 128
  rcases h with ((((((h | h) | h) | rfl) | rfl) | rfl) | rfl)
  · exact Nat.lt_of_le_of_lt h.2 (by decide)
  · exact Nat.lt_of_le_of_lt h.2 (by decide)
  · exact Nat.lt_of_le_of_lt h.2 (by decide)
  all_goals decide

/-- Unreserved characters stand for themselves in an address. -/
theorem literal_of_isUnreservedChar {c : Char} (h : isUnreservedChar c = true) : Literal c := by
  have all : ∀ n : Fin 128, isUnreservedChar (Char.ofNat n.val) = true →
      Literal (Char.ofNat n.val) := by decide +kernel
  have hc := all ⟨c.toNat, toNat_of_isUnreservedChar h⟩
  rw [Char.ofNat_toNat] at hc
  exact hc h

/-- The digits of an encoded byte are unreserved. -/
theorem isUnreservedChar_of_isUpperHexDigit {c : Char} (h : isUpperHexDigit c = true) :
    isUnreservedChar c = true := by
  simp only [isUpperHexDigit, isUnreservedChar, Char.isAlphanum, Char.isAlpha, Char.isUpper,
    Char.isLower, Char.isDigit, Bool.or_eq_true, Bool.and_eq_true, decide_eq_true_eq, ge_iff_le,
    Char.le_def] at h ⊢
  rcases h with h | ⟨hA, hF⟩
  · exact .inl (.inl (.inl (.inl (.inr h))))
  · exact .inl (.inl (.inl (.inl (.inl (.inl ⟨hA, UInt32.le_trans hF (by decide)⟩)))))

/-- Every character of a path segment is literal. -/
theorem Segment.literal {cs : List Char} (h : Segment cs) {c : Char} (hc : c ∈ cs) : Literal c := by
  induction h with
  | nil => cases hc
  | plain unreserved rest ih =>
    rcases List.mem_cons.mp hc with rfl | hc
    · exact literal_of_isUnreservedChar unreserved
    · exact ih hc
  | escaped high low rest ih =>
    simp only [List.mem_cons] at hc
    rcases hc with rfl | rfl | rfl | hc
    · decide
    · exact literal_of_isUnreservedChar (isUnreservedChar_of_isUpperHexDigit high)
    · exact literal_of_isUnreservedChar (isUnreservedChar_of_isUpperHexDigit low)
    · exact ih hc

/-- Literal characters are not escaped again. -/
theorem escapeText_of_literal {cs : List Char} (h : ∀ c ∈ cs, Literal c) :
    Address.escapeText Address.pathMarks cs = cs := by
  induction cs with
  | nil => rfl
  | cons c cs ih =>
    obtain ⟨⟨hleast, hmost, hmarks, -⟩, hcs⟩ := List.forall_mem_cons.mp h
    have hc : ¬(c.toNat < 32 ∨ 126 < c.toNat ∨ Address.pathMarks.contains c = true) := by
      rintro (hlt | hgt | hmark)
      · omega
      · omega
      · exact hmarks (List.contains_iff_mem.mp hmark)
    show (if _ then _ else _) ++ Address.escapeText Address.pathMarks cs = _
    rw [if_neg hc, ih hcs]
    rfl

/-- Literal characters make one segment. -/
theorem segments_of_literal {cs : List Char} (h : ∀ c ∈ cs, Literal c) :
    Address.segments cs = [cs] := by
  induction cs with
  | nil => rfl
  | cons c cs ih =>
    obtain ⟨⟨-, -, -, hseparator⟩, hcs⟩ := List.forall_mem_cons.mp h
    simp [Address.segments, hseparator, ih hcs]

/-- A slash after literal characters ends the segment that they make. -/
theorem segments_append {cs : List Char} (h : ∀ c ∈ cs, Literal c) (rest : List Char) :
    Address.segments (cs ++ '/' :: rest) = cs :: Address.segments rest := by
  induction cs with
  | nil => rfl
  | cons c cs ih =>
    obtain ⟨⟨-, -, -, hseparator⟩, hcs⟩ := List.forall_mem_cons.mp h
    simp [Address.segments, hseparator, ih hcs]

/-! ## Encoded names -/

/-- Only a percent sign can begin an encoded dot. -/
theorem plainDots_cons {c : Char} (h : c ≠ '%') (cs : List Char) :
    Address.plainDots (c :: cs) = c :: Address.plainDots cs := by
  rw [Address.plainDots]
  · rintro rest rfl
    exact absurd rfl h
  · rintro rest rfl
    exact absurd rfl h

/-- No escape of a byte is that of a dot, which stands for itself. -/
theorem plainDots_percentByte (b : UInt8) (cs : List Char) :
    Address.plainDots (percentByte b ++ cs) = percentByte b ++ Address.plainDots cs := by
  by_cases hb : isUnreserved b = true
  · have hpercent : ∀ n : Fin 128, isUnreserved (UInt8.ofNat n.val) = true →
        Char.ofNat n.val ≠ '%' := by decide +kernel
    have hne := hpercent ⟨b.toNat, (toNat_of_isUnreserved hb).1⟩ (by simpa using hb)
    rw [percentByte, if_pos hb]
    exact plainDots_cons hne cs
  · have hescapes : ∀ n : Fin 256, isUnreserved (UInt8.ofNat n.val) = false →
        ((hexDigit (n.val / 16)).toUpper, (hexDigit n.val).toUpper) ∉ [('2', 'e'), ('2', 'E')] ∧
          (hexDigit (n.val / 16)).toUpper ≠ '%' ∧ (hexDigit n.val).toUpper ≠ '%' := by
      decide +kernel
    obtain ⟨hdot, hhigh, hlow⟩ := hescapes ⟨b.toNat, b.toNat_lt⟩ (by simpa using hb)
    rw [percentByte, if_neg hb, List.cons_append, List.cons_append, List.cons_append,
      List.nil_append, Address.plainDots]
    · rw [plainDots_cons hhigh, plainDots_cons hlow]
      rfl
    · rintro rest - h
      obtain ⟨h₁, h₂⟩ := List.cons.inj h
      exact hdot (by rw [h₁, (List.cons.inj h₂).1]; decide)
    · rintro rest - h
      obtain ⟨h₁, h₂⟩ := List.cons.inj h
      exact hdot (by rw [h₁, (List.cons.inj h₂).1]; decide)

/-- An encoded name has no encoded dots, since dots are not encoded. -/
theorem plainDots_percentEncode (bytes : List UInt8) :
    Address.plainDots (percentEncode bytes) = percentEncode bytes := by
  induction bytes with
  | nil => rfl
  | cons b bytes ih =>
    rw [percentEncode, List.flatMap_cons, plainDots_percentByte, ← percentEncode, ih]

/-- The segments of the path that addresses a tenant. -/
def tenantSegments (name : String) : List (List Char) :=
  ["v1".toList, "tenants".toList, percentEncode (Utf8.encode name)]

/-- The path of a tenant has three segments. -/
theorem toList_tenantPath_join (name : String) :
    (tenantPath name).toList = joinSegments (tenantSegments name) := by
  rw [toList_tenantPath]
  simp [joinSegments, tenantSegments]

/-- None of these segments is changed when the address is read. -/
theorem tenantSegments_spec (name : String) :
    ∀ s ∈ tenantSegments name, (∀ c ∈ s, Literal c) ∧ Address.plainDots s = s := by
  simp only [tenantSegments, List.forall_mem_cons, List.not_mem_nil, false_implies, implies_true,
    and_true]
  refine ⟨⟨forall_mem_of_all (by decide), by decide⟩, ⟨forall_mem_of_all (by decide), by decide⟩,
    fun c hc => (segment_percentEncode _).literal hc, ?_⟩
  exact plainDots_percentEncode _

/-- A name is written as one dot or two exactly if that is the name. -/
theorem percentEncode_eq_iff {name : String} (dots : String)
    (hdots : percentEncode (Utf8.encode dots) = dots.toList) :
    percentEncode (Utf8.encode name) = dots.toList ↔ name = dots := by
  constructor
  · intro h
    exact Utf8.encode_injective (percentEncode_injective (h.trans hdots.symm))
  · rintro rfl
    exact hdots

/-- **Removing dot segments** from the path of a tenant is resolving its segments. -/
theorem removeDots_tenantPath_join (name : String) :
    removeDots [] (tenantPath name).toList =
      joinSegments (Address.resolve [] (tenantSegments name)) := by
  have hslash : ∀ s ∈ tenantSegments name, '/' ∉ s ∧ Address.plainDots s = s := fun s hs =>
    ⟨fun hmem => ((tenantSegments_spec name s hs).1 _ hmem).ne_mark.1 rfl,
      (tenantSegments_spec name s hs).2⟩
  rw [toList_tenantPath_join]
  exact removeDots_join (show ∀ s ∈ ([] : List (List Char)), '/' ∉ s by simp) hslash

/-- **What becomes of the path of a tenant.** -/
theorem removeDots_tenantPath (name : String) :
    removeDots [] (tenantPath name).toList =
      if name = "." then "/v1/tenants/".toList
      else if name = ".." then "/v1/".toList
      else (tenantPath name).toList := by
  rw [removeDots_tenantPath_join]
  split
  · next hone =>
    subst hone
    decide +kernel
  · next hone =>
    split
    · next htwo =>
      subst htwo
      decide +kernel
    · next htwo =>
      -- any other name is a segment that stays
      have hseg := plainDots_percentEncode (Utf8.encode name)
      have hone' : percentEncode (Utf8.encode name) ≠ ['.'] :=
        mt (percentEncode_eq_iff "." (by decide +kernel)).mp hone
      have htwo' : percentEncode (Utf8.encode name) ≠ ['.', '.'] :=
        mt (percentEncode_eq_iff ".." (by decide +kernel)).mp htwo
      have hresolve : Address.resolve [] (tenantSegments name) = tenantSegments name := by
        simp [tenantSegments, Address.resolve, Address.plainDots, hseg, hone', htwo']
      rw [hresolve, toList_tenantPath_join]

/-- The last segment of the path is the encoded name, since that has no slash. -/
theorem lastSegment_tenantPath (name : String) :
    lastSegment (tenantPath name).toList = percentEncode (Utf8.encode name) := by
  have hsegment : '/' ∉ percentEncode (Utf8.encode name) := fun h =>
    ((segment_percentEncode _).not_mem h).1 rfl
  rw [toList_tenantPath]
  exact lastSegment_append hsegment "/v1/tenants".toList

theorem percentEncode_eq_nil {name : String} :
    percentEncode (Utf8.encode name) = [] ↔ name = "" :=
  percentEncode_eq_iff "" rfl

/-! ## What a node sees -/

/-- An endpoint that is a scheme and an authority, and no more. -/
def IsOrigin (endpoint : String) : Prop :=
  ∃ scheme authority : List Char, endpoint.toList = scheme ++ "://".toList ++ authority ∧
    (scheme = "http".toList ∨ scheme = "https".toList) ∧ authority ≠ [] ∧
    ∀ c ∈ authority, 32 < c.toNat ∧ Address.isSeparator c = false ∧ c ≠ '?' ∧ c ≠ '#'

namespace Address

section Cut

variable {mark : Char} {cs : List Char} (h : mark ∉ cs)

include h

/-- Where the mark does not occur, nothing is cut off. -/
theorem cut_of_not_mem : cut mark cs = (cs, none) := by
  have hpos : ∀ c ∈ cs, (c != mark) = true := fun c hc => bne_iff_ne.mpr (ne_of_mem_of_not_mem hc h)
  have hdrop := @List.dropWhile_append_of_pos _ _ cs [] hpos
  rw [List.append_nil] at hdrop
  rw [cut, hdrop]
  rfl

/-- The first mark is the one at which a text is cut. -/
theorem cut_append (rest : List Char) : cut mark (cs ++ mark :: rest) = (cs, some rest) := by
  have hpos : ∀ c ∈ cs, (c != mark) = true := fun c hc => bne_iff_ne.mpr (ne_of_mem_of_not_mem hc h)
  have hdrop : (cs ++ mark :: rest).dropWhile (· != mark) = mark :: rest := by
    rw [List.dropWhile_append_of_pos hpos]
    simp
  have htake : (cs ++ mark :: rest).takeWhile (· != mark) = cs := by
    rw [List.takeWhile_append_of_pos hpos]
    simp
  rw [cut, hdrop]
  dsimp only
  rw [htake]

end Cut

/-- A text without blanks and control characters is left as it is. -/
theorem cleaned_of_lt {cs : List Char} (h : ∀ c ∈ cs, 32 < c.toNat) : cleaned cs = cs := by
  have hdrop : ∀ ds : List Char, (∀ c ∈ ds, 32 < c.toNat) →
      ds.dropWhile (fun c : Char => decide (c.toNat ≤ 32)) = ds := by
    intro ds hds
    cases ds with
    | nil => rfl
    | cons c ds =>
      have hc : 32 < c.toNat := hds c List.mem_cons_self
      exact List.dropWhile_cons_of_neg (by simpa using hc)
  have hreverse : ∀ c ∈ cs.reverse, 32 < c.toNat := fun c hc => h c (List.mem_reverse.mp hc)
  rw [cleaned, hdrop cs h, hdrop _ hreverse, List.reverse_reverse, List.filter_eq_self]
  intro c hc
  have hne : ∀ d : Char, d.toNat ≤ 32 → c ≠ d := by
    rintro d hd rfl
    exact absurd (h c hc) (by omega)
  simp [hne '\t' (by decide), hne '\n' (by decide), hne '\r' (by decide)]

end Address

/-- What ends without a slash is not trimmed, whatever comes before. -/
theorem trimSlashes_append {cs ds : List Char} (hne : ds ≠ []) (h : '/' ∉ ds) :
    trimSlashes (cs ++ ds) = cs ++ ds := by
  obtain ⟨front, c, rfl⟩ := (List.eq_nil_or_concat ds).resolve_left hne
  have hc : c ≠ '/' := by
    rintro rfl
    exact h (by simp)
  rw [List.concat_eq_append, ← List.append_assoc, trimSlashes_append_cons hc]
  rfl

/-- **An endpoint without a path of its own is asked for the path of the request**, once its dot
segments are resolved. -/
theorem target_of_origin {endpoint path : String} (horigin : IsOrigin endpoint) {inner : List Char}
    (hslash : path.toList = '/' :: inner)
    (hpath : ∀ c ∈ path.toList, 32 < c.toNat ∧ c ≠ '?' ∧ c ≠ '#') :
    (Address.ofUrl (joinUrl endpoint path)).target = Address.normalPath path.toList := by
  obtain ⟨scheme, authority, hendpoint, hscheme, hne, hauthority⟩ := horigin
  have hscheme : ':' ∉ scheme ∧ ∀ c ∈ scheme, 32 < c.toNat := by
    rcases hscheme with rfl | rfl
    · exact ⟨by decide, forall_mem_of_all (by decide)⟩
    · exact ⟨by decide, forall_mem_of_all (by decide)⟩
  have hjoin : (joinUrl endpoint path).toList =
      scheme ++ ':' :: ('/' :: '/' :: (authority ++ path.toList)) := by
    have htrim : trimSlashes endpoint.toList = endpoint.toList := by
      rw [hendpoint]
      refine trimSlashes_append hne fun hmem => ?_
      exact absurd (hauthority _ hmem).2.1 (by decide)
    rw [toList_joinUrl, absolutePath_of_slash (by rw [hslash]; rfl), htrim, hendpoint]
    simp
  have hcleaned : ∀ c ∈ scheme ++ ':' :: ('/' :: '/' :: (authority ++ path.toList)), 32 < c.toNat := by
    intro c hc
    simp only [List.mem_append, List.mem_cons] at hc
    rcases hc with hc | rfl | rfl | rfl | hc | hc
    · exact hscheme.2 c hc
    · decide
    · decide
    · decide
    · exact (hauthority c hc).1
    · exact (hpath c hc).1
  -- the slashes after the colon end where the authority begins
  have hslashes : ('/' :: '/' :: (authority ++ path.toList)).dropWhile Address.isSeparator =
      authority ++ path.toList := by
    cases authority with
    | nil => exact absurd rfl hne
    | cons c cs =>
      have hc : Address.isSeparator c = false := (hauthority c List.mem_cons_self).2.1
      rw [List.dropWhile_cons_of_pos (by decide), List.dropWhile_cons_of_pos (by decide),
        List.cons_append, List.dropWhile_cons_of_neg (by simp [hc])]
  have hinside : ∀ c ∈ authority, (!(Address.isSeparator c || c = '?' || c = '#')) = true := by
    intro c hc
    obtain ⟨-, hseparator, hquery, hfragment⟩ := hauthority c hc
    simp [hseparator, hquery, hfragment]
  have hrest : (authority ++ path.toList).dropWhile
      (fun c => !(Address.isSeparator c || c = '?' || c = '#')) = path.toList := by
    rw [List.dropWhile_append_of_pos hinside, hslash]
    exact List.dropWhile_cons_of_neg (by decide)
  have hfragment : '#' ∉ path.toList := fun hmem => (hpath _ hmem).2.2 rfl
  have hquery : '?' ∉ path.toList := fun hmem => (hpath _ hmem).2.1 rfl
  rw [Address.ofUrl, hjoin, Address.cleaned_of_lt hcleaned, Address.cut_append hscheme.1]
  dsimp only [Option.getD_some]
  rw [hslashes, hrest, Address.ofParts, Address.cut_of_not_mem hfragment]
  dsimp only
  rw [Address.cut_of_not_mem hquery]
  simp [Address.target]

/-- No character of the path is escaped on the way, so only its dot segments matter. -/
theorem normalPath_tenantPath (name : String) :
    Address.normalPath (tenantPath name).toList = removeDots [] (tenantPath name).toList := by
  have hliteral : ∀ s ∈ tenantSegments name, ∀ c ∈ s, Literal c := fun s hs =>
    (tenantSegments_spec name s hs).1
  have hpath : (tenantPath name).toList = '/' :: ("v1".toList ++ '/' :: ("tenants".toList ++
      '/' :: percentEncode (Utf8.encode name))) := by
    rw [toList_tenantPath]
    rfl
  have hsegments : Address.segments ("v1".toList ++ '/' :: ("tenants".toList ++
      '/' :: percentEncode (Utf8.encode name))) = tenantSegments name := by
    simp only [tenantSegments, List.forall_mem_cons] at hliteral
    rw [segments_append hliteral.1, segments_append hliteral.2.1,
      segments_of_literal hliteral.2.2.1, tenantSegments]
  have hescape : (tenantSegments name).map (Address.escapeText Address.pathMarks) =
      tenantSegments name := by
    conv_rhs => rw [← List.map_id (tenantSegments name)]
    exact List.map_congr_left fun s hs => escapeText_of_literal (hliteral s hs)
  have hnormal : ∀ inner, Address.normalPath ('/' :: inner) =
      joinSegments (Address.resolve []
        ((Address.segments inner).map (Address.escapeText Address.pathMarks))) := fun _ => rfl
  rw [removeDots_tenantPath_join, hpath, hnormal, hsegments, hescape]

/-- A node that answers requests has seen the one that it was asked. -/
theorem Network.seen_ask (n : Network) {place : Nat} {behaviours : List Behaviour}
    (h : n.nodes.getD place .dead = .serving behaviours) (request : Request) :
    (n.ask place request).2.seen = n.seen ++
      [⟨place, request.method, String.ofList (n.address place request.path).target,
        tellingHeaders request.headers, request.bodyBytes⟩] := by
  unfold Network.ask
  rw [h]
  cases behaviours with
  | nil => rfl
  | cons b bs => rfl

/-- What a node at an origin sees of the path of a tenant. -/
theorem target_tenantPath {endpoint : String} (h : IsOrigin endpoint) (name : String) :
    (Address.ofUrl (joinUrl endpoint (tenantPath name))).target =
      removeDots [] (tenantPath name).toList := by
  have hpath : ∀ c ∈ (tenantPath name).toList, 32 < c.toNat ∧ c ≠ '?' ∧ c ≠ '#' := by
    intro c hc
    rw [toList_tenantPath, List.mem_append] at hc
    rcases hc with hc | hc
    · have all : ∀ c ∈ "/v1/tenants/".toList, 32 < c.toNat ∧ c ≠ '?' ∧ c ≠ '#' :=
        forall_mem_of_all (by decide)
      exact all c hc
    · have hliteral := (segment_percentEncode (Utf8.encode name)).literal hc
      exact ⟨hliteral.1, hliteral.ne_mark.2.1, hliteral.ne_mark.2.2⟩
  rw [target_of_origin h (toList_tenantPath name) hpath, normalPath_tenantPath]

namespace World

/-- **Where a deletion arrives.** Every deletion is sent for the path of the tenant that it names.
Its last segment is empty exactly for the empty name. Resolving dot segments leaves the path as it
is exactly unless the name is one dot or two: then the path of all tenants is left, or the one above
that. A node behind an endpoint that is no more than an origin sees a deletion of what is left. -/
theorem erasure_target :
    ∀ target stream tenant s, Sends (.erase target) stream tenant s →
      (lastSegment s.request.path.toList = [] ↔ target.getD tenant = "") ∧
      (removeDots [] s.request.path.toList = s.request.path.toList ↔
        target.getD tenant ≠ "." ∧ target.getD tenant ≠ "..") ∧
      (target.getD tenant = "." →
        removeDots [] s.request.path.toList = "/v1/tenants/".toList) ∧
      (target.getD tenant = ".." → removeDots [] s.request.path.toList = "/v1/".toList) ∧
      ∀ (n : Network) (place : Nat) (behaviours : List Behaviour),
        n.nodes.getD place .dead = .serving behaviours → IsOrigin (n.endpoints.getD place "") →
          ∃ seen : Sighting, (n.ask place s.request).2.seen = n.seen ++ [seen] ∧
            seen.node = place ∧ seen.method = .delete ∧
            seen.target.toList = removeDots [] s.request.path.toList := by
  intro target stream tenant s hs
  have hline := hs.line_eq
  have hmethod : s.request.method = .delete := congrArg Prod.fst hline
  have hpath : s.request.path = tenantPath (target.getD tenant) := congrArg Prod.snd hline
  rw [hpath]
  generalize target.getD tenant = name at hpath ⊢
  refine ⟨?_, ?_, ?_, ?_, ?_⟩
  · rw [lastSegment_tenantPath]
    exact percentEncode_eq_nil
  · rw [removeDots_tenantPath]
    split
    · next hone =>
      -- one dot: the path of all tenants is left
      subst hone
      simp [toList_tenantPath]
      decide
    · split
      · next htwo =>
        -- two dots: the path above that
        subst htwo
        simp [toList_tenantPath]
      · next hone htwo => exact iff_of_true rfl ⟨hone, htwo⟩
  · rintro rfl
    rw [removeDots_tenantPath, if_pos rfl]
  · rintro rfl
    rw [removeDots_tenantPath, if_neg (by decide), if_pos rfl]
  · -- the node sees the target of the address, whose path is the resolved one
    intro n place behaviours hserving horigin
    refine ⟨_, n.seen_ask hserving s.request, rfl, hmethod, ?_⟩
    have hseen := target_tenantPath horigin name
    rw [hpath, String.toList_ofList, Network.address, hseen]

/-- One node, which answers nothing. -/
def oneNode : Network :=
  ⟨["http://node0"], [.serving []], []⟩

/-- A tenant whose name has to be escaped. -/
theorem erasure_target_of_escape :
    ∃ s : Sending, Sends (.erase (some "team b/..")) .nil "acme" s ∧
      lastSegment s.request.path.toList ≠ [] ∧
      ∃ seen : Sighting, (oneNode.ask 0 s.request).2.seen = [seen] ∧ seen.method = .delete ∧
        seen.target.toList = s.request.path.toList := by
  obtain ⟨s, hs⟩ := exists_sends (.erase (some "team b/..")) .nil "acme"
  obtain ⟨hempty, hkept, -, -, harrives⟩ :=
    erasure_target (some "team b/..") .nil "acme" s hs
  have horigin : IsOrigin (oneNode.endpoints.getD 0 "") :=
    ⟨"http".toList, "node0".toList, by decide, .inl rfl, by decide,
      forall_mem_of_all (by decide)⟩
  obtain ⟨seen, hseen, -, hmethod, htarget⟩ := harrives oneNode 0 [] rfl horigin
  have hsame := hkept.mpr (by decide)
  exact ⟨s, hs, mt hempty.mp (by decide), seen, hseen, hmethod, htarget.trans hsame⟩

/-- **A deletion that leaves the tenants.** The tenant named `..` is not deleted: the node sees a
deletion of the path above all tenants. -/
theorem parent_erased :
    ∃ s : Sending, Sends (.erase (some "..")) .nil "acme" s ∧
      s.request.path = "/v1/tenants/.." ∧
      removeDots [] s.request.path.toList = "/v1/".toList ∧
      (oneNode.ask 0 s.request).2.seen.map (fun seen => (seen.method, seen.target)) =
        [(.delete, "/v1/")] := by
  obtain ⟨s, hs⟩ := exists_sends (.erase (some "..")) .nil "acme"
  have hmethod : s.request.method = .delete := congrArg Prod.fst hs.line_eq
  have hpath : s.request.path = tenantPath ".." := congrArg Prod.snd hs.line_eq
  have htext : tenantPath ".." = "/v1/tenants/.." := by decide
  have htarget : (oneNode.address 0 (tenantPath "..")).target = "/v1/".toList := by decide +kernel
  have hserving : oneNode.nodes.getD 0 .dead = .serving [] := rfl
  refine ⟨s, hs, hpath.trans htext, ?_, ?_⟩
  · rw [hpath, removeDots_tenantPath]
    decide
  · rw [Network.seen_ask oneNode hserving, hpath, htarget]
    simp [oneNode, hmethod]

end World

end ClusterClient
