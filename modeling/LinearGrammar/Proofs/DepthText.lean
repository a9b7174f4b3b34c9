import LinearGrammar.Proofs.RaisedDepth
import LinearGrammar.Proofs.Words

/-!
# Which texts are depths

A depth is kept as it was typed, without its blanks, and is read when words are sampled. Texts of every
length are read, and a machine word has its limit, so there are three ways in which this can end.
Which one it is does not depend on how long the text is: zeros in front of a numeral do not count.

`IsNumeral` says what a numeral is from the writer's side, zeros and the digits of a natural behind
them. The reader takes any digits, one at least. Both are the same because every list of digits is
written in that way, for one natural: the digits of `10 * n + d` are those of `n` and then `d`, unless
`n` is zero, and then its one digit is one more zero in front.
-/

namespace LinearGrammar

namespace Text

/-! ## Digits -/

theorem digitsValue_append_singleton (digits : List Char) (c : Char) :
    digitsValue (digits ++ [c]) = digitsValue digits * 10 + digitValue c := by
  rw [digitsValue, List.foldl_append]
  rfl

/-- A digit is the one digit of its value. -/
theorem toDigits_digitValue {c : Char} (hc : c.isDigit = true) :
    digitValue c < 10 ∧ Nat.toDigits 10 (digitValue c) = [c] := by
  obtain ⟨hlow, hhigh⟩ := Char.isDigit_iff_toNat.1 hc
  have hlow : 48 ≤ c.toNat := hlow
  have hhigh : c.toNat ≤ 57 := hhigh
  have hvalue : digitValue c = c.toNat - 48 := rfl
  have hlt : digitValue c < 10 := by omega
  refine ⟨hlt, ?_⟩
  rw [Nat.toDigits_of_lt_base hlt, List.cons.injEq]
  refine ⟨?_, rfl⟩
  rw [← Char.toNat_inj, Nat.toNat_digitChar_of_lt_ten hlt]
  omega

theorem exists_eq_padded {digits : List Char} (hne : digits ≠ [])
    (hdigits : ∀ c ∈ digits, c.isDigit = true) :
    ∃ zeros, digits = List.replicate zeros '0' ++ Nat.toDigits 10 (digitsValue digits) := by
  induction digits using List.reverseRecOn with
  | nil => exact absurd rfl hne
  | append_singleton digits last ih =>
      obtain ⟨hlt, hlast⟩ := toDigits_digitValue (hdigits last (by simp))
      rw [digitsValue_append_singleton]
      by_cases hnil : digits = []
      · subst hnil
        refine ⟨0, ?_⟩
        have hvalue : digitsValue [] = 0 := rfl
        simp [hvalue, hlast]
      · obtain ⟨zeros, hzeros⟩ := ih hnil fun c hc => hdigits c (List.mem_append_left _ hc)
        rcases Nat.eq_zero_or_pos (digitsValue digits) with hzero | hpos
        · rw [hzero, Nat.toDigits_zero] at hzeros
          refine ⟨zeros + 1, ?_⟩
          rw [hzero, Nat.zero_mul, Nat.zero_add, hlast, List.replicate_succ', ← hzeros]
        · refine ⟨zeros, ?_⟩
          rw [Nat.mul_comm, ← Nat.toDigits_append_toDigits (by omega) hpos hlt, hlast,
            ← List.append_assoc, ← hzeros]

/-! ## Numerals -/

theorem naturalOfDigits?_eq_some_iff {digits : List Char} {n : Nat} :
    naturalOfDigits? digits = some n ↔
      (∃ zeros, digits = List.replicate zeros '0' ++ Nat.toDigits 10 n) ∧ n < wordLimit := by
  constructor
  · intro h
    refine ⟨?_, naturalOfDigits?_lt h⟩
    unfold naturalOfDigits? at h
    split at h
    · cases h
    · next hdigits =>
        simp only [Bool.or_eq_true, List.isEmpty_iff, Bool.not_eq_true', not_or,
          Bool.not_eq_false, List.all_eq_true] at hdigits
        split at h
        · cases h
          exact exists_eq_padded hdigits.1 hdigits.2
        · cases h
  · rintro ⟨⟨zeros, rfl⟩, hn⟩
    exact naturalOfDigits?_padded hn zeros

theorem isNumeral_plus_iff {digits : List Char} {n : Nat} :
    IsNumeral n ('+' :: digits) ↔
      ∃ zeros, digits = List.replicate zeros '0' ++ Nat.toDigits 10 n := by
  constructor
  · intro h
    generalize hcs : '+' :: digits = cs at h
    cases h with
    | plain zeros =>
        have hmem : '+' ∈ List.replicate zeros '0' ++ Nat.toDigits 10 n := hcs ▸ List.mem_cons_self
        exact absurd (isDigit_padded '+' hmem) (by decide)
    | plus zeros => exact ⟨zeros, (List.cons.inj hcs).2⟩
  · rintro ⟨zeros, rfl⟩
    exact .plus zeros

theorem isNumeral_iff_of_head? {cs : List Char} {n : Nat} (hplus : cs.head? ≠ some '+') :
    IsNumeral n cs ↔ ∃ zeros, cs = List.replicate zeros '0' ++ Nat.toDigits 10 n := by
  constructor
  · intro h
    cases h with
    | plain zeros => exact ⟨zeros, rfl⟩
    | plus zeros => exact absurd rfl hplus
  · rintro ⟨zeros, rfl⟩
    exact .plain zeros

/-- Exactly the numerals below the limit are read. -/
theorem natural?_eq_some_iff {text : String} {n : Nat} :
    natural? text = some n ↔ IsNumeral n text.toList ∧ n < wordLimit := by
  by_cases hplus : text.toList.head? = some '+'
  · obtain ⟨digits, hdigits⟩ : ∃ digits, text.toList = '+' :: digits := by
      cases hcs : text.toList with
      | nil => simp [hcs] at hplus
      | cons c digits =>
          rw [hcs, List.head?_cons, Option.some.injEq] at hplus
          exact ⟨digits, by rw [hplus]⟩
    rw [natural?, hdigits, isNumeral_plus_iff]
    exact naturalOfDigits?_eq_some_iff
  · rw [natural?_of_head? hplus, isNumeral_iff_of_head? hplus, naturalOfDigits?_eq_some_iff]

end Text

namespace Grammar

open Text

variable {g : Grammar}

/-! ## Depths -/

theorem depth_eq_ok_iff {n : Nat} :
    g.depth = .ok n ↔ IsNumeral n g.levels.toList ∧ n ≤ 1000 := by
  have hlimit : (1000 : Nat) < wordLimit := by decide
  constructor
  · intro h
    obtain ⟨hread, hle⟩ := depth_eq_ok h
    exact ⟨(natural?_eq_some_iff.1 hread).1, hle⟩
  · rintro ⟨hnumeral, hle⟩
    exact depth_of_natural? (natural?_eq_some_iff.2 ⟨hnumeral, by omega⟩) hle

theorem depth_eq_tooDeep_iff {n : Nat} :
    g.depth = .error (.tooDeep n) ↔
      IsNumeral n g.levels.toList ∧ 1000 < n ∧ n < wordLimit := by
  unfold Grammar.depth
  split
  · next hnone =>
      simp only [Except.error.injEq, reduceCtorEq, false_iff]
      rintro ⟨hnumeral, -, hlt⟩
      rw [natural?_eq_some_iff.2 ⟨hnumeral, hlt⟩] at hnone
      cases hnone
  · next depth hsome =>
      have hread := natural?_eq_some_iff.1 hsome
      split
      · next hdeep =>
          simp only [Except.error.injEq, SampleError.tooDeep.injEq]
          constructor
          · rintro rfl
            exact ⟨hread.1, hdeep, hread.2⟩
          · rintro ⟨hnumeral, -, hlt⟩
            have hsame := natural?_eq_some_iff.2 ⟨hnumeral, hlt⟩
            exact Option.some.inj (hsome.symm.trans hsame)
      · next hfits =>
          simp only [reduceCtorEq, false_iff]
          rintro ⟨hnumeral, hdeep, hlt⟩
          rw [natural?_eq_some_iff.2 ⟨hnumeral, hlt⟩, Option.some.injEq] at hsome
          exact hfits (hsome ▸ hdeep)

theorem depth_eq_invalidLevels_iff {shown : String} :
    g.depth = .error (.invalidLevels shown) ↔
      shown = g.levels ∧ ∀ n, IsNumeral n g.levels.toList → wordLimit ≤ n := by
  unfold Grammar.depth
  split
  · next hnone =>
      simp only [Except.error.injEq, SampleError.invalidLevels.injEq]
      constructor
      · rintro rfl
        refine ⟨rfl, fun n hnumeral => Nat.not_lt.1 fun hlt => ?_⟩
        rw [natural?_eq_some_iff.2 ⟨hnumeral, hlt⟩] at hnone
        cases hnone
      · rintro ⟨rfl, -⟩
        rfl
  · next depth hsome =>
      obtain ⟨hnumeral, hlt⟩ := natural?_eq_some_iff.1 hsome
      have hno : ¬ (shown = g.levels ∧ ∀ n, IsNumeral n g.levels.toList → wordLimit ≤ n) := by
        rintro ⟨-, hlarge⟩
        exact absurd (hlarge depth hnumeral) (by omega)
      split <;> simp [hno]

theorem generate_of_depth_eq_error {start : String} {e : SampleError} (hstart : g.start = some start)
    (hdepth : g.depth = .error e) (d : Draws) : g.generate d = (.error e, d) := by
  rw [generate, hstart, hdepth]

/-- A text is a depth if it is, without its blanks, a numeral of a natural up to 1000; it is too deep if
it is one of a larger machine natural; and it is no depth in every other case, be it a numeral or not.
Words are sampled with the natural of the numeral as the budget, or, if the text is no depth, not
at all. -/
theorem depth_tells (g : Grammar) (text : String) :
    (∀ n, (g.setLevels text).depth = .ok n ↔ IsNumeral n (squeeze text).toList ∧ n ≤ 1000) ∧
    (∀ n, (g.setLevels text).depth = .error (.tooDeep n) ↔
      IsNumeral n (squeeze text).toList ∧ 1000 < n ∧ n < Nat.pow 2 64) ∧
    (∀ shown, (g.setLevels text).depth = .error (.invalidLevels shown) ↔
      shown = squeeze text ∧ ∀ n, IsNumeral n (squeeze text).toList → Nat.pow 2 64 ≤ n) ∧
    ∀ start, g.start = some start → ∀ d,
      (∃ n, IsNumeral n (squeeze text).toList ∧ n ≤ 1000 ∧
        (g.setLevels text).generate d =
          (((g.setLevels text).expand n n [start] d).1.map (sampleOf [start]),
            ((g.setLevels text).expand n n [start] d).2)) ∨
      ∃ e, (g.setLevels text).depth = .error e ∧ (g.setLevels text).generate d = (.error e, d) := by
  refine ⟨fun n => depth_eq_ok_iff, fun n => depth_eq_tooDeep_iff,
    fun shown => depth_eq_invalidLevels_iff, fun start hstart d => ?_⟩
  have hstart : (g.setLevels text).start = some start := hstart
  cases hdepth : (g.setLevels text).depth with
  | ok n =>
      obtain ⟨hnumeral, hle⟩ := depth_eq_ok_iff.1 hdepth
      exact .inl ⟨n, hnumeral, hle, generate_eq hstart hdepth d⟩
  | error e => exact .inr ⟨e, rfl, generate_of_depth_eq_error hstart hdepth d⟩

/-- Zeros do not count against a depth, and no depth is so large that it wraps. -/
example : (empty.setLevels "+00000000000000000000000 7").depth = .ok 7 ∧
    (empty.setLevels "18446744073709551615").depth = .error (.tooDeep 18446744073709551615) ∧
    (empty.setLevels "018446744073709551616").depth =
      .error (.invalidLevels "018446744073709551616") := by decide +kernel

end Grammar

end LinearGrammar
