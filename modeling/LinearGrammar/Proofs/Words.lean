import LinearGrammar.Proofs.RuleLines
import LinearGrammar.Proofs.Spacing
import LinearGrammar.Text.Natural

/-!
# Words and numerals come back

A list of words written with blanks between them, and a natural written in digits, are read as they
were. For words everything follows from one equation, that the words of a text with a blank in it are
those before the blank and those behind it. For naturals there is little to do, because the value of
a list of digits is what the standard library takes it to be. A numeral may have zeros in front, and a
plus sign, which can be told from a digit.
-/

namespace LinearGrammar.Text

/-! ## Words -/

theorem not_of_mem_splitWhere {p : Char → Bool} {cs piece : List Char}
    (h : piece ∈ splitWhere p cs) : ∀ c ∈ piece, p c = false := by
  fun_induction splitWhere p cs generalizing piece with
  | case1 =>
      rw [List.mem_singleton.1 h]
      exact nofun
  | case2 c cs hc ih =>
      rcases List.mem_cons.1 h with rfl | h
      · exact nofun
      · exact ih h
  | case3 c cs hc hnil => exact absurd hnil (splitWhere_ne_nil p cs)
  | case4 c cs hc first rest hpieces ih =>
      rw [hpieces] at ih
      rcases List.mem_cons.1 h with rfl | h
      · exact List.forall_mem_cons.2 ⟨eq_false_of_ne_true hc, ih List.mem_cons_self⟩
      · exact ih (List.mem_cons_of_mem first h)

/-- Nothing is lost in a cut but the characters that are cut at. -/
theorem flatten_splitWhere (p : Char → Bool) (cs : List Char) :
    (splitWhere p cs).flatten = cs.filter fun c => !p c := by
  fun_induction splitWhere p cs with
  | case1 => rfl
  | case2 c cs hc ih =>
      rw [List.flatten_cons, ih, List.nil_append, List.filter_cons_of_neg (by simp [hc])]
  | case3 c cs hc hnil => exact absurd hnil (splitWhere_ne_nil p cs)
  | case4 c cs hc first rest hpieces ih =>
      rw [hpieces, List.flatten_cons] at ih
      rw [List.flatten_cons, List.cons_append, ih, List.filter_cons_of_pos (by simp [hc])]

/-- The one equation from which the others about words follow. -/
theorem words_append_blank {b : Char} (hb : isBlank b = true) (xs ys : List Char) :
    words (.ofList (xs ++ b :: ys)) = words (.ofList xs) ++ words (.ofList ys) := by
  simp only [words, String.toList_ofList, splitWhere_eq_splitOnP]
  rw [List.splitOnP_append_cons xs ys hb, List.filter_append, List.map_append]

theorem words_nil : words (.ofList []) = [] := rfl

theorem words_cons_blank {b : Char} (hb : isBlank b = true) (cs : List Char) :
    words (.ofList (b :: cs)) = words (.ofList cs) := by
  have hcut := words_append_blank hb [] cs
  rwa [List.nil_append, words_nil, List.nil_append] at hcut

theorem words_blanks_append {gap : List Char} (hgap : ∀ b ∈ gap, isBlank b = true)
    (cs : List Char) : words (.ofList (gap ++ cs)) = words (.ofList cs) := by
  induction gap with
  | nil => rfl
  | cons b gap ih =>
      obtain ⟨hb, hgap⟩ := List.forall_mem_cons.1 hgap
      rw [List.cons_append, words_cons_blank hb, ih hgap]

theorem words_append_blanks {gap : List Char} (hgap : ∀ b ∈ gap, isBlank b = true)
    (cs : List Char) : words (.ofList (cs ++ gap)) = words (.ofList cs) := by
  cases gap with
  | nil => rw [List.append_nil]
  | cons b gap =>
      obtain ⟨hb, hgap⟩ := List.forall_mem_cons.1 hgap
      have hnone := words_blanks_append hgap []
      rw [List.append_nil, words_nil] at hnone
      rw [words_append_blank hb, hnone, List.append_nil]

theorem words_trim (text : String) : words (trim text) = words text := by
  obtain ⟨before, after, htext, hbefore, hafter⟩ := exists_append_trimChars text.toList
  calc words (trim text)
      = words (.ofList (before ++ trimChars text.toList)) := by
        rw [words_blanks_append hbefore, trim]
    _ = words (.ofList (before ++ trimChars text.toList ++ after)) :=
        (words_append_blanks hafter _).symm
    _ = words text := by rw [htext, String.ofList_toList]

theorem words_symbol {s : String} (hs : IsSymbol s) : words s = [s] := by
  obtain ⟨hne, hink⟩ := hs
  have hnone : ∀ c ∈ s.toList, isBlank c = false := fun c hc =>
    isInk_iff.1 (hasBlank_eq_false_iff.1 hink c hc)
  have hne : s.toList.isEmpty = false :=
    List.isEmpty_eq_false_iff.2 (mt String.toList_eq_nil_iff.1 hne)
  rw [words, splitWhere_eq_splitOnP, List.splitOnP_eq_singleton hnone]
  simp [hne]

theorem words_spaced {pieces : List String} {cs : List Char}
    (hpieces : ∀ s ∈ pieces, IsSymbol s) (h : Spaced pieces cs) : words (.ofList cs) = pieces := by
  induction h with
  | nil => rfl
  | blank hb _ ih => rw [words_cons_blank hb, ih hpieces]
  | last piece => rw [String.ofList_toList, words_symbol (hpieces piece List.mem_cons_self)]
  | piece hb _ ih =>
      obtain ⟨hpiece, hrest⟩ := List.forall_mem_cons.1 hpieces
      rw [words_append_blank hb, String.ofList_toList, words_symbol hpiece, ih hrest]
      rfl

theorem isSymbol_of_mem_words {text s : String} (hs : s ∈ words text) : IsSymbol s := by
  obtain ⟨piece, hpiece, rfl⟩ := List.mem_map.1 hs
  obtain ⟨hmem, hne⟩ := List.mem_filter.1 hpiece
  refine isSymbol_ofList_iff.2 ⟨by simpa using hne, fun c hc => ?_⟩
  exact isInk_iff.2 (not_of_mem_splitWhere hmem c hc)

theorem words_ne_nil {text : String} (h : trim text ≠ "") : words text ≠ [] := by
  intro hnil
  rw [words, List.map_eq_nil_iff] at hnil
  apply h
  rw [← squeeze_eq_empty_iff, ← String.toList_eq_nil_iff, toList_squeeze]
  have hflatten := flatten_splitWhere isBlank text.toList
  rw [← List.flatten_filter_not_isEmpty, hnil] at hflatten
  exact hflatten.symm

/-! ## Numerals -/

/-- A way to write a natural: as many zeros in front as one likes, and a plus sign or none. -/
inductive IsNumeral (n : Nat) : List Char → Prop
  | plain (zeros : Nat) : IsNumeral n (List.replicate zeros '0' ++ Nat.toDigits 10 n)
  | plus (zeros : Nat) : IsNumeral n ('+' :: (List.replicate zeros '0' ++ Nat.toDigits 10 n))

theorem digitsValue_eq (digits : List Char) :
    digitsValue digits = Nat.ofDigitChars 10 digits 0 := by
  simp only [digitsValue, digitValue, Nat.ofDigitChars_eq_foldl, Nat.mul_comm 10]

theorem isInk_of_isDigit {c : Char} (hc : c.isDigit = true) : isInk c = true := by
  obtain ⟨hlow, hhigh⟩ := Char.isDigit_iff_toNat.1 hc
  have hlow : 48 ≤ c.toNat := hlow
  have hhigh : c.toNat ≤ 57 := hhigh
  rw [isInk_iff, isBlank, List.any_eq_false]
  -- The digits lie between two of the ranges.
  simp only [blankRanges, List.forall_mem_cons, Bool.and_eq_true, decide_eq_true_eq]
  refine ⟨?_, ?_, ?_, ?_, ?_, ?_, ?_, ?_, ?_, ?_, nofun⟩ <;> omega

/-- The digits of a natural with zeros in front of them. -/
theorem isDigit_padded {zeros n : Nat} :
    ∀ c ∈ List.replicate zeros '0' ++ Nat.toDigits 10 n, c.isDigit = true := by
  intro c hc
  rcases List.mem_append.1 hc with hc | hc
  · rw [List.eq_of_mem_replicate hc]
    rfl
  · exact Nat.isDigit_of_mem_toDigits (by decide) (by decide) hc

theorem naturalOfDigits?_padded {n : Nat} (hn : n < wordLimit) (zeros : Nat) :
    naturalOfDigits? (List.replicate zeros '0' ++ Nat.toDigits 10 n) = some n := by
  have hvalue : digitsValue (List.replicate zeros '0' ++ Nat.toDigits 10 n) = n := by
    rw [digitsValue_eq, Nat.ofDigitChars_append, Nat.ofDigitChars_replicate_zero, Nat.mul_zero,
      Nat.ofDigitChars_ten_toDigits]
  have hne : List.replicate zeros '0' ++ Nat.toDigits 10 n ≠ [] :=
    List.append_ne_nil_of_right_ne_nil _ Nat.toDigits_ne_nil
  rw [naturalOfDigits?, if_neg, hvalue, if_pos hn]
  rw [List.all_eq_true.2 isDigit_padded, List.isEmpty_eq_false_iff.2 hne]
  decide

/-- A text that does not begin with a plus sign is read as it is. -/
theorem natural?_of_head? {text : String} (h : text.toList.head? ≠ some '+') :
    natural? text = naturalOfDigits? text.toList := by
  unfold natural?
  split
  · next digits heq => exact absurd (by rw [heq]; rfl) h
  · rfl

theorem natural?_lt {text : String} {n : Nat} (h : natural? text = some n) : n < wordLimit := by
  unfold natural? at h
  split at h <;> exact naturalOfDigits?_lt h

theorem IsNumeral.natural? {n : Nat} {text : String} (h : IsNumeral n text.toList)
    (hn : n < wordLimit) : natural? text = some n := by
  generalize htext : text.toList = cs at h
  cases h with
  | plain zeros =>
      rw [natural?_of_head?, htext, naturalOfDigits?_padded hn]
      intro hplus
      rw [htext] at hplus
      exact absurd (isDigit_padded '+' (List.mem_of_head? hplus)) (by decide)
  | plus zeros =>
      unfold Text.natural?
      rw [htext]
      exact naturalOfDigits?_padded hn zeros

theorem IsNumeral.isSymbol {n : Nat} {text : String} (h : IsNumeral n text.toList) :
    IsSymbol text := by
  rw [← text.ofList_toList, isSymbol_ofList_iff]
  generalize text.toList = cs at h
  have hink : ∀ zeros, ∀ c ∈ List.replicate zeros '0' ++ Nat.toDigits 10 n, isInk c = true :=
    fun _ c hc => isInk_of_isDigit (isDigit_padded c hc)
  cases h with
  | plain zeros => exact ⟨List.append_ne_nil_of_right_ne_nil _ Nat.toDigits_ne_nil, hink zeros⟩
  | plus zeros =>
      exact ⟨List.cons_ne_nil _ _, List.forall_mem_cons.2 ⟨by decide, hink zeros⟩⟩

end LinearGrammar.Text
