import Mathlib.Data.List.TakeWhile
import LinearGrammar.Text.Blank

/-!
# What trimming and squeezing leave alone

Symbols, heads and depths are cleaned when they come in and are compared as they stand from then
on. That is sound because cleaning is done once and for all: a text without a blank is left as it
is by both functions, and a trimmed text is left as it is by trimming it again. The second fact
needs an argument only because `trimChars` drops blanks at two ends, and dropping them at the back
could in principle bring a blank to the front; it does not, because what it keeps is a prefix.
-/

namespace LinearGrammar.Text

/-- A text that can stand as a symbol: it is not empty, and no blank is in it. -/
def IsSymbol (text : String) : Prop := text ≠ "" ∧ hasBlank text = false

instance (text : String) : Decidable (IsSymbol text) := inferInstanceAs (Decidable (_ ∧ _))

/-! ## Ink -/

theorem isInk_iff {c : Char} : isInk c = true ↔ isBlank c = false := by
  rw [isInk, Bool.not_eq_true']

theorem hasBlank_eq_false_iff {text : String} :
    hasBlank text = false ↔ ∀ c ∈ text.toList, isInk c = true := by
  rw [hasBlank, List.any_eq_false]
  exact forall₂_congr fun c _ => by rw [isInk_iff, Bool.not_eq_true]

theorem hasBlank_ofList_eq_false_iff {cs : List Char} :
    hasBlank (String.ofList cs) = false ↔ ∀ c ∈ cs, isInk c = true := by
  rw [hasBlank_eq_false_iff, String.toList_ofList]

theorem isSymbol_ofList_iff {cs : List Char} :
    IsSymbol (String.ofList cs) ↔ cs ≠ [] ∧ ∀ c ∈ cs, isInk c = true := by
  rw [IsSymbol, hasBlank_ofList_eq_false_iff, Ne, Ne, ← String.toList_eq_nil_iff,
    String.toList_ofList]

/-! ## Trimming -/

theorem dropWhile_eq_self {p : Char → Bool} {cs : List Char}
    (h : ∀ c, cs.head? = some c → p c = false) : cs.dropWhile p = cs := by
  cases cs with
  | nil => rfl
  | cons c cs => rw [List.dropWhile_cons_of_neg (by rw [h c rfl]; decide)]

theorem of_head?_dropWhile {p : Char → Bool} {cs : List Char} {c : Char}
    (h : (cs.dropWhile p).head? = some c) : p c = false := by
  have hnot := List.head?_dropWhile_not p cs
  rw [h] at hnot
  exact hnot

/-- A text is trimmed if neither its first nor its last character is blank. -/
theorem trimChars_eq_self {cs : List Char} (hfirst : ∀ c, cs.head? = some c → isBlank c = false)
    (hlast : ∀ c, cs.getLast? = some c → isBlank c = false) : trimChars cs = cs := by
  rw [trimChars, dropWhile_eq_self hfirst, dropWhile_eq_self, List.reverse_reverse]
  intro c hc
  rw [List.head?_reverse] at hc
  exact hlast c hc

theorem isBlank_of_getLast?_trimChars {cs : List Char} {c : Char}
    (h : (trimChars cs).getLast? = some c) : isBlank c = false := by
  rw [trimChars, List.getLast?_reverse] at h
  exact of_head?_dropWhile h

theorem trimChars_prefix (cs : List Char) : trimChars cs <+: cs.dropWhile isBlank := by
  rw [trimChars, ← List.reverse_suffix, List.reverse_reverse]
  exact List.dropWhile_suffix _

theorem isBlank_of_head?_trimChars {cs : List Char} {c : Char}
    (h : (trimChars cs).head? = some c) : isBlank c = false := by
  obtain ⟨rest, hrest⟩ := trimChars_prefix cs
  have hhead : (cs.dropWhile isBlank).head? = some c := by
    rw [← hrest, List.head?_append, h]
    rfl
  exact of_head?_dropWhile hhead

theorem trimChars_trimChars (cs : List Char) : trimChars (trimChars cs) = trimChars cs :=
  trimChars_eq_self (fun _ => isBlank_of_head?_trimChars) fun _ => isBlank_of_getLast?_trimChars

@[simp] theorem trim_trim (text : String) : trim (trim text) = trim text := by
  rw [trim, toList_trim, trimChars_trimChars, ← toList_trim, String.ofList_toList]

theorem trim_of_hasBlank {text : String} (h : hasBlank text = false) : trim text = text := by
  rw [hasBlank_eq_false_iff] at h
  rw [trim, trimChars_eq_self, String.ofList_toList]
  · intro c hc
    exact isInk_iff.1 (h c (List.mem_of_head? hc))
  · intro c hc
    exact isInk_iff.1 (h c (List.mem_of_getLast? hc))

theorem trim_eq_empty_iff {text : String} :
    trim text = "" ↔ ∀ c ∈ text.toList, isBlank c = true := by
  rw [← String.toList_eq_nil_iff, toList_trim, trimChars, List.reverse_eq_nil_iff,
    List.dropWhile_eq_nil_iff]
  simp only [List.mem_reverse]
  constructor
  · intro h c hc
    rw [← List.takeWhile_append_dropWhile (p := isBlank) (l := text.toList)] at hc
    rcases List.mem_append.1 hc with hc | hc
    · exact List.mem_takeWhile_imp hc
    · exact h c hc
  · intro h c hc
    exact h c ((List.dropWhile_suffix _).subset hc)

/-- A text is what trimming leaves of it, with blanks around. -/
theorem exists_append_trimChars (cs : List Char) :
    ∃ before after, before ++ trimChars cs ++ after = cs ∧ (∀ c ∈ before, isBlank c = true) ∧
      ∀ c ∈ after, isBlank c = true := by
  obtain ⟨after, hafter⟩ := trimChars_prefix cs
  refine ⟨cs.takeWhile isBlank, after, ?_, fun c hc => List.mem_takeWhile_imp hc, ?_⟩
  · rw [List.append_assoc, hafter, List.takeWhile_append_dropWhile]
  · intro c hc
    have hsplit : trimChars cs ++ ((cs.dropWhile isBlank).reverse.takeWhile isBlank).reverse =
        cs.dropWhile isBlank := by
      rw [trimChars, ← List.reverse_append, List.takeWhile_append_dropWhile, List.reverse_reverse]
    rw [List.append_cancel_left (hafter.trans hsplit.symm), List.mem_reverse] at hc
    exact List.mem_takeWhile_imp hc

/-- Blanks around a trimmed text are all that trimming takes away. -/
theorem trimChars_append {before middle after : List Char}
    (hbefore : ∀ c ∈ before, isBlank c = true) (hafter : ∀ c ∈ after, isBlank c = true)
    (hmiddle : trimChars middle = middle) : trimChars (before ++ middle ++ after) = middle := by
  cases hcases : middle with
  | nil =>
      have hblank : ∀ c ∈ before ++ after, isBlank c = true := fun c hc =>
        (List.mem_append.1 hc).elim (hbefore c) (hafter c)
      rw [List.append_nil, trimChars, List.dropWhile_eq_nil_iff.2 hblank]
      rfl
  | cons c cs =>
      rw [← hcases, List.append_assoc, trimChars, List.dropWhile_append_of_pos hbefore]
      have hfirst : (middle ++ after).dropWhile isBlank = middle ++ after := by
        refine dropWhile_eq_self fun d hd => ?_
        have hhead : (trimChars middle).head? = some d := by
          rw [hmiddle, ← hd, hcases]
          rfl
        exact isBlank_of_head?_trimChars hhead
      have hlast : middle.reverse.dropWhile isBlank = middle.reverse := by
        refine dropWhile_eq_self fun d hd => ?_
        have hend : (trimChars middle).getLast? = some d := by
          rw [hmiddle, ← hd, List.head?_reverse]
        exact isBlank_of_getLast?_trimChars hend
      rw [hfirst, List.reverse_append, List.dropWhile_append_of_pos, hlast, List.reverse_reverse]
      exact fun d hd => hafter d (List.mem_reverse.1 hd)

/-- Blanks around any text do not count. -/
theorem trim_append {before after : String} (hbefore : ∀ c ∈ before.toList, isBlank c = true)
    (hafter : ∀ c ∈ after.toList, isBlank c = true) (text : String) :
    trim (before ++ text ++ after) = trim text := by
  obtain ⟨front, back, htext, hfront, hback⟩ := exists_append_trimChars text.toList
  have hline : (before ++ text ++ after).toList =
      (before.toList ++ front) ++ trimChars text.toList ++ (back ++ after.toList) := by
    simp only [String.toList_append, List.append_assoc]
    rw [← List.append_assoc front, ← List.append_assoc (front ++ _), htext]
  rw [trim, hline, trimChars_append _ _ (trimChars_trimChars _), trim]
  · exact fun c hc => (List.mem_append.1 hc).elim (hbefore c) (hfront c)
  · exact fun c hc => (List.mem_append.1 hc).elim (hback c) (hafter c)

/-- Trimming a text takes blanks from the front of its first part and the back of its last, which are
the same trimmed as before. -/
theorem exists_trimChars_append {left right : List Char} (hleft : trimChars left ≠ [])
    (hright : trimChars right ≠ []) (middle : List Char) :
    ∃ left' right', trimChars (left ++ middle ++ right) = left' ++ middle ++ right' ∧
      trimChars left' = trimChars left ∧ trimChars right' = trimChars right ∧ right' <+: right := by
  obtain ⟨front, gap, hfront, hfrontBlank, hgap⟩ := exists_append_trimChars left
  obtain ⟨gap', back, hback, hgap', hbackBlank⟩ := exists_append_trimChars right
  have hnil : ∀ c ∈ ([] : List Char), isBlank c = true := nofun
  refine ⟨trimChars left ++ gap, gap' ++ trimChars right, ?_, ?_, ?_, back, hback⟩
  · have hsplit : left ++ middle ++ right =
        front ++ (trimChars left ++ gap ++ middle ++ (gap' ++ trimChars right)) ++ back := by
      calc left ++ middle ++ right
          = (front ++ trimChars left ++ gap) ++ middle ++ (gap' ++ trimChars right ++ back) := by
            rw [hfront, hback]
        _ = _ := by simp only [List.append_assoc]
    rw [hsplit, trimChars_append hfrontBlank hbackBlank]
    refine trimChars_eq_self (fun c hc => ?_) fun c hc => ?_
    · have hhead : (trimChars left).head? = some c := by
        rw [← hc, List.append_assoc, List.append_assoc, List.head?_append,
          List.head?_eq_some_head hleft, Option.some_or]
      exact isBlank_of_head?_trimChars hhead
    · have hend : (trimChars right).getLast? = some c := by
        rw [← hc, ← List.append_assoc, List.getLast?_append,
          List.getLast?_eq_some_getLast hright, Option.some_or]
      exact isBlank_of_getLast?_trimChars hend
  · exact trimChars_append hnil hgap (trimChars_trimChars left)
  · have h := trimChars_append hgap' hnil (trimChars_trimChars right)
    rwa [List.append_nil] at h

/-! ## Squeezing -/

theorem hasBlank_squeeze (text : String) : hasBlank (squeeze text) = false := by
  rw [hasBlank_eq_false_iff, toList_squeeze]
  exact fun c hc => (List.mem_filter.1 hc).2

theorem squeeze_of_hasBlank {text : String} (h : hasBlank text = false) :
    squeeze text = text := by
  rw [hasBlank_eq_false_iff] at h
  rw [squeeze, List.filter_eq_self.2 h, String.ofList_toList]

theorem squeeze_eq_empty_iff {text : String} : squeeze text = "" ↔ trim text = "" := by
  rw [trim_eq_empty_iff, ← String.toList_eq_nil_iff, toList_squeeze, List.filter_eq_nil_iff]
  exact forall₂_congr fun c _ => by rw [isInk_iff, Bool.not_eq_false]

end LinearGrammar.Text
