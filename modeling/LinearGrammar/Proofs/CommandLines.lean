import LinearGrammar.Command
import LinearGrammar.Proofs.Blank

/-!
# How a command line is taken apart

A line is trimmed, cut at its first blank, and what is behind that blank is trimmed again. A keyword
has no blank in it and comes back as it was typed; what the command is given comes back trimmed. Only
the first trimming could be in the way. It takes blanks from the end of the line, and if nothing else
is behind the keyword, the blank that the cut is looking for goes with them. But then the command is
given nothing, with that blank or without it.
-/

namespace LinearGrammar

namespace Text

/-- Behind a trimmed text, trimming takes nothing that it would not take there in any case. -/
theorem exists_trimChars_append_left {left : List Char} (hne : left ≠ [])
    (hleft : trimChars left = left) (right : List Char) :
    ∃ rest, trimChars (left ++ right) = left ++ rest ∧ rest <+: right ∧
      trimChars rest = trimChars right := by
  have hnil : ∀ c ∈ ([] : List Char), isBlank c = true := nofun
  obtain ⟨before, after, htext, hbefore, hafter⟩ := exists_append_trimChars right
  have hkept : trimChars (trimChars right) = trimChars right := trimChars_trimChars right
  generalize trimChars right = middle at htext hkept
  subst htext
  cases hcases : middle with
  | nil =>
      -- All of it is blank and goes.
      have hblank : ∀ c ∈ before ++ after, isBlank c = true := fun c hc =>
        (List.mem_append.1 hc).elim (hbefore c) (hafter c)
      have htrim : trimChars ([] ++ left ++ (before ++ after)) = left :=
        trimChars_append hnil hblank hleft
      refine ⟨[], ?_, List.nil_prefix, rfl⟩
      simpa using htrim
  | cons c cs =>
      have htrim : trimChars (left ++ (before ++ middle)) = left ++ (before ++ middle) := by
        refine trimChars_eq_self (fun d hd => ?_) fun d hd => ?_
        · have hhead : (trimChars left).head? = some d := by
            rw [hleft, ← hd, List.head?_append, List.head?_eq_some_head hne, Option.some_or]
          exact isBlank_of_head?_trimChars hhead
        · have hend : (trimChars middle).getLast? = some d := by
            rw [hkept, ← hd, ← List.append_assoc, List.getLast?_append, hcases,
              List.getLast?_eq_some_getLast (List.cons_ne_nil c cs), Option.some_or]
          exact isBlank_of_getLast?_trimChars hend
      rw [← hcases]
      refine ⟨before ++ middle, ?_, List.prefix_append _ _, ?_⟩
      · have hall := trimChars_append hnil hafter htrim
        simpa using hall
      · have hrest := trimChars_append hbefore hnil hkept
        simpa using hrest

theorem trimChars_cons_of_isBlank {b : Char} (hb : isBlank b = true) (cs : List Char) :
    trimChars (b :: cs) = trimChars cs := by
  rw [trimChars, List.dropWhile_cons_of_pos hb, trimChars]

theorem cutBlank_append {keyword rest : List Char} (hkeyword : ∀ c ∈ keyword, isInk c = true)
    (hrest : ∀ c, rest.head? = some c → isBlank c = true) :
    cutBlank (.ofList (keyword ++ rest)) = (.ofList keyword, .ofList (rest.drop 1)) := by
  have htake : rest.takeWhile isInk = [] ∧ rest.dropWhile isInk = rest := by
    cases rest with
    | nil => exact ⟨rfl, rfl⟩
    | cons c cs =>
        have hc : ¬ isInk c = true := by
          rw [isInk_iff, hrest c rfl]
          decide
        exact ⟨List.takeWhile_cons_of_neg hc, List.dropWhile_cons_of_neg hc⟩
  simp only [cutBlank, String.toList_ofList]
  rw [List.takeWhile_append_of_pos hkeyword, List.dropWhile_append_of_pos hkeyword, htake.1, htake.2,
    List.append_nil]

end Text

open Text (IsSymbol isBlank)

/-- A keyword, and behind it nothing or a blank and whatever the command is given. -/
theorem Command.ofLine_keyword {keyword args : String} (hkeyword : IsSymbol keyword)
    (hnote : keyword.toList.head? ≠ some '#')
    (hargs : ∀ c, args.toList.head? = some c → isBlank c = true) :
    ofLine (keyword ++ args) = ofKeyword keyword (Text.trim args) := by
  obtain ⟨hne, hink⟩ := hkeyword
  have hne' : keyword.toList ≠ [] := mt String.toList_eq_nil_iff.1 hne
  have hkept : Text.trimChars keyword.toList = keyword.toList := by
    rw [← Text.toList_trim, Text.trim_of_hasBlank hink]
  obtain ⟨rest, hline, ⟨dropped, hdropped⟩, hrest⟩ :=
    Text.exists_trimChars_append_left hne' hkept args.toList
  have hstart : ∀ c, rest.head? = some c → isBlank c = true := by
    intro c hc
    apply hargs c
    rw [← hdropped, List.head?_append, hc, Option.some_or]
  have htrim : Text.trim (keyword ++ args) = .ofList (keyword.toList ++ rest) := by
    rw [Text.trim, String.toList_append, hline]
  have hcut : Text.cutBlank (Text.trim (keyword ++ args)) = (keyword, .ofList (rest.drop 1)) := by
    rw [htrim, Text.cutBlank_append (Text.hasBlank_eq_false_iff.1 hink) hstart, String.ofList_toList]
  have hgiven : Text.trim (.ofList (rest.drop 1)) = Text.trim args := by
    rw [Text.trim, Text.trim, String.toList_ofList, ← hrest]
    cases rest with
    | nil => rfl
    | cons b rest => rw [Text.trimChars_cons_of_isBlank (hstart b rfl), List.drop_one, List.tail_cons]
  have hreal : ¬ ((Text.trim (keyword ++ args)).isEmpty ||
      (Text.trim (keyword ++ args)).toList.head? == some '#') = true := by
    obtain ⟨c, cs, hcs⟩ := List.exists_cons_of_ne_nil hne'
    rw [htrim, Bool.or_eq_true, String.isEmpty_iff, beq_iff_eq, ← String.toList_eq_nil_iff,
      String.toList_ofList, hcs]
    rw [hcs] at hnote
    simpa using hnote
  simp only [ofLine]
  rw [if_neg hreal, hcut, hgiven]

end LinearGrammar
