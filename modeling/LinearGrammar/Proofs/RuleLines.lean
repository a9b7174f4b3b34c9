import LinearGrammar.Proofs.Blank
import LinearGrammar.Rule.Line

/-!
# How a rule line is taken apart

A line may have many arrows, and blanks in many places, and the last arrow counts. So a head and a body
that are put together to a line come apart again as they were, whatever arrows the head has, if only
the body has none. None can arise between the two either: an arrow ends in `>` and begins with `-`, so
no two of them share a character. Trimming the line first takes blanks from the front of the head and
the back of the body, which would be trimmed away after the cut in any case.
-/

namespace LinearGrammar

namespace Text

/-! ## Cutting at the last place -/

theorem cutLast_eq_none {separator cs : List Char} (h : ¬ separator <:+: cs) :
    cutLast separator cs = none := by
  induction cs with
  | nil => rfl
  | cons c cs ih =>
      have hrest : cutLast separator cs = none := ih fun hin => h (List.infix_cons hin)
      have hstart : ¬ separator.isPrefixOf (c :: cs) = true := fun hpre =>
        h (List.isPrefixOf_iff_prefix.1 hpre).isInfix
      rw [cutLast, hrest]
      exact if_neg hstart

/-- What stands further to the front does not matter for the cut. -/
theorem cutLast_append {separator cs left right : List Char} (before : List Char)
    (h : cutLast separator cs = some (left, right)) :
    cutLast separator (before ++ cs) = some (before ++ left, right) := by
  induction before with
  | nil => exact h
  | cons c rest ih => rw [List.cons_append, cutLast, ih, List.cons_append]

/-! ## Pieces -/

theorem splitWhere_eq_splitOnP (p : Char → Bool) (cs : List Char) :
    splitWhere p cs = cs.splitOnP p := by
  induction cs with
  | nil => rfl
  | cons c cs ih =>
      rw [splitWhere, List.splitOnP_cons_eq_if_modifyHead, ← ih]
      split
      · rfl
      · cases hpieces : splitWhere p cs with
        | nil => exact absurd hpieces (splitWhere_ne_nil p cs)
        | cons piece pieces => rfl

theorem splitOn_of_not_mem {separator : Char} {text : String} (h : separator ∉ text.toList) :
    splitOn separator text = [text] := by
  have hnone : ∀ c ∈ text.toList, (c == separator) = false := fun c hc =>
    beq_eq_false_iff_ne.2 fun heq => h (heq ▸ hc)
  rw [splitOn, splitWhere_eq_splitOnP, List.splitOnP_eq_singleton hnone, List.map_singleton,
    String.ofList_toList]

end Text

namespace RuleLine

open Text

/-- The first arrow of a text without another one is its last arrow. -/
theorem cutLast_arrow {after : List Char} (h : ¬ arrow <:+: after) (before : List Char) :
    cutLast arrow (before ++ (arrow ++ after)) = some (before, after) := by
  have hnone : cutLast arrow ('>' :: after) = none := by
    refine cutLast_eq_none fun hin => ?_
    rcases List.infix_cons_iff.1 hin with hpre | hin
    · exact absurd (List.cons_prefix_cons.1 hpre).1 (by decide)
    · exact h hin
  have hhere : cutLast arrow (arrow ++ after) = some ([], after) := by
    change cutLast arrow ('-' :: '>' :: after) = _
    rw [cutLast, hnone]
    rfl
  have hcut := cutLast_append before hhere
  rwa [List.append_nil] at hcut

/-- A head and a body without an arrow, put together to a line, come apart trimmed. -/
theorem ofText_arrow {head body : String} (hhead : trim head ≠ "") (hbody : trim body ≠ "")
    (harrow : ¬ arrow <:+: body.toList) :
    ofText (head ++ "->" ++ body) = .ok ⟨trim head, splitOn bar (trim body)⟩ := by
  have hleft : trimChars head.toList ≠ [] := fun h =>
    hhead (String.toList_eq_nil_iff.1 ((toList_trim head).trans h))
  have hright : trimChars body.toList ≠ [] := fun h =>
    hbody (String.toList_eq_nil_iff.1 ((toList_trim body).trans h))
  obtain ⟨left, right, hline, hhead', hbody', hpre⟩ :=
    exists_trimChars_append hleft hright arrow
  have hcut : cutLast arrow (trim (head ++ "->" ++ body)).toList = some (left, right) := by
    rw [toList_trim, String.toList_append, String.toList_append]
    change cutLast arrow (trimChars (head.toList ++ arrow ++ body.toList)) = _
    rw [hline, List.append_assoc]
    exact cutLast_arrow (fun h => harrow (h.trans hpre.isInfix)) left
  have htrim : trim (.ofList left) = trim head := by
    rw [trim, String.toList_ofList, hhead', trim]
  have htrim' : trim (.ofList right) = trim body := by
    rw [trim, String.toList_ofList, hbody', trim]
  simp only [ofText, hcut, htrim, htrim']
  rw [if_neg]
  rw [Bool.or_eq_true, String.isEmpty_iff, String.isEmpty_iff]
  exact not_or.2 ⟨hhead, hbody⟩

end RuleLine

end LinearGrammar
