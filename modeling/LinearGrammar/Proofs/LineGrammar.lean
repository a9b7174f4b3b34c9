import LinearGrammar.Proofs.TypedRemoval
import LinearGrammar.Proofs.Words

/-!
# The grammar of rule lines

Cutting a line is a search from the right, and what it finds is best said without a search: a line is
two texts with an arrow between them, the second of which has no arrow, and neither of which is blank.
`IsSplit` says this of a trimmed line. No line can be split in two ways, whatever dashes and angles
stand next to the arrow, because `cutLast` finds the arrow of every split (`IsSplit.cutLast_eq`).

The alternatives are told apart in the same manner. They are the one list of texts without a bar that
gives the second text when it is put together with bars. The one exception to this would be the empty
text, which no alternative and one empty alternative would give alike; that is why a blank second text
is no split.
-/

namespace LinearGrammar

namespace Text

variable {separator cs before after : List Char}

theorem not_infix_of_cutLast_eq_none (hne : separator ≠ []) (h : cutLast separator cs = none) :
    ¬ separator <:+: cs := by
  induction cs with
  | nil => simpa using hne
  | cons c cs ih =>
      rw [cutLast] at h
      split at h
      · cases h
      · next hrest =>
          split at h
          · cases h
          · next hstart =>
              intro hin
              rcases List.infix_cons_iff.1 hin with hpre | hin
              · exact hstart (List.isPrefixOf_iff_prefix.2 hpre)
              · exact ih hrest hin

/-- The separator stands where the text is cut, and nowhere behind that place. -/
theorem of_cutLast_eq_some (hne : separator ≠ []) (h : cutLast separator cs = some (before, after)) :
    cs = before ++ (separator ++ after) ∧ ¬ separator <:+: after := by
  induction cs generalizing before with
  | nil => cases h
  | cons c cs ih =>
      rw [cutLast] at h
      split at h
      · next front back hrest =>
          cases h
          obtain ⟨hcs, hafter⟩ := ih hrest
          exact ⟨by rw [hcs, List.cons_append], hafter⟩
      · next hrest =>
          split at h
          · next hstart =>
              cases h
              obtain ⟨back, hback⟩ := List.isPrefixOf_iff_prefix.1 hstart
              rw [← hback, List.drop_left]
              refine ⟨rfl, fun hin => not_infix_of_cutLast_eq_none hne hrest ?_⟩
              -- What follows the separator begins behind its first character, so it is part of `cs`.
              obtain ⟨d, rest, rfl⟩ := List.exists_cons_of_ne_nil hne
              have hcs : rest ++ back = cs := (List.cons.inj hback).2
              exact hcs ▸ hin.trans (List.suffix_append rest back).isInfix
          · cases h

theorem not_mem_of_mem_splitOn {c : Char} {text piece : String} (h : piece ∈ splitOn c text) :
    c ∉ piece.toList := by
  rw [splitOn] at h
  obtain ⟨cs, hcs, rfl⟩ := List.mem_map.1 h
  rw [String.toList_ofList]
  intro hc
  simpa using not_of_mem_splitWhere hcs c hc

end Text

namespace RuleLine

open Text

/-- The text is a head and a body with an arrow between them. -/
structure IsSplit (text head body : String) : Prop where
  text_eq : text = head ++ "->" ++ body
  no_arrow : ¬ arrow <:+: body.toList
  head_ne : trim head ≠ ""
  body_ne : trim body ≠ ""

/-- The line has this head, and its alternatives are what the bars of this body leave between them. -/
structure Says (r : RuleLine) (head body : String) : Prop where
  head_eq : r.head = trim head
  joined : String.intercalate "|" r.alternatives = trim body
  no_bar : ∀ a ∈ r.alternatives, bar ∉ a.toList

variable {line text head body head' body' : String} {r : RuleLine}

/-! ## The last arrow -/

theorem IsSplit.cutLast_eq (h : IsSplit text head body) :
    cutLast arrow text.toList = some (head.toList, body.toList) := by
  have harrow : "->".toList = arrow := by decide +kernel
  rw [h.text_eq, String.toList_append, String.toList_append, List.append_assoc, harrow]
  exact cutLast_arrow h.no_arrow head.toList

theorem IsSplit.unique (h : IsSplit text head body) (h' : IsSplit text head' body') :
    head' = head ∧ body' = body := by
  have hsame := h'.cutLast_eq.symm.trans h.cutLast_eq
  simp only [Option.some.injEq, Prod.mk.injEq, String.toList_inj] at hsame
  exact hsame

theorem IsSplit.ofText_eq (h : IsSplit (trim line) head body) :
    ofText line = .ok ⟨trim head, splitOn bar (trim body)⟩ := by
  rw [← ofText_trim, h.text_eq]
  exact ofText_arrow h.head_ne h.body_ne h.no_arrow

theorem ofText_of_not_isSplit (h : ∀ head body, ¬ IsSplit (trim line) head body) :
    ofText line = .error (.malformedRule (trim line)) := by
  simp only [ofText]
  split
  · rfl
  · next before after hcut =>
      obtain ⟨hline, hafter⟩ := of_cutLast_eq_some (by decide) hcut
      split
      · rfl
      · next hsides =>
          simp only [Bool.or_eq_true, String.isEmpty_iff, not_or] at hsides
          refine absurd ?_ (h (.ofList before) (.ofList after))
          exact {
            text_eq := by
              rw [← String.toList_inj, hline]
              simp [arrow]
            no_arrow := by rwa [String.toList_ofList]
            head_ne := hsides.1
            body_ne := hsides.2 }

/-! ## The alternatives -/

theorem says_iff (hbody : trim body ≠ "") :
    r.Says head body ↔ r = ⟨trim head, splitOn bar (trim body)⟩ := by
  constructor
  · intro h
    obtain ⟨rhead, alternatives⟩ := r
    have hne : alternatives ≠ [] := by
      rintro rfl
      exact hbody h.joined.symm
    have hcut := splitOn_intercalate_bar hne h.no_bar
    rw [h.joined] at hcut
    rw [hcut, ← h.head_eq]
  · rintro rfl
    have hjoined := intercalate_splitOn_bar (trim body)
    have hbar : ∀ a ∈ splitOn bar (trim body), bar ∉ a.toList := fun a ha =>
      not_mem_of_mem_splitOn ha
    generalize splitOn bar (trim body) = alternatives at hjoined hbar
    exact ⟨rfl, hjoined, hbar⟩

/-- A line is read exactly if the text without the blanks around it can be split, and then as the one
line that says the two sides of the split. Every other line is refused, whatever it is that it
lacks, and the text that was looked at is shown. -/
theorem ofText_grammar (line : String) :
    (∀ r, ofText line = .ok r ↔
      ∃ head body, IsSplit (trim line) head body ∧ r.Says head body) ∧
    (∀ head body, IsSplit (trim line) head body →
      ∃ r : RuleLine, r.Says head body ∧ ∀ r' : RuleLine, r'.Says head body → r' = r) ∧
    (∀ e, ofText line = .error e ↔
      e = .malformedRule (trim line) ∧ ∀ head body, ¬ IsSplit (trim line) head body) := by
  refine ⟨fun r => ⟨fun h => ?_, ?_⟩, fun head body hsplit => ?_, fun e => ⟨fun h => ?_, ?_⟩⟩
  · by_cases hsplit : ∃ head body, IsSplit (trim line) head body
    · obtain ⟨head, body, hsplit⟩ := hsplit
      have hr := Except.ok.inj (h.symm.trans hsplit.ofText_eq)
      exact ⟨head, body, hsplit, (says_iff hsplit.body_ne).2 hr⟩
    · rw [ofText_of_not_isSplit fun head body hsp => hsplit ⟨head, body, hsp⟩] at h
      cases h
  · rintro ⟨head, body, hsplit, hsays⟩
    rw [hsplit.ofText_eq, (says_iff hsplit.body_ne).1 hsays]
  · refine ⟨_, (says_iff hsplit.body_ne).2 rfl, fun r' hsays => ?_⟩
    exact (says_iff hsplit.body_ne).1 hsays
  · have hnone : ∀ head body, ¬ IsSplit (trim line) head body := by
      intro head body hsplit
      rw [hsplit.ofText_eq] at h
      cases h
    rw [ofText_of_not_isSplit hnone] at h
    cases h
    exact ⟨rfl, hnone⟩
  · rintro ⟨rfl, hnone⟩
    exact ofText_of_not_isSplit hnone

/-- An arrow in the head, a dash on one side of the arrow that counts and an angle on the other. -/
example : ofText "  E->E- -> >a||\tb- " = .ok ⟨"E->E-", [">a", "", "\tb-"]⟩ := by decide +kernel

end RuleLine

end LinearGrammar
