import LinearGrammar.Proofs.CommandLines
import LinearGrammar.Proofs.RuleRemoval
import LinearGrammar.Proofs.TypedRules
import LinearGrammar.Session.Basic

/-!
# Every rule can be taken out by a command

A rule that cannot be typed may still be there, because a file brought it: its text may hold arrows
and bars, and its head may hold these and blanks. All the same it can be named in a line that takes it
out. The head gives no trouble, since the last arrow of the line counts and the head stands before it.
In the body the characters are set apart by blanks. This is no cut, as a removal looks at the text
alone, in which there are no blanks; it serves to break up the arrows of the text, so that the arrow
between head and body is the last one. The bars of the text may stay. The line is cut at them, but the
pieces are put together again, with a bar for every cut.
-/

namespace LinearGrammar

namespace Text

theorem Padded.append_left (cs : List Char) {xs ys : List Char} (h : Padded xs ys) :
    Padded (cs ++ xs) (cs ++ ys) := by
  induction cs with
  | nil => exact h
  | cons c cs ih => exact .char c ih

theorem Spaced.padded {pieces : List String} {cs : List Char} (h : Spaced pieces cs) :
    Padded (pieces.flatMap String.toList) cs := by
  induction h with
  | nil => exact .nil
  | blank hb _ ih => exact .blank hb ih
  | last piece =>
      have hpiece := Padded.append_left piece.toList .nil
      simpa using hpiece
  | @piece piece pieces b cs hb _ ih =>
      rw [List.flatMap_cons]
      exact Padded.append_left piece.toList (.blank hb ih)

/-- Blanks between all the characters of a text. -/
theorem Spaced.squeeze_eq {text spaced : String} (hink : hasBlank text = false)
    (h : Spaced (text.toList.map String.singleton) spaced.toList) : squeeze spaced = text := by
  have hpadded := h.padded
  rw [List.flatMap_map] at hpadded
  simp only [String.toList_singleton, List.flatMap_singleton'] at hpadded
  exact hpadded.squeeze_eq hink

theorem squeeze_trim (text : String) : squeeze (trim text) = squeeze text := by
  obtain ⟨before, after, htext, hbefore, hafter⟩ := exists_append_trimChars text.toList
  have hgone : ∀ cs : List Char, (∀ c ∈ cs, isBlank c = true) → cs.filter isInk = [] := by
    intro cs hcs
    rw [List.filter_eq_nil_iff]
    intro c hc
    simp [isInk, hcs c hc]
  rw [← String.toList_inj, toList_squeeze, toList_squeeze, toList_trim, ← htext, List.filter_append,
    List.filter_append, hgone before hbefore, hgone after hafter, htext, List.nil_append,
    List.append_nil]

end Text

namespace RuleLine

theorem ofText_trim (line : String) : ofText (Text.trim line) = ofText line := by
  rw [ofText, Text.trim_trim, ofText]

/-- What is put together after a cut at the bars is what was cut. -/
theorem intercalate_splitOn_bar (text : String) :
    String.intercalate "|" (Text.splitOn bar text) = text := by
  rw [← String.toList_inj, String.toList_intercalate, Text.splitOn, Text.splitWhere_eq_splitOnP,
    List.map_map]
  have hlists : (String.toList ∘ String.ofList) = id := by
    funext cs
    exact String.toList_ofList
  rw [hlists, List.map_id]
  exact List.intercalate_splitOn bar

end RuleLine

theorem Command.ofLine_unrule {line : String} (hline : Text.trim line ≠ "") :
    ofLine ("unrule " ++ line) = .unrule (Text.trim line) := by
  have htrim : Text.trim (" " ++ line) = Text.trim line := by
    rw [← String.toList_inj, Text.toList_trim, Text.toList_trim, String.toList_append]
    exact Text.trimChars_cons_of_isBlank (by decide) line.toList
  have hblank : ∀ c, (" " ++ line).toList.head? = some c → Text.isBlank c = true := by
    intro c hc
    rw [String.toList_append] at hc
    cases hc
    decide
  have hsplit : "unrule " ++ line = "unrule" ++ (" " ++ line) := by
    rw [← String.append_assoc]
    rfl
  have hkeyword : ofKeyword "unrule" (Text.trim line) = ofText "unrule" (Text.trim line) .unrule := rfl
  rw [hsplit, ofLine_keyword (by decide) (by decide) hblank, htrim, hkeyword, ofText]
  rw [if_neg fun hempty => hline (String.isEmpty_iff.1 hempty)]

namespace Session

variable {s : Session} {r : Rule} {body : String}

theorem unrule_trim (line : String) : s.unrule (Text.trim line) = s.unrule line := by
  rw [unrule, RuleLine.ofText_trim, unrule]

theorem unrule_eq (hg : s.grammar.WellFormed) (hr : r ∈ s.grammar.rules)
    (hbody : Text.squeeze body = r.text) (harrow : ¬ RuleLine.arrow <:+: body.toList) :
    s.unrule (r.head ++ "->" ++ body) =
      (["- " ++ r.display],
        { s with grammar := { s.grammar with rules := s.grammar.rules.erase r } }) := by
  have hrule := hg.rules r hr
  have hhead : Text.trim r.head ≠ "" := by
    rw [hrule.trim_head]
    exact hrule.head_ne_empty
  have hink : Text.trim body ≠ "" := by
    rw [Ne, ← Text.squeeze_eq_empty_iff, hbody]
    exact Rule.text_ne_empty hrule
  have hline := RuleLine.ofText_arrow hhead hink harrow
  rw [hrule.trim_head] at hline
  have hremove := hg.removeRule_eq hr ((Text.squeeze_trim body).trans hbody)
  simp only [unrule, hline, RuleLine.intercalate_splitOn_bar, hremove]

/-- Any stored rule is taken out by a command that names its head and the characters of its text, set
apart by blanks. The other rules stay in order, and nothing else in the session changes. -/
theorem every_rule_removable (s : Session) (edits : List Edit)
    (hs : s.grammar = Grammar.ofEdits edits) :
    ∀ r ∈ s.grammar.rules, ∀ body : String,
      Text.Spaced (r.text.toList.map String.singleton) body.toList →
        ∃ before after, s.grammar.rules = before ++ r :: after ∧
          s.execute (.ofLine ("unrule " ++ r.head ++ "->" ++ body)) =
            .done (["- " ++ r.display],
              { s with grammar := { s.grammar with rules := before ++ after } }) := by
  intro r hr body hspaced
  have hg : s.grammar.WellFormed := by
    rw [hs]
    exact Grammar.wellFormed_empty.editAll edits
  have hbody := hspaced.squeeze_eq (Rule.hasBlank_text (hg.rules r hr))
  have harrow : ¬ RuleLine.arrow <:+: body.toList := by
    apply hspaced.not_infix_of_pieces RuleLine.arrow_ink (by decide)
    intro piece hpiece hinfix
    obtain ⟨c, -, rfl⟩ := List.mem_map.1 hpiece
    -- An arrow is longer than one character.
    have hlength := hinfix.length_le
    rw [String.toList_singleton, List.length_singleton] at hlength
    exact absurd hlength (by decide)
  have hline : Text.trim (r.head ++ "->" ++ body) ≠ "" := by
    intro hempty
    have hblank := Text.trim_eq_empty_iff.1 hempty '-' (by simp)
    exact absurd hblank (by decide)
  obtain ⟨before, after, -, hrules, herase⟩ := List.exists_erase_eq hr
  refine ⟨before, after, hrules, ?_⟩
  have hcommand : Command.ofLine ("unrule " ++ r.head ++ "->" ++ body) =
      .unrule (Text.trim (r.head ++ "->" ++ body)) := by
    rw [← Command.ofLine_unrule hline]
    simp only [String.append_assoc]
  rw [hcommand, execute, unrule_trim, unrule_eq hg hr hbody harrow, herase]

/-- A file whose rules have blanks, bars and arrows where no line could have them. -/
def wildSubmission : Submission where
  terminalSymbols := ["a"]
  nonTerminalSymbols := ["S"]
  axiomaticSymbol := "S"
  productionRules := [⟨"S", "a"⟩, ⟨"-> S | ->", "|->|->"⟩, ⟨"S", "|->|->"⟩, ⟨"S", "->"⟩]
  levels := "2"

theorem every_rule_removable_wild :
    ∃ before after, (Grammar.ofEdits [.load wildSubmission]).rules =
        before ++ ⟨"-> S | ->", ["|", "-", ">", "|", "-", ">"]⟩ :: after ∧
      ({ initial with grammar := .ofEdits [.load wildSubmission] } : Session).execute
          (.ofLine "unrule -> S | ->->| - > | -\t>") =
        .done (["- -> S | -> → |->|->"],
          { initial with grammar := { Grammar.ofEdits [.load wildSubmission] with
            rules := before ++ after } }) := by
  have hspaced : Text.Spaced (("|->|->".toList).map String.singleton) "| - > | -\t>".toList :=
    .piece (by decide) <| .piece (by decide) <| .piece (by decide) <| .piece (by decide) <|
      .piece (by decide) (.last ">")
  exact every_rule_removable { initial with grammar := .ofEdits [.load wildSubmission] }
    [.load wildSubmission] rfl ⟨"-> S | ->", ["|", "-", ">", "|", "-", ">"]⟩ (by decide +kernel)
    "| - > | -\t>" hspaced

end Session

end LinearGrammar
