import LinearGrammar.Proofs.RuleEntry
import LinearGrammar.Proofs.RuleLines
import LinearGrammar.Proofs.Spacing

/-!
# Every rule can be typed

Blanks between the symbols of a body ask for the cut that is meant, so whatever the symbols are, and
however they overlap, there is a line for the rule. What a body cannot hold is a bar or an arrow,
because the line is taken apart at them before anyone looks for symbols. The head can hold both.

Two things stand in the way of an easy proof. The arrow is the last one of the line, so none may
come up in the bodies, and symbols that end in `-` and begin with `>` are allowed there;
`not_infix_append` says that no arrow reaches over a blank or a bar. And the line is trimmed before it
is cut at the bars, so the first and the last alternative lose blanks that the others keep;
`map_symbols_splitOn_trim` says that no symbol is lost with them.
-/

namespace LinearGrammar

open Text (isBlank)

/-- A body that a rule of the two alphabets may have and that a line can hold. -/
structure Body.IsTypable (terminals nonterminals : Alphabet) (body : List String) : Prop where
  ne_nil : body ≠ []
  known : ∀ s ∈ body, s ∈ terminals.symbols ∨ s ∈ nonterminals.symbols
  linear : body.countP (· ∈ nonterminals.symbols) ≤ 1
  no_bar : ∀ s ∈ body, RuleLine.bar ∉ s.toList
  no_arrow : ∀ s ∈ body, ¬ RuleLine.arrow <:+: s.toList

instance (terminals nonterminals : Alphabet) (body : List String) :
    Decidable (Body.IsTypable terminals nonterminals body) :=
  decidable_of_iff (body ≠ [] ∧ (∀ s ∈ body, s ∈ terminals.symbols ∨ s ∈ nonterminals.symbols) ∧
      body.countP (· ∈ nonterminals.symbols) ≤ 1 ∧ (∀ s ∈ body, RuleLine.bar ∉ s.toList) ∧
      ∀ s ∈ body, ¬ RuleLine.arrow <:+: s.toList)
    ⟨fun h => ⟨h.1, h.2.1, h.2.2.1, h.2.2.2.1, h.2.2.2.2⟩,
      fun h => ⟨h.ne_nil, h.known, h.linear, h.no_bar, h.no_arrow⟩⟩

namespace Text

/-! ## No arrow across a separator -/

theorem not_infix_append {word left right : List Char} {c : Char} (hc : c ∉ word)
    (hleft : ¬ word <:+: left) (hright : ¬ word <:+: right) : ¬ word <:+: left ++ c :: right := by
  intro h
  rcases List.infix_append_iff.1 h with h | h | ⟨front, back, rfl, hfront, hback⟩
  · exact hleft h
  · rcases List.infix_cons_iff.1 h with hpre | h
    · rcases List.prefix_cons_iff.1 hpre with rfl | ⟨rest, rfl, -⟩
      · exact hleft List.nil_infix
      · exact hc List.mem_cons_self
    · exact hright h
  · -- A word that reaches over `c` has `c` in it, unless it stops before.
    cases back with
    | nil => exact hleft (by simpa using hfront.isInfix)
    | cons d back =>
        have hd := (List.cons_prefix_cons.1 hback).1
        exact hc (by simp [hd])

theorem Spaced.not_infix_of_pieces {word cs : List Char} {pieces : List String}
    (hword : ∀ c ∈ word, isInk c = true) (hne : word ≠ [])
    (hpieces : ∀ s ∈ pieces, ¬ word <:+: s.toList) (h : Spaced pieces cs) : ¬ word <:+: cs := by
  have hmiss : ∀ b, isBlank b = true → b ∉ word := by
    intro b hb hmem
    rw [isInk_iff.1 (hword b hmem)] at hb
    cases hb
  have hnil : ¬ word <:+: [] := by simpa using hne
  induction h with
  | nil => exact hnil
  | @blank pieces b cs hb _ ih =>
      have hbehind : ¬ word <:+: [] ++ b :: cs := not_infix_append (hmiss b hb) hnil (ih hpieces)
      exact hbehind
  | last piece => exact hpieces piece List.mem_cons_self
  | @piece piece pieces b cs hb _ ih =>
      apply not_infix_append (hmiss b hb) (hpieces piece List.mem_cons_self)
      exact ih fun s hs => hpieces s (List.mem_cons_of_mem piece hs)

theorem Spaced.isBlank_or_mem {cs : List Char} {pieces : List String} (h : Spaced pieces cs) {c : Char}
    (hc : c ∈ cs) : isBlank c = true ∨ ∃ s ∈ pieces, c ∈ s.toList := by
  induction h with
  | nil => cases hc
  | @blank pieces b cs hb _ ih =>
      rcases List.mem_cons.1 hc with rfl | hc
      · exact .inl hb
      · exact ih hc
  | last piece => exact .inr ⟨piece, List.mem_cons_self, hc⟩
  | @piece piece pieces b cs hb _ ih =>
      rcases List.mem_append.1 hc with hc | hc
      · exact .inr ⟨piece, List.mem_cons_self, hc⟩
      · rcases List.mem_cons.1 hc with rfl | hc
        · exact .inl hb
        · rcases ih hc with hblank | ⟨s, hs, hcs⟩
          · exact .inl hblank
          · exact .inr ⟨s, List.mem_cons_of_mem piece hs, hcs⟩

/-! ## The ends of a list of pieces -/

section Pieces

variable {p : Char → Bool} {before after : List Char}

theorem splitWhere_append_left (hbefore : ∀ c ∈ before, p c = false) (cs : List Char) :
    ∃ first rest, splitWhere p cs = first :: rest ∧
      splitWhere p (before ++ cs) = (before ++ first) :: rest := by
  induction before with
  | nil =>
      obtain ⟨first, rest, h⟩ := List.exists_cons_of_ne_nil (splitWhere_ne_nil p cs)
      exact ⟨first, rest, h, h⟩
  | cons c before ih =>
      obtain ⟨first, rest, h, hbeforeRest⟩ := ih fun d hd => hbefore d (List.mem_cons_of_mem c hd)
      refine ⟨first, rest, h, ?_⟩
      rw [List.cons_append, splitWhere, if_neg (by simp [hbefore c List.mem_cons_self]), hbeforeRest]
      rfl

theorem splitWhere_append_right (hafter : ∀ c ∈ after, p c = false) (cs : List Char) :
    ∃ rest last, splitWhere p cs = rest ++ [last] ∧
      splitWhere p (cs ++ after) = rest ++ [last ++ after] := by
  induction cs with
  | nil =>
      refine ⟨[], [], rfl, ?_⟩
      rw [splitWhere_eq_splitOnP]
      exact List.splitOnP_eq_singleton hafter
  | cons c cs ih =>
      obtain ⟨rest, last, h, hafterRest⟩ := ih
      rw [List.cons_append, splitWhere, splitWhere, h, hafterRest]
      split
      · exact ⟨[] :: rest, last, rfl, rfl⟩
      · cases rest with
        | nil => exact ⟨[], c :: last, rfl, rfl⟩
        | cons piece rest => exact ⟨(c :: piece) :: rest, last, rfl, rfl⟩

end Pieces

end Text

namespace Body

variable {terminals nonterminals : Alphabet}

theorem symbols_blanks_append (before : List Char) (hbefore : ∀ c ∈ before, isBlank c = true)
    (cs : List Char) : symbols terminals nonterminals (.ofList (before ++ cs)) =
      symbols terminals nonterminals (.ofList cs) := by
  simp [symbols, cut_blanks_append hbefore]

theorem symbols_append_blanks (hT : terminals.WellFormed) (hN : nonterminals.WellFormed)
    (cs : List Char) {after : List Char} (hafter : ∀ c ∈ after, isBlank c = true) :
    symbols terminals nonterminals (.ofList (cs ++ after)) =
      symbols terminals nonterminals (.ofList cs) := by
  cases after with
  | nil => rw [List.append_nil]
  | cons b after =>
      have hblanks : cut (known terminals nonterminals) (after ++ []) = cut _ [] :=
        cut_blanks_append (fun c hc => hafter c (List.mem_cons_of_mem b hc)) []
      rw [List.append_nil] at hblanks
      have hink := isInk_of_mem_known hT.isSymbol hN.isSymbol
      simp [symbols, cut_append_blank hink (hafter b List.mem_cons_self), hblanks, cut]

/-- Trimming a list of alternatives leaves the symbols of each as they are. -/
theorem map_symbols_splitOn_trim (hT : terminals.WellFormed) (hN : nonterminals.WellFormed)
    {separator : Char} (hseparator : isBlank separator = false) (text : String) :
    (Text.splitOn separator (Text.trim text)).map (symbols terminals nonterminals) =
      (Text.splitOn separator text).map (symbols terminals nonterminals) := by
  obtain ⟨before, after, htext, hbefore, hafter⟩ := Text.exists_append_trimChars text.toList
  have hmiss : ∀ c, isBlank c = true → (c == separator) = false := by
    intro c hc
    rw [beq_eq_false_iff_ne]
    rintro rfl
    rw [hc] at hseparator
    cases hseparator
  obtain ⟨rest, last, hpieces, hpiecesAfter⟩ := Text.splitWhere_append_right
    (fun c hc => hmiss c (hafter c hc)) (Text.trimChars text.toList)
  obtain ⟨first, rest', hpieces', hpiecesBefore⟩ := Text.splitWhere_append_left
    (fun c hc => hmiss c (hbefore c hc)) (Text.trimChars text.toList ++ after)
  rw [← List.append_assoc, htext] at hpiecesBefore
  -- The blanks in front belong to the first piece, the ones behind to the last.
  rw [Text.splitOn, Text.splitOn, Text.toList_trim, hpiecesBefore, List.map_cons, List.map_cons,
    symbols_blanks_append before hbefore, ← List.map_cons, ← List.map_cons, ← hpieces', hpiecesAfter,
    hpieces]
  simp only [List.map_append, List.map_cons, List.map_nil, symbols_append_blanks hT hN last hafter]

end Body

/-! ## Alternatives between bars -/

namespace RuleLine

theorem arrow_ink : ∀ c ∈ arrow, Text.isInk c = true := List.all_eq_true.1 (by decide)

theorem splitOn_intercalate_bar {texts : List String} (hne : texts ≠ [])
    (hbar : ∀ t ∈ texts, bar ∉ t.toList) :
    Text.splitOn bar (String.intercalate "|" texts) = texts := by
  have hsplit : (List.intercalate [bar] (texts.map String.toList)).splitOn bar =
      texts.map String.toList := by
    apply List.splitOn_intercalate bar
    · intro cs hcs
      obtain ⟨t, ht, rfl⟩ := List.mem_map.1 hcs
      exact hbar t ht
    · simpa using hne
  rw [Text.splitOn, Text.splitWhere_eq_splitOnP, String.toList_intercalate]
  change ((List.intercalate [bar] (texts.map String.toList)).splitOn bar).map String.ofList = texts
  rw [hsplit, List.map_map]
  simp [Function.comp_def]

theorem not_infix_intercalate {texts : List String} (h : ∀ t ∈ texts, ¬ arrow <:+: t.toList) :
    ¬ arrow <:+: (String.intercalate "|" texts).toList := by
  induction texts with
  | nil => decide
  | cons t rest ih =>
      cases rest with
      | nil => exact h t List.mem_cons_self
      | cons next rest =>
          have hrest := ih fun s hs => h s (List.mem_cons_of_mem t hs)
          have htext : (String.intercalate "|" (t :: next :: rest)).toList =
              t.toList ++ '|' :: (String.intercalate "|" (next :: rest)).toList := by
            rw [String.intercalate_cons_cons]
            simp
          rw [htext]
          exact Text.not_infix_append (by decide) (h t List.mem_cons_self) hrest

end RuleLine

section Typed

variable {terminals nonterminals : Alphabet}

theorem Rule.ofAlternative_of_typable {text : String}
    (h : Body.IsTypable terminals nonterminals (Body.symbols terminals nonterminals text))
    (head : String) :
    ofAlternative terminals nonterminals head text =
      .ok ⟨head, Body.symbols terminals nonterminals text⟩ := by
  have hok := Body.check_isOk_iff.2 ⟨h.known, h.linear⟩
  simp only [ofAlternative]
  rw [if_neg fun hempty => h.ne_nil (List.isEmpty_iff.1 hempty)]
  cases hcheck : Body.check terminals nonterminals (Body.symbols terminals nonterminals text) with
  | error e => rw [hcheck] at hok; cases hok
  | ok u => rfl

theorem ParsedLine.ofOutcomes_ok (rules : List Rule) : ofOutcomes (rules.map .ok) = ⟨rules, []⟩ := by
  induction rules with
  | nil => rfl
  | cons r rest ih => rw [List.map_cons, ofOutcomes, ih]

end Typed

section Line

variable {terminals nonterminals : Alphabet} {alternatives : List (List String × String)}
  (hT : terminals.WellFormed) (hN : nonterminals.WellFormed) (hne : alternatives ≠ [])
  (hbodies : ∀ a ∈ alternatives, Body.IsTypable terminals nonterminals a.1)
  (hspaced : ∀ a ∈ alternatives, Text.Spaced a.1 a.2.toList)

include hT hN hne hbodies hspaced

/-- The pieces of the trimmed text are cut into the bodies they were written for. -/
theorem Body.map_symbols_alternatives :
    (Text.splitOn RuleLine.bar
        (Text.trim (String.intercalate "|" (alternatives.map Prod.snd)))).map
      (symbols terminals nonterminals) = alternatives.map Prod.fst := by
  have hbar : ∀ t ∈ alternatives.map Prod.snd, RuleLine.bar ∉ t.toList := by
    intro t ht hmem
    obtain ⟨a, ha, rfl⟩ := List.mem_map.1 ht
    rcases (hspaced a ha).isBlank_or_mem hmem with hblank | ⟨s, hs, hmem⟩
    · exact absurd hblank (by decide)
    · exact (hbodies a ha).no_bar s hs hmem
  have hcut : ∀ a ∈ alternatives, symbols terminals nonterminals a.2 = a.1 := by
    intro a ha
    exact symbols_spaced hT hN (fun s hs => .inl ((hbodies a ha).known s hs)) (hspaced a ha)
  rw [map_symbols_splitOn_trim hT hN (by decide),
    RuleLine.splitOn_intercalate_bar (by simpa using hne) hbar, List.map_map]
  exact List.map_congr_left hcut

theorem RuleLine.ofText_typed {head lead gap : String} (hhead : head ∈ nonterminals.symbols)
    (hlead : ∀ b ∈ lead.toList, isBlank b = true) (hgap : ∀ b ∈ gap.toList, isBlank b = true) :
    ofText (lead ++ head ++ gap ++ "->" ++ String.intercalate "|" (alternatives.map Prod.snd)) =
      .ok ⟨head, Text.splitOn bar
        (Text.trim (String.intercalate "|" (alternatives.map Prod.snd)))⟩ := by
  have hsymbol := hN.isSymbol head hhead
  have htrim : Text.trim (lead ++ head ++ gap) = head := by
    have hkept : Text.trimChars head.toList = head.toList := by
      rw [← Text.toList_trim, Text.trim_of_hasBlank hsymbol.2]
    rw [← String.toList_inj, Text.toList_trim, String.toList_append, String.toList_append]
    exact Text.trimChars_append hlead hgap hkept
  have hbody : Text.trim (String.intercalate "|" (alternatives.map Prod.snd)) ≠ "" := by
    intro hempty
    have hsymbols := Body.map_symbols_alternatives hT hN hne hbodies hspaced
    obtain ⟨a, rest, rfl⟩ := List.exists_cons_of_ne_nil hne
    have hnone : Body.symbols terminals nonterminals "" = [] := by simp [Body.symbols, Body.cut]
    rw [hempty, show Text.splitOn bar "" = [""] from rfl, List.map_singleton, hnone] at hsymbols
    exact (hbodies a List.mem_cons_self).ne_nil (List.cons.inj hsymbols).1.symm
  have harrow : ∀ t ∈ alternatives.map Prod.snd, ¬ arrow <:+: t.toList := by
    intro t ht
    obtain ⟨a, ha, rfl⟩ := List.mem_map.1 ht
    exact (hspaced a ha).not_infix_of_pieces arrow_ink (by decide) (hbodies a ha).no_arrow
  have hne' : Text.trim (lead ++ head ++ gap) ≠ "" := by
    rw [htrim]
    exact hsymbol.1
  rw [ofText_arrow hne' hbody (not_infix_intercalate harrow), htrim]

theorem ParsedLine.ofText_typed {head lead gap : String} (hhead : head ∈ nonterminals.symbols)
    (hlead : ∀ b ∈ lead.toList, isBlank b = true) (hgap : ∀ b ∈ gap.toList, isBlank b = true) :
    ofText terminals nonterminals
        (lead ++ head ++ gap ++ "->" ++ String.intercalate "|" (alternatives.map Prod.snd)) =
      .ok ⟨alternatives.map fun a => ⟨head, a.1⟩, []⟩ := by
  have hsymbols := Body.map_symbols_alternatives hT hN hne hbodies hspaced
  have hline := RuleLine.ofText_typed hT hN hne hbodies hspaced hhead hlead hgap
  generalize Text.splitOn RuleLine.bar _ = pieces at hsymbols hline
  have hrules : (alternatives.map fun a => (⟨head, a.1⟩ : Rule)) =
      pieces.map fun piece => ⟨head, Body.symbols terminals nonterminals piece⟩ := by
    calc (alternatives.map fun a => (⟨head, a.1⟩ : Rule))
        = (alternatives.map Prod.fst).map (Rule.mk head) := by rw [List.map_map]; rfl
      _ = _ := by rw [← hsymbols, List.map_map]; rfl
  have houtcomes : pieces.map (Rule.ofAlternative terminals nonterminals head) =
      (alternatives.map fun a => (⟨head, a.1⟩ : Rule)).map .ok := by
    rw [hrules, List.map_map]
    refine List.map_congr_left fun piece hpiece => ?_
    apply Rule.ofAlternative_of_typable
    have hmem : Body.symbols terminals nonterminals piece ∈ alternatives.map Prod.fst := by
      rw [← hsymbols]
      exact List.mem_map_of_mem hpiece
    obtain ⟨a, ha, heq⟩ := List.mem_map.1 hmem
    exact heq ▸ hbodies a ha
  rw [ofText, hline]
  simp only []
  rw [if_pos (Alphabet.contains_iff_mem.2 hhead), houtcomes, ofOutcomes_ok]

end Line

/-- Any list of rules with one head, if their bodies hold no bar and no arrow, is what some line stands
for: the head, an arrow, and the bodies between bars, with the symbols of each set apart by blanks.
Further blanks may stand at both ends and on both sides of the arrow and of every bar. -/
theorem Grammar.every_rule_typable (edits : List Edit) {head lead gap : String}
    {alternatives : List (List String × String)}
    (hhead : head ∈ (ofEdits edits).nonterminals.symbols) (hne : alternatives ≠ [])
    (hbodies : ∀ a ∈ alternatives,
      Body.IsTypable (ofEdits edits).terminals (ofEdits edits).nonterminals a.1)
    (hspaced : ∀ a ∈ alternatives, Text.Spaced a.1 a.2.toList)
    (hlead : ∀ b ∈ lead.toList, isBlank b = true) (hgap : ∀ b ∈ gap.toList, isBlank b = true) :
    ParsedLine.ofText (ofEdits edits).terminals (ofEdits edits).nonterminals
        (lead ++ head ++ gap ++ "->" ++ String.intercalate "|" (alternatives.map Prod.snd)) =
      .ok ⟨alternatives.map fun a => ⟨head, a.1⟩, []⟩ := by
  have hg : (ofEdits edits).WellFormed := wellFormed_empty.editAll edits
  exact ParsedLine.ofText_typed hg.terminals hg.nonterminals hne hbodies hspaced hhead hlead hgap

/-- Symbols made of the characters of an arrow, and a head with a bar and an arrow in it. -/
def Grammar.thorny : List Edit :=
  [.addTerminal "-", .addTerminal ">", .addTerminal "a-", .addTerminal ">b", .addTerminal "ab",
    .addTerminal "a", .addNonterminal "S|->-", .addNonterminal "T"]

/-- Three bodies, each with the way it is written. -/
def Grammar.thornyAlternatives : List (List String × String) :=
  [([">", "-", ">b", "T"], String.intercalate " " [">", "-", ">b", "T"]), (["a-"], "a-"),
    ([">b", "a", "ab"], String.intercalate "\t \t" [">b", "a", "ab"])]

theorem Grammar.every_rule_typable_thorny :
    ParsedLine.ofText (ofEdits thorny).terminals (ofEdits thorny).nonterminals
        "\u3000S|->-->> - >b T|a-|>b\t \ta\t \tab" =
      .ok ⟨[⟨"S|->-", [">", "-", ">b", "T"]⟩, ⟨"S|->-", ["a-"]⟩, ⟨"S|->-", [">b", "a", "ab"]⟩],
        []⟩ := by
  have hline : "\u3000S|->-->> - >b T|a-|>b\t \ta\t \tab" = "\u3000" ++ "S|->-" ++ "" ++ "->" ++
      String.intercalate "|" (List.map Prod.snd thornyAlternatives) := by
    decide +kernel
  have hspaced : ∀ a ∈ thornyAlternatives, Text.Spaced a.1 a.2.toList := by
    simp only [thornyAlternatives, List.forall_mem_cons]
    refine ⟨?_, .last "a-", ?_, nofun⟩
    · exact Text.spaced_intercalate (by decide) (List.all_eq_true.1 (by decide)) _
    · exact Text.spaced_intercalate (by decide) (List.all_eq_true.1 (by decide)) _
  rw [hline]
  exact every_rule_typable thorny (by decide +kernel) (by decide) (by decide +kernel) hspaced
    (List.all_eq_true.1 (by decide)) (List.all_eq_true.1 (by decide))

end LinearGrammar
