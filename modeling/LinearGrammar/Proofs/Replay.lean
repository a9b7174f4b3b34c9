import Mathlib.Data.List.Infix
import LinearGrammar.Proofs.Matching
import LinearGrammar.Proofs.NormalForm
import LinearGrammar.Proofs.RuleLines

/-!
# Loading a submission is replaying it

A rule comes into a grammar on one of two ways. A typed line is cut at its arrow and its bars, its
head is looked up and its alternatives are checked; a rule of a submission comes with head and body
apart and is stored as it is. `Submission.edits` is what one would type to enter a submission by hand,
and where the submission holds only rules that match its alphabets, that leads to the grammar that is
read, with the same cut of every body.

The two ways differ in one place still. A submission may repeat a rule with other blanks in its body,
and then the repetition may be cut into other symbols, some of them unknown. Reading drops it as a
repetition before anyone looks at its symbols, while the line is refused for them. Either way nothing
is stored: a rule that would be refused and is not there already cannot come up, because reading
would have stored it and the grammar would not be valid.
-/

namespace LinearGrammar

/-! ## What would be typed -/

/-- The rule as a line. -/
def WireRule.line (w : WireRule) : String := w.nonTerminalSymbol ++ "->" ++ w.symbolProduced

/-- A rule whose body would not be taken for alternatives, nor a part of it for the head. -/
structure WireRule.IsPlain (w : WireRule) : Prop where
  no_bar : RuleLine.bar ∉ w.symbolProduced.toList
  no_arrow : ¬ RuleLine.arrow <:+: w.symbolProduced.toList

instance (w : WireRule) : Decidable w.IsPlain :=
  decidable_of_iff (RuleLine.bar ∉ w.symbolProduced.toList ∧
      ¬ RuleLine.arrow <:+: w.symbolProduced.toList)
    ⟨fun h => ⟨h.1, h.2⟩, fun h => ⟨h.no_bar, h.no_arrow⟩⟩

/-- The edits that enter a submission piece by piece. -/
def Submission.edits (s : Submission) : List Edit :=
  s.terminalSymbols.map .addTerminal ++ s.nonTerminalSymbols.map .addNonterminal ++
    (if s.axiomaticSymbol = "" then [] else [.chooseStart s.axiomaticSymbol]) ++
    s.productionRules.map (fun w => .addRules w.line) ++ [.setLevels s.levels]

namespace Grammar

variable {g h : Grammar}

/-- The grammar after a list of edits, if none of them is refused. -/
def tryEdits (g : Grammar) (edits : List Edit) : Except EditError Grammar := edits.foldlM tryEdit g

theorem tryEdits_cons (g : Grammar) (e : Edit) (edits : List Edit) :
    g.tryEdits (e :: edits) = g.tryEdit e >>= (·.tryEdits edits) := rfl

theorem tryEdits_append_of_ok {edits : List Edit} (hedits : g.tryEdits edits = .ok h)
    (more : List Edit) : g.tryEdits (edits ++ more) = h.tryEdits more := by
  rw [tryEdits, List.foldlM_append, ← tryEdits, hedits]
  rfl

/-! ## Symbols -/

theorem tryEdits_addTerminal (symbols : List String) (g : Grammar) :
    g.tryEdits (symbols.map .addTerminal) = addTerminals symbols g := by
  induction symbols generalizing g with
  | nil => rfl
  | cons symbol rest ih =>
      rw [List.map_cons, tryEdits_cons, addTerminals_cons, tryEdit]
      cases g.addTerminal symbol with
      | error e => rfl
      | ok r => exact ih r.2

theorem tryEdits_addNonterminal (symbols : List String) (g : Grammar) :
    g.tryEdits (symbols.map .addNonterminal) = addNonterminals symbols g := by
  induction symbols generalizing g with
  | nil => rfl
  | cons symbol rest ih =>
      rw [List.map_cons, tryEdits_cons, addNonterminals_cons, tryEdit]
      cases g.addNonterminal symbol with
      | error e => rfl
      | ok r => exact ih r.2

theorem tryEdits_chooseStart (text : String) (g : Grammar) :
    g.tryEdits (if text = "" then [] else [.chooseStart text]) = readStart text g := by
  unfold readStart
  by_cases hempty : text = ""
  · rw [if_pos hempty, if_pos (String.isEmpty_iff.2 hempty)]
    rfl
  · rw [if_neg hempty, if_neg fun he => hempty (String.isEmpty_iff.1 he), tryEdits_cons, tryEdit]
    cases g.chooseStart text <;> rfl

/-! ## Rules -/

theorem isValid_eq_isOk_check {r : Rule} (hhead : r.head ∈ g.nonterminals.symbols) :
    g.isValid r = (Body.check g.terminals g.nonterminals r.body).isOk := by
  rw [isValid, Rule.isValid, Rule.check, if_pos (Alphabet.contains_iff_mem.2 hhead)]

section Line

variable {w : WireRule} {r : Rule} (hg : g.WellFormed) (hplain : w.IsPlain)
  (hread : g.readRule w = .ok r) (hhead : r.head ∈ g.nonterminals.symbols)

include hg hread in
theorem trim_ne_empty_of_readRule :
    Text.trim w.nonTerminalSymbol ≠ "" ∧ Text.trim w.symbolProduced ≠ "" := by
  have hreads := readRule_reads hg.terminals.isSymbol hg.nonterminals.isSymbol w
  rw [hread] at hreads
  generalize hfault : Submission.ruleFault? w = fault at hreads
  cases hreads
  exact Submission.ruleFault?_eq_none_iff.1 hfault

include hread in
theorem eq_of_readRule :
    r = ⟨Text.trim w.nonTerminalSymbol,
        Body.symbols g.terminals g.nonterminals w.symbolProduced⟩ ∧ r.body ≠ [] := by
  simp only [readRule] at hread
  split at hread
  · cases hread
  · split at hread
    · cases hread
    · next hbody =>
        cases hread
        exact ⟨rfl, fun hnil => hbody (List.isEmpty_iff.2 hnil)⟩

include hg hplain hread hhead in
/-- The line of a rule has one alternative, and that is the rule that is read, if it is valid. -/
theorem ofText_line :
    ParsedLine.ofText g.terminals g.nonterminals w.line =
      .ok (.ofOutcomes [(Body.check g.terminals g.nonterminals r.body).map fun _ => r]) := by
  obtain ⟨hne, hne'⟩ := trim_ne_empty_of_readRule hg hread
  obtain ⟨rfl, hbody⟩ := eq_of_readRule hread
  have hbar : RuleLine.bar ∉ (Text.trim w.symbolProduced).toList := by
    obtain ⟨before, after, hsplit, -⟩ := Text.exists_append_trimChars w.symbolProduced.toList
    rw [Text.toList_trim]
    intro hmem
    refine hplain.no_bar (hsplit ▸ ?_)
    exact List.mem_append_left after (List.mem_append_right before hmem)
  have hline : RuleLine.ofText w.line =
      .ok ⟨Text.trim w.nonTerminalSymbol, [Text.trim w.symbolProduced]⟩ := by
    rw [WireRule.line, RuleLine.ofText_arrow hne hne' hplain.no_arrow,
      Text.splitOn_of_not_mem hbar]
  have halternative : Rule.ofAlternative g.terminals g.nonterminals
      (Text.trim w.nonTerminalSymbol) (Text.trim w.symbolProduced) = _ :=
    if_neg (by
      rw [Body.symbols_trim hg.terminals.isSymbol hg.nonterminals.isSymbol, List.isEmpty_iff]
      exact hbody)
  rw [ParsedLine.ofText, hline]
  simp only []
  rw [if_pos (Alphabet.contains_iff_mem.2 hhead), List.map_singleton, halternative,
    Body.symbols_trim hg.terminals.isSymbol hg.nonterminals.isSymbol]

include hg hplain hread hhead in
/-- Typing the line of a rule does what reading the rule does, unless the rule is refused and new. -/
theorem tryEdit_line (hvalid : r.isAmong g.rules = false → g.isValid r = true) :
    g.tryEdit (.addRules w.line) = .ok (g.storeRule r) := by
  rw [tryEdit, addRules, ofText_line hg hplain hread hhead]
  rw [isValid_eq_isOk_check hhead] at hvalid
  unfold storeRule
  cases hcheck : Body.check g.terminals g.nonterminals r.body with
  | ok =>
      simp only [Except.map, ParsedLine.ofOutcomes, sortOut]
      split
      · rw [List.append_nil]
      · rfl
  | error e =>
      have hamong : r.isAmong g.rules = true := by
        cases hnew : r.isAmong g.rules with
        | true => rfl
        | false =>
            have hok := hvalid hnew
            rw [hcheck] at hok
            cases hok
      simp only [Except.map, ParsedLine.ofOutcomes, sortOut, hamong, if_true, List.append_nil]

end Line

/-- Behind a rule that is stored there is one with its head, and it is the rule itself unless it was
a repetition. -/
theorem exists_mem_storeRule (g : Grammar) (r : Rule) :
    ∃ s ∈ (g.storeRule r).rules, s.head = r.head ∧ (r.isAmong g.rules = false → s = r) := by
  unfold storeRule
  split
  · next hamong =>
      obtain ⟨s, hs, hsame⟩ := List.any_eq_true.1 hamong
      exact ⟨s, hs, (Rule.isSame_iff.1 hsame).1.symm, fun hnew => by rw [hnew] at hamong; cases hamong⟩
  · exact ⟨r, List.mem_append_right _ List.mem_cons_self, rfl, fun _ => rfl⟩

theorem mem_rules_storeRule {r s : Rule} (hs : s ∈ g.rules) : s ∈ (g.storeRule r).rules := by
  unfold storeRule
  split
  · exact hs
  · exact List.mem_append_left _ hs

/-- Reading rules leaves the alphabets as they are, and the rules that are there. -/
theorem readRules_keeps {wires : List WireRule} (hread : readRules wires g = .ok h) :
    h.terminals = g.terminals ∧ h.nonterminals = g.nonterminals ∧ ∀ r ∈ g.rules, r ∈ h.rules := by
  induction wires generalizing g with
  | nil => cases hread; exact ⟨rfl, rfl, fun _ hr => hr⟩
  | cons w rest ih =>
      rw [readRules] at hread
      split at hread
      · obtain ⟨hT, hN, hrules⟩ := ih hread
        rw [storeRule_eq] at hT hN
        exact ⟨hT, hN, fun s hs => hrules s (mem_rules_storeRule hs)⟩
      · cases hread

/-- Rules of which none is invalid in the end can be typed line by line. -/
theorem tryEdits_line {wires : List WireRule} (hg : g.WellFormed)
    (hplain : ∀ w ∈ wires, w.IsPlain) (hread : readRules wires g = .ok h)
    (hvalid : ∀ r ∈ h.rules, h.isValid r = true) :
    g.tryEdits (wires.map fun w => .addRules w.line) = .ok h := by
  induction wires generalizing g with
  | nil => exact hread
  | cons w rest ih =>
      rw [readRules] at hread
      split at hread
      · next r hr =>
          obtain ⟨hT, hN, hrules⟩ := readRules_keeps hread
          rw [storeRule_eq] at hT hN
          obtain ⟨s, hs, hsame, hnew⟩ := g.exists_mem_storeRule r
          have hvalidHere : g.isValid s = true := by
            rw [isValid, ← show h.terminals = g.terminals from hT,
              ← show h.nonterminals = g.nonterminals from hN]
            exact hvalid s (hrules s hs)
          have hhead : r.head ∈ g.nonterminals.symbols :=
            hsame ▸ (Rule.isValid_iff.1 hvalidHere).head_mem
          rw [List.map_cons, tryEdits_cons,
            tryEdit_line hg (hplain w List.mem_cons_self) hr hhead fun h => hnew h ▸ hvalidHere]
          exact ih (hg.storeRule (hg.readRule hr))
            (fun v hv => hplain v (List.mem_cons_of_mem w hv)) hread
      · cases hread

/-! ## The whole submission -/

/-- A submission without bars and arrows in its bodies, all of whose rules match its alphabets, can be
entered piece by piece. No edit is refused, and the grammar is the very one that is read, down to the
cut of each body. -/
theorem tryEdits_edits {s : Submission} (hread : ofSubmission s = .ok g)
    (hvalid : g.invalidRules = []) (hplain : ∀ w ∈ s.productionRules, w.IsPlain) :
    empty.tryEdits s.edits = .ok g := by
  obtain ⟨g₁, g₂, g₃, g₄, h₁, h₂, h₃, h₄, rfl⟩ := ofSubmission_eq_ok_iff.1 hread
  have hg₃ : g₃.WellFormed :=
    ((wellFormed_empty.addTerminals h₁).addNonterminals h₂).readStart h₃
  have hrules : ∀ r ∈ g₄.rules, g₄.isValid r = true := fun r hr =>
    Rule.isValid_iff.2 (Rule.invalid_eq_nil_iff.1 hvalid r hr)
  have hedits₁ := (tryEdits_addTerminal s.terminalSymbols empty).trans h₁
  have hedits₂ := (tryEdits_append_of_ok hedits₁ _).trans
    ((tryEdits_addNonterminal s.nonTerminalSymbols g₁).trans h₂)
  have hedits₃ := (tryEdits_append_of_ok hedits₂ _).trans
    ((tryEdits_chooseStart s.axiomaticSymbol g₂).trans h₃)
  have hedits₄ := (tryEdits_append_of_ok hedits₃ _).trans
    (tryEdits_line hg₃ hplain h₄ hrules)
  exact tryEdits_append_of_ok hedits₄ [.setLevels s.levels]

/-- Heads with an arrow or a bar in them, a body that goes on with the arrow's own characters, and a
repetition that would be refused because it falls into a symbol that nobody knows. -/
def tangled : Submission where
  terminalSymbols := ["ab", " > ", "-", "a"]
  nonTerminalSymbols := ["S|T", "E->E", "T"]
  axiomaticSymbol := " E->E"
  productionRules := [⟨"E->E ", ">- >T"⟩, ⟨"S|T", "ab"⟩, ⟨" S|T", " a b"⟩]
  levels := " 1 2"

theorem tryEdits_edits_tangled :
    empty.tryEdits tangled.edits = .ok
      ⟨⟨.terminal, ["ab", ">", "-", "a"]⟩, ⟨.nonterminal, ["S|T", "E->E", "T"]⟩, some "E->E",
        [⟨"E->E", [">", "-", ">", "T"]⟩, ⟨"S|T", ["ab"]⟩], "12"⟩ :=
  tryEdits_edits (by decide +kernel) (by decide +kernel) (by decide +kernel)

end Grammar

end LinearGrammar
