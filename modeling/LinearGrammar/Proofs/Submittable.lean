import Mathlib.Data.List.Nodup
import LinearGrammar.Proofs.Matching
import LinearGrammar.Proofs.WellFormed

/-!
# What is submitted

A grammar is let through to the service when no part of it is empty and no rule is stale. That is
all that is looked at, but it is not all that the service may rely on: that the alphabets are
disjoint, that the start symbol is a nonterminal and that no rule comes twice hold because every edit
kept them. So `Submission.Proper`, what a submission promises, is put together from what the gate
checks and from `Grammar.WellFormed`.

The other direction says that nothing else is ever held against a grammar: the empty parts, all of
them in a fixed order, or else the number of rules that do not match the alphabets.
-/

namespace LinearGrammar

/-- What the service may rely on. -/
structure Submission.Proper (s : Submission) : Prop where
  terminals_ne_nil : s.terminalSymbols ≠ []
  terminals_nodup : s.terminalSymbols.Nodup
  nonterminals_ne_nil : s.nonTerminalSymbols ≠ []
  nonterminals_nodup : s.nonTerminalSymbols.Nodup
  disjoint : ∀ t ∈ s.terminalSymbols, t ∉ s.nonTerminalSymbols
  start_mem : s.axiomaticSymbol ∈ s.nonTerminalSymbols
  rules_ne_nil : s.productionRules ≠ []
  rules_nodup : s.productionRules.Nodup
  head_mem : ∀ w ∈ s.productionRules, w.nonTerminalSymbol ∈ s.nonTerminalSymbols
  /-- The text of every rule can be cut into symbols so that the rule is linear. -/
  linear : ∀ w ∈ s.productionRules, ∃ body : List String, body ≠ [] ∧
    (∀ t ∈ body, t ∈ s.terminalSymbols ∨ t ∈ s.nonTerminalSymbols) ∧
    body.countP (· ∈ s.nonTerminalSymbols) ≤ 1 ∧ w.symbolProduced = String.join body
  levels_ne_empty : s.levels ≠ ""
  levels_hasBlank : Text.hasBlank s.levels = false

/-- The parts of a grammar, in the order in which they are asked for. -/
def Component.all : List Component := [.terminals, .nonterminals, .rules, .levels]

namespace Grammar

variable {g : Grammar} {s : Submission} {e : EditError}

/-- Nothing was entered for this part yet. -/
def Lacks (g : Grammar) : Component → Prop
  | .terminals => g.terminals.symbols = []
  | .nonterminals => g.nonterminals.symbols = []
  | .rules => g.rules = []
  | .levels => g.levels = ""

instance (g : Grammar) (c : Component) : Decidable (g.Lacks c) := by
  cases c <;> unfold Lacks <;> infer_instance

/-- The parts that are empty, in the order in which they are asked for. -/
def lacking (g : Grammar) : List Component := Component.all.filter (g.Lacks ·)

/-- Whether a rule matches the alphabets of the grammar. -/
abbrev Admits (g : Grammar) (r : Rule) : Prop := r.Matches g.terminals g.nonterminals

/-- How many stored rules do not match the alphabets. -/
def staleCount (g : Grammar) : Nat := g.rules.countP (¬ g.Admits ·)

/-! ## The gate -/

theorem missing_eq_lacking (hlevels : Text.hasBlank g.levels = false) :
    g.missing = g.lacking := by
  have hpart : ∀ (c : Component) (b : Bool), (b = true ↔ g.Lacks c) →
      (if b then [c] else []) = [c].filter (g.Lacks ·) := by
    intro c b hb
    by_cases h : g.Lacks c
    · simp [h, hb.2 h]
    · simp [h, Bool.eq_false_iff.2 fun htrue => h (hb.1 htrue)]
  have hlacks : (Text.trim g.levels).isEmpty = true ↔ g.Lacks .levels := by
    rw [Text.trim_of_hasBlank hlevels]
    exact String.isEmpty_iff
  rw [missing, hpart .terminals g.terminals.isEmpty List.isEmpty_iff,
    hpart .nonterminals g.nonterminals.isEmpty List.isEmpty_iff,
    hpart .rules g.rules.isEmpty List.isEmpty_iff, hpart .levels _ hlacks]
  simp only [← List.filter_append]
  rfl

theorem lacking_eq_nil_iff : g.lacking = [] ↔ ∀ c, ¬ g.Lacks c := by
  rw [lacking, List.filter_eq_nil_iff]
  constructor
  · intro h c
    have hmem : c ∈ Component.all := by cases c <;> decide
    simpa using h c hmem
  · intro h c _
    simpa using h c

theorem length_invalidRules (g : Grammar) : g.invalidRules.length = g.staleCount :=
  Rule.length_invalid g.terminals g.nonterminals g.rules

theorem staleCount_eq_zero_iff : g.staleCount = 0 ↔ ∀ r ∈ g.rules, g.Admits r := by
  rw [staleCount, List.countP_eq_zero]
  simp

theorem toSubmission_eq_of_missing (g : Grammar) :
    g.toSubmission =
      if g.missing ≠ [] then .error (.incomplete g.missing)
      else if 0 < g.staleCount then .error (.staleRules g.staleCount)
      else .ok g.snapshot := by
  have hstale : (!g.invalidRules.isEmpty) = true ↔ 0 < g.staleCount := by
    rw [← length_invalidRules, Bool.not_eq_true', List.isEmpty_eq_false_iff, List.length_pos_iff]
  have hmissing : (!g.missing.isEmpty) = true ↔ g.missing ≠ [] := by
    rw [Bool.not_eq_true', List.isEmpty_eq_false_iff]
  simp only [toSubmission, hmissing, hstale, length_invalidRules]

theorem toSubmission_eq (hlevels : Text.hasBlank g.levels = false) :
    g.toSubmission =
      if g.lacking ≠ [] then .error (.incomplete g.lacking)
      else if 0 < g.staleCount then .error (.staleRules g.staleCount)
      else .ok g.snapshot := by
  rw [toSubmission_eq_of_missing, missing_eq_lacking hlevels]

theorem toSubmission_eq_ok_iff (hlevels : Text.hasBlank g.levels = false) :
    g.toSubmission = .ok s ↔
      (∀ c, ¬ g.Lacks c) ∧ (∀ r ∈ g.rules, g.Admits r) ∧ s = g.snapshot := by
  rw [toSubmission_eq hlevels, ← lacking_eq_nil_iff, ← staleCount_eq_zero_iff]
  split
  · next hlacks => exact ⟨nofun, fun h => absurd h.1 hlacks⟩
  · next hcomplete =>
      split
      · next hstale => exact ⟨nofun, fun h => absurd h.2.1 (by omega)⟩
      · next hfresh =>
          refine ⟨fun h => ⟨by simpa using hcomplete, by omega, (Except.ok.inj h).symm⟩, ?_⟩
          rintro ⟨-, -, rfl⟩
          rfl

theorem toSubmission_eq_error_iff (hlevels : Text.hasBlank g.levels = false) :
    g.toSubmission = .error e ↔
      (∃ c, g.Lacks c) ∧ e = .incomplete g.lacking ∨
        (∀ c, ¬ g.Lacks c) ∧ 0 < g.staleCount ∧ e = .staleRules g.staleCount := by
  have hsome : (∃ c, g.Lacks c) ↔ g.lacking ≠ [] := by
    rw [Ne, lacking_eq_nil_iff, not_forall_not]
  rw [toSubmission_eq hlevels, hsome, ← lacking_eq_nil_iff]
  split
  · next hlacks =>
      refine ⟨fun h => .inl ⟨hlacks, (Except.error.inj h).symm⟩, ?_⟩
      rintro (⟨-, rfl⟩ | ⟨hnil, -⟩)
      · rfl
      · exact absurd hnil hlacks
  · next hcomplete =>
      have hnil : g.lacking = [] := by simpa using hcomplete
      split
      · next hstale =>
          refine ⟨fun h => .inr ⟨hnil, hstale, (Except.error.inj h).symm⟩, ?_⟩
          rintro (⟨hlacks, -⟩ | ⟨-, -, rfl⟩)
          · exact absurd hlacks hcomplete
          · rfl
      · next hfresh =>
          refine ⟨nofun, ?_⟩
          rintro (⟨hlacks, -⟩ | ⟨-, hstale, -⟩)
          · exact absurd hlacks hcomplete
          · exact absurd hstale hfresh

/-! ## What comes through -/

/-- A complete grammar without stale rules makes a proper submission. -/
theorem WellFormed.proper_snapshot (hg : g.WellFormed) (hlacks : ∀ c, ¬ g.Lacks c)
    (hadmits : ∀ r ∈ g.rules, g.Admits r) : g.snapshot.Proper where
  terminals_ne_nil := hlacks .terminals
  terminals_nodup := hg.terminals.nodup
  nonterminals_ne_nil := hlacks .nonterminals
  nonterminals_nodup := hg.nonterminals.nodup
  disjoint := hg.disjoint
  start_mem := by
    cases hstart : g.start with
    | none => exact absurd (hg.start_eq_none_iff.1 hstart) (hlacks .nonterminals)
    | some s =>
        simp only [snapshot, hstart, Option.getD_some]
        exact hg.start_mem s hstart
  rules_ne_nil := fun hnil => hlacks .rules (List.map_eq_nil_iff.1 hnil)
  rules_nodup := by
    have hidentity : g.rules.map Rule.identity =
        g.snapshot.productionRules.map fun w => (w.nonTerminalSymbol, w.symbolProduced) := by
      rw [snapshot, List.map_map]
      rfl
    exact (hidentity ▸ hg.nodup_identity).of_map
  head_mem := by
    intro w hw
    obtain ⟨r, hr, rfl⟩ := List.mem_map.1 hw
    exact (hadmits r hr).head_mem
  linear := by
    intro w hw
    obtain ⟨r, hr, rfl⟩ := List.mem_map.1 hw
    exact ⟨r.body, (hg.rules r hr).body_ne_nil, (hadmits r hr).body_mem, (hadmits r hr).linear, rfl⟩
  levels_ne_empty := hlacks .levels
  levels_hasBlank := hg.levels

/-- Whatever was typed and loaded: what is let through is the grammar as it stands, and it is a
proper submission. What is held back lacks the parts that are named, or else has as many stale rules
as are counted. -/
theorem toSubmission_proper (edits : List Edit) :
    (∀ s, (ofEdits edits).toSubmission = .ok s → s.Proper ∧ s = (ofEdits edits).snapshot) ∧
      ∀ e, (ofEdits edits).toSubmission = .error e ↔
        (∃ c, (ofEdits edits).Lacks c) ∧ e = .incomplete (ofEdits edits).lacking ∨
          (∀ c, ¬ (ofEdits edits).Lacks c) ∧ 0 < (ofEdits edits).staleCount ∧
            e = .staleRules (ofEdits edits).staleCount := by
  have hg : (ofEdits edits).WellFormed := wellFormed_empty.editAll edits
  generalize ofEdits edits = g at hg
  refine ⟨fun s hs => ?_, fun e => toSubmission_eq_error_iff hg.levels⟩
  obtain ⟨hlacks, hadmits, rfl⟩ := (toSubmission_eq_ok_iff hg.levels).1 hs
  exact ⟨hg.proper_snapshot hlacks hadmits, rfl⟩

end Grammar

end LinearGrammar
