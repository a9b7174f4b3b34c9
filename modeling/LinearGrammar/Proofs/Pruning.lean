import LinearGrammar.Proofs.Submittable

/-!
# One answer to which rules are stale

Three operations look for stale rules. The report goes through the rules and keeps what the check says
of those that fail, submitting counts what is reported, and pruning goes through the rules on its own
and takes them apart into two lists. That they agree is a theorem: `staleRules` and `fitRules`, which
are told apart by `Rule.Matches` and not by the check, are what all three of them come down to.

Pruning changes no alphabet, so what was fit before it is fit after it. That is why one pruning is
enough, and why a pruned grammar that is held back can only be incomplete.
-/

namespace LinearGrammar.Grammar

/-- The stored rules that do not match the alphabets, in order. -/
def staleRules (g : Grammar) : List Rule := g.rules.filter (¬ g.Admits ·)

/-- The stored rules that match the alphabets, in order. -/
def fitRules (g : Grammar) : List Rule := g.rules.filter (g.Admits ·)

variable {g : Grammar}

theorem isValid_eq_decide (g : Grammar) : g.isValid = fun r => decide (g.Admits r) := by
  funext r
  rw [Bool.eq_iff_iff, decide_eq_true_iff]
  exact Rule.isValid_iff

/-! ## The three operations -/

theorem map_fst_invalidRules (g : Grammar) : g.invalidRules.map Prod.fst = g.staleRules := by
  have hvalid : ∀ r, r.isValid g.terminals g.nonterminals = decide (g.Admits r) :=
    congrFun (isValid_eq_decide g)
  simp only [invalidRules, Rule.map_fst_invalid, staleRules, hvalid, decide_not]

theorem pruneRules_eq (g : Grammar) :
    g.pruneRules = (g.staleRules, { g with rules := g.fitRules }) := by
  simp only [pruneRules, staleRules, fitRules, isValid_eq_decide, decide_not]

theorem invalidRules_eq_nil_iff : g.invalidRules = [] ↔ g.staleRules = [] := by
  rw [← map_fst_invalidRules, List.map_eq_nil_iff]

theorem staleCount_eq_length (g : Grammar) : g.staleCount = g.staleRules.length :=
  List.countP_eq_length_filter

theorem toSubmission_eq_stale_iff {n : Nat} :
    g.toSubmission = .error (.staleRules n) ↔
      g.missing = [] ∧ 0 < n ∧ n = g.staleRules.length := by
  rw [toSubmission_eq_of_missing, staleCount_eq_length]
  split
  · next hmissing =>
      refine ⟨fun h => ?_, fun h => absurd h.1 hmissing⟩
      cases h
  · next hcomplete =>
      have hcomplete : g.missing = [] := Classical.not_not.1 hcomplete
      split
      · next hstale =>
          rw [Except.error.injEq, EditError.staleRules.injEq]
          exact ⟨fun h => ⟨hcomplete, h ▸ hstale, h.symm⟩, fun h => h.2.2.symm⟩
      · next hfit =>
          refine ⟨fun h => ?_, fun h => absurd (h.2.2 ▸ h.2.1) hfit⟩
          cases h

theorem toSubmission_eq_snapshot_iff {s : Submission} :
    g.toSubmission = .ok s ↔ g.missing = [] ∧ g.staleRules = [] ∧ s = g.snapshot := by
  rw [toSubmission_eq_of_missing, staleCount_eq_length]
  split
  · next hmissing => exact ⟨nofun, fun h => absurd h.1 hmissing⟩
  · next hcomplete =>
      split
      · next hstale => exact ⟨nofun, fun h => absurd h.2.1 (List.length_pos_iff.1 hstale)⟩
      · next hfit =>
          have hnil : g.staleRules = [] := List.length_eq_zero_iff.1 (by omega)
          rw [Except.ok.injEq]
          exact ⟨fun h => ⟨Classical.not_not.1 hcomplete, hnil, h.symm⟩, fun h => h.2.2.symm⟩

/-! ## After pruning -/

/-- The alphabets are those of before, so no rule that was kept is stale. -/
theorem staleRules_pruneRules (g : Grammar) : g.pruneRules.2.staleRules = [] := by
  rw [pruneRules_eq, staleRules, List.filter_eq_nil_iff]
  intro r hr
  have hfit : g.Admits r := of_decide_eq_true (List.mem_filter.1 hr).2
  simpa using hfit

theorem fitRules_of_staleRules_eq_nil (h : g.staleRules = []) : g.fitRules = g.rules := by
  rw [fitRules, List.filter_eq_self]
  rw [staleRules, List.filter_eq_nil_iff] at h
  intro r hr
  simpa using h r hr

/-- The rules that are reported as invalid, those that pruning takes out and those that hold back a
submission are the stale rules, in order; pruning leaves all others in order and everything else as
it was. After it nothing is reported, there is nothing to prune, and a submission is held back
exactly if a part of the grammar is missing. -/
theorem pruneRules_settles (g : Grammar) :
    g.invalidRules.map Prod.fst = g.staleRules ∧
      g.pruneRules = (g.staleRules, { g with rules := g.fitRules }) ∧
      (∀ n, g.toSubmission = .error (.staleRules n) ↔
        g.missing = [] ∧ 0 < n ∧ n = g.staleRules.length) ∧
      g.pruneRules.2.invalidRules = [] ∧
      g.pruneRules.2.pruneRules = ([], g.pruneRules.2) ∧
      (∀ n, g.pruneRules.2.toSubmission ≠ .error (.staleRules n)) ∧
      ∀ s, g.pruneRules.2.toSubmission = .ok s ↔
        g.pruneRules.2.missing = [] ∧ s = g.pruneRules.2.snapshot := by
  have hstale : g.pruneRules.2.staleRules = [] := staleRules_pruneRules g
  refine ⟨map_fst_invalidRules g, pruneRules_eq g, fun n => toSubmission_eq_stale_iff, ?_⟩
  generalize g.pruneRules.2 = h at hstale
  refine ⟨invalidRules_eq_nil_iff.2 hstale, ?_, fun n hn => ?_, fun s => ?_⟩
  · rw [pruneRules_eq, hstale, fitRules_of_staleRules_eq_nil hstale]
  · obtain ⟨-, hpos, hlength⟩ := toSubmission_eq_stale_iff.1 hn
    rw [hstale, List.length_nil] at hlength
    omega
  · rw [toSubmission_eq_snapshot_iff]
    exact and_congr_right fun _ => and_iff_right hstale

end LinearGrammar.Grammar
