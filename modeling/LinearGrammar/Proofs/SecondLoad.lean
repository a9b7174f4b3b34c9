import LinearGrammar.Proofs.Reload
import LinearGrammar.Sampling.Word

/-!
# Loading settles after one round

The first load may change a grammar: the bodies are cut anew, and a rule that was typed with blanks, or
under other alphabets, may come back made of other symbols. So it is not plain that the second load
does nothing. It could cut what the first one cut once more.

What stops it is that a cut depends on the text of a body alone, and that the symbols of a cut have the
text it was made from: no blank is lost, because no symbol has one. So a body that was cut afresh is
its own fresh cut (`recut_recut`), the alphabets being the same, and from the first load on every load
gives the very grammar that was saved. For the same reason a saved text never changes at all: it holds
texts of bodies and not their cuts.
-/

namespace LinearGrammar.Grammar

variable {g : Grammar} {r : Rule}

/-- The grammar after it was saved and loaded so many times. -/
def reloads (g : Grammar) : Nat → Except EditError Grammar
  | 0 => .ok g
  | n + 1 => (g.reloads n).bind fun h => ofSubmission h.snapshot

theorem recut_recut (hg : g.WellFormed) (hr : r.WellFormed) :
    g.recut (g.recut r) = g.recut r := by
  have htext : (g.recut r).text = r.text := text_recut hg.terminals hg.nonterminals hr
  rw [recut, htext]
  rfl

theorem wellFormed_reloaded (hg : g.WellFormed) : g.reloaded.WellFormed :=
  wellFormed_ofSubmission (ofSubmission_snapshot hg)

theorem reloaded_reloaded (hg : g.WellFormed) : g.reloaded.reloaded = g.reloaded := by
  have hrules : (g.rules.map g.recut).map g.recut = g.rules.map g.recut := by
    rw [List.map_map]
    exact List.map_congr_left fun r hr => recut_recut hg (hg.rules r hr)
  -- The alphabets are the same, so the second load cuts as the first one did.
  calc g.reloaded.reloaded
      = { g with rules := (g.rules.map g.recut).map g.recut } := rfl
    _ = g.reloaded := by rw [hrules]; rfl

theorem ofSubmission_reloaded (hg : g.WellFormed) :
    ofSubmission g.reloaded.snapshot = .ok g.reloaded := by
  rw [ofSubmission_snapshot (wellFormed_reloaded hg), reloaded_reloaded hg]

theorem reloads_succ (hg : g.WellFormed) (n : Nat) : g.reloads (n + 1) = .ok g.reloaded := by
  induction n with
  | zero => exact ofSubmission_snapshot hg
  | succ n ih =>
      rw [reloads, ih]
      exact ofSubmission_reloaded hg

/-- Whatever the edits were: the grammar that is loaded first is written as the one that was saved, and
it is loaded again as it is, symbol for symbol. So however often it is saved and loaded from then on,
the same rules are invalid for the same reasons, the same is submitted, and the same is sampled on
all draws. -/
theorem reload_settles (edits : List Edit) :
    ∃ h, ofSubmission (ofEdits edits).snapshot = .ok h ∧
      h.snapshot = (ofEdits edits).snapshot ∧
      ofSubmission h.snapshot = .ok h ∧
      (∀ n, (ofEdits edits).reloads (n + 1) = .ok h) ∧
      ∀ n d, ((ofEdits edits).reloads (n + 1)).map
          (fun k => (k.invalidRules, k.toSubmission, k.generate d)) =
        .ok (h.invalidRules, h.toSubmission, h.generate d) := by
  have hg : (ofEdits edits).WellFormed := wellFormed_empty.editAll edits
  generalize ofEdits edits = g at hg
  refine ⟨g.reloaded, ofSubmission_snapshot hg, snapshot_reloaded hg, ofSubmission_reloaded hg,
    reloads_succ hg, fun n d => ?_⟩
  rw [reloads_succ hg]
  rfl

end LinearGrammar.Grammar
