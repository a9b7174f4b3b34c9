import Mathlib.Data.Fintype.Fin
import LinearGrammar.Proofs.Matching
import LinearGrammar.Proofs.NormalForm

/-!
# What the check of a body says

`Body.check` counts symbols first and collects symbols afterwards, and each of the two passes could say
something else than what is told about it. A count is told as the number of the positions that hold a
nonterminal, whichever nonterminals they are, and not as a number of symbols: `S` twice is two. The
symbols that are collected are told as a list that is determined by what is in it and how it is
ordered, and so it has each symbol once, however often the body has it (`NamesStrangers.unique`).

A symbol comes later in that list than another one if its first occurrence is later. The induction that
shows this takes symbols off the end of the body: the last symbol is new, and then it is first seen
behind all others, or it changes nothing.
-/

namespace LinearGrammar.Body

variable {terminals nonterminals : Alphabet} {body unknown : List String}

/-- The positions of a body that hold a nonterminal. -/
def nonterminalPositions (nonterminals : Alphabet) (body : List String) :
    Finset (Fin body.length) :=
  Finset.univ.filter fun i => body[i] ∈ nonterminals.symbols

/-- The list has the symbols of the body that neither alphabet has, each once, in the order in which they
first occur. -/
structure NamesStrangers (terminals nonterminals : Alphabet) (body unknown : List String) :
    Prop where
  mem_iff : ∀ s, s ∈ unknown ↔ s ∈ body ∧ s ∉ terminals.symbols ∧ s ∉ nonterminals.symbols
  nodup : unknown.Nodup
  ordered : unknown.Pairwise fun s t => body.idxOf s < body.idxOf t

/-! ## Counting -/

theorem card_nonterminalPositions (nonterminals : Alphabet) (body : List String) :
    (nonterminalPositions nonterminals body).card = nonterminalCount nonterminals body := by
  rw [nonterminalCount_eq_countP]
  induction body with
  | nil => rfl
  | cons s rest ih =>
      rw [List.countP_cons, ← ih]
      refine (Fin.card_filter_univ_succ _).trans ?_
      simp only [Fin.getElem_fin, Fin.val_zero, List.getElem_cons_zero, Fin.val_succ,
        List.getElem_cons_succ, decide_eq_true_eq]
      split <;> rfl

/-! ## Collecting -/

theorem mem_strangers {s : String} : s ∈ strangers terminals nonterminals body ↔
    s ∈ body ∧ s ∉ terminals.symbols ∧ s ∉ nonterminals.symbols := by
  simp only [strangers, List.mem_eraseDups, List.mem_filter, Alphabet.contains,
    List.contains_eq_mem, Bool.and_eq_true, Bool.not_eq_true', decide_eq_false_iff_not]

/-- What is kept of a list without its repetitions stands in the order of first occurrence. -/
theorem pairwise_eraseDups_filter (p : String → Bool) (body : List String) :
    (body.filter p).eraseDups.Pairwise fun s t => body.idxOf s < body.idxOf t := by
  induction body using List.reverseRecOn with
  | nil => exact .nil
  | append_singleton body last ih =>
      have hmem : ∀ s ∈ (body.filter p).eraseDups, s ∈ body := by
        intro s hs
        exact (List.mem_filter.1 (List.mem_eraseDups.1 hs)).1
      -- A symbol that was there before is first seen where it was first seen before.
      have hbefore : (body.filter p).eraseDups.Pairwise fun s t =>
          (body ++ [last]).idxOf s < (body ++ [last]).idxOf t := by
        refine ih.imp_of_mem fun {s t} hs ht hlt => ?_
        rwa [List.idxOf_append_of_mem (hmem s hs), List.idxOf_append_of_mem (hmem t ht)]
      rw [List.filter_append]
      by_cases hlast : p last = true
      · rw [List.filter_cons_of_pos hlast, List.filter_nil, Submission.eraseDups_concat]
        split
        · exact hbefore
        · next hnew =>
            have hnew : last ∉ body := fun h => hnew (List.mem_filter.2 ⟨h, hlast⟩)
            refine List.pairwise_append.2 ⟨hbefore, List.pairwise_singleton _ _, ?_⟩
            intro s hs t ht
            rw [List.mem_singleton.1 ht, List.idxOf_append_of_mem (hmem s hs),
              List.idxOf_append_of_notMem hnew]
            have := List.idxOf_lt_length_of_mem (hmem s hs)
            omega
      · rw [List.filter_cons_of_neg hlast, List.filter_nil, List.append_nil]
        exact hbefore

theorem namesStrangers_strangers (terminals nonterminals : Alphabet) (body : List String) :
    NamesStrangers terminals nonterminals body (strangers terminals nonterminals body) := by
  have hordered := pairwise_eraseDups_filter
    (fun s => !terminals.contains s && !nonterminals.contains s) body
  exact {
    mem_iff := fun s => mem_strangers
    nodup := hordered.imp fun hlt heq => absurd hlt (by simp [heq])
    ordered := hordered }

theorem NamesStrangers.unique {unknown' : List String}
    (h : NamesStrangers terminals nonterminals body unknown)
    (h' : NamesStrangers terminals nonterminals body unknown') : unknown' = unknown := by
  have hperm : unknown'.Perm unknown :=
    (List.perm_ext_iff_of_nodup h'.nodup h.nodup).2 fun s => (h'.mem_iff s).trans (h.mem_iff s).symm
  refine hperm.eq_of_pairwise (fun s t _ _ hlt hgt => ?_) h'.ordered h.ordered
  omega

theorem strangers_eq_nil_iff : strangers terminals nonterminals body = [] ↔
    ∀ s ∈ body, s ∈ terminals.symbols ∨ s ∈ nonterminals.symbols := by
  rw [← List.isEmpty_iff, strangers_isEmpty_iff]

/-! ## The check -/

/-- The check in the words of this module. -/
theorem check_eq (terminals nonterminals : Alphabet) (body : List String) :
    check terminals nonterminals body =
      if 1 < (nonterminalPositions nonterminals body).card then
        .error (.manyNonterminals (String.join body) (nonterminalPositions nonterminals body).card)
      else if strangers terminals nonterminals body ≠ [] then
        .error (.unknownSymbols (String.join body) (strangers terminals nonterminals body))
      else .ok () := by
  rw [card_nonterminalPositions]
  simp only [check, Bool.not_eq_true', List.isEmpty_eq_false_iff]

theorem check_eq_ok_iff : check terminals nonterminals body = .ok () ↔
    (nonterminalPositions nonterminals body).card ≤ 1 ∧
      ∀ s ∈ body, s ∈ terminals.symbols ∨ s ∈ nonterminals.symbols := by
  rw [← strangers_eq_nil_iff, check_eq]
  split
  · next hmany =>
      simp only [reduceCtorEq, false_iff]
      omega
  · next hfew =>
      split
      · next hunknown => simp [hunknown]
      · next hknown => simp [Nat.not_lt.1 hfew, Classical.not_not.1 hknown]

theorem check_eq_manyNonterminals_iff {text : String} {count : Nat} :
    check terminals nonterminals body = .error (.manyNonterminals text count) ↔
      1 < count ∧ count = (nonterminalPositions nonterminals body).card ∧
        text = String.join body := by
  rw [check_eq]
  split
  · next hmany =>
      rw [Except.error.injEq, EditError.manyNonterminals.injEq]
      constructor
      · rintro ⟨rfl, rfl⟩
        exact ⟨hmany, rfl, rfl⟩
      · rintro ⟨-, rfl, rfl⟩
        exact ⟨rfl, rfl⟩
  · next hfew =>
      have hnone : ¬ (1 < count ∧ count = (nonterminalPositions nonterminals body).card ∧
          text = String.join body) := by
        omega
      split <;> simp [hnone]

theorem check_eq_unknownSymbols_iff {text : String} :
    check terminals nonterminals body = .error (.unknownSymbols text unknown) ↔
      (nonterminalPositions nonterminals body).card ≤ 1 ∧ unknown ≠ [] ∧
        NamesStrangers terminals nonterminals body unknown ∧ text = String.join body := by
  have hnames := namesStrangers_strangers terminals nonterminals body
  rw [check_eq]
  split
  · next hmany =>
      simp only [Except.error.injEq, reduceCtorEq, false_iff]
      omega
  · next hfew =>
      split
      · next hunknown =>
          rw [Except.error.injEq, EditError.unknownSymbols.injEq]
          constructor
          · rintro ⟨rfl, rfl⟩
            exact ⟨by omega, hunknown, hnames, rfl⟩
          · rintro ⟨-, -, hlist, rfl⟩
            exact ⟨rfl, hlist.unique hnames⟩
      · next hknown =>
          simp only [reduceCtorEq, false_iff]
          rintro ⟨-, hne, hlist, -⟩
          exact hne ((hnames.unique hlist).trans (Classical.not_not.1 hknown))

/-- A body passes if one position at most holds a nonterminal and the alphabets have all its symbols
between them. If more positions hold one, their number is told, whatever else is wrong; if not, the
symbols are told that neither alphabet has. Nothing else is ever said of a body, and the body is told
with either error. The alphabets may be any two. -/
theorem check_tells (terminals nonterminals : Alphabet) (body : List String) :
    (check terminals nonterminals body = .ok () ↔
      (nonterminalPositions nonterminals body).card ≤ 1 ∧
        ∀ s ∈ body, s ∈ terminals.symbols ∨ s ∈ nonterminals.symbols) ∧
    (∀ text count, check terminals nonterminals body = .error (.manyNonterminals text count) ↔
      1 < count ∧ count = (nonterminalPositions nonterminals body).card ∧
        text = String.join body) ∧
    (∀ text unknown, check terminals nonterminals body = .error (.unknownSymbols text unknown) ↔
      (nonterminalPositions nonterminals body).card ≤ 1 ∧ unknown ≠ [] ∧
        NamesStrangers terminals nonterminals body unknown ∧ text = String.join body) ∧
    ∀ e, check terminals nonterminals body = .error e →
      (∃ text count, e = .manyNonterminals text count) ∨
        ∃ text unknown, e = .unknownSymbols text unknown := by
  refine ⟨check_eq_ok_iff, fun text count => check_eq_manyNonterminals_iff,
    fun text unknown => check_eq_unknownSymbols_iff, fun e he => ?_⟩
  rw [check_eq] at he
  split at he
  · cases he
    exact .inl ⟨_, _, rfl⟩
  · split at he
    · cases he
      exact .inr ⟨_, _, rfl⟩
    · cases he

/-- Two nonterminals weigh more than an unknown symbol, and a symbol that comes again counts again. -/
example : check ⟨.terminal, ["a"]⟩ ⟨.nonterminal, ["S"]⟩ ["x", "S", "a", "S"] =
    .error (.manyNonterminals "xSaS" 2) := by decide +kernel

end LinearGrammar.Body
