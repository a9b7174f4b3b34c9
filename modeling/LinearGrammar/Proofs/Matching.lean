import LinearGrammar.Rule.Validity

/-!
# What makes a rule valid

`Rule.check` looks at the head, then counts nonterminals, then collects the symbols that neither
alphabet has, and stops at the first thing that is wrong. Which error is reported depends on that
order. Whether one is reported does not: a rule passes if its head is a nonterminal and its body is
made of symbols of the two alphabets with one nonterminal among them at most. `Rule.Matches` is that
condition, and `isValid_iff` is all that the rest of the theory needs of the check.
-/

namespace LinearGrammar

/-- The rule belongs to a linear grammar over the two alphabets. -/
structure Rule.Matches (terminals nonterminals : Alphabet) (r : Rule) : Prop where
  head_mem : r.head ∈ nonterminals.symbols
  body_mem : ∀ s ∈ r.body, s ∈ terminals.symbols ∨ s ∈ nonterminals.symbols
  linear : r.body.countP (· ∈ nonterminals.symbols) ≤ 1

namespace Body

variable {terminals nonterminals : Alphabet} {body : List String}

theorem nonterminalCount_eq_countP :
    nonterminalCount nonterminals body = body.countP (· ∈ nonterminals.symbols) :=
  List.countP_congr fun s _ => by rw [Alphabet.contains_iff_mem, decide_eq_true_iff]

theorem strangers_isEmpty_iff : (strangers terminals nonterminals body).isEmpty = true ↔
    ∀ s ∈ body, s ∈ terminals.symbols ∨ s ∈ nonterminals.symbols := by
  rw [List.isEmpty_iff, List.eq_nil_iff_forall_not_mem]
  refine forall_congr' fun s => ?_
  simp only [strangers, List.mem_eraseDups, List.mem_filter, Bool.and_eq_true, Bool.not_eq_true',
    Alphabet.contains, List.contains_eq_mem, decide_eq_false_iff_not]
  grind

theorem check_isOk_iff : (check terminals nonterminals body).isOk = true ↔
    (∀ s ∈ body, s ∈ terminals.symbols ∨ s ∈ nonterminals.symbols) ∧
      body.countP (· ∈ nonterminals.symbols) ≤ 1 := by
  rw [← strangers_isEmpty_iff, ← nonterminalCount_eq_countP]
  simp only [check]
  split
  · next hmany => exact ⟨nofun, fun ⟨_, hfew⟩ => absurd hfew (by omega)⟩
  · next hfew =>
      split
      · next hunknown => exact ⟨nofun, fun ⟨hknown, _⟩ => by simp [hknown] at hunknown⟩
      · next hknown => exact ⟨fun _ => ⟨by simpa using hknown, by omega⟩, fun _ => rfl⟩

end Body

namespace Rule

variable {terminals nonterminals : Alphabet} {r : Rule}

theorem isValid_iff :
    r.isValid terminals nonterminals = true ↔ r.Matches terminals nonterminals := by
  unfold isValid check
  split
  · next hhead =>
      rw [Body.check_isOk_iff]
      have hmem := Alphabet.contains_iff_mem.1 hhead
      exact ⟨fun ⟨hbody, hlinear⟩ => ⟨hmem, hbody, hlinear⟩, fun h => ⟨h.body_mem, h.linear⟩⟩
  · next hhead =>
      refine ⟨nofun, fun h => absurd (Alphabet.contains_iff_mem.2 h.head_mem) hhead⟩

instance : Decidable (r.Matches terminals nonterminals) :=
  decidable_of_iff _ isValid_iff

theorem length_invalid (terminals nonterminals : Alphabet) (rules : List Rule) :
    (invalid terminals nonterminals rules).length =
      rules.countP fun r => ¬ r.Matches terminals nonterminals := by
  rw [← List.length_map Prod.fst, map_fst_invalid, ← List.countP_eq_length_filter]
  refine List.countP_congr fun r _ => ?_
  rw [Bool.not_eq_true', ← Bool.not_eq_true, isValid_iff, decide_eq_true_iff]

theorem invalid_eq_nil_iff {rules : List Rule} :
    invalid terminals nonterminals rules = [] ↔ ∀ r ∈ rules, r.Matches terminals nonterminals := by
  rw [← List.length_eq_zero_iff, length_invalid, List.countP_eq_zero]
  exact forall₂_congr fun r _ => by rw [decide_eq_true_iff, Classical.not_not]

end Rule

end LinearGrammar
