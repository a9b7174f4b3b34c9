import LinearGrammar.Proofs.Expansion

/-!
# Raising the depth never changes a word that was found

The depth is looked at in one place only, where the budget is used up and a nonterminal is still
there. Until then two runs with different budgets read the same draws and take the same rules. So the
run with the smaller budget either ends as the other does, or it ends exhausted, and then the other
one needs more expansions than the smaller budget if it finds a word at all. `expand_of_le` says this
of the forms that follow any form, by induction on the smaller budget.

The bound is where it could go wrong. A run whose last expansion uses up the budget and leaves no
nonterminal is not exhausted, because `expand` looks for a nonterminal before it looks at the budget;
this is the case of `expand_of_leftmost_eq_none` with the budget zero.
-/

namespace LinearGrammar.Grammar

variable {g shallow deep : Grammar} {form before after : Form} {symbol : String} {d left : Draws}

/-! ## One expansion -/

theorem expand_of_leftmost_eq_none (hleft : g.leftmost form = none) (depth budget : Nat)
    (d : Draws) : g.expand depth budget form d = (.ok [], d) := by
  unfold expand
  rw [hleft]

theorem expand_zero (hleft : g.leftmost form = some (before, symbol, after)) (depth : Nat)
    (d : Draws) : g.expand depth 0 form d = (.error (.depthExhausted depth), d) := by
  rw [expand, hleft]

theorem expand_of_choose_eq_none (hleft : g.leftmost form = some (before, symbol, after))
    (hchoose : d.choose (g.rulesFor symbol) = (none, left)) (depth budget : Nat) :
    g.expand depth (budget + 1) form d = (.error (.undefinedNonterminal symbol), left) := by
  rw [expand, hleft]
  simp only [hchoose]

theorem expand_of_choose_eq_some {r : Rule}
    (hleft : g.leftmost form = some (before, symbol, after))
    (hchoose : d.choose (g.rulesFor symbol) = (some r, left)) (depth budget : Nat) :
    g.expand depth (budget + 1) form d =
      ((g.expand depth budget (before ++ r.body ++ after) left).1.map
          ((before ++ r.body ++ after) :: ·),
        (g.expand depth budget (before ++ r.body ++ after) left).2) := by
  rw [expand, hleft]
  simp only [hchoose]
  rcases g.expand depth budget (before ++ r.body ++ after) left with ⟨_ | _, _⟩ <;> rfl

/-! ## Two budgets -/

/-- A form with a nonterminal is followed by another one, if it leads to a word. -/
theorem length_pos_of_leftmost (hleft : g.leftmost form = some (before, symbol, after))
    {depth budget : Nat} {rest : List Form} (hrest : (g.expand depth budget form d).1 = .ok rest) :
    0 < rest.length := by
  obtain ⟨hform, -, hsymbol⟩ := of_leftmost hleft
  cases (expand_derives hrest).1 with
  | word hword => exact absurd hsymbol (hword symbol (hform ▸ by simp))
  | expand _ _ => exact Nat.succ_pos _

/-- Of two runs the one with the smaller budget is exhausted, and the other finds no word within that
budget, or both end alike. -/
theorem expand_of_le (g : Grammar) {small large : Nat} (hle : small ≤ large) (low high : Nat)
    (form : Form) (d : Draws) :
    ((g.expand low small form d).1 = .error (.depthExhausted low) ∧
      ∀ rest, (g.expand high large form d).1 = .ok rest → small < rest.length) ∨
    g.expand low small form d = g.expand high large form d := by
  induction small generalizing large form d with
  | zero =>
      cases hleft : g.leftmost form with
      | none =>
          rw [expand_of_leftmost_eq_none hleft, expand_of_leftmost_eq_none hleft]
          exact .inr rfl
      | some parts =>
          obtain ⟨before, symbol, after⟩ := parts
          rw [expand_zero hleft]
          exact .inl ⟨rfl, fun rest hrest => length_pos_of_leftmost hleft hrest⟩
  | succ small ih =>
      obtain ⟨large, rfl⟩ : ∃ m, large = m + 1 := ⟨large - 1, by omega⟩
      cases hleft : g.leftmost form with
      | none =>
          rw [expand_of_leftmost_eq_none hleft, expand_of_leftmost_eq_none hleft]
          exact .inr rfl
      | some parts =>
          obtain ⟨before, symbol, after⟩ := parts
          rcases hchoose : d.choose (g.rulesFor symbol) with ⟨_ | r, left⟩
          · rw [expand_of_choose_eq_none hleft hchoose, expand_of_choose_eq_none hleft hchoose]
            exact .inr rfl
          · rw [expand_of_choose_eq_some hleft hchoose, expand_of_choose_eq_some hleft hchoose]
            generalize before ++ r.body ++ after = next
            rcases ih (Nat.le_of_succ_le_succ hle) next left with ⟨hexhausted, hlonger⟩ | hsame
            · refine .inl ⟨by rw [hexhausted]; rfl, fun rest hrest => ?_⟩
              obtain ⟨forms, hforms, rfl⟩ := exists_of_map_eq_ok hrest
              exact Nat.succ_lt_succ (hlonger forms hforms)
            · rw [hsame]
              exact .inr rfl

/-! ## Two depths -/

/-- The depth is no part of an expansion. -/
theorem expand_levels (g : Grammar) (text : String) (depth budget : Nat) (form : Form)
    (d : Draws) :
    ({ g with levels := text } : Grammar).expand depth budget form d =
      g.expand depth budget form d := by
  induction budget generalizing form d with
  | zero =>
      rw [expand, expand]
      rfl
  | succ budget ih =>
      rw [expand, expand]
      simp only [ih]
      rfl

theorem generate_eq {start : String} {depth : Nat} (hstart : g.start = some start)
    (hdepth : g.depth = .ok depth) (d : Draws) :
    g.generate d = ((g.expand depth depth [start] d).1.map (sampleOf [start]),
      (g.expand depth depth [start] d).2) := by
  rw [generate, hstart, hdepth]
  dsimp only
  rcases g.expand depth depth [start] d with ⟨_ | _, _⟩ <;> rfl

theorem generate_of_start_eq_none (hstart : g.start = none) (d : Draws) :
    g.generate d = (.error .noStart, d) := by
  rw [generate, hstart]

theorem depth_of_natural? {depth : Nat} (hlevels : Text.natural? g.levels = some depth)
    (hle : depth ≤ 1000) : g.depth = .ok depth := by
  rw [Grammar.depth, hlevels]
  exact if_neg (Nat.not_lt.2 hle)

theorem length_forms {depth : Nat} {sample : Sample} (hdepth : g.depth = .ok depth)
    (hsample : (g.generate d).1 = .ok sample) :
    ∃ expansions, sample.forms.length = expansions + 1 ∧ expansions ≤ depth := by
  obtain ⟨start, depth', rest, -, hdepth', hexpand, rfl⟩ := generate_cases hsample
  cases hdepth.symm.trans hdepth'
  refine ⟨rest.length, ?_, (expand_derives hexpand).2⟩
  rw [sampleOf, List.length_map, List.length_cons]

/-- The two ways in which runs of two such grammars can go. -/
theorem generate_of_le {low high : Nat} (hagree : deep = { shallow with levels := deep.levels })
    (hlow : shallow.depth = .ok low) (hhigh : deep.depth = .ok high) (hle : low ≤ high)
    (d : Draws) :
    ((shallow.generate d).1 = .error (.depthExhausted low) ∧
      ∀ sample, (deep.generate d).1 = .ok sample → low + 1 < sample.forms.length) ∨
    shallow.generate d = deep.generate d := by
  have hstart : deep.start = shallow.start := by rw [hagree]
  cases hcases : shallow.start with
  | none =>
      rw [generate_of_start_eq_none hcases, generate_of_start_eq_none (hstart.trans hcases)]
      exact .inr rfl
  | some start =>
      have hexpand : deep.expand high high [start] d = shallow.expand high high [start] d := by
        rw [hagree, expand_levels]
      rw [generate_eq hcases hlow, generate_eq (hstart.trans hcases) hhigh, hexpand]
      rcases expand_of_le shallow hle low high [start] d with ⟨hexhausted, hlonger⟩ | hsame
      · refine .inl ⟨by rw [hexhausted]; rfl, fun sample hsample => ?_⟩
        obtain ⟨rest, hrest, rfl⟩ := exists_of_map_eq_ok hsample
        rw [sampleOf, List.length_map, List.length_cons]
        exact Nat.succ_lt_succ (hlonger rest hrest)
      · rw [hsame]
        exact .inr rfl

/-- Two grammars that differ only in the depth, on the same draws: a word that the smaller depth finds
is found by the larger one too, with the same forms and with the same draws left. An undefined
nonterminal is met by both. A word that the larger depth finds in some number of expansions is found by
the smaller one if that allows as many, and exhausts it if not. -/
theorem raised_depth_keeps_samples (shallow deep : Grammar) (low high : Nat) (d : Draws)
    (hagree : deep = { shallow with levels := deep.levels })
    (hlow : Text.natural? shallow.levels = some low)
    (hhigh : Text.natural? deep.levels = some high) (hle : low ≤ high) (hlimit : high ≤ 1000) :
    (∀ sample left, shallow.generate d = (.ok sample, left) →
      deep.generate d = (.ok sample, left)) ∧
    (∀ symbol left, shallow.generate d = (.error (.undefinedNonterminal symbol), left) →
      deep.generate d = (.error (.undefinedNonterminal symbol), left)) ∧
    (∀ sample left, deep.generate d = (.ok sample, left) →
      ∃ expansions, sample.forms.length = expansions + 1 ∧
        (expansions ≤ low → shallow.generate d = (.ok sample, left)) ∧
        (low < expansions → (shallow.generate d).1 = .error (.depthExhausted low))) := by
  have hlow := depth_of_natural? hlow (Nat.le_trans hle hlimit)
  have hhigh := depth_of_natural? hhigh hlimit
  rcases generate_of_le hagree hlow hhigh hle d with ⟨hexhausted, hlonger⟩ | hsame
  · -- An exhausted run is no premise of the first two statements.
    refine ⟨fun sample left h => ?_, fun symbol left h => ?_, fun sample left h => ?_⟩
    · rw [h] at hexhausted
      cases hexhausted
    · rw [h] at hexhausted
      cases hexhausted
    · obtain ⟨expansions, hlength, -⟩ := length_forms hhigh (congrArg Prod.fst h)
      have hmore := hlonger sample (congrArg Prod.fst h)
      refine ⟨expansions, hlength, fun hfits => ?_, fun _ => hexhausted⟩
      omega
  · rw [← hsame]
    refine ⟨fun _ _ h => h, fun _ _ h => h, fun sample left h => ?_⟩
    obtain ⟨expansions, hlength, hfits⟩ := length_forms hlow (congrArg Prod.fst h)
    refine ⟨expansions, hlength, fun _ => h, fun hmore => ?_⟩
    omega

/-- Words that end in their only `b`, one expansion for each letter. -/
def tailed : List Edit :=
  [.addTerminal "a", .addTerminal "b", .addNonterminal "S", .addRules "S->aS|b"]

/-- A word that just fits into the smaller depth, and one that just does not. -/
theorem raised_depth_keeps_samples_at_bound :
    (ofEdits (tailed ++ [.setLevels "+003"])).generate ⟨[0, 2147483648, 7], 0⟩ =
        (.ok ⟨"ab", ["S", "aS", "ab"]⟩, ⟨[], 4⟩) ∧
      (ofEdits (tailed ++ [.setLevels "2"])).generate ⟨[0, 2147483648, 7], 0⟩ =
        (.ok ⟨"ab", ["S", "aS", "ab"]⟩, ⟨[], 4⟩) ∧
      (ofEdits (tailed ++ [.setLevels "+003"])).generate
          ⟨[0, 2147483648, 0, 2147483648, 7], 0⟩ =
        (.ok ⟨"aab", ["S", "aS", "aaS", "aab"]⟩, ⟨[], 6⟩) ∧
      ((ofEdits (tailed ++ [.setLevels "2"])).generate
          ⟨[0, 2147483648, 0, 2147483648, 7], 0⟩).1 = .error (.depthExhausted 2) := by
  have hbounds := fun d => raised_depth_keeps_samples (ofEdits (tailed ++ [.setLevels "2"]))
    (ofEdits (tailed ++ [.setLevels "+003"])) 2 3 d (by decide +kernel) (by decide +kernel)
    (by decide +kernel) (by decide) (by decide)
  have hshort : (ofEdits (tailed ++ [.setLevels "2"])).generate ⟨[0, 2147483648, 7], 0⟩ =
      (.ok ⟨"ab", ["S", "aS", "ab"]⟩, ⟨[], 4⟩) := by decide +kernel
  have hlong : (ofEdits (tailed ++ [.setLevels "+003"])).generate
      ⟨[0, 2147483648, 0, 2147483648, 7], 0⟩ =
        (.ok ⟨"aab", ["S", "aS", "aaS", "aab"]⟩, ⟨[], 6⟩) := by decide +kernel
  refine ⟨(hbounds _).1 _ _ hshort, hshort, hlong, ?_⟩
  obtain ⟨expansions, hlength, -, hexhausted⟩ := (hbounds _).2.2 _ _ hlong
  exact hexhausted (by cases hlength; decide)

end LinearGrammar.Grammar
