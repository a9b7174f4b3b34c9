import LinearGrammar.Proofs.Expansion

/-!
# Every derivation is sampled

That a sample is a derivation leaves open which derivations are sampled, and a choice that can never
fall on some rule would hide words of the language. None does. For a derivation that the depth allows
there is a list of draws on which the sampler takes it, form for form, and what comes after the list
is left for the next sample.

The work is in a single choice. It goes through the rules for a nonterminal in one pass and may forget
the rule that it kept at every later one, so to end on a given rule it has to take that rule and then
refuse all the others. A zero takes, for any number of rules. To refuse the `k`-th, the index drawn
below `k` has to be another one, and the draw must not fall into the part that is drawn again;
`refusal k` is the first draw that stands for the index one, and its low half is smaller than `k`, which
is always accepted. There is no such draw for `k = 1`: the first rule is taken on every draw, and that
is why refusing starts behind the rule that is wanted.

From there on draws are read like a text. The draws of a choice are followed by those of the rest of
the derivation, and each step is stated for any draws behind its own.
-/

namespace LinearGrammar

/-! ## Steering a choice -/

namespace Draws

variable {α : Type} {k seen : Nat}

theorem span_eq : span = 4294967296 := rfl

theorem le_zone (k : Nat) : k - 1 ≤ zone k := by
  have hpow : 0 < 2 ^ (31 - k.log2) := Nat.two_pow_pos _
  have hshift : k ≤ k <<< (31 - k.log2) := by
    rw [Nat.shiftLeft_eq]
    exact Nat.le_mul_of_pos_right k hpow
  rw [zone]
  omega

/-- A zero stands for the index zero. -/
theorem indexBelow_zero (k : Nat) (later : List UInt32) (used : Nat) :
    indexBelow k ⟨0 :: later, used⟩ = (0, ⟨later, used + 1⟩) := by
  rw [indexBelow]
  simp

/-- The first draw that stands for the index one. -/
def refusal (k : Nat) : UInt32 := .ofNat ((span + k - 1) / k)

theorem toNat_refusal (hk : 2 ≤ k) (hlt : k < span) :
    span ≤ (refusal k).toNat * k ∧ (refusal k).toNat * k < span + k := by
  have hle : (span + k - 1) / k * k ≤ span + k - 1 := Nat.div_mul_le_self _ _
  have hgt : span + k - 1 < (span + k - 1) / k * k + k := Nat.lt_div_mul_add (by omega)
  have htwice : (span + k - 1) / k * 2 ≤ (span + k - 1) / k * k := Nat.mul_le_mul_left _ hk
  have hfits : (span + k - 1) / k < 2 ^ 32 := by
    rw [span_eq] at hle hlt htwice ⊢
    omega
  rw [refusal, UInt32.toNat_ofNat_of_lt' hfits]
  omega

theorem indexBelow_refusal (hk : 2 ≤ k) (hlt : k < span) (later : List UInt32) (used : Nat) :
    indexBelow k ⟨refusal k :: later, used⟩ = (1, ⟨later, used + 1⟩) := by
  obtain ⟨hge, hless⟩ := toNat_refusal hk hlt
  have hzone : k - 1 ≤ zone k := le_zone k
  rw [indexBelow]
  generalize (refusal k).toNat * k = product at hge hless
  have hdiv : product / span = 1 := by
    rw [span_eq] at hge hless hlt ⊢
    omega
  have hmod : product % span ≤ zone k := by
    rw [span_eq] at hge hless hlt ⊢
    omega
  simp only [if_pos hmod, hdiv]

/-- Draws on which none of the next items is taken, `seen` being the number of items before them. -/
def refusing (seen : Nat) : Nat → List UInt32
  | 0 => []
  | items + 1 => refusal (seen + 1) :: refusing (seen + 1) items

/-- Draws on which the item between `before` others and `behind` others is chosen. -/
def picking (before behind : Nat) : List UInt32 :=
  List.replicate (before + 1) 0 ++ refusing (before + 1) behind

theorem length_refusing (seen items : Nat) : (refusing seen items).length = items := by
  induction items generalizing seen with
  | zero => rfl
  | succ items ih => rw [refusing, List.length_cons, ih]

theorem chooseAfter_refusing {kept : Option α} {items : List α} (hseen : 1 ≤ seen)
    (hlt : seen + items.length < span) (later : List UInt32) (used : Nat) :
    chooseAfter seen kept items ⟨refusing seen items.length ++ later, used⟩ =
      (kept, ⟨later, used + items.length⟩) := by
  induction items generalizing seen used with
  | nil => rfl
  | cons x rest ih =>
      rw [List.length_cons] at hlt ⊢
      have hrest : chooseAfter (seen + 1) kept rest
          ⟨refusing (seen + 1) rest.length ++ later, used + 1⟩ =
            (kept, ⟨later, used + 1 + rest.length⟩) := ih (by omega) (by omega) (used + 1)
      rw [refusing, List.cons_append, chooseAfter, indexBelow_refusal (by omega) (by omega)]
      simp only [if_neg Nat.one_ne_zero, hrest]
      rw [Nat.add_assoc, Nat.add_comm 1]

/-- On a zero for each of them, every item replaces the one before. -/
theorem chooseAfter_zeros {kept : Option α} {before : List α} {x : α} {behind : List α}
    (d : List UInt32) (used : Nat) :
    chooseAfter seen kept (before ++ x :: behind) ⟨List.replicate (before.length + 1) 0 ++ d, used⟩ =
      chooseAfter (seen + before.length + 1) (some x) behind ⟨d, used + before.length + 1⟩ := by
  induction before generalizing seen kept used with
  | nil =>
      rw [List.nil_append, List.length_nil, List.replicate_succ, List.cons_append, chooseAfter,
        indexBelow_zero]
      rfl
  | cons y before ih =>
      rw [List.cons_append, List.length_cons, List.replicate_succ, List.cons_append, chooseAfter,
        indexBelow_zero]
      simp only [if_pos]
      rw [ih, Nat.add_assoc seen, Nat.add_comm 1, Nat.add_assoc used, Nat.add_comm 1]

/-- The choice can be made to fall on any item. -/
theorem exists_draws_choose {items : List α} {x : α} (hx : x ∈ items) (hlt : items.length < span) :
    ∃ values : List UInt32, ∀ later used,
      choose items ⟨values ++ later, used⟩ = (some x, ⟨later, used + values.length⟩) := by
  obtain ⟨before, behind, rfl⟩ := List.append_of_mem hx
  refine ⟨picking before.length behind.length, fun later used => ?_⟩
  rw [List.length_append, List.length_cons] at hlt
  have hlength : (picking before.length behind.length).length =
      before.length + 1 + behind.length := by
    rw [picking, List.length_append, List.length_replicate, length_refusing]
  rw [choose, hlength, picking, List.append_assoc, chooseAfter_zeros, Nat.zero_add,
    chooseAfter_refusing (by omega) (by omega), Nat.add_assoc used, Nat.add_assoc used]

end Draws

namespace Grammar

variable {g : Grammar} {form : Form} {rest : List Form}

/-! ## Steering a derivation -/

theorem leftmost_of_isWord (h : g.IsWord form) : g.leftmost form = none := by
  have hdrop : form.dropWhile (!g.nonterminals.contains ·) = [] :=
    List.dropWhile_eq_nil_iff.2 fun s hs => not_contains_iff.2 (h s hs)
  rw [leftmost, hdrop]

theorem leftmost_append {before after : Form} {symbol : String} (hbefore : g.IsWord before)
    (hsymbol : symbol ∈ g.nonterminals.symbols) :
    g.leftmost (before ++ symbol :: after) = some (before, symbol, after) := by
  have hpass : ∀ s ∈ before, (!g.nonterminals.contains s) = true := fun s hs =>
    not_contains_iff.2 (hbefore s hs)
  have hstop : ¬ (!g.nonterminals.contains symbol) = true := fun h =>
    not_contains_iff.1 h hsymbol
  have hdrop : (before ++ symbol :: after).dropWhile (!g.nonterminals.contains ·) =
      symbol :: after := by
    rw [List.dropWhile_append_of_pos hpass]
    exact List.dropWhile_cons_of_neg hstop
  have hnone : (symbol :: after).takeWhile (!g.nonterminals.contains ·) = [] :=
    List.takeWhile_cons_of_neg hstop
  rw [leftmost, hdrop, List.takeWhile_append_of_pos hpass, hnone, List.append_nil]

/-- The draws of the first choice, and behind them those of the rest of the derivation. -/
theorem exists_draws_expand (hrules : g.rules.length < Draws.span) (depth : Nat)
    (h : g.Derives form rest) {budget : Nat} (hle : rest.length ≤ budget) :
    ∃ values : List UInt32, ∀ later used, g.expand depth budget form ⟨values ++ later, used⟩ =
      (.ok rest, ⟨later, used + values.length⟩) := by
  induction h generalizing budget with
  | word hword =>
      refine ⟨[], fun later used => ?_⟩
      unfold expand
      rw [leftmost_of_isWord hword]
      rfl
  | @expand form next rest hstep hrest ih =>
      obtain ⟨budget, rfl⟩ : ∃ m, budget = m + 1 := ⟨budget - 1, by
        rw [List.length_cons] at hle
        omega⟩
      obtain ⟨tail, htail⟩ := ih (Nat.le_of_succ_le_succ hle)
      cases hstep with
      | @byRule before after r hbefore hhead hr =>
          have hfor : (g.rulesFor r.head).length < Draws.span :=
            Nat.lt_of_le_of_lt (List.length_filter_le _ _) hrules
          obtain ⟨first, hfirst⟩ := Draws.exists_draws_choose (mem_rulesFor.2 ⟨hr, rfl⟩) hfor
          refine ⟨first ++ tail, fun later used => ?_⟩
          rw [expand, leftmost_append hbefore hhead, List.append_assoc]
          simp only [hfirst, htail]
          rw [List.length_append, Nat.add_assoc]

theorem derives_of_isChain (hchain : List.IsChain g.Expands (form :: rest))
    (hlast : g.IsWord ((form :: rest).getLast (by simp))) : g.Derives form rest := by
  induction rest generalizing form with
  | nil => exact .word hlast
  | cons next rest ih =>
      obtain ⟨hstep, hrest⟩ := List.isChain_cons_cons.1 hchain
      exact .expand hstep (ih hrest hlast)

/-- Whatever the grammar is, with fewer rules than there are values of a draw: for every leftmost
derivation by stored rules, from the start symbol to a form without a nonterminal, that takes no more
steps than the depth allows, there are draws on which its word and its forms are sampled. No other
draws are looked at. -/
theorem every_derivation_sampled (g : Grammar) (start : String) (depth : Nat) (rest : List Form)
    (hrules : g.rules.length < Draws.span) (hstart : g.start = some start)
    (hlevels : Text.natural? g.levels = some depth) (hdepth : depth ≤ 1000)
    (hchain : List.IsChain g.Expands ([start] :: rest)) (hlength : rest.length ≤ depth)
    (hlast : g.IsWord (([start] :: rest).getLast (by simp))) :
    ∃ values : List UInt32, ∀ later, g.generate (.ofList (values ++ later)) =
      (.ok ⟨String.join (([start] :: rest).getLast (by simp)), ([start] :: rest).map String.join⟩,
        ⟨later, values.length⟩) := by
  have hderives : g.Derives [start] rest := derives_of_isChain hchain hlast
  have hok : g.depth = .ok depth := by
    rw [Grammar.depth, hlevels]
    exact if_neg (Nat.not_lt.2 hdepth)
  obtain ⟨values, hvalues⟩ := exists_draws_expand hrules depth hderives hlength
  refine ⟨values, fun later => ?_⟩
  rw [generate, hstart, hok, Draws.ofList]
  simp only [hvalues, Nat.zero_add]
  rfl

/-- Rules that came to have two nonterminals when `a` changed sides, and three rules for each of the
nonterminals. -/
def sideways : List Edit :=
  [.addTerminal "a", .addTerminal "b", .addNonterminal "S", .addRules "S->aS|ab|b",
    .removeTerminal "a", .addNonterminal "a", .addRules "a->b|bb|a", .setLevels "3"]

/-- The first of three rules, the one in the middle and the last, in as many steps as the depth
allows. The first of them is stale. -/
theorem every_derivation_sampled_sideways :
    (ofEdits sideways).start = some "S" ∧
      Text.natural? (ofEdits sideways).levels = some 3 ∧
      List.IsChain (ofEdits sideways).Expands
        [["S"], ["a", "S"], ["b", "b", "S"], ["b", "b", "b"]] ∧
      (ofEdits sideways).IsWord ["b", "b", "b"] ∧
      ∃ values : List UInt32, ∀ later, (ofEdits sideways).generate (.ofList (values ++ later)) =
        (.ok ⟨"bbb", ["S", "aS", "bbS", "bbb"]⟩, ⟨later, values.length⟩) := by
  have hstart : (ofEdits sideways).start = some "S" := by decide +kernel
  have hlevels : Text.natural? (ofEdits sideways).levels = some 3 := by decide +kernel
  have hfirst : (ofEdits sideways).Expands ["S"] ["a", "S"] :=
    @Expands.byRule _ [] [] ⟨"S", ["a", "S"]⟩ nofun (by decide +kernel) (by decide +kernel)
  have hsecond : (ofEdits sideways).Expands ["a", "S"] ["b", "b", "S"] :=
    @Expands.byRule _ [] ["S"] ⟨"a", ["b", "b"]⟩ nofun (by decide +kernel) (by decide +kernel)
  have hthird : (ofEdits sideways).Expands ["b", "b", "S"] ["b", "b", "b"] :=
    @Expands.byRule _ ["b", "b"] [] ⟨"S", ["b"]⟩ (by decide +kernel) (by decide +kernel)
      (by decide +kernel)
  have hchain : List.IsChain (ofEdits sideways).Expands
      [["S"], ["a", "S"], ["b", "b", "S"], ["b", "b", "b"]] :=
    .cons_cons hfirst (.cons_cons hsecond (.cons_cons hthird (.singleton _)))
  have hword : (ofEdits sideways).IsWord ["b", "b", "b"] := by
    unfold IsWord
    decide +kernel
  exact ⟨hstart, hlevels, hchain, hword,
    every_derivation_sampled (ofEdits sideways) "S" 3 [["a", "S"], ["b", "b", "S"], ["b", "b", "b"]]
      (by decide +kernel) hstart hlevels (by decide) hchain (by decide) hword⟩

end Grammar

end LinearGrammar
