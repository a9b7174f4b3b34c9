import Mathlib.Data.List.Chain
import LinearGrammar.Proofs.Matching
import LinearGrammar.Proofs.WellFormed
import LinearGrammar.Sampling.Word

/-!
# A sample is a leftmost derivation

`generate` keeps two lists side by side, the symbols of the current form and the texts of all forms
so far, and it stops either because no nonterminal is left or because the depth is used up. What it
returns says nothing of the rules it took. `generate_derives` says that there were such rules: the
forms are the texts of a leftmost derivation from the start symbol, by stored rules, that ends with
its first form without a nonterminal.

`Derives` follows the recursion of `expand`: a form without a nonterminal derives nothing more, and
any other form goes on with one expansion. The draws only decide which of the rules for a nonterminal
is taken, so all that is needed of them is `mem_of_choose`. A finite list of draws with zeros behind
it is enough, because a run that returns has looked at finitely many.

Stale rules are expanded like any others, so a form may hold several nonterminals, and symbols that no
alphabet has. Where every rule matches the alphabets neither happens: expanding the one nonterminal
of a form leaves at most one.
-/

namespace LinearGrammar

/-! ## Choosing -/

namespace Draws

variable {α : Type} {items : List α} {x : α}

theorem mem_of_chooseAfter {seen : Nat} {kept : Option α} {d : Draws}
    (h : (chooseAfter seen kept items d).1 = some x) : kept = some x ∨ x ∈ items := by
  induction items generalizing seen kept d with
  | nil => exact .inl h
  | cons y rest ih =>
      rw [chooseAfter] at h
      rcases ih h with hkept | hrest
      · split at hkept
        · exact .inr (by simp [Option.some.inj hkept])
        · exact .inl hkept
      · exact .inr (List.mem_cons_of_mem y hrest)

theorem mem_of_choose {d : Draws} (h : (d.choose items).1 = some x) : x ∈ items := by
  rcases mem_of_chooseAfter h with hnone | hmem
  · cases hnone
  · exact hmem

end Draws

namespace Grammar

variable {g : Grammar} {form next : Form} {rest : List Form}

/-! ## Leftmost expansion -/

/-- The leftmost nonterminal of a form gives way to the body of a rule for it. -/
inductive Expands (g : Grammar) : Form → Form → Prop
  | byRule {before after : Form} {r : Rule} (hbefore : ∀ s ∈ before, s ∉ g.nonterminals.symbols)
      (hhead : r.head ∈ g.nonterminals.symbols) (hr : r ∈ g.rules) :
      Expands g (before ++ r.head :: after) (before ++ r.body ++ after)

def IsWord (g : Grammar) (form : Form) : Prop := ∀ s ∈ form, s ∉ g.nonterminals.symbols

/-- The forms that follow a form, one expansion at a time, up to the first one without a
nonterminal. -/
inductive Derives (g : Grammar) : Form → List Form → Prop
  | word {form : Form} (h : g.IsWord form) : Derives g form []
  | expand {form next : Form} {rest : List Form} (h : g.Expands form next)
      (hrest : Derives g next rest) : Derives g form (next :: rest)

theorem Expands.not_isWord (h : g.Expands form next) : ¬ g.IsWord form := by
  cases h with
  | byRule hbefore hhead hr => exact fun hword => hword _ (by simp) hhead

theorem not_contains_iff {symbol : String} :
    (!g.nonterminals.contains symbol) = true ↔ symbol ∉ g.nonterminals.symbols := by
  rw [Bool.not_eq_true', ← Bool.not_eq_true, Alphabet.contains_iff_mem]

theorem isWord_takeWhile (g : Grammar) (form : Form) :
    g.IsWord (form.takeWhile (!g.nonterminals.contains ·)) := by
  intro s hs
  have hnot := List.mem_takeWhile_imp hs
  exact not_contains_iff.1 hnot

theorem isWord_of_leftmost (h : g.leftmost form = none) : g.IsWord form := by
  unfold leftmost at h
  split at h
  · next hdrop =>
      have hall := List.takeWhile_append_dropWhile (p := (!g.nonterminals.contains ·)) (l := form)
      rw [hdrop, List.append_nil] at hall
      rw [← hall]
      exact isWord_takeWhile g form
  · cases h

theorem of_leftmost {before after : Form} {symbol : String}
    (h : g.leftmost form = some (before, symbol, after)) :
    form = before ++ symbol :: after ∧ g.IsWord before ∧ symbol ∈ g.nonterminals.symbols := by
  unfold leftmost at h
  split at h
  · cases h
  · next hdrop =>
      cases h
      have hall := List.takeWhile_append_dropWhile (p := (!g.nonterminals.contains ·)) (l := form)
      have hhead := List.head?_dropWhile_not (!g.nonterminals.contains ·) form
      rw [hdrop] at hall hhead
      refine ⟨hall.symm, isWord_takeWhile g form, ?_⟩
      exact Alphabet.contains_iff_mem.1 (by simpa using hhead)

theorem mem_rulesFor {symbol : String} {r : Rule} :
    r ∈ g.rulesFor symbol ↔ r ∈ g.rules ∧ r.head = symbol := by
  rw [rulesFor, List.mem_filter, beq_iff_eq]

theorem expands_of_choose {before after : Form} {symbol : String} {r : Rule} {d : Draws}
    (hleft : g.leftmost form = some (before, symbol, after))
    (hchoose : (d.choose (g.rulesFor symbol)).1 = some r) :
    g.Expands form (before ++ r.body ++ after) := by
  obtain ⟨rfl, hbefore, hsymbol⟩ := of_leftmost hleft
  obtain ⟨hr, rfl⟩ := mem_rulesFor.1 (Draws.mem_of_choose hchoose)
  exact .byRule hbefore hsymbol hr

theorem expand_derives {depth budget : Nat} {d : Draws}
    (h : (g.expand depth budget form d).1 = .ok rest) :
    g.Derives form rest ∧ rest.length ≤ budget := by
  induction budget generalizing form rest d with
  | zero =>
      rw [expand] at h
      split at h
      · next hleft =>
          cases h
          exact ⟨.word (isWord_of_leftmost hleft), Nat.le_refl 0⟩
      · cases h
  | succ budget ih =>
      rw [expand] at h
      split at h
      · next hleft =>
          cases h
          exact ⟨.word (isWord_of_leftmost hleft), Nat.zero_le _⟩
      · next before symbol after hleft =>
          simp only [] at h
          split at h
          · cases h
          · next r d' hchoose =>
              split at h
              · next forms d'' hexpand =>
                  cases h
                  obtain ⟨hderives, hlength⟩ := ih (congrArg Prod.fst hexpand)
                  exact ⟨.expand (expands_of_choose hleft (congrArg Prod.fst hchoose)) hderives,
                    Nat.succ_le_succ hlength⟩
              · cases h

/-! ## The whole derivation -/

/-- A leftmost derivation that a sample tells: its forms after the first, by stored rules, as many as
the depth allows, with the first form without a nonterminal as the last. -/
structure LeftmostDerivation (g : Grammar) (sample : Sample) (start : String) (depth : Nat)
    (rest : List Form) : Prop where
  start_eq : g.start = some start
  levels_eq : Text.natural? g.levels = some depth
  depth_le : depth ≤ 1000
  length_pos : 1 ≤ rest.length
  length_le : rest.length ≤ depth
  chain : List.IsChain g.Expands ([start] :: rest)
  isWord_last : g.IsWord (([start] :: rest).getLast (by simp))
  not_isWord : ∀ form ∈ ([start] :: rest).dropLast, ¬ g.IsWord form
  forms_eq : sample.forms = ([start] :: rest).map String.join
  word_eq : sample.word = String.join (([start] :: rest).getLast (by simp))

/-- Every form before the last has exactly one nonterminal, and the last is made of terminals. -/
structure StaysLinear (g : Grammar) (start : String) (rest : List Form) : Prop where
  countP_eq : ∀ form ∈ ([start] :: rest).dropLast, form.countP (· ∈ g.nonterminals.symbols) = 1
  last_mem : ∀ s ∈ ([start] :: rest).getLast (by simp), s ∈ g.terminals.symbols

theorem Derives.isChain (h : g.Derives form rest) : List.IsChain g.Expands (form :: rest) := by
  induction h with
  | word h => exact .singleton _
  | expand hstep _ ih => exact .cons_cons hstep ih

theorem Derives.isWord_getLast (h : g.Derives form rest) :
    g.IsWord ((form :: rest).getLast (by simp)) := by
  induction h with
  | word h => exact h
  | expand _ _ ih => simpa using ih

theorem Derives.not_isWord (h : g.Derives form rest) :
    ∀ f ∈ (form :: rest).dropLast, ¬ g.IsWord f := by
  induction h with
  | word h => exact nofun
  | expand hstep _ ih =>
      rw [List.dropLast_cons_cons]
      exact List.forall_mem_cons.2 ⟨hstep.not_isWord, ih⟩

/-! ## Valid rules -/

/-- A form over the two alphabets with one nonterminal at most. -/
structure IsLinear (g : Grammar) (form : Form) : Prop where
  mem : ∀ s ∈ form, s ∈ g.terminals.symbols ∨ s ∈ g.nonterminals.symbols
  countP_le : form.countP (· ∈ g.nonterminals.symbols) ≤ 1

/-- Expanding the only nonterminal by a rule that matches the alphabets leaves one at most. -/
theorem IsLinear.expands (hform : g.IsLinear form)
    (hrules : ∀ r ∈ g.rules, r.Matches g.terminals g.nonterminals) (h : g.Expands form next) :
    g.IsLinear next := by
  cases h with
  | @byRule before after r hbefore hhead hr =>
      have hmatch := hrules r hr
      have hcount := hform.countP_le
      have hlinear := hmatch.linear
      rw [List.countP_append, List.countP_cons_of_pos (by simpa using hhead)] at hcount
      refine ⟨fun s hs => ?_, by rw [List.countP_append, List.countP_append]; omega⟩
      rcases List.mem_append.1 hs with hs | hs
      · rcases List.mem_append.1 hs with hs | hs
        · exact hform.mem s (List.mem_append_left _ hs)
        · exact hmatch.body_mem s hs
      · exact hform.mem s (List.mem_append_right _ (List.mem_cons_of_mem _ hs))

theorem Derives.isLinear (h : g.Derives form rest) (hform : g.IsLinear form)
    (hrules : ∀ r ∈ g.rules, r.Matches g.terminals g.nonterminals) :
    ∀ f ∈ form :: rest, g.IsLinear f := by
  induction h with
  | word h => exact List.forall_mem_singleton.2 hform
  | expand hstep _ ih =>
      exact List.forall_mem_cons.2 ⟨hform, ih (hform.expands hrules hstep)⟩

theorem Derives.staysLinear {start : String} (h : g.Derives [start] rest)
    (hstart : start ∈ g.nonterminals.symbols)
    (hrules : ∀ r ∈ g.rules, r.Matches g.terminals g.nonterminals) :
    g.StaysLinear start rest := by
  have hfirst : g.IsLinear [start] :=
    ⟨fun s hs => .inr (List.mem_singleton.1 hs ▸ hstart), List.countP_le_length⟩
  have hall := h.isLinear hfirst hrules
  constructor
  · intro form hform
    have hle := (hall form (List.dropLast_subset _ hform)).countP_le
    -- Only the last form is a word, so this one has a nonterminal.
    have hpos : 0 < form.countP (· ∈ g.nonterminals.symbols) := by
      rw [List.countP_pos_iff]
      by_contra hnone
      exact h.not_isWord form hform fun s hs hsN => hnone ⟨s, hs, by simpa using hsN⟩
    omega
  · intro s hs
    have hlast := hall _ (List.getLast_mem (by simp))
    exact (hlast.mem s hs).resolve_right (h.isWord_getLast s hs)

/-! ## Sampling -/

theorem depth_eq_ok {depth : Nat} (h : g.depth = .ok depth) :
    Text.natural? g.levels = some depth ∧ depth ≤ 1000 := by
  unfold Grammar.depth at h
  split at h
  · cases h
  · next hlevels =>
      split at h
      · cases h
      · next hle =>
          cases h
          exact ⟨hlevels, Nat.not_lt.1 hle⟩

theorem generate_cases {d : Draws} {sample : Sample} (h : (g.generate d).1 = .ok sample) :
    ∃ start depth rest, g.start = some start ∧ g.depth = .ok depth ∧
      (g.expand depth depth [start] d).1 = .ok rest ∧ sample = sampleOf [start] rest := by
  unfold generate at h
  split at h
  · cases h
  · cases h
  · next start depth hstart hdepth =>
      split at h
      · next rest d' hexpand =>
          cases h
          exact ⟨start, depth, rest, hstart, hdepth, congrArg Prod.fst hexpand, rfl⟩
      · cases h

/-- Whatever the edits and the draws were: a sample that is generated tells a leftmost derivation.
If no rule is reported as invalid, the derivation stays linear. -/
theorem generate_derives (edits : List Edit) (d : Draws) (sample : Sample)
    (h : ((ofEdits edits).generate d).1 = .ok sample) :
    ∃ start depth rest, (ofEdits edits).LeftmostDerivation sample start depth rest ∧
      ((ofEdits edits).invalidRules = [] → (ofEdits edits).StaysLinear start rest) := by
  have hg : (ofEdits edits).WellFormed := wellFormed_empty.editAll edits
  generalize ofEdits edits = g at hg h
  obtain ⟨start, depth, rest, hstart, hdepth, hexpand, rfl⟩ := generate_cases h
  obtain ⟨hderives, hlength⟩ := expand_derives hexpand
  obtain ⟨hlevels, hdepth⟩ := depth_eq_ok hdepth
  have hmem := hg.start_mem start hstart
  refine ⟨start, depth, rest, ?_, fun hinvalid => ?_⟩
  · exact {
      start_eq := hstart
      levels_eq := hlevels
      depth_le := hdepth
      length_pos := by
        cases hderives with
        | word hword => exact absurd hmem (hword start List.mem_cons_self)
        | expand _ _ => exact Nat.succ_pos _
      length_le := hlength
      chain := hderives.isChain
      isWord_last := hderives.isWord_getLast
      not_isWord := hderives.not_isWord
      forms_eq := rfl
      word_eq := rfl }
  · exact hderives.staysLinear hmem (Rule.invalid_eq_nil_iff.1 hinvalid)

/-- Symbols that begin alike, and a start symbol that begins another nonterminal. -/
def overlapping : List Edit :=
  [.addTerminal "a", .addTerminal "ab", .addNonterminal "S", .addNonterminal "Sa",
    .addRules "S->ab Sa", .addRules "Sa->a", .setLevels "2"]

theorem generate_derives_overlapping :
    ((ofEdits overlapping).generate ⟨[4294967295, 7], 0⟩).1 =
        .ok ⟨"aba", ["S", "abSa", "aba"]⟩ ∧
      ∃ start depth rest, (ofEdits overlapping).LeftmostDerivation
          ⟨"aba", ["S", "abSa", "aba"]⟩ start depth rest ∧
        ((ofEdits overlapping).invalidRules = [] →
          (ofEdits overlapping).StaysLinear start rest) := by
  have h : ((ofEdits overlapping).generate ⟨[4294967295, 7], 0⟩).1 =
      .ok ⟨"aba", ["S", "abSa", "aba"]⟩ := by decide +kernel
  exact ⟨h, generate_derives overlapping _ _ h⟩

end Grammar

end LinearGrammar
