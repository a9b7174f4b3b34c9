import LinearGrammar.Proofs.Matching
import LinearGrammar.Proofs.WellFormed

/-!
# Rules break and are whole again

An edit of an alphabet never touches the rules. A rule that loses a symbol stays where it is, cut as
it was, and whether it is valid is a question to the alphabets of the moment. Two things can be said
of the answer.

It is monotone. That is not plain from the check, which counts nonterminals and refuses a second one:
a new nonterminal might be the second of some body, and taking one away might mend a body that had
two. Neither happens, because the symbols of a valid body are in the alphabets already, and a symbol
of one alphabet never comes into the other as well. `Rule.Matches.mono` is the argument, and it is the
only one: a removal is an addition looked at from its end.

And it depends on nothing but which symbols there are. The checks ask an alphabet what it contains and
never where, so after a detour that ends with the same symbols the report is the same, errors
included, in whatever order the symbols came back.
-/

namespace LinearGrammar

namespace Edit

/-- Puts a symbol into an alphabet. -/
def isAddition : Edit → Bool
  | addTerminal _ | addNonterminal _ => true
  | _ => false

/-- Takes a symbol out of an alphabet. -/
def isRemoval : Edit → Bool
  | removeTerminal _ | removeNonterminal _ => true
  | _ => false

def isOfAlphabet (e : Edit) : Bool := e.isAddition || e.isRemoval

end Edit

namespace Grammar

/-- Every symbol of the one grammar is a symbol of the same kind of the other. -/
structure Within (g h : Grammar) : Prop where
  terminals : ∀ s ∈ g.terminals.symbols, s ∈ h.terminals.symbols
  nonterminals : ∀ s ∈ g.nonterminals.symbols, s ∈ h.nonterminals.symbols

end Grammar

/-! ## Validity and the alphabets -/

section Alphabets

variable {terminals nonterminals terminals' nonterminals' : Alphabet} {r : Rule}

/-- A valid rule stays valid when the alphabets grow and stay apart. -/
theorem Rule.Matches.mono (h : r.Matches terminals nonterminals)
    (hT : ∀ s ∈ terminals.symbols, s ∈ terminals'.symbols)
    (hN : ∀ s ∈ nonterminals.symbols, s ∈ nonterminals'.symbols)
    (hdisjoint : ∀ s ∈ terminals'.symbols, s ∉ nonterminals'.symbols) :
    r.Matches terminals' nonterminals' where
  head_mem := hN _ h.head_mem
  body_mem := by
    intro s hs
    rcases h.body_mem s hs with hmem | hmem
    · exact .inl (hT s hmem)
    · exact .inr (hN s hmem)
  linear := by
    refine Nat.le_trans (List.countP_mono_left fun s hs hmem => ?_) h.linear
    rw [decide_eq_true_iff] at hmem ⊢
    -- A symbol that was a terminal is one still, so it has not become a nonterminal.
    rcases h.body_mem s hs with hwas | hwas
    · exact absurd hmem (hdisjoint s (hT s hwas))
    · exact hwas

theorem Alphabet.mem_insert_of_mem {a b other : Alphabet} {text s : String} {grew : Bool}
    (h : a.insert other text = .ok (grew, b)) (hs : s ∈ a.symbols) : s ∈ b.symbols := by
  rcases insert_cases h with ⟨-, rfl⟩ | ⟨-, -, -, -, rfl⟩
  · exact hs
  · exact List.mem_append_left _ hs

theorem Alphabet.contains_congr {a b : Alphabet} (h : ∀ s, s ∈ a.symbols ↔ s ∈ b.symbols) :
    a.contains = b.contains := by
  funext s
  rw [Bool.eq_iff_iff, contains_iff_mem, contains_iff_mem, h]

/-- The check asks an alphabet for nothing but what it contains. -/
theorem Rule.check_congr (hT : terminals.contains = terminals'.contains)
    (hN : nonterminals.contains = nonterminals'.contains) (r : Rule) :
    r.check terminals nonterminals = r.check terminals' nonterminals' := by
  have hcount : Body.nonterminalCount nonterminals = Body.nonterminalCount nonterminals' := by
    funext body
    rw [Body.nonterminalCount, Body.nonterminalCount, hN]
  have hstrangers : Body.strangers terminals nonterminals =
      Body.strangers terminals' nonterminals' := by
    funext body
    rw [Body.strangers, Body.strangers, hT, hN]
  rw [Rule.check, Rule.check, Body.check, Body.check, hcount, hstrangers, hN]

end Alphabets

namespace Grammar

variable {g h : Grammar} {r : Rule} {e : Edit}

theorem isValid_of_within (hwithin : g.Within h) (hh : h.WellFormed) (hr : g.isValid r = true) :
    h.isValid r = true :=
  Rule.isValid_iff.2 <| (Rule.isValid_iff.1 hr).mono hwithin.terminals hwithin.nonterminals
    hh.disjoint

theorem invalidRules_congr (hrules : g.rules = h.rules)
    (hT : ∀ s, s ∈ g.terminals.symbols ↔ s ∈ h.terminals.symbols)
    (hN : ∀ s, s ∈ g.nonterminals.symbols ↔ s ∈ h.nonterminals.symbols) :
    g.invalidRules = h.invalidRules := by
  have hcheck : ∀ r : Rule, r.check g.terminals g.nonterminals =
      r.check h.terminals h.nonterminals :=
    Rule.check_congr (Alphabet.contains_congr hT) (Alphabet.contains_congr hN)
  simp only [invalidRules, Rule.invalid, hrules, hcheck]

/-! ## What an edit of an alphabet does -/

theorem Within.refl (g : Grammar) : g.Within g := ⟨fun _ hs => hs, fun _ hs => hs⟩

/-- An edit of an alphabet that is not refused keeps the rules. Unless it takes a symbol away it
keeps the symbols, and unless it puts one in it brings no symbol. -/
theorem tryEdit_cases (he : e.isOfAlphabet = true) (heq : g.tryEdit e = .ok h) :
    h.rules = g.rules ∧ (e.isAddition = true → g.Within h) ∧ (e.isRemoval = true → h.Within g) := by
  cases e with
  | addTerminal text =>
      rw [tryEdit] at heq
      obtain ⟨⟨grew, made⟩, hadd, rfl⟩ := exists_of_map_eq_ok heq
      obtain ⟨⟨grew, a⟩, hins, hmade⟩ := exists_of_map_eq_ok hadd
      cases hmade
      refine ⟨rfl, fun _ => ⟨fun s hs => ?_, fun _ hs => hs⟩, fun hremoval => by cases hremoval⟩
      exact Alphabet.mem_insert_of_mem hins hs
  | addNonterminal text =>
      rw [tryEdit] at heq
      obtain ⟨⟨grew, made⟩, hadd, rfl⟩ := exists_of_map_eq_ok heq
      obtain ⟨⟨grew, a⟩, hins, hmade⟩ := exists_of_map_eq_ok hadd
      cases hmade
      refine ⟨rules_refreshStart _, fun _ => ⟨fun s hs => ?_, fun s hs => ?_⟩,
        fun hremoval => by cases hremoval⟩
      · rwa [terminals_refreshStart]
      · rw [nonterminals_refreshStart]
        exact Alphabet.mem_insert_of_mem hins hs
  | removeTerminal symbol =>
      cases heq
      refine ⟨rfl, fun haddition => ?_, fun _ => ⟨fun s hs => ?_, fun _ hs => hs⟩⟩
      · cases haddition
      · exact List.mem_of_mem_erase hs
  | removeNonterminal symbol =>
      cases heq
      refine ⟨rules_refreshStart _, fun haddition => ?_, fun _ => ⟨fun s hs => ?_, fun s hs => ?_⟩⟩
      · cases haddition
      · rwa [removeNonterminal, terminals_refreshStart] at hs
      · rw [removeNonterminal, nonterminals_refreshStart] at hs
        exact List.mem_of_mem_erase hs
  | chooseStart _ | addRules _ | removeRule _ _ | setLevels _ | pruneRules | load _ => cases he

/-- The same of an edit that may be refused, because a refused one changes nothing. -/
theorem edit_cases (g : Grammar) (he : e.isOfAlphabet = true) :
    (g.edit e).rules = g.rules ∧ (e.isAddition = true → g.Within (g.edit e)) ∧
      (e.isRemoval = true → (g.edit e).Within g) := by
  unfold edit
  split
  · next heq => exact tryEdit_cases he heq
  · exact ⟨rfl, fun _ => .refl g, fun _ => .refl g⟩

theorem rules_editAll {es : List Edit} (hes : ∀ e ∈ es, e.isOfAlphabet = true) (g : Grammar) :
    (g.editAll es).rules = g.rules := by
  induction es generalizing g with
  | nil => rfl
  | cons e rest ih =>
      have hstep : (g.edit e).rules = g.rules := (edit_cases g (hes e List.mem_cons_self)).1
      have hrest := ih (fun e he => hes e (List.mem_cons_of_mem _ he)) (g.edit e)
      exact hrest.trans hstep

/-- Whatever was typed and loaded before: an edit of an alphabet, refused or not, leaves the rules as
they are. One that adds leaves every valid rule valid, and one that removes leaves every invalid rule
invalid. After any number of them that ends with the symbols of the beginning, the same rules are
reported for the same reasons. -/
theorem alphabet_edits_reversible (edits : List Edit) :
    (∀ e : Edit, e.isOfAlphabet = true → ((ofEdits edits).edit e).rules = (ofEdits edits).rules) ∧
    (∀ e : Edit, e.isAddition = true → ∀ r, (ofEdits edits).isValid r = true →
      ((ofEdits edits).edit e).isValid r = true) ∧
    (∀ e : Edit, e.isRemoval = true → ∀ r, (ofEdits edits).isValid r = false →
      ((ofEdits edits).edit e).isValid r = false) ∧
    ∀ detour : List Edit, (∀ e ∈ detour, e.isOfAlphabet = true) →
      (∀ s, s ∈ ((ofEdits edits).editAll detour).terminals.symbols ↔
        s ∈ (ofEdits edits).terminals.symbols) →
      (∀ s, s ∈ ((ofEdits edits).editAll detour).nonterminals.symbols ↔
        s ∈ (ofEdits edits).nonterminals.symbols) →
      ((ofEdits edits).editAll detour).invalidRules = (ofEdits edits).invalidRules := by
  have hg : (ofEdits edits).WellFormed := wellFormed_empty.editAll edits
  generalize ofEdits edits = g at hg
  refine ⟨fun e he => (edit_cases g he).1, ?_, ?_, ?_⟩
  · intro e he r hr
    have hwithin : g.Within (g.edit e) := (edit_cases g (by rw [Edit.isOfAlphabet, he]; rfl)).2.1 he
    exact isValid_of_within hwithin (hg.edit e) hr
  · intro e he r hr
    have hwithin : (g.edit e).Within g :=
      (edit_cases g (by rw [Edit.isOfAlphabet, he, Bool.or_true])).2.2 he
    rw [← Bool.not_eq_true] at hr ⊢
    exact fun hvalid => hr (isValid_of_within hwithin hg hvalid)
  · intro detour hdetour hT hN
    exact invalidRules_congr (rules_editAll hdetour g) hT hN

/-- A rule that got a second nonterminal when one of its terminals changed sides. -/
def changedSides : List Edit :=
  [.addTerminal "a", .addTerminal "c", .addNonterminal "S", .addRules "S->acS|a",
    .removeTerminal "c", .addNonterminal "c"]

/-- Takes every symbol away and puts each into an alphabet again, some of them into the wrong one
before, and the nonterminals in another order. One of the edits is refused. -/
def roundabout : List Edit :=
  [.removeNonterminal "S", .removeNonterminal "c", .addTerminal "c", .removeTerminal "a",
    .addNonterminal "a", .addTerminal "a", .removeTerminal "c", .addNonterminal "c",
    .removeNonterminal "a", .addNonterminal "S", .addTerminal "a"]

theorem alphabet_edits_reversible_roundabout :
    ((ofEdits changedSides).edit (.removeTerminal "a")).rules = (ofEdits changedSides).rules ∧
      (ofEdits changedSides).isValid ⟨"S", ["a"]⟩ = true ∧
      ((ofEdits changedSides).edit (.addNonterminal "b")).isValid ⟨"S", ["a"]⟩ = true ∧
      (ofEdits changedSides).isValid ⟨"S", ["a", "c", "S"]⟩ = false ∧
      ((ofEdits changedSides).edit (.removeNonterminal "c")).isValid ⟨"S", ["a", "c", "S"]⟩ = false ∧
      (ofEdits changedSides).nonterminals.symbols = ["S", "c"] ∧
      ((ofEdits changedSides).editAll roundabout).nonterminals.symbols = ["c", "S"] ∧
      ((ofEdits changedSides).editAll roundabout).invalidRules =
        (ofEdits changedSides).invalidRules := by
  obtain ⟨hrules, hadd, hremove, hdetour⟩ := alphabet_edits_reversible changedSides
  have hvalid : (ofEdits changedSides).isValid ⟨"S", ["a"]⟩ = true := by decide +kernel
  have hinvalid : (ofEdits changedSides).isValid ⟨"S", ["a", "c", "S"]⟩ = false := by
    decide +kernel
  have hT : ((ofEdits changedSides).editAll roundabout).terminals.symbols =
      (ofEdits changedSides).terminals.symbols := by decide +kernel
  have hN : (ofEdits changedSides).nonterminals.symbols = ["S", "c"] := by decide +kernel
  have hN' : ((ofEdits changedSides).editAll roundabout).nonterminals.symbols = ["c", "S"] := by
    decide +kernel
  refine ⟨hrules _ rfl, hvalid, hadd _ rfl _ hvalid, hinvalid, hremove _ rfl _ hinvalid, hN, hN', ?_⟩
  refine hdetour roundabout (by decide) (fun s => by rw [hT]) fun s => ?_
  rw [hN, hN']
  exact (List.Perm.swap "S" "c" []).mem_iff

end Grammar

end LinearGrammar
