import LinearGrammar.Grammar.Edits
import LinearGrammar.Proofs.BodyCut

/-!
# Every grammar that can be reached is well formed

An edit checks what it is given and nothing else, so what holds of the grammar as a whole holds
only because every edit keeps it. `Grammar.WellFormed` is that whole: both alphabets hold symbols,
each once and none in both; there is a start symbol as soon as there is a nonterminal, and it is
one; rules differ in head or text; heads are trimmed and bodies are made of symbols; the depth has
no blank in it.

Three of the ten edits need an argument. Those that shrink or grow the nonterminals owe the start
symbol to `refreshStart`, which works on grammars whose start symbol is anything. A rule line owes
the uniqueness of its rules to `sortOut`, whose list of stored rules grows with each rule that is
new. And a submission is arbitrary: reading it is a run of the other edits from the empty grammar,
so it is well formed whatever was in it.
-/

namespace LinearGrammar

open Text (IsSymbol)

/-! ## Edits that succeed -/

section Success

variable {ε α β : Type} {x : Except ε α} {b : β}

theorem exists_of_map_eq_ok {f : α → β} (h : x.map f = .ok b) : ∃ a, x = .ok a ∧ f a = b := by
  cases x with
  | error e => cases h
  | ok a => exact ⟨a, rfl, Except.ok.inj h⟩

theorem exists_of_bind_eq_ok {f : α → Except ε β} (h : x >>= f = .ok b) :
    ∃ a, x = .ok a ∧ f a = .ok b := by
  cases x with
  | error e => cases h
  | ok a => exact ⟨a, rfl, h⟩

end Success

/-! ## What is kept -/

/-- An alphabet that holds symbols, each of them once. -/
structure Alphabet.WellFormed (a : Alphabet) : Prop where
  isSymbol : ∀ s ∈ a.symbols, IsSymbol s
  nodup : a.symbols.Nodup

/-- A rule with a trimmed head and a body of symbols, neither of them empty. The head may have
blanks inside, because a submission may bring one that no alphabet has. -/
structure Rule.WellFormed (r : Rule) : Prop where
  head_ne_empty : r.head ≠ ""
  trim_head : Text.trim r.head = r.head
  body_ne_nil : r.body ≠ []
  isSymbol : ∀ s ∈ r.body, IsSymbol s

/-- What every edit keeps. -/
structure Grammar.WellFormed (g : Grammar) : Prop where
  terminals_kind : g.terminals.kind = .terminal
  nonterminals_kind : g.nonterminals.kind = .nonterminal
  terminals : g.terminals.WellFormed
  nonterminals : g.nonterminals.WellFormed
  disjoint : ∀ s ∈ g.terminals.symbols, s ∉ g.nonterminals.symbols
  start_eq_none_iff : g.start = none ↔ g.nonterminals.symbols = []
  start_mem : ∀ s, g.start = some s → s ∈ g.nonterminals.symbols
  /-- No two rules have the same head and the same text. -/
  nodup_identity : (g.rules.map Rule.identity).Nodup
  rules : ∀ r ∈ g.rules, r.WellFormed
  levels : Text.hasBlank g.levels = false

/-! ## Alphabets -/

namespace Alphabet

variable {a b other : Alphabet}

/-- What an accepted symbol does: nothing, or it comes in at the end. -/
theorem insert_cases {text : String} {grew : Bool}
    (h : a.insert other text = .ok (grew, b)) :
    grew = false ∧ b = a ∨
      grew = true ∧ IsSymbol (Text.trim text) ∧ Text.trim text ∉ other.symbols ∧
        Text.trim text ∉ a.symbols ∧
        b = { a with symbols := a.symbols ++ [Text.trim text] } := by
  simp only [insert] at h
  split at h
  · cases h
    exact .inl ⟨rfl, rfl⟩
  · next hempty =>
      split at h
      · cases h
      · next hblank =>
          split at h
          · cases h
          · next hother =>
              split at h
              · cases h
                exact .inl ⟨rfl, rfl⟩
              · next hmem =>
                  cases h
                  refine .inr ⟨rfl, ⟨?_, Bool.eq_false_iff.2 hblank⟩, ?_, ?_, rfl⟩
                  · exact fun he => hempty (String.isEmpty_iff.2 he)
                  · exact fun hm => hother (contains_iff_mem.2 hm)
                  · exact fun hm => hmem (contains_iff_mem.2 hm)

theorem wellFormed_empty (kind : SymbolKind) : (empty kind).WellFormed :=
  ⟨fun _ hs => (List.not_mem_nil hs).elim, List.nodup_nil⟩

theorem WellFormed.insert {text : String} {grew : Bool} (ha : a.WellFormed)
    (h : a.insert other text = .ok (grew, b)) : b.WellFormed := by
  rcases insert_cases h with ⟨-, rfl⟩ | ⟨-, hsym, -, hnew, rfl⟩
  · exact ha
  · refine ⟨fun s hs => ?_, ?_⟩
    · rcases List.mem_append.1 hs with hs | hs
      · exact ha.isSymbol s hs
      · rw [List.mem_singleton.1 hs]
        exact hsym
    · refine List.nodup_append.2 ⟨ha.nodup, List.pairwise_singleton _ _, ?_⟩
      rintro s hs t ht rfl
      exact hnew (List.mem_singleton.1 ht ▸ hs)

theorem mem_of_mem_insert {text s : String} {grew : Bool}
    (h : a.insert other text = .ok (grew, b)) (hs : s ∈ b.symbols) :
    s ∈ a.symbols ∨ s ∉ other.symbols := by
  rcases insert_cases h with ⟨-, rfl⟩ | ⟨-, -, hother, -, rfl⟩
  · exact .inl hs
  · rcases List.mem_append.1 hs with hs | hs
    · exact .inl hs
    · exact .inr (List.mem_singleton.1 hs ▸ hother)

theorem WellFormed.erase (ha : a.WellFormed) (symbol : String) :
    (a.erase symbol).WellFormed :=
  ⟨fun s hs => ha.isSymbol s (List.mem_of_mem_erase hs), ha.nodup.erase symbol⟩

end Alphabet

/-! ## The start symbol -/

namespace Grammar

variable {g : Grammar}

@[simp] theorem terminals_refreshStart (g : Grammar) :
    g.refreshStart.terminals = g.terminals := by
  unfold refreshStart
  split <;> rfl

@[simp] theorem nonterminals_refreshStart (g : Grammar) :
    g.refreshStart.nonterminals = g.nonterminals := by
  unfold refreshStart
  split <;> rfl

@[simp] theorem rules_refreshStart (g : Grammar) : g.refreshStart.rules = g.rules := by
  unfold refreshStart
  split <;> rfl

@[simp] theorem levels_refreshStart (g : Grammar) : g.refreshStart.levels = g.levels := by
  unfold refreshStart
  split <;> rfl

/-- The start symbol stays if it is a nonterminal, and else the first nonterminal is taken. -/
theorem start_refreshStart (g : Grammar) :
    (∃ s ∈ g.nonterminals.symbols, g.start = some s ∧ g.refreshStart.start = some s) ∨
      (∀ s, g.start = some s → s ∉ g.nonterminals.symbols) ∧
        g.refreshStart.start = g.nonterminals.symbols.head? := by
  unfold refreshStart
  split
  · next hany =>
      cases hs : g.start with
      | none =>
          rw [hs] at hany
          cases hany
      | some s =>
          rw [hs, Option.any_some] at hany
          exact .inl ⟨s, Alphabet.contains_iff_mem.1 hany, rfl, rfl⟩
  · next hany =>
      refine .inr ⟨fun s hs hmem => hany ?_, rfl⟩
      rw [hs, Option.any_some]
      exact Alphabet.contains_iff_mem.2 hmem

theorem start_refreshStart_eq_none_iff (g : Grammar) :
    g.refreshStart.start = none ↔ g.nonterminals.symbols = [] := by
  rcases start_refreshStart g with ⟨s, hmem, -, hs⟩ | ⟨-, hs⟩
  · rw [hs]
    exact ⟨nofun, fun hnil => absurd (hnil ▸ hmem) List.not_mem_nil⟩
  · rw [hs, List.head?_eq_none_iff]

theorem mem_of_start_refreshStart {s : String} (hs : g.refreshStart.start = some s) :
    s ∈ g.nonterminals.symbols := by
  rcases start_refreshStart g with ⟨t, hmem, -, ht⟩ | ⟨-, ht⟩
  · rw [ht, Option.some.injEq] at hs
    exact hs ▸ hmem
  · exact List.mem_of_head? (ht ▸ hs)

end Grammar

/-! ## Rules -/

namespace Rule

theorem isAmong_iff {r : Rule} {rules : List Rule} :
    r.isAmong rules = true ↔ r.identity ∈ rules.map identity := by
  simp only [isAmong, List.any_eq_true, isSame, beq_iff_eq, List.mem_map]
  exact exists_congr fun s => and_congr_right fun _ => eq_comm

/-- A rule that is not there can be put at the end. -/
theorem nodup_identity_concat {rules : List Rule} {r : Rule}
    (hrules : (rules.map identity).Nodup) (hr : r.isAmong rules = false) :
    ((rules ++ [r]).map identity).Nodup := by
  rw [List.map_append, List.nodup_append]
  refine ⟨hrules, List.pairwise_singleton _ _, ?_⟩
  rintro i hi j hj rfl
  rw [List.map_singleton, List.mem_singleton] at hj
  exact absurd (isAmong_iff.2 (hj ▸ hi)) (by rw [hr]; decide)

theorem wellFormed_ofAlternative {terminals nonterminals : Alphabet} {head text : String}
    {r : Rule} (hT : terminals.WellFormed) (hN : nonterminals.WellFormed)
    (hne : head ≠ "") (htrim : Text.trim head = head)
    (h : ofAlternative terminals nonterminals head text = .ok r) : r.WellFormed := by
  simp only [ofAlternative] at h
  split at h
  · cases h
  · next hbody =>
      obtain ⟨-, -, rfl⟩ := exists_of_map_eq_ok h
      exact ⟨hne, htrim, fun hnil => hbody (List.isEmpty_iff.2 hnil),
        Body.isSymbol_of_mem_symbols hT.isSymbol hN.isSymbol text⟩

end Rule

theorem RuleLine.head_ofText {line : String} {l : RuleLine} (h : ofText line = .ok l) :
    l.head ≠ "" ∧ Text.trim l.head = l.head := by
  simp only [ofText] at h
  split at h
  · cases h
  · split at h
    · cases h
    · next hempty =>
        cases h
        rw [Bool.or_eq_true, not_or] at hempty
        exact ⟨fun he => hempty.1 (String.isEmpty_iff.2 he), Text.trim_trim _⟩

theorem ParsedLine.mem_rules_ofOutcomes {outcomes : List (Except EditError Rule)} {r : Rule} :
    r ∈ (ofOutcomes outcomes).rules ↔ .ok r ∈ outcomes := by
  induction outcomes with
  | nil => exact ⟨nofun, nofun⟩
  | cons o rest ih =>
      cases o with
      | ok s => simp only [ofOutcomes, List.mem_cons, ih, Except.ok.injEq]
      | error e => simp only [ofOutcomes, List.mem_cons, ih, reduceCtorEq, false_or]

theorem ParsedLine.wellFormed_of_mem_rules {terminals nonterminals : Alphabet} {line : String}
    {p : ParsedLine} (hT : terminals.WellFormed) (hN : nonterminals.WellFormed)
    (h : ofText terminals nonterminals line = .ok p) : ∀ r ∈ p.rules, r.WellFormed := by
  simp only [ofText] at h
  split at h
  · cases h
  · next head alternatives hline =>
      split at h
      · cases h
        intro r hr
        obtain ⟨text, -, htext⟩ := List.mem_map.1 (mem_rules_ofOutcomes.1 hr)
        obtain ⟨hne, htrim⟩ := RuleLine.head_ofText hline
        exact Rule.wellFormed_ofAlternative hT hN hne htrim htext
      · cases h

namespace Grammar

/-- Whatever is sorted out as new can be put behind the stored rules. -/
theorem nodup_identity_sortOut {stored : List Rule} (rules : List Rule)
    (hstored : (stored.map Rule.identity).Nodup) :
    ((stored ++ (sortOut stored rules).1).map Rule.identity).Nodup := by
  induction rules generalizing stored with
  | nil => rwa [sortOut, List.append_nil]
  | cons r rest ih =>
      rw [sortOut]
      split
      · exact ih hstored
      · next hnew =>
          have hrest := ih (Rule.nodup_identity_concat hstored (Bool.eq_false_iff.2 hnew))
          rwa [List.append_assoc] at hrest

theorem mem_of_mem_sortOut {stored rules : List Rule} {r : Rule}
    (hr : r ∈ (sortOut stored rules).1) : r ∈ rules := by
  induction rules generalizing stored with
  | nil => rw [sortOut] at hr; cases hr
  | cons s rest ih =>
      rw [sortOut] at hr
      split at hr
      · exact List.mem_cons_of_mem s (ih hr)
      · rcases List.mem_cons.1 hr with rfl | hr
        · exact List.mem_cons_self
        · exact List.mem_cons_of_mem s (ih hr)

/-! ## Edits -/

theorem wellFormed_empty : empty.WellFormed where
  terminals_kind := rfl
  nonterminals_kind := rfl
  terminals := Alphabet.wellFormed_empty _
  nonterminals := Alphabet.wellFormed_empty _
  disjoint := nofun
  start_eq_none_iff := ⟨fun _ => rfl, fun _ => rfl⟩
  start_mem := nofun
  nodup_identity := List.nodup_nil
  rules := nofun
  levels := rfl

namespace WellFormed

variable {g h : Grammar} {grew : Bool} {text : String}

theorem addTerminal (hg : g.WellFormed) (heq : g.addTerminal text = .ok (grew, h)) :
    h.WellFormed := by
  obtain ⟨⟨grew, a⟩, hins, hmade⟩ := exists_of_map_eq_ok heq
  cases hmade
  refine { hg with
    terminals_kind := (Alphabet.kind_of_insert hins).trans hg.terminals_kind
    terminals := hg.terminals.insert hins
    disjoint := fun s hs => ?_ }
  rcases Alphabet.mem_of_mem_insert hins hs with hs | hs
  · exact hg.disjoint s hs
  · exact hs

/-- Any change of the nonterminals that keeps them well formed and apart from the terminals is
made good by choosing the start symbol afresh. -/
theorem refreshStart (hg : g.WellFormed) {a : Alphabet} (hkind : a.kind = .nonterminal)
    (ha : a.WellFormed) (hdisjoint : ∀ s ∈ g.terminals.symbols, s ∉ a.symbols) :
    ({ g with nonterminals := a }.refreshStart).WellFormed where
  terminals_kind := by rw [terminals_refreshStart]; exact hg.terminals_kind
  nonterminals_kind := by rw [nonterminals_refreshStart]; exact hkind
  terminals := by rw [terminals_refreshStart]; exact hg.terminals
  nonterminals := by rw [nonterminals_refreshStart]; exact ha
  disjoint := by rw [terminals_refreshStart, nonterminals_refreshStart]; exact hdisjoint
  start_eq_none_iff := by
    rw [nonterminals_refreshStart]
    exact start_refreshStart_eq_none_iff _
  start_mem := by
    rw [nonterminals_refreshStart]
    exact fun s hs => mem_of_start_refreshStart hs
  nodup_identity := by rw [rules_refreshStart]; exact hg.nodup_identity
  rules := by rw [rules_refreshStart]; exact hg.rules
  levels := by rw [levels_refreshStart]; exact hg.levels

theorem addNonterminal (hg : g.WellFormed) (heq : g.addNonterminal text = .ok (grew, h)) :
    h.WellFormed := by
  obtain ⟨⟨grew, a⟩, hins, hmade⟩ := exists_of_map_eq_ok heq
  cases hmade
  refine hg.refreshStart ((Alphabet.kind_of_insert hins).trans hg.nonterminals_kind)
    (hg.nonterminals.insert hins) fun s hs hmem => ?_
  rcases Alphabet.mem_of_mem_insert hins hmem with hmem | hother
  · exact hg.disjoint s hs hmem
  · exact hother hs

theorem removeTerminal (hg : g.WellFormed) (symbol : String) :
    (g.removeTerminal symbol).WellFormed :=
  { hg with
    terminals := hg.terminals.erase symbol
    disjoint := fun s hs => hg.disjoint s (List.mem_of_mem_erase hs) }

theorem removeNonterminal (hg : g.WellFormed) (symbol : String) :
    (g.removeNonterminal symbol).WellFormed :=
  hg.refreshStart hg.nonterminals_kind (hg.nonterminals.erase symbol)
    fun s hs hmem => hg.disjoint s hs (List.mem_of_mem_erase hmem)

theorem chooseStart (hg : g.WellFormed) (heq : g.chooseStart text = .ok h) :
    h.WellFormed := by
  simp only [Grammar.chooseStart] at heq
  split at heq
  · next hmem =>
      have hmem := Alphabet.contains_iff_mem.1 hmem
      cases heq
      exact { hg with
        start_eq_none_iff := ⟨nofun, fun hnil => absurd (hnil ▸ hmem) List.not_mem_nil⟩
        start_mem := fun s hs => Option.some.inj hs ▸ hmem }
  · cases heq

theorem setLevels (hg : g.WellFormed) (text : String) : (g.setLevels text).WellFormed :=
  { hg with levels := Text.hasBlank_squeeze text }

/-- Rules can be left out. -/
theorem sublist (hg : g.WellFormed) {rules : List Rule} (hsub : rules.Sublist g.rules) :
    ({ g with rules := rules } : Grammar).WellFormed :=
  { hg with
    nodup_identity := hg.nodup_identity.sublist (hsub.map _)
    rules := fun r hr => hg.rules r (hsub.subset hr) }

theorem addRules {line : String} {made : RuleEdit} (hg : g.WellFormed)
    (heq : g.addRules line = .ok (made, h)) : h.WellFormed := by
  obtain ⟨parsed, hparse, hmade⟩ := exists_of_map_eq_ok heq
  cases hmade
  refine { hg with
    nodup_identity := nodup_identity_sortOut parsed.rules hg.nodup_identity
    rules := fun r hr => ?_ }
  rcases List.mem_append.1 hr with hr | hr
  · exact hg.rules r hr
  · exact ParsedLine.wellFormed_of_mem_rules hg.terminals hg.nonterminals hparse r
      (mem_of_mem_sortOut hr)

theorem removeRule {head body : String} {r : Rule} (hg : g.WellFormed)
    (heq : g.removeRule head body = .ok (r, h)) : h.WellFormed := by
  simp only [Grammar.removeRule] at heq
  split at heq
  · cases heq
    exact hg.sublist List.eraseP_sublist
  · cases heq

theorem pruneRules (hg : g.WellFormed) : g.pruneRules.2.WellFormed :=
  hg.sublist List.filter_sublist

/-! Reading a submission is a run of edits that starts from the empty grammar, rules apart: those
are cut against the alphabets read so far and stored as they are. -/

theorem addTerminals {symbols : List String} (hg : g.WellFormed)
    (heq : Grammar.addTerminals symbols g = .ok h) : h.WellFormed := by
  induction symbols generalizing g with
  | nil => cases heq; exact hg
  | cons symbol rest ih =>
      rw [Grammar.addTerminals] at heq
      split at heq
      · next hadd => exact ih (hg.addTerminal hadd) heq
      · cases heq

theorem addNonterminals {symbols : List String} (hg : g.WellFormed)
    (heq : Grammar.addNonterminals symbols g = .ok h) : h.WellFormed := by
  induction symbols generalizing g with
  | nil => cases heq; exact hg
  | cons symbol rest ih =>
      rw [Grammar.addNonterminals] at heq
      split at heq
      · next hadd => exact ih (hg.addNonterminal hadd) heq
      · cases heq

theorem readStart {symbol : String} (hg : g.WellFormed)
    (heq : Grammar.readStart symbol g = .ok h) : h.WellFormed := by
  unfold Grammar.readStart at heq
  split at heq
  · cases heq; exact hg
  · exact hg.chooseStart heq

theorem readRule {wire : WireRule} {r : Rule} (hg : g.WellFormed)
    (heq : g.readRule wire = .ok r) : r.WellFormed := by
  simp only [Grammar.readRule] at heq
  split at heq
  · cases heq
  · next hhead =>
      split at heq
      · cases heq
      · next hbody =>
          cases heq
          exact ⟨fun he => hhead (String.isEmpty_iff.2 he), Text.trim_trim _,
            fun hnil => hbody (List.isEmpty_iff.2 hnil),
            Body.isSymbol_of_mem_symbols hg.terminals.isSymbol hg.nonterminals.isSymbol _⟩

theorem storeRule {r : Rule} (hg : g.WellFormed) (hr : r.WellFormed) :
    (g.storeRule r).WellFormed := by
  unfold Grammar.storeRule
  split
  · exact hg
  · next hnew =>
      refine { hg with
        nodup_identity := Rule.nodup_identity_concat hg.nodup_identity (Bool.eq_false_iff.2 hnew)
        rules := fun s hs => ?_ }
      rcases List.mem_append.1 hs with hs | hs
      · exact hg.rules s hs
      · rw [List.mem_singleton.1 hs]
        exact hr

theorem readRules {wires : List WireRule} (hg : g.WellFormed)
    (heq : Grammar.readRules wires g = .ok h) : h.WellFormed := by
  induction wires generalizing g with
  | nil => cases heq; exact hg
  | cons wire rest ih =>
      rw [Grammar.readRules] at heq
      split at heq
      · next hread => exact ih (hg.storeRule (hg.readRule hread)) heq
      · cases heq

end WellFormed

/-- Reading a submission, step by step. -/
theorem ofSubmission_eq_ok_iff {s : Submission} {g : Grammar} :
    ofSubmission s = .ok g ↔ ∃ g₁ g₂ g₃ g₄, addTerminals s.terminalSymbols empty = .ok g₁ ∧
      addNonterminals s.nonTerminalSymbols g₁ = .ok g₂ ∧
      readStart s.axiomaticSymbol g₂ = .ok g₃ ∧ readRules s.productionRules g₃ = .ok g₄ ∧
      g₄.setLevels s.levels = g := by
  constructor
  · intro h
    obtain ⟨g₁, h₁, h⟩ := exists_of_bind_eq_ok h
    obtain ⟨g₂, h₂, h⟩ := exists_of_bind_eq_ok h
    obtain ⟨g₃, h₃, h⟩ := exists_of_bind_eq_ok h
    obtain ⟨g₄, h₄, h⟩ := exists_of_bind_eq_ok h
    exact ⟨g₁, g₂, g₃, g₄, h₁, h₂, h₃, h₄, Except.ok.inj h⟩
  · rintro ⟨g₁, g₂, g₃, g₄, h₁, h₂, h₃, h₄, rfl⟩
    simp only [ofSubmission, h₁, h₂, h₃, h₄, bind, Except.bind]
    rfl

theorem wellFormed_ofSubmission {s : Submission} {g : Grammar}
    (h : ofSubmission s = .ok g) : g.WellFormed := by
  obtain ⟨g₁, g₂, g₃, g₄, h₁, h₂, h₃, h₄, rfl⟩ := ofSubmission_eq_ok_iff.1 h
  exact ((((wellFormed_empty.addTerminals h₁).addNonterminals h₂).readStart h₃).readRules
    h₄).setLevels _

/-! ## Histories -/

namespace WellFormed

variable {g h : Grammar}

theorem tryEdit (hg : g.WellFormed) {e : Edit} (heq : g.tryEdit e = .ok h) :
    h.WellFormed := by
  cases e with
  | addTerminal text =>
      rw [Grammar.tryEdit] at heq
      obtain ⟨⟨grew, made⟩, hadd, rfl⟩ := exists_of_map_eq_ok heq
      exact hg.addTerminal hadd
  | addNonterminal text =>
      rw [Grammar.tryEdit] at heq
      obtain ⟨⟨grew, made⟩, hadd, rfl⟩ := exists_of_map_eq_ok heq
      exact hg.addNonterminal hadd
  | removeTerminal symbol => cases heq; exact hg.removeTerminal symbol
  | removeNonterminal symbol => cases heq; exact hg.removeNonterminal symbol
  | chooseStart text => exact hg.chooseStart heq
  | addRules line =>
      rw [Grammar.tryEdit] at heq
      obtain ⟨⟨what, made⟩, hadd, rfl⟩ := exists_of_map_eq_ok heq
      exact hg.addRules hadd
  | removeRule head body =>
      rw [Grammar.tryEdit] at heq
      obtain ⟨⟨r, made⟩, hremove, rfl⟩ := exists_of_map_eq_ok heq
      exact hg.removeRule hremove
  | setLevels text => cases heq; exact hg.setLevels text
  | pruneRules => cases heq; exact hg.pruneRules
  | load s => exact wellFormed_ofSubmission heq

theorem edit (hg : g.WellFormed) (e : Edit) : (g.edit e).WellFormed := by
  unfold Grammar.edit
  split
  · next heq => exact hg.tryEdit heq
  · exact hg

theorem editAll (hg : g.WellFormed) (edits : List Edit) : (g.editAll edits).WellFormed := by
  induction edits generalizing g with
  | nil => exact hg
  | cons e rest ih => exact ih (hg.edit e)

end WellFormed

/-- Whatever was typed and loaded, refused or not, the grammar is well formed. -/
theorem wellFormed_ofEdits (edits : List Edit) : (ofEdits edits).WellFormed :=
  wellFormed_empty.editAll edits

end Grammar

end LinearGrammar
