import LinearGrammar.Proofs.WellFormed

/-!
# Reading a submission is putting it in normal form

A submission comes from a file that anyone may have written, and reading it trims, skips, drops
repetitions, fills in a start symbol and cuts bodies, all in one pass that stops at the first thing
it cannot accept. Here the same is said without following the pass. `Submission.faults` lists what is
wrong with each item for itself, in the order of the fields; `Submission.normalForm` is what is left
when blanks and repetitions are taken away. `ofSubmission_normalises` says that reading fails with
the first fault, and that without one the grammar that is read is written as the normal form.

Two things make this more than bookkeeping. What is wrong with an item depends on what was read
before it: a nonterminal is refused because of a terminal, the start symbol because of the
nonterminals. It does not depend on how they were read, only on their normal form, which is why the
items can be judged one by one. And the body of a rule is cut by the alphabets read so far, while the
normal form only takes its blanks away; the two agree because a cut loses nothing but blanks.
-/

namespace LinearGrammar

/-! ## The normal form -/

namespace Submission

/-- Symbols trimmed, without the blank ones and without later repetitions. -/
def tidy (symbols : List String) : List String :=
  ((symbols.map Text.trim).filter (· ≠ "")).eraseDups

/-- A rule with a trimmed head and a text without blanks. -/
def tidyRule (w : WireRule) : WireRule :=
  ⟨Text.trim w.nonTerminalSymbol, Text.squeeze w.symbolProduced⟩

/-- What a submission comes to. -/
def normalForm (s : Submission) : Submission where
  terminalSymbols := tidy s.terminalSymbols
  nonTerminalSymbols := tidy s.nonTerminalSymbols
  axiomaticSymbol :=
    if s.axiomaticSymbol = "" then (tidy s.nonTerminalSymbols).headD ""
    else Text.trim s.axiomaticSymbol
  productionRules := (s.productionRules.map tidyRule).eraseDups
  levels := Text.squeeze s.levels

/-! ## What can be wrong -/

/-- What is wrong with a symbol, given the symbols of the other kind. -/
def symbolFault? (others : List String) (kind : SymbolKind) (text : String) : Option EditError :=
  if Text.hasBlank (Text.trim text) then some (.blankInSymbol (Text.trim text))
  else if Text.trim text ∈ others then some (.crossMembership (Text.trim text) kind)
  else none

/-- What is wrong with a start symbol, given the nonterminals. An empty one says nothing. -/
def startFault? (nonterminals : List String) (text : String) : Option EditError :=
  if text = "" ∨ Text.trim text ∈ nonterminals then none
  else some (.invalidStart (Text.trim text))

/-- What is wrong with a rule. -/
def ruleFault? (w : WireRule) : Option EditError :=
  if Text.trim w.nonTerminalSymbol = "" then some (.malformedRule ("->" ++ w.symbolProduced))
  else if Text.trim w.symbolProduced = "" then
    some (.emptyAlternative (Text.trim w.nonTerminalSymbol))
  else none

/-- What is wrong with the items of a submission, in order. -/
def faults (s : Submission) : List EditError :=
  s.terminalSymbols.filterMap (symbolFault? [] .nonterminal) ++
    s.nonTerminalSymbols.filterMap (symbolFault? (tidy s.terminalSymbols) .terminal) ++
    (startFault? (tidy s.nonTerminalSymbols) s.axiomaticSymbol).toList ++
    s.productionRules.filterMap ruleFault?

/-- A submission that has a normal form. -/
structure Normalisable (s : Submission) : Prop where
  terminals : ∀ t ∈ s.terminalSymbols, Text.hasBlank (Text.trim t) = false
  nonterminals : ∀ n ∈ s.nonTerminalSymbols, Text.hasBlank (Text.trim n) = false
  disjoint : ∀ n ∈ s.nonTerminalSymbols, Text.trim n ≠ "" →
    ∀ t ∈ s.terminalSymbols, Text.trim n ≠ Text.trim t
  start : s.axiomaticSymbol = "" ∨
    ∃ n ∈ s.nonTerminalSymbols, Text.trim n ≠ "" ∧ Text.trim s.axiomaticSymbol = Text.trim n
  head : ∀ w ∈ s.productionRules, Text.trim w.nonTerminalSymbol ≠ ""
  body : ∀ w ∈ s.productionRules, Text.trim w.symbolProduced ≠ ""

theorem mem_tidy {symbols : List String} {x : String} :
    x ∈ tidy symbols ↔ x ≠ "" ∧ ∃ t ∈ symbols, Text.trim t = x := by
  simp [tidy, and_comm]

theorem empty_not_mem_tidy (symbols : List String) : "" ∉ tidy symbols := fun h =>
  (mem_tidy.1 h).1 rfl

theorem eraseDups_concat {α : Type} [DecidableEq α] (l : List α) (a : α) :
    (l ++ [a]).eraseDups = if a ∈ l then l.eraseDups else l.eraseDups ++ [a] := by
  rw [List.eraseDups_append]
  by_cases h : a ∈ l <;> simp [List.removeAll, List.eraseDups_cons, h]

theorem tidy_concat (symbols : List String) (text : String) :
    tidy (symbols ++ [text]) =
      if Text.trim text = "" ∨ Text.trim text ∈ tidy symbols then tidy symbols
      else tidy symbols ++ [Text.trim text] := by
  by_cases hempty : Text.trim text = ""
  · simp [tidy, hempty]
  · have hlast : ([text].map Text.trim).filter (· ≠ "") = [Text.trim text] := by simp [hempty]
    rw [tidy, List.map_append, List.filter_append, hlast, eraseDups_concat]
    simp only [tidy, List.mem_eraseDups, hempty, false_or]

theorem symbolFault?_eq_none_iff {others : List String} {kind : SymbolKind} {text : String} :
    symbolFault? others kind text = none ↔
      Text.hasBlank (Text.trim text) = false ∧ Text.trim text ∉ others := by
  unfold symbolFault?
  split
  · next hblank => simp [hblank]
  · next hblank => simpa using fun _ => Bool.eq_false_iff.2 hblank

theorem startFault?_eq_none_iff {nonterminals : List String} {text : String} :
    startFault? nonterminals text = none ↔ text = "" ∨ Text.trim text ∈ nonterminals := by
  simp [startFault?, Classical.or_iff_not_imp_left]

theorem ruleFault?_eq_none_iff {w : WireRule} :
    ruleFault? w = none ↔ Text.trim w.nonTerminalSymbol ≠ "" ∧ Text.trim w.symbolProduced ≠ "" := by
  unfold ruleFault?
  split
  · next hhead => simp [hhead]
  · next hhead => simpa using fun _ => hhead

theorem head?_faults (s : Submission) :
    s.faults.head? =
      (s.terminalSymbols.findSome? (symbolFault? [] .nonterminal)).or
        ((s.nonTerminalSymbols.findSome? (symbolFault? (tidy s.terminalSymbols) .terminal)).or
          ((startFault? (tidy s.nonTerminalSymbols) s.axiomaticSymbol).or
            ((s.productionRules.findSome? ruleFault?).or none))) := by
  simp only [faults, List.head?_append, List.head?_filterMap, Option.head?_toList, Option.or_assoc,
    Option.or_none]

/-- A submission has a normal form when nothing is wrong with any of its items. -/
theorem faults_eq_nil_iff {s : Submission} : s.faults = [] ↔ s.Normalisable := by
  have hdisjoint : ∀ n, Text.trim n ∉ tidy s.terminalSymbols ↔
      (Text.trim n ≠ "" → ∀ t ∈ s.terminalSymbols, Text.trim n ≠ Text.trim t) := by
    intro n
    simp only [mem_tidy, not_and, not_exists, ne_eq, eq_comm]
  have hstart : Text.trim s.axiomaticSymbol ∈ tidy s.nonTerminalSymbols ↔
      ∃ n ∈ s.nonTerminalSymbols, Text.trim n ≠ "" ∧ Text.trim s.axiomaticSymbol = Text.trim n := by
    rw [mem_tidy]
    constructor
    · rintro ⟨hne, n, hn, heq⟩
      exact ⟨n, hn, heq ▸ hne, heq.symm⟩
    · rintro ⟨n, hn, hne, heq⟩
      exact ⟨heq ▸ hne, n, hn, heq.symm⟩
  simp only [faults, List.append_eq_nil_iff, List.filterMap_eq_nil_iff, symbolFault?_eq_none_iff,
    Option.toList_eq_nil_iff, startFault?_eq_none_iff, ruleFault?_eq_none_iff, hdisjoint, hstart]
  constructor
  · rintro ⟨⟨⟨hT, hN⟩, hS⟩, hR⟩
    exact ⟨fun t ht => (hT t ht).1, fun n hn => (hN n hn).1, fun n hn => (hN n hn).2, hS,
      fun w hw => (hR w hw).1, fun w hw => (hR w hw).2⟩
  · intro h
    exact ⟨⟨⟨fun t ht => ⟨h.terminals t ht, List.not_mem_nil⟩,
      fun n hn => ⟨h.nonterminals n hn, h.disjoint n hn⟩⟩, h.start⟩,
      fun w hw => ⟨h.head w hw, h.body w hw⟩⟩

end Submission

/-! ## Reading with a verdict -/

/-- The result is the fault, or where there is none something of the described kind. -/
inductive Reads {α : Type} (described : α → Prop) :
    Option EditError → Except EditError α → Prop
  | refused (e : EditError) : Reads described (some e) (.error e)
  | accepted {a : α} (h : described a) : Reads described none (.ok a)

namespace Reads

variable {α β : Type} {fault next : Option EditError} {result : Except EditError α}
  {p : α → Prop} {q : β → Prop}

theorem bind {k : α → Except EditError β} (h : Reads p fault result)
    (hk : ∀ a, result = .ok a → p a → Reads q next (k a)) :
    Reads q (fault.or next) (result >>= k) := by
  cases h with
  | refused e => exact .refused e
  | accepted ha => exact hk _ rfl ha

theorem map {f : α → β} (h : Reads p fault result) (hf : ∀ a, p a → q (f a)) :
    Reads q fault (result.map f) := by
  cases h with
  | refused e => exact .refused e
  | accepted ha => exact .accepted (hf _ ha)

end Reads

theorem findSome?_cons_or {α β : Type} (f : α → Option β) (a : α) (l : List α) :
    (a :: l).findSome? f = (f a).or (l.findSome? f) := by
  rw [List.findSome?_cons]
  cases f a <;> rfl

open Submission (tidy tidyRule symbolFault? startFault? ruleFault?)

/-! ## Symbols -/

/-- A tidy alphabet takes a symbol in and is tidy with it, unless something is wrong with it. -/
theorem Alphabet.insert_tidy {kind : SymbolKind} (symbols : List String) {other : Alphabet}
    (hother : "" ∉ other.symbols) (text : String) :
    Reads (fun r : Bool × Alphabet => r.2 = ⟨kind, tidy (symbols ++ [text])⟩)
      (symbolFault? other.symbols other.kind text) ((Alphabet.mk kind (tidy symbols)).insert other text) := by
  simp only [insert, symbolFault?, contains, List.contains_eq_mem, decide_eq_true_eq,
    String.isEmpty_iff, Submission.tidy_concat]
  generalize Text.trim text = symbol
  rcases Classical.em (symbol = "") with rfl | hempty
  · have hblank : ¬ Text.hasBlank "" = true := by decide
    rw [if_neg hblank, if_neg hother, if_pos rfl, if_pos (.inl rfl)]
    exact .accepted rfl
  · rw [if_neg hempty]
    by_cases hblank : Text.hasBlank symbol = true
    · rw [if_pos hblank, if_pos hblank]
      exact .refused _
    · rw [if_neg hblank, if_neg hblank]
      by_cases hcross : symbol ∈ other.symbols
      · rw [if_pos hcross, if_pos hcross]
        exact .refused _
      · rw [if_neg hcross, if_neg hcross]
        by_cases hmem : symbol ∈ tidy symbols
        · rw [if_pos hmem, if_pos (Or.inr hmem)]
          exact .accepted rfl
        · rw [if_neg hmem, if_neg (not_or.2 ⟨hempty, hmem⟩)]
          exact .accepted rfl

namespace Grammar

variable {g : Grammar}

theorem addTerminals_cons (symbol : String) (rest : List String) (g : Grammar) :
    addTerminals (symbol :: rest) g =
      g.addTerminal symbol >>= fun r => addTerminals rest r.2 := by
  rw [addTerminals]
  cases g.addTerminal symbol <;> rfl

theorem addNonterminals_cons (symbol : String) (rest : List String) (g : Grammar) :
    addNonterminals (symbol :: rest) g =
      g.addNonterminal symbol >>= fun r => addNonterminals rest r.2 := by
  rw [addNonterminals]
  cases g.addNonterminal symbol <;> rfl

theorem addTerminal_reads {fault : Option EditError} {a : Alphabet} {text : String}
    (h : Reads (fun r : Bool × Alphabet => r.2 = a) fault
      (g.terminals.insert g.nonterminals text)) :
    Reads (fun r : Bool × Grammar => r.2 = { g with terminals := a }) fault
      (g.addTerminal text) := by
  refine h.map ?_
  rintro ⟨grew, b⟩ rfl
  rfl

theorem addNonterminal_reads {fault : Option EditError} {a : Alphabet} {text : String}
    (h : Reads (fun r : Bool × Alphabet => r.2 = a) fault
      (g.nonterminals.insert g.terminals text)) :
    Reads (fun r : Bool × Grammar => r.2 = { g with nonterminals := a }.refreshStart) fault
      (g.addNonterminal text) := by
  refine h.map ?_
  rintro ⟨grew, b⟩ rfl
  rfl

theorem addTerminals_tidy (before symbols : List String) (hother : "" ∉ g.nonterminals.symbols) :
    Reads (· = { g with terminals := ⟨.terminal, tidy (before ++ symbols)⟩ })
      (symbols.findSome? (symbolFault? g.nonterminals.symbols g.nonterminals.kind))
      (addTerminals symbols { g with terminals := ⟨.terminal, tidy before⟩ }) := by
  induction symbols generalizing before with
  | nil => exact .accepted (by rw [List.append_nil])
  | cons symbol rest ih =>
      rw [findSome?_cons_or, addTerminals_cons, List.append_cons]
      have hadd := addTerminal_reads (g := { g with terminals := ⟨.terminal, tidy before⟩ })
        (Alphabet.insert_tidy before hother symbol)
      refine hadd.bind fun r _ hr => ?_
      rw [hr]
      exact ih (before ++ [symbol])

/-- While the start symbol is the first nonterminal, it stays the first one when more come in. -/
theorem refreshStart_of_prefix {first more : List String} (hstart : g.start = first.head?)
    (hsymbols : g.nonterminals.symbols = first ++ more) :
    g.refreshStart = { g with start := g.nonterminals.symbols.head? } := by
  unfold refreshStart
  cases first with
  | nil =>
      rw [hstart]
      rfl
  | cons s rest =>
      have hmem : g.nonterminals.contains s = true :=
        Alphabet.contains_iff_mem.2 (by rw [hsymbols]; exact List.mem_cons_self)
      rw [if_pos (by rw [hstart]; exact hmem), hsymbols, List.cons_append, List.head?_cons]
      exact congrArg (fun start => { g with start := start }) hstart

theorem exists_tidy_concat_eq_append (symbols : List String) (text : String) :
    ∃ more, tidy (symbols ++ [text]) = tidy symbols ++ more := by
  rw [Submission.tidy_concat]
  split
  · exact ⟨[], (List.append_nil _).symm⟩
  · exact ⟨_, rfl⟩

theorem addNonterminals_tidy (before symbols : List String) (hother : "" ∉ g.terminals.symbols) :
    Reads (· = { g with
        nonterminals := ⟨.nonterminal, tidy (before ++ symbols)⟩
        start := (tidy (before ++ symbols)).head? })
      (symbols.findSome? (symbolFault? g.terminals.symbols g.terminals.kind))
      (addNonterminals symbols { g with
        nonterminals := ⟨.nonterminal, tidy before⟩, start := (tidy before).head? }) := by
  induction symbols generalizing before with
  | nil => exact .accepted (by rw [List.append_nil])
  | cons symbol rest ih =>
      rw [findSome?_cons_or, addNonterminals_cons, List.append_cons]
      have hadd := addNonterminal_reads
        (g := { g with nonterminals := ⟨.nonterminal, tidy before⟩, start := (tidy before).head? })
        (Alphabet.insert_tidy before hother symbol)
      obtain ⟨more, hmore⟩ := exists_tidy_concat_eq_append before symbol
      refine hadd.bind fun r _ hr => ?_
      rw [hr, refreshStart_of_prefix rfl hmore]
      exact ih (before ++ [symbol])

/-! ## The start symbol and the rules -/

theorem readStart_reads (text : String) (g : Grammar) :
    Reads (· = { g with start := if text = "" then g.start else some (Text.trim text) })
      (startFault? g.nonterminals.symbols text) (readStart text g) := by
  unfold readStart chooseStart startFault?
  by_cases hempty : text = ""
  · subst hempty
    exact .accepted rfl
  · have hisEmpty : ¬ text.isEmpty = true := fun h => hempty (String.isEmpty_iff.1 h)
    rw [if_neg hisEmpty]
    by_cases hmem : Text.trim text ∈ g.nonterminals.symbols
    · rw [if_neg hempty, if_pos (Or.inr hmem)]
      simp only [Alphabet.contains_iff_mem, hmem, if_true]
      exact .accepted rfl
    · rw [if_neg (not_or.2 ⟨hempty, hmem⟩)]
      simp only [Alphabet.contains_iff_mem, hmem, if_false]
      exact .refused _

/-- Storing a rule is adding its wire form, unless it is there. -/
theorem map_toWire_storeRule (g : Grammar) (r : Rule) :
    (g.storeRule r).rules.map Rule.toWire =
      if r.toWire ∈ g.rules.map Rule.toWire then g.rules.map Rule.toWire
      else g.rules.map Rule.toWire ++ [r.toWire] := by
  have hamong : r.isAmong g.rules = true ↔ r.toWire ∈ g.rules.map Rule.toWire := by
    simp only [Rule.isAmong, List.any_eq_true, Rule.isSame_iff, List.mem_map, Rule.toWire,
      WireRule.mk.injEq]
    exact exists_congr fun s => and_congr_right fun _ => and_congr eq_comm eq_comm
  unfold storeRule
  by_cases h : r.isAmong g.rules = true
  · rw [if_pos h, if_pos (hamong.1 h)]
  · rw [if_neg h, if_neg fun hmem => h (hamong.2 hmem), List.map_append, List.map_singleton]

theorem storeRule_eq (g : Grammar) (r : Rule) :
    g.storeRule r = { g with rules := (g.storeRule r).rules } := by
  unfold storeRule
  split <;> rfl

section Rules

variable (hT : ∀ s ∈ g.terminals.symbols, Text.IsSymbol s)
  (hN : ∀ s ∈ g.nonterminals.symbols, Text.IsSymbol s)

include hT hN

theorem readRule_reads (w : WireRule) :
    Reads (fun r => r.toWire = tidyRule w) (ruleFault? w) (g.readRule w) := by
  have hjoin := Body.join_symbols hT hN w.symbolProduced
  have hsymbol := Body.isSymbol_of_mem_symbols hT hN w.symbolProduced
  have hempty : Body.symbols g.terminals g.nonterminals w.symbolProduced = [] ↔
      Text.trim w.symbolProduced = "" := by
    rw [← Text.squeeze_eq_empty_iff, ← hjoin]
    exact ⟨fun h => by rw [h]; rfl, Body.eq_nil_of_join_eq hsymbol⟩
  simp only [readRule, ruleFault?, String.isEmpty_iff, List.isEmpty_iff, hempty]
  split
  · exact .refused _
  · split
    · exact .refused _
    · exact .accepted (congrArg (WireRule.mk _) hjoin)

theorem readRules_reads (before wires : List WireRule)
    (hbefore : g.rules.map Rule.toWire = (before.map tidyRule).eraseDups) :
    Reads (fun h => ∃ rules, h = { g with rules := rules } ∧
        rules.map Rule.toWire = ((before ++ wires).map tidyRule).eraseDups)
      (wires.findSome? ruleFault?) (readRules wires g) := by
  induction wires generalizing g before with
  | nil => exact .accepted ⟨g.rules, rfl, by rw [List.append_nil, hbefore]⟩
  | cons w rest ih =>
      have hcons : readRules (w :: rest) g =
          g.readRule w >>= fun r => readRules rest (g.storeRule r) := by
        rw [readRules]
        cases g.readRule w <;> rfl
      rw [findSome?_cons_or, hcons, List.append_cons]
      refine (readRule_reads hT hN w).bind fun r _ hr => ?_
      have hstored : (g.storeRule r).rules.map Rule.toWire =
          ((before ++ [w]).map tidyRule).eraseDups := by
        rw [map_toWire_storeRule, hr, hbefore, List.map_append, List.map_singleton,
          Submission.eraseDups_concat]
        simp only [List.mem_eraseDups]
      rw [storeRule_eq]
      exact ih (g := { g with rules := (g.storeRule r).rules }) hT hN (before ++ [w]) hstored

end Rules

/-! ## The whole submission -/

theorem ofSubmission_reads (s : Submission) :
    Reads (fun g => g.snapshot = s.normalForm) s.faults.head? (ofSubmission s) := by
  let g₁ : Grammar := { empty with terminals := ⟨.terminal, tidy s.terminalSymbols⟩ }
  let g₂ : Grammar := { g₁ with
    nonterminals := ⟨.nonterminal, tidy s.nonTerminalSymbols⟩
    start := (tidy s.nonTerminalSymbols).head? }
  have h₁ : Reads (· = g₁) (s.terminalSymbols.findSome? (symbolFault? [] .nonterminal))
      (addTerminals s.terminalSymbols empty) :=
    addTerminals_tidy (g := empty) [] s.terminalSymbols List.not_mem_nil
  have h₂ : Reads (· = g₂)
      (s.nonTerminalSymbols.findSome? (symbolFault? (tidy s.terminalSymbols) .terminal))
      (addNonterminals s.nonTerminalSymbols g₁) :=
    addNonterminals_tidy (g := g₁) [] s.nonTerminalSymbols (Submission.empty_not_mem_tidy _)
  rw [Submission.head?_faults, ofSubmission]
  refine h₁.bind fun g hok₁ heq => ?_
  subst heq
  refine h₂.bind fun g hok₂ heq => ?_
  subst heq
  refine (readStart_reads s.axiomaticSymbol g₂).bind fun g₃ hok₃ heq => ?_
  have hg₃ : g₃.WellFormed :=
    ((wellFormed_empty.addTerminals hok₁).addNonterminals hok₂).readStart hok₃
  refine (readRules_reads hg₃.terminals.isSymbol hg₃.nonterminals.isSymbol [] s.productionRules
    (by rw [heq]; rfl)).bind fun g₄ _ hg₄ => ?_
  obtain ⟨rules, rfl, hrules⟩ := hg₄
  refine .accepted ?_
  have hstart : g₃.start.getD "" = s.normalForm.axiomaticSymbol := by
    rw [heq, Submission.normalForm, List.headD_eq_head?_getD]
    dsimp only
    split <;> rfl
  calc ({ g₃ with rules := rules }.setLevels s.levels).snapshot
      = ⟨g₃.terminals.symbols, g₃.nonterminals.symbols, g₃.start.getD "",
          rules.map Rule.toWire, Text.squeeze s.levels⟩ := rfl
    _ = s.normalForm := by rw [hrules, hstart, heq]; rfl

/-- Reading succeeds exactly on the submissions that have a normal form, the grammar that is read is
written as the normal form, and reading fails with what is wrong with the first bad item. -/
theorem ofSubmission_normalises (s : Submission) :
    ((∃ g, ofSubmission s = .ok g) ↔ s.Normalisable) ∧
      (∀ g, ofSubmission s = .ok g → g.snapshot = s.normalForm) ∧
      ∀ e, ofSubmission s = .error e ↔ s.faults.head? = some e := by
  have hreads := ofSubmission_reads s
  rw [← Submission.faults_eq_nil_iff, ← List.head?_eq_none_iff]
  generalize ofSubmission s = result, s.faults.head? = fault at hreads ⊢
  cases hreads with
  | refused e =>
      refine ⟨⟨nofun, nofun⟩, nofun, fun e' => ?_⟩
      rw [Except.error.injEq, Option.some.injEq]
  | accepted hg =>
      exact ⟨⟨fun _ => rfl, fun _ => ⟨_, rfl⟩⟩, fun h hh => Except.ok.inj hh ▸ hg,
        fun e => ⟨nofun, nofun⟩⟩

end Grammar

end LinearGrammar
