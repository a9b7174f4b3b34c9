import LinearGrammar.Proofs.AlphabetEdits

/-!
# The start symbol stays until it is removed

Only the start symbol itself is stored, not whether somebody chose it or it was taken because nothing
was chosen. That a choice survives is therefore a law about edits: an edit that does not set the start
symbol leaves it alone as long as it is a nonterminal, and takes the first nonterminal otherwise.
`Passes` is this law for two grammars. Where the nonterminals change it is `refreshStart` that obeys
it. Everywhere else the grammar has to be well formed: a grammar without a start symbol must have no
nonterminal either, or else the first one would have to take the place now.

Over a run the law says that a start symbol is lost in one way only, if no other one is chosen and
no grammar is loaded: by the removal of that very symbol. And it does not come back with the symbol,
because by then the first of the others stands in its place, and an addition leaves that one alone.
-/

namespace LinearGrammar

namespace Edit

/-- Names a start symbol, or puts a grammar with one of its own in the place. -/
def isOfStart : Edit → Bool
  | chooseStart _ | load _ => true
  | _ => false

/-- The symbol that would be chosen. -/
def chosen? : Edit → Option String
  | chooseStart text => some (Text.trim text)
  | _ => none

end Edit

namespace Grammar

/-- Whether an edit sets the start symbol. One that is refused does not. -/
def SetsStart (g : Grammar) (e : Edit) : Prop := e.isOfStart = true ∧ (g.tryEdit e).isOk = true

instance (g : Grammar) (e : Edit) : Decidable (g.SetsStart e) := inferInstanceAs (Decidable (_ ∧ _))

/-- What an edit does that does not set the start symbol. -/
structure Passes (g h : Grammar) : Prop where
  kept : ∀ s, g.start = some s → s ∈ h.nonterminals.symbols → h.start = some s
  first : (∀ s, g.start = some s → s ∉ h.nonterminals.symbols) → h.start = h.nonterminals.first?
  /-- The order is that in which the nonterminals came in: those that stay keep theirs, and new ones
  come behind. -/
  order : ∃ new, (∀ s ∈ new, s ∉ g.nonterminals.symbols) ∧ h.nonterminals.symbols =
    g.nonterminals.symbols.filter (· ∈ h.nonterminals.symbols) ++ new

/-- Neither removes the symbol nor sets another start symbol. -/
def Spares (symbol : String) (g : Grammar) (e : Edit) : Prop :=
  e ≠ .removeNonterminal symbol ∧ (g.SetsStart e → e.chosen? = some symbol)

instance (symbol : String) (g : Grammar) (e : Edit) : Decidable (g.Spares symbol e) :=
  inferInstanceAs (Decidable (_ ∧ _))

/-- The same of edits that are made one after the other. -/
def SparesAll (symbol : String) : Grammar → List Edit → Prop
  | _, [] => True
  | g, e :: rest => g.Spares symbol e ∧ (g.edit e).SparesAll symbol rest

instance decidableSparesAll (symbol : String) :
    (g : Grammar) → (edits : List Edit) → Decidable (g.SparesAll symbol edits)
  | _, [] => isTrue trivial
  | g, e :: rest =>
    have := decidableSparesAll symbol (g.edit e) rest
    inferInstanceAs (Decidable (_ ∧ _))

variable {g h : Grammar} {e : Edit} {symbol : String}

/-! ## One edit -/

/-- Unless it sets the start symbol, an edit leaves it and the nonterminals as they are, or it takes a
nonterminal in or out and then has the start symbol looked at again. -/
theorem tryEdit_start_cases (he : e.isOfStart = false) (heq : g.tryEdit e = .ok h) :
    (h.start = g.start ∧ h.nonterminals = g.nonterminals) ∨
      ∃ a, h = { g with nonterminals := a }.refreshStart ∧
        ((∃ text grew, g.nonterminals.insert g.terminals text = .ok (grew, a)) ∨
          ∃ s, e = .removeNonterminal s ∧ a = g.nonterminals.erase s) := by
  cases e with
  | addTerminal text =>
      rw [tryEdit] at heq
      obtain ⟨⟨grew, made⟩, hadd, rfl⟩ := exists_of_map_eq_ok heq
      obtain ⟨⟨grew, a⟩, -, hmade⟩ := exists_of_map_eq_ok hadd
      cases hmade
      exact .inl ⟨rfl, rfl⟩
  | addNonterminal text =>
      rw [tryEdit] at heq
      obtain ⟨⟨grew, made⟩, hadd, rfl⟩ := exists_of_map_eq_ok heq
      obtain ⟨⟨grew, a⟩, hins, hmade⟩ := exists_of_map_eq_ok hadd
      cases hmade
      exact .inr ⟨a, rfl, .inl ⟨text, grew, hins⟩⟩
  | removeTerminal s => cases heq; exact .inl ⟨rfl, rfl⟩
  | removeNonterminal s => cases heq; exact .inr ⟨_, rfl, .inr ⟨s, rfl, rfl⟩⟩
  | addRules line =>
      rw [tryEdit] at heq
      obtain ⟨⟨what, made⟩, hadd, rfl⟩ := exists_of_map_eq_ok heq
      obtain ⟨parsed, -, hmade⟩ := exists_of_map_eq_ok hadd
      cases hmade
      exact .inl ⟨rfl, rfl⟩
  | removeRule head body =>
      rw [tryEdit] at heq
      obtain ⟨⟨r, made⟩, hremove, rfl⟩ := exists_of_map_eq_ok heq
      simp only [removeRule] at hremove
      split at hremove
      · cases hremove
        exact .inl ⟨rfl, rfl⟩
      · cases hremove
  | setLevels text => cases heq; exact .inl ⟨rfl, rfl⟩
  | pruneRules => cases heq; exact .inl ⟨rfl, rfl⟩
  | chooseStart text => cases he
  | load s => cases he

theorem edit_start_cases (he : ¬ g.SetsStart e) :
    ((g.edit e).start = g.start ∧ (g.edit e).nonterminals = g.nonterminals) ∨
      ∃ a, g.edit e = { g with nonterminals := a }.refreshStart ∧
        ((∃ text grew, g.nonterminals.insert g.terminals text = .ok (grew, a)) ∨
          ∃ s, e = .removeNonterminal s ∧ a = g.nonterminals.erase s) := by
  rw [edit]
  split
  · next made heq =>
      refine tryEdit_start_cases ?_ heq
      rw [← Bool.not_eq_true]
      intro hof
      exact he ⟨hof, by rw [heq]; rfl⟩
  · exact .inl ⟨rfl, rfl⟩

/-! ## What becomes of the start symbol -/

theorem WellFormed.passes_of_same (hg : g.WellFormed) (hstart : h.start = g.start)
    (hN : h.nonterminals = g.nonterminals) : g.Passes h where
  kept := by
    intro s hs _
    rw [hstart, hs]
  first := by
    intro hgone
    -- A start symbol would be a nonterminal still, so there is none.
    have hnone : g.start = none := by
      rw [Option.eq_none_iff_forall_ne_some]
      intro s hs
      exact hgone s hs (hN ▸ hg.start_mem s hs)
    rw [hstart, hN, hnone, Alphabet.first?, hg.start_eq_none_iff.1 hnone]
    rfl
  order := by
    refine ⟨[], by simp, ?_⟩
    rw [hN, List.append_nil, List.filter_eq_self.2]
    intro s hs
    simpa using hs

theorem passes_refreshStart {a : Alphabet} (new : List String)
    (hnew : ∀ s ∈ new, s ∉ g.nonterminals.symbols)
    (ha : a.symbols = g.nonterminals.symbols.filter (· ∈ a.symbols) ++ new) :
    g.Passes { g with nonterminals := a }.refreshStart where
  kept := by
    intro s hs hmem
    rw [nonterminals_refreshStart] at hmem
    rcases start_refreshStart { g with nonterminals := a } with ⟨t, -, ht, hafter⟩ | ⟨hgone, -⟩
    · rw [hafter, ← ht]
      exact hs
    · exact absurd hmem (hgone s hs)
  first := by
    intro hgone
    rw [nonterminals_refreshStart] at hgone ⊢
    rcases start_refreshStart { g with nonterminals := a } with ⟨t, hmem, ht, -⟩ | ⟨-, hafter⟩
    · exact absurd hmem (hgone t ht)
    · exact hafter
  order := by
    rw [nonterminals_refreshStart]
    exact ⟨new, hnew, ha⟩

theorem WellFormed.passes_edit (hg : g.WellFormed) (he : ¬ g.SetsStart e) :
    g.Passes (g.edit e) := by
  rcases edit_start_cases he with ⟨hstart, hN⟩ | ⟨a, hafter, ⟨text, grew, hins⟩ | ⟨s, -, rfl⟩⟩
  · exact hg.passes_of_same hstart hN
  · rw [hafter]
    rcases Alphabet.insert_cases hins with ⟨-, rfl⟩ | ⟨-, -, -, hfresh, rfl⟩
    · refine passes_refreshStart [] (by simp) ?_
      rw [List.append_nil, List.filter_eq_self.2]
      intro s hs
      simpa using hs
    · refine passes_refreshStart [Text.trim text] (by simpa using hfresh) ?_
      rw [List.filter_eq_self.2]
      intro s hs
      simp [hs]
  · rw [hafter]
    refine passes_refreshStart [] (by simp) ?_
    rw [List.append_nil, Alphabet.erase, hg.nonterminals.nodup.erase_eq_filter]
    refine List.filter_congr fun t ht => ?_
    rw [Bool.eq_iff_iff]
    simp [ht]

theorem mem_nonterminals_edit (hsets : ¬ g.SetsStart e) (he : e ≠ .removeNonterminal symbol)
    (hmem : symbol ∈ g.nonterminals.symbols) : symbol ∈ (g.edit e).nonterminals.symbols := by
  rcases edit_start_cases hsets with ⟨-, hN⟩ | ⟨a, hafter, hchange⟩
  · rwa [hN]
  · rw [hafter, nonterminals_refreshStart]
    rcases hchange with ⟨text, grew, hins⟩ | ⟨s, rfl, rfl⟩
    · exact Alphabet.mem_insert_of_mem hins hmem
    · have hne : symbol ≠ s := fun heq => he (by rw [heq])
      exact (List.mem_erase_of_ne hne).2 hmem

/-! ## A run of edits -/

theorem start_of_chooseStart {text : String} (heq : g.chooseStart text = .ok h) :
    h.start = some (Text.trim text) := by
  simp only [chooseStart] at heq
  split at heq
  · cases heq; rfl
  · cases heq

theorem WellFormed.start_edit_of_spares (hg : g.WellFormed) (hstart : g.start = some symbol)
    (he : g.Spares symbol e) : (g.edit e).start = some symbol := by
  obtain ⟨hremoval, hchoice⟩ := he
  by_cases hsets : g.SetsStart e
  · -- It is chosen again.
    have hchosen := hchoice hsets
    cases e with
    | chooseStart text =>
        rw [Grammar.edit]
        split
        · next made heq => exact (start_of_chooseStart heq).trans hchosen
        · exact hstart
    | _ => cases hchosen
  · have hmem := mem_nonterminals_edit hsets hremoval (hg.start_mem symbol hstart)
    exact (hg.passes_edit hsets).kept symbol hstart hmem

theorem WellFormed.start_editAll_of_sparesAll {edits : List Edit} (hg : g.WellFormed)
    (hstart : g.start = some symbol) (h : g.SparesAll symbol edits) :
    (g.editAll edits).start = some symbol := by
  induction edits generalizing g with
  | nil => exact hstart
  | cons e rest ih => exact ih (hg.edit e) (hg.start_edit_of_spares hstart h.1) h.2

/-- A new nonterminal does not take the place of the start symbol. -/
theorem WellFormed.start_addNonterminal (hg : g.WellFormed) (hN : g.nonterminals.symbols ≠ [])
    (text : String) : (g.edit (.addNonterminal text)).start = g.start := by
  obtain ⟨s, hs⟩ := Option.ne_none_iff_exists'.1 (mt hg.start_eq_none_iff.1 hN)
  have hspares : g.Spares s (.addNonterminal text) := by
    refine ⟨nofun, ?_⟩
    rintro ⟨hof, -⟩
    cases hof
  rw [hs]
  exact hg.start_edit_of_spares hs hspares

/-- An edit that does not set the start symbol leaves it where it is as long as it is a nonterminal,
and takes the oldest nonterminal otherwise. So a start symbol that was chosen stays through all edits
that neither choose another one nor load a grammar nor remove this very symbol. Once it is removed it
is no nonterminal, and entering it again beside other nonterminals does not make it the start symbol. -/
theorem start_stays_until_removed (edits : List Edit) :
    (∀ e, ¬ (ofEdits edits).SetsStart e → (ofEdits edits).Passes ((ofEdits edits).edit e)) ∧
    (∀ text g, (ofEdits edits).chooseStart text = .ok g →
      ∀ later, g.SparesAll (Text.trim text) later →
        (g.editAll later).start = some (Text.trim text)) ∧
    (∀ symbol, symbol ∉ ((ofEdits edits).edit (.removeNonterminal symbol)).nonterminals.symbols) ∧
    ∀ text, Text.trim text ∉ (ofEdits edits).nonterminals.symbols →
      (ofEdits edits).nonterminals.symbols ≠ [] →
      ((ofEdits edits).edit (.addNonterminal text)).start = (ofEdits edits).start ∧
        ((ofEdits edits).edit (.addNonterminal text)).start ≠ some (Text.trim text) := by
  have hg : (ofEdits edits).WellFormed := wellFormed_empty.editAll edits
  generalize ofEdits edits = g at hg
  refine ⟨fun e he => hg.passes_edit he, ?_, ?_, ?_⟩
  · intro text h heq later hspares
    exact (hg.chooseStart heq).start_editAll_of_sparesAll (start_of_chooseStart heq) hspares
  · intro symbol
    change symbol ∉ (g.removeNonterminal symbol).nonterminals.symbols
    rw [removeNonterminal, nonterminals_refreshStart]
    exact hg.nonterminals.nodup.not_mem_erase
  · intro text hgone hN
    have hstart := hg.start_addNonterminal hN text
    refine ⟨hstart, ?_⟩
    rw [hstart]
    intro hback
    exact hgone (hg.start_mem _ hback)

def threeNonterminals : List Edit :=
  [.addTerminal "a", .addNonterminal "S", .addNonterminal "A", .addNonterminal "B"]

/-- Edits that could cost `A` its place and do not. Three of them are refused, one removes nothing. -/
def commotion : List Edit :=
  [.removeNonterminal "S", .chooseStart "S", .addNonterminal "a", .addNonterminal "S",
    .load ⟨["b"], ["b"], "", [], ""⟩, .chooseStart "A\t", .addRules "A->aA|a", .removeTerminal "a",
    .pruneRules, .removeNonterminal "A ", .addNonterminal " A"]

theorem start_stays_until_removed_commotion :
    (ofEdits threeNonterminals).Passes ((ofEdits threeNonterminals).edit (.removeNonterminal "S")) ∧
      (∃ g, (ofEdits threeNonterminals).chooseStart " A" = .ok g ∧
        (g.editAll commotion).start = some "A" ∧
        (g.editAll commotion).nonterminals.symbols = ["A", "B", "S"]) ∧
      (ofEdits (threeNonterminals ++ [.chooseStart "A", .removeNonterminal "A"])).start = some "S" ∧
      ((ofEdits (threeNonterminals ++ [.chooseStart "A", .removeNonterminal "A"])).edit
        (.addNonterminal "A")).start = some "S" := by
  obtain ⟨hpasses, hchosen, -, -⟩ := start_stays_until_removed threeNonterminals
  obtain ⟨-, -, -, hback⟩ := start_stays_until_removed
    (threeNonterminals ++ [.chooseStart "A", .removeNonterminal "A"])
  have hchoice : (ofEdits threeNonterminals).chooseStart " A" =
      .ok { ofEdits threeNonterminals with start := some "A" } := by decide +kernel
  have hname : Text.trim " A" = "A" := by decide +kernel
  have hstart : (ofEdits (threeNonterminals ++ [.chooseStart "A", .removeNonterminal "A"])).start =
      some "S" := by decide +kernel
  refine ⟨hpasses _ (by decide +kernel), ⟨_, hchoice, ?_, by decide +kernel⟩, hstart, ?_⟩
  · rw [← hname]
    exact hchosen _ _ hchoice commotion (by decide +kernel)
  · rw [← hstart]
    exact (hback "A" (by decide +kernel) (by decide +kernel)).1

end Grammar

end LinearGrammar
