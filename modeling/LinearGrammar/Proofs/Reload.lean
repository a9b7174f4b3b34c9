import Mathlib.Data.List.Nodup
import LinearGrammar.Proofs.JsonReading
import LinearGrammar.Proofs.WellFormed

/-!
# What a saved grammar comes back as

A saved file holds the symbols, the start symbol, the rules by head and text, and the depth. Of a
well-formed grammar that is all there is, except for one thing: how the text of a body was cut into
symbols. Loading cuts it anew, against the alphabets as they are saved, so what comes back is
`reloaded`, the same grammar with every body cut afresh. `ofSubmission_snapshot` says that it does
come back, and every other statement here is a reading of it.

The grammar is the same in the sense of `isSame`, which looks at texts. Its rules need not be valid
when they were before, nor invalid when they were not: a body that was typed with blanks between its
symbols, or under other alphabets, may be cut into other symbols when it is read again.
-/

namespace LinearGrammar

open Text (IsSymbol)

/-! ## Entering what is clean already -/

namespace Alphabet

/-- The alphabet with more symbols at its end. -/
def extend (a : Alphabet) (symbols : List String) : Alphabet := ⟨a.kind, a.symbols ++ symbols⟩

theorem extend_nil (a : Alphabet) : a.extend [] = a := by
  rw [extend, List.append_nil]

theorem extend_extend (a : Alphabet) (s : String) (rest : List String) :
    (a.extend [s]).extend rest = a.extend (s :: rest) := by
  rw [extend, extend, extend, List.append_assoc, List.singleton_append]

theorem extend_empty {a : Alphabet} {kind : SymbolKind} (h : a.kind = kind) :
    (empty kind).extend a.symbols = a := by
  subst h
  rfl

/-- A symbol that neither alphabet has comes in as it is. -/
theorem insert_of_fresh {a other : Alphabet} {s : String} (hs : IsSymbol s)
    (hother : s ∉ other.symbols) (hnew : s ∉ a.symbols) :
    a.insert other s = .ok (true, a.extend [s]) := by
  have htrim : Text.trim s = s := Text.trim_of_hasBlank hs.2
  simp only [insert, htrim]
  rw [if_neg fun he => hs.1 (String.isEmpty_iff.1 he), if_neg (by rw [hs.2]; decide),
    if_neg fun hm => hother (contains_iff_mem.1 hm), if_neg fun hm => hnew (contains_iff_mem.1 hm)]
  rfl

end Alphabet

namespace Grammar

theorem addTerminals_of_fresh {symbols : List String} {g : Grammar}
    (hsymbols : ∀ s ∈ symbols, IsSymbol s) (hnodup : (g.terminals.symbols ++ symbols).Nodup)
    (hother : ∀ s ∈ symbols, s ∉ g.nonterminals.symbols) :
    addTerminals symbols g = .ok { g with terminals := g.terminals.extend symbols } := by
  induction symbols generalizing g with
  | nil => rw [addTerminals, Alphabet.extend_nil]
  | cons s rest ih =>
      have hnew : s ∉ g.terminals.symbols := fun hmem =>
        (List.nodup_append.1 hnodup).2.2 s hmem s List.mem_cons_self rfl
      have hadd : g.addTerminal s =
          .ok (true, { g with terminals := g.terminals.extend [s] }) := by
        rw [addTerminal, Alphabet.insert_of_fresh (hsymbols s List.mem_cons_self)
          (hother s List.mem_cons_self) hnew]
        rfl
      rw [List.append_cons] at hnodup
      rw [addTerminals, hadd, ← Alphabet.extend_extend g.terminals s rest]
      exact ih (g := { g with terminals := g.terminals.extend [s] })
        (fun t ht => hsymbols t (List.mem_cons_of_mem s ht)) hnodup
        fun t ht => hother t (List.mem_cons_of_mem s ht)

/-- Behind other symbols a symbol leaves the first one the start symbol. -/
theorem refreshStart_extend {g : Grammar} (hstart : g.start = g.nonterminals.first?)
    (s : String) :
    { g with nonterminals := g.nonterminals.extend [s] }.refreshStart =
      { g with
        nonterminals := g.nonterminals.extend [s]
        start := (g.nonterminals.extend [s]).first? } := by
  obtain ⟨terminals, ⟨kind, symbols⟩, start, rules, levels⟩ := g
  dsimp only at hstart
  subst hstart
  cases symbols with
  | nil => rfl
  | cons first rest =>
      unfold refreshStart
      rw [if_pos]
      · rfl
      · exact Alphabet.contains_iff_mem.2 (List.mem_append_left [s] List.mem_cons_self)

theorem addNonterminals_of_fresh {symbols : List String} {g : Grammar}
    (hstart : g.start = g.nonterminals.first?) (hsymbols : ∀ s ∈ symbols, IsSymbol s)
    (hnodup : (g.nonterminals.symbols ++ symbols).Nodup)
    (hother : ∀ s ∈ symbols, s ∉ g.terminals.symbols) :
    addNonterminals symbols g =
      .ok { g with
        nonterminals := g.nonterminals.extend symbols
        start := (g.nonterminals.extend symbols).first? } := by
  induction symbols generalizing g with
  | nil => rw [addNonterminals, Alphabet.extend_nil, ← hstart]
  | cons s rest ih =>
      have hnew : s ∉ g.nonterminals.symbols := fun hmem =>
        (List.nodup_append.1 hnodup).2.2 s hmem s List.mem_cons_self rfl
      have hadd : g.addNonterminal s =
          .ok (true, { g with
            nonterminals := g.nonterminals.extend [s]
            start := (g.nonterminals.extend [s]).first? }) := by
        rw [addNonterminal, Alphabet.insert_of_fresh (hsymbols s List.mem_cons_self)
          (hother s List.mem_cons_self) hnew, ← refreshStart_extend hstart]
        rfl
      rw [List.append_cons] at hnodup
      rw [addNonterminals, hadd, ← Alphabet.extend_extend g.nonterminals s rest]
      exact ih (g := { g with
          nonterminals := g.nonterminals.extend [s]
          start := (g.nonterminals.extend [s]).first? }) rfl
        (fun t ht => hsymbols t (List.mem_cons_of_mem s ht)) hnodup
        fun t ht => hother t (List.mem_cons_of_mem s ht)

theorem readStart_getD {g : Grammar} {start : Option String}
    (hnone : start = none → g.start = none)
    (hsome : ∀ s, start = some s → s ∈ g.nonterminals.symbols ∧ IsSymbol s) :
    readStart (start.getD "") g = .ok { g with start := start } := by
  cases start with
  | none =>
      have hstart := hnone rfl
      obtain ⟨terminals, nonterminals, start, rules, levels⟩ := g
      cases hstart
      rfl
  | some s =>
      obtain ⟨hmem, hs⟩ := hsome s rfl
      have htrim : Text.trim s = s := Text.trim_of_hasBlank hs.2
      rw [Option.getD_some, readStart, if_neg fun he => hs.1 (String.isEmpty_iff.1 he),
        chooseStart, htrim]
      exact if_pos (Alphabet.contains_iff_mem.2 hmem)

end Grammar

/-! ## Cutting a body afresh -/

theorem Rule.hasBlank_text {r : Rule} (hr : r.WellFormed) : Text.hasBlank r.text = false := by
  rw [Text.hasBlank_eq_false_iff, Rule.text, String.toList_join]
  intro c hc
  obtain ⟨s, hs, hc⟩ := List.mem_flatMap.1 hc
  exact Text.hasBlank_eq_false_iff.1 (hr.isSymbol s hs).2 c hc

theorem Rule.text_ne_empty {r : Rule} (hr : r.WellFormed) : r.text ≠ "" := fun h =>
  hr.body_ne_nil (Body.eq_nil_of_join_eq hr.isSymbol h)

namespace Grammar

variable {g : Grammar} {r : Rule}

/-- The rule as its text is cut by the alphabets as they are now. -/
def recut (g : Grammar) (r : Rule) : Rule :=
  ⟨r.head, Body.symbols g.terminals g.nonterminals r.text⟩

/-- The grammar with every body cut afresh. -/
def reloaded (g : Grammar) : Grammar := { g with rules := g.rules.map g.recut }

theorem text_recut (hT : g.terminals.WellFormed) (hN : g.nonterminals.WellFormed)
    (hr : r.WellFormed) : (g.recut r).text = r.text := by
  rw [recut, Rule.text, Body.join_symbols hT.isSymbol hN.isSymbol,
    Text.squeeze_of_hasBlank (Rule.hasBlank_text hr)]

theorem identity_recut (hT : g.terminals.WellFormed) (hN : g.nonterminals.WellFormed)
    (hr : r.WellFormed) : (g.recut r).identity = r.identity :=
  congrArg (Prod.mk r.head) (text_recut hT hN hr)

/-- A rule that is written and read is the rule cut afresh. -/
theorem readRule_toWire (hT : g.terminals.WellFormed) (hN : g.nonterminals.WellFormed)
    (hr : r.WellFormed) : g.readRule r.toWire = .ok (g.recut r) := by
  have hbody : ¬ (g.recut r).body.isEmpty = true := by
    intro hempty
    refine Rule.text_ne_empty hr ?_
    rw [← text_recut hT hN hr, Rule.text, List.isEmpty_iff.1 hempty]
    rfl
  simp only [readRule, Rule.toWire, hr.trim_head]
  rw [if_neg fun he => hr.head_ne_empty (String.isEmpty_iff.1 he)]
  exact if_neg hbody

theorem readRules_toWire {rules : List Rule} {g : Grammar} (hT : g.terminals.WellFormed)
    (hN : g.nonterminals.WellFormed) (hrules : ∀ r ∈ rules, r.WellFormed)
    (hnodup : ((g.rules ++ rules).map Rule.identity).Nodup) :
    readRules (rules.map Rule.toWire) g =
      .ok { g with rules := g.rules ++ rules.map g.recut } := by
  induction rules generalizing g with
  | nil => rw [List.map_nil, readRules, List.map_nil, List.append_nil]
  | cons r rest ih =>
      have hr := hrules r List.mem_cons_self
      have hid := identity_recut hT hN hr
      have hnew : (g.recut r).isAmong g.rules = false := by
        rw [Bool.eq_false_iff, Ne, Rule.isAmong_iff, hid]
        rw [List.map_append, List.map_cons, List.nodup_append] at hnodup
        exact fun hmem => hnodup.2.2 _ hmem _ List.mem_cons_self rfl
      have hstore : g.storeRule (g.recut r) = { g with rules := g.rules ++ [g.recut r] } :=
        if_neg (by rw [hnew]; decide)
      have hrest := ih (g := { g with rules := g.rules ++ [g.recut r] }) hT hN
        (fun s hs => hrules s (List.mem_cons_of_mem r hs))
        (by simpa [List.map_append, hid] using hnodup)
      rw [List.map_cons, readRules, readRule_toWire hT hN hr, List.map_cons, List.append_cons]
      simp only [hstore]
      exact hrest

/-- A well-formed grammar is read from its snapshot with its bodies cut afresh. -/
theorem ofSubmission_snapshot (hg : g.WellFormed) : ofSubmission g.snapshot = .ok g.reloaded := by
  have h₁ : addTerminals g.terminals.symbols empty =
      .ok ⟨g.terminals, .empty .nonterminal, none, [], ""⟩ := by
    have h := addTerminals_of_fresh (g := empty) hg.terminals.isSymbol hg.terminals.nodup
      fun s _ => List.not_mem_nil
    dsimp only [empty] at h
    rwa [Alphabet.extend_empty hg.terminals_kind] at h
  have h₂ : addNonterminals g.nonterminals.symbols ⟨g.terminals, .empty .nonterminal, none, [], ""⟩ =
      .ok ⟨g.terminals, g.nonterminals, g.nonterminals.first?, [], ""⟩ := by
    have h := addNonterminals_of_fresh
      (g := ⟨g.terminals, .empty .nonterminal, none, [], ""⟩) rfl
      hg.nonterminals.isSymbol hg.nonterminals.nodup fun s hs hmem => hg.disjoint s hmem hs
    dsimp only at h
    rwa [Alphabet.extend_empty hg.nonterminals_kind] at h
  have h₃ : readStart (g.start.getD "")
      ⟨g.terminals, g.nonterminals, g.nonterminals.first?, [], ""⟩ =
        .ok ⟨g.terminals, g.nonterminals, g.start, [], ""⟩ := by
    refine readStart_getD (fun hnone => ?_) fun s hs => ?_
    · exact List.head?_eq_none_iff.2 (hg.start_eq_none_iff.1 hnone)
    · exact ⟨hg.start_mem s hs, hg.nonterminals.isSymbol s (hg.start_mem s hs)⟩
  have h₄ : readRules (g.rules.map Rule.toWire) ⟨g.terminals, g.nonterminals, g.start, [], ""⟩ =
      .ok ⟨g.terminals, g.nonterminals, g.start, g.rules.map g.recut, ""⟩ :=
    readRules_toWire hg.terminals hg.nonterminals hg.rules hg.nodup_identity
  refine ofSubmission_eq_ok_iff.2 ⟨_, _, _, _, h₁, h₂, h₃, h₄, ?_⟩
  simp only [setLevels, snapshot, Text.squeeze_of_hasBlank hg.levels]
  rfl

/-! ## Sameness -/

theorem isSame_reloaded (hg : g.WellFormed) : g.isSame g.reloaded = true := by
  have hrules : g.reloaded.rules.map Rule.identity = g.rules.map Rule.identity := by
    rw [reloaded, List.map_map]
    exact List.map_congr_left fun r hr =>
      identity_recut hg.terminals hg.nonterminals (hg.rules r hr)
  rw [isSame, hrules]
  simp only [reloaded, beq_self_eq_true, Bool.and_self]

/-- Whatever the edits were, the text of the saved grammar is read as the snapshot that was saved,
the snapshot is accepted, and the grammar that comes of it is the same. -/
theorem reload_isSame (edits : List Edit) :
    Json.readText Submission.read (ofEdits edits).snapshot.toJson.pretty =
        .ok (ofEdits edits).snapshot ∧
      ∃ h, ofSubmission (ofEdits edits).snapshot = .ok h ∧ (ofEdits edits).isSame h = true := by
  have hg : (ofEdits edits).WellFormed := wellFormed_empty.editAll edits
  refine ⟨?_, (ofEdits edits).reloaded, ofSubmission_snapshot hg, isSame_reloaded hg⟩
  rw [Json.readText_pretty _ (Submission.isLegible_toJson _), Submission.read_ofJson]

/-! ## Validity -/

/-- What identifies the rules that are reported as invalid, in order. -/
def invalidIdentities (g : Grammar) : List (String × String) :=
  g.invalidRules.map fun (r, _) => r.identity

theorem invalidIdentities_eq (g : Grammar) :
    g.invalidIdentities = (g.rules.filter (!g.isValid ·)).map Rule.identity := by
  have h := congrArg (List.map Rule.identity)
    (Rule.map_fst_invalid g.terminals g.nonterminals g.rules)
  rw [List.map_map] at h
  exact h

theorem invalidIdentities_reloaded (hg : g.WellFormed) :
    g.reloaded.invalidIdentities =
      (g.rules.filter fun r => !g.isValid (g.recut r)).map Rule.identity := by
  rw [invalidIdentities_eq]
  change ((g.rules.map g.recut).filter (!g.isValid ·)).map Rule.identity = _
  rw [List.filter_map, List.map_map]
  exact List.map_congr_left fun r hr =>
    identity_recut hg.terminals hg.nonterminals (hg.rules r (List.mem_filter.1 hr).1)

/-- Where the images are all different, choosing the same images is choosing the same elements. -/
theorem map_filter_eq_map_filter_iff {α β : Type} {f : α → β} {p q : α → Bool} {l : List α}
    (hl : (l.map f).Nodup) :
    (l.filter p).map f = (l.filter q).map f ↔ ∀ a ∈ l, p a = q a := by
  have himp : ∀ {p q : α → Bool}, (l.filter p).map f = (l.filter q).map f →
      ∀ a ∈ l, p a = true → q a = true := by
    intro p q h a ha hp
    have hmem : f a ∈ (l.filter q).map f :=
      h ▸ List.mem_map_of_mem (List.mem_filter.2 ⟨ha, hp⟩)
    obtain ⟨b, hb, hfb⟩ := List.mem_map.1 hmem
    obtain ⟨hbl, hq⟩ := List.mem_filter.1 hb
    rwa [List.inj_on_of_nodup_map hl hbl ha hfb] at hq
  constructor
  · intro h a ha
    exact Bool.eq_iff_iff.2 ⟨himp h a ha, himp h.symm a ha⟩
  · intro h
    rw [List.filter_congr h]

theorem snapshot_reloaded (hg : g.WellFormed) : g.reloaded.snapshot = g.snapshot := by
  have hrules : (g.rules.map g.recut).map Rule.toWire = g.rules.map Rule.toWire := by
    rw [List.map_map]
    exact List.map_congr_left fun r hr =>
      congrArg (WireRule.mk r.head) (text_recut hg.terminals hg.nonterminals (hg.rules r hr))
  exact congrArg (fun wires => { g.snapshot with productionRules := wires }) hrules

theorem missing_reloaded (g : Grammar) : g.reloaded.missing = g.missing := by
  have hrules : (g.rules.map g.recut).isEmpty = g.rules.isEmpty := List.isEmpty_map
  unfold missing
  change _ ++ (if (g.rules.map g.recut).isEmpty then [Component.rules] else []) ++ _ = _
  rw [hrules]
  rfl

/-- Grammars that report as many invalid rules and are otherwise the same are submitted alike. -/
theorem toSubmission_reloaded (hg : g.WellFormed)
    (hinvalid : g.reloaded.invalidIdentities = g.invalidIdentities) :
    g.reloaded.toSubmission = g.toSubmission := by
  have hlength : g.reloaded.invalidRules.length = g.invalidRules.length := by
    have h := congrArg List.length hinvalid
    rwa [invalidIdentities, List.length_map, invalidIdentities, List.length_map] at h
  have hempty : g.reloaded.invalidRules.isEmpty = g.invalidRules.isEmpty := by
    rw [Bool.eq_iff_iff, List.isEmpty_iff_length_eq_zero, List.isEmpty_iff_length_eq_zero,
      hlength]
  simp only [toSubmission, missing_reloaded, hempty, hlength, snapshot_reloaded hg]

/-- Saving and loading keeps which rules are invalid, and with it what is submitted, exactly when
no rule is made valid or invalid by cutting its text afresh. Where the fresh cuts are the stored
ones, the very same grammar is loaded. -/
theorem reload_invalid_iff (edits : List Edit) :
    ∃ h, ofSubmission (ofEdits edits).snapshot = .ok h ∧
      (h.invalidIdentities = (ofEdits edits).invalidIdentities ∧
          h.toSubmission = (ofEdits edits).toSubmission ↔
        ∀ r ∈ (ofEdits edits).rules,
          (ofEdits edits).isValid ((ofEdits edits).recut r) = (ofEdits edits).isValid r) ∧
      ((∀ r ∈ (ofEdits edits).rules, (ofEdits edits).recut r = r) → h = ofEdits edits) := by
  have hg : (ofEdits edits).WellFormed := wellFormed_empty.editAll edits
  generalize ofEdits edits = g at hg
  have hiff : g.reloaded.invalidIdentities = g.invalidIdentities ↔
      ∀ r ∈ g.rules, g.isValid (g.recut r) = g.isValid r := by
    rw [invalidIdentities_reloaded hg, invalidIdentities_eq,
      map_filter_eq_map_filter_iff hg.nodup_identity]
    exact forall₂_congr fun r _ => Bool.not_inj_iff
  refine ⟨g.reloaded, ofSubmission_snapshot hg, ?_, fun hrecut => ?_⟩
  · rw [← hiff]
    exact ⟨And.left, fun h => ⟨h, toSubmission_reloaded hg h⟩⟩
  · have hrules : g.rules.map g.recut = g.rules :=
      (List.map_congr_left hrecut).trans (List.map_id' _)
    exact congrArg (fun rules => { g with rules := rules }) hrules

/-- A body typed with blanks between symbols that a further symbol spans. -/
def spannedBody : List Edit :=
  [.addTerminal "a", .addTerminal "b", .addNonterminal "S", .addNonterminal "ab",
    .addRules "S->a b S", .setLevels "3"]

/-- A body that lost a symbol, and whose text is a symbol of its own by now. -/
def respelledBody : List Edit :=
  [.addTerminal "a", .addTerminal "b", .addNonterminal "S", .addRules "S->ab",
    .addTerminal "ab", .removeTerminal "a"]

/-- Loading can make a rule invalid, so that a grammar that was fit to be submitted is not any
more, and it can make one valid that was reported as invalid. -/
theorem reload_changes_validity :
    (ofEdits spannedBody).toSubmission = .ok (ofEdits spannedBody).snapshot ∧
      (ofSubmission (ofEdits spannedBody).snapshot).map toSubmission =
        .ok (.error (.staleRules 1)) ∧
      (ofEdits respelledBody).invalidIdentities = [("S", "ab")] ∧
      (ofSubmission (ofEdits respelledBody).snapshot).map invalidIdentities = .ok [] := by
  decide +kernel

end Grammar

end LinearGrammar
