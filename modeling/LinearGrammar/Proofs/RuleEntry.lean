import Mathlib.Data.List.Infix
import LinearGrammar.Proofs.Reload
import LinearGrammar.Proofs.Submittable

/-!
# What a rule line does to a grammar

A line of a known head has a number of alternatives, and each of them ends up in one of three places:
it is refused, or it is new, or it repeats a rule that is stored or an alternative before it. The code
goes through them twice, once to tell the good ones from the bad ones and once to tell the new ones
from the repetitions, with a list of stored rules that grows on the way. `Rule.firsts` and
`Rule.repeats` say the same without the loop, by what comes before each alternative in the line, and
`sortOut_eq` is the induction that ties the two together: the list that grows holds fewer rules than
have been seen, but it holds the same identities.

A repetition is one by its text. Nothing is stored for it, so what stands for it in the grammar is a
rule that was typed before, perhaps under other alphabets and cut into other symbols. The last section
says when that rule is valid: always, unless it was stored and invalid before the line came.
-/

namespace LinearGrammar

/-! ## First and repeated rules -/

namespace Rule

variable {stored rules : List Rule} {r : Rule}

/-- Each rule with the ones before it. -/
def inTurn (rules : List Rule) : List (List Rule × Rule) := rules.inits.zip rules

/-- The rules that satisfy a condition when their turn comes. -/
def chosen (p : List Rule → Rule → Bool) (rules : List Rule) : List Rule :=
  ((inTurn rules).filter fun t => p t.1 t.2).map Prod.snd

/-- The rules that are the same as no stored rule and as none before them. -/
def firsts (stored rules : List Rule) : List Rule :=
  chosen (fun before r => !r.isAmong (stored ++ before)) rules

/-- The rules that are the same as a stored rule or one before them. -/
def repeats (stored rules : List Rule) : List Rule :=
  chosen (fun before r => r.isAmong (stored ++ before)) rules

theorem isAmong_append (r : Rule) (rules more : List Rule) :
    r.isAmong (rules ++ more) = (r.isAmong rules || r.isAmong more) := by
  simp [isAmong]

theorem isAmong_singleton (r s : Rule) : r.isAmong [s] = r.isSame s := by
  simp [isAmong]

theorem isAmong_congr {s : Rule} (h : r.isSame s = true) (rules : List Rule) :
    r.isAmong rules = s.isAmong rules := by
  have hid : r.identity = s.identity := by simpa [isSame] using h
  have hsame : r.isSame = s.isSame := by
    funext t
    rw [isSame, hid, isSame]
  rw [isAmong, hsame, isAmong]

theorem inTurn_cons (r : Rule) (rest : List Rule) :
    inTurn (r :: rest) = ([], r) :: (inTurn rest).map fun t => (r :: t.1, t.2) := by
  rw [inTurn, List.inits_cons, List.zip_cons_cons, List.zip_map_left]
  rfl

theorem map_snd_inTurn (rules : List Rule) : (inTurn rules).map Prod.snd = rules := by
  induction rules with
  | nil => rfl
  | cons r rest ih => simpa [inTurn_cons, Function.comp_def] using ih

theorem chosen_cons (p : List Rule → Rule → Bool) (r : Rule) (rest : List Rule) :
    chosen p (r :: rest) =
      (if p [] r then [r] else []) ++ chosen (fun before => p (r :: before)) rest := by
  simp only [chosen, inTurn_cons, List.filter_cons, List.filter_map]
  split <;> simp [Function.comp_def]

theorem firsts_cons (stored : List Rule) (r : Rule) (rest : List Rule) :
    firsts stored (r :: rest) =
      (if r.isAmong stored then [] else [r]) ++ firsts (stored ++ [r]) rest := by
  simp only [firsts, chosen_cons, List.append_nil, List.append_assoc, List.singleton_append]
  cases r.isAmong stored <;> rfl

theorem repeats_cons (stored : List Rule) (r : Rule) (rest : List Rule) :
    repeats stored (r :: rest) =
      (if r.isAmong stored then [r] else []) ++ repeats (stored ++ [r]) rest := by
  simp only [repeats, chosen_cons, List.append_nil, List.append_assoc, List.singleton_append]

theorem mem_of_mem_chosen {p : List Rule → Rule → Bool} (hr : r ∈ chosen p rules) : r ∈ rules := by
  obtain ⟨t, ht, rfl⟩ := List.mem_map.1 hr
  rw [← map_snd_inTurn rules]
  exact List.mem_map_of_mem (List.mem_filter.1 ht).1

theorem length_firsts_add_length_repeats (stored rules : List Rule) :
    (firsts stored rules).length + (repeats stored rules).length = rules.length := by
  induction rules generalizing stored with
  | nil => rfl
  | cons r rest ih =>
      have hrest := ih (stored ++ [r])
      rw [firsts_cons, repeats_cons]
      split <;> simp <;> omega

end Rule

namespace Grammar

theorem sortOut_eq_of_isAmong {stored seen : List Rule} (rules : List Rule)
    (hseen : ∀ r : Rule, r.isAmong stored = r.isAmong seen) :
    sortOut stored rules = (Rule.firsts seen rules, Rule.repeats seen rules) := by
  induction rules generalizing stored seen with
  | nil => rfl
  | cons r rest ih =>
      rw [sortOut, Rule.firsts_cons, Rule.repeats_cons, ← hseen r]
      split
      · next hstored =>
          -- A repetition is not stored again, but it has been seen.
          have hsame : ∀ s : Rule, s.isAmong stored = s.isAmong (seen ++ [r]) := by
            intro s
            rw [Rule.isAmong_append, Rule.isAmong_singleton, ← hseen s]
            cases hs : s.isSame r with
            | false => simp
            | true => rw [Rule.isAmong_congr hs, hstored, Bool.true_or]
          rw [ih hsame]
          rfl
      · have hsame : ∀ s : Rule, s.isAmong (stored ++ [r]) = s.isAmong (seen ++ [r]) := by
          intro s
          rw [Rule.isAmong_append, Rule.isAmong_append, hseen s]
        rw [ih hsame]
        rfl

theorem sortOut_eq (stored rules : List Rule) :
    sortOut stored rules = (Rule.firsts stored rules, Rule.repeats stored rules) :=
  sortOut_eq_of_isAmong rules fun _ => rfl

/-- Every rule is there when the new ones are stored. -/
theorem isAmong_append_firsts {stored rules : List Rule} {r : Rule} (hr : r ∈ rules) :
    r.isAmong (stored ++ Rule.firsts stored rules) = true := by
  induction rules generalizing stored with
  | nil => cases hr
  | cons s rest ih =>
      rw [Rule.firsts_cons]
      rcases List.mem_cons.1 hr with rfl | hr
      · split
        · next hstored => simp [Rule.isAmong_append, hstored]
        · simp [Rule.isAmong, Rule.isSame_refl]
      · have hrest : r.isAmong (stored ++ [s] ++ Rule.firsts (stored ++ [s]) rest) = true := ih hr
        simp only [Rule.isAmong_append, Rule.isAmong_singleton, Bool.or_eq_true] at hrest ⊢
        rcases hrest with (hstored | hsame) | hfirst
        · exact .inl hstored
        · split
          · next hs => exact .inl (by rw [Rule.isAmong_congr hsame, hs])
          · exact .inr (.inl (by rwa [Rule.isAmong_singleton]))
        · exact .inr (.inr hfirst)

theorem sortOut_of_isAmong {stored rules : List Rule}
    (h : ∀ r ∈ rules, r.isAmong stored = true) : sortOut stored rules = ([], rules) := by
  induction rules with
  | nil => rfl
  | cons r rest ih =>
      have hrest := ih fun s hs => h s (List.mem_cons_of_mem r hs)
      rw [sortOut, if_pos (h r List.mem_cons_self), hrest]

end Grammar

/-! ## Good and bad alternatives -/

/-- Why an alternative gave no rule. -/
def ParsedLine.fault? : Except EditError Rule → Option EditError
  | .ok _ => none
  | .error e => some e

theorem ParsedLine.ofOutcomes_eq (outcomes : List (Except EditError Rule)) :
    ofOutcomes outcomes = ⟨outcomes.filterMap Except.toOption, outcomes.filterMap fault?⟩ := by
  induction outcomes with
  | nil => rfl
  | cons o rest ih => cases o <;> simp [ofOutcomes, ih, List.filterMap_cons, Except.toOption, fault?]

theorem ParsedLine.length_rules_add_length_rejected (outcomes : List (Except EditError Rule)) :
    (outcomes.filterMap Except.toOption).length + (outcomes.filterMap fault?).length =
      outcomes.length := by
  induction outcomes with
  | nil => rfl
  | cons o rest ih => cases o <;> simp [List.filterMap_cons, Except.toOption, fault?] <;> omega

namespace RuleLine

/-- What becomes of each alternative on its own. -/
def outcomes (terminals nonterminals : Alphabet) (l : RuleLine) : List (Except EditError Rule) :=
  l.alternatives.map (Rule.ofAlternative terminals nonterminals l.head)

/-- The rules of the good alternatives, in order. -/
def accepted (terminals nonterminals : Alphabet) (l : RuleLine) : List Rule :=
  (l.outcomes terminals nonterminals).filterMap Except.toOption

/-- What is wrong with the bad ones, in order. -/
def refused (terminals nonterminals : Alphabet) (l : RuleLine) : List EditError :=
  (l.outcomes terminals nonterminals).filterMap ParsedLine.fault?

end RuleLine

theorem Rule.matches_ofAlternative {terminals nonterminals : Alphabet} {head text : String}
    {r : Rule} (hhead : head ∈ nonterminals.symbols)
    (h : ofAlternative terminals nonterminals head text = .ok r) :
    r.Matches terminals nonterminals := by
  simp only [ofAlternative] at h
  split at h
  · cases h
  · obtain ⟨u, hcheck, rfl⟩ := exists_of_map_eq_ok h
    have hok := Body.check_isOk_iff.1 (show (Body.check _ _ _).isOk = true by rw [hcheck]; rfl)
    exact ⟨hhead, hok.1, hok.2⟩

theorem RuleLine.matches_of_mem_accepted {terminals nonterminals : Alphabet} {l : RuleLine}
    {r : Rule} (hhead : l.head ∈ nonterminals.symbols)
    (hr : r ∈ l.accepted terminals nonterminals) : r.Matches terminals nonterminals := by
  obtain ⟨o, ho, hok⟩ := List.mem_filterMap.1 hr
  obtain ⟨text, -, rfl⟩ := List.mem_map.1 ho
  have hrule : Rule.ofAlternative terminals nonterminals l.head text = .ok r := by
    cases houtcome : Rule.ofAlternative terminals nonterminals l.head text with
    | error e => rw [houtcome] at hok; cases hok
    | ok s => rw [houtcome] at hok; cases hok; rfl
  exact Rule.matches_ofAlternative hhead hrule

/-! ## The line as an edit -/

namespace Grammar

variable {g h : Grammar} {line : String} {l : RuleLine} {made : RuleEdit}

/-- The alternatives of a line are accounted for: `made` reports on each of them once and in order,
and `h` is the grammar with the new rules at the end. -/
structure Enters (g : Grammar) (l : RuleLine) (made : RuleEdit) (h : Grammar) : Prop where
  count : l.alternatives.length =
    made.added.length + made.duplicates.length + made.rejected.length
  added : made.added = Rule.firsts g.rules (l.accepted g.terminals g.nonterminals)
  duplicates : made.duplicates = Rule.repeats g.rules (l.accepted g.terminals g.nonterminals)
  rejected : made.rejected = l.refused g.terminals g.nonterminals
  /-- Nothing changes but the list of rules. -/
  after : h = { g with rules := g.rules ++ made.added }
  /-- No new rule is the same as an old one or another new one. -/
  distinct : (h.rules.map Rule.identity).Nodup
  /-- No new rule is the same as one that is reported as invalid. -/
  valid : ∀ i ∈ h.invalidRules, ∀ r ∈ made.added, r.isSame i.1 = false

theorem addRules_of_malformed {e : EditError} (hline : RuleLine.ofText line = .error e) :
    g.addRules line = .error e := by
  rw [addRules, ParsedLine.ofText, hline]
  rfl

theorem addRules_of_unknownHead (hline : RuleLine.ofText line = .ok l)
    (hhead : l.head ∉ g.nonterminals.symbols) :
    g.addRules line = .error (.unknownHead l.head) := by
  rw [addRules, ParsedLine.ofText, hline]
  simp only []
  rw [if_neg fun hmem => hhead (Alphabet.contains_iff_mem.1 hmem)]
  rfl

theorem addRules_of_known (hline : RuleLine.ofText line = .ok l)
    (hhead : l.head ∈ g.nonterminals.symbols) :
    g.addRules line =
      .ok (⟨(sortOut g.rules (l.accepted g.terminals g.nonterminals)).1,
          (sortOut g.rules (l.accepted g.terminals g.nonterminals)).2,
          l.refused g.terminals g.nonterminals⟩,
        { g with
          rules := g.rules ++ (sortOut g.rules (l.accepted g.terminals g.nonterminals)).1 }) := by
  rw [addRules, ParsedLine.ofText, hline]
  simp only []
  rw [if_pos (Alphabet.contains_iff_mem.2 hhead), ParsedLine.ofOutcomes_eq]
  rfl

theorem exists_line_of_addRules (heq : g.addRules line = .ok (made, h)) :
    ∃ l, RuleLine.ofText line = .ok l ∧ l.head ∈ g.nonterminals.symbols := by
  cases hline : RuleLine.ofText line with
  | error e =>
      rw [addRules_of_malformed hline] at heq
      cases heq
  | ok l =>
      refine ⟨l, rfl, ?_⟩
      by_cases hhead : l.head ∈ g.nonterminals.symbols
      · exact hhead
      · rw [addRules_of_unknownHead hline hhead] at heq
        cases heq

theorem WellFormed.eq_of_isSame {r s : Rule} (hg : g.WellFormed) (hr : r ∈ g.rules)
    (hs : s ∈ g.rules) (hsame : r.isSame s = true) : r = s :=
  List.inj_on_of_nodup_map hg.nodup_identity hr hs (by simpa [Rule.isSame] using hsame)

theorem admits_of_mem_added (hhead : l.head ∈ g.nonterminals.symbols) {r : Rule}
    (hr : r ∈ Rule.firsts g.rules (l.accepted g.terminals g.nonterminals)) : g.Admits r :=
  RuleLine.matches_of_mem_accepted hhead (Rule.mem_of_mem_chosen hr)

theorem enters_addRules (hg : g.WellFormed) (hline : RuleLine.ofText line = .ok l)
    (hhead : l.head ∈ g.nonterminals.symbols) (heq : g.addRules line = .ok (made, h)) :
    g.Enters l made h := by
  have hh := hg.addRules heq
  rw [addRules_of_known hline hhead, sortOut_eq] at heq
  cases heq
  refine ⟨?_, rfl, rfl, rfl, rfl, hh.nodup_identity, ?_⟩
  · have houtcomes := ParsedLine.length_rules_add_length_rejected
      (l.outcomes g.terminals g.nonterminals)
    have hrules := Rule.length_firsts_add_length_repeats g.rules
      (l.accepted g.terminals g.nonterminals)
    rw [RuleLine.outcomes, List.length_map] at houtcomes
    rw [RuleLine.accepted, RuleLine.outcomes] at hrules
    simp only [RuleLine.accepted, RuleLine.refused, RuleLine.outcomes]
    omega
  · intro i hi r hr
    have hinvalid : i.1 ∈ (invalidRules _).map Prod.fst := List.mem_map_of_mem hi
    rw [invalidRules, Rule.map_fst_invalid] at hinvalid
    obtain ⟨hmem, hnot⟩ := List.mem_filter.1 hinvalid
    have hvalid := Rule.isValid_iff.2 (admits_of_mem_added hhead hr)
    by_contra hsame
    have heq := hh.eq_of_isSame (List.mem_append_right g.rules hr) hmem (by simpa using hsame)
    rw [← heq] at hnot
    simp [hvalid] at hnot

/-- The same line once more reports all the good alternatives as repetitions. -/
theorem addRules_again (hg : g.WellFormed) (hline : RuleLine.ofText line = .ok l)
    (hhead : l.head ∈ g.nonterminals.symbols) (heq : g.addRules line = .ok (made, h)) :
    h.addRules line =
      .ok (⟨[], l.accepted g.terminals g.nonterminals, made.rejected⟩, h) := by
  have henters := enters_addRules hg hline hhead heq
  obtain rfl := henters.after
  have hthere : ∀ r ∈ l.accepted g.terminals g.nonterminals,
      r.isAmong (g.rules ++ made.added) = true := by
    intro r hr
    rw [henters.added]
    exact isAmong_append_firsts hr
  have hagain := addRules_of_known (g := { g with rules := g.rules ++ made.added }) hline hhead
  dsimp only at hagain
  rw [sortOut_of_isAmong hthere, List.append_nil, ← henters.rejected] at hagain
  exact hagain

/-- A line without a head and a body, or whose head is no nonterminal, is refused and changes nothing.
Any other line is accounted for alternative by alternative, and typed once more it adds nothing. -/
theorem addRules_accounts (edits : List Edit) (line : String) :
    (∀ e, RuleLine.ofText line = .error e →
      (ofEdits edits).addRules line = .error e ∧
        (ofEdits edits).edit (.addRules line) = ofEdits edits) ∧
    ∀ l, RuleLine.ofText line = .ok l →
      (l.head ∉ (ofEdits edits).nonterminals.symbols →
        (ofEdits edits).addRules line = .error (.unknownHead l.head) ∧
          (ofEdits edits).edit (.addRules line) = ofEdits edits) ∧
      (l.head ∈ (ofEdits edits).nonterminals.symbols → ∃ made h,
        (ofEdits edits).addRules line = .ok (made, h) ∧ (ofEdits edits).Enters l made h ∧
          h.addRules line =
            .ok (⟨[], l.accepted (ofEdits edits).terminals (ofEdits edits).nonterminals,
              made.rejected⟩, h)) := by
  have hg : (ofEdits edits).WellFormed := wellFormed_empty.editAll edits
  generalize ofEdits edits = g at hg
  have hrefused : ∀ e, g.addRules line = .error e →
      g.addRules line = .error e ∧ g.edit (.addRules line) = g := by
    intro e he
    refine ⟨he, ?_⟩
    rw [edit, tryEdit, he]
    rfl
  refine ⟨fun e hline => hrefused e (addRules_of_malformed hline), fun l hline => ⟨?_, ?_⟩⟩
  · intro hhead
    exact hrefused _ (addRules_of_unknownHead hline hhead)
  · intro hhead
    have heq := addRules_of_known hline hhead
    exact ⟨_, _, heq, enters_addRules hg hline hhead heq, addRules_again hg hline hhead heq⟩

/-- A line with an alternative of each sort, and two that are refused as a whole. -/
theorem addRules_accounts_respelled :
    (ofEdits respelledBody).edit (.addRules "S=>b") = ofEdits respelledBody ∧
      (ofEdits respelledBody).edit (.addRules "ab->b") = ofEdits respelledBody ∧
      ∃ made h, (ofEdits respelledBody).addRules "S->b|ab|SS|bS|b S|a" = .ok (made, h) ∧
        (ofEdits respelledBody).Enters ⟨"S", ["b", "ab", "SS", "bS", "b S", "a"]⟩ made h ∧
        h.addRules "S->b|ab|SS|bS|b S|a" =
          .ok (⟨[], [⟨"S", ["b"]⟩, ⟨"S", ["ab"]⟩, ⟨"S", ["b", "S"]⟩, ⟨"S", ["b", "S"]⟩],
            made.rejected⟩, h) := by
  refine ⟨?_, ?_, ?_⟩
  · exact ((addRules_accounts respelledBody "S=>b").1 (.malformedRule "S=>b") (by decide +kernel)).2
  · exact (((addRules_accounts respelledBody "ab->b").2 ⟨"ab", ["b"]⟩ (by decide +kernel)).1
      (by decide +kernel)).2
  · obtain ⟨made, h, heq, henters, hagain⟩ :=
      ((addRules_accounts respelledBody "S->b|ab|SS|bS|b S|a").2
        ⟨"S", ["b", "ab", "SS", "bS", "b S", "a"]⟩ (by decide +kernel)).2 (by decide +kernel)
    have haccepted : RuleLine.accepted (ofEdits respelledBody).terminals
        (ofEdits respelledBody).nonterminals ⟨"S", ["b", "ab", "SS", "bS", "b S", "a"]⟩ =
        [⟨"S", ["b"]⟩, ⟨"S", ["ab"]⟩, ⟨"S", ["b", "S"]⟩, ⟨"S", ["b", "S"]⟩] := by
      decide +kernel
    rw [haccepted] at hagain
    exact ⟨made, h, heq, henters, hagain⟩

/-! ## What stands for a repetition -/

/-- A rule of the same head and text is stored, and it is valid. -/
def Represents (g : Grammar) (r : Rule) : Prop := ∃ s ∈ g.rules, s.isSame r = true ∧ g.Admits s

/-- A rule of the same head and text is stored that is cut otherwise, and it is not valid. -/
def Shadows (g : Grammar) (r : Rule) : Prop :=
  ∃ s ∈ g.rules, s.isSame r = true ∧ s.body ≠ r.body ∧ ¬ g.Admits s

instance (g : Grammar) (r : Rule) : Decidable (g.Represents r) :=
  inferInstanceAs (Decidable (∃ s ∈ g.rules, _))

instance (g : Grammar) (r : Rule) : Decidable (g.Shadows r) :=
  inferInstanceAs (Decidable (∃ s ∈ g.rules, _))

theorem represents_pruneRules {r : Rule} : g.pruneRules.2.Represents r ↔ g.Represents r := by
  constructor
  · rintro ⟨s, hs, hsame, hadmits⟩
    exact ⟨s, (List.mem_filter.1 hs).1, hsame, hadmits⟩
  · rintro ⟨s, hs, hsame, hadmits⟩
    exact ⟨s, List.mem_filter.2 ⟨hs, Rule.isValid_iff.2 hadmits⟩, hsame, hadmits⟩

theorem Enters.represents_iff {r : Rule} (henters : g.Enters l made h)
    (hhead : l.head ∈ g.nonterminals.symbols) (hh : h.WellFormed)
    (hr : r ∈ l.accepted g.terminals g.nonterminals) :
    r.isAmong h.rules = true ∧ (h.Represents r ↔ ¬ g.Shadows r) := by
  have hadmits : g.Admits r := RuleLine.matches_of_mem_accepted hhead hr
  obtain rfl := henters.after
  have hamong : r.isAmong (g.rules ++ made.added) = true := by
    rw [henters.added]
    exact isAmong_append_firsts hr
  refine ⟨hamong, ?_⟩
  -- One stored rule is the same, so both sides are about it.
  obtain ⟨s, hs, hrs⟩ := List.any_eq_true.1 hamong
  have hsr : s.isSame r = true := by
    rw [Rule.isSame_iff] at hrs ⊢
    exact ⟨hrs.1.symm, hrs.2.symm⟩
  have honly : ∀ t ∈ g.rules ++ made.added, t.isSame r = true → t = s := by
    intro t ht htr
    apply hh.eq_of_isSame ht hs
    rw [Rule.isSame_iff] at htr hsr ⊢
    exact ⟨htr.1.trans hsr.1.symm, htr.2.trans hsr.2.symm⟩
  constructor
  · rintro ⟨t, ht, htr, htadmits⟩ ⟨u, hu, hur, -, hustale⟩
    have htu : t = u :=
      (honly t ht htr).trans (honly u (List.mem_append_left _ hu) hur).symm
    exact hustale (htu ▸ htadmits)
  · intro hshadows
    refine ⟨s, hs, hsr, ?_⟩
    by_contra hstale
    apply hshadows
    refine ⟨s, ?_, hsr, ?_, hstale⟩
    · rcases List.mem_append.1 hs with hold | hnew
      · exact hold
      · rw [henters.added] at hnew
        exact absurd (admits_of_mem_added hhead hnew) hstale
    · intro hbody
      have hsame : s = r := by
        obtain ⟨head, body⟩ := s
        obtain ⟨head', body'⟩ := r
        rw [Rule.isSame_iff] at hsr
        cases hbody
        cases hsr.1
        rfl
      exact hstale (hsame ▸ hadmits)

/-- For every good alternative a rule of the same head and text is there in the end. A valid one is
there, and pruning leaves it there, exactly if the alternative was not a repetition of a stored rule
that was cut otherwise and is not valid. -/
theorem addRules_represents (edits : List Edit) (line : String) (made : RuleEdit) (h : Grammar)
    (heq : (ofEdits edits).addRules line = .ok (made, h)) :
    (∀ r ∈ made.added, h.Represents r ∧ h.pruneRules.2.Represents r) ∧
    ∀ r ∈ made.duplicates, r.isAmong h.rules = true ∧
      (h.Represents r ↔ ¬ (ofEdits edits).Shadows r) ∧
      (h.pruneRules.2.Represents r ↔ ¬ (ofEdits edits).Shadows r) := by
  have hg : (ofEdits edits).WellFormed := wellFormed_empty.editAll edits
  generalize ofEdits edits = g at hg heq
  obtain ⟨l, hline, hhead⟩ := exists_line_of_addRules heq
  have henters := enters_addRules hg hline hhead heq
  simp only [represents_pruneRules, and_self]
  constructor
  · intro r hr
    have hadmits : g.Admits r := admits_of_mem_added hhead (henters.added ▸ hr)
    obtain rfl := henters.after
    exact ⟨r, List.mem_append_right g.rules hr, r.isSame_refl, hadmits⟩
  · intro r hr
    rw [henters.duplicates] at hr
    exact henters.represents_iff hhead (hg.addRules heq) (Rule.mem_of_mem_chosen hr)

/-- Of three alternatives one is new and one repeats it; the other has the text of a stale rule. -/
theorem addRules_represents_respelled :
    ∃ made h, (ofEdits respelledBody).addRules "S->b|ab|b" = .ok (made, h) ∧
      made.added = [⟨"S", ["b"]⟩] ∧ made.duplicates = [⟨"S", ["ab"]⟩, ⟨"S", ["b"]⟩] ∧
      h.pruneRules.2.Represents ⟨"S", ["b"]⟩ ∧ ¬ h.Represents ⟨"S", ["ab"]⟩ := by
  have heq : (ofEdits respelledBody).addRules "S->b|ab|b" =
      .ok (⟨[⟨"S", ["b"]⟩], [⟨"S", ["ab"]⟩, ⟨"S", ["b"]⟩], []⟩,
        { ofEdits respelledBody with rules := [⟨"S", ["a", "b"]⟩, ⟨"S", ["b"]⟩] }) := by
    decide +kernel
  obtain ⟨hadded, hduplicates⟩ := addRules_represents respelledBody "S->b|ab|b" _ _ heq
  refine ⟨_, _, heq, rfl, rfl, (hadded _ List.mem_cons_self).2, fun hvalid => ?_⟩
  exact (hduplicates _ List.mem_cons_self).2.1.1 hvalid (by decide +kernel)

/-- A valid alternative is taken for a repetition of a stale rule with its text. The grammar stays as
it is, and pruning it takes away the only rule that stands for what was typed. -/
theorem addRules_repeats_stale :
    (ofEdits respelledBody).addRules "S->ab" =
        .ok (⟨[], [⟨"S", ["ab"]⟩], []⟩, ofEdits respelledBody) ∧
      (ofEdits respelledBody).Admits ⟨"S", ["ab"]⟩ ∧
      ¬ (ofEdits respelledBody).Represents ⟨"S", ["ab"]⟩ ∧
      (ofEdits respelledBody).pruneRules.1 = [⟨"S", ["a", "b"]⟩] ∧
      (ofEdits respelledBody).pruneRules.2.rules = [] := by
  decide +kernel

end Grammar

end LinearGrammar
