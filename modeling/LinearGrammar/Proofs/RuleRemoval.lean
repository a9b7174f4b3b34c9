import LinearGrammar.Proofs.Reload

/-!
# Removal undoes entry

A rule is taken out by its head and its text, and the first rule that has both is the one that goes. In
a list where a text stood twice that would be a matter of luck: the other one might go, with another
cut, or from another place. No list of rules that can be reached is such a list, and that is the whole
argument of `removeRule_eq`: among rules of different identity the first hit is the only one.

So the rules that a line has entered can be taken out again in any order. They stand at the end of the
list, behind the rules of before, and each removal leaves the others at the end; when none is left,
the list of before is left.
-/

namespace LinearGrammar

/-! ## Blanks inside a text -/

/-- The second text is the first with blanks put in, any number of them at any place. -/
inductive Text.Padded : List Char → List Char → Prop
  | nil : Padded [] []
  | blank {b : Char} {cs ds : List Char} (hb : Text.isBlank b = true) (h : Padded cs ds) :
      Padded cs (b :: ds)
  | char (c : Char) {cs ds : List Char} (h : Padded cs ds) : Padded (c :: cs) (c :: ds)

theorem Text.Padded.squeeze_eq {text padded : String} (hink : Text.hasBlank text = false)
    (h : Padded text.toList padded.toList) : Text.squeeze padded = text := by
  rw [hasBlank_eq_false_iff] at hink
  rw [← String.toList_inj, toList_squeeze]
  generalize text.toList = cs at hink h
  generalize padded.toList = ds at h
  induction h with
  | nil => rfl
  | blank hb _ ih =>
      rw [List.filter_cons_of_neg (by simp [isInk, hb])]
      exact ih hink
  | char c _ ih =>
      rw [List.filter_cons_of_pos (hink c List.mem_cons_self)]
      rw [ih fun d hd => hink d (List.mem_cons_of_mem c hd)]

namespace Grammar

/-- Takes out one rule after the other, each by its head and a text of its body. -/
def removeEach (g : Grammar) : List (String × String) → Except EditError (List Rule × Grammar)
  | [] => .ok ([], g)
  | (head, body) :: rest =>
    match g.removeRule head body with
    | .error e => .error e
    | .ok (r, g) => (g.removeEach rest).map fun (removed, g) => (r :: removed, g)

variable {g h : Grammar} {r : Rule} {body : String}

/-! ## One rule -/

theorem WellFormed.removeRule_eq (hg : g.WellFormed) (hr : r ∈ g.rules)
    (hbody : Text.squeeze body = r.text) :
    g.removeRule r.head body = .ok (r, { g with rules := g.rules.erase r }) := by
  obtain ⟨before, after, hbefore, hrules, herase⟩ := List.exists_erase_eq hr
  rw [herase]
  simp only [Grammar.removeRule, hbody]
  generalize hisIt : (fun s : Rule => s.head == r.head && s.text == r.text) = isIt
  have hself : isIt r = true := by simp [← hisIt]
  have hother : ∀ s ∈ before, ¬ isIt s = true := by
    intro s hs hsame
    rw [← hisIt, Bool.and_eq_true, beq_iff_eq, beq_iff_eq] at hsame
    have hmem : s ∈ g.rules := by
      rw [hrules]
      exact List.mem_append_left _ hs
    have heq : s = r :=
      List.inj_on_of_nodup_map hg.nodup_identity hmem hr (Prod.ext hsame.1 hsame.2)
    exact hbefore (heq ▸ hs)
  have hfind : g.rules.find? isIt = some r := by
    rw [hrules, List.find?_append, List.find?_eq_none.2 hother, Option.none_or,
      List.find?_cons_of_pos hself]
  have hrest : g.rules.eraseP isIt = before ++ after := by
    rw [hrules, List.eraseP_append_right _ hother, List.eraseP_cons_of_pos hself]
  rw [hfind, hrest]

theorem removeRule_of_not_mem {head : String}
    (hnone : (head, Text.squeeze body) ∉ g.rules.map Rule.identity) :
    g.removeRule head body = .error (.unknownRule head (Text.squeeze body)) := by
  have hfind : g.rules.find? (fun s => s.head == head && s.text == Text.squeeze body) = none := by
    rw [List.find?_eq_none]
    intro s hs hsame
    rw [Bool.and_eq_true, beq_iff_eq, beq_iff_eq] at hsame
    exact hnone (List.mem_map.2 ⟨s, hs, Prod.ext hsame.1 hsame.2⟩)
  simp only [removeRule, hfind]

/-- A rule that was taken out cannot be taken out once more. -/
theorem WellFormed.removeRule_again (hg : g.WellFormed) (hr : r ∈ g.rules)
    (hbody : Text.squeeze body = r.text) :
    ({ g with rules := g.rules.erase r } : Grammar).removeRule r.head body =
      .error (.unknownRule r.head r.text) := by
  rw [removeRule_of_not_mem, hbody]
  rw [hbody]
  intro hmem
  obtain ⟨s, hs, hsame⟩ := List.mem_map.1 hmem
  have hnodup : g.rules.Nodup := hg.nodup_identity.of_map
  have heq : s = r :=
    List.inj_on_of_nodup_map hg.nodup_identity (List.mem_of_mem_erase hs) hr hsame
  exact hnodup.not_mem_erase (heq ▸ hs)

/-! ## Many rules -/

theorem removeEach_of_perm {rules added order : List Rule}
    (hg : ({ g with rules := rules ++ added } : Grammar).WellFormed) (horder : order.Perm added) :
    ({ g with rules := rules ++ added } : Grammar).removeEach (order.map Rule.identity) =
      .ok (order, { g with rules := rules }) := by
  induction order generalizing added with
  | nil =>
      rw [List.nil_perm.1 horder, List.append_nil]
      rfl
  | cons r rest ih =>
      obtain ⟨hr, hrest⟩ := List.cons_perm_iff_perm_erase.1 horder
      have hmem : r ∈ rules ++ added := List.mem_append_right rules hr
      have htext : Text.squeeze r.text = r.text :=
        Text.squeeze_of_hasBlank (Rule.hasBlank_text (hg.rules r hmem))
      have hremove := hg.removeRule_eq hmem htext
      -- The rules of before are not touched, because none of them is this one.
      have hdisjoint := List.disjoint_of_nodup_append (hg.nodup_identity.of_map)
      have hold : r ∉ rules := fun hold => hdisjoint hold hr
      rw [List.erase_append_right _ hold] at hremove
      rw [List.map_cons, Rule.identity, removeEach, hremove]
      simp only []
      rw [ih (hg.removeRule hremove) hrest]
      rfl

/-- The rules that a line has entered are taken out again by their heads and texts, in any order, and
then the grammar is what it was. Any stored rule is taken out by its head and its text, however many
blanks are in the text, the others stay in order, and once it is out it is unknown. -/
theorem removal_undoes_entry (edits : List Edit) :
    (∀ line made h, (ofEdits edits).addRules line = .ok (made, h) →
      ∀ order : List Rule, order.Perm made.added →
        h.removeEach (order.map Rule.identity) = .ok (order, ofEdits edits)) ∧
    ∀ r ∈ (ofEdits edits).rules, ∀ body : String, Text.Padded r.text.toList body.toList →
      ∃ before after, (ofEdits edits).rules = before ++ r :: after ∧
        (ofEdits edits).removeRule r.head body =
          .ok (r, { ofEdits edits with rules := before ++ after }) ∧
        ({ ofEdits edits with rules := before ++ after } : Grammar).removeRule r.head body =
          .error (.unknownRule r.head r.text) := by
  have hg : (ofEdits edits).WellFormed := wellFormed_empty.editAll edits
  generalize ofEdits edits = g at hg
  constructor
  · intro line made h heq order horder
    have hh : h.WellFormed := hg.addRules heq
    obtain ⟨parsed, -, hmade⟩ := exists_of_map_eq_ok heq
    cases hmade
    exact removeEach_of_perm hh horder
  · intro r hr body hpadded
    have hbody := hpadded.squeeze_eq (Rule.hasBlank_text (hg.rules r hr))
    obtain ⟨before, after, -, hrules, herase⟩ := List.exists_erase_eq hr
    refine ⟨before, after, hrules, ?_, ?_⟩
    · rw [← herase]
      exact hg.removeRule_eq hr hbody
    · rw [← herase]
      exact hg.removeRule_again hr hbody

/-- A rule that is cut otherwise than its text would be now. -/
def spacedOut : List Edit :=
  [.addTerminal "a", .addTerminal "b", .addTerminal "ab", .addNonterminal "S", .addNonterminal "T",
    .addRules "S->a b S"]

theorem removal_undoes_entry_shuffled :
    ∃ made h, (ofEdits spacedOut).addRules "S->b|abS|ab T|T" = .ok (made, h) ∧
      made.duplicates = [⟨"S", ["ab", "S"]⟩] ∧
      h.removeEach [("S", "T"), ("S", "b"), ("S", "abT")] =
        .ok ([⟨"S", ["T"]⟩, ⟨"S", ["b"]⟩, ⟨"S", ["ab", "T"]⟩], ofEdits spacedOut) ∧
      ∃ before after, (ofEdits spacedOut).rules = before ++ ⟨"S", ["a", "b", "S"]⟩ :: after ∧
        (ofEdits spacedOut).removeRule "S" "\u3000a bS " =
          .ok (⟨"S", ["a", "b", "S"]⟩, { ofEdits spacedOut with rules := before ++ after }) := by
  have heq : (ofEdits spacedOut).addRules "S->b|abS|ab T|T" =
      .ok (⟨[⟨"S", ["b"]⟩, ⟨"S", ["ab", "T"]⟩, ⟨"S", ["T"]⟩], [⟨"S", ["ab", "S"]⟩], []⟩,
        { ofEdits spacedOut with
          rules := [⟨"S", ["a", "b", "S"]⟩, ⟨"S", ["b"]⟩, ⟨"S", ["ab", "T"]⟩, ⟨"S", ["T"]⟩] }) := by
    decide +kernel
  have hpadded : Text.Padded ['a', 'b', 'S'] ['\u3000', 'a', ' ', 'b', 'S', ' '] :=
    .blank (by decide) (.char 'a' (.blank (by decide) (.char 'b' (.char 'S' (.blank (by decide) .nil)))))
  obtain ⟨hentry, hremoval⟩ := removal_undoes_entry spacedOut
  refine ⟨_, _, heq, rfl, ?_, ?_⟩
  · exact hentry _ _ _ heq [⟨"S", ["T"]⟩, ⟨"S", ["b"]⟩, ⟨"S", ["ab", "T"]⟩] (by decide +kernel)
  · obtain ⟨before, after, hrules, hremove, -⟩ :=
      hremoval ⟨"S", ["a", "b", "S"]⟩ (by decide +kernel) "\u3000a bS " hpadded
    exact ⟨before, after, hrules, hremove⟩

end Grammar

end LinearGrammar
