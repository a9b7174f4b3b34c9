import LinearGrammar.Proofs.MaximalMunch

/-!
# Blanks keep symbols apart

Maximal munch looks ahead: which symbol is taken depends on everything that follows. It does not
look over a blank, because no known symbol has one in it, and from that one equation,
`symbols_append_blank`, everything here follows. A text is cut blank by blank, and between two blanks
a single symbol stands alone, where nothing longer than itself can be taken.

So a blank is the way to ask for a cut that maximal munch would not make. `Spaced` says what it is to
write a list of pieces with blanks between them, as many and of whatever kind, and a list that is
written so is read as it is, however its pieces overlap.
-/

namespace LinearGrammar

open Text (isBlank isInk squeeze)

/-- The pieces stand in the text in order, with a blank at least between any two of them, and with any
blanks around them. -/
inductive Text.Spaced : List String → List Char → Prop
  | nil : Spaced [] []
  | blank {pieces : List String} {b : Char} {cs : List Char} (hb : isBlank b = true)
      (h : Spaced pieces cs) : Spaced pieces (b :: cs)
  | last (piece : String) : Spaced [piece] piece.toList
  | piece {piece : String} {pieces : List String} {b : Char} {cs : List Char}
      (hb : isBlank b = true) (h : Spaced pieces cs) :
      Spaced (piece :: pieces) (piece.toList ++ b :: cs)

namespace Text

theorem Spaced.blanks {gap cs : List Char} {pieces : List String}
    (hgap : ∀ b ∈ gap, isBlank b = true) (h : Spaced pieces cs) : Spaced pieces (gap ++ cs) := by
  induction gap with
  | nil => exact h
  | cons b rest ih =>
      exact .blank (hgap b List.mem_cons_self) (ih fun c hc => hgap c (List.mem_cons_of_mem b hc))

/-- One separator between all pieces is a case of it. -/
theorem spaced_intercalate {separator : String} (hne : separator ≠ "")
    (hblank : ∀ b ∈ separator.toList, isBlank b = true) (pieces : List String) :
    Spaced pieces (String.intercalate separator pieces).toList := by
  obtain ⟨b, gap, hgap⟩ := List.exists_cons_of_ne_nil (mt String.toList_eq_nil_iff.1 hne)
  rw [hgap] at hblank
  induction pieces with
  | nil => exact .nil
  | cons piece rest ih =>
      cases rest with
      | nil => exact .last piece
      | cons next rest =>
          have htext : (String.intercalate separator (piece :: next :: rest)).toList =
              piece.toList ++ b :: (gap ++ (String.intercalate separator (next :: rest)).toList) := by
            rw [String.intercalate_cons_cons]
            simp [hgap]
          rw [htext]
          have hrest := ih.blanks fun c hc => hblank c (List.mem_cons_of_mem b hc)
          exact .piece (hblank b List.mem_cons_self) hrest

end Text

namespace Body

/-- What a cut can take at one place: a known symbol, or a character on its own. -/
def IsToken (terminals nonterminals : Alphabet) (s : String) : Prop :=
  IsKnown terminals nonterminals s ∨ ∃ c, isBlank c = false ∧ s = String.singleton c

/-! ## Alone between two blanks -/

section Pool

variable {pool : List (List Char)}

theorem cut_of_nextSymbol {c : Char} {cs : List Char} (hc : isBlank c = false)
    (h : nextSymbol pool c cs = c :: cs) : cut pool (c :: cs) = [c :: cs] := by
  rw [cut, if_neg (by simp [hc])]
  simp only [h, List.drop_length]
  rw [cut]

theorem cut_known (hpool : [] ∉ pool) (hink : ∀ s ∈ pool, ∀ c ∈ s, isInk c = true)
    {s : List Char} (hs : s ∈ pool) : cut pool s = [s] := by
  cases s with
  | nil => exact absurd hs hpool
  | cons c cs =>
      apply cut_of_nextSymbol (Text.isInk_iff.1 (hink _ hs c List.mem_cons_self))
      apply nextSymbol_eq_of_longest hpool hs (List.prefix_refl _)
      intro t _ ht
      exact ht.length_le

theorem cut_single {c : Char} (hc : isBlank c = false) : cut pool [c] = [[c]] := by
  have hpre : nextSymbol pool c [] <+: [c] := nextSymbol_prefix pool c []
  have hle := hpre.length_le
  have hpos := length_nextSymbol_pos pool c []
  rw [List.length_singleton] at hle
  apply cut_of_nextSymbol hc
  apply hpre.eq_of_length
  rw [List.length_singleton]
  omega

end Pool

section Alphabets

variable {terminals nonterminals : Alphabet} (hT : terminals.WellFormed)
  (hN : nonterminals.WellFormed)

include hT hN

theorem symbols_token {s : String} (hs : IsToken terminals nonterminals s) :
    symbols terminals nonterminals s = [s] := by
  have hpool : [] ∉ known terminals nonterminals := by
    intro hnil
    have hempty : IsKnown terminals nonterminals "" := toList_mem_known_iff.1 hnil
    exact not_isKnown_empty (Alphabet.built_iff.2 hT) (Alphabet.built_iff.2 hN) hempty
  have hcut : cut (known terminals nonterminals) s.toList = [s.toList] := by
    rcases hs with hs | ⟨c, hc, rfl⟩
    · exact cut_known hpool (isInk_of_mem_known hT.isSymbol hN.isSymbol) (toList_mem_known_iff.2 hs)
    · rw [String.toList_singleton]
      exact cut_single hc
  simp [symbols, hcut]

/-! ## Blank by blank -/

theorem symbols_append_blank {b : Char} (hb : isBlank b = true) (x y : String) :
    symbols terminals nonterminals (x ++ String.singleton b ++ y) =
      symbols terminals nonterminals x ++ symbols terminals nonterminals y := by
  have hink := isInk_of_mem_known hT.isSymbol hN.isSymbol
  have htext : (x ++ String.singleton b ++ y).toList = x.toList ++ b :: y.toList := by simp
  simp only [symbols, htext, cut_append_blank hink hb, List.map_append]

theorem cut_spaced {pieces : List String} {cs : List Char}
    (hpieces : ∀ s ∈ pieces, IsToken terminals nonterminals s) (h : Text.Spaced pieces cs) :
    (cut (known terminals nonterminals) cs).map String.ofList = pieces := by
  have hink := isInk_of_mem_known hT.isSymbol hN.isSymbol
  induction h with
  | nil => simp [cut]
  | blank hb _ ih =>
      rw [cut, if_pos hb]
      exact ih hpieces
  | last piece => exact symbols_token hT hN (hpieces piece List.mem_cons_self)
  | @piece piece pieces b cs hb _ ih =>
      have hfirst : (cut (known terminals nonterminals) piece.toList).map String.ofList = [piece] :=
        symbols_token hT hN (hpieces piece List.mem_cons_self)
      have hrest := ih fun s hs => hpieces s (List.mem_cons_of_mem piece hs)
      simp only [cut_append_blank hink hb, List.map_append, hfirst, hrest, List.singleton_append]

theorem symbols_spaced {pieces : List String} {text : String}
    (hpieces : ∀ s ∈ pieces, IsToken terminals nonterminals s)
    (h : Text.Spaced pieces text.toList) : symbols terminals nonterminals text = pieces :=
  cut_spaced hT hN hpieces h

end Alphabets

variable {terminals nonterminals : Alphabet}

/-- A cut loses nothing but blanks, what stands on the two sides of a blank is cut apart, and a list of
tokens that is written with blanks between them is read as that list. -/
theorem symbols_separated (hT : terminals.Built) (hN : nonterminals.Built) :
    (∀ text, String.join (symbols terminals nonterminals text) = squeeze text) ∧
    (∀ x y b, isBlank b = true → symbols terminals nonterminals (x ++ String.singleton b ++ y) =
      symbols terminals nonterminals x ++ symbols terminals nonterminals y) ∧
    (∀ tokens text, (∀ s ∈ tokens, IsToken terminals nonterminals s) →
      Text.Spaced tokens text.toList → symbols terminals nonterminals text = tokens) := by
  have hT := Alphabet.built_iff.1 hT
  have hN := Alphabet.built_iff.1 hN
  refine ⟨join_symbols hT.isSymbol hN.isSymbol, ?_, ?_⟩
  · intro x y b hb
    exact symbols_append_blank hT hN hb x y
  · intro tokens text htokens hspaced
    exact symbols_spaced hT hN htokens hspaced

/-- Tokens of which some would run together, and one is in no alphabet. -/
theorem symbols_separated_overlapping :
    String.join (symbols ⟨.terminal, ["ab", "a", "b-", "-"]⟩ ⟨.nonterminal, ["S", "ba"]⟩ " ab- a") =
        "ab-a" ∧
      symbols ⟨.terminal, ["ab", "a", "b-", "-"]⟩ ⟨.nonterminal, ["S", "ba"]⟩ "ab\u3000-S" =
        ["ab", "-", "S"] ∧
      symbols ⟨.terminal, ["ab", "a", "b-", "-"]⟩ ⟨.nonterminal, ["S", "ba"]⟩
          (String.intercalate " \t" ["a", "b", "a", "S", "ba", "b-", "-"]) =
        ["a", "b", "a", "S", "ba", "b-", "-"] := by
  have hT : Alphabet.Built ⟨.terminal, ["ab", "a", "b-", "-"]⟩ :=
    Alphabet.built_iff.2 ⟨by decide +kernel, by decide +kernel⟩
  have hN : Alphabet.Built ⟨.nonterminal, ["S", "ba"]⟩ :=
    Alphabet.built_iff.2 ⟨by decide +kernel, by decide +kernel⟩
  obtain ⟨hjoin, hblank, hspaced⟩ := symbols_separated hT hN
  refine ⟨(hjoin _).trans (by decide +kernel), ?_, ?_⟩
  · exact (hblank "ab" "-S" '\u3000' (by decide)).trans (by decide +kernel)
  · refine hspaced _ _ ?_ (Text.spaced_intercalate (by decide) (List.all_eq_true.1 (by decide)) _)
    have hb : IsToken ⟨.terminal, ["ab", "a", "b-", "-"]⟩ ⟨.nonterminal, ["S", "ba"]⟩ "b" :=
      .inr ⟨'b', by decide, by decide⟩
    intro s hs
    by_cases hs' : s = "b"
    · exact hs' ▸ hb
    · left
      simp only [IsKnown, List.mem_cons, List.not_mem_nil] at hs ⊢
      grind

end Body

end LinearGrammar
