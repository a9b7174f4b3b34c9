import LinearGrammar.Proofs.Blank
import LinearGrammar.Rule.Body

/-!
# Cutting a body loses nothing but blanks

Whatever the alphabets are, the pieces that `cut` makes of a text are, one after the other, the
text without its blanks. What matters is that no known symbol has a blank inside: a piece is either
a known symbol that the text goes on with or a single character that is not blank, so a piece is
all ink, and the characters skipped between two pieces are blanks.

From this comes what the rest of the theory needs of a cut: its pieces are symbols in the sense of
`Text.IsSymbol`, its text is the squeezed text, and it is empty only for a blank text.
-/

namespace LinearGrammar.Body

open Text

variable {pool : List (List Char)}

/-! ## The next symbol -/

theorem longer_eq (s t : List Char) : longer s t = s ∨ longer s t = t := by
  unfold longer
  split
  · exact .inr rfl
  · exact .inl rfl

theorem foldl_longer_mem (candidates : List (List Char)) (best : List Char) :
    candidates.foldl longer best = best ∨ candidates.foldl longer best ∈ candidates := by
  induction candidates generalizing best with
  | nil => exact .inl rfl
  | cons s rest ih =>
      rw [List.foldl_cons]
      rcases ih (longer best s) with h | h
      · rw [h]
        rcases longer_eq best s with hl | hl
        · exact .inl hl
        · exact .inr (by rw [hl]; exact List.mem_cons_self)
      · exact .inr (List.mem_cons_of_mem s h)

theorem longestStart_eq_nil_or (pool : List (List Char)) (cs : List Char) :
    longestStart pool cs = [] ∨
      longestStart pool cs ∈ pool ∧ longestStart pool cs <+: cs := by
  rcases foldl_longer_mem (pool.filter (·.isPrefixOf cs)) [] with h | h
  · exact .inl h
  · have hmem := List.mem_filter.1 h
    exact .inr ⟨hmem.1, List.isPrefixOf_iff_prefix.1 hmem.2⟩

theorem nextSymbol_cases (pool : List (List Char)) (c : Char) (cs : List Char) :
    nextSymbol pool c cs = [c] ∨
      nextSymbol pool c cs ∈ pool ∧ nextSymbol pool c cs <+: c :: cs := by
  unfold nextSymbol
  split
  · exact .inl rfl
  · next hne =>
      rcases longestStart_eq_nil_or pool (c :: cs) with h | h
      · exact absurd h hne
      · exact .inr h

theorem nextSymbol_prefix (pool : List (List Char)) (c : Char) (cs : List Char) :
    nextSymbol pool c cs <+: c :: cs := by
  rcases nextSymbol_cases pool c cs with h | h
  · rw [h]
    exact ⟨cs, rfl⟩
  · exact h.2

theorem nextSymbol_ne_nil (pool : List (List Char)) (c : Char) (cs : List Char) :
    nextSymbol pool c cs ≠ [] :=
  List.length_pos_iff.1 (length_nextSymbol_pos pool c cs)

theorem isInk_of_mem_nextSymbol (hknown : ∀ s ∈ pool, ∀ c ∈ s, isInk c = true) {c : Char}
    (hc : isBlank c = false) {cs : List Char} {d : Char} (hd : d ∈ nextSymbol pool c cs) :
    isInk d = true := by
  rcases nextSymbol_cases pool c cs with h | h
  · rw [h, List.mem_singleton] at hd
    rw [hd]
    exact isInk_iff.2 hc
  · exact hknown _ h.1 d hd

/-! ## The pieces -/

/-- A piece of a cut is not empty, and no blank is in it. -/
theorem piece_of_mem_cut (hknown : ∀ s ∈ pool, ∀ c ∈ s, isInk c = true) (cs : List Char) :
    ∀ s ∈ cut pool cs, s ≠ [] ∧ ∀ c ∈ s, isInk c = true := by
  fun_induction cut pool cs with
  | case1 => intro s hs; cases hs
  | case2 c cs hc ih => exact ih
  | case3 c cs hc symbol ih =>
      intro s hs
      rcases List.mem_cons.1 hs with rfl | hs
      · refine ⟨nextSymbol_ne_nil pool c cs, fun d hd => ?_⟩
        exact isInk_of_mem_nextSymbol hknown (Bool.eq_false_iff.2 hc) hd
      · exact ih s hs

/-- The pieces of a cut are the text without its blanks. -/
theorem flatten_cut (hknown : ∀ s ∈ pool, ∀ c ∈ s, isInk c = true) (cs : List Char) :
    (cut pool cs).flatten = cs.filter isInk := by
  fun_induction cut pool cs with
  | case1 => rfl
  | case2 c cs hc ih => rw [ih, List.filter_cons_of_neg (by rw [isInk, hc]; decide)]
  | case3 c cs hc symbol ih =>
      -- The text goes on with the symbol, which the filter leaves as it is.
      obtain ⟨rest, hrest⟩ := nextSymbol_prefix pool c cs
      have hink : ∀ d ∈ symbol, isInk d = true := fun d hd =>
        isInk_of_mem_nextSymbol hknown (Bool.eq_false_iff.2 hc) hd
      have hdrop : (c :: cs).drop symbol.length = rest := by
        rw [← hrest, List.drop_left]
      rw [List.flatten_cons, ih, hdrop, ← hrest, List.filter_append,
        List.filter_eq_self.2 hink]

/-! ## Blanks separate -/

/-- No symbol reaches over a blank. -/
theorem prefix_append_blank_iff {s cs rest : List Char} {b : Char}
    (hs : ∀ c ∈ s, isInk c = true) (hb : isBlank b = true) :
    s <+: cs ++ b :: rest ↔ s <+: cs := by
  refine ⟨fun h => ?_, fun h => h.trans (List.prefix_append _ _)⟩
  rcases List.prefix_or_prefix_of_prefix h (List.prefix_append cs (b :: rest)) with hle | ⟨t, rfl⟩
  · exact hle
  · cases t with
    | nil => exact ⟨[], by rw [List.append_nil, List.append_nil]⟩
    | cons d t =>
        have hd := List.cons_prefix_cons.1 ((List.prefix_append_right_inj cs).1 h)
        have hink := hs d (List.mem_append_right cs List.mem_cons_self)
        rw [hd.1, isInk_iff, hb] at hink
        cases hink

theorem nextSymbol_append_blank (hknown : ∀ s ∈ pool, ∀ c ∈ s, isInk c = true) {b : Char}
    (hb : isBlank b = true) (c : Char) (cs rest : List Char) :
    nextSymbol pool c (cs ++ b :: rest) = nextSymbol pool c cs := by
  have hfits : ∀ s ∈ pool,
      s.isPrefixOf (c :: (cs ++ b :: rest)) = s.isPrefixOf (c :: cs) := fun s hs => by
    rw [Bool.eq_iff_iff, List.isPrefixOf_iff_prefix, List.isPrefixOf_iff_prefix, ← List.cons_append,
      prefix_append_blank_iff (hknown s hs) hb]
  rw [nextSymbol, longestStart, List.filter_congr hfits, nextSymbol, longestStart]

/-- What stands before a blank and what stands behind it are cut apart. -/
theorem cut_append_blank (hknown : ∀ s ∈ pool, ∀ c ∈ s, isInk c = true) {b : Char}
    (hb : isBlank b = true) (cs rest : List Char) :
    cut pool (cs ++ b :: rest) = cut pool cs ++ cut pool rest := by
  fun_induction cut pool cs with
  | case1 => rw [List.nil_append, cut, if_pos hb, List.nil_append]
  | case2 c cs hc ih => rw [List.cons_append, cut, if_pos hc, ih]
  | case3 c cs hc symbol ih =>
      have hle : symbol.length ≤ (c :: cs).length :=
        List.IsPrefix.length_le <| nextSymbol_prefix pool c cs
      rw [List.cons_append, cut, if_neg hc]
      simp only [nextSymbol_append_blank hknown hb]
      rw [← List.cons_append, List.drop_append_of_le_length hle, ih, List.cons_append]

theorem cut_blanks_append {before : List Char} (hbefore : ∀ c ∈ before, isBlank c = true)
    (cs : List Char) : cut pool (before ++ cs) = cut pool cs := by
  induction before with
  | nil => rfl
  | cons b rest ih =>
      rw [List.cons_append, cut, if_pos (hbefore b List.mem_cons_self),
        ih fun c hc => hbefore c (List.mem_cons_of_mem b hc)]

theorem cut_trimChars (hknown : ∀ s ∈ pool, ∀ c ∈ s, isInk c = true) (cs : List Char) :
    cut pool (trimChars cs) = cut pool cs := by
  obtain ⟨before, after, hsplit, hbefore, hafter⟩ := exists_append_trimChars cs
  generalize trimChars cs = middle at hsplit ⊢
  subst hsplit
  rw [List.append_assoc, cut_blanks_append hbefore]
  cases after with
  | nil => rw [List.append_nil]
  | cons b rest =>
      have hrest : cut pool (rest ++ []) = cut pool [] :=
        cut_blanks_append (fun c hc => hafter c (List.mem_cons_of_mem b hc)) []
      rw [List.append_nil] at hrest
      rw [cut_append_blank hknown (hafter b List.mem_cons_self), hrest, cut, List.append_nil]

/-! ## Bodies as texts -/

variable {terminals nonterminals : Alphabet}

theorem isInk_of_mem_known (hT : ∀ s ∈ terminals.symbols, IsSymbol s)
    (hN : ∀ s ∈ nonterminals.symbols, IsSymbol s) :
    ∀ s ∈ known terminals nonterminals, ∀ c ∈ s, isInk c = true := by
  intro s hs
  obtain ⟨t, ht, rfl⟩ := List.mem_map.1 hs
  rcases List.mem_append.1 ht with ht | ht
  · exact hasBlank_eq_false_iff.1 (hT t ht).2
  · exact hasBlank_eq_false_iff.1 (hN t ht).2

theorem isSymbol_of_mem_symbols (hT : ∀ s ∈ terminals.symbols, IsSymbol s)
    (hN : ∀ s ∈ nonterminals.symbols, IsSymbol s) (text : String) :
    ∀ s ∈ symbols terminals nonterminals text, IsSymbol s := by
  intro s hs
  obtain ⟨piece, hpiece, rfl⟩ := List.mem_map.1 hs
  exact isSymbol_ofList_iff.2 (piece_of_mem_cut (isInk_of_mem_known hT hN) _ piece hpiece)

/-- The text of a body that was cut is the text it was cut from, without its blanks. -/
theorem join_symbols (hT : ∀ s ∈ terminals.symbols, IsSymbol s)
    (hN : ∀ s ∈ nonterminals.symbols, IsSymbol s) (text : String) :
    String.join (symbols terminals nonterminals text) = squeeze text := by
  rw [← String.toList_inj, String.toList_join, toList_squeeze, symbols, List.flatMap_map,
    ← flatten_cut (isInk_of_mem_known hT hN)]
  simp only [String.toList_ofList, List.flatMap_id']

/-- The blanks around a body do not count. -/
theorem symbols_trim (hT : ∀ s ∈ terminals.symbols, IsSymbol s)
    (hN : ∀ s ∈ nonterminals.symbols, IsSymbol s) (text : String) :
    symbols terminals nonterminals (trim text) = symbols terminals nonterminals text := by
  rw [symbols, toList_trim, cut_trimChars (isInk_of_mem_known hT hN), symbols]

theorem eq_nil_of_join_eq {body : List String} (hbody : ∀ s ∈ body, IsSymbol s)
    (h : String.join body = "") : body = [] := by
  cases body with
  | nil => rfl
  | cons s rest =>
      have hnil := String.toList_eq_nil_iff.2 h
      rw [String.toList_join, List.flatMap_cons, List.append_eq_nil_iff] at hnil
      exact absurd (String.toList_eq_nil_iff.1 hnil.1) (hbody s List.mem_cons_self).1

end LinearGrammar.Body
