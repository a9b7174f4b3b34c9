import Mathlib.Data.List.Induction
import LinearGrammar.Proofs.Reload

/-!
# A body is cut by maximal munch

`Munches` says what a cut is without saying how it is found: blanks are skipped, and at any other place
stands the longest known symbol that the text goes on with, or the next character alone where none
fits. It knows the symbols only as a set. `symbols` goes through lists of them, the terminals before
the nonterminals, and keeps the longest one so far; that order and alphabet do not matter rests on one
fact, `eq_of_prefix_of_length`: of the starts of one text there is one of each length at most.

The same fact makes the measure a matter of taste. Two starts of one text compare alike by characters
and by the bytes of their texts, so a search that goes through the symbols from the largest to the
smallest finds the longest one first.
-/

namespace LinearGrammar

open Text (isBlank)

/-- The alphabets that come of taking symbols in and out, whatever the other alphabet was when one
came in. -/
inductive Alphabet.Built : Alphabet → Prop
  | empty (kind : SymbolKind) : Built (.empty kind)
  | insert {a b other : Alphabet} {text : String} {grew : Bool} (ha : Built a)
      (h : a.insert other text = .ok (grew, b)) : Built b
  | erase {a : Alphabet} (ha : Built a) (symbol : String) : Built (a.erase symbol)

/-- They are the well-formed ones, for any list of different symbols can be taken in one by one. -/
theorem Alphabet.built_iff {a : Alphabet} : a.Built ↔ a.WellFormed := by
  constructor
  · intro ha
    induction ha with
    | empty kind => exact wellFormed_empty kind
    | insert _ h ih => exact ih.insert h
    | erase _ symbol ih => exact ih.erase symbol
  · obtain ⟨kind, symbols⟩ := a
    intro ha
    induction symbols using List.reverseRecOn with
    | nil => exact .empty kind
    | append_singleton symbols s ih =>
        obtain ⟨hnodup, -, hnew⟩ := List.nodup_append.1 ha.nodup
        have hbefore := ih ⟨fun t ht => ha.isSymbol t (List.mem_append_left [s] ht), hnodup⟩
        have hempty : s ∉ (Alphabet.empty kind).symbols := List.not_mem_nil
        exact hbefore.insert (insert_of_fresh
          (ha.isSymbol s (List.mem_append_right symbols List.mem_cons_self)) hempty
          fun hs => hnew s hs s List.mem_cons_self rfl)

namespace Body

/-- The symbols into which maximal munch cuts a text, when these are the symbols that are known. -/
inductive Munches (IsKnown : String → Prop) : List Char → List String → Prop
  | done : Munches IsKnown [] []
  | blank {c : Char} {cs : List Char} {symbols : List String} (hc : isBlank c = true)
      (h : Munches IsKnown cs symbols) : Munches IsKnown (c :: cs) symbols
  | known {c : Char} {cs rest : List Char} {s : String} {symbols : List String}
      (hc : isBlank c = false) (hs : IsKnown s) (hstart : s.toList ++ rest = c :: cs)
      (hlongest : ∀ t, IsKnown t → t.toList <+: c :: cs → t.length ≤ s.length)
      (h : Munches IsKnown rest symbols) : Munches IsKnown (c :: cs) (s :: symbols)
  | single {c : Char} {cs : List Char} {symbols : List String} (hc : isBlank c = false)
      (hnone : ∀ t, IsKnown t → ¬ t.toList <+: c :: cs)
      (h : Munches IsKnown cs symbols) : Munches IsKnown (c :: cs) (String.singleton c :: symbols)

/-! ## Starts of one text -/

theorem eq_of_prefix_of_length {α : Type} {s t l : List α} (hs : s <+: l) (ht : t <+: l)
    (h : s.length = t.length) : s = t :=
  (List.prefix_of_prefix_length_le hs ht h.le).eq_of_length h

/-- No text can be munched in two ways. -/
theorem Munches.unique {IsKnown : String → Prop} {cs : List Char} {symbols symbols' : List String}
    (h : Munches IsKnown cs symbols) (h' : Munches IsKnown cs symbols') : symbols = symbols' := by
  induction h generalizing symbols' with
  | done => cases h'; rfl
  | blank hc _ ih =>
      cases h' with
      | blank _ h' => exact ih h'
      | known hc' => rw [hc] at hc'; cases hc'
      | single hc' => rw [hc] at hc'; cases hc'
  | @known c cs rest s symbols hc hs hstart hlongest _ ih =>
      cases h' with
      | blank hc' => rw [hc] at hc'; cases hc'
      | @known _ _ rest' s' symbols' _ hs' hstart' hlongest' h' =>
          -- Both symbols are longest, so they are as long as each other.
          have hpre : s.toList <+: c :: cs := ⟨rest, hstart⟩
          have hpre' : s'.toList <+: c :: cs := ⟨rest', hstart'⟩
          have hlength : s.length = s'.length :=
            le_antisymm (hlongest' s hs hpre) (hlongest s' hs' hpre')
          have heq : s = s' := String.toList_inj.1 (eq_of_prefix_of_length hpre hpre' hlength)
          subst heq
          have hrest : rest = rest' := List.append_cancel_left (hstart.trans hstart'.symm)
          subst hrest
          rw [ih h']
      | single _ hnone => exact absurd ⟨rest, hstart⟩ (hnone s hs)
  | single hc hnone _ ih =>
      cases h' with
      | blank hc' => rw [hc] at hc'; cases hc'
      | known _ hs' hstart' => exact absurd ⟨_, hstart'⟩ (hnone _ hs')
      | single _ _ h' => rw [ih h']

/-! ## The longest start -/

variable {pool : List (List Char)}

theorem length_le_longer (s t : List Char) :
    s.length ≤ (longer s t).length ∧ t.length ≤ (longer s t).length := by
  unfold longer
  split <;> omega

theorem length_le_foldl_longer {candidates : List (List Char)} {best s : List Char}
    (hs : s = best ∨ s ∈ candidates) : s.length ≤ (candidates.foldl longer best).length := by
  induction candidates generalizing best s with
  | nil =>
      rcases hs with rfl | hs
      · exact Nat.le_refl _
      · cases hs
  | cons t rest ih =>
      have hbest : (longer best t).length ≤ (rest.foldl longer (longer best t)).length :=
        ih (.inl rfl)
      have hlonger := length_le_longer best t
      rw [List.foldl_cons]
      rcases hs with rfl | hs
      · exact hlonger.1.trans hbest
      · rcases List.mem_cons.1 hs with rfl | hs
        · exact hlonger.2.trans hbest
        · exact ih (.inr hs)

theorem length_le_longestStart {s cs : List Char} (hs : s ∈ pool) (hpre : s <+: cs) :
    s.length ≤ (longestStart pool cs).length :=
  length_le_foldl_longer (.inr (List.mem_filter.2 ⟨hs, List.isPrefixOf_iff_prefix.2 hpre⟩))

/-- The next symbol is the longest known one, or a single character if no known one fits. -/
theorem nextSymbol_spec (hpool : [] ∉ pool) (c : Char) (cs : List Char) :
    (nextSymbol pool c cs ∈ pool ∧ nextSymbol pool c cs <+: c :: cs ∧
        ∀ t ∈ pool, t <+: c :: cs → t.length ≤ (nextSymbol pool c cs).length) ∨
      nextSymbol pool c cs = [c] ∧ ∀ t ∈ pool, ¬ t <+: c :: cs := by
  unfold nextSymbol
  split
  · next hnil =>
      refine .inr ⟨rfl, fun t ht hpre => hpool ?_⟩
      have hlength := length_le_longestStart ht hpre
      rw [hnil, List.length_nil, Nat.le_zero, List.length_eq_zero_iff] at hlength
      exact hlength ▸ ht
  · next hne =>
      rcases longestStart_eq_nil_or pool (c :: cs) with h | ⟨hmem, hpre⟩
      · exact absurd h hne
      · exact .inl ⟨hmem, hpre, fun t ht hpre => length_le_longestStart ht hpre⟩

/-- Whatever is longest is what is taken. -/
theorem nextSymbol_eq_of_longest (hpool : [] ∉ pool) {s cs : List Char} {c : Char} (hs : s ∈ pool)
    (hpre : s <+: c :: cs) (hlongest : ∀ t ∈ pool, t <+: c :: cs → t.length ≤ s.length) :
    nextSymbol pool c cs = s := by
  rcases nextSymbol_spec hpool c cs with ⟨hmem, hnext, hmax⟩ | ⟨-, hnone⟩
  · exact eq_of_prefix_of_length hnext hpre (le_antisymm (hlongest _ hmem hnext) (hmax s hs hpre))
  · exact absurd hpre (hnone s hs)

/-- Only what is in the pool matters, not in which order or how often. -/
theorem nextSymbol_congr {pool' : List (List Char)} (hpool : [] ∉ pool)
    (h : ∀ s, s ∈ pool' ↔ s ∈ pool) (c : Char) (cs : List Char) :
    nextSymbol pool' c cs = nextSymbol pool c cs := by
  have hpool' : [] ∉ pool' := fun hnil => hpool ((h []).1 hnil)
  rcases nextSymbol_spec hpool c cs with ⟨hmem, hpre, hmax⟩ | ⟨hsingle, hnone⟩
  · exact nextSymbol_eq_of_longest hpool' ((h _).2 hmem) hpre fun t ht => hmax t ((h t).1 ht)
  · rcases nextSymbol_spec hpool' c cs with ⟨hmem, hpre, -⟩ | ⟨hsingle', -⟩
    · exact absurd hpre (hnone _ ((h _).1 hmem))
    · rw [hsingle, hsingle']

theorem munches_cut (hpool : [] ∉ pool) (cs : List Char) :
    Munches (·.toList ∈ pool) cs ((cut pool cs).map String.ofList) := by
  fun_induction cut pool cs with
  | case1 => exact .done
  | case2 c cs hc ih => exact .blank hc ih
  | case3 c cs hc symbol ih =>
      have hc : isBlank c = false := Bool.eq_false_iff.2 hc
      rw [List.map_cons]
      rcases nextSymbol_spec hpool c cs with ⟨hmem, ⟨rest, hrest⟩, hmax⟩ | ⟨hsingle, hnone⟩
      · have hstart : (String.ofList symbol).toList ++ rest = c :: cs := by
          rw [String.toList_ofList]
          exact hrest
        refine .known hc (by rwa [String.toList_ofList]) hstart ?_ ?_
        · intro t ht hpre
          rw [String.length_ofList]
          exact hmax _ ht hpre
        · have hdrop : (c :: cs).drop symbol.length = rest := by rw [← hrest, List.drop_left]
          exact hdrop ▸ ih
      · have hsymbol : symbol = [c] := hsingle
        rw [hsymbol] at ih ⊢
        exact .single hc (fun t ht => hnone _ ht) ih

/-! ## From the largest to the smallest -/

/-- A start of a text is the whole text if it takes as many bytes. -/
theorem eq_of_prefix_of_utf8ByteSize_le {s t : String} (h : s.toList <+: t.toList)
    (hsize : t.utf8ByteSize ≤ s.utf8ByteSize) : t = s := by
  obtain ⟨rest, hrest⟩ := h
  have ht : t = s ++ String.ofList rest := by
    rw [← String.toList_inj, String.toList_append, String.toList_ofList, hrest]
  rw [ht, String.utf8ByteSize_append] at hsize
  have hempty : String.ofList rest = "" := String.utf8ByteSize_eq_zero_iff.1 (by omega)
  rw [ht, hempty, String.append_empty]

/-- The first of the symbols that the text goes on with, or its next character if none fits. -/
def firstFit (symbols : List String) (c : Char) (cs : List Char) : String :=
  (symbols.find? (·.toList.isPrefixOf (c :: cs))).getD (.singleton c)

/-- Going from the largest text to the smallest, the first symbol that fits is the longest. -/
theorem toList_firstFit {known : List String}
    (hknown : known.Pairwise fun s t => t.utf8ByteSize ≤ s.utf8ByteSize)
    (hpool : [] ∉ known.map String.toList) (c : Char) (cs : List Char) :
    (firstFit known c cs).toList = nextSymbol (known.map String.toList) c cs := by
  unfold firstFit
  cases hfind : known.find? (·.toList.isPrefixOf (c :: cs)) with
  | none =>
      rcases nextSymbol_spec hpool c cs with ⟨hmem, hpre, -⟩ | ⟨hsingle, -⟩
      · obtain ⟨s, hs, heq⟩ := List.mem_map.1 hmem
        rw [← heq] at hpre
        exact absurd (List.isPrefixOf_iff_prefix.2 hpre) (List.find?_eq_none.1 hfind s hs)
      · rw [hsingle, Option.getD_none, String.toList_singleton]
  | some s =>
      obtain ⟨hfits, before, after, rfl, hbefore⟩ := List.find?_eq_some_iff_append.1 hfind
      have hpre : s.toList <+: c :: cs := List.isPrefixOf_iff_prefix.1 hfits
      refine (nextSymbol_eq_of_longest hpool (List.mem_map_of_mem (by simp)) hpre ?_).symm
      intro t ht htpre
      obtain ⟨t, htmem, rfl⟩ := List.mem_map.1 ht
      rcases List.mem_append.1 htmem with hmem | hmem
      · have hmiss := hbefore t hmem
        rw [List.isPrefixOf_iff_prefix.2 htpre] at hmiss
        cases hmiss
      · rcases List.mem_cons.1 hmem with rfl | hmem
        · exact Nat.le_refl _
        · have hsize : t.utf8ByteSize ≤ s.utf8ByteSize :=
            List.rel_of_pairwise_cons (List.pairwise_append.1 hknown).2.1 hmem
          rcases List.prefix_or_prefix_of_prefix htpre hpre with hle | hle
          · exact hle.length_le
          · rw [eq_of_prefix_of_utf8ByteSize_le hle hsize]

/-! ## The symbols of a body -/

/-- The symbol is in one of the alphabets. -/
def IsKnown (terminals nonterminals : Alphabet) (s : String) : Prop :=
  s ∈ terminals.symbols ∨ s ∈ nonterminals.symbols

section Alphabets

variable {terminals nonterminals terminals' nonterminals' : Alphabet}

theorem toList_mem_known_iff {s : String} :
    s.toList ∈ known terminals nonterminals ↔ IsKnown terminals nonterminals s := by
  simp only [known, List.mem_map, String.toList_inj, exists_eq_right, List.mem_append, IsKnown]

theorem not_isKnown_empty (hT : terminals.Built) (hN : nonterminals.Built) :
    ¬ IsKnown terminals nonterminals "" := by
  rintro (hs | hs)
  · exact ((Alphabet.built_iff.1 hT).isSymbol "" hs).1 rfl
  · exact ((Alphabet.built_iff.1 hN).isSymbol "" hs).1 rfl

theorem munches_symbols (hne : ¬ IsKnown terminals nonterminals "") (text : String) :
    Munches (IsKnown terminals nonterminals) text.toList (symbols terminals nonterminals text) := by
  have hpool : [] ∉ known terminals nonterminals := fun h => hne (toList_mem_known_iff.1 h)
  have hcut := munches_cut hpool text.toList
  simp only [toList_mem_known_iff] at hcut
  exact hcut

/-- The alphabets matter as one set. -/
theorem symbols_congr (hne : ¬ IsKnown terminals nonterminals "")
    (h : ∀ s, IsKnown terminals' nonterminals' s ↔ IsKnown terminals nonterminals s)
    (text : String) : symbols terminals' nonterminals' text = symbols terminals nonterminals text := by
  have hne' : ¬ IsKnown terminals' nonterminals' "" := fun h' => hne ((h "").1 h')
  have hmunches := munches_symbols hne' text
  rw [show IsKnown terminals' nonterminals' = IsKnown terminals nonterminals from
    funext fun s => propext (h s)] at hmunches
  exact hmunches.unique (munches_symbols hne text)

/-- Where no blank stands, the symbol that comes next is the first one that fits in any list of the
known symbols from the largest to the smallest, and the text is cut on behind it. -/
theorem symbols_firstFit (hne : ¬ IsKnown terminals nonterminals "") {descending : List String}
    (hperm : descending.Perm (terminals.symbols ++ nonterminals.symbols))
    (hdescending : descending.Pairwise fun s t => t.utf8ByteSize ≤ s.utf8ByteSize) {c : Char}
    (hc : isBlank c = false) (cs : List Char) :
    firstFit descending c cs ≠ "" ∧
      ∃ rest, (firstFit descending c cs).toList ++ rest = c :: cs ∧
        symbols terminals nonterminals (.ofList (c :: cs)) =
          firstFit descending c cs :: symbols terminals nonterminals (.ofList rest) := by
  have hpool : [] ∉ known terminals nonterminals := fun h => hne (toList_mem_known_iff.1 h)
  have hsame : ∀ s, s ∈ descending.map String.toList ↔ s ∈ known terminals nonterminals :=
    fun s => (hperm.map String.toList).mem_iff
  have hfirst : (firstFit descending c cs).toList =
      nextSymbol (known terminals nonterminals) c cs := by
    rw [toList_firstFit hdescending fun h => hpool ((hsame []).1 h), nextSymbol_congr hpool hsame]
  obtain ⟨rest, hrest⟩ := nextSymbol_prefix (known terminals nonterminals) c cs
  refine ⟨fun he => ?_, rest, by rw [hfirst, hrest], ?_⟩
  · rw [he] at hfirst
    exact nextSymbol_ne_nil _ c cs hfirst.symm
  · have hdrop : (c :: cs).drop (nextSymbol (known terminals nonterminals) c cs).length = rest := by
      rw [← hrest, List.drop_left]
    rw [symbols, symbols, String.toList_ofList, String.toList_ofList, cut,
      if_neg (Bool.eq_false_iff.1 hc)]
    simp only [hdrop, List.map_cons]
    rw [← hfirst, String.ofList_toList]

/-- A body is cut by maximal munch, and in no other way. The longest symbol is found by going through
the known ones from the largest text to the smallest, in whatever order those of one size come, and it
is never empty, so that every step of the search gets on. Symbols that were entered in another order,
or into the other alphabet, lead to the same cut. -/
theorem symbols_maximal_munch (hT : terminals.Built) (hN : nonterminals.Built) :
    (∀ text pieces, Munches (IsKnown terminals nonterminals) text.toList pieces ↔
      pieces = symbols terminals nonterminals text) ∧
    (∀ descending : List String, descending.Perm (terminals.symbols ++ nonterminals.symbols) →
      descending.Pairwise (fun s t => t.utf8ByteSize ≤ s.utf8ByteSize) →
      ∀ c cs, isBlank c = false → firstFit descending c cs ≠ "" ∧
        ∃ rest, (firstFit descending c cs).toList ++ rest = c :: cs ∧
          symbols terminals nonterminals (.ofList (c :: cs)) =
            firstFit descending c cs :: symbols terminals nonterminals (.ofList rest)) ∧
    (∀ terminals' nonterminals',
      (∀ s, IsKnown terminals' nonterminals' s ↔ IsKnown terminals nonterminals s) →
        ∀ text, symbols terminals' nonterminals' text = symbols terminals nonterminals text) := by
  have hne := not_isKnown_empty hT hN
  refine ⟨fun text pieces => ?_, fun descending hperm hdescending c cs hc =>
    symbols_firstFit hne hperm hdescending hc cs, fun terminals' nonterminals' h =>
    symbols_congr hne h⟩
  exact ⟨fun h => h.unique (munches_symbols hne text), fun h => h ▸ munches_symbols hne text⟩

end Alphabets

/-- Symbols that are starts of each other, with their kinds the wrong way round. -/
theorem symbols_maximal_munch_overlapping :
    symbols ⟨.terminal, ["E'", "+"]⟩ ⟨.nonterminal, ["E", "λ", "id", "i"]⟩ "id+λ iE'd" =
        symbols ⟨.terminal, ["i", "id", "+", "λ"]⟩ ⟨.nonterminal, ["E", "E'"]⟩ "id+λ iE'd" ∧
      Munches (IsKnown ⟨.terminal, ["i", "id", "+", "λ"]⟩ ⟨.nonterminal, ["E", "E'"]⟩)
        "id+λ iE'd".toList ["id", "+", "λ", "i", "E'", "d"] := by
  have hT : Alphabet.Built ⟨.terminal, ["i", "id", "+", "λ"]⟩ :=
    Alphabet.built_iff.2 ⟨by decide +kernel, by decide +kernel⟩
  have hN : Alphabet.Built ⟨.nonterminal, ["E", "E'"]⟩ :=
    Alphabet.built_iff.2 ⟨by decide +kernel, by decide +kernel⟩
  obtain ⟨hmunches, -, hsame⟩ := symbols_maximal_munch hT hN
  refine ⟨hsame _ _ (fun s => ?_) _, (hmunches _ _).2 (by decide +kernel)⟩
  simp only [IsKnown, List.mem_cons, List.not_mem_nil]
  grind

end Body

end LinearGrammar
