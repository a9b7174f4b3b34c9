import LinearGrammar.Json.Reading

/-!
# A written value is read token by token

Writing a value and cutting the text into tokens come from two sides: the writer follows the value,
the automaton follows the characters and knows nothing of values. `tokenList` is where they meet.
The tokens of a value's pretty text are its token list, whatever follows the text: the line ends and
blanks that make it pretty stand between tokens, where the automaton skips them.

Strings need the most care. Every character is written in one of nine ways, and what the automaton
collects are code points, which are put together to characters only at the closing quote; that
this cannot go wrong rests on the fact that a character is no half of a surrogate pair. Numbers
are taken as they come: `Number.IsLegible` says that a number's text is read as the number, and
it is asked of every number in a value.
-/

namespace LinearGrammar

namespace Json

/-! ## Strings -/

theorem not_isHighHalf_toNat (c : Char) : isHighHalf c.toNat = false := by
  have hvalid : c.toNat.isValidChar := c.valid
  unfold Nat.isValidChar at hvalid
  rw [isHighHalf, Bool.and_eq_false_iff, decide_eq_false_iff_not, decide_eq_false_iff_not]
  omega

/-- The code points of characters are put together to the characters. -/
theorem joinUnits_map_toNat (cs : List Char) : joinUnits (cs.map Char.toNat) = some cs := by
  induction cs with
  | nil => rfl
  | cons c rest ih =>
      have hvalid : c.toNat.isValidChar := c.valid
      cases rest with
      | nil => rw [List.map_singleton, joinUnits, if_pos hvalid, Char.ofNat_toNat]
      | cons d rest =>
          rw [List.map_cons, List.map_cons, joinUnits, not_isHighHalf_toNat, Bool.false_and,
            if_neg Bool.false_ne_true, if_pos hvalid, ← List.map_cons, ih, Option.map_some,
            Char.ofNat_toNat]

theorem hexValue?_hexDigit : ∀ n < 16, hexValue? (hexDigit n) = some n := by
  decide

/-- A written character is taken into a string as its code point. -/
theorem tokens_escape (c : Char) (reversed : List Nat) (rest : List Char) :
    Scan.tokens (.string reversed) (escape c ++ rest) =
      Scan.tokens (.string (c.toNat :: reversed)) rest := by
  unfold escape
  split
  · next h => subst h; rfl
  split
  · next h => subst h; rfl
  split
  · next h => subst h; rfl
  split
  · next h => subst h; rfl
  split
  · next h => subst h; rfl
  split
  · next h => subst h; rfl
  split
  · next h => subst h; rfl
  split
  · next hcontrol =>
      -- Four digits, of which the first two are zeros.
      have hhigh := hexValue?_hexDigit (c.toNat / 16) (by omega)
      have hlow := hexValue?_hexDigit (c.toNat % 16) (by omega)
      have hzero : hexValue? '0' = some 0 := rfl
      have hvalue : c.toNat / 16 * 16 + c.toNat % 16 = c.toNat := by omega
      simp [Scan.tokens, Scan.step, hzero, hhigh, hlow, hvalue]
  · next hquote hback _ _ _ _ _ hcontrol =>
      simp [Scan.tokens, Scan.step, hquote, hback, hcontrol]

theorem tokens_flatMap_escape (cs : List Char) (reversed : List Nat) (rest : List Char) :
    Scan.tokens (.string reversed) (cs.flatMap escape ++ rest) =
      Scan.tokens (.string ((cs.map Char.toNat).reverse ++ reversed)) rest := by
  induction cs generalizing reversed with
  | nil => rfl
  | cons c cs ih =>
      rw [List.flatMap_cons, List.append_assoc, tokens_escape, ih, List.map_cons,
        List.reverse_cons, List.append_assoc]
      rfl

theorem tokens_quote (s : String) (rest : List Char) :
    Scan.tokens .between (quote s ++ rest) = .str (some s) :: Scan.tokens .between rest := by
  have hopen : Scan.tokens .between (quote s ++ rest) =
      Scan.tokens (.string []) (s.toList.flatMap escape ++ '"' :: rest) := by
    rw [quote, List.cons_append, List.append_assoc]
    rfl
  rw [hopen, tokens_flatMap_escape, List.append_nil, Scan.tokens, Scan.step, if_pos rfl,
    List.reverse_reverse, joinUnits_map_toNat, Option.map_some, String.ofList_toList]
  rfl

/-! ## Values as tokens -/

mutual

/-- The tokens that say a value. -/
def tokenList : Json → List Token
  | .null => [.null]
  | .bool b => [.bool b]
  | .num n => [.num (some n)]
  | .str s => [.str (some s)]
  | .arr [] => [.openArray, .closeArray]
  | .arr (item :: rest) => .openArray :: (tokenList item ++ itemTokens rest)
  | .obj [] => [.openObject, .closeObject]
  | .obj ((key, value) :: rest) =>
    .openObject :: .str (some key) :: .colon :: (tokenList value ++ memberTokens rest)

/-- The tokens of the further items of an array, and of its end. -/
def itemTokens : List Json → List Token
  | [] => [.closeArray]
  | item :: rest => .comma :: (tokenList item ++ itemTokens rest)

/-- The tokens of the further members of an object, and of its end. -/
def memberTokens : List (String × Json) → List Token
  | [] => [.closeObject]
  | (key, value) :: rest =>
    .comma :: .str (some key) :: .colon :: (tokenList value ++ memberTokens rest)

end

/-- Whether a text goes on with something that ends a number, or does not go on. -/
def EndsNumber (rest : List Char) : Prop :=
  ∀ c, rest.head? = some c → c = ',' ∨ c = ']' ∨ c = '}' ∨ c = '\n'

end Json

def Number.IsLegible (n : Number) : Prop :=
  ∀ rest, Json.EndsNumber rest →
    Json.Scan.tokens .between (n.text ++ rest) =
      .num (some n) :: Json.Scan.tokens .between rest

namespace Json

mutual

def IsLegible : Json → Prop
  | .num n => n.IsLegible
  | .arr items => ItemsLegible items
  | .obj members => MembersLegible members
  | _ => True

def ItemsLegible : List Json → Prop
  | [] => True
  | item :: rest => IsLegible item ∧ ItemsLegible rest

def MembersLegible : List (String × Json) → Prop
  | [] => True
  | (_, value) :: rest => IsLegible value ∧ MembersLegible rest

end

/-! ## Pretty text -/

theorem tokens_spaces (n : Nat) (rest : List Char) :
    Scan.tokens .between (List.replicate n ' ' ++ rest) = Scan.tokens .between rest := by
  induction n with
  | zero => rfl
  | succ n ih =>
      rw [List.replicate_succ, List.cons_append, Scan.tokens, ← ih]
      rfl

theorem tokens_newline (depth : Nat) (rest : List Char) :
    Scan.tokens .between (newline depth ++ rest) = Scan.tokens .between rest := by
  rw [← tokens_spaces (2 * depth) rest]
  rfl

theorem tokens_mark (c : Char) (token : Token) (h : Scan.start c = (.between, [token]))
    (rest : List Char) :
    Scan.tokens .between (c :: rest) = token :: Scan.tokens .between rest := by
  rw [Scan.tokens, Scan.step, h]
  rfl

theorem endsNumber_newline (depth : Nat) (rest : List Char) :
    EndsNumber (newline depth ++ rest) := by
  intro c hc
  exact .inr (.inr (.inr (Option.some.inj hc).symm))

theorem endsNumber_prettyItems (depth : Nat) (items : List Json) (rest : List Char) :
    EndsNumber (prettyItems depth items ++ rest) := by
  cases items with
  | nil =>
      rw [prettyItems, List.append_assoc]
      exact endsNumber_newline depth _
  | cons item items => exact fun c hc => .inl (Option.some.inj hc).symm

theorem endsNumber_prettyMembers (depth : Nat) (members : List (String × Json))
    (rest : List Char) : EndsNumber (prettyMembers depth members ++ rest) := by
  cases members with
  | nil =>
      rw [prettyMembers, List.append_assoc]
      exact endsNumber_newline depth _
  | cons member members => exact fun c hc => .inl (Option.some.inj hc).symm

mutual

/-- The pretty text of a value is read as its token list. -/
theorem tokens_prettyChars (v : Json) (hv : v.IsLegible) (depth : Nat) (rest : List Char)
    (hrest : EndsNumber rest) :
    Scan.tokens .between (prettyChars depth v ++ rest) =
      tokenList v ++ Scan.tokens .between rest := by
  match v with
  | .null => rfl
  | .bool true => rfl
  | .bool false => rfl
  | .num n =>
      rw [prettyChars, tokenList]
      rw [IsLegible] at hv
      exact hv rest hrest
  | .str s =>
      rw [prettyChars, tokens_quote, tokenList]
      rfl
  | .arr [] =>
      rw [prettyChars, tokenList]
      rfl
  | .arr (item :: items) =>
      rw [IsLegible, ItemsLegible] at hv
      have hitem := tokens_prettyChars item hv.1 (depth + 1) (prettyItems depth items ++ rest)
        (endsNumber_prettyItems depth items rest)
      rw [prettyChars, tokenList]
      simp only [List.cons_append, List.append_assoc]
      rw [tokens_mark '[' .openArray rfl, tokens_newline, hitem,
        tokens_prettyItems items hv.2 depth rest]
  | .obj [] =>
      rw [prettyChars, tokenList]
      rfl
  | .obj ((key, value) :: members) =>
      rw [IsLegible, MembersLegible] at hv
      have hvalue := tokens_prettyChars value hv.1 (depth + 1)
        (prettyMembers depth members ++ rest) (endsNumber_prettyMembers depth members rest)
      rw [prettyChars, tokenList]
      simp only [List.cons_append, List.append_assoc]
      rw [tokens_mark '{' .openObject rfl, tokens_newline, tokens_quote,
        tokens_mark ':' .colon rfl, ← tokens_prettyMembers members hv.2 depth rest, ← hvalue]
      rfl

theorem tokens_prettyItems (items : List Json) (hv : ItemsLegible items) (depth : Nat)
    (rest : List Char) :
    Scan.tokens .between (prettyItems depth items ++ rest) =
      itemTokens items ++ Scan.tokens .between rest := by
  match items with
  | [] =>
      rw [prettyItems, itemTokens, List.append_assoc, tokens_newline]
      rfl
  | item :: items =>
      rw [ItemsLegible] at hv
      have hitem := tokens_prettyChars item hv.1 (depth + 1) (prettyItems depth items ++ rest)
        (endsNumber_prettyItems depth items rest)
      rw [prettyItems, itemTokens]
      simp only [List.cons_append, List.append_assoc]
      rw [tokens_mark ',' .comma rfl, tokens_newline, hitem,
        tokens_prettyItems items hv.2 depth rest]

theorem tokens_prettyMembers (members : List (String × Json)) (hv : MembersLegible members)
    (depth : Nat) (rest : List Char) :
    Scan.tokens .between (prettyMembers depth members ++ rest) =
      memberTokens members ++ Scan.tokens .between rest := by
  match members with
  | [] =>
      rw [prettyMembers, memberTokens, List.append_assoc, tokens_newline]
      rfl
  | (key, value) :: members =>
      rw [MembersLegible] at hv
      have hvalue := tokens_prettyChars value hv.1 (depth + 1)
        (prettyMembers depth members ++ rest) (endsNumber_prettyMembers depth members rest)
      rw [prettyMembers, memberTokens]
      simp only [List.cons_append, List.append_assoc]
      rw [tokens_mark ',' .comma rfl, tokens_newline, tokens_quote,
        tokens_mark ':' .colon rfl, ← tokens_prettyMembers members hv.2 depth rest, ← hvalue]
      rfl

end

theorem tokens_pretty {v : Json} (hv : v.IsLegible) : tokens v.pretty = tokenList v := by
  have h := tokens_prettyChars v hv 0 [] nofun
  rw [List.append_nil] at h
  rw [tokens, pretty, String.toList_ofList, h, Scan.tokens, Scan.finish, List.append_nil]

end Json

end LinearGrammar
