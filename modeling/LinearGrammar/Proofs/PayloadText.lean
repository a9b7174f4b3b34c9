import LinearGrammar.Proofs.JsonReading

/-!
# Payloads survive both written forms

A request body is written without a blank, a saved file with a line for every item. The two writers
follow a value side by side and share nothing but the strings in it, so that both are read back is
shown where they meet: the compact text of a value has the tokens that its pretty text has, and from
the tokens on there is only one value. In the compact text a number is followed at once by the mark
behind it, which is why `EndsNumber` has marks in it and not only line ends.

What remains is that each payload is taken apart as it was put together. No payload has a number, so
nothing is asked of its contents.
-/

namespace LinearGrammar

namespace Json

/-! ## Compact text -/

theorem endsNumber_compactItems (items : List Json) (rest : List Char) :
    EndsNumber (compactItems items ++ rest) := by
  cases items with
  | nil => exact fun c hc => .inr (.inl (Option.some.inj hc).symm)
  | cons item items => exact fun c hc => .inl (Option.some.inj hc).symm

theorem endsNumber_compactMembers (members : List (String × Json)) (rest : List Char) :
    EndsNumber (compactMembers members ++ rest) := by
  cases members with
  | nil => exact fun c hc => .inr (.inr (.inl (Option.some.inj hc).symm))
  | cons member members => exact fun c hc => .inl (Option.some.inj hc).symm

mutual

/-- The compact text of a value is read as its token list. -/
theorem tokens_compactChars (v : Json) (hv : v.IsLegible) (rest : List Char)
    (hrest : EndsNumber rest) :
    Scan.tokens .between (compactChars v ++ rest) = tokenList v ++ Scan.tokens .between rest := by
  match v with
  | .null => rfl
  | .bool true => rfl
  | .bool false => rfl
  | .num n =>
      rw [compactChars, tokenList]
      rw [IsLegible] at hv
      exact hv rest hrest
  | .str s =>
      rw [compactChars, tokens_quote, tokenList]
      rfl
  | .arr [] | .obj [] =>
      rw [compactChars, tokenList]
      rfl
  | .arr (item :: items) =>
      rw [IsLegible, ItemsLegible] at hv
      have hitem := tokens_compactChars item hv.1 (compactItems items ++ rest)
        (endsNumber_compactItems items rest)
      rw [compactChars, tokenList]
      simp only [List.cons_append, List.append_assoc]
      rw [tokens_mark '[' .openArray rfl, hitem, tokens_compactItems items hv.2 rest]
  | .obj ((key, value) :: members) =>
      rw [IsLegible, MembersLegible] at hv
      have hvalue := tokens_compactChars value hv.1 (compactMembers members ++ rest)
        (endsNumber_compactMembers members rest)
      rw [compactChars, tokenList]
      simp only [List.cons_append, List.append_assoc]
      rw [tokens_mark '{' .openObject rfl, tokens_quote, tokens_mark ':' .colon rfl, hvalue,
        tokens_compactMembers members hv.2 rest]

theorem tokens_compactItems (items : List Json) (hv : ItemsLegible items) (rest : List Char) :
    Scan.tokens .between (compactItems items ++ rest) =
      itemTokens items ++ Scan.tokens .between rest := by
  match items with
  | [] =>
      rw [compactItems, itemTokens]
      rfl
  | item :: items =>
      rw [ItemsLegible] at hv
      have hitem := tokens_compactChars item hv.1 (compactItems items ++ rest)
        (endsNumber_compactItems items rest)
      rw [compactItems, itemTokens]
      simp only [List.cons_append, List.append_assoc]
      rw [tokens_mark ',' .comma rfl, hitem, tokens_compactItems items hv.2 rest]

theorem tokens_compactMembers (members : List (String × Json)) (hv : MembersLegible members)
    (rest : List Char) :
    Scan.tokens .between (compactMembers members ++ rest) =
      memberTokens members ++ Scan.tokens .between rest := by
  match members with
  | [] =>
      rw [compactMembers, memberTokens]
      rfl
  | (key, value) :: members =>
      rw [MembersLegible] at hv
      have hvalue := tokens_compactChars value hv.1 (compactMembers members ++ rest)
        (endsNumber_compactMembers members rest)
      rw [compactMembers, memberTokens]
      simp only [List.cons_append, List.append_assoc]
      rw [tokens_mark ',' .comma rfl, tokens_quote, tokens_mark ':' .colon rfl, hvalue,
        tokens_compactMembers members hv.2 rest]

end

theorem tokens_compact {v : Json} (hv : v.IsLegible) : tokens v.compact = tokenList v := by
  have h := tokens_compactChars v hv [] nofun
  rw [List.append_nil] at h
  rw [tokens, compact, String.toList_ofList, h, Scan.tokens, Scan.finish, List.append_nil]

/-- Both texts of a value are read alike, by whatever reader. -/
theorem readText_compact {α : Type} (read : Reader α) {v : Json} (hv : v.IsLegible) :
    readText read v.compact = readText read v.pretty := by
  rw [readText, readText, tokens_compact hv, tokens_pretty hv]

/-- A payload that is read from the value written for it is read from both texts of the value. -/
theorem readText_of_ofJson {α : Type} {read : Reader α} {v : Json} {a : α} (hv : v.IsLegible)
    (h : read (Document.ofJson v) = .ok a) :
    readText read v.compact = .ok a ∧ readText read v.pretty = .ok a := by
  rw [readText_compact read hv, readText_pretty read hv]
  exact ⟨h, h⟩

end Json

open Json

/-! ## Payloads -/

theorem CheckRequest.isLegible_toJson (r : CheckRequest) : r.toJson.IsLegible := by
  simp [CheckRequest.toJson, IsLegible, MembersLegible]

theorem CheckRequest.read_ofJson (r : CheckRequest) :
    CheckRequest.read (Document.ofJson r.toJson) = .ok r := by
  simp [CheckRequest.toJson, CheckRequest.read, ofJson_obj, Document.ofMembers, RecordShape.read,
    RecordShape.readMembers, CheckRequest.shape, Field.of, RecordShape.finish, Except.map]

theorem CheckResponse.isLegible_toJson (r : CheckResponse) : r.toJson.IsLegible := by
  have hproducts : ItemsLegible (r.derivativeProducts.map WireRule.toJson) :=
    itemsLegible_map fun w _ => w.isLegible_toJson
  simp [CheckResponse.toJson, isLegible_texts, IsLegible, MembersLegible, hproducts]

theorem CheckResponse.read_ofJson (r : CheckResponse) :
    CheckResponse.read (Document.ofJson r.toJson) = .ok r := by
  have hproducts : readList WireRule.read
      (Document.ofJson (.arr (r.derivativeProducts.map WireRule.toJson))) =
        .ok r.derivativeProducts :=
    readList_ofJson fun w _ => w.read_ofJson
  simp [CheckResponse.toJson, CheckResponse.read, ofJson_obj, Document.ofMembers, RecordShape.read,
    RecordShape.readMembers, CheckResponse.shape, Field.of, RecordShape.finish, Except.map,
    hproducts]

/-- Whatever is in a payload, its compact text and its pretty text are both read as just that
payload. -/
theorem Json.readText_payload :
    (∀ s : Submission, readText Submission.read s.toJson.compact = .ok s ∧
      readText Submission.read s.toJson.pretty = .ok s) ∧
    (∀ r : CheckRequest, readText CheckRequest.read r.toJson.compact = .ok r ∧
      readText CheckRequest.read r.toJson.pretty = .ok r) ∧
    (∀ r : CheckResponse, readText CheckResponse.read r.toJson.compact = .ok r ∧
      readText CheckResponse.read r.toJson.pretty = .ok r) :=
  ⟨fun s => readText_of_ofJson s.isLegible_toJson s.read_ofJson,
    fun r => readText_of_ofJson r.isLegible_toJson r.read_ofJson,
    fun r => readText_of_ofJson r.isLegible_toJson r.read_ofJson⟩

end LinearGrammar
