import LinearGrammar.Proofs.JsonText
import LinearGrammar.Service.Codec

/-!
# A written value is read back

The tokens of a value build the document that says just this value, because a value's tokens do the
same to the builder wherever a value may stand: they close everything they open and leave `afterValue`
to go on with the containers around them. So reading the text of a value is reading its document, for
every reader there is, and what is left to show of a payload is that its own reader takes the
document apart the way the payload was put together.
-/

namespace LinearGrammar

namespace Json

/-! ## Documents of values -/

/-- A value's first token is no end of an array, so a value may be the first item. -/
theorem foldl_tokenList_first (v : Json) (done : List Document) (stack : List Open) :
    (tokenList v).foldl Building.step (.first (.items done :: stack)) =
      (tokenList v).foldl Building.step (.value (.items done :: stack)) := by
  match v with
  | .null | .bool _ | .num _ | .str _ | .arr [] | .obj [] =>
      rw [tokenList]
      rfl
  | .arr (item :: items) =>
      rw [tokenList]
      rfl
  | .obj ((key, value) :: members) =>
      rw [tokenList]
      rfl

mutual

theorem foldl_tokenList (v : Json) (stack : List Open) :
    (tokenList v).foldl Building.step (.value stack) =
      Building.afterValue (Document.ofJson v) stack := by
  match v with
  | .null | .bool _ | .num _ | .str _ | .arr [] | .obj [] =>
      rw [tokenList, Document.ofJson]
      rfl
  | .arr (item :: items) =>
      rw [tokenList, List.foldl_cons, List.foldl_append]
      change (itemTokens items).foldl Building.step
        ((tokenList item).foldl Building.step (.first (.items [] :: stack))) = _
      rw [foldl_tokenList_first, foldl_tokenList item]
      exact foldl_itemTokens items [Document.ofJson item] stack
  | .obj ((key, value) :: members) =>
      rw [tokenList, List.foldl_cons, List.foldl_cons, List.foldl_cons, List.foldl_append]
      change (memberTokens members).foldl Building.step
        ((tokenList value).foldl Building.step
          (.value (.members [] (some (some key)) :: stack))) = _
      rw [foldl_tokenList value]
      exact foldl_memberTokens members [(some key, Document.ofJson value)] stack

theorem foldl_itemTokens (items : List Json) (done : List Document) (stack : List Open) :
    (itemTokens items).foldl Building.step (.next (.items done :: stack)) =
      Building.afterValue (.arr (done.reverse ++ Document.ofItems items)) stack := by
  match items with
  | [] =>
      rw [itemTokens, Document.ofItems, List.append_nil]
      rfl
  | item :: items =>
      rw [itemTokens, List.foldl_cons, List.foldl_append]
      change (itemTokens items).foldl Building.step
        ((tokenList item).foldl Building.step (.value (.items done :: stack))) = _
      rw [foldl_tokenList item, Document.ofItems]
      have h := foldl_itemTokens items (Document.ofJson item :: done) stack
      rw [List.reverse_cons, List.append_assoc, List.singleton_append] at h
      exact h

theorem foldl_memberTokens (members : List (String × Json))
    (done : List (Option String × Document)) (stack : List Open) :
    (memberTokens members).foldl Building.step (.next (.members done none :: stack)) =
      Building.afterValue (.obj (done.reverse ++ Document.ofMembers members)) stack := by
  match members with
  | [] =>
      rw [memberTokens, Document.ofMembers, List.append_nil]
      rfl
  | (key, value) :: members =>
      rw [memberTokens, List.foldl_cons, List.foldl_cons, List.foldl_cons, List.foldl_append]
      change (memberTokens members).foldl Building.step
        ((tokenList value).foldl Building.step
          (.value (.members done (some (some key)) :: stack))) = _
      rw [foldl_tokenList value, Document.ofMembers]
      have h := foldl_memberTokens members ((some key, Document.ofJson value) :: done) stack
      rw [List.reverse_cons, List.append_assoc, List.singleton_append] at h
      exact h

end

theorem ofTokens_tokenList (v : Json) :
    Document.ofTokens (tokenList v) = (Document.ofJson v, true) := by
  rw [Document.ofTokens, foldl_tokenList]
  rfl

/-- Reading the pretty text of a value is reading the document that says the value. -/
theorem readText_pretty {α : Type} (read : Reader α) {v : Json} (hv : v.IsLegible) :
    readText read v.pretty = read (Document.ofJson v) := by
  rw [readText, tokens_pretty hv, readTokens, ofTokens_tokenList]
  simp only [if_true]
  split
  · next heq => exact heq.symm
  · next heq => exact heq.symm

/-! ## Lists -/

theorem itemsLegible_map {α : Type} {f : α → Json} {l : List α}
    (h : ∀ a ∈ l, (f a).IsLegible) : ItemsLegible (l.map f) := by
  induction l with
  | nil => rw [List.map_nil, ItemsLegible]; trivial
  | cons a rest ih =>
      rw [List.map_cons, ItemsLegible]
      exact ⟨h a List.mem_cons_self, ih fun b hb => h b (List.mem_cons_of_mem a hb)⟩

theorem readList_ofJson {α : Type} {read : Reader α} {f : α → Json} {l : List α}
    (h : ∀ a ∈ l, read (Document.ofJson (f a)) = .ok a) :
    readList read (Document.ofJson (.arr (l.map f))) = .ok l := by
  rw [Document.ofJson, readList]
  induction l with
  | nil => rw [List.map_nil, Document.ofItems]; rfl
  | cons a rest ih =>
      rw [List.map_cons, Document.ofItems, readItems, h a List.mem_cons_self,
        ih fun b hb => h b (List.mem_cons_of_mem a hb)]

theorem isLegible_texts (l : List String) : (texts l).IsLegible := by
  rw [texts, IsLegible]
  refine itemsLegible_map fun s _ => ?_
  simp [IsLegible]

theorem ofJson_obj (members : List (String × Json)) :
    Document.ofJson (.obj members) = .obj (Document.ofMembers members) := by
  rw [Document.ofJson]

@[simp] theorem readString_ofJson (s : String) : readString (Document.ofJson (.str s)) = .ok s := by
  rw [Document.ofJson]
  rfl

@[simp] theorem readList_texts (l : List String) :
    readList readString (Document.ofJson (.texts l)) = .ok l :=
  readList_ofJson fun s _ => readString_ofJson s

end Json

open Json

/-! ## Payloads -/

theorem WireRule.isLegible_toJson (r : WireRule) : r.toJson.IsLegible := by
  simp [WireRule.toJson, IsLegible, MembersLegible]

theorem WireRule.read_ofJson (r : WireRule) :
    WireRule.read (Document.ofJson r.toJson) = .ok r := by
  simp [WireRule.toJson, WireRule.read, ofJson_obj, Document.ofMembers, RecordShape.read,
    RecordShape.readMembers, WireRule.shape, Field.of, RecordShape.finish, Except.map]

theorem Submission.isLegible_toJson (s : Submission) : s.toJson.IsLegible := by
  have hrules : ItemsLegible (s.productionRules.map WireRule.toJson) :=
    itemsLegible_map fun r _ => r.isLegible_toJson
  simp [Submission.toJson, isLegible_texts, IsLegible, MembersLegible, hrules]

theorem Submission.read_ofJson (s : Submission) :
    Submission.read (Document.ofJson s.toJson) = .ok s := by
  have hrules : readList WireRule.read
      (Document.ofJson (.arr (s.productionRules.map WireRule.toJson))) = .ok s.productionRules :=
    readList_ofJson fun r _ => r.read_ofJson
  simp [Submission.toJson, Submission.read, ofJson_obj, Document.ofMembers, RecordShape.read,
    RecordShape.readMembers, Submission.shape, Field.of, RecordShape.finish, Except.map, hrules]

end LinearGrammar
