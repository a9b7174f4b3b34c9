import LinearGrammar.Proofs.IntegerText
import LinearGrammar.Proofs.JsonReading
import LinearGrammar.Proofs.PrettyLines

/-!
# A tree that is shown as text can be read off

An answer of the service that has no name at its root is shown as pretty JSON, so that nothing of it is
hidden. That is worth something only if the lines say exactly what came. They do: put together again
they are the pretty text, and from the text the very value is read.

For the value three things are asked. Its numbers are integers of 64 bits, as a double may be read a last
place off. Its containers are not nested deeper than a reader goes. And the keys of its objects are in
order, each once. The last two hold of every value that a reader makes, whatever text it reads
(`isKept_of_toJson?`), so of the values that ever come from the service only those with doubles in them
are left out (`readText_readText`). They are also all that can be asked: a reader counts containers and
sorts members as it goes, and no value is read from its own text without them.
-/

namespace LinearGrammar.Json

/-! ## What is in a value -/

mutual

/-- The value itself and all values in it. -/
def parts : Json → List Json
  | .arr items => .arr items :: itemParts items
  | .obj members => .obj members :: memberParts members
  | v => [v]

def itemParts : List Json → List Json
  | [] => []
  | item :: rest => parts item ++ itemParts rest

def memberParts : List (String × Json) → List Json
  | [] => []
  | (_, value) :: rest => parts value ++ memberParts rest

end

mutual

/-- How many containers stand around the innermost place of the value. -/
def nesting : Json → Nat
  | .arr items => itemNesting items + 1
  | .obj members => memberNesting members + 1
  | _ => 0

def itemNesting : List Json → Nat
  | [] => 0
  | item :: rest => max (nesting item) (itemNesting rest)

def memberNesting : List (String × Json) → Nat
  | [] => 0
  | (_, value) :: rest => max (nesting value) (memberNesting rest)

end

/-- The keys of every object among these values are in order, each once. -/
def KeysInOrder (values : List Json) : Prop :=
  ∀ members, .obj members ∈ values → (members.map Prod.fst).Pairwise (· < ·)

/-- The keys of every object in the value are in order, each once. -/
def IsOrdered (v : Json) : Prop := KeysInOrder v.parts

/-- Every number in the value is held as a 64-bit integer. -/
def IsIntegral (v : Json) : Prop := ∀ n, .num n ∈ v.parts → n.IsWord

/-! ## Numbers -/

mutual

theorem isLegible_of_parts (v : Json) (h : ∀ n, .num n ∈ v.parts → n.IsWord) : v.IsLegible := by
  match v with
  | .null | .bool _ | .str _ => simp [IsLegible]
  | .num n =>
      rw [IsLegible]
      exact Number.isLegible_of_isWord (h n (by simp [parts]))
  | .arr items =>
      rw [IsLegible]
      exact itemsLegible_of_parts items fun n hn => h n (by simp [parts, hn])
  | .obj members =>
      rw [IsLegible]
      exact membersLegible_of_parts members fun n hn => h n (by simp [parts, hn])

theorem itemsLegible_of_parts (items : List Json) (h : ∀ n, .num n ∈ itemParts items → n.IsWord) :
    ItemsLegible items := by
  match items with
  | [] => simp [ItemsLegible]
  | item :: rest =>
      rw [ItemsLegible]
      exact ⟨isLegible_of_parts item fun n hn => h n (by simp [itemParts, hn]),
        itemsLegible_of_parts rest fun n hn => h n (by simp [itemParts, hn])⟩

theorem membersLegible_of_parts (members : List (String × Json))
    (h : ∀ n, .num n ∈ memberParts members → n.IsWord) : MembersLegible members := by
  match members with
  | [] => simp [MembersLegible]
  | (key, value) :: rest =>
      rw [MembersLegible]
      exact ⟨isLegible_of_parts value fun n hn => h n (by simp [memberParts, hn]),
        membersLegible_of_parts rest fun n hn => h n (by simp [memberParts, hn])⟩

end

/-! ## Members in order -/

theorem keysInOrder_append {values more : List Json} :
    KeysInOrder (values ++ more) ↔ KeysInOrder values ∧ KeysInOrder more := by
  simp only [KeysInOrder, List.mem_append]
  constructor
  · intro h
    exact ⟨fun members hm => h members (.inl hm), fun members hm => h members (.inr hm)⟩
  · rintro ⟨hvalues, hmore⟩ members (hm | hm)
    · exact hvalues members hm
    · exact hmore members hm

theorem keysInOrder_parts_arr {items : List Json} :
    KeysInOrder (parts (.arr items)) ↔ KeysInOrder (itemParts items) := by
  simp [KeysInOrder, parts]

theorem keysInOrder_parts_obj {members : List (String × Json)} :
    KeysInOrder (parts (.obj members)) ↔
      (members.map Prod.fst).Pairwise (· < ·) ∧ KeysInOrder (memberParts members) := by
  simp [KeysInOrder, parts]

theorem keysInOrder_memberParts_iff {members : List (String × Json)} :
    KeysInOrder (memberParts members) ↔ ∀ m ∈ members, IsOrdered m.2 := by
  induction members with
  | nil => simp [KeysInOrder, memberParts]
  | cons member rest ih =>
      rw [memberParts, keysInOrder_append, ih, List.forall_mem_cons]
      rfl

theorem memberNesting_le_iff {members : List (String × Json)} {depth : Nat} :
    memberNesting members ≤ depth ↔ ∀ m ∈ members, m.2.nesting ≤ depth := by
  induction members with
  | nil => simp [memberNesting]
  | cons member rest ih => rw [memberNesting, Nat.max_le, ih, List.forall_mem_cons]

section Insertion

variable {key : String} {value : Json} {done : List (String × Json)}

theorem mem_insertMember {m : String × Json} (h : m ∈ Document.insertMember key value done) :
    m = (key, value) ∨ m ∈ done := by
  induction done with
  | nil => exact .inl (List.mem_singleton.1 h)
  | cons member rest ih =>
      rw [Document.insertMember] at h
      split at h
      · exact (List.mem_cons.1 h).imp_right (List.mem_cons_of_mem member)
      · split at h
        · exact List.mem_cons.1 h
        · rcases List.mem_cons.1 h with rfl | h
          · exact .inr List.mem_cons_self
          · exact (ih h).imp_right (List.mem_cons_of_mem member)

theorem insertMember_of_last (h : ∀ k ∈ done.map Prod.fst, k < key) :
    Document.insertMember key value done = done ++ [(key, value)] := by
  induction done with
  | nil => rfl
  | cons member rest ih =>
      obtain ⟨k, v⟩ := member
      obtain ⟨hk, hrest⟩ := List.forall_mem_cons.1 h
      have hne : key ≠ k := (String.ne_of_lt hk).symm
      rw [Document.insertMember, if_neg hne, if_neg (String.lt_asymm hk), ih hrest,
        List.cons_append]

theorem lt_of_not_le {k : String} (hne : key ≠ k) (hnot : ¬ key < k) : k < key := by
  by_contra hge
  exact hne (String.le_antisymm (String.not_lt.1 hge) (String.not_lt.1 hnot))

theorem pairwise_insertMember (h : (done.map Prod.fst).Pairwise (· < ·)) :
    ((Document.insertMember key value done).map Prod.fst).Pairwise (· < ·) := by
  induction done with
  | nil => exact List.pairwise_singleton _ _
  | cons member rest ih =>
      obtain ⟨k, v⟩ := member
      obtain ⟨hk, hrest⟩ := List.pairwise_cons.1 h
      rw [Document.insertMember]
      split
      · next heq =>
          rw [heq]
          exact h
      · next hne =>
          split
          · next hlt =>
              refine List.pairwise_cons.2 ⟨fun k' hk' => ?_, h⟩
              rcases List.mem_cons.1 hk' with rfl | hk'
              · exact hlt
              · exact String.lt_trans hlt (hk k' hk')
          · next hnot =>
              refine List.pairwise_cons.2 ⟨fun k' hk' => ?_, ih hrest⟩
              obtain ⟨m, hm, rfl⟩ := List.mem_map.1 hk'
              rcases mem_insertMember hm with rfl | hm
              · exact lt_of_not_le hne hnot
              · exact hk m.1 (List.mem_map_of_mem hm)

end Insertion

/-! ## Values are made in order -/

/-- A value as a reader keeps it that goes down `depth` containers. -/
structure IsKept (depth : Nat) (v : Json) : Prop where
  ordered : v.IsOrdered
  nesting : v.nesting ≤ depth

/-- The members of an object as such a reader keeps them. -/
structure AreKept (depth : Nat) (members : List (String × Json)) : Prop where
  pairwise : (members.map Prod.fst).Pairwise (· < ·)
  kept : ∀ m ∈ members, IsKept depth m.2

theorem AreKept.insertMember {depth : Nat} {key : String} {value : Json}
    {done : List (String × Json)} (hdone : AreKept depth done) (hvalue : IsKept depth value) :
    AreKept depth (Document.insertMember key value done) where
  pairwise := pairwise_insertMember hdone.pairwise
  kept m hm := by
    rcases mem_insertMember hm with rfl | hm
    · exact hvalue
    · exact hdone.kept m hm

theorem AreKept.isKept {depth : Nat} {members : List (String × Json)}
    (h : AreKept depth members) : IsKept (depth + 1) (.obj members) where
  ordered := keysInOrder_parts_obj.2
    ⟨h.pairwise, keysInOrder_memberParts_iff.2 fun m hm => (h.kept m hm).ordered⟩
  nesting := by
    rw [Json.nesting]
    exact Nat.succ_le_succ (memberNesting_le_iff.2 fun m hm => (h.kept m hm).nesting)

open Document in
mutual

/-- Whatever the document is, its value comes out in order and not nested too deeply. -/
theorem isKept_of_toJson? (d : Document) {depth : Nat} {v : Json}
    (h : d.toJson? depth = some v) : IsKept depth v := by
  match d, depth with
  | .null, _ | .bool _, _ =>
      rw [toJson?] at h
      cases h
      constructor <;> simp [IsOrdered, KeysInOrder, parts, nesting]
  | .num _, _ | .str _, _ =>
      rw [toJson?] at h
      obtain ⟨_, _, rfl⟩ := Option.map_eq_some_iff.1 h
      constructor <;> simp [IsOrdered, KeysInOrder, parts, nesting]
  | .arr _, 0 | .obj _, 0 | .broken, _ =>
      rw [toJson?] at h
      cases h
  | .arr items, depth + 1 =>
      rw [toJson?] at h
      obtain ⟨values, hvalues, rfl⟩ := Option.map_eq_some_iff.1 h
      obtain ⟨hordered, hdepth⟩ := isKept_of_toItems? items hvalues
      refine ⟨keysInOrder_parts_arr.2 hordered, ?_⟩
      rw [nesting]
      exact Nat.succ_le_succ hdepth
  | .obj members, depth + 1 =>
      rw [toJson?] at h
      obtain ⟨values, hvalues, rfl⟩ := Option.map_eq_some_iff.1 h
      exact (areKept_of_toMembers? members hvalues ⟨List.Pairwise.nil, by simp⟩).isKept

theorem isKept_of_toItems? (items : List Document) {depth : Nat} {values : List Json}
    (h : toItems? depth items = some values) :
    KeysInOrder (itemParts values) ∧ itemNesting values ≤ depth := by
  match items with
  | [] =>
      rw [toItems?] at h
      cases h
      simp [KeysInOrder, itemParts, itemNesting]
  | item :: rest =>
      rw [toItems?] at h
      split at h
      · next hitem hrest =>
          cases h
          have hkept := isKept_of_toJson? item hitem
          obtain ⟨hordered, hdepth⟩ := isKept_of_toItems? rest hrest
          rw [itemParts, keysInOrder_append, itemNesting, Nat.max_le]
          exact ⟨⟨hkept.ordered, hordered⟩, hkept.nesting, hdepth⟩
      · cases h

theorem areKept_of_toMembers? (members : List (Option String × Document)) {depth : Nat}
    {done values : List (String × Json)} (h : toMembers? depth members done = some values)
    (hdone : AreKept depth done) : AreKept depth values := by
  match members with
  | [] =>
      rw [toMembers?] at h
      cases h
      exact hdone
  | (none, _) :: _ =>
      rw [toMembers?] at h
      cases h
  | (some key, value) :: rest =>
      rw [toMembers?] at h
      split at h
      · next v hv =>
          exact areKept_of_toMembers? rest h (hdone.insertMember (isKept_of_toJson? value hv))
      · cases h

end

/-! ## Ordered values are read back -/

open Document in
mutual

/-- From its own document a value is made again, if its containers are not nested too deeply. -/
theorem toJson?_ofJson (v : Json) (hv : v.IsOrdered) (depth : Nat) :
    (ofJson v).toJson? depth = if v.nesting ≤ depth then some v else none := by
  match v, depth with
  | .null, _ | .bool _, _ | .num _, _ | .str _, _ => simp [ofJson, toJson?, nesting]
  | .arr _, 0 | .obj _, 0 => simp [ofJson, toJson?, nesting]
  | .arr items, depth + 1 =>
      have hitems := keysInOrder_parts_arr.1 hv
      rw [ofJson, toJson?, nesting, toItems?_ofItems items hitems]
      simp only [Nat.add_le_add_iff_right]
      split <;> rfl
  | .obj members, depth + 1 =>
      obtain ⟨hkeys, hmembers⟩ := keysInOrder_parts_obj.1 hv
      rw [ofJson, toJson?, nesting, toMembers?_ofMembers members hmembers [] hkeys]
      simp only [Nat.add_le_add_iff_right]
      split <;> rfl

theorem toItems?_ofItems (items : List Json) (hitems : KeysInOrder (itemParts items))
    (depth : Nat) :
    toItems? depth (ofItems items) = if itemNesting items ≤ depth then some items else none := by
  match items with
  | [] => simp [ofItems, toItems?, itemNesting]
  | item :: rest =>
      rw [itemParts, keysInOrder_append] at hitems
      rw [ofItems, toItems?, toJson?_ofJson item hitems.1, toItems?_ofItems rest hitems.2]
      simp only [itemNesting, Nat.max_le]
      by_cases hitem : item.nesting ≤ depth <;> by_cases hrest : itemNesting rest ≤ depth <;>
        simp [hitem, hrest]

/-- Each member in turn is put behind those that are done. -/
theorem toMembers?_ofMembers (members : List (String × Json))
    (hmembers : KeysInOrder (memberParts members)) (done : List (String × Json))
    (hkeys : ((done ++ members).map Prod.fst).Pairwise (· < ·)) (depth : Nat) :
    toMembers? depth (ofMembers members) done =
      if memberNesting members ≤ depth then some (done ++ members) else none := by
  match members with
  | [] => simp [ofMembers, toMembers?, memberNesting]
  | (key, value) :: rest =>
      rw [memberParts, keysInOrder_append] at hmembers
      have hlast : ∀ k ∈ done.map Prod.fst, k < key := by
        rw [List.map_append, List.pairwise_append] at hkeys
        exact fun k hk => hkeys.2.2 k hk key List.mem_cons_self
      rw [List.append_cons] at hkeys ⊢
      rw [ofMembers, toMembers?, toJson?_ofJson value hmembers.1]
      simp only [memberNesting, Nat.max_le]
      by_cases hvalue : value.nesting ≤ depth
      · simp only [if_pos hvalue, insertMember_of_last hlast]
        rw [toMembers?_ofMembers rest hmembers.2 _ hkeys]
        simp [hvalue]
      · simp [hvalue]

end

/-! ## The lines of a value -/

theorem readValue_eq_ok_iff {d : Document} {v : Json} :
    readValue d = .ok v ↔ d.toJson? Document.nestingLimit = some v := by
  rw [readValue]
  split
  · next heq => simp [heq]
  · next heq => simp [heq]

/-- What was read from any text is read again from the text it is written as. -/
theorem readText_readText {text : String} {v : Json} (hread : readText readValue text = .ok v)
    (hv : v.IsIntegral) : readText readValue v.pretty = .ok v := by
  rw [readText, readTokens] at hread
  simp only at hread
  split at hread
  · cases hread
  · next heq =>
      split at hread
      · cases hread
        have hkept := isKept_of_toJson? _ (readValue_eq_ok_iff.1 heq)
        rw [readText_pretty readValue (isLegible_of_parts _ hv), readValue_eq_ok_iff,
          toJson?_ofJson _ hkept.ordered, if_pos hkept.nesting]
      · cases hread

/-- The lines that show a value without a name are its pretty text, and no line is cut in two. The
value is read from that text if its keys are in order and its containers are not nested deeper than
a reader goes, and only then. -/
theorem treeLines_lose_nothing (v : Json) (hname : v.get? "name" = none) :
    String.intercalate "\n" v.treeLines = v.pretty ∧
    (∀ line ∈ v.treeLines, '\n' ∉ line.toList) ∧
    (v.IsIntegral → (readText readValue v.pretty = .ok v ↔
      v.IsOrdered ∧ v.nesting ≤ Document.nestingLimit)) := by
  have hlines : v.treeLines = Text.lines v.pretty := by
    rw [treeLines, hname]
    rfl
  rw [hlines]
  refine ⟨(lines_pretty v).1, (lines_pretty v).2, fun hv => ?_⟩
  rw [readText_pretty readValue (isLegible_of_parts v hv), readValue_eq_ok_iff]
  constructor
  · intro h
    have hkept := isKept_of_toJson? _ h
    exact ⟨hkept.ordered, hkept.nesting⟩
  · rintro ⟨hordered, hdepth⟩
    rw [toJson?_ofJson v hordered, if_pos hdepth]

/-- A tree whose name is not at its root, with line ends and separators in its texts and with the
least and the greatest integer. -/
def snarled : Json :=
  .obj [
    ("\r\n \u2028\"", .arr [.obj [], .arr [], .str "a\r\nb\n", .str "\x0b\u0085\r"]),
    ("tree", .obj [
      ("children", .arr [.num (.int (-9223372036854775808)), .num (.int 18446744073709551615)]),
      ("name", .str "S")])]

theorem treeLines_lose_nothing_snarled :
    snarled.get? "name" = none ∧
      String.intercalate "\n" snarled.treeLines = snarled.pretty ∧
      (∀ line ∈ snarled.treeLines, '\n' ∉ line.toList) ∧
      readText readValue snarled.pretty = .ok snarled := by
  have hname : snarled.get? "name" = none := by decide +kernel
  have hintegral : snarled.IsIntegral := by
    simp [snarled, IsIntegral, parts, itemParts, memberParts, Number.IsWord]
  have hordered : snarled.IsOrdered := by
    have houter : "\r\n \u2028\"" < "tree" := by decide +kernel
    have hinner : "children" < "name" := by decide +kernel
    refine keysInOrder_parts_obj.2 ⟨List.pairwise_pair.2 houter, keysInOrder_memberParts_iff.2 ?_⟩
    refine List.forall_mem_cons.2 ⟨?_, List.forall_mem_cons.2 ⟨?_, nofun⟩⟩
    · simp [IsOrdered, KeysInOrder, parts, itemParts, memberParts]
    · refine keysInOrder_parts_obj.2 ⟨List.pairwise_pair.2 hinner, ?_⟩
      simp [KeysInOrder, parts, itemParts, memberParts]
  have hdepth : snarled.nesting ≤ Document.nestingLimit := by decide +kernel
  obtain ⟨hlines, hwhole, hread⟩ := treeLines_lose_nothing snarled hname
  exact ⟨hname, hlines, hwhole, (hread hintegral).2 ⟨hordered, hdepth⟩⟩

end LinearGrammar.Json
