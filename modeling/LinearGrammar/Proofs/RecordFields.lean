import LinearGrammar.Proofs.WellFormed
import LinearGrammar.Service.Codec

/-!
# What a record was read from

A record is put together in a draft, one field after the other, in the order of the document and not
in that of the declaration. What is in the record must still be told field by field: what a document
says of a field is what the record holds there, and of a field that it says nothing of, nothing is in
the draft. It is a frame law that carries this. A field that is read changes no other field of the
draft, so what one member put there is still there at the end, and a second member of the same name is
refused before it could replace the first.
-/

namespace LinearGrammar

namespace Json

variable {α β δ : Type}

theorem mapM_read {read : Reader β} {d : Document} {b : β} (h : read d = .ok b) :
    (some d).mapM read = .ok (some b) := by
  change (read d).map some = _
  rw [h]
  rfl

/-- What a document says of a field: the member of that name, or the item in that place. -/
def RecordShape.said? (shape : RecordShape δ α) (name : String) : Document → Option Document
  | .obj members => members.lookup (some name)
  | .arr items => items[shape.fields.findIdx (·.name == name)]?
  | _ => none

/-- Reading the field leaves that part of a draft alone. -/
def Field.Spares (get : δ → Option β) (f : Field δ) : Prop :=
  ∀ draft d next, f.read draft d = .ok next → get next = get draft

theorem Field.spares_of {γ : Type} {name : String} {get : δ → Option β} {get' : δ → Option γ}
    {set' : δ → γ → δ} {read' : Reader γ} (h : ∀ draft c, get (set' draft c) = get draft) :
    (Field.of name get' set' read').Spares get := by
  intro draft d next heq
  obtain ⟨c, -, rfl⟩ := exists_of_map_eq_ok heq
  exact h draft c

/-- A field of a record, with a name and a part of the draft that no other field has. -/
structure RecordShape.HasField (shape : RecordShape δ α) (before after : List (Field δ))
    (name : String) (get : δ → Option β) (set : δ → β → δ) (read : Reader β) : Prop where
  fields : shape.fields = before ++ .of name get set read :: after
  other_name : ∀ f ∈ before ++ after, f.name ≠ name
  other_spares : ∀ f ∈ before ++ after, f.Spares get
  get_set : ∀ draft b, get (set draft b) = some b
  get_blank : get shape.blank = none

namespace RecordShape.HasField

variable {shape : RecordShape δ α} {before after : List (Field δ)} {name : String}
  {get : δ → Option β} {set : δ → β → δ} {read : Reader β}
  (hf : shape.HasField before after name get set read)

include hf

theorem find?_eq : shape.fields.find? (·.name == name) = some (.of name get set read) := by
  have hother : ∀ f ∈ before, ¬ (f.name == name) = true := by
    intro f hmem heq
    exact hf.other_name f (List.mem_append_left _ hmem) (beq_iff_eq.1 heq)
  rw [hf.fields, List.find?_append, List.find?_eq_none.2 hother, Option.none_or,
    List.find?_cons_of_pos (by simp [Field.of])]

theorem findIdx_eq : shape.fields.findIdx (·.name == name) = before.length := by
  have hbefore : before.findIdx (·.name == name) = before.length := by
    rw [List.findIdx_eq_length]
    intro f hmem
    rw [beq_eq_false_iff_ne]
    exact hf.other_name f (List.mem_append_left _ hmem)
  rw [hf.fields, List.findIdx_append, hbefore, if_neg (lt_irrefl _)]
  simp [List.findIdx_cons, Field.of]

theorem spares_of_mem {f : Field δ} (hmem : f ∈ shape.fields) (hname : f.name ≠ name) :
    f.Spares get := by
  rw [hf.fields] at hmem
  rcases List.mem_append.1 hmem with hmem | hmem
  · exact hf.other_spares f (List.mem_append_left _ hmem)
  · rcases List.mem_cons.1 hmem with rfl | hmem
    · exact absurd rfl hname
    · exact hf.other_spares f (List.mem_append_right _ hmem)

/-! ## Members of an object -/

/-- A member is read into the field, into no other, or into none at all. -/
theorem readMembers_cons {key? : Option String} {value : Document}
    {rest : List (Option String × Document)} {draft final : δ}
    (h : shape.readMembers ((key?, value) :: rest) draft = .ok final) :
    ∃ key next, key? = some key ∧ shape.readMembers rest next = .ok final ∧
      ((key = name ∧ get draft = none ∧ ∃ b, read value = .ok b ∧ get next = some b) ∨
        (key ≠ name ∧ get next = get draft)) := by
  cases key? with
  | none => cases h
  | some key =>
      by_cases hkey : key = name
      · subst hkey
        rw [readMembers, hf.find?_eq] at h
        simp only [] at h
        split at h
        · cases h
        · next hset =>
            split at h
            · cases h
            · next next hread =>
                obtain ⟨b, hb, rfl⟩ := exists_of_map_eq_ok hread
                have hnone : get draft = none := by simpa [Field.of] using hset
                exact ⟨key, _, rfl, h, .inl ⟨rfl, hnone, b, hb, hf.get_set draft b⟩⟩
      · rw [readMembers] at h
        split at h
        · split at h
          · exact ⟨key, draft, rfl, h, .inr ⟨hkey, rfl⟩⟩
          · cases h
        · next f hfind =>
            have hname := List.find?_some hfind
            rw [beq_iff_eq] at hname
            split at h
            · cases h
            · split at h
              · cases h
              · next next hread =>
                  have hspares := hf.spares_of_mem (List.mem_of_find?_eq_some hfind) (hname ▸ hkey)
                  exact ⟨key, next, rfl, h, .inr ⟨hkey, hspares _ _ _ hread⟩⟩

theorem get_readMembers {members : List (Option String × Document)} {draft final : δ}
    (h : shape.readMembers members draft = .ok final) :
    (∀ b, get draft = some b → get final = some b) ∧
      (get draft = none → (members.lookup (some name)).mapM read = .ok (get final)) := by
  induction members generalizing draft with
  | nil =>
      cases h
      refine ⟨fun b hb => hb, fun hnone => ?_⟩
      rw [hnone]
      rfl
  | cons m rest ih =>
      obtain ⟨key?, value⟩ := m
      obtain ⟨key, next, rfl, hrest, ⟨rfl, hnone, b, hb, hnext⟩ | ⟨hkey, hnext⟩⟩ :=
        hf.readMembers_cons h
      · refine ⟨fun c hc => ?_, fun _ => ?_⟩
        · rw [hnone] at hc
          cases hc
        · rw [List.lookup_cons_self, (ih hrest).1 b hnext, mapM_read hb]
      · have hother : (some name == some key) = false := by simpa using Ne.symm hkey
        rw [List.lookup_cons, hother, ← hnext]
        exact ih hrest

end RecordShape.HasField

/-! ## Items of an array -/

theorem RecordShape.readFields_append (fields more : List (Field δ)) (items : List Document)
    (draft : δ) : readFields (fields ++ more) items draft =
      match readFields fields items draft with
      | .error e => .error e
      | .ok (rest, draft) => readFields more rest draft := by
  induction fields generalizing items draft with
  | nil => rfl
  | cons f fields ih =>
      cases items with
      | nil =>
          cases more <;> rfl
      | cons item items =>
          rw [List.cons_append, readFields, readFields]
          split
          · rfl
          · exact ih items _

theorem RecordShape.readFields_of_spares {get : δ → Option β} {fields : List (Field δ)}
    (hfields : ∀ f ∈ fields, f.Spares get) {items rest : List Document} {draft final : δ}
    (h : readFields fields items draft = .ok (rest, final)) :
    get final = get draft ∧ rest = items.drop fields.length := by
  induction fields generalizing items draft with
  | nil =>
      cases h
      exact ⟨rfl, rfl⟩
  | cons f fields ih =>
      cases items with
      | nil =>
          cases h
          exact ⟨rfl, by simp⟩
      | cons item items =>
          rw [readFields] at h
          split at h
          · cases h
          · next made hread =>
              obtain ⟨hget, hrest⟩ := ih (fun g hg => hfields g (List.mem_cons_of_mem f hg)) h
              rw [hget, hfields f List.mem_cons_self _ _ _ hread]
              exact ⟨rfl, by simpa using hrest⟩

namespace RecordShape.HasField

variable {shape : RecordShape δ α} {before after : List (Field δ)} {name : String}
  {get : δ → Option β} {set : δ → β → δ} {read : Reader β}
  (hf : shape.HasField before after name get set read)

include hf

theorem get_readFields {items rest : List Document} {draft final : δ}
    (hnone : get draft = none) (h : readFields shape.fields items draft = .ok (rest, final)) :
    (items[before.length]?).mapM read = .ok (get final) := by
  rw [hf.fields, readFields_append] at h
  split at h
  · cases h
  · next left made hbefore =>
      obtain ⟨hget, hleft⟩ := readFields_of_spares
        (fun f hmem => hf.other_spares f (List.mem_append_left _ hmem)) hbefore
      rw [← List.head?_drop, ← hleft]
      cases left with
      | nil =>
          cases h
          rw [hget, hnone]
          rfl
      | cons item left =>
          rw [readFields] at h
          split at h
          · cases h
          · next made' hread =>
              obtain ⟨b, hb, rfl⟩ := exists_of_map_eq_ok hread
              obtain ⟨hfinal, -⟩ := readFields_of_spares
                (fun f hmem => hf.other_spares f (List.mem_append_right _ hmem)) h
              rw [hfinal, hf.get_set, List.head?_cons, mapM_read hb]

/-- What the document says of the field is what the record is built from. -/
theorem exists_draft {d : Document} {a : α} (h : shape.read d = .ok a) :
    ∃ draft, shape.build draft = .ok a ∧ (shape.said? name d).mapM read = .ok (get draft) := by
  have hbuild : ∀ {draft : δ}, shape.finish draft = .ok a → shape.build draft = .ok a := by
    intro draft hfinish
    rw [finish] at hfinish
    split at hfinish
    · next made hbuild =>
        cases hfinish
        exact hbuild
    · cases hfinish
  cases d with
  | obj members =>
      simp only [RecordShape.read] at h
      split at h
      · cases h
      · next draft hread => exact ⟨draft, hbuild h, (hf.get_readMembers hread).2 hf.get_blank⟩
  | arr items =>
      simp only [RecordShape.read] at h
      split at h
      · cases h
      · next rest draft hread =>
          split at h
          · cases h
          · split at h
            · refine ⟨draft, hbuild h, ?_⟩
              rw [said?, hf.findIdx_eq]
              exact hf.get_readFields hf.get_blank hread
            · cases h
  | num value => cases value <;> cases h
  | str text => cases text <;> cases h
  | null | bool b | broken => cases h

end RecordShape.HasField

end Json

end LinearGrammar
