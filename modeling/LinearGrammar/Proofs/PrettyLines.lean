import Mathlib.Data.List.TakeWhile
import LinearGrammar.Outline

/-!
# The lines of a pretty text

Cutting a text into lines loses a carriage return before a line feed, and it loses the line feed at the
end. A pretty text has neither, and that is a matter of the characters that can get into it. The only
ones that come from outside are those of strings, where a line feed and a carriage return are written
as escapes; other separators of lines, U+2028 among them, are no line feeds and are left alone. All
other characters are the writer's own: brackets and marks, letters of the three words, digits, and
what a double is written with. The writer's line feeds are each followed by something, at least by
the bracket that closes what was open.
-/

namespace LinearGrammar

namespace Text

variable {α : Type} [DecidableEq α] {feed carriageReturn : α} {whole line : List α}

theorem cutLines_ne_nil (hne : whole ≠ []) : cutLines feed carriageReturn whole ≠ [] := by
  fun_induction cutLines feed carriageReturn whole with
  | case1 => exact absurd rfl hne
  | case2 => simp
  | case3 a rest ha hreturn ih =>
      apply ih
      rintro rfl
      simp at hreturn
  | case4 => simp
  | case5 => simp

theorem not_mem_of_mem_cutLines (h : line ∈ cutLines feed carriageReturn whole) : feed ∉ line := by
  fun_induction cutLines feed carriageReturn whole generalizing line with
  | case1 => cases h
  | case2 rest ih =>
      rcases List.mem_cons.1 h with rfl | h
      · simp
      · exact ih h
  | case3 a rest ha hreturn ih => exact ih h
  | case4 a rest ha hreturn hnil ih =>
      rw [List.mem_singleton.1 h]
      simpa using Ne.symm ha
  | case5 a rest ha hreturn first more hlines ih =>
      rw [hlines] at ih
      rcases List.mem_cons.1 h with rfl | h
      · simpa [Ne.symm ha] using ih List.mem_cons_self
      · exact ih (List.mem_cons_of_mem first h)

theorem intercalate_cons_cons_head {β : Type} (separator : List β) (b : β) (first : List β)
    (more : List (List β)) :
    List.intercalate separator ((b :: first) :: more) =
      b :: List.intercalate separator (first :: more) := by
  cases more with
  | nil => simp
  | cons next more => simp [List.intercalate_cons_cons]

/-- Nothing is lost where no carriage return stands and the last character is no line feed. -/
theorem intercalate_cutLines (hreturn : carriageReturn ∉ whole)
    (hlast : whole.getLast? ≠ some feed) :
    List.intercalate [feed] (cutLines feed carriageReturn whole) = whole := by
  fun_induction cutLines feed carriageReturn whole with
  | case1 => rfl
  | case2 rest ih =>
      have hne : rest ≠ [] := by
        rintro rfl
        exact hlast rfl
      have hrest := ih (fun h => hreturn (List.mem_cons_of_mem feed h)) (by
        rwa [List.getLast?_cons_of_ne_nil hne] at hlast)
      have hlines : cutLines feed carriageReturn rest ≠ [] := cutLines_ne_nil hne
      obtain ⟨line, more, hlines⟩ := List.exists_cons_of_ne_nil hlines
      rw [hlines] at hrest ⊢
      rw [List.intercalate_cons_cons, hrest]
      rfl
  | case3 a rest ha hcut ih =>
      simp only [Bool.and_eq_true, decide_eq_true_eq] at hcut
      exact absurd (hcut.1 ▸ List.mem_cons_self) hreturn
  | case4 a rest ha hcut hnil ih =>
      have hrest : rest = [] := by
        by_contra hne
        exact cutLines_ne_nil hne hnil
      simp [hrest]
  | case5 a rest ha hcut line more hlines ih =>
      have hne : rest ≠ [] := by
        rintro rfl
        cases hlines
      have hrest := ih (fun h => hreturn (List.mem_cons_of_mem a h)) (by
        rwa [List.getLast?_cons_of_ne_nil hne] at hlast)
      rw [intercalate_cons_cons_head, ← hlines, hrest]

end Text

/-! ## The characters of numbers -/

/-- A character that numbers are written with. -/
def isNumeric (c : Char) : Bool := c.isDigit || ['-', '+', '.', 'e'].contains c

theorem isNumeric_of_isDigit {c : Char} (hc : c.isDigit = true) : isNumeric c = true := by
  rw [isNumeric, hc, Bool.true_or]

theorem isNumeric_toDigits (n : Nat) : ∀ c ∈ Nat.toDigits 10 n, isNumeric c = true := fun _ hc =>
  isNumeric_of_isDigit (Nat.isDigit_of_mem_toDigits (by decide) (by decide) hc)

namespace Double

variable {digits : List Char}

theorem isNumeric_positional (hdigits : ∀ c ∈ digits, isNumeric c = true) (before : Int) :
    ∀ c ∈ positional digits before, isNumeric c = true := by
  have hzeros : ∀ n, ∀ c ∈ List.replicate n '0', isNumeric c = true := by
    intro n c hc
    rw [List.eq_of_mem_replicate hc]
    rfl
  have htake : ∀ c ∈ digits.take before.toNat, isNumeric c = true := fun c hc =>
    hdigits c (List.mem_of_mem_take hc)
  have hdrop : ∀ c ∈ digits.drop before.toNat, isNumeric c = true := fun c hc =>
    hdigits c (List.mem_of_mem_drop hc)
  unfold positional
  split
  · simp only [List.forall_mem_cons, List.forall_mem_append]
    exact ⟨rfl, rfl, hzeros _, hdigits⟩
  · simp only [List.forall_mem_cons, List.forall_mem_append]
    refine ⟨⟨htake, hzeros _⟩, rfl, ?_⟩
    split
    · simp; rfl
    · exact hdrop

theorem isNumeric_scientific (hdigits : ∀ c ∈ digits, isNumeric c = true) (power : Int) :
    ∀ c ∈ scientific digits power, isNumeric c = true := by
  have htake : ∀ c ∈ digits.take 1, isNumeric c = true := fun c hc =>
    hdigits c (List.mem_of_mem_take hc)
  have hdrop : ∀ c ∈ digits.drop 1, isNumeric c = true := fun c hc =>
    hdigits c (List.mem_of_mem_drop hc)
  simp only [scientific, List.forall_mem_cons, List.forall_mem_append]
  refine ⟨⟨htake, ?_⟩, rfl, ?_, isNumeric_toDigits _⟩
  · split
    · exact nofun
    · exact List.forall_mem_cons.2 ⟨rfl, hdrop⟩
  · split <;> rfl

theorem isNumeric_significant (hdigits : ∀ c ∈ digits, isNumeric c = true) :
    ∀ c ∈ significant digits, isNumeric c = true := by
  intro c hc
  rw [significant, List.mem_reverse] at hc
  exact hdigits c (List.mem_reverse.1 ((List.dropWhile_suffix _).subset hc))

theorem isNumeric_magnitudeText (format : DoubleFormat) (m : Magnitude) :
    ∀ c ∈ magnitudeText format m, isNumeric c = true := by
  unfold magnitudeText
  split
  · simp only [List.forall_mem_cons]
    exact ⟨rfl, rfl, rfl, nofun⟩
  · have hdigits := isNumeric_significant (isNumeric_toDigits m.shortest.digits)
    simp only []
    split
    · exact isNumeric_positional hdigits _
    · exact isNumeric_scientific hdigits _

end Double

theorem Number.isNumeric_text (n : Number) : ∀ c ∈ n.text, isNumeric c = true := by
  match n with
  | .int (.ofNat n) => exact isNumeric_toDigits n
  | .int (.negSucc n) => exact List.forall_mem_cons.2 ⟨rfl, isNumeric_toDigits (n + 1)⟩
  | .real x =>
      rw [text, Double.text]
      split
      · exact List.forall_mem_cons.2 ⟨rfl, Double.isNumeric_magnitudeText _ _⟩
      · exact Double.isNumeric_magnitudeText _ _

/-! ## The characters of a pretty text -/

namespace Json

theorem return_not_mem_text (n : Number) : '\r' ∉ n.text := fun hmem =>
  absurd (n.isNumeric_text '\r' hmem) (by decide)

theorem hexDigit_ne_return : ∀ n < 16, '\r' ≠ hexDigit n := by
  decide

/-- A carriage return has an escape of its own, and no other escape is spelled with one. -/
theorem return_not_mem_escape (c : Char) : '\r' ∉ escape c := by
  unfold escape
  split
  · decide
  split
  · decide
  split
  · decide
  split
  · decide
  split
  · decide
  split
  · decide
  split
  · decide
  split
  · next hcontrol =>
      have hhigh := hexDigit_ne_return (c.toNat / 16) (by omega)
      have hlow := hexDigit_ne_return (c.toNat % 16) (by omega)
      simp [hhigh, hlow]
  · next hreturn _ _ =>
      intro hmem
      exact hreturn (List.mem_singleton.1 hmem).symm

theorem return_not_mem_quote (s : String) : '\r' ∉ quote s := by
  have hinner : '\r' ∉ s.toList.flatMap escape := by
    intro hmem
    obtain ⟨c, -, hc⟩ := List.mem_flatMap.1 hmem
    exact return_not_mem_escape c hc
  simp [quote, hinner]

theorem return_not_mem_newline (depth : Nat) : '\r' ∉ newline depth := by
  simp [newline]

mutual

theorem return_not_mem_prettyChars (v : Json) (depth : Nat) : '\r' ∉ prettyChars depth v := by
  match v with
  | .null | .arr [] | .obj [] | .bool true | .bool false =>
      rw [prettyChars]
      decide
  | .num n =>
      rw [prettyChars]
      exact return_not_mem_text n
  | .str s =>
      rw [prettyChars]
      exact return_not_mem_quote s
  | .arr (item :: items) =>
      have hitem := return_not_mem_prettyChars item (depth + 1)
      have hitems := return_not_mem_prettyItems items depth
      simp [prettyChars, return_not_mem_newline, hitem, hitems]
  | .obj ((key, value) :: members) =>
      have hkey := return_not_mem_quote key
      have hvalue := return_not_mem_prettyChars value (depth + 1)
      have hmembers := return_not_mem_prettyMembers members depth
      simp [prettyChars, return_not_mem_newline, hkey, hvalue, hmembers]

theorem return_not_mem_prettyItems (items : List Json) (depth : Nat) :
    '\r' ∉ prettyItems depth items := by
  match items with
  | [] => simp [prettyItems, return_not_mem_newline]
  | item :: items =>
      have hitem := return_not_mem_prettyChars item (depth + 1)
      have hitems := return_not_mem_prettyItems items depth
      simp [prettyItems, return_not_mem_newline, hitem, hitems]

theorem return_not_mem_prettyMembers (members : List (String × Json)) (depth : Nat) :
    '\r' ∉ prettyMembers depth members := by
  match members with
  | [] => simp [prettyMembers, return_not_mem_newline]
  | (key, value) :: members =>
      have hkey := return_not_mem_quote key
      have hvalue := return_not_mem_prettyChars value (depth + 1)
      have hmembers := return_not_mem_prettyMembers members depth
      simp [prettyMembers, return_not_mem_newline, hkey, hvalue, hmembers]

end

theorem getLast?_prettyItems (items : List Json) (depth : Nat) :
    (prettyItems depth items).getLast? = some ']' := by
  induction items with
  | nil => simp [prettyItems]
  | cons item items ih => simp [prettyItems, List.getLast?_cons, List.getLast?_append, ih]

theorem getLast?_prettyMembers (members : List (String × Json)) (depth : Nat) :
    (prettyMembers depth members).getLast? = some '}' := by
  induction members with
  | nil => simp [prettyMembers]
  | cons member members ih => simp [prettyMembers, List.getLast?_cons, List.getLast?_append, ih]

theorem getLast?_prettyChars_ne (v : Json) (depth : Nat) :
    (prettyChars depth v).getLast? ≠ some '\n' := by
  match v with
  | .null | .arr [] | .obj [] | .bool true | .bool false =>
      rw [prettyChars]
      decide
  | .num n =>
      rw [prettyChars]
      intro hlast
      exact absurd (n.isNumeric_text _ (List.mem_of_getLast? hlast)) (by decide)
  | .str s => simp [prettyChars, quote, List.getLast?_cons, List.getLast?_append]
  | .arr (item :: items) =>
      simp [prettyChars, List.getLast?_cons, List.getLast?_append, getLast?_prettyItems]
  | .obj ((key, value) :: members) =>
      simp [prettyChars, List.getLast?_cons, List.getLast?_append, getLast?_prettyMembers]

/-- The lines of a pretty text, put together with line feeds, are the text, and no line feed is in
them: they are the pieces between the line feeds of the text. -/
theorem lines_pretty (v : Json) : String.intercalate "\n" (Text.lines v.pretty) = v.pretty ∧
    ∀ line ∈ Text.lines v.pretty, '\n' ∉ line.toList := by
  have hlines : Text.lines v.pretty =
      (Text.cutLines '\n' '\r' (prettyChars 0 v)).map String.ofList := by
    rw [Text.lines, pretty, String.toList_ofList]
  have hfeed : "\n".toList = ['\n'] := by decide +kernel
  have hlists : String.toList ∘ String.ofList = id := by
    funext cs
    exact String.toList_ofList
  rw [hlines]
  constructor
  · rw [← String.toList_inj, String.toList_intercalate, List.map_map, hlists, List.map_id, hfeed,
      pretty, String.toList_ofList]
    exact Text.intercalate_cutLines (return_not_mem_prettyChars v 0) (getLast?_prettyChars_ne v 0)
  · intro line hline
    obtain ⟨cs, hcs, rfl⟩ := List.mem_map.1 hline
    rw [String.toList_ofList]
    exact Text.not_mem_of_mem_cutLines hcs

end Json

end LinearGrammar
