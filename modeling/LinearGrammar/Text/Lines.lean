/-!
# Lines

A line feed ends a line, and a carriage return right before it belongs to the line end. What follows
the last line feed is a line if there is anything. Texts are cut into lines by their characters and
input is cut by its bytes, in the same way.

Whoever has only the beginning of a sequence can take its lines one by one, as long as their ends are
there. `cutLines_of_firstLine?` says that this is how the whole is cut.
-/

namespace LinearGrammar.Text

/-- The lines of a sequence, without their ends. -/
def cutLines {α : Type} [DecidableEq α] (feed carriageReturn : α) : List α → List (List α)
  | [] => []
  | a :: rest =>
    if a = feed then [] :: cutLines feed carriageReturn rest
    else if a = carriageReturn && rest.head? == some feed then cutLines feed carriageReturn rest
    else
      match cutLines feed carriageReturn rest with
      | [] => [[a]]
      | line :: more => (a :: line) :: more

/-- The first line of a sequence and what follows it, if the end of the line is there. -/
def firstLine? {α : Type} [DecidableEq α] (feed carriageReturn : α) :
    List α → Option (List α × List α)
  | [] => none
  | a :: rest =>
    if a = feed then some ([], rest)
    else if a = carriageReturn && rest.head? == some feed then firstLine? feed carriageReturn rest
    else (firstLine? feed carriageReturn rest).map fun (line, more) => (a :: line, more)

theorem cutLines_of_firstLine? {α : Type} [DecidableEq α] {feed carriageReturn : α}
    {whole line rest : List α} (h : firstLine? feed carriageReturn whole = some (line, rest)) :
    cutLines feed carriageReturn whole = line :: cutLines feed carriageReturn rest := by
  fun_induction firstLine? feed carriageReturn whole generalizing line with
  | case1 => cases h
  | case2 => cases h; simp [cutLines]
  | case3 a more ha hr ih =>
    rw [cutLines, if_neg ha, if_pos hr]
    exact ih h
  | case4 a more ha hr ih =>
    obtain ⟨⟨line, more⟩, hmore, heq⟩ := Option.map_eq_some_iff.1 h
    cases heq
    rw [cutLines, if_neg ha, if_neg hr, ih hmore]

theorem length_of_firstLine? {α : Type} [DecidableEq α] {feed carriageReturn : α}
    {whole line rest : List α} (h : firstLine? feed carriageReturn whole = some (line, rest)) :
    rest.length < whole.length := by
  fun_induction firstLine? feed carriageReturn whole generalizing line with
  | case1 => cases h
  | case2 => cases h; simp
  | case3 a more ha hr ih => exact Nat.lt_succ_of_lt (ih h)
  | case4 a more ha hr ih =>
    obtain ⟨⟨line, more⟩, hmore, heq⟩ := Option.map_eq_some_iff.1 h
    cases heq
    exact Nat.lt_succ_of_lt (ih hmore)

def lines (text : String) : List String :=
  (cutLines '\n' '\r' text.toList).map String.ofList

def byteLines (bytes : List UInt8) : List (List UInt8) := cutLines 0x0A 0x0D bytes

/-- The first line of some bytes and what follows it, if the end of the line is there. -/
def firstByteLine? (bytes : List UInt8) : Option (List UInt8 × List UInt8) :=
  firstLine? 0x0A 0x0D bytes

end LinearGrammar.Text
