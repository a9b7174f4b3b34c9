/-!
# Draws

Sampling runs on a finite list of 32-bit draws, with zeros for ever after it, so that what is sampled
is a function of the list. An index below `k` is drawn without bias: a draw `v` stands for the high
half of `v * k`, and it is refused when the low half falls above the largest multiple of `k` that
keeps all indices equally likely. A zero is never refused, which is why drawing always ends.
-/

namespace LinearGrammar

/-- The draws to come, and how many were taken. -/
structure Draws where
  rest : List UInt32
  used : Nat
  deriving DecidableEq, Repr

namespace Draws

def ofList (values : List UInt32) : Draws := ⟨values, 0⟩

/-- The number of values of a draw. -/
def span : Nat := Nat.pow 2 32

/-- The largest low half that is accepted: `k`, moved left until its top bit is the top bit of a
draw, less one. -/
def zone (k : Nat) : Nat := k <<< (31 - k.log2) - 1

/-- Draws an index below `k`, for `k` from 1 to the number of values of a draw. -/
def indexBelow (k : Nat) : Draws → Nat × Draws
  | ⟨[], used⟩ => (0, ⟨[], used + 1⟩)
  | ⟨v :: rest, used⟩ =>
    let product := v.toNat * k
    if product % span ≤ zone k then (product / span, ⟨rest, used + 1⟩)
    else indexBelow k ⟨rest, used + 1⟩
termination_by d => d.rest.length

/-- Goes on choosing after `seen` items, with `kept` as the choice so far. The item that comes `k`-th
replaces it when the index drawn below `k` is zero. -/
def chooseAfter {α : Type} (seen : Nat) (kept : Option α) : List α → Draws → Option α × Draws
  | [], d => (kept, d)
  | x :: rest, d =>
    let (index, d) := d.indexBelow (seen + 1)
    chooseAfter (seen + 1) (if index = 0 then some x else kept) rest d

/-- Chooses one of the items, each as likely as any other, and none if there is none. -/
def choose {α : Type} (items : List α) (d : Draws) : Option α × Draws :=
  chooseAfter 0 none items d

end Draws

end LinearGrammar
