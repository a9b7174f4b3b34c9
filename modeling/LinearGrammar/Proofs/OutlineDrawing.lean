import Mathlib.Data.List.Forall2
import Mathlib.Data.List.Infix
import LinearGrammar.Outline

/-!
# An outline is a faithful drawing

A line of an outline tells where its node stands by what is drawn before the name. That is stated here
for a JSON value as it was answered, by the positions of its nodes. A position is the way down from the
root, the index of a child at each step, and positions in lexical order are the nodes in preorder. At
each position stands a line that can be told from the siblings along the way alone (`Json.IsLineAt`).

The drawing is done with a margin that grows with the depth, and the lines under a node are right for
any margin that is (`isLineUnder_linesOf`). In the other direction a name may look like a part of the
drawing. What tells the two apart is that all chunks are of one length and that a branch ends the
drawing: below the margin of a row of siblings, the next chunk of a line says whether the line belongs
to the row or to the children of the sibling before it. So the lines that are drawn of a row can be cut
off from anything behind them that does not begin with a chunk at the same margin
(`linesOf_append_inj`), and that is never the case for the lines of later siblings.
-/

namespace LinearGrammar

/-! ## Nodes of a JSON value -/

namespace Json

/-- The nodes right below a node. -/
def children (v : Json) : List Json :=
  match v.get? "children" with
  | some (.arr items) => items
  | _ => []

/-- The node at a position, if there is one. -/
def nodeAt (v : Json) : List Nat → Option Json
  | [] => some v
  | i :: p => v.children[i]?.bind fun child => child.nodeAt p

/-- The name that is displayed for a node. -/
inductive IsNamed : Json → String → Prop
  | text {v : Json} {name : String} (h : v.get? "name" = some (.str name)) : IsNamed v name
  | value {v other : Json} (h : v.get? "name" = some other) (hother : ∀ text, other ≠ .str text) :
      IsNamed v other.compact
  | missing {v : Json} (h : v.get? "name" = none) : IsNamed v "?"

end Json

/-- Of the positions that `isNode` has, whether one belongs to a later sibling of this one. -/
def hasLater (isNode : List Nat → Bool) (p : List Nat) : Bool :=
  p.getLast?.any fun i => isNode (p.dropLast ++ [i + 1])

/-- The positions above this one, the root apart. -/
def ancestors (p : List Nat) : List (List Nat) := p.dropLast.inits.tail

/-- What is drawn before the name of the node at a position: a chunk for each ancestor, and a branch. -/
def chunks (isNode : List Nat → Bool) (p : List Nat) : List String :=
  (ancestors p).map (fun q => if hasLater isNode q then "│   " else "    ") ++
    [if hasLater isNode p then "├── " else "└── "]

/-- The line of the node at a position. -/
inductive Json.IsLineAt (v : Json) : List Nat → String → Prop
  | root {name : String} (hname : v.IsNamed name) : IsLineAt v [] name
  | below {p : List Nat} {node : Json} {name : String} (hp : p ≠ []) (hnode : v.nodeAt p = some node)
      (hname : node.IsNamed name) :
      IsLineAt v p (String.join (chunks (fun q => (v.nodeAt q).isSome) p) ++ name)

/-! ## Chunks, step by step -/

section Chunks

variable {isNode : List Nat → Bool} {p q : List Nat}

theorem ne_nil_of_mem_ancestors (hq : q ∈ ancestors p) : q ≠ [] := by
  unfold ancestors at hq
  cases hcases : p.dropLast with
  | nil =>
      rw [hcases] at hq
      cases hq
  | cons i rest =>
      rw [hcases, List.inits_cons, List.tail_cons] at hq
      obtain ⟨r, -, rfl⟩ := List.mem_map.1 hq
      exact List.cons_ne_nil i r

theorem ancestors_cons (i : Nat) (hp : p ≠ []) :
    ancestors (i :: p) = [i] :: (ancestors p).map (i :: ·) := by
  have hinits : p.dropLast.inits = [] :: p.dropLast.inits.tail := by
    cases p.dropLast with
    | nil => rfl
    | cons j rest => rw [List.inits_cons, List.tail_cons]
  rw [ancestors, List.dropLast_cons_of_ne_nil hp, List.inits_cons, List.tail_cons, hinits,
    List.map_cons, ancestors]

theorem hasLater_cons (isNode : List Nat → Bool) (i : Nat) (hp : p ≠ []) :
    hasLater isNode (i :: p) = hasLater (fun q => isNode (i :: q)) p := by
  cases p with
  | nil => exact absurd rfl hp
  | cons j rest => rw [hasLater, hasLater, List.getLast?_cons_cons, List.dropLast_cons_cons]; rfl

theorem chunks_singleton (isNode : List Nat → Bool) (i : Nat) :
    chunks isNode [i] = [if isNode [i + 1] then "├── " else "└── "] :=
  rfl

theorem chunks_cons (isNode : List Nat → Bool) (i : Nat) (hp : p ≠ []) :
    chunks isNode (i :: p) =
      (if isNode [i + 1] then "│   " else "    ") :: chunks (fun q => isNode (i :: q)) p := by
  have habove : ∀ q ∈ ancestors p, hasLater isNode (i :: q) =
      hasLater (fun q => isNode (i :: q)) q := fun q hq =>
    hasLater_cons isNode i (ne_nil_of_mem_ancestors hq)
  rw [chunks, ancestors_cons i hp, List.map_cons, List.map_map, hasLater_cons isNode i hp,
    List.map_congr_left fun q hq => by rw [Function.comp_apply, habove q hq], chunks]
  rfl

end Chunks

/-! ## Nodes of an outline -/

namespace Outline

def label : Outline → String
  | .node label _ => label

def children : Outline → List Outline
  | .node _ children => children

/-- The outline under the node at a position. -/
def nodeAt (t : Outline) : List Nat → Option Outline
  | [] => some t
  | i :: p => t.children[i]?.bind fun child => child.nodeAt p

mutual

/-- The positions of all nodes, in preorder. -/
def positions : Outline → List (List Nat)
  | .node _ children => [] :: positionsFrom 0 children

/-- The positions of all nodes of a row of siblings, of which the first has the given index. -/
def positionsFrom (i : Nat) : List Outline → List (List Nat)
  | [] => []
  | t :: rest => (positions t).map (i :: ·) ++ positionsFrom (i + 1) rest

end

theorem positions_eq (t : Outline) : t.positions = [] :: positionsFrom 0 t.children := by
  cases t with
  | node name row => rw [positions, children]

theorem lines_eq (t : Outline) : t.lines = t.label :: linesOf "" t.children := by
  cases t with
  | node name row => rw [lines, label, children]

theorem mem_positionsFrom {i : Nat} {row : List Outline} {p : List Nat} :
    p ∈ positionsFrom i row ↔
      ∃ k q t, p = (i + k) :: q ∧ row[k]? = some t ∧ q ∈ t.positions := by
  induction row generalizing i with
  | nil => simp [positionsFrom]
  | cons t rest ih =>
      rw [positionsFrom, List.mem_append, List.mem_map, ih]
      constructor
      · rintro (⟨q, hq, rfl⟩ | ⟨k, q, u, rfl, hu, hq⟩)
        · exact ⟨0, q, t, rfl, rfl, hq⟩
        · exact ⟨k + 1, q, u, by rw [Nat.add_assoc, Nat.add_comm 1], hu, hq⟩
      · rintro ⟨_ | k, q, u, rfl, hu, hq⟩
        · cases hu
          exact .inl ⟨q, hq, rfl⟩
        · exact .inr ⟨k, q, u, by rw [Nat.add_assoc, Nat.add_comm 1], hu, hq⟩

theorem mem_positions {t : Outline} {p : List Nat} :
    p ∈ t.positions ↔ (t.nodeAt p).isSome := by
  induction p generalizing t with
  | nil =>
      obtain ⟨label, row⟩ := t
      simp [positions, nodeAt]
  | cons i p ih =>
      obtain ⟨label, row⟩ := t
      rw [positions, List.mem_cons, mem_positionsFrom, nodeAt, children]
      constructor
      · rintro (hnil | ⟨k, q, t, heq, ht, hq⟩)
        · cases hnil
        · rw [Nat.zero_add] at heq
          cases heq
          rw [ht, Option.bind_some]
          exact ih.1 hq
      · intro hsome
        obtain ⟨t, ht⟩ := Option.isSome_iff_exists.1 (Option.isSome_of_isSome_bind hsome)
        rw [ht, Option.bind_some] at hsome
        exact .inr ⟨i, p, t, by rw [Nat.zero_add], ht, ih.2 hsome⟩

theorem pairwise_positions_node {row : List Outline}
    (h : (positionsFrom 0 row).Pairwise (· < ·)) (label : String) :
    (positions (.node label row)).Pairwise (· < ·) := by
  rw [positions, List.pairwise_cons]
  refine ⟨fun p hp => ?_, h⟩
  obtain ⟨k, q, t, rfl, -⟩ := mem_positionsFrom.1 hp
  exact List.nil_lt_cons _ _

theorem pairwise_positionsFrom (i : Nat) (row : List Outline) :
    (positionsFrom i row).Pairwise (· < ·) := by
  match row with
  | [] => exact List.Pairwise.nil
  | .node label below :: rest =>
      have hfirst : (positions (.node label below)).Pairwise (· < ·) :=
        pairwise_positions_node (pairwise_positionsFrom 0 below) label
      rw [positionsFrom, List.pairwise_append, List.pairwise_map]
      refine ⟨?_, pairwise_positionsFrom (i + 1) rest, fun p hp q hq => ?_⟩
      · exact hfirst.imp fun hlt => List.cons_lt_cons_iff.2 (.inr ⟨rfl, hlt⟩)
      · -- What is under this node stands before what is under later siblings.
        obtain ⟨p, -, rfl⟩ := List.mem_map.1 hp
        obtain ⟨k, q, t, rfl, -⟩ := mem_positionsFrom.1 hq
        exact List.cons_lt_cons_iff.2 (.inl (by omega))

theorem pairwise_positions (t : Outline) : t.positions.Pairwise (· < ·) := by
  obtain ⟨label, row⟩ := t
  exact pairwise_positions_node (pairwise_positionsFrom 0 row) label

/-! ## Lines -/

/-- Whether there is a node at a position. -/
def isNode (t : Outline) (p : List Nat) : Bool := (t.nodeAt p).isSome

/-- The line of a node below the root of `t`, drawn at a margin. -/
def IsLineUnder (t : Outline) (margin : String) (p : List Nat) (line : String) : Prop :=
  p ≠ [] ∧ ∃ node, t.nodeAt p = some node ∧
    line = margin ++ String.join (chunks t.isNode p) ++ node.label

section Row

variable {label : String} {row rest : List Outline} {t : Outline} {i : Nat}

theorem nodeAt_cons_of_drop (hrow : row.drop i = t :: rest) (p : List Nat) :
    (node label row).nodeAt (i :: p) = t.nodeAt p := by
  have ht : row[i]? = some t := by
    rw [← List.head?_drop, hrow, List.head?_cons]
  rw [nodeAt, children, ht, Option.bind_some]

theorem isNode_next_of_drop (hrow : row.drop i = t :: rest) :
    (node label row).isNode [i + 1] = !rest.isEmpty := by
  have hrest : row[i + 1]? = rest.head? := by
    rw [← List.head?_drop, ← List.drop_drop, hrow, List.drop_one, List.tail_cons]
  rw [isNode, nodeAt, children, hrest]
  cases rest <;> rfl

theorem isLineUnder_self (hrow : row.drop i = t :: rest) (margin : String) :
    IsLineUnder (node label row) margin [i] (margin ++ branch rest.isEmpty ++ t.label) := by
  refine ⟨List.cons_ne_nil _ _, t, nodeAt_cons_of_drop hrow [], ?_⟩
  rw [chunks_singleton, isNode_next_of_drop hrow]
  cases rest <;> simp [branch]

/-- What is right under a child is right under its parent, with one index more and with the margin that
the child adds. -/
theorem IsLineUnder.of_child (hrow : row.drop i = t :: rest) {margin line : String} {p : List Nat}
    (h : IsLineUnder t (margin ++ indent rest.isEmpty) p line) :
    IsLineUnder (node label row) margin (i :: p) line := by
  obtain ⟨hp, node, hnode, rfl⟩ := h
  refine ⟨List.cons_ne_nil _ _, node, (nodeAt_cons_of_drop hrow p).trans hnode, ?_⟩
  have hsame : (fun q => (Outline.node label row).isNode (i :: q)) = t.isNode := by
    funext q
    rw [isNode, nodeAt_cons_of_drop hrow, isNode]
  rw [chunks_cons _ _ hp, isNode_next_of_drop hrow, hsame]
  cases rest <;> simp [indent, String.append_assoc]

end Row

theorem isLineUnder_linesOf (margin : String) (later : List Outline) (label : String)
    {row : List Outline} {i : Nat} (hrow : row.drop i = later) :
    List.Forall₂ (IsLineUnder (.node label row) margin) (positionsFrom i later)
      (linesOf margin later) := by
  fun_induction linesOf margin later generalizing label row i with
  | case1 margin => exact .nil
  | case2 margin name below rest ihbelow ihrest =>
      have hnext : row.drop (i + 1) = rest := by
        rw [← List.drop_drop, hrow, List.drop_one, List.tail_cons]
      have hbelow := ihbelow name (List.drop_zero (l := below))
      rw [positionsFrom, positions, List.map_cons, List.cons_append]
      refine .cons (isLineUnder_self hrow margin) (List.rel_append ?_ (ihrest label hnext))
      rw [List.forall₂_map_left_iff]
      exact hbelow.imp fun p line h => h.of_child hrow

theorem isLineUnder_lines (t : Outline) :
    List.Forall₂ (IsLineUnder t "") (positionsFrom 0 t.children) (linesOf "" t.children) := by
  obtain ⟨label, row⟩ := t
  exact isLineUnder_linesOf "" row label (List.drop_zero (l := row))

/-! ## From JSON -/

theorem ofItems_eq (items : List Json) : ofItems items = items.map ofJson := by
  induction items with
  | nil => rfl
  | cons item rest ih => rw [ofItems, ih, List.map_cons]

theorem ofChildren_eq (members : List (String × Json)) :
    ofChildren members = (Json.children (.obj members)).map ofJson := by
  induction members with
  | nil => rfl
  | cons member rest ih =>
      obtain ⟨key, value⟩ := member
      by_cases hkey : key = "children"
      · subst hkey
        cases value <;> simp [ofChildren, Json.children, Json.get?, ofItems_eq]
      · have hne : ("children" == key) = false := beq_eq_false_iff_ne.2 (Ne.symm hkey)
        have hget : Json.get? "children" (.obj ((key, value) :: rest)) =
            Json.get? "children" (.obj rest) := by
          rw [Json.get?, Json.get?, List.lookup_cons, hne]
        rw [Json.children, hget, ← Json.children, ← ih]
        cases value <;> simp [ofChildren, hkey]

theorem ofJson_eq (v : Json) : ofJson v = .node (labelOf v) (v.children.map ofJson) := by
  cases v with
  | obj members => rw [ofJson, ofChildren_eq]
  | _ => rfl

theorem nodeAt_ofJson (v : Json) (p : List Nat) :
    (ofJson v).nodeAt p = (v.nodeAt p).map ofJson := by
  induction p generalizing v with
  | nil => rfl
  | cons i p ih =>
      rw [ofJson_eq, nodeAt, children, Json.nodeAt, List.getElem?_map]
      cases v.children[i]? with
      | none => rfl
      | some child => exact ih child

end Outline

namespace Json

variable {v w : Json} {name : String}

theorem isNamed_label (v : Json) : v.IsNamed (Outline.ofJson v).label := by
  rw [Outline.ofJson_eq, Outline.label, Outline.labelOf]
  split
  · next h => exact .text h
  · next other hother h => exact .value h fun text heq => hother text heq
  · next h => exact .missing h

/-- The name that is drawn is the one that is displayed. -/
theorem isNamed_iff : v.IsNamed name ↔ name = (Outline.ofJson v).label := by
  constructor
  · intro hname
    rw [Outline.ofJson_eq, Outline.label, Outline.labelOf]
    cases hname with
    | text h => rw [h]
    | @value other h hother =>
        rw [h]
        cases other with
        | str text => exact absurd rfl (hother text)
        | _ => rfl
    | missing h => rw [h]
  · rintro rfl
    exact isNamed_label v

theorem isNode_ofJson (v : Json) : (Outline.ofJson v).isNode = fun p => (v.nodeAt p).isSome := by
  funext p
  rw [Outline.isNode, Outline.nodeAt_ofJson, Option.isSome_map]

theorem treeLines_eq (hv : (v.get? "name").isSome) : v.treeLines = (Outline.ofJson v).lines :=
  if_pos hv

theorem isLineAt_of_isLineUnder {p : List Nat} {line : String}
    (h : Outline.IsLineUnder (Outline.ofJson v) "" p line) : v.IsLineAt p line := by
  obtain ⟨hp, drawn, hdrawn, rfl⟩ := h
  rw [Outline.nodeAt_ofJson] at hdrawn
  obtain ⟨node, hnode, rfl⟩ := Option.map_eq_some_iff.1 hdrawn
  rw [isNode_ofJson, String.empty_append]
  exact .below hp hnode (isNamed_label node)

theorem isLineAt_treeLines (hv : (v.get? "name").isSome) :
    List.Forall₂ v.IsLineAt (Outline.ofJson v).positions v.treeLines := by
  have hunder := (Outline.isLineUnder_lines (Outline.ofJson v)).imp fun p line h =>
    isLineAt_of_isLineUnder h
  rw [treeLines_eq hv, Outline.lines_eq, Outline.positions_eq]
  exact .cons (.root (isNamed_label v)) hunder

end Json

/-! ## Reading an outline back -/

namespace Outline

/-- What may stand behind a margin in front of a name. -/
def chunkTexts : List String := [branch true, branch false, indent true, indent false]

/-- Whether a line goes on with a chunk behind the margin. -/
def GoesOn (margin line : String) : Prop :=
  ∃ chunk ∈ chunkTexts, ∃ more, line = margin ++ chunk ++ more

theorem chunk_append_inj {c c' : String} (hc : c ∈ chunkTexts) (hc' : c' ∈ chunkTexts)
    {x y : String} (h : c ++ x = c' ++ y) : c = c' ∧ x = y := by
  have hlength : ∀ c ∈ chunkTexts, c.toList.length = 4 := by decide
  have hlists : c.toList ++ x.toList = c'.toList ++ y.toList := by
    rw [← String.toList_append, h, String.toList_append]
  obtain ⟨hfirst, hrest⟩ := List.append_inj hlists ((hlength c hc).trans (hlength c' hc').symm)
  exact ⟨String.toList_inj.1 hfirst, String.toList_inj.1 hrest⟩

theorem branch_mem (isLast : Bool) : branch isLast ∈ chunkTexts := by
  cases isLast <;> decide

theorem indent_mem (isLast : Bool) : indent isLast ∈ chunkTexts := by
  cases isLast <;> decide

theorem branch_ne_indent (isLast isLast' : Bool) : branch isLast ≠ indent isLast' := by
  cases isLast <;> cases isLast' <;> decide

theorem branch_inj {isLast isLast' : Bool} (h : branch isLast = branch isLast') :
    isLast = isLast' := by
  revert h
  cases isLast <;> cases isLast' <;> decide

theorem margin_append_inj {margin x y : String} (h : margin ++ x = margin ++ y) : x = y := by
  have hlists : margin.toList ++ x.toList = margin.toList ++ y.toList := by
    rw [← String.toList_append, h, String.toList_append]
  exact String.toList_inj.1 (List.append_cancel_left hlists)

theorem goesOn_branch (margin : String) (isLast : Bool) (label : String) :
    GoesOn margin (margin ++ branch isLast ++ label) :=
  ⟨branch isLast, branch_mem isLast, label, rfl⟩

/-- No later sibling goes on at the margin of the children before it, and so no line behind it does. -/
theorem not_goesOn_indent {margin : String} {behind : List String}
    (hbehind : ∀ line ∈ behind.head?, ¬ GoesOn margin line) (rest : List Outline) (isLast : Bool) :
    ∀ line ∈ (linesOf margin rest ++ behind).head?, ¬ GoesOn (margin ++ indent isLast) line := by
  rintro line hline ⟨chunk, hchunk, more, rfl⟩
  cases rest with
  | nil =>
      rw [linesOf, List.nil_append] at hline
      refine hbehind _ hline ⟨indent isLast, indent_mem isLast, chunk ++ more, ?_⟩
      simp only [String.append_assoc]
  | cons t rest =>
      obtain ⟨label, below⟩ := t
      rw [linesOf, List.cons_append, List.head?_cons, Option.mem_some_iff] at hline
      simp only [String.append_assoc] at hline
      have hchunks := margin_append_inj hline
      exact branch_ne_indent _ _ (chunk_append_inj (branch_mem _) (indent_mem _) hchunks).1

/-- The lines of a row can be told from what is behind them. -/
theorem linesOf_append_inj (margin : String) (row : List Outline) {row' : List Outline}
    {behind behind' : List String} (hbehind : ∀ line ∈ behind.head?, ¬ GoesOn margin line)
    (hbehind' : ∀ line ∈ behind'.head?, ¬ GoesOn margin line)
    (h : linesOf margin row ++ behind = linesOf margin row' ++ behind') :
    row = row' ∧ behind = behind' := by
  fun_induction linesOf margin row generalizing row' behind behind' with
  | case1 margin =>
      cases row' with
      | nil =>
          rw [linesOf] at h
          exact ⟨rfl, h⟩
      | cons t rest =>
          obtain ⟨label, below⟩ := t
          rw [linesOf, List.nil_append, List.cons_append] at h
          exact absurd (goesOn_branch _ _ _) (hbehind _ (by rw [h]; rfl))
  | case2 margin label below rest ihbelow ihrest =>
      cases row' with
      | nil =>
          rw [linesOf, List.nil_append, List.cons_append] at h
          exact absurd (goesOn_branch _ _ _) (hbehind' _ (by rw [← h]; rfl))
      | cons t rest' =>
          obtain ⟨label', below'⟩ := t
          rw [linesOf, List.cons_append, List.cons_append, List.append_assoc, List.append_assoc]
            at h
          obtain ⟨hline, hlines⟩ := List.cons.inj h
          rw [String.append_assoc, String.append_assoc] at hline
          obtain ⟨hbranch, hlabel⟩ := chunk_append_inj (branch_mem _) (branch_mem _)
            (margin_append_inj hline)
          rw [← branch_inj hbranch] at hlines
          obtain ⟨hbelow, hrest⟩ := ihbelow (not_goesOn_indent hbehind rest _)
            (not_goesOn_indent hbehind' rest' _) hlines
          obtain ⟨hrest, hafter⟩ := ihrest hbehind hbehind' hrest
          rw [hlabel, hbelow, hrest]
          exact ⟨rfl, hafter⟩

theorem lines_inj {t u : Outline} (h : t.lines = u.lines) : t = u := by
  obtain ⟨label, row⟩ := t
  obtain ⟨label', row'⟩ := u
  rw [lines, lines] at h
  obtain ⟨hlabel, hlines⟩ := List.cons.inj h
  have hends : linesOf "" row ++ [] = linesOf "" row' ++ [] := by
    rw [List.append_nil, List.append_nil, hlines]
  have hnone : ∀ line ∈ ([] : List String).head?, ¬ GoesOn "" line := by
    intro line hline
    cases hline
  obtain ⟨rfl, -⟩ := linesOf_append_inj "" row hnone hnone hends
  rw [hlabel]

end Outline

namespace Json

variable {v w : Json}

/-- A value whose root has a name is shown with one line for each node, in preorder: at each position,
in lexical order, there stands the line of its node. And the lines tell the positions of all nodes and
their names. -/
theorem outline_tells_tree (v : Json) (hv : (v.get? "name").isSome) :
    (∃ positions : List (List Nat), positions.Pairwise (· < ·) ∧
      (∀ p, p ∈ positions ↔ ∃ node, v.nodeAt p = some node) ∧
      List.Forall₂ v.IsLineAt positions v.treeLines) ∧
    ∀ w : Json, (w.get? "name").isSome → v.treeLines = w.treeLines →
      (∀ p, (v.nodeAt p).isSome = (w.nodeAt p).isSome) ∧
      ∀ p node node', v.nodeAt p = some node → w.nodeAt p = some node' →
        ∀ name, node.IsNamed name ↔ node'.IsNamed name := by
  refine ⟨⟨(Outline.ofJson v).positions, Outline.pairwise_positions _, fun p => ?_,
    isLineAt_treeLines hv⟩, fun w hw hlines => ?_⟩
  · rw [Outline.mem_positions, Outline.nodeAt_ofJson, Option.isSome_map, Option.isSome_iff_exists]
  · rw [treeLines_eq hv, treeLines_eq hw] at hlines
    have hsame : Outline.ofJson v = Outline.ofJson w := Outline.lines_inj hlines
    refine ⟨fun p => ?_, fun p node node' hnode hnode' name => ?_⟩
    · exact congrFun (isNode_ofJson v ▸ isNode_ofJson w ▸ congrArg Outline.isNode hsame) p
    · have hdrawn : (Outline.ofJson v).nodeAt p = (Outline.ofJson w).nodeAt p := by rw [hsame]
      rw [Outline.nodeAt_ofJson, Outline.nodeAt_ofJson, hnode, hnode'] at hdrawn
      rw [isNamed_iff, isNamed_iff, Option.some.inj hdrawn]

/-- Names that look like the drawing, a number for a name, children that are no array, and nodes without
a name. -/
def disguised : Json :=
  .obj [("children", .arr [
      .obj [("children", .arr [.obj [("name", .str "└── b")], .obj [("label", .null)]]),
        ("name", .str "a\n│   ")],
      .obj [("children", .str "c"), ("name", .num (.int 1))],
      .arr [.obj [("name", .str "d")]]]),
    ("name", .str "S")]

/-- The same nodes, with a text in place of the number and with other members. -/
def respelled : Json :=
  .obj [("children", .arr [
      .obj [("children", .arr [.obj [("name", .str "└── b")], .bool true]),
        ("name", .str "a\n│   ")],
      .obj [("children", .arr []), ("name", .str "1")],
      .obj [("id", .null)]]),
    ("name", .str "S")]

theorem outline_tells_tree_disguised :
    (∃ positions : List (List Nat), positions.Pairwise (· < ·) ∧
        (∀ p, p ∈ positions ↔ ∃ node, disguised.nodeAt p = some node) ∧
        List.Forall₂ disguised.IsLineAt positions
          ["S", "├── a\n│   ", "│   ├── └── b", "│   └── ?", "├── 1", "└── ?"]) ∧
      disguised.treeLines = respelled.treeLines ∧
      (∀ p, (disguised.nodeAt p).isSome = (respelled.nodeAt p).isSome) ∧
      ∀ p node node', disguised.nodeAt p = some node → respelled.nodeAt p = some node' →
        ∀ name, node.IsNamed name ↔ node'.IsNamed name := by
  have hnamed : (disguised.get? "name").isSome := by decide +kernel
  have hnamed' : (respelled.get? "name").isSome := by decide +kernel
  have hdrawing : Outline.ofJson disguised = .node "S" [.node "a\n│   " [.node "└── b" [],
      .node "?" []], .node "1" [], .node "?" []] := by rfl
  have hdrawing' : Outline.ofJson respelled = Outline.ofJson disguised := by rfl
  have hlines : disguised.treeLines =
      ["S", "├── a\n│   ", "│   ├── └── b", "│   └── ?", "├── 1", "└── ?"] := by
    rw [treeLines_eq hnamed, hdrawing]
    simp [Outline.lines, Outline.linesOf, Outline.branch, Outline.indent]
  have hsame : disguised.treeLines = respelled.treeLines := by
    rw [treeLines_eq hnamed, treeLines_eq hnamed', hdrawing']
  obtain ⟨hdrawn, hread⟩ := outline_tells_tree disguised hnamed
  rw [hlines] at hdrawn
  exact ⟨hdrawn, hsame, hread respelled hnamed' hsame⟩

end Json

end LinearGrammar
