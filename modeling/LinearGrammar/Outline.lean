import LinearGrammar.Json.Value
import LinearGrammar.Text.Lines

/-!
# Outlines

The service answers a submission with a tree of nodes, each an object with a name and children. It is
drawn with one line per node, in preorder, every line beginning with the branches that lead to its
node. An answer of any other shape is shown as pretty JSON.
-/

namespace LinearGrammar

/-- A tree of labels, as it is drawn. -/
inductive Outline where
  | node (label : String) (children : List Outline)
  deriving Repr

namespace Outline

/-! ## From JSON -/

/-- The name of a node: a text as it is, any other value as JSON, and a question mark if there is
none. -/
def labelOf (v : Json) : String :=
  match v.get? "name" with
  | some (.str name) => name
  | some other => other.compact
  | none => "?"

mutual

def ofJson : Json → Outline
  | .obj members => .node (labelOf (.obj members)) (ofChildren members)
  | v => .node (labelOf v) []

/-- The outlines of the items of the member `children`, if that is an array. -/
def ofChildren : List (String × Json) → List Outline
  | [] => []
  | (key, .arr items) :: rest => if key = "children" then ofItems items else ofChildren rest
  | (key, _) :: rest => if key = "children" then [] else ofChildren rest

def ofItems : List Json → List Outline
  | [] => []
  | item :: rest => ofJson item :: ofItems rest

end

/-! ## Drawing -/

/-- What leads to a node: a branch that ends here if no sibling follows. -/
def branch (isLast : Bool) : String := if isLast then "└── " else "├── "

/-- What stands below a branch, in front of everything under its node. -/
def indent (isLast : Bool) : String := if isLast then "    " else "│   "

/-- The lines of siblings and everything under them, each beginning with `margin`. -/
def linesOf (margin : String) : List Outline → List String
  | [] => []
  | .node label children :: rest =>
    (margin ++ branch rest.isEmpty ++ label) ::
      (linesOf (margin ++ indent rest.isEmpty) children ++ linesOf margin rest)

def lines : Outline → List String
  | .node label children => label :: linesOf "" children

end Outline

/-- The lines that show a tree of the service: an outline if its root has a name, and pretty JSON
otherwise. -/
def Json.treeLines (v : Json) : List String :=
  if (v.get? "name").isSome then (Outline.ofJson v).lines else Text.lines v.pretty

end LinearGrammar
