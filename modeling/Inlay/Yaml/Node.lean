/-!
The nodes of a YAML document.
-/

namespace Inlay.Yaml

/-- A node. Anchors are known by number, and an alias holds the number of what it stands for. -/
inductive Node
  /-- `plain` tells a scalar without quotes or block header from the others. -/
  | scalar (anchor : Option Nat) (tag : Option (List Char)) (plain : Bool) (text : List Char)
  | sequence (anchor : Option Nat) (items : List Node)
  | mapping (anchor : Option Nat) (entries : List (Node × Node))
  | reference (target : Nat)

namespace Node

def empty : Node := scalar none none true []

mutual

/-- The nodes with an anchor in a node, each with its number, in the order in which they start. -/
def anchored (n : Node) : List (Nat × Node) :=
  match n with
  | scalar (some a) tag plain text => [(a, scalar (some a) tag plain text)]
  | scalar none _ _ _ => []
  | sequence (some a) items => (a, sequence (some a) items) :: anchoredItems items
  | sequence none items => anchoredItems items
  | mapping (some a) entries => (a, mapping (some a) entries) :: anchoredEntries entries
  | mapping none entries => anchoredEntries entries
  | reference _ => []

def anchoredItems : List Node → List (Nat × Node)
  | [] => []
  | n :: ns => n.anchored ++ anchoredItems ns

def anchoredEntries : List (Node × Node) → List (Nat × Node)
  | [] => []
  | (k, v) :: es => k.anchored ++ v.anchored ++ anchoredEntries es

end

/-- The node that an alias in the document `root` stands for, and any other node itself. Of
several nodes with one number the last to start counts. -/
def follow (n root : Node) : Option Node :=
  match n with
  | reference a => (root.anchored.reverse.find? fun e => e.1 == a).map Prod.snd
  | n => some n

end Node

end Inlay.Yaml
