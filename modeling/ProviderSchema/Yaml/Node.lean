import ProviderSchema.Yaml.Token

/-!
# YAML nodes

A document is a tree of nodes in which aliases stand for nodes of the tree. An alias may stand
inside the node it names, so aliases are kept as they are and followed one at a time
(`Document.target?`).
-/

namespace ProviderSchema.Yaml

/-- A node of a document. -/
inductive Node where
  /-- Another node, by the number of its anchor. -/
  | alias (anchor : Nat)
  | scalar (tag : Option String) (text : String) (style : Style)
  | sequence (tag : Option String) (items : List Node)
  | mapping (tag : Option String) (entries : List (Node × Node))
deriving Repr, Inhabited

namespace Node

/-- A node that is not written at all. -/
def empty : Node := .scalar none "" .plain

mutual

/-- The extent of a node: one for a scalar or an alias, and two for the ends of a collection besides
its contents. -/
def extent : Node → Nat
  | .alias _ => 1
  | .scalar .. => 1
  | .sequence _ items => 2 + extentOfItems items
  | .mapping _ entries => 2 + extentOfEntries entries

/-- The extent of items. -/
def extentOfItems : List Node → Nat
  | [] => 0
  | item :: rest => extent item + extentOfItems rest

/-- The extent of entries, keys included. -/
def extentOfEntries : List (Node × Node) → Nat
  | [] => 0
  | (key, value) :: rest => extent key + extent value + extentOfEntries rest

end

end Node

/-- A node with an anchor. -/
structure Anchored where
  /-- How many anchors begin before this one. -/
  order : Nat
  /-- The number by which aliases name the node. Of several nodes with one number the last one
  counts. -/
  number : Nat
  node : Node
deriving Repr, Inhabited

/-- A document. -/
structure Document where
  root : Node
  anchored : List Anchored
deriving Repr, Inhabited

/-- The node that an alias stands for. -/
def Document.target? (d : Document) (number : Nat) : Option Node :=
  let later (best : Option Anchored) (a : Anchored) : Option Anchored :=
    if a.number ≠ number then best
    else
      match best with
      | some b => if b.order < a.order then some a else some b
      | none => some a
  (d.anchored.foldl later none).map (·.node)

end ProviderSchema.Yaml
