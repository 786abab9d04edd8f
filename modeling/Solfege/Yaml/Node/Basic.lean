import Solfege.Yaml.Token.Basic

/-!
Contract: the nodes of YAML files.

Owns:
- scalars, sequences and mappings, with their anchors;
- what a reference to an anchor stands for.

Does not own: how nodes are written in a file.
-/

namespace Solfege.Yaml

/-- A scalar of a file: its text, the form that it is written in, and its tag. -/
structure ScalarNode where
  text : String
  form : Form
  tag : Option TagBytes
deriving DecidableEq, Repr

/-- The scalar that stands where nothing is written. -/
def ScalarNode.empty : ScalarNode := ⟨"", .plain, none⟩

/-- A node of a file. Anchors are known by numbers. -/
inductive Node where
  | reference (anchor : Nat)
  | scalar (anchor : Option Nat) (value : ScalarNode)
  | sequence (anchor : Option Nat) (items : List Node)
  | mapping (anchor : Option Nat) (entries : List (Node × Node))

namespace Node

def empty : Node := scalar none ScalarNode.empty

instance : Inhabited Node := ⟨empty⟩

def anchor? : Node → Option Nat
  | reference _ => none
  | scalar anchor _ => anchor
  | sequence anchor _ => anchor
  | mapping anchor _ => anchor

mutual

/-- A node and the nodes inside it, each in front of those that it holds. -/
def descendants : Node → List Node
  | reference anchor => [reference anchor]
  | scalar anchor value => [scalar anchor value]
  | sequence anchor items => sequence anchor items :: itemDescendants items
  | mapping anchor entries => mapping anchor entries :: entryDescendants entries

/-- The items of a sequence and the nodes inside them. -/
def itemDescendants : List Node → List Node
  | [] => []
  | item :: rest => item.descendants ++ itemDescendants rest

/-- The keys and values of a mapping and the nodes inside them. -/
def entryDescendants : List (Node × Node) → List Node
  | [] => []
  | (key, value) :: rest => key.descendants ++ (value.descendants ++ entryDescendants rest)

end

/-- The node that a reference stands for: the last one in the file with its anchor. Other
nodes stand for themselves. -/
def follow (root : Node) : Node → Node
  | reference anchor =>
      (root.descendants.reverse.find? fun node => node.anchor? = some anchor).getD empty
  | node => node

end Node

end Solfege.Yaml
