/-
Layers of nested records, and what a merge of them should show.

A tree is a leaf, a node with members, or nothing. What it says of a path
(`view`) is the value there; or that nothing is there, when a leaf is on the
way; or nothing at all, when the path leaves its members. The highest layer
that says something decides (`seen`).

`Layered t layers`: the tree shows at every path what the layers, the highest
first, decide. A further layer on top may be judged against the merged tree
below it in place of the layers that it was made of (`Layered.seen_cons`).
-/
import OneHarness.Lib.JsMap

namespace OneHarness.Lib.Layers

inductive Tree (κ α : Type) where
  | absent
  | leaf (value : α)
  | node (members : List (κ × Tree κ α))

abbrev Members (κ α : Type) := JsMap κ (Tree κ α)

/-- What is at a path. -/
inductive View (α : Type) where
  | absent
  | node
  | leaf (value : α)
deriving DecidableEq

variable {κ α : Type} [DecidableEq κ]

def member (members : Members κ α) (k : κ) : Tree κ α :=
  (members.get k).getD .absent

/-- What a tree says of a path, if it says something. -/
def view : Tree κ α → List κ → Option (View α)
  | .absent, _ => none
  | .leaf a, [] => some (.leaf a)
  | .leaf _, _ :: _ => some .absent
  | .node _, [] => some .node
  | .node members, k :: path => view (member members k) path

def shows (tree : Tree κ α) (path : List κ) : View α :=
  (view tree path).getD .absent

/-- What the highest layer says that says something. -/
def decided (layers : List (Tree κ α)) (path : List κ) : Option (View α) :=
  layers.findSome? fun layer => view layer path

def seen (layers : List (Tree κ α)) (path : List κ) : View α :=
  (decided layers path).getD .absent

def Layered (tree : Tree κ α) (layers : List (Tree κ α)) : Prop :=
  ∀ path, shows tree path = seen layers path

theorem seen_cons (layer : Tree κ α) (layers : List (Tree κ α))
    (path : List κ) :
    seen (layer :: layers) path
      = (view layer path).getD (seen layers path) := by
  unfold seen decided
  rw [List.findSome?_cons]
  cases view layer path with
  | none => rfl
  | some v => rfl

theorem seen_pair (upper lower : Tree κ α) (path : List κ) :
    seen [upper, lower] path = (view upper path).getD (shows lower path) := by
  rw [seen_cons]
  congr 1
  rw [seen_cons]
  rfl

/-- On top of a merged tree or on top of its layers, a layer decides alike. -/
theorem Layered.seen_cons {tree : Tree κ α} {layers : List (Tree κ α)}
    (h : Layered tree layers) (layer : Tree κ α) (path : List κ) :
    seen (layer :: layers) path = seen [layer, tree] path := by
  rw [Layers.seen_cons, seen_pair, h path]

end OneHarness.Lib.Layers
