import Mathlib.Tactic

/-!
# Ordered trees

A list of labelled trees, as its first root, the children of that root and the
trees behind it.
-/
namespace OrderedTrees

inductive Trees (α : Type*) where
  | nil
  | node (root : α) (children rest : Trees α)
  deriving DecidableEq, Repr

namespace Trees

variable {α β : Type*}

/-- The number of levels. -/
def height : Trees α → ℕ
  | nil => 0
  | node _ children rest => max (children.height + 1) rest.height

/-- What is emitted in front of and behind the children of each root, in the order
of the trees. -/
def walk (enter leave : α → List β) : Trees α → List β
  | nil => []
  | node a children rest =>
    enter a ++ children.walk enter leave ++ leave a ++ rest.walk enter leave

end Trees

end OrderedTrees
