import Mathlib.Logic.Relation
import Mathlib.Tactic

/-!
# Trees as links

A tree is given by the parent of each node, and seen from one side by the first node below a
node and the next node beside it. The nodes above a node are ordered, two nodes beside each other
have nothing below them in common, and what is below a node is below a node that is reached from
its first child.
-/
namespace LinkedTrees

variable {α : Type*}

/-- The second node is reached from the first along the links, in any number of steps. -/
def Reach (link : α → Option α) : α → α → Prop :=
  Relation.ReflTransGen fun a b => link a = some b

/-- The same in one step or more. -/
def Beyond (link : α → Option α) : α → α → Prop :=
  Relation.TransGen fun a b => link a = some b

/-- A tree seen from one side; `depth` falls towards the root and `rank` along the other links. -/
structure Sided (parent along down : α → Option α) (depth rank : α → ℕ) : Prop where
  parent_depth : ∀ {n p}, parent n = some p → depth p < depth n
  along_parent : ∀ {n m}, along n = some m → parent m = parent n
  down_parent : ∀ {p m}, down p = some m → parent m = some p
  reached : ∀ {p m}, parent m = some p → ∃ c, down p = some c ∧ Reach along c m
  along_rank : ∀ {n m}, along n = some m → rank m < rank n
  down_rank : ∀ {p m}, down p = some m → rank m < rank p

variable {link parent along down : α → Option α} {depth rank : α → ℕ} {n m p x y : α}

lemma reach_iff : Reach link n m ↔ m = n ∨ Beyond link n m :=
  Relation.reflTransGen_iff_eq_or_transGen

lemma Beyond.reach (h : Beyond link n m) : Reach link n m := h.to_reflTransGen

/-- The first step of a way. -/
lemma beyond_iff_head : Beyond link n m ↔ ∃ k, link n = some k ∧ Reach link k m :=
  Relation.TransGen.head'_iff

/-- The last step of a way. -/
lemma beyond_iff_tail : Beyond link n m ↔ ∃ k, Reach link n k ∧ link k = some m :=
  Relation.TransGen.tail'_iff

lemma exists_beyond_iff {P : α → Prop} :
    (∃ s, Beyond link n s ∧ P s) ↔ ∃ k ∈ link n, ∃ s, Reach link k s ∧ P s := by
  simp only [beyond_iff_head]
  constructor
  · rintro ⟨s, ⟨k, hk, hs⟩, hP⟩
    exact ⟨k, hk, s, hs, hP⟩
  · rintro ⟨k, hk, s, hs, hP⟩
    exact ⟨s, ⟨k, hk, hs⟩, hP⟩

/-- The ways from a node go through each other. -/
lemma Reach.total (hx : Reach link m x) (hy : Reach link m y) : Reach link x y ∨ Reach link y x :=
  Relation.ReflTransGen.total_of_right_unique
    (fun _ _ _ hb hc => Option.some.inj (hb.symm.trans hc)) hx hy

section

variable (hrank : ∀ {n m}, link n = some m → rank m < rank n)

include hrank

lemma Reach.rank_le (h : Reach link n m) : rank m ≤ rank n := by
  induction h with
  | refl => exact le_rfl
  | tail _ hlink ih => exact (hrank hlink).le.trans ih

lemma Beyond.rank_lt (h : Beyond link n m) : rank m < rank n := by
  obtain ⟨k, hlink, hreach⟩ := beyond_iff_head.mp h
  exact (hreach.rank_le hrank).trans_lt (hrank hlink)

lemma Reach.antisymm (h : Reach link n m) (h' : Reach link m n) : n = m := by
  obtain rfl | hbeyond := reach_iff.mp h
  · rfl
  · exact absurd (hbeyond.rank_lt hrank) (h'.rank_le hrank).not_gt

end

/-- Two links in opposite directions. -/
lemma beyond_swap {back : α → Option α} (hback : ∀ {n m}, link n = some m ↔ back m = some n) :
    Beyond link n m ↔ Beyond back m n := by
  have hswap : (fun a b => back a = some b) = Function.swap fun a b => link a = some b := by
    funext a b
    exact propext hback.symm
  rw [Beyond, Beyond, hswap, Relation.transGen_swap]

section Sides

variable (h : Sided parent along down depth rank)

include h

lemma Sided.reach_parent (hm : Reach along n m) : parent m = parent n := by
  induction hm with
  | refl => rfl
  | tail _ hlink ih => rw [h.along_parent hlink, ih]

lemma Sided.ne_of_beyond (hm : Beyond along n m) : n ≠ m := by
  rintro rfl
  exact lt_irrefl _ (hm.rank_lt h.along_rank)

/-- Nodes with one parent have nothing below them in common. -/
lemma Sided.apart (hparent : parent x = parent y) (hne : x ≠ y) (hx : Reach parent m x)
    (hy : Reach parent m y) : False := by
  have hclash {x y : α} (hparent : parent x = parent y) (hne : x ≠ y) (hxy : Reach parent x y) :
      False := by
    obtain rfl | hbeyond := reach_iff.mp hxy
    · exact hne rfl
    · obtain ⟨k, hk, hreach⟩ := beyond_iff_head.mp hbeyond
      have hle := hreach.rank_le h.parent_depth
      exact absurd (h.parent_depth (hparent.symm.trans hk)) (by omega)
  obtain hxy | hyx := hx.total hy
  · exact hclash hparent hne hxy
  · exact hclash hparent.symm hne.symm hyx

/-- What is below a node is below one of its children. -/
lemma Sided.beyond_iff : Beyond parent m p ↔ ∃ c ∈ down p, ∃ s, Reach along c s ∧ Reach parent m s := by
  rw [beyond_iff_tail]
  constructor
  · rintro ⟨s, hs, hparent⟩
    obtain ⟨c, hc, hreach⟩ := h.reached hparent
    exact ⟨c, hc, s, hreach, hs⟩
  · rintro ⟨c, hc, s, hreach, hs⟩
    exact ⟨s, hs, (h.reach_parent hreach).trans (h.down_parent hc)⟩

/-- The children of a node. -/
lemma Sided.parent_iff : parent m = some p ↔ ∃ c ∈ down p, Reach along c m := by
  constructor
  · exact h.reached
  · rintro ⟨c, hc, hreach⟩
    exact (h.reach_parent hreach).trans (h.down_parent hc)

lemma Sided.not_beyond_self : ¬ Beyond parent n n := fun hn =>
  lt_irrefl _ (hn.rank_lt h.parent_depth)

end Sides

end LinkedTrees
