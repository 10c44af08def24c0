import Axis2C.CallRuns

/-!
# Array lists

`axutil_array_list` keeps its elements in a block that doubles when it is full. An access
outside the block is undefined, and so is a capacity that is no `int`. Allocation succeeds,
and the cells of a new block hold anything.
-/
namespace Axis2C.ArrayLists

variable {α : Type}

/-- `axutil_array_list`. The capacity is the length of the block. -/
structure ArrayList (α : Type) where
  size : ℕ
  data : List α
  deriving Repr

section Model

variable (fresh : ℕ → α) (s : ArrayList α)

/-- A new block of cells. -/
def malloc (n : ℕ) : List α := (List.range n).map fresh

def store (data : List α) (i : ℕ) (e : α) : Option (List α) :=
  if i < data.length then some (data.set i e) else none

def create (capacity : ℤ) : ArrayList α :=
  ⟨0, malloc fresh (if capacity ≤ 0 then 16 else capacity.toNat)⟩

def ensureCapacity (minCapacity : ℕ) : Option (ArrayList α) :=
  let capacity := s.data.length
  if minCapacity > capacity then
    if 2 ^ 31 ≤ capacity * 2 then none
    else
      let newCapacity := max (capacity * 2) minCapacity
      some { s with data := s.data ++ (malloc fresh newCapacity).drop capacity }
  else some s

/-- Both additions begin with this. -/
def makeRoom : Option (ArrayList α) :=
  if s.size = s.data.length then ensureCapacity fresh s (s.size + 1) else some s

def checkBoundInclusive (index : ℤ) : Bool := !(index < 0 || index > s.size)

def checkBoundExclusive (index : ℤ) : Bool := !(index < 0 || index ≥ s.size)

/-- The loop of `axutil_array_list_add_at`, down to `index`. -/
def shiftUp (index : ℕ) : ℕ → List α → Option (List α)
  | 0, data => some data
  | k + 1, data => do shiftUp index k (← store data (index + k + 1) (← data[index + k]?))

/-- The loop of `axutil_array_list_remove`, from `index` up. -/
def shiftDown : ℕ → ℕ → List α → Option (List α)
  | _, 0, data => some data
  | index, k + 1, data => do shiftDown (index + 1) k (← store data index (← data[index + 1]?))

inductive Op (α : Type)
  | add (e : α)
  | addAt (index : ℤ) (e : α)
  | get (index : ℤ)
  | set (index : ℤ) (e : α)
  | remove (index : ℤ)

/-- What is handed back. A status of failure and a NULL come with
`AXIS2_ERROR_INDEX_OUT_OF_BOUNDS`. -/
inductive Reply (α : Type)
  | status (success : Bool)
  | object (o : Option α)
  deriving DecidableEq, Repr

def Op.apply : Op α → Option (ArrayList α × Reply α)
  | .add e => do
    let s ← makeRoom fresh s
    return (⟨s.size + 1, ← store s.data s.size e⟩, .status true)
  | .addAt index e =>
    if checkBoundInclusive s index then do
      let s ← makeRoom fresh s
      let data ← shiftUp index.toNat (s.size - index.toNat) s.data
      return (⟨s.size + 1, ← store data index.toNat e⟩, .status true)
    else some (s, .status false)
  | .get index =>
    if checkBoundExclusive s index then do return (s, .object (some (← s.data[index.toNat]?)))
    else some (s, .object none)
  | .set index e =>
    if checkBoundExclusive s index then do
      let result ← s.data[index.toNat]?
      return ({ s with data := ← store s.data index.toNat e }, .object (some result))
    else some (s, .object none)
  | .remove index =>
    if checkBoundExclusive s index then do
      let result ← s.data[index.toNat]?
      let data ← shiftDown index.toNat (s.size - 1 - index.toNat) s.data
      return (⟨s.size - 1, data⟩, .object (some result))
    else some (s, .object none)

/-- The operations one after the other, with their replies. -/
def run (s : ArrayList α) : List (Op α) → Option (ArrayList α × List (Reply α))
  | [] => some (s, [])
  | op :: ops => do
    let (s, reply) ← op.apply fresh s
    let (s, replies) ← run s ops
    return (s, reply :: replies)

end Model

section Sequences

/-- The place of an index. Outside the range it is behind the last element. -/
def place (xs : List α) (index : ℤ) : ℕ := if 0 ≤ index then index.toNat else xs.length

/-- The operation on a sequence. -/
def Op.effect (xs : List α) : Op α → List α × Reply α
  | .add e => (xs ++ [e], .status true)
  | .addAt index e =>
    if 0 ≤ index ∧ index ≤ xs.length then
      (xs.take index.toNat ++ e :: xs.drop index.toNat, .status true)
    else (xs, .status false)
  | .get index => (xs, .object xs[place xs index]?)
  | .set index e => (xs.set (place xs index) e, .object xs[place xs index]?)
  | .remove index => (xs.eraseIdx (place xs index), .object xs[place xs index]?)

def effects (xs : List α) : List (Op α) → List α × List (Reply α)
  | [] => (xs, [])
  | op :: ops =>
    let rest := effects (op.effect xs).1 ops
    (rest.1, (op.effect xs).2 :: rest.2)

/-- The elements stand at the front of the block. -/
structure Holds (s : ArrayList α) (xs : List α) : Prop where
  data : xs <+: s.data
  size : s.size = xs.length

end Sequences

section Loops

lemma store_at {a rest : List α} {x : α} (e : α) :
    store (a ++ x :: rest) a.length e = some (a ++ e :: rest) := by
  simp [store]

lemma shiftUp_spec (a xs : List α) (r : α) (rest : List α) :
    ∃ y, shiftUp a.length xs.length (a ++ xs ++ r :: rest) = some (a ++ y :: xs ++ rest) := by
  induction xs using List.reverseRecOn generalizing r rest with
  | nil => exact ⟨r, by simp [shiftUp]⟩
  | append_singleton xs x ih =>
    obtain ⟨y, hy⟩ := ih x (x :: rest)
    refine ⟨y, ?_⟩
    have hread : (a ++ (xs ++ [x]) ++ r :: rest)[a.length + xs.length]? = some x := by simp
    have hstore : store (a ++ (xs ++ [x]) ++ r :: rest) (a.length + xs.length + 1) x =
        some (a ++ xs ++ x :: x :: rest) := by
      have h := @store_at α (a ++ xs ++ [x]) rest r x
      simpa [add_assoc] using h
    simp only [List.length_append, List.length_singleton, shiftUp, hread, hstore,
      Option.bind_eq_bind, Option.bind_some, hy]
    simp

lemma shiftDown_spec (a xs : List α) (x : α) (rest : List α) :
    ∃ y, shiftDown a.length xs.length (a ++ x :: xs ++ rest) = some (a ++ xs ++ y :: rest) := by
  induction xs generalizing a x with
  | nil => exact ⟨x, by simp [shiftDown]⟩
  | cons x' xs ih =>
    obtain ⟨y, hy⟩ := ih (a ++ [x']) x'
    refine ⟨y, ?_⟩
    have hstore := @store_at α a (x' :: xs ++ rest) x x'
    rw [List.length_append] at hy
    simp only [List.length_cons, shiftDown, Option.bind_eq_bind, List.append_assoc,
      List.cons_append] at hstore ⊢
    simpa [hstore] using hy

end Loops

section Steps

variable (fresh : ℕ → α) {s : ArrayList α} {xs : List α}

lemma split_at {i : ℕ} (h : i < xs.length) : ∃ a x b, xs = a ++ x :: b ∧ a.length = i :=
  ⟨xs.take i, xs[i], xs.drop (i + 1), by simp, by simp; omega⟩

lemma Holds.makeRoom (h : Holds s xs) (hsmall : xs.length < 2 ^ 30) :
    ∃ r rest, makeRoom fresh s = some ⟨xs.length, xs ++ r :: rest⟩ := by
  obtain ⟨⟨rest, hrest⟩, hsize⟩ := h
  obtain ⟨size, data⟩ := s
  obtain rfl : size = xs.length := hsize
  obtain rfl : xs ++ rest = data := hrest
  cases rest with
  | cons r rest => exact ⟨r, rest, if_neg (by simp)⟩
  | nil =>
    have hcells :
        0 < ((malloc fresh (max (xs.length * 2) (xs.length + 1))).drop xs.length).length := by
      simp [malloc]
    obtain ⟨r, cells, hr⟩ := List.exists_cons_of_length_pos hcells
    refine ⟨r, cells, ?_⟩
    have hint : ¬ 2 ^ 31 ≤ xs.length * 2 := by omega
    simp only [ArrayLists.makeRoom, ensureCapacity, List.append_nil, hint, hr]
    simp

lemma Holds.addAt (h : Holds s xs) (index : ℤ) (e : α) (hsmall : xs.length < 2 ^ 30) :
    ∃ s', (Op.addAt index e).apply fresh s = some (s', ((Op.addAt index e).effect xs).2) ∧
      Holds s' ((Op.addAt index e).effect xs).1 := by
  have hbound : checkBoundInclusive s index = true ↔ 0 ≤ index ∧ index ≤ xs.length := by
    simp [checkBoundInclusive, h.size]
  unfold Op.apply Op.effect
  simp only [hbound]
  split_ifs with hrange
  · obtain ⟨r, rest, hroom⟩ := h.makeRoom fresh hsmall
    obtain ⟨a, b, rfl, ha⟩ : ∃ a b, xs = a ++ b ∧ a.length = index.toNat :=
      ⟨xs.take index.toNat, xs.drop index.toNat, by simp, by simp; omega⟩
    obtain ⟨y, hshift⟩ := shiftUp_spec a b r rest
    simp only [List.append_assoc, List.cons_append] at hshift
    refine ⟨⟨(a ++ b).length + 1, a ++ e :: (b ++ rest)⟩, ?_, ⟨rest, ?_⟩, ?_⟩
    · simp [hroom, ← ha, hshift, store_at]
    · simp [← ha]
    · simp [← ha]
      omega
  · exact ⟨s, rfl, h⟩

/-- An index fails the test, or it is that of an element. -/
lemma Holds.exclusive (h : Holds s xs) (index : ℤ) :
    checkBoundExclusive s index = false ∧ xs.length ≤ place xs index ∨
      checkBoundExclusive s index = true ∧ place xs index = index.toNat ∧ ∃ a x b rest,
        xs = a ++ x :: b ∧ a.length = index.toNat ∧ s.data = a ++ x :: (b ++ rest) := by
  obtain ⟨⟨rest, hrest⟩, hsize⟩ := h
  unfold place checkBoundExclusive
  by_cases hrange : 0 ≤ index ∧ index < xs.length
  · obtain ⟨a, x, b, rfl, ha⟩ := @split_at α xs index.toNat (by omega)
    exact .inr ⟨by simp; omega, if_pos hrange.1, a, x, b, rest, rfl, ha, by simp [← hrest]⟩
  · exact .inl ⟨by simp; omega, by split <;> omega⟩

lemma Holds.apply (h : Holds s xs) (op : Op α) (hsmall : xs.length < 2 ^ 30) :
    ∃ s', op.apply fresh s = some (s', (op.effect xs).2) ∧ Holds s' (op.effect xs).1 := by
  cases op with
  | add e =>
    obtain ⟨r, rest, hroom⟩ := h.makeRoom fresh hsmall
    exact ⟨⟨xs.length + 1, xs ++ e :: rest⟩, by simp [Op.apply, Op.effect, hroom, store_at],
      ⟨rest, by simp [Op.effect]⟩, by simp [Op.effect]⟩
  | addAt index e => exact h.addAt fresh index e hsmall
  | get index =>
    refine ⟨s, ?_, h⟩
    rcases h.exclusive index with ⟨hcheck, hout⟩ | ⟨hcheck, hplace, a, x, b, rest, rfl, ha, hdata⟩
    · simp [Op.apply, Op.effect, hcheck, hout]
    · simp [Op.apply, Op.effect, hcheck, hplace, ← ha, hdata]
  | set index e =>
    rcases h.exclusive index with ⟨hcheck, hout⟩ | ⟨hcheck, hplace, a, x, b, rest, rfl, ha, hdata⟩
    · exact ⟨s, by simp [Op.apply, Op.effect, hcheck, hout],
        by simpa [Op.effect, List.set_eq_of_length_le hout]⟩
    · refine ⟨⟨s.size, a ++ e :: (b ++ rest)⟩, ?_, ⟨rest, ?_⟩, ?_⟩
      · simp [Op.apply, Op.effect, hcheck, hplace, ← ha, hdata, store_at]
      · simp [Op.effect, hplace, ← ha]
      · simpa [Op.effect] using h.size
  | remove index =>
    rcases h.exclusive index with ⟨hcheck, hout⟩ | ⟨hcheck, hplace, a, x, b, rest, rfl, ha, hdata⟩
    · exact ⟨s, by simp [Op.apply, Op.effect, hcheck, hout],
        by simpa [Op.effect, List.eraseIdx_of_length_le hout]⟩
    · obtain ⟨y, hshift⟩ := shiftDown_spec a b x rest
      simp only [List.append_assoc, List.cons_append] at hshift
      have hsize : s.size = a.length + (b.length + 1) := by simpa using h.size
      have hleft : s.size - 1 - a.length = b.length := by omega
      have herase : (a ++ x :: b).eraseIdx a.length = a ++ b := by
        simp [List.eraseIdx_append_of_length_le]
      refine ⟨⟨s.size - 1, a ++ b ++ y :: rest⟩, ?_, ⟨y :: rest, ?_⟩, ?_⟩
      · simp [Op.apply, Op.effect, hcheck, hplace, ← ha, hdata, hleft, hshift]
      · simp [Op.effect, hplace, ← ha, herase]
      · simp [Op.effect, hplace, ← ha, herase]
        omega

end Steps

/-- Any operations on a new list do what they do to a sequence, as long as an operation does
not find 2 to the 30 elements or more. -/
theorem array_list_refines (fresh : ℕ → α) (capacity : ℤ) (ops : List (Op α))
    (hsmall : CallRuns.EachCall (fun xs op => (op.effect xs).1) [] ops
      fun xs _ => xs.length < 2 ^ 30) :
    ∃ s, run fresh (create fresh capacity) ops = some (s, (effects [] ops).2) ∧
      Holds s (effects [] ops).1 := by
  have hs : Holds (create fresh capacity) [] := ⟨List.nil_prefix, rfl⟩
  generalize create fresh capacity = s at hs ⊢
  generalize ([] : List α) = xs at hs hsmall ⊢
  induction ops generalizing s xs with
  | nil => exact ⟨s, rfl, hs⟩
  | cons op ops ih =>
    obtain ⟨hfirst, hrest⟩ := CallRuns.eachCall_cons.mp hsmall
    obtain ⟨s', happly, hs'⟩ := hs.apply fresh op hfirst
    obtain ⟨s'', hrun, hs''⟩ := ih s' _ hs' hrest
    exact ⟨s'', by simp [run, effects, happly, hrun], hs''⟩

theorem array_list_refines_insertion :
    ∃ s, run (fun _ => 0) (create (fun _ => 0) 1) [.add 7, .addAt 0 5, .get 2, .remove 0] =
      some (s, [.status true, .status true, .object none, .object (some 5)]) ∧ Holds s [7] := by
  refine array_list_refines (fun _ => 0) 1 [.add 7, .addAt 0 5, .get 2, .remove 0] ?_
  simp [CallRuns.eachCall_cons, CallRuns.eachCall_nil, Op.effect]

end Axis2C.ArrayLists
