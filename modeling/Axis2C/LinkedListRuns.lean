import Axis2C.LinkedListSequence

/-!
# Runs of linked list operations

Any run of operations within the range leads to a list that represents the sequence that the
same operations on sequences give, and the queries agree with those on sequences.
-/
namespace Axis2C.LinkedLists
open MachineInts DoublyLinked

variable {α : Type} [DecidableEq α] {s s' : LinkedList α} {cs : List ℕ} {xs : List α}

section Queries

/-- The place of the first element that equals `b`, or -1. -/
def IsFirstIndex {β : Type} (l : List β) (b : β) (r : ℤ) : Prop :=
  (r = -1 ∧ b ∉ l) ∨ ∃ i : ℕ, r = i ∧ l[i]? = some b ∧ ∀ j < i, l[j]? ≠ some b

/-- The place of the last element that equals `b`, or -1. -/
def IsLastIndex {β : Type} (l : List β) (b : β) (r : ℤ) : Prop :=
  (r = -1 ∧ b ∉ l) ∨ ∃ i : ℕ, r = i ∧ l[i]? = some b ∧ ∀ j, i < j → l[j]? ≠ some b

/-- The links in both directions, the size and the queries agree with a sequence, of which the
objects are pointers that are not NULL. -/
structure Agrees (s : LinkedList α) (xs : List α) : Prop where
  links : ∃ cs, follow s.next s.fresh s.first = some cs ∧
    follow s.previous s.fresh s.last = some cs.reverse ∧ cs.map s.data = xs.map some
  size : s.size = xs.length
  firstPrevious : ∀ e ∈ s.first, s.previous e = none
  lastNext : ∀ e ∈ s.last, s.next e = none
  get : ∀ (i : ℕ) (o : Option α), (xs.map some)[i]? = some o →
    ∃ s', get s i = .ok (s', o)
  contains : ∀ o, ∃ s', contains s o = .ok (s', decide (o ∈ xs.map some))
  toArray : toArray s = .ok (xs.map some)

omit [DecidableEq α] in
lemma toArrayLoop_eq {before : Option ℕ} (hlinked : Linked s.next s.previous before cs none)
    (hdata : cs.map s.data = xs.map some) :
    toArrayLoop s xs.length cs.head? = .ok (xs.map some) := by
  induction cs generalizing before xs with
  | nil =>
    obtain rfl : xs = [] := by simpa using hdata.symm
    rfl
  | cons c cs ih =>
    obtain ⟨-, hnext, hrest⟩ := hlinked
    rw [Option.or_none] at hnext
    cases xs with
    | nil => simp at hdata
    | cons x xs =>
      obtain ⟨hc, hdata⟩ := List.cons.inj hdata
      have hloop := ih hrest hdata
      rw [List.head?_cons, List.length_cons, toArrayLoop, deref_bind, hnext, hloop, hc]
      rfl

omit [DecidableEq α] in
lemma Represents.get_spec (h : Represents s cs xs) (i : ℕ) (o : Option α)
    (ho : (xs.map some)[i]? = some o) : ∃ s', LinkedLists.get s i = .ok (s', o) := by
  have hcheck := h.checkExclusive i
  rw [List.getElem?_map] at ho
  obtain ⟨x, hx, rfl⟩ := Option.map_eq_some_iff.mp ho
  have hi : i < xs.length := (List.getElem?_eq_some_iff.mp hx).1
  have hint := h.int
  have hgood : ¬ (xs = [] ∨ (2 : ℤ) ^ 31 ≤ i + 1) := by
    rintro (rfl | hover)
    · simp at hi
    · omega
  obtain ⟨ys, zs, us, vs, e, o, rfl, rfl, -, hplace, hfound, hdata⟩ := getEntry_found hcheck hgood
  rw [place_eq (by omega) (by omega), Int.toNat_natCast] at hplace
  obtain rfl : o = x := by simpa [hplace] using hx
  refine ⟨(checkBoundsExclusive s i).1, ?_⟩
  have hvalue : LinkedLists.get s i = (getEntry (checkBoundsExclusive s i).1 i >>= fun e =>
      deref e >>= fun e => .ok ((checkBoundsExclusive s i).1, (checkBoundsExclusive s i).1.data e)) :=
    rfl
  rw [hvalue, hfound]
  change Except.ok (_, (checkBoundsExclusive s i).1.data e) = _
  rw [hdata]

lemma Represents.contains_spec (h : Represents s cs xs) (o : Option α) :
    ∃ s', LinkedLists.contains s o = .ok (s', decide (o ∈ xs.map some)) := by
  cases o with
  | none => exact ⟨s.failed .invalidNullParam, by simp [LinkedLists.contains]⟩
  | some o =>
    refine ⟨s.checked, ?_⟩
    have hvalue : LinkedLists.contains s (some o) =
        (seek s s.next o s.fresh s.first >>= fun found => .ok (s.checked, found.isSome)) := rfl
    rw [hvalue, h.seek_next o]
    by_cases hmem : o ∈ xs
    · obtain ⟨us, vs, rfl, hus⟩ := List.eq_append_cons_of_mem hmem
      have hlen := h.length
      obtain ⟨e, he⟩ : ∃ e, cs[us.length]? = some e :=
        ⟨_, List.getElem?_eq_getElem (by rw [hlen]; simp)⟩
      rw [idxOf?_split us vs hus, Option.bind_some, he]
      simp [bind, Except.bind]
    · rw [List.idxOf?_eq_none_iff.mpr hmem]
      simp [bind, Except.bind, hmem]

lemma Represents.agrees (h : Represents s cs xs) : Agrees s xs where
  links := by
    have hfresh := fresh_bounds h
    refine ⟨cs, ?_, ?_, h.data⟩
    · rw [h.first]
      exact h.linked.follow_next hfresh
    · rw [h.last]
      exact h.linked.follow_prev hfresh
  size := h.size
  firstPrevious := by
    intro e he
    rw [h.first] at he
    obtain ⟨es, rfl⟩ := List.head?_eq_some_iff.mp he
    exact h.linked.1
  lastNext := by
    intro e he
    rw [h.last] at he
    obtain ⟨es, rfl⟩ := List.getLast?_eq_some_iff.mp he
    exact h.at_split.2
  get := h.get_spec
  contains := h.contains_spec
  toArray := by
    rw [toArray, h.size, Int.toNat_natCast, h.first]
    exact toArrayLoop_eq h.linked h.data

omit [DecidableEq α] in
/-- What comes before the first occurrence does not hold the object. -/
lemma isFirstIndex_split (us vs : List α) {o : α} (ho : o ∉ us) :
    IsFirstIndex ((us ++ o :: vs).map some) (some o) us.length := by
  refine Or.inr ⟨us.length, rfl, by simp, fun j hj hsame => ho ?_⟩
  rw [List.getElem?_map, List.getElem?_append_left hj] at hsame
  obtain ⟨x, hx, hxo⟩ := Option.map_eq_some_iff.mp hsame
  obtain rfl := Option.some.inj hxo
  exact List.mem_of_getElem? hx

omit [DecidableEq α] in
lemma isLastIndex_split (us vs : List α) {o : α} (ho : o ∉ vs) :
    IsLastIndex ((us ++ o :: vs).map some) (some o) us.length := by
  refine Or.inr ⟨us.length, rfl, by simp, fun j hj hsame => ho ?_⟩
  rw [List.getElem?_map, List.getElem?_append_right hj.le] at hsame
  obtain ⟨x, hx, hxo⟩ := Option.map_eq_some_iff.mp hsame
  obtain rfl := Option.some.inj hxo
  obtain ⟨k, hk⟩ : ∃ k, j - us.length = k + 1 := ⟨j - us.length - 1, by omega⟩
  rw [hk, List.getElem?_cons_succ] at hx
  exact List.mem_of_getElem? hx

lemma Represents.indexOf_spec (h : Represents s cs xs) (o : α) :
    ∃ s' r, indexOf s (some o) = .ok (s', r) ∧ IsFirstIndex (xs.map some) (some o) r := by
  rw [indexOf, h.seek_next o]
  by_cases hmem : o ∈ xs
  · obtain ⟨us, vs, rfl, hus⟩ := List.eq_append_cons_of_mem hmem
    have hlen := h.length
    obtain ⟨e, he⟩ : ∃ e, cs[us.length]? = some e :=
      ⟨_, List.getElem?_eq_getElem (by rw [hlen]; simp)⟩
    rw [idxOf?_split us vs hus, Option.bind_some, he]
    exact ⟨s.checked, us.length, rfl, isFirstIndex_split us vs hus⟩
  · rw [List.idxOf?_eq_none_iff.mpr hmem]
    exact ⟨s.checked, -1, rfl, Or.inl ⟨rfl, by simpa using hmem⟩⟩

lemma Represents.lastIndexOf_spec (h : Represents s cs xs) (o : α) :
    ∃ s' r, lastIndexOf s (some o) = .ok (s', r) ∧ IsLastIndex (xs.map some) (some o) r := by
  rw [lastIndexOf, h.seek_previous o]
  by_cases hmem : o ∈ xs
  · obtain ⟨us, vs, hxs, hus⟩ := List.eq_append_cons_of_mem (List.mem_reverse.mpr hmem)
    obtain rfl : xs = vs.reverse ++ o :: us.reverse := by
      rw [← List.reverse_reverse xs, hxs]
      simp
    have hlen := h.length
    simp only [List.length_append, List.length_reverse, List.length_cons] at hlen
    obtain ⟨e, he⟩ : ∃ e, cs.reverse[us.length]? = some e :=
      ⟨_, List.getElem?_eq_getElem (by rw [List.length_reverse]; omega)⟩
    have hsize : s.size - 1 - us.length = vs.reverse.length := by
      rw [h.size]
      simp only [List.length_append, List.length_reverse, List.length_cons]
      omega
    rw [hxs, idxOf?_split us vs hus, Option.bind_some, he]
    refine ⟨s.checked, vs.reverse.length, ?_, isLastIndex_split _ _ (by simpa using hus)⟩
    rw [← hsize]
    rfl
  · rw [List.idxOf?_eq_none_iff.mpr (by simpa using hmem)]
    exact ⟨s.checked, -1, rfl, Or.inl ⟨rfl, by simpa using hmem⟩⟩

omit [DecidableEq α] in
/-- NULL is no element, but 0 is a place or at least not -1. -/
lemma null_not_at_zero (xs : List α) :
    ¬ IsFirstIndex (xs.map some) none 0 ∧ ¬ IsLastIndex (xs.map some) none 0 := by
  have hnone (i : ℕ) : (xs.map some)[i]? ≠ some none := by
    intro h
    rw [List.getElem?_map] at h
    obtain ⟨x, -, hx⟩ := Option.map_eq_some_iff.mp h
    cases hx
  constructor
  · rintro (⟨hr, -⟩ | ⟨i, -, hi, -⟩)
    · cases hr
    · exact hnone i hi
  · rintro (⟨hr, -⟩ | ⟨i, -, hi, -⟩)
    · cases hr
    · exact hnone i hi

end Queries

section Runs

/-- The index of an operation is a place of the sequence. -/
def Op.InRange (xs : List α) : Op α → Prop
  | .addAtIndex index _ => 0 ≤ index ∧ index ≤ xs.length
  | .removeAtIndex index | .set index _ => 0 ≤ index ∧ index < xs.length
  | _ => True

/-- The operations on sequences. NULL is not added, and is not found. -/
def Op.sequence (xs : List α) : Op α → List α × Reply α
  | .addFirst o => (o.toList ++ xs, .status o.isSome)
  | .addLast o | .add o => (xs ++ o.toList, .status o.isSome)
  | .addAtIndex index o =>
    (o.elim xs fun o => xs.insertIdx index.toNat o, .status o.isSome)
  | .removeFirst => (xs.tail, .object xs.head?)
  | .removeLast => (xs.dropLast, .object xs.getLast?)
  | .remove o => (o.elim xs fun o => xs.erase o, .status (decide (o ∈ xs.map some)))
  | .removeAtIndex index => (xs.eraseIdx index.toNat, .object xs[index.toNat]?)
  | .set index o =>
    (o.elim xs fun o => xs.set index.toNat o, .object (o.bind fun _ => xs[index.toNat]?))
  | .clear => ([], .status true)

/-- Within the range an operation has the effect of that on sequences. -/
lemma effect_eq (op : Op α) (hrange : op.InRange xs) (hint : xs.length < 2 ^ 31) :
    op.effect xs = some (op.sequence xs) := by
  cases op with
  | addFirst o | addLast o | add o | remove o => cases o <;> simp [Op.effect, Op.sequence]
  | addAtIndex index o =>
    cases o with
    | none => rfl
    | some o =>
      obtain ⟨hpos, hle⟩ := hrange
      by_cases hlt : index < xs.length
      · have hempty : xs ≠ [] := by
          rintro rfl
          simp at hlt
          omega
        exact (if_pos hlt).trans (if_neg hempty)
      · have hend : index.toNat = xs.length := by omega
        refine (if_neg hlt).trans ?_
        simp [Op.sequence, hend]
  | removeFirst | removeLast | clear => rfl
  | removeAtIndex index =>
    obtain ⟨hpos, hlt⟩ := hrange
    have hempty : xs ≠ [] := by
      rintro rfl
      simp at hlt
      omega
    refine (if_neg (not_or.mpr ⟨hempty, by omega⟩)).trans ?_
    rw [place_eq hpos hlt]
    rfl
  | set index o =>
    cases o with
    | none => rfl
    | some o =>
      obtain ⟨hpos, hlt⟩ := hrange
      have hempty : xs ≠ [] := by
        rintro rfl
        simp at hlt
        omega
      refine (if_neg (not_or.mpr ⟨hempty, by omega⟩)).trans ?_
      rw [place_eq hpos hlt]
      rfl

/-- The operations one after the other, with their replies. -/
def runOps (s : LinkedList α) : List (Op α) → Except Fault (LinkedList α × List (Reply α))
  | [] => .ok (s, [])
  | op :: ops => do
      let (s, reply) ← op.apply s
      let (s, replies) ← runOps s ops
      .ok (s, reply :: replies)

def runSequence (xs : List α) : List (Op α) → List α × List (Reply α)
  | [] => (xs, [])
  | op :: ops =>
    ((runSequence (op.sequence xs).1 ops).1,
      (op.sequence xs).2 :: (runSequence (op.sequence xs).1 ops).2)

/-- Each operation is within the range, and the number of the elements stays an `int`. -/
def Allowed (xs : List α) : List (Op α) → Prop
  | [] => True
  | op :: ops => op.InRange xs ∧ op.Fits xs ∧ Allowed (op.sequence xs).1 ops

lemma Represents.step (h : Represents s cs xs) {op : Op α} (hrange : op.InRange xs)
    (hfits : op.Fits xs) : ∃ s' cs', op.apply s = .ok (s', (op.sequence xs).2) ∧
      Represents s' cs' (op.sequence xs).1 := by
  have hmatches := apply_matches h op hfits
  rwa [effect_eq op hrange h.int] at hmatches

lemma Represents.runOps (h : Represents s cs xs) {ops : List (Op α)} (hops : Allowed xs ops) :
    ∃ s' cs', LinkedLists.runOps s ops = .ok (s', (runSequence xs ops).2) ∧
      Represents s' cs' (runSequence xs ops).1 := by
  induction ops generalizing s cs xs with
  | nil => exact ⟨s, cs, rfl, h⟩
  | cons op ops ih =>
    obtain ⟨hrange, hfits, hrest⟩ := hops
    obtain ⟨s₁, cs₁, hok, h₁⟩ := h.step hrange hfits
    obtain ⟨s₂, cs₂, hoks, h₂⟩ := ih h₁ hrest
    refine ⟨s₂, cs₂, ?_, h₂⟩
    rw [LinkedLists.runOps, hok]
    change (LinkedLists.runOps s₁ ops >>= _) = _
    rw [hoks]
    rfl

/-- After any run within the range, of less than `2 ^ 31` elements, a list agrees with the
sequence that the operations on sequences give, and so do the replies; `index_of` and
`last_index_of` agree for an object exactly if it is not NULL. -/
theorem linked_list_refines_iff (ops : List (Op α)) (hops : Allowed [] ops) :
    ∃ s, runOps create ops = .ok (s, (runSequence [] ops).2) ∧
      Agrees s (runSequence [] ops).1 ∧
      ∀ o, ((∃ s' r, indexOf s o = .ok (s', r) ∧
            IsFirstIndex ((runSequence [] ops).1.map some) o r) ↔ o ≠ none) ∧
        ((∃ s' r, lastIndexOf s o = .ok (s', r) ∧
            IsLastIndex ((runSequence [] ops).1.map some) o r) ↔ o ≠ none) := by
  obtain ⟨s, cs, hok, h⟩ := represents_create.runOps hops
  refine ⟨s, hok, h.agrees, fun o => ?_⟩
  obtain ⟨hfirst, hlast⟩ := null_not_at_zero (runSequence [] ops).1
  cases o with
  | none =>
    refine ⟨iff_of_false ?_ (fun hne => hne rfl), iff_of_false ?_ (fun hne => hne rfl)⟩
    · rintro ⟨s', r, hok, hr⟩
      obtain ⟨-, rfl⟩ := Prod.mk.inj (Except.ok.inj hok)
      exact hfirst hr
    · rintro ⟨s', r, hok, hr⟩
      obtain ⟨-, rfl⟩ := Prod.mk.inj (Except.ok.inj hok)
      exact hlast hr
  | some o =>
    exact ⟨iff_of_true (h.indexOf_spec o) (by simp), iff_of_true (h.lastIndexOf_spec o) (by simp)⟩

theorem linked_list_refines_three : ∃ s,
    runOps create [.addLast (some 5), .addAtIndex 0 (some 7), .removeAtIndex 1] =
        .ok (s, [.status true, .status true, .object (some 5)]) ∧ Agrees s [7] := by
  obtain ⟨s, hok, hagrees, -⟩ := linked_list_refines_iff
    [.addLast (some 5), .addAtIndex 0 (some 7), .removeAtIndex 1]
    (by simp [Allowed, Op.InRange, Op.Fits, Op.sequence])
  exact ⟨s, hok, hagrees⟩

/-- On an empty list `index_of` answers 0 for NULL. -/
theorem null_is_found_at_zero :
    indexOf (create : LinkedList ℕ) none = .ok ((create.failed .invalidNullParam), 0) ∧
      ¬ ∀ (ops : List (Op ℕ)) (o : Option ℕ) (s : LinkedList ℕ) (replies : List (Reply ℕ)),
        Allowed [] ops → runOps create ops = .ok (s, replies) →
          ∃ s' r, indexOf s o = .ok (s', r) ∧
            IsFirstIndex ((runSequence [] ops).1.map some) o r := by
  refine ⟨rfl, fun hall => ?_⟩
  obtain ⟨s', r, hok, hr⟩ := hall [] none create [] trivial rfl
  obtain ⟨-, rfl⟩ := Prod.mk.inj (Except.ok.inj hok)
  exact (null_not_at_zero []).1 hr

end Runs

end Axis2C.LinkedLists
