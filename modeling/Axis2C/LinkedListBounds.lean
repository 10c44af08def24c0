import Axis2C.LinkedListRuns

/-!
# Linked list operations outside the range

The bounds check records the error and the operation goes on: it takes the entry at the nearest
end, and on an empty list it reads through NULL.
-/
namespace Axis2C.LinkedLists
open MachineInts DoublyLinked

variable {α : Type} [DecidableEq α] {s s' : LinkedList α} {cs : List ℕ} {xs : List α}

/-- The lists that calls with any arguments lead to, as long as they do not fault and the number
of the elements stays an `int`; other code may set `env->error`. -/
inductive Reachable : LinkedList α → Prop
  | create : Reachable create
  | step {s s' : LinkedList α} {op : Op α} {reply : Reply α} (h : Reachable s)
      (hsize : s.size + 1 < 2 ^ 31) (hok : op.apply s = .ok (s', reply)) : Reachable s'
  | error {s : LinkedList α} (h : Reachable s) (number : Option ErrorNumber) (status : Bool) :
      Reachable { s with errorNumber := number, statusCode := status }

lemma Reachable.represents (h : Reachable s) : ∃ cs xs, Represents s cs xs := by
  induction h with
  | create => exact ⟨[], [], represents_create⟩
  | @step s s' op reply _ hsize hok ih =>
    obtain ⟨cs, xs, hs⟩ := ih
    have hfits : op.Fits xs := by
      have hlen := hs.size
      have hint : xs.length + 1 < 2 ^ 31 := by omega
      unfold Op.Fits
      split <;> first | exact hint | trivial
    have hmatches := apply_matches hs op hfits
    rw [hok] at hmatches
    cases heffect : op.effect xs with
    | none =>
      rw [heffect] at hmatches
      obtain ⟨fault, hfault⟩ := hmatches
      cases hfault
    | some r =>
      rw [heffect] at hmatches
      obtain ⟨s₁, cs₁, hs₁, h₁⟩ := hmatches
      obtain ⟨rfl, -⟩ := Prod.mk.inj (Except.ok.inj hs₁)
      exact ⟨cs₁, r.1, h₁⟩
  | error _ _ _ ih =>
    obtain ⟨cs, xs, hs⟩ := ih
    exact ⟨cs, xs, hs.nodup, hs.fresh, hs.first, hs.last, hs.linked, hs.data, hs.size, hs.int⟩

/-- The objects in order. -/
def contents (s : LinkedList α) : Option (List (Option α)) :=
  (follow s.next s.fresh s.first).map fun cs => cs.map s.data

/-- A call reads through no missing entry, sets the bounds error and leaves the elements. -/
def Atomic {β : Type} (s : LinkedList α) (r : Except Fault (LinkedList α × β)) : Prop :=
  ∃ s' v, r = .ok (s', v) ∧ s'.errorNumber = some .indexOutOfBounds ∧ s'.statusCode = false ∧
    contents s' = contents s ∧ s'.size = s.size

/-- The entry at the end that is nearest to an index outside the range. -/
def nearest (s : LinkedList α) (index : ℤ) : Option ℕ := if index < 0 then s.first else s.last

omit [DecidableEq α]

lemma checkExclusive_outside {index : ℤ} (h : index < 0 ∨ index ≥ s.size) :
    (checkBoundsExclusive s index).1 = s.failed .indexOutOfBounds := by
  rw [checkBoundsExclusive, if_pos h]

section

variable (h : Represents s cs xs)

include h

/-- What is found outside the range is the nearest end. -/
lemma getEntry_outside {index : ℤ} (hout : index < 0 ∨ index ≥ s.size) (hint : index + 1 < 2 ^ 31) :
    getEntry s index = .ok (nearest s index) := by
  have hsize := h.size
  have hlen := h.length
  rw [getEntry_eq h, if_neg (by omega), nearest, h.first, h.last]
  by_cases hneg : index < 0
  · have hplace : place index cs.length = 0 := by
      unfold place
      omega
    rw [if_pos hneg, hplace, List.head?_eq_getElem?]
  · have hplace : place index cs.length = cs.length - 1 := by
      unfold place
      omega
    rw [if_neg hneg, hplace, List.getLast?_eq_getElem?]

lemma nearest_eq_none_iff (index : ℤ) : nearest s index = none ↔ s.size = 0 := by
  rw [h.size_eq_zero, nearest, h.first, h.last]
  split
  · exact List.head?_eq_none_iff
  · exact List.getLast?_eq_none_iff

/-- The nearest end is asked for in the range of `int` only. -/
lemma getEntry_overflow {index : ℤ} (hint : ¬ index + 1 < 2 ^ 31) :
    getEntry s index = .error .intRange := by
  rw [getEntry_eq h, if_pos (by omega)]

theorem get_atomic_iff {index : ℤ} (hout : index < 0 ∨ index ≥ s.size) :
    Atomic s (get s index) ↔ s.size ≠ 0 ∧ index + 1 < 2 ^ 31 := by
  have hfailed := h.failed .indexOutOfBounds
  have hvalue : get s index = (getEntry (s.failed .indexOutOfBounds) index >>= fun e =>
      deref e >>= fun e => .ok (s.failed .indexOutOfBounds, s.data e)) := by
    rw [get, checkExclusive_outside hout]
    rfl
  rw [hvalue]
  by_cases hint : index + 1 < 2 ^ 31
  · rw [getEntry_outside hfailed hout hint]
    cases hentry : nearest (s.failed .indexOutOfBounds) index with
    | none =>
      refine iff_of_false ?_ (fun hne => hne.1 ((nearest_eq_none_iff hfailed index).mp hentry))
      rintro ⟨s', v, hok, -⟩
      cases hok
    | some e =>
      have hsize : s.size ≠ 0 := by
        intro hzero
        rw [(nearest_eq_none_iff hfailed index).mpr hzero] at hentry
        cases hentry
      exact iff_of_true ⟨_, _, rfl, rfl, rfl, rfl, rfl⟩ ⟨hsize, hint⟩
  · rw [getEntry_overflow hfailed hint]
    refine iff_of_false ?_ (fun hne => hint hne.2)
    rintro ⟨s', v, hok, -⟩
    cases hok

lemma mem_of_nearest {index : ℤ} {e : ℕ} (he : nearest s index = some e) : e ∈ cs := by
  rw [nearest, h.first, h.last] at he
  split at he
  · exact List.mem_of_mem_head? he
  · exact List.mem_of_getLast? he

/-- Storing an object leaves the elements exactly if it is the one that is there. -/
lemma contents_setData {e : ℕ} (he : e ∈ cs) (o : α) :
    contents (s.setData e o) = contents s ↔ s.data e = some o := by
  have hfollow : follow s.next s.fresh s.first = some cs := by
    rw [h.first]
    exact h.linked.follow_next (fresh_bounds h)
  have hleft : contents (s.setData e o) = some (cs.map (Function.update s.data e (some o))) := by
    change (follow s.next s.fresh s.first).map _ = _
    rw [hfollow]
    rfl
  rw [hleft, contents, hfollow, Option.map_some, Option.some.injEq, List.map_inj_left]
  constructor
  · intro hall
    have hsame := hall e he
    rw [Function.update_self] at hsame
    exact hsame.symm
  · intro hdata c _
    rw [← hdata, Function.update_eq_self]

theorem set_atomic_iff {index : ℤ} (hout : index < 0 ∨ index ≥ s.size) (o : Option α) :
    Atomic s (set s index o) ↔
      index + 1 < 2 ^ 31 ∧ ∃ e, nearest s index = some e ∧ s.data e = o := by
  cases o with
  | none =>
    refine iff_of_false ?_ ?_
    · rintro ⟨s', v, hok, herror, -⟩
      obtain ⟨rfl, -⟩ := Prod.mk.inj (Except.ok.inj hok)
      cases herror
    · rintro ⟨-, e, he, hdata⟩
      -- no entry holds NULL
      have hmem : s.data e ∈ xs.map some := by
        rw [← h.data]
        exact List.mem_map_of_mem (mem_of_nearest h he)
      rw [hdata] at hmem
      simp at hmem
  | some o =>
    have hfailed := h.checked.failed .indexOutOfBounds
    have hvalue : set s index (some o) =
        (getEntry (s.checked.failed .indexOutOfBounds) index >>= fun e =>
          deref e >>= fun e =>
            .ok ((s.checked.failed .indexOutOfBounds).setData e o, s.data e)) := by
      rw [set, checkExclusive_outside (show index < 0 ∨ index ≥ s.checked.size from hout)]
      rfl
    rw [hvalue]
    by_cases hint : index + 1 < 2 ^ 31
    · rw [getEntry_outside hfailed hout hint]
      have hsame : nearest (s.checked.failed .indexOutOfBounds) index = nearest s index := rfl
      rw [hsame]
      cases hentry : nearest s index with
      | none =>
        refine iff_of_false ?_ ?_
        · rintro ⟨s', v, hok, -⟩
          cases hok
        · rintro ⟨-, e, he, -⟩
          cases he
      | some e =>
        have hcontents := contents_setData hfailed (mem_of_nearest h hentry) o
        constructor
        · rintro ⟨s', v, hok, -, -, hleft, -⟩
          obtain ⟨rfl, -⟩ := Prod.mk.inj (Except.ok.inj hok)
          exact ⟨hint, e, rfl, hcontents.mp hleft⟩
        · rintro ⟨-, e', he, hdata⟩
          obtain rfl := Option.some.inj he
          exact ⟨_, _, rfl, rfl, rfl, hcontents.mpr hdata, rfl⟩
    · rw [getEntry_overflow hfailed hint]
      refine iff_of_false ?_ (fun hne => hint hne.1)
      rintro ⟨s', v, hok, -⟩
      cases hok

end

/-- An entry is removed, or the call faults. -/
theorem removeAtIndex_not_atomic [DecidableEq α] (h : Represents s cs xs) (index : ℤ) :
    ¬ Atomic s (removeAtIndex s index) := by
  rintro ⟨s', v, hok, -, -, -, hsize⟩
  have hmatches := removeAtIndex_spec h index
  rw [hok] at hmatches
  by_cases hbad : xs = [] ∨ 2 ^ 31 ≤ index + 1
  · have heffect : Op.effect xs (.removeAtIndex index) = none := if_pos hbad
    rw [heffect] at hmatches
    obtain ⟨fault, hfault⟩ := hmatches
    cases hfault
  · have heffect : Op.effect xs (.removeAtIndex index) =
        some (xs.eraseIdx (place index xs.length), .object xs[place index xs.length]?) :=
      if_neg hbad
    rw [heffect] at hmatches
    obtain ⟨s₁, cs₁, hs₁, h₁⟩ := hmatches
    obtain ⟨rfl, -⟩ := Prod.mk.inj (Except.ok.inj hs₁)
    have hpos := List.length_pos_iff.mpr (not_or.mp hbad).1
    have hlen := h₁.size
    rw [List.length_eraseIdx_of_lt (place_lt hpos), hsize, h.size] at hlen
    omega

/-- An entry is added, or the call faults. -/
theorem addAtIndex_not_atomic (h : Represents s cs xs) (index : ℤ) (o : Option α) :
    ¬ Atomic s (addAtIndex s index o) := by
  rintro ⟨s', v, hok, herror, -, -, hsize⟩
  cases o with
  | none =>
    obtain ⟨rfl, -⟩ := Prod.mk.inj (Except.ok.inj hok)
    cases herror
  | some o =>
    have hready := h.beforeInsertion index o
    have hcount : s'.size = int32 (s.size + 1) := by
      rw [addAtIndex_eq] at hok
      have hsame : (beforeInsertion s index o).size = s.size := hready.size.trans h.size.symm
      by_cases hlt : index < (beforeInsertion s index o).size
      · rw [if_pos hlt] at hok
        cases hentry : getEntry (beforeInsertion s index o).modified index >>= deref with
        | error => simp [hentry, Except.map] at hok
        | ok after =>
          rw [hentry] at hok
          obtain ⟨rfl, -⟩ := Prod.mk.inj (Except.ok.inj hok)
          rw [putBefore_size, ← hsame]
          rfl
      · rw [if_neg hlt] at hok
        obtain ⟨s₁, hs₁, hi⟩ := addLastEntry_inserted hready
        rw [hs₁] at hok
        obtain ⟨rfl, -⟩ := Prod.mk.inj (Except.ok.inj hok)
        rw [hi.size, hsame]
    rw [hsize] at hcount
    have hlen := h.size
    have hint := h.int
    rw [int32, Int.bmod_def] at hcount
    omega

end Axis2C.LinkedLists
