import Axis2C.LinkedListEntries

/-!
# Linked lists as sequences

What each operation does to the sequence that a list represents, for any index: a bad index
is taken for the nearest end, on an empty list the operation faults. Within the range that
is the operation on sequences, and the queries agree with those on sequences, except that
`index_of` and `last_index_of` answer 0 for NULL.
-/
namespace Axis2C.LinkedLists
open MachineInts DoublyLinked

variable {α : Type} {s s' : LinkedList α} {cs ys zs : List ℕ} {xs us vs : List α} {e : ℕ} {o : α}

section Places

/-- The place of the entry that is found for an index: one at the end if there is none there. -/
def place (n : ℤ) (length : ℕ) : ℕ := min n.toNat (length - 1)

lemma place_eq {n : ℤ} {length : ℕ} (hpos : 0 ≤ n) (hlt : n < length) :
    place n length = n.toNat := by
  unfold place
  omega

lemma place_lt {n : ℤ} {length : ℕ} (h : 0 < length) : place n length < length := by
  unfold place
  omega

/-- From whichever end it is looked for. -/
lemma getEntry_eq (h : Represents s cs xs) (n : ℤ) :
    getEntry s n =
      if 2 ^ 31 ≤ n + 1 then .error .intRange else .ok cs[place n cs.length]? := by
  have hlen := h.length
  have hint := h.int
  have hsize := h.size
  have hhalf : s.size.tdiv 2 = s.size / 2 := Int.tdiv_eq_ediv_of_nonneg (by omega)
  unfold getEntry walkTo
  rw [hhalf]
  by_cases hlow : n < s.size / 2
  · have hplace : place n cs.length = n.toNat := by
      unfold place
      omega
    rw [if_pos hlow, if_neg (by omega), h.first, h.linked.walk_next (by omega), hplace]
  · rw [if_neg hlow]
    by_cases hover : 2 ^ 31 ≤ n + 1
    · rw [if_pos hover, if_pos hover]
    · rw [if_neg hover, if_neg hover, h.last, h.linked.walk_prev (by omega)]
      by_cases hcs : cs = []
      · simp [hcs]
      · have hpos := List.length_pos_iff.mpr hcs
        have hsteps : cs.length - 1 - (s.size - (n + 1)).toNat = place n cs.length := by
          unfold place
          omega
        simp [List.getElem?_reverse (show (s.size - (n + 1)).toNat < cs.length by omega), hsteps]

lemma fresh_bounds (h : Represents s cs xs) : cs.length ≤ s.fresh := by
  have hsub : cs ⊆ List.range s.fresh := fun c hc => List.mem_range.mpr (h.fresh c hc)
  simpa using (List.subperm_of_subset h.nodup hsub).length_le

end Places

section Seeking

variable [DecidableEq α] {link back : ℕ → Option ℕ}

/-- A search along a segment finds the first object that is the same. -/
lemma seek_eq {before : Option ℕ} (hlinked : Linked link back before cs none)
    (hdata : cs.map s.data = xs.map some) (o : α) {fuel : ℕ} (hfuel : cs.length ≤ fuel) :
    seek s link o fuel cs.head? =
      .ok ((xs.idxOf? o).bind fun i => cs[i]?.map fun e => (e, i)) := by
  induction cs generalizing before xs fuel with
  | nil =>
    obtain rfl : xs = [] := by simpa using hdata.symm
    cases fuel <;> rfl
  | cons c cs ih =>
    obtain ⟨-, hnext, hrest⟩ := hlinked
    cases xs with
    | nil => simp at hdata
    | cons x xs =>
      obtain ⟨hc, hdata⟩ := List.cons.inj hdata
      obtain ⟨fuel, rfl⟩ : ∃ k, fuel = k + 1 :=
        Nat.exists_eq_add_one_of_ne_zero (by simp at hfuel; omega)
      rw [Option.or_none] at hnext
      rw [List.head?_cons, seek, hc, hnext, ih hrest hdata (by simpa using hfuel),
        List.idxOf?_cons]
      by_cases ho : x = o
      · simp [ho]
      · have ho' : o ≠ x := Ne.symm ho
        simp only [Option.some.injEq, ho', if_false, beq_iff_eq, ho]
        cases xs.idxOf? o with
        | none => rfl
        | some i => cases hi : cs[i]? <;> simp [hi, bind, Except.bind]

lemma Represents.seek_next (h : Represents s cs xs) (o : α) :
    seek s s.next o s.fresh s.first =
      .ok ((xs.idxOf? o).bind fun i => cs[i]?.map fun e => (e, i)) := by
  rw [h.first]
  exact seek_eq h.linked h.data o (fresh_bounds h)

lemma Represents.seek_previous (h : Represents s cs xs) (o : α) :
    seek s s.previous o s.fresh s.last =
      .ok ((xs.reverse.idxOf? o).bind fun i => cs.reverse[i]?.map fun e => (e, i)) := by
  rw [h.last, ← List.head?_reverse]
  refine seek_eq h.linked.reverse ?_ o (by simpa using fresh_bounds h)
  rw [List.map_reverse, h.data, List.map_reverse]

end Seeking
section Parts

lemma addFirst_spec (h : Represents s cs xs) (o : α) (hint : xs.length + 1 < 2 ^ 31) :
    ∃ s', addFirst s (some o) = .ok (s', true) ∧ Represents s' (s.fresh :: cs) (o :: xs) := by
  obtain ⟨s', hok, hi⟩ := addFirst_inserted h o
  have hready : Ready (createEntry s.checked o).1 s.fresh o ([] ++ cs) ([] ++ xs) :=
    h.checked.createEntry o
  exact ⟨s', hok, hready.inserted rfl hi hint⟩

/-- A ready entry goes behind all others. -/
lemma addLastEntry_spec (h : Ready s e o cs xs) (hint : xs.length + 1 < 2 ^ 31) :
    ∃ s', addLastEntry s e = .ok s' ∧ Represents s' (cs ++ [e]) (xs ++ [o]) := by
  obtain ⟨s', hok, hi⟩ := addLastEntry_inserted h
  have hready : Ready s e o (cs ++ []) (xs ++ []) := by rwa [List.append_nil, List.append_nil]
  exact ⟨s', hok, hready.inserted h.length.symm hi (by rwa [List.append_nil])⟩

lemma addLast_spec (h : Represents s cs xs) (o : α) (hint : xs.length + 1 < 2 ^ 31) :
    ∃ s', addLast s (some o) = .ok (s', true) ∧
      Represents s' (cs ++ [s.fresh]) (xs ++ [o]) := by
  obtain ⟨s', hok, hs'⟩ := addLastEntry_spec (h.checked.createEntry o) hint
  refine ⟨s', ?_, hs'⟩
  have hvalue : addLast s (some o) = (addLastEntry (createEntry s.checked o).1
      (createEntry s.checked o).2 >>= fun s => .ok (s, true)) := rfl
  rw [hvalue, hok]
  rfl

/-- The entries and the objects on both sides of a place. -/
lemma Represents.split (h : Represents s cs xs) {i : ℕ} (hi : i < xs.length) :
    ∃ ys zs us vs e o, cs = ys ++ e :: zs ∧ xs = us ++ o :: vs ∧ ys.length = i ∧ us.length = i := by
  have hlen := h.length
  refine ⟨cs.take i, cs.drop (i + 1), xs.take i, xs.drop (i + 1), cs[i], xs[i], ?_, ?_, ?_, ?_⟩
  · rw [List.cons_getElem_drop_succ, List.take_append_drop]
  · rw [List.cons_getElem_drop_succ, List.take_append_drop]
  · rw [List.length_take]
    omega
  · rw [List.length_take]
    omega

lemma insertIdx_append (us vs : List α) (o : α) :
    (us ++ vs).insertIdx us.length o = us ++ o :: vs := by
  induction us with
  | nil => rfl
  | cons u us ih => simp [ih]

lemma Represents.isEmpty_iff (h : Represents s cs xs) : cs = [] ↔ xs = [] := by
  rw [← List.length_eq_zero_iff, h.length, List.length_eq_zero_iff]

/-- No entry is found for an index that is too large, or on an empty list. -/
lemma getEntry_missing (h : Represents s cs xs) {n : ℤ} (hbad : xs = [] ∨ 2 ^ 31 ≤ n + 1) :
    getEntry s n = .error .intRange ∨ getEntry s n = .ok none := by
  rw [getEntry_eq h]
  by_cases hover : 2 ^ 31 ≤ n + 1
  · exact Or.inl (if_pos hover)
  · rw [if_neg hover, h.isEmpty_iff.mpr (hbad.resolve_right hover)]
    exact Or.inr rfl

/-- For any other index there is one, with the entries and the objects on both sides of it. -/
lemma getEntry_found (h : Represents s cs xs) {n : ℤ} (hgood : ¬ (xs = [] ∨ 2 ^ 31 ≤ n + 1)) :
    ∃ ys zs us vs e o, cs = ys ++ e :: zs ∧ xs = us ++ o :: vs ∧ us.length = ys.length ∧
      place n xs.length = us.length ∧ getEntry s n = .ok (some e) ∧ s.data e = some o := by
  obtain ⟨hempty, hover⟩ := not_or.mp hgood
  have hplace : place n xs.length < xs.length := place_lt (List.length_pos_iff.mpr hempty)
  have hfound : getEntry s n = .ok cs[place n xs.length]? := by
    rw [getEntry_eq h, if_neg hover, h.length]
  obtain ⟨ys, zs, us, vs, e, o, rfl, rfl, hys, hus⟩ := h.split hplace
  have hentry : (ys ++ e :: zs)[ys.length]? = some e := by simp
  have hlen : us.length = ys.length := hus.trans hys.symm
  refine ⟨ys, zs, us, vs, e, o, rfl, rfl, hlen, hus.symm, ?_, ?_⟩
  · rw [hfound, ← hys, hentry]
  · rw [h.data_getElem hentry, ← hlen]
    simp

end Parts

section Operations

variable [DecidableEq α]

/-- The operations that change a list; an object may be NULL. -/
inductive Op (α : Type)
  | addFirst (o : Option α)
  | addLast (o : Option α)
  | add (o : Option α)
  | addAtIndex (index : ℤ) (o : Option α)
  | removeFirst
  | removeLast
  | remove (o : Option α)
  | removeAtIndex (index : ℤ)
  | set (index : ℤ) (o : Option α)
  | clear

/-- What a call returns: a status or an object. -/
inductive Reply (α : Type)
  | status (b : Bool)
  | object (o : Option α)
  deriving DecidableEq

def withStatus (r : LinkedList α × Bool) : LinkedList α × Reply α := (r.1, .status r.2)

def withObject (r : LinkedList α × Option α) : LinkedList α × Reply α := (r.1, .object r.2)

def Op.apply (s : LinkedList α) : Op α → Except Fault (LinkedList α × Reply α)
  | .addFirst o => (LinkedLists.addFirst s o).map withStatus
  | .addLast o => (LinkedLists.addLast s o).map withStatus
  | .add o => (LinkedLists.add s o).map withStatus
  | .addAtIndex index o => (LinkedLists.addAtIndex s index o).map withStatus
  | .removeFirst => (LinkedLists.removeFirst s).map withObject
  | .removeLast => (LinkedLists.removeLast s).map withObject
  | .remove o => (LinkedLists.remove s o).map withStatus
  | .removeAtIndex index => (LinkedLists.removeAtIndex s index).map withObject
  | .set index o => (LinkedLists.set s index o).map withObject
  | .clear => .ok (withStatus (LinkedLists.clear s))

/-- What an operation does to the sequence of the objects, and its reply; none if it faults. -/
def Op.effect (xs : List α) : Op α → Option (List α × Reply α)
  | .addFirst none | .addLast none | .add none | .addAtIndex _ none | .remove none =>
    some (xs, .status false)
  | .addFirst (some o) => some (o :: xs, .status true)
  | .addLast (some o) | .add (some o) => some (xs ++ [o], .status true)
  | .addAtIndex index (some o) =>
    if index < xs.length then
      if xs = [] then none else some (xs.insertIdx index.toNat o, .status true)
    else some (xs ++ [o], .status true)
  | .removeFirst => some (xs.tail, .object xs.head?)
  | .removeLast => some (xs.dropLast, .object xs.getLast?)
  | .remove (some o) => some (xs.erase o, .status (decide (o ∈ xs)))
  | .removeAtIndex index =>
    if xs = [] ∨ 2 ^ 31 ≤ index + 1 then none
    else some (xs.eraseIdx (place index xs.length), .object xs[place index xs.length]?)
  | .set _ none => some (xs, .object none)
  | .set index (some o) =>
    if xs = [] ∨ 2 ^ 31 ≤ index + 1 then none
    else some (xs.set (place index xs.length) o, .object xs[place index xs.length]?)
  | .clear => some ([], .status true)

/-- An operation that adds an object finds room for it in the `int` that counts them. -/
def Op.Fits (xs : List α) : Op α → Prop
  | .addFirst (some _) | .addLast (some _) | .add (some _) | .addAtIndex _ (some _) =>
    xs.length + 1 < 2 ^ 31
  | _ => True

/-- The outcome of an operation on a list is what the effect on its sequence says. -/
def Matches (r : Except Fault (LinkedList α × Reply α)) : Option (List α × Reply α) → Prop
  | none => ∃ fault, r = .error fault
  | some (xs, reply) => ∃ s cs, r = .ok (s, reply) ∧ Represents s cs xs

lemma addAtIndex_spec (h : Represents s cs xs) (index : ℤ) (o : α)
    (hint : xs.length + 1 < 2 ^ 31) :
    Matches ((addAtIndex s index (some o)).map withStatus)
      (Op.effect xs (.addAtIndex index (some o))) := by
  have hready := h.beforeInsertion index o
  rw [addAtIndex_eq, hready.size]
  by_cases hlt : index < xs.length
  · rw [if_pos hlt, getEntry_eq hready.toRepresents.modified, if_neg (by omega)]
    by_cases hempty : xs = []
    · -- there is no entry in front of which the new one could be put
      have heffect : Op.effect xs (.addAtIndex index (some o)) = none :=
        (if_pos hlt).trans (if_pos hempty)
      rw [h.isEmpty_iff.mpr hempty, heffect]
      exact ⟨.nullEntry, rfl⟩
    · have hpos := List.length_pos_iff.mpr hempty
      have hi : index.toNat < xs.length := by omega
      obtain ⟨ys, zs, us, vs, a, x, rfl, rfl, hys, hus⟩ := h.split hi
      have hplace : place index (ys ++ a :: zs).length = ys.length := by
        rw [hys, h.length]
        unfold place
        omega
      have hentry : (ys ++ a :: zs)[ys.length]? = some a := by simp
      have hinserted := hready.modified.inserted (by rw [hys, hus])
        (putBefore_inserted hready.modified) hint
      have hsequence : (us ++ x :: vs).insertIdx index.toNat o = us ++ o :: x :: vs := by
        rw [← hus, insertIdx_append]
      rw [hplace, hentry]
      simp only [Op.effect, hlt, hempty, if_true, if_false, hsequence]
      exact ⟨_, _, rfl, hinserted⟩
  · obtain ⟨s', hok, hs'⟩ := addLastEntry_spec hready hint
    rw [if_neg hlt, hok]
    simp only [Op.effect, hlt, if_false]
    exact ⟨s', _, rfl, hs'⟩

lemma removeFirst_spec (h : Represents s cs xs) :
    Matches ((removeFirst s).map withObject) (Op.effect xs .removeFirst) := by
  cases cs with
  | nil =>
    obtain rfl := h.isEmpty_iff.mp rfl
    have hvalue : removeFirst s = .ok (s.failed .noSuchElement, none) :=
      if_pos (h.size_eq_zero.mpr rfl)
    rw [hvalue]
    exact ⟨_, _, rfl, h.failed _⟩
  | cons e cs =>
    cases xs with
    | nil => exact absurd (h.isEmpty_iff.mpr rfl) (List.cons_ne_nil e cs)
    | cons o xs =>
      obtain ⟨s', hok, hr⟩ := removeFirst_removed h
      have hdata : s.data e = some o := (List.cons.inj h.data).1
      have hs' : Represents s' ([] ++ cs) ([] ++ xs) := h.removed rfl hr
      rw [hok, hdata]
      exact ⟨s', _, rfl, hs'⟩

lemma removeLast_spec (h : Represents s cs xs) :
    Matches ((removeLast s).map withObject) (Op.effect xs .removeLast) := by
  by_cases hempty : xs = []
  · obtain rfl := h.isEmpty_iff.mpr hempty
    subst hempty
    have hvalue : removeLast s = .ok (s.failed .noSuchElement, none) :=
      if_pos (h.size_eq_zero.mpr rfl)
    rw [hvalue]
    exact ⟨_, _, rfl, h.failed _⟩
  · have hpos := List.length_pos_iff.mpr hempty
    obtain ⟨ys, zs, us, vs, e, o, rfl, rfl, hys, hus⟩ :=
      h.split (show xs.length - 1 < xs.length by omega)
    have hlen := h.length
    simp only [List.length_append, List.length_cons] at hlen hus hys
    obtain rfl : vs = [] := List.length_eq_zero_iff.mp (by omega)
    obtain rfl : zs = [] := List.length_eq_zero_iff.mp (by simp at hlen; omega)
    obtain ⟨s', hok, hr⟩ := removeLast_removed h
    have hdata : s.data e = some o := by
      have hlast : (ys ++ [e])[ys.length]? = some e := by simp
      rw [h.data_getElem hlast, show ys.length = us.length by omega]
      simp
    have hs' : Represents s' (ys ++ []) (us ++ []) := h.removed (by omega) hr
    rw [hok, hdata]
    have heffect : Op.effect (us ++ [o]) .removeLast = some (us, .object (some o)) := by
      simp [Op.effect]
    rw [heffect]
    rw [List.append_nil, List.append_nil] at hs'
    exact ⟨s', _, rfl, hs'⟩

lemma removeAtIndex_spec (h : Represents s cs xs) (index : ℤ) :
    Matches ((removeAtIndex s index).map withObject) (Op.effect xs (.removeAtIndex index)) := by
  have hcheck := h.checkExclusive index
  have hvalue : removeAtIndex s index =
      (getEntry (checkBoundsExclusive s index).1 index >>= fun e =>
        removeEntry (checkBoundsExclusive s index).1 e >>= fun r =>
          deref e >>= fun e => .ok (r.1, r.1.data e)) := rfl
  rw [hvalue]
  by_cases hbad : xs = [] ∨ 2 ^ 31 ≤ index + 1
  · have heffect : Op.effect xs (.removeAtIndex index) = none := if_pos hbad
    rw [heffect]
    obtain hmissing | hmissing := getEntry_missing hcheck hbad
    · rw [hmissing]
      exact ⟨.intRange, rfl⟩
    · -- no entry is taken out, and its object is asked for all the same
      rw [hmissing]
      exact ⟨.nullEntry, rfl⟩
  · have heffect : Op.effect xs (.removeAtIndex index) =
        some (xs.eraseIdx (place index xs.length), .object xs[place index xs.length]?) :=
      if_neg hbad
    obtain ⟨ys, zs, us, vs, e, o, rfl, rfl, hlen, hplace, hfound, hdata⟩ :=
      getEntry_found hcheck hbad
    have hobject : (us ++ o :: vs)[us.length]? = some o := by simp
    have herase : (us ++ o :: vs).eraseIdx us.length = us ++ vs := by
      simp [List.eraseIdx_append_of_length_le]
    obtain ⟨s', hok, hr⟩ := removeEntry_removed hcheck
    rw [heffect, hplace, hfound, hobject, herase]
    refine ⟨s', ys ++ zs, ?_, hcheck.removed hlen hr⟩
    change (removeEntry (checkBoundsExclusive s index).1 (some e) >>= fun r =>
      Except.ok (r.1, r.1.data e)).map withObject = _
    rw [hok]
    change Except.ok (s', Reply.object (s'.data e)) = _
    rw [hr.data, hdata]

omit [DecidableEq α] in
/-- The object of an entry is replaced. -/
lemma Represents.setData (h : Represents s (ys ++ e :: zs) (us ++ o :: vs))
    (hlen : us.length = ys.length) (o' : α) :
    Represents (s.setData e o') (ys ++ e :: zs) (us ++ o' :: vs) := by
  have hlength : (us ++ o' :: vs).length = (us ++ o :: vs).length := by simp
  have hout := (List.nodup_cons.mp (List.nodup_middle.mp h.nodup)).1
  have hsame {l : List ℕ} (hl : l ⊆ ys ++ zs) :
      l.map (Function.update s.data e (some o')) = l.map s.data :=
    List.map_congr_left fun c hc => Function.update_of_ne (fun he : c = e => hout (he ▸ hl hc)) ..
  refine ⟨h.nodup, h.fresh, h.first, h.last, h.linked, ?_, by rw [hlength]; exact h.size,
    by rw [hlength]; exact h.int⟩
  have hdata := h.data
  rw [List.map_append, List.map_append] at hdata
  obtain ⟨hleft, hright⟩ := List.append_inj hdata (by simp [hlen])
  change (ys ++ e :: zs).map (Function.update s.data e (some o')) = _
  rw [List.map_append, List.map_cons, hsame (List.subset_append_left ys zs),
    hsame (List.subset_append_right ys zs), Function.update_self, hleft, (List.cons.inj hright).2,
    List.map_append, List.map_cons]

lemma set_spec (h : Represents s cs xs) (index : ℤ) (o : α) :
    Matches ((LinkedLists.set s index (some o)).map withObject)
      (Op.effect xs (.set index (some o))) := by
  have hcheck := h.checked.checkExclusive index
  have hvalue : LinkedLists.set s index (some o) =
      (getEntry (checkBoundsExclusive s.checked index).1 index >>= fun e =>
        deref e >>= fun e => .ok ((checkBoundsExclusive s.checked index).1.setData e o,
          (checkBoundsExclusive s.checked index).1.data e)) := rfl
  rw [hvalue]
  by_cases hbad : xs = [] ∨ 2 ^ 31 ≤ index + 1
  · have heffect : Op.effect xs (.set index (some o)) = none := if_pos hbad
    rw [heffect]
    obtain hmissing | hmissing := getEntry_missing hcheck hbad
    · rw [hmissing]
      exact ⟨.intRange, rfl⟩
    · rw [hmissing]
      exact ⟨.nullEntry, rfl⟩
  · have heffect : Op.effect xs (.set index (some o)) =
        some (xs.set (place index xs.length) o, .object xs[place index xs.length]?) :=
      if_neg hbad
    obtain ⟨ys, zs, us, vs, e, x, rfl, rfl, hlen, hplace, hfound, hdata⟩ :=
      getEntry_found hcheck hbad
    have hobject : (us ++ x :: vs)[us.length]? = some x := by simp
    have hset : (us ++ x :: vs).set us.length o = us ++ o :: vs := by simp
    rw [heffect, hplace, hfound, hobject, hset]
    refine ⟨_, ys ++ e :: zs, ?_, hcheck.setData hlen o⟩
    change Except.ok (_, Reply.object ((checkBoundsExclusive s.checked index).1.data e)) = _
    rw [hdata]

omit [DecidableEq α] in
lemma clear_spec (h : Represents s cs xs) :
    ∃ s', clear s = (s', true) ∧ Represents s' [] [] := by
  have hlen := h.length
  by_cases hpos : s.size > 0
  · exact ⟨_, if_pos hpos, List.nodup_nil, by simp, rfl, rfl, trivial, rfl, rfl, by simp⟩
  · have hsize := h.size
    obtain rfl : xs = [] := List.length_eq_zero_iff.mp (by omega)
    obtain rfl := h.isEmpty_iff.mpr rfl
    exact ⟨s, if_neg hpos, h⟩

lemma idxOf?_split (us vs : List α) {o : α} (ho : o ∉ us) :
    (us ++ o :: vs).idxOf? o = some us.length := by
  induction us with
  | nil => simp [List.idxOf?_cons]
  | cons u us ih =>
    simp only [List.mem_cons, not_or] at ho
    rw [List.cons_append, List.idxOf?_cons, ih ho.2]
    simp [Ne.symm ho.1]

lemma remove_spec (h : Represents s cs xs) (o : α) :
    Matches ((remove s (some o)).map withStatus) (Op.effect xs (.remove (some o))) := by
  rw [remove, h.seek_next o]
  by_cases hmem : o ∈ xs
  · obtain ⟨us, vs, rfl, hus⟩ := List.eq_append_cons_of_mem hmem
    obtain ⟨ys, zs, us', vs', e, o', rfl, hxs, hys, hus'⟩ :=
      h.checked.split (show us.length < (us ++ o :: vs).length by simp)
    obtain ⟨rfl, hrest⟩ := List.append_inj hxs hus'.symm
    obtain ⟨rfl, rfl⟩ := List.cons.inj hrest
    have hentry : (ys ++ e :: zs)[us.length]? = some e := by
      rw [← hys]
      simp
    have heffect : Op.effect (us ++ o :: vs) (.remove (some o)) =
        some (us ++ vs, .status true) := by
      simp [Op.effect, List.erase_append_right _ hus]
    obtain ⟨s', hok, hr⟩ := removeEntry_removed h.checked
    rw [idxOf?_split us vs hus, Option.bind_some, hentry, heffect]
    refine ⟨s', ys ++ zs, ?_, h.checked.removed hys.symm hr⟩
    change (removeEntry s.checked (some e)).map withStatus = _
    rw [hok]
    rfl
  · have heffect : Op.effect xs (.remove (some o)) = some (xs, .status false) := by
      simp [Op.effect, List.erase_of_not_mem hmem, hmem]
    rw [List.idxOf?_eq_none_iff.mpr hmem, heffect]
    exact ⟨_, cs, rfl, h.checked⟩

/-- On a list that represents a sequence each operation does what its effect says. -/
theorem apply_matches (h : Represents s cs xs) (op : Op α) (hfits : op.Fits xs) :
    Matches (op.apply s) (op.effect xs) := by
  cases op with
  | addFirst o =>
    cases o with
    | none => exact ⟨_, cs, rfl, h.failed _⟩
    | some o =>
      obtain ⟨s', hok, hs'⟩ := addFirst_spec h o hfits
      rw [Op.apply, hok]
      exact ⟨s', _, rfl, hs'⟩
  | addLast o | add o =>
    cases o with
    | none => exact ⟨_, cs, rfl, h.failed _⟩
    | some o =>
      obtain ⟨s', hok, hs'⟩ := addLast_spec h o hfits
      simp only [Op.apply, add]
      rw [hok]
      exact ⟨s', _, rfl, hs'⟩
  | addAtIndex index o =>
    cases o with
    | none => exact ⟨_, cs, rfl, h.failed _⟩
    | some o => exact addAtIndex_spec h index o hfits
  | removeFirst => exact removeFirst_spec h
  | removeLast => exact removeLast_spec h
  | remove o =>
    cases o with
    | none => exact ⟨_, cs, rfl, h.failed _⟩
    | some o => exact remove_spec h o
  | removeAtIndex index => exact removeAtIndex_spec h index
  | set index o =>
    cases o with
    | none => exact ⟨_, cs, rfl, h.failed _⟩
    | some o => exact set_spec h index o
  | clear =>
    obtain ⟨s', hok, hs'⟩ := clear_spec h
    rw [Op.apply, hok]
    exact ⟨s', _, rfl, hs'⟩

end Operations

end Axis2C.LinkedLists
