import Axis2C.LinkedList

/-!
# The entries of a linked list in order

A list represents a sequence when its entries, doubly linked in order, hold the objects of
the sequence. An entry is put between two parts of the list or taken out from between them;
what the operations do to the links is one or the other.
-/
namespace Axis2C.LinkedLists
open MachineInts DoublyLinked

variable {α : Type} {s s' : LinkedList α} {cs ys zs : List ℕ} {xs us vs : List α} {e : ℕ} {o : α}

/-- The entries `cs`, in order, with the objects `xs`. -/
structure Represents (s : LinkedList α) (cs : List ℕ) (xs : List α) : Prop where
  nodup : cs.Nodup
  fresh : ∀ c ∈ cs, c < s.fresh
  first : s.first = cs.head?
  last : s.last = cs.getLast?
  linked : Linked s.next s.previous none cs none
  data : cs.map s.data = xs.map some
  size : s.size = xs.length
  int : xs.length < 2 ^ 31

/-- An entry that is not in the list yet. -/
structure Ready (s : LinkedList α) (e : ℕ) (o : α) (cs : List ℕ) (xs : List α) : Prop extends
    Represents s cs xs where
  outside : e ∉ cs
  allocated : e < s.fresh
  object : s.data e = some o
  nextNull : s.next e = none
  previousNull : s.previous e = none

/-- The links after an entry was put between `ys` and `zs`. -/
structure Inserted (s s' : LinkedList α) (ys zs : List ℕ) (e : ℕ) : Prop where
  data : s'.data = s.data
  fresh : s'.fresh = s.fresh
  next : ∀ c, s'.next c =
    if c = e then zs.head? else if ys.getLast? = some c then some e else s.next c
  previous : ∀ c, s'.previous c =
    if c = e then ys.getLast? else if zs.head? = some c then some e else s.previous c
  first : s'.first = (ys ++ e :: zs).head?
  last : s'.last = (ys ++ e :: zs).getLast?
  size : s'.size = int32 (s.size + 1)

/-- The links after an entry was taken out from between `ys` and `zs`. -/
structure Removed (s s' : LinkedList α) (ys zs : List ℕ) (e : ℕ) : Prop where
  data : s'.data = s.data
  fresh : s'.fresh = s.fresh
  next : ∀ c, c ≠ e → s'.next c = if ys.getLast? = some c then zs.head? else s.next c
  previous : ∀ c, c ≠ e → s'.previous c = if zs.head? = some c then ys.getLast? else s.previous c
  first : s'.first = (ys ++ zs).head?
  last : s'.last = (ys ++ zs).getLast?
  size : s'.size = int32 (s.size - 1)

section Representation

lemma Represents.length (h : Represents s cs xs) : cs.length = xs.length := by
  simpa using congrArg List.length h.data

lemma represents_create : Represents (create : LinkedList α) [] [] :=
  ⟨List.nodup_nil, by simp, rfl, rfl, trivial, rfl, rfl, by simp⟩

section

variable (h : Represents s cs xs)

include h

lemma Represents.checked : Represents s.checked cs xs :=
  ⟨h.nodup, h.fresh, h.first, h.last, h.linked, h.data, h.size, h.int⟩

lemma Represents.failed (number : ErrorNumber) : Represents (s.failed number) cs xs :=
  ⟨h.nodup, h.fresh, h.first, h.last, h.linked, h.data, h.size, h.int⟩

lemma Represents.modified : Represents s.modified cs xs :=
  ⟨h.nodup, h.fresh, h.first, h.last, h.linked, h.data, h.size, h.int⟩

/-- An entry and its object. -/
lemma Represents.data_getElem {i : ℕ} (hi : cs[i]? = some e) : s.data e = xs[i]? := by
  have hmap := congrArg (fun l => l[i]?) h.data
  simp only [List.getElem?_map, hi, Option.map_some] at hmap
  cases hx : xs[i]? with
  | none => simp [hx] at hmap
  | some x => simpa [hx] using hmap

/-- The new entry is not in the list, and the list is the same. -/
lemma Represents.createEntry (o : α) : Ready (createEntry s o).1 (createEntry s o).2 o cs xs := by
  have hne : ∀ c ∈ cs, c ≠ s.fresh := fun c hc => (h.fresh c hc).ne
  refine ⟨⟨h.nodup, fun c hc => Nat.lt_succ_of_lt (h.fresh c hc), h.first, h.last, ?_, ?_,
    h.size, h.int⟩, fun hmem => hne _ hmem rfl, Nat.lt_succ_self _, Function.update_self ..,
    Function.update_self .., Function.update_self ..⟩
  · exact h.linked.congr (fun c hc => Function.update_of_ne (hne c hc) ..)
      (fun c hc => Function.update_of_ne (hne c hc) ..)
  · rw [← h.data]
    exact List.map_congr_left fun c hc => Function.update_of_ne (hne c hc) ..

end

/-- The list with an entry more. -/
lemma Ready.inserted (h : Ready s e o (ys ++ zs) (us ++ vs)) (hlen : us.length = ys.length)
    (hi : Inserted s s' ys zs e) (hint : (us ++ vs).length + 1 < 2 ^ 31) :
    Represents s' (ys ++ e :: zs) (us ++ o :: vs) := by
  have hlength : (us ++ o :: vs).length = (us ++ vs).length + 1 := by simp; omega
  refine ⟨?_, ?_, hi.first, hi.last, ?_, ?_, ?_, by omega⟩
  · rw [List.nodup_middle, List.nodup_cons]
    exact ⟨h.outside, h.nodup⟩
  · intro c hc
    rw [hi.fresh]
    rcases List.mem_append.mp hc with hc | hc
    · exact h.fresh c (List.mem_append_left _ hc)
    · rcases List.mem_cons.mp hc with rfl | hc
      · exact h.allocated
      · exact h.fresh c (List.mem_append_right _ hc)
  · exact h.linked.insert h.nodup h.outside hi.next hi.previous
  · have hdata := h.data
    rw [List.map_append, List.map_append] at hdata
    obtain ⟨hleft, hright⟩ := List.append_inj hdata (by simp [hlen])
    rw [hi.data, List.map_append, List.map_cons, hleft, hright, h.object, List.map_append,
      List.map_cons]
  · rw [hi.size, h.size, hlength]
    push_cast
    exact int32_eq_self (by omega) (by omega)

/-- The list with an entry less. -/
lemma Represents.removed (h : Represents s (ys ++ e :: zs) (us ++ o :: vs))
    (hlen : us.length = ys.length) (hr : Removed s s' ys zs e) :
    Represents s' (ys ++ zs) (us ++ vs) := by
  have hlength : (us ++ o :: vs).length = (us ++ vs).length + 1 := by simp; omega
  have hint := h.int
  obtain ⟨hout, hnodup⟩ := List.nodup_cons.mp (List.nodup_middle.mp h.nodup)
  have hne : ∀ c ∈ ys ++ zs, c ≠ e := fun c hc he => hout (he ▸ hc)
  refine ⟨hnodup, ?_, hr.first, hr.last, ?_, ?_, ?_, by omega⟩
  · intro c hc
    rw [hr.fresh]
    refine h.fresh c ?_
    rcases List.mem_append.mp hc with hc | hc
    · exact List.mem_append_left _ hc
    · exact List.mem_append_right _ (List.mem_cons_of_mem _ hc)
  · exact h.linked.remove hnodup (fun c hc => hr.next c (hne c hc))
      (fun c hc => hr.previous c (hne c hc))
  · have hdata := h.data
    rw [List.map_append, List.map_append] at hdata
    obtain ⟨hleft, hright⟩ := List.append_inj hdata (by simp [hlen])
    rw [List.map_cons, List.map_cons] at hright
    rw [hr.data, List.map_append, hleft, (List.cons.inj hright).2, List.map_append]
  · rw [hr.size, h.size, hlength]
    push_cast
    rw [add_sub_cancel_right]
    exact int32_eq_self (by omega) (by omega)

end Representation

section Surgery

lemma Represents.size_eq_zero (h : Represents s cs xs) : s.size = 0 ↔ cs = [] := by
  have hlen := h.length
  rw [h.size, ← hlen, Nat.cast_eq_zero, List.length_eq_zero_iff]

/-- The neighbours of an entry. -/
lemma Represents.at_split (h : Represents s (ys ++ e :: zs) xs) :
    s.previous e = ys.getLast? ∧ s.next e = zs.head? := by
  have hsplit := h.linked.at_split
  rwa [Option.or_none, Option.or_none] at hsplit

lemma deref_bind {β : Type} (c : ℕ) (f : ℕ → Except Fault β) : (deref (some c) >>= f) = f c := rfl

lemma addLastEntry_empty (h : s.size = 0) (e : ℕ) : addLastEntry s e =
    .ok { s.checked.modified with first := some e, last := some e, size := int32 (s.size + 1) } :=
  if_pos h

lemma addLastEntry_behind {l : ℕ} (h : s.size ≠ 0) (hlast : s.last = some l) (e : ℕ) :
    addLastEntry s e =
      .ok { (s.checked.modified.setPrevious e (some l)).setNext l (some e) with
        last := some e, size := int32 (s.size + 1) } := by
  obtain ⟨data, next, previous, fresh, size, first, last, modCount, errorNumber, status⟩ := s
  obtain rfl : last = some l := hlast
  exact if_neg h

lemma addLastEntry_inserted (h : Ready s e o cs xs) :
    ∃ s', addLastEntry s e = .ok s' ∧ Inserted s s' cs [] e := by
  by_cases hcs : cs = []
  · subst hcs
    refine ⟨_, addLastEntry_empty (h.size_eq_zero.mpr rfl) e, rfl, rfl, fun c => ?_, fun c => ?_,
      rfl, rfl, rfl⟩
    · by_cases hc : c = e
      · rw [if_pos hc, hc]
        exact h.nextNull
      · rw [if_neg hc]
        rfl
    · by_cases hc : c = e
      · rw [if_pos hc, hc]
        exact h.previousNull
      · rw [if_neg hc]
        rfl
  · have hl : cs.getLast? = some (cs.getLast hcs) := List.getLast?_eq_some_getLast hcs
    have hle : cs.getLast hcs ≠ e := fun he => h.outside (he ▸ List.getLast_mem hcs)
    refine ⟨_, addLastEntry_behind (mt h.size_eq_zero.mp hcs) (h.last.trans hl) e, rfl, rfl,
      fun c => ?_, fun c => ?_, ?_, by simp, rfl⟩
    · change Function.update s.next _ _ c = _
      rw [Function.update_apply, hl]
      by_cases hc : c = e
      · rw [if_pos hc, hc, if_neg hle.symm]
        exact h.nextNull
      · rw [if_neg hc]
        simp [eq_comm]
    · change Function.update s.previous _ _ c = _
      rw [Function.update_apply, hl]
      by_cases hc : c = e
      · rw [if_pos hc, if_pos hc]
      · rw [if_neg hc, if_neg hc]
        rfl
    · change s.first = _
      rw [h.first, List.head?_append_of_ne_nil _ hcs]

lemma addFirst_empty (h : s.size = 0) (o : α) : addFirst s (some o) =
    .ok ({ (createEntry s.checked o).1.modified with
      first := some s.fresh, last := some s.fresh, size := int32 (s.size + 1) }, true) :=
  if_pos h

lemma addFirst_before {f : ℕ} (h : s.size ≠ 0) (hfirst : s.first = some f) (o : α) :
    addFirst s (some o) =
      .ok ({ ((createEntry s.checked o).1.modified.setNext s.fresh (some f)).setPrevious f
        (some s.fresh) with first := some s.fresh, size := int32 (s.size + 1) }, true) := by
  obtain ⟨data, next, previous, fresh, size, first, last, modCount, errorNumber, status⟩ := s
  obtain rfl : first = some f := hfirst
  exact if_neg h

lemma addFirst_inserted (h : Represents s cs xs) (o : α) :
    ∃ s', addFirst s (some o) = .ok (s', true) ∧
      Inserted (createEntry s.checked o).1 s' [] cs s.fresh := by
  have hready : Ready (createEntry s.checked o).1 s.fresh o cs xs := h.checked.createEntry o
  cases cs with
  | nil =>
    refine ⟨_, addFirst_empty (h.size_eq_zero.mpr rfl) o, rfl, rfl, fun c => ?_, fun c => ?_,
      rfl, rfl, rfl⟩
    · by_cases hc : c = s.fresh
      · rw [if_pos hc, hc]
        exact hready.nextNull
      · rw [if_neg hc]
        rfl
    · by_cases hc : c = s.fresh
      · rw [if_pos hc, hc]
        exact hready.previousNull
      · rw [if_neg hc]
        rfl
  | cons f cs =>
    have hfe : f ≠ s.fresh := (h.fresh f (List.mem_cons_self ..)).ne
    refine ⟨_, addFirst_before (mt h.size_eq_zero.mp (List.cons_ne_nil f cs)) h.first o, rfl, rfl,
      fun c => ?_, fun c => ?_, rfl, ?_, rfl⟩
    · change Function.update (createEntry s.checked o).1.next _ _ c = _
      rw [Function.update_apply]
      by_cases hc : c = s.fresh
      · rw [if_pos hc, if_pos hc]
        rfl
      · rw [if_neg hc, if_neg hc]
        rfl
    · change Function.update (createEntry s.checked o).1.previous _ _ c = _
      rw [Function.update_apply]
      by_cases hc : c = s.fresh
      · rw [if_neg (hc ▸ hfe.symm), if_pos hc, hc]
        exact hready.previousNull
      · rw [if_neg hc, List.head?_cons]
        simp [eq_comm]
    · change s.last = _
      rw [h.last, List.nil_append, List.getLast?_cons_cons]

/-- What `axutil_linked_list_add_at_index` does to the links in front of an entry. -/
def putBefore (s : LinkedList α) (e after : ℕ) : LinkedList α :=
  let s := s.setNext e (some after)
  let s := s.setPrevious e (s.previous after)
  let s := match s.previous after with
    | none => { s with first := some e }
    | some previous => s.setNext previous (some e)
  let s := s.setPrevious after (some e)
  { s with size := int32 (s.size + 1) }

lemma putBefore_size (s : LinkedList α) (e after : ℕ) :
    (putBefore s e after).size = int32 (s.size + 1) := by
  simp only [putBefore]
  split <;> rfl

lemma putBefore_inserted {a : ℕ} (h : Ready s e o (ys ++ a :: zs) xs) :
    Inserted s (putBefore s e a) ys (a :: zs) e := by
  have hae : a ≠ e := fun he => h.outside (he ▸ by simp)
  have hprevious : (Function.update s.previous e (s.previous a)) a = ys.getLast? := by
    rw [Function.update_of_ne hae, h.at_split.1]
  have hback (c : ℕ) : Function.update (Function.update s.previous e (s.previous a)) a (some e) c =
      if c = e then ys.getLast? else if (a :: zs).head? = some c then some e
        else s.previous c := by
    rw [Function.update_apply, Function.update_apply, List.head?_cons]
    simp only [Option.some.injEq]
    by_cases hc : c = a
    · rw [if_pos hc, if_neg (hc ▸ hae), if_pos hc.symm]
    · rw [if_neg hc, if_neg (Ne.symm hc), h.at_split.1]
  simp only [putBefore, LinkedList.setNext, LinkedList.setPrevious, hprevious]
  cases hy : ys.getLast? with
  | none =>
    obtain rfl := List.getLast?_eq_none_iff.mp hy
    refine ⟨rfl, rfl, fun c => ?_, hback, rfl, ?_, rfl⟩
    · change Function.update s.next e (some a) c = _
      rw [Function.update_apply]
      rfl
    · change s.last = _
      rw [h.last, List.nil_append, List.nil_append, List.getLast?_cons_cons]
  | some y =>
    have hmem := List.mem_of_getLast? hy
    have hye : y ≠ e := fun he => h.outside (he ▸ List.mem_append_left _ hmem)
    refine ⟨rfl, rfl, fun c => ?_, hback, ?_, ?_, rfl⟩
    · change Function.update (Function.update s.next e (some a)) y (some e) c = _
      rw [Function.update_apply, Function.update_apply, hy]
      simp only [Option.some.injEq]
      by_cases hc : c = y
      · rw [if_pos hc, if_neg (hc ▸ hye), if_pos hc.symm]
      · rw [if_neg hc, if_neg (Ne.symm hc)]
        rfl
    · change s.first = _
      rw [h.first, List.head?_append_of_ne_nil _ (List.ne_nil_of_mem hmem),
        List.head?_append_of_ne_nil _ (List.ne_nil_of_mem hmem)]
    · change s.last = _
      rw [h.last]
      simp

/-- The state in which `axutil_linked_list_add_at_index` looks for the place. -/
def beforeInsertion (s : LinkedList α) (index : ℤ) (o : α) : LinkedList α :=
  (createEntry (checkBoundsInclusive s.checked index).1 o).1

lemma Represents.checkInclusive (h : Represents s cs xs) (index : ℤ) :
    Represents (checkBoundsInclusive s index).1 cs xs := by
  unfold checkBoundsInclusive
  split
  · exact h.failed _
  · exact h

lemma Represents.checkExclusive (h : Represents s cs xs) (index : ℤ) :
    Represents (checkBoundsExclusive s index).1 cs xs := by
  unfold checkBoundsExclusive
  split
  · exact h.failed _
  · exact h

lemma checkInclusive_fresh (s : LinkedList α) (index : ℤ) :
    (checkBoundsInclusive s index).1.fresh = s.fresh := by
  unfold checkBoundsInclusive
  split <;> rfl

lemma Represents.beforeInsertion (h : Represents s cs xs) (index : ℤ) (o : α) :
    Ready (beforeInsertion s index o) s.fresh o cs xs := by
  have hready := (h.checked.checkInclusive index).createEntry o
  have hfresh : (LinkedLists.createEntry (checkBoundsInclusive s.checked index).1 o).2 = s.fresh :=
    checkInclusive_fresh s.checked index
  rwa [hfresh] at hready

lemma Ready.modified (h : Ready s e o cs xs) : Ready s.modified e o cs xs :=
  ⟨h.toRepresents.modified, h.outside, h.allocated, h.object, h.nextNull, h.previousNull⟩

/-- A new entry is put in front of the one that is found, or behind all others. -/
lemma addAtIndex_eq (s : LinkedList α) (index : ℤ) (o : α) :
    addAtIndex s index (some o) =
      if index < (beforeInsertion s index o).size then
        (getEntry (beforeInsertion s index o).modified index >>= deref).map fun after =>
          (putBefore (beforeInsertion s index o).modified s.fresh after, true)
      else (addLastEntry (beforeInsertion s index o) s.fresh).map fun s => (s, true) := by
  have hfresh : (createEntry (checkBoundsInclusive s.checked index).1 o).2 = s.fresh :=
    checkInclusive_fresh s.checked index
  simp only [addAtIndex, hfresh, beforeInsertion]
  by_cases hlt : index < (createEntry (checkBoundsInclusive s.checked index).1 o).1.size
  · simp only [hlt, if_true]
    cases getEntry (createEntry (checkBoundsInclusive s.checked index).1 o).1.modified index with
    | error => rfl
    | ok after => cases after <;> rfl
  · simp only [hlt, if_false]
    cases addLastEntry (createEntry (checkBoundsInclusive s.checked index).1 o).1 s.fresh <;> rfl

lemma removeEntry_last (hsize : int32 (s.size - 1) = 0) (e : ℕ) :
    removeEntry s (some e) =
      .ok ({ s.checked.modified with
        size := int32 (s.size - 1), first := none, last := none }, true) :=
  if_pos hsize

lemma removeEntry_front {c : ℕ} (hsize : int32 (s.size - 1) ≠ 0) (hfirst : s.first = some e)
    (hnext : s.next e = some c) :
    removeEntry s (some e) =
      .ok ({ s.checked.modified with
        size := int32 (s.size - 1), first := some c }.setPrevious c none, true) := by
  have hvalue : removeEntry s (some e) = (deref (s.next e) >>= fun next =>
      .ok ({ s.checked.modified with
        size := int32 (s.size - 1), first := s.next e }.setPrevious next none, true)) :=
    (if_neg hsize).trans (if_pos hfirst.symm)
  rw [hvalue, hnext, deref_bind]

lemma removeEntry_back {c : ℕ} (hsize : int32 (s.size - 1) ≠ 0) (hfirst : s.first ≠ some e)
    (hlast : s.last = some e) (hprevious : s.previous e = some c) :
    removeEntry s (some e) =
      .ok ({ s.checked.modified with
        size := int32 (s.size - 1), last := some c }.setNext c none, true) := by
  have hvalue : removeEntry s (some e) = (deref (s.previous e) >>= fun previous =>
      .ok ({ s.checked.modified with
        size := int32 (s.size - 1), last := s.previous e }.setNext previous none, true)) :=
    (if_neg hsize).trans ((if_neg hfirst.symm).trans (if_pos hlast.symm))
  rw [hvalue, hprevious, deref_bind]

lemma removeEntry_middle {b c : ℕ} (hsize : int32 (s.size - 1) ≠ 0) (hfirst : s.first ≠ some e)
    (hlast : s.last ≠ some e) (hprevious : s.previous e = some b) (hnext : s.next e = some c)
    (hce : c ≠ e) :
    removeEntry s (some e) =
      .ok (({ s.checked.modified with size := int32 (s.size - 1) }.setPrevious c (some b)).setNext b
        (some c), true) := by
  have hvalue : removeEntry s (some e) = (deref (s.next e) >>= fun next =>
      deref (Function.update s.previous next (s.previous e) e) >>= fun previous =>
        .ok (({ s.checked.modified with size := int32 (s.size - 1) }.setPrevious next
          (s.previous e)).setNext previous (s.next e), true)) :=
    (if_neg hsize).trans ((if_neg hfirst.symm).trans (if_neg hlast.symm))
  rw [hvalue, hnext, deref_bind, Function.update_of_ne hce.symm, hprevious, deref_bind]

/-- The entry is taken out, wherever it stands. -/
lemma removeEntry_removed (h : Represents s (ys ++ e :: zs) xs) :
    ∃ s', removeEntry s (some e) = .ok (s', true) ∧ Removed s s' ys zs e := by
  obtain ⟨hprevious, hnext⟩ := h.at_split
  obtain ⟨hout, hnodup⟩ := List.nodup_cons.mp (List.nodup_middle.mp h.nodup)
  have hlen := h.length
  have hint := h.int
  simp only [List.length_append, List.length_cons] at hlen
  have hsize : int32 (s.size - 1) = ys.length + zs.length := by
    rw [h.size, int32_eq_self (by omega) (by omega)]
    omega
  have hfirst := h.first
  have hlast : s.last = (e :: zs).getLast? := h.last.trans (List.getLast?_append_cons ys e zs)
  cases ys with
  | nil =>
    cases zs with
    | nil =>
      refine ⟨_, removeEntry_last hsize e, rfl, rfl, fun c _ => rfl, fun c _ => rfl, rfl, rfl,
        rfl⟩
    | cons z zs =>
      refine ⟨_, removeEntry_front (by rw [hsize]; simp; omega) hfirst hnext, rfl, rfl,
        fun c _ => rfl, fun c _ => ?_, rfl, ?_, rfl⟩
      · change Function.update s.previous z none c = _
        rw [Function.update_apply, List.head?_cons]
        simp only [Option.some.injEq, eq_comm]
        rfl
      · change s.last = _
        rw [hlast, List.nil_append, List.getLast?_cons_cons]
  | cons y ys =>
    have hne : s.first ≠ some e := by
      rw [hfirst]
      rintro ⟨⟩
      exact hout (by simp)
    obtain ⟨b, hb⟩ : ∃ b, (y :: ys).getLast? = some b :=
      ⟨_, List.getLast?_eq_some_getLast (List.cons_ne_nil y ys)⟩
    have hbe : b ≠ e := fun he => hout (he ▸ List.mem_append_left _ (List.mem_of_getLast? hb))
    cases zs with
    | nil =>
      refine ⟨_, removeEntry_back (by rw [hsize]; simp; omega) hne hlast
        (hprevious.trans hb), rfl, rfl, fun c _ => ?_, fun c _ => rfl, ?_, ?_, rfl⟩
      · change Function.update s.next b none c = _
        rw [Function.update_apply, hb]
        simp only [Option.some.injEq, eq_comm]
        rfl
      · change s.first = _
        rw [hfirst]
        rfl
      · change some b = _
        rw [List.append_nil, hb]
    | cons z zs =>
      have hze : z ≠ e := fun he => hout (he ▸ by simp)
      have hlast' : s.last = (z :: zs).getLast? := hlast.trans List.getLast?_cons_cons
      have hne' : s.last ≠ some e := by
        rw [hlast']
        exact fun hl => hout (List.mem_append_right _ (List.mem_of_getLast? hl))
      refine ⟨_, removeEntry_middle (by rw [hsize]; simp; omega) hne hne' (hprevious.trans hb)
        hnext hze, rfl, rfl, fun c _ => ?_, fun c _ => ?_, ?_, ?_, rfl⟩
      · change Function.update s.next b (some z) c = _
        rw [Function.update_apply, hb]
        simp only [Option.some.injEq, eq_comm]
        rfl
      · change Function.update s.previous z (some b) c = _
        rw [Function.update_apply, hb, List.head?_cons]
        simp [eq_comm]
      · change s.first = _
        rw [hfirst]
        rfl
      · change s.last = _
        rw [hlast', List.getLast?_append_cons]

lemma removeFirst_removed (h : Represents s (e :: zs) xs) :
    ∃ s', removeFirst s = .ok (s', s.data e) ∧ Removed s s' [] zs e := by
  have hsize : s.size ≠ 0 := mt h.size_eq_zero.mp (List.cons_ne_nil e zs)
  obtain ⟨-, hnext⟩ := (show Represents s ([] ++ e :: zs) xs from h).at_split
  have hvalue : removeFirst s = (deref s.first >>= _) := if_neg hsize
  rw [hvalue, h.first, List.head?_cons, deref_bind]
  cases zs with
  | nil =>
    have hnone : s.modified.next e = none := hnext
    simp only [hnone]
    exact ⟨_, rfl, rfl, rfl, fun c _ => rfl, fun c _ => rfl, rfl, rfl, rfl⟩
  | cons z zs =>
    have hsome : s.modified.next e = some z := hnext
    simp only [hsome]
    refine ⟨_, rfl, rfl, rfl, fun c _ => rfl, fun c _ => ?_, hsome, ?_, rfl⟩
    · change Function.update s.previous z none c = _
      rw [Function.update_apply, List.head?_cons]
      simp only [Option.some.injEq, eq_comm]
      rfl
    · change s.last = _
      rw [h.last, List.nil_append, List.getLast?_cons_cons]

lemma removeLast_removed (h : Represents s (ys ++ [e]) xs) :
    ∃ s', removeLast s = .ok (s', s.data e) ∧ Removed s s' ys [] e := by
  have hsize : s.size ≠ 0 := mt h.size_eq_zero.mp (by simp)
  obtain ⟨hprevious, -⟩ := h.at_split
  have hlast : s.last = some e := by
    rw [h.last]
    simp
  have hvalue : removeLast s = (deref s.last >>= _) := if_neg hsize
  rw [hvalue, hlast, deref_bind]
  cases hy : ys.getLast? with
  | none =>
    obtain rfl := List.getLast?_eq_none_iff.mp hy
    have hnone : s.modified.previous e = none := hprevious
    simp only [hnone]
    exact ⟨_, rfl, rfl, rfl, fun c _ => rfl, fun c _ => rfl, rfl, rfl, rfl⟩
  | some y =>
    have hsome : s.modified.previous e = some y := hprevious.trans hy
    simp only [hsome]
    refine ⟨_, rfl, rfl, rfl, fun c _ => ?_, fun c _ => rfl, ?_, ?_, rfl⟩
    · change Function.update s.next y none c = _
      rw [Function.update_apply, hy]
      simp only [Option.some.injEq, eq_comm]
      rfl
    · change s.first = _
      rw [h.first, List.head?_append_of_ne_nil _ (List.ne_nil_of_mem (List.mem_of_getLast? hy)),
        List.append_nil]
    · change s.previous e = _
      rw [List.append_nil, hprevious]

end Surgery
end Axis2C.LinkedLists
