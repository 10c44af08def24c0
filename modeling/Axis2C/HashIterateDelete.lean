import Axis2C.HashMapLaws

/-!
# Iterating while entries are deleted

The iterator has read the link behind its entry before the caller sees the
entry. Deleting it changes the link in front of it and its own, which the
iterator has passed; the rest of the chain is still a chain of the table that is
left.
-/
namespace Axis2C.HashTable
open LinkedSegments

variable {V : Type*}

/-- `for (hi = first; hi; hi = next)` with `axutil_hash_set(ht, key, klen, NULL)` on the current
entry where `drop` holds of it: the entries visited and the table left. `none` if the rounds are not
enough. -/
def Hash.sweep (drop : List UInt8 → Option V → Bool) :
    ℕ → Option HashIndex → Hash V → Option (List (List UInt8 × Option V) × Hash V)
  | _, none, ht => some ([], ht)
  | 0, some _, _ => none
  | fuel + 1, some hi, ht =>
    match hi.this with
    | none => none
    | some he =>
      let key := (ht.heap he).key
      let val := (ht.heap he).val
      let ht := if drop key val then hashSet ht (.sized key) none else ht
      (Hash.sweep drop fuel (hashNextImpl ht hi) ht).map fun r => ((key, val) :: r.1, r.2)

def hashSweep (drop : List UInt8 → Option V → Bool) (ht : Hash V) :
    Option (List (List UInt8 × Option V) × Hash V) :=
  Hash.sweep drop (ht.brk + 1) (hashFirstImpl ht) ht

/-- The entries `drop` does not hold of. -/
def kept (drop : List UInt8 → Option V → Bool) (m : List UInt8 → Option (Option V))
    (key : List UInt8) : Option (Option V) :=
  (m key).filter fun val => !drop key val

/-- The iterator stands on the first pending entry, in a chain of the table. -/
def Standing (ht : Hash V) (buckets : ℕ → List ℕ) (hi : Option HashIndex) (pending : List ℕ) :
    Prop :=
  match hi, pending with
  | none, pending => pending = []
  | some _, [] => False
  | some hi, he :: rest =>
    hi.this = some he ∧ ∃ i pre tail, i ≤ ht.max ∧ hi.index = i + 1 ∧
      buckets i = pre ++ he :: tail ∧ hi.next = tail.head? ∧
      rest = tail ++ chainsFrom buckets ht.max (i + 1)

lemma seg_head {succ : ℕ → Option ℕ} {a : Option ℕ} {rs : List ℕ} (h : Seg succ a rs none) :
    a = rs.head? := by
  cases rs with
  | nil => exact h
  | cons r rs => exact h.1

lemma chainsFrom_congr {buckets buckets' : ℕ → List ℕ} (max : ℕ) {index : ℕ}
    (h : ∀ i, index ≤ i → buckets' i = buckets i) :
    chainsFrom buckets' max index = chainsFrom buckets max index := by
  unfold chainsFrom
  apply List.flatMap_congr
  intro i hi
  obtain ⟨j, -, rfl⟩ := List.mem_range'.mp hi
  exact h _ (by omega)

section Sweep

variable {ht : Hash V} {buckets : ℕ → List ℕ} {frees : List ℕ} {live : Finset ℕ}

lemma Layout.advance_standing (L : Layout ht buckets frees live) (fuel : ℕ) (index : ℕ)
    (tail : List ℕ)
    (htail : tail = [] ∨ ∃ i pre, i ≤ ht.max ∧ index = i + 1 ∧ buckets i = pre ++ tail)
    (hfuel : ht.max + 2 ≤ fuel + index) :
    Standing ht buckets
      ((ht.advance fuel tail.head? index).map fun p => ⟨some p.1, (ht.heap p.1).next, p.2⟩)
      (tail ++ chainsFrom buckets ht.max index) := by
  induction fuel generalizing index tail with
  | zero =>
    cases tail with
    | nil => simp [Hash.advance, Standing, chainsFrom_end buckets (show ht.max < index by omega)]
    | cons r rs =>
      obtain hnil | ⟨i, pre, hi, rfl, hsplit⟩ := htail
      · cases hnil
      · omega
  | succ fuel ih =>
    cases tail with
    | nil =>
      by_cases hend : ht.max < index
      · simp [Hash.advance, hend, Standing, chainsFrom_end buckets hend]
      · have hle := Nat.not_lt.mp hend
        have hload : ht.array.getD index none = (buckets index).head? :=
          seg_head (L.chain index hle)
        have hstep := ih (index + 1) (buckets index) (.inr ⟨index, [], hle, rfl, rfl⟩)
          (by omega)
        rw [← hload] at hstep
        simpa [Hash.advance, hend, chainsFrom_succ buckets hle] using hstep
    | cons r rs =>
      obtain hnil | ⟨i, pre, hi, rfl, hsplit⟩ := htail
      · cases hnil
      · have hchain := L.chain i hi
        rw [hsplit] at hchain
        obtain ⟨-, -, -, hrest⟩ := seg_append.mp hchain
        exact ⟨rfl, i, pre, rs, hi, rfl, hsplit, seg_head hrest, rfl⟩

lemma Layout.next_standing (L : Layout ht buckets frees live) {hi : HashIndex} {tail : List ℕ}
    (hnext : hi.next = tail.head?)
    (htail : tail = [] ∨ ∃ i pre, i ≤ ht.max ∧ hi.index = i + 1 ∧ buckets i = pre ++ tail) :
    Standing ht buckets (hashNextImpl ht hi) (tail ++ chainsFrom buckets ht.max hi.index) := by
  have h := L.advance_standing (ht.max + 2 - hi.index) hi.index tail htail (by omega)
  rw [← hnext] at h
  unfold hashNextImpl
  cases hadvance : ht.advance (ht.max + 2 - hi.index) hi.next hi.index with
  | none | some p => simpa [hadvance] using h

/-- Deleting the key of a live entry takes this entry out of its chain. -/
lemma Layout.hashSet_current (L : Layout ht buckets frees live) {he i : ℕ} {pre tail : List ℕ}
    (hi : i ≤ ht.max) (hsplit : buckets i = pre ++ he :: tail) :
    ∃ ht', hashSet ht (.sized (ht.heap he).key) none = ht' ∧ ht'.max = ht.max ∧
      Layout ht' (Function.update buckets i (pre ++ tail)) (he :: frees) (live.erase he) ∧
      ∀ s, (ht'.heap s).key = (ht.heap s).key ∧ (ht'.heap s).val = (ht.heap s).val := by
  have hmem : he ∈ buckets i := by simp [hsplit]
  have hlive := ((L.mem i hi he).mp hmem).1
  obtain ⟨pre', r, post, hsplit', hr, hkey, hslot, hload⟩ | ⟨hnone, -⟩ :=
    L.slotOf_cases (ht.heap he).key
  · obtain rfl : r = he := L.distinct r hr he hlive hkey
    have hhome : ht.home (ht.heap r).key = i := by
      refine L.index_unique (Layout.home_le ht _) hi ?_ hmem
      rw [hsplit']
      simp
    have hnodup := L.nodup i hi
    rw [hhome] at hsplit'
    rw [hsplit'] at hnodup
    have hnot : r ∉ pre' := fun h => List.disjoint_of_nodup_append hnodup h (by simp)
    have hnot' : r ∉ post := (List.nodup_cons.mp (List.nodup_append.mp hnodup).2.1).1
    obtain ⟨rfl, -, rfl⟩ :=
      (List.append_cons_inj_of_notMem hnot hnot').mp (hsplit'.symm.trans hsplit)
    rw [← hhome] at hsplit'
    obtain ⟨L', hdata⟩ := L.removeEntry hsplit' hlive hslot
    rw [hhome] at L'
    refine ⟨_, ?_, ?_, L', hdata⟩
    · unfold hashSet
      have hcontent : (KeyArg.sized (ht.heap r).key).content = (ht.heap r).key := rfl
      rw [L.hashFindEntry_eq, hcontent]
      simp [hload]
    · exact (store_frame ht _ _).1
  · exact absurd rfl (hnone he hlive)

/-- The loop from any place of the iterator. -/
lemma Layout.sweep_spec (drop : List UInt8 → Option V → Bool) (fuel : ℕ) {hi : Option HashIndex}
    {pending : List ℕ} (L : Layout ht buckets frees live) (hs : Standing ht buckets hi pending)
    (hfuel : pending.length ≤ fuel) :
    ∃ ht' buckets' frees', Hash.sweep drop fuel hi ht =
        some (pending.map fun r => ((ht.heap r).key, (ht.heap r).val), ht') ∧
      Layout ht' buckets' frees' (live.filter fun r =>
        ¬ (r ∈ pending ∧ drop (ht.heap r).key (ht.heap r).val = true)) ∧
      ∀ r, (ht'.heap r).key = (ht.heap r).key ∧ (ht'.heap r).val = (ht.heap r).val := by
  induction fuel generalizing hi pending ht buckets frees live with
  | zero =>
    obtain rfl : pending = [] := List.length_eq_zero_iff.mp (by omega)
    cases hi with
    | none => exact ⟨ht, buckets, frees, rfl, by simpa using L, fun r => ⟨rfl, rfl⟩⟩
    | some hi => exact hs.elim
  | succ fuel ih =>
    cases hi with
    | none =>
      obtain rfl : pending = [] := hs
      exact ⟨ht, buckets, frees, rfl, by simpa using L, fun r => ⟨rfl, rfl⟩⟩
    | some hi =>
      cases pending with
      | nil => exact hs.elim
      | cons he rest =>
        obtain ⟨hthis, i, pre, tail, hi', hindex, hsplit, hnext, rfl⟩ := hs
        have hlength : (tail ++ chainsFrom buckets ht.max (i + 1)).length ≤ fuel := by
          rw [List.length_cons] at hfuel
          omega
        by_cases hdrop : drop (ht.heap he).key (ht.heap he).val = true
        · obtain ⟨ht₁, hset, hmax, L₁, hdata⟩ := L.hashSet_current hi' hsplit
          have hchains : chainsFrom (Function.update buckets i (pre ++ tail)) ht₁.max
              (i + 1) = chainsFrom buckets ht.max (i + 1) := by
            rw [hmax]
            exact chainsFrom_congr _ fun j hj => Function.update_of_ne (by omega) _ _
          have hstanding := L₁.next_standing hnext
            (.inr ⟨i, pre, by omega, hindex, Function.update_self ..⟩)
          rw [hindex, hchains] at hstanding
          obtain ⟨ht', buckets', frees', hsweep, L', hdata'⟩ := ih L₁ hstanding hlength
          refine ⟨ht', buckets', frees', ?_, ?_, fun r => ?_⟩
          · simp [Hash.sweep, hthis, hdrop, hset, hsweep, (hdata _).1, (hdata _).2]
          · convert L' using 1
            ext r
            simp only [Finset.mem_filter, Finset.mem_erase, List.mem_cons, (hdata _).1,
              (hdata _).2]
            by_cases hr : r = he
            · subst hr
              simp [hdrop]
            · simp [hr]
          · exact ⟨(hdata' r).1.trans (hdata r).1, (hdata' r).2.trans (hdata r).2⟩
        · have hstanding := L.next_standing hnext
            (.inr ⟨i, pre ++ [he], hi', hindex, by simpa using hsplit⟩)
          rw [hindex] at hstanding
          obtain ⟨ht', buckets', frees', hsweep, L', hdata'⟩ := ih L hstanding hlength
          refine ⟨ht', buckets', frees', ?_, ?_, hdata'⟩
          · simp [Hash.sweep, hthis, hdrop, hsweep]
          · convert L' using 1
            ext r
            simp only [Finset.mem_filter, List.mem_cons]
            by_cases hr : r = he
            · subst hr
              simp [hdrop]
            · simp [hr]

/-- What is left is the table of the entries `drop` does not hold of. -/
lemma Maps.sweep {drop : List UInt8 → Option V → Bool} {m : List UInt8 → Option (Option V)}
    {ht' : Hash V} (hm : Maps ht live m)
    (hdata : ∀ r, (ht'.heap r).key = (ht.heap r).key ∧ (ht'.heap r).val = (ht.heap r).val)
    {pending : List ℕ} (hpending : ∀ r ∈ live, r ∈ pending) :
    Maps ht' (live.filter fun r =>
      ¬ (r ∈ pending ∧ drop (ht.heap r).key (ht.heap r).val = true)) (kept drop m) := by
  intro key val
  simp only [kept, Finset.mem_filter, (hdata _).1, (hdata _).2, Option.filter_eq_some_iff]
  constructor
  · rintro ⟨h, hkept⟩
    obtain ⟨r, hr, rfl, rfl⟩ := (hm _ val).mp h
    refine ⟨r, ⟨hr, fun hgone => ?_⟩, rfl, rfl⟩
    rw [hgone.2] at hkept
    cases hkept
  · rintro ⟨r, ⟨hr, hkept⟩, rfl, rfl⟩
    refine ⟨hm.eq_val hr, ?_⟩
    rw [Bool.not_eq_true']
    by_contra hdrop
    exact hkept ⟨hpending r hr, by simpa using hdrop⟩

end Sweep

/-- Iterating over any table with a deletion of the current entry wherever `drop` holds of it ends,
visits each entry of the table once, and leaves the entries `drop` does not hold of, with their
number. -/
theorem hash_sweep (ht : Hash V) (m : List UInt8 → Option (Option V)) (h : Represents ht m)
    (drop : List UInt8 → Option V → Bool) :
    ∃ visited ht', hashSweep drop ht = some (visited, ht') ∧
      (visited.map Prod.fst).Nodup ∧
      (∀ key val, (key, val) ∈ visited ↔ m key = some val) ∧
      ((hashIterate ht').map Prod.fst).Nodup ∧
      (∀ key val, (key, val) ∈ hashIterate ht' ↔ m key = some val ∧ drop key val = false) ∧
      (∀ k, hashGet ht' k = (kept drop m k.content).join) ∧
      hashCount ht' = {key | ∃ val, m key = some val ∧ drop key val = false}.ncard ∧
      Represents ht' (kept drop m) := by
  obtain ⟨buckets, frees, live, L, hm⟩ := h
  have hfirst : (⟨none, none, 0⟩ : HashIndex).next = ([] : List ℕ).head? := rfl
  have hstart : Standing ht buckets (hashFirstImpl ht) (chainsFrom buckets ht.max 0) :=
    L.next_standing hfirst (.inl rfl)
  obtain ⟨ht', buckets', frees', hsweep, L', hdata⟩ := L.sweep_spec drop (ht.brk + 1) hstart
    (L.chains_length_le.trans (Nat.le_succ _))
  rw [← L.hashIterate_eq] at hsweep
  have hm' : Maps ht' _ (kept drop m) := hm.sweep hdata fun r hr => L.mem_chains.mpr hr
  have hkept : ∀ key val, kept drop m key = some val ↔ m key = some val ∧ drop key val = false := by
    intro key val
    rw [kept, Option.filter_eq_some_iff, Bool.not_eq_true']
  refine ⟨_, ht', hsweep, L.nodup_keys, L.mem_iterate hm, L'.nodup_keys, fun key val => ?_,
    L'.hashGet_eq hm', ?_, buckets', frees', _, L', hm'⟩
  · rw [L'.mem_iterate hm', hkept]
  · rw [L'.count_eq_ncard hm']
    simp only [Option.ne_none_iff_exists', hkept]

/-- Of the keys `a` and `b`, `a` is deleted on the way. -/
theorem hash_sweep_two : ∃ visited ht',
    hashSweep (fun key _ => key == [97])
        (hashRun [(.sized [97], some 1), (.string [98, 0], some 2)]) = some (visited, ht') ∧
      hashGet ht' (.sized [97]) = none ∧ hashGet ht' (.sized [98]) = some 2 := by
  obtain ⟨visited, ht', hsweep, -, -, -, -, hget, -⟩ :=
    hash_sweep _ _ (represents_hashRun [(.sized [97], some 1), (.string [98, 0], some 2)])
      (fun key _ => key == [97])
  exact ⟨visited, ht', hsweep, (hget _).trans (by decide), (hget _).trans (by decide)⟩

end Axis2C.HashTable
