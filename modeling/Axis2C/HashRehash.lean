import Axis2C.HashUpdate

/-!
# Iteration and rehashing

An iterator stands for the list of entries it has still to visit: the rest of
its current chain, then the chains behind it. One step of `axutil_hash_next`
moves to the head of that list. Relinking an entry already passed does not
change it, so the rehash visits every live entry exactly once.
-/
namespace Axis2C.HashTable
open LinkedSegments

variable {V : Type*}

/-- The entries of the chains from array index `index` on. -/
def chainsFrom (buckets : ℕ → List ℕ) (max index : ℕ) : List ℕ :=
  (List.range' index (max + 1 - index)).flatMap buckets

theorem chainsFrom_succ (buckets : ℕ → List ℕ) {max index : ℕ} (h : index ≤ max) :
    chainsFrom buckets max index = buckets index ++ chainsFrom buckets max (index + 1) := by
  have hlen : max + 1 - index = (max + 1 - (index + 1)) + 1 := by omega
  simp [chainsFrom, hlen, List.range'_succ]

theorem chainsFrom_end (buckets : ℕ → List ℕ) {max index : ℕ} (h : max < index) :
    chainsFrom buckets max index = [] := by
  simp [chainsFrom, show max + 1 - index = 0 by omega]

theorem chainsFrom_zero (buckets : ℕ → List ℕ) (max : ℕ) :
    chainsFrom buckets max 0 = (List.range (max + 1)).flatMap buckets := by
  rw [chainsFrom, List.range_eq_range', Nat.sub_zero]

theorem mem_chainsFrom_zero {buckets : ℕ → List ℕ} {max r : ℕ} :
    r ∈ chainsFrom buckets max 0 ↔ ∃ i ≤ max, r ∈ buckets i := by
  simp only [chainsFrom, List.mem_flatMap, List.mem_range', Nat.sub_zero]
  constructor
  · rintro ⟨i, ⟨j, hj, rfl⟩, hr⟩
    exact ⟨_, by omega, hr⟩
  · rintro ⟨i, hi, hr⟩
    exact ⟨i, ⟨i, by omega, by omega⟩, hr⟩

/-- The links from array index `index` on still spell out `buckets`. -/
def ChainsHold (ht : Hash V) (buckets : ℕ → List ℕ) (index : ℕ) : Prop :=
  ∀ i, index ≤ i → i ≤ ht.max → Seg ht.succ (ht.load (.bucket i)) (buckets i) none

/-- The iterator `hi` has `pending` to visit, the entry it stands on included. -/
def Visits (ht : Hash V) (buckets : ℕ → List ℕ) (hi : Option HashIndex) (pending : List ℕ) :
    Prop :=
  match hi, pending with
  | none, pending => pending = []
  | some _, [] => False
  | some hi, he :: rest =>
    hi.this = some he ∧ ChainsHold ht buckets hi.index ∧
      ∃ tail, Seg ht.succ hi.next tail none ∧ rest = tail ++ chainsFrom buckets ht.max hi.index

theorem advance_visits {ht : Hash V} {buckets : ℕ → List ℕ} (fuel : ℕ) (link : Option ℕ)
    (index : ℕ) (tail : List ℕ) (hchains : ChainsHold ht buckets index)
    (htail : Seg ht.succ link tail none) (hfuel : ht.max + 2 ≤ fuel + index) :
    Visits ht buckets
      ((ht.advance fuel link index).map fun p => ⟨some p.1, ht.succ p.1, p.2⟩)
      (tail ++ chainsFrom buckets ht.max index) := by
  induction fuel generalizing link index tail with
  | zero =>
    cases tail with
    | nil =>
      obtain rfl : link = none := htail
      simp [Hash.advance, Visits, chainsFrom_end buckets (show ht.max < index by omega)]
    | cons r rs =>
      obtain ⟨rfl, hrest⟩ := htail
      exact ⟨rfl, hchains, rs, hrest, rfl⟩
  | succ fuel ih =>
    cases tail with
    | nil =>
      obtain rfl : link = none := htail
      by_cases hend : ht.max < index
      · simp [Hash.advance, hend, Visits, chainsFrom_end buckets hend]
      · have hstep := ih (ht.array.getD index none) (index + 1) (buckets index)
          (fun i hi => hchains i (by omega)) (hchains index le_rfl (by omega)) (by omega)
        simpa [Hash.advance, hend, chainsFrom_succ buckets (Nat.not_lt.mp hend)] using hstep
    | cons r rs =>
      obtain ⟨rfl, hrest⟩ := htail
      exact ⟨rfl, hchains, rs, hrest, rfl⟩

theorem hashNextImpl_visits {ht : Hash V} {buckets : ℕ → List ℕ} (hi : HashIndex)
    (tail : List ℕ) (hchains : ChainsHold ht buckets hi.index)
    (htail : Seg ht.succ hi.next tail none) :
    Visits ht buckets (hashNextImpl ht hi) (tail ++ chainsFrom buckets ht.max hi.index) := by
  have h := advance_visits (ht.max + 2 - hi.index) hi.next hi.index tail hchains htail (by omega)
  simp only [hashNextImpl]
  cases hadv : ht.advance (ht.max + 2 - hi.index) hi.next hi.index with
  | none => simpa [hadv] using h
  | some p => simpa [hadv, Hash.succ] using h

theorem hashFirstImpl_visits {ht : Hash V} {buckets : ℕ → List ℕ}
    (hchains : ChainsHold ht buckets 0) :
    Visits ht buckets (hashFirstImpl ht) (chainsFrom buckets ht.max 0) := by
  exact hashNextImpl_visits ⟨none, none, 0⟩ [] hchains rfl

/-- A full iteration reports the pending entries in order. -/
theorem collect_visits {ht : Hash V} {buckets : ℕ → List ℕ} (fuel : ℕ) (hi : Option HashIndex)
    (pending : List ℕ) (hv : Visits ht buckets hi pending) (hfuel : pending.length ≤ fuel) :
    ht.collect fuel hi = pending.map fun r => ((ht.heap r).key, (ht.heap r).val) := by
  induction fuel generalizing hi pending with
  | zero =>
    obtain rfl : pending = [] := List.length_eq_zero_iff.mp (by omega)
    cases hi <;> simp [Hash.collect]
  | succ fuel ih =>
    cases hi with
    | none =>
      obtain rfl : pending = [] := hv
      simp [Hash.collect]
    | some hi =>
      cases pending with
      | nil => exact hv.elim
      | cons he rest =>
        obtain ⟨hthis, hchains, tail, htail, rfl⟩ := hv
        have hnext := ih _ _ (hashNextImpl_visits hi tail hchains htail)
          (by simp only [List.length_cons] at hfuel; omega)
        simp [Hash.collect, hthis, hnext]

/-- Relinking an entry that is not pending keeps the iteration on course. -/
theorem Visits.relink {ht : Hash V} {buckets : ℕ → List ℕ} {hi : HashIndex} {he : ℕ}
    {rest : List ℕ} {link : Option ℕ} (hv : Visits ht buckets (some hi) (he :: rest))
    (hnot : he ∉ rest) :
    Visits (ht.setEntry he { ht.heap he with next := link }) buckets
      (hashNextImpl (ht.setEntry he { ht.heap he with next := link }) hi) rest := by
  obtain ⟨-, hchains, tail, htail, rfl⟩ := hv
  simp only [List.mem_append, not_or] at hnot
  refine hashNextImpl_visits hi tail ?_ ?_
  · intro i hle hi'
    rw [succ_setEntry]
    refine (hchains i hle hi').update (fun hmem => hnot.2 ?_)
    simp only [chainsFrom, List.mem_flatMap, List.mem_range']
    exact ⟨i, ⟨i - hi.index, by simp at hi'; omega, by omega⟩, hmem⟩
  · rw [succ_setEntry]
    exact htail.update hnot.1

/-- What the rehash loop leaves alone: everything but links. -/
structure SameData (ht ht' : Hash V) : Prop where
  hash : ∀ r, (ht'.heap r).hash = (ht.heap r).hash
  key : ∀ r, (ht'.heap r).key = (ht.heap r).key
  val : ∀ r, (ht'.heap r).val = (ht.heap r).val
  brk : ht'.brk = ht.brk
  count : ht'.count = ht.count
  free : ht'.free = ht.free
  hashFunc : ht'.hashFunc = ht.hashFunc

theorem SameData.refl (ht : Hash V) : SameData ht ht :=
  ⟨fun _ => rfl, fun _ => rfl, fun _ => rfl, rfl, rfl, rfl, rfl⟩

theorem SameData.setNext (ht : Hash V) (he : ℕ) (link : Option ℕ) :
    SameData ht (ht.setEntry he { ht.heap he with next := link }) := by
  refine ⟨?_, ?_, ?_, rfl, rfl, rfl, rfl⟩
  all_goals
    intro r
    by_cases h : r = he
    · subst h; simp
    · simp [h]

theorem SameData.trans {ht ht' ht'' : Hash V} (h : SameData ht ht') (h' : SameData ht' ht'') :
    SameData ht ht'' :=
  ⟨fun r => (h'.hash r).trans (h.hash r), fun r => (h'.key r).trans (h.key r),
    fun r => (h'.val r).trans (h.val r), h'.brk.trans h.brk, h'.count.trans h.count,
    h'.free.trans h.free, h'.hashFunc.trans h.hashFunc⟩

/-- The entries of `pending` that the new mask sends to index `i`, latest first. -/
def sentTo (ht : Hash V) (newMax i : ℕ) (pending : List ℕ) : List ℕ :=
  (pending.filter fun r => (ht.heap r).hash &&& newMax = i).reverse

/-- Every pending entry is moved to the front of its new chain, and nothing else moves. -/
theorem relink_spec {buckets : ℕ → List ℕ} (nb : ℕ → List ℕ) (newMax fuel : ℕ) (hi : Option HashIndex)
    (newArray : List (Option ℕ)) (ht : Hash V) (pending : List ℕ)
    (hv : Visits ht buckets hi pending) (hnd : pending.Nodup) (hfuel : pending.length ≤ fuel)
    (hlen : newArray.length = newMax + 1)
    (hnew : ∀ i ≤ newMax, Seg ht.succ (newArray.getD i none) (nb i) none)
    (hdis : ∀ r ∈ pending, ∀ i ≤ newMax, r ∉ nb i) :
    let out := Hash.relink newMax fuel hi newArray ht
    out.1.length = newMax + 1 ∧
      (∀ i ≤ newMax, Seg out.2.succ (out.1.getD i none) (sentTo ht newMax i pending ++ nb i) none) ∧
      (∀ r, r ∉ pending → out.2.succ r = ht.succ r) ∧ SameData ht out.2 := by
  induction pending generalizing fuel hi newArray ht nb with
  | nil =>
    obtain rfl : hi = none := by
      cases hi with
      | none => rfl
      | some hi => exact hv.elim
    have hout : Hash.relink newMax fuel none newArray ht = (newArray, ht) := by
      cases fuel <;> rfl
    rw [hout]
    exact ⟨hlen, fun i hi => by simpa [sentTo] using hnew i hi, fun r _ => rfl, SameData.refl ht⟩
  | cons he rest ih =>
    obtain ⟨hnot, hnd'⟩ := List.nodup_cons.mp hnd
    cases hi with
    | none => exact absurd hv (by simp [Visits])
    | some hi =>
      cases fuel with
      | zero => simp at hfuel
      | succ fuel =>
        have hthis : hi.this = some he := hv.1
        set j := (ht.heap he).hash &&& newMax with hj
        have hjle : j ≤ newMax := Nat.and_le_right
        set ht1 := ht.setEntry he { ht.heap he with next := newArray.getD j none } with hht1
        have hstep : Hash.relink newMax (fuel + 1) (some hi) newArray ht =
            Hash.relink newMax fuel (hashNextImpl ht1 hi) (newArray.set j (some he)) ht1 := by
          simp only [Hash.relink, hthis, hht1, hj]
        have hsame : SameData ht ht1 := SameData.setNext ht he _
        have hsucc1 : ht1.succ = Function.update ht.succ he (newArray.getD j none) := by
          simp [hht1]
        -- the chains of the new array after this entry was pushed
        have hnew1 : ∀ i ≤ newMax, Seg ht1.succ ((newArray.set j (some he)).getD i none)
            (Function.update nb j (he :: nb j) i) none := by
          intro i hile
          rw [hsucc1]
          by_cases hij : i = j
          · subst hij
            have hget : (newArray.set j (some he)).getD j none = some he := by
              simp [List.getD_eq_getElem?_getD, hlen, Nat.lt_succ_of_le hjle]
            rw [hget, Function.update_self]
            refine ⟨rfl, ?_⟩
            rw [Function.update_self]
            exact (hnew j hjle).update (hdis he (by simp) j hjle)
          · rw [Function.update_of_ne hij]
            have hget : (newArray.set j (some he)).getD i none = newArray.getD i none := by
              simp [List.getD_eq_getElem?_getD, Ne.symm hij]
            rw [hget]
            exact (hnew i hile).update (hdis he (by simp) i hile)
        have hdis1 : ∀ r ∈ rest, ∀ i ≤ newMax, r ∉ Function.update nb j (he :: nb j) i := by
          intro r hr i hile
          have hne : r ≠ he := fun h => hnot (h ▸ hr)
          by_cases hij : i = j
          · subst hij
            simpa [hne] using hdis r (by simp [hr]) j hjle
          · rw [Function.update_of_ne hij]
            exact hdis r (by simp [hr]) i hile
        obtain ⟨hlen', hchain', hframe', hsame'⟩ := ih _ fuel (hashNextImpl ht1 hi)
          (newArray.set j (some he)) ht1 (hv.relink hnot) hnd'
          (by simp only [List.length_cons] at hfuel; omega) (by simp [hlen]) hnew1 hdis1
        simp only [hstep]
        refine ⟨hlen', ?_, ?_, hsame.trans hsame'⟩
        · intro i hile
          have h := hchain' i hile
          have hsent : sentTo ht1 newMax i rest = sentTo ht newMax i rest := by
            simp only [sentTo, hsame.hash]
          rw [hsent] at h
          by_cases hij : i = j
          · subst hij
            have hcons : sentTo ht newMax j (he :: rest) = sentTo ht newMax j rest ++ [he] := by
              simp [sentTo, ← hj]
            rw [hcons]
            simpa using h
          · have hcons : sentTo ht newMax i (he :: rest) = sentTo ht newMax i rest := by
              simp [sentTo, ← hj, Ne.symm hij]
            rw [hcons]
            simpa [Function.update_of_ne hij] using h
        · intro r hr
          simp only [List.mem_cons, not_or] at hr
          rw [hframe' r hr.2, hsucc1, Function.update_of_ne hr.1]

section Table

variable {ht : Hash V} {buckets : ℕ → List ℕ} {frees : List ℕ} {live : Finset ℕ}

section

variable (L : Layout ht buckets frees live)

include L

theorem Layout.chainsHold : ChainsHold ht buckets 0 :=
  fun i _ hi => L.chain i hi

theorem Layout.mem_chains {r : ℕ} : r ∈ chainsFrom buckets ht.max 0 ↔ r ∈ live := by
  rw [mem_chainsFrom_zero]
  constructor
  · rintro ⟨i, hi, hr⟩
    exact ((L.mem i hi r).mp hr).1
  · intro hr
    exact ⟨_, Layout.home_le ht _, L.mem_home hr⟩

theorem Layout.nodup_chains : (chainsFrom buckets ht.max 0).Nodup := by
  rw [chainsFrom, List.nodup_flatMap]
  have hle : ∀ i ∈ List.range' 0 (ht.max + 1 - 0), i ≤ ht.max := by
    intro i hi
    simp only [List.mem_range'] at hi
    omega
  refine ⟨fun i hi => L.nodup i (hle i hi), ?_⟩
  refine (List.nodup_range' (s := 0)).pairwise_of_forall_ne ?_
  intro i hi j hj hij r hri hrj
  exact hij (L.index_unique (hle i hi) (hle j hj) hri hrj)

theorem Layout.card_chains : (chainsFrom buckets ht.max 0).length = live.card := by
  have h : (chainsFrom buckets ht.max 0).toFinset = live := by
    ext r
    simp [L.mem_chains]
  rw [← h, List.toFinset_card_of_nodup L.nodup_chains]

theorem Layout.chains_length_le : (chainsFrom buckets ht.max 0).length ≤ ht.brk := by
  have hsub : chainsFrom buckets ht.max 0 ⊆ List.range ht.brk := by
    intro r hr
    exact List.mem_range.mpr (L.allocated r (.inl (L.mem_chains.mp hr)))
  simpa using (List.subperm_of_subset L.nodup_chains hsub).length_le

theorem Layout.hashIterate_eq :
    hashIterate ht =
      (chainsFrom buckets ht.max 0).map fun r => ((ht.heap r).key, (ht.heap r).val) :=
  collect_visits _ _ _ (hashFirstImpl_visits L.chainsHold)
    (L.chains_length_le.trans (Nat.le_succ _))

end

/-- A rehash keeps the live entries with their data and puts each into the
chain the larger mask selects. -/
theorem Layout.hashExpandArray (L : Layout ht buckets frees live) :
    (∃ buckets', Layout (hashExpandArray ht) buckets' frees live) ∧
      ∀ r, ((HashTable.hashExpandArray ht).heap r).key = (ht.heap r).key ∧
        ((HashTable.hashExpandArray ht).heap r).val = (ht.heap r).val := by
  set newMax := ht.max * 2 + 1 with hnewMax
  obtain ⟨hlen, hchain, hframe, hsame⟩ := relink_spec (fun _ => []) newMax (ht.brk + 1)
    (hashFirstImpl ht) (hashAllocArray newMax) ht (chainsFrom buckets ht.max 0)
    (hashFirstImpl_visits L.chainsHold) L.nodup_chains
    (L.chains_length_le.trans (Nat.le_succ _)) (by simp [hashAllocArray])
    (fun i hi => by simp [hashAllocArray, Nat.lt_succ_of_le hi]) (by simp)
  set out := Hash.relink newMax (ht.brk + 1) (hashFirstImpl ht) (hashAllocArray newMax) ht
    with hout
  have hexp : HashTable.hashExpandArray ht = { out.2 with array := out.1, max := newMax } := rfl
  rw [hexp]
  refine ⟨⟨fun i => sentTo ht newMax i (chainsFrom buckets ht.max 0), ?_⟩,
    fun r => ⟨hsame.key r, hsame.val r⟩⟩
  exact
    { size := hlen
      chain := fun i hi => by
        have h := hchain i hi
        rw [List.append_nil] at h
        exact h
      nodup := fun i _ => List.nodup_reverse.mpr (L.nodup_chains.filter _)
      mem := fun i _ r => by
        simp [sentTo, L.mem_chains, hsame.hash]
      freeChain := by
        change Seg out.2.succ out.2.free frees none
        rw [hsame.free]
        refine L.freeChain.congr (fun r hr => hframe r ?_)
        rw [L.mem_chains]
        exact L.disjoint r hr
      freeNodup := L.freeNodup
      disjoint := L.disjoint
      allocated := fun r hr => by
        change r < out.2.brk
        rw [hsame.brk]
        exact L.allocated r hr
      hashed := fun r hr => by
        change (out.2.heap r).hash = out.2.hashOf (out.2.heap r).key
        rw [hsame.hash, hsame.key, hashOf_congr hsame.hashFunc]
        exact L.hashed r hr
      distinct := fun r hr s hs h => by
        change (out.2.heap r).key = (out.2.heap s).key at h
        rw [hsame.key, hsame.key] at h
        exact L.distinct r hr s hs h
      count := by
        change out.2.count = _
        rw [hsame.count, L.count]
      hashFunc := by
        change OfContent out.2.hashFunc
        rw [hsame.hashFunc]
        exact L.hashFunc }

/-- The entries met on the chain at an index. -/
theorem chainFrom_eq (fuel : ℕ) (link : Option ℕ) (rs : List ℕ) (h : Seg ht.succ link rs none)
    (hfuel : rs.length ≤ fuel) : ht.chainFrom fuel link = rs.map ht.heap := by
  induction rs generalizing fuel link with
  | nil =>
    obtain rfl : link = none := h
    cases fuel <;> rfl
  | cons r rs ih =>
    obtain ⟨rfl, hrest⟩ := h
    cases fuel with
    | zero => simp at hfuel
    | succ fuel =>
      simp only [List.length_cons] at hfuel
      have htail := ih fuel (ht.succ r) hrest (by omega)
      exact congrArg (ht.heap r :: ·) htail

theorem Layout.hashChain_eq (L : Layout ht buckets frees live) {i : ℕ} (hi : i ≤ ht.max) :
    hashChain ht i = (buckets i).map ht.heap :=
  chainFrom_eq _ _ _ (L.chain i hi) ((L.bucket_length_le hi).trans (Nat.le_succ _))

end Table

end Axis2C.HashTable
