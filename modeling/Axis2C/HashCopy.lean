import Axis2C.HashMapLaws

/-!
# Copying a hash table

`axutil_hash_copy` takes one block for the table, its array and its entries, and
fills the chains in the order of the original. The link a copy is stored through
is in the array or in the copy before it.
-/
namespace Axis2C.HashTable
open LinkedSegments

variable {V : Type*}

/-- `while (orig_entry)`: the entries of `new_vals` are the next addresses. The links of a copy are
set when the one behind it is made, or by the last store. -/
def Hash.copyChain : ℕ → Option ℕ → Slot → Hash V → Hash V
  | fuel + 1, some origEntry, newEntry, ht =>
    let newVals := ht.brk
    let ht := { ht.store newEntry (some newVals) with brk := ht.brk + 1 }
    let e := ht.heap origEntry
    let ht := ht.setEntry newVals
      { ht.heap newVals with hash := e.hash, key := e.key, val := e.val }
    Hash.copyChain fuel (ht.heap origEntry).next (.next newVals) ht
  | _, _, newEntry, ht => ht.store newEntry none

def hashCopy (orig : Hash V) : Hash V :=
  (List.range (orig.max + 1)).foldl
    (fun ht i => Hash.copyChain (orig.brk + 1) (orig.array.getD i none) (.bucket i) ht)
    { orig with array := hashAllocArray orig.max, free := none }

section Copy

variable {old res : Hash V}

/-- The same data under another link. -/
def SameEntry (e e' : Entry V) : Prop := e'.hash = e.hash ∧ e'.key = e.key ∧ e'.val = e.val

lemma SameEntry.eq {e e' : Entry V} (h : SameEntry e e') (hnext : e'.next = e.next) : e' = e := by
  obtain ⟨next, hash, key, val⟩ := e
  obtain ⟨next', hash', key', val'⟩ := e'
  obtain ⟨rfl, rfl, rfl⟩ := h
  obtain rfl : next' = next := hnext
  rfl

/-- What copying leaves alone. -/
structure Hash.SameFields (ht ht' : Hash V) : Prop where
  size : ht'.array.length = ht.array.length
  max : ht'.max = ht.max
  count : ht'.count = ht.count
  free : ht'.free = ht.free
  hashFunc : ht'.hashFunc = ht.hashFunc

lemma Hash.SameFields.trans {ht ht' ht'' : Hash V} (h : ht.SameFields ht')
    (h' : ht'.SameFields ht'') : ht.SameFields ht'' :=
  ⟨h'.size.trans h.size, h'.max.trans h.max, h'.count.trans h.count, h'.free.trans h.free,
    h'.hashFunc.trans h.hashFunc⟩

/-- The memory of `old` is left as it is. -/
def Hash.Extends (old res : Hash V) : Prop :=
  old.brk ≤ res.brk ∧ ∀ r, r < old.brk → res.heap r = old.heap r

/-- One chain. `copyOf` are the addresses that the entries get. -/
lemma copyChain_spec (copyOf : ℕ → ℕ) (fuel : ℕ) {i : ℕ} {link : Option ℕ} {pre rs : List ℕ}
    {m : Option ℕ} (hseg : Seg old.succ link rs none) (hfuel : rs.length ≤ fuel)
    (hrs : ∀ r ∈ rs, r < old.brk) (hcopy : rs.map copyOf = List.range' res.brk rs.length)
    (hold : old.Extends res) (hi : i < res.array.length)
    (hpre : Seg res.succ (res.load (.bucket i)) pre m) (hnodup : pre.Nodup)
    (hfresh : ∀ r ∈ pre, old.brk ≤ r ∧ r < res.brk) :
    let res' := Hash.copyChain fuel link (slotAfter (.bucket i) pre) res
    Seg res'.succ (res'.load (.bucket i)) (pre ++ rs.map copyOf) none ∧
      (∀ j, j ≠ i → res'.load (.bucket j) = res.load (.bucket j)) ∧
      (∀ r, r < res.brk → SameEntry (res.heap r) (res'.heap r)) ∧
      (∀ r, r < res.brk → r ∉ pre → res'.heap r = res.heap r) ∧
      (∀ r ∈ rs, SameEntry (old.heap r) (res'.heap (copyOf r))) ∧
      res'.brk = res.brk + rs.length ∧ res.SameFields res' := by
  induction rs generalizing fuel link pre res m with
  | nil =>
    obtain rfl : link = none := hseg
    have hstore : Hash.copyChain fuel none (slotAfter (.bucket i) pre) res =
        res.store (slotAfter (.bucket i) pre) none := by cases fuel <;> rfl
    obtain ⟨hseg', hother, houter, hlength⟩ := store_slotAfter (v := none) hi hpre hnodup
    obtain ⟨hmax, hbrk, hfree, hcount, hfunc⟩ := store_frame res (slotAfter (.bucket i) pre) none
    have hdata := store_data res (slotAfter (.bucket i) pre) none
    rw [hstore]
    refine ⟨by simpa using hseg', hother, fun r _ => hdata r, fun r _ hr => ?_, by simp, hbrk,
      ⟨hlength, hmax, hcount, hfree, hfunc⟩⟩
    exact SameEntry.eq (hdata r) (houter r hr)
  | cons r rs ih =>
    obtain ⟨rfl, hrest⟩ := hseg
    rw [List.map_cons, List.length_cons, List.range'_succ] at hcopy
    obtain ⟨hr, hcopy⟩ := List.cons.inj hcopy
    cases fuel with
    | zero => simp at hfuel
    | succ fuel =>
      rw [List.length_cons] at hfuel
      have hbelow := hrs r (List.mem_cons_self ..)
      set slot := slotAfter (.bucket i) pre with hslot
      obtain ⟨hseg₁, hother, houter, hlength⟩ :=
        store_slotAfter (v := some res.brk) hi hpre hnodup
      obtain ⟨hmax, -, hfree, hcount, hfunc⟩ := store_frame res slot (some res.brk)
      have hdata := store_data res slot (some res.brk)
      rw [← hslot] at hseg₁ hother houter hlength
      set ht₁ := res.store slot (some res.brk) with hht₁
      set e := ht₁.heap r with he
      set ht₂ : Hash V := Hash.setEntry { ht₁ with brk := res.brk + 1 } res.brk
        { ht₁.heap res.brk with hash := e.hash, key := e.key, val := e.val } with hht₂
      have hheap₂ : ∀ s, s ≠ res.brk → ht₂.heap s = ht₁.heap s :=
        fun s hs => Function.update_of_ne hs _ _
      have hsucc₂ : ht₂.succ = ht₁.succ := by
        rw [hht₂, succ_setEntry]
        exact Function.update_eq_self _ _
      have hnotpre : res.brk ∉ pre := fun h => Nat.lt_irrefl _ (hfresh _ h).2
      -- an entry of the original
      have hkeep : ∀ s, s < old.brk → ht₂.heap s = old.heap s := by
        intro s hs
        have hbrk := hold.1
        rw [hheap₂ s (by omega), ← hold.2 s hs]
        exact SameEntry.eq (hdata s) (houter s fun h => by
          have hfreshS := hfresh s h
          omega)
      have hnext : (ht₂.heap r).next = old.succ r := by
        rw [hkeep r hbelow]
        rfl
      have hstep : Hash.copyChain (fuel + 1) (some r) slot res =
          Hash.copyChain fuel (old.succ r) (slotAfter (.bucket i) (pre ++ [res.brk])) ht₂ := by
        have hlast : slotAfter (.bucket i) (pre ++ [res.brk]) = .next res.brk := by
          simp [slotAfter]
        rw [hlast, ← hnext]
        rfl
      have hpre₂ : Seg ht₂.succ (ht₂.load (.bucket i)) (pre ++ [res.brk])
          (ht₂.succ res.brk) := by
        rw [hsucc₂]
        exact seg_append.mpr ⟨some res.brk, hseg₁, rfl, rfl⟩
      have hfresh₂ : ∀ s ∈ pre ++ [res.brk], old.brk ≤ s ∧ s < ht₂.brk := by
        intro s hs
        change old.brk ≤ s ∧ s < res.brk + 1
        rcases List.mem_append.mp hs with hs | hs
        · have hfreshS := hfresh s hs
          omega
        · rw [List.mem_singleton.mp hs]
          exact ⟨hold.1, Nat.lt_succ_self _⟩
      obtain ⟨hseg', hother', hdata', houter', hcopied, hbrk', hfields⟩ := ih fuel hrest
        (by omega) (fun s hs => hrs s (List.mem_cons_of_mem _ hs)) hcopy
        ⟨hold.1.trans (Nat.le_succ _), hkeep⟩ (by rw [hht₂, array_setEntry, hlength]; exact hi)
        hpre₂ (by simpa using hnodup.concat hnotpre) hfresh₂
      have hlt : ∀ s, s < res.brk → s < ht₂.brk := fun s hs => Nat.lt_succ_of_lt hs
      have hsame : ∀ s, s < res.brk → SameEntry (res.heap s) (ht₂.heap s) := by
        intro s hs
        rw [hheap₂ s (Nat.ne_of_lt hs)]
        exact hdata s
      rw [hstep]
      refine ⟨by simpa [hr] using hseg', fun j hj => (hother' j hj).trans (hother j hj),
        fun s hs => ?_, fun s hs hnot => ?_, fun s hs => ?_, ?_, ?_⟩
      · have hfirst := hsame s hs
        have hsecond := hdata' s (hlt s hs)
        exact ⟨hsecond.1.trans hfirst.1, hsecond.2.1.trans hfirst.2.1,
          hsecond.2.2.trans hfirst.2.2⟩
      · have hnot₂ : s ∉ pre ++ [res.brk] := by
          simp [hnot, Nat.ne_of_lt hs]
        rw [houter' s (hlt s hs) hnot₂, hheap₂ s (Nat.ne_of_lt hs)]
        exact SameEntry.eq (hdata s) (houter s hnot)
      · obtain rfl | hs := List.mem_cons.mp hs
        · have hsecond := hdata' res.brk (Nat.lt_succ_self _)
          have hentry : ht₂.heap res.brk =
              { ht₁.heap res.brk with hash := e.hash, key := e.key, val := e.val } :=
            Function.update_self ..
          rw [hentry] at hsecond
          have hold₁ : e = old.heap s := by
            rw [he, ← hheap₂ s (by have hbrk := hold.1; omega)]
            exact hkeep s hbelow
          rw [hold₁] at hsecond
          rw [hr]
          exact hsecond
        · exact hcopied s hs
      · rw [hbrk', List.length_cons]
        change res.brk + 1 + rs.length = _
        omega
      · have hfirst : res.SameFields ht₂ := ⟨hlength, hmax, hcount, hfree, hfunc⟩
        exact hfirst.trans hfields

lemma copyChains_spec {buckets : ℕ → List ℕ} {frees : List ℕ} {live : Finset ℕ}
    (L : Layout old buckets frees live) (copyOf : ℕ → ℕ) {ks : List ℕ} (hks : ∀ k ∈ ks, k ≤ old.max)
    (hnodup : ks.Nodup) (hsize : res.array.length = old.max + 1) (hold : old.Extends res)
    (hcopy : (ks.flatMap buckets).map copyOf =
      List.range' res.brk (ks.flatMap buckets).length) :
    let res' := ks.foldl (fun ht i =>
      Hash.copyChain (old.brk + 1) (old.array.getD i none) (.bucket i) ht) res
    (∀ k ∈ ks, Seg res'.succ (res'.load (.bucket k)) ((buckets k).map copyOf) none) ∧
      (∀ j, j ∉ ks → res'.load (.bucket j) = res.load (.bucket j)) ∧
      (∀ r, r < res.brk → res'.heap r = res.heap r) ∧
      (∀ r ∈ ks.flatMap buckets, SameEntry (old.heap r) (res'.heap (copyOf r))) ∧
      res'.brk = res.brk + (ks.flatMap buckets).length ∧ res.SameFields res' := by
  induction ks generalizing res with
  | nil => exact ⟨by simp, by simp, fun _ _ => rfl, by simp, rfl, rfl, rfl, rfl, rfl, rfl⟩
  | cons k ks ih =>
    obtain ⟨hnot, hnodup⟩ := List.nodup_cons.mp hnodup
    have hk := hks k (List.mem_cons_self ..)
    rw [List.flatMap_cons, List.map_append, List.length_append, ← List.range'_append_1] at hcopy
    obtain ⟨hfirst, hlater⟩ := List.append_inj hcopy (by simp)
    have hpre : Seg res.succ (res.load (.bucket k)) [] (res.load (.bucket k)) := rfl
    have hindex : k < res.array.length := by omega
    have hchain : Seg old.succ (old.array.getD k none) (buckets k) none := L.chain k hk
    obtain ⟨hseg, hother, -, hframe, hcopied, hbrk, hfields⟩ :=
      copyChain_spec copyOf (old.brk + 1) hchain
        ((L.bucket_length_le hk).trans (Nat.le_succ _))
        (fun r hr => L.allocated r (.inl ((L.mem k hk r).mp hr).1)) hfirst hold hindex hpre
        List.nodup_nil (by simp)
    rw [slotAfter_nil, List.nil_append] at hseg
    rw [slotAfter_nil] at hother hframe hcopied hbrk hfields
    set res₁ := Hash.copyChain (old.brk + 1) (old.array.getD k none) (.bucket k) res with hres₁
    have hframe₁ : ∀ r, r < res.brk → res₁.heap r = res.heap r :=
      fun r hr => hframe r hr (List.not_mem_nil)
    have hbrkLe : res.brk ≤ res₁.brk := by omega
    have hold₁ : old.Extends res₁ := by
      refine ⟨hold.1.trans hbrkLe, fun r hr => ?_⟩
      rw [hframe₁ r (hr.trans_le hold.1)]
      exact hold.2 r hr
    have hlater₁ : (ks.flatMap buckets).map copyOf =
        List.range' res₁.brk (ks.flatMap buckets).length := by
      rw [hlater, hbrk]
    obtain ⟨hseg', hother', hframe', hcopied', hbrk', hfields'⟩ := ih
      (fun j hj => hks j (List.mem_cons_of_mem _ hj)) hnodup (hfields.size.trans hsize) hold₁
      hlater₁
    -- the addresses of the first chain are below the later ones
    have hmem : ∀ r ∈ (buckets k).map copyOf, r < res₁.brk := by
      intro r hr
      rw [hfirst] at hr
      obtain ⟨t, ht, rfl⟩ := List.mem_range'.mp hr
      omega
    rw [List.foldl_cons]
    refine ⟨fun j hj => ?_, fun j hj => ?_, fun r hr => ?_, fun r hr => ?_, ?_,
      hfields.trans hfields'⟩
    · obtain rfl | hj := List.mem_cons.mp hj
      · rw [hother' j hnot]
        refine Seg.congr hseg fun r hr => ?_
        rw [Hash.succ, Hash.succ, hframe' r (hmem r hr)]
      · exact hseg' j hj
    · rw [hother' j (fun h => hj (List.mem_cons_of_mem _ h))]
      exact hother j fun h => hj (h ▸ List.mem_cons_self ..)
    · rw [hframe' r (hr.trans_le hbrkLe)]
      exact hframe₁ r hr
    · rw [List.flatMap_cons] at hr
      rcases List.mem_append.mp hr with hr | hr
      · rw [hframe' _ (hmem _ (List.mem_map_of_mem hr))]
        exact hcopied r hr
      · exact hcopied' r hr
    · rw [hbrk', hbrk, List.flatMap_cons, List.length_append, Nat.add_assoc]

end Copy

/-- The addresses of the copies, in the order of an iteration. -/
def copyOf (old : Hash V) (buckets : ℕ → List ℕ) (r : ℕ) : ℕ :=
  old.brk + (chainsFrom buckets old.max 0).idxOf r

lemma map_copyOf {old : Hash V} {buckets : ℕ → List ℕ} {frees : List ℕ} {live : Finset ℕ}
    (L : Layout old buckets frees live) :
    (chainsFrom buckets old.max 0).map (copyOf old buckets) =
      List.range' old.brk (chainsFrom buckets old.max 0).length := by
  apply List.ext_getElem (by simp)
  intro t ht _
  rw [List.length_map] at ht
  rw [List.getElem_map, List.getElem_range', copyOf, List.Nodup.idxOf_getElem L.nodup_chains t ht]
  omega

/-- The copy has the entries of the table, as many as it allocates, and leaves the memory of the
table as it is. -/
lemma Represents.copy {ht : Hash V} {m : List UInt8 → Option (Option V)} (h : Represents ht m) :
    Represents (hashCopy ht) m ∧ hashCount (hashCopy ht) = hashCount ht ∧
      (∀ r, r < ht.brk → (hashCopy ht).heap r = ht.heap r) ∧
      (hashCopy ht).brk = ht.brk + hashCount ht ∧ (hashCopy ht).hashFunc = ht.hashFunc := by
  obtain ⟨buckets, frees, live, L, hm⟩ := h
  set ks := List.range (ht.max + 1) with hks
  have hall : ks.flatMap buckets = chainsFrom buckets ht.max 0 := (chainsFrom_zero _ _).symm
  have hsize : (hashAllocArray ht.max).length = ht.max + 1 := List.length_replicate
  have hcopy : (ks.flatMap buckets).map (copyOf ht buckets) =
      List.range' ht.brk (ks.flatMap buckets).length := by
    rw [hall]
    exact map_copyOf L
  have hks' : ∀ k ∈ ks, k ≤ ht.max := fun k hk => Nat.lt_succ_iff.mp (List.mem_range.mp hk)
  have hstart : ht.Extends { ht with array := hashAllocArray ht.max, free := none } :=
    ⟨le_rfl, fun _ _ => rfl⟩
  obtain ⟨hseg, -, hframe, hcopied, hbrk, hfields⟩ :=
    copyChains_spec L (copyOf ht buckets) hks' List.nodup_range hsize hstart hcopy
  change ∀ k ∈ ks, Seg (hashCopy ht).succ ((hashCopy ht).load (.bucket k)) _ none at hseg
  change ∀ r, r < ht.brk → (hashCopy ht).heap r = ht.heap r at hframe
  change ∀ r ∈ ks.flatMap buckets, SameEntry _ ((hashCopy ht).heap _) at hcopied
  change (hashCopy ht).brk = ht.brk + _ at hbrk
  have hmax : (hashCopy ht).max = ht.max := hfields.max
  have hcount : (hashCopy ht).count = ht.count := hfields.count
  have hfunc : (hashCopy ht).hashFunc = ht.hashFunc := hfields.hashFunc
  have hlive : ∀ r ∈ live, r ∈ chainsFrom buckets ht.max 0 := fun r hr => L.mem_chains.mpr hr
  have hentry : ∀ r ∈ live, SameEntry (ht.heap r) ((hashCopy ht).heap (copyOf ht buckets r)) :=
    fun r hr => hcopied r (hall ▸ hlive r hr)
  have hinj : ∀ r ∈ live, ∀ s ∈ live, copyOf ht buckets r = copyOf ht buckets s → r = s := by
    intro r hr s hs hsame
    exact (List.idxOf_inj (hlive r hr)).mp (Nat.add_left_cancel hsame)
  have hbucket : ∀ k ≤ ht.max, ∀ r ∈ buckets k, r ∈ live :=
    fun k hk r hr => ((L.mem k hk r).mp hr).1
  have hmem : ∀ s, s ∈ live.image (copyOf ht buckets) ↔ ∃ r ∈ live, copyOf ht buckets r = s :=
    fun s => Finset.mem_image
  refine ⟨⟨fun k => (buckets k).map (copyOf ht buckets), [], live.image (copyOf ht buckets), ?_,
    ?_⟩, hcount, hframe, ?_, hfunc⟩
  · exact
      { size := by
          rw [hmax]
          exact hfields.size.trans hsize
        chain := fun k hk => hseg k (List.mem_range.mpr (by omega))
        nodup := by
          intro k hk
          rw [hmax] at hk
          exact (L.nodup k hk).map_on fun r hr s hs =>
            hinj r (hbucket k hk r hr) s (hbucket k hk s hs)
        mem := by
          intro k hk s
          rw [hmax] at hk ⊢
          rw [List.mem_map, hmem]
          constructor
          · rintro ⟨r, hr, rfl⟩
            obtain ⟨hrlive, hhome⟩ := (L.mem k hk r).mp hr
            exact ⟨⟨r, hrlive, rfl⟩, by rw [(hentry r hrlive).1, hhome]⟩
          · rintro ⟨⟨r, hr, rfl⟩, hhome⟩
            rw [(hentry r hr).1] at hhome
            exact ⟨r, (L.mem k hk r).mpr ⟨hr, hhome⟩, rfl⟩
        freeChain := hfields.free
        freeNodup := List.nodup_nil
        disjoint := by simp
        allocated := by
          rintro s (hs | hs)
          · obtain ⟨r, hr, rfl⟩ := (hmem s).mp hs
            have hindex := List.idxOf_lt_length_iff.mpr (hlive r hr)
            rw [hbrk, hall, copyOf]
            omega
          · cases hs
        hashed := by
          intro s hs
          obtain ⟨r, hr, rfl⟩ := (hmem s).mp hs
          rw [(hentry r hr).1, (hentry r hr).2.1, L.hashed r hr, hashOf_congr hfunc]
        distinct := by
          intro s hs t ht' hkeys
          obtain ⟨r, hr, rfl⟩ := (hmem s).mp hs
          obtain ⟨q, hq, rfl⟩ := (hmem t).mp ht'
          rw [(hentry r hr).2.1, (hentry q hq).2.1] at hkeys
          rw [L.distinct r hr q hq hkeys]
        count := by
          rw [hcount, L.count, Finset.card_image_of_injOn]
          exact fun r hr s hs => hinj r hr s hs
        hashFunc := by
          rw [hfunc]
          exact L.hashFunc }
  · intro key val
    rw [hm key val]
    constructor
    · rintro ⟨r, hr, hkey, hval⟩
      exact ⟨_, (hmem _).mpr ⟨r, hr, rfl⟩, (hentry r hr).2.1.trans hkey,
        (hentry r hr).2.2.trans hval⟩
    · rintro ⟨s, hs, hkey, hval⟩
      obtain ⟨r, hr, rfl⟩ := (hmem s).mp hs
      exact ⟨r, hr, (hentry r hr).2.1.symm.trans hkey, (hentry r hr).2.2.symm.trans hval⟩
  · rw [hbrk, hall, L.card_chains, hashCount, L.count]

end Axis2C.HashTable
