import Axis2C.HashInvariant

/-!
# Insertion, replacement and deletion keep the hash table's layout

Each update changes one chain through the slot the scan returned. The other
chains and the free list keep their links because no entry is in two lists.
-/
namespace Axis2C.HashTable
open LinkedSegments

variable {V : Type*} {ht : Hash V} {buckets : ℕ → List ℕ} {frees : List ℕ} {live : Finset ℕ}

/-- A live entry is in the chain of its own index only. -/
theorem Layout.index_unique (L : Layout ht buckets frees live) {i j r : ℕ} (hi : i ≤ ht.max)
    (hj : j ≤ ht.max) (h1 : r ∈ buckets i) (h2 : r ∈ buckets j) : i = j := by
  rw [← ((L.mem i hi r).mp h1).2, ← ((L.mem j hj r).mp h2).2]

theorem Layout.not_mem_of_free (L : Layout ht buckets frees live) {i r : ℕ} (hi : i ≤ ht.max)
    (hr : r ∈ frees) : r ∉ buckets i := fun h => L.disjoint r hr ((L.mem i hi r).mp h).1

/-- The entry handed out for an insertion is in no list. -/
theorem Layout.takeEntry_spec (L : Layout ht buckets frees live) :
    ∃ frees', (∀ r, r ∈ frees' → r ∈ frees) ∧ frees'.Nodup ∧
      Seg ht.succ ht.takeEntry.2.free frees' none ∧ ht.takeEntry.1 ∉ frees' ∧
      ht.takeEntry.1 ∉ live ∧ ht.takeEntry.1 < ht.takeEntry.2.brk ∧
      ht.brk ≤ ht.takeEntry.2.brk := by
  cases hfree : ht.free with
  | none =>
    refine ⟨frees, fun r hr => hr, L.freeNodup, ?_, ?_, ?_, ?_, ?_⟩
    · simpa [Hash.takeEntry, hfree] using L.freeChain
    · intro h
      have := L.allocated _ (.inr h)
      simp [Hash.takeEntry, hfree] at this
    · intro h
      have := L.allocated _ (.inl h)
      simp [Hash.takeEntry, hfree] at this
    · simp [Hash.takeEntry, hfree]
    · simp [Hash.takeEntry, hfree]
  | some he =>
    have hchain := L.freeChain
    rw [hfree] at hchain
    cases hf : frees with
    | nil => rw [hf] at hchain; simp at hchain
    | cons r rs =>
      rw [hf] at hchain
      obtain ⟨hr, hrest⟩ := hchain
      obtain rfl : he = r := by simpa using hr
      have hnd := L.freeNodup
      rw [hf] at hnd
      obtain ⟨hnot, hnd'⟩ := List.nodup_cons.mp hnd
      have hmem : he ∈ frees := by rw [hf]; simp
      refine ⟨rs, fun r hr => by simp [hr], hnd', ?_, ?_, ?_, ?_, ?_⟩
      · simpa [Hash.takeEntry, hfree, Hash.succ] using hrest
      · simpa [Hash.takeEntry, hfree] using hnot
      · simpa [Hash.takeEntry, hfree] using L.disjoint he hmem
      · simpa [Hash.takeEntry, hfree] using L.allocated he (.inr hmem)
      · simp [Hash.takeEntry, hfree]

theorem takeEntry_frame (ht : Hash V) :
    ht.takeEntry.2.heap = ht.heap ∧ ht.takeEntry.2.array = ht.array ∧
      ht.takeEntry.2.max = ht.max ∧ ht.takeEntry.2.count = ht.count ∧
      ht.takeEntry.2.hashFunc = ht.hashFunc := by
  simp only [Hash.takeEntry]
  split <;> exact ⟨rfl, rfl, rfl, rfl, rfl⟩

/-- The three facts about chains after the chain at index `i` became `rs`. -/
theorem Layout.update_chain (L : Layout ht buckets frees live) (ht' : Hash V) (i : ℕ)
    (rs : List ℕ) (live' : Finset ℕ) (hmax : ht'.max = ht.max)
    (hchain : Seg ht'.succ (ht'.load (.bucket i)) rs none) (hnodup : rs.Nodup)
    (hload : ∀ j, j ≠ i → ht'.load (.bucket j) = ht.load (.bucket j))
    (hsucc : ∀ j ≤ ht.max, j ≠ i → ∀ r ∈ buckets j, ht'.succ r = ht.succ r)
    (hmem : ∀ r, r ∈ rs ↔ r ∈ live' ∧ (ht'.heap r).hash &&& ht.max = i)
    (hkeep : ∀ j ≤ ht.max, j ≠ i → ∀ r,
      r ∈ live ∧ (ht.heap r).hash &&& ht.max = j ↔ r ∈ live' ∧ (ht'.heap r).hash &&& ht.max = j) :
    ∀ j ≤ ht'.max,
      Seg ht'.succ (ht'.load (.bucket j)) (Function.update buckets i rs j) none ∧
      (Function.update buckets i rs j).Nodup ∧
      ∀ r, r ∈ Function.update buckets i rs j ↔ r ∈ live' ∧ (ht'.heap r).hash &&& ht'.max = j := by
  intro j hj
  rw [hmax] at hj ⊢
  by_cases hji : j = i
  · subst hji
    simp only [Function.update_self]
    exact ⟨hchain, hnodup, hmem⟩
  · simp only [Function.update_of_ne hji, hload j hji]
    refine ⟨(L.chain j hj).congr (hsucc j hj hji), L.nodup j hj, fun r => ?_⟩
    rw [L.mem j hj r, hkeep j hj hji r]

/-- What an insertion leaves of the fields a caller reads. -/
structure Added (ht ht' : Hash V) (live : Finset ℕ) (key : List UInt8) (val : Option V)
    (he : ℕ) : Prop where
  key_new : (ht'.heap he).key = key
  val_new : (ht'.heap he).val = val
  key_old : ∀ r ∈ live, (ht'.heap r).key = (ht.heap r).key
  val_old : ∀ r ∈ live, (ht'.heap r).val = (ht.heap r).val

/-- A new key: its entry is appended to the chain the key selects. -/
theorem Layout.addEntry (L : Layout ht buckets frees live) {key : List UInt8} (val : Option V)
    (hnew : ∀ r ∈ live, (ht.heap r).key ≠ key)
    (hslot : ht.slotOf key = slotAfter (.bucket (ht.home key)) (buckets (ht.home key))) :
    let ht' := ht.addEntry (ht.slotOf key) (ht.hashOf key) key val
    ∃ he buckets' frees', he ∉ live ∧ Layout ht' buckets' frees' (insert he live) ∧
      ht'.load (ht.slotOf key) = some he ∧ Added ht ht' live key val he := by
  obtain ⟨frees', hsub, hnd', hfree, hheFree, hheLive, hheBrk, hbrk⟩ := L.takeEntry_spec
  obtain ⟨hheap, harray, hmax, hcount, hfunc⟩ := takeEntry_frame ht
  set he := ht.takeEntry.1 with hhe
  set i := ht.home key with hidef
  have hi : i ≤ ht.max := Layout.home_le ht key
  have hnotBucket : ∀ j ≤ ht.max, he ∉ buckets j := fun j hj h => hheLive ((L.mem j hj he).mp h).1
  -- the entry is filled in while it is in no list
  let ht1 := ht.takeEntry.2.setEntry he ⟨none, ht.hashOf key, key, val⟩
  have hsucc1 : ht1.succ = Function.update ht.succ he none := by
    simp only [ht1, succ_setEntry]
    rw [show ht.takeEntry.2.succ = ht.succ from funext fun r => by simp [Hash.succ, hheap]]
  have hload1 : ∀ j, ht1.load (.bucket j) = ht.load (.bucket j) := by
    intro j; simp [ht1, Hash.load, harray]
  have hseg1 : Seg ht1.succ (ht1.load (.bucket i)) (buckets i) none := by
    rw [hsucc1, hload1]
    exact (L.chain i hi).update (hnotBucket i hi)
  have hsize1 : ht1.array.length = ht.max + 1 := by simp [ht1, harray, L.size]
  -- and then linked behind the last entry of its chain
  obtain ⟨hsegi, hother, houter, hlen⟩ :=
    store_slotAfter (v := some he) (by omega) hseg1 (L.nodup i hi)
  have hdata := store_data ht1 (slotAfter (.bucket i) (buckets i)) (some he)
  obtain ⟨hmax2, hbrk2, hfree2, hcount2, hfunc2⟩ :=
    store_frame ht1 (slotAfter (.bucket i) (buckets i)) (some he)
  simp only [Hash.addEntry, hslot]
  set ht2 := ht1.store (slotAfter (.bucket i) (buckets i)) (some he) with hht2
  have hkeep : ∀ r, r ≠ he → (ht2.heap r).hash = (ht.heap r).hash ∧
      (ht2.heap r).key = (ht.heap r).key ∧ (ht2.heap r).val = (ht.heap r).val := by
    intro r hr
    have h1 : ht1.heap r = ht.heap r := by simp [ht1, hheap, hr]
    rw [← h1]
    exact hdata r
  have hfresh : (ht2.heap he).hash = ht.hashOf key ∧ (ht2.heap he).key = key ∧
      (ht2.heap he).val = val := by
    have h := hdata he
    simpa [ht1] using h
  have hne : ∀ r ∈ live, r ≠ he := fun r hr h => hheLive (h ▸ hr)
  have hmax' : ht2.max = ht.max := hmax2.trans hmax
  have hsucche : ht2.succ he = none := by
    rw [houter he (hnotBucket i hi), hsucc1]; simp
  have hchains := L.update_chain { ht2 with count := ht2.count + 1 } i (buckets i ++ [he])
    (insert he live) hmax'
    (seg_append.mpr ⟨some he, hsegi, rfl, hsucche⟩)
    (by simpa using (L.nodup i hi).concat (hnotBucket i hi))
    (fun j hj => (hother j hj).trans (hload1 j))
    (fun j hj hji r hr => by
      change ht2.succ r = ht.succ r
      rw [houter r (fun h => hji (L.index_unique hj hi hr h)), hsucc1, Function.update_of_ne]
      exact fun h => hnotBucket j hj (h ▸ hr))
    (fun r => by
      change _ ↔ _ ∧ (ht2.heap r).hash &&& ht.max = i
      by_cases hr : r = he
      · subst hr
        have hhome : ht.hashOf key &&& ht.max = i := rfl
        simp [hfresh.1, hhome]
      · simp [(hkeep r hr).1, hr, L.mem i hi r])
    (fun j _ hji r => by
      change _ ↔ _ ∧ (ht2.heap r).hash &&& ht.max = j
      by_cases hr : r = he
      · subst hr
        have hhome : ht.hashOf key &&& ht.max ≠ j := Ne.symm hji
        simp [hfresh.1, hheLive, hhome]
      · simp [(hkeep r hr).1, hr])
  refine ⟨he, Function.update buckets i (buckets i ++ [he]), frees', hheLive, ?_,
    load_slotAfter ht2 hsegi, ⟨hfresh.2.1, hfresh.2.2, fun r hr => (hkeep r (hne r hr)).2.1,
      fun r hr => (hkeep r (hne r hr)).2.2⟩⟩
  exact
    { size := by
        change ht2.array.length = ht2.max + 1
        rw [hlen, hsize1, hmax']
      chain := fun j hj => (hchains j hj).1
      nodup := fun j hj => (hchains j hj).2.1
      mem := fun j hj => (hchains j hj).2.2
      freeChain := by
        change Seg ht2.succ ht2.free frees' none
        rw [hfree2]
        refine hfree.congr (fun r hr => ?_)
        rw [houter r (L.not_mem_of_free hi (hsub r hr)), hsucc1, Function.update_of_ne]
        exact fun h => hheFree (h ▸ hr)
      freeNodup := hnd'
      disjoint := by
        intro r hr h
        obtain rfl | h := Finset.mem_insert.mp h
        · exact hheFree hr
        · exact L.disjoint r (hsub r hr) h
      allocated := by
        intro r hr
        change r < ht2.brk
        rw [hbrk2]
        change r < ht.takeEntry.2.brk
        rcases hr with hr | hr
        · obtain rfl | hr := Finset.mem_insert.mp hr
          · exact hheBrk
          · exact (L.allocated r (.inl hr)).trans_le hbrk
        · exact (L.allocated r (.inr (hsub r hr))).trans_le hbrk
      hashed := by
        intro r hr
        change (ht2.heap r).hash = ht2.hashOf (ht2.heap r).key
        rw [hashOf_congr (hfunc2.trans hfunc)]
        obtain rfl | hr := Finset.mem_insert.mp hr
        · rw [hfresh.1, hfresh.2.1]
        · rw [(hkeep r (hne r hr)).1, (hkeep r (hne r hr)).2.1]
          exact L.hashed r hr
      distinct := by
        intro r hr s hs hkeys
        change (ht2.heap r).key = (ht2.heap s).key at hkeys
        rcases Finset.mem_insert.mp hr with rfl | hr <;>
          rcases Finset.mem_insert.mp hs with rfl | hs
        · rfl
        · rw [hfresh.2.1, (hkeep s (hne s hs)).2.1] at hkeys
          exact absurd hkeys.symm (hnew s hs)
        · rw [hfresh.2.1, (hkeep r (hne r hr)).2.1] at hkeys
          exact absurd hkeys (hnew r hr)
        · rw [(hkeep r (hne r hr)).2.1, (hkeep s (hne s hs)).2.1] at hkeys
          exact L.distinct r hr s hs hkeys
      count := by
        change ht2.count + 1 = _
        rw [hcount2, Finset.card_insert_of_notMem hheLive, ← L.count, ← hcount]
        rfl
      hashFunc := by
        change OfContent ht2.hashFunc
        rw [hfunc2.trans hfunc]
        exact L.hashFunc }

/-- Deletion: the entry leaves its chain and becomes the first recycled one. -/
theorem Layout.removeEntry (L : Layout ht buckets frees live) {key : List UInt8} {r : ℕ}
    {pre post : List ℕ} (hsplit : buckets (ht.home key) = pre ++ r :: post) (hr : r ∈ live)
    (hslot : ht.slotOf key = slotAfter (.bucket (ht.home key)) pre) :
    let ht' := ht.removeEntry (ht.slotOf key) r
    Layout ht' (Function.update buckets (ht.home key) (pre ++ post)) (r :: frees)
        (live.erase r) ∧
      ∀ s, (ht'.heap s).key = (ht.heap s).key ∧ (ht'.heap s).val = (ht.heap s).val := by
  set i := ht.home key with hidef
  have hi : i ≤ ht.max := Layout.home_le ht key
  have hseg := L.chain i hi
  have hnd := L.nodup i hi
  rw [hsplit] at hseg hnd
  obtain ⟨m, hpre, -, hpost⟩ := seg_append.mp hseg
  have hndpre : pre.Nodup := (List.nodup_append.mp hnd).1
  have hrpost : r ∉ post := (List.nodup_cons.mp (List.nodup_append.mp hnd).2.1).1
  have hrpre : r ∉ pre := fun h => List.disjoint_of_nodup_append hnd h (by simp)
  have hdisj : ∀ s ∈ post, s ∉ pre := fun s hs h =>
    List.disjoint_of_nodup_append hnd h (by simp [hs])
  have hpreBucket : ∀ s ∈ pre, s ∈ buckets i := fun s hs => by rw [hsplit]; simp [hs]
  have hrFree : r ∉ frees := fun h => L.disjoint r h hr
  have hhash : (ht.heap r).hash &&& ht.max = i :=
    ((L.mem i hi r).mp (by rw [hsplit]; simp)).2
  obtain ⟨hsegi, hother, houter, hlen⟩ :=
    store_slotAfter (v := ht.succ r) (by rw [L.size]; omega) hpre hndpre
  have hdata := store_data ht (slotAfter (.bucket i) pre) (ht.succ r)
  obtain ⟨hmax1, hbrk1, hfree1, hcount1, hfunc1⟩ :=
    store_frame ht (slotAfter (.bucket i) pre) (ht.succ r)
  simp only [Hash.removeEntry, hslot]
  change Layout
    { (ht.store (slotAfter (.bucket i) pre) (ht.succ r)).setEntry r _ with
      free := some r, count := _ } (Function.update buckets i (pre ++ post)) (r :: frees)
        (live.erase r) ∧ _
  set ht1 := ht.store (slotAfter (.bucket i) pre) (ht.succ r) with hht1
  set ht2 := ht1.setEntry r { ht1.heap r with next := ht1.free } with hht2
  have hsucc2 : ht2.succ = Function.update ht1.succ r ht.free := by
    simp [hht2, hfree1]
  have hkeep : ∀ s, (ht2.heap s).hash = (ht.heap s).hash ∧
      (ht2.heap s).key = (ht.heap s).key ∧ (ht2.heap s).val = (ht.heap s).val := by
    intro s
    have h := hdata s
    by_cases hs : s = r
    · subst hs; simpa [hht2] using h
    · simpa [hht2, hs] using h
  have hchains := L.update_chain { ht2 with free := some r, count := ht2.count - 1 } i
    (pre ++ post) (live.erase r) hmax1
    (by
      change Seg ht2.succ (ht1.load (.bucket i)) (pre ++ post) none
      rw [hsucc2]
      refine (seg_append.mpr ⟨ht.succ r, hsegi, hpost.congr fun s hs => ?_⟩).update ?_
      · exact houter s (hdisj s hs)
      · simp [hrpre, hrpost])
    ((List.nodup_middle.mp hnd).of_cons)
    (fun j hj => hother j hj)
    (fun j hj hji s hs => by
      change ht2.succ s = ht.succ s
      have hsr : s ≠ r := fun h => hji (by rw [← hhash, ← h, ((L.mem j hj s).mp hs).2])
      rw [hsucc2, Function.update_of_ne hsr,
        houter s (fun h => hji (L.index_unique hj hi hs (hpreBucket s h)))])
    (fun s => by
      change _ ↔ _ ∧ (ht2.heap s).hash &&& ht.max = i
      have h := L.mem i hi s
      rw [hsplit] at h
      rw [(hkeep s).1]
      by_cases hs : s = r
      · subst hs; simp [hrpre, hrpost]
      · simpa [hs] using h)
    (fun j _ hji s => by
      change _ ↔ _ ∧ (ht2.heap s).hash &&& ht.max = j
      rw [(hkeep s).1]
      by_cases hs : s = r
      · subst hs; simp [hhash, Ne.symm hji]
      · simp [hs])
  refine ⟨?_, fun s => (hkeep s).2⟩
  exact
    { size := by
        change ht1.array.length = ht1.max + 1
        rw [hlen, hmax1, L.size]
      chain := fun j hj => (hchains j hj).1
      nodup := fun j hj => (hchains j hj).2.1
      mem := fun j hj => (hchains j hj).2.2
      freeChain := by
        refine ⟨rfl, ?_⟩
        change Seg ht2.succ (ht2.succ r) frees none
        rw [hsucc2, Function.update_self]
        refine (L.freeChain.congr fun s hs => ?_).update hrFree
        exact houter s (fun h => L.not_mem_of_free hi hs (hpreBucket s h))
      freeNodup := List.nodup_cons.mpr ⟨hrFree, L.freeNodup⟩
      disjoint := by
        intro s hs h
        obtain rfl | hs := List.mem_cons.mp hs
        · simp at h
        · exact L.disjoint s hs (Finset.mem_of_mem_erase h)
      allocated := by
        intro s hs
        change s < ht1.brk
        rw [hbrk1]
        rcases hs with hs | hs
        · exact L.allocated s (.inl (Finset.mem_of_mem_erase hs))
        · obtain rfl | hs := List.mem_cons.mp hs
          · exact L.allocated s (.inl hr)
          · exact L.allocated s (.inr hs)
      hashed := by
        intro s hs
        change (ht2.heap s).hash = ht2.hashOf (ht2.heap s).key
        rw [hashOf_congr (show ht2.hashFunc = ht.hashFunc from hfunc1)]
        rw [(hkeep s).1, (hkeep s).2.1]
        exact L.hashed s (Finset.mem_of_mem_erase hs)
      distinct := by
        intro s hs t ht' hkeys
        change (ht2.heap s).key = (ht2.heap t).key at hkeys
        rw [(hkeep s).2.1, (hkeep t).2.1] at hkeys
        exact L.distinct s (Finset.mem_of_mem_erase hs) t (Finset.mem_of_mem_erase ht') hkeys
      count := by
        change ht1.count - 1 = _
        rw [hcount1, L.count, Finset.card_erase_of_mem hr]
      hashFunc := by
        change OfContent ht1.hashFunc
        rw [hfunc1]
        exact L.hashFunc }

/-- Replacing a value moves nothing. -/
theorem Layout.setVal (L : Layout ht buckets frees live) (r : ℕ) (v : Option V) :
    Layout (ht.setEntry r { ht.heap r with val := v }) buckets frees live := by
  have hsucc : (ht.setEntry r { ht.heap r with val := v }).succ = ht.succ := by
    rw [succ_setEntry]
    exact Function.update_eq_self r ht.succ
  have hkeep : ∀ s, ((ht.setEntry r { ht.heap r with val := v }).heap s).hash =
      (ht.heap s).hash ∧ ((ht.setEntry r { ht.heap r with val := v }).heap s).key =
      (ht.heap s).key := by
    intro s
    by_cases hs : s = r
    · subst hs; simp
    · simp [hs]
  exact
    { size := L.size
      chain := fun i hi => by rw [hsucc]; exact L.chain i hi
      nodup := L.nodup
      mem := fun i hi s => by rw [(hkeep s).1]; exact L.mem i hi s
      freeChain := by rw [hsucc]; exact L.freeChain
      freeNodup := L.freeNodup
      disjoint := L.disjoint
      allocated := L.allocated
      hashed := fun s hs => by rw [(hkeep s).1, (hkeep s).2]; exact L.hashed s hs
      distinct := fun s hs t ht' h => by
        rw [(hkeep s).2, (hkeep t).2] at h
        exact L.distinct s hs t ht' h
      count := L.count
      hashFunc := L.hashFunc }

end Axis2C.HashTable
