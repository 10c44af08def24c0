import Axis2C.HashTable

/-!
# The representation invariant of the hash table

The ghost data of a table are the entries of each chain, the recycled entries
and the set of live ones. Chains are disjoint because every live entry stands in
the chain its hash selects. A rehash visits the live entries once, in iteration
order, while it moves them: the iterator holds the link it will need next, and
the entry being moved is never ahead of it.
-/
namespace Axis2C.HashTable
open LinkedSegments

variable {V : Type*}

/-- The successor function of the heap. -/
def Hash.succ (ht : Hash V) (r : ℕ) : Option ℕ := (ht.heap r).next

section

variable (ht : Hash V) (r : ℕ) (he : Entry V)

include ht r he

@[simp] theorem succ_setEntry : (ht.setEntry r he).succ = Function.update ht.succ r he.next := by
  funext s
  by_cases h : s = r
  · subst h; simp [Hash.succ, Hash.setEntry]
  · simp [Hash.succ, Hash.setEntry, h]

@[simp] theorem heap_setEntry : (ht.setEntry r he).heap = Function.update ht.heap r he := rfl

@[simp] theorem array_setEntry : (ht.setEntry r he).array = ht.array := rfl

@[simp] theorem max_setEntry : (ht.setEntry r he).max = ht.max := rfl

end

def Hash.hashOf (ht : Hash V) (key : List UInt8) : ℕ := (ht.hashFunc (.sized key)).1

lemma hashOf_congr {ht ht' : Hash V} (h : ht'.hashFunc = ht.hashFunc) : ht'.hashOf = ht.hashOf := by
  funext key
  rw [Hash.hashOf, Hash.hashOf, h]

/-- What the interface asks of a hash function: the hash is one of the bytes of the key, and the
length of a string is computed. -/
def OfContent (hashFunc : KeyArg → ℕ × List UInt8) : Prop :=
  ∀ k, hashFunc k = ((hashFunc (.sized k.content)).1, k.content)

lemma ofContent_default : OfContent hashfuncDefault := fun _ => rfl

/-- Ghost description of a table from `axutil_hash_make` or `axutil_hash_make_custom`. -/
structure Layout (ht : Hash V) (buckets : ℕ → List ℕ) (frees : List ℕ) (live : Finset ℕ) :
    Prop where
  size : ht.array.length = ht.max + 1
  chain : ∀ i ≤ ht.max, Seg ht.succ (ht.load (.bucket i)) (buckets i) none
  nodup : ∀ i ≤ ht.max, (buckets i).Nodup
  mem : ∀ i ≤ ht.max, ∀ r, r ∈ buckets i ↔ r ∈ live ∧ (ht.heap r).hash &&& ht.max = i
  freeChain : Seg ht.succ ht.free frees none
  freeNodup : frees.Nodup
  disjoint : ∀ r ∈ frees, r ∉ live
  allocated : ∀ r, r ∈ live ∨ r ∈ frees → r < ht.brk
  hashed : ∀ r ∈ live, (ht.heap r).hash = ht.hashOf (ht.heap r).key
  distinct : ∀ r ∈ live, ∀ s ∈ live, (ht.heap r).key = (ht.heap s).key → r = s
  count : ht.count = live.card
  hashFunc : OfContent ht.hashFunc

theorem layout_hashMakeCustom {hashFunc : KeyArg → ℕ × List UInt8} (h : OfContent hashFunc) :
    Layout (hashMakeCustom hashFunc : Hash V) (fun _ => []) [] ∅ where
  size := rfl
  chain := by
    intro i hi
    have hlt : i < initialMax + 1 := Nat.lt_succ_of_le hi
    simp [Hash.load, hashMakeCustom, hashMake, hashAllocArray, hlt]
  nodup := by simp
  mem := by simp
  freeChain := rfl
  freeNodup := List.nodup_nil
  disjoint := by simp
  allocated := by simp
  hashed := by simp
  distinct := by simp
  count := rfl
  hashFunc := h

section Scan

variable (ht : Hash V) (hash : ℕ) (key : List UInt8)

/-- The comparison of the scan. -/
def Hash.Hit (r : ℕ) : Prop := (ht.heap r).hash = hash ∧ (ht.heap r).key = key

def slotAfter (s : Slot) (passed : List ℕ) : Slot :=
  match passed.getLast? with
  | none => s
  | some r => .next r

@[simp] theorem slotAfter_nil (s : Slot) : slotAfter s [] = s := rfl

@[simp] theorem slotAfter_cons (s : Slot) (r : ℕ) (rs : List ℕ) :
    slotAfter s (r :: rs) = slotAfter (.next r) rs := by
  cases rs with
  | nil => rfl
  | cons a rs => simp [slotAfter, List.getLast?_cons]

theorem load_slotAfter {s : Slot} {passed : List ℕ} {m : Option ℕ}
    (h : Seg ht.succ (ht.load s) passed m) : ht.load (slotAfter s passed) = m := by
  induction passed generalizing s with
  | nil => exact h
  | cons r rs ih =>
    rw [slotAfter_cons]
    exact ih h.2

/-- The scan stops at the first hit, or behind the whole list. -/
theorem scan_spec (fuel : ℕ) (s : Slot) (rs : List ℕ)
    (hseg : Seg ht.succ (ht.load s) rs none) (hfuel : rs.length < fuel) :
    (∃ pre r post, rs = pre ++ r :: post ∧ ht.Hit hash key r ∧
      ht.scan hash key fuel s = slotAfter s pre) ∨
    (∀ r ∈ rs, ¬ ht.Hit hash key r) ∧ ht.scan hash key fuel s = slotAfter s rs := by
  induction fuel generalizing s rs with
  | zero => omega
  | succ fuel ih =>
    cases rs with
    | nil =>
      right
      have hnone : ht.load s = none := hseg
      simp [Hash.scan, hnone]
    | cons r rs =>
      obtain ⟨hr, hrest⟩ := hseg
      by_cases hit : (ht.heap r).hash = hash ∧ (ht.heap r).key = key
      · left
        exact ⟨[], r, rs, rfl, hit, by simp [Hash.scan, hr, hit]⟩
      · have hstep : ht.scan hash key (fuel + 1) s = ht.scan hash key fuel (.next r) := by
          simp only [Hash.scan, hr, if_neg hit]
        have hlen : rs.length < fuel := by simp only [List.length_cons] at hfuel; omega
        obtain ⟨pre, r', post, rfl, hr', hscan⟩ | ⟨hnone, hscan⟩ := ih (.next r) rs hrest hlen
        · left
          exact ⟨r :: pre, r', post, rfl, hr', by rw [hstep, hscan, slotAfter_cons]⟩
        · right
          refine ⟨?_, by rw [hstep, hscan, slotAfter_cons]⟩
          intro a ha
          obtain rfl | ha := List.mem_cons.mp ha
          · exact hit
          · exact hnone a ha

end Scan

/-- Storing through the slot behind `passed` redirects that list and no other. -/
theorem store_slotAfter {ht : Hash V} {i : ℕ} {passed : List ℕ} {m v : Option ℕ}
    (hi : i < ht.array.length) (hseg : Seg ht.succ (ht.load (.bucket i)) passed m)
    (hnd : passed.Nodup) :
    let ht' := ht.store (slotAfter (.bucket i) passed) v
    Seg ht'.succ (ht'.load (.bucket i)) passed v ∧
      (∀ j, j ≠ i → ht'.load (.bucket j) = ht.load (.bucket j)) ∧
      (∀ r, r ∉ passed → ht'.succ r = ht.succ r) ∧ ht'.array.length = ht.array.length := by
  obtain rfl | ⟨rs, c, rfl⟩ := List.eq_nil_or_concat passed
  · simp only [slotAfter_nil, Hash.store]
    refine ⟨by simp [Hash.load, hi], ?_, fun r _ => rfl, by simp⟩
    intro j hj
    simp [Hash.load, Ne.symm hj]
  · have hc : c ∉ rs := by
      rw [List.concat_eq_append] at hnd
      intro h
      exact (List.disjoint_of_nodup_append hnd) h (by simp)
    simp only [List.concat_eq_append] at hseg ⊢
    have hslot : slotAfter (.bucket i) (rs ++ [c]) = .next c := by simp [slotAfter]
    simp only [hslot, Hash.store]
    refine ⟨?_, fun j _ => rfl, ?_, rfl⟩
    · have h := hseg.redirect (v := v) hc
      simpa [Hash.load] using h
    · intro r hr
      have hne : r ≠ c := by
        rintro rfl
        exact hr (by simp)
      simp [hne]

/-- A store through a slot touches links only. -/
theorem store_data (ht : Hash V) (s : Slot) (v : Option ℕ) (r : ℕ) :
    ((ht.store s v).heap r).hash = (ht.heap r).hash ∧
      ((ht.store s v).heap r).key = (ht.heap r).key ∧
      ((ht.store s v).heap r).val = (ht.heap r).val := by
  cases s with
  | bucket i => exact ⟨rfl, rfl, rfl⟩
  | next c =>
    by_cases h : r = c
    · subst h; simp [Hash.store]
    · simp [Hash.store, h]

theorem store_frame (ht : Hash V) (s : Slot) (v : Option ℕ) :
    (ht.store s v).max = ht.max ∧ (ht.store s v).brk = ht.brk ∧ (ht.store s v).free = ht.free ∧
      (ht.store s v).count = ht.count ∧ (ht.store s v).hashFunc = ht.hashFunc := by
  cases s <;> exact ⟨rfl, rfl, rfl, rfl, rfl⟩

section Lookup

variable {ht : Hash V} {buckets : ℕ → List ℕ} {frees : List ℕ} {live : Finset ℕ}

theorem Layout.bucket_length_le (L : Layout ht buckets frees live) {i : ℕ} (hi : i ≤ ht.max) :
    (buckets i).length ≤ ht.brk := by
  have hsub : buckets i ⊆ List.range ht.brk := by
    intro r hr
    exact List.mem_range.mpr (L.allocated r (.inl ((L.mem i hi r).mp hr).1))
  simpa using (List.subperm_of_subset (L.nodup i hi) hsub).length_le

/-- The array index a key selects. -/
def Hash.home (ht : Hash V) (key : List UInt8) : ℕ := ht.hashOf key &&& ht.max

theorem Layout.home_le (ht : Hash V) (key : List UInt8) : ht.home key ≤ ht.max :=
  Nat.and_le_right

/-- A live entry with the searched key stands in the chain that is scanned. -/
theorem Layout.mem_home (L : Layout ht buckets frees live) {r : ℕ} (hr : r ∈ live) :
    r ∈ buckets (ht.home (ht.heap r).key) := by
  rw [L.mem _ (Layout.home_le ht _)]
  exact ⟨hr, by rw [L.hashed r hr]; rfl⟩

def Hash.slotOf (ht : Hash V) (key : List UInt8) : Slot :=
  ht.scan (ht.hashOf key) key (ht.brk + 1) (.bucket (ht.home key))

theorem Layout.slotOf_cases (L : Layout ht buckets frees live) (key : List UInt8) :
    (∃ pre r post, buckets (ht.home key) = pre ++ r :: post ∧ r ∈ live ∧
      (ht.heap r).key = key ∧ ht.slotOf key = slotAfter (.bucket (ht.home key)) pre ∧
      ht.load (ht.slotOf key) = some r) ∨
    (∀ r ∈ live, (ht.heap r).key ≠ key) ∧
      ht.slotOf key = slotAfter (.bucket (ht.home key)) (buckets (ht.home key)) ∧
      ht.load (ht.slotOf key) = none := by
  have hhome := Layout.home_le ht key
  have hseg := L.chain _ hhome
  have hlen := L.bucket_length_le hhome
  obtain ⟨pre, r, post, hsplit, hit, hscan⟩ | ⟨hnone, hscan⟩ :=
    scan_spec ht (ht.hashOf key) key (ht.brk + 1) (.bucket (ht.home key)) _ hseg (by omega)
  · left
    have hmem : r ∈ buckets (ht.home key) := by rw [hsplit]; simp
    refine ⟨pre, r, post, hsplit, ((L.mem _ hhome r).mp hmem).1, hit.2, hscan, ?_⟩
    rw [hsplit] at hseg
    obtain ⟨m, h1, h2⟩ := seg_append.mp hseg
    rw [Hash.slotOf, hscan, load_slotAfter ht h1, h2.1]
  · right
    refine ⟨?_, hscan, by rw [Hash.slotOf, hscan, load_slotAfter ht hseg]⟩
    intro r hr hkey
    have hmem : r ∈ buckets (ht.home key) := by
      have h := L.mem_home hr
      rwa [hkey] at h
    exact hnone r hmem ⟨by rw [L.hashed r hr, hkey], hkey⟩

theorem Layout.hashFindEntry_eq (L : Layout ht buckets frees live) (k : KeyArg) (val : Option V) :
    hashFindEntry ht k val =
      if (ht.load (ht.slotOf k.content)).isSome || val.isNone then (ht.slotOf k.content, ht)
      else (ht.slotOf k.content,
        ht.addEntry (ht.slotOf k.content) (ht.hashOf k.content) k.content val) := by
  simp only [hashFindEntry, L.hashFunc k]
  rfl

/-- The entries by key, each with the value it has. -/
def Maps (ht : Hash V) (live : Finset ℕ) (m : List UInt8 → Option (Option V)) : Prop :=
  ∀ key val, m key = some val ↔ ∃ r ∈ live, (ht.heap r).key = key ∧ (ht.heap r).val = val

/-- No entry has the key. -/
lemma Maps.none_of_absent {m : List UInt8 → Option (Option V)} (hm : Maps ht live m)
    {key : List UInt8} (hnone : ∀ r ∈ live, (ht.heap r).key ≠ key) : m key = none := by
  cases hmk : m key with
  | none => rfl
  | some val =>
    obtain ⟨r, hr, hkey, -⟩ := (hm key val).mp hmk
    exact absurd hkey (hnone r hr)

theorem Layout.hashGet_eq (L : Layout ht buckets frees live) {m : List UInt8 → Option (Option V)}
    (hm : Maps ht live m) (k : KeyArg) : hashGet ht k = (m k.content).join := by
  simp only [hashGet, L.hashFindEntry_eq, Option.isNone_none, Bool.or_true, if_true]
  obtain ⟨pre, r, post, -, hlive, hkey, -, hload⟩ | ⟨hnone, -, hload⟩ := L.slotOf_cases k.content
  · rw [hload, (hm k.content _).mpr ⟨r, hlive, hkey, rfl⟩]
    rfl
  · rw [hload, hm.none_of_absent hnone]
    rfl

end Lookup

end Axis2C.HashTable
