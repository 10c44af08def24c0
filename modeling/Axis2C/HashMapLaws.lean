import Axis2C.HashRehash

/-!
# The hash table as a finite map

Any run of `axutil_hash_set` on a table from `axutil_hash_make` keeps a layout
for the map that the calls describe. Lookup, count, iteration and the place of
each entry are then read off that layout.
-/
namespace Axis2C.HashTable

variable {V : Type*}

/-- The table has a layout with these entries, by key. -/
def Represents (ht : Hash V) (m : List UInt8 → Option (Option V)) : Prop :=
  ∃ buckets frees live, Layout ht buckets frees live ∧ Maps ht live m

lemma represents_hashMakeCustom {hashFunc : KeyArg → ℕ × List UInt8} (h : OfContent hashFunc) :
    Represents (hashMakeCustom hashFunc : Hash V) fun _ => none :=
  ⟨_, _, _, layout_hashMakeCustom h, by simp [Maps]⟩

lemma represents_hashMake : Represents (hashMake : Hash V) fun _ => none :=
  represents_hashMakeCustom ofContent_default

/-- Growing the array is invisible to the map. -/
lemma Represents.expand {ht : Hash V} {m : List UInt8 → Option (Option V)} (h : Represents ht m) :
    Represents (if ht.max < ht.count then hashExpandArray ht else ht) m := by
  obtain ⟨buckets, frees, live, L, hm⟩ := h
  by_cases hfull : ht.max < ht.count
  · rw [if_pos hfull]
    obtain ⟨⟨buckets', L'⟩, hdata⟩ := L.hashExpandArray
    refine ⟨buckets', frees, live, L', ?_⟩
    intro key val
    rw [hm key val]
    simp only [(hdata _).1, (hdata _).2]
  · rw [if_neg hfull]
    exact ⟨buckets, frees, live, L, hm⟩

section Update

variable {ht : Hash V} {live : Finset ℕ} {m : List UInt8 → Option (Option V)}

/-- A live entry under `key` fixes the map there. -/
lemma Maps.eq_val (hm : Maps ht live m) {r : ℕ} (hr : r ∈ live) :
    m (ht.heap r).key = some (ht.heap r).val :=
  (hm _ _).mpr ⟨r, hr, rfl, rfl⟩

lemma Maps.setVal (hm : Maps ht live m)
    (hdistinct : ∀ r ∈ live, ∀ s ∈ live, (ht.heap r).key = (ht.heap s).key → r = s) {r : ℕ}
    (hr : r ∈ live) (v : Option V) :
    Maps (ht.setEntry r { ht.heap r with val := v }) live
      (Function.update m (ht.heap r).key (some v)) := by
  intro key w
  have hkeys : ∀ s, ((ht.setEntry r { ht.heap r with val := v }).heap s).key =
      (ht.heap s).key := by
    intro s
    by_cases hs : s = r
    · subst hs; simp
    · simp [hs]
  by_cases hkey : key = (ht.heap r).key
  · subst hkey
    rw [Function.update_self]
    constructor
    · intro h
      exact ⟨r, hr, hkeys r, by simpa using h⟩
    · rintro ⟨s, hs, hsk, hsv⟩
      rw [hkeys] at hsk
      obtain rfl := hdistinct s hs r hr hsk
      simpa using hsv
  · rw [Function.update_of_ne hkey, hm key w]
    -- an entry under another key is not the one written
    have hother : ∀ s, (ht.heap s).key = key →
        ((ht.setEntry r { ht.heap r with val := v }).heap s).val = (ht.heap s).val := by
      intro s hs
      have hne : s ≠ r := by
        rintro rfl
        exact hkey hs.symm
      simp [hne]
    constructor
    · rintro ⟨s, hs, hsk, hsv⟩
      exact ⟨s, hs, by rw [hkeys, hsk], by rw [hother s hsk, hsv]⟩
    · rintro ⟨s, hs, hsk, hsv⟩
      rw [hkeys] at hsk
      exact ⟨s, hs, hsk, by rw [← hother s hsk, hsv]⟩

lemma Maps.insert {ht' : Hash V} {key : List UInt8} {v : Option V} {he : ℕ} (hm : Maps ht live m)
    (hnew : ∀ r ∈ live, (ht.heap r).key ≠ key) (hadd : Added ht ht' live key v he) :
    Maps ht' (insert he live) (Function.update m key (some v)) := by
  intro key' w
  by_cases hkey : key' = key
  · subst hkey
    rw [Function.update_self]
    constructor
    · intro h
      exact ⟨he, by simp, hadd.key_new, hadd.val_new.trans (Option.some.inj h)⟩
    · rintro ⟨s, hs, hsk, hsv⟩
      obtain rfl | hs := Finset.mem_insert.mp hs
      · exact congrArg some (hadd.val_new.symm.trans hsv)
      · exact absurd ((hadd.key_old s hs).symm.trans hsk) (hnew s hs)
  · rw [Function.update_of_ne hkey, hm key' w]
    constructor
    · rintro ⟨s, hs, hsk, hsv⟩
      exact ⟨s, by simp [hs], (hadd.key_old s hs).trans hsk, (hadd.val_old s hs).trans hsv⟩
    · rintro ⟨s, hs, hsk, hsv⟩
      obtain rfl | hs := Finset.mem_insert.mp hs
      · exact absurd (hadd.key_new.symm.trans hsk).symm hkey
      · exact ⟨s, hs, (hadd.key_old s hs).symm.trans hsk, (hadd.val_old s hs).symm.trans hsv⟩

lemma Maps.erase {ht' : Hash V} {r : ℕ} (hm : Maps ht live m)
    (hdistinct : ∀ r ∈ live, ∀ s ∈ live, (ht.heap r).key = (ht.heap s).key → r = s)
    (hr : r ∈ live)
    (hdata : ∀ s, (ht'.heap s).key = (ht.heap s).key ∧ (ht'.heap s).val = (ht.heap s).val) :
    Maps ht' (live.erase r) (Function.update m (ht.heap r).key none) := by
  intro key v
  simp only [(hdata _).1, (hdata _).2, Finset.mem_erase]
  by_cases hkey : key = (ht.heap r).key
  · subst hkey
    simp only [Function.update_self, reduceCtorEq, false_iff]
    rintro ⟨s, ⟨hne, hs⟩, hsk, -⟩
    exact hne (hdistinct s hs r hr hsk)
  · rw [Function.update_of_ne hkey, hm key v]
    constructor
    · rintro ⟨s, hs, hsk, hsv⟩
      refine ⟨s, ⟨?_, hs⟩, hsk, hsv⟩
      rintro rfl
      exact hkey hsk.symm
    · rintro ⟨s, ⟨-, hs⟩, hsk, hsv⟩
      exact ⟨s, hs, hsk, hsv⟩

end Update

/-- One `axutil_hash_set` is one update of the map. -/
theorem Represents.hashSet {ht : Hash V} {m : List UInt8 → Option (Option V)}
    (h : Represents ht m) (k : KeyArg) (val : Option V) :
    Represents (hashSet ht k val) (Function.update m k.content (val.map some)) := by
  obtain ⟨buckets, frees, live, L, hm⟩ := h
  unfold HashTable.hashSet
  rw [L.hashFindEntry_eq]
  obtain ⟨pre, r, post, hsplit, hr, hkey, hslot, hload⟩ | ⟨hnone, hslot, hload⟩ :=
    L.slotOf_cases k.content
  · simp only [hload, Option.isSome_some, Bool.true_or, if_true]
    cases val with
    | none =>
      -- delete entry
      obtain ⟨L', hdata⟩ := L.removeEntry hsplit hr hslot
      refine ⟨_, _, _, L', ?_⟩
      rw [← hkey] at hdata ⊢
      exact hm.erase L.distinct hr hdata
    | some v =>
      -- replace entry
      rw [← hkey]
      exact Represents.expand
        ⟨buckets, frees, live, L.setVal r (some v), hm.setVal L.distinct hr (some v)⟩
  · cases val with
    | none =>
      simp only [Option.isNone_none, Bool.or_true, if_true, hload, Option.map_none]
      rw [Function.update_eq_self_iff.mpr (hm.none_of_absent hnone).symm]
      exact ⟨buckets, frees, live, L, hm⟩
    | some v =>
      -- add entry, then the common tail stores the value once more
      obtain ⟨he, buckets', frees', -, L', hload', hadd⟩ := L.addEntry (some v) hnone hslot
      simp only [hload, Option.isSome_none, Option.isNone_some, Bool.or_self, Bool.false_eq_true,
        if_false, hload']
      have hmaps :=
        (hm.insert hnone hadd).setVal L'.distinct (Finset.mem_insert_self he live) (some v)
      rw [hadd.key_new, Function.update_idem] at hmaps
      exact Represents.expand ⟨buckets', frees', _, L'.setVal he (some v), hmaps⟩

/-- The table after a sequence of `axutil_hash_set` calls. -/
def hashRun (ops : List (KeyArg × Option V)) : Hash V :=
  ops.foldl (fun ht op => hashSet ht op.1 op.2) hashMake

def lastSet (ops : List (KeyArg × Option V)) : List UInt8 → Option V :=
  ops.foldl (fun m op => Function.update m op.1.content op.2) fun _ => none

/-- A run keeps the layout, whatever it deletes, recycles and rehashes. -/
theorem represents_hashRun (ops : List (KeyArg × Option V)) :
    Represents (hashRun ops) fun key => (lastSet ops key).map some := by
  induction ops using List.reverseRecOn with
  | nil => exact represents_hashMake
  | append_singleton ops op ih =>
    have hmap : Option.map some ∘ lastSet (ops ++ [op]) =
        Function.update (Option.map some ∘ lastSet ops) op.1.content (op.2.map some) := by
      rw [← Function.comp_update, lastSet, List.foldl_append]
      rfl
    have hset := ih.hashSet op.1 op.2
    rw [hashRun, List.foldl_append]
    change Represents _ (Option.map some ∘ lastSet (ops ++ [op]))
    rw [hmap]
    exact hset

section Observe

variable {ht : Hash V} {buckets : ℕ → List ℕ} {frees : List ℕ} {live : Finset ℕ}
  {m : List UInt8 → Option (Option V)}

section

variable (L : Layout ht buckets frees live)

include L

lemma Layout.nodup_keys : ((hashIterate ht).map Prod.fst).Nodup := by
  rw [L.hashIterate_eq, List.map_map]
  refine L.nodup_chains.map_on ?_
  intro r hr s hs h
  exact L.distinct r (L.mem_chains.mp hr) s (L.mem_chains.mp hs) h

lemma Layout.mem_iterate (hm : Maps ht live m) (key : List UInt8) (val : Option V) :
    (key, val) ∈ hashIterate ht ↔ m key = some val := by
  rw [L.hashIterate_eq]
  simp only [List.mem_map, Prod.mk.injEq, L.mem_chains]
  exact (hm key val).symm

lemma Layout.length_iterate : (hashIterate ht).length = hashCount ht := by
  rw [L.hashIterate_eq, List.length_map, L.card_chains, hashCount, L.count]

/-- The keys of an iteration are the support of the map. -/
lemma Layout.count_eq_ncard (hm : Maps ht live m) : hashCount ht = {key | m key ≠ none}.ncard := by
  classical
  have hset : {key | m key ≠ none} = ((hashIterate ht).map Prod.fst).toFinset := by
    ext key
    simp [L.mem_iterate hm, Option.ne_none_iff_exists']
  rw [hset, Set.ncard_coe_finset, List.toFinset_card_of_nodup L.nodup_keys, List.length_map,
    L.length_iterate]

end

end Observe

end Axis2C.HashTable
