import Axis2C.HashCopy

/-!
# Merging two hash tables

`axutil_hash_merge` makes a third table in the memory of the two it reads. The
entries of the base are pushed to the front of their new chains; an entry of the
overlay is looked for by its key alone in the chain its hash selects, which
holds entries of both tables. Everything written is newly allocated.
-/
namespace Axis2C.HashTable
open LinkedSegments

variable {V : Type*}

/-- Two tables in one memory. -/
structure Hash.SameMemory (ht ht' : Hash V) : Prop where
  heap : ht'.heap = ht.heap
  brk : ht'.brk = ht.brk

/-- `for (iter = array[k]; iter; iter = iter->next)`. -/
def Hash.eachInChain (body : Hash V → ℕ → Hash V) : ℕ → Option ℕ → Hash V → Hash V
  | fuel + 1, some iter, res =>
    let res := body res iter
    Hash.eachInChain body fuel (res.heap iter).next res
  | _, _, res => res

/-- `for (k = 0; k <= max; k++)` over the chains of `ht`. -/
def Hash.eachEntry (body : Hash V → ℕ → Hash V) (ht res : Hash V) : Hash V :=
  (List.range (ht.max + 1)).foldl
    (fun res k => Hash.eachInChain body (ht.brk + 1) (ht.array.getD k none) res) res

/-- A new entry with the data of `iter`, in front of its chain. -/
def Hash.pushCopy (res : Hash V) (iter : ℕ) : Hash V :=
  let e := res.heap iter
  let i := e.hash &&& res.max
  let newVals := res.brk
  { res with
    heap := Function.update res.heap newVals { e with next := res.array.getD i none }
    brk := res.brk + 1
    array := res.array.set i (some newVals) }

/-- `for (ent = res->array[i]; ent; ent = ent->next)` up to an entry with this key. -/
def Hash.findKey (res : Hash V) (key : List UInt8) : ℕ → Option ℕ → Option ℕ
  | fuel + 1, some ent =>
    if (res.heap ent).key = key then some ent else res.findKey key fuel (res.heap ent).next
  | _, _ => none

/-- The value for a key that both tables have. -/
def mergedVal (merger : Option (List UInt8 → Option V → Option V → Option V))
    (key : List UInt8) (h1Val h2Val : Option V) : Option V :=
  match merger with
  | some merger => merger key h1Val h2Val
  | none => h1Val

def Hash.mergeEntry (merger : Option (List UInt8 → Option V → Option V → Option V))
    (res : Hash V) (iter : ℕ) : Hash V :=
  let e := res.heap iter
  match res.findKey e.key (res.brk + 1) (res.array.getD (e.hash &&& res.max) none) with
  | some ent =>
    res.setEntry ent
      { res.heap ent with val := mergedVal merger e.key e.val (res.heap ent).val }
  | none => { res.pushCopy iter with count := res.count + 1 }

/-- The table before the loops, with the count of the base. -/
def mergeStart (overlay base : Hash V) : Hash V :=
  let max := if base.max < overlay.max then overlay.max else base.max
  let max := if max < base.count + overlay.count then max * 2 + 1 else max
  { heap := base.heap
    brk := base.brk
    array := hashAllocArray max
    count := base.count
    max := max
    hashFunc := base.hashFunc
    free := none }

def hashMerge (overlay base : Hash V)
    (merger : Option (List UInt8 → Option V → Option V → Option V)) : Hash V :=
  Hash.eachEntry (Hash.mergeEntry merger) overlay
    (Hash.eachEntry Hash.pushCopy base (mergeStart overlay base))

def merged (merger : Option (List UInt8 → Option V → Option V → Option V))
    (overlay base : List UInt8 → Option (Option V)) (key : List UInt8) : Option (Option V) :=
  match overlay key, base key with
  | some h1Val, some h2Val => some (mergedVal merger key h1Val h2Val)
  | some h1Val, none => some h1Val
  | none, b => b

/-! ### One entry -/

section Push

variable {ht : Hash V} {buckets : ℕ → List ℕ} {frees : List ℕ} {live : Finset ℕ}

/-- A table with one entry more, at the next address and in front of its chain. -/
def Hash.pushEntry (ht : Hash V) (e : Entry V) : Hash V :=
  { ht with
    heap := Function.update ht.heap ht.brk
      { e with next := ht.array.getD (e.hash &&& ht.max) none }
    brk := ht.brk + 1
    array := ht.array.set (e.hash &&& ht.max) (some ht.brk)
    count := ht.count + 1 }

theorem Layout.pushEntry (L : Layout ht buckets frees live) {e : Entry V}
    (hnew : ∀ r ∈ live, (ht.heap r).key ≠ e.key) (hhash : e.hash = ht.hashOf e.key) :
    (∃ buckets', Layout (ht.pushEntry e) buckets' frees (insert ht.brk live)) ∧
      Added ht (ht.pushEntry e) live e.key e.val ht.brk := by
  set i := e.hash &&& ht.max with hi
  have hile : i ≤ ht.max := Nat.and_le_right
  have hold : ∀ r, r < ht.brk → (ht.pushEntry e).heap r = ht.heap r := by
    intro r hr
    simp [Hash.pushEntry, Nat.ne_of_lt hr]
  have hlive : ∀ r ∈ live, r < ht.brk := fun r hr => L.allocated r (.inl hr)
  have hne : ∀ r ∈ live, r ≠ ht.brk := fun r hr => Nat.ne_of_lt (hlive r hr)
  have hbucket : ∀ j ≤ ht.max, ∀ r ∈ buckets j, r < ht.brk :=
    fun j hj r hr => hlive r ((L.mem j hj r).mp hr).1
  have hsucc : ∀ r, r < ht.brk → (ht.pushEntry e).succ r = ht.succ r := fun r hr => by
    rw [Hash.succ, Hash.succ, hold r hr]
  have hfresh : (ht.pushEntry e).heap ht.brk =
      { e with next := ht.array.getD i none } := by simp [Hash.pushEntry, hi]
  have hnotin : ht.brk ∉ live := fun h => Nat.lt_irrefl _ (hlive _ h)
  have hchains := L.update_chain (ht.pushEntry e) i (ht.brk :: buckets i) (insert ht.brk live) rfl
    (by
      have hload : (ht.pushEntry e).load (.bucket i) = some ht.brk := by
        simp [Hash.load, Hash.pushEntry, ← hi, L.size, Nat.lt_succ_of_le hile]
      rw [hload]
      refine ⟨rfl, ?_⟩
      have hnext : (ht.pushEntry e).succ ht.brk = ht.load (.bucket i) := by
        rw [Hash.succ, hfresh]
        rfl
      rw [hnext]
      exact (L.chain i hile).congr fun r hr => hsucc r (hbucket i hile r hr))
    (List.nodup_cons.mpr ⟨fun h => Nat.lt_irrefl _ (hbucket i hile _ h), L.nodup i hile⟩)
    (fun j hj => by simp [Hash.load, Hash.pushEntry, ← hi, Ne.symm hj])
    (fun j hj _ r hr => hsucc r (hbucket j hj r hr))
    (fun r => by
      by_cases hr : r = ht.brk
      · subst hr
        simp [hfresh, ← hi]
      · simp only [List.mem_cons, hr, false_or, Finset.mem_insert, L.mem i hile r]
        refine and_congr_right fun hmem => ?_
        rw [hold r (hlive r hmem)])
    (fun j _ hji r => by
      by_cases hr : r = ht.brk
      · subst hr
        simp [hfresh, hnotin, ← hi, Ne.symm hji]
      · simp only [Finset.mem_insert, hr, false_or]
        refine and_congr_right fun hmem => ?_
        rw [hold r (hlive r hmem)])
  constructor
  · refine ⟨Function.update buckets i (ht.brk :: buckets i), ?_⟩
    exact
      { size := by simp [Hash.pushEntry, L.size]
        chain := fun j hj => (hchains j hj).1
        nodup := fun j hj => (hchains j hj).2.1
        mem := fun j hj => (hchains j hj).2.2
        freeChain := L.freeChain.congr fun r hr => hsucc r (L.allocated r (.inr hr))
        freeNodup := L.freeNodup
        disjoint := by
          intro r hr h
          obtain rfl | h := Finset.mem_insert.mp h
          · exact Nat.lt_irrefl _ (L.allocated _ (.inr hr))
          · exact L.disjoint r hr h
        allocated := by
          intro r hr
          change r < ht.brk + 1
          rcases hr with hr | hr
          · obtain rfl | hr := Finset.mem_insert.mp hr
            · exact Nat.lt_succ_self _
            · exact Nat.lt_succ_of_lt (hlive r hr)
          · exact Nat.lt_succ_of_lt (L.allocated r (.inr hr))
        hashed := by
          intro r hr
          obtain rfl | hr := Finset.mem_insert.mp hr
          · rw [hfresh]
            exact hhash
          · rw [hold r (hlive r hr)]
            exact L.hashed r hr
        distinct := by
          intro r hr s hs hkeys
          rcases Finset.mem_insert.mp hr with rfl | hr <;>
            rcases Finset.mem_insert.mp hs with rfl | hs
          · rfl
          · rw [hfresh, hold s (hlive s hs)] at hkeys
            exact absurd hkeys.symm (hnew s hs)
          · rw [hfresh, hold r (hlive r hr)] at hkeys
            exact absurd hkeys (hnew r hr)
          · rw [hold r (hlive r hr), hold s (hlive s hs)] at hkeys
            exact L.distinct r hr s hs hkeys
        count := by
          change ht.count + 1 = _
          rw [Finset.card_insert_of_notMem hnotin, L.count]
        hashFunc := L.hashFunc }
  · exact ⟨by rw [hfresh], by rw [hfresh], fun r hr => by rw [hold r (hlive r hr)],
      fun r hr => by rw [hold r (hlive r hr)]⟩

lemma findKey_eq (key : List UInt8) (fuel : ℕ) {link : Option ℕ} {rs : List ℕ}
    (h : Seg ht.succ link rs none) (hfuel : rs.length ≤ fuel) :
    ht.findKey key fuel link = rs.find? fun r => (ht.heap r).key = key := by
  induction rs generalizing fuel link with
  | nil =>
    obtain rfl : link = none := h
    cases fuel <;> rfl
  | cons r rs ih =>
    obtain ⟨rfl, hrest⟩ := h
    cases fuel with
    | zero => simp at hfuel
    | succ fuel =>
      rw [List.length_cons] at hfuel
      by_cases hkey : (ht.heap r).key = key
      · simp [Hash.findKey, hkey]
      · have hrec : ht.findKey key fuel (ht.heap r).next =
            rs.find? fun r => (ht.heap r).key = key := ih fuel hrest (by omega)
        simpa [Hash.findKey, hkey] using hrec

end Push

/-! ### The table that is made -/

/-- A table under construction in the memory of `old`. Its count is set for the base at once, so
the number of its entries is said apart. -/
structure Merging (old res : Hash V) (live : Finset ℕ) (m : List UInt8 → Option (Option V)) :
    Prop where
  table : ∃ buckets, Layout { res with count := live.card } buckets [] live
  maps : Maps res live m
  frame : ∀ r, r < old.brk → res.heap r = old.heap r
  brk : old.brk ≤ res.brk
  fresh : ∀ r ∈ live, old.brk ≤ r
  hashFunc : res.hashFunc = old.hashFunc

section Merging

variable {old res : Hash V} {live : Finset ℕ} {m : List UInt8 → Option (Option V)} {iter : ℕ}

lemma Merging.absent (h : Merging old res live m) {key : List UInt8} (hkey : m key = none) :
    ∀ r ∈ live, (res.heap r).key ≠ key := by
  intro r hr hsame
  have hval := h.maps.eq_val hr
  rw [hsame, hkey] at hval
  cases hval

section

variable (h : Merging old res live m) (hiter : iter < old.brk)
  (hhash : (old.heap iter).hash = old.hashOf (old.heap iter).key)

include h hiter hhash

lemma Merging.pushCopy (hkey : m (old.heap iter).key = none) :
    Merging old (res.pushCopy iter) (insert res.brk live)
      (Function.update m (old.heap iter).key (some (old.heap iter).val)) ∧ res.brk ∉ live := by
  obtain ⟨buckets, L⟩ := h.table
  have hentry := h.frame iter hiter
  have hnotin : res.brk ∉ live := fun hmem => Nat.lt_irrefl _ (L.allocated _ (.inl hmem))
  have hcard : (insert res.brk live).card = live.card + 1 := Finset.card_insert_of_notMem hnotin
  have habsent : ∀ r ∈ live, (res.heap r).key ≠ (res.heap iter).key := by
    rw [hentry]
    exact h.absent hkey
  have hhash' : (res.heap iter).hash =
      Hash.hashOf { res with count := live.card } (res.heap iter).key := by
    rw [hentry, hhash, hashOf_congr h.hashFunc.symm]
    rfl
  obtain ⟨⟨buckets', L'⟩, hadd⟩ := L.pushEntry habsent hhash'
  refine ⟨⟨⟨buckets', ?_⟩, ?_, ?_, ?_, ?_, h.hashFunc⟩, hnotin⟩
  · rw [hcard]
    exact L'
  · have hadded : Added res (res.pushCopy iter) live (res.heap iter).key (res.heap iter).val
        res.brk := ⟨hadd.key_new, hadd.val_new, hadd.key_old, hadd.val_old⟩
    have hmaps := h.maps.insert habsent hadded
    rwa [hentry] at hmaps
  · intro r hr
    have hbrk := h.brk
    rw [← h.frame r hr]
    exact Function.update_of_ne (by omega) _ _
  · exact h.brk.trans (Nat.le_succ _)
  · intro r hr
    obtain rfl | hr := Finset.mem_insert.mp hr
    · exact h.brk
    · exact h.fresh r hr

lemma Merging.mergeEntry (merger : Option (List UInt8 → Option V → Option V → Option V))
    (hcount : res.count = live.card) :
    ∃ live', Merging old (res.mergeEntry merger iter) live'
        (Function.update m (old.heap iter).key (merged merger
          (fun _ => some (old.heap iter).val) m (old.heap iter).key)) ∧
      (res.mergeEntry merger iter).count = live'.card := by
  obtain ⟨buckets, L⟩ := h.table
  have hentry := h.frame iter hiter
  set e := old.heap iter with he
  set i := e.hash &&& res.max with hi
  have hile : i ≤ res.max := Nat.and_le_right
  have hchain : Seg res.succ (res.array.getD i none) (buckets i) none := L.chain i hile
  have hlength : (buckets i).length ≤ res.brk + 1 := (L.bucket_length_le hile).trans (Nat.le_succ _)
  have hfind := findKey_eq e.key (res.brk + 1) hchain hlength
  have hunfold : res.mergeEntry merger iter =
      match res.findKey e.key (res.brk + 1) (res.array.getD i none) with
      | some ent =>
        res.setEntry ent
          { res.heap ent with val := mergedVal merger e.key e.val (res.heap ent).val }
      | none => { res.pushCopy iter with count := res.count + 1 } := by
    rw [Hash.mergeEntry, hentry]
  rw [hunfold, hfind]
  cases hfound : (buckets i).find? fun r => (res.heap r).key = e.key with
  | some ent =>
    have hkey : (res.heap ent).key = e.key := by
      simpa using List.find?_some hfound
    have hlive : ent ∈ live := ((L.mem i hile ent).mp (List.mem_of_find?_eq_some hfound)).1
    have hval : m e.key = some (res.heap ent).val := by
      rw [← hkey]
      exact h.maps.eq_val hlive
    have hmerged : merged merger (fun _ => some e.val) m e.key =
        some (mergedVal merger e.key e.val (res.heap ent).val) := by
      rw [merged, hval]
    refine ⟨live, ⟨⟨buckets, L.setVal ent _⟩, ?_, ?_, h.brk, h.fresh, h.hashFunc⟩, hcount⟩
    · have hmaps := h.maps.setVal L.distinct hlive
        (mergedVal merger e.key e.val (res.heap ent).val)
      rw [hkey] at hmaps
      rw [hmerged]
      exact hmaps
    · intro r hr
      have hfresh := h.fresh ent hlive
      rw [← h.frame r hr]
      exact Function.update_of_ne (by omega) _ _
  | none =>
    have hnone : m e.key = none := by
      cases hval : m e.key with
      | none => rfl
      | some val =>
        obtain ⟨r, hr, hkey, -⟩ := (h.maps e.key val).mp hval
        refine absurd hkey ?_
        have hmem : r ∈ buckets i := by
          rw [L.mem i hile]
          refine ⟨hr, ?_⟩
          change (res.heap r).hash &&& res.max = i
          have hhashed : (res.heap r).hash = res.hashOf (res.heap r).key := L.hashed r hr
          rw [hhashed, hkey, hashOf_congr h.hashFunc, ← hhash]
        simpa using List.find?_eq_none.mp hfound r hmem
    obtain ⟨hpush, hnotin⟩ := h.pushCopy hiter hhash hnone
    have hmerged : merged merger (fun _ => some e.val) m e.key = some e.val := by
      rw [merged, hnone]
    refine ⟨insert res.brk live, ⟨?_, ?_, hpush.frame, hpush.brk, hpush.fresh, hpush.hashFunc⟩,
      ?_⟩
    · exact hpush.table
    · rw [hmerged]
      exact hpush.maps
    · change res.count + 1 = _
      rw [Finset.card_insert_of_notMem hnotin, hcount]

end

end Merging

/-! ### The loops -/

section Loops

variable {old res : Hash V} {body : Hash V → ℕ → Hash V} {inv : Hash V → Prop}

/-- What a loop over entries may rely on and keeps: the links it follows are those of `old`. -/
structure Follows (old : Hash V) (body : Hash V → ℕ → Hash V) (inv : Hash V → Prop) : Prop where
  step : ∀ res r, inv res → r < old.brk →
    (old.heap r).hash = old.hashOf (old.heap r).key → inv (body res r)
  links : ∀ res r, inv res → r < old.brk → res.heap r = old.heap r

lemma eachInChain_eq (hbody : Follows old body inv) (fuel : ℕ) {link : Option ℕ} {rs : List ℕ}
    (hseg : Seg old.succ link rs none) (hfuel : rs.length ≤ fuel)
    (hrs : ∀ r ∈ rs, r < old.brk ∧ (old.heap r).hash = old.hashOf (old.heap r).key)
    (hinv : inv res) :
    Hash.eachInChain body fuel link res = rs.foldl body res ∧ inv (rs.foldl body res) := by
  induction rs generalizing fuel link res with
  | nil =>
    obtain rfl : link = none := hseg
    cases fuel <;> exact ⟨rfl, hinv⟩
  | cons r rs ih =>
    obtain ⟨rfl, hrest⟩ := hseg
    obtain ⟨hr, hhash⟩ := hrs r (List.mem_cons_self ..)
    cases fuel with
    | zero => simp at hfuel
    | succ fuel =>
      rw [List.length_cons] at hfuel
      have hstep := hbody.step res r hinv hr hhash
      have hnext : ((body res r).heap r).next = old.succ r := by
        rw [hbody.links _ r hstep hr]
        rfl
      obtain ⟨hloop, hafter⟩ := ih fuel hrest (by omega)
        (fun s hs => hrs s (List.mem_cons_of_mem _ hs)) hstep
      refine ⟨?_, hafter⟩
      rw [Hash.eachInChain, hnext]
      exact hloop

/-- The loops over a table run over its entries in the order of an iteration. -/
lemma eachEntry_eq {ht : Hash V} {buckets : ℕ → List ℕ} {frees : List ℕ} {live : Finset ℕ}
    (L : Layout ht buckets frees live) (hmem : old.SameMemory ht)
    (hfunc : ht.hashFunc = old.hashFunc) (hbody : Follows old body inv) (hinv : inv res) :
    Hash.eachEntry body ht res = (chainsFrom buckets ht.max 0).foldl body res ∧
      inv ((chainsFrom buckets ht.max 0).foldl body res) := by
  have hsucc : ht.succ = old.succ := by
    funext r
    rw [Hash.succ, Hash.succ, hmem.heap]
  have hloop : ∀ ks : List ℕ, (∀ k ∈ ks, k ≤ ht.max) → ∀ {res : Hash V}, inv res →
      ks.foldl (fun res k => Hash.eachInChain body (ht.brk + 1) (ht.array.getD k none) res) res =
          (ks.flatMap buckets).foldl body res ∧
        inv ((ks.flatMap buckets).foldl body res) := by
    intro ks hks
    induction ks with
    | nil => exact fun hinv => ⟨rfl, hinv⟩
    | cons k ks ih =>
      intro res hinv
      have hk := hks k (List.mem_cons_self ..)
      have hchain : Seg old.succ (ht.array.getD k none) (buckets k) none := hsucc ▸ L.chain k hk
      have hentries : ∀ r ∈ buckets k,
          r < old.brk ∧ (old.heap r).hash = old.hashOf (old.heap r).key := by
        intro r hr
        have hlive := ((L.mem k hk r).mp hr).1
        rw [← hmem.brk, ← hmem.heap, ← hashOf_congr hfunc]
        exact ⟨L.allocated r (.inl hlive), L.hashed r hlive⟩
      obtain ⟨hfirst, hafter⟩ := eachInChain_eq hbody (ht.brk + 1) hchain
        ((L.bucket_length_le hk).trans (Nat.le_succ _)) hentries hinv
      obtain ⟨hrest, hend⟩ := ih (fun j hj => hks j (List.mem_cons_of_mem _ hj)) hafter
      rw [List.foldl_cons, hfirst, List.flatMap_cons, List.foldl_append]
      exact ⟨hrest, hend⟩
  rw [chainsFrom_zero]
  exact hloop _ (fun k hk => Nat.lt_succ_iff.mp (List.mem_range.mp hk)) hinv

/-- Updates under distinct keys, each from what was there before. -/
lemma foldl_update {α β : Type*} [DecidableEq α] (key : ℕ → α) (g : ℕ → β → β) {rs : List ℕ}
    (hkeys : (rs.map key).Nodup) (m : α → β) :
    (∀ r ∈ rs, rs.foldl (fun m r => Function.update m (key r) (g r (m (key r)))) m (key r) =
        g r (m (key r))) ∧
      ∀ k, (∀ r ∈ rs, key r ≠ k) →
        rs.foldl (fun m r => Function.update m (key r) (g r (m (key r)))) m k = m k := by
  induction rs generalizing m with
  | nil => exact ⟨fun r hr => absurd hr (List.not_mem_nil), fun _ _ => rfl⟩
  | cons s rs ih =>
    rw [List.map_cons, List.nodup_cons] at hkeys
    obtain ⟨hin, hout⟩ := ih hkeys.2 (Function.update m (key s) (g s (m (key s))))
    have hother : ∀ r ∈ rs, key r ≠ key s := fun r hr h =>
      hkeys.1 (h ▸ List.mem_map_of_mem hr)
    constructor
    · intro r hr
      rw [List.foldl_cons]
      obtain rfl | hr := List.mem_cons.mp hr
      · rw [hout _ hother, Function.update_self]
      · rw [hin r hr, Function.update_of_ne (hother r hr)]
    · intro k hk
      rw [List.foldl_cons, hout k fun r hr => hk r (List.mem_cons_of_mem _ hr),
        Function.update_of_ne (hk s (List.mem_cons_self ..)).symm]

end Loops

section Merge

variable {old res : Hash V} {live : Finset ℕ} {m : List UInt8 → Option (Option V)}

lemma follows_pushCopy (old : Hash V) : Follows old Hash.pushCopy fun res =>
    old.brk ≤ res.brk ∧ ∀ r, r < old.brk → res.heap r = old.heap r where
  step := by
    rintro res r ⟨hbrk, hframe⟩ hr -
    refine ⟨hbrk.trans (Nat.le_succ _), fun s hs => ?_⟩
    rw [← hframe s hs]
    exact Function.update_of_ne (by omega) _ _
  links := fun _ r hinv hr => hinv.2 r hr

lemma follows_mergeEntry (old : Hash V)
    (merger : Option (List UInt8 → Option V → Option V → Option V)) :
    Follows old (Hash.mergeEntry merger) fun res =>
      ∃ live m, Merging old res live m ∧ res.count = live.card where
  step := by
    rintro res r ⟨live, m, h, hcount⟩ hr hhash
    obtain ⟨live', h', hcount'⟩ := h.mergeEntry hr hhash merger hcount
    exact ⟨live', _, h', hcount'⟩
  links := by
    rintro res r ⟨live, m, h, -⟩ hr
    exact h.frame r hr

/-- The entries of the base. -/
lemma Merging.foldl_pushCopy (h : Merging old res live m) {rs : List ℕ}
    (hrs : ∀ r ∈ rs, r < old.brk ∧ (old.heap r).hash = old.hashOf (old.heap r).key)
    (hkeys : (rs.map fun r => (old.heap r).key).Nodup)
    (habsent : ∀ r ∈ rs, m (old.heap r).key = none) :
    ∃ live', Merging old (rs.foldl Hash.pushCopy res) live'
        (rs.foldl (fun m r => Function.update m (old.heap r).key (some (old.heap r).val)) m) ∧
      live'.card = live.card + rs.length := by
  induction rs generalizing res live m with
  | nil => exact ⟨live, h, rfl⟩
  | cons r rs ih =>
    rw [List.map_cons, List.nodup_cons] at hkeys
    obtain ⟨hr, hhash⟩ := hrs r (List.mem_cons_self ..)
    obtain ⟨hpush, hnotin⟩ := h.pushCopy hr hhash (habsent r (List.mem_cons_self ..))
    obtain ⟨live', hall, hcard⟩ := ih hpush (fun s hs => hrs s (List.mem_cons_of_mem _ hs))
      hkeys.2 (fun s hs => by
        have hne : (old.heap s).key ≠ (old.heap r).key :=
          fun hsame => hkeys.1 (hsame ▸ List.mem_map_of_mem hs)
        rw [Function.update_of_ne hne]
        exact habsent s (List.mem_cons_of_mem _ hs))
    refine ⟨live', hall, ?_⟩
    rw [hcard, Finset.card_insert_of_notMem hnotin, List.length_cons]
    omega

/-- The entries of the overlay. -/
lemma Merging.foldl_mergeEntry (h : Merging old res live m) {rs : List ℕ}
    (merger : Option (List UInt8 → Option V → Option V → Option V))
    (hrs : ∀ r ∈ rs, r < old.brk ∧ (old.heap r).hash = old.hashOf (old.heap r).key)
    (hcount : res.count = live.card) :
    ∃ live', Merging old (rs.foldl (Hash.mergeEntry merger) res) live'
        (rs.foldl (fun m r => Function.update m (old.heap r).key (merged merger
          (fun _ => some (old.heap r).val) m (old.heap r).key)) m) ∧
      (rs.foldl (Hash.mergeEntry merger) res).count = live'.card := by
  induction rs generalizing res live m with
  | nil => exact ⟨live, h, hcount⟩
  | cons r rs ih =>
    obtain ⟨hr, hhash⟩ := hrs r (List.mem_cons_self ..)
    obtain ⟨live', hmerge, hcount'⟩ := h.mergeEntry hr hhash merger hcount
    exact ih hmerge (fun s hs => hrs s (List.mem_cons_of_mem _ hs)) hcount'

/-- The empty table in used memory. -/
lemma merging_mergeStart (overlay base : Hash V) (hfunc : OfContent base.hashFunc) :
    Merging base (mergeStart overlay base) ∅ fun _ => none where
  table := by
    refine ⟨fun _ => [], ?_⟩
    exact
      { size := List.length_replicate
        chain := by
          intro i hi
          have hget : ∀ n, (List.replicate n (none : Option ℕ)).getD i none = none := by
            intro n
            rw [List.getD_eq_getElem?_getD, List.getElem?_replicate]
            split <;> rfl
          exact hget _
        nodup := by simp
        mem := by simp
        freeChain := rfl
        freeNodup := List.nodup_nil
        disjoint := by simp
        allocated := by simp
        hashed := by simp
        distinct := by simp
        count := rfl
        hashFunc := hfunc }
  maps := by simp [Maps]
  frame := fun _ _ => rfl
  brk := le_rfl
  fresh := by simp
  hashFunc := rfl

/-- The keys of the entries in the order of an iteration. -/
lemma Layout.nodup_chain_keys {buckets : ℕ → List ℕ} {frees : List ℕ}
    (L : Layout old buckets frees live) :
    ((chainsFrom buckets old.max 0).map fun r => (old.heap r).key).Nodup := by
  have hkeys := L.nodup_keys
  rwa [L.hashIterate_eq, List.map_map] at hkeys

/-- After the first loop the table has the entries of the base. -/
lemma Represents.merge_base {base : Hash V} (h : Represents base m) (overlay : Hash V) :
    ∃ live, Merging base (Hash.eachEntry Hash.pushCopy base (mergeStart overlay base)) live m ∧
      (Hash.eachEntry Hash.pushCopy base (mergeStart overlay base)).count = live.card := by
  obtain ⟨buckets, frees, live, L, hm⟩ := h
  have hentries : ∀ r ∈ chainsFrom buckets base.max 0,
      r < base.brk ∧ (base.heap r).hash = base.hashOf (base.heap r).key := by
    intro r hr
    have hlive := L.mem_chains.mp hr
    exact ⟨L.allocated r (.inl hlive), L.hashed r hlive⟩
  have hstart := merging_mergeStart overlay base L.hashFunc
  obtain ⟨hloop, -⟩ := eachEntry_eq L ⟨rfl, rfl⟩ rfl (follows_pushCopy base)
    ⟨hstart.brk, hstart.frame⟩
  obtain ⟨live', hpushed, hcard⟩ := hstart.foldl_pushCopy hentries L.nodup_chain_keys fun _ _ => rfl
  rw [hloop]
  refine ⟨live', ⟨hpushed.table, ?_, hpushed.frame, hpushed.brk, hpushed.fresh,
    hpushed.hashFunc⟩, ?_⟩
  · have hmap : (chainsFrom buckets base.max 0).foldl (fun m r =>
        Function.update m (base.heap r).key (some (base.heap r).val)) (fun _ => none) = m := by
      obtain ⟨hin, hout⟩ := foldl_update (fun r => (base.heap r).key)
        (fun r _ => some (base.heap r).val) L.nodup_chain_keys fun _ => none
      funext key
      by_cases hkey : ∃ r ∈ chainsFrom buckets base.max 0, (base.heap r).key = key
      · obtain ⟨r, hr, rfl⟩ := hkey
        rw [hin r hr, hm.eq_val (L.mem_chains.mp hr)]
      · have hnone : ∀ r ∈ chainsFrom buckets base.max 0, (base.heap r).key ≠ key :=
          fun r hr h => hkey ⟨r, hr, h⟩
        rw [hout key hnone, hm.none_of_absent fun r hr => hnone r (L.mem_chains.mpr hr)]
    rw [← hmap]
    exact hpushed.maps
  · have hkeep : ∀ (rs : List ℕ) (res : Hash V),
        (rs.foldl Hash.pushCopy res).count = res.count := by
      intro rs
      induction rs with
      | nil => exact fun _ => rfl
      | cons r rs ih => exact fun res => ih _
    rw [hkeep, hcard, L.card_chains, Finset.card_empty, Nat.zero_add, ← L.count]
    rfl

/-- After the second loop it has those of the overlay as well. -/
lemma Represents.merge_overlay {base overlay : Hash V} {m₁ m₂ : List UInt8 → Option (Option V)}
    (h : Represents overlay m₁) (hmem : base.SameMemory overlay)
    (hfunc : overlay.hashFunc = base.hashFunc)
    (merger : Option (List UInt8 → Option V → Option V → Option V))
    (hres : Merging base res live m₂) (hcount : res.count = live.card) :
    ∃ live', Merging base (Hash.eachEntry (Hash.mergeEntry merger) overlay res) live'
        (merged merger m₁ m₂) ∧
      (Hash.eachEntry (Hash.mergeEntry merger) overlay res).count = live'.card := by
  obtain ⟨buckets, frees, live₁, L, hm⟩ := h
  have hentries : ∀ r ∈ chainsFrom buckets overlay.max 0,
      r < base.brk ∧ (base.heap r).hash = base.hashOf (base.heap r).key := by
    intro r hr
    have hlive := L.mem_chains.mp hr
    rw [← hmem.brk, ← hmem.heap, ← hashOf_congr hfunc]
    exact ⟨L.allocated r (.inl hlive), L.hashed r hlive⟩
  obtain ⟨hloop, -⟩ := eachEntry_eq L hmem hfunc (follows_mergeEntry base merger)
    ⟨live, m₂, hres, hcount⟩
  obtain ⟨live', hmerged, hcount'⟩ := hres.foldl_mergeEntry merger hentries hcount
  have hmap : (chainsFrom buckets overlay.max 0).foldl (fun m r =>
      Function.update m (base.heap r).key (merged merger (fun _ => some (base.heap r).val) m
        (base.heap r).key)) m₂ = merged merger m₁ m₂ := by
    have hkeys := L.nodup_chain_keys
    rw [hmem.heap] at hkeys
    obtain ⟨hin, hout⟩ := foldl_update (fun r => (base.heap r).key)
      (fun r b => merged merger (fun _ => some (base.heap r).val) (fun _ => b) (base.heap r).key)
      hkeys m₂
    funext key
    by_cases hkey : ∃ r ∈ chainsFrom buckets overlay.max 0, (base.heap r).key = key
    · obtain ⟨r, hr, rfl⟩ := hkey
      have hval := hm.eq_val (L.mem_chains.mp hr)
      rw [hmem.heap] at hval
      refine (hin r hr).trans ?_
      rw [merged, merged, hval]
    · have hnone : ∀ r ∈ chainsFrom buckets overlay.max 0, (base.heap r).key ≠ key :=
        fun r hr h => hkey ⟨r, hr, h⟩
      have habsent : m₁ key = none := hm.none_of_absent fun r hr => by
        rw [hmem.heap]
        exact hnone r (L.mem_chains.mpr hr)
      refine (hout key hnone).trans ?_
      rw [merged, habsent]
  rw [hmap] at hmerged
  rw [hloop]
  exact ⟨live', hmerged, hcount'⟩

end Merge

section Memory

variable {ht res : Hash V} {m : List UInt8 → Option (Option V)}

/-- The table as it is found later, in the memory that `res` has then. -/
def Hash.inMemoryOf (ht res : Hash V) : Hash V := { ht with heap := res.heap, brk := res.brk }

/-- A table that nobody writes to is what it was. -/
lemma Represents.inMemoryOf (h : Represents ht m) (hold : ht.Extends res) :
    Represents (ht.inMemoryOf res) m := by
  obtain ⟨buckets, frees, live, L, hm⟩ := h
  have hentry : ∀ r ∈ live, (ht.inMemoryOf res).heap r = ht.heap r :=
    fun r hr => hold.2 r (L.allocated r (.inl hr))
  have hsucc : ∀ r, r ∈ live ∨ r ∈ frees → (ht.inMemoryOf res).succ r = ht.succ r := by
    intro r hr
    exact congrArg Entry.next (hold.2 r (L.allocated r hr))
  refine ⟨buckets, frees, live, ?_, fun key val => ?_⟩
  · exact
      { size := L.size
        chain := fun k hk => (L.chain k hk).congr fun r hr =>
          hsucc r (.inl ((L.mem k hk r).mp hr).1)
        nodup := L.nodup
        mem := by
          intro k hk r
          rw [L.mem k hk r]
          refine and_congr_right fun hr => ?_
          rw [hentry r hr]
          exact Iff.rfl
        freeChain := L.freeChain.congr fun r hr => hsucc r (.inr hr)
        freeNodup := L.freeNodup
        disjoint := L.disjoint
        allocated := fun r hr => (L.allocated r hr).trans_le hold.1
        hashed := by
          intro r hr
          rw [hentry r hr]
          exact L.hashed r hr
        distinct := by
          intro r hr s hs hkeys
          rw [hentry r hr, hentry s hs] at hkeys
          exact L.distinct r hr s hs hkeys
        count := L.count
        hashFunc := L.hashFunc }
  · rw [hm key val]
    constructor
    · rintro ⟨r, hr, hkey, hval⟩
      exact ⟨r, hr, by rw [hentry r hr, hkey], by rw [hentry r hr, hval]⟩
    · rintro ⟨r, hr, hkey, hval⟩
      rw [hentry r hr] at hkey hval
      exact ⟨r, hr, hkey, hval⟩

end Memory

/-- The table made of two tables has the entries of both, the value under a common key by the
merger. Memory that was in use is left as it is. -/
lemma Represents.merge {overlay base : Hash V} {m₁ m₂ : List UInt8 → Option (Option V)}
    (hoverlay : Represents overlay m₁) (hbase : Represents base m₂)
    (hmem : base.SameMemory overlay) (hfunc : overlay.hashFunc = base.hashFunc)
    (merger : Option (List UInt8 → Option V → Option V → Option V)) :
    Represents (hashMerge overlay base merger) (merged merger m₁ m₂) ∧
      hashCount (hashMerge overlay base merger) = {key | m₁ key ≠ none ∨ m₂ key ≠ none}.ncard ∧
      base.Extends (hashMerge overlay base merger) := by
  obtain ⟨live, hpushed, hcount⟩ := hbase.merge_base overlay
  obtain ⟨live', hmerged, hcount'⟩ :=
    hoverlay.merge_overlay hmem hfunc merger hpushed hcount
  obtain ⟨buckets, L⟩ := hmerged.table
  rw [← hcount'] at L
  have hunion : ∀ key, merged merger m₁ m₂ key ≠ none ↔ m₁ key ≠ none ∨ m₂ key ≠ none := by
    intro key
    cases h₁ : m₁ key <;> cases h₂ : m₂ key <;> simp [merged, h₁, h₂]
  refine ⟨⟨buckets, [], live', L, hmerged.maps⟩, ?_, hmerged.brk, hmerged.frame⟩
  have hncard := L.count_eq_ncard hmerged.maps
  simp only [hunion] at hncard
  exact hncard

lemma Represents.hashGet_eq {ht : Hash V} {m : List UInt8 → Option (Option V)}
    (h : Represents ht m) (k : KeyArg) : hashGet ht k = (m k.content).join := by
  obtain ⟨buckets, frees, live, L, hm⟩ := h
  exact L.hashGet_eq hm k

end Axis2C.HashTable
