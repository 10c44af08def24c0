import Axis2C.RestPatterns

/-!
# What an insertion does to the REST map

A map is read as the operations at its paths. An insertion that succeeds adds the
operation at a path that had none; one that fails changes no path, although it
may leave mappings without an operation behind.
-/
namespace Axis2C.RestDispatch
open FirstOccurrence RestTemplate

variable {Op : Type}

section Paths

namespace Mapping

def table (key : Text) (m : Mapping Op) : List (Text × Mapping Op) :=
  if isParam key then m.params_map else m.consts_map

/-- The operation at the end of a path of components. -/
def opAt : Mapping Op → List Text → Option Op
  | m, [] => m.op_desc
  | m, key :: path => (getEntry key (m.table key)).bind fun child => child.opAt path

end Mapping

def tableOpAt (entries : List (Text × Mapping Op)) : List Text → Option Op
  | [] => none
  | key :: path => (getEntry key entries).bind fun child => child.opAt path

lemma getEntry_setEntry (key key' : Text) (val : Mapping Op) (entries : List (Text × Mapping Op)) :
    getEntry key' (setEntry key val entries) = if key' = key then some val else getEntry key' entries := by
  induction entries with
  | nil =>
    by_cases h : key' = key
    · simp [setEntry, getEntry, h]
    · simp [setEntry, getEntry, h, Ne.symm h]
  | cons e entries ih =>
    obtain ⟨k, v⟩ := e
    by_cases hk : k = key
    · subst hk
      by_cases h : key' = k <;> simp [setEntry, getEntry, h, eq_comm]
    · by_cases h : key' = k
      · subst h
        simp [setEntry, getEntry, hk]
      · simp [setEntry, getEntry, hk, ih, Ne.symm h]

@[simp] lemma opAt_empty (path : List Text) : (Mapping.empty : Mapping Op).opAt path = none := by
  cases path with
  | nil => rfl
  | cons key path =>
    simp [Mapping.opAt, Mapping.table, Mapping.empty, Mapping.params_map, Mapping.consts_map,
      getEntry]

/-- A table without the entry is read like one with an empty mapping. -/
lemma tableOpAt_getD (entries : List (Text × Mapping Op)) (key : Text) (path : List Text) :
    tableOpAt entries (key :: path) = ((getEntry key entries).getD .empty).opAt path := by
  cases h : getEntry key entries <;> simp [tableOpAt, h]

end Paths

section Insertion

variable {op_desc : Op}

/-- What an insertion of `op_desc` at `path` does. -/
structure Inserts (op_desc : Op) (path : List Text) (status : Bool)
    (before after : List Text → Option Op) : Prop where
  opAt : ∀ q, after q = if status = true ∧ q = path then some op_desc else before q
  free : status = true → before path = none

lemma Inserts.failed (op_desc : Op) (path : List Text) (ops : List Text → Option Op) :
    Inserts op_desc path false ops ops := ⟨fun _ => by simp, by simp⟩

lemma enterKey_inserts (op_desc : Op) {next : Option (Mapping Op → Bool × Mapping Op)}
    {path : List Text} (hlast : next = none → path = [])
    (hnext : ∀ build, next = some build → ∀ m : Mapping Op,
      Inserts op_desc path (build m).1 m.opAt (build m).2.opAt)
    (key : Text) (entries : List (Text × Mapping Op)) :
    Inserts op_desc (key :: path) (enterKey op_desc next key entries).1 (tableOpAt entries)
      (tableOpAt (enterKey op_desc next key entries).2) := by
  -- the mapping of the key is replaced by one in which the path is inserted
  have hset : ∀ (status : Bool) (child : Mapping Op),
      Inserts op_desc path status ((getEntry key entries).getD .empty).opAt child.opAt →
      Inserts op_desc (key :: path) status (tableOpAt entries)
        (tableOpAt (setEntry key child entries)) := by
    intro status child h
    constructor
    · intro q
      cases q with
      | nil => simp [tableOpAt]
      | cons key' q =>
        by_cases hkey : key' = key
        · subst hkey
          rw [tableOpAt_getD entries, tableOpAt, getEntry_setEntry, if_pos rfl, Option.bind_some,
            h.opAt]
          simp
        · simp [tableOpAt, getEntry_setEntry, hkey]
    · intro hstatus
      rw [tableOpAt_getD]
      exact h.free hstatus
  cases next with
  | some build => exact hset _ _ (hnext build rfl _)
  | none =>
    obtain rfl := hlast rfl
    cases hop : ((getEntry key entries).getD .empty).op_desc with
    | some op =>
      simp only [enterKey, hop]
      exact hset _ _ (Inserts.failed _ _ _)
    | none =>
      simp only [enterKey, hop]
      refine hset _ _ ⟨?_, fun _ => hop⟩
      intro q
      cases q with
      | nil => simp [Mapping.opAt, Mapping.op_desc]
      | cons key' q =>
        simp [Mapping.opAt, Mapping.table, Mapping.params_map, Mapping.consts_map]

/-- One of the two tables of a mapping gets the path. -/
lemma Inserts.in_table {key : Text} {path : List Text} {status : Bool} {m : Mapping Op}
    {entries : List (Text × Mapping Op)}
    (h : Inserts op_desc (key :: path) status (tableOpAt (m.table key)) (tableOpAt entries)) :
    Inserts op_desc (key :: path) status m.opAt
      (if isParam key then Mapping.mk m.op_desc m.consts_map entries
        else Mapping.mk m.op_desc entries m.params_map).opAt := by
  constructor
  · intro q
    cases q with
    | nil => by_cases hkey : isParam key = true <;> simp [hkey, Mapping.opAt, Mapping.op_desc]
    | cons key' q =>
      have hopAt := h.opAt (key' :: q)
      by_cases hkey : isParam key = true <;> by_cases hkey' : isParam key' = true
      · simpa [hkey, hkey', Mapping.opAt, Mapping.table, Mapping.params_map, tableOpAt] using hopAt
      · have hne : key' ≠ key := by
          rintro rfl
          exact hkey' hkey
        simp [hkey, hkey', Mapping.opAt, Mapping.table, Mapping.consts_map, hne]
      · have hne : key' ≠ key := by
          rintro rfl
          exact hkey hkey'
        simp [hkey, hkey', Mapping.opAt, Mapping.table, Mapping.params_map, hne]
      · simpa [hkey, hkey', Mapping.opAt, Mapping.table, Mapping.consts_map, tableOpAt] using hopAt
  · intro hstatus
    exact h.free hstatus

lemma buildRestMapRecursively_inserts (op_desc : Op) (url : Text) (next_level_url : List Text)
    (parent : Mapping Op) :
    Inserts op_desc (url :: next_level_url)
      (buildRestMapRecursively op_desc url next_level_url parent).1 parent.opAt
      (buildRestMapRecursively op_desc url next_level_url parent).2.opAt := by
  induction next_level_url generalizing url parent with
  | nil =>
    unfold buildRestMapRecursively
    by_cases hvalid : validKey url = false
    · simpa [hvalid] using Inserts.failed _ _ _
    · have hnext : ∀ build : Mapping Op → Bool × Mapping Op, none = some build →
          ∀ m : Mapping Op, Inserts op_desc [] (build m).1 m.opAt (build m).2.opAt := by simp
      have h := Inserts.in_table (m := parent)
        (enterKey_inserts op_desc (fun _ => rfl) hnext url (parent.table url))
      by_cases hkey : isParam url = true <;>
        simpa [hvalid, hkey, Mapping.table] using h
  | cons next rest ih =>
    unfold buildRestMapRecursively
    by_cases hvalid : validKey url = false
    · simpa [hvalid] using Inserts.failed _ _ _
    · have hnext : ∀ build, some (buildRestMapRecursively op_desc next rest) = some build →
          ∀ m : Mapping Op, Inserts op_desc (next :: rest) (build m).1 m.opAt (build m).2.opAt := by
        rintro _ ⟨⟩ m
        exact ih next m
      have h := Inserts.in_table (m := parent) (enterKey_inserts op_desc (by simp) hnext url (parent.table url))
      by_cases hkey : isParam url = true <;>
        simpa [hvalid, hkey, Mapping.table] using h

/-- **One insertion.** -/
theorem prepareRestMapping_inserts (url : Text) (rest_map : List (Text × Mapping Op))
    (op_desc : Op) :
    Inserts op_desc ((components url).1 :: (components url).2)
      (prepareRestMapping url rest_map op_desc).1 (tableOpAt rest_map)
      (tableOpAt (prepareRestMapping url rest_map op_desc).2) := by
  unfold prepareRestMapping
  generalize components url = split
  obtain ⟨url, next_level_url⟩ := split
  by_cases hvalid : validKey url = false
  · simpa [hvalid] using Inserts.failed _ _ _
  · simp only [if_neg hvalid]
    cases next_level_url with
    | nil => exact enterKey_inserts op_desc (fun _ => rfl) (by simp) url rest_map
    | cons next rest =>
      refine enterKey_inserts op_desc (by simp) ?_ url rest_map
      rintro _ ⟨⟩ m
      exact buildRestMapRecursively_inserts op_desc next rest m

/-- All components of a template that was inserted passed the check. -/
lemma buildRestMapRecursively_valid {url : Text} {next_level_url : List Text} {parent : Mapping Op}
    (h : (buildRestMapRecursively op_desc url next_level_url parent).1 = true) :
    ∀ key ∈ url :: next_level_url, validKey key = true := by
  induction next_level_url generalizing url parent with
  | nil =>
    unfold buildRestMapRecursively at h
    by_cases hvalid : validKey url = true
    · simpa using hvalid
    · simp [hvalid] at h
  | cons next rest ih =>
    unfold buildRestMapRecursively at h
    by_cases hvalid : validKey url = true
    · have hrest : ∀ key ∈ next :: rest, validKey key = true := by
        by_cases hkey : isParam url = true <;>
          exact ih (by simpa [hvalid, hkey, enterKey] using h)
      intro key hmem
      rcases List.mem_cons.mp hmem with rfl | hmem
      · exact hvalid
      · exact hrest key hmem
    · simp [hvalid] at h

lemma prepareRestMapping_valid {url : Text} {rest_map : List (Text × Mapping Op)}
    (h : (prepareRestMapping url rest_map op_desc).1 = true) :
    ∀ key ∈ (components url).1 :: (components url).2, validKey key = true := by
  unfold prepareRestMapping at h
  generalize components url = split at h ⊢
  obtain ⟨url, next_level_url⟩ := split
  by_cases hvalid : validKey url = true
  · intro key hmem
    rcases List.mem_cons.mp hmem with rfl | hmem
    · exact hvalid
    · cases next_level_url with
      | nil => cases hmem
      | cons next rest =>
        exact buildRestMapRecursively_valid (by simpa [hvalid, enterKey] using h) key hmem
  · simp [hvalid] at h

end Insertion

section Shape

variable {entries : List (Text × Mapping Op)} {key : Text}

/-- In the table of the parameters are the keys with a parameter, in the other one the
rest, and no table has a key twice. -/
inductive Shaped : Mapping Op → Prop where
  | mk {op_desc : Option Op} {consts_map params_map : List (Text × Mapping Op)}
      (consts : ∀ e ∈ consts_map, isParam e.1 = false)
      (params : ∀ e ∈ params_map, isParam e.1 = true)
      (distinct : (params_map.map (·.1)).Nodup)
      (below_consts : ∀ e ∈ consts_map, Shaped e.2)
      (below_params : ∀ e ∈ params_map, Shaped e.2) : Shaped (.mk op_desc consts_map params_map)

/-- The REST map itself, where all keys are in one table. -/
structure ShapedMap (rest_map : List (Text × Mapping Op)) : Prop where
  distinct : (rest_map.map (·.1)).Nodup
  below : ∀ e ∈ rest_map, Shaped e.2

lemma Shaped.empty : Shaped (Mapping.empty : Mapping Op) := by
  constructor <;> simp

lemma mem_of_getEntry {m : Mapping Op} (h : getEntry key entries = some m) :
    (key, m) ∈ entries := by
  induction entries with
  | nil => cases h
  | cons e entries ih =>
    obtain ⟨k, v⟩ := e
    by_cases hk : k = key
    · simp [getEntry, hk] at h
      simp [hk, h]
    · exact List.mem_cons_of_mem _ (ih (by simpa [getEntry, hk] using h))

lemma getEntry_of_mem {m : Mapping Op} (hdistinct : (entries.map (·.1)).Nodup)
    (h : (key, m) ∈ entries) :
    getEntry key entries = some m := by
  induction entries with
  | nil => cases h
  | cons e entries ih =>
    obtain ⟨k, v⟩ := e
    obtain ⟨hk, hrest⟩ := List.nodup_cons.mp hdistinct
    rcases List.mem_cons.mp h with heq | h
    · obtain ⟨rfl, rfl⟩ := Prod.mk.inj heq
      simp [getEntry]
    · have hne : k ≠ key := by
        rintro rfl
        exact hk (List.mem_map.mpr ⟨_, h, rfl⟩)
      simpa [getEntry, hne] using ih hrest h

lemma mem_setEntry {val : Mapping Op} {e : Text × Mapping Op} (h : e ∈ setEntry key val entries) :
    e = (key, val) ∨ e ∈ entries := by
  induction entries with
  | nil => simpa [setEntry] using h
  | cons e' entries ih =>
    obtain ⟨k, v⟩ := e'
    by_cases hk : k = key
    · subst hk
      rcases List.mem_cons.mp (by simpa [setEntry] using h) with h | h
      · exact .inl h
      · exact .inr (List.mem_cons_of_mem _ h)
    · rcases List.mem_cons.mp (by simpa [setEntry, hk] using h) with h | h
      · simp [h]
      · rcases ih h with h | h
        · exact .inl h
        · exact .inr (List.mem_cons_of_mem _ h)

lemma setEntry_distinct (key : Text) (val : Mapping Op) (h : (entries.map (·.1)).Nodup) :
    ((setEntry key val entries).map (·.1)).Nodup := by
  induction entries with
  | nil => simp [setEntry]
  | cons e entries ih =>
    obtain ⟨k, v⟩ := e
    obtain ⟨hk, hrest⟩ := List.nodup_cons.mp h
    by_cases hkey : k = key
    · simpa [setEntry, hkey] using h
    · have hnot : k ∉ (setEntry key val entries).map (·.1) := by
        intro hmem
        obtain ⟨e, he, rfl⟩ := List.mem_map.mp hmem
        rcases mem_setEntry he with rfl | he
        · exact hkey rfl
        · exact hk (List.mem_map.mpr ⟨_, he, rfl⟩)
      simpa [setEntry, hkey] using ⟨by simpa using hnot, ih hrest⟩

/-- What is entered into a table keeps the shape of what is below. -/
lemma enterKey_below (op_desc : Op) {next : Option (Mapping Op → Bool × Mapping Op)}
    (hnext : ∀ build, next = some build → ∀ m : Mapping Op, Shaped m → Shaped (build m).2)
    (key : Text) (h : ∀ e ∈ entries, Shaped e.2) :
    ∃ child, Shaped child ∧ (enterKey op_desc next key entries).2 = setEntry key child entries := by
  have hchild : Shaped ((getEntry key entries).getD .empty) := by
    cases hget : getEntry key entries with
    | none => exact Shaped.empty
    | some child => exact h (key, child) (mem_of_getEntry hget)
  cases next with
  | some build => exact ⟨_, hnext build rfl _ hchild, rfl⟩
  | none =>
    cases hop : ((getEntry key entries).getD .empty).op_desc with
    | some op => exact ⟨_, hchild, by simp [enterKey, hop]⟩
    | none =>
      refine ⟨_, ?_, by simp only [enterKey, hop]; rfl⟩
      generalize (getEntry key entries).getD .empty = child at hchild
      obtain ⟨hconsts, hparams, hdistinct, hbelow, hbelow'⟩ := hchild
      exact ⟨hconsts, hparams, hdistinct, hbelow, hbelow'⟩

/-- One of the two tables of a mapping gets the key. -/
lemma Shaped.enter {parent : Mapping Op} (h : Shaped parent) (op_desc : Op)
    {next : Option (Mapping Op → Bool × Mapping Op)}
    (hnext : ∀ build, next = some build → ∀ m : Mapping Op, Shaped m → Shaped (build m).2)
    (url : Text) :
    Shaped (if isParam url then
      Mapping.mk parent.op_desc parent.consts_map (enterKey op_desc next url parent.params_map).2
      else Mapping.mk parent.op_desc (enterKey op_desc next url parent.consts_map).2
        parent.params_map) := by
  obtain ⟨hconsts, hparams, hdistinct, hbelow, hbelow'⟩ := h
  by_cases hkey : isParam url = true
  · obtain ⟨child, hchild, hset⟩ := enterKey_below op_desc hnext url hbelow'
    simp only [hkey, if_true, Mapping.params_map, Mapping.op_desc, Mapping.consts_map, hset]
    refine ⟨hconsts, ?_, setEntry_distinct _ _ hdistinct, hbelow, ?_⟩
    · intro e he
      rcases mem_setEntry he with rfl | he
      · exact hkey
      · exact hparams e he
    · intro e he
      rcases mem_setEntry he with rfl | he
      · exact hchild
      · exact hbelow' e he
  · obtain ⟨child, hchild, hset⟩ := enterKey_below op_desc hnext url hbelow
    simp only [if_neg hkey, Mapping.params_map, Mapping.op_desc, Mapping.consts_map, hset]
    refine ⟨?_, hparams, hdistinct, ?_, hbelow'⟩
    · intro e he
      rcases mem_setEntry he with rfl | he
      · simpa using hkey
      · exact hconsts e he
    · intro e he
      rcases mem_setEntry he with rfl | he
      · exact hchild
      · exact hbelow e he

lemma buildRestMapRecursively_shaped (op_desc : Op) (url : Text) (next_level_url : List Text)
    {parent : Mapping Op} (h : Shaped parent) :
    Shaped (buildRestMapRecursively op_desc url next_level_url parent).2 := by
  induction next_level_url generalizing url parent with
  | nil =>
    unfold buildRestMapRecursively
    by_cases hvalid : validKey url = false
    · simpa [hvalid] using h
    · have hnext : ∀ build : Mapping Op → Bool × Mapping Op, none = some build →
          ∀ m : Mapping Op, Shaped m → Shaped (build m).2 := by simp
      have h := h.enter op_desc hnext url
      by_cases hkey : isParam url = true <;> simpa [hvalid, hkey] using h
  | cons next rest ih =>
    unfold buildRestMapRecursively
    by_cases hvalid : validKey url = false
    · simpa [hvalid] using h
    · have hnext : ∀ build, some (buildRestMapRecursively op_desc next rest) = some build →
          ∀ m : Mapping Op, Shaped m → Shaped (build m).2 := by
        rintro _ ⟨⟩ m hm
        exact ih next hm
      have h := h.enter op_desc hnext url
      by_cases hkey : isParam url = true <;> simpa [hvalid, hkey] using h

lemma prepareRestMapping_shaped (url : Text) {rest_map : List (Text × Mapping Op)} (op_desc : Op)
    (h : ShapedMap rest_map) : ShapedMap (prepareRestMapping url rest_map op_desc).2 := by
  have hstep : ∀ {next : Option (Mapping Op → Bool × Mapping Op)} (key : Text),
      (∀ build, next = some build → ∀ m : Mapping Op, Shaped m → Shaped (build m).2) →
      ShapedMap (enterKey op_desc next key rest_map).2 := by
    intro next key hnext
    obtain ⟨child, hchild, hset⟩ := enterKey_below op_desc hnext key h.below
    rw [hset]
    refine ⟨setEntry_distinct _ _ h.distinct, ?_⟩
    intro e he
    rcases mem_setEntry he with rfl | he
    · exact hchild
    · exact h.below e he
  unfold prepareRestMapping
  generalize components url = split
  obtain ⟨url, next_level_url⟩ := split
  by_cases hvalid : validKey url = false
  · simpa [hvalid] using h
  · simp only [if_neg hvalid]
    cases next_level_url with
    | nil => exact hstep url (by simp)
    | cons next rest =>
      refine hstep url ?_
      rintro _ ⟨⟩ m hm
      exact buildRestMapRecursively_shaped op_desc next rest hm

end Shape

end Axis2C.RestDispatch
