import Axis2C.HashMapLaws
import Axis2C.Properties

/-!
# Storing properties and loading them

The loader takes the byte behind an equal sign for the first one of the value, also the line
feed behind an empty value, which then goes on to the end of the next line. A set of
properties comes back exactly if no value is empty.
-/
namespace Axis2C.Properties
open HashTable

/-- A key or a value as it can be stored. -/
structure Storable (text : Bytes) : Prop where
  plain : ∀ c ∈ text, c ≠ 0 ∧ c ≠ 10 ∧ c ≠ 13 ∧ c ≠ 35 ∧ c ≠ 61 ∧ c ≠ 92
  head : text.head? ≠ some 32
  last : text.getLast? ≠ some 32

/-- A property that can be stored. -/
structure StorableProperty (property : Bytes × Bytes) : Prop where
  key : Storable property.1
  key_ne : property.1 ≠ []
  value : Storable property.2

/-- The properties of an object after any calls. -/
inductive Reached : PropHash → Prop
  | create : Reached hashMake
  | setProperty {hash} (key : Bytes) (value : Option Bytes) :
      Reached hash → Reached (setProperty hash key value)
  | load {hash} (file : Bytes) : Reached hash → Reached (load hash file).2

/-- The key and value pairs of an object. -/
def properties (hash : PropHash) : Set (Bytes × Bytes) :=
  {property | (property.1, some property.2) ∈ hashIterate hash}

/-- The stored text is loaded into an empty object with success, and gives the same set. -/
def RoundTrips (hash : PropHash) : Prop :=
  ∃ loaded, load hashMake (store hash) = (true, loaded) ∧ properties loaded = properties hash

section Texts

lemma strdup_eq_self {text : Bytes} (h : ∀ c ∈ text, c ≠ 0) : strdup text = text :=
  List.takeWhile_eq_self_iff.mpr (by simpa using h)

/-- Nothing is cut off a text that can be stored. -/
lemma trunkAndDup_eq_self {text : Bytes} (h : Storable text) : trunkAndDup text = text := by
  have hfront : text.dropWhile (· = 32) = text := by
    cases text with
    | nil => rfl
    | cons c text =>
      have hc : c ≠ 32 := by simpa using h.head
      rw [List.dropWhile_cons_of_neg (by simpa using hc)]
  have hrear : text.rdropWhile (· = 32) = text := by
    rw [List.rdropWhile_eq_self_iff]
    intro hne hspace
    exact h.last (by simpa [List.getLast?_eq_some_getLast hne] using hspace)
  rw [trunkAndDup, hfront, hrear]
  exact strdup_eq_self fun c hc => (h.plain c hc).1

lemma trunkAndDup_line_feed (text : Bytes) : trunkAndDup (10 :: text) ≠ [] := by
  have hfront : (10 :: text).dropWhile (· = 32) = 10 :: text :=
    List.dropWhile_cons_of_neg (by decide)
  have hrear : ∃ more, (10 :: text).rdropWhile (· = 32) = 10 :: more := by
    have hkeeps := List.rdropWhile_prefix (· = 32) (10 :: text)
    cases hkept : (10 :: text).rdropWhile (· = 32) with
    | nil =>
      have hall := List.rdropWhile_eq_nil_iff.mp hkept
      exact absurd (hall 10 (by simp)) (by decide)
    | cons c more =>
      rw [hkept, List.cons_prefix_cons] at hkeeps
      exact ⟨more, by rw [hkeeps.1]⟩
  obtain ⟨more, hmore⟩ := hrear
  rw [trunkAndDup, hfront, hmore, strdup]
  simp

end Texts

section Scanning

variable {text : Bytes}

/-- The next byte is not passed over. -/
def Calm (rest : Bytes) : Prop := ∀ c ∈ rest.head?, c ≠ 35 ∧ c ≠ 92

lemma readNext_calm {rest : Bytes} (h : Calm rest) : readNext rest = ([], rest) := by
  unfold readNext
  split
  · exact absurd rfl (h 35 rfl).1
  · exact absurd rfl (h 92 rfl).2
  · rfl

variable {s : LoadState} {c : UInt8} {rest : Bytes}

lemma loadLoop_cons (hc : c ≠ 0) (hrest : Calm rest) :
    loadLoop s (c :: rest) = loadLoop (loadStep s c) rest := by
  rw [loadLoop, if_neg hc, readNext_calm hrest]
  simp

lemma calm_cons (hc : c ≠ 35 ∧ c ≠ 92) : Calm (c :: rest) := by
  intro d hd
  obtain rfl := Option.some.inj hd
  exact hc

/-- No byte that means something within a value. -/
def Plain (text : Bytes) : Prop := ∀ c ∈ text, c ≠ 0 ∧ c ≠ 10 ∧ c ≠ 13 ∧ c ≠ 35 ∧ c ≠ 92

lemma Storable.plain_text (h : Storable text) : Plain text := by
  intro c hc
  obtain ⟨hnul, hfeed, hreturn, hhash, -, hslash⟩ := h.plain c hc
  exact ⟨hnul, hfeed, hreturn, hhash, hslash⟩

lemma Plain.calm_append (h : Plain text) (hrest : Calm rest) :
    Calm (text ++ rest) := by
  cases text with
  | nil => exact hrest
  | cons c text =>
    obtain ⟨-, -, -, hhash, hslash⟩ := h c (by simp)
    exact calm_cons ⟨hhash, hslash⟩

/-- Bytes within a key or a value are left in the tag. -/
lemma loadLoop_scan (htext : Plain text)
    (hstatus : s.status = .lineMidway ∧ 61 ∉ text ∨ s.status = .lineHalfway) (hrest : Calm rest) :
    loadLoop s (text ++ rest) = loadLoop { s with tag := s.tag ++ text } rest := by
  induction text generalizing s with
  | nil => simp
  | cons c text ih =>
    obtain ⟨⟨hnul, hfeed, hreturn, -, -⟩, htext⟩ := List.forall_mem_cons.mp htext
    simp only [List.mem_cons, not_or] at hstatus
    have hstep : loadStep s c = { s with tag := s.tag ++ [c] } := by
      unfold loadStep
      rcases hstatus with ⟨hmidway, hequal, -⟩ | hhalfway
      · simp [hreturn, hmidway, Ne.symm hequal, hfeed]
      · simp [hreturn, hhalfway, hfeed]
    rw [List.cons_append, loadLoop_cons hnul (Plain.calm_append htext hrest), hstep, ih htext (by
      rcases hstatus with ⟨hmidway, -, hmore⟩ | hhalfway
      · exact Or.inl ⟨hmidway, hmore⟩
      · exact Or.inr hhalfway)]
    simp

end Scanning

section Lines

/-- The text of these properties. -/
def written (entries : List (Bytes × Bytes)) : Bytes :=
  entries.flatMap fun property => property.1 ++ 61 :: (property.2 ++ [10])

@[simp] lemma written_nil : written [] = [] := rfl

@[simp] lemma written_cons (key value : Bytes) (entries : List (Bytes × Bytes)) :
    written ((key, value) :: entries) = key ++ 61 :: (value ++ 10 :: written entries) := by
  simp [written]

def loadedSets : List (Bytes × Bytes) → List (Bytes × Bytes)
  | [] => []
  | [(key, [])] => [(key, trunkAndDup [10])]
  | (key, []) :: (key', value') :: entries =>
    (key, trunkAndDup (10 :: (key' ++ 61 :: value'))) :: loadedSets entries
  | (key, c :: value) :: entries => (key, c :: value) :: loadedSets entries

lemma loadedSets_ne_nil (entries : List (Bytes × Bytes)) : ∀ p ∈ loadedSets entries, p.2 ≠ [] := by
  fun_induction loadedSets entries with
  | case1 => simp
  | case2 key => simpa using trunkAndDup_line_feed []
  | case3 key key' value' entries ih =>
    intro p hp
    obtain rfl | hp := List.mem_cons.mp hp
    · exact trunkAndDup_line_feed _
    · exact ih p hp
  | case4 key c value entries ih => simpa using ih

lemma loadedSets_keys (entries : List (Bytes × Bytes)) :
    ((loadedSets entries).map Prod.fst).Sublist (entries.map Prod.fst) := by
  fun_induction loadedSets entries with
  | case1 | case2 key => simp
  | case3 key key' value' entries ih => exact (ih.cons key').cons_cons key
  | case4 key c value entries ih => exact ih.cons_cons key

lemma loadedSets_eq_self {entries : List (Bytes × Bytes)} (h : ∀ p ∈ entries, p.2 ≠ []) :
    loadedSets entries = entries := by
  fun_induction loadedSets entries with
  | case1 => rfl
  | case2 key | case3 key key' value' entries ih => exact absurd rfl (h (key, []) (by simp))
  | case4 key c value entries ih =>
    rw [ih fun p hp => h p (List.mem_cons_of_mem _ hp)]

variable {entries : List (Bytes × Bytes)} {s : LoadState}

lemma calm_written (h : ∀ p ∈ entries, StorableProperty p) : Calm (written entries) := by
  cases entries with
  | nil => simp [Calm, written]
  | cons p entries =>
    have hp := h p (by simp)
    rw [show p = (p.1, p.2) from rfl, written_cons]
    exact hp.key.plain_text.calm_append (calm_cons (by decide))

/-- A key, its equal sign and the byte behind. -/
lemma loadLoop_key {key rest : Bytes} {c : UInt8} (hkey : Storable key) (hne : key ≠ [])
    (hs : s.status = .lineStarted) (hc : c ≠ 0 ∧ c ≠ 13 ∧ c ≠ 35 ∧ c ≠ 92) (hrest : Calm rest) :
    loadLoop s (key ++ 61 :: c :: rest) =
      loadLoop { s with status := .lineHalfway, tag := [c], key := key } rest := by
  obtain ⟨first, key', rfl⟩ := List.exists_cons_of_ne_nil hne
  obtain ⟨⟨hnul, hfeed, hreturn, -, -⟩, hmore⟩ := List.forall_mem_cons.mp hkey.plain_text
  have hno : 61 ∉ key' := fun hmem => (hkey.plain 61 (by simp [hmem])).2.2.2.2.1 rfl
  have hequal : Calm (61 :: c :: rest) := calm_cons (by decide)
  have hstart : loadStep s first = { s with status := .lineMidway, tag := [first] } := by
    simp [loadStep, hfeed, hreturn, hs]
  rw [List.cons_append, loadLoop_cons hnul (Plain.calm_append hmore hequal), hstart,
    loadLoop_scan hmore (Or.inl ⟨rfl, hno⟩) hequal, loadLoop_cons (by decide) (calm_cons hc.2.2),
    loadLoop_cons hc.1 hrest]
  congr 1
  have hcut : trunkAndDup (first :: key') = first :: key' := trunkAndDup_eq_self hkey
  simp [loadStep, hcut, hc.2.1]

lemma loadLoop_line_end {text rest : Bytes} (htext : Plain text)
    (hs : s.status = .lineHalfway) (hrest : Calm rest) :
    ∃ next, loadLoop s (text ++ 10 :: rest) = loadLoop next rest ∧ next.status = .lineStarted ∧
      next.hash = hashSet s.hash (.string s.key) (some (trunkAndDup (s.tag ++ text))) := by
  have hfeed : Calm (10 :: rest) := calm_cons (by decide)
  refine ⟨_, by rw [loadLoop_scan htext (Or.inr hs) hfeed, loadLoop_cons (by decide) hrest], ?_, ?_⟩
  · simp [loadStep, hs]
  · simp [loadStep, hs, LoadState.setTag]

def setAll (hash : PropHash) (sets : List (Bytes × Bytes)) : PropHash :=
  sets.foldl (fun hash property => hashSet hash (.string property.1) (some property.2)) hash

lemma setAll_cons (hash : PropHash) (property : Bytes × Bytes) (sets : List (Bytes × Bytes)) :
    setAll hash (property :: sets) =
      setAll (hashSet hash (.string property.1) (some property.2)) sets := rfl

/-- Every line is read from its start, with what the line before it has left. -/
theorem load_written (h : ∀ p ∈ entries, StorableProperty p) (hs : s.status = .lineStarted) :
    loadEnd (loadLoop s (written entries)) = (true, setAll s.hash (loadedSets entries)) := by
  fun_induction loadedSets entries generalizing s with
  | case1 =>
    rw [written_nil, loadLoop, loadEnd]
    simp [hs, setAll]
  | case2 key =>
    -- the line feed is the value, and the text ends behind it
    have hkey := h (key, []) (by simp)
    rw [written_cons, List.nil_append,
      loadLoop_key hkey.key hkey.key_ne hs (by decide) (calm_written (by simp)),
      written_nil, loadLoop, loadEnd]
    simp [LoadState.setTag, setAll]
  | case3 key key' value' entries ih =>
    -- the line feed begins a value that has the whole next line
    have hkey := h (key, []) (by simp)
    have hnext := h (key', value') (by simp)
    have hmore : ∀ p ∈ entries, StorableProperty p := fun p hp => h p (by simp [hp])
    have hline : Plain (key' ++ 61 :: value') := by
      intro c hc
      simp only [List.mem_append, List.mem_cons] at hc
      obtain hc | rfl | hc := hc
      · exact hnext.key.plain_text c hc
      · decide
      · exact hnext.value.plain_text c hc
    rw [written_cons, List.nil_append, loadLoop_key hkey.key hkey.key_ne hs (by decide)
      (calm_written fun p hp => h p (List.mem_cons_of_mem _ hp)), written_cons,
      ← List.cons_append, ← List.append_assoc]
    obtain ⟨next, hloop, hstatus, hhash⟩ :=
      loadLoop_line_end (s := { s with status := .lineHalfway, tag := [10], key := key })
        hline rfl (calm_written hmore)
    rw [hloop, ih hmore hstatus, hhash, setAll_cons]
    rfl
  | case4 key c value entries ih =>
    have hkey := h (key, c :: value) (by simp)
    have hmore : ∀ p ∈ entries, StorableProperty p := fun p hp => h p (by simp [hp])
    obtain ⟨hfirst, hvalue⟩ := List.forall_mem_cons.mp hkey.value.plain_text
    have hcalm : Calm (value ++ 10 :: written entries) :=
      Plain.calm_append hvalue (calm_cons (by decide))
    rw [written_cons, List.cons_append, loadLoop_key hkey.key hkey.key_ne hs
      ⟨hfirst.1, hfirst.2.2⟩ hcalm]
    obtain ⟨next, hloop, hstatus, hhash⟩ :=
      loadLoop_line_end (s := { s with status := .lineHalfway, tag := [c], key := key })
        hvalue rfl (calm_written hmore)
    have hcut : trunkAndDup ([c] ++ value) = c :: value := trunkAndDup_eq_self hkey.value
    rw [hloop, ih hmore hstatus, hhash, hcut, setAll_cons]

end Lines

section Sets

/-- The hash table of properties: a value at every key that is there. -/
def Valued (hash : PropHash) : Prop :=
  ∃ g : Bytes → Option Bytes, Represents hash fun key => (g key).map some

lemma Valued.hashSet {hash : PropHash} (h : Valued hash) (k : KeyArg) (value : Option Bytes) :
    Valued (hashSet hash k value) := by
  obtain ⟨g, hg⟩ := h
  have hset := hg.hashSet k value
  rw [show Function.update (fun key => (g key).map some) k.content (value.map some) =
      fun key => (Function.update g k.content value key).map some from
    (Function.comp_update (Option.map some) g k.content value).symm] at hset
  exact ⟨_, hset⟩

lemma valued_loadStep {s : LoadState} (h : Valued s.hash) (c : UInt8) :
    Valued (loadStep s c).hash := by
  unfold loadStep
  split_ifs
  · exact h
  · exact h
  · exact h
  · exact h
  · exact h.hashSet _ _
  · exact h
  · exact h

lemma valued_loadLoop {s : LoadState} (h : Valued s.hash) (buffer : Bytes) :
    Valued (loadLoop s buffer).hash := by
  fun_induction loadLoop s buffer with
  | case1 s | case2 s rest => exact h
  | case3 s c rest hc next ih => exact ih (valued_loadStep h c)

/-- Whatever is set and loaded, no key is left without a value. -/
theorem Reached.valued {hash : PropHash} (h : Reached hash) : Valued hash := by
  induction h with
  | create => exact ⟨fun _ => none, represents_hashMake⟩
  | setProperty key value _ ih =>
    unfold Properties.setProperty
    split
    · exact ih.hashSet _ _
    · exact ih.hashSet _ _
  | @load hash file _ ih =>
    have hloop := valued_loadLoop (s := ⟨.lineStarted, [], [], hash⟩) ih (readNext file).2
    unfold Properties.load loadEnd
    split
    · exact hloop.hashSet _ _
    · exact hloop

/-- The properties in the order of the hash table. -/
def entriesOf (hash : PropHash) : List (Bytes × Bytes) :=
  (hashIterate hash).map fun property => (property.1, property.2.getD [])

variable {hash : PropHash}

lemma Valued.mem_entriesOf (h : Valued hash) (property : Bytes × Bytes) :
    property ∈ entriesOf hash ↔ property ∈ properties hash := by
  obtain ⟨g, buckets, frees, live, L, hm⟩ := h
  have hiterate := L.mem_iterate hm
  simp only [entriesOf, List.mem_map, properties, Set.mem_ofPred_eq]
  constructor
  · rintro ⟨⟨key, val⟩, hmem, rfl⟩
    obtain ⟨value, -, rfl⟩ := Option.map_eq_some_iff.mp ((hiterate key val).mp hmem)
    exact hmem
  · intro hmem
    exact ⟨_, hmem, rfl⟩

lemma Valued.nodup_entriesOf (h : Valued hash) : ((entriesOf hash).map Prod.fst).Nodup := by
  obtain ⟨g, buckets, frees, live, L, hm⟩ := h
  rw [entriesOf, List.map_map]
  exact L.nodup_keys

lemma store_eq_written (h : ∀ p ∈ entriesOf hash, StorableProperty p) :
    store hash = written (entriesOf hash) := by
  rw [store, written, entriesOf, List.flatMap_map]
  refine List.flatMap_congr fun property hmem => ?_
  have hp := h _ (List.mem_map_of_mem hmem)
  rw [strdup_eq_self fun c hc => (hp.key.plain c hc).1,
    strdup_eq_self fun c hc => (hp.value.plain c hc).1]

section

variable {sets : List (Bytes × Bytes)} (hkeys : (sets.map Prod.fst).Nodup)
  (hplain : ∀ p ∈ sets, ∀ c ∈ p.1, c ≠ 0)

include hkeys hplain

lemma lastSet_eq_some_iff (key value : Bytes) :
    lastSet (sets.map fun p => (KeyArg.string p.1, some p.2)) key = some value ↔
      (key, value) ∈ sets := by
  induction sets using List.reverseRecOn with
  | nil => simp [lastSet]
  | append_singleton sets p ih =>
    rw [List.map_append, List.nodup_append] at hkeys
    obtain ⟨hkeys, -, hapart⟩ := hkeys
    have hcontent : (KeyArg.string p.1).content = p.1 :=
      strdup_eq_self fun c hc => hplain p (by simp) c hc
    have hold := ih hkeys fun q hq => hplain q (by simp [hq])
    rw [List.map_append, lastSet, List.foldl_append]
    change Function.update (lastSet _) (KeyArg.string p.1).content (some p.2) key = _ ↔ _
    rw [hcontent, List.mem_append, List.mem_singleton]
    by_cases hkey : key = p.1
    · subst hkey
      have hfresh : (p.1, value) ∉ sets := fun hmem =>
        hapart p.1 (List.mem_map.mpr ⟨_, hmem, rfl⟩) p.1 (by simp) rfl
      rw [Function.update_self, Option.some_inj]
      constructor
      · rintro rfl
        exact Or.inr rfl
      · rintro (hmem | hsame)
        · exact absurd hmem hfresh
        · exact (congrArg Prod.snd hsame).symm
    · rw [Function.update_of_ne hkey, hold, or_iff_left]
      rintro rfl
      exact hkey rfl

/-- What the loader sets is what is in the new object. -/
theorem properties_setAll : properties (setAll hashMake sets) = {p | p ∈ sets} := by
  have hrun : setAll hashMake sets = hashRun (sets.map fun p => (KeyArg.string p.1, some p.2)) := by
    rw [hashRun, List.foldl_map, setAll]
  obtain ⟨buckets, frees, live, L, hm⟩ :=
    represents_hashRun (sets.map fun p => (KeyArg.string p.1, some p.2))
  ext ⟨key, value⟩
  rw [properties, Set.mem_ofPred_eq, hrun, L.mem_iterate hm, Set.mem_ofPred_eq,
    ← lastSet_eq_some_iff hkeys hplain]
  simp

end

end Sets

section RoundTrip

variable {hash : PropHash}

/-- The loaded object has the properties that the lines set. -/
theorem load_store (h : Valued hash) (hp : ∀ p ∈ entriesOf hash, StorableProperty p) :
    ∃ loaded, load hashMake (store hash) = (true, loaded) ∧
      properties loaded = {p | p ∈ loadedSets (entriesOf hash)} := by
  have hsub := loadedSets_keys (entriesOf hash)
  refine ⟨setAll hashMake (loadedSets (entriesOf hash)), ?_, properties_setAll ?_ ?_⟩
  · rw [store_eq_written hp, load, readNext_calm (calm_written hp), load_written hp rfl]
  · exact hsub.nodup h.nodup_entriesOf
  · intro p hmem c hc
    obtain ⟨q, hq, hkey⟩ := List.mem_map.mp (hsub.subset (List.mem_map_of_mem hmem))
    exact ((hp q hq).key.plain c (hkey ▸ hc)).1

/-- Storing and loading gives the same set if and only if no value is empty. -/
theorem properties_round_trip_iff (hash : PropHash) (h : Reached hash)
    (hp : ∀ p ∈ properties hash, StorableProperty p) :
    RoundTrips hash ↔ ∀ p ∈ properties hash, p.2 ≠ [] := by
  have hmem := h.valued.mem_entriesOf
  simp only [← hmem] at hp ⊢
  obtain ⟨loaded, hload, hsets⟩ := load_store h.valued hp
  constructor
  · rintro ⟨loaded', hload', hsame⟩ p hin
    rw [hload, Prod.mk.injEq] at hload'
    obtain ⟨-, rfl⟩ := hload'
    rw [hmem, ← hsame, hsets] at hin
    exact loadedSets_ne_nil _ p hin
  · intro hvalues
    refine ⟨loaded, hload, ?_⟩
    rw [hsets, loadedSets_eq_self hvalues]
    exact Set.ext hmem

/-- An empty value is loaded as a line feed. -/
theorem empty_value_is_lost :
    Reached (setProperty hashMake [107] (some [])) ∧
      (∀ p ∈ properties (setProperty hashMake [107] (some [])), StorableProperty p) ∧
      load hashMake (store (setProperty hashMake [107] (some []))) =
        (true, hashSet hashMake (.string [107]) (some [10])) ∧
      properties (hashSet hashMake (.string [107]) (some [10])) = {([107], [10])} ∧
      ¬ RoundTrips (setProperty hashMake [107] (some [])) := by
  have hreached : Reached (setProperty hashMake [107] (some [])) := .setProperty _ _ .create
  have hentries : entriesOf (setProperty hashMake [107] (some [])) = [([107], [])] := by decide
  have hp : ∀ p ∈ entriesOf (setProperty hashMake [107] (some [])), StorableProperty p := by
    rw [hentries, List.forall_mem_singleton]
    exact ⟨⟨by simp, by decide, by decide⟩, by decide, ⟨by simp, by decide, by decide⟩⟩
  have hload : load hashMake (store (setProperty hashMake [107] (some []))) =
      (true, hashSet hashMake (.string [107]) (some [10])) := by
    rw [store_eq_written hp, load, readNext_calm (calm_written hp), load_written hp rfl, hentries]
    rfl
  have hloaded : properties (hashSet hashMake (.string [107]) (some [10])) = {([107], [10])} := by
    have hsets : properties (setAll hashMake [([107], [10])]) = {p | p ∈ [([107], [10])]} :=
      properties_setAll (by simp) (by simp)
    simpa [setAll] using hsets
  refine ⟨hreached, ?_, hload, hloaded, ?_⟩
  · simpa only [hreached.valued.mem_entriesOf] using hp
  · rintro ⟨loaded, hload', hsame⟩
    rw [hload, Prod.mk.injEq] at hload'
    obtain ⟨-, rfl⟩ := hload'
    have hin : ([107], []) ∈ entriesOf (setProperty hashMake [107] (some [])) := by
      simp [hentries]
    rw [hreached.valued.mem_entriesOf, ← hsame, hloaded] at hin
    simp at hin

/-- One property and its value, stored and loaded. -/
theorem properties_round_trip_one :
    RoundTrips (setProperty hashMake [97] (some [98])) ↔
      ∀ p ∈ properties (setProperty hashMake [97] (some [98])), p.2 ≠ [] :=
  properties_round_trip_iff _ (.setProperty _ _ .create) (by
    intro p hp
    have hone : hashIterate (setProperty hashMake [97] (some [98])) = [([97], some [98])] := by
      decide
    rw [properties, Set.mem_ofPred_eq, hone, List.mem_singleton, Prod.mk.injEq, Option.some_inj]
      at hp
    obtain rfl : p = ([97], [98]) := Prod.ext hp.1 hp.2
    exact ⟨⟨by simp, by decide, by decide⟩, by decide, ⟨by simp, by decide, by decide⟩⟩)

end RoundTrip

end Axis2C.Properties
