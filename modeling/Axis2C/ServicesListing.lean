import Axis2C.HashMapLaws

/-!
# The listing of the services

`axis2_http_transport_utils_get_services_html` goes over three kinds of hash tables. The loops
over services and operations go on with the index that `axutil_hash_next` returns. The loop over
the faulty services keeps the index it began with, which is freed behind the last entry.
-/
namespace Axis2C.ServicesListing
open HashTable

abbrev Text := List UInt8

/-- The bytes of a literal. -/
def lit (s : String) : Text := s.toUTF8.data.toList

/-- A hash table with the map that it stands for. -/
structure Table (V : Type) where
  hash : Hash V
  map : Text → Option V
  represents : Represents hash fun key => (map key).map some

/-- A service, with the names of its operations in `op_alias_map`. -/
structure Svc where
  localname : Text
  svc_desc : Option Text
  op_alias_map : Option (Table Text)

structure SvcGrp where
  svcs : Option (Table Svc)

/-- `axis2_conf_t` -/
structure Conf where
  svc_grps : Option (Table SvcGrp)
  all_svcs : Table Svc
  faulty_svcs : Option (Table Unit)

section Source

variable {V S : Type}

/-- `for (hi = axutil_hash_first(ht, env); hi; hi = axutil_hash_next(env, hi))`; without a
result when the rounds are not enough or the value is NULL. -/
def eachFrom (ht : Hash V) (body : S → Text → V → Option S) : ℕ → Option HashIndex → S → Option S
  | _, none, s => some s
  | 0, some _, _ => none
  | fuel + 1, some hi, s => do
    let he ← hi.this
    let val ← (ht.heap he).val
    let s ← body s (ht.heap he).key val
    eachFrom ht body fuel (hashNextImpl ht hi) s

def eachEntry (ht : Hash V) (body : S → Text → V → Option S) (s : S) : Option S :=
  eachFrom ht body (ht.brk + 1) (hashFirstImpl ht) s

/-- A table that may be NULL. -/
def eachOf (ht : Option (Table V)) (body : S → Text → V → Option S) (s : S) : Option S :=
  match ht with
  | none => some s
  | some ht => eachEntry ht.hash body s

/-- `axis2_conf_get_all_svcs` -/
def getAllSvcs (conf : Conf) : Option (Hash Svc) :=
  eachOf conf.svc_grps (fun all_svcs _ svc_grp =>
    eachOf svc_grp.svcs (fun all_svcs _ svc =>
      some (hashSet all_svcs (.string svc.localname) (some svc))) all_svcs) conf.all_svcs.hash

/-- `ht && 0 != axutil_hash_count(ht)` -/
def filled (ht : Option (Table V)) : Bool :=
  match ht with
  | none => false
  | some ht => hashCount ht.hash ≠ 0

/-- What is added for an operation. -/
def opHtml (tmp : Text) (oname : Text) : Text := tmp ++ lit "<li>" ++ oname ++ lit "</li>"

/-- What is added for a service. -/
def svcHtml (tmp : Text) (service : Svc) : Option Text := do
  let tmp := tmp ++ lit "<h3><u>" ++ service.localname ++ lit "</u></h3><p>" ++
    service.svc_desc.getD [] ++ lit "</p>"
  if filled service.op_alias_map then
    let tmp ← eachOf service.op_alias_map (fun tmp _ oname => some (opHtml tmp oname))
      (tmp ++ lit "<i>Available Operations</i> <ul>")
    return tmp ++ lit "</ul>"
  else return tmp ++ lit "No operations Available"

/-- The index that the loop over the faulty services holds: NULL, one in use, or one that was
freed. -/
inductive Pointer where
  | null
  | live (hi : HashIndex)
  | freed

def Pointer.of : Option HashIndex → Pointer
  | none => .null
  | some hi => .live hi

/-- The loop over the faulty services. What `axutil_hash_next` returns is not used; reading a
freed index has no result. -/
def faultyLoop (ht : Hash Unit) : ℕ → Pointer → Text → Option Text
  | _, .null, tmp => some tmp
  | _, .freed, _ => none
  | 0, .live _, _ => none
  | fuel + 1, .live hi, tmp => do
    let he ← hi.this
    let tmp := tmp ++ lit "<h3><font color=\"red\">" ++ (ht.heap he).key ++ lit "</font></h3>"
    match hashNextImpl ht hi with
    | some hi => faultyLoop ht fuel (.live hi) tmp
    | none => faultyLoop ht fuel .freed tmp

def faultyHead : Text :=
  lit "<hr><h2><font color=\"red\">Faulty                 Services</font></h2>"

def faultyHtml (fuel : ℕ) (errorneous_svc_map : Option (Table Unit)) (tmp : Text) : Option Text :=
  match errorneous_svc_map with
  | none => some tmp
  | some ht =>
    if hashCount ht.hash ≠ 0 then
      faultyLoop ht.hash fuel (.of (hashFirstImpl ht.hash)) (tmp ++ faultyHead)
    else some tmp

/-- `axis2_http_transport_utils_get_services_html`; `fuel` is for the loop over the faulty
services. -/
def getServicesHtml (fuel : ℕ) (conf : Conf) : Option Text := do
  let services_map ← getAllSvcs conf
  let tmp := lit "<h2>Deployed Services</h2>"
  let tmp ← if hashCount services_map ≠ 0 then
      eachEntry services_map (fun tmp _ service => svcHtml tmp service) tmp
    else some tmp
  let tmp ← faultyHtml fuel conf.faulty_svcs tmp
  let tmp := if hashCount services_map = 0 ∧ filled conf.faulty_svcs = false then
    lit "<h2>There are no services deployed</h2>" else tmp
  return lit "<html><head><title>Axis2C :: Services</title></head><body><font face=\"courier\">" ++
    tmp ++ lit "</font></body></html>\r\n"

end Source

section Page

variable {V : Type}

/-- The entries of a table that may be NULL. -/
def mapOf (ht : Option (Table V)) (key : Text) : Option V := ht.bind (·.map key)

def EachOnce (entries : List (Text × V)) (map : Text → Option V) : Prop :=
  (entries.map Prod.fst).Nodup ∧ ∀ key val, (key, val) ∈ entries ↔ map key = some val

/-- The part of the page for a service with these operations. -/
def svcEntry (service : Svc) (onames : List Text) : Text :=
  lit "<h3><u>" ++ service.localname ++ lit "</u></h3><p>" ++ service.svc_desc.getD [] ++
    lit "</p>" ++ if onames = [] then lit "No operations Available" else
      lit "<i>Available Operations</i> <ul>" ++
        (onames.flatMap fun oname => lit "<li>" ++ oname ++ lit "</li>") ++ lit "</ul>"

def faultyEntry (fsname : Text) : Text :=
  lit "<h3><font color=\"red\">" ++ fsname ++ lit "</font></h3>"

/-- The page with these services, each with its operations, and these faulty services. -/
def page (services : List (Svc × List Text)) (faulty : List Text) : Text :=
  lit "<html><head><title>Axis2C :: Services</title></head><body><font face=\"courier\">" ++
    (if services = [] ∧ faulty = [] then lit "<h2>There are no services deployed</h2>" else
      lit "<h2>Deployed Services</h2>" ++ (services.flatMap fun s => svcEntry s.1 s.2) ++
        if faulty = [] then [] else
          faultyHead ++ faulty.flatMap faultyEntry) ++
    lit "</font></body></html>\r\n"

/-- The function returns a page with every deployed service, every operation of it and every
faulty service, each once. -/
def ListsAll (conf : Conf) : Prop :=
  ∃ fuel faulty, ∃ svcs : Table Svc, ∃ services, ∃ ops : Svc → List (Text × Text),
    getAllSvcs conf = some svcs.hash ∧ EachOnce services svcs.map ∧
    (∀ service, EachOnce (ops service) (mapOf service.op_alias_map)) ∧
    EachOnce faulty (mapOf conf.faulty_svcs) ∧
    getServicesHtml fuel conf = some (page
      (services.map fun s => (s.2, (ops s.2).map Prod.snd)) (faulty.map Prod.fst))

end Page

section Loops

variable {V S : Type}

/-- A loop that goes on with the returned index goes over each entry once. -/
lemma eachFrom_spec {ht : Hash V} {buckets : ℕ → List ℕ} {body : S → Text → V → Option S}
    (inv : List (Text × V) → S → Prop)
    (hbody : ∀ done key val s, inv done s →
      ∃ s', body s key val = some s' ∧ inv (done ++ [(key, val)]) s')
    {fuel : ℕ} {hi : Option HashIndex} {pending : List ℕ} {entries done : List (Text × V)} {s : S}
    (hvisits : Visits ht buckets hi pending)
    (hentries : pending.map (fun r => ((ht.heap r).key, (ht.heap r).val)) =
      entries.map fun e => (e.1, some e.2))
    (hfuel : pending.length ≤ fuel) (h : inv done s) :
    ∃ s', eachFrom ht body fuel hi s = some s' ∧ inv (done ++ entries) s' := by
  induction fuel generalizing hi pending entries done s with
  | zero =>
    obtain rfl : pending = [] := List.length_eq_zero_iff.mp (by omega)
    obtain rfl : entries = [] := by simpa using hentries
    cases hi with
    | none => exact ⟨s, rfl, by simpa using h⟩
    | some hi => exact hvisits.elim
  | succ fuel ih =>
    cases hi with
    | none =>
      obtain rfl : pending = [] := hvisits
      obtain rfl : entries = [] := by simpa using hentries
      exact ⟨s, rfl, by simpa using h⟩
    | some hi =>
      cases pending with
      | nil => exact hvisits.elim
      | cons he rest =>
        obtain ⟨hthis, hchains, tail, htail, rfl⟩ := hvisits
        cases entries with
        | nil => simp at hentries
        | cons e entries =>
          obtain ⟨key, val⟩ := e
          rw [List.map_cons, List.map_cons] at hentries
          obtain ⟨hentry, hrest⟩ := List.cons.inj hentries
          obtain ⟨hkey, hval⟩ := Prod.mk.inj hentry
          obtain ⟨s₁, hs₁, hinv⟩ := hbody done key val s h
          obtain ⟨s', hs', hend⟩ := ih (hashNextImpl_visits hi tail hchains htail) hrest
            (by simp only [List.length_cons] at hfuel; omega) hinv
          refine ⟨s', ?_, by simpa using hend⟩
          simp [eachFrom, hthis, hval, hkey, hs₁, hs']

lemma Table.entries (t : Table V) : ∃ entries : List (Text × V), EachOnce entries t.map ∧
    hashIterate t.hash = entries.map (fun e => (e.1, some e.2)) ∧
    (entries = [] ↔ hashCount t.hash = 0) := by
  obtain ⟨buckets, frees, live, L, hm⟩ := t.represents
  -- no entry without a value
  have hvals : ∀ e ∈ hashIterate t.hash, ∃ val, e.2 = some val := by
    rintro ⟨key, val⟩ he
    obtain ⟨v, -, hv⟩ := Option.map_eq_some_iff.mp ((L.mem_iterate hm key val).mp he)
    exact ⟨v, hv.symm⟩
  obtain ⟨entries, hentries⟩ : ∃ entries : List (Text × V),
      hashIterate t.hash = entries.map fun e => (e.1, some e.2) := by
    refine ⟨(hashIterate t.hash).filterMap fun e => e.2.map (e.1, ·), ?_⟩
    generalize hashIterate t.hash = es at hvals
    induction es with
    | nil => rfl
    | cons e es ih =>
      obtain ⟨key, val⟩ := e
      obtain ⟨v, rfl⟩ : ∃ v, val = some v := hvals (key, val) List.mem_cons_self
      have hrest := ih fun e' he' => hvals e' (List.mem_cons_of_mem _ he')
      rw [List.filterMap_cons, Option.map_some, List.map_cons, ← hrest]
  refine ⟨entries, ⟨?_, fun key val => ?_⟩, hentries, ?_⟩
  · have hnodup := L.nodup_keys
    rw [hentries, List.map_map] at hnodup
    exact hnodup
  · have hmem := L.mem_iterate hm key (some val)
    rw [hentries] at hmem
    simpa using hmem
  · rw [← L.length_iterate, hentries, List.length_map, List.length_eq_zero_iff]

/-- A loop over a table keeps what each of its rounds keeps. -/
lemma Table.eachEntry_spec (t : Table V) {entries : List (Text × V)}
    (hentries : hashIterate t.hash = entries.map fun e => (e.1, some e.2))
    {body : S → Text → V → Option S} (inv : List (Text × V) → S → Prop)
    (hbody : ∀ done key val s, inv done s →
      ∃ s', body s key val = some s' ∧ inv (done ++ [(key, val)]) s') {s : S} (h : inv [] s) :
    ∃ s', eachEntry t.hash body s = some s' ∧ inv entries s' := by
  obtain ⟨buckets, frees, live, L, -⟩ := t.represents
  rw [L.hashIterate_eq] at hentries
  have hrun := eachFrom_spec inv hbody (hashFirstImpl_visits L.chainsHold) hentries
    (L.chains_length_le.trans (Nat.le_succ _)) h
  simpa [eachEntry] using hrun

lemma Table.eachEntry_text (t : Table V) {entries : List (Text × V)}
    (hentries : hashIterate t.hash = entries.map fun e => (e.1, some e.2))
    (body : Text → Text → V → Option Text) (f : V → Text)
    (hbody : ∀ tmp key val, body tmp key val = some (tmp ++ f val)) (tmp : Text) :
    eachEntry t.hash body tmp = some (tmp ++ entries.flatMap fun e => f e.2) := by
  obtain ⟨text, htext, rfl⟩ := t.eachEntry_spec hentries
    (fun done text => text = tmp ++ done.flatMap fun e => f e.2) (by
      rintro done key val _ rfl
      exact ⟨_, hbody _ key val, by simp⟩) (show tmp = tmp ++ [] by simp)
  exact htext

def Table.set (t : Table V) (key : KeyArg) (val : V) : Table V where
  hash := hashSet t.hash key (some val)
  map := Function.update t.map key.content (some val)
  represents := by
    have hset := t.represents.hashSet key (some val)
    have hmap : (fun k => (Function.update t.map key.content (some val) k).map some) =
        Function.update (fun k => (t.map k).map some) key.content (some (some val)) := by
      funext k
      by_cases hk : k = key.content
      · simp [hk]
      · simp [Function.update_of_ne hk]
    rw [hmap]
    exact hset

/-- What a loop over a table that may be NULL keeps. -/
lemma eachOf_keeps (ht : Option (Table V)) {S : Type} (body : S → Text → V → Option S)
    (inv : S → Prop) (hbody : ∀ key val s, inv s → ∃ s', body s key val = some s' ∧ inv s') {s : S}
    (h : inv s) : ∃ s', eachOf ht body s = some s' ∧ inv s' := by
  cases ht with
  | none => exact ⟨s, rfl, h⟩
  | some ht =>
    obtain ⟨entries, -, hentries, -⟩ := ht.entries
    exact ht.eachEntry_spec hentries (fun _ => inv) (fun _ key val s => hbody key val s) h

/-- `axis2_conf_get_all_svcs` returns a table. -/
lemma getAllSvcs_table (conf : Conf) : ∃ svcs : Table Svc, getAllSvcs conf = some svcs.hash := by
  obtain ⟨_, hget, svcs, rfl⟩ := eachOf_keeps conf.svc_grps (fun all_svcs _ svc_grp =>
    eachOf svc_grp.svcs (fun all_svcs _ svc =>
      some (hashSet all_svcs (.string svc.localname) (some svc))) all_svcs)
    (fun ht => ∃ t : Table Svc, t.hash = ht)
    (fun _ svc_grp _ h => eachOf_keeps svc_grp.svcs _ (fun ht => ∃ t : Table Svc, t.hash = ht)
      (by
        rintro _ svc _ ⟨t, rfl⟩
        exact ⟨_, rfl, t.set (.string svc.localname) svc, rfl⟩) h) ⟨conf.all_svcs, rfl⟩
  exact ⟨svcs, hget⟩

end Loops

section Listing

variable {V : Type}

/-- The part for one service. -/
lemma svcHtml_eq (service : Svc) : ∃ ops : List (Text × Text),
    EachOnce ops (mapOf service.op_alias_map) ∧
    ∀ tmp, svcHtml tmp service = some (tmp ++ svcEntry service (ops.map Prod.snd)) := by
  cases hops : service.op_alias_map with
  | none =>
    refine ⟨[], ⟨List.nodup_nil, by simp [mapOf]⟩, fun tmp => ?_⟩
    simp [svcHtml, hops, filled, svcEntry]
  | some table =>
    obtain ⟨entries, honce, hentries, hcount⟩ := table.entries
    refine ⟨entries, honce, fun tmp => ?_⟩
    by_cases hempty : hashCount table.hash = 0
    · obtain rfl := hcount.mpr hempty
      simp [svcHtml, hops, filled, hempty, svcEntry]
    · have hne : entries.map Prod.snd ≠ [] := by simpa [hcount] using hempty
      have hloop := table.eachEntry_text hentries
        (fun tmp _ oname => some (opHtml tmp oname))
        (fun oname => lit "<li>" ++ oname ++ lit "</li>") fun tmp _ oname => by simp [opHtml]
      simp [svcHtml, hops, filled, hempty, svcEntry, hne, eachOf, hloop, List.flatMap_map]

/-- A table without entries. -/
lemma hashCount_eq_zero (t : Table V) : hashCount t.hash = 0 ↔ ∀ key, t.map key = none := by
  obtain ⟨entries, ⟨-, hmem⟩, -, hcount⟩ := t.entries
  rw [← hcount, List.eq_nil_iff_forall_not_mem]
  constructor
  · intro h key
    by_contra hne
    obtain ⟨val, hval⟩ := Option.ne_none_iff_exists'.mp hne
    exact h (key, val) ((hmem key val).mpr hval)
  · rintro h ⟨key, val⟩ he
    have hval := (hmem key val).mp he
    simp [h key] at hval

lemma filled_iff (ht : Option (Table V)) : filled ht = true ↔ ¬ ∀ key, mapOf ht key = none := by
  cases ht with
  | none => simp [filled, mapOf]
  | some t => simp [filled, mapOf, hashCount_eq_zero]

/-- Without faulty services the page has every entry. -/
lemma listsAll_of_none {conf : Conf} (hfaulty : ∀ name, mapOf conf.faulty_svcs name = none) :
    ListsAll conf := by
  obtain ⟨svcs, hsvcs⟩ := getAllSvcs_table conf
  obtain ⟨services, honce, hentries, hcount⟩ := svcs.entries
  choose ops hops hsvc using svcHtml_eq
  refine ⟨0, [], svcs, services, ops, hsvcs, honce, hops,
    ⟨List.nodup_nil, fun name val => by simp [hfaulty]⟩, ?_⟩
  have hfilled : filled conf.faulty_svcs = false := by
    rw [← Bool.not_eq_true, filled_iff, not_not]
    exact hfaulty
  have hnone : ∀ tmp, faultyHtml 0 conf.faulty_svcs tmp = some tmp := by
    intro tmp
    unfold faultyHtml
    cases htable : conf.faulty_svcs with
    | none => rfl
    | some t =>
      have hzero : hashCount t.hash = 0 := by simpa [htable, filled] using hfilled
      simp [hzero]
  have hloop := svcs.eachEntry_text hentries (fun tmp _ service => svcHtml tmp service)
    (fun service => svcEntry service ((ops service).map Prod.snd))
    fun tmp _ service => hsvc service tmp
  by_cases hempty : hashCount svcs.hash = 0
  · obtain rfl := hcount.mpr hempty
    simp [getServicesHtml, hsvcs, hempty, hnone, hfilled, page]
  · have hne : services ≠ [] := by simpa [hcount] using hempty
    simp [getServicesHtml, hsvcs, hempty, hnone, hloop, page, hne, List.flatMap_map]

lemma faultyLoop_eq_none (ht : Hash Unit) (fuel : ℕ) (hi : HashIndex) (tmp : Text) :
    faultyLoop ht fuel (.live hi) tmp = none := by
  induction fuel generalizing hi tmp with
  | zero => rfl
  | succ fuel ih =>
    unfold faultyLoop
    cases hi.this with
    | none => rfl
    | some he =>
      cases hnext : hashNextImpl ht hi with
      | none => simp [faultyLoop]
      | some hi => simp [ih]

/-- With a faulty service the function does not return. -/
lemma getServicesHtml_eq_none {conf : Conf} (h : filled conf.faulty_svcs = true) (fuel : ℕ) :
    getServicesHtml fuel conf = none := by
  have hnone : ∀ tmp, faultyHtml fuel conf.faulty_svcs tmp = none := by
    intro tmp
    cases htable : conf.faulty_svcs with
    | none => simp [htable, filled] at h
    | some t =>
      have hcount : hashCount t.hash ≠ 0 := by simpa [htable, filled] using h
      unfold faultyHtml
      cases hfirst : hashFirstImpl t.hash with
      | none =>
        obtain ⟨entries, -, hentries, hempty⟩ := t.entries
        rw [hashIterate, hfirst, Hash.collect, eq_comm, List.map_eq_nil_iff] at hentries
        · exact absurd (hempty.mp hentries) hcount
        · simp
      | some hi =>
        simp only [hfirst, Pointer.of, faultyLoop_eq_none]
        exact if_pos hcount
  unfold getServicesHtml
  simp only [hnone]
  obtain ⟨svcs, hsvcs⟩ := getAllSvcs_table conf
  rw [hsvcs]
  rw [Option.bind_eq_bind, Option.bind_some]
  split <;> exact Option.bind_eq_none_iff.mpr fun _ _ => rfl

/-- **Service listing.** The listing ends with every entry, each once, exactly when there is no
faulty service. -/
theorem listsAll_iff (conf : Conf) :
    ListsAll conf ↔ ∀ name, mapOf conf.faulty_svcs name = none := by
  refine ⟨?_, listsAll_of_none⟩
  rintro ⟨fuel, _, _, _, _, -, -, -, -, htext⟩
  by_contra hfaulty
  rw [getServicesHtml_eq_none ((filled_iff conf.faulty_svcs).mpr hfaulty)] at htext
  cases htext

def emptyTable : Table V := ⟨hashMake, fun _ => none, represents_hashMake⟩

def oneFaulty : Conf := ⟨none, emptyTable, some (emptyTable.set (.sized [115]) ())⟩

theorem oneFaulty_not_listed : ¬ ListsAll oneFaulty := by
  rintro ⟨fuel, _, _, _, _, -, -, -, -, htext⟩
  have hfilled : filled oneFaulty.faulty_svcs = true := by
    rw [filled_iff]
    intro h
    have hnone := h [115]
    simp [mapOf, oneFaulty, Table.set, KeyArg.content] at hnone
  rw [getServicesHtml_eq_none hfilled] at htext
  cases htext

end Listing

end Axis2C.ServicesListing
