import Axis2C.PhaseRemoval

/-!
# Runs of engagements

In a run of clean calls an operation lists a module exactly when it has the
handlers of the module, no service loses what it runs because a module is taken
from another one, and taking back a module that was engaged nowhere else leaves the
handlers as they were. The conditions name what goes wrong otherwise: the call for
one operation, which records nothing; handlers in the slots of a phase, which are
never removed; system phases, which do not know who uses them; operations that two
services share; and handlers of one name.
-/
namespace Axis2C.Resolver
open Engine

/-- The handlers of the flow that go into the phases of an operation. -/
def opHandlers (type : FlowType) (moduleDesc : ModuleDesc) : List FlowHandler :=
  ((moduleDesc.flow type).getD []).filter (!·.isSystem)

def systemHandlers (type : FlowType) (moduleDesc : ModuleDesc) : List FlowHandler :=
  ((moduleDesc.flow type).getD []).filter (·.isSystem)

/-- What an operation brings into the system phases: the flows it has phases for. -/
def systemPart (moduleDesc : ModuleDesc) (types : List FlowType) (op : Op) : List FlowHandler :=
  types.flatMap fun type =>
    if (op.flow type).isSome then systemHandlers type moduleDesc else []

section Loops

variable {act : List NamedPhase → FlowHandler → Option (List NamedPhase)}
  {moduleDesc : ModuleDesc}

lemma overHandlers_eq {handlers : List FlowHandler} {phases phases' system system' : List NamedPhase}
    (hop : (handlers.filter (!·.isSystem)).foldlM act phases = some phases')
    (hsystem : (handlers.filter (·.isSystem)).foldlM act system =
      some system') :
    overHandlers act handlers phases system = (true, phases', system') := by
  induction handlers generalizing phases system with
  | nil =>
    obtain rfl : phases = phases' := by simpa using hop
    obtain rfl : system = system' := by simpa using hsystem
    rfl
  | cons handler handlers ih =>
    rw [overHandlers]
    by_cases hany : handler.isSystem = true
    · rw [List.filter_cons_of_neg (by simp [hany])] at hop
      rw [List.filter_cons_of_pos hany, List.foldlM_cons] at hsystem
      obtain ⟨system₁, hact, hsystem⟩ := Option.bind_eq_some_iff.mp hsystem
      rw [if_pos hany, hact]
      exact ih hop hsystem
    · rw [List.filter_cons_of_pos (by simp [hany]), List.foldlM_cons] at hop
      rw [List.filter_cons_of_neg hany] at hsystem
      obtain ⟨phases₁, hact, hop⟩ := Option.bind_eq_some_iff.mp hop
      rw [if_neg hany, hact]
      exact ih hop hsystem

/-- The flows of an operation after the handlers of the module went through `act`. -/
def flowsAfter (act : List NamedPhase → FlowHandler → Option (List NamedPhase))
    (moduleDesc : ModuleDesc) (op : Op) (type : FlowType) : Option (List NamedPhase) :=
  (op.flow type).bind fun phases => (opHandlers type moduleDesc).foldlM act phases

lemma overFlows_eq {types : List FlowType} (hnodup : types.Nodup) {op : Op}
    {system system' : List NamedPhase}
    (htakes : ∀ type ∈ types, ∀ phases, op.flow type = some phases →
      ((opHandlers type moduleDesc).foldlM act phases).isSome = true)
    (hsystem : (systemPart moduleDesc types op).foldlM act system = some system') :
    overFlows act moduleDesc types op system =
      (true, { op with flow := fun type =>
        if type ∈ types then flowsAfter act moduleDesc op type else op.flow type }, system') := by
  induction types generalizing op system with
  | nil =>
    obtain rfl : system = system' := by simpa [systemPart] using hsystem
    simp [overFlows]
  | cons type types ih =>
    obtain ⟨hmem, hnodup⟩ := List.nodup_cons.mp hnodup
    rw [systemPart, List.flatMap_cons, List.foldlM_append] at hsystem
    obtain ⟨system₁, hfirst, hrest⟩ := Option.bind_eq_some_iff.mp hsystem
    have htakes' := fun type' hmem' => htakes type' (List.mem_cons_of_mem type hmem')
    rw [overFlows]
    have hskip (h : flowsAfter act moduleDesc op type = op.flow type) :
        (fun type' => if type' ∈ types then flowsAfter act moduleDesc op type'
          else op.flow type') = fun type' => if type' ∈ type :: types
            then flowsAfter act moduleDesc op type' else op.flow type' := by
      funext type'
      by_cases htype : type' = type
      · subst htype
        simp [hmem, h]
      · simp [htype]
    cases hphases : op.flow type with
    | none =>
      obtain rfl : system = system₁ := by simpa [hphases] using hfirst
      simp only
      rw [ih hnodup htakes' hrest, hskip (by simp [flowsAfter, hphases])]
    | some phases =>
      cases hflow : moduleDesc.flow type with
      | none =>
        obtain rfl : system = system₁ := by
          simpa [hphases, systemHandlers, hflow] using hfirst
        simp only
        rw [ih hnodup htakes' hrest,
          hskip (by simp [flowsAfter, hphases, opHandlers, hflow])]
      | some handlers =>
        obtain ⟨phases', hphases'⟩ :=
          Option.isSome_iff_exists.mp (htakes type List.mem_cons_self phases hphases)
        have hover : overHandlers act handlers phases system = (true, phases', system₁) :=
          overHandlers_eq (by simpa [opHandlers, hflow] using hphases')
            (by simpa [hphases, systemHandlers, hflow] using hfirst)
        simp only [hover]
        have hother : ∀ type', type' ≠ type →
            (op.setFlow type (some phases')).flow type' = op.flow type' :=
          fun type' hne => by simp [Op.setFlow, setFlow, hne]
        have hpart : systemPart moduleDesc types (op.setFlow type (some phases')) =
            systemPart moduleDesc types op := by
          refine List.flatMap_congr fun type' htype' => ?_
          rw [hother type' fun he => hmem (he ▸ htype')]
        rw [ih hnodup ?_ (hpart ▸ hrest)]
        · refine congrArg (fun flow => (true, { op with flow := flow }, system')) ?_
          funext type'
          by_cases htype : type' = type
          · subst htype
            simp [hmem, flowsAfter, hphases, hphases', Op.setFlow, setFlow]
          · simp [htype, flowsAfter, hother type' htype]
        · intro type' htype' phases₁ hphases₁
          rw [hother type' fun he => hmem (he ▸ htype')] at hphases₁
          exact htakes' type' htype' phases₁ hphases₁

/-- `act` succeeds for every handler that goes into the phases of the operation. -/
def Takes (act : List NamedPhase → FlowHandler → Option (List NamedPhase))
    (moduleDesc : ModuleDesc) (op : Op) : Prop :=
  ∀ type phases, op.flow type = some phases →
    ((opHandlers type moduleDesc).foldlM act phases).isSome = true

/-- The operation after `act` on every flow. -/
def opAfter (act : List NamedPhase → FlowHandler → Option (List NamedPhase))
    (moduleDesc : ModuleDesc) (op : Op) : Op :=
  { op with flow := flowsAfter act moduleDesc op }

lemma overAllFlows_eq {op : Op} {system system' : List NamedPhase}
    (htakes : Takes act moduleDesc op)
    (hsystem : (systemPart moduleDesc FlowType.all op).foldlM act system = some system') :
    overFlows act moduleDesc FlowType.all op system =
      (true, opAfter act moduleDesc op, system') := by
  rw [overFlows_eq (by decide) (fun type _ => htakes type) hsystem]
  simp [opAfter, FlowType.mem_all]

/-- The operations that the loop works on. -/
def chosen (moduleDesc : ModuleDesc) (wanted : Bool) (ops : ℕ → Op) (os : List ℕ) : List ℕ :=
  os.filter (lists moduleDesc ops · = wanted)

lemma overOps_eq {wanted : Bool} {skip : Bool → Bool} {record : Op → Op} {os : List ℕ}
    (hnodup : os.Nodup) {status : Bool} {store : Store} {system' : List NamedPhase}
    (htakes : ∀ o ∈ chosen moduleDesc wanted store.op os, Takes act moduleDesc (store.op o))
    (hsystem : ((chosen moduleDesc wanted store.op os).flatMap fun o =>
      systemPart moduleDesc FlowType.all (store.op o)).foldlM act store.system = some system') :
    ∃ status', overOps moduleDesc wanted skip (overFlows act moduleDesc FlowType.all) record os
        status store =
      (status', ⟨fun o => if o ∈ chosen moduleDesc wanted store.op os
        then record (opAfter act moduleDesc (store.op o)) else store.op o, system'⟩) := by
  induction os generalizing status store with
  | nil =>
    obtain rfl : store.system = system' := by simpa [chosen] using hsystem
    exact ⟨status, by simp [overOps, chosen]⟩
  | cons o os ih =>
    obtain ⟨hmem, hnodup⟩ := List.nodup_cons.mp hnodup
    rw [overOps]
    by_cases hlists : lists moduleDesc store.op o = wanted
    · have hcons : chosen moduleDesc wanted store.op (o :: os) =
          o :: chosen moduleDesc wanted store.op os := List.filter_cons_of_pos (by simp [hlists])
      rw [hcons, List.flatMap_cons, List.foldlM_append] at hsystem
      rw [hcons] at htakes ⊢
      obtain ⟨system₁, hfirst, hrest⟩ := Option.bind_eq_some_iff.mp hsystem
      rw [if_pos hlists, overAllFlows_eq (htakes o List.mem_cons_self) hfirst]
      dsimp only
      generalize hops : Function.update store.op o _ = ops
      have hother : ∀ o', o' ≠ o → ops o' = store.op o' :=
        fun o' hne => by rw [← hops, Function.update_of_ne hne]
      have hchosen : chosen moduleDesc wanted ops os = chosen moduleDesc wanted store.op os := by
        refine List.filter_congr fun o' ho' => ?_
        rw [lists, lists, hother o' fun he => hmem (he ▸ ho')]
      have hne : ∀ o' ∈ chosen moduleDesc wanted store.op os, o' ≠ o :=
        fun o' ho' he => hmem (he ▸ List.mem_of_mem_filter ho')
      have hpart : ((chosen moduleDesc wanted ops os).flatMap fun o' =>
          systemPart moduleDesc FlowType.all (ops o')) =
            (chosen moduleDesc wanted store.op os).flatMap fun o' =>
              systemPart moduleDesc FlowType.all (store.op o') := by
        rw [hchosen]
        exact List.flatMap_congr fun o' ho' => by rw [hother o' (hne o' ho')]
      have htakes' : ∀ o' ∈ chosen moduleDesc wanted ops os, Takes act moduleDesc (ops o') := by
        intro o' ho'
        rw [hchosen] at ho'
        rw [hother o' (hne o' ho')]
        exact htakes o' (List.mem_cons_of_mem _ ho')
      obtain ⟨status', heq⟩ := @ih hnodup true ⟨ops, system₁⟩ htakes' (hpart ▸ hrest)
      refine ⟨status', heq.trans ?_⟩
      refine congrArg (fun op => (status', (⟨op, system'⟩ : Store))) ?_
      funext o'
      rw [hchosen]
      by_cases ho' : o' = o
      · subst ho'
        have hnot : o' ∉ chosen moduleDesc wanted store.op os :=
          fun h => hmem (List.mem_of_mem_filter h)
        simp [hnot, ← hops]
      · simp [ho', hother o' ho']
    · have hcons : chosen moduleDesc wanted store.op (o :: os) =
          chosen moduleDesc wanted store.op os := List.filter_cons_of_neg (by simp [hlists])
      rw [if_neg hlists]
      rw [hcons] at htakes hsystem ⊢
      exact ih hnodup htakes hsystem

end Loops

section Operations

variable {mods : List ModuleDesc} {moduleDesc : ModuleDesc} {op : Op}
variable {type : FlowType}

lemma isUserPhase_of_named {name : String} {desc : HandlerDesc}
    (h : desc ∈ named (opHandlers type moduleDesc) name) : isUserPhase name = true := by
  obtain ⟨handler, hmem, -⟩ := List.mem_map.mp h
  obtain ⟨hmem, hname⟩ := List.mem_filter.mp hmem
  have hname : handler.phaseName = some name := by simpa using hname
  have := (List.mem_filter.mp hmem).2
  simpa [FlowHandler.isSystem, hname, isUserPhase] using this

def handlerNames (moduleDesc : ModuleDesc) (type : FlowType) (name : String) : List String :=
  (named (opHandlers type moduleDesc) name).map HandlerDesc.name

lemma hasHandler_iff {name n : String} :
    moduleDesc.HasHandler type name n ↔ n ∈ handlerNames moduleDesc type name := by
  constructor
  · rintro ⟨huser, handlers, hflow, handler, hmem, hname, rfl⟩
    refine List.mem_map.mpr ⟨handler.desc, List.mem_map.mpr ⟨handler, ?_, rfl⟩, rfl⟩
    refine List.mem_filter.mpr ⟨List.mem_filter.mpr ⟨by simpa [hflow] using hmem, ?_⟩,
      by simpa using hname⟩
    simpa [FlowHandler.isSystem, hname, isUserPhase] using huser
  · intro h
    obtain ⟨desc, hdesc, rfl⟩ := List.mem_map.mp h
    refine ⟨isUserPhase_of_named hdesc, ?_⟩
    obtain ⟨handler, hmem, rfl⟩ := List.mem_map.mp hdesc
    obtain ⟨hmem, hname⟩ := List.mem_filter.mp hmem
    have hmem := (List.mem_filter.mp hmem).1
    cases hflow : moduleDesc.flow type with
    | none => simp [hflow] at hmem
    | some handlers =>
      exact ⟨handlers, rfl, handler, by simpa [hflow] using hmem, by simpa using hname, rfl⟩

/-- The operation lists the module exactly if it has the handlers of the module. -/
def ListedExactly (moduleDesc : ModuleDesc) (op : Op) : Prop :=
  ∀ type phases name n, op.flow type = some phases → moduleDesc.HasHandler type name n →
    (moduleDesc.name ∈ op.engagedModules ↔ n ∈ handlersIn (some phases) name)

/-- A module has its own name, and a handler of one name in a phase belongs to one module. -/
structure Separate (mods : List ModuleDesc) : Prop where
  name : ∀ m ∈ mods, ∀ m' ∈ mods, m.name = m'.name → m = m'
  handler : ∀ m ∈ mods, ∀ m' ∈ mods, ∀ type name n, m.HasHandler type name n →
    m'.HasHandler type name n → m = m'

/-- The invariant of an operation: no phase has a handler more often than the module has it. -/
structure Consistent (mods : List ModuleDesc) (op : Op) : Prop where
  nodup : op.engagedModules.Nodup
  listed : ∀ m ∈ mods, ListedExactly m op
  copies : ∀ m ∈ mods, ∀ type phases name phase, op.flow type = some phases →
    phaseOf phases name = some phase → ∀ n ∈ handlerNames m type name,
      phase.names.count n ≤ (handlerNames m type name).count n

/-- No handler of the sequence is the first or the last handler of its phase. -/
def NoSlots (handlers : List FlowHandler) (phases : List NamedPhase) : Prop :=
  ∀ name, ∀ desc ∈ named handlers name, ∀ phase, phaseOf phases name = some phase →
    slotNamed phase.firstHandler desc.name = false ∧
      slotNamed phase.lastHandler desc.name = false

lemma flowsAfter_some {act : List NamedPhase → FlowHandler → Option (List NamedPhase)}
    {phases' : List NamedPhase} (h : flowsAfter act moduleDesc op type = some phases') :
    ∃ phases, op.flow type = some phases ∧
      (opHandlers type moduleDesc).foldlM act phases = some phases' :=
  Option.bind_eq_some_iff.mp h

lemma engaged_lists (h : moduleDesc.name ∉ op.engagedModules) :
    ((opAfter phaseHolderAddHandler moduleDesc op).addToEngagedModuleList
      moduleDesc).engagedModules = op.engagedModules ++ [moduleDesc.name] := by
  rw [Op.addToEngagedModuleList, if_neg (by simpa [opAfter] using h)]
  rfl

lemma engaged_flow (type : FlowType) :
    ((opAfter phaseHolderAddHandler moduleDesc op).addToEngagedModuleList moduleDesc).flow type =
      flowsAfter phaseHolderAddHandler moduleDesc op type := by
  unfold Op.addToEngagedModuleList
  split_ifs <;> rfl

/-- The handlers of a phase after those of the module were added. -/
lemma order_of_adds {handlers : List FlowHandler} {phases phases' : List NamedPhase}
    (h : handlers.foldlM phaseHolderAddHandler phases = some phases') (name n : String) :
    n ∈ handlersIn (some phases') name ↔
      n ∈ handlersIn (some phases) name ∨ n ∈ (named handlers name).map HandlerDesc.name := by
  rw [phaseHolderAddHandler_eq] at h
  obtain ⟨hsome, hnone⟩ := perform_phaseOf h name
  rw [handlersIn_eq, handlersIn_eq]
  cases hphase : phaseOf phases name with
  | none =>
    obtain ⟨hphase', hnamed⟩ := hnone hphase
    simp [hphase', hnamed]
  | some phase =>
    obtain ⟨phase', hphase', hadded⟩ := hsome phase hphase
    rw [hphase']
    exact (grown_of_adds hadded).order n

/-- Engaging a module to an operation keeps the invariant. -/
lemma Consistent.engage (hsep : Separate mods) (h : Consistent mods op) (hmem : moduleDesc ∈ mods)
    (hnot : moduleDesc.name ∉ op.engagedModules) :
    Consistent mods
      ((opAfter phaseHolderAddHandler moduleDesc op).addToEngagedModuleList moduleDesc) := by
  have hother : ∀ m ∈ mods, m ≠ moduleDesc → ∀ type name, ∀ n ∈ handlerNames m type name,
      n ∉ handlerNames moduleDesc type name := fun m hm hne type name n hn hn' =>
    hne (hsep.handler m hm moduleDesc hmem type name n (hasHandler_iff.mpr hn)
      (hasHandler_iff.mpr hn'))
  refine ⟨?_, fun m hm type phases' name n hflow hhas => ?_,
    fun m hm type phases' name phase' hflow hphase' n hn => ?_⟩
  · rw [engaged_lists hnot]
    refine h.nodup.append (List.nodup_singleton _) fun m hm hm' => ?_
    exact hnot (List.mem_singleton.mp hm' ▸ hm)
  · rw [engaged_flow] at hflow
    obtain ⟨phases, hphases, hadds⟩ := flowsAfter_some hflow
    rw [engaged_lists hnot, order_of_adds hadds, ← h.listed m hm type phases name n hphases hhas,
      List.mem_append, List.mem_singleton]
    refine or_congr_right ⟨fun hname => ?_, fun hn => ?_⟩
    · obtain rfl := hsep.name m hm moduleDesc hmem hname
      exact hasHandler_iff.mp hhas
    · have := hsep.handler m hm moduleDesc hmem type name n hhas (hasHandler_iff.mpr hn)
      rw [this]
  · rw [engaged_flow] at hflow
    obtain ⟨phases, hphases, hadds⟩ := flowsAfter_some hflow
    rw [phaseHolderAddHandler_eq] at hadds
    obtain ⟨hsome, hnone⟩ := perform_phaseOf hadds name
    cases hphase : phaseOf phases name with
    | none => simp [(hnone hphase).1] at hphase'
    | some phase =>
      obtain ⟨_, heq, hadded⟩ := hsome phase hphase
      obtain rfl := Option.some.inj (hphase'.symm.trans heq)
      have hcount := (grown_of_adds hadded).count n
      by_cases hm' : m = moduleDesc
      · subst hm'
        have hnew : n ∉ phase.names := fun hmem' => hnot <| by
          rw [h.listed m hm type phases name n hphases (hasHandler_iff.mpr hn), handlersIn_eq,
            hphase]
          exact mem_order.mpr (Or.inr (Or.inl hmem'))
        rwa [List.count_eq_zero_of_not_mem hnew, Nat.zero_add] at hcount
      · have hnot' := hother m hm hm' type name n hn
        rw [show (named (opHandlers type moduleDesc) name).map HandlerDesc.name =
          handlerNames moduleDesc type name from rfl, List.count_eq_zero_of_not_mem hnot',
          Nat.add_zero] at hcount
        exact hcount.trans (h.copies m hm type phases name phase hphases hphase n hn)

lemma phaseOf_removed (h : Consistent mods op) (hmem : moduleDesc ∈ mods)
    {phases phases' : List NamedPhase} (hphases : op.flow type = some phases)
    (hremove : (opHandlers type moduleDesc).foldlM phaseHolderRemoveHandler phases = some phases')
    (name : String) :
    phaseOf phases' name = (phaseOf phases name).map fun phase =>
      { phase with handlers :=
          phase.handlers.filter (decide <| ·.name ∉ handlerNames moduleDesc type name) } := by
  rw [phaseHolderRemoveHandler_eq] at hremove
  obtain ⟨hsome, hnone⟩ := perform_phaseOf hremove name
  cases hphase : phaseOf phases name with
  | none => exact (hnone hphase).1
  | some phase =>
    obtain ⟨phase', hphase', hremoved⟩ := hsome phase hphase
    rw [hphase', remove_fold hremoved]
    simp only [Option.map_some, Option.some.injEq]
    refine congrArg (fun handlers => { phase with handlers := handlers }) ?_
    exact eraseAll_eq_filter (h.copies moduleDesc hmem type phases name phase hphases hphase)

/-- Taking a module back from an operation keeps the invariant. -/
lemma Consistent.disengage (hsep : Separate mods) (h : Consistent mods op)
    (hmem : moduleDesc ∈ mods)
    (hslots : ∀ type phases, op.flow type = some phases →
      NoSlots (opHandlers type moduleDesc) phases) :
    Consistent mods
      ((opAfter phaseHolderRemoveHandler moduleDesc op).removeFromEngagedModuleList
        moduleDesc) := by
  have hother : ∀ m ∈ mods, m ≠ moduleDesc → ∀ type name, ∀ n ∈ handlerNames m type name,
      n ∉ handlerNames moduleDesc type name := fun m hm hne type name n hn hn' =>
    hne (hsep.handler m hm moduleDesc hmem type name n (hasHandler_iff.mpr hn)
      (hasHandler_iff.mpr hn'))
  have hlists : ∀ m, m ∈ ((opAfter phaseHolderRemoveHandler moduleDesc
      op).removeFromEngagedModuleList moduleDesc).engagedModules ↔
        m ≠ moduleDesc.name ∧ m ∈ op.engagedModules := fun m => h.nodup.mem_erase_iff
  refine ⟨h.nodup.erase _, fun m hm type phases' name n hflow hhas => ?_,
    fun m hm type phases' name phase' hflow hphase' n hn => ?_⟩
  · obtain ⟨phases, hphases, hremove⟩ := flowsAfter_some hflow
    have hold := h.listed m hm type phases name n hphases hhas
    have hn := hasHandler_iff.mp hhas
    rw [handlersIn_eq] at hold
    rw [hlists, hold, handlersIn_eq, phaseOf_removed h hmem hphases hremove]
    cases hphase : phaseOf phases name with
    | none => simp
    | some phase =>
      simp only [Option.map_some, Option.elim_some, mem_order, HandlerPhase.names, List.mem_map,
        List.mem_filter, decide_eq_true_eq]
      by_cases hm' : m = moduleDesc
      · subst hm'
        obtain ⟨desc, hdesc, rfl⟩ := List.mem_map.mp hn
        obtain ⟨hfirst, hlast⟩ := hslots type phases hphases name desc hdesc phase hphase
        simp only [ne_eq, not_true_eq_false, false_and, hfirst, hlast, Bool.false_eq_true,
          false_or, or_false, false_iff]
        rintro ⟨handler, ⟨-, hnot⟩, heq⟩
        exact hnot (heq ▸ hn)
      · have hname : m.name ≠ moduleDesc.name :=
          fun he => hm' (hsep.name m hm moduleDesc hmem he)
        simp only [ne_eq, hname, not_false_eq_true, true_and]
        refine or_congr_right (or_congr_left (exists_congr fun handler => ?_))
        constructor
        · rintro ⟨hmem', rfl⟩
          exact ⟨⟨hmem', hother m hm hm' type name _ hn⟩, rfl⟩
        · rintro ⟨⟨hmem', -⟩, rfl⟩
          exact ⟨hmem', rfl⟩
  · obtain ⟨phases, hphases, hremove⟩ := flowsAfter_some hflow
    rw [phaseOf_removed h hmem hphases hremove] at hphase'
    obtain ⟨phase, hphase, rfl⟩ := Option.map_eq_some_iff.mp hphase'
    refine le_trans (List.Sublist.count_le n ?_)
      (h.copies m hm type phases name phase hphases hphase n hn)
    exact List.filter_sublist.map _

end Operations

section Calls

variable (mods : List ModuleDesc) (enum : Enumeration) (conf : Conf)
variable {i : ℕ}

/-- The operations of the service in the order of the loop. -/
def opsOf (svc : Svc) : List ℕ := enum.order svc.ops

/-- What the operations of `os` bring into the system phases. -/
def systemParts (ops : ℕ → Op) (moduleDesc : ModuleDesc) (os : List ℕ) : List FlowHandler :=
  os.flatMap fun o => systemPart moduleDesc FlowType.all (ops o)

/-- Engaging a module to a service is clean: the operations of the module get no
handlers of other modules, every handler is taken by its phase, and a module that
is engaged nowhere does not meet its own handlers in the system phases. -/
structure CleanEngage (svc : Svc) (moduleDesc : ModuleDesc) : Prop where
  built : moduleDesc.ops = [] ∨ engagedFor conf svc = []
  takes : ∀ o ∈ (svc.withOps conf.op moduleDesc.ops).ops, lists moduleDesc conf.op o = false →
    Takes phaseHolderAddHandler moduleDesc (conf.op o)
  takesSystem : ((systemParts conf.op moduleDesc (chosen moduleDesc false conf.op
    (opsOf enum (svc.withOps conf.op moduleDesc.ops)))).foldlM phaseHolderAddHandler
      conf.system).isSome = true
  newSystem : (∀ o, lists moduleDesc conf.op o = false) →
    ∀ o ∈ (svc.withOps conf.op moduleDesc.ops).ops, ∀ name,
      ∀ desc ∈ named (systemPart moduleDesc FlowType.all (conf.op o)) name,
        desc.name ∉ handlersIn (some conf.system) name

/-- Taking a module back from a service is clean: every handler is found, none is in
a slot, no operation that lists the module belongs to another service, and no other
service needs the module if it has handlers in the system phases. -/
structure CleanDisengage (i : ℕ) (svc : Svc) (moduleDesc : ModuleDesc) : Prop where
  takes : ∀ o ∈ svc.ops, lists moduleDesc conf.op o = true →
    Takes phaseHolderRemoveHandler moduleDesc (conf.op o)
  takesSystem : ((systemParts conf.op moduleDesc (chosen moduleDesc true conf.op
    (opsOf enum svc))).foldlM phaseHolderRemoveHandler conf.system).isSome = true
  slots : ∀ o ∈ svc.ops, lists moduleDesc conf.op o = true →
    (∀ type phases, (conf.op o).flow type = some phases →
      NoSlots (opHandlers type moduleDesc) phases) ∧
    NoSlots (systemPart moduleDesc FlowType.all (conf.op o)) conf.system
  unshared : ∀ o ∈ svc.ops, lists moduleDesc conf.op o = true →
    ∀ j svc', j ≠ i → conf.svcs[j]? = some svc' → o ∉ svc'.ops
  alone : ∀ o ∈ svc.ops, lists moduleDesc conf.op o = true →
    systemPart moduleDesc FlowType.all (conf.op o) ≠ [] →
      ∀ j svc', j ≠ i → conf.svcs[j]? = some svc' →
        ∀ o' ∈ svc'.ops, lists moduleDesc conf.op o' = false

def CleanOp (o : ℕ) (moduleDesc : ModuleDesc) : Prop :=
  lists moduleDesc conf.op o = true ∨
    ∀ type, ((conf.op o).flow type).isSome = true → (moduleDesc.flow type).getD [] = []

def Clean : Call → Prop
  | .engageToSvc i moduleDesc => moduleDesc ∈ mods ∧
      ∀ svc, conf.svcs[i]? = some svc → CleanEngage enum conf svc moduleDesc
  | .engageToOp o moduleDesc => moduleDesc ∈ mods ∧ CleanOp conf o moduleDesc
  | .disengageFromSvc i moduleDesc => moduleDesc ∈ mods ∧
      ∀ svc, conf.svcs[i]? = some svc → CleanDisengage enum conf i svc moduleDesc

def CleanRun : Conf → List Call → Prop
  | _, [] => True
  | conf, call :: rest => Clean mods enum conf call ∧ CleanRun (call.run enum conf) rest

/-- Taking the module back from service `i` leaves every handler that runs for
another service to which the module is engaged. -/
def Local (i : ℕ) (moduleDesc : ModuleDesc) : Prop :=
  ∀ j svc', j ≠ i → conf.svcs[j]? = some svc' →
    (∃ o ∈ svc'.ops, lists moduleDesc conf.op o = true) →
      (∀ o ∈ svc'.ops, ∀ type name n, n ∈ handlersIn ((conf.op o).flow type) name →
        n ∈ handlersIn (((disengageModuleFromSvc enum conf i moduleDesc).2.op o).flow type) name) ∧
      ∀ name n, n ∈ handlersIn (some conf.system) name →
        n ∈ handlersIn (some (disengageModuleFromSvc enum conf i moduleDesc).2.system) name

/-- The handlers of all phases are those of `conf`. -/
structure Restored (conf' : Conf) : Prop where
  op : ∀ o type, ((conf'.op o).flow type).map handlerLists =
    ((conf.op o).flow type).map handlerLists
  system : handlerLists conf'.system = handlerLists conf.system
  flow : ∀ type, type ≠ .inFlow → conf'.flow type = conf.flow type

/-- What is expected of a sequence of calls. -/
structure InverseAndLocal (calls : List Call) : Prop where
  listed : ∀ before after, calls = before ++ after → ∀ m ∈ mods, ∀ o,
    ListedExactly m ((runCalls enum conf before).op o)
  isLocal : ∀ before i m after, calls = before ++ .disengageFromSvc i m :: after →
    Local enum (runCalls enum conf before) i m
  restored : ∀ before i m after,
    calls = before ++ .engageToSvc i m :: .disengageFromSvc i m :: after →
      (∀ o, lists m (runCalls enum conf before).op o = false) →
        Restored (runCalls enum conf before)
          (runCalls enum conf (before ++ [.engageToSvc i m, .disengageFromSvc i m]))

variable {mods enum conf} {moduleDesc : ModuleDesc}

lemma svcAddModuleOps_eq {svc : Svc} (h : moduleDesc.ops = [] ∨ engagedFor conf svc = []) :
    svcAddModuleOps conf moduleDesc svc conf.op =
      (true, svc.withOps conf.op moduleDesc.ops, conf.op) := by
  unfold svcAddModuleOps
  obtain h | h := h
  · rw [h]
    rfl
  · rw [h]
    generalize moduleDesc.ops = os
    clear h
    induction os generalizing svc with
    | nil => rfl
    | cons o os ih =>
      have hbuild : buildExecutionChainsForModuleOp [] FlowType.all (conf.op o) =
          (true, conf.op o) := rfl
      rw [addModuleOps, hbuild]
      simp only [Function.update_eq_self, ih]
      rfl

lemma engageModuleToSvc_eq {svc : Svc} (hsvc : conf.svcs[i]? = some svc)
    (h : CleanEngage enum conf svc moduleDesc) :
    ∃ system', (systemParts conf.op moduleDesc (chosen moduleDesc false conf.op
        (opsOf enum (svc.withOps conf.op moduleDesc.ops)))).foldlM phaseHolderAddHandler
          conf.system = some system' ∧
      (engageModuleToSvc enum conf i moduleDesc).2 =
        (conf.setSvc i (svc.withOps conf.op moduleDesc.ops)).withStore
          ⟨fun o => if o ∈ chosen moduleDesc false conf.op
              (opsOf enum (svc.withOps conf.op moduleDesc.ops))
            then (opAfter phaseHolderAddHandler moduleDesc (conf.op o)).addToEngagedModuleList
              moduleDesc
            else conf.op o, system'⟩ := by
  obtain ⟨system', hsystem⟩ := Option.isSome_iff_exists.mp h.takesSystem
  refine ⟨system', hsystem, ?_⟩
  set svc' := svc.withOps conf.op moduleDesc.ops with hsvc'
  have hnodup : (opsOf enum svc').Nodup := (enum.perm svc'.ops).nodup_iff.mpr svc'.nodup
  obtain ⟨status, hops⟩ := @overOps_eq phaseHolderAddHandler moduleDesc false (fun _ => true)
    (·.addToEngagedModuleList moduleDesc) (opsOf enum svc') hnodup true ⟨conf.op, conf.system⟩
    system' (fun o ho => h.takes o ((enum.perm _).mem_iff.mp (List.mem_of_mem_filter ho))
      (by simpa using (List.mem_filter.mp ho).2)) hsystem
  have hops : engageOps moduleDesc (enum.order svc'.ops) true ⟨conf.op, conf.system⟩ = _ := hops
  unfold engageModuleToSvc
  rw [hsvc]
  simp only [svcAddModuleOps_eq h.built, ← hsvc', hops]

lemma disengageModuleFromSvc_eq {svc : Svc} (hsvc : conf.svcs[i]? = some svc)
    (h : CleanDisengage enum conf i svc moduleDesc) :
    ∃ system', (systemParts conf.op moduleDesc (chosen moduleDesc true conf.op
        (opsOf enum svc))).foldlM phaseHolderRemoveHandler conf.system = some system' ∧
      (disengageModuleFromSvc enum conf i moduleDesc).2 = conf.withStore
        ⟨fun o => if o ∈ chosen moduleDesc true conf.op (opsOf enum svc)
          then (opAfter phaseHolderRemoveHandler moduleDesc
            (conf.op o)).removeFromEngagedModuleList moduleDesc
          else conf.op o, system'⟩ := by
  obtain ⟨system', hsystem⟩ := Option.isSome_iff_exists.mp h.takesSystem
  refine ⟨system', hsystem, ?_⟩
  have hnodup : (opsOf enum svc).Nodup := (enum.perm svc.ops).nodup_iff.mpr svc.nodup
  obtain ⟨status, hops⟩ := @overOps_eq phaseHolderRemoveHandler moduleDesc true id
    (·.removeFromEngagedModuleList moduleDesc) (opsOf enum svc) hnodup false
    ⟨conf.op, conf.system⟩ system'
    (fun o ho => h.takes o ((enum.perm _).mem_iff.mp (List.mem_of_mem_filter ho))
      (by simpa using (List.mem_filter.mp ho).2)) hsystem
  have hops : disengageOps moduleDesc (enum.order svc.ops) false ⟨conf.op, conf.system⟩ = _ := hops
  unfold disengageModuleFromSvc
  rw [hsvc]
  simp only [hops]

/-- A clean call for one operation changes no operation. -/
lemma opEngageModule_op {o : ℕ} (h : CleanOp conf o moduleDesc) :
    (opEngageModule conf o moduleDesc).2.op = conf.op := by
  unfold opEngageModule
  split_ifs with hlists
  · rfl
  · have hempty := h.resolve_left hlists
    have hop : ∀ type, ((conf.op o).flow type).isSome = true →
        opHandlers type moduleDesc = [] := fun type hsome => by
      rw [opHandlers, hempty type hsome, List.filter_nil]
    have hsystem : systemPart moduleDesc FlowType.all (conf.op o) = [] := by
      refine List.flatMap_eq_nil_iff.mpr fun type _ => ?_
      split_ifs with hsome
      · rw [systemHandlers, hempty type hsome, List.filter_nil]
      · rfl
    have htakes : Takes phaseHolderAddHandler moduleDesc (conf.op o) := by
      intro type phases hphases
      rw [hop type (by simp [hphases])]
      rfl
    have hafter : opAfter phaseHolderAddHandler moduleDesc (conf.op o) = conf.op o := by
      have hflow : flowsAfter phaseHolderAddHandler moduleDesc (conf.op o) =
          (conf.op o).flow := by
        funext type
        unfold flowsAfter
        cases hphases : (conf.op o).flow type with
        | none => rfl
        | some phases =>
          rw [hop type (by simp [hphases])]
          rfl
      rw [opAfter, hflow]
    have hengage : engageModuleToOp moduleDesc (conf.op o) conf.system =
        (true, conf.op o, conf.system) := by
      rw [engageModuleToOp, overAllFlows_eq htakes (by rw [hsystem]; rfl), hafter]
    rw [hengage]
    simp [Conf.withStore]

/-- The invariant goes through every clean call. -/
lemma Clean.consistent (hsep : Separate mods) (hconf : ∀ o, Consistent mods (conf.op o))
    {call : Call} (h : Clean mods enum conf call) (o : ℕ) :
    Consistent mods ((call.run enum conf).op o) := by
  cases call with
  | engageToSvc i moduleDesc =>
    obtain ⟨hmem, h⟩ := h
    cases hsvc : conf.svcs[i]? with
    | none => simpa [Call.run, engageModuleToSvc, hsvc] using hconf o
    | some svc =>
      obtain ⟨system', -, heq⟩ := engageModuleToSvc_eq hsvc (h svc hsvc)
      rw [Call.run, heq]
      dsimp only [Conf.withStore]
      split_ifs with ho
      · have hlists : lists moduleDesc conf.op o = false := by
          simpa using (List.mem_filter.mp ho).2
        exact (hconf o).engage hsep hmem (by simpa [lists] using hlists)
      · exact hconf o
  | engageToOp o' moduleDesc =>
    rw [Call.run, opEngageModule_op h.2]
    exact hconf o
  | disengageFromSvc i moduleDesc =>
    obtain ⟨hmem, h⟩ := h
    cases hsvc : conf.svcs[i]? with
    | none => simpa [Call.run, disengageModuleFromSvc, hsvc] using hconf o
    | some svc =>
      obtain ⟨system', -, heq⟩ := disengageModuleFromSvc_eq hsvc (h svc hsvc)
      rw [Call.run, heq]
      dsimp only [Conf.withStore]
      split_ifs with ho
      · obtain ⟨ho, hlists⟩ := List.mem_filter.mp ho
        have hslots := (h svc hsvc).slots o ((enum.perm _).mem_iff.mp ho) (by simpa using hlists)
        exact (hconf o).disengage hsep hmem hslots.1
      · exact hconf o

@[simp] lemma withStore_system (conf : Conf) (store : Store) :
    (conf.withStore store).system = store.system := by
  simp [Conf.system, Conf.withStore, setFlow]

/-- Services do not take handlers from each other. -/
lemma Clean.isLocal (h : Clean mods enum conf (.disengageFromSvc i moduleDesc)) :
    Local enum conf i moduleDesc := by
  intro j svc' hj hsvc' hengaged
  cases hsvc : conf.svcs[i]? with
  | none => simp [disengageModuleFromSvc, hsvc]
  | some svc =>
    have hclean := h.2 svc hsvc
    obtain ⟨system', hsystem, heq⟩ := disengageModuleFromSvc_eq hsvc hclean
    have hchosen : ∀ o ∈ chosen moduleDesc true conf.op (opsOf enum svc),
        o ∈ svc.ops ∧ lists moduleDesc conf.op o = true := fun o ho =>
      ⟨(enum.perm _).mem_iff.mp (List.mem_of_mem_filter ho),
        by simpa using (List.mem_filter.mp ho).2⟩
    rw [heq]
    constructor
    · intro o ho type name n hn
      have hnot : o ∉ chosen moduleDesc true conf.op (opsOf enum svc) := fun hmem =>
        hclean.unshared o (hchosen o hmem).1 (hchosen o hmem).2 j svc' hj hsvc' ho
      simpa [Conf.withStore, hnot] using hn
    · -- The module has no handlers in the system phases, since another service uses it.
      have hparts : systemParts conf.op moduleDesc
          (chosen moduleDesc true conf.op (opsOf enum svc)) = [] := by
        refine List.flatMap_eq_nil_iff.mpr fun o ho => ?_
        by_contra hne
        obtain ⟨o', ho', hlists'⟩ := hengaged
        have := hclean.alone o (hchosen o ho).1 (hchosen o ho).2 hne j svc' hj hsvc' o' ho'
        simp [this] at hlists'
      rw [hparts] at hsystem
      obtain rfl : conf.system = system' := by simpa using hsystem
      simp

/-- The engagement of a module that is engaged nowhere is undone. -/
lemma restored_of_clean (hconf : ∀ o, Consistent mods (conf.op o)) {i : ℕ}
    (hengage : Clean mods enum conf (.engageToSvc i moduleDesc))
    (hdisengage : Clean mods enum (engageModuleToSvc enum conf i moduleDesc).2
      (.disengageFromSvc i moduleDesc))
    (hnowhere : ∀ o, lists moduleDesc conf.op o = false) :
    Restored conf
      (disengageModuleFromSvc enum (engageModuleToSvc enum conf i moduleDesc).2 i moduleDesc).2 := by
  cases hsvc : conf.svcs[i]? with
  | none =>
    have heq : (engageModuleToSvc enum conf i moduleDesc).2 = conf := by
      simp [engageModuleToSvc, hsvc]
    rw [heq, disengageModuleFromSvc, hsvc]
    exact ⟨fun _ _ => rfl, rfl, fun _ _ => rfl⟩
  | some svc =>
    have hclean := hengage.2 svc hsvc
    obtain ⟨system₁, hadd, heq⟩ := engageModuleToSvc_eq hsvc hclean
    set svc₁ := svc.withOps conf.op moduleDesc.ops with hsvc₁
    set conf₁ := (engageModuleToSvc enum conf i moduleDesc).2 with hconf₁
    -- No operation lists the module before, all operations of the service do between the calls.
    have hall : chosen moduleDesc false conf.op (opsOf enum svc₁) = opsOf enum svc₁ :=
      List.filter_eq_self.mpr fun o _ => by simp [hnowhere o]
    rw [hall] at hadd heq
    have hget : conf₁.svcs[i]? = some svc₁ := by
      obtain ⟨hi, -⟩ := List.getElem?_eq_some_iff.mp hsvc
      rw [heq]
      simp [Conf.withStore, Conf.setSvc, hi]
    have hop₁ : ∀ o ∈ opsOf enum svc₁, conf₁.op o =
        (opAfter phaseHolderAddHandler moduleDesc (conf.op o)).addToEngagedModuleList
          moduleDesc := by
      intro o ho
      rw [heq]
      exact if_pos ho
    have hall₁ : chosen moduleDesc true conf₁.op (opsOf enum svc₁) = opsOf enum svc₁ := by
      refine List.filter_eq_self.mpr fun o ho => ?_
      have hnot : moduleDesc.name ∉ (conf.op o).engagedModules := by
        simpa [lists] using hnowhere o
      simp [lists, hop₁ o ho, engaged_lists hnot]
    have hclean₁ := hdisengage.2 svc₁ hget
    obtain ⟨system₂, hremove, heq₂⟩ := disengageModuleFromSvc_eq hget hclean₁
    rw [hall₁] at hremove heq₂
    have hmem : ∀ o ∈ opsOf enum svc₁, o ∈ svc₁.ops := fun o ho => (enum.perm _).mem_iff.mp ho
    have hlists₁ : ∀ o ∈ opsOf enum svc₁, lists moduleDesc conf₁.op o = true := by
      intro o ho
      have := hall₁ ▸ ho
      simpa using (List.mem_filter.mp this).2
    have hsome : ∀ o ∈ opsOf enum svc₁, ∀ type,
        ((conf₁.op o).flow type).isSome = ((conf.op o).flow type).isSome := by
      intro o ho type
      rw [hop₁ o ho, engaged_flow, flowsAfter]
      cases hphases : (conf.op o).flow type with
      | none => rfl
      | some phases =>
        exact hclean.takes o (hmem o ho) (hnowhere o) type phases hphases
    have hpart : ∀ o ∈ opsOf enum svc₁, systemPart moduleDesc FlowType.all (conf₁.op o) =
        systemPart moduleDesc FlowType.all (conf.op o) := by
      intro o ho
      refine List.flatMap_congr fun type _ => ?_
      rw [hsome o ho]
    have hparts : systemParts conf₁.op moduleDesc (opsOf enum svc₁) =
        systemParts conf.op moduleDesc (opsOf enum svc₁) := List.flatMap_congr hpart
    have hsystem₁ : conf₁.system = system₁ := by rw [heq, withStore_system]
    rw [hparts, hsystem₁] at hremove
    have hnamed : ∀ name, ∀ desc ∈ named (systemParts conf.op moduleDesc (opsOf enum svc₁)) name,
        ∃ o ∈ opsOf enum svc₁,
          desc ∈ named (systemPart moduleDesc FlowType.all (conf.op o)) name := by
      intro name desc hdesc
      obtain ⟨handler, hhandler, rfl⟩ := List.mem_map.mp hdesc
      obtain ⟨hhandler, hname⟩ := List.mem_filter.mp hhandler
      obtain ⟨o, ho, hhandler⟩ := List.mem_flatMap.mp hhandler
      exact ⟨o, ho, List.mem_map.mpr ⟨handler, List.mem_filter.mpr ⟨hhandler, hname⟩, rfl⟩⟩
    rw [heq₂]
    refine ⟨fun o type => ?_, ?_, fun type htype => ?_⟩
    · dsimp only [Conf.withStore]
      split_ifs with ho
      · rw [Op.removeFromEngagedModuleList, opAfter]
        dsimp only
        rw [flowsAfter, hop₁ o ho, engaged_flow, flowsAfter]
        cases hphases : (conf.op o).flow type with
        | none => rfl
        | some phases =>
          obtain ⟨phases₁, hadds⟩ := Option.isSome_iff_exists.mp
            (hclean.takes o (hmem o ho) (hnowhere o) type phases hphases)
          have hphases₁ : (conf₁.op o).flow type = some phases₁ := by
            rw [hop₁ o ho, engaged_flow, flowsAfter, hphases]
            exact hadds
          obtain ⟨phases₂, hremoves⟩ := Option.isSome_iff_exists.mp
            (hclean₁.takes o (hmem o ho) (hlists₁ o ho) type phases₁ hphases₁)
          simp only [Option.bind_some, hadds, hremoves, Option.map_some, Option.some.injEq]
          refine handlerLists_restored hadds hremoves (fun name desc hdesc hold => ?_)
            ((hclean₁.slots o (hmem o ho) (hlists₁ o ho)).1 type phases₁ hphases₁)
          have hhas := hasHandler_iff.mpr (List.mem_map.mpr ⟨desc, hdesc, rfl⟩)
          have hlisted := ((hconf o).listed moduleDesc hengage.1 type phases name desc.name
            hphases hhas).mpr hold
          have := hnowhere o
          simp [lists, hlisted] at this
      · rw [heq]
        simp [Conf.withStore, ho]
    · rw [withStore_system]
      refine handlerLists_restored hadd hremove (fun name desc hdesc => ?_) ?_
      · obtain ⟨o, ho, hdesc⟩ := hnamed name desc hdesc
        exact hclean.newSystem hnowhere o (hmem o ho) name desc hdesc
      · intro name desc hdesc
        obtain ⟨o, ho, hdesc⟩ := hnamed name desc hdesc
        rw [← hpart o ho] at hdesc
        have := (hclean₁.slots o (hmem o ho) (hlists₁ o ho)).2 name desc hdesc
        rwa [hsystem₁] at this
    · rw [heq]
      simp [Conf.withStore, Conf.setSvc, setFlow, htype]

lemma runCalls_append (before after : List Call) :
    runCalls enum conf (before ++ after) = runCalls enum (runCalls enum conf before) after :=
  List.foldl_append

lemma CleanRun.append {before after : List Call} (hsep : Separate mods)
    (hconf : ∀ o, Consistent mods (conf.op o)) (h : CleanRun mods enum conf (before ++ after)) :
    (∀ o, Consistent mods ((runCalls enum conf before).op o)) ∧
      CleanRun mods enum (runCalls enum conf before) after := by
  induction before generalizing conf with
  | nil => exact ⟨hconf, h⟩
  | cons call before ih => exact ih (h.1.consistent hsep hconf) h.2

/-- In every run of clean calls engaging and taking back are inverse and local. -/
theorem clean_runs_inverse_and_local {calls : List Call} (hsep : Separate mods)
    (hconf : ∀ o, Consistent mods (conf.op o)) (h : CleanRun mods enum conf calls) :
    InverseAndLocal mods enum conf calls := by
  refine ⟨?_, ?_, ?_⟩
  · rintro before after rfl m hm o
    exact ((h.append hsep hconf).1 o).listed m hm
  · rintro before i m after rfl
    exact (h.append hsep hconf).2.1.isLocal
  · rintro before i m after rfl hnowhere
    obtain ⟨hbefore, hengage, hdisengage, -⟩ := h.append hsep hconf
    rw [runCalls_append]
    exact restored_of_clean hbefore hengage hdisengage hnowhere

/-- Nothing is engaged to the operation and its phases are empty. -/
def Fresh (op : Op) : Prop :=
  op.engagedModules = [] ∧ ∀ type phases, op.flow type = some phases →
    ∀ phase ∈ phases, phase.phase.order = []

lemma Fresh.order_eq_nil {op : Op} (h : Fresh op) {type : FlowType} {phases : List NamedPhase}
    (hphases : op.flow type = some phases) {name : String} {phase : HandlerPhase}
    (hphase : phaseOf phases name = some phase) : phase.order = [] := by
  obtain ⟨found, hfound, rfl⟩ := Option.map_eq_some_iff.mp hphase
  exact h.2 type phases hphases found (List.mem_of_find?_eq_some hfound)

lemma Fresh.consistent {op : Op} (h : Fresh op) : Consistent mods op where
  nodup := h.1 ▸ List.nodup_nil
  listed m _ type phases name n hphases _ := by
    rw [h.1, handlersIn_eq]
    cases hphase : phaseOf phases name with
    | none => simp
    | some phase => simp [h.order_eq_nil hphases hphase]
  copies m _ type phases name phase hphases hphase n _ := by
    have hnot : n ∉ phase.names := fun hmem => by
      have := mem_order.mpr (Or.inr (Or.inl hmem))
      simp [h.order_eq_nil hphases hphase] at this
    rw [List.count_eq_zero_of_not_mem hnot]
    exact Nat.zero_le _

end Calls

section Examples

lemma nodup_first : [0].Nodup := List.nodup_singleton 0

def oneOp : Conf where
  op _ := userOp "echo" []
  svcs := [⟨[0], nodup_first, []⟩]
  getModule _ := some loggingModule
  engagedModules := []
  flow _ := none

lemma fresh_userOp (name : String) : Fresh (userOp name []) := by
  refine ⟨rfl, fun type phases hphases phase hmem => ?_⟩
  cases type with
  | inFlow =>
    obtain rfl := Option.some.inj hphases
    obtain rfl := List.mem_singleton.mp hmem
    rfl
  | _ => cases hphases

lemma separate_logging : Separate [loggingModule] where
  name _ hm _ hm' _ := (List.mem_singleton.mp hm).trans (List.mem_singleton.mp hm').symm
  handler _ hm _ hm' _ _ _ _ _ :=
    (List.mem_singleton.mp hm).trans (List.mem_singleton.mp hm').symm

lemma systemPart_logging (op : Op) : systemPart loggingModule FlowType.all op = [] := by
  refine List.flatMap_eq_nil_iff.mpr fun type _ => ?_
  split_ifs
  · cases type <;> rfl
  · rfl

theorem logging_run : InverseAndLocal [loggingModule] insertionOrder oneOp
    [.engageToSvc 0 loggingModule, .disengageFromSvc 0 loggingModule] := by
  refine clean_runs_inverse_and_local separate_logging
    (fun _ => (fresh_userOp "echo").consistent) ⟨⟨List.mem_cons_self, ?_⟩,
      ⟨List.mem_cons_self, ?_⟩, trivial⟩
  · intro svc hsvc
    obtain rfl := Option.some.inj hsvc
    refine ⟨Or.inl rfl, fun o _ _ type phases hphases => ?_, by decide, fun _ o _ name desc hdesc => ?_⟩
    · cases type with
      | inFlow =>
        obtain rfl := Option.some.inj hphases
        decide
      | _ => cases hphases
    · simp [systemPart_logging, named] at hdesc
  · intro svc hsvc
    obtain rfl := Option.some.inj hsvc
    refine ⟨fun o ho _ type phases hphases => ?_, by decide, fun o ho _ => ⟨?_, ?_⟩,
      fun o _ _ j svc' hj hsvc' => ?_, fun o _ _ hne => absurd (systemPart_logging _) hne⟩
    · obtain rfl := List.mem_singleton.mp ho
      cases type with
      | inFlow =>
        obtain rfl := Option.some.inj hphases
        decide
      | _ => cases hphases
    · obtain rfl := List.mem_singleton.mp ho
      intro type phases hphases name desc hdesc phase hphase
      cases type with
      | inFlow =>
        obtain rfl := Option.some.inj hphases
        obtain ⟨found, hfound, rfl⟩ := Option.map_eq_some_iff.mp hphase
        obtain rfl := List.mem_singleton.mp (List.mem_of_find?_eq_some hfound)
        exact ⟨rfl, rfl⟩
      | _ => cases hphases
    · intro name desc hdesc
      simp [systemPart_logging, named] at hdesc
    · cases j with
      | zero => exact absurd rfl hj
      | succ j => cases hsvc'

/-- The call for one operation adds the handler and records nothing. -/
theorem engaged_operation_is_not_listed :
    ¬ ∀ (mods : List ModuleDesc) (enum : Enumeration) (conf : Conf) (calls : List Call),
      Separate mods → (∀ o, Fresh (conf.op o)) → InverseAndLocal mods enum conf calls := by
  intro h
  have hrun := h [loggingModule] insertionOrder oneOp [.engageToOp 0 loggingModule]
    separate_logging (fun _ => fresh_userOp "echo")
  have hlisted := hrun.listed [.engageToOp 0 loggingModule] [] rfl loggingModule
    List.mem_cons_self 0 .inFlow _ "User" "LoggingInHandler" rfl
    ⟨by decide, _, rfl, _, List.mem_cons_self, rfl, rfl⟩
  exact absurd (hlisted.mpr (by decide)) (by decide)

end Examples

end Axis2C.Resolver
