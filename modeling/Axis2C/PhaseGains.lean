import Axis2C.PhaseOrdering
import Axis2C.PhaseResolver
import Mathlib.Data.List.InsertIdx

/-!
# What an operation gains

No routine of the resolver that adds handlers takes one away. So a call that
succeeds is described by the modules that an operation newly lists and by the
names of the handlers that are newly in its phases, and two calls in a row by
the two descriptions together.
-/
namespace Axis2C.Engine

/-- What a call that succeeds can do: leave out a handler of a name that is
there, put the handler somewhere into the list, or take a free slot. -/
inductive Added (phase : HandlerPhase) (desc : HandlerDesc) : HandlerPhase → Prop
  | present (one : Bool) (h : desc.name ∈ phase.names) :
      Added phase desc { phase with isOneHandler := one }
  | inserted (l r : List HandlerDesc) (one : Bool) (h : phase.handlers = l ++ r) :
      Added phase desc { phase with handlers := l ++ desc :: r, isOneHandler := one }
  | first (h : phase.firstHandler = none) :
      Added phase desc { phase with firstHandler := some desc }
  | last (h : phase.lastHandler = none) :
      Added phase desc { phase with lastHandler := some desc }

section Members

variable {phase phase' : HandlerPhase} {desc : HandlerDesc} {name : String}

lemma addUnique_added_one (one : Bool) :
    Added phase desc { addUnique phase desc with isOneHandler := one } := by
  unfold addUnique
  split_ifs with h
  · obtain ⟨handler, hmem, hname⟩ := List.any_eq_true.mp h
    have hname : handler.name = desc.name := by simpa using hname
    exact .present one (List.mem_map.mpr ⟨handler, hmem, hname⟩)
  · exact .inserted phase.handlers [] one (by simp)

lemma addUnique_added : Added phase desc (addUnique phase desc) :=
  addUnique_added_one (addUnique phase desc).isOneHandler

lemma addAt_added {i : ℕ} (h : i ≤ phase.handlers.length) :
    Added phase desc (addAt phase i desc) := by
  rw [addAt, insertIdx_eq_take_drop _ h]
  exact .inserted _ _ phase.isOneHandler (List.take_append_drop i phase.handlers).symm

lemma findIdx?_lt {before : String} {i : ℕ}
    (h : phase.handlers.findIdx? (·.name = before) = some i) : i < phase.handlers.length :=
  (List.findIdx?_eq_some_iff_getElem.mp h).1

lemma insertBefore_added (before : String) :
    Added phase desc (insertBefore phase desc before) := by
  unfold insertBefore
  split_ifs
  · exact addUnique_added
  · split
    · next i hi => exact addAt_added (findIdx?_lt hi).le
    · exact addUnique_added

lemma insertAfter_added (after : String) : Added phase desc (insertAfter phase desc after) := by
  unfold insertAfter
  split
  · exact addAt_added (Nat.zero_le _)
  · split
    · next i hi =>
        split_ifs
        · exact addUnique_added
        · exact addAt_added (findIdx?_lt hi)
    · split_ifs
      · exact addAt_added (Nat.zero_le _)
      · exact addUnique_added

lemma insertBeforeAndAfter_added {before after : String}
    (h : insertBeforeAndAfter phase desc before after = .ok phase') :
    Added phase desc phase' := by
  unfold insertBeforeAndAfter at h
  split at h
  · obtain rfl := Except.ok.inj h
    exact addUnique_added
  · dsimp only at h
    generalize findBoth after before phase.handlers 0 _ _ = found at h
    match found with
    | none =>
      obtain rfl := Except.ok.inj h
      exact addUnique_added
    | some (i, j) =>
      dsimp only at h
      split_ifs at h with _ hlt
      · obtain rfl := Except.ok.inj h
        exact addAt_added hlt.le
      · obtain rfl := Except.ok.inj h
        exact addUnique_added

lemma insertHandlerDesc_added {rules : PhaseRule}
    (h : insertHandlerDesc phase desc rules = .ok phase') : Added phase desc phase' := by
  unfold insertHandlerDesc at h
  split_ifs at h
  · split at h
    · exact insertBeforeAndAfter_added h
    · cases h
  · split at h
    · obtain rfl := Except.ok.inj h
      exact insertBefore_added _
    · cases h
  · split at h
    · obtain rfl := Except.ok.inj h
      exact insertAfter_added _
    · cases h
  · obtain rfl := Except.ok.inj h
    exact addUnique_added

lemma addHandlerDesc_added (h : addHandlerDesc phase desc = .ok phase') :
    Added phase desc phase' := by
  unfold addHandlerDesc at h
  split at h
  · cases h
  · cases hrules : desc.rules with
    | none => simp [hrules] at h
    | some rules =>
      simp only [hrules] at h
      split_ifs at h
      · obtain rfl := Except.ok.inj h
        exact addUnique_added_one true
      · unfold setFirstHandler at h
        split_ifs at h with hset
        obtain rfl := Except.ok.inj h
        exact .first (by simpa using hset)
      · unfold setLastHandler at h
        split_ifs at h with hset
        obtain rfl := Except.ok.inj h
        exact .last (by simpa using hset)
      · exact insertHandlerDesc_added h

/-- A call that succeeds adds the name of the handler and takes none away. -/
lemma Added.mem_order (h : Added phase desc phase') :
    name ∈ phase'.order ↔ name ∈ phase.order ∨ name = desc.name := by
  cases h with
  | present one h =>
    have : desc.name ∈ phase.order := Engine.mem_order.mpr (Or.inr (Or.inl h))
    exact ⟨Or.inl, fun h => h.elim id (fun h => h ▸ this)⟩
  | inserted l r one h =>
    simp only [Engine.mem_order, HandlerPhase.names, h, List.map_append, List.map_cons,
      List.mem_append, List.mem_cons]
    tauto
  | first h =>
    simp only [Engine.mem_order, HandlerPhase.names, slotNamed, h, Option.any_some,
      Option.any_none, decide_eq_true_eq, Bool.false_eq_true, false_or, @eq_comm _ desc.name]
    tauto
  | last h =>
    simp only [Engine.mem_order, HandlerPhase.names, slotNamed, h, Option.any_some,
      Option.any_none, decide_eq_true_eq, Bool.false_eq_true, or_false, @eq_comm _ desc.name]
    tauto

end Members

end Axis2C.Engine

namespace Axis2C.Resolver
open Engine

def handlersIn (phases : Option (List NamedPhase)) (name : String) : List String :=
  (phases.bind fun list => list.find? (·.name = name)).elim [] (·.phase.order)

/-- The handlers `added` have come into the phases, if there are phases at all. -/
structure PhasesGain (phases phases' : Option (List NamedPhase))
    (added : String → String → Prop) : Prop where
  isSome : phases'.isSome = phases.isSome
  mem : ∀ name handler, handler ∈ handlersIn phases' name ↔
    handler ∈ handlersIn phases name ∨ (phases.isSome = true ∧ added name handler)

section Phases

variable {phases phases' phases'' : Option (List NamedPhase)} {added added' : String → String → Prop}
variable {list list' : List NamedPhase}

lemma PhasesGain.refl (phases : Option (List NamedPhase)) :
    PhasesGain phases phases fun _ _ => False :=
  ⟨rfl, fun _ _ => by simp⟩

lemma PhasesGain.trans (h : PhasesGain phases phases' added)
    (h' : PhasesGain phases' phases'' added') :
    PhasesGain phases phases'' fun name handler => added name handler ∨ added' name handler := by
  refine ⟨h'.isSome.trans h.isSome, fun name handler => ?_⟩
  rw [h'.mem, h.mem, h.isSome]
  tauto

lemma PhasesGain.congr (h : PhasesGain phases phases' added)
    (hadded : ∀ name handler, added name handler ↔ added' name handler) :
    PhasesGain phases phases' added' :=
  ⟨h.isSome, fun name handler => by rw [h.mem, hadded]⟩

lemma PhasesGain.none : PhasesGain none none added :=
  ⟨rfl, fun _ _ => by simp⟩

lemma addToPhases_gain {desc : HandlerDesc} {name : String}
    (h : addToPhases desc name list = some list') :
    PhasesGain (some list) (some list')
      fun name' handler => name' = name ∧ handler = desc.name := by
  refine ⟨rfl, fun name' handler => ?_⟩
  induction list generalizing list' with
  | nil => cases h
  | cons phase list ih =>
    rw [addToPhases] at h
    split_ifs at h with hname
    · cases hadd : addHandlerDesc phase.phase desc with
      | error _ => simp [hadd] at h
      | ok phase' =>
        simp only [hadd, Option.some.injEq] at h
        subst h
        by_cases hname' : phase.name = name'
        · have : handler ∈ phase'.order ↔ _ := (addHandlerDesc_added hadd).mem_order
          simpa [handlersIn, hname', hname ▸ hname'] using this
        · have hne : name' ≠ name := fun he => hname' (hname.trans he.symm)
          simp [handlersIn, hname', hne]
    · obtain ⟨rest, hrest, rfl⟩ := Option.map_eq_some_iff.mp h
      by_cases hname' : phase.name = name'
      · have hne : name' ≠ name := fun he => hname (hname'.trans he)
        simp [handlersIn, hname', hne]
      · simpa [handlersIn, hname'] using ih hrest

lemma phaseHolderAddHandler_gain {handler : FlowHandler}
    (h : phaseHolderAddHandler list handler = some list') :
    PhasesGain (some list) (some list')
      fun name n => handler.phaseName = some name ∧ handler.desc.name = n := by
  unfold phaseHolderAddHandler at h
  cases hname : handler.phaseName with
  | none => simp [hname] at h
  | some name =>
    simp only [hname] at h
    exact (addToPhases_gain h).congr fun name' n => by
      simp [eq_comm]

/-- Some handler of the list has that name and goes into the phase of that name. -/
def NamesHandler (handlers : List FlowHandler) (name n : String) : Prop :=
  ∃ handler ∈ handlers, handler.phaseName = some name ∧ handler.desc.name = n

lemma addFlowHandlers_gain {wanted : String → Bool} {handlers : List FlowHandler}
    (h : addFlowHandlers wanted handlers phases = (true, phases')) :
    PhasesGain phases phases'
      fun name n => wanted name = true ∧ NamesHandler handlers name n := by
  induction handlers generalizing phases with
  | nil =>
    obtain rfl : phases = phases' := (Prod.mk.inj h).2
    exact (PhasesGain.refl phases).congr fun _ _ => by simp [NamesHandler]
  | cons handler rest ih =>
    rw [addFlowHandlers.eq_def] at h
    dsimp only at h
    cases hname : handler.phaseName with
    | none => simp [hname] at h
    | some name =>
      simp only [hname] at h
      split_ifs at h with hwanted
      · match phases with
        | none =>
          have := ih h
          obtain rfl : phases' = none := by
            have := this.isSome
            cases phases' <;> simp_all
          exact PhasesGain.none
        | some list =>
          cases hadd : phaseHolderAddHandler list handler with
          | none => simp [hadd] at h
          | some list' =>
            simp only [hadd] at h
            refine ((phaseHolderAddHandler_gain hadd).trans (ih h)).congr fun name' n => ?_
            simp only [NamesHandler, List.exists_mem_cons_iff, hname, Option.some.injEq]
            constructor
            · rintro (⟨rfl, rfl⟩ | ⟨hw, hrest⟩)
              · exact ⟨hwanted, Or.inl ⟨rfl, rfl⟩⟩
              · exact ⟨hw, Or.inr hrest⟩
            · rintro ⟨hw, ⟨rfl, rfl⟩ | hrest⟩
              · exact Or.inl ⟨rfl, rfl⟩
              · exact Or.inr ⟨hw, hrest⟩
      · refine (ih h).congr fun name' n => ?_
        simp only [NamesHandler, List.exists_mem_cons_iff, hname, Option.some.injEq]
        constructor
        · exact fun ⟨hw, hrest⟩ => ⟨hw, Or.inr hrest⟩
        · rintro ⟨hw, ⟨rfl, -⟩ | hrest⟩
          · exact absurd hw hwanted
          · exact ⟨hw, hrest⟩

lemma addHandlerList_gain {handlers : List FlowHandler}
    (h : addHandlerList handlers list = (true, list')) :
    PhasesGain (some list) (some list') (NamesHandler handlers) := by
  induction handlers generalizing list with
  | nil =>
    obtain rfl : list = list' := (Prod.mk.inj h).2
    exact (PhasesGain.refl _).congr fun _ _ => by simp [NamesHandler]
  | cons handler rest ih =>
    rw [addHandlerList] at h
    cases hadd : phaseHolderAddHandler list handler with
    | none => simp [hadd] at h
    | some list'' =>
      simp only [hadd] at h
      refine ((phaseHolderAddHandler_gain hadd).trans (ih h)).congr fun name n => ?_
      simp [NamesHandler]

end Phases

/-- The operation newly lists the modules of `lists`, and the handlers `added`
have come into the phases of the flows it has. -/
structure Gains (op op' : Op) (lists : String → Prop)
    (added : FlowType → String → String → Prop) : Prop where
  name : op'.name = op.name
  lists : ∀ m, m ∈ op'.engagedModules ↔ m ∈ op.engagedModules ∨ lists m
  flow : ∀ type, PhasesGain (op.flow type) (op'.flow type) (added type)

section Operations

variable {op op' op'' : Op} {lists lists' : String → Prop}
  {added added' : FlowType → String → String → Prop}
variable {type : FlowType} {modules : List (Option ModuleDesc)}

lemma Gains.refl (op : Op) : Gains op op (fun _ => False) fun _ _ _ => False :=
  ⟨rfl, fun _ => by simp, fun type => PhasesGain.refl _⟩

lemma Gains.trans (h : Gains op op' lists added) (h' : Gains op' op'' lists' added') :
    Gains op op'' (fun m => lists m ∨ lists' m)
      fun type name n => added type name n ∨ added' type name n := by
  refine ⟨h'.name.trans h.name, fun m => ?_, fun type => (h.flow type).trans (h'.flow type)⟩
  rw [h'.lists, h.lists, or_assoc]

lemma Gains.congr (h : Gains op op' lists added) (hlists : ∀ m, lists m ↔ lists' m)
    (hadded : ∀ type name n, added type name n ↔ added' type name n) :
    Gains op op' lists' added' :=
  ⟨h.name, fun m => by rw [h.lists, hlists], fun type => (h.flow type).congr (hadded type)⟩

lemma gains_addToEngagedModuleList (op : Op) (moduleDesc : ModuleDesc) :
    Gains op (op.addToEngagedModuleList moduleDesc) (· = moduleDesc.name)
      fun _ _ _ => False := by
  unfold Op.addToEngagedModuleList
  split_ifs with h
  · have hmem : moduleDesc.name ∈ op.engagedModules := by simpa using h
    refine ⟨rfl, fun m => ⟨Or.inl, ?_⟩, fun type => PhasesGain.refl _⟩
    rintro (h | rfl)
    · exact h
    · exact hmem
  · exact ⟨rfl, fun m => by simp, fun type => PhasesGain.refl _⟩

lemma gains_setFlow {phases : Option (List NamedPhase)} {added : String → String → Prop}
    (h : PhasesGain (op.flow type) phases added) :
    Gains op (op.setFlow type phases) (fun _ => False)
      fun type' name n => type' = type ∧ added name n := by
  refine ⟨rfl, fun m => by simp [Op.setFlow], fun type' => ?_⟩
  by_cases htype : type' = type
  · subst htype
    simpa [Op.setFlow, setFlow] using h
  · simpa [Op.setFlow, setFlow, htype] using PhasesGain.refl (op.flow type')

/-- The module has a handler of that name for the phase, which is not a system phase. -/
def ModuleDesc.HasHandler (moduleDesc : ModuleDesc) (type : FlowType) (name n : String) : Prop :=
  isUserPhase name = true ∧
    ∃ handlers, moduleDesc.flow type = some handlers ∧ NamesHandler handlers name n

lemma addModuleHandlersToOp_gains {moduleDesc : ModuleDesc} {types : List FlowType}
    (h : addModuleHandlersToOp moduleDesc types op = (true, op')) :
    Gains op op' (fun _ => False)
      fun type name n => type ∈ types ∧ moduleDesc.HasHandler type name n := by
  induction types generalizing op with
  | nil =>
    obtain rfl : op = op' := (Prod.mk.inj h).2
    exact (Gains.refl op).congr (fun _ => Iff.rfl) fun _ _ _ => by simp
  | cons type rest ih =>
    rw [addModuleHandlersToOp] at h
    cases hflow : moduleDesc.flow type with
    | none =>
      simp only [hflow] at h
      refine (ih h).congr (fun _ => Iff.rfl) fun type' name n => ?_
      constructor
      · exact fun ⟨hmem, hhas⟩ => ⟨List.mem_cons_of_mem _ hmem, hhas⟩
      · rintro ⟨hmem, hhas⟩
        refine ⟨(List.mem_cons.mp hmem).resolve_left fun htype => ?_, hhas⟩
        obtain ⟨-, handlers, hhandlers, -⟩ := hhas
        simp [htype, hflow] at hhandlers
    | some handlers =>
      simp only [hflow] at h
      rcases hadd : addFlowHandlers isUserPhase handlers (op.flow type) with ⟨_ | _, phases⟩
      · simp [hadd] at h
      · simp only [hadd] at h
        refine ((gains_setFlow (addFlowHandlers_gain hadd)).trans (ih h)).congr
          (fun _ => by simp) fun type' name n => ?_
        constructor
        · rintro (⟨rfl, hname, hhas⟩ | ⟨hmem, hhas⟩)
          · exact ⟨List.mem_cons_self, hname, handlers, hflow, hhas⟩
          · exact ⟨List.mem_cons_of_mem _ hmem, hhas⟩
        · rintro ⟨hmem, hhas⟩
          obtain rfl | hmem := List.mem_cons.mp hmem
          · obtain ⟨hname, handlers', hflow', hhas⟩ := hhas
            obtain rfl := Option.some.inj (hflow.symm.trans hflow')
            exact Or.inl ⟨rfl, hname, hhas⟩
          · exact Or.inr ⟨hmem, hhas⟩

/-- One of the modules has that name. -/
def Names (modules : List (Option ModuleDesc)) (m : String) : Prop :=
  ∃ moduleDesc, some moduleDesc ∈ modules ∧ moduleDesc.name = m

def HasHandler (modules : List (Option ModuleDesc)) (type : FlowType) (name n : String) : Prop :=
  ∃ moduleDesc, some moduleDesc ∈ modules ∧ moduleDesc.HasHandler type name n

lemma addToHandlerList_mem {moduleDesc : ModuleDesc} {handlerList handlerList' : List FlowHandler}
    (h : addToHandlerList type moduleDesc handlerList = some handlerList') (name n : String) :
    NamesHandler handlerList' name n ↔
      NamesHandler handlerList name n ∨ moduleDesc.HasHandler type name n := by
  unfold addToHandlerList at h
  cases hflow : moduleDesc.flow type with
  | none =>
    simp only [hflow, Option.some.injEq] at h
    simp [ModuleDesc.HasHandler, hflow, h]
  | some handlers =>
    simp only [hflow] at h
    split_ifs at h
    obtain rfl := Option.some.inj h
    simp only [NamesHandler, List.mem_append, List.mem_filter, ModuleDesc.HasHandler, hflow,
      Option.some.injEq, exists_eq_left', or_and_right, exists_or]
    refine or_congr Iff.rfl ⟨?_, ?_⟩
    · rintro ⟨handler, ⟨hmem, huser⟩, hname, rfl⟩
      exact ⟨by simpa [hname] using huser, handler, hmem, hname, rfl⟩
    · rintro ⟨huser, handler, hmem, hname, rfl⟩
      exact ⟨handler, ⟨hmem, by simpa [hname] using huser⟩, hname, rfl⟩

/-- The loops over the engaged modules list the modules and leave the phases. -/
lemma collectHandlers_gains {handlerList handlerList' : List FlowHandler}
    (h : collectHandlers type modules handlerList op = (some handlerList', op')) :
    Gains op op' (Names modules) (fun _ _ _ => False) ∧ op'.flow = op.flow ∧
      ∀ name n, NamesHandler handlerList' name n ↔
        NamesHandler handlerList name n ∨ HasHandler modules type name n := by
  induction modules generalizing handlerList op with
  | nil =>
    obtain ⟨hlist, rfl⟩ := Prod.mk.inj h
    obtain rfl := Option.some.inj hlist
    exact ⟨(Gains.refl op).congr (fun _ => by simp [Names]) fun _ _ _ => Iff.rfl, rfl,
      fun _ _ => by simp [HasHandler]⟩
  | cons found rest ih =>
    cases found with
    | none => simp [collectHandlers] at h
    | some moduleDesc =>
      rw [collectHandlers] at h
      cases hadd : addToHandlerList type moduleDesc handlerList with
      | none => simp [hadd] at h
      | some handlerList'' =>
        simp only [hadd] at h
        obtain ⟨hgains, hflow, hmem⟩ := ih h
        refine ⟨?_, hflow.trans ?_, fun name n => ?_⟩
        · refine ((gains_addToEngagedModuleList op moduleDesc).trans hgains).congr
            (fun m => ?_) fun _ _ _ => by simp
          simp [Names, eq_comm]
        · unfold Op.addToEngagedModuleList
          split_ifs <;> rfl
        · rw [hmem, addToHandlerList_mem hadd, or_assoc]
          simp [HasHandler]

lemma buildExecutionChainsForOp_gains {modules : List (Option ModuleDesc)} {type : FlowType}
    (h : buildExecutionChainsForOp modules type op = (true, op')) :
    Gains op op' (Names modules)
      fun type' name n => type' = type ∧ HasHandler modules type name n := by
  unfold buildExecutionChainsForOp at h
  rcases hcollect : collectHandlers type modules [] op with ⟨_ | handlerList, op₁⟩
  · simp [hcollect] at h
  · obtain ⟨hgains, hflow, hmem⟩ := collectHandlers_gains hcollect
    have hmem : ∀ name n, NamesHandler handlerList name n ↔ HasHandler modules type name n := by
      intro name n
      rw [hmem]
      simp [NamesHandler]
    have hphases : ∃ phases, op' = op₁.setFlow type phases ∧
        PhasesGain (op₁.flow type) phases (NamesHandler handlerList) := by
      rw [hcollect] at h
      cases handlerList with
      | nil =>
        obtain rfl : op₁ = op' := (Prod.mk.inj h).2
        refine ⟨op₁.flow type, ?_, (PhasesGain.refl _).congr fun _ _ => by simp [NamesHandler]⟩
        simp [Op.setFlow, setFlow]
      | cons handler rest =>
        dsimp only at h
        cases hphases : op₁.flow type with
        | none =>
          obtain rfl : op₁ = op' := by simpa [hphases] using h
          exact ⟨none, by simp [Op.setFlow, setFlow, ← hphases], PhasesGain.none⟩
        | some list =>
          rcases hadd : addHandlerList (handler :: rest) list with ⟨status, list'⟩
          simp only [hphases, hadd, Prod.mk.injEq] at h
          obtain ⟨rfl, rfl⟩ := h
          exact ⟨some list', rfl, addHandlerList_gain hadd⟩
    obtain ⟨phases, rfl, hphases⟩ := hphases
    refine (hgains.trans (gains_setFlow hphases)).congr (fun _ => by simp) fun type' name n => ?_
    simp [hmem]

lemma buildExecutionChainsForModuleOp_gains {types : List FlowType}
    (h : buildExecutionChainsForModuleOp modules types op = (true, op')) :
    Gains op op' (fun m => types ≠ [] ∧ Names modules m)
      fun type name n => type ∈ types ∧ HasHandler modules type name n := by
  induction types generalizing op with
  | nil =>
    obtain rfl : op = op' := (Prod.mk.inj h).2
    exact (Gains.refl op).congr (fun _ => by simp) fun _ _ _ => by simp
  | cons type rest ih =>
    rw [buildExecutionChainsForModuleOp] at h
    rcases hbuild : buildExecutionChainsForOp modules type op with ⟨_ | _, op₁⟩
    · simp [hbuild] at h
    · simp only [hbuild] at h
      refine ((buildExecutionChainsForOp_gains hbuild).trans (ih h)).congr
        (fun m => ?_) fun type' name n => ?_
      · simp only [ne_eq, reduceCtorEq, not_false_eq_true, true_and]
        tauto
      · simp only [List.mem_cons]
        constructor
        · rintro (⟨rfl, hhas⟩ | ⟨hmem, hhas⟩)
          · exact ⟨Or.inl rfl, hhas⟩
          · exact ⟨Or.inr hmem, hhas⟩
        · rintro ⟨rfl | hmem, hhas⟩
          · exact Or.inl ⟨rfl, hhas⟩
          · exact Or.inr ⟨hmem, hhas⟩

end Operations

end Axis2C.Resolver
