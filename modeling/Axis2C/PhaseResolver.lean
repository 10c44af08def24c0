import Axis2C.PhaseHandlers

/-!
# Engaging modules

`axis2_phase_resolver_engage_module_globally` and the two routines that build
the chains of a service, of `phase_resolver.c`, with what they call in
`phase_holder.c`, `op.c` and `svc.c`. Operations are shared: the operations of
a module are put into the table of every service, so a table holds numbers and
the operations themselves stand in a store. The result of a call is its status
with the state it leaves, also when it fails.

The test of the error status in `axis2_phase_resolver_add_to_handler_list`
follows a call that resets it, so it never stops the routine.
-/
namespace Axis2C.Resolver
open Engine

inductive FlowType
  | inFlow
  | outFlow
  | faultInFlow
  | faultOutFlow
  deriving Repr, DecidableEq

def FlowType.all : List FlowType := [.inFlow, .outFlow, .faultInFlow, .faultOutFlow]

/-- A handler description of a flow; `phaseName` is the name its rules give. -/
structure FlowHandler where
  desc : HandlerDesc
  phaseName : Option String
  deriving Repr, DecidableEq

structure NamedPhase where
  name : String
  phase : HandlerPhase
  deriving Repr, DecidableEq

/-- What the routines read of an `axis2_module_desc_t`; `ops` in the order of its table. -/
structure ModuleDesc where
  name : String
  flow : FlowType → Option (List FlowHandler)
  ops : List ℕ

structure Op where
  name : String
  flow : FlowType → Option (List NamedPhase)
  engagedModules : List String

/-- The operations of the service in the order in which they were put into its
table, which holds none twice, and the modules engaged to the service itself. -/
structure Svc where
  ops : List ℕ
  nodup : ops.Nodup
  engagedModules : List ModuleDesc

/-- The services stand in the order in which their table is enumerated. -/
structure Conf where
  op : ℕ → Op
  svcs : List Svc
  getModule : String → Option ModuleDesc
  engagedModules : List String
  flow : FlowType → Option (List NamedPhase)

/-- The order in which the tables of operations are enumerated. -/
structure Enumeration where
  order : List ℕ → List ℕ
  perm : ∀ ops, (order ops).Perm ops

def isSystemPhase (name : String) : Bool :=
  name = "Transport" || name = "PreDispatch" || name = "Dispatch" || name = "PostDispatch"

/-- `axis2_phase_holder_add_handler` for a phase name that is not missing: the
first phase of that name takes the handler. A failure changes nothing. -/
def addToPhases (desc : HandlerDesc) (name : String) :
    List NamedPhase → Option (List NamedPhase)
  | [] => none
  | phase :: rest =>
    if phase.name = name then
      match addHandlerDesc phase.phase desc with
      | .ok phase' => some ({ phase with phase := phase' } :: rest)
      | .error _ => none
    else (addToPhases desc name rest).map (phase :: ·)

def phaseHolderAddHandler (phases : List NamedPhase) (handler : FlowHandler) :
    Option (List NamedPhase) :=
  match handler.phaseName with
  | none => none
  | some name => addToPhases handler.desc name phases

/-- The loop that adds the handlers of a flow to the phases of one kind, `wanted`:
to those that are not system phases for an operation, to the system phases for
the configuration. A missing phase holder takes nothing. -/
def addFlowHandlers (wanted : String → Bool) :
    List FlowHandler → Option (List NamedPhase) → Bool × Option (List NamedPhase)
  | [], phases => (true, phases)
  | handler :: rest, phases =>
    match handler.phaseName with
    | none => (false, phases)
    | some name =>
      if wanted name then
        match phases with
        | none => addFlowHandlers wanted rest none
        | some list =>
          match phaseHolderAddHandler list handler with
          | none => (false, some list)
          | some list' => addFlowHandlers wanted rest (some list')
      else addFlowHandlers wanted rest phases

/-- The phases of a flow are replaced. -/
def setFlow (flow : FlowType → Option (List NamedPhase)) (type : FlowType)
    (phases : Option (List NamedPhase)) : FlowType → Option (List NamedPhase) :=
  Function.update flow type phases

/-- `axis2_phase_resolver_add_module_handlers_to_system_defined_phases`: a flow
without phases is passed over, also when a handler in it names no phase. -/
def addModuleHandlersToSystemDefinedPhases (moduleDesc : ModuleDesc) :
    List FlowType → (FlowType → Option (List NamedPhase)) →
      Bool × (FlowType → Option (List NamedPhase))
  | [], flow => (true, flow)
  | type :: rest, flow =>
    match flow type, moduleDesc.flow type with
    | some phases, some handlers =>
      match addFlowHandlers isSystemPhase handlers (some phases) with
      | (true, phases') =>
        addModuleHandlersToSystemDefinedPhases moduleDesc rest (setFlow flow type phases')
      | (false, phases') => (false, setFlow flow type phases')
    | _, _ => addModuleHandlersToSystemDefinedPhases moduleDesc rest flow

def Op.setFlow (op : Op) (type : FlowType) (phases : Option (List NamedPhase)) : Op :=
  { op with flow := Resolver.setFlow op.flow type phases }

/-- `axis2_op_add_to_engaged_module_list` -/
def Op.addToEngagedModuleList (op : Op) (moduleDesc : ModuleDesc) : Op :=
  if op.engagedModules.contains moduleDesc.name then op
  else { op with engagedModules := op.engagedModules ++ [moduleDesc.name] }

def isUserPhase (name : String) : Bool := !isSystemPhase name

/-- The loop over the flows of one operation. -/
def addModuleHandlersToOp (moduleDesc : ModuleDesc) : List FlowType → Op → Bool × Op
  | [], op => (true, op)
  | type :: rest, op =>
    match moduleDesc.flow type with
    | none => addModuleHandlersToOp moduleDesc rest op
    | some handlers =>
      match addFlowHandlers isUserPhase handlers (op.flow type) with
      | (true, phases) => addModuleHandlersToOp moduleDesc rest (op.setFlow type phases)
      | (false, phases) => (false, op.setFlow type phases)

/-- The loop of `axis2_phase_resolver_add_module_handlers_to_user_defined_phases`
over the operations. The flag `engaged` is set outside the loop only. -/
def addModuleHandlersToOps (moduleDesc : ModuleDesc) :
    List ℕ → Bool → (ℕ → Op) → Bool × (ℕ → Op)
  | [], _, ops => (true, ops)
  | o :: rest, engaged, ops =>
    let engaged := engaged || (ops o).engagedModules.contains moduleDesc.name
    if engaged then addModuleHandlersToOps moduleDesc rest engaged ops
    else
      match addModuleHandlersToOp moduleDesc FlowType.all (ops o) with
      | (true, op) =>
        addModuleHandlersToOps moduleDesc rest engaged
          (Function.update ops o (op.addToEngagedModuleList moduleDesc))
      | (false, op) => (false, Function.update ops o op)

def addModuleHandlersToUserDefinedPhases (enum : Enumeration) (svc : Svc) (moduleDesc : ModuleDesc)
    (ops : ℕ → Op) : Bool × (ℕ → Op) :=
  addModuleHandlersToOps moduleDesc (enum.order svc.ops) false ops

/-- `axis2_phase_resolver_add_to_handler_list` -/
def addToHandlerList (type : FlowType) (moduleDesc : ModuleDesc) (handlerList : List FlowHandler) :
    Option (List FlowHandler) :=
  match moduleDesc.flow type with
  | none => some handlerList
  | some handlers =>
    if handlers.all (·.phaseName.isSome) then
      some (handlerList ++ handlers.filter (·.phaseName.any isUserPhase))
    else none

/-- The two loops over the engaged modules; a name without a module stops them. -/
def collectHandlers (type : FlowType) :
    List (Option ModuleDesc) → List FlowHandler → Op → Option (List FlowHandler) × Op
  | [], handlerList, op => (some handlerList, op)
  | none :: _, _, op => (none, op)
  | some moduleDesc :: rest, handlerList, op =>
    match addToHandlerList type moduleDesc handlerList with
    | none => (none, op)
    | some handlerList' =>
      collectHandlers type rest handlerList' (op.addToEngagedModuleList moduleDesc)

/-- The last loop of `axis2_phase_resolver_build_execution_chains_for_op`, which
stops at the first handler that is refused. -/
def addHandlerList : List FlowHandler → List NamedPhase → Bool × List NamedPhase
  | [], phases => (true, phases)
  | handler :: rest, phases =>
    match phaseHolderAddHandler phases handler with
    | none => (false, phases)
    | some phases' => addHandlerList rest phases'

/-- The modules whose handlers go into the chains of a service. -/
def engagedFor (conf : Conf) (svc : Svc) : List (Option ModuleDesc) :=
  conf.engagedModules.map conf.getModule ++ svc.engagedModules.map some

def buildExecutionChainsForOp (modules : List (Option ModuleDesc)) (type : FlowType) (op : Op) :
    Bool × Op :=
  match collectHandlers type modules [] op with
  | (none, op) => (false, op)
  | (some [], op) => (true, op)
  | (some handlerList, op) =>
    match op.flow type with
    | none => (true, op)
    | some phases =>
      match addHandlerList handlerList phases with
      | (status, phases') => (status, op.setFlow type (some phases'))

/-- `axis2_phase_resolver_build_execution_chains_for_module_op` -/
def buildExecutionChainsForModuleOp (modules : List (Option ModuleDesc)) :
    List FlowType → Op → Bool × Op
  | [], op => (true, op)
  | type :: rest, op =>
    match buildExecutionChainsForOp modules type op with
    | (true, op) => buildExecutionChainsForModuleOp modules rest op
    | (false, op) => (false, op)

/-- The calls of `axis2_phase_resolver_build_execution_chains_for_svc` in turn.
Each of them overwrites the status. -/
def buildChains (modules : List (Option ModuleDesc)) :
    List (ℕ × FlowType) → Bool → (ℕ → Op) → Bool × (ℕ → Op)
  | [], status, ops => (status, ops)
  | (o, type) :: rest, _, ops =>
    let (status, op) := buildExecutionChainsForOp modules type (ops o)
    buildChains modules rest status (Function.update ops o op)

/-- The calls of the two loops, operation by operation. -/
def chainsOf (enum : Enumeration) (svc : Svc) : List (ℕ × FlowType) :=
  (enum.order svc.ops).flatMap fun o => FlowType.all.map (o, ·)

def buildExecutionChainsForSvc (enum : Enumeration) (conf : Conf) (svc : Svc) : Bool × Conf :=
  let (status, ops) := buildChains (engagedFor conf svc) (chainsOf enum svc) false conf.op
  (status, { conf with op := ops })

/-- `axis2_svc_add_op`: an operation of the service is not overridden. -/
def Svc.addOp (svc : Svc) (ops : ℕ → Op) (o : ℕ) : Svc :=
  if h : svc.ops.any (fun o' => (ops o').name = (ops o).name) then svc
  else
    { svc with
      ops := svc.ops ++ [o]
      nodup := by
        refine svc.nodup.append (List.nodup_singleton o) fun o' ho' ho => h ?_
        obtain rfl := List.mem_singleton.mp ho
        exact List.any_eq_true.mpr ⟨o', ho', by simp⟩ }

/-- The loop of `axis2_svc_add_module_ops`. -/
def addModuleOps (modules : List (Option ModuleDesc)) :
    List ℕ → Svc → (ℕ → Op) → Bool × Svc × (ℕ → Op)
  | [], svc, ops => (true, svc, ops)
  | o :: rest, svc, ops =>
    match buildExecutionChainsForModuleOp modules FlowType.all (ops o) with
    | (true, op) =>
      let ops := Function.update ops o op
      addModuleOps modules rest (svc.addOp ops o) ops
    | (false, op) => (false, svc, Function.update ops o op)

def svcAddModuleOps (conf : Conf) (moduleDesc : ModuleDesc) (svc : Svc) (ops : ℕ → Op) :
    Bool × Svc × (ℕ → Op) :=
  addModuleOps (engagedFor conf svc) moduleDesc.ops svc ops

/-- The loop of `axis2_phase_resolver_engage_module_globally` over the services,
with the services as it leaves them. -/
def engageModuleToSvcs (enum : Enumeration) (conf : Conf) (moduleDesc : ModuleDesc) :
    List Svc → (ℕ → Op) → Bool × List Svc × (ℕ → Op)
  | [], ops => (true, [], ops)
  | svc :: rest, ops =>
    match svcAddModuleOps conf moduleDesc svc ops with
    | (false, svc', ops) => (false, svc' :: rest, ops)
    | (true, svc', ops) =>
      match addModuleHandlersToUserDefinedPhases enum svc' moduleDesc ops with
      | (false, ops) => (false, svc' :: rest, ops)
      | (true, ops) =>
        let (status, rest', ops) := engageModuleToSvcs enum conf moduleDesc rest ops
        (status, svc' :: rest', ops)

def engageModuleGlobally (enum : Enumeration) (conf : Conf) (moduleDesc : ModuleDesc) :
    Bool × Conf :=
  match addModuleHandlersToSystemDefinedPhases moduleDesc FlowType.all conf.flow with
  | (false, flow) => (false, { conf with flow := flow })
  | (true, flow) =>
    let (status, svcs, ops) := engageModuleToSvcs enum conf moduleDesc conf.svcs conf.op
    (status, { conf with flow := flow, svcs := svcs, op := ops })

end Axis2C.Resolver
