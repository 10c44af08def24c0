import Axis2C.PhaseEngageGlobally

/-!
# Engaging modules to services and taking them back

`axis2_phase_resolver_engage_module_to_svc`, `axis2_op_engage_module` and
`axis2_phase_resolver_disengage_module_from_svc`. Handlers for system phases go
into the phases of the configuration, once for each operation, and only for the
flows that the operation has phases for. The phases of the configuration are never
missing.
-/
namespace Axis2C.Resolver
open Engine

/-- `axis2_phase_remove_handler_desc`: only the list of the phase is searched. -/
def removeHandlerDesc (phase : HandlerPhase) (desc : HandlerDesc) : Option HandlerPhase :=
  if desc.hasHandler then
    some { phase with handlers := phase.handlers.eraseP (·.name = desc.name) }
  else none

/-- `axis2_phase_holder_remove_handler` for a phase name that is not missing. -/
def removeFromPhases (desc : HandlerDesc) (name : String) :
    List NamedPhase → Option (List NamedPhase)
  | [] => none
  | phase :: rest =>
    if phase.name = name then
      match removeHandlerDesc phase.phase desc with
      | some phase' => some ({ phase with phase := phase' } :: rest)
      | none => none
    else (removeFromPhases desc name rest).map (phase :: ·)

def phaseHolderRemoveHandler (phases : List NamedPhase) (handler : FlowHandler) :
    Option (List NamedPhase) :=
  match handler.phaseName with
  | none => none
  | some name => removeFromPhases handler.desc name phases

def FlowHandler.isSystem (handler : FlowHandler) : Bool := handler.phaseName.any isSystemPhase

/-- The loop over the handlers of a flow in `axis2_phase_resolver_engage_module_to_op`
and in `axis2_phase_resolver_disengage_module_from_op`, which differ in `act`: the
phases of the operation and those of the configuration. -/
def overHandlers (act : List NamedPhase → FlowHandler → Option (List NamedPhase)) :
    List FlowHandler → List NamedPhase → List NamedPhase →
      Bool × List NamedPhase × List NamedPhase
  | [], phases, system => (true, phases, system)
  | handler :: rest, phases, system =>
    if handler.isSystem then
      match act system handler with
      | none => (false, phases, system)
      | some system' => overHandlers act rest phases system'
    else
      match act phases handler with
      | none => (false, phases, system)
      | some phases' => overHandlers act rest phases' system

def overFlows (act : List NamedPhase → FlowHandler → Option (List NamedPhase))
    (moduleDesc : ModuleDesc) : List FlowType → Op → List NamedPhase →
      Bool × Op × List NamedPhase
  | [], op, system => (true, op, system)
  | type :: rest, op, system =>
    match op.flow type, moduleDesc.flow type with
    | some phases, some handlers =>
      match overHandlers act handlers phases system with
      | (true, phases', system') =>
        overFlows act moduleDesc rest (op.setFlow type (some phases')) system'
      | (false, phases', system') => (false, op.setFlow type (some phases'), system')
    | _, _ => overFlows act moduleDesc rest op system

def engageModuleToOp (moduleDesc : ModuleDesc) : Op → List NamedPhase →
    Bool × Op × List NamedPhase :=
  overFlows phaseHolderAddHandler moduleDesc FlowType.all

def disengageModuleFromOp (moduleDesc : ModuleDesc) : Op → List NamedPhase →
    Bool × Op × List NamedPhase :=
  overFlows phaseHolderRemoveHandler moduleDesc FlowType.all

/-- `axis2_op_remove_from_engaged_module_list` -/
def Op.removeFromEngagedModuleList (op : Op) (moduleDesc : ModuleDesc) : Op :=
  { op with engagedModules := op.engagedModules.erase moduleDesc.name }

/-- The operations and the system phases. -/
structure Store where
  op : ℕ → Op
  system : List NamedPhase

/-- The loop over the operations of a service: `act` for those whose list has the
module or has it not, as `wanted` says, and `skip` on the status for the others.
The list of the operation is changed when `act` succeeds. -/
def overOps (moduleDesc : ModuleDesc) (wanted : Bool) (skip : Bool → Bool)
    (act : Op → List NamedPhase → Bool × Op × List NamedPhase) (record : Op → Op) :
    List ℕ → Bool → Store → Bool × Store
  | [], status, store => (status, store)
  | o :: rest, status, store =>
    if lists moduleDesc store.op o = wanted then
      match act (store.op o) store.system with
      | (true, op, system) =>
        overOps moduleDesc wanted skip act record rest true
          ⟨Function.update store.op o (record op), system⟩
      | (false, op, system) => (false, ⟨Function.update store.op o op, system⟩)
    else overOps moduleDesc wanted skip act record rest (skip status) store

/-- An operation that lists the module already counts as a success. -/
def engageOps (moduleDesc : ModuleDesc) : List ℕ → Bool → Store → Bool × Store :=
  overOps moduleDesc false (fun _ => true) (engageModuleToOp moduleDesc)
    (·.addToEngagedModuleList moduleDesc)

def disengageOps (moduleDesc : ModuleDesc) : List ℕ → Bool → Store → Bool × Store :=
  overOps moduleDesc true id (disengageModuleFromOp moduleDesc)
    (·.removeFromEngagedModuleList moduleDesc)

/-- `axis2_conf_get_in_phases_upto_and_including_post_dispatch` -/
def Conf.system (conf : Conf) : List NamedPhase := (conf.flow .inFlow).getD []

def Conf.withStore (conf : Conf) (store : Store) : Conf :=
  { conf with
    op := store.op
    flow := setFlow conf.flow .inFlow (some store.system) }

def Conf.setSvc (conf : Conf) (i : ℕ) (svc : Svc) : Conf :=
  { conf with svcs := conf.svcs.set i svc }

/-- The service stands at place `i` of the services. -/
def engageModuleToSvc (enum : Enumeration) (conf : Conf) (i : ℕ) (moduleDesc : ModuleDesc) :
    Bool × Conf :=
  match conf.svcs[i]? with
  | none => (false, conf)
  | some svc =>
    match svcAddModuleOps conf moduleDesc svc conf.op with
    | (false, svc', ops) => (false, (conf.setSvc i svc').withStore ⟨ops, conf.system⟩)
    | (true, svc', ops) =>
      let (status, store) :=
        engageOps moduleDesc (enum.order svc'.ops) true ⟨ops, conf.system⟩
      (status, (conf.setSvc i svc').withStore store)

def disengageModuleFromSvc (enum : Enumeration) (conf : Conf) (i : ℕ) (moduleDesc : ModuleDesc) :
    Bool × Conf :=
  match conf.svcs[i]? with
  | none => (false, conf)
  | some svc =>
    let (status, store) :=
      disengageOps moduleDesc (enum.order svc.ops) false ⟨conf.op, conf.system⟩
    (status, conf.withStore store)

/-- `axis2_op_engage_module`: the status of the call in it is ignored, and the flag
that would put the module into the list of the operation is never set. -/
def opEngageModule (conf : Conf) (o : ℕ) (moduleDesc : ModuleDesc) : Bool × Conf :=
  if lists moduleDesc conf.op o then (false, conf)
  else
    let (_, op, system) := engageModuleToOp moduleDesc (conf.op o) conf.system
    (true, conf.withStore ⟨Function.update conf.op o op, system⟩)

inductive Call
  | engageToSvc (i : ℕ) (moduleDesc : ModuleDesc)
  | engageToOp (o : ℕ) (moduleDesc : ModuleDesc)
  | disengageFromSvc (i : ℕ) (moduleDesc : ModuleDesc)

def Call.run (enum : Enumeration) (conf : Conf) : Call → Conf
  | .engageToSvc i moduleDesc => (engageModuleToSvc enum conf i moduleDesc).2
  | .engageToOp o moduleDesc => (opEngageModule conf o moduleDesc).2
  | .disengageFromSvc i moduleDesc => (disengageModuleFromSvc enum conf i moduleDesc).2

def runCalls (enum : Enumeration) (conf : Conf) (calls : List Call) : Conf :=
  calls.foldl (Call.run enum) conf

end Axis2C.Resolver
