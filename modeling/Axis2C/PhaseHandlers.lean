import Axis2C.EngineChains

/-!
# Placing handlers in a phase

`axis2_phase_add_handler_desc` and the three insertion routines of `phase.c`.
A handler and its description have one name. The handler of a description may
be missing, and so may its rules; the handlers in the phase have both, since
nothing else is ever stored.
-/
namespace Axis2C.Engine

/-- What `axis2_phase_rule_t` says about the place of a handler. -/
structure PhaseRule where
  before : Option String
  after : Option String
  first : Bool
  last : Bool
  deriving Repr, DecidableEq

structure HandlerDesc where
  name : String
  rules : Option PhaseRule
  hasHandler : Bool
  deriving Repr, DecidableEq

structure HandlerPhase where
  firstHandler : Option HandlerDesc
  handlers : List HandlerDesc
  lastHandler : Option HandlerDesc
  isOneHandler : Bool
  deriving Repr, DecidableEq

/-- The error numbers that are set when a description is refused. -/
inductive PhaseError
  | phaseAddHandlerInvalid
  | invalidNullParam
  | invalidHandlerRules
  | phaseFirstHandlerAlreadySet
  | invalidPhaseFirstHandler
  | phaseLastHandlerAlreadySet
  | invalidPhaseLastHandler
  | invalidHandlerState
  deriving Repr, DecidableEq

def phaseCreate : HandlerPhase := ⟨none, [], none, false⟩

def phaseBothBeforeAfter : ℕ := 0
def phaseBefore : ℕ := 1
def phaseAfter : ℕ := 2
def phaseAnywhere : ℕ := 3
def axis2Failure : ℕ := 0

/-- `_axis2_phase_get_before_after`. The failure for equal names has the same
number as the placement by both rules. -/
def getBeforeAfter (rules : PhaseRule) : ℕ :=
  match rules.before, rules.after with
  | some before, some after => if before = after then axis2Failure else phaseBothBeforeAfter
  | some _, none => phaseBefore
  | none, some _ => phaseAfter
  | none, none => phaseAnywhere

def setFirstHandler (phase : HandlerPhase) (desc : HandlerDesc) (rules : PhaseRule) :
    Except PhaseError HandlerPhase :=
  if phase.firstHandler.isSome then .error .phaseFirstHandlerAlreadySet
  else if getBeforeAfter rules ≠ phaseAnywhere then .error .invalidPhaseFirstHandler
  else .ok { phase with firstHandler := some desc }

def setLastHandler (phase : HandlerPhase) (desc : HandlerDesc) (rules : PhaseRule) :
    Except PhaseError HandlerPhase :=
  if phase.lastHandler.isSome then .error .phaseLastHandlerAlreadySet
  else if getBeforeAfter rules ≠ phaseAnywhere then .error .invalidPhaseLastHandler
  else .ok { phase with lastHandler := some desc }

/-- `axis2_phase_add_unique`: a second handler of the same name is silently left out. -/
def addUnique (phase : HandlerPhase) (desc : HandlerDesc) : HandlerPhase :=
  if phase.handlers.any (·.name = desc.name) then phase
  else { phase with handlers := phase.handlers ++ [desc] }

/-- `axutil_array_list_add_at` on the handlers. -/
def addAt (phase : HandlerPhase) (index : ℕ) (desc : HandlerDesc) : HandlerPhase :=
  { phase with handlers := phase.handlers.insertIdx index desc }

/-- Whether a slot of the phase holds the handler of that name. -/
def slotNamed (slot : Option HandlerDesc) (name : String) : Bool :=
  slot.any (·.name = name)

/-- A handler cannot come before the first handler. -/
def isValidBefore (phase : HandlerPhase) (rules : PhaseRule) : Bool :=
  !rules.before.any (slotNamed phase.firstHandler)

/-- A handler cannot come after the last handler. -/
def isValidAfter (phase : HandlerPhase) (rules : PhaseRule) : Bool :=
  !rules.after.any (slotNamed phase.lastHandler)

def insertBefore (phase : HandlerPhase) (desc : HandlerDesc) (before : String) : HandlerPhase :=
  if slotNamed phase.lastHandler before then addUnique phase desc
  else
    match phase.handlers.findIdx? (·.name = before) with
    | some i => addAt phase i desc
    | none => addUnique phase desc

def insertAfter (phase : HandlerPhase) (desc : HandlerDesc) (after : String) : HandlerPhase :=
  if slotNamed phase.firstHandler after then addAt phase 0 desc
  else
    match phase.handlers.findIdx? (·.name = after) with
    | some i =>
      if i + 1 = phase.handlers.length then addUnique phase desc
      else addAt phase (i + 1) desc
    | none => if 0 < phase.handlers.length then addAt phase 0 desc else addUnique phase desc

/-- The loop of `axis2_phase_insert_before_and_after`: the indexes of the two
named handlers as soon as both are known. -/
def findBoth (afterName beforeName : String) :
    List HandlerDesc → ℕ → Option ℕ → Option ℕ → Option (ℕ × ℕ)
  | [], _, _, _ => none
  | handler :: rest, i, after, before =>
    let after := if handler.name = afterName then some i else after
    let before := if handler.name = beforeName then some i else before
    match after, before with
    | some a, some b => some (a, b)
    | _, _ => findBoth afterName beforeName rest (i + 1) after before

/-- The first handler is compared with the `before` rule and the last handler
with the `after` rule, as the source has it. -/
def insertBeforeAndAfter (phase : HandlerPhase) (desc : HandlerDesc)
    (beforeName afterName : String) : Except PhaseError HandlerPhase :=
  if slotNamed phase.firstHandler beforeName && slotNamed phase.lastHandler afterName then
    .ok (addUnique phase desc)
  else
    let after := if slotNamed phase.lastHandler afterName then some 0 else none
    let before :=
      if phase.lastHandler.isSome && slotNamed phase.firstHandler beforeName then
        some phase.handlers.length
      else none
    match findBoth afterName beforeName phase.handlers 0 after before with
    | some (after, before) =>
      if before < after then .error .invalidHandlerState
      else if after + 1 < phase.handlers.length then .ok (addAt phase (after + 1) desc)
      else .ok (addUnique phase desc)
    | none => .ok (addUnique phase desc)

def insertHandlerDesc (phase : HandlerPhase) (desc : HandlerDesc) (rules : PhaseRule) :
    Except PhaseError HandlerPhase :=
  if !isValidAfter phase rules then .error .invalidHandlerState
  else if !isValidBefore phase rules then .error .invalidHandlerState
  else if getBeforeAfter rules = phaseBothBeforeAfter then
    match rules.before, rules.after with
    | some before, some after => insertBeforeAndAfter phase desc before after
    | _, _ => .error .invalidNullParam
  else if getBeforeAfter rules = phaseBefore then
    match rules.before with
    | some before => .ok (insertBefore phase desc before)
    | none => .error .invalidNullParam
  else if getBeforeAfter rules = phaseAfter then
    match rules.after with
    | some after => .ok (insertAfter phase desc after)
    | none => .error .invalidNullParam
  else .ok (addUnique phase desc)

def addHandlerDesc (phase : HandlerPhase) (desc : HandlerDesc) : Except PhaseError HandlerPhase :=
  if phase.isOneHandler then .error .phaseAddHandlerInvalid
  else
    match desc.rules with
    | none => .error .invalidNullParam
    | some rules =>
      if rules.first && rules.last && decide (0 < phase.handlers.length) then
        .error .invalidHandlerRules
      else if !desc.hasHandler then .error .invalidNullParam
      else if rules.first && rules.last then
        .ok { addUnique phase desc with isOneHandler := true }
      else if rules.first then setFirstHandler phase desc rules
      else if rules.last then setLastHandler phase desc rules
      else insertHandlerDesc phase desc rules

/-- A sequence of calls that all succeed. -/
def addHandlerDescs (phase : HandlerPhase) : List HandlerDesc → Except PhaseError HandlerPhase
  | [] => .ok phase
  | desc :: rest => do
      let phase ← addHandlerDesc phase desc
      addHandlerDescs phase rest

def HandlerPhase.order (phase : HandlerPhase) : List String :=
  (phase.firstHandler.toList ++ phase.handlers ++ phase.lastHandler.toList).map HandlerDesc.name

def HandlerPhase.toPhase (phase : HandlerPhase) (name : Option String)
    (handler : String → Handler) : Phase where
  name := name
  firstHandler := phase.firstHandler.map (handler ·.name)
  handlers := phase.handlers.map (handler ·.name)
  lastHandler := phase.lastHandler.map (handler ·.name)

end Axis2C.Engine
