import Mathlib.Tactic

/-!
# Phases of the Axis2 engine

Invocation of handler chains, as in `phase.c` and `engine.c`. What a handler
does is given by the number of the invocation: it may set the message context
to paused, and it returns success or failure. The message context records every
invocation with the paused flag it found. Elements of a handler list are not
NULL.
-/
namespace Axis2C.Engine

structure Handler where
  id : ℕ
  /-- Whether `axis2_handler_get_handler_desc` is not NULL. -/
  hasDesc : Bool
  deriving Repr, DecidableEq

structure Phase where
  name : Option String
  firstHandler : Option Handler
  handlers : List Handler
  lastHandler : Option Handler
  deriving Repr, DecidableEq

/-- What one handler invocation does. -/
structure Reply where
  pauses : Bool
  success : Bool
  deriving Repr, DecidableEq

structure Invocation where
  handler : Handler
  paused : Bool
  success : Bool
  deriving Repr, DecidableEq

structure MsgCtx where
  paused : Bool
  pausedPhaseName : Option String
  currentHandlerIndex : ℤ
  trace : List Invocation
  deriving Repr, DecidableEq

def msgCtxCreate : MsgCtx where
  paused := false
  pausedPhaseName := none
  currentHandlerIndex := -1
  trace := []

@[simp] lemma msgCtxCreate_paused : msgCtxCreate.paused = false := rfl

section Invoke

variable (replies : ℕ → Reply)

def handlerInvoke (handler : Handler) (ctx : MsgCtx) : Bool × MsgCtx :=
  let reply := replies ctx.trace.length
  (reply.success,
    { ctx with
      paused := ctx.paused || reply.pauses
      trace := ctx.trace ++ [⟨handler, ctx.paused, reply.success⟩] })

/-- The `while` loop over the ordinary handlers, from `index` on. -/
def invokeHandlers : List Handler → ℕ → MsgCtx → Bool × MsgCtx
  | [], _, ctx => (true, ctx)
  | handler :: rest, index, ctx =>
    if ctx.paused then (true, ctx)
    else
      match handlerInvoke replies handler ctx with
      | (false, ctx) => (false, ctx)
      | (true, ctx) =>
        invokeHandlers rest (index + 1) { ctx with currentHandlerIndex := (index : ℤ) + 1 }

/-- A handler invoked on its own at the start or at the end of a phase. -/
def invokeSingle (handler : Option Handler) (ctx : MsgCtx) : Bool × MsgCtx :=
  match handler with
  | none => (true, ctx)
  | some handler => if ctx.paused then (true, ctx) else handlerInvoke replies handler ctx

/-- When the message is already paused at the first handler the source returns;
none of the later parts would do anything then either. -/
def phaseInvoke (phase : Phase) (ctx : MsgCtx) : Bool × MsgCtx :=
  match invokeSingle replies phase.firstHandler { ctx with pausedPhaseName := phase.name } with
  | (false, ctx) => (false, ctx)
  | (true, ctx) =>
    match invokeHandlers replies phase.handlers 0 ctx with
    | (false, ctx) => (false, ctx)
    | (true, ctx) => invokeSingle replies phase.lastHandler ctx

/-- The `for` loop of `axis2_phase_invoke_start_from_handler`: no test of the
paused flag, and the status of a handler is dropped. -/
def resumeHandlers : List Handler → MsgCtx → Bool × MsgCtx
  | [], ctx => (true, ctx)
  | handler :: rest, ctx =>
    if handler.hasDesc then
      let ctx := (handlerInvoke replies handler ctx).2
      resumeHandlers rest { ctx with currentHandlerIndex := ctx.currentHandlerIndex + 1 }
    else (false, ctx)

/-- `axutil_array_list_get` gives NULL at a negative index, which is skipped. -/
def phaseInvokeStartFromHandler (phase : Phase) (pausedHandlerIndex : ℤ) (ctx : MsgCtx) :
    Bool × MsgCtx :=
  resumeHandlers replies (phase.handlers.drop pausedHandlerIndex.toNat)
    { ctx with pausedPhaseName := phase.name }

def engineInvokePhases : List Phase → MsgCtx → Bool × MsgCtx
  | [], ctx => (true, ctx)
  | phase :: rest, ctx =>
    if ctx.paused then (true, ctx)
    else
      match phaseInvoke replies phase ctx with
      | (false, ctx) => (false, ctx)
      | (true, ctx) => engineInvokePhases rest ctx

/-- The loop of `axis2_engine_resume_invocation_phases`. -/
def resumePhases : List Phase → Bool → MsgCtx → MsgCtx
  | [], _, ctx => ctx
  | phase :: rest, foundMatch, ctx =>
    if ctx.paused then ctx
    else if phase.name.isSome ∧ phase.name = ctx.pausedPhaseName then
      resumePhases rest true
        (phaseInvokeStartFromHandler replies phase ctx.currentHandlerIndex ctx).2
    else if foundMatch then resumePhases rest true (phaseInvoke replies phase ctx).2
    else resumePhases rest false ctx

def engineResumeInvocationPhases (phases : List Phase) (ctx : MsgCtx) : Bool × MsgCtx :=
  (true, resumePhases replies phases false { ctx with paused := false })

/-- `axis2_engine_invoke_phases`, then up to `n` resumptions while the message is paused. -/
def runPhases (phases : List Phase) : ℕ → MsgCtx
  | 0 => (engineInvokePhases replies phases msgCtxCreate).2
  | n + 1 =>
    let ctx := runPhases phases n
    if ctx.paused then (engineResumeInvocationPhases replies phases ctx).2 else ctx

end Invoke

end Axis2C.Engine
