import Axis2C.EnginePhases

/-!
# Sending and receiving a message

`axis2_engine_send`, `axis2_engine_receive` and the check of the mandatory SOAP
headers. The flows, the transport and the operation are those that the message
context refers to; `none` stands for NULL. What the handlers make of the message
itself is given by the number of invocations, as their replies are.
-/
namespace Axis2C.Engine

/-- The transport out description of a message. -/
structure TransportOut where
  /-- The status that `AXIS2_TRANSPORT_SENDER_INVOKE` would return. -/
  sender : Option Bool
  deriving Repr, DecidableEq

/-- What a call of `axis2_engine_send` did. -/
structure SendResult where
  status : Bool
  ctx : MsgCtx
  sent : Bool
  /-- The invocations made by the global out phases. -/
  global : List Invocation
  deriving Repr, DecidableEq

section Send

variable (replies : ℕ → Reply)

/-- `axis2_engine_invoke_phases` with its check of the parameters. -/
def invokeFlow (phases : Option (List Phase)) (ctx : MsgCtx) : Bool × MsgCtx :=
  match phases with
  | none => (false, ctx)
  | some phases => engineInvokePhases replies phases ctx

/-- `axis2_engine_resume_invocation_phases` with its check of the parameters. -/
def resumeFlow (phases : Option (List Phase)) (ctx : MsgCtx) : Bool × MsgCtx :=
  match phases with
  | none => (false, ctx)
  | some phases => engineResumeInvocationPhases replies phases ctx

/-- The global out phases, whose status is not looked at. -/
def invokeGlobalOut (globalOut : Option (List Phase)) (ctx : MsgCtx) : MsgCtx :=
  match globalOut with
  | none => ctx
  | some phases => (engineInvokePhases replies phases ctx).2

/-- The end of `axis2_engine_send`: a message that is not paused is written to the wire. -/
def sendToTransport (transport : Option TransportOut) (ctx : MsgCtx) : Bool × Bool :=
  if ctx.paused then (true, false)
  else
    match transport with
    | none => (false, false)
    | some ⟨none⟩ => (false, false)
    | some ⟨some status⟩ => (status, true)

def engineSend (outFlow globalOut : Option (List Phase)) (transport : Option TransportOut)
    (ctx : MsgCtx) : SendResult :=
  let run := if ctx.paused then resumeFlow replies outFlow ctx else invokeFlow replies outFlow ctx
  match run with
  | (false, ctx) => ⟨false, ctx, false, []⟩
  | (true, ctx1) =>
    let ctx2 := invokeGlobalOut replies globalOut ctx1
    let out := sendToTransport transport ctx2
    ⟨out.1, ctx2, out.2, ctx2.trace.drop ctx1.trace.length⟩

end Send

/-- What `axis2_engine_check_must_understand_headers` reads of a header block. -/
structure HeaderBlock where
  processed : Bool
  mustUnderstand : Bool
  role : Option String
  deriving Repr, DecidableEq

structure SoapHeader where
  /-- The header blocks in the order of the hash table. -/
  blocks : Option (List (Option HeaderBlock))
  deriving Repr, DecidableEq

structure SoapEnvelope where
  header : Option SoapHeader
  deriving Repr, DecidableEq

structure Message where
  envelope : Option SoapEnvelope
  isSoap11 : Bool
  deriving Repr, DecidableEq

/-- The fault that is set in the message context. -/
structure SoapFault where
  isSoap11 : Bool
  code : String
  reason : String
  wsaAction : String
  deriving Repr, DecidableEq

def soap12RoleNext : String := "http://www.w3.org/2003/05/soap-envelope/role/next"

def soap11ActorNext : String := "http://schemas.xmlsoap.org/soap/actor/next"

def mustUnderstandFault (isSoap11 : Bool) : SoapFault where
  isSoap11 := isSoap11
  code := "soapenv:MustUnderstand"
  reason := "Header not understood"
  wsaAction := "http://www.w3.org/2005/08/addressing/fault"

def checkHeaderBlocks (isSoap11 : Bool) : List (Option HeaderBlock) → Bool × Option SoapFault
  | [] => (true, none)
  | none :: rest => checkHeaderBlocks isSoap11 rest
  | some block :: rest =>
    if block.processed || !block.mustUnderstand then checkHeaderBlocks isSoap11 rest
    else if block.role = some (if isSoap11 then soap11ActorNext else soap12RoleNext) then
      checkHeaderBlocks isSoap11 rest
    else (false, some (mustUnderstandFault isSoap11))

def checkMustUnderstandHeaders (message : Message) : Bool × Option SoapFault :=
  match message.envelope with
  | none => (false, none)
  | some ⟨none⟩ => (true, none)
  | some ⟨some ⟨none⟩⟩ => (true, none)
  | some ⟨some ⟨some blocks⟩⟩ => checkHeaderBlocks message.isSoap11 blocks

/-- The operation of a message. -/
structure Operation where
  inFlow : Option (List Phase)
  /-- The status that `axis2_msg_recv_receive` would return. -/
  receiver : Option Bool
  deriving Repr, DecidableEq

/-- What a call of `axis2_engine_receive` did. -/
structure ReceiveResult where
  status : Bool
  ctx : MsgCtx
  received : Bool
  fault : Option SoapFault
  deriving Repr, DecidableEq

section Receive

variable (replies : ℕ → Reply) (message : ℕ → Message)

/-- The end of `axis2_engine_receive`, with the status of the part before it. -/
def receiveMessage (serverSide : Bool) (op : Option Operation) (status : Bool) (ctx : MsgCtx) :
    ReceiveResult :=
  if serverSide && !ctx.paused then
    match checkMustUnderstandHeaders (message ctx.trace.length) with
    | (false, fault) => ⟨false, ctx, false, fault⟩
    | (true, _) =>
      match op with
      | none => ⟨false, ctx, false, none⟩
      | some ⟨_, none⟩ => ⟨false, ctx, false, none⟩
      | some ⟨_, some status⟩ => ⟨status, ctx, true, none⟩
  else ⟨status, ctx, false, none⟩

/-- The operation specific phases of a message whose earlier phases are done. -/
def receiveOperation (serverSide : Bool) (op : Option Operation) (status : Bool) (ctx : MsgCtx) :
    ReceiveResult :=
  match op with
  | none => receiveMessage message serverSide none status ctx
  | some operation =>
    match invokeFlow replies operation.inFlow ctx with
    | (false, ctx) => ⟨false, ctx, false, none⟩
    | (true, ctx) =>
      if ctx.paused then ⟨true, ctx, false, none⟩
      else receiveMessage message serverSide op true ctx

def resumeOperation (serverSide : Bool) (op : Option Operation) (ctx : MsgCtx) : ReceiveResult :=
  match op with
  | none => receiveMessage message serverSide none false ctx
  | some operation =>
    let ctx := (resumeFlow replies operation.inFlow ctx).2
    if ctx.paused then ⟨true, ctx, false, none⟩
    else receiveMessage message serverSide op false ctx

def engineReceive (serverSide : Bool) (preCalculated : Option (List Phase))
    (op : Option Operation) (ctx : MsgCtx) : ReceiveResult :=
  if ctx.paused then
    let ctx := (resumeFlow replies preCalculated ctx).2
    if ctx.paused then ⟨true, ctx, false, none⟩
    else resumeOperation replies message serverSide op ctx
  else
    match invokeFlow replies preCalculated ctx with
    | (status, ctx) =>
      if !status && serverSide then ⟨false, ctx, false, none⟩
      else if ctx.paused then ⟨true, ctx, false, none⟩
      else receiveOperation replies message serverSide op status ctx

/-- The first call, then up to `n` new calls while the message is left paused. -/
def receiveRun (serverSide : Bool) (preCalculated : Option (List Phase))
    (op : Option Operation) : ℕ → ReceiveResult
  | 0 => engineReceive replies message serverSide preCalculated op msgCtxCreate
  | n + 1 =>
    let result := receiveRun serverSide preCalculated op n
    if result.ctx.paused then
      engineReceive replies message serverSide preCalculated op result.ctx
    else result

end Receive

end Axis2C.Engine
