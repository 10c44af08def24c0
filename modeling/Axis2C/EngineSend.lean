import Axis2C.EngineChains
import Axis2C.EngineMessages

/-!
# Sending past a failed handler

A fresh call of `axis2_engine_send` checks the status of the operation's phases
and drops that of the global out phases. A resumed call drops every status, and
it starts the global out phases from their beginning even when the message was
paused in the middle of them.
-/
namespace Axis2C.Engine

/-- The handlers that a resumption runs when none of them fails or pauses. -/
def resumeSequence : List Phase → Bool → Option String → ℤ → List Handler
  | [], _, _, _ => []
  | phase :: rest, foundMatch, name, index =>
    if phase.name.isSome ∧ phase.name = name then
      let left := (phase.handlers.drop index.toNat).takeWhile Handler.hasDesc
      left ++ resumeSequence rest true phase.name (index + left.length)
    else if foundMatch then
      phase.sequence ++ resumeSequence rest true phase.name
        (if phase.handlers = [] then index else phase.handlers.length)
    else resumeSequence rest false name index

def operationHandlers (phases : List Phase) (ctx : MsgCtx) : List Handler :=
  if ctx.paused then resumeSequence phases false ctx.pausedPhaseName ctx.currentHandlerIndex
  else allHandlers phases

section Resume

variable {replies : ℕ → Reply}
variable {ctx : MsgCtx}

lemma resumeHandlers_paused_iff (hs : List Handler) (ctx : MsgCtx) :
    (resumeHandlers replies hs ctx).2.paused = true ↔
      ctx.paused = true ∨ ∃ k < (hs.takeWhile Handler.hasDesc).length,
        (replies (ctx.trace.length + k)).pauses = true := by
  induction hs generalizing ctx with
  | nil => simp [resumeHandlers]
  | cons handler hs ih =>
    cases hd : handler.hasDesc with
    | false => simp [resumeHandlers, hd]
    | true =>
      simp only [resumeHandlers, hd, if_true, ih, handlerInvoke, List.length_append,
        List.takeWhile_cons, List.length_cons, List.length_nil, Bool.or_eq_true]
      constructor
      · rintro ((hp | hp) | ⟨k, hk, hp⟩)
        · exact .inl hp
        · exact .inr ⟨0, by omega, hp⟩
        · exact .inr ⟨k + 1, by omega, by rwa [show ctx.trace.length + (k + 1) =
            ctx.trace.length + (0 + 1) + k by ring]⟩
      · rintro (hp | ⟨k, hk, hp⟩)
        · exact .inl (.inl hp)
        · cases k with
          | zero => exact .inl (.inr hp)
          | succ k =>
            refine .inr ⟨k, by omega, ?_⟩
            rwa [show ctx.trace.length + (0 + 1) + k = ctx.trace.length + (k + 1) by ring]

lemma resumeHandlers_clean (hs : List Handler) (hp : ctx.paused = false)
    (h : AllClean replies ctx.trace.length (hs.takeWhile Handler.hasDesc).length) :
    (resumeHandlers replies hs ctx).2 =
      { ctx with
        currentHandlerIndex :=
          ctx.currentHandlerIndex + (hs.takeWhile Handler.hasDesc).length
        trace := ctx.trace ++ (hs.takeWhile Handler.hasDesc).map cleanInvocation } := by
  induction hs generalizing ctx with
  | nil => simp [resumeHandlers]
  | cons handler hs ih =>
    cases hd : handler.hasDesc with
    | false => simp [resumeHandlers, hd]
    | true =>
      rw [List.takeWhile_cons, if_pos hd, List.length_cons] at h
      simp only [resumeHandlers, hd, if_true, handlerInvoke_chain hp, h.head.1, h.head.2]
      rw [ih rfl (by simpa using h.tail)]
      simp [hd, hp, add_assoc, add_comm (1 : ℤ)]

lemma phaseInvokeStartFromHandler_clean (p : Phase) (index : ℤ) {ctx : MsgCtx}
    (hp : ctx.paused = false)
    (h : AllClean replies ctx.trace.length
      ((p.handlers.drop index.toNat).takeWhile Handler.hasDesc).length) :
    (phaseInvokeStartFromHandler replies p index ctx).2 =
      { ctx with
        pausedPhaseName := p.name
        currentHandlerIndex := ctx.currentHandlerIndex +
          ((p.handlers.drop index.toNat).takeWhile Handler.hasDesc).length
        trace := ctx.trace ++
          ((p.handlers.drop index.toNat).takeWhile Handler.hasDesc).map cleanInvocation } :=
  resumeHandlers_clean _ hp h

lemma invokeHandlers_clean (hs : List Handler) (index : ℕ) (hp : ctx.paused = false)
    (h : AllClean replies ctx.trace.length hs.length) :
    invokeHandlers replies hs index ctx = (true,
      { ctx with
        currentHandlerIndex :=
          if hs = [] then ctx.currentHandlerIndex else (index : ℤ) + hs.length
        trace := ctx.trace ++ hs.map cleanInvocation }) := by
  induction hs generalizing index ctx with
  | nil => simp [invokeHandlers]
  | cons handler hs ih =>
    simp only [invokeHandlers, hp, Bool.false_eq_true, if_false, handlerInvoke_chain hp,
      h.head.1, h.head.2]
    rw [ih _ rfl (by simpa using h.tail)]
    by_cases hnil : hs = []
    · simp [hnil]
    · simp only [hnil, if_false, reduceCtorEq, List.length_cons, List.map_cons,
        List.append_assoc, List.singleton_append, cleanInvocation]
      congr 2
      push_cast
      ring

lemma invokeSingle_clean (handler : Option Handler) {ctx : MsgCtx} (hp : ctx.paused = false)
    (h : AllClean replies ctx.trace.length handler.toList.length) :
    invokeSingle replies handler ctx =
      (true, { ctx with trace := ctx.trace ++ handler.toList.map cleanInvocation }) := by
  cases handler with
  | none => simp [invokeSingle]
  | some handler =>
    have hc : (replies ctx.trace.length).Clean := h.head
    simp only [invokeSingle, hp, Bool.false_eq_true, if_false, handlerInvoke_chain hp, hc.1, hc.2]
    simp

lemma phaseInvoke_clean (p : Phase) (hp : ctx.paused = false)
    (h : AllClean replies ctx.trace.length p.sequence.length) :
    phaseInvoke replies p ctx = (true,
      { ctx with
        pausedPhaseName := p.name
        currentHandlerIndex :=
          if p.handlers = [] then ctx.currentHandlerIndex else p.handlers.length
        trace := ctx.trace ++ p.sequence.map cleanInvocation }) := by
  rw [Phase.sequence, Phase.body, List.append_assoc, List.length_append, List.length_append,
    allClean_add, allClean_add] at h
  obtain ⟨h1, h2, h3⟩ := h
  unfold phaseInvoke
  rw [@invokeSingle_clean replies _ { ctx with pausedPhaseName := p.name } hp h1]
  simp only
  rw [invokeHandlers_clean]
  · simp only
    rw [invokeSingle_clean]
    · simp [Phase.sequence, Phase.body]
    · exact hp
    · simpa [add_assoc] using h3
  · exact hp
  · simpa using h2

lemma resumePhases_paused (phases : List Phase) (foundMatch : Bool) (hp : ctx.paused = true) :
    resumePhases replies phases foundMatch ctx = ctx := by
  cases phases with
  | nil => rfl
  | cons p phases => simp [resumePhases, hp]

/-- A resumption without a failure or a pause. -/
lemma resumePhases_clean (phases : List Phase) (foundMatch : Bool) {ctx : MsgCtx}
    (hp : ctx.paused = false)
    (h : AllClean replies ctx.trace.length
      (resumeSequence phases foundMatch ctx.pausedPhaseName ctx.currentHandlerIndex).length) :
    (resumePhases replies phases foundMatch ctx).paused = false ∧
      (resumePhases replies phases foundMatch ctx).trace = ctx.trace ++
        (resumeSequence phases foundMatch ctx.pausedPhaseName ctx.currentHandlerIndex).map
          cleanInvocation := by
  induction phases generalizing foundMatch ctx with
  | nil => simp [resumePhases, resumeSequence, hp]
  | cons p phases ih =>
    by_cases hname : p.name.isSome ∧ p.name = ctx.pausedPhaseName
    · simp only [resumeSequence, if_pos hname, List.length_append] at h ⊢
      rw [allClean_add] at h
      simp only [resumePhases, hp, Bool.false_eq_true, if_false, if_pos hname]
      rw [phaseInvokeStartFromHandler_clean p _ hp h.1]
      refine And.imp id (fun htrace => htrace.trans ?_) (ih true hp ?_)
      · simpa using h.2
      · simp
    · simp only [resumeSequence, if_neg hname] at h ⊢
      simp only [resumePhases, hp, Bool.false_eq_true, if_false, if_neg hname]
      cases foundMatch with
      | false => exact ih false hp h
      | true =>
        simp only [if_true, List.length_append] at h ⊢
        rw [allClean_add] at h
        rw [phaseInvoke_clean p hp h.1]
        refine And.imp id (fun htrace => htrace.trans ?_) (ih true hp ?_)
        · simpa using h.2
        · simp

/-- The first handler of a resumption that is not clean pauses the message. -/
lemma resumePhases_stops (phases : List Phase) (foundMatch : Bool) {ctx : MsgCtx} {k : ℕ}
    (hp : ctx.paused = false)
    (hk : k < (resumeSequence phases foundMatch ctx.pausedPhaseName
      ctx.currentHandlerIndex).length)
    (h : AllClean replies ctx.trace.length k)
    (hpause : (replies (ctx.trace.length + k)).pauses = true) :
    (resumePhases replies phases foundMatch ctx).paused = true := by
  induction phases generalizing foundMatch ctx k with
  | nil => simp [resumeSequence] at hk
  | cons p phases ih =>
    by_cases hname : p.name.isSome ∧ p.name = ctx.pausedPhaseName
    · simp only [resumeSequence, if_pos hname, List.length_append] at hk
      simp only [resumePhases, hp, Bool.false_eq_true, if_false, if_pos hname]
      set left := (p.handlers.drop ctx.currentHandlerIndex.toNat).takeWhile Handler.hasDesc
        with hleft
      by_cases hin : k < left.length
      · have hstop : (phaseInvokeStartFromHandler replies p
            ctx.currentHandlerIndex ctx).2.paused = true :=
          (resumeHandlers_paused_iff _ { ctx with pausedPhaseName := p.name }).mpr
            (.inr ⟨k, hin, hpause⟩)
        rw [resumePhases_paused _ _ hstop]
        exact hstop
      · have hrest := allClean_add.mp (show AllClean replies ctx.trace.length
          (left.length + (k - left.length)) by rwa [show left.length + (k - left.length) = k by omega])
        rw [phaseInvokeStartFromHandler_clean p _ hp hrest.1]
        refine ih true (k := k - left.length) hp ?_ ?_ ?_
        · simp only [← hleft]
          omega
        · simpa using hrest.2
        · rw [← hpause]
          simp only [List.length_append, List.length_map, ← hleft]
          congr 2
          omega
    · simp only [resumeSequence, if_neg hname] at hk
      simp only [resumePhases, hp, Bool.false_eq_true, if_false, if_neg hname]
      cases foundMatch with
      | false => exact ih false hp hk h hpause
      | true =>
        simp only [if_true, List.length_append] at hk ⊢
        by_cases hin : k < p.sequence.length
        · have hu : ¬ (replies (ctx.trace.length + k)).Clean := by
            intro hc
            simp [hc.1] at hpause
          have hchain := (phaseInvoke_chain p hp).trans
            (runChain_stops p.sequence ctx.trace hin h hu)
          have hstop : (phaseInvoke replies p ctx).2.paused = true :=
            (congrArg ChainRun.paused hchain).trans hpause
          rw [resumePhases_paused _ _ hstop]
          exact hstop
        · have hrest := allClean_add.mp (show AllClean replies ctx.trace.length
            (p.sequence.length + (k - p.sequence.length)) by
              rwa [show p.sequence.length + (k - p.sequence.length) = k by omega])
          rw [phaseInvoke_clean p hp hrest.1]
          refine ih true (k := k - p.sequence.length) hp ?_ ?_ ?_
          · simp only
            omega
          · simpa using hrest.2
          · rw [← hpause]
            simp only [List.length_append, List.length_map]
            congr 2
            omega

end Resume

section Send

variable (replies : ℕ → Reply) (outFlow globalOut : Option (List Phase))
  (transport : Option TransportOut) (ctx : MsgCtx)
variable {phases : List Phase}

/-- The sender is invoked only with an unpaused message and after successful
handlers, and a resumed call repeats no handler in the global out phases. -/
def SendSafe : Prop :=
  ((engineSend replies outFlow globalOut transport ctx).sent = true →
    (engineSend replies outFlow globalOut transport ctx).ctx.paused = false ∧
      ∀ e ∈ (engineSend replies outFlow globalOut transport ctx).ctx.trace.drop
        ctx.trace.length, e.success = true) ∧
  (ctx.paused = true →
    ∀ e ∈ (engineSend replies outFlow globalOut transport ctx).global,
      e.handler ∉ ctx.trace.map Invocation.handler)

/-- A resumed call reaches a failing handler of the operation's out-flow. -/
def ResumesPastFailure : Prop :=
  ctx.paused = true ∧ ∃ phases, outFlow = some phases ∧
    FailsFirst replies ctx.trace.length (operationHandlers phases ctx).length

/-- What must hold of the global out phases when the operation's phases are done. -/
structure GlobalMeets (phases : List Phase) : Prop where
  /-- The sender is not behind a failing handler. -/
  checked : (∃ status, transport = some ⟨some status⟩) →
    ¬ FailsFirst replies (ctx.trace.length + (operationHandlers phases ctx).length)
      (allHandlers (globalOut.getD [])).length
  /-- The handlers that a resumed call reaches have not run before. -/
  fresh : ctx.paused = true → ∀ i (hi : i < (allHandlers (globalOut.getD [])).length),
    AllClean replies (ctx.trace.length + (operationHandlers phases ctx).length) i →
      (allHandlers (globalOut.getD []))[i] ∉ ctx.trace.map Invocation.handler

structure SendMeets : Prop where
  resumed : ¬ ResumesPastFailure replies outFlow ctx
  global : ∀ phases, outFlow = some phases →
    AllClean replies ctx.trace.length (operationHandlers phases ctx).length →
      GlobalMeets replies globalOut transport ctx phases

variable {replies outFlow globalOut transport ctx}

lemma sendSafe_of_not_sent
    (hsent : (engineSend replies outFlow globalOut transport ctx).sent = false)
    (hglobal : (engineSend replies outFlow globalOut transport ctx).global = []) :
    SendSafe replies outFlow globalOut transport ctx := by
  refine ⟨fun h => ?_, fun _ e he => ?_⟩
  · rw [hsent] at h
    exact Bool.noConfusion h
  · rw [hglobal] at he
    exact absurd he (by simp)

lemma invokeGlobalOut_eq (ctx : MsgCtx) :
    invokeGlobalOut replies globalOut ctx =
      (engineInvokePhases replies (globalOut.getD []) ctx).2 := by
  cases globalOut with
  | none | some phases => rfl

/-- The first part of a call, when nothing in it fails or pauses. -/
lemma operation_clean {phases : List Phase}
    (h : AllClean replies ctx.trace.length (operationHandlers phases ctx).length) :
    ∃ ctx1, (if ctx.paused then resumeFlow replies (some phases) ctx
        else invokeFlow replies (some phases) ctx) = (true, ctx1) ∧ ctx1.paused = false ∧
      ctx1.trace = ctx.trace ++ (operationHandlers phases ctx).map cleanInvocation := by
  unfold operationHandlers at h ⊢
  cases hp : ctx.paused with
  | true =>
    simp only [hp, if_true] at h ⊢
    refine ⟨_, rfl, ?_⟩
    exact resumePhases_clean phases false rfl h
  | false =>
    simp only [hp, Bool.false_eq_true, if_false] at h ⊢
    have hchain := (engineInvokePhases_chain phases hp).trans
      (runChain_clean (allHandlers phases) ctx.trace h)
    exact ⟨(engineInvokePhases replies phases ctx).2,
      Prod.ext (congrArg ChainRun.status hchain) rfl,
      congrArg ChainRun.paused hchain, congrArg ChainRun.trace hchain⟩

/-- The first part of a call, when the first handler that is not clean is not a
failure of a resumed call: the call fails or leaves the message paused. -/
lemma operation_stops
    (h : ¬ AllClean replies ctx.trace.length (operationHandlers phases ctx).length)
    (hresumed : ¬ ResumesPastFailure replies (some phases) ctx) :
    (if ctx.paused then resumeFlow replies (some phases) ctx
        else invokeFlow replies (some phases) ctx).1 = false ∨
      (if ctx.paused then resumeFlow replies (some phases) ctx
        else invokeFlow replies (some phases) ctx).2.paused = true := by
  obtain hall | ⟨k, hk, hclean, hu⟩ :=
    allClean_or_first ctx.trace.length (operationHandlers phases ctx).length
  · exact absurd hall h
  cases hp : ctx.paused with
  | true =>
    right
    simp only [if_true]
    have hpause : (replies (ctx.trace.length + k)).pauses = true := by
      by_contra hno
      refine hresumed ⟨hp, phases, rfl, k, hk, hclean, ?_⟩
      generalize replies (ctx.trace.length + k) = reply at hu hno
      obtain ⟨pauses, success⟩ := reply
      simp_all [Reply.Clean]
    rw [operationHandlers, if_pos hp] at hk
    exact resumePhases_stops phases false rfl hk hclean hpause
  | false =>
    simp only [Bool.false_eq_true, if_false]
    rw [operationHandlers, if_neg (by simp [hp])] at hk
    have hchain := (engineInvokePhases_chain phases hp).trans
      (runChain_stops (allHandlers phases) ctx.trace hk hclean hu)
    have hstatus := congrArg ChainRun.status hchain
    have hpaused := congrArg ChainRun.paused hchain
    simp only [chainOf] at hstatus hpaused
    simp only [invokeFlow, hstatus, hpaused]
    by_contra hno
    simp only [not_or, Bool.not_eq_false, Bool.not_eq_true] at hno
    exact hu ⟨hno.2, hno.1⟩

lemma sendToTransport_sent (transport : Option TransportOut) (ctx : MsgCtx) :
    (sendToTransport transport ctx).2 = true ↔
      ctx.paused = false ∧ ∃ status, transport = some ⟨some status⟩ := by
  unfold sendToTransport
  cases hp : ctx.paused with
  | true => simp
  | false =>
    obtain _ | ⟨_ | status⟩ := transport
    · simp
    · simp
    · simp

/-- A call that does not get through the operation's phases. -/
lemma sendSafe_of_stopped
    (h : ¬ AllClean replies ctx.trace.length (operationHandlers phases ctx).length)
    (hresumed : ¬ ResumesPastFailure replies (some phases) ctx) :
    SendSafe replies (some phases) globalOut transport ctx := by
  have hstop := operation_stops h hresumed
  have hsend : (engineSend replies (some phases) globalOut transport ctx).sent = false ∧
      (engineSend replies (some phases) globalOut transport ctx).global = [] := by
    unfold engineSend
    generalize (if ctx.paused then resumeFlow replies (some phases) ctx
        else invokeFlow replies (some phases) ctx) = run at hstop
    obtain ⟨status, ctx1⟩ := run
    cases status with
    | false => exact ⟨rfl, rfl⟩
    | true =>
      have hp1 : ctx1.paused = true := by simpa using hstop
      have hglobal : invokeGlobalOut replies globalOut ctx1 = ctx1 := by
        rw [invokeGlobalOut_eq, engineInvokePhases_paused _ hp1]
      simp [hglobal, sendToTransport, hp1]
  exact sendSafe_of_not_sent hsend.1 hsend.2

/-- A call that gets through the operation's phases. -/
lemma sendSafe_iff_global
    (h : AllClean replies ctx.trace.length (operationHandlers phases ctx).length) :
    SendSafe replies (some phases) globalOut transport ctx ↔
      GlobalMeets replies globalOut transport ctx phases := by
  obtain ⟨ctx1, hrun, hp1, htrace1⟩ := operation_clean h
  have hlen1 : ctx1.trace.length = ctx.trace.length + (operationHandlers phases ctx).length := by
    simp [htrace1]
  set ctx2 := invokeGlobalOut replies globalOut ctx1 with hctx2
  have hsend : engineSend replies (some phases) globalOut transport ctx =
      ⟨(sendToTransport transport ctx2).1, ctx2, (sendToTransport transport ctx2).2,
        ctx2.trace.drop ctx1.trace.length⟩ := by
    simp only [engineSend, hrun, hctx2]
  have hchain := @engineInvokePhases_chain replies (globalOut.getD []) _ hp1
  obtain ⟨new, htrace, hreached, hsuccess⟩ :=
    runChain_reached (allHandlers (globalOut.getD [])) ctx1.trace
  rw [← hchain] at htrace hsuccess
  have htrace2 : ctx2.trace = ctx1.trace ++ new := by
    rw [hctx2, invokeGlobalOut_eq]
    exact htrace
  have hpaused2 : (chainOf (engineInvokePhases replies (globalOut.getD []) ctx1)).paused =
      ctx2.paused := by
    rw [hctx2, invokeGlobalOut_eq]
    rfl
  rw [hpaused2, hlen1] at hsuccess
  rw [hlen1] at hreached
  have hnew : ctx2.trace.drop ctx1.trace.length = new := by rw [htrace2, List.drop_left]
  have hall : ctx2.trace.drop ctx.trace.length =
      (operationHandlers phases ctx).map cleanInvocation ++ new := by
    rw [htrace2, htrace1, List.append_assoc, List.drop_left]
  unfold SendSafe
  rw [hsend]
  simp only [sendToTransport_sent, hnew, hall]
  constructor
  · rintro ⟨hsafe, hfresh⟩
    refine ⟨?_, ?_⟩
    · intro hsender hfails
      have hp2 : ctx2.paused = false := by
        rw [← hpaused2, hchain]
        exact (runChain_failsFirst (by rwa [hlen1])).2
      refine (hsuccess hp2).mp ?_ hfails
      intro e he
      exact (hsafe ⟨hp2, hsender⟩).2 e (List.mem_append_right _ he)
    · intro hp i hi hclean
      obtain ⟨e, he, heq⟩ := List.mem_map.mp ((hreached _).mpr ⟨i, hi, hclean, rfl⟩)
      rw [← heq]
      exact hfresh hp e he
  · rintro ⟨hchecked, hfresh⟩
    refine ⟨?_, ?_⟩
    · rintro ⟨hp2, hsender⟩
      refine ⟨hp2, ?_⟩
      intro e he
      obtain he | he := List.mem_append.mp he
      · obtain ⟨handler, -, rfl⟩ := List.mem_map.mp he
        rfl
      · exact (hsuccess hp2).mpr (hchecked hsender) e he
    · intro hp e he
      obtain ⟨i, hi, hclean, heq⟩ := (hreached e.handler).mp (List.mem_map_of_mem he)
      rw [← heq]
      exact hfresh hp i hi hclean

end Send

/-- A call of `axis2_engine_send` does what it should whenever its condition is
met; the condition is also necessary, except that a resumed call which ran past
a failing handler may still be stopped by a later pause. -/
theorem send_safe_of_meets (replies : ℕ → Reply) (outFlow globalOut : Option (List Phase))
    (transport : Option TransportOut) (ctx : MsgCtx) :
    (SendMeets replies outFlow globalOut transport ctx →
      SendSafe replies outFlow globalOut transport ctx) ∧
    (¬ ResumesPastFailure replies outFlow ctx →
      SendSafe replies outFlow globalOut transport ctx →
        SendMeets replies outFlow globalOut transport ctx) := by
  constructor
  · rintro ⟨hresumed, hglobal⟩
    cases outFlow with
    | none =>
      refine sendSafe_of_not_sent ?_ ?_ <;>
        cases hp : ctx.paused <;> simp [engineSend, hp, resumeFlow, invokeFlow]
    | some phases =>
      by_cases hclean : AllClean replies ctx.trace.length (operationHandlers phases ctx).length
      · exact (sendSafe_iff_global hclean).mpr (hglobal phases rfl hclean)
      · exact sendSafe_of_stopped hclean hresumed
  · intro hresumed hsafe
    refine ⟨hresumed, ?_⟩
    rintro phases rfl hclean
    exact (sendSafe_iff_global hclean).mp hsafe

/-- The only handler of the global out phases fails, and the message is sent. -/
theorem sent_past_failed_handler :
    ¬ SendSafe (fun _ => ⟨false, false⟩) (some []) (some [⟨some "MessageOut", none, [⟨0, true⟩], none⟩])
      (some ⟨some true⟩) msgCtxCreate := by
  rintro ⟨hsent, -⟩
  exact absurd (hsent (by decide)).2 (by decide)

end Axis2C.Engine
