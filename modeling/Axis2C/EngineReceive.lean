import Axis2C.EngineChains
import Axis2C.EngineMessages

/-!
# Receiving past unfinished handlers

A paused message is resumed in two lists of phases, one after the other. The
second is searched for the phase in which the first one ended, so after a pause
in the pre-calculated phases the operation's phases are passed over; and none of
the statuses is looked at. The run below is the run of one list of phases when
the pauses stay in one of the two parts.
-/
namespace Axis2C.Engine

section Pauses

variable {replies : ℕ → Reply}

/-- Between two contexts, the message was paused only by an invocation, and the
trace tells how each invocation ended. -/
structure Progress (replies : ℕ → Reply) (ctx ctx' : MsgCtx) : Prop where
  grows : ctx.trace.length ≤ ctx'.trace.length
  pause : ctx'.paused = true → ctx.paused = true ∨
    ∃ k < ctx'.trace.length, (replies k).pauses = true
  status : ∀ e ∈ ctx'.trace, e ∈ ctx.trace ∨ ∃ k, e.success = (replies k).success

lemma Progress.same {ctx ctx' : MsgCtx} (htrace : ctx'.trace = ctx.trace)
    (hp : ctx'.paused = ctx.paused) : Progress replies ctx ctx' :=
  ⟨by rw [htrace], fun h => .inl (hp ▸ h), fun _ he => .inl (htrace ▸ he)⟩

lemma Progress.trans {a b c : MsgCtx} (hab : Progress replies a b) (hbc : Progress replies b c) :
    Progress replies a c := by
  refine ⟨hab.grows.trans hbc.grows, fun h => ?_, fun e he => ?_⟩
  · obtain hb | hk := hbc.pause h
    · obtain ha | ⟨k, hk, hpause⟩ := hab.pause hb
      · exact .inl ha
      · exact .inr ⟨k, hk.trans_le hbc.grows, hpause⟩
    · exact .inr hk
  · obtain hb | hk := hbc.status e he
    · exact hab.status e hb
    · exact .inr hk

/-- Two parts in a row. -/
lemma Progress.match {ctx : MsgCtx} {r : Bool × MsgCtx} (hr : Progress replies ctx r.2)
    {next : MsgCtx → Bool × MsgCtx} (hnext : ∀ c, Progress replies c (next c).2) :
    Progress replies ctx (match r with
      | (false, c) => (false, c)
      | (true, c) => next c).2 := by
  obtain ⟨status, ctx1⟩ := r
  cases status with
  | false => exact hr
  | true => exact hr.trans (hnext ctx1)

lemma handlerInvoke_progress (handler : Handler) (ctx : MsgCtx) :
    Progress replies ctx (handlerInvoke replies handler ctx).2 := by
  refine ⟨by simp [handlerInvoke], fun h => ?_, fun e he => ?_⟩
  · simp only [handlerInvoke, Bool.or_eq_true] at h
    obtain hp | hpause := h
    · exact .inl hp
    · exact .inr ⟨ctx.trace.length, by simp [handlerInvoke], hpause⟩
  · obtain he | he := List.mem_append.mp he
    · exact .inl he
    · rw [List.mem_singleton.mp he]
      exact .inr ⟨_, rfl⟩

lemma invokeHandlers_progress (hs : List Handler) (index : ℕ) (ctx : MsgCtx) :
    Progress replies ctx (invokeHandlers replies hs index ctx).2 := by
  induction hs generalizing index ctx with
  | nil => exact .same rfl rfl
  | cons handler hs ih =>
    unfold invokeHandlers
    split_ifs with hp
    · exact .same rfl rfl
    · refine (handlerInvoke_progress handler ctx).match fun ctx1 => ?_
      have hindex : Progress replies ctx1 { ctx1 with currentHandlerIndex := (index : ℤ) + 1 } :=
        .same rfl rfl
      exact hindex.trans (ih _ _)

lemma invokeSingle_progress (handler : Option Handler) (ctx : MsgCtx) :
    Progress replies ctx (invokeSingle replies handler ctx).2 := by
  cases handler with
  | none => exact .same rfl rfl
  | some handler =>
    unfold invokeSingle
    split_ifs with hp
    · exact .same rfl rfl
    · exact handlerInvoke_progress handler ctx

lemma phaseInvoke_progress (p : Phase) (ctx : MsgCtx) :
    Progress replies ctx (phaseInvoke replies p ctx).2 := by
  have hstart : Progress replies ctx { ctx with pausedPhaseName := p.name } := .same rfl rfl
  exact (hstart.trans (invokeSingle_progress p.firstHandler _)).match fun ctx1 =>
    (invokeHandlers_progress p.handlers 0 ctx1).match (invokeSingle_progress p.lastHandler)

lemma engineInvokePhases_progress (phases : List Phase) (ctx : MsgCtx) :
    Progress replies ctx (engineInvokePhases replies phases ctx).2 := by
  induction phases generalizing ctx with
  | nil => exact .same rfl rfl
  | cons p phases ih =>
    unfold engineInvokePhases
    split_ifs with hp
    · exact .same rfl rfl
    · exact (phaseInvoke_progress p ctx).match ih

lemma resumeHandlers_progress (hs : List Handler) (ctx : MsgCtx) :
    Progress replies ctx (resumeHandlers replies hs ctx).2 := by
  induction hs generalizing ctx with
  | nil => exact .same rfl rfl
  | cons handler hs ih =>
    unfold resumeHandlers
    split_ifs with hd
    · refine (handlerInvoke_progress handler ctx).trans ?_
      generalize (handlerInvoke replies handler ctx).2 = ctx1
      have hindex : Progress replies ctx1
          { ctx1 with currentHandlerIndex := ctx1.currentHandlerIndex + 1 } := .same rfl rfl
      exact hindex.trans (ih _)
    · exact .same rfl rfl

lemma resumePhases_progress (phases : List Phase) (foundMatch : Bool) (ctx : MsgCtx) :
    Progress replies ctx (resumePhases replies phases foundMatch ctx) := by
  induction phases generalizing foundMatch ctx with
  | nil => exact .same rfl rfl
  | cons p phases ih =>
    have hstart : Progress replies ctx { ctx with pausedPhaseName := p.name } := .same rfl rfl
    unfold resumePhases
    split_ifs
    · exact .same rfl rfl
    · exact (hstart.trans (resumeHandlers_progress _ _)).trans (ih _ _)
    · exact (phaseInvoke_progress p ctx).trans (ih _ _)
    · exact ih _ _

/-- A run that is paused was paused by one of its invocations. -/
lemma runPhases_pause (phases : List Phase) (n : ℕ)
    (h : (runPhases replies phases n).paused = true) :
    ∃ k < (runPhases replies phases n).trace.length, (replies k).pauses = true := by
  induction n with
  | zero =>
    obtain hp | hk := (engineInvokePhases_progress phases msgCtxCreate).pause h
    · exact Bool.noConfusion hp
    · exact hk
  | succ n ih =>
    simp only [runPhases] at h ⊢
    split_ifs at h ⊢ with hp
    · obtain hp' | hk := (resumePhases_progress phases false
        { runPhases replies phases n with paused := false }).pause h
      · exact Bool.noConfusion hp'
      · exact hk
    · exact ih h

lemma runPhases_success (hs : ∀ n, (replies n).success = true) (phases : List Phase) (n : ℕ) :
    ∀ e ∈ (runPhases replies phases n).trace, e.success = true := by
  induction n with
  | zero =>
    intro e he
    obtain he | ⟨k, hk⟩ := (engineInvokePhases_progress phases msgCtxCreate).status e he
    · exact absurd he (by simp [msgCtxCreate])
    · rw [hk, hs]
  | succ n ih =>
    intro e he
    simp only [runPhases] at he
    split_ifs at he with hp
    · obtain he | ⟨k, hk⟩ := (resumePhases_progress phases false
        { runPhases replies phases n with paused := false }).status e he
      · exact ih e he
      · rw [hk, hs]
    · exact ih e he

end Pauses

/-- What the run of one list of phases may be left with. -/
structure Complete (phases : List Phase) (trace : List Invocation) : Prop where
  invoked : (allHandlers phases).Subperm (trace.map Invocation.handler)
  success : ∀ e ∈ trace, e.success = true

section Receive

variable (replies : ℕ → Reply) (message : ℕ → Message) (preCalculated : Option (List Phase))
  (op : Option Operation)
variable {n : ℕ} {phases : List Phase} {ctx : MsgCtx} {pre : List Phase} {operation : Operation}

/-- In no state of a run was the message receiver invoked past an unfinished or
failed handler, or past a header that must be understood. -/
def ReceiveSafe : Prop :=
  ∀ n, (receiveRun replies message true preCalculated op n).received = true →
    ∃ operation, op = some operation ∧
      Complete (preCalculated.getD [] ++ operation.inFlow.getD [])
        (receiveRun replies message true preCalculated op n).ctx.trace ∧
      (checkMustUnderstandHeaders (message
        (receiveRun replies message true preCalculated op n).ctx.trace.length)).1 = true

/-- The first handler that is not clean fails without a pause; or every handler
succeeds, and the pauses are harmless and stay in one of the two parts. -/
inductive ReceiveMeets (replies : ℕ → Reply) (pre flow : List Phase) : Prop
  | fails (first : FailsFirst replies 0 (allHandlers (pre ++ flow)).length)
  | pausesLate (success : ∀ n, (replies n).success = true)
      (clean : AllClean replies 0 (allHandlers pre).length)
      (resumable : Resumable (fun n => (replies n).pauses) [] (pre ++ flow) 0 (-1))
  | pausesEarly (success : ∀ n, (replies n).success = true) (nothing : allHandlers flow = [])
      (resumable : Resumable (fun n => (replies n).pauses) [] pre 0 (-1))

variable {replies message preCalculated op}

lemma allHandlers_append (a b : List Phase) :
    allHandlers (a ++ b) = allHandlers a ++ allHandlers b := by
  simp [allHandlers]

/-- The receiver is invoked only behind the check of the headers. -/
lemma receiveMessage_received {status : Bool}
    (h : (receiveMessage message true op status ctx).received = true) :
    op ≠ none ∧ (checkMustUnderstandHeaders (message ctx.trace.length)).1 = true := by
  unfold receiveMessage at h
  split_ifs at h with hp
  generalize checkMustUnderstandHeaders (message ctx.trace.length) = check at h
  obtain ⟨ok, fault⟩ := check
  cases ok with
  | false => exact Bool.noConfusion h
  | true =>
    cases op with
    | none => exact Bool.noConfusion h
    | some operation => exact ⟨by simp, rfl⟩

lemma receiveMessage_ctx (status : Bool) (ctx : MsgCtx) :
    (receiveMessage message true op status ctx).ctx = ctx := by
  unfold receiveMessage
  split_ifs
  · generalize checkMustUnderstandHeaders (message ctx.trace.length) = check
    obtain ⟨ok, fault⟩ := check
    cases ok with
    | false => rfl
    | true =>
      obtain _ | ⟨flow, _ | receiver⟩ := op
      · rfl
      · rfl
      · rfl
  · rfl

lemma engineReceive_no_operation (ctx : MsgCtx) :
    (engineReceive replies message true preCalculated none ctx).received = false := by
  have hnone (status : Bool) (ctx : MsgCtx) :
      (receiveMessage message true none status ctx).received = false := by
    by_contra h
    exact (receiveMessage_received (by simpa using h)).1 rfl
  unfold engineReceive
  split_ifs
  · simp only [resumeOperation]
    split_ifs
    · rfl
    · exact hnone _ _
  · simp only [receiveOperation]
    split_ifs
    · rfl
    · rfl
    · exact hnone _ _

lemma receiveRun_received {n : ℕ}
    (h : (receiveRun replies message true preCalculated op n).received = true) :
    ∃ ctx, receiveRun replies message true preCalculated op n =
      engineReceive replies message true preCalculated op ctx := by
  induction n with
  | zero => exact ⟨_, rfl⟩
  | succ n ih =>
    simp only [receiveRun] at h ⊢
    split_ifs at h ⊢ with hp
    · exact ⟨_, rfl⟩
    · exact ih h

/-- The state of a receive run while it goes along with the run of one list. -/
inductive Follows (replies : ℕ → Reply) (message : ℕ → Message) (op : Option Operation)
    (phases : List Phase) (n : ℕ) (result : ReceiveResult) : Prop
  | waits (received : result.received = false)
      (paused : result.ctx.paused = true → result.ctx = runPhases replies phases n)
  | ends (status : Bool) (ctx : MsgCtx)
      (result_eq : result = receiveMessage message true op status ctx)
      (unpaused : ctx.paused = false) (trace : ctx.trace = (runPhases replies phases n).trace)
      (finished : (runPhases replies phases n).paused = false)

lemma Follows.succ {result : ReceiveResult} (h : Follows replies message op phases n result)
    (hp : result.ctx.paused = false) :
    Follows replies message op phases (n + 1) result := by
  cases h with
  | waits received paused =>
    refine .waits received fun hp' => ?_
    rw [hp] at hp'
    exact Bool.noConfusion hp'
  | ends status ctx result_eq unpaused trace finished =>
    have hstay := runPhases_stable finished 1
    exact .ends status ctx result_eq unpaused (by rw [hstay, trace]) (by rw [hstay, finished])

lemma receiveRun_follows {phases : List Phase}
    (hinit : Follows replies message op phases 0
      (engineReceive replies message true preCalculated op msgCtxCreate))
    (hstep : ∀ n, (runPhases replies phases n).paused = true →
      Follows replies message op phases (n + 1)
        (engineReceive replies message true preCalculated op (runPhases replies phases n)))
    (n : ℕ) :
    Follows replies message op phases n
      (receiveRun replies message true preCalculated op n) := by
  induction n with
  | zero => exact hinit
  | succ n ih =>
    simp only [receiveRun]
    split_ifs with hp
    · cases ih with
      | waits received paused =>
        have heq := paused hp
        rw [heq] at hp ⊢
        exact hstep n hp
      | ends status ctx result_eq unpaused trace finished =>
        rw [result_eq, receiveMessage_ctx, unpaused] at hp
        exact absurd hp (by simp)
    · exact ih.succ (by simpa using hp)

/-- What a run that follows a harmless run of phases leaves at the receiver. -/
lemma Follows.complete {result : ReceiveResult} (h : Follows replies message op phases n result)
    (hs : ∀ n, (replies n).success = true)
    (hres : Resumable (fun n => (replies n).pauses) [] phases 0 (-1))
    (hrec : result.received = true) :
    Complete phases result.ctx.trace ∧
      (checkMustUnderstandHeaders (message result.ctx.trace.length)).1 = true := by
  cases h with
  | waits received paused =>
    rw [received] at hrec
    exact Bool.noConfusion hrec
  | ends status ctx result_eq unpaused trace finished =>
    subst result_eq
    rw [receiveMessage_ctx]
    refine ⟨?_, (receiveMessage_received hrec).2⟩
    have hreplies : replies = succeeding fun n => (replies n).pauses := by
      funext n
      rw [succeeding, ← hs n]
    have hout := runPhases_outcome hres n
    rw [← hreplies] at hout
    obtain ⟨-, hall⟩ | ⟨earlier, p, later, done, left, hpoint, -⟩ := hout
    · exact ⟨by rw [trace, hall.handlers], by
        rw [trace]
        exact runPhases_success hs phases n⟩
    · rw [hpoint.paused] at finished
      exact Bool.noConfusion finished

lemma runChain_success (hs : ∀ n, (replies n).success = true) (handlers : List Handler)
    (trace : List Invocation) : (runChain replies handlers trace).status = true := by
  induction handlers generalizing trace with
  | nil => rfl
  | cons handler handlers ih =>
    simp only [runChain]
    split_ifs
    · exact ih _
    · exact hs _

lemma engineInvokePhases_success (hs : ∀ n, (replies n).success = true) (phases : List Phase)
    (hp : ctx.paused = false) :
    engineInvokePhases replies phases ctx = (true, (engineInvokePhases replies phases ctx).2) := by
  have hstatus := congrArg ChainRun.status (@engineInvokePhases_chain replies phases _ hp)
  rw [runChain_success hs] at hstatus
  exact Prod.ext hstatus rfl

/-- A first call in which every handler succeeds. -/
lemma engineReceive_fresh (hs : ∀ n, (replies n).success = true) (pre : List Phase)
    (op : Option Operation) :
    engineReceive replies message true (some pre) op msgCtxCreate =
      if (runPhases replies pre 0).paused then ⟨true, runPhases replies pre 0, false, none⟩
      else receiveOperation replies message true op true (runPhases replies pre 0) := by
  have hstatus := congrArg Prod.fst (engineInvokePhases_success hs pre msgCtxCreate_paused)
  unfold engineReceive
  rw [if_neg (by simp [msgCtxCreate])]
  simp only [invokeFlow, hstatus, Bool.not_true, Bool.false_and, Bool.false_eq_true, if_false]
  rfl

lemma engineReceive_resumed (pre : List Phase) (operation : Operation) {ctx ctx1 : MsgCtx}
    (hp : ctx.paused = true)
    (hrun : resumePhases replies pre false { ctx with paused := false } = ctx1) :
    engineReceive replies message true (some pre) (some operation) ctx =
      if ctx1.paused then ⟨true, ctx1, false, none⟩
      else resumeOperation replies message true (some operation) ctx1 := by
  unfold engineReceive
  rw [if_pos hp]
  simp only [resumeFlow, engineResumeInvocationPhases, hrun]

lemma sequence_eq_nil {p : Phase} (h : p.sequence = []) :
    p.firstHandler = none ∧ p.handlers = [] ∧ p.lastHandler = none := by
  simpa [Phase.sequence, Phase.body, and_assoc] using h

lemma phaseInvoke_nothing {p : Phase} (h : p.sequence = []) (ctx : MsgCtx) :
    phaseInvoke replies p ctx = (true, { ctx with pausedPhaseName := p.name }) := by
  obtain ⟨hfirst, hhandlers, hlast⟩ := sequence_eq_nil h
  simp [phaseInvoke, hfirst, hhandlers, hlast, invokeSingle, invokeHandlers]

lemma resumePhases_nothing {flow : List Phase} (h : allHandlers flow = []) (foundMatch : Bool)
    (ctx : MsgCtx) :
    (resumePhases replies flow foundMatch ctx).trace = ctx.trace ∧
      (resumePhases replies flow foundMatch ctx).paused = ctx.paused := by
  induction flow generalizing foundMatch ctx with
  | nil => exact ⟨rfl, rfl⟩
  | cons p flow ih =>
    rw [allHandlers, List.flatMap_cons, List.append_eq_nil_iff] at h
    unfold resumePhases
    split_ifs
    · exact ⟨rfl, rfl⟩
    · have hnone : (phaseInvokeStartFromHandler replies p ctx.currentHandlerIndex ctx).2 =
          { ctx with pausedPhaseName := p.name } := by
        simp [phaseInvokeStartFromHandler, (sequence_eq_nil h.1).2.1, resumeHandlers]
      rw [hnone]
      exact ih h.2 true _
    · rw [phaseInvoke_nothing h.1]
      exact ih h.2 true _
    · exact ih h.2 false _

/-- Pauses in the pre-calculated phases, and no handler in the operation's. -/
lemma follows_early (hs : ∀ n, (replies n).success = true)
    (hnothing : allHandlers (operation.inFlow.getD []) = []) (n : ℕ) :
    Follows replies message (some operation) pre n
      (receiveRun replies message true (some pre) (some operation) n) := by
  refine receiveRun_follows ?_ ?_ n
  · rw [engineReceive_fresh hs]
    split_ifs with hp
    · exact .waits rfl fun _ => rfl
    · have hp0 : (runPhases replies pre 0).paused = false := by simpa using hp
      unfold receiveOperation
      obtain ⟨_ | flow, receiver⟩ := operation
      · refine .waits rfl fun hp' => absurd hp' hp
      · have hchain := @engineInvokePhases_chain replies flow _ hp0
        rw [show allHandlers flow = [] from hnothing] at hchain
        have hinv := engineInvokePhases_success hs flow hp0
        have hunpaused := congrArg ChainRun.paused hchain
        have htrace := congrArg ChainRun.trace hchain
        simp only [chainOf, runChain] at hunpaused htrace
        simp only [invokeFlow]
        rw [hinv]
        simp only [hunpaused, Bool.false_eq_true, if_false]
        exact .ends true _ rfl hunpaused htrace hp0
  · intro n hp
    have hnext : (runPhases replies pre (n + 1)) =
        resumePhases replies pre false { runPhases replies pre n with paused := false } := by
      rw [runPhases, if_pos hp]
      rfl
    rw [engineReceive_resumed pre operation hp hnext.symm]
    split_ifs with hp1
    · exact .waits rfl fun _ => rfl
    · have hp1' : (runPhases replies pre (n + 1)).paused = false := by simpa using hp1
      unfold resumeOperation
      obtain ⟨_ | flow, receiver⟩ := operation
      · simp only [resumeFlow, hp1', Bool.false_eq_true, if_false]
        exact .ends false _ rfl hp1' rfl hp1'
      · have hflow : allHandlers flow = [] := hnothing
        obtain ⟨htrace, hpaused⟩ := @resumePhases_nothing replies flow hflow false
          { runPhases replies pre (n + 1) with paused := false }
        simp only [resumeFlow, engineResumeInvocationPhases, hpaused, Bool.false_eq_true, if_false]
        exact .ends false _ rfl hpaused htrace hp1'

/-- When no handler of the pre-calculated phases pauses, a run of both lists is
resumed in the operation's phases only. -/
lemma resume_skips_pre {pauses : ℕ → Bool} {pre flow : List Phase}
    (hclean : ∀ i < (allHandlers pre).length, pauses i = false)
    (hres : Resumable pauses [] (pre ++ flow) 0 (-1))
    (hp : (runPhases (succeeding pauses) (pre ++ flow) n).paused = true) :
    ∀ q ∈ pre, q.name ≠ (runPhases (succeeding pauses) (pre ++ flow) n).pausedPhaseName := by
  obtain ⟨hp', -⟩ | ⟨earlier, p, later, done, left, hpoint, -⟩ := runPhases_outcome hres n
  · rw [hp] at hp'
    exact Bool.noConfusion hp'
  rw [hpoint.name]
  obtain ⟨mid, hearlier, -⟩ | ⟨mid, hpre, hrest⟩ := List.append_eq_append_iff.mp hpoint.split
  · intro q hq
    exact hpoint.named.2.1 q (by simp [hearlier, hq])
  · cases mid with
    | nil =>
      intro q hq
      exact hpoint.named.2.1 q (by simpa [hpre] using hq)
    | cons p' mid =>
      -- the paused phase would be one of the first list
      exfalso
      rw [List.cons_append] at hrest
      obtain ⟨-, hlater⟩ := List.cons.inj hrest
      obtain ⟨k, hk, hpause⟩ := runPhases_pause _ _ hp
      have hlen := congrArg List.length hpoint.total
      simp only [hlater, allHandlers_append, List.length_append] at hlen
      rw [hpoint.invoked.length] at hk
      have hfalse := hclean k (by omega)
      simp only [succeeding] at hpause
      rw [hfalse] at hpause
      exact Bool.noConfusion hpause

lemma engineInvokePhases_append (a b : List Phase) {ctx ctx1 : MsgCtx}
    (h : engineInvokePhases replies a ctx = (true, ctx1)) :
    engineInvokePhases replies (a ++ b) ctx = engineInvokePhases replies b ctx1 := by
  induction a generalizing ctx with
  | nil =>
    obtain rfl := congrArg Prod.snd h
    rfl
  | cons p a ih =>
    simp only [List.cons_append, engineInvokePhases] at h ⊢
    split_ifs at h ⊢ with hp
    · obtain rfl := congrArg Prod.snd h
      rw [engineInvokePhases_paused b hp]
    · generalize phaseInvoke replies p ctx = r at h ⊢
      obtain ⟨status, ctx2⟩ := r
      cases status with
      | false => simp at h
      | true => exact ih h

/-- No pause in the pre-calculated phases. -/
lemma follows_late (hs : ∀ n, (replies n).success = true) {pre : List Phase}
    {operation : Operation} (hclean : AllClean replies 0 (allHandlers pre).length)
    (hres : Resumable (fun n => (replies n).pauses) []
      (pre ++ operation.inFlow.getD []) 0 (-1)) (n : ℕ) :
    Follows replies message (some operation) (pre ++ operation.inFlow.getD []) n
      (receiveRun replies message true (some pre) (some operation) n) := by
  have hreplies : replies = succeeding fun n => (replies n).pauses := by
    funext n
    rw [succeeding, ← hs n]
  have hchain := (engineInvokePhases_chain pre msgCtxCreate_paused).trans
    (runChain_clean (allHandlers pre) [] hclean)
  have hp0 : (runPhases replies pre 0).paused = false := congrArg ChainRun.paused hchain
  have hinv : engineInvokePhases replies pre msgCtxCreate = (true, runPhases replies pre 0) :=
    engineInvokePhases_success hs pre rfl
  refine receiveRun_follows ?_ ?_ n
  · rw [engineReceive_fresh hs, if_neg (by simp [hp0])]
    unfold receiveOperation
    obtain ⟨_ | flow, receiver⟩ := operation
    · refine .waits rfl fun hp' => ?_
      rw [show (runPhases replies pre 0).paused = true from hp'] at hp0
      exact Bool.noConfusion hp0
    · have hrun : runPhases replies (pre ++ flow) 0 =
          (engineInvokePhases replies flow (runPhases replies pre 0)).2 := by
        rw [← engineInvokePhases_append pre flow hinv]
        rfl
      simp only [invokeFlow]
      rw [engineInvokePhases_success hs flow hp0]
      simp only [← hrun]
      split_ifs with hp
      · exact .waits rfl fun _ => rfl
      · exact .ends true _ rfl (by simpa using hp) rfl (by simpa using hp)
  · intro n hp
    have hnames : ∀ q ∈ pre, q.name ≠ ({ runPhases replies (pre ++ operation.inFlow.getD []) n with
        paused := false } : MsgCtx).pausedPhaseName := by
      rw [hreplies] at hp ⊢
      exact resume_skips_pre (fun i hi => by simpa using (hclean i hi).1) hres hp
    have hskip (rest : List Phase) := @resumePhases_skip (fun n => (replies n).pauses) pre rest _
      hnames rfl
    rw [← hreplies] at hskip
    have hpre := hskip []
    rw [List.append_nil] at hpre
    have hnext : runPhases replies (pre ++ operation.inFlow.getD []) (n + 1) =
        resumePhases replies (operation.inFlow.getD []) false
          { runPhases replies (pre ++ operation.inFlow.getD []) n with paused := false } := by
      rw [← hskip, runPhases, if_pos hp]
      rfl
    rw [engineReceive_resumed pre operation hp hpre]
    simp only [resumePhases, Bool.false_eq_true, if_false]
    unfold resumeOperation
    obtain ⟨_ | flow, receiver⟩ := operation
    · have hdone : runPhases replies (pre ++ []) (n + 1) =
          { runPhases replies (pre ++ []) n with paused := false } := hnext
      simp only [resumeFlow, Bool.false_eq_true, if_false]
      exact .ends false _ rfl rfl (by rw [Option.getD_none, hdone]) (by rw [Option.getD_none, hdone])
    · have hdone : runPhases replies (pre ++ flow) (n + 1) = resumePhases replies flow false
          { runPhases replies (pre ++ flow) n with paused := false } := hnext
      simp only [resumeFlow, engineResumeInvocationPhases, Option.getD_some, ← hdone]
      split_ifs with hp1
      · exact .waits rfl fun _ => rfl
      · exact .ends false _ rfl (by simpa using hp1) rfl (by simpa using hp1)

/-- A first call that fails without a pause ends the run. -/
lemma receiveRun_of_failed
    (h : (engineReceive replies message true preCalculated op msgCtxCreate).received = false ∧
      (engineReceive replies message true preCalculated op msgCtxCreate).ctx.paused = false)
    (n : ℕ) : (receiveRun replies message true preCalculated op n).received = false ∧
      (receiveRun replies message true preCalculated op n).ctx.paused = false := by
  induction n with
  | zero => exact h
  | succ n ih =>
    rw [receiveRun, if_neg (by simp [ih.2])]
    exact ih

lemma failsFirst_append {n k m : ℕ} (h : FailsFirst replies n (k + m)) :
    FailsFirst replies n k ∨ AllClean replies n k ∧ FailsFirst replies (n + k) m := by
  obtain ⟨i, hi, hclean, hfail⟩ := h
  by_cases hik : i < k
  · exact .inl ⟨i, hik, hclean, hfail⟩
  · obtain ⟨hfirst, hrest⟩ := allClean_add.mp
      (show AllClean replies n (k + (i - k)) by rwa [show k + (i - k) = i by omega])
    exact .inr ⟨hfirst, i - k, by omega, hrest, by rwa [show n + k + (i - k) = n + i by omega]⟩

lemma engineInvokePhases_failsFirst (hp : ctx.paused = false)
    (h : FailsFirst replies ctx.trace.length (allHandlers phases).length) :
    (engineInvokePhases replies phases ctx).1 = false ∧
      (engineInvokePhases replies phases ctx).2.paused = false := by
  have hchain := @engineInvokePhases_chain replies phases _ hp
  have hfails := runChain_failsFirst h
  rw [← hchain] at hfails
  exact hfails

/-- The first handler that is not clean fails. -/
lemma engineReceive_fails
    (h : FailsFirst replies 0 (allHandlers (pre ++ operation.inFlow.getD [])).length) :
    (engineReceive replies message true (some pre) (some operation) msgCtxCreate).received =
        false ∧
      (engineReceive replies message true (some pre) (some operation) msgCtxCreate).ctx.paused =
        false := by
  rw [allHandlers_append, List.length_append] at h
  unfold engineReceive
  rw [if_neg (by simp [msgCtxCreate])]
  simp only [invokeFlow]
  obtain hpre | ⟨hclean, hflow⟩ := failsFirst_append h
  · obtain ⟨hstatus, hp⟩ := engineInvokePhases_failsFirst msgCtxCreate_paused hpre
    simp [hstatus, hp]
  · have hchain := (engineInvokePhases_chain pre msgCtxCreate_paused).trans
      (runChain_clean (allHandlers pre) [] hclean)
    have hstatus := congrArg ChainRun.status hchain
    have hp := congrArg ChainRun.paused hchain
    have htrace := congrArg ChainRun.trace hchain
    simp only [chainOf] at hstatus hp htrace
    simp only [hstatus, hp, Bool.not_true, Bool.false_and, Bool.false_eq_true, if_false]
    obtain ⟨_ | flow, receiver⟩ := operation
    · simp [receiveOperation, invokeFlow, hp]
    · obtain ⟨hstatus', hp'⟩ := engineInvokePhases_failsFirst hp (by simpa [htrace] using hflow)
      simp only [receiveOperation, invokeFlow]
      generalize engineInvokePhases replies flow
        (engineInvokePhases replies pre msgCtxCreate).2 = r at hstatus' hp'
      obtain ⟨status, ctx⟩ := r
      subst hstatus'
      exact ⟨rfl, hp'⟩

end Receive

/-- No run in which the condition is met invokes the message receiver past an
unfinished handler, a failed one or a header that is not understood. -/
theorem no_receive_past_unfinished (replies : ℕ → Reply) (message : ℕ → Message)
    (preCalculated : Option (List Phase)) (op : Option Operation)
    (h : ∀ pre operation, preCalculated = some pre → op = some operation →
      ReceiveMeets replies pre (operation.inFlow.getD [])) :
    ReceiveSafe replies message preCalculated op := by
  intro n hrec
  cases op with
  | none =>
    obtain ⟨ctx, hctx⟩ := receiveRun_received hrec
    rw [hctx, engineReceive_no_operation] at hrec
    exact Bool.noConfusion hrec
  | some operation =>
    refine ⟨operation, rfl, ?_⟩
    cases preCalculated with
    | none =>
      rw [(receiveRun_of_failed ⟨rfl, rfl⟩ n).1] at hrec
      exact Bool.noConfusion hrec
    | some pre =>
      cases h pre operation rfl rfl with
      | fails first =>
        rw [(receiveRun_of_failed (engineReceive_fails first) n).1] at hrec
        exact Bool.noConfusion hrec
      | pausesLate success clean resumable =>
        exact (follows_late success clean resumable n).complete success resumable hrec
      | pausesEarly success nothing resumable =>
        have hdone := (follows_early success nothing n).complete
          success resumable hrec
        refine ⟨⟨?_, hdone.1.success⟩, hdone.2⟩
        rw [Option.getD_some, allHandlers_append, nothing, List.append_nil]
        exact hdone.1.invoked

/-- The first handler of the operation pauses the message; the second call goes
on behind it and reaches the receiver. -/
theorem receive_paused_operation :
    ReceiveSafe (fun n => ⟨n = 1, true⟩) (fun _ => ⟨some ⟨none⟩, false⟩)
        (some [⟨some "Dispatch", none, [⟨0, true⟩], none⟩])
        (some ⟨some [⟨some "OperationIn", none, [⟨1, true⟩, ⟨2, true⟩], none⟩], some true⟩) ∧
      (receiveRun (fun n => ⟨n = 1, true⟩) (fun _ => ⟨some ⟨none⟩, false⟩) true
        (some [⟨some "Dispatch", none, [⟨0, true⟩], none⟩])
        (some ⟨some [⟨some "OperationIn", none, [⟨1, true⟩, ⟨2, true⟩], none⟩], some true⟩)
        1).received = true := by
  refine ⟨no_receive_past_unfinished _ _ _ _ ?_, by decide⟩
  rintro pre operation hpre hop
  obtain rfl := Option.some.inj hpre
  obtain rfl := Option.some.inj hop
  refine .pausesLate (fun _ => rfl) (by unfold AllClean; decide) ?_
  exact ⟨⟨by decide, by decide, by decide⟩, ⟨by decide, by decide, by decide⟩, trivial⟩

/-- The only pre-calculated handler pauses the message: the second call finds
nothing left of its phase, passes over the operation's phase and invokes the
receiver. -/
theorem received_past_skipped_handler :
    ¬ ReceiveSafe (fun n => ⟨n = 0, true⟩) (fun _ => ⟨some ⟨none⟩, false⟩)
      (some [⟨some "Dispatch", none, [⟨0, true⟩], none⟩])
      (some ⟨some [⟨some "OperationIn", none, [⟨1, true⟩], none⟩], some true⟩) := by
  intro h
  obtain ⟨operation, hop, hcomplete, -⟩ := h 1 (by decide)
  obtain rfl := Option.some.inj hop
  have hlen := hcomplete.invoked.length_le
  exact absurd hlen (by decide)

end Axis2C.Engine
