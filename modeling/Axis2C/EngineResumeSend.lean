import Axis2C.EngineChains
import Axis2C.EngineMessages

/-!
# Resuming a message that is sent

`axis2_engine_resume_send` goes on with the out-flow of the operation. The global out phases,
which `axis2_engine_send` invokes behind it, are left out.
-/
namespace Axis2C.Engine

section Model

variable (replies : ℕ → Reply) (outFlow globalOut : Option (List Phase))
  (transport : Option TransportOut)

/-- `axis2_engine_resume_send`. The status of the phases is not looked at. -/
def engineResumeSend (ctx : MsgCtx) : SendResult :=
  let ctx1 := (resumeFlow replies outFlow ctx).2
  let out := if ctx1.paused then (false, false) else sendToTransport transport ctx1
  ⟨out.1, ctx1, out.2, []⟩

/-- The last call, of `axis2_engine_send` and up to `n` resumptions while the message is
paused. -/
def sendRun : ℕ → SendResult
  | 0 => engineSend replies outFlow globalOut transport msgCtxCreate
  | n + 1 =>
    let last := sendRun n
    if last.ctx.paused then engineResumeSend replies outFlow transport last.ctx else last

end Model

section Run

variable {pauses : ℕ → Bool} {phases : List Phase} {globalOut : Option (List Phase)}
  {status : Bool}

/-- A result without global phases, sent exactly if the message is not paused. -/
structure SentBehind (status : Bool) (ctx : MsgCtx) (r : SendResult) : Prop where
  left : r.ctx = ctx
  sent : r.sent = !ctx.paused
  reported : ctx.paused = false → r.status = status
  global : r.global = []

lemma runPhases_zero_paused (h : ∃ k < (allHandlers phases).length, pauses k = true) :
    (runPhases (succeeding pauses) phases 0).paused = true := by
  have hchain := @engineInvokePhases_chain (succeeding pauses) phases msgCtxCreate rfl
  obtain ⟨k, hk, hpause⟩ := h
  obtain hall | ⟨i, hi, hclean, hu⟩ :=
    @allClean_or_first (succeeding pauses) 0 (allHandlers phases).length
  · simpa [succeeding, hpause] using (hall k hk).1
  · have hstop := runChain_stops (allHandlers phases) msgCtxCreate.trace hi hclean hu
    have hpaused := congrArg ChainRun.paused (hchain.trans hstop)
    rw [Reply.Clean, not_and_or] at hu
    simp only [chainOf] at hpaused
    simp only [runPhases, hpaused]
    simpa [succeeding, msgCtxCreate] using hu

lemma engineResumeSend_spec (ctx : MsgCtx) :
    SentBehind status (engineResumeInvocationPhases (succeeding pauses) phases ctx).2
      (engineResumeSend (succeeding pauses) (some phases) (some ⟨some status⟩) ctx) := by
  cases hp : (engineResumeInvocationPhases (succeeding pauses) phases ctx).2.paused <;>
    constructor <;> simp [engineResumeSend, resumeFlow, hp, sendToTransport]

/-- With the message paused in the out-flow, each call leaves what the phases leave. -/
lemma sendRun_spec (h : (runPhases (succeeding pauses) phases 0).paused = true) (n : ℕ) :
    SentBehind status (runPhases (succeeding pauses) phases n)
      (sendRun (succeeding pauses) (some phases) globalOut (some ⟨some status⟩) n) := by
  induction n with
  | zero =>
    simp only [runPhases] at h
    have hglobal (ctx : MsgCtx) (hp : ctx.paused = true) :
        invokeGlobalOut (succeeding pauses) globalOut ctx = ctx := by
      cases globalOut with
      | none => rfl
      | some global => exact congrArg Prod.snd (engineInvokePhases_paused global hp)
    have hfresh : msgCtxCreate.paused = false := rfl
    simp only [sendRun, engineSend, hfresh, Bool.false_eq_true, if_false, invokeFlow, runPhases]
    generalize engineInvokePhases (succeeding pauses) phases msgCtxCreate = run at h
    obtain ⟨succeeded, ctx⟩ := run
    have hctx : ctx.paused = true := h
    cases succeeded with
    | false => exact ⟨rfl, by rw [hctx]; rfl, fun hp => by simp [hctx] at hp, rfl⟩
    | true =>
      simp only [hglobal ctx hctx, sendToTransport, hctx, if_true, List.drop_length]
      exact ⟨rfl, by rw [hctx]; rfl, fun hp => by simp [hctx] at hp, rfl⟩
  | succ n ih =>
    simp only [sendRun, runPhases, ih.left]
    cases hp : (runPhases (succeeding pauses) phases n).paused with
    | false => exact ih
    | true => exact engineResumeSend_spec _

end Run

/-- One call sends the message, the last one, behind all handlers of the out-flow. No call
invokes the global out phases. -/
def SentOnce (run : ℕ → SendResult) (phases : List Phase) (status : Bool) : Prop :=
  ∃ n, (∀ m ≤ n, (run m).ctx.paused = true ∧ (run m).sent = false) ∧
    (run (n + 1)).sent = true ∧ (run (n + 1)).status = status ∧
    (run (n + 1)).ctx.paused = false ∧ (∀ m, (run m).global = []) ∧
    (run (n + 1)).ctx.trace.map Invocation.handler = allHandlers phases

/-- A message that is paused in the out-flow is resumed until it is sent, once. -/
theorem paused_message_sent_once (pauses : ℕ → Bool) (phases : List Phase)
    (globalOut : Option (List Phase)) (status : Bool)
    (hresumable : Resumable pauses [] phases 0 (-1))
    (hpause : ∃ k < (allHandlers phases).length, pauses k = true) :
    SentOnce (sendRun (succeeding pauses) (some phases) globalOut (some ⟨some status⟩)) phases
      status := by
  have hfirst := runPhases_zero_paused hpause
  have hends : ∃ n, (runPhases (succeeding pauses) phases n).paused = false := by
    refine ⟨(allHandlers phases).length, ?_⟩
    obtain ⟨hp, -⟩ | ⟨earlier, p, later, done, left, hres, hmore⟩ :=
      runPhases_outcome hresumable (allHandlers phases).length
    · exact hp
    · have hlen := congrArg List.length hres.total
      simp only [List.length_append] at hlen
      omega
  classical
  obtain ⟨n, hn⟩ : ∃ n, Nat.find hends = n + 1 :=
    Nat.exists_eq_succ_of_ne_zero fun h0 => by simp [(Nat.find_eq_zero hends).mp h0] at hfirst
  have hlast := Nat.find_spec hends
  rw [hn] at hlast
  have hspec := @sendRun_spec pauses phases globalOut status hfirst
  refine ⟨n, ?_, ?_, (hspec (n + 1)).reported hlast, ?_, fun m => (hspec m).global, ?_⟩
  · intro m hm
    have hp := Nat.find_min hends (show m < Nat.find hends by omega)
    rw [Bool.not_eq_false] at hp
    exact ⟨(hspec m).left ▸ hp, by rw [(hspec m).sent, hp]; rfl⟩
  · rw [(hspec (n + 1)).sent, hlast]
    rfl
  · rw [(hspec (n + 1)).left, hlast]
  · rw [(hspec (n + 1)).left]
    obtain ⟨-, hall⟩ | ⟨earlier, p, later, done, left, hres, -⟩ :=
      runPhases_outcome hresumable (n + 1)
    · exact hall.handlers
    · rw [hres.paused] at hlast
      cases hlast

theorem paused_message_sent_once_two :
    SentOnce (sendRun (succeeding fun n => n = 0)
        (some [⟨some "Out", none, [⟨0, true⟩, ⟨1, true⟩], none⟩]) none (some ⟨some true⟩))
      [⟨some "Out", none, [⟨0, true⟩, ⟨1, true⟩], none⟩] true :=
  paused_message_sent_once _ _ none true ⟨⟨by decide, by decide, by decide⟩, trivial⟩
    ⟨0, by decide, rfl⟩

end Axis2C.Engine
