import Axis2C.EnginePauseResume

/-!
# Handler chains

Phases that are invoked on an unpaused message behave like the flat list of
their handlers, run up to the first one that fails or pauses.
-/
namespace Axis2C.Engine

/-- The handler returned success and did not pause the message. -/
def Reply.Clean (r : Reply) : Prop := r.pauses = false ∧ r.success = true

instance : DecidablePred Reply.Clean :=
  fun r => inferInstanceAs (Decidable (r.pauses = false ∧ r.success = true))

lemma Reply.failed_eq {r : Reply} (hp : r.pauses = false) (hs : r.success = false) :
    r = ⟨false, false⟩ := by
  cases r
  simp_all

@[simp] def cleanInvocation (handler : Handler) : Invocation := ⟨handler, false, true⟩

/-- What is seen of a run over a list of handlers. -/
structure ChainRun where
  status : Bool
  paused : Bool
  trace : List Invocation
  deriving Repr, DecidableEq

/-- Goes on only after success, and not with a paused message. -/
def ChainRun.andThen (r : ChainRun) (next : List Invocation → ChainRun) : ChainRun :=
  if r.status = true ∧ r.paused = false then next r.trace else r

def chainOf (r : Bool × MsgCtx) : ChainRun := ⟨r.1, r.2.paused, r.2.trace⟩

section Chain

variable (replies : ℕ → Reply)
variable {ctx : MsgCtx}

def runChain : List Handler → List Invocation → ChainRun
  | [], trace => ⟨true, false, trace⟩
  | handler :: rest, trace =>
    let reply := replies trace.length
    let trace' := trace ++ [⟨handler, false, reply.success⟩]
    if reply.Clean then runChain rest trace' else ⟨reply.success, reply.pauses, trace'⟩

/-- The next `m` invocations, from number `n` on, neither fail nor pause. -/
def AllClean (n m : ℕ) : Prop := ∀ i < m, (replies (n + i)).Clean

/-- Of the next `m` invocations, the first that is not clean fails without pausing. -/
def FailsFirst (n m : ℕ) : Prop :=
  ∃ k < m, AllClean replies n k ∧ replies (n + k) = ⟨false, false⟩

variable {replies}

lemma AllClean.tail {n m : ℕ} (h : AllClean replies n (m + 1)) : AllClean replies (n + 1) m := by
  intro i hi
  have := h (i + 1) (by omega)
  rwa [show n + (i + 1) = n + 1 + i by ring] at this

lemma AllClean.head {n m : ℕ} (h : AllClean replies n (m + 1)) : (replies n).Clean := h 0 (by omega)

lemma AllClean.mono {n m k : ℕ} (h : AllClean replies n m) (hk : k ≤ m) : AllClean replies n k :=
  fun i hi => h i (by omega)

lemma allClean_add {n k m : ℕ} :
    AllClean replies n (k + m) ↔ AllClean replies n k ∧ AllClean replies (n + k) m := by
  constructor
  · intro h
    refine ⟨h.mono (by omega), ?_⟩
    intro i hi
    rw [Nat.add_assoc]
    exact h (k + i) (by omega)
  · rintro ⟨h1, h2⟩ i hi
    by_cases hik : i < k
    · exact h1 i hik
    · have := h2 (i - k) (by omega)
      rwa [show n + k + (i - k) = n + i by omega] at this

lemma allClean_or_first (n m : ℕ) :
    AllClean replies n m ∨ ∃ k < m, AllClean replies n k ∧ ¬ (replies (n + k)).Clean := by
  induction m with
  | zero => exact .inl fun i hi => absurd hi (by omega)
  | succ m ih =>
    obtain hall | ⟨k, hk, hfirst⟩ := ih
    · by_cases hm : (replies (n + m)).Clean
      · refine .inl fun i hi => ?_
        obtain hlt | rfl := Nat.lt_succ_iff_lt_or_eq.mp hi
        · exact hall i hlt
        · exact hm
      · exact .inr ⟨m, by omega, hall, hm⟩
    · exact .inr ⟨k, by omega, hfirst⟩

lemma runChain_append (a b : List Handler) (trace : List Invocation) :
    runChain replies (a ++ b) trace = (runChain replies a trace).andThen (runChain replies b) := by
  induction a generalizing trace with
  | nil => rfl
  | cons handler a ih =>
    simp only [List.cons_append, runChain]
    by_cases hc : (replies trace.length).Clean
    · rw [if_pos hc, if_pos hc, ih]
    · rw [if_neg hc, if_neg hc, ChainRun.andThen, if_neg]
      rintro ⟨hs, hp⟩
      exact hc ⟨hp, hs⟩

lemma runChain_clean (hs : List Handler) (trace : List Invocation)
    (h : AllClean replies trace.length hs.length) :
    runChain replies hs trace = ⟨true, false, trace ++ hs.map cleanInvocation⟩ := by
  induction hs generalizing trace with
  | nil => simp [runChain]
  | cons handler hs ih =>
    simp only [runChain]
    rw [if_pos h.head, ih _ (by simpa using h.tail), h.head.2]
    simp

/-- The run ends with the first handler that is not clean. -/
lemma runChain_stops (hs : List Handler) (trace : List Invocation) {k : ℕ} (hk : k < hs.length)
    (h : AllClean replies trace.length k) (hu : ¬ (replies (trace.length + k)).Clean) :
    runChain replies hs trace =
      ⟨(replies (trace.length + k)).success, (replies (trace.length + k)).pauses,
        trace ++ ((hs.take k).map cleanInvocation ++
          [⟨hs[k], false, (replies (trace.length + k)).success⟩])⟩ := by
  induction hs generalizing trace k with
  | nil => simp at hk
  | cons handler hs ih =>
    simp only [runChain]
    cases k with
    | zero =>
      rw [Nat.add_zero] at hu
      rw [if_neg hu]
      simp
    | succ k =>
      have hlen (e : Invocation) : (trace ++ [e]).length + k = trace.length + (k + 1) := by
        simp
        ring
      rw [if_pos h.head, ih _ (by simpa using hk) (by simpa using h.tail) (by rwa [hlen]),
        hlen, h.head.2]
      simp

lemma not_failsFirst_of_allClean {n m : ℕ} (h : AllClean replies n m) :
    ¬ FailsFirst replies n m := by
  rintro ⟨k, hk, -, hfail⟩
  have := (h k hk).2
  simp [hfail] at this

lemma runChain_failsFirst {hs : List Handler} {trace : List Invocation}
    (h : FailsFirst replies trace.length hs.length) :
    (runChain replies hs trace).status = false ∧ (runChain replies hs trace).paused = false := by
  obtain ⟨k, hk, hclean, hfail⟩ := h
  have hu : ¬ (replies (trace.length + k)).Clean := by simp [hfail, Reply.Clean]
  rw [runChain_stops hs trace hk hclean hu, hfail]
  exact ⟨rfl, rfl⟩

/-- The handlers that a chain reaches are those behind clean ones only, and an
unpaused message has passed them with success unless the chain fails first. -/
theorem runChain_reached (hs : List Handler) (trace : List Invocation) :
    ∃ new, (runChain replies hs trace).trace = trace ++ new ∧
      (∀ h, h ∈ new.map Invocation.handler ↔
        ∃ i, ∃ hi : i < hs.length, AllClean replies trace.length i ∧ hs[i] = h) ∧
      ((runChain replies hs trace).paused = false →
        ((∀ e ∈ new, e.success = true) ↔ ¬ FailsFirst replies trace.length hs.length)) := by
  obtain hall | ⟨k, hk, hclean, hu⟩ :=
    allClean_or_first trace.length hs.length
  · refine ⟨_, by rw [runChain_clean hs trace hall], ?_, ?_⟩
    · intro h
      have hid : (hs.map cleanInvocation).map Invocation.handler = hs := by
        simp [Function.comp_def]
      rw [hid, List.mem_iff_getElem]
      constructor
      · rintro ⟨i, hi, rfl⟩
        exact ⟨i, hi, hall.mono hi.le, rfl⟩
      · rintro ⟨i, hi, -, rfl⟩
        exact ⟨i, hi, rfl⟩
    · intro _
      simp [not_failsFirst_of_allClean hall]
  · refine ⟨_, by rw [runChain_stops hs trace hk hclean hu], ?_, ?_⟩
    · intro h
      have hid : ((hs.take k).map cleanInvocation ++
          [Invocation.mk hs[k] false (replies (trace.length + k)).success]).map
            Invocation.handler = hs.take (k + 1) := by
        rw [List.take_succ_eq_append_getElem hk]
        simp [Function.comp_def]
      rw [hid, List.mem_take_iff_getElem]
      constructor
      · rintro ⟨i, hi, rfl⟩
        exact ⟨i, by omega, hclean.mono (by omega), rfl⟩
      · rintro ⟨i, hi, hi', rfl⟩
        refine ⟨i, ?_, rfl⟩
        by_contra hno
        exact hu (hi' k (by omega))
    · rw [runChain_stops hs trace hk hclean hu]
      intro hpaused
      have hpauses : (replies (trace.length + k)).pauses = false := hpaused
      have hfail : (replies (trace.length + k)).success = false := by
        by_contra hs
        exact hu ⟨hpauses, by simpa using hs⟩
      have hfirst : FailsFirst replies trace.length hs.length :=
        ⟨k, hk, hclean, Reply.failed_eq hpauses hfail⟩
      simp [hfirst, hfail]

lemma handlerInvoke_chain (hp : ctx.paused = false) (handler : Handler) :
    handlerInvoke replies handler ctx = ((replies ctx.trace.length).success,
      { ctx with
        paused := (replies ctx.trace.length).pauses
        trace := ctx.trace ++ [⟨handler, false, (replies ctx.trace.length).success⟩] }) := by
  simp [handlerInvoke, hp]

lemma invokeHandlers_paused (hs : List Handler) (index : ℕ) (hp : ctx.paused = true) :
    invokeHandlers replies hs index ctx = (true, ctx) := by
  cases hs with
  | nil => rfl
  | cons handler hs => simp [invokeHandlers, hp]

lemma invokeHandlers_chain (hs : List Handler) (index : ℕ) (hp : ctx.paused = false) :
    chainOf (invokeHandlers replies hs index ctx) = runChain replies hs ctx.trace := by
  induction hs generalizing index ctx with
  | nil => simp [invokeHandlers, chainOf, runChain, hp]
  | cons handler hs ih =>
    simp only [invokeHandlers, hp, Bool.false_eq_true, if_false, handlerInvoke_chain hp, runChain]
    by_cases hc : (replies ctx.trace.length).Clean
    · rw [if_pos hc]
      simp only [hc.2]
      exact ih _ hc.1
    · rw [if_neg hc]
      cases hs' : (replies ctx.trace.length).success with
      | false => rfl
      | true =>
        have hpause : (replies ctx.trace.length).pauses = true := by
          by_contra hno
          exact hc ⟨by simpa using hno, hs'⟩
        rw [hpause]
        simp only
        rw [invokeHandlers_paused _ _ rfl]
        rfl

lemma invokeSingle_chain (handler : Option Handler) (hp : ctx.paused = false) :
    chainOf (invokeSingle replies handler ctx) = runChain replies handler.toList ctx.trace := by
  cases handler with
  | none => simp [invokeSingle, chainOf, runChain, hp]
  | some handler =>
    simp only [invokeSingle, hp, Bool.false_eq_true, if_false, handlerInvoke_chain hp,
      Option.toList_some, runChain, chainOf]
    split_ifs with hc
    · rw [hc.1, hc.2]
    · rfl

/-- Two parts in a row, of which the second leaves a paused message alone. -/
lemma chainOf_match {r : Bool × MsgCtx} {a b : List Handler} {trace : List Invocation}
    {next : MsgCtx → Bool × MsgCtx} (hr : chainOf r = runChain replies a trace)
    (hnext : ∀ ctx, ctx.paused = false → chainOf (next ctx) = runChain replies b ctx.trace)
    (hpaused : ∀ ctx, ctx.paused = true → next ctx = (true, ctx)) :
    chainOf (match r with
      | (false, ctx) => (false, ctx)
      | (true, ctx) => next ctx) = runChain replies (a ++ b) trace := by
  rw [runChain_append, ← hr]
  obtain ⟨status, ctx⟩ := r
  cases status with
  | false => rfl
  | true =>
    cases hp : ctx.paused with
    | true => simp [ChainRun.andThen, chainOf, hp, hpaused ctx hp]
    | false => simp [ChainRun.andThen, chainOf, hp, ← hnext ctx hp]

lemma invokeSingle_paused (handler : Option Handler) (hp : ctx.paused = true) :
    invokeSingle replies handler ctx = (true, ctx) := by
  cases handler with
  | none => rfl
  | some handler => simp [invokeSingle, hp]

lemma phaseInvoke_chain (p : Phase) {ctx : MsgCtx} (hp : ctx.paused = false) :
    chainOf (phaseInvoke replies p ctx) = runChain replies p.sequence ctx.trace := by
  rw [Phase.sequence, Phase.body, List.append_assoc]
  refine chainOf_match (invokeSingle_chain p.firstHandler hp) ?_ ?_
  · intro ctx1 hp1
    exact chainOf_match (invokeHandlers_chain p.handlers 0 hp1)
      (fun _ h => invokeSingle_chain p.lastHandler h)
      (fun _ h => invokeSingle_paused p.lastHandler h)
  · intro ctx1 hp1
    simp only [invokeHandlers_paused _ _ hp1]
    exact invokeSingle_paused p.lastHandler hp1

lemma engineInvokePhases_paused (phases : List Phase) (hp : ctx.paused = true) :
    engineInvokePhases replies phases ctx = (true, ctx) := by
  cases phases with
  | nil => rfl
  | cons p phases => simp [engineInvokePhases, hp]

/-- `axis2_engine_invoke_phases` runs the handlers of its phases as one chain. -/
theorem engineInvokePhases_chain (phases : List Phase) {ctx : MsgCtx} (hp : ctx.paused = false) :
    chainOf (engineInvokePhases replies phases ctx) =
      runChain replies (allHandlers phases) ctx.trace := by
  induction phases generalizing ctx with
  | nil => simp [engineInvokePhases, chainOf, allHandlers, runChain, hp]
  | cons p phases ih =>
    simp only [engineInvokePhases, hp, Bool.false_eq_true, if_false]
    exact chainOf_match (phaseInvoke_chain p hp) (fun _ h => ih h)
      (fun _ h => engineInvokePhases_paused phases h)

end Chain

end Axis2C.Engine
