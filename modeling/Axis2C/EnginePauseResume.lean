import Axis2C.EnginePhases

/-!
# Pausing and resuming a message

The resume point is the name of a phase and the index of a handler. The loop
that resumes a phase neither looks at the paused flag nor runs the last handler,
and the index is not reset when a phase begins. Under the conditions below on
which invocations pause, every handler is still invoked once and in order: the
part of a phase that is left to the resume loop is a tail of its handlers.
-/
namespace Axis2C.Engine

def Phase.body (p : Phase) : List Handler := p.firstHandler.toList ++ p.handlers

def Phase.sequence (p : Phase) : List Handler := p.body ++ p.lastHandler.toList

def allHandlers (phases : List Phase) : List Handler := phases.flatMap Phase.sequence

/-- The names of neighbouring phases do not clash. -/
def NameDiffers (p q : Phase) : Prop := p.name = none ∨ p.name ≠ q.name

instance : DecidableRel NameDiffers :=
  fun p q => inferInstanceAs (Decidable (p.name = none ∨ p.name ≠ q.name))

/-- What a phase must meet for its pauses to be harmless. `start` is the number
of invocations before the phase, `index` the handler index found on entry. -/
structure PhaseResumable (pauses : ℕ → Bool) (earlier : List Phase) (p : Phase)
    (later : List Phase) (start : ℕ) (index : ℤ) : Prop where
  /-- A phase with a pause is found again by its name, and the phases after it
  are not taken for it. -/
  named : ∀ i < p.sequence.length, pauses (start + i) = true →
    p.name ≠ none ∧ (∀ q ∈ earlier, q.name ≠ p.name) ∧ (p :: later).IsChain NameDiffers
  /-- Before the last handler: the phase has no last handler, and of the handlers
  left to the resume loop only the final one may pause again. -/
  body : ∀ i < p.body.length, pauses (start + i) = true →
    p.lastHandler = none ∧ (∀ h ∈ p.body.drop (i + 1), h.hasDesc = true) ∧
      ∀ j < p.body.length, i < j → pauses (start + j) = true → j + 1 = p.body.length
  /-- At the first handler: no ordinary handler was counted before. -/
  first : p.firstHandler ≠ none → p.handlers ≠ [] → pauses start = true →
    index ≤ 0 ∧ (pauses (start + p.handlers.length) = true → index = 0)

def Phase.nextIndex (pauses : ℕ → Bool) (p : Phase) (start : ℕ) (index : ℤ) : ℤ :=
  if p.handlers = [] then index
  else if p.firstHandler ≠ none ∧ pauses start = true then index + p.handlers.length
  else p.handlers.length

/-- Every phase of the list meets its condition. -/
def Resumable (pauses : ℕ → Bool) : List Phase → List Phase → ℕ → ℤ → Prop
  | _, [], _, _ => True
  | earlier, p :: later, start, index =>
    PhaseResumable pauses earlier p later start index ∧
      Resumable pauses (earlier ++ [p]) later (start + p.sequence.length)
        (p.nextIndex pauses start index)

/-- The invocations so far, none of them made while the message was paused. -/
structure Invoked (ctx : MsgCtx) (done : List Handler) : Prop where
  handlers : ctx.trace.map Invocation.handler = done
  unpaused : ∀ e ∈ ctx.trace, e.paused = false

lemma Invoked.length {ctx : MsgCtx} {done : List Handler} (h : Invoked ctx done) :
    ctx.trace.length = done.length := by
  rw [← h.handlers, List.length_map]

section Run

variable (pauses : ℕ → Bool)
variable {ctx : MsgCtx} {p : Phase} {done : List Handler} {index : ℤ} {earlier later : List Phase}

def succeeding (pauses : ℕ → Bool) (n : ℕ) : Reply := ⟨pauses n, true⟩

/-- One invocation of an unpaused message. -/
lemma handlerInvoke_spec (h : Invoked ctx done) (hp : ctx.paused = false) (handler : Handler) :
    ∃ ctx', handlerInvoke (succeeding pauses) handler ctx = (true, ctx') ∧
      Invoked ctx' (done ++ [handler]) ∧ ctx'.paused = pauses done.length ∧
      ctx'.pausedPhaseName = ctx.pausedPhaseName ∧
      ctx'.currentHandlerIndex = ctx.currentHandlerIndex := by
  refine ⟨_, rfl, ⟨?_, ?_⟩, ?_, rfl, rfl⟩
  · simp [h.handlers]
  · intro e he
    obtain he | he := List.mem_append.mp he
    · exact h.unpaused e he
    · obtain rfl := List.mem_singleton.mp he
      exact hp
  · simp [hp, succeeding, h.length]

/-- The latest of the invocations `ran`, made from number `start` on, paused. -/
structure StoppedAt (start : ℕ) (ran : List Handler) : Prop where
  ne_nil : ran ≠ []
  pause : pauses (start + (ran.length - 1)) = true

/-- The ordinary loop runs a list to its end or up to the first pause. -/
lemma invokeHandlers_spec (hs : List Handler) (index : ℕ) (h : Invoked ctx done)
    (hp : ctx.paused = false) :
    ∃ ctx' ran rest, invokeHandlers (succeeding pauses) hs index ctx = (true, ctx') ∧
      hs = ran ++ rest ∧ Invoked ctx' (done ++ ran) ∧
      ctx'.pausedPhaseName = ctx.pausedPhaseName ∧
      (ran = [] → ctx'.currentHandlerIndex = ctx.currentHandlerIndex) ∧
      (ran ≠ [] → ctx'.currentHandlerIndex = index + ran.length) ∧
      (ctx'.paused = false ∧ rest = [] ∧ (∀ i < hs.length, pauses (done.length + i) = false) ∨
        ctx'.paused = true ∧ StoppedAt pauses done.length ran) := by
  induction hs generalizing index ctx done with
  | nil =>
    exact ⟨ctx, [], [], rfl, rfl, by simpa using h, rfl, fun _ => rfl, by simp,
      .inl ⟨hp, rfl, by simp⟩⟩
  | cons handler hs ih =>
    obtain ⟨ctx1, hinv, h1, hp1, hname1, -⟩ := handlerInvoke_spec pauses h hp handler
    have hstep : invokeHandlers (succeeding pauses) (handler :: hs) index ctx =
        invokeHandlers (succeeding pauses) hs (index + 1)
          { ctx1 with currentHandlerIndex := (index : ℤ) + 1 } := by
      simp [invokeHandlers, hp, hinv]
    have h2 : Invoked { ctx1 with currentHandlerIndex := (index : ℤ) + 1 }
        (done ++ [handler]) := ⟨h1.handlers, h1.unpaused⟩
    cases hpause : pauses done.length with
    | true =>
      have hp2 : ctx1.paused = true := hp1.trans hpause
      refine ⟨_, [handler], hs, ?_, rfl, h2, hname1, by simp, by simp, .inr ⟨hp2, ?_⟩⟩
      · rw [hstep]
        cases hs with
        | nil => rfl
        | cons a hs => simp [invokeHandlers, hp2]
      · exact ⟨by simp, by simpa using hpause⟩
    | false =>
      obtain ⟨ctx', ran, rest, hrun, rfl, h', hname', hidx0, hidx1, hend⟩ :=
        ih (index + 1) h2 (hp1.trans hpause)
      refine ⟨ctx', handler :: ran, rest, by rw [hstep, hrun], rfl, by simpa using h',
        hname'.trans hname1, by simp, ?_, ?_⟩
      · intro _
        by_cases hran : ran = []
        · simp [hidx0 hran, hran]
        · rw [hidx1 hran]
          push_cast [List.length_cons]
          ring
      · obtain ⟨hp', hrest, hnone⟩ | ⟨hp', hne, hstop⟩ := hend
        · refine .inl ⟨hp', hrest, ?_⟩
          intro i hi
          cases i with
          | zero => simpa using hpause
          | succ i =>
            have := hnone i (by simpa using hi)
            rw [← this]
            congr 1
            simp
            ring
        · refine .inr ⟨hp', by simp, ?_⟩
          rw [← hstop]
          have := List.length_pos_iff.mpr hne
          congr 1
          simp
          omega

lemma invokeSingle_spec (handler : Option Handler) {ctx : MsgCtx} {done : List Handler}
    (h : Invoked ctx done) (hp : ctx.paused = false) :
    ∃ ctx', invokeSingle (succeeding pauses) handler ctx = (true, ctx') ∧
      Invoked ctx' (done ++ handler.toList) ∧
      ctx'.paused = (handler.isSome && pauses done.length) ∧
      ctx'.pausedPhaseName = ctx.pausedPhaseName ∧
      ctx'.currentHandlerIndex = ctx.currentHandlerIndex := by
  cases handler with
  | none => exact ⟨ctx, rfl, by simpa using h, by simpa using hp, rfl, rfl⟩
  | some handler =>
    obtain ⟨ctx', hinv, h', hp', hname, hidx⟩ := handlerInvoke_spec pauses h hp handler
    refine ⟨ctx', ?_, h', by simpa using hp', hname, hidx⟩
    simp [invokeSingle, hp, hinv]

/-- What is left of a phase after a pause in it, for the resume loop to run. -/
structure Interrupted (p : Phase) (start : ℕ) (index : ℤ) (ctx : MsgCtx)
    (ran left : List Handler) : Prop where
  split : p.sequence = ran ++ left
  stopped : StoppedAt pauses start ran
  tail : p.handlers.drop ctx.currentHandlerIndex.toNat = left
  descs : ∀ h ∈ left, h.hasDesc = true
  final : ∀ j < left.length, pauses (start + ran.length + j) = true →
    j + 1 = left.length ∧ 0 ≤ ctx.currentHandlerIndex
  counted : ctx.currentHandlerIndex + left.length = p.nextIndex pauses start index

variable {pauses}

lemma interrupted_first {start : ℕ} (hsafe : PhaseResumable pauses earlier p later start index)
    {first : Handler} (hfirst : p.firstHandler = some first) (hpause : pauses start = true)
    (hidx : ctx.currentHandlerIndex = index) :
    Interrupted pauses p start index ctx [first] p.handlers := by
  have hbody : p.body = first :: p.handlers := by simp [Phase.body, hfirst]
  obtain ⟨hlast, hdescs, hagain⟩ := hsafe.body 0 (by simp [hbody]) (by simpa using hpause)
  have hentry := hsafe.first (by simp [hfirst])
  refine ⟨by simp [Phase.sequence, hbody, hlast], ⟨by simp, by simpa using hpause⟩, ?_, ?_, ?_, ?_⟩
  · by_cases hnil : p.handlers = []
    · simp [hnil]
    · have hle := (hentry hnil hpause).1
      have hzero : index.toNat = 0 := by omega
      simp [hidx, hzero]
  · intro h hh
    exact hdescs h (by simpa [hbody] using hh)
  · intro j hj hpj
    have hpos : pauses (start + (j + 1)) = true := by
      rw [← hpj]
      congr 1
      simp
      ring
    have hend := hagain (j + 1) (by simp [hbody]; omega) (by omega) hpos
    have hnil : p.handlers ≠ [] := by
      rintro hnil
      simp [hnil] at hj
    simp only [hbody, List.length_cons] at hend
    refine ⟨by omega, ?_⟩
    have := (hentry hnil hpause).2 (by rw [← hpos]; congr 1; omega)
    omega
  · unfold Phase.nextIndex
    by_cases hnil : p.handlers = []
    · simp [hnil, hidx]
    · simp [hnil, hfirst, hpause, hidx]

lemma interrupted_handler {start : ℕ} (hsafe : PhaseResumable pauses earlier p later start index)
    (hfirst : p.firstHandler.isSome = true → pauses start = false) {ran rest : List Handler}
    (hsplit : p.handlers = ran ++ rest)
    (hstop : StoppedAt pauses (start + p.firstHandler.toList.length) ran)
    (hidx : ctx.currentHandlerIndex = ran.length) :
    p.lastHandler = none ∧
      Interrupted pauses p start index ctx (p.firstHandler.toList ++ ran) rest := by
  have hran := List.length_pos_iff.mpr hstop.ne_nil
  set front := p.firstHandler.toList with hfront
  have hbody : p.body = (front ++ ran) ++ rest := by
    rw [Phase.body, hsplit, ← hfront, List.append_assoc]
  have hlen : (front ++ ran).length = front.length + ran.length := List.length_append
  have hbodyLen : p.body.length = front.length + ran.length + rest.length := by
    rw [hbody, List.length_append, hlen]
  have hpause : pauses (start + ((front ++ ran).length - 1)) = true := by
    rw [← hstop.pause]
    congr 1
    omega
  have hlt : (front ++ ran).length - 1 < p.body.length := by omega
  obtain ⟨hlast, hdescs, hagain⟩ := hsafe.body _ hlt hpause
  refine ⟨hlast, ⟨?_, ⟨?_, hpause⟩, ?_, ?_, ?_, ?_⟩⟩
  · simp [Phase.sequence, hbody, hlast]
  · simp [hstop.ne_nil]
  · simp [hidx, hsplit]
  · intro h hh
    have hnext : (front ++ ran).length - 1 + 1 = (front ++ ran).length := by omega
    rw [hnext, hbody, List.drop_left] at hdescs
    exact hdescs h hh
  · intro j hj hpj
    have hend := hagain ((front ++ ran).length + j) (by omega) (by omega)
      (by rwa [← Nat.add_assoc])
    exact ⟨by omega, by omega⟩
  · have hne : p.handlers ≠ [] := by simp [hsplit, hstop.ne_nil]
    have hno : ¬ (p.firstHandler ≠ none ∧ pauses start = true) := by
      rintro ⟨hsome, hp⟩
      rw [hfirst (Option.isSome_iff_ne_none.mpr hsome)] at hp
      exact Bool.noConfusion hp
    rw [Phase.nextIndex, if_neg hne, if_neg hno, hidx, hsplit, List.length_append]
    push_cast
    rfl

/-- A pause at the last handler: nothing is left to resume in the phase. -/
lemma interrupted_last {start : ℕ} {last : Handler} (hlast : p.lastHandler = some last)
    (hpause : pauses (start + p.body.length) = true)
    (hidx : ctx.currentHandlerIndex = p.nextIndex pauses start index)
    (hcount : p.handlers ≠ [] → ctx.currentHandlerIndex = p.handlers.length) :
    Interrupted pauses p start index ctx p.sequence [] := by
  have hseq : p.sequence = p.body ++ [last] := by simp [Phase.sequence, hlast]
  refine ⟨by simp, ⟨by simp [hseq], ?_⟩, ?_, by simp, by simp, by simpa using hidx⟩
  · rw [← hpause, hseq, List.length_append]
    rfl
  · by_cases hnil : p.handlers = []
    · simp [hnil]
    · simp [hcount hnil]

/-- `axis2_phase_invoke` on an unpaused message. -/
lemma phaseInvoke_spec (h : Invoked ctx done) (hp : ctx.paused = false)
    (hsafe : PhaseResumable pauses earlier p later done.length ctx.currentHandlerIndex) :
    ∃ ctx', phaseInvoke (succeeding pauses) p ctx = (true, ctx') ∧
      ctx'.pausedPhaseName = p.name ∧
      (ctx'.paused = false ∧ Invoked ctx' (done ++ p.sequence) ∧
          ctx'.currentHandlerIndex = p.nextIndex pauses done.length ctx.currentHandlerIndex ∨
        ctx'.paused = true ∧ ∃ ran left, Invoked ctx' (done ++ ran) ∧
          Interrupted pauses p done.length ctx.currentHandlerIndex ctx' ran left) := by
  have h0 : Invoked { ctx with pausedPhaseName := p.name } done := ⟨h.handlers, h.unpaused⟩
  obtain ⟨ctx1, hinv1, h1, hp1, hname1, hidx1⟩ :=
    invokeSingle_spec pauses p.firstHandler h0 hp
  unfold phaseInvoke
  rw [hinv1]
  cases hpf : (p.firstHandler.isSome && pauses done.length) with
  | true =>
    obtain ⟨hsome, hpause⟩ := Bool.and_eq_true_iff.mp hpf
    obtain ⟨first, hfirst⟩ := Option.isSome_iff_exists.mp hsome
    have hpaused : ctx1.paused = true := hp1.trans hpf
    have hint := interrupted_first hsafe hfirst hpause hidx1
    have hlast := (hsafe.body 0 (by simp [Phase.body, hfirst]) (by simpa using hpause)).1
    refine ⟨ctx1, ?_, hname1,
      .inr ⟨hpaused, [first], p.handlers, by simpa [hfirst] using h1, hint⟩⟩
    cases hhs : p.handlers with
    | nil => simp [invokeHandlers, invokeSingle, hlast]
    | cons a hs => simp [invokeHandlers, invokeSingle, hpaused, hlast]
  | false =>
    have hfirst : p.firstHandler.isSome = true → pauses done.length = false := by
      intro hsome
      simpa [hsome] using hpf
    obtain ⟨ctx2, ran, rest, hinv2, hsplit, h2, hname2, hidx0, hidx2, hend⟩ :=
      invokeHandlers_spec pauses p.handlers 0 h1 (hp1.trans hpf)
    simp only [hinv2]
    obtain ⟨hp2, rfl, hnone⟩ | ⟨hp2, hstop⟩ := hend
    · -- every ordinary handler ran
      rw [List.append_nil] at hsplit
      subst hsplit
      have hcount : p.handlers ≠ [] → ctx2.currentHandlerIndex = p.handlers.length := by
        intro hne
        simpa using hidx2 hne
      have hnext : ctx2.currentHandlerIndex =
          p.nextIndex pauses done.length ctx.currentHandlerIndex := by
        have hno : ¬ (p.firstHandler ≠ none ∧ pauses done.length = true) := by
          rintro ⟨hsome, hpause⟩
          rw [hfirst (Option.isSome_iff_ne_none.mpr hsome)] at hpause
          exact Bool.noConfusion hpause
        unfold Phase.nextIndex
        by_cases hnil : p.handlers = []
        · rw [if_pos hnil, hidx0 hnil, hidx1]
        · rw [if_neg hnil, if_neg hno, hcount hnil]
      obtain ⟨ctx3, hinv3, h3, hp3, hname3, hidx3⟩ :=
        invokeSingle_spec pauses p.lastHandler h2 hp2
      have hran : done ++ p.firstHandler.toList ++ p.handlers ++ p.lastHandler.toList =
          done ++ p.sequence := by
        simp [Phase.sequence, Phase.body]
      have hbody : done ++ p.firstHandler.toList ++ p.handlers = done ++ p.body := by
        simp [Phase.body]
      rw [hran] at h3
      rw [hbody, List.length_append] at hp3
      refine ⟨ctx3, hinv3, hname3.trans (hname2.trans hname1), ?_⟩
      cases hpl : (p.lastHandler.isSome && pauses (done.length + p.body.length)) with
      | false => exact .inl ⟨hp3.trans hpl, h3, hidx3.trans hnext⟩
      | true =>
        obtain ⟨hsome, hpause⟩ := Bool.and_eq_true_iff.mp hpl
        obtain ⟨last, hlast⟩ := Option.isSome_iff_exists.mp hsome
        exact .inr ⟨hp3.trans hpl, p.sequence, [], h3, interrupted_last hlast hpause
          (hidx3.trans hnext) (fun hne => hidx3.trans (hcount hne))⟩
    · -- an ordinary handler paused
      rw [List.length_append] at hstop
      obtain ⟨hlast, hint⟩ := interrupted_handler hsafe hfirst hsplit hstop
        (by simpa using hidx2 hstop.ne_nil)
      refine ⟨ctx2, by simp [invokeSingle, hlast], hname2.trans hname1,
        .inr ⟨hp2, _, rest, by simpa using h2, hint⟩⟩

lemma resumeHandlers_spec (left : List Handler) (h : Invoked ctx done) (hp : ctx.paused = false)
    (hdescs : ∀ h ∈ left, h.hasDesc = true)
    (hfinal : ∀ j < left.length, pauses (done.length + j) = true → j + 1 = left.length) :
    ∃ ctx', resumeHandlers (succeeding pauses) left ctx = (true, ctx') ∧
      Invoked ctx' (done ++ left) ∧ ctx'.pausedPhaseName = ctx.pausedPhaseName ∧
      ctx'.currentHandlerIndex = ctx.currentHandlerIndex + left.length ∧
      (ctx'.paused = true → StoppedAt pauses done.length left) := by
  induction left generalizing ctx done with
  | nil =>
    exact ⟨ctx, rfl, by simpa using h, rfl, by simp, fun h' => by simp [hp] at h'⟩
  | cons handler left ih =>
    obtain ⟨ctx1, hinv, h1, hp1, hname1, hidx1⟩ := handlerInvoke_spec pauses h hp handler
    have h2 : Invoked { ctx1 with currentHandlerIndex := ctx1.currentHandlerIndex + 1 }
        (done ++ [handler]) := ⟨h1.handlers, h1.unpaused⟩
    have hstep : resumeHandlers (succeeding pauses) (handler :: left) ctx =
        resumeHandlers (succeeding pauses) left
          { ctx1 with currentHandlerIndex := ctx1.currentHandlerIndex + 1 } := by
      simp only [resumeHandlers, hdescs handler (by simp), if_true, hinv]
    rw [hstep]
    by_cases hnil : left = []
    · subst hnil
      refine ⟨_, rfl, h2, hname1, by simp [hidx1], ?_⟩
      intro hpause
      exact ⟨by simp, by simpa using hp1.symm.trans hpause⟩
    · -- a handler that is not the final one does not pause
      have hpause : pauses done.length = false := by
        by_contra hne
        have := hfinal 0 (by simp) (by simpa using hne)
        simp at this
        exact hnil this
      obtain ⟨ctx', hrun, h', hname', hidx', hstop⟩ := ih h2 (hp1.trans hpause)
        (fun a ha => hdescs a (by simp [ha])) (by
          intro j hj hpj
          have := hfinal (j + 1) (by simpa using hj) (by
            rw [← hpj]
            congr 1
            simp
            ring)
          simpa using this)
      refine ⟨ctx', hrun, by simpa using h', hname'.trans hname1, ?_, ?_⟩
      · rw [hidx']
        simp only [List.length_cons, hidx1]
        push_cast
        ring
      · intro hp'
        have hs := hstop hp'
        refine ⟨by simp, ?_⟩
        rw [← hs.pause]
        have := List.length_pos_iff.mpr hnil
        congr 1
        simp
        omega

/-- The message is paused in the phase `p`, with `left` to run in it. -/
structure ResumePoint (pauses : ℕ → Bool) (phases : List Phase) (ctx : MsgCtx)
    (earlier : List Phase) (p : Phase) (later : List Phase) (done left : List Handler) : Prop where
  split : phases = earlier ++ p :: later
  paused : ctx.paused = true
  pause : ∃ k, pauses k = true
  invoked : Invoked ctx done
  total : done ++ left ++ allHandlers later = allHandlers phases
  name : ctx.pausedPhaseName = p.name
  named : p.name ≠ none ∧ (∀ q ∈ earlier, q.name ≠ p.name) ∧ (p :: later).IsChain NameDiffers
  tail : p.handlers.drop ctx.currentHandlerIndex.toNat = left
  descs : ∀ h ∈ left, h.hasDesc = true
  final : ∀ j < left.length, pauses (done.length + j) = true →
    j + 1 = left.length ∧ 0 ≤ ctx.currentHandlerIndex
  later : Resumable pauses (earlier ++ [p]) later (done.length + left.length)
    (ctx.currentHandlerIndex + left.length)

/-- A call of the engine ended with everything invoked, or at a point to resume from. -/
def Outcome (pauses : ℕ → Bool) (phases : List Phase) (before : ℕ) (ctx : MsgCtx) : Prop :=
  ctx.paused = false ∧ Invoked ctx (allHandlers phases) ∨
    ∃ earlier p later done left, ResumePoint pauses phases ctx earlier p later done left ∧
      before < done.length

lemma Outcome.mono {phases : List Phase} {m n : ℕ} (h : Outcome pauses phases n ctx) (hmn : m ≤ n) :
    Outcome pauses phases m ctx := by
  obtain hall | ⟨earlier, p, later, done, left, hres, hmore⟩ := h
  · exact .inl hall
  · exact .inr ⟨earlier, p, later, done, left, hres, hmn.trans_lt hmore⟩

lemma Interrupted.resumePoint {phases earlier later : List Phase} {done ran left : List Handler}
    (hsplit : phases = earlier ++ p :: later)
    (htotal : done ++ allHandlers (p :: later) = allHandlers phases)
    (hsafe : Resumable pauses earlier (p :: later) done.length index) (hp : ctx.paused = true)
    (hname : ctx.pausedPhaseName = p.name) (h : Invoked ctx (done ++ ran))
    (hint : Interrupted pauses p done.length index ctx ran left) :
    ResumePoint pauses phases ctx earlier p later (done ++ ran) left := by
  have hlen : (done ++ ran).length + left.length = done.length + p.sequence.length := by
    rw [hint.split, List.length_append, List.length_append]
    omega
  have hran := List.length_pos_iff.mpr hint.stopped.ne_nil
  exact
    { split := hsplit
      paused := hp
      pause := ⟨_, hint.stopped.pause⟩
      invoked := h
      total := by
        rw [← htotal]
        simp [allHandlers, hint.split]
      name := hname
      named := hsafe.1.named (ran.length - 1)
        (by rw [hint.split, List.length_append]; omega) hint.stopped.pause
      tail := hint.tail
      descs := hint.descs
      final := by
        intro j hj hpj
        rw [List.length_append] at hpj
        exact hint.final j hj hpj
      later := by
        rw [hlen, hint.counted]
        exact hsafe.2 }

/-- `axis2_engine_invoke_phases` from some phase on. -/
lemma engineInvokePhases_spec {phases : List Phase} (earlier later : List Phase)
    (hsplit : phases = earlier ++ later) (h : Invoked ctx done) (hp : ctx.paused = false)
    (htotal : done ++ allHandlers later = allHandlers phases)
    (hsafe : Resumable pauses earlier later done.length ctx.currentHandlerIndex) :
    ∃ ctx', engineInvokePhases (succeeding pauses) later ctx = (true, ctx') ∧
      Outcome pauses phases done.length ctx' := by
  induction later generalizing earlier ctx done with
  | nil =>
    refine ⟨ctx, rfl, .inl ⟨hp, ?_⟩⟩
    rw [← htotal]
    simpa [allHandlers] using h
  | cons p later ih =>
    obtain ⟨ctx1, hinv, hname, hend⟩ := phaseInvoke_spec h hp hsafe.1
    have hstep : engineInvokePhases (succeeding pauses) (p :: later) ctx =
        engineInvokePhases (succeeding pauses) later ctx1 := by
      simp [engineInvokePhases, hp, hinv]
    rw [hstep]
    obtain ⟨hp1, h1, hidx1⟩ | ⟨hp1, ran, left, h1, hint⟩ := hend
    · obtain ⟨ctx', hrun, hout⟩ := ih (earlier ++ [p]) (by simpa using hsplit) h1 hp1
        (by simpa [allHandlers] using htotal)
        (by rw [hidx1, List.length_append]; exact hsafe.2)
      exact ⟨ctx', hrun, hout.mono (by simp)⟩
    · have hres := hint.resumePoint hsplit htotal hsafe hp1 hname h1
      refine ⟨ctx1, ?_, .inr ⟨earlier, p, later, done ++ ran, left, hres, ?_⟩⟩
      · cases later with
        | nil => rfl
        | cons q later => simp [engineInvokePhases, hp1]
      · have := List.length_pos_iff.mpr hint.stopped.ne_nil
        rw [List.length_append]
        omega

lemma invokeHandlers_frame (pauses : ℕ → Bool) (hs : List Handler) (index : ℕ) (ctx : MsgCtx) :
    ∃ ctx', invokeHandlers (succeeding pauses) hs index ctx = (true, ctx') ∧
      ctx'.pausedPhaseName = ctx.pausedPhaseName := by
  induction hs generalizing index ctx with
  | nil => exact ⟨ctx, rfl, rfl⟩
  | cons handler hs ih =>
    by_cases hp : ctx.paused = true
    · exact ⟨ctx, by simp [invokeHandlers, hp], rfl⟩
    · simp only [invokeHandlers, if_neg hp, handlerInvoke, succeeding]
      exact ih _ _

lemma invokeSingle_frame (pauses : ℕ → Bool) (handler : Option Handler) (ctx : MsgCtx) :
    ∃ ctx', invokeSingle (succeeding pauses) handler ctx = (true, ctx') ∧
      ctx'.pausedPhaseName = ctx.pausedPhaseName := by
  cases handler with
  | none => exact ⟨ctx, rfl, rfl⟩
  | some handler =>
    by_cases hp : ctx.paused = true
    · exact ⟨ctx, by simp [invokeSingle, hp], rfl⟩
    · simp only [invokeSingle, if_neg hp, handlerInvoke, succeeding]
      exact ⟨_, rfl, rfl⟩

/-- A phase leaves its own name as the place to resume at. -/
lemma phaseInvoke_frame (pauses : ℕ → Bool) (p : Phase) (ctx : MsgCtx) :
    ∃ ctx', phaseInvoke (succeeding pauses) p ctx = (true, ctx') ∧
      ctx'.pausedPhaseName = p.name := by
  obtain ⟨ctx1, hinv1, hname1⟩ :=
    invokeSingle_frame pauses p.firstHandler { ctx with pausedPhaseName := p.name }
  obtain ⟨ctx2, hinv2, hname2⟩ := invokeHandlers_frame pauses p.handlers 0 ctx1
  obtain ⟨ctx3, hinv3, hname3⟩ := invokeSingle_frame pauses p.lastHandler ctx2
  refine ⟨ctx3, ?_, hname3.trans (hname2.trans hname1)⟩
  simp only [phaseInvoke, hinv1, hinv2, hinv3]

lemma resumePhases_found (later : List Phase) (hname : ctx.pausedPhaseName = p.name)
    (hchain : (p :: later).IsChain NameDiffers) :
    resumePhases (succeeding pauses) later true ctx =
      (engineInvokePhases (succeeding pauses) later ctx).2 := by
  induction later generalizing p ctx with
  | nil => rfl
  | cons q later ih =>
    rw [List.isChain_cons_cons] at hchain
    by_cases hp : ctx.paused = true
    · simp [resumePhases, engineInvokePhases, hp]
    · obtain ⟨ctx1, hinv, hname1⟩ := phaseInvoke_frame pauses q ctx
      have hno : ¬ (q.name.isSome ∧ q.name = ctx.pausedPhaseName) := by
        rintro ⟨hsome, heq⟩
        rw [hname] at heq
        obtain hnone | hne := hchain.1
        · simp [heq, hnone] at hsome
        · exact hne heq.symm
      simp only [resumePhases, engineInvokePhases, if_neg hp, if_neg hno, if_true, hinv]
      exact ih hname1 hchain.2

/-- The phases in front of the paused one are skipped. -/
lemma resumePhases_skip (earlier rest : List Phase) {ctx : MsgCtx}
    (h : ∀ q ∈ earlier, q.name ≠ ctx.pausedPhaseName) (hp : ctx.paused = false) :
    resumePhases (succeeding pauses) (earlier ++ rest) false ctx =
      resumePhases (succeeding pauses) rest false ctx := by
  induction earlier with
  | nil => rfl
  | cons q earlier ih =>
    have hno : ¬ (q.name.isSome ∧ q.name = ctx.pausedPhaseName) := fun hq => h q (by simp) hq.2
    simp only [List.cons_append, resumePhases, hp, Bool.false_eq_true, if_false, if_neg hno]
    exact ih fun r hr => h r (by simp [hr])

theorem ResumePoint.resume {phases earlier later : List Phase} {done left : List Handler}
    (h : ResumePoint pauses phases ctx earlier p later done left) :
    Outcome pauses phases done.length
      (engineResumeInvocationPhases (succeeding pauses) phases ctx).2 := by
  have hnames : ∀ q ∈ earlier,
      q.name ≠ ({ ctx with paused := false } : MsgCtx).pausedPhaseName := by
    intro q hq
    rw [show ({ ctx with paused := false } : MsgCtx).pausedPhaseName = p.name from h.name]
    exact h.named.2.1 q hq
  have h0 : Invoked { ctx with paused := false, pausedPhaseName := p.name } done :=
    ⟨h.invoked.handlers, h.invoked.unpaused⟩
  obtain ⟨ctx1, hrun, h1, hname1, hidx1, hstop⟩ := resumeHandlers_spec left h0 rfl h.descs
    (fun j hj hpj => (h.final j hj hpj).1)
  have hmatch : p.name.isSome ∧ p.name = ctx.pausedPhaseName :=
    ⟨Option.isSome_iff_ne_none.mpr h.named.1, h.name.symm⟩
  have hresume : (engineResumeInvocationPhases (succeeding pauses) phases ctx).2 =
      resumePhases (succeeding pauses) later true ctx1 := by
    simp only [engineResumeInvocationPhases]
    rw [h.split, resumePhases_skip earlier _ hnames rfl]
    simp [resumePhases, if_pos hmatch, phaseInvokeStartFromHandler, h.tail, hrun]
  rw [hresume, resumePhases_found later hname1 h.named.2.2]
  have hmore : done.length ≤ (done ++ left).length := by simp
  cases hp1 : ctx1.paused with
  | false =>
    obtain ⟨ctx', hrun', hout⟩ := engineInvokePhases_spec (earlier ++ [p]) later
      (by simpa using h.split) h1 hp1 h.total (by
        rw [hidx1, List.length_append]
        exact h.later)
    rw [hrun']
    exact hout.mono hmore
  | true =>
    have hstay : engineInvokePhases (succeeding pauses) later ctx1 = (true, ctx1) := by
      cases later with
      | nil => rfl
      | cons q later => simp [engineInvokePhases, hp1]
    rw [hstay]
    have hs := hstop hp1
    have hpos := List.length_pos_iff.mpr hs.ne_nil
    have hindex := (h.final (left.length - 1) (by omega) hs.pause).2
    refine .inr ⟨earlier, p, later, done ++ left, [], ?_, by rw [List.length_append]; omega⟩
    exact
      { split := h.split
        paused := hp1
        pause := h.pause
        invoked := h1
        total := by simpa using h.total
        name := hname1
        named := h.named
        tail := by
          have hlen := congrArg List.length h.tail
          rw [List.length_drop] at hlen
          refine List.drop_eq_nil_of_le ?_
          rw [hidx1]
          simp only
          omega
        descs := by simp
        final := by simp
        later := by
          rw [hidx1, List.length_append]
          simpa using h.later }

end Run

/-- Every state of a run: all handlers were invoked, or the run can be resumed
after at least one more invocation than resumptions. -/
theorem runPhases_outcome {pauses : ℕ → Bool} {phases : List Phase}
    (h : Resumable pauses [] phases 0 (-1)) (n : ℕ) :
    Outcome pauses phases n (runPhases (succeeding pauses) phases n) := by
  induction n with
  | zero =>
    have hinit : Invoked msgCtxCreate [] := ⟨rfl, by simp [msgCtxCreate]⟩
    obtain ⟨ctx, hrun, hout⟩ := engineInvokePhases_spec [] phases rfl hinit rfl rfl h
    simp only [runPhases, hrun]
    exact hout
  | succ n ih =>
    simp only [runPhases]
    obtain ⟨hp, hall⟩ | ⟨earlier, p, later, done, left, hres, hmore⟩ := ih
    · rw [hp]
      exact .inl ⟨hp, hall⟩
    · rw [hres.paused, if_pos rfl]
      exact hres.resume.mono hmore

/-- Without pauses a single call invokes everything. -/
theorem runPhases_unpaused (phases : List Phase) (n : ℕ) :
    (runPhases (succeeding fun _ => false) phases n).trace.map Invocation.handler =
      allHandlers phases := by
  have hsafe : ∀ (later earlier : List Phase) (start : ℕ) (index : ℤ),
      Resumable (fun _ => false) earlier later start index := by
    intro later
    induction later with
    | nil => exact fun _ _ _ => trivial
    | cons p later ih => exact fun _ _ _ => ⟨⟨by simp, by simp, by simp⟩, ih _ _ _⟩
  obtain ⟨-, hall⟩ | ⟨earlier, p, later, done, left, hres, -⟩ :=
    runPhases_outcome (hsafe phases [] 0 (-1)) n
  · exact hall.handlers
  · obtain ⟨k, hk⟩ := hres.pause
    exact Bool.noConfusion hk

/-- Over a whole run of invoking and resuming, the handlers are invoked as they
would be without any pause, and never while the message is paused. -/
def LosesNoHandler (pauses : ℕ → Bool) (phases : List Phase) : Prop :=
  (∀ n, (runPhases (succeeding pauses) phases n).trace.map Invocation.handler <+:
      allHandlers phases ∧
    ∀ e ∈ (runPhases (succeeding pauses) phases n).trace, e.paused = false) ∧
  ∃ n, (runPhases (succeeding pauses) phases n).paused = false ∧
    (runPhases (succeeding pauses) phases n).trace.map Invocation.handler =
      (runPhases (succeeding fun _ => false) phases 0).trace.map Invocation.handler

theorem pause_resume_loses_no_handler (pauses : ℕ → Bool) (phases : List Phase)
    (h : Resumable pauses [] phases 0 (-1)) : LosesNoHandler pauses phases := by
  refine ⟨?_, (allHandlers phases).length, ?_⟩
  · intro n
    obtain ⟨-, hall⟩ | ⟨earlier, p, later, done, left, hres, -⟩ := runPhases_outcome h n
    · exact ⟨by rw [hall.handlers], hall.unpaused⟩
    · refine ⟨?_, hres.invoked.unpaused⟩
      rw [hres.invoked.handlers, ← hres.total, List.append_assoc]
      exact List.prefix_append _ _
  · rw [runPhases_unpaused]
    obtain ⟨hp, hall⟩ | ⟨earlier, p, later, done, left, hres, hmore⟩ :=
      runPhases_outcome h (allHandlers phases).length
    · exact ⟨hp, hall.handlers⟩
    · -- more invocations than there are handlers
      have hlen := congrArg List.length hres.total
      simp only [List.length_append] at hlen
      omega

/-- Pauses at an ordinary handler, at the last ordinary handler of the resumed
phase and at a last handler. -/
theorem pause_resume_two_phases :
    LosesNoHandler (fun n => n = 0 || n = 2 || n = 4)
      [⟨some "Transport", none, [⟨0, true⟩, ⟨1, true⟩, ⟨2, true⟩], none⟩,
        ⟨some "Dispatch", none, [⟨3, true⟩], some ⟨4, true⟩⟩] :=
  pause_resume_loses_no_handler _ _
    ⟨⟨by decide, by decide, by decide⟩, ⟨by decide, by decide, by decide⟩, trivial⟩

/-- A message that is not paused is not resumed again. -/
lemma runPhases_stable {replies : ℕ → Reply} {phases : List Phase} {m : ℕ}
    (h : (runPhases replies phases m).paused = false) (k : ℕ) :
    runPhases replies phases (m + k) = runPhases replies phases m := by
  induction k with
  | zero => rfl
  | succ k ih =>
    rw [← Nat.add_assoc, runPhases, ih]
    simp [h]

/-- A handler pauses in a phase with a last handler: after the resumption the
message is no longer paused and the last handler was never invoked. -/
theorem last_handler_lost :
    ¬ LosesNoHandler (fun n => n = 0)
      [⟨some "Dispatch", none, [⟨0, true⟩, ⟨1, true⟩], some ⟨2, true⟩⟩] := by
  rintro ⟨-, n, hp, hall⟩
  have hone : (runPhases (succeeding fun n => n = 0)
      [⟨some "Dispatch", none, [⟨0, true⟩, ⟨1, true⟩], some ⟨2, true⟩⟩] 1).paused = false := by
    decide
  cases n with
  | zero => exact absurd hp (by decide)
  | succ n =>
    rw [Nat.add_comm, runPhases_stable hone] at hall
    exact absurd hall (by decide)

end Axis2C.Engine
