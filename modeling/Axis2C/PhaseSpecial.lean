import Axis2C.PhaseUnique
import Axis2C.StatefulRuns

/-!
# First, last and sole handlers

The phase as the record that `axis2_phase_add_handler_desc` writes to, field by field. A
description that is both first and last makes its handler the only one of the phase, but only
the list of the phase is looked at: a first or a last handler that is there already stays.
-/
namespace Axis2C.Engine
open CallRuns StatefulRuns

section Record

/-- `struct axis2_phase`. -/
structure PhaseRecord where
  firstHandler : Option HandlerDesc
  firstHandlerSet : Bool
  handlers : List HandlerDesc
  lastHandler : Option HandlerDesc
  lastHandlerSet : Bool
  isOneHandler : Bool
  deriving Repr, DecidableEq

/-- `axis2_phase_create`. -/
def recordCreate : PhaseRecord := ⟨none, false, [], none, false, false⟩

/-- The phase without its two flags for the special handlers. -/
def PhaseRecord.phase (r : PhaseRecord) : HandlerPhase :=
  ⟨r.firstHandler, r.handlers, r.lastHandler, r.isOneHandler⟩

/-- A function of `phase.c`, which may set an error and return failure. -/
abbrev PhaseM := EStateM PhaseError PhaseRecord

/-- `axis2_phase_set_first_handler`. -/
def recordSetFirst (desc : HandlerDesc) (rules : PhaseRule) : PhaseM Unit := do
  if (← get).firstHandlerSet then throw .phaseFirstHandlerAlreadySet
  else if getBeforeAfter rules ≠ phaseAnywhere then throw .invalidPhaseFirstHandler
  else
    modify fun r => { r with firstHandler := some desc }
    modify fun r => { r with firstHandlerSet := true }

/-- `axis2_phase_set_last_handler`. -/
def recordSetLast (desc : HandlerDesc) (rules : PhaseRule) : PhaseM Unit := do
  if (← get).lastHandlerSet then throw .phaseLastHandlerAlreadySet
  else if getBeforeAfter rules ≠ phaseAnywhere then throw .invalidPhaseLastHandler
  else
    modify fun r => { r with lastHandler := some desc }
    modify fun r => { r with lastHandlerSet := true }

/-- `axis2_phase_insert_handler_desc`, which writes to the list of the phase only. -/
def recordInsert (desc : HandlerDesc) (rules : PhaseRule) : PhaseM Unit := do
  match insertHandlerDesc (← get).phase desc rules with
  | .error e => throw e
  | .ok phase => modify fun r => { r with handlers := phase.handlers }

/-- `axis2_phase_add_handler_desc`. -/
def recordAdd (desc : HandlerDesc) : PhaseM Unit := do
  if (← get).isOneHandler then throw .phaseAddHandlerInvalid
  else
    match desc.rules with
    | none => throw .invalidNullParam
    | some rules =>
      if rules.first && rules.last then
        if 0 < (← get).handlers.length then throw .invalidHandlerRules
        else if !desc.hasHandler then throw .invalidNullParam
        else
          modify fun r => { r with handlers := (addUnique r.phase desc).handlers }
          modify fun r => { r with isOneHandler := true }
      else if rules.first then
        if !desc.hasHandler then throw .invalidNullParam else recordSetFirst desc rules
      else if rules.last then
        if !desc.hasHandler then throw .invalidNullParam else recordSetLast desc rules
      else if !desc.hasHandler then throw .invalidNullParam
      else recordInsert desc rules

def recordStep (r : PhaseRecord) (desc : HandlerDesc) : PhaseRecord :=
  match recordAdd desc r with
  | .ok _ r' => r'
  | .error _ r' => r'

/-- The call returned success. -/
def Takes (r : PhaseRecord) (desc : HandlerDesc) : Prop := ∃ r', recordAdd desc r = .ok () r'

end Record

section Simulation

def HandlerPhase.record (phase : HandlerPhase) : PhaseRecord where
  firstHandler := phase.firstHandler
  firstHandlerSet := phase.firstHandler.isSome
  handlers := phase.handlers
  lastHandler := phase.lastHandler
  lastHandlerSet := phase.lastHandler.isSome
  isOneHandler := phase.isOneHandler

def recordResult (phase : HandlerPhase) :
    Except PhaseError HandlerPhase → EStateM.Result PhaseError PhaseRecord Unit
  | .ok phase' => .ok () phase'.record
  | .error e => .error e phase.record

variable {phase phase' : HandlerPhase} {desc : HandlerDesc} {rules : PhaseRule}

lemma recordGet (r : PhaseRecord) : (get : PhaseM PhaseRecord) r = .ok r r := rfl

/-- A routine for a special place writes to the record what it changes in the phase. -/
lemma recordSlot_eq {taken : Bool} {e e' : PhaseError} {write : PhaseM Unit}
    (hwrite : write phase.record = .ok () phase'.record) :
    (if taken then throw e else if getBeforeAfter rules ≠ phaseAnywhere then throw e' else write :
        PhaseM Unit) phase.record =
      recordResult phase (if taken then .error e
        else if getBeforeAfter rules ≠ phaseAnywhere then .error e' else .ok phase') := by
  by_cases htaken : taken = true
  · rw [if_pos htaken, if_pos htaken]
    rfl
  · by_cases hplaced : getBeforeAfter rules ≠ phaseAnywhere
    · rw [if_neg htaken, if_neg htaken, if_pos hplaced, if_pos hplaced]
      rfl
    · rw [if_neg htaken, if_neg htaken, if_neg hplaced, if_neg hplaced]
      exact hwrite

lemma recordSetFirst_eq : recordSetFirst desc rules phase.record =
    recordResult phase (setFirstHandler phase desc rules) := by
  rw [recordSetFirst, bind_ok (recordGet phase.record)]
  exact recordSlot_eq rfl

lemma recordSetLast_eq : recordSetLast desc rules phase.record =
    recordResult phase (setLastHandler phase desc rules) := by
  rw [recordSetLast, bind_ok (recordGet phase.record)]
  exact recordSlot_eq rfl

def SameButList (phase phase' : HandlerPhase) : Prop :=
  phase' = { phase with handlers := phase'.handlers }

lemma addUnique_list : SameButList phase (addUnique phase desc) := by
  unfold addUnique SameButList
  split <;> rfl

lemma addAt_list (i : ℕ) : SameButList phase (addAt phase i desc) := rfl

lemma insertBefore_list (before : String) : SameButList phase (insertBefore phase desc before) := by
  unfold insertBefore
  split
  · exact addUnique_list
  · split
    · exact addAt_list _
    · exact addUnique_list

lemma insertAfter_list (after : String) : SameButList phase (insertAfter phase desc after) := by
  unfold insertAfter
  split
  · exact addAt_list 0
  · split
    · split
      · exact addUnique_list
      · exact addAt_list _
    · split
      · exact addAt_list 0
      · exact addUnique_list

lemma insertBeforeAndAfter_list {before after : String}
    (h : insertBeforeAndAfter phase desc before after = .ok phase') :
    SameButList phase phase' := by
  unfold insertBeforeAndAfter at h
  split at h
  · obtain rfl := Except.ok.inj h
    exact addUnique_list
  · dsimp only at h
    generalize findBoth after before phase.handlers 0 _ _ = found at h
    match found with
    | none =>
      obtain rfl := Except.ok.inj h
      exact addUnique_list
    | some (i, j) =>
      dsimp only at h
      split_ifs at h
      · obtain rfl := Except.ok.inj h
        exact addAt_list _
      · obtain rfl := Except.ok.inj h
        exact addUnique_list

lemma insertHandlerDesc_list (h : insertHandlerDesc phase desc rules = .ok phase') :
    SameButList phase phase' := by
  unfold insertHandlerDesc at h
  split_ifs at h
  · split at h
    · exact insertBeforeAndAfter_list h
    · cases h
  · split at h
    · obtain rfl := Except.ok.inj h
      exact insertBefore_list _
    · cases h
  · split at h
    · obtain rfl := Except.ok.inj h
      exact insertAfter_list _
    · cases h
  · obtain rfl := Except.ok.inj h
    exact addUnique_list

lemma recordInsert_eq : recordInsert desc rules phase.record =
    recordResult phase (insertHandlerDesc phase desc rules) := by
  have hphase : phase.record.phase = phase := rfl
  rw [recordInsert, bind_ok (recordGet phase.record), hphase]
  cases hinsert : insertHandlerDesc phase desc rules with
  | error e => rfl
  | ok phase' =>
    have hlist := insertHandlerDesc_list hinsert
    rw [hlist]
    rfl

/-- The record is written to as the phase is changed, and not at all on failure. -/
lemma recordAdd_eq : recordAdd desc phase.record =
    recordResult phase (addHandlerDesc phase desc) := by
  have hget := recordGet phase.record
  rw [recordAdd, bind_ok hget, addHandlerDesc]
  change (if phase.isOneHandler = true then _ else _ : PhaseM Unit) phase.record = _
  by_cases hone : phase.isOneHandler = true
  · rw [if_pos hone, if_pos hone]
    rfl
  · rw [if_neg hone, if_neg hone]
    cases hrules : desc.rules with
    | none => rfl
    | some rules =>
      dsimp only
      cases hfirst : rules.first <;> cases hlast : rules.last <;>
        cases hhandler : desc.hasHandler
      · rfl
      · exact recordInsert_eq
      · rfl
      · exact recordSetLast_eq
      · rfl
      · exact recordSetFirst_eq
      -- for a sole handler the list is looked at first
      all_goals
        by_cases hsome : 0 < phase.handlers.length
        · have hlist : 0 < phase.record.handlers.length := hsome
          simp only [Bool.and_true, if_true, bind_ok hget, decide_true, hsome, if_pos hlist]
          rfl
      all_goals
        have hlist : ¬ 0 < phase.record.handlers.length := hsome
        simp [bind_ok hget, hsome, if_neg hlist]
      · rfl
      · have hunique : SameButList phase (addUnique phase desc) := addUnique_list
        rw [hunique]
        rfl

end Simulation

section Accepted

/-- What a call that succeeds does, by the rules of the description. -/
inductive Accepted (phase : HandlerPhase) (desc : HandlerDesc) (rules : PhaseRule) :
    HandlerPhase → Prop
  | sole (hfirst : rules.first = true) (hlast : rules.last = true) (hempty : phase.handlers = []) :
      Accepted phase desc rules { phase with handlers := [desc], isOneHandler := true }
  | first (hfirst : rules.first = true) (hlast : rules.last = false)
      (hfree : phase.firstHandler = none) :
      Accepted phase desc rules { phase with firstHandler := some desc }
  | last (hfirst : rules.first = false) (hlast : rules.last = true)
      (hfree : phase.lastHandler = none) :
      Accepted phase desc rules { phase with lastHandler := some desc }
  | ordinary {phase' : HandlerPhase} (hfirst : rules.first = false) (hlast : rules.last = false)
      (hlist : SameButList phase phase') : Accepted phase desc rules phase'

variable {phase phase' : HandlerPhase} {desc : HandlerDesc} {rules : PhaseRule}

lemma addHandlerDesc_accepted (h : addHandlerDesc phase desc = .ok phase') :
    phase.isOneHandler = false ∧ desc.hasHandler = true ∧
      ∃ rules, desc.rules = some rules ∧ Accepted phase desc rules phase' := by
  unfold addHandlerDesc at h
  split at h
  · cases h
  · next hone =>
      cases hrules : desc.rules with
      | none => simp [hrules] at h
      | some rules =>
        cases hhandler : desc.hasHandler with
        | false =>
          simp only [hrules, hhandler, Bool.not_false, if_true] at h
          split at h
          · cases h
          · cases h
        | true =>
          refine ⟨by simpa using hone, rfl, rules, rfl, ?_⟩
          cases hfirst : rules.first <;> cases hlast : rules.last
          · simp only [hrules, hhandler, hfirst, hlast] at h
            exact .ordinary hfirst hlast (insertHandlerDesc_list h)
          · have h : setLastHandler phase desc rules = .ok phase' := by
              simpa [hrules, hhandler, hfirst, hlast] using h
            unfold setLastHandler at h
            split_ifs at h with hset
            obtain rfl := Except.ok.inj h
            exact .last hfirst hlast (by simpa using hset)
          · have h : setFirstHandler phase desc rules = .ok phase' := by
              simpa [hrules, hhandler, hfirst, hlast] using h
            unfold setFirstHandler at h
            split_ifs at h with hset
            obtain rfl := Except.ok.inj h
            exact .first hfirst hlast (by simpa using hset)
          · by_cases hsome : 0 < phase.handlers.length
            · simp [hrules, hfirst, hlast, hsome] at h
            · have hempty : phase.handlers = [] := by simpa [List.length_pos_iff] using hsome
              have hunique : addUnique phase desc = { phase with handlers := [desc] } := by
                simp [addUnique, hempty]
              have h : { phase with handlers := [desc], isOneHandler := true } = phase' := by
                simpa [hrules, hhandler, hfirst, hlast, hempty, hunique] using h
              rw [← h]
              exact .sole hfirst hlast hempty

lemma addHandlerDesc_sole (hone : phase.isOneHandler = false) (hrules : desc.rules = some rules)
    (hfirst : rules.first = true) (hlast : rules.last = true) (hhandler : desc.hasHandler = true)
    (hempty : phase.handlers = []) : addHandlerDesc phase desc =
      .ok { phase with handlers := [desc], isOneHandler := true } := by
  simp [addHandlerDesc, addUnique, hone, hrules, hfirst, hlast, hhandler, hempty]

lemma takes_iff : Takes phase.record desc ↔ ∃ phase', addHandlerDesc phase desc = .ok phase' := by
  unfold Takes
  rw [recordAdd_eq]
  cases addHandlerDesc phase desc with
  | ok phase' => exact iff_of_true ⟨phase'.record, rfl⟩ ⟨phase', rfl⟩
  | error e => exact iff_of_false (by rintro ⟨_, h⟩; cases h) (by rintro ⟨_, h⟩; cases h)

/-- The phase after a call of `axis2_phase_add_handler_desc`. -/
def addStep (phase : HandlerPhase) (desc : HandlerDesc) : HandlerPhase :=
  phaseStep phase (.addHandlerDesc desc)

lemma addStep_ok (h : addHandlerDesc phase desc = .ok phase') : addStep phase desc = phase' := by
  simp only [addStep, phaseStep, phaseCall, h]

lemma addStep_error {e : PhaseError} (h : addHandlerDesc phase desc = .error e) :
    addStep phase desc = phase := by
  simp only [addStep, phaseStep, phaseCall, h]

lemma recordStep_eq : recordStep phase.record desc = (addStep phase desc).record := by
  unfold recordStep
  rw [recordAdd_eq]
  cases h : addHandlerDesc phase desc with
  | ok phase' => rw [addStep_ok h]; rfl
  | error e => rw [addStep_error h]; rfl

lemma after_record (phase : HandlerPhase) (descs : List HandlerDesc) :
    after recordStep phase.record descs = (after addStep phase descs).record := by
  induction descs generalizing phase with
  | nil => rfl
  | cons desc descs ih => rw [after_cons, recordStep_eq, ih, after_cons]

/-- A phase that has its only handler stays as it is. -/
lemma addStep_closed (hone : phase.isOneHandler = true) (desc : HandlerDesc) :
    addStep phase desc = phase :=
  addStep_error (e := .phaseAddHandlerInvalid) (by rw [addHandlerDesc, if_pos hone])

/-- A call is refused, which leaves the phase as it is, or accepted. -/
lemma addStep_cases (phase : HandlerPhase) (desc : HandlerDesc) : addStep phase desc = phase ∨
    ∃ rules, desc.rules = some rules ∧ Accepted phase desc rules (addStep phase desc) := by
  cases h : addHandlerDesc phase desc with
  | error e => exact Or.inl (addStep_error h)
  | ok phase' =>
    obtain ⟨-, -, haccepted⟩ := addHandlerDesc_accepted h
    rw [addStep_ok h]
    exact Or.inr haccepted

lemma addStep_first (hfirst : phase.firstHandler.isSome) (next : HandlerDesc) :
    (addStep phase next).firstHandler = phase.firstHandler := by
  obtain hsame | ⟨rules, -, haccepted⟩ := addStep_cases phase next
  · rw [hsame]
  · generalize addStep phase next = phase' at haccepted ⊢
    cases haccepted with
    | sole | last => rfl
    | first _ _ hfree => simp [hfree] at hfirst
    | ordinary _ _ hlist => rw [hlist]

lemma addStep_last (hlast : phase.lastHandler.isSome) (next : HandlerDesc) :
    (addStep phase next).lastHandler = phase.lastHandler := by
  obtain hsame | ⟨rules, -, haccepted⟩ := addStep_cases phase next
  · rw [hsame]
  · generalize addStep phase next = phase' at haccepted ⊢
    cases haccepted with
    | sole | first => rfl
    | last _ _ hfree => simp [hfree] at hlast
    | ordinary _ _ hlist => rw [hlist]

end Accepted

section Invocation

def HandlerPhase.withHandlers (phase : HandlerPhase) (name : Option String)
    (handler : HandlerDesc → Handler) : Phase where
  name := name
  firstHandler := phase.firstHandler.map handler
  handlers := phase.handlers.map handler
  lastHandler := phase.lastHandler.map handler

def HandlerPhase.descs (phase : HandlerPhase) : List HandlerDesc :=
  phase.firstHandler.toList ++ phase.handlers ++ phase.lastHandler.toList

/-- The handlers that `axis2_phase_invoke` runs. -/
def ranBy (replies : ℕ → Reply) (phase : Phase) (ctx : MsgCtx) : List Handler :=
  ((phaseInvoke replies phase ctx).2.trace.drop ctx.trace.length).map Invocation.handler

lemma withHandlers_sequence (phase : HandlerPhase) (name : Option String)
    (handler : HandlerDesc → Handler) :
    (phase.withHandlers name handler).sequence = phase.descs.map handler := by
  cases hf : phase.firstHandler <;> cases hl : phase.lastHandler <;>
    simp [HandlerPhase.withHandlers, HandlerPhase.descs, Phase.sequence, Phase.body, hf, hl]

lemma runChain_prefix (replies : ℕ → Reply) (handlers : List Handler) (trace : List Invocation) :
    ∃ new, (runChain replies handlers trace).trace = trace ++ new ∧
      new.map Invocation.handler <+: handlers := by
  induction handlers generalizing trace with
  | nil => exact ⟨[], by simp [runChain], List.prefix_refl _⟩
  | cons handler handlers ih =>
    simp only [runChain]
    by_cases hclean : (replies trace.length).Clean
    · rw [if_pos hclean]
      obtain ⟨new, htrace, hpre⟩ :=
        ih (trace ++ [⟨handler, false, (replies trace.length).success⟩])
      refine ⟨⟨handler, false, (replies trace.length).success⟩ :: new, by simp [htrace], ?_⟩
      exact List.cons_prefix_cons.mpr ⟨rfl, hpre⟩
    · rw [if_neg hclean]
      exact ⟨_, rfl, List.cons_prefix_cons.mpr ⟨rfl, List.nil_prefix⟩⟩

lemma phaseInvoke_paused (replies : ℕ → Reply) (phase : Phase) {ctx : MsgCtx}
    (hpaused : ctx.paused = true) : (phaseInvoke replies phase ctx).2.trace = ctx.trace := by
  have hctx : ({ ctx with pausedPhaseName := phase.name } : MsgCtx).paused = true := hpaused
  simp only [phaseInvoke, invokeSingle_paused _ hctx, invokeHandlers_paused _ _ hctx]

/-- An invocation runs an initial part of the handlers in their order. -/
lemma ranBy_prefix (replies : ℕ → Reply) (phase : HandlerPhase) (name : Option String)
    (handler : HandlerDesc → Handler) (ctx : MsgCtx) :
    ranBy replies (phase.withHandlers name handler) ctx <+: phase.descs.map handler := by
  rw [← withHandlers_sequence phase name handler]
  by_cases hpaused : ctx.paused = true
  · simp [ranBy, phaseInvoke_paused replies _ hpaused]
  · rw [Bool.not_eq_true] at hpaused
    have htrace := congrArg ChainRun.trace
      (@phaseInvoke_chain replies (phase.withHandlers name handler) ctx hpaused)
    obtain ⟨new, hnew, hpre⟩ :=
      runChain_prefix replies (phase.withHandlers name handler).sequence ctx.trace
    rw [hnew] at htrace
    simp only [chainOf] at htrace
    rw [ranBy, htrace, List.drop_left]
    exact hpre

/-- An invocation in which no handler fails or pauses the message runs them all. -/
lemma ranBy_clean (phase : HandlerPhase) (name : Option String)
    (handler : HandlerDesc → Handler) :
    ranBy (fun _ => ⟨false, true⟩) (phase.withHandlers name handler) msgCtxCreate =
      phase.descs.map handler := by
  have hchain := (phaseInvoke_chain (phase.withHandlers name handler) msgCtxCreate_paused).trans
    (@runChain_clean (fun _ => ⟨false, true⟩) _ _ fun _ _ => ⟨rfl, rfl⟩)
  have htrace := congrArg ChainRun.trace hchain
  simp only [chainOf] at htrace
  rw [ranBy, htrace, List.drop_left, withHandlers_sequence]
  simp [Function.comp_def]

/-- What the rules of an accepted description promise about the invocations of the phase: no
other handler is run than a sole one, the first one is run before the others, and a run that
gets through the phase ends with the last one. -/
structure Promised (desc : HandlerDesc) (rules : PhaseRule) (phase : HandlerPhase) : Prop where
  sole : rules.first = true → rules.last = true → ∀ replies name handler ctx,
    ∀ ran ∈ ranBy replies (phase.withHandlers name handler) ctx, ran = handler desc
  first : rules.first = true → ∀ replies name handler ctx,
    ∀ ran ∈ (ranBy replies (phase.withHandlers name handler) ctx).head?, ran = handler desc
  last : rules.last = true → ∀ replies name handler ctx,
    (ranBy replies (phase.withHandlers name handler) ctx).length = phase.descs.length →
      (ranBy replies (phase.withHandlers name handler) ctx).getLast? = some (handler desc)

/-- The laws of the special handlers in a run of `axis2_phase_add_handler_desc` on a fresh
phase. -/
structure SpecialKept (descs : List HandlerDesc) : Prop where
  promised : ∀ before desc later rules, before ++ desc :: later <+: descs →
    Takes (after recordStep recordCreate before) desc → desc.rules = some rules →
      Promised desc rules (after recordStep recordCreate (before ++ desc :: later)).phase
  failed : EachCall recordStep recordCreate descs fun r desc =>
    ¬ Takes r desc → recordStep r desc = r

/-- A handler that is to be the only one does not come to a phase whose list is empty but which
has a first or a last handler. -/
def SoleAlone (r : PhaseRecord) (desc : HandlerDesc) : Prop :=
  ∀ rules, desc.rules = some rules → rules.first = true → rules.last = true →
    desc.hasHandler = true → r.isOneHandler = false → r.handlers = [] →
      r.firstHandler = none ∧ r.lastHandler = none

end Invocation

section Runs

variable {phase phase' : HandlerPhase} {desc : HandlerDesc} {rules : PhaseRule}

/-- The first handler was not declared last and the last one not first. -/
structure SlotRules (phase : HandlerPhase) : Prop where
  first : ∀ desc ∈ phase.firstHandler, ∀ rules ∈ desc.rules, rules.last = false
  last : ∀ desc ∈ phase.lastHandler, ∀ rules ∈ desc.rules, rules.first = false

lemma slotRules_addStep (h : SlotRules phase) (desc : HandlerDesc) :
    SlotRules (addStep phase desc) := by
  obtain ⟨hf, hl⟩ := h
  obtain hsame | ⟨rules, hrules, haccepted⟩ := addStep_cases phase desc
  · rw [hsame]
    exact ⟨hf, hl⟩
  · generalize addStep phase desc = phase' at haccepted ⊢
    cases haccepted with
    | sole => exact ⟨hf, hl⟩
    | first hfirst hlast hfree =>
      refine ⟨fun d hd r hr => ?_, hl⟩
      obtain rfl := Option.some.inj hd
      obtain rfl := Option.some.inj (hrules.symm.trans hr)
      exact hlast
    | last hfirst hlast hfree =>
      refine ⟨hf, fun d hd r hr => ?_⟩
      obtain rfl := Option.some.inj hd
      obtain rfl := Option.some.inj (hrules.symm.trans hr)
      exact hfirst
    | ordinary hfirst hlast hlist =>
      rw [hlist]
      exact ⟨hf, hl⟩

lemma slotRules_after (descs : List HandlerDesc) : SlotRules (after addStep phaseCreate descs) := by
  have hkeep (phase : HandlerPhase) (desc : HandlerDesc) (h : SlotRules phase) :
      SlotRules (addStep phase desc) := slotRules_addStep h desc
  refine after_keeps hkeep ⟨fun d hd => ?_, fun d hd => ?_⟩ descs
  · cases hd
  · cases hd

lemma promised_of_sole (h : phase.descs = [desc]) : Promised desc rules phase := by
  have hpre (replies name handler ctx) := ranBy_prefix replies phase name handler ctx
  simp only [h, List.map_cons, List.map_nil] at hpre
  refine ⟨fun _ _ replies name handler ctx ran hran => ?_,
    fun _ replies name handler ctx ran hran => ?_, fun _ replies name handler ctx hlength => ?_⟩
  · exact List.mem_singleton.mp ((hpre replies name handler ctx).subset hran)
  · have hmem := List.mem_of_head? hran
    exact List.mem_singleton.mp ((hpre replies name handler ctx).subset hmem)
  · rw [h] at hlength
    rw [(hpre replies name handler ctx).eq_of_length (by simpa using hlength)]
    rfl

lemma promised_of_first (hnot : rules.last = false) (h : phase.firstHandler = some desc) :
    Promised desc rules phase := by
  refine ⟨fun _ hlast => ?_, fun _ replies name handler ctx ran hran => ?_, fun hlast => ?_⟩
  · simp [hnot] at hlast
  · obtain ⟨rest, hrest⟩ := ranBy_prefix replies phase name handler ctx
    have hhead := congrArg List.head? hrest
    rw [List.head?_append, Option.mem_def.mp hran] at hhead
    simpa [HandlerPhase.descs, h] using hhead
  · simp [hnot] at hlast

lemma promised_of_last (hnot : rules.first = false) (h : phase.lastHandler = some desc) :
    Promised desc rules phase := by
  refine ⟨fun hfirst => ?_, fun hfirst => ?_, fun _ replies name handler ctx hlength => ?_⟩
  · simp [hnot] at hfirst
  · simp [hnot] at hfirst
  · have hpre := ranBy_prefix replies phase name handler ctx
    rw [hpre.eq_of_length (by simpa using hlength)]
    simp [HandlerPhase.descs, h]

lemma promised_of_ordinary (hfirst : rules.first = false) (hlast : rules.last = false) :
    Promised desc rules phase := by
  refine ⟨fun h => ?_, fun h => ?_, fun h => ?_⟩
  · simp [hfirst] at h
  · simp [hfirst] at h
  · simp [hlast] at h

/-- What an accepted description is promised holds after any further calls, unless it is to be
the only one of a phase that has a special handler. -/
lemma Accepted.promised (h : Accepted phase desc rules phase')
    (halone : rules.first = true → rules.last = true → phase.handlers = [] →
      phase.firstHandler = none ∧ phase.lastHandler = none) (later : List HandlerDesc) :
    Promised desc rules (after addStep phase' later) := by
  cases h with
  | sole hfirst hlast hempty =>
    obtain ⟨hf, hl⟩ := halone hfirst hlast hempty
    have hkeep (p : HandlerPhase) (next : HandlerDesc)
        (h : p = { phase with handlers := [desc], isOneHandler := true }) :
        addStep p next = { phase with handlers := [desc], isOneHandler := true } := by
      rw [addStep_closed (by rw [h]), h]
    rw [after_keeps hkeep rfl later]
    exact promised_of_sole (by simp [HandlerPhase.descs, hf, hl])
  | first hfirst hlast hfree =>
    have hkeep (p : HandlerPhase) (next : HandlerDesc) (h : p.firstHandler = some desc) :
        (addStep p next).firstHandler = some desc := by
      rw [addStep_first (by simp [h]), h]
    exact promised_of_first hlast (after_keeps hkeep rfl later)
  | last hfirst hlast hfree =>
    have hkeep (p : HandlerPhase) (next : HandlerDesc) (h : p.lastHandler = some desc) :
        (addStep p next).lastHandler = some desc := by
      rw [addStep_last (by simp [h]), h]
    exact promised_of_last hfirst (after_keeps hkeep rfl later)
  | ordinary hfirst hlast hlist => exact promised_of_ordinary hfirst hlast

/-- A sole handler is alone in the invocations only if there is no special handler. -/
lemma alone_of_promised (hslots : SlotRules phase) (hrules : desc.rules = some rules)
    (hfirst : rules.first = true) (hlast : rules.last = true)
    (h : Promised desc rules { phase with handlers := [desc], isOneHandler := true }) :
    phase.firstHandler = none ∧ phase.lastHandler = none := by
  have hall : ∀ other ∈ HandlerPhase.descs
      { phase with handlers := [desc], isOneHandler := true }, other = desc := by
    intro other hmem
    -- the handlers of all other descriptions are another one
    have hran := h.sole hfirst hlast (fun _ => ⟨false, true⟩) none
      (fun d => ⟨if d = desc then 0 else 1, true⟩) msgCtxCreate
    rw [ranBy_clean] at hran
    have hsame := hran _ (List.mem_map_of_mem hmem)
    simpa using congrArg Handler.id hsame
  constructor
  · by_contra hsome
    obtain ⟨other, hother⟩ := Option.ne_none_iff_exists'.mp hsome
    obtain rfl : other = desc := hall other (by simp [HandlerPhase.descs, hother])
    have := hslots.first other hother rules hrules
    simp [hlast] at this
  · by_contra hsome
    obtain ⟨other, hother⟩ := Option.ne_none_iff_exists'.mp hsome
    obtain rfl : other = desc := hall other (by simp [HandlerPhase.descs, hother])
    have := hslots.last other hother rules hrules
    simp [hfirst] at this

lemma after_create (descs : List HandlerDesc) :
    after recordStep recordCreate descs = (after addStep phaseCreate descs).record :=
  after_record phaseCreate descs

end Runs

/-- In a run on a fresh phase every special handler keeps its place and calls that fail leave
the phase as it is, exactly if no handler that is to be the only one meets a phase with an
empty list that has a first or a last handler. -/
theorem special_handlers_kept_iff (descs : List HandlerDesc) :
    SpecialKept descs ↔ EachCall recordStep recordCreate descs SoleAlone := by
  constructor
  · intro h before desc hpre rules hrules hfirst hlast hhandler
    have hpromised := h.promised before desc [] rules hpre
    rw [after_create] at hpromised ⊢
    have hslots : SlotRules (after addStep phaseCreate before) := slotRules_after before
    rw [after_create, after_append, after_cons, after_nil] at hpromised
    intro hone hempty
    have hsole := addHandlerDesc_sole hone hrules hfirst hlast hhandler hempty
    rw [addStep_ok hsole] at hpromised
    exact alone_of_promised hslots hrules hfirst hlast (hpromised (takes_iff.mpr ⟨_, hsole⟩) hrules)
  · intro h
    constructor
    · intro before desc later rules hpre htakes hrules
      have halone := h before desc (List.IsPrefix.trans ⟨later, by simp⟩ hpre) rules hrules
      rw [after_create] at htakes halone ⊢
      obtain ⟨phase', hadd⟩ := takes_iff.mp htakes
      obtain ⟨hone, hhandler, rules', hrules', haccepted⟩ := addHandlerDesc_accepted hadd
      obtain rfl := Option.some.inj (hrules'.symm.trans hrules)
      rw [after_append, after_cons, addStep_ok hadd]
      exact haccepted.promised
        (fun hfirst hlast hempty => halone hfirst hlast hhandler hone hempty) later
    · intro before desc _ hfails
      rw [after_create] at hfails ⊢
      rw [recordStep_eq]
      cases hadd : addHandlerDesc (after addStep phaseCreate before) desc with
      | ok phase' => exact absurd (takes_iff.mpr ⟨phase', hadd⟩) hfails
      | error e => rw [addStep_error hadd]

/-- The description of a handler with these flags and no other rule. -/
def flagged (name : String) (first last : Bool) : HandlerDesc :=
  ⟨name, some ⟨none, none, first, last⟩, true⟩

/-- A first handler and then one that is to be the only one: both are run. -/
theorem sole_handler_runs_second :
    ranBy (fun _ => ⟨false, true⟩)
        ((after recordStep recordCreate [flagged "first" true false,
          flagged "sole" true true]).phase.withHandlers none
            fun desc => ⟨desc.name.length, desc.hasHandler⟩) msgCtxCreate =
      [⟨5, true⟩, ⟨4, true⟩] ∧
    ¬ ∀ descs, SpecialKept descs := by
  have hran : ranBy (fun _ => ⟨false, true⟩)
      ((after recordStep recordCreate [flagged "first" true false,
        flagged "sole" true true]).phase.withHandlers none
          fun desc => ⟨desc.name.length, desc.hasHandler⟩) msgCtxCreate =
      [⟨5, true⟩, ⟨4, true⟩] := by decide
  refine ⟨hran, fun hall => ?_⟩
  have hpromised := (hall [flagged "first" true false, flagged "sole" true true]).promised
    [flagged "first" true false] (flagged "sole" true true) [] ⟨none, none, true, true⟩
    (List.prefix_refl _) ⟨_, rfl⟩ rfl
  have hfirst := hpromised.sole rfl rfl (fun _ => ⟨false, true⟩) none
    (fun desc => ⟨desc.name.length, desc.hasHandler⟩) msgCtxCreate ⟨5, true⟩
  exact absurd (hfirst (by rw [List.singleton_append, hran]; decide)) (by decide)

end Axis2C.Engine
