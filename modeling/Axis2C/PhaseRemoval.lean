import Axis2C.PhaseEngagement

/-!
# Adding handlers to phases and removing them again

A sequence of handlers that are all taken, or all removed, does to each phase what
those of its name do in turn. Removal searches the list of the phase only, by the
name of the handler and one at a time, so it takes a handler back if the handler
came into the list, at most as often as it is removed.
-/
namespace Axis2C.Engine

/-- The handlers with these names are removed in turn, one for each name. -/
def eraseAll (names : List String) (handlers : List HandlerDesc) : List HandlerDesc :=
  names.foldl (fun handlers name => handlers.eraseP (·.name = name)) handlers

section Names

variable {names : List String} {handlers : List HandlerDesc}

lemma filter_eraseP {erased kept : HandlerDesc → Bool}
    (h : ∀ handler, erased handler = true → kept handler = false) :
    (handlers.eraseP erased).filter kept = handlers.filter kept := by
  induction handlers with
  | nil => rfl
  | cons handler handlers ih =>
    by_cases herased : erased handler = true
    · rw [List.eraseP_cons_of_pos herased, List.filter_cons_of_neg (by simp [h handler herased])]
    · rw [List.eraseP_cons_of_neg herased, List.filter_cons, List.filter_cons, ih]

lemma map_name_eraseP (name : String) :
    (handlers.eraseP (·.name = name)).map HandlerDesc.name =
      (handlers.map HandlerDesc.name).erase name := by
  rw [List.erase_eq_eraseP, List.eraseP_map]
  refine congrArg (fun p => (handlers.eraseP p).map HandlerDesc.name) ?_
  funext handler
  exact decide_eq_decide.mpr eq_comm

/-- Names that are removed at least as often as they occur are gone. -/
lemma eraseAll_eq_filter
    (h : ∀ name ∈ names, (handlers.map HandlerDesc.name).count name ≤ names.count name) :
    eraseAll names handlers = handlers.filter (decide <| ·.name ∉ names) := by
  induction names generalizing handlers with
  | nil => simp [eraseAll]
  | cons name names ih =>
    have hcount : ∀ m ∈ names, ((handlers.eraseP (·.name = name)).map HandlerDesc.name).count m ≤
        names.count m := by
      intro m hm
      have := h m (List.mem_cons_of_mem _ hm)
      rw [map_name_eraseP]
      by_cases hname : m = name
      · subst hname
        rw [List.count_cons_self] at this
        rw [List.count_erase_self]
        omega
      · rw [List.count_cons_of_ne (Ne.symm hname)] at this
        rwa [List.count_erase_of_ne hname]
    have hgone : name ∉ names → ∀ handler ∈ handlers.eraseP (·.name = name),
        handler.name ≠ name := by
      intro hnot handler hmem heq
      have hle := h name List.mem_cons_self
      rw [List.count_cons_self, List.count_eq_zero_of_not_mem hnot] at hle
      have hzero : ((handlers.map HandlerDesc.name).erase name).count name = 0 := by
        rw [List.count_erase_self]
        omega
      rw [← map_name_eraseP] at hzero
      exact List.count_eq_zero.mp hzero (List.mem_map.mpr ⟨handler, hmem, heq⟩)
    calc eraseAll (name :: names) handlers
        = (handlers.eraseP (·.name = name)).filter (decide <| ·.name ∉ names) := ih hcount
      _ = (handlers.eraseP (·.name = name)).filter (decide <| ·.name ∉ name :: names) := by
          refine List.filter_congr fun handler hmem => ?_
          by_cases hnot : name ∈ names
          · by_cases heq : handler.name = name <;> simp [heq, hnot]
          · simp [hgone hnot handler hmem]
      _ = handlers.filter (decide <| ·.name ∉ name :: names) :=
          filter_eraseP fun handler heq => by
            have : handler.name = name := by simpa using heq
            simp [this]

end Names

/-- The call on a phase, with its success. -/
def addOpt (phase : HandlerPhase) (desc : HandlerDesc) : Option HandlerPhase :=
  (addHandlerDesc phase desc).toOption

/-- Handlers with these names were added, all with success. -/
structure Grown (names : List String) (phase phase' : HandlerPhase) : Prop where
  filter : ∀ keep : String → Bool, (∀ name ∈ names, keep name = false) →
    phase'.handlers.filter (keep ·.name) = phase.handlers.filter (keep ·.name)
  count : ∀ name, phase'.names.count name ≤ phase.names.count name + names.count name
  first : phase'.firstHandler = phase.firstHandler ∨
    ∃ name ∈ names, slotNamed phase'.firstHandler name = true
  last : phase'.lastHandler = phase.lastHandler ∨
    ∃ name ∈ names, slotNamed phase'.lastHandler name = true
  order : ∀ name, name ∈ phase'.order ↔ name ∈ phase.order ∨ name ∈ names

section Grown

variable {names : List String} {phase phase' : HandlerPhase} {desc : HandlerDesc}
  {descs : List HandlerDesc}

lemma Added.grown (h : Added phase desc phase') : Grown [desc.name] phase phase' where
  filter keep hkeep := by
    have hfalse : keep desc.name = false := hkeep desc.name List.mem_cons_self
    cases h with
    | inserted l r one h => simp [h, hfalse]
    | _ => rfl
  count name := by
    cases h with
    | inserted l r one h =>
      simp only [HandlerPhase.names, h, List.map_append, List.map_cons, List.count_append,
        List.count_cons, List.count_nil]
      omega
    | _ => exact Nat.le_add_right _ _
  first := by
    cases h with
    | first h => exact Or.inr ⟨desc.name, List.mem_cons_self, by simp [slotNamed]⟩
    | _ => exact Or.inl rfl
  last := by
    cases h with
    | last h => exact Or.inr ⟨desc.name, List.mem_cons_self, by simp [slotNamed]⟩
    | _ => exact Or.inl rfl
  order name := by rw [h.mem_order, List.mem_singleton]

lemma grown_of_adds (h : descs.foldlM addOpt phase = some phase') :
    Grown (descs.map HandlerDesc.name) phase phase' := by
  induction descs generalizing phase with
  | nil =>
    obtain rfl : phase = phase' := by simpa using h
    exact ⟨fun _ _ => rfl, fun _ => Nat.le_add_right _ _, Or.inl rfl, Or.inl rfl, by simp⟩
  | cons desc descs ih =>
    rw [List.foldlM_cons] at h
    obtain ⟨phase₁, hadd, hrest⟩ := Option.bind_eq_some_iff.mp h
    have hadded : Added phase desc phase₁ := by
      unfold addOpt at hadd
      cases hok : addHandlerDesc phase desc with
      | error _ => simp [hok, Except.toOption] at hadd
      | ok _ =>
        rw [hok] at hadd
        obtain rfl := Option.some.inj hadd
        exact addHandlerDesc_added hok
    have hone := hadded.grown
    have hgrown := ih hrest
    refine ⟨fun keep hkeep => ?_, fun name => ?_, ?_, ?_, fun name => ?_⟩
    · rw [List.map_cons, List.forall_mem_cons] at hkeep
      rw [hgrown.filter keep hkeep.2, hone.filter keep (by simpa using hkeep.1)]
    · have := hgrown.count name
      have := hone.count name
      simp only [List.map_cons, List.count_cons, List.count_nil] at *
      omega
    · obtain hfirst | ⟨name, hmem, hname⟩ := hgrown.first
      · obtain hfirst' | ⟨name, hmem, hname⟩ := hone.first
        · exact Or.inl (hfirst.trans hfirst')
        · obtain rfl := List.mem_singleton.mp hmem
          exact Or.inr ⟨desc.name, List.mem_cons_self, hfirst ▸ hname⟩
      · exact Or.inr ⟨name, List.mem_cons_of_mem _ hmem, hname⟩
    · obtain hlast | ⟨name, hmem, hname⟩ := hgrown.last
      · obtain hlast' | ⟨name, hmem, hname⟩ := hone.last
        · exact Or.inl (hlast.trans hlast')
        · obtain rfl := List.mem_singleton.mp hmem
          exact Or.inr ⟨desc.name, List.mem_cons_self, hlast ▸ hname⟩
      · exact Or.inr ⟨name, List.mem_cons_of_mem _ hmem, hname⟩
    · simp [hgrown.order, hone.order, or_assoc]

lemma remove_fold (h : descs.foldlM Resolver.removeHandlerDesc phase = some phase') :
    phase' = { phase with handlers := eraseAll (descs.map HandlerDesc.name) phase.handlers } := by
  induction descs generalizing phase with
  | nil =>
    obtain rfl : phase = phase' := by simpa using h
    rfl
  | cons desc descs ih =>
    rw [List.foldlM_cons] at h
    obtain ⟨phase₁, hremove, hrest⟩ := Option.bind_eq_some_iff.mp h
    unfold Resolver.removeHandlerDesc at hremove
    split_ifs at hremove
    obtain rfl := Option.some.inj hremove
    exact ih hrest

/-- New names that came into the list are taken back. -/
lemma Grown.restored {phase'' : HandlerPhase} (h : Grown (descs.map HandlerDesc.name) phase phase')
    (hremove : descs.foldlM Resolver.removeHandlerDesc phase' = some phase'')
    (hnew : ∀ name ∈ descs.map HandlerDesc.name, name ∉ phase.order)
    (hslots : ∀ name ∈ descs.map HandlerDesc.name, slotNamed phase'.firstHandler name = false ∧
      slotNamed phase'.lastHandler name = false) :
    phase''.firstHandler = phase.firstHandler ∧ phase''.handlers = phase.handlers ∧
      phase''.lastHandler = phase.lastHandler := by
  obtain rfl := remove_fold hremove
  refine ⟨?_, ?_, ?_⟩
  · refine h.first.resolve_right fun ⟨name, hmem, hname⟩ => ?_
    simp [(hslots name hmem).1] at hname
  · have hnot : ∀ name ∈ descs.map HandlerDesc.name, name ∉ phase.names :=
      fun name hmem hname => hnew name hmem (mem_order.mpr (Or.inr (Or.inl hname)))
    have hcount : ∀ name ∈ descs.map HandlerDesc.name,
        (phase'.handlers.map HandlerDesc.name).count name ≤
          (descs.map HandlerDesc.name).count name := by
      intro name hmem
      have := h.count name
      rwa [List.count_eq_zero_of_not_mem (hnot name hmem), Nat.zero_add] at this
    rw [show ({ phase' with handlers := _ } : HandlerPhase).handlers = _ from rfl,
      eraseAll_eq_filter hcount, h.filter (fun name => decide (name ∉ descs.map HandlerDesc.name))
        (fun name hmem => by simpa using hmem)]
    refine List.filter_eq_self.mpr fun handler hmem => ?_
    have hname : handler.name ∈ phase.names := List.mem_map.mpr ⟨handler, hmem, rfl⟩
    simpa using fun hmem' => hnot _ hmem' hname
  · refine h.last.resolve_right fun ⟨name, hmem, hname⟩ => ?_
    simp [(hslots name hmem).2] at hname

end Grown

end Axis2C.Engine

namespace Axis2C.Resolver
open Engine

/-- The first phase of that name is changed by `act`, which may fail. -/
def onFirst (act : HandlerPhase → Option HandlerPhase) (name : String) :
    List NamedPhase → Option (List NamedPhase)
  | [] => none
  | phase :: rest =>
    if phase.name = name then
      (act phase.phase).map fun phase' => { phase with phase := phase' } :: rest
    else (onFirst act name rest).map (phase :: ·)

/-- What adding and removing a handler have in common. -/
def perform (act : HandlerPhase → HandlerDesc → Option HandlerPhase) (phases : List NamedPhase)
    (handler : FlowHandler) : Option (List NamedPhase) :=
  handler.phaseName.bind fun name => onFirst (act · handler.desc) name phases

/-- The descriptions that go into the phase of that name. -/
def named (handlers : List FlowHandler) (name : String) : List HandlerDesc :=
  (handlers.filter (·.phaseName = some name)).map FlowHandler.desc

def phaseOf (phases : List NamedPhase) (name : String) : Option HandlerPhase :=
  (phases.find? (·.name = name)).map NamedPhase.phase

section Perform

variable {act : HandlerPhase → HandlerDesc → Option HandlerPhase} {handlers : List FlowHandler}
  {phases phases' phases'' : List NamedPhase}

lemma phaseHolderAddHandler_eq : phaseHolderAddHandler = perform addOpt := by
  funext phases handler
  unfold phaseHolderAddHandler perform
  cases handler.phaseName with
  | none => rfl
  | some name =>
    induction phases with
    | nil => rfl
    | cons phase phases ih =>
      simp only [Option.bind_some, addToPhases, onFirst, addOpt] at ih ⊢
      rw [ih]
      split_ifs
      · cases addHandlerDesc phase.phase handler.desc <;> rfl
      · rfl

lemma phaseHolderRemoveHandler_eq : phaseHolderRemoveHandler = perform removeHandlerDesc := by
  funext phases handler
  unfold phaseHolderRemoveHandler perform
  cases handler.phaseName with
  | none => rfl
  | some name =>
    induction phases with
    | nil => rfl
    | cons phase phases ih =>
      simp only [Option.bind_some, removeFromPhases, onFirst] at ih ⊢
      rw [ih]
      split_ifs
      · cases removeHandlerDesc phase.phase handler.desc <;> rfl
      · rfl

lemma perform_nil (h : handlers.foldlM (perform act) [] = some phases') :
    handlers = [] ∧ phases' = [] := by
  cases handlers with
  | nil => exact ⟨rfl, by simpa [eq_comm] using h⟩
  | cons handler handlers =>
    rw [List.foldlM_cons] at h
    obtain ⟨phases₁, hact, -⟩ := Option.bind_eq_some_iff.mp h
    obtain ⟨name, -, hact⟩ := Option.bind_eq_some_iff.mp hact
    cases hact

/-- The first phase takes the handlers of its name, the others go to the rest. -/
lemma perform_cons {phase : NamedPhase}
    (h : handlers.foldlM (perform act) (phase :: phases) = some phases') :
    ∃ phase' rest', phases' = ⟨phase.name, phase'⟩ :: rest' ∧
      (named handlers phase.name).foldlM act phase.phase = some phase' ∧
      (handlers.filter (·.phaseName ≠ some phase.name)).foldlM (perform act) phases =
        some rest' := by
  induction handlers generalizing phase phases with
  | nil =>
    obtain rfl : phase :: phases = phases' := by simpa using h
    exact ⟨phase.phase, phases, rfl, rfl, rfl⟩
  | cons handler handlers ih =>
    rw [List.foldlM_cons] at h
    obtain ⟨phases₁, hact, hrest⟩ := Option.bind_eq_some_iff.mp h
    obtain ⟨name, hname, hact⟩ := Option.bind_eq_some_iff.mp hact
    rw [onFirst] at hact
    split_ifs at hact with heq
    · obtain ⟨phase₁, hphase, rfl⟩ := Option.map_eq_some_iff.mp hact
      obtain ⟨phase', rest', rfl, hnamed, hothers⟩ := ih hrest
      subst heq
      refine ⟨phase', rest', rfl, ?_, ?_⟩
      · rw [named, List.filter_cons_of_pos (by simp [hname]), List.map_cons, List.foldlM_cons,
          hphase]
        exact hnamed
      · rwa [List.filter_cons_of_neg (by simp [hname])]
    · obtain ⟨phases₂, hphases, rfl⟩ := Option.map_eq_some_iff.mp hact
      obtain ⟨phase', rest', rfl, hnamed, hothers⟩ := ih hrest
      refine ⟨phase', rest', rfl, ?_, ?_⟩
      · rwa [named, List.filter_cons_of_neg (by simp [hname, Ne.symm heq])]
      · rw [List.filter_cons_of_pos (by simp [hname, Ne.symm heq]), List.foldlM_cons]
        simp only [perform, hname, Option.bind_some, hphases]
        exact hothers

lemma named_filter_ne {name name' : String} (h : name' ≠ name) :
    named (handlers.filter (·.phaseName ≠ some name)) name' = named handlers name' := by
  rw [named, named, List.filter_filter]
  refine congrArg (List.map FlowHandler.desc) (List.filter_congr fun handler _ => ?_)
  by_cases hname : handler.phaseName = some name' <;> simp [hname, h]

/-- Each phase that is found by its name takes the handlers of this name. -/
lemma perform_phaseOf (h : handlers.foldlM (perform act) phases = some phases') (name : String) :
    (∀ phase, phaseOf phases name = some phase → ∃ phase', phaseOf phases' name = some phase' ∧
      (named handlers name).foldlM act phase = some phase') ∧
    (phaseOf phases name = none → phaseOf phases' name = none ∧ named handlers name = []) := by
  induction phases generalizing handlers phases' with
  | nil =>
    obtain ⟨rfl, rfl⟩ := perform_nil h
    exact ⟨fun _ h => by simp [phaseOf] at h, fun _ => ⟨rfl, rfl⟩⟩
  | cons phase phases ih =>
    obtain ⟨phase', rest', rfl, hnamed, hothers⟩ := perform_cons h
    by_cases hname : phase.name = name
    · subst hname
      refine ⟨fun phase₀ hphase => ⟨phase', by simp [phaseOf], ?_⟩, fun hnone => ?_⟩
      · obtain rfl : phase.phase = phase₀ := by simpa [phaseOf] using hphase
        exact hnamed
      · simp [phaseOf] at hnone
    · have := ih hothers
      rw [named_filter_ne (Ne.symm hname)] at this
      simpa [phaseOf, hname] using this

lemma handlersIn_eq (phases : List NamedPhase) (name : String) :
    handlersIn (some phases) name = (phaseOf phases name).elim [] HandlerPhase.order := by
  unfold handlersIn phaseOf
  rw [Option.bind_some]
  cases phases.find? (·.name = name) <;> rfl

def handlerLists (phases : List NamedPhase) :
    List (String × Option HandlerDesc × List HandlerDesc × Option HandlerDesc) :=
  phases.map fun phase =>
    (phase.name, phase.phase.firstHandler, phase.phase.handlers, phase.phase.lastHandler)

/-- Handlers with new names that went into the lists are taken back by removing them. -/
lemma handlerLists_restored
    (hadd : handlers.foldlM phaseHolderAddHandler phases = some phases')
    (hremove : handlers.foldlM phaseHolderRemoveHandler phases' = some phases'')
    (hnew : ∀ name, ∀ desc ∈ named handlers name, desc.name ∉ handlersIn (some phases) name)
    (hslots : ∀ name, ∀ desc ∈ named handlers name, ∀ phase, phaseOf phases' name = some phase →
      slotNamed phase.firstHandler desc.name = false ∧
        slotNamed phase.lastHandler desc.name = false) :
    handlerLists phases'' = handlerLists phases := by
  rw [phaseHolderAddHandler_eq] at hadd
  rw [phaseHolderRemoveHandler_eq] at hremove
  induction phases generalizing handlers phases' phases'' with
  | nil =>
    obtain ⟨rfl, rfl⟩ := perform_nil hadd
    obtain ⟨-, rfl⟩ := perform_nil hremove
    rfl
  | cons phase phases ih =>
    obtain ⟨phase', rest', rfl, hadded, hrest⟩ := perform_cons hadd
    obtain ⟨phase'', rest'', rfl, hremoved, hrest'⟩ := perform_cons hremove
    have hphase := (grown_of_adds hadded).restored hremoved
      (by
        intro name hmem
        obtain ⟨desc, hdesc, rfl⟩ := List.mem_map.mp hmem
        simpa [handlersIn_eq, phaseOf] using hnew phase.name desc hdesc)
      (by
        intro name hmem
        obtain ⟨desc, hdesc, rfl⟩ := List.mem_map.mp hmem
        exact hslots phase.name desc hdesc phase' (by simp [phaseOf]))
    have hne : ∀ name, ∀ desc ∈ named (handlers.filter (·.phaseName ≠ some phase.name)) name,
        phase.name ≠ name := by
      rintro name desc hdesc rfl
      obtain ⟨handler, hmem, -⟩ := List.mem_map.mp hdesc
      simp only [List.mem_filter, decide_eq_true_eq] at hmem
      exact hmem.1.2 hmem.2
    have hothers : handlerLists rest'' = handlerLists phases := by
      refine ih hrest hrest' (fun name desc hdesc => ?_) fun name desc hdesc phase₁ hphase₁ => ?_
      · have hname := hne name desc hdesc
        rw [named_filter_ne (Ne.symm hname)] at hdesc
        simpa [handlersIn_eq, phaseOf, hname] using hnew name desc hdesc
      · have hname := hne name desc hdesc
        rw [named_filter_ne (Ne.symm hname)] at hdesc
        exact hslots name desc hdesc phase₁ (by simpa [phaseOf, hname] using hphase₁)
    unfold handlerLists at hothers ⊢
    rw [List.map_cons, List.map_cons, hothers, hphase.1, hphase.2.1, hphase.2.2]

end Perform

end Axis2C.Resolver
