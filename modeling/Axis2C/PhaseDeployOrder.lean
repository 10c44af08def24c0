import Axis2C.PhaseEngageGlobally

/-!
# The order of deployment

A service that is deployed after a module was engaged gets its handlers from
`axis2_phase_resolver_build_execution_chains_for_svc`, a service that is there
before from the engagement. The first routine reaches every operation and
reports the status of the last chain only; the second leaves operations out.
-/
namespace Axis2C.Resolver

/-- `axis2_conf_engage_module` for a module description that was found or built. -/
def confEngageModule (enum : Enumeration) (conf : Conf) (moduleDesc : ModuleDesc) : Bool × Conf :=
  if conf.engagedModules.contains moduleDesc.name then (false, conf)
  else
    match engageModuleGlobally enum conf moduleDesc with
    | (false, conf) => (false, conf)
    | (true, conf) =>
      (true, { conf with
        engagedModules := conf.engagedModules ++ [moduleDesc.name]
        getModule := Function.update conf.getModule moduleDesc.name (some moduleDesc) })

/-- The statuses of the calls of `buildChains`. -/
def chainStatuses (modules : List (Option ModuleDesc)) :
    List (ℕ × FlowType) → (ℕ → Op) → List Bool
  | [], _ => []
  | (o, type) :: rest, ops =>
    let (status, op) := buildExecutionChainsForOp modules type (ops o)
    status :: chainStatuses modules rest (Function.update ops o op)

section Chains

variable {modules : List (Option ModuleDesc)} {ops : ℕ → Op}
variable {type : FlowType}

lemma buildChains_status (chains : List (ℕ × FlowType)) (status : Bool) :
    (buildChains modules chains status ops).1 =
      (chainStatuses modules chains ops).getLastD status := by
  induction chains generalizing status ops with
  | nil => rfl
  | cons chain chains ih =>
    rw [buildChains, chainStatuses]
    simp only [ih, List.getLastD_cons]

lemma buildChains_gains {chains : List (ℕ × FlowType)} (status : Bool)
    (h : ∀ built ∈ chainStatuses modules chains ops, built = true) :
    StoreGains ops (buildChains modules chains status ops).2
      (fun o m => (∃ type, (o, type) ∈ chains) ∧ Names modules m)
      fun o type name n => (o, type) ∈ chains ∧ HasHandler modules type name n := by
  induction chains generalizing status ops with
  | nil => exact fun o => by simpa [buildChains] using Gains.refl (ops o)
  | cons chain chains ih =>
    obtain ⟨o, type⟩ := chain
    rw [chainStatuses] at h
    rcases hbuild : buildExecutionChainsForOp modules type (ops o) with ⟨built, op⟩
    simp only [hbuild, List.forall_mem_cons] at h
    obtain ⟨rfl, h⟩ := h
    have hop := StoreGains.update (buildExecutionChainsForOp_gains hbuild)
    have hrest := ih true h
    intro o'
    simp only [buildChains, hbuild]
    refine ((hop o').trans (hrest o')).congr (fun m => ?_) fun type' name n => ?_
    · simp only [List.mem_cons, Prod.mk.injEq, exists_or, exists_and_left, exists_eq]
      tauto
    · simp only [List.mem_cons, Prod.mk.injEq]
      constructor
      · rintro (⟨rfl, rfl, hhas⟩ | ⟨hmem, hhas⟩)
        · exact ⟨Or.inl ⟨rfl, rfl⟩, hhas⟩
        · exact ⟨Or.inr hmem, hhas⟩
      · rintro ⟨⟨rfl, rfl⟩ | hmem, hhas⟩
        · exact Or.inl ⟨rfl, rfl, hhas⟩
        · exact Or.inr ⟨hmem, hhas⟩

def userHandlers (type : FlowType) (moduleDesc : ModuleDesc) : List FlowHandler :=
  ((moduleDesc.flow type).getD []).filter (·.phaseName.any isUserPhase)

/-- The module is known and its handlers in the flow name a phase. -/
def Known (type : FlowType) (found : Option ModuleDesc) : Prop :=
  ∃ moduleDesc, found = some moduleDesc ∧
    ∀ handlers, moduleDesc.flow type = some handlers →
      ∀ handler ∈ handlers, handler.phaseName.isSome = true

/-- The chain of a flow with these phases can be built: the modules are known,
and the phases take their handlers one by one. -/
structure Buildable (modules : List (Option ModuleDesc)) (type : FlowType)
    (phases : Option (List NamedPhase)) : Prop where
  known : ∀ found ∈ modules, Known type found
  accepted : ∀ list, phases = some list →
    (addHandlerList (modules.flatMap fun found => found.elim [] (userHandlers type)) list).1 = true

lemma addToHandlerList_eq {moduleDesc : ModuleDesc} {handlerList : List FlowHandler}
    (h : Known type (some moduleDesc)) :
    addToHandlerList type moduleDesc handlerList =
      some (handlerList ++ userHandlers type moduleDesc) := by
  obtain ⟨_, heq, hnamed⟩ := h
  obtain rfl := Option.some.inj heq
  unfold addToHandlerList userHandlers
  cases hflow : moduleDesc.flow type with
  | none => simp
  | some handlers =>
    have hall : handlers.all (·.phaseName.isSome) = true :=
      List.all_eq_true.mpr (hnamed handlers hflow)
    simp [hall]

lemma addToHandlerList_eq_none {moduleDesc : ModuleDesc} {handlerList : List FlowHandler}
    (h : ¬ Known type (some moduleDesc)) :
    addToHandlerList type moduleDesc handlerList = none := by
  unfold addToHandlerList
  cases hflow : moduleDesc.flow type with
  | none => exact absurd ⟨moduleDesc, rfl, by simp [hflow]⟩ h
  | some handlers =>
    refine if_neg fun hall => h ⟨moduleDesc, rfl, fun handlers' hflow' => ?_⟩
    obtain rfl := Option.some.inj (hflow.symm.trans hflow')
    exact List.all_eq_true.mp hall

lemma addToEngagedModuleList_flow (op : Op) (moduleDesc : ModuleDesc) :
    (op.addToEngagedModuleList moduleDesc).flow = op.flow := by
  unfold Op.addToEngagedModuleList
  split_ifs <;> rfl

lemma collectHandlers_known {type : FlowType} (h : ∀ found ∈ modules, Known type found)
    (handlerList : List FlowHandler) (op : Op) :
    ∃ op', op'.flow = op.flow ∧ collectHandlers type modules handlerList op =
      (some (handlerList ++ modules.flatMap fun found => found.elim [] (userHandlers type)), op') := by
  induction modules generalizing handlerList op with
  | nil => exact ⟨op, rfl, by simp [collectHandlers]⟩
  | cons found rest ih =>
    obtain ⟨hfound, hrest⟩ := List.forall_mem_cons.mp h
    obtain ⟨moduleDesc, rfl, -⟩ := id hfound
    obtain ⟨op', hflow, heq⟩ := ih hrest (handlerList ++ userHandlers type moduleDesc)
      (op.addToEngagedModuleList moduleDesc)
    refine ⟨op', hflow.trans (addToEngagedModuleList_flow op moduleDesc), ?_⟩
    rw [collectHandlers, addToHandlerList_eq hfound]
    simp [heq]

lemma collectHandlers_unknown (h : ¬ ∀ found ∈ modules, Known type found)
    (handlerList : List FlowHandler) (op : Op) :
    ∃ op', op'.flow = op.flow ∧ collectHandlers type modules handlerList op = (none, op') := by
  induction modules generalizing handlerList op with
  | nil => simp at h
  | cons found rest ih =>
    cases found with
    | none => exact ⟨op, rfl, rfl⟩
    | some moduleDesc =>
      by_cases hfound : Known type (some moduleDesc)
      · have hrest : ¬ ∀ found ∈ rest, Known type found :=
          fun hrest => h (List.forall_mem_cons.mpr ⟨hfound, hrest⟩)
        obtain ⟨op', hflow, heq⟩ := ih hrest (handlerList ++ userHandlers type moduleDesc)
          (op.addToEngagedModuleList moduleDesc)
        refine ⟨op', hflow.trans (addToEngagedModuleList_flow op moduleDesc), ?_⟩
        rw [collectHandlers, addToHandlerList_eq hfound]
        exact heq
      · exact ⟨op, rfl, by rw [collectHandlers, addToHandlerList_eq_none hfound]⟩

/-- The call succeeds if the chain can be built, and leaves the other flows. -/
lemma buildExecutionChainsForOp_spec (modules : List (Option ModuleDesc)) (type : FlowType)
    (op : Op) :
    ((buildExecutionChainsForOp modules type op).1 = true ↔
        Buildable modules type (op.flow type)) ∧
      ∀ type', type' ≠ type →
        (buildExecutionChainsForOp modules type op).2.flow type' = op.flow type' := by
  by_cases hknown : ∀ found ∈ modules, Known type found
  · obtain ⟨op', hflow, heq⟩ := collectHandlers_known hknown [] op
    rw [List.nil_append] at heq
    have hiff : Buildable modules type (op.flow type) ↔ ∀ list, op.flow type = some list →
        (addHandlerList (modules.flatMap fun found => found.elim [] (userHandlers type)) list).1 =
          true := ⟨fun h => h.accepted, fun h => ⟨hknown, h⟩⟩
    rw [hiff, ← hflow]
    unfold buildExecutionChainsForOp
    rw [heq]
    generalize modules.flatMap _ = handlers
    cases handlers with
    | nil => exact ⟨by simp [addHandlerList], fun _ _ => rfl⟩
    | cons handler rest =>
      dsimp only
      cases hphases : op'.flow type with
      | none => exact ⟨by simp, fun _ _ => rfl⟩
      | some list => exact ⟨by simp, fun type' hne => by simp [Op.setFlow, setFlow, hne]⟩
  · obtain ⟨op', hflow, heq⟩ := collectHandlers_unknown hknown [] op
    unfold buildExecutionChainsForOp
    rw [heq]
    exact ⟨⟨fun h => by simp at h, fun h => absurd h.known hknown⟩, fun _ _ => by rw [hflow]⟩

/-- No chain has an influence on whether another one can be built. -/
lemma chainStatuses_eq {chains : List (ℕ × FlowType)} (hnodup : chains.Nodup) :
    chainStatuses modules chains ops =
      chains.map fun chain => (buildExecutionChainsForOp modules chain.2 (ops chain.1)).1 := by
  induction chains generalizing ops with
  | nil => rfl
  | cons chain chains ih =>
    obtain ⟨hmem, hnodup⟩ := List.nodup_cons.mp hnodup
    rw [chainStatuses]
    simp only [ih hnodup, List.map_cons, List.cons.injEq, true_and]
    refine List.map_congr_left fun chain' hmem' => ?_
    rw [Bool.eq_iff_iff, (buildExecutionChainsForOp_spec _ _ _).1,
      (buildExecutionChainsForOp_spec _ _ _).1]
    by_cases ho : chain'.1 = chain.1
    · have htype : chain'.2 ≠ chain.2 := fun htype => hmem (Prod.ext ho htype ▸ hmem')
      rw [ho, Function.update_self, (buildExecutionChainsForOp_spec _ _ _).2 _ htype]
    · rw [Function.update_of_ne ho]

lemma nodup_chainsOf (enum : Enumeration) (svc : Svc) : (chainsOf enum svc).Nodup := by
  have hops : (enum.order svc.ops).Nodup := (enum.perm svc.ops).nodup_iff.mpr svc.nodup
  refine List.nodup_flatMap.mpr ⟨fun o _ => ?_, hops.imp fun {o o'} hne => ?_⟩
  · simp [FlowType.all]
  · rw [Function.onFun, List.disjoint_left]
    intro chain hmem hmem'
    obtain ⟨_, -, rfl⟩ := List.mem_map.mp hmem
    obtain ⟨_, -, he⟩ := List.mem_map.mp hmem'
    exact hne (Prod.mk.inj he).1.symm

lemma mem_chainsOf {enum : Enumeration} {svc : Svc} {o : ℕ} :
    (o, type) ∈ chainsOf enum svc ↔ o ∈ svc.ops := by
  simp [chainsOf, FlowType.mem_all, (enum.perm svc.ops).mem_iff]

end Chains

section Deployment

variable (enum : Enumeration) (conf : Conf) (svc : Svc) (moduleDesc : ModuleDesc) (svcs : List Svc)
variable {o : ℕ}

/-- The module is engaged globally, then the service is deployed. -/
def engagedFirst : Conf :=
  (buildExecutionChainsForSvc enum (confEngageModule enum conf moduleDesc).2 svc).2

/-- The service is deployed and stands in the table `svcs` with the others. -/
def deployed : Conf := { (buildExecutionChainsForSvc enum conf svc).2 with svcs := svcs }

/-- The service is deployed, then the module is engaged globally. -/
def deployedFirst : Conf := (engageModuleGlobally enum (deployed enum conf svc svcs) moduleDesc).2

def svcChainStatuses : List Bool :=
  chainStatuses (engagedFor conf svc) (chainsOf enum svc) conf.op

/-- Every handler that is added in one of the two orders is taken. -/
structure AdditionsSucceed : Prop where
  engaged : (confEngageModule enum conf moduleDesc).1 = true
  builtAfter : ∀ built ∈ svcChainStatuses enum (confEngageModule enum conf moduleDesc).2 svc,
    built = true
  built : ∀ built ∈ svcChainStatuses enum conf svc, built = true
  engagedAfter : (engageModuleGlobally enum (deployed enum conf svc svcs) moduleDesc).1 = true

/-- Both orders leave the same handlers in the user phases of the operations. -/
def SameHandlers : Prop :=
  AdditionsSucceed enum conf svc moduleDesc svcs → ∀ o ∈ svc.ops, ∀ type name,
    isSystemPhase name = false → ∀ n,
      n ∈ handlersIn (((engagedFirst enum conf svc moduleDesc).op o).flow type) name ↔
        n ∈ handlersIn (((deployedFirst enum conf svc moduleDesc svcs).op o).flow type) name

def SuccessMeansBuilt : Prop :=
  (buildExecutionChainsForSvc enum conf svc).1 = true →
    ∀ built ∈ svcChainStatuses enum conf svc, built = true

def NewOps : Prop :=
  ∀ o ∈ svc.ops, o ∉ moduleDesc.ops ∧ ∀ svc' ∈ conf.svcs, o ∉ svc'.ops

/-- The operations that list the module when it is engaged behind the service. -/
def listedDeployed (o : ℕ) : Bool :=
  lists moduleDesc conf.op o ||
    (svc.ops.contains o && (engagedFor conf svc).any (·.any (·.name = moduleDesc.name)))

/-- The operation is reached by the engagement behind the deployment, or the
handlers of the module were there before or come with the engaged modules. -/
def Covered (o : ℕ) : Prop :=
  o ∈ reachedOps enum conf moduleDesc svcs (listedDeployed conf svc moduleDesc) ∨
    ∀ type name n, ((conf.op o).flow type).isSome = true → moduleDesc.HasHandler type name n →
      n ∈ handlersIn ((conf.op o).flow type) name ∨ HasHandler (engagedFor conf svc) type name n

/-- The chain of the operation can be built as the operation stands. -/
def ChainBuildable (chain : ℕ × FlowType) : Prop :=
  Buildable (engagedFor conf svc) chain.2 ((conf.op chain.1).flow chain.2)

variable {enum conf svc moduleDesc svcs}

lemma mem_withOps {ops : ℕ → Op} {os : List ℕ} (h : o ∈ (svc.withOps ops os).ops) :
    o ∈ svc.ops ∨ o ∈ os := by
  induction os generalizing svc with
  | nil => exact Or.inl h
  | cons o' os ih =>
    obtain h | h := ih h
    · dsimp only [Svc.addOp] at h
      split at h
      · exact Or.inl h
      · obtain h | h := List.mem_append.mp h
        · exact Or.inl h
        · exact Or.inr (List.mem_singleton.mp h ▸ List.mem_cons_self)
    · exact Or.inr (List.mem_cons_of_mem _ h)

lemma mem_reachedOps {listed : ℕ → Bool} (h : o ∈ reachedOps enum conf moduleDesc svcs listed) :
    (∃ svc ∈ svcs, o ∈ svc.ops) ∨ o ∈ moduleDesc.ops := by
  induction svcs generalizing listed with
  | nil => simp [reachedOps] at h
  | cons svc svcs ih =>
    obtain h | h := List.mem_append.mp h
    · have hmem := (List.takeWhile_prefix _).subset h
      rw [(enum.perm _).mem_iff] at hmem
      exact (mem_withOps hmem).imp_left fun hmem => ⟨svc, List.mem_cons_self, hmem⟩
    · obtain ⟨svc', hsvc', hmem⟩ | hmem := ih h
      · exact Or.inl ⟨svc', List.mem_cons_of_mem _ hsvc', hmem⟩
      · exact Or.inr hmem

/-- What the passes reach depends on the engaged modules and on the names. -/
lemma reachedOps_congr {conf' : Conf} (hname : ∀ o, (conf'.op o).name = (conf.op o).name)
    (hengaged : ∀ svc, engagedFor conf' svc = engagedFor conf svc) (listed : ℕ → Bool) :
    reachedOps enum conf' moduleDesc svcs listed = reachedOps enum conf moduleDesc svcs listed := by
  induction svcs generalizing listed with
  | nil => rfl
  | cons svc svcs ih =>
    have hlisted : listedAt conf' moduleDesc svc listed = listedAt conf moduleDesc svc listed := by
      funext o
      rw [listedAt, listedAt, hengaged]
    simp only [reachedOps, hlisted, Svc.withOps_congr hname, ih]

lemma buildSvc_gains (h : ∀ built ∈ svcChainStatuses enum conf svc, built = true) :
    StoreGains conf.op (buildExecutionChainsForSvc enum conf svc).2.op
      (fun o m => o ∈ svc.ops ∧ Names (engagedFor conf svc) m)
      fun o type name n => o ∈ svc.ops ∧ HasHandler (engagedFor conf svc) type name n := by
  intro o
  refine (buildChains_gains false h o).congr (fun m => ?_) fun type name n => ?_
  · simp only [mem_chainsOf]
    exact and_congr_left fun _ => ⟨fun ⟨_, ho⟩ => ho, fun ho => ⟨.inFlow, ho⟩⟩
  · simp only [mem_chainsOf]

lemma confEngageModule_spec (h : (confEngageModule enum conf moduleDesc).1 = true) :
    moduleDesc.name ∉ conf.engagedModules ∧
      (engageModuleGlobally enum conf moduleDesc).1 = true ∧
      (confEngageModule enum conf moduleDesc).2.op =
        (engageModuleGlobally enum conf moduleDesc).2.op ∧
      engagedFor (confEngageModule enum conf moduleDesc).2 svc =
        conf.engagedModules.map conf.getModule ++ [some moduleDesc] ++
          svc.engagedModules.map some := by
  unfold confEngageModule at h ⊢
  split_ifs at h with hcontains
  have hnot : moduleDesc.name ∉ conf.engagedModules := by simpa using hcontains
  rw [if_neg hcontains]
  rcases hengage : engageModuleGlobally enum conf moduleDesc with ⟨_ | _, conf'⟩
  · simp [hengage] at h
  · obtain ⟨hengaged, hget⟩ : conf'.engagedModules = conf.engagedModules ∧
        conf'.getModule = conf.getModule := by
      unfold engageModuleGlobally at hengage
      split at hengage
      · simp at hengage
      · obtain ⟨-, rfl⟩ := Prod.mk.inj hengage
        exact ⟨rfl, rfl⟩
    refine ⟨hnot, rfl, rfl, ?_⟩
    simp only [engagedFor, hengaged, hget, List.map_append, List.map_cons, List.map_nil,
      Function.update_self]
    refine congrArg (· ++ [some moduleDesc] ++ svc.engagedModules.map some) ?_
    refine List.map_congr_left fun m hm => Function.update_of_ne ?_ _ _
    rintro rfl
    exact hnot hm

/-- A new service is untouched while the module is engaged without it. -/
lemma engagedFirst_mem (hnew : NewOps conf svc moduleDesc)
    (h : AdditionsSucceed enum conf svc moduleDesc svcs) (ho : o ∈ svc.ops) (type : FlowType)
    (name n : String) :
    n ∈ handlersIn (((engagedFirst enum conf svc moduleDesc).op o).flow type) name ↔
      n ∈ handlersIn ((conf.op o).flow type) name ∨ (((conf.op o).flow type).isSome = true ∧
        (HasHandler (engagedFor conf svc) type name n ∨ moduleDesc.HasHandler type name n)) := by
  obtain ⟨-, hstatus, hop, hengagedFor⟩ := @confEngageModule_spec enum conf svc moduleDesc h.engaged
  have hengage := ((engageModuleGlobally_gains hstatus).2 o).flow type
  rw [← hop] at hengage
  have hbuild := (buildSvc_gains h.builtAfter o).flow type
  have hnot : o ∉ reachedOps enum conf moduleDesc conf.svcs (lists moduleDesc conf.op) := by
    intro hmem
    obtain ⟨svc', hsvc', hmem⟩ | hmem := mem_reachedOps hmem
    · exact (hnew o ho).2 svc' hsvc' hmem
    · exact (hnew o ho).1 hmem
  rw [engagedFirst, hbuild.mem, hengage.mem, hengage.isSome, hengagedFor]
  simp only [(hnew o ho).1, hnot, ho, false_and, or_false, and_false, true_and, HasHandler,
    engagedFor, List.mem_append, List.mem_singleton, Option.some.injEq]
  refine or_congr_right (and_congr_right fun _ => ?_)
  constructor
  · rintro ⟨m, (hm | rfl) | hm, hhas⟩
    · exact Or.inl ⟨m, Or.inl hm, hhas⟩
    · exact Or.inr hhas
    · exact Or.inl ⟨m, Or.inr hm, hhas⟩
  · rintro (⟨m, hm | hm, hhas⟩ | hhas)
    · exact ⟨m, Or.inl (Or.inl hm), hhas⟩
    · exact ⟨m, Or.inr hm, hhas⟩
    · exact ⟨moduleDesc, Or.inl (Or.inr rfl), hhas⟩

lemma deployedFirst_mem (hnew : NewOps conf svc moduleDesc)
    (h : AdditionsSucceed enum conf svc moduleDesc svcs) {o : ℕ} (ho : o ∈ svc.ops)
    (type : FlowType) (name n : String) :
    n ∈ handlersIn (((deployedFirst enum conf svc moduleDesc svcs).op o).flow type) name ↔
      n ∈ handlersIn ((conf.op o).flow type) name ∨ (((conf.op o).flow type).isSome = true ∧
        (HasHandler (engagedFor conf svc) type name n ∨
          (o ∈ reachedOps enum conf moduleDesc svcs (listedDeployed conf svc moduleDesc) ∧
            moduleDesc.HasHandler type name n))) := by
  have hstore := buildSvc_gains h.built
  have hbuild := (hstore o).flow type
  have hengage := ((engageModuleGlobally_gains h.engagedAfter).2 o).flow type
  have hlists : lists moduleDesc (deployed enum conf svc svcs).op =
      listedDeployed conf svc moduleDesc := by
    refine hstore.lists_eq fun o' => ?_
    rw [names_iff_any]
    simp
  have hreached : reachedOps enum (deployed enum conf svc svcs) moduleDesc svcs
      (lists moduleDesc (deployed enum conf svc svcs).op) =
        reachedOps enum conf moduleDesc svcs (listedDeployed conf svc moduleDesc) := by
    rw [hlists]
    exact @reachedOps_congr enum conf moduleDesc svcs (deployed enum conf svc svcs)
      hstore.name_eq (fun _ => rfl) _
  rw [deployedFirst, hengage.mem]
  simp only [(hnew o ho).1, false_and, false_or]
  rw [show (deployed enum conf svc svcs).svcs = svcs from rfl, hreached,
    show (deployed enum conf svc svcs).op = (buildExecutionChainsForSvc enum conf svc).2.op from rfl,
    hbuild.mem, hbuild.isSome]
  simp only [ho, true_and]
  tauto

lemma sameHandlers_iff (hnew : NewOps conf svc moduleDesc) :
    SameHandlers enum conf svc moduleDesc svcs ↔
      (AdditionsSucceed enum conf svc moduleDesc svcs →
        ∀ o ∈ svc.ops, Covered enum conf svc moduleDesc svcs o) := by
  refine forall_congr' fun h => forall₂_congr fun o ho => ?_
  simp only [engagedFirst_mem hnew h ho, deployedFirst_mem hnew h ho]
  constructor
  · intro hsame
    by_cases hreached :
        o ∈ reachedOps enum conf moduleDesc svcs (listedDeployed conf svc moduleDesc)
    · exact Or.inl hreached
    · refine Or.inr fun type name n hsome hhas => ?_
      have huser : isSystemPhase name = false := by simpa [isUserPhase] using hhas.1
      have := (hsame type name huser n).mp (Or.inr ⟨hsome, Or.inr hhas⟩)
      simpa [hreached, hsome] using this
  · rintro (hreached | hpresent) type name - n
    · simp [hreached]
    · refine ⟨?_, fun hmem => hmem.imp_right (And.imp_right (Or.imp_right And.right))⟩
      rintro (hmem | ⟨hsome, hhas | hhas⟩)
      · exact Or.inl hmem
      · exact Or.inr ⟨hsome, Or.inl hhas⟩
      · exact (hpresent type name n hsome hhas).imp_right fun hhas => ⟨hsome, Or.inl hhas⟩

lemma svcChainStatuses_eq : svcChainStatuses enum conf svc = (chainsOf enum svc).map fun chain =>
    (buildExecutionChainsForOp (engagedFor conf svc) chain.2 (conf.op chain.1)).1 :=
  chainStatuses_eq (nodup_chainsOf enum svc)

/-- Only the status of the last chain is reported. -/
lemma successMeansBuilt_iff : SuccessMeansBuilt enum conf svc ↔
    ∀ chain, (chainsOf enum svc).getLast? = some chain → ChainBuildable conf svc chain →
      ∀ chain' ∈ chainsOf enum svc, ChainBuildable conf svc chain' := by
  have hall : (∀ built ∈ svcChainStatuses enum conf svc, built = true) ↔
      ∀ chain ∈ chainsOf enum svc, ChainBuildable conf svc chain := by
    rw [svcChainStatuses_eq, List.forall_mem_map]
    exact forall₂_congr fun chain _ => (buildExecutionChainsForOp_spec _ _ _).1
  have hlast : (buildExecutionChainsForSvc enum conf svc).1 = true ↔
      ∃ chain, (chainsOf enum svc).getLast? = some chain ∧ ChainBuildable conf svc chain := by
    have hstatus : (buildExecutionChainsForSvc enum conf svc).1 =
        (svcChainStatuses enum conf svc).getLastD false := buildChains_status _ false
    rw [hstatus, svcChainStatuses_eq, List.getLastD_eq_getLast?, List.getLast?_map]
    cases (chainsOf enum svc).getLast? with
    | none => simp
    | some chain =>
      have := (buildExecutionChainsForOp_spec (engagedFor conf svc) chain.2 (conf.op chain.1)).1
      simpa [ChainBuildable] using this
  rw [SuccessMeansBuilt, hall, hlast]
  exact ⟨fun h chain hchain hbuild => h ⟨chain, hchain, hbuild⟩,
    fun h ⟨chain, hchain, hbuild⟩ => h chain hchain hbuild⟩

end Deployment

section Examples

/-- The module with an operation of its own, the third of the store. -/
def sharedModule : ModuleDesc := { loggingModule with ops := [2] }

def shopSvc : Svc := ⟨[1], by decide, []⟩

/-- A configuration with one service; the operation of the new one is in the store. -/
def oneService : Conf where
  op
    | 0 => userOp "echo" []
    | 1 => userOp "order" []
    | _ => userOp "flush" []
  svcs := [⟨[0], by decide, []⟩]
  getModule _ := some sharedModule
  engagedModules := []
  flow _ := none

def newestFirst : Enumeration := ⟨List.reverse, fun _ => List.reverse_perm _⟩

/-- The module is engaged, and its handler is for a phase that the operations do not have. -/
def missingPhase : Conf where
  op _ := userOp "order" []
  svcs := []
  getModule _ := some { loggingModule with
    flow
      | .inFlow => some [⟨⟨"LoggingInHandler", some ⟨none, none, false, false⟩, true⟩, some "Log"⟩]
      | _ => none }
  engagedModules := ["logging"]
  flow _ := none

end Examples

end Axis2C.Resolver
