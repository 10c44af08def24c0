import Axis2C.PhaseGains

/-!
# Engaging a module globally

The flag that says that an operation already lists the module is never taken
back in the loop over the operations of a service: the first operation that
lists the module ends the pass. The operations of a module are shared by the
services, so from the second service on they list it. What the call leaves is
computed here from the configuration it is given.
-/
namespace Axis2C.Resolver

lemma FlowType.mem_all (type : FlowType) : type ∈ FlowType.all := by
  cases type <;> simp [FlowType.all]

def StoreGains (ops ops' : ℕ → Op) (lists : ℕ → String → Prop)
    (added : ℕ → FlowType → String → String → Prop) : Prop :=
  ∀ o, Gains (ops o) (ops' o) (lists o) (added o)

def lists (moduleDesc : ModuleDesc) (ops : ℕ → Op) (o : ℕ) : Bool :=
  (ops o).engagedModules.contains moduleDesc.name

section Store

variable {ops ops' ops'' : ℕ → Op} {moduleDesc : ModuleDesc}
variable {os : List ℕ}

lemma StoreGains.update {o : ℕ} {op : Op} {lists : String → Prop}
    {added : FlowType → String → String → Prop} (h : Gains (ops o) op lists added) :
    StoreGains ops (Function.update ops o op) (fun o' m => o' = o ∧ lists m)
      fun o' type name n => o' = o ∧ added type name n := by
  intro o'
  by_cases ho : o' = o
  · subst ho
    simpa using h
  · simpa [ho] using Gains.refl (ops o')

/-- The operations of `os` gain the same, one behind the other. -/
lemma StoreGains.cons {o : ℕ} {os : List ℕ} {op : Op} {lists : String → Prop}
    {added : FlowType → String → String → Prop} (h : Gains (ops o) op lists added)
    (h' : StoreGains (Function.update ops o op) ops' (fun o' m => o' ∈ os ∧ lists m)
      fun o' type name n => o' ∈ os ∧ added type name n) :
    StoreGains ops ops' (fun o' m => o' ∈ o :: os ∧ lists m)
      fun o' type name n => o' ∈ o :: os ∧ added type name n := by
  intro o'
  refine ((StoreGains.update h o').trans (h' o')).congr (fun m => ?_) fun type name n => ?_
  · simp [or_and_right]
  · simp [or_and_right]

lemma StoreGains.name_eq {lists : ℕ → String → Prop}
    {added : ℕ → FlowType → String → String → Prop} (h : StoreGains ops ops' lists added) (o : ℕ) :
    (ops' o).name = (ops o).name :=
  (h o).name

/-- Once an operation lists the module the pass changes nothing. -/
lemma addModuleHandlersToOps_engaged (os : List ℕ) :
    addModuleHandlersToOps moduleDesc os true ops = (true, ops) := by
  induction os with
  | nil => rfl
  | cons o os ih => simpa [addModuleHandlersToOps] using ih

/-- The operations that the pass over `os` comes to. -/
def reachedIn (listed : ℕ → Bool) (os : List ℕ) : List ℕ := os.takeWhile (!listed ·)

lemma reachedIn_listed {listed : ℕ → Bool} {o : ℕ} (h : listed o = true) (os : List ℕ) :
    reachedIn listed (o :: os) = [] := by
  simp [reachedIn, h]

lemma reachedIn_cons {listed : ℕ → Bool} {o : ℕ} (h : listed o = false) (os : List ℕ) :
    reachedIn listed (o :: os) = o :: reachedIn listed os := by
  simp [reachedIn, h]

lemma reachedIn_congr {listed listed' : ℕ → Bool} (h : ∀ o ∈ os, listed o = listed' o) :
    reachedIn listed os = reachedIn listed' os := by
  induction os with
  | nil => rfl
  | cons o os ih =>
    rw [reachedIn, reachedIn, List.takeWhile_cons, List.takeWhile_cons, h o List.mem_cons_self]
    rw [← reachedIn, ← reachedIn, ih fun o' ho' => h o' (List.mem_cons_of_mem _ ho')]

lemma addModuleHandlersToOps_gains (hnodup : os.Nodup)
    (h : addModuleHandlersToOps moduleDesc os false ops = (true, ops')) :
    StoreGains ops ops'
      (fun o m => o ∈ reachedIn (lists moduleDesc ops) os ∧ m = moduleDesc.name)
      fun o type name n => o ∈ reachedIn (lists moduleDesc ops) os ∧
        moduleDesc.HasHandler type name n := by
  induction os generalizing ops with
  | nil =>
    obtain rfl : ops = ops' := (Prod.mk.inj h).2
    exact fun o => by simpa [reachedIn] using Gains.refl (ops o)
  | cons o os ih =>
    obtain ⟨ho, hnodup⟩ := List.nodup_cons.mp hnodup
    rw [addModuleHandlersToOps] at h
    by_cases hlists : lists moduleDesc ops o = true
    · have hcontains : (ops o).engagedModules.contains moduleDesc.name = true := hlists
      simp only [hcontains, Bool.or_true, if_true, addModuleHandlersToOps_engaged] at h
      obtain rfl : ops = ops' := (Prod.mk.inj h).2
      rw [reachedIn_listed hlists]
      exact fun o' => by simpa using Gains.refl (ops o')
    · have hfalse : (ops o).engagedModules.contains moduleDesc.name = false := by
        simpa [lists] using hlists
      simp only [hfalse, Bool.or_false, Bool.false_eq_true, if_false] at h
      rcases hadd : addModuleHandlersToOp moduleDesc FlowType.all (ops o) with ⟨_ | _, op⟩
      · simp [hadd] at h
      · simp only [hadd] at h
        have hop : Gains (ops o) (op.addToEngagedModuleList moduleDesc)
            (fun m => m = moduleDesc.name) moduleDesc.HasHandler := by
          refine ((addModuleHandlersToOp_gains hadd).trans
            (gains_addToEngagedModuleList op moduleDesc)).congr (fun m => by simp) ?_
          intro type name n
          simp [FlowType.mem_all]
        -- The other operations list the module exactly when they did.
        have hrest : reachedIn (lists moduleDesc
            (Function.update ops o (op.addToEngagedModuleList moduleDesc))) os =
              reachedIn (lists moduleDesc ops) os := by
          refine reachedIn_congr fun o' ho' => ?_
          have hne : o' ≠ o := fun he => ho (he ▸ ho')
          simp [lists, hne]
        rw [reachedIn_cons (Bool.eq_false_of_not_eq_true hlists), ← hrest]
        exact StoreGains.cons hop (ih hnodup h)

/-- The service with the operations of the module in its table. -/
def Svc.withOps (svc : Svc) (ops : ℕ → Op) (os : List ℕ) : Svc :=
  os.foldl (fun svc o => svc.addOp ops o) svc

lemma Svc.addOp_congr (h : ∀ o, (ops' o).name = (ops o).name) (svc : Svc) (o : ℕ) :
    svc.addOp ops' o = svc.addOp ops o := by
  unfold Svc.addOp
  simp only [h]

lemma Svc.withOps_congr (h : ∀ o, (ops' o).name = (ops o).name) (svc : Svc) (os : List ℕ) :
    svc.withOps ops' os = svc.withOps ops os := by
  unfold Svc.withOps
  simp only [Svc.addOp_congr h]

lemma addModuleOps_gains {modules : List (Option ModuleDesc)} {svc svc' : Svc}
    (h : addModuleOps modules os svc ops = (true, svc', ops')) :
    svc' = svc.withOps ops os ∧
      StoreGains ops ops' (fun o m => o ∈ os ∧ Names modules m)
        fun o type name n => o ∈ os ∧ HasHandler modules type name n := by
  induction os generalizing svc ops with
  | nil =>
    obtain ⟨rfl, rfl⟩ := Prod.mk.inj (Prod.mk.inj h).2
    exact ⟨rfl, fun o => by simpa using Gains.refl (ops o)⟩
  | cons o os ih =>
    rw [addModuleOps] at h
    rcases hbuild : buildExecutionChainsForModuleOp modules FlowType.all (ops o) with ⟨_ | _, op⟩
    · simp [hbuild] at h
    · simp only [hbuild] at h
      have hop : Gains (ops o) op (Names modules) (HasHandler modules) := by
        refine (buildExecutionChainsForModuleOp_gains hbuild).congr (fun m => ?_) ?_
        · simp [FlowType.all]
        · intro type name n
          simp [FlowType.mem_all]
      have hname := (StoreGains.update hop).name_eq
      obtain ⟨rfl, hstore⟩ := ih h
      refine ⟨?_, StoreGains.cons hop hstore⟩
      rw [Svc.withOps_congr hname, Svc.addOp_congr hname]
      rfl

end Store

/-- Which operations list the module when the pass over a service begins: an
operation of the module also when the module is one of those engaged for the service. -/
def listedAt (conf : Conf) (moduleDesc : ModuleDesc) (svc : Svc) (listed : ℕ → Bool) (o : ℕ) :
    Bool :=
  listed o ||
    (moduleDesc.ops.contains o && (engagedFor conf svc).any (·.any (·.name = moduleDesc.name)))

/-- The operations that the passes over the services come to, from what the
operations list before. -/
def reachedOps (enum : Enumeration) (conf : Conf) (moduleDesc : ModuleDesc) :
    List Svc → (ℕ → Bool) → List ℕ
  | [], _ => []
  | svc :: rest, listed =>
    let listed := listedAt conf moduleDesc svc listed
    let reached := reachedIn listed (enum.order (svc.withOps conf.op moduleDesc.ops).ops)
    reached ++ reachedOps enum conf moduleDesc rest fun o => listed o || reached.contains o

section Services

variable {enum : Enumeration} {conf : Conf} {moduleDesc : ModuleDesc} {ops ops' : ℕ → Op}

lemma names_iff_any {modules : List (Option ModuleDesc)} {m : String} :
    Names modules m ↔ modules.any (·.any (·.name = m)) = true := by
  simp only [Names, List.any_eq_true, Option.any_eq_true, decide_eq_true_eq]
  constructor
  · rintro ⟨found, hmem, hname⟩
    exact ⟨some found, hmem, found, rfl, hname⟩
  · rintro ⟨_, hmem, found, rfl, hname⟩
    exact ⟨found, hmem, hname⟩

lemma StoreGains.lists_eq {news : ℕ → String → Prop}
    {added : ℕ → FlowType → String → String → Prop} (h : StoreGains ops ops' news added)
    {new : ℕ → Bool} (hnew : ∀ o, news o moduleDesc.name ↔ new o = true) :
    Resolver.lists moduleDesc ops' = fun o => Resolver.lists moduleDesc ops o || new o := by
  funext o
  rw [Bool.eq_iff_iff, Bool.or_eq_true, ← hnew]
  simpa [Resolver.lists] using (h o).lists moduleDesc.name

/-- The gains of one service and of the rest, built first and reached second. -/
lemma turn_iff {op built built' reached reached' new : Prop} :
    (op ∧ built ∨ reached ∧ new) ∨ op ∧ built' ∨ reached' ∧ new ↔
      op ∧ (built ∨ built') ∨ (reached ∨ reached') ∧ new := by
  tauto

/-- What the loop over the services leaves. -/
lemma engageModuleToSvcs_gains {svcs svcs' : List Svc}
    (hname : ∀ o, (ops o).name = (conf.op o).name)
    (h : engageModuleToSvcs enum conf moduleDesc svcs ops = (true, svcs', ops')) :
    svcs' = svcs.map (·.withOps conf.op moduleDesc.ops) ∧
      StoreGains ops ops'
        (fun o m => (o ∈ moduleDesc.ops ∧ ∃ svc ∈ svcs, Names (engagedFor conf svc) m) ∨
          (o ∈ reachedOps enum conf moduleDesc svcs (lists moduleDesc ops) ∧ m = moduleDesc.name))
        fun o type name n =>
          (o ∈ moduleDesc.ops ∧ ∃ svc ∈ svcs, HasHandler (engagedFor conf svc) type name n) ∨
          (o ∈ reachedOps enum conf moduleDesc svcs (lists moduleDesc ops) ∧
            moduleDesc.HasHandler type name n) := by
  induction svcs generalizing ops svcs' with
  | nil =>
    obtain ⟨rfl, rfl⟩ := Prod.mk.inj (Prod.mk.inj h).2
    exact ⟨rfl, fun o => by simpa [reachedOps] using Gains.refl (ops o)⟩
  | cons svc svcs ih =>
    rw [engageModuleToSvcs] at h
    rcases hops : svcAddModuleOps conf moduleDesc svc ops with ⟨_ | _, svc₁, ops₁⟩
    · simp [hops] at h
    · simp only [hops] at h
      obtain ⟨hsvc, hbuilt⟩ := addModuleOps_gains hops
      rw [Svc.withOps_congr hname] at hsvc
      rcases hpass : addModuleHandlersToUserDefinedPhases enum svc₁ moduleDesc ops₁
        with ⟨_ | _, ops₂⟩
      · simp [hpass] at h
      · simp only [hpass] at h
        rcases hrest : engageModuleToSvcs enum conf moduleDesc svcs ops₂
          with ⟨status, svcs₂, ops₃⟩
        simp only [hrest, Prod.mk.injEq] at h
        obtain ⟨rfl, rfl, rfl⟩ := h
        have hnodup : (enum.order svc₁.ops).Nodup :=
          (enum.perm svc₁.ops).nodup_iff.mpr svc₁.nodup
        have hpassed := addModuleHandlersToOps_gains hnodup hpass
        have hlisted₁ : lists moduleDesc ops₁ =
            listedAt conf moduleDesc svc (lists moduleDesc ops) := by
          refine hbuilt.lists_eq fun o => ?_
          rw [names_iff_any]
          simp
        have hlisted₂ : lists moduleDesc ops₂ = fun o => lists moduleDesc ops₁ o ||
            (reachedIn (lists moduleDesc ops₁) (enum.order svc₁.ops)).contains o := by
          refine hpassed.lists_eq fun o => ?_
          rw [List.contains_iff_mem]
          exact and_iff_left rfl
        obtain ⟨hsvcs, hstore⟩ := ih (fun o => by
          rw [hpassed.name_eq, hbuilt.name_eq, hname]) hrest
        refine ⟨by rw [hsvcs, hsvc]; rfl, fun o => ?_⟩
        rw [hlisted₂, hlisted₁, hsvc] at hstore
        rw [hlisted₁, hsvc] at hpassed
        refine (((hbuilt o).trans (hpassed o)).trans (hstore o)).congr (fun m => ?_) ?_
        · simp only [reachedOps, List.mem_append, List.exists_mem_cons_iff]
          exact turn_iff
        · intro type name n
          simp only [reachedOps, List.mem_append, List.exists_mem_cons_iff]
          exact turn_iff

/-- The operation lists the module and every handler of the module for a phase
that is not a system phase is in the phase of that name. -/
def Engaged (moduleDesc : ModuleDesc) (op : Op) : Prop :=
  moduleDesc.name ∈ op.engagedModules ∧
    ∀ type phases handlers, op.flow type = some phases → moduleDesc.flow type = some handlers →
      ∀ handler ∈ handlers, ∀ name, handler.phaseName = some name → isSystemPhase name = false →
        handler.desc.name ∈ handlersIn (some phases) name

def EngagedEverywhere (moduleDesc : ModuleDesc) (conf : Conf) : Prop :=
  ∀ svc ∈ conf.svcs, ∀ o ∈ svc.ops, Engaged moduleDesc (conf.op o)

/-- The operation lists the module and has its handlers without being reached:
from the beginning or, for an operation of the module, from the modules engaged
for some service. -/
structure Provided (conf : Conf) (moduleDesc : ModuleDesc) (o : ℕ) : Prop where
  listed : moduleDesc.name ∈ (conf.op o).engagedModules ∨
    (o ∈ moduleDesc.ops ∧ ∃ svc ∈ conf.svcs, Names (engagedFor conf svc) moduleDesc.name)
  present : ∀ type name n, ((conf.op o).flow type).isSome = true →
    moduleDesc.HasHandler type name n → n ∈ handlersIn ((conf.op o).flow type) name ∨
      (o ∈ moduleDesc.ops ∧ ∃ svc ∈ conf.svcs, HasHandler (engagedFor conf svc) type name n)

lemma engaged_iff {op : Op} : Engaged moduleDesc op ↔
    moduleDesc.name ∈ op.engagedModules ∧ ∀ type name n, (op.flow type).isSome = true →
      moduleDesc.HasHandler type name n → n ∈ handlersIn (op.flow type) name := by
  refine and_congr_right fun _ => ⟨fun h type name n hsome hhas => ?_, fun h => ?_⟩
  · obtain ⟨phases, hphases⟩ := Option.isSome_iff_exists.mp hsome
    obtain ⟨huser, handlers, hhandlers, handler, hmem, hname, rfl⟩ := hhas
    rw [hphases]
    exact h type phases handlers hphases hhandlers handler hmem name hname
      (by simpa [isUserPhase] using huser)
  · intro type phases handlers hphases hhandlers handler hmem name hname hsystem
    rw [← hphases]
    exact h type name _ (by simp [hphases])
      ⟨by simp [isUserPhase, hsystem], handlers, hhandlers, handler, hmem, hname, rfl⟩

lemma engageModuleGlobally_gains (h : (engageModuleGlobally enum conf moduleDesc).1 = true) :
    (engageModuleGlobally enum conf moduleDesc).2.svcs =
        conf.svcs.map (·.withOps conf.op moduleDesc.ops) ∧
      StoreGains conf.op (engageModuleGlobally enum conf moduleDesc).2.op
        (fun o m => (o ∈ moduleDesc.ops ∧ ∃ svc ∈ conf.svcs, Names (engagedFor conf svc) m) ∨
          (o ∈ reachedOps enum conf moduleDesc conf.svcs (lists moduleDesc conf.op) ∧
            m = moduleDesc.name))
        fun o type name n =>
          (o ∈ moduleDesc.ops ∧ ∃ svc ∈ conf.svcs, HasHandler (engagedFor conf svc) type name n) ∨
          (o ∈ reachedOps enum conf moduleDesc conf.svcs (lists moduleDesc conf.op) ∧
            moduleDesc.HasHandler type name n) := by
  unfold engageModuleGlobally at h ⊢
  rcases hsystem : addModuleHandlersToSystemDefinedPhases moduleDesc FlowType.all conf.flow
    with ⟨_ | _, flow⟩
  · simp [hsystem] at h
  · rcases hsvcs : engageModuleToSvcs enum conf moduleDesc conf.svcs conf.op
      with ⟨status, svcs, ops⟩
    simp only [hsystem, hsvcs] at h ⊢
    subst h
    exact engageModuleToSvcs_gains (fun _ => rfl) hsvcs

end Services

section Examples

/-- A module with a handler of the in flow for the phase of the user. -/
def loggingModule : ModuleDesc where
  name := "logging"
  flow
    | .inFlow => some [⟨⟨"LoggingInHandler", some ⟨none, none, false, false⟩, true⟩, some "User"⟩]
    | _ => none
  ops := []

def userOp (name : String) (engagedModules : List String) : Op where
  name := name
  flow
    | .inFlow => some [⟨"User", Engine.phaseCreate⟩]
    | _ => none
  engagedModules := engagedModules

/-- One service with two operations, of which the first lists `modules`. -/
def twoOps (modules : List String) : Conf where
  op
    | 0 => userOp "echo" modules
    | _ => userOp "version" []
  svcs := [⟨[0, 1], by decide, []⟩]
  getModule _ := some loggingModule
  engagedModules := []
  flow _ := none

def insertionOrder : Enumeration := ⟨id, fun _ => List.Perm.refl _⟩

end Examples

end Axis2C.Resolver
