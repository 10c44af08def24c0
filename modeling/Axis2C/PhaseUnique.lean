import Axis2C.CallRuns
import Axis2C.PhaseGains
import Axis2C.PhaseRemoval

/-!
# No handler twice

Handlers are added to a phase and removed from it. `axis2_phase_add_unique` leaves out a
handler of a name that is in the list, but a handler that is put in front of another one, or
behind one that is not the last, goes in unchecked, and neither the first nor the last handler
of the phase is compared with the name or removed.
-/
namespace Axis2C.Engine
open CallRuns

section Calls

/-- A call that adds a handler to a phase or removes one. -/
inductive PhaseCall
  | addHandlerDesc (desc : HandlerDesc)
  | addHandler (desc : HandlerDesc)
  | removeHandlerDesc (desc : HandlerDesc)
  deriving Repr, DecidableEq

/-- `axis2_phase_add_handler`. -/
def addHandler (phase : HandlerPhase) (desc : HandlerDesc) : HandlerPhase := addUnique phase desc

def phaseCall (phase : HandlerPhase) : PhaseCall → Bool × HandlerPhase
  | .addHandlerDesc desc =>
    match addHandlerDesc phase desc with
    | .ok phase' => (true, phase')
    | .error _ => (false, phase)
  | .addHandler desc => (true, addHandler phase desc)
  | .removeHandlerDesc desc =>
    match Resolver.removeHandlerDesc phase desc with
    | some phase' => (true, phase')
    | none => (false, phase)

def phaseStep (phase : HandlerPhase) (call : PhaseCall) : HandlerPhase := (phaseCall phase call).2

/-- After the call no two handlers of the phase have one name, and if it removed a handler,
none of that name is left. -/
structure KeepsOnce (phase : HandlerPhase) (call : PhaseCall) : Prop where
  once : (phaseStep phase call).order.Nodup
  removed : ∀ desc, call = .removeHandlerDesc desc → (phaseCall phase call).1 = true →
    desc.name ∉ (phaseStep phase call).order

end Calls

section Conditions

def HandlerPhase.slots (phase : HandlerPhase) : List String := phase.front ++ phase.back

def PhaseRule.Refused (phase : HandlerPhase) (rules : PhaseRule) : Prop :=
  if rules.first = true ∧ rules.last = true then phase.handlers ≠ []
  else if rules.first = true then
    phase.firstHandler.isSome ∨ rules.before.isSome ∨ rules.after.isSome
  else if rules.last = true then
    phase.lastHandler.isSome ∨ rules.before.isSome ∨ rules.after.isSome
  else
    (∃ after ∈ rules.after, after ∈ phase.back) ∨ (∃ before ∈ rules.before, before ∈ phase.front) ∨
      ∃ before ∈ rules.before, ∃ after ∈ rules.after, Precedes before after phase.names

def PhaseRule.ToEnd (phase : HandlerPhase) (rules : PhaseRule) : Prop :=
  rules.first = false ∧ rules.last = false ∧
    match rules.before, rules.after with
    | none, none => True
    | some before, none => before ∉ phase.names
    | none, some after => phase.names.getLast? = some after
    | some before, some after =>
      before ∉ phase.names ∨ after ∉ phase.names ∨ phase.names.getLast? = some after

/-- What keeps the handlers of a phase apart. -/
def PhaseCall.Meets (phase : HandlerPhase) : PhaseCall → Prop
  | .addHandlerDesc desc =>
    desc.name ∉ phase.order ∨ phase.isOneHandler = true ∨ desc.hasHandler = false ∨
      ∀ rules ∈ desc.rules, rules.Refused phase ∨ (desc.name ∈ phase.names ∧ rules.ToEnd phase)
  | .addHandler desc => desc.name ∉ phase.slots
  | .removeHandlerDesc desc => desc.hasHandler = true → desc.name ∉ phase.slots

end Conditions

section Once

variable {phase phase' : HandlerPhase} {desc : HandlerDesc} {rules : PhaseRule}
variable {name : String}

lemma mem_slots_or_names (h : desc.name ∈ phase.order) :
    desc.name ∈ phase.slots ∨ desc.name ∈ phase.names := by
  rw [order_eq] at h
  simp only [HandlerPhase.slots, List.mem_append] at h ⊢
  tauto

lemma not_mem_slots (hnodup : phase.order.Nodup) (h : name ∈ phase.names) :
    name ∉ phase.slots := by
  rw [order_eq] at hnodup
  rw [HandlerPhase.slots]
  simp only [List.nodup_append, List.mem_append] at hnodup ⊢
  rintro (hfront | hback)
  · exact hnodup.1.2.2 _ hfront _ h rfl
  · exact hnodup.2.2 _ (Or.inr h) _ hback rfl

/-- A handler put into the list is there once if its name is new. -/
lemma InsertedAt.nodup_iff {l r : List HandlerDesc} (h : InsertedAt phase phase' desc l r)
    (hnodup : phase.order.Nodup) : phase'.order.Nodup ↔ desc.name ∉ phase.order := by
  rw [h.order.1] at hnodup
  rw [h.order.1, h.order.2, List.nodup_middle, List.nodup_cons]
  exact and_iff_left hnodup

lemma addUnique_nodup_iff (hnodup : phase.order.Nodup) :
    (addUnique phase desc).order.Nodup ↔ desc.name ∉ phase.slots := by
  by_cases hnames : desc.name ∈ phase.names
  · have hsame : addUnique phase desc = phase := by
      rw [addUnique, if_pos]
      simpa [HandlerPhase.names] using hnames
    rw [hsame]
    exact iff_of_true hnodup (not_mem_slots hnodup hnames)
  · rw [(addUnique_inserted hnames).nodup_iff hnodup]
    have horder : desc.name ∈ phase.order ↔ desc.name ∈ phase.slots := by
      rw [order_eq, HandlerPhase.slots]
      simp [hnames]
    rw [horder]

/-- Of a handler that is in the phase, only one in the list is left out. -/
lemma addUnique_again_iff (hnodup : phase.order.Nodup) (hmem : desc.name ∈ phase.order) :
    (addUnique phase desc).order.Nodup ↔ desc.name ∈ phase.names := by
  rw [addUnique_nodup_iff hnodup]
  exact ⟨fun h => (mem_slots_or_names hmem).resolve_left h, not_mem_slots hnodup⟩

lemma addAt_again (hnodup : phase.order.Nodup) (hmem : desc.name ∈ phase.order) {i : ℕ}
    (h : i ≤ phase.handlers.length) : ¬ (addAt phase i desc).order.Nodup := by
  rw [(addAt_inserted h).nodup_iff hnodup, not_not]
  exact hmem

lemma names_nodup (hnodup : phase.order.Nodup) : phase.names.Nodup := by
  rw [order_eq] at hnodup
  exact hnodup.of_append_left.of_append_right

lemma findIdx?_name_none :
    phase.handlers.findIdx? (·.name = name) = none ↔ name ∉ phase.names := by
  simp [HandlerPhase.names]

lemma findIdx?_name_some {i : ℕ} (h : phase.handlers.findIdx? (·.name = name) = some i) :
    phase.names[i]? = some name := by
  obtain ⟨hi, hname, -⟩ := List.findIdx?_eq_some_iff_getElem.mp h
  rw [HandlerPhase.names, List.getElem?_map, List.getElem?_eq_getElem hi]
  simpa using hname

/-- Where a name stands in a list without repetition tells whether it is the last one. -/
lemma getLast?_eq_some_iff {names : List String} (hnodup : names.Nodup) {i : ℕ}
    (h : names[i]? = some name) : names.getLast? = some name ↔ i + 1 = names.length := by
  obtain ⟨hi, hname⟩ := List.getElem?_eq_some_iff.mp h
  rw [List.getLast?_eq_getElem?]
  constructor
  · intro hlast
    have hsame := (List.getElem?_inj hi hnodup).mp (h.trans hlast.symm)
    omega
  · intro hend
    rwa [show names.length - 1 = i by omega]

lemma insertBefore_again_iff (hnodup : phase.order.Nodup) (hmem : desc.name ∈ phase.order)
    (before : String) : (insertBefore phase desc before).order.Nodup ↔
      desc.name ∈ phase.names ∧ before ∉ phase.names := by
  unfold insertBefore
  by_cases hlast : slotNamed phase.lastHandler before = true
  · have hnot : before ∉ phase.names := fun hb =>
      not_mem_slots hnodup hb (List.mem_append_right _ (slotNamed_iff.mp hlast))
    rw [if_pos hlast, addUnique_again_iff hnodup hmem]
    exact (and_iff_left hnot).symm
  · rw [if_neg hlast]
    cases hfind : phase.handlers.findIdx? (·.name = before) with
    | none =>
      rw [addUnique_again_iff hnodup hmem]
      exact (and_iff_left (findIdx?_name_none.mp hfind)).symm
    | some i =>
      have hbefore : before ∈ phase.names := List.mem_of_getElem? (findIdx?_name_some hfind)
      exact iff_of_false (addAt_again hnodup hmem (findIdx?_lt hfind).le)
        (fun h => h.2 hbefore)

lemma insertAfter_again_iff (hnodup : phase.order.Nodup) (hmem : desc.name ∈ phase.order)
    (after : String) : (insertAfter phase desc after).order.Nodup ↔
      desc.name ∈ phase.names ∧ phase.names.getLast? = some after := by
  have hlength : phase.names.length = phase.handlers.length := List.length_map _
  unfold insertAfter
  by_cases hfirst : slotNamed phase.firstHandler after = true
  · rw [if_pos hfirst]
    refine iff_of_false (addAt_again hnodup hmem (Nat.zero_le _)) fun h => ?_
    exact not_mem_slots hnodup (List.mem_of_getLast? h.2)
      (List.mem_append_left _ (slotNamed_iff.mp hfirst))
  · rw [if_neg hfirst]
    cases hfind : phase.handlers.findIdx? (·.name = after) with
    | none =>
      have hafter : phase.names.getLast? ≠ some after := fun h =>
        findIdx?_name_none.mp hfind (List.mem_of_getLast? h)
      by_cases hsome : 0 < phase.handlers.length
      · simp only [if_pos hsome]
        exact iff_of_false (addAt_again hnodup hmem (Nat.zero_le _)) fun h => hafter h.2
      · simp only [if_neg hsome]
        rw [addUnique_again_iff hnodup hmem]
        refine iff_of_false (fun h => ?_) fun h => hafter h.2
        have := List.length_pos_of_mem h
        omega
    | some i =>
      have hlast := getLast?_eq_some_iff (names_nodup hnodup) (findIdx?_name_some hfind)
      rw [hlength] at hlast
      by_cases hend : i + 1 = phase.handlers.length
      · simp only [if_pos hend]
        rw [addUnique_again_iff hnodup hmem]
        exact (and_iff_left (hlast.mpr hend)).symm
      · simp only [if_neg hend]
        exact iff_of_false (addAt_again hnodup hmem (findIdx?_lt hfind))
          fun h => hend (hlast.mp h.2)

/-- Positions in a list without repetition decide which name precedes the other. -/
lemma precedes_iff {names : List String} (hnodup : names.Nodup) {i j : ℕ} {x y : String}
    (hx : names[i]? = some x) (hy : names[j]? = some y) : Precedes x y names ↔ i < j := by
  have hearlier {i j : ℕ} {x y : String} (hx : names[i]? = some x) (hy : names[j]? = some y)
      (hlt : i < j) : Precedes x y names := by
    obtain ⟨hj, hname⟩ := List.getElem?_eq_some_iff.mp hy
    have hsplit : names = names.take j ++ y :: names.drop (j + 1) := by
      rw [← hname, List.getElem_cons_drop, List.take_append_drop]
    rw [hsplit]
    refine precedes_before ?_
    exact List.mem_of_getElem? ((List.getElem?_take_of_lt hlt).trans hx)
  refine ⟨fun h => ?_, hearlier hx hy⟩
  by_contra hnot
  obtain hlt | rfl := Nat.lt_or_eq_of_le (not_lt.mp hnot)
  · exact h.asymm hnodup (hearlier hy hx hlt)
  · obtain rfl := Option.some.inj (hx.symm.trans hy)
    exact h.asymm hnodup h

/-- The routine for both rules refuses them just if `before` names the earlier handler. -/
lemma insertBeforeAndAfter_cases (before after : String) (hnodup : phase.order.Nodup)
    (hmem : desc.name ∈ phase.order) (hfirst : slotNamed phase.firstHandler before = false)
    (hlast : slotNamed phase.lastHandler after = false) :
    match insertBeforeAndAfter phase desc before after with
    | .error _ => Precedes before after phase.names
    | .ok phase' => ¬ Precedes before after phase.names ∧
        (phase'.order.Nodup ↔ desc.name ∈ phase.names ∧ (before ∉ phase.names ∨
          after ∉ phase.names ∨ phase.names.getLast? = some after)) := by
  have hnames := names_nodup hnodup
  have hlength : phase.names.length = phase.handlers.length := List.length_map _
  have hsubset : Precedes before after phase.names →
      before ∈ phase.names ∧ after ∈ phase.names := fun h =>
    ⟨h.subset (by simp), h.subset (by simp)⟩
  simp only [insertBeforeAndAfter, hfirst, hlast, Bool.and_false, Bool.false_eq_true, if_false]
  cases hfind : findBoth after before phase.handlers 0 none none with
  | none =>
    have hmissing := findBoth_none phase.handlers 0 (.inl rfl) hfind
    simp only [ne_eq, not_true_eq_false, false_or] at hmissing
    change ¬ (after ∈ phase.names ∧ before ∈ phase.names) at hmissing
    refine ⟨fun h => hmissing (hsubset h).symm, ?_⟩
    rw [addUnique_again_iff hnodup hmem]
    tauto
  | some pair =>
    obtain ⟨a, b⟩ := pair
    obtain ⟨ha, hb⟩ := findBoth_some [] phase.handlers
      (List.nil_append phase.handlers).symm (by simp) (by simp) hfind
    rw [← List.getElem?_map] at ha hb
    change phase.names[a]? = some after at ha
    change phase.names[b]? = some before at hb
    have hafter : after ∈ phase.names := List.mem_of_getElem? ha
    have hbefore : before ∈ phase.names := List.mem_of_getElem? hb
    have hprecedes := precedes_iff hnames hb ha
    have hend := getLast?_eq_some_iff hnames ha
    have hlt : a < phase.names.length := (List.getElem?_eq_some_iff.mp ha).1
    rw [hlength] at hend hlt
    by_cases hba : b < a
    · simp only [if_pos hba]
      exact hprecedes.mpr hba
    · simp only [if_neg hba]
      by_cases hplace : a + 1 < phase.handlers.length
      · simp only [if_pos hplace]
        refine ⟨mt hprecedes.mp hba, iff_of_false (addAt_again hnodup hmem hplace.le) ?_⟩
        rintro ⟨-, hnot | hnot | hlast'⟩
        · exact hnot hbefore
        · exact hnot hafter
        · have := hend.mp hlast'
          omega
      · simp only [if_neg hplace]
        refine ⟨mt hprecedes.mp hba, ?_⟩
        rw [addUnique_again_iff hnodup hmem]
        exact (and_iff_left (Or.inr (Or.inr (hend.mpr (by omega))))).symm

/-- What becomes of a handler that is in the phase already: refused rules are an error, and
other rules leave it there once just if they lead to the end of the list and it is in it. -/
def Judged (phase : HandlerPhase) (desc : HandlerDesc) (rules : PhaseRule) :
    Except PhaseError HandlerPhase → Prop
  | .error _ => rules.Refused phase
  | .ok phase' => ¬ rules.Refused phase ∧
      (phase'.order.Nodup ↔ desc.name ∈ phase.names ∧ rules.ToEnd phase)

lemma refused_ordinary (phase : HandlerPhase) (hfirst : rules.first = false)
    (hlast : rules.last = false) :
    rules.Refused phase ↔ isValidAfter phase rules = false ∨ isValidBefore phase rules = false ∨
      ∃ before ∈ rules.before, ∃ after ∈ rules.after, Precedes before after phase.names := by
  have hslot (rule : Option String) (slot : Option HandlerDesc) :
      (∃ name ∈ rule, name ∈ slot.toList.map HandlerDesc.name) ↔
        rule.any (slotNamed slot) = true := by
    rw [ruleNames_iff]
    simp only [slotNamed_iff, Option.mem_def]
  simp only [PhaseRule.Refused, hfirst, hlast, Bool.false_eq_true, false_and, if_false,
    HandlerPhase.back, HandlerPhase.front, hslot, isValidAfter, isValidBefore, Bool.not_eq_false']

lemma insertHandlerDesc_judged (hnodup : phase.order.Nodup) (hmem : desc.name ∈ phase.order)
    (hfirst : rules.first = false) (hlast : rules.last = false) :
    Judged phase desc rules (insertHandlerDesc phase desc rules) := by
  have hrefused := refused_ordinary phase hfirst hlast
  have hend : rules.ToEnd phase ↔ _ := and_iff_right hfirst |>.trans (and_iff_right hlast)
  unfold insertHandlerDesc
  by_cases hafter : isValidAfter phase rules = true
  · by_cases hbefore : isValidBefore phase rules = true
    · simp only [hafter, hbefore, Bool.not_true, Bool.false_eq_true, if_false, Bool.true_eq_false,
        false_or] at hrefused ⊢
      cases hb : rules.before with
      | none =>
        cases ha : rules.after with
        | none =>
          simp only [hb, ha, Option.mem_def, reduceCtorEq, false_and, exists_false,
            iff_false] at hrefused hend
          simp only [getBeforeAfter, hb, ha, phaseAnywhere, phaseBothBeforeAfter, phaseBefore,
            phaseAfter]
          refine ⟨hrefused, ?_⟩
          rw [addUnique_again_iff hnodup hmem, hend]
          exact (and_iff_left trivial).symm
        | some after =>
          simp only [hb, ha, Option.mem_def, reduceCtorEq, false_and, exists_false,
            iff_false] at hrefused hend
          simp only [getBeforeAfter, hb, ha, phaseBothBeforeAfter, phaseBefore, phaseAfter]
          refine ⟨hrefused, ?_⟩
          rw [insertAfter_again_iff hnodup hmem, hend]
      | some before =>
        cases ha : rules.after with
        | none =>
          simp only [hb, ha, Option.mem_def, reduceCtorEq, false_and, exists_false, and_false,
            iff_false] at hrefused hend
          simp only [getBeforeAfter, hb, ha, phaseBothBeforeAfter, phaseBefore]
          refine ⟨hrefused, ?_⟩
          rw [insertBefore_again_iff hnodup hmem, hend]
        | some after =>
          have hcases := insertBeforeAndAfter_cases before after hnodup hmem
            (by simpa [isValidBefore, hb] using hbefore)
            (by simpa [isValidAfter, ha] using hafter)
          have hboth : getBeforeAfter rules = phaseBothBeforeAfter := by
            simp [getBeforeAfter, hb, ha, axis2Failure, phaseBothBeforeAfter]
          simp only [hb, ha, Option.mem_def, Option.some.injEq, exists_eq_left'] at hrefused
          simp only [hb, ha] at hend
          simp only [hboth, if_true]
          cases hresult : insertBeforeAndAfter phase desc before after with
          | error e =>
            rw [hresult] at hcases
            exact hrefused.mpr hcases
          | ok phase' =>
            rw [hresult] at hcases
            refine ⟨mt hrefused.mp hcases.1, ?_⟩
            rw [hcases.2, hend]
    · rw [Bool.not_eq_true] at hbefore
      simp only [hafter, hbefore, Bool.not_true, Bool.not_false, Bool.false_eq_true, if_false,
        if_true]
      exact hrefused.mpr (Or.inr (Or.inl hbefore))
  · rw [Bool.not_eq_true] at hafter
    simp only [hafter, Bool.not_false, if_true]
    exact hrefused.mpr (Or.inl hafter)

lemma getBeforeAfter_placed (rules : PhaseRule) :
    getBeforeAfter rules ≠ phaseAnywhere ↔ rules.before.isSome ∨ rules.after.isSome := by
  constructor
  · intro hplaced
    by_contra hnone
    simp only [not_or, Option.not_isSome_iff_eq_none] at hnone
    exact hplaced (by rw [getBeforeAfter, hnone.1, hnone.2])
  · intro hsome hanywhere
    obtain ⟨hbefore, hafter⟩ := getBeforeAfter_anywhere hanywhere
    simp [hbefore, hafter] at hsome

/-- A routine that refuses a place that is taken and rules that name another handler, and that
otherwise puts the handler into the place, where it is in the phase a second time. -/
lemma slot_judged {taken : Bool} {e e' : PhaseError} (phase' : HandlerPhase)
    (hrefused : rules.Refused phase ↔ taken = true ∨ rules.before.isSome ∨ rules.after.isSome)
    (hend : ¬ rules.ToEnd phase) (htwice : taken = false → ¬ phase'.order.Nodup) :
    Judged phase desc rules (if taken then .error e
      else if getBeforeAfter rules ≠ phaseAnywhere then .error e' else .ok phase') := by
  rw [← getBeforeAfter_placed] at hrefused
  by_cases htaken : taken = true
  · rw [if_pos htaken]
    exact hrefused.mpr (Or.inl htaken)
  · by_cases hplaced : getBeforeAfter rules ≠ phaseAnywhere
    · rw [if_neg htaken, if_pos hplaced]
      exact hrefused.mpr (Or.inr hplaced)
    · rw [if_neg htaken, if_neg hplaced]
      refine ⟨mt hrefused.mp (not_or.mpr ⟨htaken, hplaced⟩), iff_of_false ?_ fun h => hend h.2⟩
      exact htwice (Bool.eq_false_of_not_eq_true htaken)

lemma setFirstHandler_judged (hmem : desc.name ∈ phase.order) (hfirst : rules.first = true)
    (hlast : rules.last = false) :
    Judged phase desc rules (setFirstHandler phase desc rules) := by
  refine slot_judged _ (by simp [PhaseRule.Refused, hfirst, hlast]) (fun h => ?_) fun hfree => ?_
  · have := h.1
    simp [hfirst] at this
  · have hnone := Option.isNone_iff_eq_none.mp (Option.isSome_eq_false_iff.mp hfree)
    have hempty : phase.front = [] := by
      rw [HandlerPhase.front, hnone]
      rfl
    rw [order_eq, hempty, List.nil_append] at hmem
    rw [order_eq]
    exact fun hnodup => (List.nodup_cons.mp hnodup).1 hmem

lemma setLastHandler_judged (hmem : desc.name ∈ phase.order) (hfirst : rules.first = false)
    (hlast : rules.last = true) :
    Judged phase desc rules (setLastHandler phase desc rules) := by
  refine slot_judged _ (by simp [PhaseRule.Refused, hfirst, hlast]) (fun h => ?_) fun hfree => ?_
  · have := h.2.1
    simp [hlast] at this
  · have hnone := Option.isNone_iff_eq_none.mp (Option.isSome_eq_false_iff.mp hfree)
    have hempty : phase.back = [] := by
      rw [HandlerPhase.back, hnone]
      rfl
    rw [order_eq, hempty, List.append_nil] at hmem
    rw [order_eq]
    exact fun hnodup => List.disjoint_of_nodup_append hnodup hmem List.mem_cons_self

/-- A handler that must be the only one is refused, or it repeats a special one. -/
lemma sole_judged (hnodup : phase.order.Nodup) (hmem : desc.name ∈ phase.order)
    (hfirst : rules.first = true) (hlast : rules.last = true) (hempty : phase.handlers = []) :
    Judged phase desc rules (.ok { addUnique phase desc with isOneHandler := true }) := by
  refine ⟨by simp [PhaseRule.Refused, hfirst, hlast, hempty], iff_of_false ?_ fun h => ?_⟩
  · have hnames : desc.name ∉ phase.names := by simp [HandlerPhase.names, hempty]
    exact fun h => hnames ((addUnique_again_iff hnodup hmem).mp h)
  · have := h.2.1
    simp [hfirst] at this

lemma addHandlerDesc_again_iff (hnodup : phase.order.Nodup) (hmem : desc.name ∈ phase.order) :
    (phaseStep phase (.addHandlerDesc desc)).order.Nodup ↔
      (PhaseCall.addHandlerDesc desc).Meets phase := by
  have herror (e : PhaseError) (h : addHandlerDesc phase desc = .error e) :
      (phaseStep phase (.addHandlerDesc desc)).order.Nodup := by
    simpa only [phaseStep, phaseCall, h] using hnodup
  simp only [PhaseCall.Meets, hmem, not_true_eq_false, false_or]
  by_cases hone : phase.isOneHandler = true
  · exact iff_of_true (herror .phaseAddHandlerInvalid (by rw [addHandlerDesc, if_pos hone]))
      (Or.inl hone)
  · cases hrules : desc.rules with
    | none =>
      refine iff_of_true (herror .invalidNullParam ?_) (Or.inr (Or.inr (by simp)))
      rw [addHandlerDesc, if_neg hone, hrules]
    | some rules =>
      by_cases hsole : rules.first = true ∧ rules.last = true ∧ phase.handlers ≠ []
      · obtain ⟨hfirst, hlast, hsome⟩ := hsole
        refine iff_of_true (herror .invalidHandlerRules ?_) ?_
        · simp [addHandlerDesc, hone, hrules, hfirst, hlast, List.length_pos_iff.mpr hsome]
        · simp [PhaseRule.Refused, hfirst, hlast, hsome]
      · cases hhandler : desc.hasHandler with
        | false =>
          refine iff_of_true (herror .invalidNullParam ?_) (Or.inr (Or.inl rfl))
          have hempty (hfirst : rules.first = true) (hlast : rules.last = true) :
              phase.handlers = [] := by
            by_contra hsome
            exact hsole ⟨hfirst, hlast, hsome⟩
          simpa [addHandlerDesc, hone, hrules, hhandler] using hempty
        | true =>
          have hjudged : Judged phase desc rules (addHandlerDesc phase desc) := by
            cases hfirst : rules.first <;> cases hlast : rules.last
            · simpa [addHandlerDesc, hone, hrules, hhandler, hfirst, hlast] using
                insertHandlerDesc_judged hnodup hmem hfirst hlast
            · simpa [addHandlerDesc, hone, hrules, hhandler, hfirst, hlast] using
                setLastHandler_judged hmem hfirst hlast
            · simpa [addHandlerDesc, hone, hrules, hhandler, hfirst, hlast] using
                setFirstHandler_judged hmem hfirst hlast
            · have hempty : phase.handlers = [] := by
                by_contra hsome
                exact hsole ⟨hfirst, hlast, hsome⟩
              simpa [addHandlerDesc, hone, hrules, hhandler, hfirst, hlast, hempty] using
                sole_judged hnodup hmem hfirst hlast hempty
          have hmeets : (phase.isOneHandler = true ∨ true = false ∨ ∀ r ∈ some rules,
              r.Refused phase ∨ (desc.name ∈ phase.names ∧ r.ToEnd phase)) ↔
              rules.Refused phase ∨ (desc.name ∈ phase.names ∧ rules.ToEnd phase) := by
            simp [hone]
          rw [hmeets]
          cases hresult : addHandlerDesc phase desc with
          | error e =>
            rw [hresult] at hjudged
            exact iff_of_true (herror e hresult) (Or.inl hjudged)
          | ok phase' =>
            rw [hresult] at hjudged
            simp only [phaseStep, phaseCall, hresult]
            rw [hjudged.2]
            exact (or_iff_right hjudged.1).symm

/-- A handler of a new name keeps the names apart. -/
lemma Added.nodup (hadded : Added phase desc phase') (hnodup : phase.order.Nodup)
    (hnew : desc.name ∉ phase.order) : phase'.order.Nodup := by
  cases hadded with
  | present one h => exact hnodup
  | inserted l r one h => exact ((InsertedAt.mk h rfl).nodup_iff hnodup).mpr hnew
  | first h =>
    have hempty : phase.front = [] := by rw [HandlerPhase.front, h]; rfl
    rw [order_eq, hempty, List.nil_append] at hnodup hnew
    rw [order_eq]
    exact List.nodup_cons.mpr ⟨hnew, hnodup⟩
  | last h =>
    have hempty : phase.back = [] := by rw [HandlerPhase.back, h]; rfl
    rw [order_eq, hempty, List.append_nil] at hnodup hnew
    rw [order_eq]
    exact hnodup.append (List.nodup_singleton _) (List.disjoint_singleton.mpr hnew)

lemma addHandlerDesc_once_iff (hnodup : phase.order.Nodup) :
    (phaseStep phase (.addHandlerDesc desc)).order.Nodup ↔
      (PhaseCall.addHandlerDesc desc).Meets phase := by
  by_cases hmem : desc.name ∈ phase.order
  · exact addHandlerDesc_again_iff hnodup hmem
  · refine iff_of_true ?_ (Or.inl hmem)
    simp only [phaseStep, phaseCall]
    cases hresult : addHandlerDesc phase desc with
    | error e => exact hnodup
    | ok phase' => exact (addHandlerDesc_added hresult).nodup hnodup hmem

/-- A removal takes the name out of the list only. -/
lemma removed_iff (hnodup : phase.order.Nodup) (name : String) :
    let phase' := { phase with handlers := phase.handlers.eraseP (·.name = name) }
    phase'.order.Nodup ∧ (name ∉ phase'.order ↔ name ∉ phase.slots) := by
  intro phase'
  have herased : phase'.names = phase.names.erase name := map_name_eraseP name
  have hgone : name ∉ phase'.names := by
    rw [herased]
    exact (names_nodup hnodup).not_mem_erase
  have hslots : phase'.slots = phase.slots := rfl
  constructor
  · rw [order_eq] at hnodup ⊢
    refine hnodup.sublist ?_
    rw [herased]
    exact (List.Sublist.append_left List.erase_sublist _).append_right _
  · rw [order_eq, ← hslots, HandlerPhase.slots]
    simp [hgone]

lemma keepsOnce_iff (hnodup : phase.order.Nodup) (call : PhaseCall) :
    KeepsOnce phase call ↔ call.Meets phase := by
  cases call with
  | addHandlerDesc desc =>
    rw [← addHandlerDesc_once_iff hnodup]
    exact ⟨KeepsOnce.once, fun h => ⟨h, fun _ hcall => by cases hcall⟩⟩
  | addHandler desc =>
    have hiff : (phaseStep phase (.addHandler desc)).order.Nodup ↔ desc.name ∉ phase.slots :=
      addUnique_nodup_iff hnodup
    exact ⟨fun h => hiff.mp h.once, fun h => ⟨hiff.mpr h, fun _ hcall => by cases hcall⟩⟩
  | removeHandlerDesc desc =>
    cases hhandler : desc.hasHandler with
    | false =>
      have hnone : Resolver.removeHandlerDesc phase desc = none := by
        simp [Resolver.removeHandlerDesc, hhandler]
      refine iff_of_true ⟨by simpa only [phaseStep, phaseCall, hnone] using hnodup, ?_⟩
        (by simp [PhaseCall.Meets, hhandler])
      intro desc' hcall hstatus
      simp [phaseCall, hnone] at hstatus
    | true =>
      have hsome : Resolver.removeHandlerDesc phase desc = some
          { phase with handlers := phase.handlers.eraseP (·.name = desc.name) } := by
        simp [Resolver.removeHandlerDesc, hhandler]
      obtain ⟨honce, hgone⟩ := removed_iff hnodup desc.name
      constructor
      · intro h _
        refine hgone.mp ?_
        simpa only [phaseStep, phaseCall, hsome] using
          h.removed desc rfl (by simp only [phaseCall, hsome])
      · intro h
        refine ⟨by simpa only [phaseStep, phaseCall, hsome] using honce, ?_⟩
        rintro desc' hcall -
        cases hcall
        simpa only [phaseStep, phaseCall, hsome] using hgone.mpr (h hhandler)

end Once

/-- In a run on a fresh phase each call leaves the handlers of the phase with different names,
and a removal none of the name removed, exactly if each call meets its condition. -/
theorem phase_holds_handlers_once_iff (calls : List PhaseCall) :
    EachCall phaseStep phaseCreate calls KeepsOnce ↔
      EachCall phaseStep phaseCreate calls fun phase call => call.Meets phase :=
  eachCall_iff (fun _ call hnodup => keepsOnce_iff hnodup call)
    (fun _ _ _ hkeeps => hkeeps.once) (by decide)

def handlerAfter (name : String) (after : Option String) : PhaseCall :=
  .addHandlerDesc ⟨name, some ⟨none, after, false, false⟩, true⟩

/-- Three handlers, and the second of them added again behind the first. -/
theorem engaged_again_is_there_twice :
    (after phaseStep phaseCreate [handlerAfter "a" none, handlerAfter "b" (some "a"),
        handlerAfter "c" (some "b"), handlerAfter "b" (some "a")]).order = ["a", "b", "b", "c"] ∧
      ¬ ∀ calls, EachCall phaseStep phaseCreate calls KeepsOnce := by
  refine ⟨by decide, fun hall => ?_⟩
  have honce := (hall _ [handlerAfter "a" none, handlerAfter "b" (some "a"),
    handlerAfter "c" (some "b")] (handlerAfter "b" (some "a")) (List.prefix_refl _)).once
  revert honce
  decide

end Axis2C.Engine
