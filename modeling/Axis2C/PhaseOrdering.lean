import Axis2C.PhaseHandlers

/-!
# The order of the handlers of a phase

Every call that succeeds puts one handler somewhere into the order of
invocation and leaves the others as they are, so a rule that holds right after
the call still holds at the end. The routine for both rules misses its place
when `before` names an ordinary handler and `after` does not; a handler that is
declared first and last ignores its rules.
-/
namespace Axis2C.Engine

/-- `x` is invoked before `y`. -/
def Precedes (x y : String) (order : List String) : Prop := [x, y].Sublist order

section Order

variable {x y : String}

lemma precedes_after {l r : List String} (h : y ∈ r) :
    Precedes x y (l ++ x :: r) :=
  (List.cons_sublist_cons.mpr (List.singleton_sublist.mpr h)).trans (List.sublist_append_right _ _)

lemma precedes_before {l r : List String} (h : y ∈ l) :
    Precedes y x (l ++ x :: r) :=
  (List.singleton_sublist.mpr h).append (List.singleton_sublist.mpr (by simp))

lemma Precedes.asymm {order : List String} (hnodup : order.Nodup) (h : Precedes x y order) :
    ¬ Precedes y x order := by
  induction order with
  | nil => exact fun _ => by simp [Precedes] at h
  | cons z order ih =>
    obtain ⟨hz, hnodup⟩ := List.nodup_cons.mp hnodup
    intro h'
    unfold Precedes at h h'
    rw [List.sublist_cons_iff] at h h'
    obtain h | ⟨r, hr, h⟩ := h
    · obtain h' | ⟨r', hr', h'⟩ := h'
      · exact ih hnodup h h'
      · obtain ⟨rfl, rfl⟩ := List.cons.inj hr'
        exact hz (h.subset (by simp))
    · obtain ⟨rfl, rfl⟩ := List.cons.inj hr
      have hy : y ∈ order := h.subset (by simp)
      obtain h' | ⟨r', hr', h'⟩ := h'
      · exact hz (h'.subset (by simp))
      · obtain ⟨rfl, -⟩ := List.cons.inj hr'
        exact hz hy

end Order

def HandlerPhase.names (phase : HandlerPhase) : List String := phase.handlers.map HandlerDesc.name

/-- The new handler stands between `l` and `r` in the list of ordinary handlers. -/
structure InsertedAt (phase phase' : HandlerPhase) (desc : HandlerDesc)
    (l r : List HandlerDesc) : Prop where
  split : phase.handlers = l ++ r
  eq : phase' = { phase with handlers := l ++ desc :: r }

section Insert

variable {phase : HandlerPhase} {desc : HandlerDesc}

lemma mem_order {name : String} : name ∈ phase.order ↔
    slotNamed phase.firstHandler name = true ∨ name ∈ phase.names ∨
      slotNamed phase.lastHandler name = true := by
  cases hf : phase.firstHandler <;> cases hl : phase.lastHandler <;>
    simp [HandlerPhase.order, HandlerPhase.names, slotNamed, hf, hl, eq_comm]

lemma addUnique_inserted (h : desc.name ∉ phase.names) :
    InsertedAt phase (addUnique phase desc) desc phase.handlers [] := by
  refine ⟨by simp, ?_⟩
  rw [addUnique, if_neg]
  simpa [HandlerPhase.names] using h

lemma insertIdx_eq_take_drop (hs : List HandlerDesc) {i : ℕ} (h : i ≤ hs.length) :
    hs.insertIdx i desc = hs.take i ++ desc :: hs.drop i := by
  induction hs generalizing i with
  | nil =>
    obtain rfl : i = 0 := by simpa using h
    rfl
  | cons handler hs ih =>
    cases i with
    | zero => rfl
    | succ i => simpa using ih (by simpa using h)

lemma addAt_inserted {i : ℕ} (h : i ≤ phase.handlers.length) :
    InsertedAt phase (addAt phase i desc) desc (phase.handlers.take i) (phase.handlers.drop i) :=
  ⟨by simp, by rw [addAt, insertIdx_eq_take_drop _ h]⟩

lemma insertBefore_inserted (h : desc.name ∉ phase.names) (before : String) :
    ∃ l r, InsertedAt phase (insertBefore phase desc before) desc l r ∧
      (before ∈ phase.names → slotNamed phase.lastHandler before = false →
        before ∈ r.map HandlerDesc.name) := by
  unfold insertBefore
  split_ifs with hlast
  · exact ⟨_, _, addUnique_inserted h, by simp [hlast]⟩
  · cases hfind : phase.handlers.findIdx? (·.name = before) with
    | none =>
      refine ⟨_, _, addUnique_inserted h, fun hmem => ?_⟩
      obtain ⟨handler, hh, hname⟩ := List.mem_map.mp hmem
      have := List.findIdx?_eq_none_iff.mp hfind handler hh
      simp [hname] at this
    | some i =>
      obtain ⟨hi, hname, -⟩ := List.findIdx?_eq_some_iff_getElem.mp hfind
      refine ⟨_, _, addAt_inserted hi.le, fun _ _ => ?_⟩
      have heq : (phase.handlers[i]).name = before := by simpa using hname
      refine List.mem_map.mpr ⟨phase.handlers[i], ?_, heq⟩
      exact List.mem_drop_iff_getElem.mpr ⟨0, by simpa using hi, by simp⟩

lemma insertAfter_inserted (h : desc.name ∉ phase.names) (after : String) :
    ∃ l r, InsertedAt phase (insertAfter phase desc after) desc l r ∧
      (after ∈ phase.names → slotNamed phase.firstHandler after = false →
        after ∈ l.map HandlerDesc.name) := by
  unfold insertAfter
  by_cases hfirst : slotNamed phase.firstHandler after = true
  · rw [if_pos hfirst]
    exact ⟨_, _, addAt_inserted (Nat.zero_le _), by simp [hfirst]⟩
  · rw [if_neg hfirst]
    cases hfind : phase.handlers.findIdx? (·.name = after) with
    | none =>
      have hnone : after ∉ phase.names := by
        intro hmem
        obtain ⟨handler, hh, hname⟩ := List.mem_map.mp hmem
        have := List.findIdx?_eq_none_iff.mp hfind handler hh
        simp [hname] at this
      simp only
      split_ifs
      · exact ⟨_, _, addAt_inserted (Nat.zero_le _), fun hmem => absurd hmem hnone⟩
      · exact ⟨_, _, addUnique_inserted h, fun hmem => absurd hmem hnone⟩
    | some i =>
      obtain ⟨hi, hname, -⟩ := List.findIdx?_eq_some_iff_getElem.mp hfind
      have heq : (phase.handlers[i]).name = after := by simpa using hname
      simp only
      split_ifs with hend
      · exact ⟨_, _, addUnique_inserted h, fun hmem _ => hmem⟩
      · refine ⟨_, _, addAt_inserted (i := i + 1) hi, fun _ _ => ?_⟩
        refine List.mem_map.mpr ⟨phase.handlers[i], ?_, heq⟩
        exact List.mem_take_iff_getElem.mpr ⟨i, by omega, rfl⟩

/-- Both indexes that the loop returns point at handlers of the names asked for. -/
lemma findBoth_some {afterName beforeName : String} {all : List HandlerDesc}
    (done hs : List HandlerDesc) {after before : Option ℕ} {a b : ℕ} (hall : all = done ++ hs)
    (hafter : ∀ k, after = some k → all[k]?.map HandlerDesc.name = some afterName)
    (hbefore : ∀ k, before = some k → all[k]?.map HandlerDesc.name = some beforeName)
    (h : findBoth afterName beforeName hs done.length after before = some (a, b)) :
    all[a]?.map HandlerDesc.name = some afterName ∧
      all[b]?.map HandlerDesc.name = some beforeName := by
  induction hs generalizing done after before with
  | nil => simp [findBoth] at h
  | cons handler hs ih =>
    have hhere : all[done.length]? = some handler := by simp [hall]
    have hupdate {name : String} {old : Option ℕ}
        (hold : ∀ k, old = some k → all[k]?.map HandlerDesc.name = some name) :
        ∀ k, (if handler.name = name then some done.length else old) = some k →
          all[k]?.map HandlerDesc.name = some name := by
      intro k hk
      split_ifs at hk with hname
      · obtain rfl := Option.some.inj hk
        simp [hhere, hname]
      · exact hold k hk
    have hafter' := hupdate hafter
    have hbefore' := hupdate hbefore
    simp only [findBoth] at h
    split at h
    · next a' b' ha hb =>
        obtain ⟨rfl, rfl⟩ := Prod.mk.inj (Option.some.inj h)
        exact ⟨hafter' _ ha, hbefore' _ hb⟩
    · exact ih (done ++ [handler]) (by simpa using hall) hafter' hbefore' (by simpa using h)

/-- When the loop finds no pair of indexes, one of the names is missing. -/
lemma findBoth_none {afterName beforeName : String} (hs : List HandlerDesc) (i : ℕ)
    {after before : Option ℕ} (hopen : after = none ∨ before = none)
    (h : findBoth afterName beforeName hs i after before = none) :
    ¬ ((after ≠ none ∨ afterName ∈ hs.map HandlerDesc.name) ∧
      (before ≠ none ∨ beforeName ∈ hs.map HandlerDesc.name)) := by
  induction hs generalizing i after before with
  | nil =>
    obtain rfl | rfl := hopen <;> simp
  | cons handler hs ih =>
    simp only [findBoth] at h
    split at h
    · exact absurd h (by simp)
    · next hno =>
        have hopen' : (if handler.name = afterName then some i else after) = none ∨
            (if handler.name = beforeName then some i else before) = none := by
          by_contra hboth
          rw [not_or, ← ne_eq, ← ne_eq, Option.ne_none_iff_exists', Option.ne_none_iff_exists']
            at hboth
          obtain ⟨⟨a, ha⟩, b, hb⟩ := hboth
          exact hno a b ha hb
        have hrest := ih (i + 1) hopen' h
        rintro ⟨ha, hb⟩
        refine hrest ⟨?_, ?_⟩
        · split_ifs with hname
          · exact .inl (by simp)
          · refine ha.imp_right fun hmem => ?_
            simpa [Ne.symm hname] using hmem
        · split_ifs with hname
          · exact .inl (by simp)
          · refine hb.imp_right fun hmem => ?_
            simpa [Ne.symm hname] using hmem

/-- The routine for both rules, when the special slots are not named the wrong
way round: the new handler follows `after`, and it precedes `before` only if
both are ordinary handlers. -/
lemma insertBeforeAndAfter_inserted {phase' : HandlerPhase} {before after : String}
    (hfresh : desc.name ∉ phase.names) (hfirst : slotNamed phase.firstHandler before = false)
    (hlast : slotNamed phase.lastHandler after = false)
    (h : insertBeforeAndAfter phase desc before after = .ok phase') :
    ∃ l r, InsertedAt phase phase' desc l r ∧
      (after ∈ phase.names → after ∈ l.map HandlerDesc.name) ∧
      (before ∈ phase.names → if after ∈ phase.names ∧ after ≠ before then
        before ∈ r.map HandlerDesc.name else before ∈ l.map HandlerDesc.name) := by
  simp only [insertBeforeAndAfter, hfirst, hlast, Bool.and_false, Bool.false_eq_true, if_false] at h
  cases hfind : findBoth after before phase.handlers 0 none none with
  | none =>
    simp only [hfind, Except.ok.injEq] at h
    subst h
    have hmissing := findBoth_none phase.handlers 0 (.inl rfl) hfind
    refine ⟨_, _, addUnique_inserted hfresh, id, fun hb => ?_⟩
    rw [if_neg]
    · exact hb
    · exact fun hboth => hmissing ⟨.inr hboth.1, .inr hb⟩
  | some pair =>
    obtain ⟨a, b⟩ := pair
    obtain ⟨ha, hb⟩ := findBoth_some [] phase.handlers
      (List.nil_append phase.handlers).symm (by simp) (by simp) hfind
    obtain ⟨handlerA, hgetA, hnameA⟩ := Option.map_eq_some_iff.mp ha
    obtain ⟨handlerB, hgetB, hnameB⟩ := Option.map_eq_some_iff.mp hb
    obtain ⟨hltA, rfl⟩ := List.getElem?_eq_some_iff.mp hgetA
    obtain ⟨hltB, rfl⟩ := List.getElem?_eq_some_iff.mp hgetB
    have hle : a ≤ b := by
      by_contra hlt
      rw [hfind] at h
      simp only at h
      rw [if_pos (by omega)] at h
      exact absurd h (by simp)
    -- at the end of the list both ways of adding are the same
    have hins : InsertedAt phase phase' desc (phase.handlers.take (a + 1))
        (phase.handlers.drop (a + 1)) := by
      simp only [hfind, if_neg (show ¬ b < a by omega)] at h
      split_ifs at h with hend
      · obtain rfl := Except.ok.inj h
        exact addAt_inserted (by omega)
      · obtain rfl := Except.ok.inj h
        rw [List.take_of_length_le (by omega), List.drop_of_length_le (by omega)]
        exact addUnique_inserted hfresh
    have hmemA : after ∈ (phase.handlers.take (a + 1)).map HandlerDesc.name :=
      List.mem_map.mpr ⟨_, List.mem_take_iff_getElem.mpr ⟨a, by omega, rfl⟩, hnameA⟩
    refine ⟨_, _, hins, fun _ => hmemA, fun _ => ?_⟩
    split_ifs with hboth
    · have hab : a ≠ b := by
        rintro rfl
        exact hboth.2 (hnameA.symm.trans hnameB)
      refine List.mem_map.mpr ⟨_, List.mem_drop_iff_getElem.mpr ⟨b - (a + 1), by omega, ?_⟩, hnameB⟩
      congr 1
      omega
    · have hafter : after ∈ phase.names := List.mem_map.mpr ⟨_, List.getElem_mem hltA, hnameA⟩
      have heq : after = before := by
        by_contra hne
        exact hboth ⟨hafter, hne⟩
      rw [← heq]
      exact hmemA

end Insert

/-- The rules whose place is missed: both rules of which only `before` names an
ordinary handler (or both name the same), or rules that a handler declared first
and last cannot keep. -/
def Misplaced (phase : HandlerPhase) (rules : PhaseRule) : Prop :=
  (∃ before after, rules.before = some before ∧ rules.after = some after ∧
    before ∈ phase.names ∧ ¬ (after ∈ phase.names ∧ after ≠ before)) ∨
  rules.first = true ∧ rules.last = true ∧
    (rules.before.any (slotNamed phase.firstHandler) = true ∨
      rules.after.any (slotNamed phase.lastHandler) = true)

/-- The rules that name a handler in front of or behind the new one. -/
def RulesMet (rules : PhaseRule) (l r : List String) : Prop :=
  (∀ before, rules.before = some before → before ∈ l ++ r → before ∈ r) ∧
    ∀ after, rules.after = some after → after ∈ l ++ r → after ∈ l

/-- One handler is added to the order, and where it stands decides its rules. -/
structure Placed (phase phase' : HandlerPhase) (desc : HandlerDesc) (rules : PhaseRule)
    (l r : List String) : Prop where
  split : phase.order = l ++ r
  order : phase'.order = l ++ desc.name :: r
  met : RulesMet rules l r ↔ ¬ Misplaced phase rules

section Step

variable {phase phase' : HandlerPhase} {desc : HandlerDesc} {rules : PhaseRule}

def HandlerPhase.front (phase : HandlerPhase) : List String :=
  phase.firstHandler.toList.map HandlerDesc.name

def HandlerPhase.back (phase : HandlerPhase) : List String :=
  phase.lastHandler.toList.map HandlerDesc.name

lemma order_eq (phase : HandlerPhase) : phase.order = phase.front ++ phase.names ++ phase.back := by
  simp [HandlerPhase.order, HandlerPhase.front, HandlerPhase.names, HandlerPhase.back]

lemma slotNamed_iff {slot : Option HandlerDesc} {name : String} :
    slotNamed slot name = true ↔ name ∈ slot.toList.map HandlerDesc.name := by
  cases slot <;> simp [slotNamed, eq_comm]

lemma ruleNames_iff {rule : Option String} {slot : Option HandlerDesc} :
    rule.any (slotNamed slot) = true ↔ ∃ name, rule = some name ∧ slotNamed slot name = true := by
  cases rule <;> simp

lemma InsertedAt.order {l r : List HandlerDesc} (h : InsertedAt phase phase' desc l r) :
    phase.order = (phase.front ++ l.map HandlerDesc.name) ++
        (r.map HandlerDesc.name ++ phase.back) ∧
      phase'.order = (phase.front ++ l.map HandlerDesc.name) ++
        desc.name :: (r.map HandlerDesc.name ++ phase.back) := by
  constructor
  · simp [order_eq, HandlerPhase.names, h.split]
  · rw [h.eq]
    simp [HandlerPhase.order, HandlerPhase.front, HandlerPhase.back]

lemma not_misplaced_of_one_rule (hfl : ¬ (rules.first = true ∧ rules.last = true))
    (hrules : rules.before = none ∨ rules.after = none) : ¬ Misplaced phase rules := by
  rintro (⟨before, after, hb, ha, -⟩ | ⟨hf, hl, -⟩)
  · obtain h | h := hrules
    · simp [hb] at h
    · simp [ha] at h
  · exact hfl ⟨hf, hl⟩

/-- A handler inserted by its `before` rule alone. -/
lemma placed_before {before : String} (hfl : ¬ (rules.first = true ∧ rules.last = true))
    (hb : rules.before = some before) (ha : rules.after = none)
    (hvalid : slotNamed phase.firstHandler before = false) (hfresh : desc.name ∉ phase.names) :
    ∃ l r, Placed phase (insertBefore phase desc before) desc rules l r := by
  obtain ⟨l, r, hins, hplace⟩ := insertBefore_inserted hfresh before
  refine ⟨_, _, hins.order.1, hins.order.2, ?_⟩
  simp only [not_misplaced_of_one_rule hfl (.inr ha), not_false_eq_true, iff_true]
  refine ⟨fun before' hb' hmem => ?_, fun after ha' => by simp [ha] at ha'⟩
  obtain rfl : before = before' := Option.some.inj (hb.symm.trans hb')
  rw [← hins.order.1, mem_order] at hmem
  obtain hfirst | hmem | hlast := hmem
  · simp [hvalid] at hfirst
  · cases hlast : slotNamed phase.lastHandler before with
    | false => exact List.mem_append_left _ (hplace hmem hlast)
    | true => exact List.mem_append_right _ (slotNamed_iff.mp hlast)
  · exact List.mem_append_right _ (slotNamed_iff.mp hlast)

/-- A handler inserted by its `after` rule alone. -/
lemma placed_after {after : String} (hfl : ¬ (rules.first = true ∧ rules.last = true))
    (hb : rules.before = none) (ha : rules.after = some after)
    (hvalid : slotNamed phase.lastHandler after = false) (hfresh : desc.name ∉ phase.names) :
    ∃ l r, Placed phase (insertAfter phase desc after) desc rules l r := by
  obtain ⟨l, r, hins, hplace⟩ := insertAfter_inserted hfresh after
  refine ⟨_, _, hins.order.1, hins.order.2, ?_⟩
  simp only [not_misplaced_of_one_rule hfl (.inl hb), not_false_eq_true, iff_true]
  refine ⟨fun before hb' => by simp [hb] at hb', fun after' ha' hmem => ?_⟩
  obtain rfl : after = after' := Option.some.inj (ha.symm.trans ha')
  rw [← hins.order.1, mem_order] at hmem
  obtain hfirst | hmem | hlast := hmem
  · exact List.mem_append_left _ (slotNamed_iff.mp hfirst)
  · cases hfirst : slotNamed phase.firstHandler after with
    | false => exact List.mem_append_right _ (hplace hmem hfirst)
    | true => exact List.mem_append_left _ (slotNamed_iff.mp hfirst)
  · simp [hvalid] at hlast

/-- A handler inserted by both rules. -/
lemma placed_both {before after : String} (hfl : ¬ (rules.first = true ∧ rules.last = true))
    (hb : rules.before = some before) (ha : rules.after = some after)
    (hfirst : slotNamed phase.firstHandler before = false)
    (hlast : slotNamed phase.lastHandler after = false) (hfresh : desc.name ∉ phase.names)
    (hnodup : phase.order.Nodup)
    (h : insertBeforeAndAfter phase desc before after = .ok phase') :
    ∃ l r, Placed phase phase' desc rules l r := by
  obtain ⟨l, r, hins, hafter, hbefore⟩ := insertBeforeAndAfter_inserted hfresh hfirst hlast h
  refine ⟨_, _, hins.order.1, hins.order.2, ?_⟩
  constructor
  · rintro ⟨hmet, -⟩ (⟨before', after', hb', ha', hmem, hno⟩ | ⟨hf, hl, -⟩)
    · obtain rfl : before = before' := Option.some.inj (hb.symm.trans hb')
      obtain rfl : after = after' := Option.some.inj (ha.symm.trans ha')
      have hleft := hbefore hmem
      rw [if_neg hno] at hleft
      have hright := hmet before hb (by rw [← hins.order.1, mem_order]; exact .inr (.inl hmem))
      rw [hins.order.1] at hnodup
      exact List.disjoint_of_nodup_append hnodup (List.mem_append_right _ hleft) hright
    · exact hfl ⟨hf, hl⟩
  · intro hplace
    refine ⟨fun before' hb' hmem => ?_, fun after' ha' hmem => ?_⟩
    · obtain rfl : before = before' := Option.some.inj (hb.symm.trans hb')
      rw [← hins.order.1, mem_order] at hmem
      obtain hf | hmem | hl := hmem
      · simp [hfirst] at hf
      · have hcond : after ∈ phase.names ∧ after ≠ before := by
          by_contra hno
          exact hplace (.inl ⟨before, after, hb, ha, hmem, hno⟩)
        have := hbefore hmem
        rw [if_pos hcond] at this
        exact List.mem_append_left _ this
      · exact List.mem_append_right _ (slotNamed_iff.mp hl)
    · obtain rfl : after = after' := Option.some.inj (ha.symm.trans ha')
      rw [← hins.order.1, mem_order] at hmem
      obtain hf | hmem | hl := hmem
      · exact List.mem_append_left _ (slotNamed_iff.mp hf)
      · exact List.mem_append_right _ (hafter hmem)
      · simp [hlast] at hl

/-- A handler without rules can stand anywhere. -/
lemma placed_of_no_rules {l r : List String} (hfl : ¬ (rules.first = true ∧ rules.last = true))
    (hb : rules.before = none) (ha : rules.after = none) (hsplit : phase.order = l ++ r)
    (horder : phase'.order = l ++ desc.name :: r) : Placed phase phase' desc rules l r := by
  refine ⟨hsplit, horder, ?_⟩
  simp only [not_misplaced_of_one_rule hfl (.inl hb), not_false_eq_true, iff_true]
  exact ⟨fun _ hb' => by simp [hb] at hb', fun _ ha' => by simp [ha] at ha'⟩

lemma getBeforeAfter_anywhere (h : getBeforeAfter rules = phaseAnywhere) :
    rules.before = none ∧ rules.after = none := by
  unfold getBeforeAfter at h
  split at h
  · split_ifs at h
    · exact absurd h (by decide)
    · exact absurd h (by decide)
  · exact absurd h (by decide)
  · exact absurd h (by decide)
  · next hb ha => exact ⟨hb, ha⟩

/-- `axis2_phase_insert_handler_desc`. -/
lemma insertHandlerDesc_placed (hfl : ¬ (rules.first = true ∧ rules.last = true))
    (hfresh : desc.name ∉ phase.names) (hnodup : phase.order.Nodup)
    (h : insertHandlerDesc phase desc rules = .ok phase') :
    ∃ l r, Placed phase phase' desc rules l r := by
  unfold insertHandlerDesc at h
  split_ifs at h with hafter hbefore hboth hone hother
  · -- both rules
    cases hb : rules.before with
    | none => simp [hb] at h
    | some before =>
      cases ha : rules.after with
      | none => simp [hb, ha] at h
      | some after =>
        simp only [hb, ha] at h
        refine placed_both hfl hb ha ?_ ?_ hfresh hnodup h
        · simpa [isValidBefore, hb] using hbefore
        · simpa [isValidAfter, ha] using hafter
  · -- only `before`
    cases hb : rules.before with
    | none => simp [hb] at h
    | some before =>
      simp only [hb, Except.ok.injEq] at h
      subst h
      cases ha : rules.after with
      | some after => simp [getBeforeAfter, hb, ha, phaseBothBeforeAfter, axis2Failure] at hboth
      | none =>
        refine placed_before hfl hb ha ?_ hfresh
        simpa [isValidBefore, hb] using hbefore
  · -- only `after`
    cases ha : rules.after with
    | none => simp [ha] at h
    | some after =>
      simp only [ha, Except.ok.injEq] at h
      subst h
      cases hb : rules.before with
      | some before => simp [getBeforeAfter, hb, ha, phaseBothBeforeAfter, axis2Failure] at hboth
      | none =>
        refine placed_after hfl hb ha ?_ hfresh
        simpa [isValidAfter, ha] using hafter
  · -- no rule
    obtain rfl := Except.ok.inj h
    have hnone : rules.before = none ∧ rules.after = none := by
      cases hb : rules.before <;> cases ha : rules.after <;>
        simp_all [getBeforeAfter, phaseBothBeforeAfter, phaseBefore, phaseAfter, axis2Failure]
    have hins := (addUnique_inserted hfresh).order
    exact ⟨_, _, placed_of_no_rules hfl hnone.1 hnone.2 hins.1 hins.2⟩

lemma nodup_sides {l r : List String} {name : String} (hnodup : (l ++ r).Nodup) (hl : name ∈ l) :
    name ∉ r := fun hr => List.disjoint_of_nodup_append hnodup hl hr

/-- A handler that is declared first and last. -/
lemma oneHandler_placed (hf : rules.first = true) (hl : rules.last = true)
    (hempty : phase.handlers = []) (hnodup : phase.order.Nodup) :
    ∃ l r, Placed phase { addUnique phase desc with isOneHandler := true } desc rules l r := by
  have hnames : phase.names = [] := by simp [HandlerPhase.names, hempty]
  have hfresh : desc.name ∉ phase.names := by simp [hnames]
  have hins := (addUnique_inserted hfresh).order
  have hsplit : phase.order = phase.front ++ phase.back := by simp [order_eq, hnames]
  refine ⟨phase.front, phase.back, hsplit, ?_, ?_⟩
  · have : ({ addUnique phase desc with isOneHandler := true } : HandlerPhase).order =
        (addUnique phase desc).order := rfl
    rw [this, hins.2]
    simp [hempty]
  rw [hsplit] at hnodup
  constructor
  · rintro ⟨hb, ha⟩ (⟨before, after, -, -, hmem, -⟩ | ⟨-, -, hbad | hbad⟩)
    · simp [hnames] at hmem
    · obtain ⟨before, hbefore, hslot⟩ := ruleNames_iff.mp hbad
      have hmem : before ∈ phase.front := slotNamed_iff.mp hslot
      exact nodup_sides hnodup hmem (hb before hbefore (List.mem_append_left _ hmem))
    · obtain ⟨after, hafter, hslot⟩ := ruleNames_iff.mp hbad
      have hmem : after ∈ phase.back := slotNamed_iff.mp hslot
      exact nodup_sides hnodup (ha after hafter (List.mem_append_right _ hmem)) hmem
  · intro hok
    refine ⟨fun before hb hmem => ?_, fun after ha hmem => ?_⟩
    · obtain hmem | hmem := List.mem_append.mp hmem
      · refine absurd (.inr ⟨hf, hl, .inl ?_⟩) hok
        exact ruleNames_iff.mpr ⟨before, hb, slotNamed_iff.mpr hmem⟩
      · exact hmem
    · obtain hmem | hmem := List.mem_append.mp hmem
      · exact hmem
      · refine absurd (.inr ⟨hf, hl, .inr ?_⟩) hok
        exact ruleNames_iff.mpr ⟨after, ha, slotNamed_iff.mpr hmem⟩

lemma addHandlerDesc_placed (hfresh : desc.name ∉ phase.order) (hnodup : phase.order.Nodup)
    (h : addHandlerDesc phase desc = .ok phase') :
    ∃ rules l r, desc.rules = some rules ∧ Placed phase phase' desc rules l r := by
  have hnames : desc.name ∉ phase.names := fun hmem => hfresh (mem_order.mpr (.inr (.inl hmem)))
  unfold addHandlerDesc at h
  by_cases hone : phase.isOneHandler = true
  · simp [hone] at h
  rw [if_neg hone] at h
  cases hrules : desc.rules with
  | none => simp [hrules] at h
  | some rules =>
    refine ⟨rules, ?_⟩
    simp only [hrules] at h
    simp only [true_and]
    split_ifs at h with hsize hhandler hfl hf hl
    · have hflags := Bool.and_eq_true_iff.mp hfl
      obtain rfl := Except.ok.inj h
      refine oneHandler_placed hflags.1 hflags.2 ?_ hnodup
      simpa [hflags.1, hflags.2] using hsize
    · simp only [setFirstHandler] at h
      split_ifs at h with hset hany
      obtain rfl := Except.ok.inj h
      obtain ⟨hb, ha⟩ := getBeforeAfter_anywhere (by simpa using hany)
      have hnone : phase.firstHandler = none := by simpa using hset
      refine ⟨[], phase.order, placed_of_no_rules (by simpa using hfl) hb ha rfl ?_⟩
      simp [HandlerPhase.order, hnone]
    · simp only [setLastHandler] at h
      split_ifs at h with hset hany
      obtain rfl := Except.ok.inj h
      obtain ⟨hb, ha⟩ := getBeforeAfter_anywhere (by simpa using hany)
      have hnone : phase.lastHandler = none := by simpa using hset
      refine ⟨phase.order, [], placed_of_no_rules (by simpa using hfl) hb ha (by simp) ?_⟩
      simp [HandlerPhase.order, hnone]
    · exact insertHandlerDesc_placed (by simpa using hfl) hnames hnodup h

end Step

section Run

lemma addHandlerDescs_order {descs : List HandlerDesc} {phase final : HandlerPhase}
    (hnodup : (descs.map HandlerDesc.name ++ phase.order).Nodup)
    (h : addHandlerDescs phase descs = .ok final) :
    final.order.Perm (descs.map HandlerDesc.name ++ phase.order) ∧
      phase.order.Sublist final.order := by
  induction descs generalizing phase with
  | nil =>
    obtain rfl := Except.ok.inj h
    exact ⟨by simp, List.Sublist.refl _⟩
  | cons desc descs ih =>
    simp only [addHandlerDescs] at h
    cases hadd : addHandlerDesc phase desc with
    | error e => simp [hadd, bind, Except.bind] at h
    | ok phase1 =>
      simp only [hadd] at h
      simp only [List.map_cons, List.cons_append, List.nodup_cons, List.mem_append,
        not_or] at hnodup
      have hnodup0 : phase.order.Nodup := (List.nodup_append.mp hnodup.2).2.1
      obtain ⟨rules, l, r, -, hplaced⟩ := addHandlerDesc_placed hnodup.1.2 hnodup0 hadd
      have hperm : phase1.order.Perm (desc.name :: phase.order) := by
        rw [hplaced.order, hplaced.split]
        exact List.perm_middle
      have hsub : phase.order.Sublist phase1.order := by
        rw [hplaced.order, hplaced.split]
        exact (List.sublist_cons_self _ _).append_left l
      have hswap : (descs.map HandlerDesc.name ++ phase1.order).Perm
          (desc.name :: (descs.map HandlerDesc.name ++ phase.order)) :=
        (hperm.append_left _).trans List.perm_middle
      have hnodup1 : (descs.map HandlerDesc.name ++ phase1.order).Nodup := by
        rw [hswap.nodup_iff, List.nodup_cons, List.mem_append, not_or]
        exact ⟨hnodup.1, hnodup.2⟩
      obtain ⟨hfinal, hkeep⟩ := ih hnodup1 h
      exact ⟨hfinal.trans hswap, hsub.trans hkeep⟩

lemma addHandlerDescs_append (phase : HandlerPhase) (a b : List HandlerDesc) :
    addHandlerDescs phase (a ++ b) =
      (addHandlerDescs phase a).bind (addHandlerDescs · b) := by
  induction a generalizing phase with
  | nil => rfl
  | cons desc a ih =>
    simp only [List.cons_append, addHandlerDescs]
    cases addHandlerDesc phase desc with
    | error e => rfl
    | ok phase1 => exact ih phase1

end Run

/-- Every rule that names a handler which was in the phase when its own handler
was added holds in the order of invocation. -/
def RulesKept (descs : List HandlerDesc) (final : HandlerPhase) : Prop :=
  ∀ earlier desc later phase rules, descs = earlier ++ desc :: later →
    addHandlerDescs phaseCreate earlier = .ok phase → desc.rules = some rules →
      (∀ before, rules.before = some before → before ∈ phase.order →
        Precedes desc.name before final.order) ∧
      ∀ after, rules.after = some after → after ∈ phase.order →
        Precedes after desc.name final.order

/-- The rules of one handler in an order that keeps the order right after its call. -/
lemma rulesMet_iff {rules : PhaseRule} {name : String} {l r order : List String}
    (hnodup : order.Nodup) (hsub : (l ++ name :: r).Sublist order) :
    ((∀ before, rules.before = some before → before ∈ l ++ r → Precedes name before order) ∧
      ∀ after, rules.after = some after → after ∈ l ++ r → Precedes after name order) ↔
    RulesMet rules l r := by
  have hright {x : String} (hx : x ∈ r) : Precedes name x order := (precedes_after hx).trans hsub
  have hleft {x : String} (hx : x ∈ l) : Precedes x name order := (precedes_before hx).trans hsub
  constructor
  · rintro ⟨hb, ha⟩
    refine ⟨fun before hbefore hmem => ?_, fun after hafter hmem => ?_⟩
    · refine (List.mem_append.mp hmem).resolve_left fun hl => ?_
      exact Precedes.asymm hnodup (hb before hbefore hmem) (hleft hl)
    · refine (List.mem_append.mp hmem).resolve_right fun hr => ?_
      exact Precedes.asymm hnodup (ha after hafter hmem) (hright hr)
  · rintro ⟨hb, ha⟩
    exact ⟨fun before hbefore hmem => hright (hb before hbefore hmem),
      fun after hafter hmem => hleft (ha after hafter hmem)⟩

lemma call_rules_iff {descs earlier later : List HandlerDesc} {desc : HandlerDesc}
    {phase final : HandlerPhase} {rules : PhaseRule}
    (hnames : (descs.map HandlerDesc.name).Nodup)
    (hrun : addHandlerDescs phaseCreate descs = .ok final) (hsplit : descs = earlier ++ desc :: later)
    (hearlier : addHandlerDescs phaseCreate earlier = .ok phase) (hrules : desc.rules = some rules) :
    ((∀ before, rules.before = some before → before ∈ phase.order →
        Precedes desc.name before final.order) ∧
      ∀ after, rules.after = some after → after ∈ phase.order →
        Precedes after desc.name final.order) ↔ ¬ Misplaced phase rules := by
  subst hsplit
  have hcreate : phaseCreate.order = [] := rfl
  have hfinal := (addHandlerDescs_order (by simpa [hcreate] using hnames) hrun).1
  rw [hcreate, List.append_nil] at hfinal
  have hfinalNodup : final.order.Nodup := hfinal.nodup_iff.mpr hnames
  rw [List.map_append, List.map_cons] at hnames
  obtain ⟨hnames1, hnames2, hdisj⟩ := List.nodup_append.mp hnames
  have hphase := (addHandlerDescs_order (by simpa [hcreate] using hnames1) hearlier).1
  rw [hcreate, List.append_nil] at hphase
  have hfresh : desc.name ∉ phase.order := by
    intro hmem
    exact hdisj _ (hphase.mem_iff.mp hmem) _ (by simp) rfl
  rw [addHandlerDescs_append, hearlier] at hrun
  simp only [Except.bind, addHandlerDescs] at hrun
  cases hadd : addHandlerDesc phase desc with
  | error e => simp [hadd, bind, Except.bind] at hrun
  | ok phase1 =>
    simp only [hadd] at hrun
    obtain ⟨rules', l, r, hrules', hplaced⟩ :=
      addHandlerDesc_placed hfresh (hphase.nodup_iff.mpr hnames1) hadd
    obtain rfl : rules' = rules := Option.some.inj (hrules'.symm.trans hrules)
    have hperm1 : phase1.order.Perm (desc.name :: phase.order) := by
      rw [hplaced.order, hplaced.split]
      exact List.perm_middle
    have hnodup1 : (later.map HandlerDesc.name ++ phase1.order).Nodup := by
      have hswap : (later.map HandlerDesc.name ++ phase1.order).Perm
          (earlier.map HandlerDesc.name ++ desc.name :: later.map HandlerDesc.name) :=
        ((hperm1.trans (hphase.cons _)).append_left _).trans
          (List.perm_append_comm.trans (by simpa using List.perm_middle.symm))
      exact hswap.nodup_iff.mpr hnames
    have hsub := (addHandlerDescs_order hnodup1 hrun).2
    rw [← hplaced.met, hplaced.split]
    exact rulesMet_iff hfinalNodup (hplaced.order ▸ hsub)

/-- The rules are kept exactly when no call of the run misses its place. -/
theorem rules_kept_iff (descs : List HandlerDesc) (final : HandlerPhase)
    (hnames : (descs.map HandlerDesc.name).Nodup)
    (hrun : addHandlerDescs phaseCreate descs = .ok final) :
    RulesKept descs final ↔
      ∀ earlier desc later phase rules, descs = earlier ++ desc :: later →
        addHandlerDescs phaseCreate earlier = .ok phase → desc.rules = some rules →
          ¬ Misplaced phase rules := by
  constructor
  · intro h earlier desc later phase rules hsplit hearlier hrules
    exact (call_rules_iff hnames hrun hsplit hearlier hrules).mp
      (h earlier desc later phase rules hsplit hearlier hrules)
  · intro h earlier desc later phase rules hsplit hearlier hrules
    exact (call_rules_iff hnames hrun hsplit hearlier hrules).mpr
      (h earlier desc later phase rules hsplit hearlier hrules)

/-- A handler that is placed in front of another one. -/
theorem rules_kept_before :
    RulesKept
      [⟨"Addressing", some ⟨none, none, false, false⟩, true⟩,
        ⟨"Security", some ⟨some "Addressing", none, false, false⟩, true⟩]
      ⟨none, [⟨"Security", some ⟨some "Addressing", none, false, false⟩, true⟩,
        ⟨"Addressing", some ⟨none, none, false, false⟩, true⟩], none, false⟩ := by
  refine (rules_kept_iff _ _ (by decide) rfl).mpr ?_
  intro earlier desc later phase rules hsplit _ hrules
  have hmem : desc ∈ earlier ++ desc :: later := by simp
  rw [← hsplit] at hmem
  obtain rfl | rfl : desc = ⟨"Addressing", some ⟨none, none, false, false⟩, true⟩ ∨
      desc = ⟨"Security", some ⟨some "Addressing", none, false, false⟩, true⟩ := by
    simpa using hmem
  · obtain rfl := Option.some.inj hrules
    exact not_misplaced_of_one_rule (by decide) (.inl rfl)
  · obtain rfl := Option.some.inj hrules
    exact not_misplaced_of_one_rule (by decide) (.inr rfl)

/-- The first handler is there, then an ordinary one; a handler that shall come
after the first one and before the other is put at the end. -/
theorem placed_behind_before :
    (([⟨"Transport", some ⟨none, none, true, false⟩, true⟩,
        ⟨"Addressing", some ⟨none, none, false, false⟩, true⟩,
        ⟨"Security", some ⟨some "Addressing", some "Transport", false, false⟩, true⟩] :
          List HandlerDesc).map HandlerDesc.name).Nodup ∧
    ∃ final, addHandlerDescs phaseCreate
      [⟨"Transport", some ⟨none, none, true, false⟩, true⟩,
        ⟨"Addressing", some ⟨none, none, false, false⟩, true⟩,
        ⟨"Security", some ⟨some "Addressing", some "Transport", false, false⟩, true⟩] = .ok final ∧
      ¬ RulesKept
        [⟨"Transport", some ⟨none, none, true, false⟩, true⟩,
          ⟨"Addressing", some ⟨none, none, false, false⟩, true⟩,
          ⟨"Security", some ⟨some "Addressing", some "Transport", false, false⟩, true⟩] final := by
  refine ⟨by decide, _, rfl, fun h => ?_⟩
  obtain ⟨hbefore, -⟩ := h
    [⟨"Transport", some ⟨none, none, true, false⟩, true⟩,
      ⟨"Addressing", some ⟨none, none, false, false⟩, true⟩] _ [] _ _ rfl rfl rfl
  have hprecedes := hbefore "Addressing" rfl (by decide)
  exact absurd hprecedes (by unfold Precedes; decide)

end Axis2C.Engine
