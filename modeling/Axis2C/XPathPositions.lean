import Axis2C.XPathAxes

/-!
# Positions

The counter of a predicate is in its operation: it goes up with each node that comes to the
predicate, from whichever context node, and is only reset when an expression is evaluated anew.
-/
namespace Axis2C.XPath

variable {D : Type*}

section Frames

variable {doc : Document} {env : Env D} {R : State D → State D → Prop} {Away : ℕ → Prop}
  {f g : Evaluation D} {p : ℕ}

def Operation.places : Operation D → List ℕ
  | .rootNode op1 | .contextNode op1 | .functionCall _ op1 => op1.places
  | .step _ _ op1 op2 | .union op1 op2 | .equalExpr op1 op2 | .andExpr op1 op2 | .orExpr op1 op2
  | .pathExpression op1 op2 | .argument op1 op2 => op1.places ++ op2.places
  | .predicate place op1 next => place :: (op1.places ++ next.places)
  | .parseEnd | .result | .literal _ _ | .number _ _ => []

/-- What a relation of states allows an evaluation with predicates at the places `Away` to do: it
is about the context's attribute and the counters alone. -/
structure Framing (doc : Document) (env : Env D) (R : State D → State D → Prop)
    (Away : ℕ → Prop) : Prop where
  trans : ∀ {a b c}, R a b → R b c → R a c
  free : ∀ {st st' : State D}, st'.context.attr = st.context.attr → st'.pos = st.pos → R st st'
  tick : ∀ {place} (st : State D), Away place → R st (st.tick place)
  attrs : ∀ (test : NodeTest) (f : Evaluation D) (l : List ℕ) (n : ℕ) (st : State D),
    (∀ st, R st (f st).2) → R st (((visitEach doc env (fun a st => st.setAttr (some a)) test f l
      (st.setNode none)).2.setNode (some n)).setAttr none)

/-- An evaluation within the relation. -/
def StaysIn (R : State D → State D → Prop) (f : Evaluation D) : Prop := ∀ st, R st (f st).2

section Laws

variable (hR : Framing doc env R Away)

include hR

lemma Framing.refl (st : State D) : R st st := hR.free rfl rfl

lemma Framing.keeps_operand (isEnd : Bool) (unset : ℕ) (hf : StaysIn R f) :
    StaysIn R fun st => if isEnd then (unset, st) else f st := by
  intro st
  cases isEnd with
  | true => exact hR.refl st
  | false => exact hf st

lemma Framing.keeps_tested (test : NodeTest) (hf : StaysIn R f) :
    StaysIn R fun st => if nodeTestMatch doc env test st.context then f st else (0, st) := by
  intro st
  dsimp only
  split
  · exact hf st
  · exact hR.refl st

lemma Framing.keeps_visitEach {α : Type*} {enter : α → State D → State D}
    (henter : ∀ a st, R st (enter a st)) (test : NodeTest) (hf : StaysIn R f) (l : List α) :
    StaysIn R (visitEach doc env enter test f l) := by
  induction l with
  | nil => exact hR.refl
  | cons a l ih =>
    exact fun st => hR.trans (hR.trans (henter a st) (hR.keeps_tested test hf _)) (ih _)

lemma Framing.keeps_iterator (axis : Axis) (test : NodeTest) (hf : StaysIn R f) :
    StaysIn R (iterator doc env axis test f) := by
  have hnode (n : ℕ) (st : State D) : R st (st.setNode (some n)) := hR.free rfl rfl
  have hns (m : ℕ) (st : State D) : R st (st.setNs (some m)) := hR.free rfl rfl
  have hnodes (l : List ℕ) : StaysIn R (visitNodes doc env test f l) := hR.keeps_visitEach hnode test hf l
  intro st
  cases hn : st.context.node with
  | none =>
    rw [(iterator_none axis hn).1]
    exact hR.refl st
  | some n =>
    cases iteration doc env axis test n with
    | nodes l h =>
      rw [(h f st hn).1]
      exact hR.trans (hnodes l st) (hnode n _)
    | selfAnd found h =>
      rw [(h f st hn).1]
      exact hR.trans (hR.trans (hR.keeps_tested test hf st) (hnodes _ _)) (hnode n _)
    | attrs _ l h =>
      rw [(h f st hn).1]
      exact hR.attrs test f l n st hf
    | nss _ l h =>
      rw [(h f st hn).1]
      have hstart : R st (st.setNode none) := hR.free rfl rfl
      have hloop := hR.keeps_visitEach hns test hf l (st.setNode none)
      exact hR.trans (hR.trans hstart hloop) (hR.free rfl rfl)
    | nothing h =>
      rw [(h f st hn).1]
      exact hR.refl st

lemma Framing.keeps_evaluateTest
    (test : List (ResultNode D) → List (ResultNode D) → Bool × List Pointer) (end1 end2 : Bool)
    (hf : StaysIn R f) (hg : StaysIn R g) : StaysIn R (evaluateTest env test end1 end2 f g) :=
  fun st => hR.trans (hR.trans (hR.keeps_operand end1 env.unset hf st) (hR.keeps_operand end2 env.unset hg _))
    (hR.free rfl rfl)

lemma Framing.keeps_visitFiltered (size : ℕ) (hf : StaysIn R f) (l : List (ResultNode D)) (i : ℕ) :
    StaysIn R (visitFiltered size f i l) := by
  induction l generalizing i with
  | nil => exact hR.refl
  | cons r l ih =>
    cases r with
    | node n =>
      intro st
      have henter : R st ((st.setNode (some n)).setPosition (i + 1) size) := hR.free rfl rfl
      exact hR.trans (hR.trans henter (hf _)) (ih (i + 1) _)
    | _ => exact ih (i + 1)

omit hR in
lemma foldl_push_same (results : List (ResultNode D)) (st : State D) :
    (results.foldl State.push st).context = st.context ∧
      (results.foldl State.push st).pos = st.pos := by
  induction results generalizing st with
  | nil => exact ⟨rfl, rfl⟩
  | cons r results ih => exact ih _

omit hR in
lemma evaluatePredicateCondition_same (n : ℕ) (st : State D) :
    (evaluatePredicateCondition env n st).2.context = st.context ∧
      (evaluatePredicateCondition env n st).2.pos = st.pos := by
  unfold evaluatePredicateCondition
  split
  · exact ⟨rfl, rfl⟩
  · split <;> exact ⟨rfl, rfl⟩
  · exact ⟨rfl, rfl⟩

lemma Framing.keeps_testPredicate {place : ℕ} (isEnd : Bool) (hplace : Away place) (hf : StaysIn R f)
    (st : State D) : R st (testPredicate env place isEnd f st).2 := by
  unfold testPredicate
  cases isEnd with
  | true => exact hR.tick st hplace
  | false =>
    simp only [Bool.false_eq_true, if_false]
    refine hR.trans (hR.trans (hR.tick st hplace) (hf _)) (hR.free ?_ ?_)
    · rw [(evaluatePredicateCondition_same _ _).1]
      rfl
    · rw [(evaluatePredicateCondition_same _ _).2]
      rfl

lemma Framing.keeps_evaluatePredicate {place : ℕ} {op1 pred : Operation D} {next : Evaluation D}
    (hplace : Away place) (hop1 : StaysIn R (evaluateOperation doc env op1))
    (hnext : StaysIn R (evaluatePredicate doc env pred next)) :
    StaysIn R (evaluatePredicate doc env (.predicate place op1 pred) next) := by
  intro st
  have htest := hR.keeps_testPredicate op1.isEnd hplace hop1 st
  rw [evaluatePredicate]
  dsimp only
  split
  · have hback : R (testPredicate env place op1.isEnd (evaluateOperation doc env op1) st).2
        ((testPredicate env place op1.isEnd (evaluateOperation doc env op1) st).2.setNode
          st.context.node) := hR.free rfl rfl
    exact hR.trans (hR.trans htest hback) (hnext _)
  · exact htest

lemma Framing.keeps_evaluateOperation (op : Operation D) (hop : ∀ p ∈ op.places, Away p) :
    StaysIn R (evaluateOperation doc env op) ∧
      ∀ next, StaysIn R next → StaysIn R (evaluatePredicate doc env op next) := by
  induction op with
  | parseEnd => exact ⟨hR.refl, fun next hnext => hnext⟩
  | rootNode op1 ih =>
    have henter (st : State D) : R st (st.setNode (some doc.root)) := hR.free rfl rfl
    have hroot : StaysIn R fun st => evaluateOperation doc env op1 (st.setNode (some doc.root)) :=
      fun st => hR.trans (henter st) ((ih hop).1 _)
    exact ⟨hR.keeps_operand op1.isEnd 0 hroot, fun next hnext => hnext⟩
  | contextNode op1 ih => exact ⟨hR.keeps_operand op1.isEnd 0 (ih hop).1, fun next hnext => hnext⟩
  | step axis test pred next ihp ihn =>
    obtain ⟨hpred, hnext⟩ := List.forall_mem_append.mp hop
    exact ⟨hR.keeps_operand next.isEnd 0 (hR.keeps_iterator axis test ((ihp hpred).2 _ (ihn hnext).1)),
      fun next hnext => hnext⟩
  | result => exact ⟨fun st => hR.free rfl rfl, fun next hnext => hnext⟩
  | union op1 op2 ih1 ih2 =>
    obtain ⟨hop1, hop2⟩ := List.forall_mem_append.mp hop
    refine ⟨fun st => ?_, fun next hnext => hnext⟩
    exact hR.trans (hR.trans (hR.keeps_operand op1.isEnd 0 (ih1 hop1).1 st)
      (hR.keeps_operand op2.isEnd 0 (ih2 hop2).1 _)) (hR.free rfl rfl)
  | equalExpr op1 op2 ih1 ih2 | andExpr op1 op2 ih1 ih2 | orExpr op1 op2 ih1 ih2 =>
    obtain ⟨hop1, hop2⟩ := List.forall_mem_append.mp hop
    exact ⟨hR.keeps_evaluateTest _ _ _ (ih1 hop1).1 (ih2 hop2).1, fun next hnext => hnext⟩
  | predicate place op1 next ih1 ihn =>
    obtain ⟨hplace, hop⟩ := List.forall_mem_cons.mp hop
    obtain ⟨hop1, hnext⟩ := List.forall_mem_append.mp hop
    exact ⟨hR.refl, fun n hn => hR.keeps_evaluatePredicate hplace (ih1 hop1).1 ((ihn hnext).2 n hn)⟩
  | literal place value | number place value =>
    exact ⟨fun st => hR.free rfl rfl, fun next hnext => hnext⟩
  | pathExpression op1 op2 ih1 ih2 =>
    obtain ⟨hop1, hop2⟩ := List.forall_mem_append.mp hop
    refine ⟨hR.keeps_operand op1.isEnd 0 fun st => ?_, fun next hnext => hnext⟩
    cases op2.isEnd with
    | true => exact (ih1 hop1).1 st
    | false =>
      have hdrop (st : State D) (n : ℕ) : R st (st.drop n) := hR.free rfl rfl
      exact hR.trans (hR.trans ((ih1 hop1).1 st) (hdrop _ _))
        (hR.keeps_visitFiltered _ (ih2 hop2).1 _ _ _)
  | functionCall name op1 ih =>
    refine ⟨fun st => ?_, fun next hnext => hnext⟩
    simp only [evaluateOperation]
    cases env.functions name with
    | none => exact hR.refl st
    | some func =>
      dsimp only
      refine hR.trans (hR.keeps_operand op1.isEnd 0 (ih hop).1 st) (hR.free ?_ ?_)
      · rw [(foldl_push_same _ _).1]
        rfl
      · rw [(foldl_push_same _ _).2]
        rfl
  | argument op1 op2 ih1 ih2 =>
    obtain ⟨hop1, -⟩ := List.forall_mem_append.mp hop
    refine ⟨fun st => ?_, fun next hnext => hnext⟩
    exact hR.trans (hR.keeps_operand op1.isEnd 0 (ih1 hop1).1 st)
      (hR.keeps_operand op2.isEnd 0 (ih1 hop1).1 _)

end Laws

/-- The counter at this place stays as it is. -/
def Still (p : ℕ) (st st' : State D) : Prop := st'.pos p = st.pos p

variable (doc env) in
lemma framing_still (p : ℕ) : Framing doc env (Still p) (· ≠ p) where
  trans h h' := Eq.trans h' h
  free _ h := congrFun h p
  tick _ h := Function.update_of_ne h.symm _ _
  attrs test f l n st hf := by
    have hloop (l : List ℕ) (st : State D) :
        (visitEach doc env (fun a st => st.setAttr (some a)) test f l st).2.pos p = st.pos p := by
      induction l generalizing st with
      | nil => rfl
      | cons a l ih =>
        rw [visitEach]
        refine (ih _).trans ?_
        split
        · exact hf _
        · rfl
    exact hloop l (st.setNode none)

variable (doc env) in
/-- An evaluation gives no attribute to a context without one. -/
lemma framing_attr : Framing doc env
    (fun st st' => st.context.attr = none → st'.context.attr = none) fun _ => True where
  trans h h' hst := h' (h hst)
  free h _ hst := h.trans hst
  tick _ _ hst := hst
  attrs _ _ _ _ _ _ _ := rfl

lemma evaluateOperation_still (op : Operation D) (hp : p ∉ op.places) :
    StaysIn (Still p) (evaluateOperation doc env op) ∧
      ∀ next, StaysIn (Still p) next → StaysIn (Still p) (evaluatePredicate doc env op next) :=
  (framing_still doc env p).keeps_evaluateOperation op fun _ hq hpq => hp (hpq ▸ hq)

lemma testPredicate_pos (place : ℕ) (isEnd : Bool) (st : State D) :
    (testPredicate env place isEnd f st).2.pos =
      (if isEnd then st.tick place else (f (st.tick place)).2).pos := by
  unfold testPredicate
  cases isEnd with
  | true => rfl
  | false => exact (evaluatePredicateCondition_same _ _).2

end Frames

section Arrivals

variable (doc : Document) (env : Env D)

/-- The predicates of a step, one behind the other. -/
def Operation.chain : Operation D → List ℕ
  | .predicate place _ next => place :: next.chain
  | _ => []

/-- The predicates that a node comes to, with the position that each compares it with. -/
def comesTo : Operation D → State D → List (ℕ × ℕ)
  | .predicate place op1 pred, st =>
    let r := testPredicate env place op1.isEnd (evaluateOperation doc env op1) st
    (place, r.2.pos place) ::
      if r.1 then comesTo pred (r.2.setNode st.context.node) else []
  | _, _ => []

/-- The positions with which the predicate at a place is tested in these visits, in order. -/
def arrivalsIn (test : NodeTest) (pred : Operation D) (p : ℕ) (states : List (State D)) : List ℕ :=
  (((states.filter fun st => nodeTestMatch doc env test st.context).flatMap
    (comesTo doc env pred)).filter fun q => q.1 = p).map Prod.snd

/-- Between two states the counter at a place goes up by one for each of these positions. -/
def Counts (p : ℕ) (st st' : State D) (l : List ℕ) : Prop :=
  ∃ k, l = List.range' (st.pos p + 1) k ∧ st'.pos p = st.pos p + k

variable {doc env} {p : ℕ} {st st' st'' : State D} {l l' : List ℕ}

lemma counts_nil (h : st'.pos p = st.pos p) : Counts p st st' [] := ⟨0, rfl, h⟩

lemma Counts.trans (h : Counts p st st' l) (h' : Counts p st' st'' l') :
    Counts p st st'' (l ++ l') := by
  obtain ⟨k, rfl, hk⟩ := h
  obtain ⟨k', rfl, hk'⟩ := h'
  refine ⟨k + k', ?_, by omega⟩
  rw [hk, Nat.add_right_comm, List.range'_append_1]

lemma Counts.of_pos {st₁ st₁' : State D} (h : Counts p st st' l) (hst : st₁.pos p = st.pos p)
    (hst' : st₁'.pos p = st'.pos p) : Counts p st₁ st₁' l := by
  obtain ⟨k, hl, hk⟩ := h
  exact ⟨k, by rw [hst, hl], by rw [hst, hst', hk]⟩

lemma chain_subset (pred : Operation D) : pred.chain ⊆ pred.places := by
  induction pred with
  | predicate place op1 next _ ih =>
    exact List.cons_subset_cons _ fun p hp => List.mem_append_right _ (ih hp)
  | _ => exact List.nil_subset _

lemma fst_mem_chain (pred : Operation D) (st : State D) :
    ∀ q ∈ comesTo doc env pred st, q.1 ∈ pred.chain := by
  induction pred generalizing st with
  | predicate place op1 next _ ih =>
    intro q hq
    rw [comesTo, List.mem_cons] at hq
    obtain rfl | hq := hq
    · exact List.mem_cons_self
    · split at hq
      · exact List.mem_cons_of_mem _ (ih _ q hq)
      · cases hq
  | _ => exact fun q hq => absurd hq List.not_mem_nil

lemma comesTo_counts {pred next : Operation D} (hplaces : (pred.places ++ next.places).Nodup)
    (hp : p ∈ pred.chain) (st : State D) :
    Counts p st (evaluatePredicate doc env pred (evaluateOperation doc env next) st).2
      (((comesTo doc env pred st).filter fun q => q.1 = p).map Prod.snd) := by
  induction pred generalizing st with
  | predicate place op1 pred _ ih =>
    have hnodup : (pred.places ++ next.places).Nodup :=
      hplaces.sublist (((List.sublist_append_right _ _).cons _).append_right _)
    rw [Operation.places, List.cons_append, List.nodup_cons, List.append_assoc] at hplaces
    obtain ⟨hplace, hplaces⟩ := hplaces
    rw [List.mem_append, List.mem_append, not_or, not_or] at hplace
    have hdisjoint := List.disjoint_of_nodup_append hplaces
    by_cases hpp : p = place
    · -- this is the predicate, and the ones behind it are others
      subst hpp
      have hop1 : StaysIn (Still p) (evaluateOperation doc env op1) :=
        (evaluateOperation_still _ hplace.1).1
      have hrest : StaysIn (Still p) (evaluatePredicate doc env pred (evaluateOperation doc env next)) :=
        (evaluateOperation_still _ hplace.2.1).2 _ (evaluateOperation_still _ hplace.2.2).1
      have hbehind (st : State D) : (comesTo doc env pred st).filter (fun q => q.1 = p) = [] := by
        refine List.filter_eq_nil_iff.mpr fun q hq hqp => hplace.2.1 ?_
        rw [← of_decide_eq_true hqp]
        exact chain_subset pred (fst_mem_chain pred st q hq)
      have htick : (st.tick p).pos p = st.pos p + 1 := Function.update_self _ _ _
      have hpos : (testPredicate env p op1.isEnd (evaluateOperation doc env op1) st).2.pos p =
          st.pos p + 1 := by
        rw [testPredicate_pos]
        cases op1.isEnd with
        | true => exact htick
        | false => exact (hop1 _).trans htick
      refine ⟨1, ?_, ?_⟩
      · rw [comesTo, List.filter_cons_of_pos (by simp), hpos]
        split
        · simp [hbehind]
        · rfl
      · rw [evaluatePredicate]
        dsimp only
        split
        · exact (hrest _).trans hpos
        · exact hpos
    · have hchain : p ∈ pred.chain := (List.mem_cons.mp hp).resolve_left hpp
      have hop1 : StaysIn (Still p) (evaluateOperation doc env op1) :=
        (evaluateOperation_still _ fun hmem =>
          hdisjoint hmem (List.mem_append_left _ (chain_subset pred hchain))).1
      have hpos : (testPredicate env place op1.isEnd (evaluateOperation doc env op1) st).2.pos p =
          st.pos p :=
        (framing_still doc env p).keeps_testPredicate op1.isEnd (Ne.symm hpp) hop1 st
      rw [comesTo, evaluatePredicate]
      dsimp only
      rw [List.filter_cons_of_neg (by simpa using Ne.symm hpp)]
      split
      · exact (ih hnodup hchain _).of_pos hpos.symm rfl
      · exact counts_nil hpos
  | _ => exact absurd hp List.not_mem_nil

lemma arrivalsIn_cons (test : NodeTest) (pred : Operation D) (st : State D)
    (states : List (State D)) :
    arrivalsIn doc env test pred p (st :: states) =
      (if nodeTestMatch doc env test st.context then
        ((comesTo doc env pred st).filter fun q => q.1 = p).map Prod.snd else []) ++
      arrivalsIn doc env test pred p states := by
  unfold arrivalsIn
  cases h : nodeTestMatch doc env test st.context with
  | true | false => simp [h]

lemma tested_snd (test : NodeTest) (f : Evaluation D) (st : State D) :
    (if nodeTestMatch doc env test st.context then f st else (0, st)).2 =
      if nodeTestMatch doc env test st.context then (f st).2 else st := by
  split <;> rfl

variable {pred next : Operation D} (hplaces : (pred.places ++ next.places).Nodup)
  (hp : p ∈ pred.chain)

include hplaces hp

/-- One visit, whether its node passes the test or not. -/
lemma counts_tested (test : NodeTest) (st : State D) :
    Counts p st (if nodeTestMatch doc env test st.context then
        evaluatePredicate doc env pred (evaluateOperation doc env next) st else (0, st)).2
      (if nodeTestMatch doc env test st.context then
        ((comesTo doc env pred st).filter fun q => q.1 = p).map Prod.snd else []) := by
  split
  · exact comesTo_counts hplaces hp st
  · exact counts_nil rfl

lemma counts_visit (test : NodeTest) {st st' : State D} {states : List (State D)}
    (h : Counts p (if nodeTestMatch doc env test st.context then
        (evaluatePredicate doc env pred (evaluateOperation doc env next) st).2 else st) st'
      (arrivalsIn doc env test pred p states)) :
    Counts p st st' (arrivalsIn doc env test pred p (st :: states)) := by
  rw [arrivalsIn_cons]
  refine (counts_tested hplaces hp test st).trans ?_
  rwa [tested_snd]

lemma counts_visitEach {α : Type*} {enter : α → State D → State D}
    (henter : ∀ a st, (enter a st).pos p = st.pos p) (test : NodeTest) (l : List α)
    (st : State D) :
    Counts p st (visitEach doc env enter test
        (evaluatePredicate doc env pred (evaluateOperation doc env next)) l st).2
      (arrivalsIn doc env test pred p (visitStates doc env enter test
        (evaluatePredicate doc env pred (evaluateOperation doc env next)) l st)) := by
  induction l generalizing st with
  | nil => exact counts_nil rfl
  | cons a l ih =>
    rw [visitEach, visitStates]
    dsimp only
    rw [tested_snd]
    exact (counts_visit hplaces hp test (ih _)).of_pos (henter a st).symm rfl

lemma counts_iterator (axis : Axis) (test : NodeTest) (st : State D) :
    Counts p st (iterator doc env axis test
        (evaluatePredicate doc env pred (evaluateOperation doc env next)) st).2
      (arrivalsIn doc env test pred p (visits doc env axis test
        (evaluatePredicate doc env pred (evaluateOperation doc env next)) st)) := by
  have hnode (n : ℕ) (st : State D) : (st.setNode (some n)).pos p = st.pos p := rfl
  have hattr (a : ℕ) (st : State D) : (st.setAttr (some a)).pos p = st.pos p := rfl
  have hns (m : ℕ) (st : State D) : (st.setNs (some m)).pos p = st.pos p := rfl
  cases hn : st.context.node with
  | none =>
    rw [(iterator_none axis hn).1, (iterator_none axis hn).2]
    exact counts_nil rfl
  | some n =>
    cases iteration doc env axis test n with
    | nodes l h =>
      rw [(h _ st hn).1, (h _ st hn).2]
      exact (counts_visitEach hplaces hp hnode test l st).of_pos rfl rfl
    | selfAnd found h =>
      rw [(h _ st hn).1, (h _ st hn).2, visitSelfAnd]
      dsimp only
      rw [tested_snd]
      exact (counts_visit hplaces hp test (counts_visitEach hplaces hp hnode test _ _)).of_pos
        rfl rfl
    | attrs _ l h =>
      rw [(h _ st hn).1, (h _ st hn).2]
      exact (counts_visitEach hplaces hp hattr test l (st.setNode none)).of_pos rfl rfl
    | nss _ l h =>
      rw [(h _ st hn).1, (h _ st hn).2]
      exact (counts_visitEach hplaces hp hns test l (st.setNode none)).of_pos rfl rfl
    | nothing h =>
      rw [(h _ st hn).1, (h _ st hn).2]
      exact counts_nil rfl

end Arrivals

section Runs

variable (doc : Document) (env : Env D)

/-- A step as it is compiled: every predicate in it, and behind it, has a place of its own. -/
structure CompiledStep (D : Type*) where
  axis : Axis
  test : NodeTest
  pred : Operation D
  next : Operation D
  next_isEnd : next.isEnd = false
  places : (pred.places ++ next.places).Nodup

namespace CompiledStep

variable (s : CompiledStep D)

def operation : Operation D := .step s.axis s.test s.pred s.next

def visits (st : State D) : List (State D) :=
  XPath.visits doc env s.axis s.test
    (evaluatePredicate doc env s.pred (evaluateOperation doc env s.next)) st

/-- The positions with which a predicate is tested from a context node. -/
def arrivals (p : ℕ) (st : State D) : List ℕ :=
  arrivalsIn doc env s.test s.pred p (s.visits doc env st)

/-- The states in which the step is evaluated, for one context node behind the other. -/
def runs : List ℕ → State D → List (State D)
  | [], _ => []
  | c :: cs, st => st.setNode (some c) ::
      runs cs (evaluateOperation doc env s.operation (st.setNode (some c))).2

variable {doc env s} {p : ℕ}

lemma evaluate_eq (st : State D) : evaluateOperation doc env s.operation st =
    iterator doc env s.axis s.test
      (evaluatePredicate doc env s.pred (evaluateOperation doc env s.next)) st := by
  simp [operation, evaluateOperation, s.next_isEnd]

lemma counts_evaluate (hp : p ∈ s.pred.chain) (st : State D) :
    Counts p st (evaluateOperation doc env s.operation st).2 (s.arrivals doc env p st) := by
  rw [evaluate_eq]
  exact counts_iterator s.places hp s.axis s.test st

/-- A predicate counts from one for each context node exactly when the nodes that come to it come
from one context node. -/
lemma counts_runs_iff (hp : p ∈ s.pred.chain) (cs : List ℕ) (st : State D) :
    (∀ st' ∈ s.runs doc env cs st,
        s.arrivals doc env p st' = List.range' 1 (s.arrivals doc env p st').length) ↔
      (st.pos p = 0 ∨ ∀ st' ∈ s.runs doc env cs st, s.arrivals doc env p st' = []) ∧
      (s.runs doc env cs st).Pairwise fun a b =>
        s.arrivals doc env p a = [] ∨ s.arrivals doc env p b = [] := by
  induction cs generalizing st with
  | nil => simp [runs]
  | cons c cs ih =>
    obtain ⟨k, hk, hpos⟩ : Counts p (st.setNode (some c))
        (evaluateOperation doc env s.operation (st.setNode (some c))).2
        (s.arrivals doc env p (st.setNode (some c))) := counts_evaluate hp _
    have hstart : (st.setNode (some c)).pos p = st.pos p := rfl
    rw [hstart] at hk hpos
    have hfirst : List.range' (st.pos p + 1) k =
        List.range' 1 (List.range' (st.pos p + 1) k).length ↔ k = 0 ∨ st.pos p = 0 := by
      rw [List.length_range']
      cases k with
      | zero => simp
      | succ k =>
        constructor
        · intro h
          have hhead := congrArg List.head? h
          simp only [List.range'_succ, List.head?_cons, Option.some.injEq] at hhead
          exact .inr (by omega)
        · intro h
          rw [h.resolve_left (Nat.succ_ne_zero k)]
    rw [runs, List.forall_mem_cons, List.forall_mem_cons, List.pairwise_cons, ih, hpos, hk, hfirst]
    simp only [List.range'_eq_nil_iff]
    by_cases hk0 : k = 0
    · simp [hk0]
    · by_cases hpos0 : st.pos p = 0
      · simp [hk0, hpos0]
      · simp [hk0, hpos0]

end CompiledStep

end Runs

section Items

variable (doc : Document) (env : Env D)

/-- The nodes that an iterator goes through, when the continuation leaves the context alone. -/
def Document.visitedNodes : Axis → ℕ → List ℕ
  | .child, n => doc.nextSiblings (doc.firstChild n)
  | .descendant, n => doc.descendants (doc.firstChild n)
  | .parent, n => (doc.parent n).toList
  | .ancestor, n => doc.parents (doc.parent n)
  | .followingSibling, n => doc.nextSiblings (doc.next n)
  | .precedingSibling, n => doc.previousSiblings (doc.prev n)
  | .following, n => doc.followingNodes n
  | .preceding, n => doc.precedingNodes n
  | .self, n => [n]
  | .descendantOrSelf, n => n :: doc.descendants (doc.firstChild n)
  | .ancestorOrSelf, n => n :: doc.parents (doc.parent n)
  | .attr, _ | .ns, _ => []

/-- An axis as items; the order of attributes and namespaces is that of their table. -/
def Document.items (nodes : Axis → ℕ → List ℕ) (axis : Axis) (n : ℕ) : List Item :=
  match axis with
  | .attr => if doc.nodeType n = .element then (doc.attributes n).map .attr else []
  | .ns => if doc.nodeType n = .element then (doc.namespaces n).map .ns else []
  | axis => (nodes axis n).map .node

def Item.context : Item → Context
  | .node n => ⟨some n, none, none, 0, 0⟩
  | .attr a => ⟨none, some a, none, 0, 0⟩
  | .ns n => ⟨none, none, some n, 0, 0⟩

/-- The items that pass the node test. -/
def matching (test : NodeTest) (items : List Item) : List Item :=
  items.filter fun i => nodeTestMatch doc env test i.context

variable {doc env}

lemma nodeTestMatch_item {c : Context} {i : Item} (h : c.item = some i) (test : NodeTest) :
    nodeTestMatch doc env test c = nodeTestMatch doc env test i.context := by
  obtain ⟨node, attr, ns, position, size⟩ := c
  cases node with
  | some n =>
    obtain rfl := Option.some.inj h
    rfl
  | none =>
    cases attr with
    | some a =>
      obtain rfl := Option.some.inj h
      rfl
    | none =>
      cases ns with
      | some n =>
        obtain rfl := Option.some.inj h
        rfl
      | none => cases h

end Items

section Numbers

variable (doc : Document) (env : Env D)

/-- What follows a node test: the end of the path or the next step. -/
def Operation.isStep : Operation D → Bool
  | .result | .step _ _ _ _ => true
  | _ => false

/-- A step with a positive number as its predicate. -/
structure NumberedStep (env : Env D) where
  axis : Axis
  test : NodeTest
  number : ℕ
  number_pos : 0 < number
  value : D
  eq_value : ∀ k, env.eq value (env.ofNat k) = decide (k = number)
  place : ℕ
  literal : ℕ
  next : Operation D
  next_isStep : next.isStep = true
  places : (place :: next.places).Nodup

variable {env} in
def NumberedStep.compiled (s : NumberedStep env) : CompiledStep D where
  axis := s.axis
  test := s.test
  pred := .predicate s.place (.number s.literal s.value) .parseEnd
  next := s.next
  next_isEnd := by
    have hnext := s.next_isStep
    cases h : s.next <;> simp_all [Operation.isStep, Operation.isEnd]
  places := s.places

/-- What the step selects from a context node: the items at which the next step is evaluated. -/
def CompiledStep.selected (s : CompiledStep D) (st : State D) : List (Option Item) :=
  (((s.visits doc env st).filter fun st => nodeTestMatch doc env s.test st.context).filterMap
    (passes doc env s.pred)).map fun st => st.context.item

variable {doc env}

/-- What the next step leaves of the context. -/
structure Leaves (st st' : State D) : Prop where
  node : st'.context.node = st.context.node
  attr : st.context.node = none → st'.context.attr = st.context.attr

lemma leaves_of_isStep {next : Operation D} (h : next.isStep = true) (st : State D) :
    Leaves st (evaluateOperation doc env next st).2 := by
  cases next with
  | result => exact ⟨rfl, fun _ => rfl⟩
  | step axis test pred next =>
    rw [evaluateOperation]
    split
    · exact ⟨rfl, fun _ => rfl⟩
    · cases hn : st.context.node with
      | none =>
        dsimp only
        rw [(iterator_none axis hn).1]
        exact ⟨rfl, fun _ => rfl⟩
      | some n => exact ⟨(iterator_spec axis hn).2.trans hn.symm, fun hnone => by cases hn.symm.trans hnone⟩
  | _ => cases h

lemma Leaves.trans {st st' st'' : State D} (h : Leaves st st') (h' : Leaves st' st'') :
    Leaves st st'' :=
  ⟨h'.node.trans h.node, fun hn => (h'.attr (h.node.trans hn)).trans (h.attr hn)⟩

lemma testPredicate_number (place literal : ℕ) (value : D) (st : State D) :
    testPredicate env place false (evaluateOperation doc env (.number literal value)) st =
      (env.eq value (env.ofNat (st.pos place + 1)),
        (st.tick place).setPosition (st.pos place + 1) st.context.size) := by
  have hpos : (st.tick place).pos place = st.pos place + 1 := Function.update_self _ _ _
  rw [← hpos]
  rfl

variable {s : NumberedStep env}

lemma passes_number (st : State D) :
    passes doc env s.compiled.pred st = if st.pos s.place + 1 = s.number then
      some (((st.tick s.place).setPosition (st.pos s.place + 1) st.context.size).setNode
        st.context.node) else none := by
  have hfirst : passes doc env s.compiled.pred st =
      let r := testPredicate env s.place false
        (evaluateOperation doc env (.number s.literal s.value)) st
      if r.1 then some (r.2.setNode st.context.node) else none := rfl
  rw [hfirst, testPredicate_number]
  simp [s.eq_value]

/-- What a node leaves of the context, whether it passes or not. -/
lemma leaves_numbered (st : State D) :
    Leaves st (evaluatePredicate doc env s.compiled.pred
      (evaluateOperation doc env s.compiled.next) st).2 := by
  have hfirst : evaluatePredicate doc env s.compiled.pred
      (evaluateOperation doc env s.compiled.next) st =
      let r := testPredicate env s.place false
        (evaluateOperation doc env (.number s.literal s.value)) st
      if r.1 then evaluateOperation doc env s.next (r.2.setNode st.context.node) else (0, r.2) := rfl
  rw [hfirst, testPredicate_number]
  dsimp only
  split
  · have hback : Leaves st (((st.tick s.place).setPosition (st.pos s.place + 1)
        st.context.size).setNode st.context.node) := ⟨rfl, fun _ => rfl⟩
    exact hback.trans (leaves_of_isStep s.next_isStep _)
  · exact ⟨rfl, fun _ => rfl⟩

lemma visitStates_keeps {α : Type*} (enter : α → State D → State D) (P : State D → Prop)
    {test : NodeTest} {f : Evaluation D} (henter : ∀ a st, P (enter a st) ↔ P st)
    (hf : ∀ st, P st → P (f st).2) (l : List α) {st : State D} (hst : P st) :
    ∀ st' ∈ visitStates doc env enter test f l st, P st' := by
  induction l generalizing st with
  | nil => simp [visitStates]
  | cons a l ih =>
    have hfirst := (henter a st).mpr hst
    rw [visitStates, List.forall_mem_cons]
    refine ⟨hfirst, ih ?_⟩
    split
    · exact hf _ hfirst
    · exact hfirst

end Numbers

section Selections

variable {tree : BuiltTree} {env : Env D} {test : NodeTest} {f : Evaluation D} {c : ℕ}
  {st : State D}

lemma setNode_self (hn : st.context.node = some c) : st.setNode (some c) = st := by
  rw [← hn]
  rfl

/-- An iterator whose continuations leave the context alone looks at its axis. -/
lemma visits_items (hf : ∀ st, Leaves st (f st).2) (axis : Axis)
    (hn : st.context.node = some c) (hattr : st.context.attr = none) :
    (visits tree.toDocument env axis test f st).map (fun st => st.context.item) =
      (tree.items tree.visitedNodes axis c).map some := by
  have hnodes (l : List ℕ) : (visitStates tree.toDocument env (fun n st => st.setNode (some n)) test
      f l st).map (fun st => st.context.item) = (l.map Item.node).map some := by
    rw [map_item_nodes, List.map_map]
    rfl
  have hself (found : Option ℕ → List ℕ) (after : State D)
      (hafter : after = if nodeTestMatch tree.toDocument env test st.context then (f st).2 else st) :
      (st :: visitStates tree.toDocument env (fun n st => st.setNode (some n)) test f
        (found after.context.node) after).map (fun st => st.context.item) =
          ((c :: found (some c)).map Item.node).map some := by
    have hback : after.context.node = some c := by
      rw [hafter]
      split
      · exact (hf st).node.trans hn
      · exact hn
    rw [← hnodes, visitStates, setNode_self hn, hback, ← hafter]
  cases axis with
  | self =>
    unfold visits
    rw [hn]
    exact hself (fun _ => []) _ rfl
  | descendantOrSelf =>
    unfold visits
    rw [hn]
    exact hself (fun m => tree.descendants (m.bind tree.firstChild)) _ rfl
  | ancestorOrSelf =>
    unfold visits
    rw [hn]
    exact hself (fun m => tree.parents (m.bind tree.parent)) _ rfl
  | attr =>
    unfold visits
    rw [hn, Document.items]
    dsimp only
    split
    · have hvisits : ∀ st' ∈ visitStates tree.toDocument env (fun a st => st.setAttr (some a)) test
          f (tree.attributes c) (st.setNode none), st'.context.node = none :=
        visitStates_keeps (fun a st => st.setAttr (some a)) (fun st => st.context.node = none)
          (fun _ _ => Iff.rfl) (fun st h => (hf st).node.trans h) _ rfl
      rw [List.map_map]
      exact map_item_of_forall .attr (fun a st => st.setAttr (some a))
        (fun st => st.context.node = none) (fun _ _ => Iff.rfl) (fun a st h => item_setAttr h a)
        hvisits
    · rfl
  | ns =>
    unfold visits
    rw [hn, Document.items]
    dsimp only
    split
    · have hvisits : ∀ st' ∈ visitStates tree.toDocument env (fun m st => st.setNs (some m)) test
          f (tree.namespaces c) (st.setNode none),
            st'.context.node = none ∧ st'.context.attr = none :=
        visitStates_keeps (fun m st => st.setNs (some m))
          (fun st => st.context.node = none ∧ st.context.attr = none)
          (fun _ _ => Iff.rfl)
          (fun st h => ⟨(hf st).node.trans h.1, ((hf st).attr h.1).trans h.2⟩) _ ⟨rfl, hattr⟩
      rw [List.map_map]
      exact map_item_of_forall .ns (fun m st => st.setNs (some m))
        (fun st => st.context.node = none ∧ st.context.attr = none) (fun _ _ => Iff.rfl)
        (fun m st h => item_setNs h m) hvisits
    · rfl
  | _ =>
    unfold visits
    rw [hn]
    exact hnodes _

lemma filterMap_counted {α β : Type*} (count : α → ℕ) (g : α → β) (number : ℕ) (l : List α) (k : ℕ)
    (hcount : l.map count = List.range' (k + 1) l.length) :
    l.filterMap (fun a => if count a = number then some (g a) else none) =
      (if k < number then (l.map g)[number - 1 - k]? else none).toList := by
  induction l generalizing k with
  | nil => simp
  | cons a l ih =>
    rw [List.map_cons, List.length_cons, List.range'_succ, List.cons.injEq] at hcount
    obtain ⟨ha, hl⟩ := hcount
    have hrest := ih (k + 1) hl
    rw [List.filterMap_cons, ha, hrest]
    by_cases hnumber : k + 1 = number
    · -- the node is picked out, and none behind it
      subst hnumber
      simp
    · by_cases hlt : k < number
      · have hindex : number - 1 - k = number - 1 - (k + 1) + 1 := by omega
        have hlt' : k + 1 < number := by omega
        simp [hnumber, hlt, hlt', hindex]
      · have hlt' : ¬ k + 1 < number := by omega
        simp [hnumber, hlt, hlt']

variable {s : NumberedStep env}

/-- The siblings before a node with all below them, from the last one. -/
def Document.backwardsUp (doc : Document) (n : Option ℕ) : List ℕ :=
  walk childrenFirst doc.lastChild doc.prev (n.elim 0 doc.before + 1) n

/-- The axes in axis order: document order, or backwards from the context node. -/
def Document.axisNodes (doc : Document) : Axis → ℕ → List ℕ
  | .child, n => doc.nextSiblings (doc.firstChild n)
  | .descendant, n => doc.forwards (doc.firstChild n)
  | .parent, n => (doc.parent n).toList
  | .ancestor, n => doc.parents (doc.parent n)
  | .followingSibling, n => doc.nextSiblings (doc.next n)
  | .precedingSibling, n => doc.previousSiblings (doc.prev n)
  | .following, n => (doc.parents (some n)).flatMap fun p => doc.forwards (doc.next p)
  | .preceding, n => (doc.parents (some n)).flatMap fun p =>
    doc.backwardsUp (doc.prev p)
  | .self, n => [n]
  | .descendantOrSelf, n => n :: doc.forwards (doc.firstChild n)
  | .ancestorOrSelf, n => n :: doc.parents (doc.parent n)
  | .attr, _ | .ns, _ => []

variable (tree s) in
/-- What passes the node test from a context node, in the order of the visits. -/
def NumberedStep.found (c : ℕ) : List Item :=
  matching tree.toDocument env s.test (tree.items tree.visitedNodes s.axis c)

variable (tree s) in
/-- What passes the node test from a context node, in axis order. -/
def NumberedStep.ordered (c : ℕ) : List Item :=
  matching tree.toDocument env s.test (tree.items tree.axisNodes s.axis c)

variable (tree s) in
/-- What the count picks out from a context node when it begins behind `k`. -/
def NumberedStep.picks (k c : ℕ) : Option Item :=
  if k < s.number then (s.found tree c)[s.number - 1 - k]? else none

/-- Each node that passes the node test comes to the number with the next count. -/
lemma arrivals_number (st : State D) : s.compiled.arrivals tree.toDocument env s.place st =
    ((s.compiled.visits tree.toDocument env st).filter fun st =>
      nodeTestMatch tree.toDocument env s.test st.context).map fun st => st.pos s.place + 1 := by
  have hcomes (st : State D) : comesTo tree.toDocument env s.compiled.pred st =
      [(s.place, st.pos s.place + 1)] := by
    have hfirst : comesTo tree.toDocument env s.compiled.pred st =
        let r := testPredicate env s.place false
          (evaluateOperation tree.toDocument env (.number s.literal s.value)) st
        (s.place, r.2.pos s.place) :: if r.1 then [] else [] := rfl
    rw [hfirst, testPredicate_number]
    dsimp only
    rw [ite_self]
    exact congrArg (fun k => [(s.place, k)]) (Function.update_self _ _ _)
  rw [CompiledStep.arrivals, arrivalsIn, funext hcomes]
  have hsingle (l : List (State D)) : ((l.flatMap fun st => [(s.place, st.pos s.place + 1)]).filter
      fun q => q.1 = s.place).map Prod.snd = l.map fun st => st.pos s.place + 1 := by
    induction l with
    | nil => rfl
    | cons a l ih => simpa using ih
  exact hsingle _

section ContextNode

variable (hn : st.context.node = some c) (hattr : st.context.attr = none)

include hn hattr

lemma matched_items : ((s.compiled.visits tree.toDocument env st).filter fun st =>
      nodeTestMatch tree.toDocument env s.test st.context).map (fun st => st.context.item) =
    (s.found tree c).map some := by
  have hvisits : (s.compiled.visits tree.toDocument env st).map (fun st => st.context.item) =
      (tree.items tree.visitedNodes s.axis c).map some := visits_items leaves_numbered s.axis hn hattr
  rw [NumberedStep.found, matching]
  generalize s.compiled.visits tree.toDocument env st = states at hvisits
  generalize tree.items tree.visitedNodes s.axis c = items at hvisits
  induction states generalizing items with
  | nil =>
    cases items with
    | nil => rfl
    | cons => cases hvisits
  | cons st' states ih =>
    cases items with
    | nil => cases hvisits
    | cons i items =>
      rw [List.map_cons, List.map_cons, List.cons.injEq] at hvisits
      obtain ⟨hitem, hrest⟩ := hvisits
      rw [List.filter_cons, List.filter_cons, nodeTestMatch_item hitem]
      split
      · rw [List.map_cons, List.map_cons, hitem, ih _ hrest]
      · exact ih _ hrest

/-- One evaluation of the step. -/
lemma selected_number : s.compiled.selected tree.toDocument env st =
    (s.picks tree (st.pos s.place) c).toList.map some := by
  have hmatched := @matched_items _ tree env c _ s hn hattr
  have hcounts : Counts s.place st (evaluateOperation tree.toDocument env s.compiled.operation st).2
      (s.compiled.arrivals tree.toDocument env s.place st) :=
    CompiledStep.counts_evaluate List.mem_cons_self st
  obtain ⟨k, hk, -⟩ := hcounts
  rw [arrivals_number] at hk
  have hselected : s.compiled.selected tree.toDocument env st =
      (((s.compiled.visits tree.toDocument env st).filter fun st =>
        nodeTestMatch tree.toDocument env s.test st.context).filterMap
          (passes tree.toDocument env s.compiled.pred)).map fun st => st.context.item := rfl
  rw [hselected, NumberedStep.picks]
  generalize (s.compiled.visits tree.toDocument env st).filter (fun st =>
    nodeTestMatch tree.toDocument env s.test st.context) = matched at hk hmatched
  obtain rfl : matched.length = k := by simpa using congrArg List.length hk
  have hpasses (st : State D) : (passes tree.toDocument env s.compiled.pred st).map
      (fun st => st.context.item) =
        if st.pos s.place + 1 = s.number then some st.context.item else none := by
    rw [passes_number]
    split <;> rfl
  rw [List.map_filterMap, funext hpasses, filterMap_counted _ _ _ _ _ hk, hmatched]
  split
  · rw [List.getElem?_map, Option.toList_map]
  · rfl

/-- The count goes on where it is. -/
lemma pos_number : (evaluateOperation tree.toDocument env s.compiled.operation st).2.pos s.place =
    st.pos s.place + (s.found tree c).length := by
  have hmatched := @matched_items _ tree env c _ s hn hattr
  have hcounts : Counts s.place st (evaluateOperation tree.toDocument env s.compiled.operation st).2
      (s.compiled.arrivals tree.toDocument env s.place st) :=
    CompiledStep.counts_evaluate List.mem_cons_self st
  obtain ⟨k, hk, hpos⟩ := hcounts
  have hfound := congrArg List.length hmatched
  have harrived := congrArg List.length hk
  rw [arrivals_number] at harrived
  simp only [List.length_map, List.length_range'] at hfound harrived
  omega

end ContextNode

/-- The evaluations, one behind the other. -/
lemma selected_runs (cs : List ℕ) (st : State D) (hattr : st.context.attr = none) :
    (s.compiled.runs tree.toDocument env cs st).map (s.compiled.selected tree.toDocument env) =
        cs.map (fun c => (s.ordered tree c)[s.number - 1]?.toList.map some) ↔
      ∀ before c after, cs = before ++ c :: after →
        s.picks tree (st.pos s.place + (before.map fun b => (s.found tree b).length).sum) c =
          (s.ordered tree c)[s.number - 1]? := by
  induction cs generalizing st with
  | nil => simp [CompiledStep.runs]
  | cons c cs ih =>
    have hback : (evaluateOperation tree.toDocument env s.compiled.operation
        (st.setNode (some c))).2.context.attr = none :=
      ((framing_attr tree.toDocument env).keeps_evaluateOperation _ fun _ _ => trivial).1 _ hattr
    have hpos : (st.setNode (some c)).pos s.place = st.pos s.place := rfl
    have hfirst (a b : Option Item) : a.toList.map some = b.toList.map some ↔ a = b := by
      cases a <;> cases b <;> simp
    have hnode : (st.setNode (some c)).context.node = some c := rfl
    have hstart : (st.setNode (some c)).context.attr = none := hattr
    rw [CompiledStep.runs, List.map_cons, List.map_cons, List.cons.injEq, ih _ hback,
      selected_number hnode hstart, pos_number hnode hstart, hfirst, hpos]
    constructor
    · rintro ⟨h, hrest⟩ before c' after hcs
      cases before with
      | nil =>
        obtain ⟨rfl, -⟩ := List.cons.inj hcs
        exact h
      | cons b before =>
        obtain ⟨rfl, htail⟩ := List.cons.inj hcs
        rw [List.map_cons, List.sum_cons, ← add_assoc]
        exact hrest before c' after htail
    · refine fun h => ⟨h [] c cs rfl, fun before c' after hcs => ?_⟩
      rw [add_assoc]
      exact h (c :: before) c' after (congrArg (c :: ·) hcs)

variable (tree) in
/-- Positions are counted for each context node: the node that a number selects is the one with
this number in axis order, and each of several predicates counts the nodes that come to it. -/
structure CountsPerContext (s : NumberedStep env) (t : CompiledStep D) (cs ds : List ℕ)
    (st : State D) : Prop where
  nth : (s.compiled.runs tree.toDocument env cs st).map (s.compiled.selected tree.toDocument env) =
    cs.map fun c => (s.ordered tree c)[s.number - 1]?.toList.map some
  total : ((s.compiled.runs tree.toDocument env cs st).flatMap
      (s.compiled.selected tree.toDocument env)).length =
    cs.countP fun c => s.number ≤ (s.ordered tree c).length
  each : ∀ p ∈ t.pred.chain, ∀ st' ∈ t.runs tree.toDocument env ds st,
    t.arrivals tree.toDocument env p st' =
      List.range' 1 (t.arrivals tree.toDocument env p st').length

/-- With one node for each context node that has it, these are counted. -/
lemma length_nth (cs : List ℕ) :
    (cs.flatMap fun c => (s.ordered tree c)[s.number - 1]?.toList.map (some : Item → Option Item)).length =
      cs.countP fun c => s.number ≤ (s.ordered tree c).length := by
  have hnumber := s.number_pos
  induction cs with
  | nil => rfl
  | cons c cs ih =>
    rw [List.flatMap_cons, List.length_append, ih, List.countP_cons, List.length_map, add_comm]
    by_cases h : s.number ≤ (s.ordered tree c).length
    · have hlt : s.number - 1 < (s.ordered tree c).length := by omega
      simp [h, hlt]
    · have hge : (s.ordered tree c).length ≤ s.number - 1 := by omega
      simp [h, hge]

lemma firstNode_places : (0 :: (.result : Operation ℕ).places).Nodup := List.nodup_singleton 0

/-- The step `child::node()[1]`. -/
def firstNode : NumberedStep newEnv where
  axis := .child
  test := ⟨.node, none, none, none⟩
  number := 1
  number_pos := Nat.one_pos
  value := 1
  eq_value k := by
    have heq : newEnv.eq 1 (newEnv.ofNat k) = (1 == k) := rfl
    rw [heq, Bool.eq_iff_iff, beq_iff_eq, decide_eq_true_iff, eq_comm]
  place := 0
  literal := 1
  next := .result
  next_isStep := rfl
  places := firstNode_places

end Selections

end Axis2C.XPath
