import Axis2C.OmBuilderDocument

/-!
# Deferred building

The accessors of `om_node.c` pull the events that they need. A client that walks over
the nodes of a document should not see how much of it was built.
-/
namespace Axis2C.Om

section Calls

/-- The accessors that build. -/
inductive Access where
  | firstChild (n : ℕ)
  | firstElement (n : ℕ)
  | nextSibling (n : ℕ)
  deriving DecidableEq, Repr

namespace Access

def node : Access → ℕ
  | firstChild n => n
  | firstElement n => n
  | nextSibling n => n

/-- The answer, the events that are left and the builder. A list of children is not
longer than the number of nodes that are there and of events that can still make one. -/
def run (es : List Event) (b : Builder) : Access → Option (Option ℕ × List Event × Builder)
  | firstChild n => some (getFirstChild n es b)
  | firstElement n => getFirstElement (b.used + es.length + 1) n es b
  | nextSibling n => some (getNextSibling n es b)

end Access

def Document.built (doc : Document) (libxml2 : Bool) : List Event × Builder :=
  (documentBuildAll doc.events (builderCreate libxml2)).elim ([], builderCreate libxml2) (·.2)

/-- What a client can reach: it starts with the root and calls the accessors on nodes
that it has, in any order. -/
inductive Visits (doc : Document) (libxml2 : Bool) : List Event → Builder → List ℕ → Prop where
  | root {es : List Event} {b : Builder} :
      documentGetRootElement doc.events (builderCreate libxml2) = (some 0, es, b) →
      Visits doc libxml2 es b [0]
  | call {es es' : List Event} {b b' : Builder} {nodes : List ℕ} {answer : Option ℕ} (c : Access) :
      Visits doc libxml2 es b nodes → c.node ∈ nodes → c.run es b = some (answer, es', b') →
      Visits doc libxml2 es' b' (answer.toList ++ nodes)

/-- A call gives the node that it gives when the document was built beforehand. -/
def SameAnswer (doc : Document) (libxml2 : Bool) (es : List Event) (b : Builder) (c : Access) :
    Prop :=
  ∃ answer, (c.run es b).map (·.1) = some answer ∧
    (c.run (doc.built libxml2).1 (doc.built libxml2).2).map (·.1) = some answer

/-- The node knows its builder, or the sibling behind it was made already, or there is
none. -/
def KnowsNext (full : Builder) (used n : ℕ) : Prop :=
  (full.heap.data n).builder = true ∨ ∀ c, full.heap.next n = some c → c < used

/-- The children that `axiom_node_get_first_element` passes over. -/
inductive Passed (h : OmHeap) (n : ℕ) : ℕ → Prop where
  | first {c : ℕ} : h.firstChild n = some c → (h.data c).nodeType ≠ .element → Passed h n c
  | next {c c' : ℕ} : Passed h n c → h.next c = some c' → (h.data c').nodeType ≠ .element →
      Passed h n c'

/-- A call that does not ask a node without a builder for a sibling that is not there
yet. -/
def Access.Safe (full : Builder) (used : ℕ) : Access → Prop
  | firstChild _ => True
  | firstElement n =>
    (∀ c, ChildOf full.heap c n → (full.heap.data c).nodeType ≠ .element) ∨
      ∀ c, Passed full.heap n c → KnowsNext full used c
  | nextSibling n => KnowsNext full used n

end Calls

section Growth

/-- An outline and a later one. -/
structure Grows (o o' : Outline) : Prop where
  used : o.used ≤ o'.used
  labels : ∀ m < o.used, o'.labels m = o.labels m
  kids : ∀ m < o.used, ∃ more, o'.kids m = o.kids m ++ more ∧ (∀ c ∈ more, o.used ≤ c) ∧
    (m ∉ o.openNodes → more = [])
  closed : ∀ m < o.used, m ∉ o.openNodes → m ∉ o'.openNodes

variable {o o' o'' : Outline}

lemma Grows.refl : Grows o o :=
  ⟨le_rfl, fun _ _ => .refl _, fun m _ => ⟨[], by simp⟩, fun _ _ hm => hm⟩

lemma Grows.trans (h : Grows o o') (h' : Grows o' o'') : Grows o o'' where
  used := h.used.trans h'.used
  labels m hm := (h'.labels m (hm.trans_le h.used)).trans (h.labels m hm)
  kids m hm := by
    obtain ⟨more, hkids, hlate, hnone⟩ := h.kids m hm
    obtain ⟨more', hkids', hlate', hnone'⟩ := h'.kids m (hm.trans_le h.used)
    refine ⟨more ++ more', by rw [hkids', hkids, List.append_assoc], fun c hc => ?_,
      fun hclosed => ?_⟩
    · obtain hc | hc := List.mem_append.mp hc
      · exact hlate c hc
      · exact h.used.trans (hlate' c hc)
    · rw [hnone hclosed, hnone' (h.closed m hm hclosed), List.append_nil]
  closed m hm hclosed := h'.closed m (hm.trans_le h.used) (h.closed m hm hclosed)

lemma Grows.addKid {p : ℕ} {rest : List ℕ} (hopen : o.openNodes = p :: rest)
    (label : Option Label) : Grows o (o.addKid label) := by
  rw [Outline.addKid_eq hopen]
  refine ⟨Nat.le_succ _, fun m hm => ?_, fun m hm => ?_, fun m _ hclosed => hclosed⟩
  · simp only
    rw [Function.update_of_ne (by omega)]
  · by_cases hmp : m = p
    · subst hmp
      refine ⟨[o.used], by simp, by simp, fun hclosed => ?_⟩
      simp [hopen] at hclosed
    · exact ⟨[], by simp [Function.update_of_ne hmp], by simp, fun _ => rfl⟩

lemma Grows.step (hopen : o.openNodes ≠ []) (e : Event) : Grows o (o.step e) := by
  obtain ⟨p, rest, hopen⟩ := List.exists_cons_of_ne_nil hopen
  cases e with
  | startElement tag =>
    obtain ⟨hused, hlabels, hkids, hclosed⟩ := Grows.addKid hopen (Event.startElement tag).label
    refine ⟨hused, hlabels, hkids, fun m hm hno hmem => ?_⟩
    obtain rfl | hmem := List.mem_cons.mp hmem
    · omega
    · exact hno hmem
  | endElement =>
    refine ⟨le_rfl, fun _ _ => rfl, fun m _ => ⟨[], by simp [Outline.step, Outline.stepWith,
      Outline.leave]⟩, fun m _ hno hmem => hno (List.mem_of_mem_tail hmem)⟩
  | emptyElement tag | space value | character value | comment value
  | processingInstruction target data => exact Grows.addKid hopen _
  | startDocument | entityReference | cdata | documentType => exact Grows.refl

theorem Grows.run {es : List Event} (hstays : Stays o es) : Grows o (o.run es) := by
  induction es generalizing o with
  | nil => exact Grows.refl
  | cons e es ih => exact (Grows.step hstays.1 e).trans (ih hstays.2)

/-- Every node has a label. -/
def Outline.Named (o : Outline) : Prop := ∀ m < o.used, ∃ label, o.labels m = some label

lemma Outline.Named.step (hn : o.Named) (hopen : o.openNodes ≠ []) {e : Event} (he : e.Proper) :
    (o.step e).Named := by
  obtain ⟨p, rest, hopen⟩ := List.exists_cons_of_ne_nil hopen
  have hkid (label : Option Label) (hlabel : label.isSome) : (o.addKid label).Named := by
    rw [Outline.addKid_eq hopen]
    intro m hm
    by_cases hmu : m = o.used
    · obtain ⟨l, rfl⟩ := Option.isSome_iff_exists.mp hlabel
      exact ⟨l, by simp [hmu]⟩
    · simp only at hm ⊢
      rw [Function.update_of_ne hmu]
      exact hn m (by omega)
  cases e with
  | startElement tag | emptyElement tag => exact hkid _ rfl
  | endElement | startDocument | entityReference | cdata | documentType => exact hn
  | space value | character value | comment value =>
    obtain ⟨value, rfl⟩ := Option.isSome_iff_exists.mp he
    exact hkid _ rfl
  | processingInstruction target data =>
    obtain ⟨target, rfl⟩ := Option.isSome_iff_exists.mp he.1
    obtain ⟨data, rfl⟩ := Option.isSome_iff_exists.mp he.2
    exact hkid _ rfl

lemma Outline.Named.run {es : List Event} (hn : o.Named) (hstays : Stays o es)
    (hproper : ∀ e ∈ es, e.Proper) : (o.run es).Named := by
  induction es generalizing o with
  | nil => exact hn
  | cons e es ih =>
    exact ih (hn.step hstays.1 (hproper e (by simp))) hstays.2
      fun e' he' => hproper e' (by simp [he'])

end Growth

section Links

variable {b full : Builder} {o o' : Outline} {n : ℕ}

def Label.nodeType : Label → NodeType
  | .element _ _ => .element
  | .text _ => .text
  | .comment _ => .comment
  | .processingInstruction _ _ => .processingInstruction

lemma nodeType_of_label {d : Node Payload} {label : Label} (hlabel : nodeLabel d = some label) :
    d.nodeType = label.nodeType := by
  unfold nodeLabel at hlabel
  split at hlabel
  all_goals first
    | (obtain rfl := Option.some.inj hlabel; assumption)
    | simp at hlabel

section

variable (ht : Tracks b o) (hf : Tracks full o') (hg : Grows o o')

include ht hf hg

/-- A node keeps its type and its builder. -/
lemma Tracks.data_eq (hnamed : o.Named) (hn : n < o.used) :
    (b.heap.data n).nodeType = (full.heap.data n).nodeType ∧
      (b.heap.data n).builder = (full.heap.data n).builder := by
  obtain ⟨label, hlabel⟩ := hnamed n hn
  have hlabels := hg.labels n hn
  have hn' := hn.trans_le hg.used
  constructor
  · rw [nodeType_of_label ((ht.labelled n hn).trans hlabel),
      nodeType_of_label ((hf.labelled n hn').trans (hlabels.trans hlabel))]
  · rw [ht.builders n hn, hf.builders n hn', hlabels]

lemma Tracks.firstChild_eq (hn : n < o.used) :
    b.heap.firstChild n = full.heap.firstChild n ∨
      b.heap.firstChild n = none ∧ n ∈ o.openNodes := by
  obtain ⟨more, hkids, -, hnone⟩ := hg.kids n hn
  rw [(ht.children n hn).first, (hf.children n (hn.trans_le hg.used)).first, hkids]
  cases hk : o.kids n with
  | cons c cs => exact .inl rfl
  | nil =>
    by_cases hopen : n ∈ o.openNodes
    · exact .inr ⟨rfl, hopen⟩
    · left
      rw [hnone hopen]
      rfl

lemma Tracks.parent_none (hn : n < o.used) (hparent : b.heap.parent n = none) :
    full.heap.parent n = none := by
  cases hp : full.heap.parent n with
  | none => rfl
  | some p =>
    exfalso
    have hlive : full.heap.live n = true := (hf.live n).mpr (hn.trans_le hg.used)
    have hchild : ChildOf full.heap n p := ⟨hlive, hp⟩
    have hp' := (hf.live p).mp (hf.forest.parentLive n p hchild)
    have hmem := ((hf.children p hp').members n).mpr hchild
    have hlater := hf.later p n hmem
    obtain ⟨more, hkids, hlate, -⟩ := hg.kids p (by omega)
    rw [hkids, List.mem_append] at hmem
    obtain hmem | hmem := hmem
    · have := (((ht.children p (by omega)).members n).mp hmem).2
      simp [hparent] at this
    · have := hlate n hmem
      omega

/-- The next sibling is there, or the parent is still open and the sibling is to come. -/
lemma Tracks.next_eq (hn : n < o.used) :
    b.heap.next n = full.heap.next n ∨
      b.heap.next n = none ∧ (∃ p ∈ o.openNodes, b.heap.parent n = some p) ∧
        ∀ c, full.heap.next n = some c → o.used ≤ c := by
  have hlive := (ht.live n).mpr hn
  have hlive' := (hf.live n).mpr (hn.trans_le hg.used)
  cases hparent : b.heap.parent n with
  | none =>
    left
    rw [(ht.forest.single n hlive hparent).2,
      (hf.forest.single n hlive' (ht.parent_none hf hg hn hparent)).2]
  | some p =>
    have hchild : ChildOf b.heap n p := ⟨hlive, hparent⟩
    have hp := (ht.live p).mp (ht.forest.parentLive n p hchild)
    have hcs := ht.children p hp
    obtain ⟨l, r, hsplit⟩ := List.append_of_mem ((hcs.members n).mpr hchild)
    obtain ⟨more, hkids, hlate, hnone⟩ := hg.kids p hp
    have hnext : b.heap.next n = r.head? := by
      have hlinked := hcs.linked
      rw [hsplit] at hlinked
      simpa using hlinked.at_split.2
    have hnext' : full.heap.next n = (r ++ more).head? := by
      have hlinked := (hf.children p (hp.trans_le hg.used)).linked
      rw [hkids, hsplit, List.append_assoc, List.cons_append] at hlinked
      simpa using hlinked.at_split.2
    rw [hnext, hnext']
    cases r with
    | cons c r => exact .inl rfl
    | nil =>
      by_cases hopen : p ∈ o.openNodes
      · refine .inr ⟨rfl, ⟨p, hopen, rfl⟩, fun c hc => hlate c ?_⟩
        exact List.mem_of_mem_head? hc
      · left
        rw [hnone hopen]
        rfl

end

section

variable (ht : Tracks b o) (hn : n < o.used)

include ht hn

lemma Tracks.firstChild_lt {c : ℕ} (hc : b.heap.firstChild n = some c) : c < o.used := by
  have hcs := ht.children n hn
  rw [hcs.first] at hc
  exact (ht.live c).mp ((hcs.members c).mp (List.mem_of_mem_head? hc)).1

lemma Tracks.next_lt {c : ℕ} (hc : b.heap.next n = some c) : c < o.used := by
  have hlive := (ht.live n).mpr hn
  cases hparent : b.heap.parent n with
  | none => simp [(ht.forest.single n hlive hparent).2] at hc
  | some p =>
    have hchild : ChildOf b.heap n p := ⟨hlive, hparent⟩
    have hcs := ht.children p ((ht.live p).mp (ht.forest.parentLive n p hchild))
    obtain ⟨l, r, hsplit⟩ := List.append_of_mem ((hcs.members n).mpr hchild)
    have hlinked := hcs.linked
    rw [hsplit] at hlinked
    have hnext : b.heap.next n = r.head? := by simpa using hlinked.at_split.2
    rw [hnext] at hc
    have hmem : c ∈ o.kids p := by
      rw [hsplit]
      exact List.mem_append_right _ (List.mem_cons_of_mem _ (List.mem_of_mem_head? hc))
    exact (ht.live c).mp ((hcs.members c).mp hmem).1

/-- What `axiom_node_get_first_child` waits for, in terms of the outline. -/
lemma Tracks.awaitsChild_iff :
    awaitsChild n b = true ↔ b.heap.firstChild n = none ∧ n ∈ o.openNodes := by
  have hbuilder (hopen : n ∈ o.openNodes) : (b.heap.data n).builder = true := by
    obtain ⟨e, he⟩ := Option.isSome_iff_exists.mp (ht.elements n hopen)
    obtain ⟨htype, hdata⟩ := elementAt_eq_some.mp he
    rw [ht.builders n hn, ← ht.labelled n hn]
    simp [nodeLabel, htype, hdata, Label.hasBuilder]
  have hcomplete := ht.complete n hn
  unfold awaitsChild
  rw [Bool.and_eq_true, Bool.and_eq_true, Option.isNone_iff_eq_none, Bool.not_eq_true',
    ← Bool.not_eq_true, hcomplete, not_not, and_assoc]
  exact and_congr_right fun _ => ⟨fun h => h.1, fun h => ⟨h, hbuilder h⟩⟩

/-- What `axiom_node_get_next_sibling` waits for. -/
lemma Tracks.awaitsSibling_iff :
    awaitsSibling n b = true ↔ b.heap.next n = none ∧ (b.heap.data n).builder = true ∧
      ∃ p ∈ o.openNodes, b.heap.parent n = some p := by
  unfold awaitsSibling
  rw [Bool.and_eq_true, Bool.and_eq_true, Option.isNone_iff_eq_none, and_assoc]
  refine and_congr_right fun _ => and_congr_right fun _ => ?_
  cases hparent : b.heap.parent n with
  | none => simp
  | some p =>
    have hp := (ht.live p).mp (ht.forest.parentLive n p ⟨(ht.live n).mpr hn, hparent⟩)
    have hcomplete := ht.complete p hp
    simp only [Option.map_some, Option.getD_some, Bool.not_eq_true', isComplete,
      Option.some.injEq, exists_eq_right']
    rw [← Bool.not_eq_true, hcomplete, not_not]

end

end Links

section Accessors

variable {b full : Builder} {o : Outline} {inner epilog es : List Event} {n : ℕ}

/-- The root that is read, and the builder that has read all of it. -/
structure Whole (o : Outline) (inner : List Event) (full : Builder) : Prop where
  stays : Stays o inner
  closed : (o.run inner).openNodes = []
  proper : ∀ e ∈ inner, e.Proper
  named : o.Named
  tracks : Tracks full (o.run inner)

/-- A state on the way has built an outline from which the whole one grows. -/
lemma Midway.grows (hmid : Midway o inner epilog es b) (hw : Whole o inner full) :
    ∃ o', Tracks b o' ∧ Grows o' (o.run inner) ∧ o'.Named := by
  obtain ⟨es₁, es₂, hinner, -, ht⟩ := hmid
  have hstays := hw.stays
  rw [hinner, stays_append] at hstays
  refine ⟨o.run es₁, ht, ?_, hw.named.run hstays.1 fun e he => hw.proper e (by simp [hinner, he])⟩
  rw [hinner, Outline.run_append]
  exact Grows.run hstays.2

/-- An accessor that waits only while an element is open stops waiting. -/
lemma Midway.pullWhile {cond : Builder → Bool} (hw : Whole o inner full)
    (hcond : ∀ c o', Tracks c o' → b.used ≤ c.used → cond c = true → o'.openNodes ≠ [])
    (hmid : Midway o inner epilog es b) :
    ∃ es' b', pullWhile cond es b = (true, es', b') ∧ Midway o inner epilog es' b' ∧
      b.used ≤ b'.used ∧ cond b' = false := by
  induction es generalizing b with
  | nil =>
    have hstop : cond b = false := by
      rw [← Bool.not_eq_true]
      intro hwait
      have ht := hmid.ended hw.stays (.inr (.inr rfl))
      exact hcond b _ ht le_rfl hwait hw.closed
    exact ⟨[], b, by simp [Om.pullWhile, hstop], hmid, le_rfl, hstop⟩
  | cons e es ih =>
    cases hwait : cond b with
    | false => exact ⟨e :: es, b, by simp [Om.pullWhile, hwait], hmid, le_rfl, hwait⟩
    | true =>
      obtain ⟨o', ht, -, -⟩ := hmid.grows hw
      have hopen := hcond b o' ht le_rfl hwait
      have hdone := ht.open_done hopen
      obtain ⟨hmid', htoken⟩ := hmid.pull hw.stays hw.closed hw.proper hdone
      have hused := pull_used b e
      have htake : nextWithToken (e :: es) b = (true, es, (Om.pull b e).2) := by
        simp [nextWithToken, hdone, htoken]
      obtain ⟨es', b', hpull, hmid'', hused', hstop⟩ := ih
        (fun c o' hc hle => hcond c o' hc (hused.trans hle)) hmid'
      refine ⟨es', b', ?_, hmid'', hused.trans hused', hstop⟩
      rw [← hpull]
      simp only [Om.pullWhile, hwait, if_true, htake]

lemma Midway.getFirstChild (hmid : Midway o inner epilog es b) (hw : Whole o inner full)
    (hn : n < b.used) :
    ∃ es' b', getFirstChild n es b = (full.heap.firstChild n, es', b') ∧
      Midway o inner epilog es' b' ∧ b.used ≤ b'.used ∧
      ∀ c, full.heap.firstChild n = some c → c < b'.used := by
  obtain ⟨es', b', hpull, hmid', hused, hstop⟩ := hmid.pullWhile hw fun c o' ht hle hwait => by
    have hmem := ((ht.awaitsChild_iff (n := n) (by rw [← ht.used]; omega)).mp hwait).2
    exact List.ne_nil_of_mem hmem
  obtain ⟨o', ht, hg, -⟩ := hmid'.grows hw
  have hn' : n < o'.used := by
    rw [← ht.used]
    omega
  have hfirst : b'.heap.firstChild n = full.heap.firstChild n := by
    obtain heq | hwait := ht.firstChild_eq hw.tracks hg hn'
    · exact heq
    · rw [(ht.awaitsChild_iff hn').mpr hwait] at hstop
      simp at hstop
  refine ⟨es', b', by simp only [Om.getFirstChild, hpull, hfirst], hmid', hused, fun c hc => ?_⟩
  rw [ht.used]
  exact ht.firstChild_lt hn' (hfirst.trans hc)

/-- The next sibling is the one of the whole document, if the node can find it. -/
lemma Midway.getNextSibling (hmid : Midway o inner epilog es b) (hw : Whole o inner full)
    (hn : n < b.used) :
    ∃ answer es' b', getNextSibling n es b = (answer, es', b') ∧
      Midway o inner epilog es' b' ∧ b.used ≤ b'.used ∧ (∀ c, answer = some c → c < b'.used) ∧
      (answer = full.heap.next n ∨ answer = none) ∧
      (KnowsNext full b.used n → answer = full.heap.next n) := by
  obtain ⟨es', b', hpull, hmid', hused, hstop⟩ := hmid.pullWhile hw fun c o' ht hle hwait => by
    obtain ⟨-, -, p, hmem, -⟩ :=
      (ht.awaitsSibling_iff (n := n) (by rw [← ht.used]; omega)).mp hwait
    exact List.ne_nil_of_mem hmem
  obtain ⟨o', ht, hg, hnamed⟩ := hmid'.grows hw
  have hn' : n < o'.used := by
    rw [← ht.used]
    omega
  refine ⟨b'.heap.next n, es', b', by simp only [Om.getNextSibling, hpull], hmid', hused,
    fun c hc => ht.used ▸ ht.next_lt hn' hc, ?_⟩
  obtain heq | ⟨hnone, hopen, hlate⟩ := ht.next_eq hw.tracks hg hn'
  · exact ⟨.inl heq, fun _ => heq⟩
  · refine ⟨.inr hnone, ?_⟩
    rintro (hbuilder | hmade)
    · -- it would have gone on waiting
      have hwait := (ht.awaitsSibling_iff hn').mpr
        ⟨hnone, ((ht.data_eq hw.tracks hg hnamed hn').2).trans hbuilder, hopen⟩
      simp [hwait] at hstop
    · rw [hnone]
      cases hnext : full.heap.next n with
      | none => rfl
      | some c =>
        have h1 := hmade c hnext
        have h2 := hlate c hnext
        rw [← ht.used] at h2
        omega

/-- The element that `axiom_node_get_first_element` looks for. -/
def firstElementOf (h : OmHeap) (cs : List ℕ) : Option ℕ :=
  cs.find? fun c => (h.data c).nodeType = .element

lemma KnowsNext.mono {used used' : ℕ} (hk : KnowsNext full used n) (hle : used ≤ used') :
    KnowsNext full used' n := hk.imp_right fun hmade c hc => (hmade c hc).trans_le hle

/-- The loop of `axiom_node_get_first_element`, from one child on. -/
lemma Midway.firstElementFrom (hw : Whole o inner full) (hn : n < (o.run inner).used)
    {l r : List ℕ} {c fuel : ℕ} (hkids : (o.run inner).kids n = l ++ c :: r)
    (hreach : (full.heap.data c).nodeType ≠ .element → Passed full.heap n c)
    (hmid : Midway o inner epilog es b) (hc : c < b.used) (hfuel : r.length < fuel) :
    ∃ answer es' b', firstElementFrom fuel (some c) es b = some (answer, es', b') ∧
      Midway o inner epilog es' b' ∧ b.used ≤ b'.used ∧ (∀ c, answer = some c → c < b'.used) ∧
      (answer = firstElementOf full.heap (c :: r) ∨ answer = none) ∧
      ((∀ d, Passed full.heap n d → KnowsNext full b.used d) →
        answer = firstElementOf full.heap (c :: r)) := by
  induction fuel generalizing l r c es b with
  | zero => omega
  | succ fuel ih =>
    obtain ⟨o', ht, hg, hnamed⟩ := hmid.grows hw
    have htype := (ht.data_eq hw.tracks hg hnamed (ht.used ▸ hc)).1
    unfold Om.firstElementFrom
    rw [htype]
    by_cases helement : (full.heap.data c).nodeType = .element
    · have hfind : firstElementOf full.heap (c :: r) = some c := by
        simp [firstElementOf, helement]
      rw [if_pos helement, hfind]
      refine ⟨some c, es, b, rfl, hmid, le_rfl, fun d hd => ?_, .inl rfl, fun _ => rfl⟩
      rwa [← Option.some.inj hd]
    · have hfind : firstElementOf full.heap (c :: r) = firstElementOf full.heap r := by
        simp [firstElementOf, helement]
      have hnext : full.heap.next c = r.head? := by
        have hlinked := (hw.tracks.children n hn).linked
        rw [hkids] at hlinked
        simpa using hlinked.at_split.2
      obtain ⟨answer, es', b', hget, hmid', hused, hlt, heither, hknows⟩ :=
        hmid.getNextSibling hw hc
      have hstop (answer' : Option ℕ) (hnone : answer' = none) :
          Om.firstElementFrom fuel answer' es' b' = some (none, es', b') := by
        rw [hnone]
        cases fuel <;> rfl
      rw [if_neg helement, hfind]
      simp only [hget]
      cases r with
      | nil =>
        have hnone : answer = none := heither.elim (fun h => h.trans hnext) id
        exact ⟨none, es', b', hstop answer hnone, hmid', hused, by simp, .inr rfl, fun _ => rfl⟩
      | cons c' r =>
        cases hanswer : answer with
        | none =>
          refine ⟨none, es', b', hstop none rfl, hmid', hused, by simp, .inr rfl,
            fun hsafe => ?_⟩
          have := hknows (hsafe c (hreach helement))
          rw [hanswer, hnext] at this
          simp at this
        | some d =>
          obtain rfl : d = c' := by
            obtain heq | heq := heither
            · rw [hanswer, hnext] at heq
              exact Option.some.inj heq
            · simp [hanswer] at heq
          obtain ⟨answer', es'', b'', hloop, hmid'', hused', hlt', heither', hsame⟩ :=
            @ih b' es' (l ++ [c]) r d (by simp [hkids])
              (fun htype' => .next (hreach helement) hnext htype') hmid' (hlt d hanswer)
              (by simp only [List.length_cons] at hfuel; omega)
          exact ⟨answer', es'', b'', hloop, hmid'', hused.trans hused', hlt', heither',
            fun hsafe => hsame fun x hx => (hsafe x hx).mono hused⟩

lemma Outline.run_used (o : Outline) (es : List Event) :
    (o.run es).used ≤ o.used + es.length := by
  have hkid (o : Outline) (label : Option Label) : (o.addKid label).used ≤ o.used + 1 := by
    unfold Outline.addKid
    split
    · exact Nat.le_succ _
    · exact le_rfl
  have hstep (o : Outline) (e : Event) : (o.step e).used ≤ o.used + 1 := by
    cases e with
    | startElement tag | emptyElement tag | space value | character value | comment value
    | processingInstruction target data => exact hkid o _
    | endElement | startDocument | entityReference | cdata | documentType => exact Nat.le_succ _
  induction es generalizing o with
  | nil => exact le_rfl
  | cons e es ih =>
    have h1 := ih (o.step e)
    have h2 := hstep o e
    simp only [Outline.run_cons, List.length_cons]
    omega

/-- There are not more children than nodes. -/
lemma Tracks.kids_length (ht : Tracks b o) (hn : n < o.used) : (o.kids n).length ≤ o.used := by
  have hcs := ht.children n hn
  have hsub : (o.kids n).toFinset ⊆ Finset.range o.used := by
    intro c hc
    rw [Finset.mem_range, ← ht.live c]
    exact ((hcs.members c).mp (List.mem_toFinset.mp hc)).1
  calc (o.kids n).length = (o.kids n).toFinset.card := (List.toFinset_card_of_nodup hcs.nodup).symm
    _ ≤ (Finset.range o.used).card := Finset.card_le_card hsub
    _ = o.used := Finset.card_range _

/-- `axiom_node_get_first_element` gives the first element of the whole document, if the
nodes on the way can find their siblings. -/
lemma Midway.getFirstElement (hmid : Midway o inner epilog es b) (hw : Whole o inner full)
    (hn : n < b.used) :
    ∃ answer es' b',
      getFirstElement (b.used + es.length + 1) n es b = some (answer, es', b') ∧
      Midway o inner epilog es' b' ∧ b.used ≤ b'.used ∧ (∀ c, answer = some c → c < b'.used) ∧
      (answer = firstElementOf full.heap ((o.run inner).kids n) ∨ answer = none) ∧
      ((∀ d, Passed full.heap n d → KnowsNext full b.used d) →
        answer = firstElementOf full.heap ((o.run inner).kids n)) := by
  obtain ⟨o', ht, hg, -⟩ := hmid.grows hw
  have hn' : n < (o.run inner).used := (ht.used ▸ hn).trans_le hg.used
  have hbound : (o.run inner).used ≤ b.used + es.length := by
    obtain ⟨es₁, es₂, hinner, hes, ht'⟩ := hmid
    have := Outline.run_used (o.run es₁) es₂
    rw [← Outline.run_append, ← hinner, ← ht'.used] at this
    rw [hes, List.length_append]
    omega
  have hlength := hw.tracks.kids_length hn'
  obtain ⟨es', b', hget, hmid', hused, hlt⟩ := hmid.getFirstChild hw hn
  unfold Om.getFirstElement
  simp only [hget]
  cases hfirst : full.heap.firstChild n with
  | none =>
    have hkids : (o.run inner).kids n = [] := by
      rw [(hw.tracks.children n hn').first, List.head?_eq_none_iff] at hfirst
      exact hfirst
    rw [hkids]
    exact ⟨none, es', b', rfl, hmid', hused, by simp, .inr rfl, fun _ => rfl⟩
  | some c =>
    obtain ⟨r, hkids⟩ : ∃ r, (o.run inner).kids n = c :: r := by
      have hhead := hfirst
      rw [(hw.tracks.children n hn').first] at hhead
      exact ⟨_, List.eq_cons_of_mem_head? hhead⟩
    rw [hkids, List.length_cons] at hlength
    obtain ⟨answer, es'', b'', hloop, hmid'', hused', hlt', heither, hsame⟩ :=
      @Midway.firstElementFrom b' full o inner epilog es' n hw hn' [] r c
        (b.used + es.length + 1) hkids (fun htype => .first hfirst htype) hmid' (hlt c hfirst)
        (by omega)
    refine ⟨answer, es'', b'', hloop, hmid'', hused.trans hused', hlt', ?_, fun hsafe => ?_⟩
    · rwa [hkids]
    · rw [hkids]
      exact hsame fun d hd => (hsafe d hd).mono hused

def Access.answer (full : Builder) (kids : ℕ → List ℕ) : Access → Option ℕ
  | firstChild n => full.heap.firstChild n
  | firstElement n => firstElementOf full.heap (kids n)
  | nextSibling n => full.heap.next n

/-- Every access answers; a safe one answers as in the whole document. -/
theorem Midway.access (hmid : Midway o inner epilog es b) (hw : Whole o inner full) (c : Access)
    (hn : c.node < b.used) :
    ∃ answer es' b', c.run es b = some (answer, es', b') ∧ Midway o inner epilog es' b' ∧
      b.used ≤ b'.used ∧ (∀ d, answer = some d → d < b'.used) ∧
      (c.Safe full b.used → answer = c.answer full (o.run inner).kids) := by
  cases c with
  | firstChild n =>
    obtain ⟨es', b', hget, hmid', hused, hlt⟩ := hmid.getFirstChild hw hn
    exact ⟨_, es', b', congrArg some hget, hmid', hused, hlt, fun _ => rfl⟩
  | nextSibling n =>
    obtain ⟨answer, es', b', hget, hmid', hused, hlt, -, hknows⟩ := hmid.getNextSibling hw hn
    exact ⟨answer, es', b', congrArg some hget, hmid', hused, hlt, hknows⟩
  | firstElement n =>
    obtain ⟨answer, es', b', hget, hmid', hused, hlt, heither, hknows⟩ :=
      hmid.getFirstElement hw hn
    refine ⟨answer, es', b', hget, hmid', hused, hlt, ?_⟩
    rintro (hnone | hsafe)
    · -- without an element among the children there is one answer only
      have hfind : firstElementOf full.heap ((o.run inner).kids n) = none := by
        obtain ⟨o', ht, hg, -⟩ := hmid.grows hw
        have hn' : n < (o.run inner).used := (ht.used ▸ hn).trans_le hg.used
        rw [firstElementOf, List.find?_eq_none]
        intro c hc
        simpa using hnone c (((hw.tracks.children n hn').members c).mp hc)
      exact heither.elim id fun h => h.trans hfind.symm
    · exact hknows hsafe

lemma Whole.safe (hw : Whole o inner full) (c : Access) (hn : c.node < full.used) :
    c.Safe full full.used := by
  have hknows (n : ℕ) (hn : n < full.used) : KnowsNext full full.used n :=
    .inr fun c hc => by
      rw [hw.tracks.used] at hn ⊢
      exact hw.tracks.next_lt hn hc
  cases c with
  | firstChild n => trivial
  | nextSibling n => exact hknows n hn
  | firstElement n =>
    refine .inr fun c hc => hknows c ?_
    induction hc with
    | first hfirst _ =>
      rw [hw.tracks.used] at hn ⊢
      exact hw.tracks.firstChild_lt hn hfirst
    | next _ hnext _ ih =>
      rw [hw.tracks.used] at ih ⊢
      exact hw.tracks.next_lt ih hnext

end Accessors

section Result

/-- The root of a document, once all of it is built. -/
lemma Document.whole (doc : Document) (libxml2 : Bool)
    (hdata : ∀ e ∈ contentEvents doc.tree, e.lacksData = false) :
    Whole (rootOutline doc.root) doc.inner (doc.built libxml2).2 ∧
      Midway (rootOutline doc.root) doc.inner doc.epilog (doc.built libxml2).1
        (doc.built libxml2).2 := by
  obtain ⟨es, b, hbuild, hmid, ht⟩ := doc.buildAll_tracks libxml2 hdata
  obtain ⟨hstays, hclosed, -⟩ := doc.run_inner
  have hbuilt : doc.built libxml2 = (es, b) := by
    rw [Document.built, hbuild]
    rfl
  rw [hbuilt]
  refine ⟨⟨hstays, hclosed, doc.inner_proper hdata, fun m hm => ?_, ht⟩, hmid⟩
  have hstarts := doc.rootStarts
  cases hroot : doc.root with
  | startElement tag | emptyElement tag => exact ⟨_, rfl⟩
  | _ => simp [hroot, Event.startsElement] at hstarts

/-- A client is always on the way, and it has nodes that are there. -/
theorem Visits.midway {doc : Document} {libxml2 : Bool} {es : List Event} {b : Builder}
    {nodes : List ℕ} (hvisits : Visits doc libxml2 es b nodes)
    (hdata : ∀ e ∈ contentEvents doc.tree, e.lacksData = false) :
    Midway (rootOutline doc.root) doc.inner doc.epilog es b ∧ ∀ n ∈ nodes, n < b.used := by
  obtain ⟨hwhole, -⟩ := doc.whole libxml2 hdata
  induction hvisits with
  | root hget =>
    obtain ⟨b₀, hb, -, hroot⟩ := doc.getRootElement_eq libxml2
    obtain ⟨-, ht⟩ := hb.pull_root doc.rootStarts doc.rootContent.1
    obtain ⟨rfl, rfl⟩ : doc.inner ++ doc.epilog = _ ∧ (pull b₀ doc.root).2 = _ := by
      simpa using hroot.symm.trans hget
    refine ⟨⟨[], doc.inner, rfl, rfl, ht⟩, fun n hn => ?_⟩
    rw [List.mem_singleton.mp hn, ht.used]
    exact ht.started
  | call c _ hc hrun ih =>
    obtain ⟨hmid, hnodes⟩ := ih
    obtain ⟨answer, es', b', hrun', hmid', hused, hlt, -⟩ :=
      hmid.access hwhole c (hnodes c.node hc)
    obtain ⟨rfl, rfl, rfl⟩ : answer = _ ∧ es' = _ ∧ b' = _ := by
      simpa using hrun'.symm.trans hrun
    refine ⟨hmid', fun n hn => ?_⟩
    obtain hn | hn := List.mem_append.mp hn
    · exact hlt n (by simpa using hn)
    · exact (hnodes n hn).trans_le hused

/-- Whatever a client has done before, a safe access answers as if the document had been
built beforehand. -/
theorem deferred_invisible (doc : Document) (libxml2 : Bool)
    (hdata : ∀ e ∈ contentEvents doc.tree, e.lacksData = false) {es : List Event} {b : Builder}
    {nodes : List ℕ} (hvisits : Visits doc libxml2 es b nodes) (c : Access)
    (hnode : c.node ∈ nodes) (hsafe : c.Safe (doc.built libxml2).2 b.used) :
    SameAnswer doc libxml2 es b c := by
  obtain ⟨hwhole, hmidF⟩ := doc.whole libxml2 hdata
  obtain ⟨hmid, hnodes⟩ := hvisits.midway hdata
  have hn := hnodes c.node hnode
  obtain ⟨o', ht, hg, -⟩ := hmid.grows hwhole
  have hn' : c.node < (doc.built libxml2).2.used := by
    rw [hwhole.tracks.used]
    exact (ht.used ▸ hn).trans_le hg.used
  obtain ⟨answer, es', b', hrun, -, -, -, hsame⟩ := hmid.access hwhole c hn
  obtain ⟨answer', es'', b'', hrun', -, -, -, hsame'⟩ := hmidF.access hwhole c hn'
  refine ⟨answer, by rw [hrun]; rfl, ?_⟩
  rw [hrun', hsame hsafe, hsame' (hwhole.safe c hn')]
  rfl

/-- A client that has asked for the first child of the root. -/
lemma visits_first (doc : Document) (libxml2 : Bool) :
    Visits doc libxml2
      (getFirstChild 0 (documentGetRootElement doc.events (builderCreate libxml2)).2.1
        (documentGetRootElement doc.events (builderCreate libxml2)).2.2).2.1
      (getFirstChild 0 (documentGetRootElement doc.events (builderCreate libxml2)).2.1
        (documentGetRootElement doc.events (builderCreate libxml2)).2.2).2.2
      ((getFirstChild 0 (documentGetRootElement doc.events (builderCreate libxml2)).2.1
        (documentGetRootElement doc.events (builderCreate libxml2)).2.2).1.toList ++ [0]) := by
  obtain ⟨b, -, -, hroot⟩ := doc.getRootElement_eq libxml2
  refine .call (.firstChild 0) (.root ?_) (by simp [Access.node]) rfl
  rw [hroot]

lemma readable_bare (name : String) : (Event.emptyElement ⟨name, none, [], []⟩).Readable :=
  ⟨by simp, by simp⟩

lemma readable_text (text : String) : (Event.character (some text)).Readable := rfl

lemma content_nil : Content .nil := trivial

lemma content_leaf {e : Event} {rest : OrderedTrees.Trees Event} (he : e.Readable)
    (h : Content rest) : Content (.node e .nil rest) := ⟨he, Or.inl rfl, content_nil, h⟩

lemma starts_root (name : String) :
    (Event.startElement ⟨name, none, [], []⟩).startsElement = true := rfl

lemma content_root (name : String) {content : OrderedTrees.Trees Event} (h : Content content) :
    Content (.node (.startElement ⟨name, none, [], []⟩) content .nil) :=
  ⟨⟨by simp, by simp⟩, Or.inr ⟨_, rfl⟩, h, content_nil⟩

/-- `<r><a/><b/></r>`. -/
def documentElements : Document where
  prolog := []
  root := .startElement ⟨"r", none, [], []⟩
  content := .node (.emptyElement ⟨"a", none, [], []⟩) .nil
    (.node (.emptyElement ⟨"b", none, [], []⟩) .nil .nil)
  epilog := []
  prologPlain := plain_nil
  rootStarts := starts_root "r"
  rootContent := content_root "r"
    (content_leaf (readable_bare "a") (content_leaf (readable_bare "b") content_nil))

theorem deferred_element :
    SameAnswer documentElements true
      (getFirstChild 0 (documentGetRootElement documentElements.events (builderCreate true)).2.1
        (documentGetRootElement documentElements.events (builderCreate true)).2.2).2.1
      (getFirstChild 0 (documentGetRootElement documentElements.events (builderCreate true)).2.1
        (documentGetRootElement documentElements.events (builderCreate true)).2.2).2.2
      (.nextSibling 1) :=
  deferred_invisible documentElements true (by decide) (visits_first documentElements true)
    (.nextSibling 1) (by decide) (.inl (by decide))

/-- `<r>t<a/></r>`. -/
def documentTextFirst : Document where
  prolog := []
  root := .startElement ⟨"r", none, [], []⟩
  content := .node (.character (some "t")) .nil
    (.node (.emptyElement ⟨"a", none, [], []⟩) .nil .nil)
  epilog := []
  prologPlain := plain_nil
  rootStarts := starts_root "r"
  rootContent := content_root "r"
    (content_leaf (readable_text "t") (content_leaf (readable_bare "a") content_nil))

/-- A text does not know its builder, and so its next sibling is reported missing. -/
theorem text_hides_sibling :
    ¬ ∀ es b nodes, Visits documentTextFirst true es b nodes → ∀ c : Access, c.node ∈ nodes →
      SameAnswer documentTextFirst true es b c := by
  intro hall
  obtain ⟨answer, h1, h2⟩ :=
    hall _ _ _ (visits_first documentTextFirst true) (.nextSibling 1) (by decide)
  have hnone := h1.symm.trans (show _ = some none by decide)
  have hsome := h2.symm.trans (show _ = some (some 2) by decide)
  rw [Option.some.inj hnone] at hsome
  simp at hsome

end Result

end Axis2C.Om
