import Axis2C.EngineMessages

/-!
# The mustUnderstand check

Of the header blocks that must be understood and were not processed, those without a role and
those for the `next` role are for this node. `axis2_engine_check_must_understand_headers` lets
those for `next` pass and refuses those for any other role.
-/
namespace Axis2C.Engine

section Check

/-- The `next` role of the SOAP version. -/
def nextRole (isSoap11 : Bool) : String := if isSoap11 then soap11ActorNext else soap12RoleNext

/-- A block that nobody has processed although it must be understood. -/
def HeaderBlock.Pending (block : HeaderBlock) : Prop :=
  block.processed = false ∧ block.mustUnderstand = true

instance (block : HeaderBlock) : Decidable block.Pending := inferInstanceAs (Decidable (_ ∧ _))

def HeaderBlock.ForThisNode (isSoap11 : Bool) (block : HeaderBlock) : Prop :=
  block.role = none ∨ block.role = some (nextRole isSoap11)

instance (isSoap11 : Bool) (block : HeaderBlock) : Decidable (block.ForThisNode isSoap11) :=
  inferInstanceAs (Decidable (_ ∨ _))

def Message.entries (message : Message) : List (Option HeaderBlock) :=
  ((message.envelope.bind (·.header)).bind (·.blocks)).getD []

def Message.HasPending (message : Message) (P : HeaderBlock → Prop) : Prop :=
  ∃ block, some block ∈ message.entries ∧ block.Pending ∧ P block

/-- The header without the blocks for the roles that this node does not act in. -/
def SoapHeader.forThisNode (isSoap11 : Bool) (header : SoapHeader) : SoapHeader :=
  ⟨header.blocks.map (·.filter (·.all fun block => decide (block.ForThisNode isSoap11)))⟩

def Message.forThisNode (message : Message) : Message where
  envelope := message.envelope.map fun envelope =>
    ⟨envelope.header.map (·.forThisNode message.isSoap11)⟩
  isSoap11 := message.isSoap11

/-- The check fails, with the fault, just if a pending block is for this node, and what is for
other nodes does not make it fail. -/
structure Message.CheckedRight (message : Message) : Prop where
  fails_iff : (checkMustUnderstandHeaders message).1 = false ↔
    message.HasPending (·.ForThisNode message.isSoap11)
  fault : (checkMustUnderstandHeaders message).1 = false →
    (checkMustUnderstandHeaders message).2 = some (mustUnderstandFault message.isSoap11)
  others : (checkMustUnderstandHeaders message).1 = false →
    (checkMustUnderstandHeaders message.forThisNode).1 = false

/-- The loop stops at a pending block that has no role or another one than `next`. -/
lemma checkHeaderBlocks_fails (isSoap11 : Bool) (blocks : List (Option HeaderBlock)) :
    (checkHeaderBlocks isSoap11 blocks).1 = false ↔
      ∃ block, some block ∈ blocks ∧ block.Pending ∧ block.role ≠ some (nextRole isSoap11) := by
  induction blocks with
  | nil => simp [checkHeaderBlocks]
  | cons block blocks ih =>
    cases block with
    | none => simp [checkHeaderBlocks, ih]
    | some block =>
      have hskip : (block.processed || !block.mustUnderstand) = true ↔ ¬ block.Pending := by
        unfold HeaderBlock.Pending
        cases block.processed <;> cases block.mustUnderstand <;> simp
      have hnext : some (if isSoap11 then soap11ActorNext else soap12RoleNext) =
          some (nextRole isSoap11) := rfl
      rw [checkHeaderBlocks, hnext]
      by_cases hpending : block.Pending
      · by_cases hrole : block.role = some (nextRole isSoap11)
        · simp [hskip, hpending, hrole, ih]
        · simp [hskip, hpending, hrole]
      · simp [hskip, hpending, ih]

lemma checkHeaderBlocks_fault (isSoap11 : Bool) (blocks : List (Option HeaderBlock))
    (h : (checkHeaderBlocks isSoap11 blocks).1 = false) :
    (checkHeaderBlocks isSoap11 blocks).2 = some (mustUnderstandFault isSoap11) := by
  induction blocks with
  | nil => cases h
  | cons block blocks ih =>
    cases block with
    | none => exact ih h
    | some block =>
      simp only [checkHeaderBlocks] at h ⊢
      by_cases hskip : (block.processed || !block.mustUnderstand) = true
      · rw [if_pos hskip] at h ⊢
        exact ih h
      · rw [if_neg hskip] at h ⊢
        by_cases hnext : block.role =
            some (if isSoap11 then soap11ActorNext else soap12RoleNext)
        · rw [if_pos hnext] at h ⊢
          exact ih h
        · rw [if_neg hnext]

/-- A message with an envelope is checked like the table of its header blocks. -/
lemma check_of_envelope (message : Message) (h : message.envelope.isSome) :
    checkMustUnderstandHeaders message = checkHeaderBlocks message.isSoap11 message.entries := by
  unfold checkMustUnderstandHeaders Message.entries
  match henvelope : message.envelope with
  | none => simp [henvelope] at h
  | some ⟨none⟩ | some ⟨some ⟨none⟩⟩ | some ⟨some ⟨some blocks⟩⟩ => rfl

lemma check_fails (message : Message) (h : message.envelope.isSome) :
    (checkMustUnderstandHeaders message).1 = false ↔
      message.HasPending (·.role ≠ some (nextRole message.isSoap11)) := by
  rw [check_of_envelope message h, checkHeaderBlocks_fails]
  rfl

lemma entries_forThisNode (message : Message) : message.forThisNode.entries =
    message.entries.filter
      (·.all fun block => decide (block.ForThisNode message.isSoap11)) := by
  unfold Message.forThisNode Message.entries
  match message.envelope with
  | none | some ⟨none⟩ | some ⟨some ⟨none⟩⟩ | some ⟨some ⟨some blocks⟩⟩ => rfl

lemma hasPending_forThisNode (message : Message) (P : HeaderBlock → Prop) :
    message.forThisNode.HasPending P ↔
      message.HasPending fun block => block.ForThisNode message.isSoap11 ∧ P block := by
  simp only [Message.HasPending, entries_forThisNode, List.mem_filter, Option.all_some,
    decide_eq_true_eq]
  constructor
  · rintro ⟨block, ⟨hmem, hnode⟩, hpending, hblock⟩
    exact ⟨block, hmem, hpending, hnode, hblock⟩
  · rintro ⟨block, hmem, hpending, hnode, hblock⟩
    exact ⟨block, ⟨hmem, hnode⟩, hpending, hblock⟩

lemma Message.HasPending.imp {message : Message} {P Q : HeaderBlock → Prop}
    (h : message.HasPending P) (hPQ : ∀ block, P block → Q block) : message.HasPending Q := by
  obtain ⟨block, hmem, hpending, hblock⟩ := h
  exact ⟨block, hmem, hpending, hPQ block hblock⟩

/-- Without the blocks for other roles only a block that has no role makes the check fail. -/
lemma check_fails_forThisNode (message : Message) (h : message.envelope.isSome) :
    (checkMustUnderstandHeaders message.forThisNode).1 = false ↔
      message.HasPending (·.role = none) := by
  have hkept : message.forThisNode.envelope.isSome := by
    rw [Message.forThisNode, Option.isSome_map]
    exact h
  rw [check_fails _ hkept, hasPending_forThisNode]
  constructor
  · intro hpending
    exact hpending.imp fun block hblock => hblock.1.resolve_right hblock.2
  · intro hpending
    refine hpending.imp fun block hrole => ⟨Or.inl hrole, ?_⟩
    simp [hrole]

lemma Message.CheckedRight.hasEnvelope {message : Message} (h : message.CheckedRight) :
    message.envelope.isSome := by
  by_contra hnone
  rw [Bool.not_eq_true, Option.isSome_eq_false_iff, Option.isNone_iff_eq_none] at hnone
  have hfails : checkMustUnderstandHeaders message = (false, none) := by
    rw [checkMustUnderstandHeaders, hnone]
  have hfault := h.fault (by rw [hfails])
  rw [hfails] at hfault
  cases hfault

end Check

/-- The messages that are checked right have an envelope, and in it either a pending block
without a role or no pending block at all. -/
theorem must_understand_check_iff (message : Message) : message.CheckedRight ↔
    message.envelope.isSome ∧
      (message.HasPending (·.role = none) ∨ ¬ message.HasPending fun _ => True) := by
  constructor
  · intro hright
    have henvelope := hright.hasEnvelope
    refine ⟨henvelope, or_iff_not_imp_right.mpr fun hsome => ?_⟩
    obtain ⟨block, hmem, hpending, -⟩ := not_not.mp hsome
    -- a pending block makes the check fail, by itself or by what the law asks for
    have hfails : (checkMustUnderstandHeaders message).1 = false := by
      by_cases hrole : block.role = some (nextRole message.isSoap11)
      · exact hright.fails_iff.mpr ⟨block, hmem, hpending, Or.inr hrole⟩
      · exact (check_fails message henvelope).mpr ⟨block, hmem, hpending, hrole⟩
    exact (check_fails_forThisNode message henvelope).mp (hright.others hfails)
  · rintro ⟨henvelope, hcase⟩
    have hiff := check_fails message henvelope
    have hfault : (checkMustUnderstandHeaders message).1 = false →
        (checkMustUnderstandHeaders message).2 =
          some (mustUnderstandFault message.isSoap11) := by
      rw [check_of_envelope message henvelope]
      exact checkHeaderBlocks_fault _ _
    cases hcase with
    | inl hblamed =>
      have hfails := hiff.mpr (hblamed.imp fun block hrole => by simp [hrole])
      have hnode := hblamed.imp fun block hrole =>
        (Or.inl hrole : block.ForThisNode message.isSoap11)
      have hothers := (check_fails_forThisNode message henvelope).mpr hblamed
      exact ⟨iff_of_true hfails hnode, hfault, fun _ => hothers⟩
    | inr hnone =>
      have hnot {P : HeaderBlock → Prop} : ¬ message.HasPending P := fun h =>
        hnone (h.imp fun _ _ => trivial)
      have hsucceeds : ¬ (checkMustUnderstandHeaders message).1 = false := mt hiff.mp hnot
      exact ⟨iff_of_false hsucceeds hnot, hfault, fun hfails => absurd hfails hsucceeds⟩

/-- A message with one header block for a role, which must be understood and is not processed. -/
def messageForRole (role : String) : Message :=
  ⟨some ⟨some ⟨some [some ⟨false, true, some role⟩]⟩⟩, false⟩

/-- A block for `next` that nobody processed passes, and one for another role does not. -/
theorem next_passes_and_other_fails :
    checkMustUnderstandHeaders (messageForRole soap12RoleNext) = (true, none) ∧
      checkMustUnderstandHeaders (messageForRole "urn:role") =
        (false, some (mustUnderstandFault false)) ∧
      ¬ (messageForRole soap12RoleNext).CheckedRight ∧
      ¬ (messageForRole "urn:role").CheckedRight := by
  have hpasses : checkMustUnderstandHeaders (messageForRole soap12RoleNext) = (true, none) := by
    decide
  have hother : checkMustUnderstandHeaders (messageForRole "urn:role") =
      (false, some (mustUnderstandFault false)) := by decide
  have hlets : checkMustUnderstandHeaders (messageForRole "urn:role").forThisNode =
      (true, none) := by decide
  refine ⟨hpasses, hother, fun hright => ?_, fun hright => ?_⟩
  · have hfails := hright.fails_iff.mpr
      ⟨⟨false, true, some soap12RoleNext⟩, by decide, by decide, by decide⟩
    rw [hpasses] at hfails
    cases hfails
  · have hfails := hright.others (by rw [hother])
    rw [hlets] at hfails
    cases hfails

end Axis2C.Engine
