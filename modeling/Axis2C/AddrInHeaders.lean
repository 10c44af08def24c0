import Axis2C.AddrHandlers
import Mathlib.Tactic

/-!
# Addressing headers that are recognised

The loop over the blocks looks at local names only. What it leaves behind is read off the blocks of
each name, and it is what the blocks of the addressing namespace say exactly when no other block
and no other child of an endpoint has one of the names.
-/
namespace Axis2C.Addr

/-! ### Endpoints -/

section Endpoints

variable {addrNs : String}

def childrenNamed (localname : String) (block : Element) : List Element :=
  (childElements block).filter fun child => child.localname = localname

/-- The text of the last child named Address, an empty one if there is none. -/
def lastAddress (addresses : List Element) : Option String :=
  match addresses.getLast? with
  | none => some ""
  | some child => getText child

def addressIn (addrNs : String) (block : Element) : Option String :=
  lastAddress ((childrenNamed eprAddress block).filter (·.inNs addrNs))

/-- The reference parameters in the addressing namespace's own group. -/
def refParamsIn (addrNs : String) (block : Element) : List Element :=
  ((childrenNamed eprReferenceParameters block).filter (·.inNs addrNs)).flatMap childElements

lemma checkElement_eq (localname : String) (uri : Option String) (e : Element) :
    checkElement ⟨localname, uri⟩ e.qname = decide (e.localname = localname) := by
  simp only [checkElement, Element.qname, Bool.and_self]
  exact decide_eq_decide.mpr eq_comm

/-- What the loop over the children of an endpoint leaves behind. -/
lemma foldl_extractChild (addrNs : String) (epr : EndpointRef) (children : List Element) :
    children.foldl (extractChild addrNs) epr =
      { epr with
        address :=
          match (children.filter (fun c => c.localname = eprAddress)).getLast? with
          | none => epr.address
          | some child => getText child
        refParams := epr.refParams ++
          (children.filter (fun c => c.localname = eprReferenceParameters)).flatMap
            childElements } := by
  induction children using List.reverseRecOn with
  | nil => simp
  | append_singleton children child ih =>
    rw [List.foldl_concat, ih]
    by_cases haddress : child.localname = eprAddress
    · simp [extractChild, checkElement_eq, haddress, List.filter_append, eprAddress,
        eprReferenceParameters]
    · by_cases hparams : child.localname = eprReferenceParameters
      · simp [extractChild, checkElement_eq, hparams, List.filter_append, eprAddress,
          eprReferenceParameters]
      · simp [extractChild, checkElement_eq, haddress, hparams, List.filter_append]

/-- The endpoint read from a block, whatever namespaces its children are in. -/
lemma extractEprInformation_eq (block : Element) (addrNs : String) :
    extractEprInformation block (endpointRefCreate (some "")) addrNs =
      { endpointRefCreate (some "") with
        address := lastAddress (childrenNamed eprAddress block)
        refParams := (childrenNamed eprReferenceParameters block).flatMap childElements } := by
  rw [extractEprInformation, foldl_extractChild]
  rfl

lemma getLast?_filter_of_last {α : Type*} {l : List α} {p : α → Bool} {a : α}
    (h : l.getLast? = some a) (ha : p a = true) : (l.filter p).getLast? = some a := by
  obtain ⟨init, rfl⟩ := List.getLast?_eq_some_iff.mp h
  simp [List.filter_append, ha]

lemma flatMap_filter_eq_iff {α β : Type*} (l : List α) (p : α → Bool) (f : α → List β) :
    l.flatMap f = (l.filter p).flatMap f ↔ ∀ a ∈ l, p a = false → f a = [] := by
  induction l with
  | nil => simp
  | cons a l ih =>
    by_cases ha : p a = true
    · simp [List.filter_cons_of_pos ha, ih, ha]
    · have hle : ((l.filter p).flatMap f).length ≤ (l.flatMap f).length :=
        (List.filter_sublist.flatMap f).length_le
      rw [List.filter_cons_of_neg ha, List.flatMap_cons]
      constructor
      · intro heq
        have hlength := congrArg List.length heq
        rw [List.length_append] at hlength
        have hnil : f a = [] := List.length_eq_zero_iff.mp (by omega)
        rw [hnil, List.nil_append, ih] at heq
        intro b hb hp
        rcases List.mem_cons.mp hb with rfl | hb
        · exact hnil
        · exact heq b hb hp
      · intro h
        rw [h a (by simp) (by simpa using ha), List.nil_append, ih]
        exact fun b hb => h b (List.mem_cons_of_mem a hb)

/-- No child of another namespace changes what is read of an endpoint. -/
structure Undisturbed (addrNs : String) (block : Element) : Prop where
  address : ∀ child, (childrenNamed eprAddress block).getLast? = some child →
    child.inNs addrNs = true ∨ getText child = addressIn addrNs block
  refParams : ∀ child ∈ childrenNamed eprReferenceParameters block,
    child.inNs addrNs = false → childElements child = []

lemma lastAddress_filter_iff (addrNs : String) (block : Element) :
    lastAddress (childrenNamed eprAddress block) = addressIn addrNs block ↔
      ∀ child, (childrenNamed eprAddress block).getLast? = some child →
        child.inNs addrNs = true ∨ getText child = addressIn addrNs block := by
  cases hlast : (childrenNamed eprAddress block).getLast? with
  | none =>
    have hnil : childrenNamed eprAddress block = [] := List.getLast?_eq_none_iff.mp hlast
    simp [addressIn, hnil]
  | some child =>
    have hcode : lastAddress (childrenNamed eprAddress block) = getText child := by
      rw [lastAddress, hlast]
    rw [hcode]
    constructor
    · rintro heq _ ⟨⟩
      exact .inr heq
    · intro h
      rcases h child rfl with hns | heq
      · rw [addressIn, lastAddress, getLast?_filter_of_last hlast hns]
      · exact heq

lemma undisturbed_iff (addrNs : String) (block : Element) :
    Undisturbed addrNs block ↔
      lastAddress (childrenNamed eprAddress block) = addressIn addrNs block ∧
        (childrenNamed eprReferenceParameters block).flatMap childElements =
          refParamsIn addrNs block := by
  rw [lastAddress_filter_iff, refParamsIn, flatMap_filter_eq_iff]
  exact ⟨fun h => ⟨h.address, h.refParams⟩, fun h => ⟨h.1, h.2⟩⟩

end Endpoints

/-! ### The loop over the blocks -/

section Loop

variable {h : SoapHeader} {addrNs : String}
variable {kind : Kind} {block : Element} {blocks : List Element}

/-- A block that is looked at. -/
def SoapHeader.live (h : SoapHeader) (block : Element) : Bool :=
  getRole h block ≠ some soap12RoleNone

/-- The blocks that the loop takes to be of a kind. -/
def named (h : SoapHeader) (kind : Kind) (blocks : List Element) : List Element :=
  blocks.filter fun block => h.live block && kindOf block.localname = some kind

lemma named_concat (kind : Kind) (blocks : List Element) (block : Element) :
    named h kind (blocks ++ [block]) = named h kind blocks ++
      if h.live block = true ∧ kindOf block.localname = some kind then [block] else [] := by
  rw [named, List.filter_append]
  congr 1
  by_cases hboth : h.live block = true ∧ kindOf block.localname = some kind
  · simp [hboth]
  · rw [if_neg hboth, List.filter_eq_nil_iff]
    simpa using hboth

lemma named_other (hkind : kindOf block.localname ≠ some kind) :
    named h kind (blocks ++ [block]) = named h kind blocks := by
  rw [named_concat, if_neg fun hboth => hkind hboth.2, List.append_nil]

lemma named_same (hlive : h.live block = true) (hkind : kindOf block.localname = some kind) :
    named h kind (blocks ++ [block]) = named h kind blocks ++ [block] := by
  rw [named_concat, if_pos ⟨hlive, hkind⟩]

/-- A header of which there may be one only. -/
def Kind.single (kind : Kind) : Prop := kind ≠ .from_ ∧ kind ≠ .relatesTo

/-- No header of which there may be one only is there twice. -/
def NoneTwice (h : SoapHeader) (blocks : List Element) : Prop :=
  ∀ kind : Kind, kind.single → (named h kind blocks).length ≤ 1

lemma noneTwice_concat (hlive : h.live block = true) (hkind : kindOf block.localname = some kind)
    (hsingle : kind.single) :
    NoneTwice h (blocks ++ [block]) ↔ NoneTwice h blocks ∧ named h kind blocks = [] := by
  constructor
  · intro htwice
    refine ⟨fun kind' hsingle' => ?_, ?_⟩
    · have hle := htwice kind' hsingle'
      rw [named_concat, List.length_append] at hle
      omega
    · have hle := htwice kind hsingle
      rw [named_same hlive hkind, List.length_append, List.length_singleton] at hle
      exact List.length_eq_zero_iff.mp (by omega)
  · rintro ⟨htwice, hnil⟩ kind' hsingle'
    by_cases hsame : kind = kind'
    · subst hsame
      rw [named_same hlive hkind, hnil]
      simp
    · rw [named_other (by rw [hkind]; simpa using hsame)]
      exact htwice kind' hsingle'

lemma noneTwice_other (hother : ∀ kind, kindOf block.localname = some kind → ¬ kind.single) :
    NoneTwice h (blocks ++ [block]) ↔ NoneTwice h blocks := by
  have hnamed (kind : Kind) (hsingle : kind.single) :
      named h kind (blocks ++ [block]) = named h kind blocks :=
    named_other fun hkind => hother kind hkind hsingle
  constructor
  · intro htwice kind hsingle
    rw [← hnamed kind hsingle]
    exact htwice kind hsingle
  · intro htwice kind hsingle
    rw [hnamed kind hsingle]
    exact htwice kind hsingle

def readEndpoint (addrNs : String) (block : Element) : EndpointRef :=
  extractEprInformation block (endpointRefCreate (some "")) addrNs

def readTo (h : SoapHeader) (addrNs : String) (block : Element) : EndpointRef :=
  extractToEprRefParams (endpointRefCreate (getText block)) h addrNs

/-- The state after the loop. -/
def readBlocks (h : SoapHeader) (addrNs : String) (s : Extraction) (blocks : List Element) :
    Extraction :=
  blocks.foldl (fun s block => (extractBlock h addrNs s block).1) s

lemma extractBlocks_fst (s : Extraction) (blocks : List Element) :
    (extractBlocks h addrNs s blocks).1 = readBlocks h addrNs s blocks := by
  induction blocks generalizing s with
  | nil => rfl
  | cons block blocks ih => exact ih _

lemma readBlocks_field {β : Type} {kind : Kind} (f : Extraction → β) (g : β → Element → β)
    (hown : ∀ s block, getRole h block ≠ some soap12RoleNone → kindOf block.localname = some kind →
      f (extractBlock h addrNs s block).1 = g (f s) block)
    (hother : ∀ s block, kindOf block.localname ≠ some kind →
      f (extractBlock h addrNs s block).1 = f s)
    (s : Extraction) (blocks : List Element) :
    f (readBlocks h addrNs s blocks) = (named h kind blocks).foldl g (f s) := by
  induction blocks generalizing s with
  | nil => rfl
  | cons block blocks ih =>
    refine (ih _).trans ?_
    by_cases hlive : h.live block = true
    · by_cases hkind : kindOf block.localname = some kind
      · have hnamed : named h kind (block :: blocks) = block :: named h kind blocks :=
          List.filter_cons_of_pos (by simp [hlive, hkind])
        rw [hnamed, hown s block (by simpa [SoapHeader.live] using hlive) hkind]
        rfl
      · have hnamed : named h kind (block :: blocks) = named h kind blocks :=
          List.filter_cons_of_neg (by simp [hkind])
        rw [hnamed, hother s block hkind]
    · have hnamed : named h kind (block :: blocks) = named h kind blocks :=
        List.filter_cons_of_neg (by simp [hlive])
      have hrole : getRole h block = some soap12RoleNone := by simpa [SoapHeader.live] using hlive
      have hskip : (extractBlock h addrNs s block).1 = s := by simp only [extractBlock, if_pos hrole]
      rw [hnamed]
      exact congrArg (fun s => (named h kind blocks).foldl g (f s)) hskip

/-- The fields that belong to one kind of header. -/
structure Slot where
  found : Bool
  epr : Option EndpointRef
  text : Option String
  relatesTo : Option RelatesTo

def Extraction.slot (s : Extraction) : Kind → Slot
  | .to_ => ⟨s.toFound, s.headers.to_, none, none⟩
  | .from_ => ⟨false, s.headers.from_, none, none⟩
  | .replyTo => ⟨s.replyToFound, s.headers.replyTo, none, none⟩
  | .faultTo => ⟨s.faultToFound, s.headers.faultTo, none, none⟩
  | .messageId => ⟨s.msgIdFound, none, s.headers.messageId, none⟩
  | .action => ⟨s.actionFound, none, s.headers.action, none⟩
  | .relatesTo => ⟨false, none, none, s.headers.relatesTo⟩

def Kind.write (h : SoapHeader) (addrNs : String) (kind : Kind) (r : Slot) (block : Element) :
    Slot :=
  let epr := extractEprInformation block (r.epr.getD (endpointRefCreate (some ""))) addrNs
  match kind with
  | .to_ =>
    if r.found then r
    else { r with
      found := true
      epr := some (extractToEprRefParams (endpointRefCreate (getText block)) h addrNs) }
  | .from_ => { r with epr := some epr }
  | .replyTo => if r.found then r else { r with found := true, epr := some epr }
  | .faultTo =>
    if r.found then { r with epr := none } else { r with found := true, epr := some epr }
  | .messageId | .action =>
    if r.found then r else { r with found := true, text := getText block }
  | .relatesTo => { r with relatesTo := some (readRelatesTo block) }

lemma extractBlock_own (s : Extraction) (hrole : getRole h block ≠ some soap12RoleNone)
    (hkind : kindOf block.localname = some kind) :
    (extractBlock h addrNs s block).1.slot kind = kind.write h addrNs (s.slot kind) block := by
  simp only [extractBlock, if_neg hrole, hkind]
  cases kind with
  | from_ | relatesTo => rfl
  | to_ | replyTo | faultTo | messageId | action =>
    simp only [Kind.write, Extraction.slot]
    split <;> simp [*, Extraction.refuse]

lemma extractBlock_other (s : Extraction) (hkind : kindOf block.localname ≠ some kind) :
    (extractBlock h addrNs s block).1.slot kind = s.slot kind := by
  simp only [extractBlock]
  split
  · rfl
  cases hactual : kindOf block.localname with
  | none => rfl
  | some actual =>
    have hne : actual ≠ kind := fun heq => hkind (heq ▸ hactual)
    cases actual with
    | from_ | relatesTo =>
      cases kind <;> first | rfl | exact absurd rfl hne
    | to_ | replyTo | faultTo | messageId | action =>
      simp only
      split <;> cases kind <;> first | rfl | exact absurd rfl hne

/-- The fields of a kind are computed from the blocks of the kind. -/
lemma readBlocks_slot (kind : Kind) (s : Extraction) (blocks : List Element) :
    (readBlocks h addrNs s blocks).slot kind =
      (named h kind blocks).foldl (kind.write h addrNs) (s.slot kind) :=
  readBlocks_field (fun s => s.slot kind) _ (fun s _ => extractBlock_own s)
    (fun s _ => extractBlock_other s) s blocks

/-- A second block of a kind is refused. -/
lemma extractBlock_success (s : Extraction) (hrole : getRole h block ≠ some soap12RoleNone)
    (hkind : kindOf block.localname = some kind) :
    (extractBlock h addrNs s block).1.success = (s.success && !(s.slot kind).found) := by
  simp only [extractBlock, if_neg hrole, hkind]
  cases kind with
  | from_ | relatesTo => simp [Extraction.slot]
  | to_ | replyTo | faultTo | messageId | action =>
    simp only [Extraction.slot]
    split <;> simp_all [Extraction.refuse]

lemma write_found (hsingle : kind.single) (r : Slot) (block : Element) :
    (kind.write h addrNs r block).found = true := by
  cases kind with
  | from_ => exact absurd rfl hsingle.1
  | relatesTo => exact absurd rfl hsingle.2
  | to_ | replyTo | faultTo | messageId | action =>
    simp only [Kind.write]
    split <;> simp [*]

lemma foldl_write_found (hsingle : kind.single) (r : Slot) (blocks : List Element) :
    (blocks.foldl (kind.write h addrNs) r).found = (r.found || !blocks.isEmpty) := by
  induction blocks generalizing r with
  | nil => simp
  | cons block blocks ih => simp [ih, write_found hsingle]

lemma slot_found_of_not_single (h : ¬ kind.single) (s : Extraction) :
    (s.slot kind).found = false := by
  cases kind with
  | from_ | relatesTo => rfl
  | to_ | replyTo | faultTo | messageId | action => exact absurd ⟨by decide, by decide⟩ h

lemma start_found (kind : Kind) (headers : MsgInfoHeaders) :
    ((Extraction.start headers).slot kind).found = false := by
  cases kind <;> rfl

/-- A block without a kind, or with the role none, changes nothing. -/
lemma extractBlock_ignored (s : Extraction)
    (hignored : ¬ (h.live block = true ∧ kindOf block.localname ≠ none)) :
    extractBlock h addrNs s block = (s, false) := by
  simp only [extractBlock]
  split
  · rfl
  · next hrole =>
      have hkind : kindOf block.localname = none := by
        by_contra hkind
        exact hignored ⟨by simpa [SoapHeader.live] using hrole, hkind⟩
      rw [hkind]

/-- The loop goes well as long as no header is there twice. -/
lemma readBlocks_success (headers : MsgInfoHeaders) (blocks : List Element) :
    (readBlocks h addrNs (.start headers) blocks).success = true ↔ NoneTwice h blocks := by
  induction blocks using List.reverseRecOn with
  | nil => simp [readBlocks, Extraction.start, NoneTwice, named]
  | append_singleton blocks block ih =>
    have hrun : readBlocks h addrNs (.start headers) (blocks ++ [block]) =
        (extractBlock h addrNs (readBlocks h addrNs (.start headers) blocks) block).1 :=
      List.foldl_concat ..
    rw [hrun]
    by_cases hlooked : h.live block = true ∧ kindOf block.localname ≠ none
    · obtain ⟨hlive, hnone⟩ := hlooked
      obtain ⟨kind, hkind⟩ := Option.ne_none_iff_exists'.mp hnone
      rw [extractBlock_success _ (by simpa [SoapHeader.live] using hlive) hkind]
      by_cases hsingle : kind.single
      · rw [readBlocks_slot, foldl_write_found hsingle, start_found,
          noneTwice_concat hlive hkind hsingle]
        simp [ih]
      · rw [slot_found_of_not_single hsingle, noneTwice_other]
        · simpa using ih
        · intro kind' hkind'
          rw [hkind] at hkind'
          exact Option.some.inj hkind' ▸ hsingle
    · have hnamed (kind : Kind) : named h kind (blocks ++ [block]) = named h kind blocks := by
        rw [named_concat, if_neg, List.append_nil]
        exact fun hboth => hlooked ⟨hboth.1, by simp [hboth.2]⟩
      rw [extractBlock_ignored _ hlooked]
      simpa only [NoneTwice, hnamed] using ih

/-- The fields of a kind of which there is at most one block. -/
lemma readBlocks_once (s : Extraction) (hone : (named h kind blocks).length ≤ 1) :
    (readBlocks h addrNs s blocks).slot kind =
      (named h kind blocks).head?.elim (s.slot kind) (kind.write h addrNs (s.slot kind)) := by
  rw [readBlocks_slot]
  match hnamed : named h kind blocks, hone with
  | [], _ | [block], _ => rfl

lemma extractBlocks_marks (s : Extraction) (blocks : List Element) :
    ∀ p ∈ blocks.zip (extractBlocks h addrNs s blocks).2, p.2 = true →
      h.live p.1 = true ∧ kindOf p.1.localname ≠ none := by
  induction blocks generalizing s with
  | nil => simp [extractBlocks]
  | cons block blocks ih =>
    intro p hp hmark
    rcases List.mem_cons.mp hp with rfl | hp
    · by_contra hignored
      rw [extractBlock_ignored s hignored] at hmark
      cases hmark
    · exact ih _ p hp hmark

end Loop

/-! ### Headers of the addressing namespace -/

section Recognised

variable {h : SoapHeader} {addrNs : String}
variable {order : List Element}

/-- The blocks that are headers of the kind in the addressing namespace. -/
def candidates (h : SoapHeader) (addrNs : String) (kind : Kind) : List Element :=
  h.blocks.filter fun block =>
    h.live block && block.localname = kind.localname && block.inNs addrNs

/-- There is one Action, and none of the other headers is there twice. -/
structure Accepted (h : SoapHeader) (addrNs : String) : Prop where
  action : (candidates h addrNs .action).length = 1
  to_ : (candidates h addrNs .to_).length ≤ 1
  replyTo : (candidates h addrNs .replyTo).length ≤ 1
  faultTo : (candidates h addrNs .faultTo).length ≤ 1
  messageId : (candidates h addrNs .messageId).length ≤ 1

/-- The message information headers say what the headers in the addressing namespace say. -/
structure Agrees (h : SoapHeader) (addrNs : String) (headers : MsgInfoHeaders) : Prop where
  to_ : headers.to_.map EndpointRef.address = (candidates h addrNs .to_).head?.map getText
  action : headers.action = (candidates h addrNs .action).head?.bind getText
  replyTo : headers.replyTo.map (fun epr => (epr.address, epr.refParams)) =
    (candidates h addrNs .replyTo).head?.map fun block =>
      (addressIn addrNs block, refParamsIn addrNs block)
  faultTo : headers.faultTo.map (fun epr => (epr.address, epr.refParams)) =
    (candidates h addrNs .faultTo).head?.map fun block =>
      (addressIn addrNs block, refParamsIn addrNs block)
  messageId : headers.messageId = (candidates h addrNs .messageId).head?.bind getText

/-- What is to be expected of the blocks of `h`, when the hash table enumerates them as in
`order`. -/
structure Recognised (h : SoapHeader) (addrNs : String) (order : List Element) : Prop where
  success : (extractAddrParams { h with blocks := order } msgInfoHeadersCreate addrNs).1.success =
    true ↔ Accepted h addrNs
  values : Accepted h addrNs → Agrees h addrNs
    (extractAddrParams { h with blocks := order } msgInfoHeadersCreate addrNs).1.headers
  processed : ∀ p ∈ order.zip
      (extractAddrParams { h with blocks := order } msgInfoHeadersCreate addrNs).2,
    p.2 = true → p.1.inNs addrNs = true

/-- No block of another namespace has the name of an addressing header, and no child of another
namespace changes what is read of an endpoint of a message that is accepted. -/
structure Clear (h : SoapHeader) (addrNs : String) : Prop where
  names : ∀ block ∈ h.blocks, h.live block = true → kindOf block.localname ≠ none →
    block.inNs addrNs = true
  endpoints : Accepted h addrNs → ∀ block,
    block ∈ candidates h addrNs .replyTo ∨ block ∈ candidates h addrNs .faultTo →
    Undisturbed addrNs block

lemma kindOf_localname (kind : Kind) : kindOf kind.localname = some kind := by
  cases kind <;> decide

lemma kindOf_eq_some {localname : String} {kind : Kind} :
    kindOf localname = some kind ↔ localname = kind.localname := by
  constructor
  · intro hkind
    unfold kindOf at hkind
    split_ifs at hkind with h₁ h₂ h₃ h₄ h₅ h₆ h₇ <;> cases hkind <;> assumption
  · rintro rfl
    exact kindOf_localname kind

/-- Among blocks that are clear the loop finds those of the addressing namespace. -/
lemma named_perm {order : List Element} (horder : order.Perm h.blocks)
    (hnames : ∀ block ∈ h.blocks, h.live block = true → kindOf block.localname ≠ none →
      block.inNs addrNs = true) (kind : Kind) :
    (named h kind order).Perm (candidates h addrNs kind) := by
  have heq : candidates h addrNs kind = named h kind h.blocks := by
    apply List.filter_congr
    intro block hblock
    by_cases hlive : h.live block = true
    · by_cases hname : block.localname = kind.localname
      · have hkind := kindOf_eq_some.mpr hname
        have hns := hnames block hblock hlive (by simp [hkind])
        simp [hlive, hname, hns, kindOf_localname]
      · have hkind : kindOf block.localname ≠ some kind := fun hkind =>
          hname (kindOf_eq_some.mp hkind)
        simp [hname, hkind]
    · simp [hlive]
  rw [heq]
  exact horder.filter _

lemma eq_of_perm_of_length_le_one {α : Type*} {l l' : List α} (hperm : l.Perm l')
    (hone : l'.length ≤ 1) : l = l' := by
  match l', hone with
  | [], _ => exact hperm.eq_nil
  | [a], _ => exact List.perm_singleton.mp hperm

/-- The call, when there is a block. -/
lemma extractAddrParams_eq (hne : order ≠ []) (headers : MsgInfoHeaders) :
    extractAddrParams { h with blocks := order } headers addrNs =
      if (readBlocks { h with blocks := order } addrNs (.start headers) order).actionFound then
        extractBlocks { h with blocks := order } addrNs (.start headers) order
      else
        ((readBlocks { h with blocks := order } addrNs (.start headers) order).refuse .action,
          (extractBlocks { h with blocks := order } addrNs (.start headers) order).2) := by
  have hempty : order.isEmpty = false := by simpa using hne
  simp only [extractAddrParams, hempty, extractBlocks_fst]
  rfl

lemma readBlocks_actionFound (headers : MsgInfoHeaders) :
    (readBlocks { h with blocks := order } addrNs (.start headers) order).actionFound =
      !(named h .action order).isEmpty := by
  have hslot : (readBlocks { h with blocks := order } addrNs (.start headers) order).slot .action =
      _ := readBlocks_slot .action (.start headers) order
  have hfound := congrArg Slot.found hslot
  rw [foldl_write_found ⟨by decide, by decide⟩, start_found] at hfound
  exact hfound.trans (Bool.false_or _)

lemma extractAddrParams_success (hne : order ≠ []) (headers : MsgInfoHeaders) :
    (extractAddrParams { h with blocks := order } headers addrNs).1.success = true ↔
      NoneTwice h order ∧ named h .action order ≠ [] := by
  have htwice : (readBlocks { h with blocks := order } addrNs (.start headers) order).success =
      true ↔ NoneTwice h order := readBlocks_success headers order
  rw [extractAddrParams_eq hne, readBlocks_actionFound]
  by_cases haction : named h .action order = []
  · simp [haction, Extraction.refuse]
  · simp [haction, extractBlocks_fst, htwice]

/-- The headers that are left when all goes well. -/
lemma extractAddrParams_headers (hne : order ≠ []) (haction : named h .action order ≠ [])
    (headers : MsgInfoHeaders) :
    (extractAddrParams { h with blocks := order } headers addrNs).1.headers =
      (readBlocks { h with blocks := order } addrNs (.start headers) order).headers := by
  rw [extractAddrParams_eq hne, readBlocks_actionFound]
  simp [haction, extractBlocks_fst]

lemma extractAddrParams_marks (hne : order ≠ []) (headers : MsgInfoHeaders) :
    (extractAddrParams { h with blocks := order } headers addrNs).2 =
      (extractBlocks { h with blocks := order } addrNs (.start headers) order).2 := by
  rw [extractAddrParams_eq hne]
  split <;> rfl

lemma selectNamespace_ne_nil (hns : selectNamespace h = some addrNs) : h.blocks ≠ [] := by
  intro hnil
  simp [selectNamespace, blocksWithNamespaceUri, hnil] at hns

/-- The blocks are accepted when the loop finds one action and nothing twice. -/
lemma accepted_iff (hnamed : ∀ kind, (named h kind order).Perm (candidates h addrNs kind)) :
    Accepted h addrNs ↔ NoneTwice h order ∧ named h .action order ≠ [] := by
  have hlength (kind : Kind) : (named h kind order).length = (candidates h addrNs kind).length :=
    (hnamed kind).length_eq
  constructor
  · intro haccepted
    refine ⟨fun kind hsingle => ?_, fun hnil => ?_⟩
    · rw [hlength]
      cases kind with
      | to_ => exact haccepted.to_
      | from_ => exact absurd rfl hsingle.1
      | replyTo => exact haccepted.replyTo
      | faultTo => exact haccepted.faultTo
      | messageId => exact haccepted.messageId
      | action => exact haccepted.action.le
      | relatesTo => exact absurd rfl hsingle.2
    · have hone := haccepted.action
      rw [← hlength, hnil] at hone
      cases hone
  · rintro ⟨htwice, haction⟩
    have hle (kind : Kind) (hsingle : kind.single) : (candidates h addrNs kind).length ≤ 1 := by
      rw [← hlength]
      exact htwice kind hsingle
    have hpos : 0 < (candidates h addrNs .action).length := by
      rw [← hlength]
      exact List.length_pos_iff.mpr haction
    exact ⟨le_antisymm (hle .action ⟨by decide, by decide⟩) hpos,
      hle .to_ ⟨by decide, by decide⟩, hle .replyTo ⟨by decide, by decide⟩,
      hle .faultTo ⟨by decide, by decide⟩, hle .messageId ⟨by decide, by decide⟩⟩

/-- The fields of a kind, when at most one block of the kind is found. -/
lemma slot_of_perm (addrNs : String) {order found : List Element} {kind : Kind}
    (hnamed : (named h kind order).Perm found) (hone : found.length ≤ 1) (s : Extraction) :
    (readBlocks { h with blocks := order } addrNs s order).slot kind =
      found.head?.elim (s.slot kind)
        (kind.write { h with blocks := order } addrNs (s.slot kind)) := by
  have heq : named { h with blocks := order } kind order = found :=
    eq_of_perm_of_length_le_one hnamed hone
  rw [readBlocks_once _ (by rw [heq]; exact hone), heq]

/-- The headers that are read from blocks that are accepted. -/
structure ReadFrom (h : SoapHeader) (addrNs : String) (order : List Element)
    (headers : MsgInfoHeaders) : Prop where
  to_ : headers.to_ =
    (candidates h addrNs .to_).head?.map (readTo { h with blocks := order } addrNs)
  action : headers.action = (candidates h addrNs .action).head?.bind getText
  replyTo : headers.replyTo = (candidates h addrNs .replyTo).head?.map (readEndpoint addrNs)
  faultTo : headers.faultTo = (candidates h addrNs .faultTo).head?.map (readEndpoint addrNs)
  messageId : headers.messageId = (candidates h addrNs .messageId).head?.bind getText

lemma readFrom_order (hne : order ≠ [])
    (hnamed : ∀ kind, (named h kind order).Perm (candidates h addrNs kind))
    (haccepted : Accepted h addrNs) :
    ReadFrom h addrNs order
      (extractAddrParams { h with blocks := order } msgInfoHeadersCreate addrNs).1.headers := by
  have haction := ((accepted_iff hnamed).mp haccepted).2
  rw [extractAddrParams_headers hne haction]
  have hslot (kind : Kind) (hone : (candidates h addrNs kind).length ≤ 1) :=
    slot_of_perm addrNs (hnamed kind) hone (.start msgInfoHeadersCreate)
  constructor
  · refine (congrArg Slot.epr (hslot .to_ haccepted.to_)).trans ?_
    cases (candidates h addrNs .to_).head? <;> rfl
  · refine (congrArg Slot.text (hslot .action haccepted.action.le)).trans ?_
    cases (candidates h addrNs .action).head? <;> rfl
  · refine (congrArg Slot.epr (hslot .replyTo haccepted.replyTo)).trans ?_
    cases (candidates h addrNs .replyTo).head? <;> rfl
  · refine (congrArg Slot.epr (hslot .faultTo haccepted.faultTo)).trans ?_
    cases (candidates h addrNs .faultTo).head? <;> rfl
  · refine (congrArg Slot.text (hslot .messageId haccepted.messageId)).trans ?_
    cases (candidates h addrNs .messageId).head? <;> rfl

lemma readEndpoint_eq_iff (addrNs : String) (block : Element) :
    ((readEndpoint addrNs block).address, (readEndpoint addrNs block).refParams) =
      (addressIn addrNs block, refParamsIn addrNs block) ↔ Undisturbed addrNs block := by
  rw [undisturbed_iff, readEndpoint, extractEprInformation_eq, Prod.mk.injEq]

lemma endpoint_eq_iff (addrNs : String) {blocks : List Element} (hone : blocks.length ≤ 1) :
    ((blocks.head?.map (readEndpoint addrNs)).map fun epr => (epr.address, epr.refParams)) =
        blocks.head?.map (fun block => (addressIn addrNs block, refParamsIn addrNs block)) ↔
      ∀ block ∈ blocks, Undisturbed addrNs block := by
  match blocks, hone with
  | [], _ => simp
  | [block], _ =>
    simp [List.head?_cons, List.forall_mem_singleton, ← readEndpoint_eq_iff]

lemma agrees_iff {headers : MsgInfoHeaders} (haccepted : Accepted h addrNs)
    (hread : ReadFrom h addrNs order headers) :
    Agrees h addrNs headers ↔ ∀ block,
      block ∈ candidates h addrNs .replyTo ∨ block ∈ candidates h addrNs .faultTo →
      Undisturbed addrNs block := by
  have hreplyTo := endpoint_eq_iff addrNs haccepted.replyTo
  have hfaultTo := endpoint_eq_iff addrNs haccepted.faultTo
  rw [← hread.replyTo] at hreplyTo
  rw [← hread.faultTo] at hfaultTo
  constructor
  · rintro hagrees block (hblock | hblock)
    · exact hreplyTo.mp hagrees.replyTo block hblock
    · exact hfaultTo.mp hagrees.faultTo block hblock
  · intro hclear
    refine ⟨?_, hread.action, hreplyTo.mpr fun block hblock => hclear block (.inl hblock),
      hfaultTo.mpr fun block hblock => hclear block (.inr hblock), hread.messageId⟩
    rw [hread.to_, Option.map_map]
    rfl

lemma extractBlock_first {block : Element} (headers : MsgInfoHeaders)
    (hlive : h.live block = true) (hkind : kindOf block.localname ≠ none) :
    (extractBlock h addrNs (.start headers) block).2 = true := by
  have hrole : getRole h block ≠ some soap12RoleNone := by simpa [SoapHeader.live] using hlive
  obtain ⟨kind, hkind⟩ := Option.ne_none_iff_exists'.mp hkind
  simp only [extractBlock, if_neg hrole, hkind]
  cases kind <;> rfl

/-- A block of another namespace that has the name of an addressing header is marked in an order
in which it comes first. -/
lemma inNs_of_recognised {block : Element} (hblock : block ∈ h.blocks)
    (hall : ∀ order : List Element, order.Perm h.blocks → Recognised h addrNs order)
    (hlive : h.live block = true) (hkind : kindOf block.localname ≠ none) :
    block.inNs addrNs = true := by
  obtain ⟨before, behind, hsplit⟩ := List.append_of_mem hblock
  have horder : (block :: (before ++ behind)).Perm h.blocks := by
    rw [hsplit]
    exact List.perm_middle.symm
  have hmarked := (hall _ horder).processed
  rw [extractAddrParams_marks (by simp)] at hmarked
  exact hmarked (block, true) (List.mem_cons.mpr (.inl (by
    have hfirst : (extractBlock { h with blocks := block :: (before ++ behind) } addrNs
        (.start msgInfoHeadersCreate) block).2 = true :=
      extractBlock_first msgInfoHeadersCreate hlive hkind
    rw [hfirst]))) rfl

def actionOnly : SoapHeader :=
  ⟨.soap12, none, [⟨"Action", some ⟨wsaNamespace, some "wsa"⟩, [], [.text "urn:act"]⟩]⟩

def foreignTo : SoapHeader :=
  ⟨.soap12, none, [⟨"To", some ⟨"urn:routing", some "r"⟩, [], [.text "urn:elsewhere"]⟩,
    ⟨"Action", some ⟨wsaNamespace, some "wsa"⟩, [], [.text "urn:act"]⟩]⟩

end Recognised

end Axis2C.Addr
