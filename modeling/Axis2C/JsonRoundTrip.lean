import Axis2C.JsonElements
import Mathlib

/-!
# From JSON to elements and back

The writer computes a value for each element from what the reader made of it. An
object without members comes back as the empty text, and an array inside an array
is not looked at as one, so it comes back as an object or as the empty text. All
other values come back.
-/
namespace Axis2C.JsonElements

section Domain

variable {δ : Type}

mutual

def DistinctNames : Json δ → Prop
  | .object members => (members.map Prod.fst).Nodup ∧ DistinctInMembers members
  | .array items => DistinctInItems items
  | _ => True

def DistinctInItems : List (Json δ) → Prop
  | [] => True
  | item :: rest => DistinctNames item ∧ DistinctInItems rest

def DistinctInMembers : List (String × Json δ) → Prop
  | [] => True
  | (_, value) :: rest => DistinctNames value ∧ DistinctInMembers rest

end

variable (lib : JsonC δ)

mutual

/-- The writer gives the value back: no object is empty, no array stands in an array,
no text has the character zero, and the library reads the doubles that it prints. -/
def Writable (inArray : Bool) : Json δ → Prop
  | .object members => members ≠ [] ∧ WritableMembers members
  | .array items => inArray = false ∧ WritableItems items
  | .string value => cString value = value
  | .double value => (lib.parseDouble (lib.doubleString value)).getD lib.zero = value
  | _ => True

def WritableItems : List (Json δ) → Prop
  | [] => True
  | item :: rest => Writable true item ∧ WritableItems rest

def WritableMembers : List (String × Json δ) → Prop
  | [] => True
  | (_, value) :: rest => Writable false value ∧ WritableMembers rest

end

end Domain

section Values

variable {δ : Type} {lib : JsonC δ}
variable {name : String}

@[simp] lemma elementGetText_one (value : String) : elementGetText [.text value] = value := by
  simp [elementGetText, String.join]

@[simp] lemma elementGetType_type (value : String) :
    elementGetType [⟨"type", some xsiUri, value⟩] = some value := by
  simp [elementGetType]

@[simp] lemma elementGetType_nil : elementGetType [⟨"nil", some xsiUri, "true"⟩] = some "null" := by
  simp [elementGetType]

@[simp] lemma elementGetType_array (value : String) :
    elementGetType [⟨"arrayType", some soapEncodingUri, value⟩] = none := by
  simp [elementGetType, xsiUri, soapEncodingUri]

@[simp] lemma elementIsArray_array (value : String) :
    elementIsArray [⟨"arrayType", some soapEncodingUri, value⟩] = true := by
  simp [elementIsArray]

/-- The value that the writer makes of the element for `value`, in an array or as the
first member of its name. -/
def writtenValue (lib : JsonC δ) (inArray : Bool) : Json δ → Json δ
  | .null => .null
  | .boolean value => .boolean value
  | .double value => .double ((lib.parseDouble (lib.doubleString value)).getD lib.zero)
  | .int value => .int value
  | .string value => .string (cString value)
  | .array items =>
    if inArray = false then writeNodes lib true (.array []) (readItems lib items)
    else if items.isEmpty then .string ""
    else writeNodes lib false (.object []) (readItems lib items)
  | .object members =>
    if members.isEmpty then .string ""
    else writeNodes lib false (.object []) (readMembers lib members)

lemma readChildNode_isElement (name : String) (value : Json δ) :
    (readChildNode lib name value).isElement = true := by
  cases value <;> rfl

lemma readItems_any (items : List (Json δ)) :
    (readItems lib items).any Node.isElement = !items.isEmpty := by
  cases items with
  | nil => rfl
  | cons item rest => simp [readItems, readChildNode_isElement]

lemma readMembers_any (members : List (String × Json δ)) :
    (readMembers lib members).any Node.isElement = !members.isEmpty := by
  cases members with
  | nil => rfl
  | cons member rest => simp [readMembers, readChildNode_isElement]

/-- The element for a value is written as the value that is made of it. -/
lemma writeNode_child {inArray : Bool} {parent : Json δ}
    (h : inArray = true ∨ parent.get? name = none) (value : Json δ) :
    writeNode lib inArray parent (readChildNode lib name value) =
      place inArray parent name (writtenValue lib inArray value) := by
  have hfound : (!inArray && (parent.get? name).isNone) = !inArray := by
    obtain h | h := h <;> simp [h]
  cases value with
  | null => simp [readChildNode, writeNode, writtenValue, elementIsArray, leafValue]
  | boolean value =>
    cases value <;> simp [readChildNode, writeNode, writtenValue, elementIsArray, leafValue,
      typeAttributes, getString, Node.isElement]
  | double value =>
    simp [readChildNode, writeNode, writtenValue, elementIsArray, leafValue, typeAttributes,
      getString, Node.isElement]
  | int value =>
    simp [readChildNode, writeNode, writtenValue, elementIsArray, leafValue, typeAttributes,
      getString, Node.isElement, lib.parse_intString]
  | string value =>
    simp [readChildNode, writeNode, writtenValue, elementIsArray, leafValue, typeAttributes,
      getString, Node.isElement, elementGetType]
  | array items =>
    rw [readChildNode, writeNode, hfound, elementIsArray_array, readItems_any]
    cases inArray <;> cases items <;>
      simp [writtenValue, leafValue, elementGetText, readItems, String.join]
  | object members =>
    rw [readChildNode, writeNode, hfound, readMembers_any]
    cases members <;>
      simp [writtenValue, leafValue, elementGetText, readMembers, elementIsArray,
        elementGetType, String.join]

lemma place_isObject (members : List (String × Json δ)) (name : String) (value : Json δ) :
    ∃ members', place false (.object members) name value = .object members' := by
  unfold place
  cases (Json.object members).get? name with
  | none => exact ⟨_, rfl⟩
  | some found => cases found <;> exact ⟨_, rfl⟩

lemma writeNodes_isObject (nodes : List Node) (members : List (String × Json δ)) :
    ∃ members', writeNodes lib false (.object members) nodes = .object members' := by
  induction nodes generalizing members with
  | nil => exact ⟨members, by rw [writeNodes]⟩
  | cons node nodes ih =>
    have hone : ∃ members', writeNode lib false (.object members) node = .object members' := by
      cases node with
      | text value => exact ⟨members, by rw [writeNode]⟩
      | element localName attributes children =>
        rw [writeNode]
        exact place_isObject _ _ _
    obtain ⟨members', hone⟩ := hone
    rw [writeNodes, hone]
    exact ih members'

lemma writeNodes_items (items acc : List (Json δ)) :
    writeNodes lib true (.array acc) (readItems lib items) =
      .array (acc ++ items.map (writtenValue lib true)) := by
  induction items generalizing acc with
  | nil => simp [readItems, writeNodes]
  | cons item items ih =>
    rw [readItems, writeNodes, writeNode_child (Or.inl rfl)]
    simp [place, Json.arrayAdd, ih]

lemma get?_object {members : List (String × Json δ)} (h : name ∉ members.map Prod.fst) :
    (Json.object members).get? name = none := by
  simp only [Json.get?, Option.map_eq_none_iff, List.find?_eq_none, decide_eq_true_eq]
  rintro member hmem rfl
  exact h (List.mem_map.mpr ⟨member, hmem, rfl⟩)

lemma addMember_new (value : Json δ) {members : List (String × Json δ)}
    (h : name ∉ members.map Prod.fst) :
    addMember name value members = members ++ [(name, value)] := by
  induction members with
  | nil => rfl
  | cons member members ih =>
    simp only [List.map_cons, List.mem_cons, not_or] at h
    rw [addMember, if_neg (Ne.symm h.1), ih h.2]
    rfl

lemma writeNodes_members {members acc : List (String × Json δ)}
    (hnodup : (acc.map Prod.fst ++ members.map Prod.fst).Nodup) :
    writeNodes lib false (.object acc) (readMembers lib members) =
      .object (acc ++ members.map fun member => (member.1, writtenValue lib false member.2)) := by
  induction members generalizing acc with
  | nil => simp [readMembers, writeNodes]
  | cons member members ih =>
    obtain ⟨name, value⟩ := member
    have hnew : name ∉ acc.map Prod.fst := fun hmem =>
      (List.nodup_append.mp hnodup).2.2 name hmem name List.mem_cons_self rfl
    rw [readMembers, writeNodes, writeNode_child (Or.inr (get?_object hnew))]
    simp only [place, get?_object hnew, Json.objectAdd, addMember_new _ hnew, Bool.false_eq_true,
      if_false]
    rw [ih (by simpa using hnodup)]
    simp

lemma writtenValue_inner_array (items : List (Json δ)) :
    writtenValue lib true (.array items) ≠ .array items := by
  rw [writtenValue, if_neg (by simp)]
  split_ifs
  · simp
  · obtain ⟨members, h⟩ : ∃ members,
        writeNodes lib false (.object []) (readItems lib items) = .object members :=
      writeNodes_isObject _ _
    rw [h]
    simp

mutual

/-- A value comes back exactly if it is writable. -/
lemma writtenValue_eq_iff (inArray : Bool) : ∀ value : Json δ, DistinctNames value →
    (writtenValue lib inArray value = value ↔ Writable lib inArray value)
  | .null, _ | .boolean _, _ | .double _, _ | .int _, _ | .string _, _ =>
    by simp [writtenValue, Writable]
  | .array items, h => by
    cases inArray with
    | true => simp [Writable, writtenValue_inner_array]
    | false =>
      have hitems := writtenItems_eq_iff items (by simpa [DistinctNames] using h)
      simp [writtenValue, writeNodes_items, Writable, hitems]
  | .object members, h => by
    rw [DistinctNames] at h
    have hmembers := writtenMembers_eq_iff members h.2
    cases members with
    | nil => simp [writtenValue, Writable]
    | cons member members =>
      simp only [writtenValue, List.isEmpty_cons, Bool.false_eq_true, if_false]
      rw [writeNodes_members (by simpa using h.1), Writable, ← hmembers]
      simp

lemma writtenItems_eq_iff : ∀ items : List (Json δ), DistinctInItems items →
    (items.map (writtenValue lib true) = items ↔ WritableItems lib items)
  | [], _ => by simp [WritableItems]
  | item :: rest, h => by
    rw [DistinctInItems] at h
    rw [WritableItems, ← writtenValue_eq_iff true item h.1, ← writtenItems_eq_iff rest h.2,
      List.map_cons, List.cons.injEq]

lemma writtenMembers_eq_iff : ∀ members : List (String × Json δ), DistinctInMembers members →
    (members.map (fun member => (member.1, writtenValue lib false member.2)) = members ↔
      WritableMembers lib members)
  | [], _ => by simp [WritableMembers]
  | (name, value) :: rest, h => by
    rw [DistinctInMembers] at h
    rw [WritableMembers, ← writtenValue_eq_iff false value h.1, ← writtenMembers_eq_iff rest h.2,
      List.map_cons, List.cons.injEq, Prod.mk.injEq]
    simp

end

end Values

section RoundTrip

variable {δ : Type} {lib : JsonC δ}

/-- The value `{name: value}` after reading and writing; nothing if it is not read. -/
def roundTrip (lib : JsonC δ) (name : String) (value : Json δ) : Option (Json δ) :=
  (jsonReaderRead lib (.object [(name, value)])).map (jsonWriterWrite lib)

lemma jsonReaderRead_one (name : String) (members : List (String × Json δ)) :
    jsonReaderRead lib (.object [(name, .object members)]) =
      if name = headersName then none else some (readChildNode lib name (.object members)) := by
  rw [jsonReaderRead]
  by_cases hname : name = headersName
  · simp [rootMember, hname]
  · simp [rootMember, hname, readNode, readChildNode]

/-- An object under a name comes back exactly if the name is not that of the headers
and the object is writable. -/
theorem roundTrip_iff (name : String) (members : List (String × Json δ))
    (h : DistinctNames (.object members)) :
    roundTrip lib name (.object members) = some (.object [(name, .object members)]) ↔
      name ≠ headersName ∧ Writable lib false (.object members) := by
  rw [roundTrip, jsonReaderRead_one, ← writtenValue_eq_iff false _ h]
  by_cases hname : name = headersName
  · simp [hname]
  · have hwrite : jsonWriterWrite lib (readChildNode lib name (.object members)) =
        .object [(name, writtenValue lib false (.object members))] := by
      rw [jsonWriterWrite, writeNode_child (Or.inr (by simp [Json.get?]))]
      simp [place, Json.get?, Json.objectAdd, addMember]
    simp [hname, hwrite]

/-- The library on values without doubles. -/
def plainJsonC : JsonC Unit where
  intString n := n.toInt.repr
  doubleString _ := "0.0"
  parseInt64 text := text.toInt?.map Int64.ofInt
  parseDouble _ := some ()
  zero := ()
  parse_intString n := by simp [Int.toInt?_repr]

theorem order_round_trip :
    roundTrip plainJsonC "order" (.object [("id", .int 7), ("paid", .boolean true),
        ("items", .array [.object [("name", .string "tea")], .null])]) =
      some (.object [("order", .object [("id", .int 7), ("paid", .boolean true),
        ("items", .array [.object [("name", .string "tea")], .null])])]) ↔
    "order" ≠ headersName ∧ Writable plainJsonC false (.object [("id", .int 7),
      ("paid", .boolean true), ("items", .array [.object [("name", .string "tea")], .null])]) :=
  roundTrip_iff "order" _ (by simp [DistinctNames, DistinctInMembers, DistinctInItems])

/-- An empty array in an array comes back as the empty text. -/
theorem inner_array_is_lost :
    ¬ ∀ (name : String) (members : List (String × Json Unit)), name ≠ headersName →
      DistinctNames (.object members) →
        roundTrip plainJsonC name (.object members) =
          some (.object [(name, .object members)]) := by
  intro h
  have hback := h "matrix" [("rows", .array [.array []])] (by decide)
    (by simp [DistinctNames, DistinctInMembers, DistinctInItems])
  have hwritten : roundTrip plainJsonC "matrix" (.object [("rows", .array [.array []])]) =
      some (.object [("matrix", .object [("rows", .array [.string ""])])]) := rfl
  simp [hwritten] at hback

end RoundTrip

end Axis2C.JsonElements
