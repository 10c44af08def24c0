import Mathlib.Data.List.Basic

/-!
# JSON as elements

`axis2_json_reader.c` makes an element tree from a JSON value and
`axis2_json_writer.c` makes a JSON value from an element tree. Values are those of
the json-c library: the members of an object in the order of their insertion.
Namespace declarations are left out, since neither side reads them back.
-/
namespace Axis2C.JsonElements

/-- The values of json-c; `δ` holds the doubles. -/
inductive Json (δ : Type)
  | null
  | boolean (value : Bool)
  | double (value : δ)
  | int (value : Int64)
  | string (value : String)
  | array (items : List (Json δ))
  | object (members : List (String × Json δ))

/-- What is taken from json-c: the text of a number and the number of a text. -/
structure JsonC (δ : Type) where
  intString : Int64 → String
  doubleString : δ → String
  parseInt64 : String → Option Int64
  parseDouble : String → Option δ
  zero : δ
  parse_intString : ∀ n, parseInt64 (intString n) = some n

/-- An attribute with the URI of its namespace. -/
structure Attribute where
  localName : String
  uri : Option String
  value : String
  deriving Repr, DecidableEq

/-- The attributes stand in the order in which their table is enumerated. -/
inductive Node
  | text (value : String)
  | element (localName : String) (attributes : List Attribute) (children : List Node)

def xsiUri : String := "http://www.w3.org/2001/XMLSchema-instance"
def soapEncodingUri : String := "http://schemas.xmlsoap.org/soap/encoding/"
def headersName : String := "@headers"

def cString (text : String) : String := String.ofList (text.toList.takeWhile (· ≠ '\x00'))

section Values

variable {δ : Type}

/-- `json_type_to_name` of the type of a value. -/
def Json.typeName : Json δ → String
  | .null => "null"
  | .boolean _ => "boolean"
  | .double _ => "double"
  | .int _ => "int"
  | .string _ => "string"
  | .array _ => "array"
  | .object _ => "object"

/-- `json_object_object_get_ex` -/
def Json.get? (parent : Json δ) (name : String) : Option (Json δ) :=
  match parent with
  | .object members => (members.find? (·.1 = name)).map Prod.snd
  | _ => none

def addMember (name : String) (value : Json δ) : List (String × Json δ) → List (String × Json δ)
  | [] => [(name, value)]
  | member :: rest =>
    if member.1 = name then (name, value) :: rest else member :: addMember name value rest

/-- `json_object_object_add`: a member of that name gets the new value in its place. -/
def Json.objectAdd (parent : Json δ) (name : String) (value : Json δ) : Json δ :=
  match parent with
  | .object members => .object (addMember name value members)
  | other => other

/-- `json_object_object_del` -/
def Json.objectDel (parent : Json δ) (name : String) : Json δ :=
  match parent with
  | .object members => .object (members.filter (·.1 ≠ name))
  | other => other

/-- `json_object_array_add` -/
def Json.arrayAdd (parent value : Json δ) : Json δ :=
  match parent with
  | .array items => .array (items ++ [value])
  | other => other

end Values

section Reader

variable {δ : Type} (lib : JsonC δ)

/-- `axis2_json_get_do_write_type` with the attribute that it is asked for. -/
def typeAttributes : Json δ → List Attribute
  | .boolean _ => [⟨"type", some xsiUri, "boolean"⟩]
  | .double _ => [⟨"type", some xsiUri, "double"⟩]
  | .int _ => [⟨"type", some xsiUri, "int"⟩]
  | _ => []

/-- `json_object_get_string` of a value that has no parts. -/
def getString : Json δ → String
  | .boolean true => "true"
  | .boolean false => "false"
  | .double value => lib.doubleString value
  | .int value => lib.intString value
  | .string value => cString value
  | _ => ""

def arrayType (items : List (Json δ)) : String :=
  (items.getLast?.elim "null" Json.typeName) ++ "[" ++ toString items.length ++ "]"

mutual

/-- `axis2_json_read_child_node`: the element for a value. -/
def readChildNode (childName : String) : Json δ → Node
  | .object members => .element childName [] (readMembers members)
  | .array items =>
    .element childName [⟨"arrayType", some soapEncodingUri, arrayType items⟩] (readItems items)
  | .null => .element childName [⟨"nil", some xsiUri, "true"⟩] []
  | value => .element childName (typeAttributes value) [.text (getString lib value)]

def readItems : List (Json δ) → List Node
  | [] => []
  | item :: rest => readChildNode "item" item :: readItems rest

def readMembers : List (String × Json δ) → List Node
  | [] => []
  | (name, value) :: rest => readChildNode name value :: readMembers rest

end

/-- `axis2_json_read_node` -/
def readNode (name : String) : Json δ → Option Node
  | .object members => some (.element name [] (readMembers lib members))
  | _ => none

/-- The first member that is not the headers and not null, or the last of those
that are null. -/
def rootMember : List (String × Json δ) → Option (String × Json δ) → Option (String × Json δ)
  | [], root => root
  | member :: rest, root =>
    if member.1 = headersName then rootMember rest root
    else
      match root with
      | some (_, .null) | none => rootMember rest (some member)
      | some _ => rootMember rest root

/-- `axis2_json_reader_read`, with the root element that it leaves. -/
def jsonReaderRead (value : Json δ) : Option Node :=
  match value with
  | .object members =>
    match rootMember members none with
    | none | some (_, .null) => none
    | some (name, root) => readNode lib name root
  | _ => none

end Reader

section Writer

variable {δ : Type} (lib : JsonC δ)

def Node.isElement : Node → Bool
  | .text _ => false
  | .element .. => true

/-- `axis2_json_element_get_type` -/
def elementGetType : List Attribute → Option String
  | [] => none
  | attr :: rest =>
    if attr.uri = some xsiUri then
      if attr.localName = "type" then some attr.value
      else if attr.localName = "nil" && (attr.value = "true" || attr.value = "1") then
        some "null"
      else elementGetType rest
    else elementGetType rest

/-- `axis2_json_element_is_array` -/
def elementIsArray (attributes : List Attribute) : Bool :=
  attributes.any fun attr => attr.localName = "arrayType" && attr.uri = some soapEncodingUri

/-- `axiom_element_get_text` with the empty text in the place of none. -/
def elementGetText (children : List Node) : String :=
  String.join (children.filterMap fun
    | .text value => some value
    | .element .. => none)

/-- The value of an element without child elements, by `axis2_json_string_to_type`. -/
def leafValue (attributes : List Attribute) (children : List Node) : Json δ :=
  let value := elementGetText children
  match elementGetType attributes with
  | some "null" => .null
  | some "boolean" => .boolean (value = "true" || value = "1")
  | some "double" => .double ((lib.parseDouble value).getD lib.zero)
  | some "int" => .int ((lib.parseInt64 value).getD 0)
  | _ => .string value

/-- Where the value of an element goes: behind the items of an array; behind the
values of its name, which become an array when they are not one; or under its name. -/
def place (parentIsArray : Bool) (parent : Json δ) (name : String) (value : Json δ) : Json δ :=
  if parentIsArray then parent.arrayAdd value
  else
    match parent.get? name with
    | some (.array items) => parent.objectAdd name (.array (items ++ [value]))
    | some other => (parent.objectDel name).objectAdd name (.array [other, value])
    | none => parent.objectAdd name value

mutual

/-- `axis2_json_write_node`. The attribute of an array is looked at only when the
element is the first of its name in an object. The new value is put into its place
before it is filled; nothing looks at it in between. -/
def writeNode (parentIsArray : Bool) (parent : Json δ) : Node → Json δ
  | .text _ => parent
  | .element localName attributes children =>
    let isArray :=
      !parentIsArray && (parent.get? localName).isNone && elementIsArray attributes
    let value :=
      if isArray then writeNodes true (.array []) children
      else if children.any Node.isElement then writeNodes false (.object []) children
      else leafValue lib attributes children
    place parentIsArray parent localName value

/-- The loop over the children, of which the elements are written. -/
def writeNodes (parentIsArray : Bool) (parent : Json δ) : List Node → Json δ
  | [] => parent
  | child :: rest => writeNodes parentIsArray (writeNode parentIsArray parent child) rest

end

/-- `axis2_json_writer_write` -/
def jsonWriterWrite (node : Node) : Json δ := writeNode lib false (.object []) node

end Writer

end Axis2C.JsonElements
