import Axis2C.RestTemplate

/-!
# REST dispatch

The REST map of a service, from `core_utils.c`: the routines that put a template
into the map, the match of one URL component with a pattern, and the lookup,
which cuts the URL in place at every slash and puts the slash back where a branch
fails. A hash table is the list of its entries in the order in which they were
put in; the order of an enumeration is a parameter.
-/
namespace Axis2C.RestDispatch
open FirstOccurrence RestTemplate

section Pattern

/-- `const_part`: a place in the pattern, with the text from there to `c`, or the
copy that was put into the list of constants. -/
inductive ConstPart where
  | here (text : Text)
  | copy (text : Text)
  deriving DecidableEq

def ConstPart.text : ConstPart → Text
  | .here text | .copy text => text

/-- The place in the pattern after `c` has moved on; a copy stays as it is. -/
def ConstPart.push (c : Char) : ConstPart → ConstPart
  | .here text => .here (text ++ [c])
  | .copy text => .copy text

structure Pieces where
  status : Bool
  const_components : List Text
  param_keys : List Text
  deriving DecidableEq

/-- The loop that divides the pattern, with the constant it may end with;
`param_part` is there inside a parameter. -/
def divide : Text → ConstPart → Option Text → List Text → List Text → Pieces
  | [], const_part, param_part, consts, keys =>
    ⟨param_part.isNone,
      if const_part = .here [] then consts else consts ++ [const_part.text], keys⟩
  | c :: rest, const_part, none, consts, keys =>
    if c = lbrace then
      if const_part = .here [] then divide rest (const_part.push c) (some []) consts keys
      else divide rest (.copy const_part.text) (some []) (consts ++ [const_part.text]) keys
    else if c = rbrace then ⟨false, consts, keys⟩
    else divide rest (const_part.push c) none consts keys
  | c :: rest, const_part, some param_part, consts, keys =>
    if c = rbrace then
      if rest.head? = some lbrace then ⟨false, consts, keys⟩
      else if param_part = [] then divide rest (const_part.push c) none consts keys
      else divide rest (.here []) none consts (keys ++ [param_part])
    else if c = lbrace then ⟨false, consts, keys⟩
    else divide rest (const_part.push c) (some (param_part ++ [c])) consts keys

/-- Where the loop over the URL component stops. `param_value` is NULL as long as
`loop_state` is 0. -/
structure Fit where
  status : Bool
  param_value : Option Text
  url_c : Text
  param_values : List Text
  deriving DecidableEq

/-- The loop over the URL component: behind the first constant every place is
tried until the next constant begins there. -/
def fitConstants : List Text → Option Text → Text → List Text → Fit
  | [], param_value, url_c, values => ⟨true, param_value, url_c, values⟩
  | const :: consts, none, url_c, values =>
    if const <+: url_c then
      fitConstants consts (some (url_c.drop const.length)) (url_c.drop const.length) values
    else ⟨false, none, url_c, values⟩
  | const :: consts, some param_value, url_c, values =>
    match search const url_c with
    | none => ⟨false, some param_value, [], values⟩
    | some found =>
      fitConstants consts (some (found.drop const.length)) (found.drop const.length)
        (values ++ [upTo param_value found])

/-- What is added to `param_keys` and `param_values`, and whether the component matches. -/
structure Match where
  status : Bool
  param_keys : List Text
  param_values : List Text
  deriving DecidableEq

def matchUrlComponentWithPattern (pattern url_component : Text) : Match :=
  let pieces := divide pattern (.here []) none [] []
  if pieces.status = false then ⟨false, pieces.param_keys, []⟩
  else if pieces.const_components = [] then ⟨true, pieces.param_keys, [url_component]⟩
  else
    let start := if pattern.head? = some lbrace then some url_component else none
    let fit := fitConstants pieces.const_components start url_component []
    if pattern.getLast? = some rbrace then
      ⟨fit.status, pieces.param_keys, fit.param_values ++ fit.param_value.toList⟩
    else ⟨fit.status && fit.url_c.isEmpty, pieces.param_keys, fit.param_values⟩

end Pattern

section Map

variable {Op : Type}

/-- `axutil_core_utils_map_internal_t`. A table is made right before its first
entry, so NULL is the table without entries. -/
inductive Mapping (Op : Type) where
  | mk (op_desc : Option Op) (consts_map params_map : List (Text × Mapping Op))

namespace Mapping

def empty : Mapping Op := .mk none [] []

def op_desc : Mapping Op → Option Op
  | .mk op_desc _ _ => op_desc

def consts_map : Mapping Op → List (Text × Mapping Op)
  | .mk _ consts_map _ => consts_map

def params_map : Mapping Op → List (Text × Mapping Op)
  | .mk _ _ params_map => params_map

end Mapping

/-- `axutil_hash_get`. -/
def getEntry (key : Text) : List (Text × Mapping Op) → Option (Mapping Op)
  | [] => none
  | (k, val) :: entries => if k = key then some val else getEntry key entries

/-- `axutil_hash_set`. -/
def setEntry (key : Text) (val : Mapping Op) : List (Text × Mapping Op) → List (Text × Mapping Op)
  | [] => [(key, val)]
  | (k, v) :: entries =>
    if k = key then (k, val) :: entries else (k, v) :: setEntry key val entries

/-- The text from the first opening brace on has a closing one. -/
def isParam (url : Text) : Bool :=
  match strchr url lbrace with
  | some bracket_start => (strchr bracket_start rbrace).isSome
  | none => false

/-- No opening brace without a closing one, and some text. -/
def validKey (url : Text) : Bool := (lbrace ∉ url || isParam url) && url ≠ []

/-- The components that the cuts at the slashes leave, the first one apart. -/
def components : Text → Text × List Text
  | [] => ([], [])
  | c :: url =>
    if c = '/' then ([], (components url).1 :: (components url).2)
    else (c :: (components url).1, (components url).2)

/-- The part that both routines share: the entry of the key is found or made, and
gets the operation or is built further. -/
def enterKey (op_desc : Op) (next : Option (Mapping Op → Bool × Mapping Op)) (key : Text)
    (cur_level_rest_map : List (Text × Mapping Op)) : Bool × List (Text × Mapping Op) :=
  let mapping_struct := (getEntry key cur_level_rest_map).getD .empty
  match next with
  | none =>
    match mapping_struct.op_desc with
    | some _ => (false, setEntry key mapping_struct cur_level_rest_map)
    | none =>
      (true, setEntry key
        (.mk (some op_desc) mapping_struct.consts_map mapping_struct.params_map)
        cur_level_rest_map)
  | some build =>
    ((build mapping_struct).1, setEntry key (build mapping_struct).2 cur_level_rest_map)

/-- `axis2_core_utils_internal_build_rest_map_recursively`, `url` being the first
component of the URL and `next_level_url` the others. -/
def buildRestMapRecursively (op_desc : Op) (url : Text) (next_level_url : List Text)
    (parent : Mapping Op) : Bool × Mapping Op :=
  if validKey url = false then (false, parent)
  else
    let next := match next_level_url with
      | [] => none
      | next :: rest => some (buildRestMapRecursively op_desc next rest)
    if isParam url then
      let entered := enterKey op_desc next url parent.params_map
      (entered.1, .mk parent.op_desc parent.consts_map entered.2)
    else
      let entered := enterKey op_desc next url parent.consts_map
      (entered.1, .mk parent.op_desc entered.2 parent.params_map)
termination_by structural next_level_url

def prepareRestMapping (url : Text) (rest_map : List (Text × Mapping Op)) (op_desc : Op) :
    Bool × List (Text × Mapping Op) :=
  let (url, next_level_url) := components url
  if validKey url = false then (false, rest_map)
  else
    enterKey op_desc
      (match next_level_url with
        | [] => none
        | next :: rest => some (buildRestMapRecursively op_desc next rest)) url rest_map

end Map

section Lookup

variable {Op : Type}

/-- The order in which a table is enumerated. -/
structure HashOrder (Op : Type) where
  order : List (Text × Mapping Op) → List (Text × Mapping Op)
  perm : ∀ entries, (order entries).Perm entries

/-- The characters of a string that is cut in place; `none` is a terminating NUL. -/
abbrev Buffer := List (Option Char)

/-- The first component of what a pointer into the buffer points to, and what
follows the slash behind it. -/
def cutAtSlash : Buffer → Text × Option Buffer
  | some c :: live_url =>
    if c = '/' then ([], some live_url)
    else (c :: (cutAtSlash live_url).1, (cutAtSlash live_url).2)
  | _ => ([], none)

/-- The buffer after `*first_delimitter` has been written: `none` for the cut,
a slash where it is put back. -/
def rejoin (url_component : Text) (delimitter : Option Char) : Option Buffer → Buffer
  | none => url_component.map some
  | some next => url_component.map some ++ delimitter :: next

/-- `param_keys` and `param_values`; a value that is not there is NULL. -/
structure Params where
  keys : List Text
  values : List (Option Text)
  deriving DecidableEq

namespace Params

def none : Params := ⟨[], []⟩

/-- For each key of the temporary arrays, the value at its index is added with it. -/
def merge (params tmp : Params) : Params :=
  ⟨params.keys ++ tmp.keys,
    params.values ++ (List.range tmp.keys.length).map fun i => (tmp.values[i]?).join⟩

end Params

/-- How a lookup ends: the operation, the URL behind the next slash as it is left,
and the arrays of the caller. -/
structure Found (Op : Type) (Url : Type) where
  op_desc : Option Op
  live_url : Url
  params : Params

/-- What is done with the mapping of a component that matches: without a next
level the operation should be there. -/
def lookIn (recursively : Mapping Op → Buffer → Params → Option (Found Op Buffer))
    (mapping : Mapping Op) (next_level_url : Option Buffer) (params : Params) :
    Option (Found Op (Option Buffer)) :=
  match next_level_url with
  | none => some ⟨mapping.op_desc, none, params⟩
  | some next =>
    (recursively mapping next params).map fun f => ⟨f.op_desc, some f.live_url, f.params⟩

/-- The loop over a table whose keys are patterns. Every entry has arrays of its
own, which are merged when an operation is found. -/
def tryPatterns (recursively : Mapping Op → Buffer → Params → Option (Found Op Buffer))
    (url_component : Text) : List (Text × Mapping Op) → Option Buffer → Params →
    Option (Found Op (Option Buffer))
  | [], next_level_url, params => some ⟨none, next_level_url, params⟩
  | (hash_key, val) :: entries, next_level_url, params =>
    let matched := matchUrlComponentWithPattern hash_key url_component
    if matched.status then
      match lookIn recursively val next_level_url
          ⟨matched.param_keys, matched.param_values.map some⟩ with
      | none => none
      | some ⟨some op_desc, next_level_url, tmp⟩ =>
        some ⟨some op_desc, next_level_url, params.merge tmp⟩
      | some ⟨none, next_level_url, _⟩ =>
        tryPatterns recursively url_component entries next_level_url params
    else tryPatterns recursively url_component entries next_level_url params

def tryConstant (recursively : Mapping Op → Buffer → Params → Option (Found Op Buffer))
    (child : Option (Mapping Op)) (next_level_url : Option Buffer) (params : Params) :
    Option (Found Op (Option Buffer)) :=
  match child with
  | some child => lookIn recursively child next_level_url params
  | none => some ⟨none, next_level_url, params⟩

/-- `axis2_core_utils_internal_infer_op_from_rest_map_recursively`; `none` when
there is no fuel for all levels. -/
def inferOpFromRestMapRecursively (hash : HashOrder Op) :
    ℕ → Mapping Op → Buffer → Params → Option (Found Op Buffer)
  | 0, _, _, _ => none
  | fuel + 1, parent, live_url, params =>
    let (url_component, next_level_url) := cutAtSlash live_url
    let recursively := inferOpFromRestMapRecursively hash fuel
    match tryConstant recursively (getEntry url_component parent.consts_map)
        next_level_url params with
    | none => none
    | some ⟨some op_desc, next_level_url, params⟩ =>
      some ⟨some op_desc, rejoin url_component none next_level_url, params⟩
    | some ⟨none, next_level_url, params⟩ =>
      match tryPatterns recursively url_component (hash.order parent.params_map)
          next_level_url params with
      | none => none
      | some ⟨some op_desc, next_level_url, params⟩ =>
        some ⟨some op_desc, rejoin url_component none next_level_url, params⟩
      | some ⟨none, next_level_url, params⟩ =>
        some ⟨none, rejoin url_component (some '/') next_level_url, params⟩

/-- `axis2_core_utils_infer_op_from_parent_rest_map`. The test that should skip the
key that was looked up compares addresses, and no key of the table is at the
address of the URL: every key is tried as a pattern. -/
def inferOpFromParentRestMap (hash : HashOrder Op) (rest_map : List (Text × Mapping Op))
    (live_url : Buffer) (params : Params) : Option (Option Op × Params) :=
  let (url_component, next_level_url) := cutAtSlash live_url
  let recursively := inferOpFromRestMapRecursively hash live_url.length
  match tryConstant recursively (getEntry url_component rest_map) next_level_url params with
  | none => none
  | some ⟨some op_desc, _, params⟩ => some (some op_desc, params)
  | some ⟨none, next_level_url, params⟩ =>
    (tryPatterns recursively url_component (hash.order rest_map) next_level_url params).map
      fun f => (f.op_desc, f.params)

/-- The `key=value` pairs between the ampersands; a pair without `=` adds no value. -/
def addQuery : ℕ → Text → Params → Params
  | 0, _, params => params
  | _ + 1, [], params => params
  | fuel + 1, c :: params_str, params =>
    let pair := match strchr (c :: params_str) '&' with
      | some next => upTo (c :: params_str) next
      | none => c :: params_str
    let params := match strchr pair '=' with
      | some value => ⟨params.keys ++ [upTo pair value], params.values ++ [some value.tail]⟩
      | none => ⟨params.keys ++ [pair], params.values⟩
    match strchr (c :: params_str) '&' with
    | some next => addQuery fuel next.tail params
    | none => params

/-- The location without the slash at its front. -/
def adjustedUrl : Text → Text
  | '/' :: rest => rest
  | location => location

/-- `axis2_core_utils_get_rest_op_with_method_and_location`, called with empty arrays. -/
def getRestOpWithMethodAndLocation (hash : HashOrder Op) (rest_map : List (Text × Mapping Op))
    (method location : Text) : Option (Option Op × Params) :=
  let (local_url, additional) := match strchr location '?' with
    | some query => (upTo location query, query.tail)
    | none => (location, [])
  (inferOpFromParentRestMap hash rest_map
    ((method ++ ':' :: adjustedUrl local_url).map some) .none).map fun (op, params) =>
      (op, if op.isSome then addQuery (additional.length + 1) additional params else params)

end Lookup

end Axis2C.RestDispatch
