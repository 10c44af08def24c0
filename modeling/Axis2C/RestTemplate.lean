import Axis2C.FirstOccurrence

/-!
# REST URL templates

`axutil_parse_rest_url_for_params` of `utils.c`. Pointers into the template and
the URL are the texts behind them, and `none` for a pointer is NULL. The loops
that look for the end of a parameter do not move over a doubled brace; where
that happens the call never returns.
-/
namespace Axis2C.RestTemplate
open FirstOccurrence

abbrev Text := List Char

def lbrace : Char := '\x7b'
def rbrace : Char := '\x7d'

def strchr (s : Text) (c : Char) : Option Text := search [c] s

def strstr (haystack needle : Text) : Option Text := search needle haystack

/-- Drop a leading slash and cut the query. The attempt of the source to cut a
trailing slash looks at the terminating NUL and does nothing. -/
def resourcePart (s : Text) : Text :=
  let resource := match s with
    | '/' :: rest => rest
    | _ => s
  match strchr resource '?' with
  | some t => upTo resource t
  | none => resource

/-- The validation loop: `inTok` inside a parameter, `skip` when the loop counter
was advanced over the second of two braces. -/
def validate : Bool → Bool → Text → Bool
  | inTok, _, [] => !inTok
  | inTok, true, _ :: rest => validate inTok false rest
  | false, false, c :: rest =>
    if c = rbrace then false
    else if c = lbrace then
      if rest = [] ∨ rest.head? = some rbrace then false
      else if rest.head? = some lbrace then validate false true rest
      else validate true false rest
    else validate false false rest
  | true, false, c :: rest =>
    if c = lbrace then false
    else if c = rbrace then
      if rest.head? = some rbrace then validate true true rest else validate false false rest
    else validate true false rest

/-- Find the constant behind the parameter that opens at `tmp4`: `none` when a
loop does not end, `some none` when `tmp9` stays NULL. -/
def nextConstant (tmp4 : Text) : Option (Option Text) :=
  match strchr tmp4 rbrace with
  | none => some none
  | some tmp6 =>
    if tmp6.tail.head? = some rbrace then none
    else
      let tmp8 := tmp6.tail
      match strchr tmp8 lbrace with
      | none => some (some tmp8)
      | some tmp6 =>
        if tmp6.tail = [] then some none
        else if tmp6.tail.head? = some lbrace then none
        else some (some (upTo tmp8 tmp6))

/-- The value that starts at `tmp5`, and where the URL goes on. -/
def takeValue (tmp5 : Text) (tmp9 : Option Text) : Text × Option Text :=
  let tmp6 := match tmp9 with
    | some (c :: constant) => strstr tmp5 (c :: constant)
    | _ => strchr tmp5 '/'
  match tmp6 with
  | some tmp6 => if tmp6.length ≠ tmp5.length then (upTo tmp5 tmp6, some tmp6) else (tmp5, none)
  | none => (tmp5, none)

/-- The value of the parameter at `tmp4` behind `constant`; NULL when the
constant is not in the URL. -/
def matchValue (constant tmp4 url : Text) : Option (Option Text × Option Text) :=
  match strstr url constant with
  | none => some (none, some url)
  | some found =>
    match nextConstant tmp4 with
    | none => none
    | some tmp9 =>
      let (value, urlTmp) := takeValue (found.drop constant.length) tmp9
      some (some value, urlTmp)

/-- The key that starts at `tmp1`, with the text from its closing brace on. -/
def readKey : ℕ → Text → Option (Text × Text)
  | 0, _ => none
  | fuel + 1, tmp1 =>
    match strchr tmp1 rbrace with
    | none => none
    | some tmp4 =>
      if tmp4.tail.head? = some rbrace then readKey fuel (tmp4.drop 2)
      else some (upTo tmp1 tmp4, tmp4)

/-- `finished` when the loop ends, with the matches so far; `none` when it does not end. -/
def matchLoop : ℕ → Text → Option Text → List (Text × Option Text) →
    Option (Bool × List (Text × Option Text))
  | 0, _, _, _ => none
  | fuel + 1, tmp1, urlTmp, ret =>
    match strchr tmp1 lbrace with
    | none => some (true, ret)
    | some tmp4 =>
      if tmp4.tail = [] then some (true, ret)
      else if tmp4.tail.head? = some lbrace then matchLoop fuel (tmp4.drop 2) urlTmp ret
      else
        match urlTmp with
        | none | some [] => some (false, ret)
        | some (u :: url) =>
          match matchValue (upTo tmp1 tmp4) tmp4 (u :: url) with
          | none => none
          | some (value, urlTmp) =>
            match readKey tmp4.length tmp4.tail with
            | none => some (true, ret)
            | some (key, tmp4) => matchLoop fuel tmp4.tail urlTmp (ret ++ [(key, value)])

inductive Outcome
  /-- Failure of the validation; the out parameters are not set. -/
  | rejected
  | done (success : Bool) (found : List (Text × Option Text))
  deriving Repr, DecidableEq

/-- `none` when the call does not return. -/
def parseRestUrlForParams (tmpl url : Text) : Option Outcome :=
  let resource := resourcePart tmpl
  let urlResource := resourcePart url
  if validate false false resource = false then some .rejected
  else if strchr resource lbrace = none then some (.done (resource = urlResource) [])
  else
    (matchLoop (resource.length + 1) resource (some urlResource) []).map fun p =>
      .done p.1 p.2

end Axis2C.RestTemplate
