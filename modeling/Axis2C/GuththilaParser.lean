import Axis2C.GuththilaInput
import Mathlib.Tactic

/-!
# The guththila pull parser

`guththila_next` with all its branches, as in `guththila_xml_parser.c` compiled
with namespace validation. Loops take a fuel argument; a loop that runs out of
it has not returned. A token is the bytes it covers when it is closed, so the
token cache is left out. Characters are code points, -1 where the source reads
the end of the input or a byte sequence it cannot decode.
-/
namespace Axis2C.Guththila

abbrev Token := List UInt8

inductive Event
  | startDocument
  | endElement
  | character
  | entityReferance
  | comment
  | space
  | startElement
  | emptyElement
  deriving Repr, DecidableEq

/-- What `guththila_next` returns: an event, -1, or the last character read. -/
inductive Reply
  | event (event : Event)
  | failed
  | char (c : ℤ)
  deriving Repr, DecidableEq

inductive Status
  | s1
  | s2
  deriving Repr, DecidableEq

inductive TokType
  | name
  | attributeName
  | attributeValue
  | pref
  | charData
  | textData
  deriving Repr, DecidableEq

structure Element where
  name : Option Token
  pref : Option Token
  isNamesp : Bool
  deriving Repr, DecidableEq

structure Attribute where
  pref : Option Token
  name : Option Token
  val : Token
  deriving Repr, DecidableEq

structure Namespace where
  name : Option Token
  uri : Token
  deriving Repr, DecidableEq

/-- The fields of `guththila_t` that do not serve reading. The tops of `elem`
and `namesp` come first; `attrib` is in the order of pushing. `event` is `none`
for -1 and `tempTok` is the index of the first byte of the open token. -/
structure State where
  status : Status
  event : Option Event
  elem : List Element
  attrib : List Attribute
  namesp : List (List Namespace)
  name : Option Token
  pref : Option Token
  value : Option Token
  tempName : Option Token
  tempPrefix : Option Token
  tempTok : Option ℕ
  deriving Repr, DecidableEq

/-- `guththila_t`. -/
structure Parser where
  input : Input
  state : State
  deriving Repr, DecidableEq

abbrev Parse := EStateM Exit Parser

def reading {α : Type} (p : Reading α) : Parse α := fun m =>
  match p m.input with
  | .ok a i => .ok a { m with input := i }
  | .error e i => .error e { m with input := i }

def getState : Parse State := fun m => .ok m.state m

def modifyState (f : State → State) : Parse Unit := fun m =>
  .ok () { m with state := f m.state }

/-! ### Initialisation -/

def textBytes (s : String) : Token := s.toList.map fun c => UInt8.ofNat c.toNat

def xmlNamespace : Namespace where
  name := some (textBytes "xml")
  uri := textBytes "http://www.w3.org/XML/1998/namespace"

def initialState : State where
  status := .s1
  event := none
  elem := []
  attrib := []
  namesp := [[xmlNamespace]]
  name := none
  pref := none
  value := none
  tempName := none
  tempPrefix := none
  tempTok := none

/-- `guththila_init` with a memory reader. -/
def initMemory (data : List UInt8) : Parser where
  input := ⟨.memory, ⟨data, data.length, 0, true⟩, 0, none, utf8DecoderCreate⟩
  state := initialState

/-- `guththila_init` with an IO reader. -/
def initIo (pieces : List (List UInt8)) (garbage : UInt8) : Parser where
  input := ⟨.io pieces garbage, ⟨[], 0, 0, false⟩, 0, none, utf8DecoderCreate⟩
  state := initialState

/-! ### Characters -/

def ch (c : Char) : ℤ := c.toNat

/-- `GUTHTHILA_IS_SPACE`. -/
def isSpaceChar (c : ℤ) : Bool := c = 0x20 ∨ c = 0xD ∨ c = 0xA ∨ c = 0x9

/-- `isspace` in the C locale. -/
def isspace (c : ℤ) : Bool := c = 0x20 ∨ (0x9 ≤ c ∧ c ≤ 0xD)

/-- `isalpha` in the C locale. -/
def isalpha (c : ℤ) : Bool := (ch 'A' ≤ c ∧ c ≤ ch 'Z') ∨ (ch 'a' ≤ c ∧ c ≤ ch 'z')

/-- `GUTHTHILA_IS_VALID_STARTING_CHAR`. -/
def isValidStartingChar (c : ℤ) : Bool := isalpha c ∨ c = ch '_' ∨ c = ch ':'

/-- `GUTHTHILA_SKIP_SPACES`. -/
def skipSpaces : ℕ → ℤ → Parse ℤ
  | 0, _ => throw .outOfFuel
  | fuel + 1, c =>
    if isSpaceChar c then do
      let c ← reading nextChar
      skipSpaces fuel c
    else return c

/-! ### Tokens -/

def xmlns : Token := textBytes "xmlns"

def tokenOpen : Parse Unit := do
  let start ← reading openPosition
  modifyState fun s => { s with tempTok := some start }

/-- A declaration goes to the element on top of the stack: a new entry of
`namesp` for its first one. Without an element it is dropped. -/
def State.declare (s : State) (uri : Token) : State :=
  match s.elem with
  | [] => s
  | elem :: rest =>
    if elem.isNamesp then
      match s.namesp with
      | [] => s
      | declared :: outer => { s with namesp := (declared ++ [⟨s.tempName, uri⟩]) :: outer }
    else
      { s with
        namesp := [⟨s.tempName, uri⟩] :: s.namesp
        elem := { elem with isNamesp := true } :: rest }

/-- The `switch` of `guththila_token_close`. -/
def State.close (s : State) (tok : Token) : TokType → State
  | .attributeName => { s with tempName := some tok, tempTok := none }
  | .charData => { s with value := some tok, tempTok := none }
  | .textData => { s with value := some tok, tempTok := none }
  | .attributeValue =>
    let s :=
      if s.tempPrefix = some xmlns ∨ s.tempName = some xmlns then s.declare tok
      else { s with attrib := s.attrib ++ [⟨s.tempPrefix, s.tempName, tok⟩] }
    { s with tempPrefix := none, tempName := none, tempTok := none }
  | .pref => { s with tempPrefix := some tok, tempTok := none }
  | .name =>
    { s with pref := s.tempPrefix, name := some tok, tempTok := none, tempPrefix := none }

/-- `guththila_token_close`, with `next` moved back by `back`. -/
def tokenCloseBack (back : ℕ) (type : TokType) : Parse Unit := do
  match (← getState).tempTok with
  | none => throw .fault
  | some start =>
    let tok ← reading (closePosition start back)
    modifyState fun s => s.close tok type

def tokenClose (type : TokType) : Parse Unit := tokenCloseBack 0 type

/-- `guththila_tok_tok_cmp` returns 0. -/
def tokTokCmp (tok1 tok2 : Option Token) : Bool :=
  match tok1, tok2 with
  | some tok1, some tok2 => tok1 = tok2
  | _, _ => false

/-! ### Namespace validation -/

/-- The search through `namesp` for a prefix. -/
def declares (namesp : List (List Namespace)) (pref : Option Token) : Bool :=
  namesp.any fun declared => declared.any fun n => tokTokCmp n.name pref

/-- The loop over the attributes. `found` is not reset between two of them. -/
def validateAttributes (namesp : List (List Namespace)) : List Attribute → Bool → Bool
  | [], _ => true
  | attr :: rest, found =>
    if attr.pref.isSome then
      let found := found || declares namesp attr.pref
      if found then validateAttributes namesp rest found else false
    else validateAttributes namesp rest found

def validateNamespaces (s : State) : Bool :=
  validateAttributes s.namesp s.attrib false && (s.pref.isNone || declares s.namesp s.pref)

/-! ### Markup -/

/-- The loop that reads a name, the last character of which is followed by one
that `stop` accepts. Each colon closes a prefix. -/
def nameLoop (stop : ℤ → Bool) : ℕ → ℤ → Parse ℤ
  | 0, _ => throw .outOfFuel
  | fuel + 1, c =>
    if stop c then return c
    else if c = -1 then throw .returned
    else if c ≠ ch ':' then do
      let c ← reading nextChar
      nameLoop stop fuel c
    else do
      tokenClose .pref
      let c ← reading nextChar
      tokenOpen
      nameLoop stop fuel c

def readName (stop : ℤ → Bool) (type : TokType) (fuel : ℕ) : Parse ℤ := do
  tokenOpen
  let c ← reading nextChar
  let c ← nameLoop stop fuel c
  tokenClose type
  return c

/-- `while (c != quote)`. -/
def valueLoop (quote : ℤ) : ℕ → ℤ → Parse Unit
  | 0, _ => throw .outOfFuel
  | fuel + 1, c =>
    if c = quote then return ()
    else if c = -1 then throw .returned
    else do
      let c ← reading nextChar
      valueLoop quote fuel c

/-- A quoted value after its opening quote, and the first character behind it
that is not a space. -/
def readValue (quote : ℤ) (fuel : ℕ) : Parse ℤ := do
  let c ← reading nextChar
  tokenOpen
  valueLoop quote fuel c
  tokenClose .attributeValue
  let c ← reading nextChar
  skipSpaces fuel c

/-- `GUTHTHILA_PROCESS_EQU`: the new value of `quote`, unchanged without `=`. -/
def processEqu (fuel : ℕ) (c quote : ℤ) : Parse ℤ := do
  let c ← skipSpaces fuel c
  if c = ch '=' then
    let ic ← reading nextChar
    skipSpaces fuel ic
  else return quote

def finishTag (event : Event) : Parse Reply := do
  modifyState fun s => { s with event := some event }
  if validateNamespaces (← getState) then return .event event else return .failed

def startTagStop (c : ℤ) : Bool := isSpaceChar c ∨ c = ch '>' ∨ c = ch '/'

def attributeStop (c : ℤ) : Bool := isSpaceChar c ∨ c = ch '='

def endTagStop (c : ℤ) : Bool := isSpaceChar c ∨ c = ch '>'

/-- The `for (;;)` loop over the attributes. `quote` keeps the quote of the
attribute before. -/
def attributes : ℕ → ℤ → ℤ → Parse Reply
  | 0, _, _ => throw .outOfFuel
  | fuel + 1, quote, c =>
    if c = ch '/' then do
      let c ← reading nextChar
      if c = ch '>' then finishTag .emptyElement else return .failed
    else if c = ch '>' then finishTag .startElement
    else if isValidStartingChar c then do
      let c ← readName attributeStop .attributeName fuel
      let quote ← processEqu fuel c quote
      if quote = ch '\'' ∨ quote = ch '"' then
        let c ← readValue quote fuel
        attributes fuel quote c
      else return .failed
    else return .failed

def pushElement : Parse Unit :=
  modifyState fun s => { s with elem := ⟨s.name, s.pref, false⟩ :: s.elem }

/-- A start tag or an empty element, after `<` and one character. Without a
valid starting character no name is read and nothing pushed. -/
def startTag (fuel : ℕ) (c : ℤ) : Parse Reply := do
  if isValidStartingChar c then
    let c ← readName startTagStop .name fuel
    pushElement
    let c ← skipSpaces fuel c
    attributes fuel 0 c
  else
    let c ← skipSpaces fuel c
    attributes fuel 0 c

/-- Whether the element popped at an end tag is the one the tag names. -/
def closesElement (s : State) (elem : Element) : Bool :=
  !(elem.pref.isNone && s.pref.isSome) && !(elem.pref.isSome && s.pref.isNone) &&
    tokTokCmp s.name elem.name &&
    !(elem.pref.isSome && s.pref.isSome && !tokTokCmp s.pref elem.pref)

def finishEndTag (fuel : ℕ) (c : ℤ) : Parse Reply := do
  let c ← skipSpaces fuel c
  if c = ch '>' then return .event .endElement else return .failed

def popElement (fuel : ℕ) (c : ℤ) : Parse Reply := do
  let s ← getState
  match s.elem with
  | [] => return .failed
  | elem :: rest =>
    modifyState fun s => { s with elem := rest }
    if closesElement s elem then
      if elem.isNamesp then
        modifyState fun s => { s with namesp := s.namesp.tail }
      finishEndTag fuel c
    else return .failed

def endTag (fuel : ℕ) : Parse Reply := do
  modifyState fun s => { s with event := some .endElement }
  let c ← reading nextChar
  if isValidStartingChar c then
    let c ← readName endTagStop .name fuel
    popElement fuel c
  else return .failed

/-- `while (loop_state)`: there is no exit at the end of the input. -/
def commentLoop : ℕ → Parse Reply
  | 0 => throw .outOfFuel
  | fuel + 1 => do
      let c ← reading nextChar
      if c = ch '-' then
        match ← reading (nextNoChar 2) with
        | some [c0, c1] =>
          if c0 = ch '-' then
            if c1 = ch '>' then
              modifyState fun s => { s with event := some .comment }
              tokenCloseBack 2 .charData
              return .event .comment
            else return .failed
          else commentLoop fuel
        | _ => commentLoop fuel
      else commentLoop fuel

/-- Markup that is not a comment is skipped up to the next `<`. -/
def skipLoop : ℕ → ℤ → Parse Reply
  | 0, _ => throw .outOfFuel
  | fuel + 1, c =>
    if c = ch '<' then return .char c
    else if c = -1 then return .failed
    else do
      let c ← reading nextChar
      skipLoop fuel c

def declaration (fuel : ℕ) : Parse Reply := do
  if (← reading (nextNoChar 2)) = some [ch '-', ch '-'] then
    let _ ← reading nextChar
    tokenOpen
    commentLoop fuel
  else
    let c ← reading nextChar
    skipLoop fuel c

/-- One of the three parts of an XML declaration, after its first character:
the first character behind it and the quote, `none` when the name is another one. -/
def pseudoAttribute (rest : String) (quote : ℤ) (fuel : ℕ) : Parse (Option (ℤ × ℤ)) := do
  tokenOpen
  if (← reading (nextNoChar rest.length)) = some (rest.toList.map ch) then
    let c ← reading nextChar
    tokenClose .attributeName
    let quote ← processEqu fuel c quote
    let c ← readValue quote fuel
    return some (c, quote)
  else return none

def versionPart (fuel : ℕ) (c quote : ℤ) : Parse (ℤ × ℤ) := do
  if c = ch 'v' then
    match ← pseudoAttribute "ersion" quote fuel with
    | some r => return r
    | none => throw .returned
  else return (c, quote)

/-- The parts for `encoding` and `standalone`, which go on after another name. -/
def optionalPart (first : Char) (rest : String) (fuel : ℕ) (c quote : ℤ) : Parse (ℤ × ℤ) := do
  if c = ch first then
    match ← pseudoAttribute rest quote fuel with
    | some r => return r
    | none => return (c, quote)
  else return (c, quote)

def processXmlDec (fuel : ℕ) : Parse Reply := do
  if (← reading (nextNoChar 3)) = some ("xml".toList.map ch) then
    let c ← reading nextChar
    let c ← skipSpaces fuel c
    let r ← versionPart fuel c (-1)
    let r ← optionalPart 'e' "ncoding" fuel r.1 r.2
    let r ← optionalPart 's' "tandalone" fuel r.1 r.2
    if r.1 = ch '?' then
      let c ← reading nextChar
      if c = ch '>' then
        modifyState fun s => { s with event := some .startDocument }
        return .event .startDocument
      else return .failed
    else if r.1 = -1 then return .failed
    else return .event .startDocument
  else return .failed

/-- After `<`. -/
def markup (fuel : ℕ) : Parse Reply := do
  let c ← reading nextChar
  if c = ch '/' then endTag fuel
  else if c = ch '!' then declaration fuel
  else if c = ch '?' then processXmlDec fuel
  else startTag fuel c

/-- The `do` loop over a run of text; the flag says that it is white space only. -/
def textLoop : ℕ → Bool → Parse Bool
  | 0, _ => throw .outOfFuel
  | fuel + 1, whiteSpace => do
      let c ← reading nextChar
      if c = -1 then throw .returned
      else if c = ch '<' then return whiteSpace
      else textLoop fuel (whiteSpace && isSpaceChar c)

def text (fuel : ℕ) (c : ℤ) : Parse Reply := do
  modifyState fun s => { s with event := some .character }
  tokenOpen
  let whiteSpace ← textLoop fuel (isSpaceChar c)
  tokenClose .textData
  reading stepBack
  if whiteSpace then
    modifyState fun s => { s with event := some .space }
    return .event .space
  else return .event .character

/-- The clean up at the start of `guththila_next`. -/
def cleanUp : Parse Unit := do
  let s ← getState
  if s.event = some .emptyElement then
    match s.elem with
    | [] => throw .fault
    | elem :: rest =>
      modifyState fun s => { s with
        elem := rest, namesp := if elem.isNamesp then s.namesp.tail else s.namesp }
  modifyState fun s => { s with
    attrib := [], tempPrefix := none, tempName := none, tempTok := none
    name := none, pref := none, value := none }

/-- `while (isspace(c))` in front of the document. -/
def leadingSpace : ℕ → ℤ → Parse ℤ
  | 0, _ => throw .outOfFuel
  | fuel + 1, c =>
    if isspace c then do
      let c ← reading nextChar
      if c = -1 then throw .returned
      else leadingSpace fuel c
    else return c

def nextBody (fuel : ℕ) : Parse Reply := do
  cleanUp
  let c ← reading nextChar
  if (← getState).status = .s1 then
    let c ← leadingSpace fuel c
    if c = ch '<' then
      modifyState fun s => { s with status := .s2 }
      markup fuel
    else return .failed
  else if c = ch '<' then markup fuel
  else if c = -1 then return .failed
  else text fuel c

/-- How a call of `guththila_next` ends, if it does. -/
inductive Outcome
  | returned (reply : Reply) (m : Parser)
  | stopped (exit : Exit)
  deriving Repr, DecidableEq

def next (fuel : ℕ) (m : Parser) : Outcome :=
  match nextBody fuel m with
  | .ok reply m => .returned reply m
  | .error .returned m => .returned .failed m
  | .error exit _ => .stopped exit

/-! ### Getters -/

/-- `guththila_string_evaluate_references`. -/
def stringEvaluateReferences : List UInt8 → List UInt8
  | [] => []
  | 38 :: 103 :: 116 :: 59 :: rest => 62 :: stringEvaluateReferences rest
  | 38 :: 108 :: 116 :: 59 :: rest => 60 :: stringEvaluateReferences rest
  | 38 :: 97 :: 109 :: 112 :: 59 :: rest => 38 :: stringEvaluateReferences rest
  | 38 :: 97 :: 112 :: 111 :: 115 :: 59 :: rest => 39 :: stringEvaluateReferences rest
  | 38 :: 113 :: 117 :: 111 :: 116 :: 59 :: rest => 34 :: stringEvaluateReferences rest
  | b :: rest => b :: stringEvaluateReferences rest

/-- The strings the getters return after a call. -/
structure Strings where
  name : Option Token
  pref : Option Token
  value : Option Token
  /-- Prefix, name and value of each attribute, by number. -/
  attributes : List (Option Token × Option Token × Token)
  deriving Repr, DecidableEq

def getStrings (s : State) : Strings where
  name := s.name
  pref := s.pref
  value := s.value.map stringEvaluateReferences
  attributes := s.attrib.map fun a => (a.pref, a.name, stringEvaluateReferences a.val)

end Axis2C.Guththila
