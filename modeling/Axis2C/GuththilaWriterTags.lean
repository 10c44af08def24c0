import Axis2C.GuththilaWriter
import Axis2C.GuththilaParser

/-!
# Tags of the memory writer

The element stack holds tokens that point into the buffers. Their places are
taken from the `next` of the moment at which they were written, less the data in
front of the buffer that is current when the tag is complete: a token that has
been left behind in an earlier buffer gets a place in front of the current one.
-/
namespace Axis2C.GuththilaWriter
open Guththila (textBytes)

/-! ### Tokens in memory -/

def Buffer.buffAt (b : Buffer) (i : ℕ) : Option Buff := (b.filled ++ [b.cur])[i]?

def Buffer.byteAt (b : Buffer) (i : ℕ) (place : ℤ) : Option UInt8 :=
  if place < 0 then none else (b.buffAt i).bind fun x => x.data[place.toNat]?

def XmlWriter.tokBytes (wr : XmlWriter) (tok : Token) : List UInt8 :=
  (List.range tok.size).map fun k : ℕ =>
    (wr.buffer.byteAt tok.buff (tok.start + k)).getD (wr.stray tok.buff (tok.start + k))

/-- `GUTHTHILA_BUF_POS`, with the size of the token. -/
def Buffer.pos (b : Buffer) (pos : ℤ) (size : ℕ) : Token := ⟨b.curBuff, pos - b.preTotData, size⟩

/-- Whether `guththila_tok_str_cmp` gives 0. -/
def XmlWriter.tokStrCmp (wr : XmlWriter) (tok : Token) (str : List UInt8) : Bool :=
  tok.size = str.length && wr.tokBytes tok = str

/-! ### Elements -/

/-- `GUTHTHILA_WRITER_CLEAR_NAMESP`, unless the number is -1. -/
def clearNamesp (namesp : List Namesp) : Option ℕ → List Namesp
  | some no => namesp.drop (namesp.length - no)
  | none => namesp

def XmlWriter.leave (wr : XmlWriter) (elem : Element) (rest : List Element) : XmlWriter :=
  { wr with
    element := rest
    status := .begining
    namesp := clearNamesp wr.namesp elem.nameSpStackNo }

def freeEmptyElement (wr : XmlWriter) : XmlWriter :=
  match wr.element with
  | elem :: rest => wr.leave elem rest
  | [] => wr

/-- The opening of a start tag; `emptyEnd` stands where an empty element is to be closed. -/
def openTag (wr : XmlWriter) (emptyEnd : List UInt8) : Except Fault XmlWriter :=
  match wr.status with
  -- If we are in a start we need to close and start
  | .start => write wr (textBytes "><")
  | .startEmpty => write (freeEmptyElement wr) emptyEnd
  | .begining => write wr (textBytes "<")

/-- The element without a prefix goes on the stack. -/
def XmlWriter.pushPlain (wr : XmlWriter) (curPos : ℤ) (startElement : List UInt8) : XmlWriter :=
  let element : Element :=
    { pref := none
      name := wr.buffer.pos curPos startElement.length
      nameSpStackNo := none }
  { wr with status := .start, element := element :: wr.element }

/-- With the result of `guththila_stack_push`. -/
def writeStartElement (wr : XmlWriter) (startElement : List UInt8) :
    Except Fault (ℕ × XmlWriter) := do
  let wr ← openTag wr (textBytes "/><")
  let curPos := wr.next
  let wr ← writeXtoken wr startElement
  .ok (wr.element.length, wr.pushPlain curPos startElement)

/-- Where the pieces of a start tag begin. -/
structure Starts where
  elemPrefStart : ℤ
  elemStart : ℤ
  prefStart : ℤ
  uriStart : ℤ

/-- The part of a start tag that the three branches share. -/
def writeNames (wr : XmlWriter) (pref namespaceUri localName : List UInt8) (nmspFound : Bool) :
    Except Fault (Starts × XmlWriter) := do
  let elemPrefStart := wr.next
  let wr ← writeXtoken wr pref
  let wr ← write wr (textBytes ":")
  let elemStart := wr.next
  let wr ← writeXtoken wr localName
  if nmspFound then .ok (⟨elemPrefStart, elemStart, 0, 0⟩, wr)
  else
    let wr ← write wr (textBytes " ")
    let wr ← write wr (textBytes "xmlns:")
    let prefStart := wr.next
    let wr ← writeXtoken wr pref
    let wr ← write wr (textBytes "=\"")
    let uriStart := wr.next
    let wr ← writeXtoken wr namespaceUri
    let wr ← write wr (textBytes "\"")
    .ok (⟨elemPrefStart, elemStart, prefStart, uriStart⟩, wr)

/-- Whether one of the namespaces has this prefix. -/
def XmlWriter.nmspFound (wr : XmlWriter) (pref : List UInt8) : Bool :=
  wr.namesp.any fun writerNamesp => writerNamesp.name.any fun name => wr.tokStrCmp name pref

/-- The element goes on the stack, and so does a namespace that was not found. -/
def XmlWriter.pushElement (wr : XmlWriter) (starts : Starts)
    (pref namespaceUri localName : List UInt8) (nmspFound : Bool) : XmlWriter :=
  let namesp : Namesp :=
    { name := [wr.buffer.pos starts.prefStart pref.length]
      uri := [wr.buffer.pos starts.uriStart namespaceUri.length] }
  let elem : Element :=
    { pref := some (wr.buffer.pos starts.elemPrefStart pref.length)
      name := wr.buffer.pos starts.elemStart localName.length
      nameSpStackNo := if nmspFound then none else some wr.namesp.length }
  { wr with
    status := .start
    namesp := if nmspFound then wr.namesp else namesp :: wr.namesp
    element := elem :: wr.element }

def writeStartElementWithPrefixAndNamespace (wr : XmlWriter)
    (pref namespaceUri localName : List UInt8) : Except Fault XmlWriter := do
  let nmspFound := wr.nmspFound pref
  -- two bytes are written of the three
  let wr ← openTag wr ((textBytes "/><").take 2)
  let (starts, wr) ← writeNames wr pref namespaceUri localName nmspFound
  .ok (wr.pushElement starts pref namespaceUri localName nmspFound)

def writeEndName (wr : XmlWriter) (elem : Element) : Except Fault XmlWriter := do
  let wr ←
    (match elem.pref with
    | some pref => do
        let wr ← writeToken wr (wr.tokBytes pref)
        write wr (textBytes ":")
    | none => .ok wr)
  let wr ← writeToken wr (wr.tokBytes elem.name)
  write wr (textBytes ">")

/-- Whether it succeeds, and the writer. -/
def writeEndElement (wr : XmlWriter) : Except Fault (Bool × XmlWriter) :=
  match wr.status with
  | .startEmpty => do
      let wr ← write wr (textBytes "/>")
      match wr.element with
      | elem :: rest => .ok (true, wr.leave elem rest)
      | [] => .ok (false, wr)
  | status => do
      let wr ← write wr (if status = .start then textBytes "></" else textBytes "</")
      match wr.element with
      | elem :: rest => do
          let wr ← writeEndName wr elem
          .ok (true, wr.leave elem rest)
      | [] => .ok (false, wr)

/-! ### Characters -/

/-- The characters that `guththila_write_characters` stops at. -/
def isSpecial (ch : UInt8) : Bool := ch = 38 || ch = 60 || ch = 62 || ch = 34 || ch = 39

def escapeSequence (ch : UInt8) : Option (List UInt8) :=
  if ch = 62 then some (textBytes "&gt;")
  else if ch = 60 then some (textBytes "&lt;")
  else if ch = 39 then some (textBytes "&apos;")
  else if ch = 34 then some (textBytes "&quot;")
  else if ch = 38 then some (textBytes "&amp;")
  else none

def writeEscapeCharacter (wr : XmlWriter) (ch : UInt8) : Except Fault (Bool × XmlWriter) :=
  match escapeSequence ch with
  | some seq => do
      let wr ← write wr seq
      .ok (true, wr)
  | none => .ok (false, wr)

/-- `while (len > 0)`; every pass but the last takes a character. -/
def charactersLoop : ℕ → XmlWriter → List UInt8 → Except Fault (Bool × XmlWriter)
  | fuel + 1, wr, buff =>
    let plain := buff.takeWhile fun ch => !isSpecial ch
    do
      let wr ← (if plain ≠ [] then write wr plain else .ok wr)
      match buff.dropWhile fun ch => !isSpecial ch with
      | ch :: buff => do
          let (escaped, wr) ← writeEscapeCharacter wr ch
          if escaped then charactersLoop fuel wr buff else .ok (false, wr)
      | [] => .ok (true, wr)
  | 0, wr, _ => .ok (true, wr)

def writeCharacters (wr : XmlWriter) (buff : List UInt8) : Except Fault (Bool × XmlWriter) := do
  let wr ←
    (match wr.status with
    | .start => write { wr with status := .begining } (textBytes ">")
    | .startEmpty => write { freeEmptyElement wr with status := .begining } (textBytes "/>")
    | .begining => .ok wr)
  charactersLoop (buff.length + 1) wr buff

end Axis2C.GuththilaWriter
