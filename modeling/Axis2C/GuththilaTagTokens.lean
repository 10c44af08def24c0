import Axis2C.GuththilaWriterTags
import Mathlib.Data.List.TakeWhile

/-!
# Tokens of tags across buffers

A tag is written in pieces, of which those that tokens point to are kept in one
buffer each. The places of the tokens are counted back from the buffer that is
current at the end, so a token is right when nothing that was written behind it
has gone to a new buffer. Later writes only add to the buffers, so a token that
is right stays right until the end tag.
-/
namespace Axis2C.GuththilaWriter
open Guththila (textBytes)

/-! ### Pieces -/

inductive Piece
  | plain (bytes : List UInt8)
  | token (bytes : List UInt8)
  deriving Repr, DecidableEq

def Piece.bytes : Piece → List UInt8
  | .plain bytes => bytes
  | .token bytes => bytes

def Buffer.put (b : Buffer) : Piece → Buffer
  | .plain bytes => b.split bytes
  | .token bytes => b.whole bytes

def Buffer.puts (b : Buffer) (pieces : List Piece) : Buffer := pieces.foldl Buffer.put b

def XmlWriter.put (wr : XmlWriter) (piece : Piece) : XmlWriter :=
  wr.wrote (wr.buffer.put piece) piece.bytes.length

def XmlWriter.puts (wr : XmlWriter) (pieces : List Piece) : XmlWriter :=
  pieces.foldl XmlWriter.put wr

/-- The number of bytes in the pieces. -/
def total (pieces : List Piece) : ℕ := (pieces.flatMap Piece.bytes).length

@[simp] lemma total_nil : total [] = 0 := rfl

@[simp] lemma total_cons (piece : Piece) (pieces : List Piece) :
    total (piece :: pieces) = piece.bytes.length + total pieces := by
  simp [total]

section Pieces

variable {wr : XmlWriter} {b : Buffer}

lemma Buffer.Wf.put (h : b.Wf) (piece : Piece) : (b.put piece).Wf := by
  cases piece with
  | plain bytes => exact h.split bytes
  | token bytes => exact h.whole bytes

lemma output_put (b : Buffer) (piece : Piece) : (b.put piece).output = b.output ++ piece.bytes := by
  cases piece with
  | plain bytes => exact output_split b bytes
  | token bytes => exact output_whole b bytes

lemma Buffer.Wf.puts (h : b.Wf) (pieces : List Piece) : (b.puts pieces).Wf := by
  induction pieces generalizing b with
  | nil => exact h
  | cons piece pieces ih => exact ih (h.put piece)

lemma output_puts (b : Buffer) (pieces : List Piece) :
    (b.puts pieces).output = b.output ++ pieces.flatMap Piece.bytes := by
  induction pieces generalizing b with
  | nil => simp [Buffer.puts]
  | cons piece pieces ih =>
    rw [Buffer.puts, List.foldl_cons]
    change ((b.put piece).puts pieces).output = _
    rw [ih, output_put, List.flatMap_cons, List.append_assoc]

lemma XmlWriter.Wf.put (h : wr.Wf) (piece : Piece) : (wr.put piece).Wf :=
  h.wrote (h.buffer.put piece) (output_put _ _)

lemma XmlWriter.Wf.puts (h : wr.Wf) (pieces : List Piece) : (wr.puts pieces).Wf := by
  induction pieces generalizing wr with
  | nil => exact h
  | cons piece pieces ih => exact ih (h.put piece)

lemma puts_append (wr : XmlWriter) (ps qs : List Piece) :
    wr.puts (ps ++ qs) = (wr.puts ps).puts qs := List.foldl_append

lemma puts_cons (wr : XmlWriter) (p : Piece) (ps : List Piece) :
    wr.puts (p :: ps) = (wr.put p).puts ps := rfl

lemma buffer_puts (wr : XmlWriter) (pieces : List Piece) :
    (wr.puts pieces).buffer = wr.buffer.puts pieces := by
  induction pieces generalizing wr with
  | nil => rfl
  | cons piece pieces ih => exact ih _

/-- Only the buffers and `next` are changed. -/
lemma puts_fields (wr : XmlWriter) (pieces : List Piece) :
    (wr.puts pieces).status = wr.status ∧ (wr.puts pieces).element = wr.element ∧
      (wr.puts pieces).namesp = wr.namesp := by
  induction pieces generalizing wr with
  | nil => exact ⟨rfl, rfl, rfl⟩
  | cons piece pieces ih => exact ih _

lemma XmlWriter.Wf.write_put (h : wr.Wf) (bytes : List UInt8) :
    write wr bytes = .ok (wr.put (.plain bytes)) := h.write_eq bytes

lemma XmlWriter.Wf.writeToken_put (h : wr.Wf) (bytes : List UInt8) :
    writeToken wr bytes = .ok (wr.put (.plain bytes)) := h.writeToken_eq bytes

lemma XmlWriter.Wf.writeXtoken_put (h : wr.Wf) (bytes : List UInt8) :
    writeXtoken wr bytes = .ok (wr.put (.token bytes)) := h.writeXtoken_eq bytes

end Pieces

/-! ### Buffers only grow -/

section Grows

variable {b b' b'' : Buffer}

def Buffer.Grows (b b' : Buffer) : Prop :=
  ∀ i x, b.buffAt i = some x → ∃ x', b'.buffAt i = some x' ∧ x.data <+: x'.data

lemma Buffer.Grows.refl (b : Buffer) : b.Grows b := fun _ x hx => ⟨x, hx, List.prefix_refl _⟩

lemma Buffer.Grows.trans (h : b.Grows b') (h' : b'.Grows b'') : b.Grows b'' := by
  intro i x hx
  obtain ⟨x', hx', hpre⟩ := h i x hx
  obtain ⟨x'', hx'', hpre'⟩ := h' i x' hx'
  exact ⟨x'', hx'', hpre.trans hpre'⟩

lemma grows_append (b : Buffer) (bytes : List UInt8) : b.Grows (b.append bytes) := by
  intro i x hx
  rw [Buffer.buffAt, List.getElem?_append] at hx
  change ∃ x', (b.filled ++ [_])[i]? = some x' ∧ _
  rw [List.getElem?_append]
  by_cases hi : i < b.filled.length
  · rw [if_pos hi] at hx ⊢
    exact ⟨x, hx, List.prefix_refl _⟩
  · rw [if_neg hi] at hx ⊢
    obtain ⟨hzero, hcur⟩ := List.getElem?_eq_some_iff.mp hx
    have hzero' : i - b.filled.length = 0 := by simpa using hzero
    simp only [hzero', List.getElem_cons_zero] at hcur
    rw [hzero', ← hcur]
    exact ⟨_, rfl, List.prefix_append _ _⟩

lemma grows_moved (b : Buffer) (bytes : List UInt8) : b.Grows (b.moved bytes) := by
  intro i x hx
  have hlt : i < (b.filled ++ [b.cur]).length := (List.getElem?_eq_some_iff.mp hx).1
  refine ⟨x, ?_, List.prefix_refl _⟩
  change (b.filled ++ [b.cur] ++ [_])[i]? = _
  rw [List.getElem?_append_left hlt]
  exact hx

lemma grows_put (b : Buffer) (piece : Piece) : b.Grows (b.put piece) := by
  cases piece with
  | plain bytes =>
    change b.Grows (b.split bytes)
    rw [Buffer.split]
    split
    · exact grows_append b bytes
    · exact (grows_append b _).trans (grows_moved _ _)
  | token bytes =>
    change b.Grows (b.whole bytes)
    rw [Buffer.whole]
    split
    · exact grows_append b bytes
    · exact grows_moved b bytes

lemma grows_puts (b : Buffer) (pieces : List Piece) : b.Grows (b.puts pieces) := by
  induction pieces generalizing b with
  | nil => exact .refl b
  | cons piece pieces ih => exact (grows_put b piece).trans (ih _)

def Buffer.before (b : Buffer) (i : ℕ) : ℕ :=
  (((b.filled ++ [b.cur]).take i).flatMap Buff.data).length

lemma output_buffAt {i : ℕ} {x : Buff} (h : b.buffAt i = some x) :
    ∃ front back, front.length = b.before i ∧ b.output = front ++ x.data ++ back := by
  obtain ⟨hlt, hx⟩ := List.getElem?_eq_some_iff.mp h
  have hsplit : b.filled ++ [b.cur] =
      (b.filled ++ [b.cur]).take i ++ x :: (b.filled ++ [b.cur]).drop (i + 1) := by
    rw [← hx, ← List.drop_eq_getElem_cons hlt, List.take_append_drop]
  refine ⟨_, ((b.filled ++ [b.cur]).drop (i + 1)).flatMap Buff.data, rfl, ?_⟩
  have hall : b.output = (b.filled ++ [b.cur]).flatMap Buff.data := by
    simp [Buffer.output]
  rw [hall]
  conv_lhs => rw [hsplit]
  rw [List.flatMap_append, List.flatMap_cons, List.append_assoc]

/-- The token covers the bytes that were written at this place of the output. -/
structure Covers (b : Buffer) (tok : Token) (place : ℕ) (bytes : List UInt8) : Prop where
  size : tok.size = bytes.length
  written : bytes <+: b.output.drop place
  start : bytes ≠ [] → 0 ≤ tok.start ∧ b.before tok.buff + tok.start = place ∧
    ∃ x, b.buffAt tok.buff = some x ∧ tok.start + tok.size ≤ x.data.length

/-- A token is read as what it covers, then and later. -/
lemma Covers.tokBytes {tok : Token} {place : ℕ} {bytes : List UInt8} (h : Covers b tok place bytes)
    {wr : XmlWriter} (hgrows : b.Grows wr.buffer) : wr.tokBytes tok = bytes := by
  have hsize := h.size
  apply List.ext_getElem
  · rw [XmlWriter.tokBytes, List.length_map, List.length_range, hsize]
  · intro k hk hk'
    have hne : bytes ≠ [] := List.ne_nil_of_length_pos (by omega)
    obtain ⟨hstart, hplace, x, hx, hend⟩ := h.start hne
    obtain ⟨front, back, hfront, houtput⟩ := output_buffAt hx
    obtain ⟨x', hx', rest, hrest⟩ := hgrows _ _ hx
    obtain ⟨start, hstart'⟩ := Int.eq_ofNat_of_zero_le hstart
    have hindex : start + k < x.data.length := by omega
    -- the byte in the output and in its buffer
    have hbyte : x.data[start + k]? = some bytes[k] := by
      obtain ⟨tail, htail⟩ := h.written
      have hsome : b.output[place + k]? = some bytes[k] := by
        rw [← List.getElem?_drop, ← htail, List.getElem?_append_left hk', List.getElem?_eq_getElem]
      have hindex' : place + k = front.length + (start + k) := by omega
      rw [houtput, hindex', List.append_assoc, List.getElem?_append_right (by omega),
        Nat.add_sub_cancel_left, List.getElem?_append_left hindex] at hsome
      exact hsome
    have hlater : wr.buffer.byteAt tok.buff (tok.start + k) = some bytes[k] := by
      have hnonneg : ¬ tok.start + k < 0 := by omega
      have hnat : (tok.start + k).toNat = start + k := by omega
      rw [Buffer.byteAt, if_neg hnonneg, hx', hnat]
      change x'.data[start + k]? = _
      rw [← hrest, List.getElem?_append_left hindex]
      exact hbyte
    simp [XmlWriter.tokBytes, hlater]

end Grows

/-! ### Where tokens stay right -/

section Stays

variable {wr : XmlWriter} {b : Buffer}

lemma pre_append (b : Buffer) (bytes : List UInt8) : (b.append bytes).preTotData = b.preTotData :=
  rfl

lemma Buffer.Wf.pre_moved (h : b.Wf) (bytes : List UInt8) :
    (b.moved bytes).preTotData = b.output.length := h.length_output.symm

lemma Buffer.Wf.pre_le (h : b.Wf) : b.preTotData ≤ b.output.length := by
  rw [h.length_output]
  exact Nat.le_add_right _ _

/-- A piece with room in the current buffer stays there; any other moves on, and what was written
before is then in front of the current buffer. -/
lemma Buffer.Wf.put_cases (h : b.Wf) (piece : Piece) :
    piece.bytes.length < b.remainLen ∧ b.put piece = b.append piece.bytes ∨
      b.remainLen ≤ piece.bytes.length ∧ b.output.length ≤ (b.put piece).preTotData := by
  by_cases hroom : piece.bytes.length < b.remainLen
  · refine .inl ⟨hroom, ?_⟩
    cases piece with
    | plain bytes | token bytes => exact if_pos hroom
  · refine .inr ⟨not_lt.mp hroom, ?_⟩
    cases piece with
    | plain bytes =>
      have hput : b.put (.plain bytes) =
          (b.append (bytes.take b.remainLen)).moved (bytes.drop b.remainLen) := if_neg hroom
      rw [hput, (h.append (List.length_take_le _ _)).pre_moved, output_append,
        List.length_append]
      exact Nat.le_add_right _ _
    | token bytes =>
      have hput : b.put (.token bytes) = b.moved bytes := if_neg hroom
      rw [hput, h.pre_moved]

lemma Buffer.Wf.pre_le_puts (h : b.Wf) (pieces : List Piece) :
    b.preTotData ≤ (b.puts pieces).preTotData := by
  induction pieces generalizing b with
  | nil => exact le_rfl
  | cons piece pieces ih =>
    refine le_trans ?_ (ih (h.put piece))
    obtain ⟨-, hput⟩ | ⟨-, hmoved⟩ := h.put_cases piece
    · rw [hput, pre_append]
    · exact h.pre_le.trans hmoved

lemma remainLen_append (b : Buffer) (bytes : List UInt8) :
    (b.append bytes).remainLen = b.remainLen - bytes.length := by
  simp only [Buffer.remainLen, Buffer.append, List.length_append] at *
  omega

/-- Whether the pieces all go to the current buffer, where something of the output is there. -/
lemma Buffer.Wf.stays_iff (h : b.Wf) {place : ℕ} (hpre : b.preTotData ≤ place)
    (hplace : place < b.output.length) (pieces : List Piece) :
    (b.puts pieces).preTotData ≤ place ↔ pieces = [] ∨ total pieces < b.remainLen := by
  induction pieces generalizing b with
  | nil => exact ⟨fun _ => .inl rfl, fun _ => hpre⟩
  | cons piece pieces ih =>
    change ((b.put piece).puts pieces).preTotData ≤ _ ↔ _
    have hcons : (piece :: pieces = [] ∨ total (piece :: pieces) < b.remainLen) ↔
        piece.bytes.length + total pieces < b.remainLen := by simp
    rw [hcons]
    obtain ⟨hroom, hput⟩ | ⟨hfull, hmoved⟩ := h.put_cases piece
    · have houtput := congrArg List.length (output_append b piece.bytes)
      rw [List.length_append] at houtput
      have hrest := ih (h.append hroom.le) hpre (by omega)
      rw [remainLen_append] at hrest
      rw [hput, hrest]
      constructor
      · rintro (rfl | hlt)
        · simpa using hroom
        · omega
      · intro hlt
        exact .inr (by omega)
    · have hlater := (h.put piece).pre_le_puts pieces
      omega

lemma Buffer.Wf.before_curBuff (h : b.Wf) : b.before b.curBuff = b.preTotData := by
  rw [h.pre, Buffer.before, Buffer.curBuff, List.take_left]

lemma buffAt_curBuff (b : Buffer) : b.buffAt b.curBuff = some b.cur := by
  rw [Buffer.buffAt, Buffer.curBuff, List.getElem?_append_right le_rfl, Nat.sub_self]
  rfl

/-- A token whose place is taken when more pieces have been written. -/
lemma XmlWriter.Wf.covers_iff (h : wr.Wf) (bytes : List UInt8) (pieces : List Piece) :
    Covers ((wr.put (.token bytes)).puts pieces).buffer
        (((wr.put (.token bytes)).puts pieces).buffer.pos wr.next bytes.length)
        wr.buffer.output.length bytes ↔
      (bytes ≠ [] → wr.buffer.output.length < 2 ^ 31 ∧
        (pieces = [] ∨ total pieces < (wr.put (.token bytes)).buffer.remainLen)) := by
  have hwf := (h.put (.token bytes)).puts pieces
  set wr' := (wr.put (.token bytes)).puts pieces with hwr'
  have houtput : wr'.buffer.output =
      wr.buffer.output ++ bytes ++ pieces.flatMap Piece.bytes := by
    rw [hwr', buffer_puts, output_puts]
    exact congrArg (· ++ _) (output_put wr.buffer (.token bytes))
  have hwritten : bytes <+: wr'.buffer.output.drop wr.buffer.output.length := by
    rw [houtput, List.append_assoc, List.drop_left]
    exact List.prefix_append _ _
  by_cases hempty : bytes = []
  · refine ⟨fun _ hne => absurd hempty hne, fun _ => ⟨rfl, hwritten, fun hne => absurd hempty hne⟩⟩
  · have hlength := List.length_pos_iff.mpr hempty
    have hput : (wr.put (.token bytes)).buffer.output.length =
        wr.buffer.output.length + bytes.length := by
      have hlen := congrArg List.length (output_put wr.buffer (.token bytes))
      rwa [List.length_append] at hlen
    have hpre : (wr.put (.token bytes)).buffer.preTotData ≤ wr.buffer.output.length := by
      change (wr.buffer.whole bytes).preTotData ≤ _
      rw [Buffer.whole]
      split
      · exact h.buffer.pre_le
      · rw [h.buffer.pre_moved]
    have hstays := (h.put (.token bytes)).buffer.stays_iff hpre (by omega) pieces
    rw [← buffer_puts, ← hwr'] at hstays
    have hend : wr.buffer.output.length + bytes.length ≤
        wr'.buffer.preTotData + wr'.buffer.cur.data.length := by
      rw [← hwf.buffer.length_output, houtput]
      simp
    have hnext : wr.next = wr.buffer.output.length ↔ wr.buffer.output.length < 2 ^ 31 :=
      h.counters.2
    rw [← hstays, ← hnext]
    constructor
    · rintro ⟨-, -, hstart⟩ -
      obtain ⟨hnonneg, hplace, -⟩ := hstart hempty
      simp only [Buffer.pos, hwf.buffer.before_curBuff] at hnonneg hplace
      omega
    · intro hright
      obtain ⟨hnext', hle⟩ := hright hempty
      refine ⟨rfl, hwritten, fun _ => ?_⟩
      simp only [Buffer.pos, hwf.buffer.before_curBuff, buffAt_curBuff]
      exact ⟨by omega, by omega, _, rfl, by omega⟩

end Stays

/-! ### The condition on lengths -/

/-- The size of the current buffer and what is free of it. -/
structure Space where
  size : ℕ
  free : ℕ
  deriving Repr, DecidableEq

def Buffer.space (b : Buffer) : Space := ⟨b.cur.size, b.remainLen⟩

def Space.next (s : Space) (len : ℕ) : Space :=
  ⟨growTo len (s.size * 2) len, growTo len (s.size * 2) len - len⟩

def Space.put (s : Space) : Piece → Space
  | .plain bytes =>
    if bytes.length < s.free then ⟨s.size, s.free - bytes.length⟩
    else s.next (bytes.length - s.free)
  | .token bytes =>
    if bytes.length < s.free then ⟨s.size, s.free - bytes.length⟩ else s.next bytes.length

lemma space_put (b : Buffer) (piece : Piece) : (b.put piece).space = b.space.put piece := by
  have hmoved : ∀ (b : Buffer) (bytes : List UInt8),
      (b.moved bytes).space = b.space.next bytes.length := fun _ _ => rfl
  have happend : ∀ bytes : List UInt8,
      (b.append bytes).space = ⟨b.space.size, b.space.free - bytes.length⟩ := fun bytes =>
    congrArg (Space.mk _) (remainLen_append b bytes)
  cases piece with
  | plain bytes =>
    change (b.split bytes).space = if bytes.length < b.remainLen then _ else _
    rw [Buffer.split]
    split
    · exact happend bytes
    · rw [hmoved, List.length_drop]
      rfl
  | token bytes =>
    change (b.whole bytes).space = if bytes.length < b.remainLen then _ else _
    rw [Buffer.whole]
    split
    · exact happend bytes
    · exact hmoved b bytes

/-- Every token with bytes begins at a place that `next` can count, and what is written behind it
fits into the free space that it leaves. -/
def Kept : Space → ℕ → List Piece → Prop
  | _, _, [] => True
  | s, place, .plain bytes :: pieces =>
    Kept (s.put (.plain bytes)) (place + bytes.length) pieces
  | s, place, .token bytes :: pieces =>
    (bytes ≠ [] → place < 2 ^ 31 ∧
      (pieces = [] ∨ total pieces < (s.put (.token bytes)).free)) ∧
    Kept (s.put (.token bytes)) (place + bytes.length) pieces

/-- The tokens for the pieces, as they are made in the end, are right. -/
def CoverAll (final : Buffer) : XmlWriter → List Piece → Prop
  | _, [] => True
  | wr, .plain bytes :: pieces => CoverAll final (wr.put (.plain bytes)) pieces
  | wr, .token bytes :: pieces =>
    Covers final (final.pos wr.next bytes.length) wr.buffer.output.length bytes ∧
      CoverAll final (wr.put (.token bytes)) pieces

lemma XmlWriter.Wf.kept_iff {wr : XmlWriter} (h : wr.Wf) (pieces : List Piece) :
    Kept wr.buffer.space wr.buffer.output.length pieces ↔
      CoverAll (wr.puts pieces).buffer wr pieces := by
  induction pieces generalizing wr with
  | nil => exact Iff.rfl
  | cons piece pieces ih =>
    have hrest := ih (h.put piece)
    have hspace : (wr.put piece).buffer.space = wr.buffer.space.put piece := space_put _ _
    have hplace : (wr.put piece).buffer.output.length =
        wr.buffer.output.length + piece.bytes.length := by
      rw [← List.length_append, ← output_put]
      rfl
    rw [hspace, hplace] at hrest
    cases piece with
    | plain bytes => exact hrest
    | token bytes =>
      have hcovers := h.covers_iff bytes pieces
      have hfree : (wr.put (.token bytes)).buffer.remainLen =
          (wr.buffer.space.put (.token bytes)).free := by
        rw [← hspace]
        rfl
      rw [hfree] at hcovers
      exact and_congr hcovers.symm hrest

/-! ### Start tags -/

def namePieces (pref namespaceUri localName : List UInt8) (nmspFound : Bool) : List Piece :=
  [.token pref, .plain (textBytes ":"), .token localName] ++
    if nmspFound then []
    else [.plain (textBytes " "), .plain (textBytes "xmlns:"), .token pref,
      .plain (textBytes "=\""), .token namespaceUri, .plain (textBytes "\"")]

section StartTags

variable {wr : XmlWriter} {pref namespaceUri localName : List UInt8}

lemma XmlWriter.Wf.writeNames_found (h : wr.Wf) :
    writeNames wr pref namespaceUri localName true =
      .ok (⟨wr.next, (wr.puts [.token pref, .plain (textBytes ":")]).next, 0, 0⟩,
        wr.puts (namePieces pref namespaceUri localName true)) := by
  have h₁ := h.put (.token pref)
  have h₂ := h₁.put (.plain (textBytes ":"))
  simp only [writeNames, h.writeXtoken_put, h₁.write_put, h₂.writeXtoken_put, bind, Except.bind]
  rfl

lemma XmlWriter.Wf.writeNames_new (h : wr.Wf) :
    writeNames wr pref namespaceUri localName false =
      .ok (⟨wr.next, (wr.puts [.token pref, .plain (textBytes ":")]).next,
          (wr.puts [.token pref, .plain (textBytes ":"), .token localName,
            .plain (textBytes " "), .plain (textBytes "xmlns:")]).next,
          (wr.puts [.token pref, .plain (textBytes ":"), .token localName,
            .plain (textBytes " "), .plain (textBytes "xmlns:"), .token pref,
            .plain (textBytes "=\"")]).next⟩,
        wr.puts (namePieces pref namespaceUri localName false)) := by
  have h₁ := h.put (.token pref)
  have h₂ := h₁.put (.plain (textBytes ":"))
  have h₃ := h₂.put (.token localName)
  have h₄ := h₃.put (.plain (textBytes " "))
  have h₅ := h₄.put (.plain (textBytes "xmlns:"))
  have h₆ := h₅.put (.token pref)
  have h₇ := h₆.put (.plain (textBytes "=\""))
  have h₈ := h₇.put (.token namespaceUri)
  simp only [writeNames, h.writeXtoken_put, h₁.write_put, h₂.writeXtoken_put, h₃.write_put,
    h₄.write_put, h₅.writeXtoken_put, h₆.write_put, h₇.writeXtoken_put, h₈.write_put, bind,
    Except.bind]
  rfl

/-- The writer without an empty element that is still open. -/
def XmlWriter.closed (wr : XmlWriter) : XmlWriter :=
  match wr.status with
  | .startEmpty => freeEmptyElement wr
  | _ => wr

/-- What opens a start tag. -/
def Status.lead (emptyEnd : List UInt8) : Status → List UInt8
  | .start => textBytes "><"
  | .startEmpty => emptyEnd
  | .begining => textBytes "<"

/-- What the tag with a prefix writes behind an empty element: two bytes of three. -/
def emptyEndNs : List UInt8 := (textBytes "/><").take 2

lemma freeEmptyElement_fields (wr : XmlWriter) :
    (freeEmptyElement wr).buffer = wr.buffer ∧ (freeEmptyElement wr).next = wr.next := by
  unfold freeEmptyElement
  split <;> exact ⟨rfl, rfl⟩

lemma closed_fields (wr : XmlWriter) :
    wr.closed.buffer = wr.buffer ∧ wr.closed.next = wr.next := by
  unfold XmlWriter.closed
  split
  · exact freeEmptyElement_fields wr
  · exact ⟨rfl, rfl⟩

lemma XmlWriter.Wf.closed (h : wr.Wf) : wr.closed.Wf := by
  obtain ⟨hbuffer, hnext⟩ := closed_fields wr
  exact ⟨hbuffer ▸ h.buffer, by rw [hbuffer, hnext]; exact h.next⟩

/-- Where a piece of the tag begins. -/
lemma length_output_puts (wr : XmlWriter) (pieces : List Piece) :
    (wr.puts pieces).buffer.output.length = wr.buffer.output.length + total pieces := by
  rw [buffer_puts, output_puts, List.length_append]
  rfl

/-- `wr'` is the writer when a start tag is complete that was opened in `wr`: where the stored
tokens point. -/
structure Started (wr wr' : XmlWriter) (pref namespaceUri localName : List UInt8)
    (nmspFound : Bool) : Prop where
  buffer : wr'.buffer = (wr.puts (namePieces pref namespaceUri localName nmspFound)).buffer
  wf : wr'.Wf
  status : wr'.status = .start
  element : ∃ stackNo rest, wr'.element =
    ⟨some (wr'.buffer.pos wr.next pref.length),
      wr'.buffer.pos (wr.puts [.token pref, .plain (textBytes ":")]).next localName.length,
      stackNo⟩ :: rest
  namesp : nmspFound = false → ∃ rest, wr'.namesp =
    ⟨[wr'.buffer.pos (wr.puts [.token pref, .plain (textBytes ":"), .token localName,
        .plain (textBytes " "), .plain (textBytes "xmlns:")]).next pref.length],
      [wr'.buffer.pos (wr.puts [.token pref, .plain (textBytes ":"), .token localName,
        .plain (textBytes " "), .plain (textBytes "xmlns:"), .token pref,
        .plain (textBytes "=\"")]).next namespaceUri.length]⟩ :: rest

lemma XmlWriter.Wf.openTag_eq (h : wr.Wf) (emptyEnd : List UInt8) :
    openTag wr emptyEnd = .ok (wr.closed.put (.plain (wr.status.lead emptyEnd))) := by
  have hclosed := h.closed
  rw [XmlWriter.closed] at hclosed ⊢
  rw [openTag]
  cases hstatus : wr.status with
  | start | begining => exact h.write_put _
  | startEmpty =>
    rw [hstatus] at hclosed
    exact hclosed.write_put _

lemma started_pushElement {wr' : XmlWriter} (hwf : wr'.Wf) {starts : Starts} {nmspFound : Bool}
    (hbuffer : wr'.buffer = (wr.puts (namePieces pref namespaceUri localName nmspFound)).buffer)
    (hpref : starts.elemPrefStart = wr.next)
    (helem : starts.elemStart = (wr.puts [.token pref, .plain (textBytes ":")]).next)
    (hnamesp : nmspFound = false →
      starts.prefStart = (wr.puts [.token pref, .plain (textBytes ":"), .token localName,
        .plain (textBytes " "), .plain (textBytes "xmlns:")]).next ∧
      starts.uriStart = (wr.puts [.token pref, .plain (textBytes ":"), .token localName,
        .plain (textBytes " "), .plain (textBytes "xmlns:"), .token pref,
        .plain (textBytes "=\"")]).next) :
    Started wr (wr'.pushElement starts pref namespaceUri localName nmspFound) pref namespaceUri
      localName nmspFound where
  buffer := hbuffer
  wf := ⟨hwf.buffer, hwf.next⟩
  status := rfl
  element := by
    rw [← hpref, ← helem]
    exact ⟨_, _, rfl⟩
  namesp := by
    intro hnew
    obtain ⟨hprefStart, huriStart⟩ := hnamesp hnew
    rw [← hprefStart, ← huriStart, hnew]
    exact ⟨_, rfl⟩

lemma XmlWriter.Wf.writeStartElementNs (h : wr.Wf) (pref namespaceUri localName : List UInt8) :
    ∃ wr', writeStartElementWithPrefixAndNamespace wr pref namespaceUri localName = .ok wr' ∧
      Started (wr.closed.put (.plain (wr.status.lead emptyEndNs))) wr' pref namespaceUri localName
        (wr.nmspFound pref) := by
  have hopen : openTag wr ((textBytes "/><").take 2) = _ := h.openTag_eq emptyEndNs
  have hlead := h.closed.put (.plain (wr.status.lead emptyEndNs))
  unfold writeStartElementWithPrefixAndNamespace
  rw [hopen]
  generalize wr.closed.put (.plain (wr.status.lead emptyEndNs)) = wr₀ at hlead ⊢
  have hall := hlead.puts (namePieces pref namespaceUri localName (wr.nmspFound pref))
  cases hfound : wr.nmspFound pref with
  | true =>
    rw [hfound] at hall
    simp only [bind, Except.bind, hlead.writeNames_found]
    exact ⟨_, rfl, started_pushElement hall rfl rfl rfl fun hnew => absurd hnew (by decide)⟩
  | false =>
    rw [hfound] at hall
    simp only [bind, Except.bind, hlead.writeNames_new]
    exact ⟨_, rfl, started_pushElement hall rfl rfl rfl fun _ => ⟨rfl, rfl⟩⟩

end StartTags

/-! ### Characters -/

section Characters

variable {wr : XmlWriter}

/-- The text as it stands in the output. -/
def escape (buff : List UInt8) : List UInt8 :=
  buff.flatMap fun ch => (escapeSequence ch).getD [ch]

lemma escapeSequence_of_plain {ch : UInt8} (h : isSpecial ch = false) :
    escapeSequence ch = none := by
  simp only [isSpecial, Bool.or_eq_false_iff, decide_eq_false_iff_not] at h
  simp [escapeSequence, h]

lemma exists_escapeSequence {ch : UInt8} (h : isSpecial ch = true) :
    ∃ seq, escapeSequence ch = some seq := by
  simp only [isSpecial, Bool.or_eq_true, decide_eq_true_eq] at h
  obtain (((rfl | rfl) | rfl) | rfl) | rfl := h
  all_goals exact ⟨_, rfl⟩

lemma escape_plain {buff : List UInt8} (h : ∀ ch ∈ buff, isSpecial ch = false) :
    escape buff = buff := by
  induction buff with
  | nil => rfl
  | cons ch buff ih =>
    rw [escape, List.flatMap_cons, escapeSequence_of_plain (h ch (List.mem_cons_self ..))]
    exact congrArg (ch :: ·) (ih fun c hc => h c (List.mem_cons_of_mem _ hc))

lemma XmlWriter.Wf.charactersLoop (h : wr.Wf) (fuel : ℕ) (buff : List UInt8)
    (hfuel : buff.length < fuel) :
    ∃ pieces, GuththilaWriter.charactersLoop fuel wr buff = .ok (true, wr.puts pieces) ∧
      pieces.flatMap Piece.bytes = escape buff := by
  induction fuel generalizing wr buff with
  | zero => omega
  | succ fuel ih =>
    set plain := buff.takeWhile fun ch => !isSpecial ch with hplain
    have hsplit : buff = plain ++ buff.dropWhile fun ch => !isSpecial ch :=
      List.takeWhile_append_dropWhile.symm
    have hescape : escape plain = plain := escape_plain fun ch hch => by
      simpa using List.mem_takeWhile_imp hch
    -- what is in front of the next special character
    obtain ⟨front, hfront, hbytes⟩ : ∃ front : List Piece,
        (if plain ≠ [] then write wr plain else .ok wr) = .ok (wr.puts front) ∧
          front.flatMap Piece.bytes = plain := by
      by_cases hempty : plain = []
      · exact ⟨[], by rw [if_neg (not_not.mpr hempty)]; rfl, hempty.symm⟩
      · exact ⟨[.plain plain], by rw [if_pos hempty, h.write_put]; rfl, by simp [Piece.bytes]⟩
    rw [GuththilaWriter.charactersLoop, ← hplain, hfront]
    cases hrest : buff.dropWhile fun ch => !isSpecial ch with
    | nil =>
      rw [hrest, List.append_nil] at hsplit
      exact ⟨front, rfl, by rw [hbytes, hsplit, hescape]⟩
    | cons ch rest =>
      have hspecial : isSpecial ch = true := by
        have hhead := List.head?_dropWhile_not (fun ch => !isSpecial ch) buff
        rw [hrest] at hhead
        simpa using hhead
      obtain ⟨seq, hseq⟩ := exists_escapeSequence hspecial
      have hwf := h.puts front
      obtain ⟨back, hloop, hback⟩ := ih (hwf.put (.plain seq)) rest (by
        have hlength := congrArg List.length hsplit
        rw [hrest, List.length_append, List.length_cons] at hlength
        omega)
      refine ⟨front ++ .plain seq :: back, ?_, ?_⟩
      · simp only [bind, Except.bind, writeEscapeCharacter, hseq, hwf.write_put]
        rw [puts_append, puts_cons]
        exact hloop
      · rw [List.flatMap_append, List.flatMap_cons, hbytes, hback, hsplit, hrest]
        simp [escape, hseq, Piece.bytes] at hescape ⊢
        exact hescape.symm

end Characters

/-! ### Calls -/

inductive Op
  | startElement (name : List UInt8)
  | startElementNs (pref namespaceUri localName : List UInt8)
  | endElement
  | characters (buff : List UInt8)
  deriving Repr, DecidableEq

def Op.run (wr : XmlWriter) : Op → Except Fault XmlWriter
  | .startElement name => (writeStartElement wr name).map Prod.snd
  | .startElementNs pref namespaceUri localName =>
    writeStartElementWithPrefixAndNamespace wr pref namespaceUri localName
  | .endElement => (writeEndElement wr).map Prod.snd
  | .characters buff => (writeCharacters wr buff).map Prod.snd

def runOps (wr : XmlWriter) (ops : List Op) : Except Fault XmlWriter :=
  ops.foldlM Op.run wr

/-- A writer in order at a later time, with no empty element open. -/
structure Later (wr wr' : XmlWriter) : Prop where
  wf : wr'.Wf
  status : wr'.status ≠ .startEmpty
  grows : wr.buffer.Grows wr'.buffer

section Calls

variable {wr : XmlWriter}

lemma grows_put_writer (wr : XmlWriter) (piece : Piece) :
    wr.buffer.Grows (wr.put piece).buffer := grows_put _ _

lemma grows_puts_writer (wr : XmlWriter) (pieces : List Piece) :
    wr.buffer.Grows (wr.puts pieces).buffer := by
  rw [buffer_puts]
  exact grows_puts _ _

def prefPieces (wr : XmlWriter) : Option Token → List Piece
  | some pref => [.plain (wr.tokBytes pref), .plain (textBytes ":")]
  | none => []

def endPieces (wr : XmlWriter) (elem : Element) : List Piece :=
  prefPieces wr elem.pref ++
    [.plain ((wr.puts (prefPieces wr elem.pref)).tokBytes elem.name), .plain (textBytes ">")]

lemma XmlWriter.Wf.writeEndName_eq (h : wr.Wf) (elem : Element) :
    writeEndName wr elem = .ok (wr.puts (endPieces wr elem)) := by
  have hname : ∀ wr₀ : XmlWriter, wr₀.Wf →
      (writeToken wr₀ (wr₀.tokBytes elem.name) >>= fun wr => write wr (textBytes ">")) =
        .ok (wr₀.puts [.plain (wr₀.tokBytes elem.name), .plain (textBytes ">")]) := by
    intro wr₀ hwf
    rw [hwf.writeToken_put]
    exact (hwf.put _).write_put _
  have hpref := h.puts (prefPieces wr elem.pref)
  rw [endPieces, puts_append, writeEndName]
  cases helem : elem.pref with
  | none => exact hname wr h
  | some pref =>
    rw [helem] at hpref
    have hfirst := h.put (.plain (wr.tokBytes pref))
    simp only [h.writeToken_put, hfirst.write_put, bind, Except.bind]
    exact hname _ hpref

def Status.endLead (status : Status) : List UInt8 :=
  if status = .start then textBytes "></" else textBytes "</"

lemma XmlWriter.Wf.writeEndElement_eq (h : wr.Wf) (hstatus : wr.status ≠ .startEmpty) :
    writeEndElement wr = .ok
      (match wr.element with
      | elem :: rest =>
        (true, ((wr.put (.plain wr.status.endLead)).puts
          (endPieces (wr.put (.plain wr.status.endLead)) elem)).leave elem rest)
      | [] => (false, wr.put (.plain wr.status.endLead))) := by
  have hlead := h.put (.plain wr.status.endLead)
  have hwrite : write wr (if wr.status = .start then textBytes "></" else textBytes "</") = _ :=
    h.write_put wr.status.endLead
  have hend : writeEndElement wr =
      (write wr (if wr.status = .start then textBytes "></" else textBytes "</") >>= fun wr =>
        match wr.element with
        | elem :: rest => writeEndName wr elem >>= fun wr => .ok (true, wr.leave elem rest)
        | [] => .ok (false, wr)) := by
    rw [writeEndElement]
    cases hs : wr.status with
    | startEmpty => exact absurd hs hstatus
    | start | begining => rfl
  have helement : (wr.put (.plain wr.status.endLead)).element = wr.element := rfl
  rw [hend, hwrite]
  simp only [bind, Except.bind, helement]
  cases wr.element with
  | nil => rfl
  | cons elem rest =>
    simp only [hlead.writeEndName_eq]

lemma XmlWriter.Wf.leave {wr : XmlWriter} (h : wr.Wf) (elem : Element) (rest : List Element) :
    (wr.leave elem rest).Wf := ⟨h.buffer, h.next⟩

/-- The same for a start tag without a prefix. -/
structure PlainStarted (wr wr' : XmlWriter) (name : List UInt8) : Prop where
  buffer : wr'.buffer = (wr.put (.token name)).buffer
  wf : wr'.Wf
  status : wr'.status = .start
  element : ∃ stackNo rest,
    wr'.element = ⟨none, wr'.buffer.pos wr.next name.length, stackNo⟩ :: rest

lemma plainStarted_pushPlain {wr wr' : XmlWriter} (hwf : wr'.Wf) {name : List UInt8}
    (hbuffer : wr'.buffer = (wr.put (.token name)).buffer) :
    PlainStarted wr (wr'.pushPlain wr.next name) name :=
  ⟨hbuffer, ⟨hwf.buffer, hwf.next⟩, rfl, _, _, rfl⟩

lemma XmlWriter.Wf.writeStartElement (h : wr.Wf) (name : List UInt8) :
    ∃ res wr', GuththilaWriter.writeStartElement wr name = .ok (res, wr') ∧
      PlainStarted (wr.closed.put (.plain (wr.status.lead (textBytes "/><")))) wr' name := by
  have hlead := h.closed.put (.plain (wr.status.lead (textBytes "/><")))
  rw [GuththilaWriter.writeStartElement, h.openTag_eq]
  generalize wr.closed.put (.plain (wr.status.lead (textBytes "/><"))) = wr₀ at hlead ⊢
  simp only [bind, Except.bind, hlead.writeXtoken_put]
  exact ⟨_, _, rfl, plainStarted_pushPlain (hlead.put _) rfl⟩

lemma XmlWriter.Wf.writeCharacters (h : wr.Wf) (buff : List UInt8) :
    ∃ wr', GuththilaWriter.writeCharacters wr buff = .ok (true, wr') ∧ wr'.Wf ∧
      wr'.status = .begining ∧ wr.buffer.Grows wr'.buffer ∧
      wr'.buffer.output = wr.buffer.output ++
        (match wr.status with
          | .start => textBytes ">"
          | .startEmpty => textBytes "/>"
          | .begining => []) ++ escape buff := by
  have hopen : ∀ wr₀ : XmlWriter, wr₀.Wf → wr₀.status = .begining →
      ∃ wr', GuththilaWriter.charactersLoop (buff.length + 1) wr₀ buff = .ok (true, wr') ∧ wr'.Wf ∧
        wr'.status = .begining ∧ wr₀.buffer.Grows wr'.buffer ∧
        wr'.buffer.output = wr₀.buffer.output ++ escape buff := by
    intro wr₀ hwf hstatus
    obtain ⟨pieces, hloop, hbytes⟩ := hwf.charactersLoop _ buff (Nat.lt_succ_self _)
    refine ⟨_, hloop, hwf.puts pieces, (puts_fields wr₀ pieces).1.trans hstatus,
      grows_puts_writer _ _, ?_⟩
    rw [buffer_puts, output_puts, hbytes]
  unfold GuththilaWriter.writeCharacters
  cases hstatus : wr.status with
  | start =>
    have hwf : ({ wr with status := .begining } : XmlWriter).Wf := ⟨h.buffer, h.next⟩
    obtain ⟨wr', hloop, hwf', hs, hgrows, houtput⟩ :=
      hopen _ (hwf.put (.plain (textBytes ">"))) rfl
    simp only [bind, Except.bind, hwf.write_put]
    refine ⟨wr', hloop, hwf', hs, (grows_put _ _).trans hgrows, ?_⟩
    rw [houtput]
    exact congrArg (· ++ _) (output_put wr.buffer (.plain (textBytes ">")))
  | startEmpty =>
    obtain ⟨hbuffer, hnext⟩ := freeEmptyElement_fields wr
    have hwf : ({ freeEmptyElement wr with status := .begining } : XmlWriter).Wf :=
      ⟨hbuffer.symm ▸ h.buffer, by
        change (freeEmptyElement wr).next = toInt (freeEmptyElement wr).buffer.output.length
        rw [hbuffer, hnext, h.next]⟩
    obtain ⟨wr', hloop, hwf', hs, hgrows, houtput⟩ :=
      hopen _ (hwf.put (.plain (textBytes "/>"))) rfl
    simp only [bind, Except.bind, hwf.write_put]
    have hput : (({ freeEmptyElement wr with status := .begining } : XmlWriter).put
        (.plain (textBytes "/>"))).buffer = wr.buffer.put (.plain (textBytes "/>")) :=
      congrArg (fun b : Buffer => b.put (.plain (textBytes "/>"))) hbuffer
    rw [hput] at hgrows houtput
    refine ⟨wr', hloop, hwf', hs, (grows_put _ _).trans hgrows, ?_⟩
    rw [houtput, output_put]
    rfl
  | begining =>
    obtain ⟨wr', hloop, hwf', hs, hgrows, houtput⟩ := hopen _ h hstatus
    simp only [bind, Except.bind]
    exact ⟨wr', hloop, hwf', hs, hgrows, by rw [houtput, List.append_nil]⟩

lemma Later.trans {wr wr' wr'' : XmlWriter} (h : Later wr wr') (h' : Later wr' wr'') :
    Later wr wr'' :=
  ⟨h'.wf, h'.status, h.grows.trans h'.grows⟩

lemma grows_closed {wr' : XmlWriter} (h : wr.closed.buffer.Grows wr'.buffer) :
    wr.buffer.Grows wr'.buffer := by
  rwa [(closed_fields wr).1] at h

/-- What one call does to the buffers. -/
lemma XmlWriter.Wf.op (h : wr.Wf) (hstatus : wr.status ≠ .startEmpty) (op : Op) :
    ∃ wr', op.run wr = .ok wr' ∧ Later wr wr' := by
  cases op with
  | startElement name =>
    obtain ⟨res, wr', hrun, hstarted⟩ := h.writeStartElement name
    refine ⟨wr', congrArg (Except.map Prod.snd) hrun, hstarted.wf, by simp [hstarted.status], ?_⟩
    rw [hstarted.buffer]
    exact grows_closed ((grows_put_writer _ _).trans (grows_put_writer _ _))
  | startElementNs pref namespaceUri localName =>
    obtain ⟨wr', hrun, hstarted⟩ := h.writeStartElementNs pref namespaceUri localName
    refine ⟨wr', hrun, hstarted.wf, by simp [hstarted.status], ?_⟩
    rw [hstarted.buffer]
    exact grows_closed ((grows_put_writer _ _).trans (grows_puts_writer _ _))
  | endElement =>
    refine ⟨_, congrArg (Except.map Prod.snd) (h.writeEndElement_eq hstatus), ?_⟩
    have hlead := h.put (.plain wr.status.endLead)
    cases wr.element with
    | nil => exact ⟨hlead, hstatus, grows_put_writer _ _⟩
    | cons elem rest =>
      exact ⟨(hlead.puts _).leave elem rest, by simp [XmlWriter.leave],
        (grows_put_writer _ _).trans (grows_puts_writer _ _)⟩
  | characters buff =>
    obtain ⟨wr', hrun, hwf, hs, hgrows, -⟩ := h.writeCharacters buff
    exact ⟨wr', congrArg (Except.map Prod.snd) hrun, hwf, by simp [hs], hgrows⟩

lemma XmlWriter.Wf.runOps (h : wr.Wf) (hstatus : wr.status ≠ .startEmpty) (ops : List Op) :
    ∃ wr', GuththilaWriter.runOps wr ops = .ok wr' ∧ Later wr wr' := by
  induction ops generalizing wr with
  | nil => exact ⟨wr, rfl, h, hstatus, .refl _⟩
  | cons op ops ih =>
    obtain ⟨wr₁, hop, hlater⟩ := h.op hstatus op
    obtain ⟨wr₂, hops, hlater'⟩ := ih hlater.wf hlater.status
    refine ⟨wr₂, ?_, hlater.trans hlater'⟩
    rw [GuththilaWriter.runOps, List.foldlM_cons, hop]
    exact hops

end Calls

/-! ### Start tags and their end tags -/

/-- Whatever is called next, the end tag of the element that is on top now has this name. -/
def EndsAs (wr : XmlWriter) (name : List UInt8) : Prop :=
  ∀ ops, ∃ wr', runOps wr ops = .ok wr' ∧
    (wr'.element = wr.element → ∃ wr'', writeEndElement wr' = .ok (true, wr'') ∧
      wr''.buffer.output = wr'.buffer.output ++ wr'.status.endLead ++ name ++ textBytes ">")

/-- The stored tokens cover the names, and those of a new namespace its prefix and its uri. The tag
has its prefix at `place` of the output. -/
structure TokensRight (wr : XmlWriter) (place : ℕ) (pref namespaceUri localName : List UInt8)
    (nmspFound : Bool) : Prop where
  element : ∃ prefTok nameTok stackNo rest, wr.element = ⟨some prefTok, nameTok, stackNo⟩ :: rest ∧
    Covers wr.buffer prefTok place pref ∧
    Covers wr.buffer nameTok (place + pref.length + 1) localName
  namesp : nmspFound = false → ∃ nameTok uriTok rest, wr.namesp = ⟨[nameTok], [uriTok]⟩ :: rest ∧
    Covers wr.buffer nameTok (place + pref.length + localName.length + 8) pref ∧
    Covers wr.buffer uriTok (place + 2 * pref.length + localName.length + 10) namespaceUri

/-- A start tag with a prefix stores tokens for what it has written, and its end tag repeats the
names. -/
def TagRight (wr : XmlWriter) (pref namespaceUri localName : List UInt8) : Prop :=
  ∃ wr', writeStartElementWithPrefixAndNamespace wr pref namespaceUri localName = .ok wr' ∧
    TokensRight wr' (wr.buffer.output.length + (wr.status.lead emptyEndNs).length) pref namespaceUri
      localName (wr.nmspFound pref) ∧
    EndsAs wr' (pref ++ textBytes ":" ++ localName)

def PlainTagRight (wr : XmlWriter) (name : List UInt8) : Prop :=
  ∃ res wr', writeStartElement wr name = .ok (res, wr') ∧
    (∃ nameTok stackNo rest, wr'.element = ⟨none, nameTok, stackNo⟩ :: rest ∧
      Covers wr'.buffer nameTok
        (wr.buffer.output.length + (wr.status.lead (textBytes "/><")).length) name) ∧
    EndsAs wr' name

section Theorems

variable {wr wr' : XmlWriter} {pref namespaceUri localName : List UInt8} {nmspFound : Bool}

lemma output_leave (wr : XmlWriter) (elem : Element) (rest : List Element) :
    (wr.leave elem rest).buffer = wr.buffer := rfl

/-- The end tag of an element whose tokens are right. -/
lemma endsAs_of_covers {elem : Element} {rest : List Element} {name : List UInt8} (hwf : wr.Wf)
    (hstatus : wr.status ≠ .startEmpty) (helement : wr.element = elem :: rest)
    (hname : ∀ wr' : XmlWriter, wr.buffer.Grows wr'.buffer →
      (endPieces wr' elem).flatMap Piece.bytes = name ++ textBytes ">") : EndsAs wr name := by
  intro ops
  obtain ⟨wr', hrun, hlater⟩ := hwf.runOps hstatus ops
  refine ⟨wr', hrun, fun hsame => ?_⟩
  have hend := hlater.wf.writeEndElement_eq hlater.status
  rw [hsame, helement] at hend
  refine ⟨_, hend, ?_⟩
  rw [output_leave, buffer_puts, output_puts, hname _ (hlater.grows.trans (grows_put_writer _ _))]
  have hput := output_put wr'.buffer (.plain wr'.status.endLead)
  rw [← List.append_assoc]
  exact congrArg (· ++ name ++ textBytes ">") hput

lemma Started.tokensRight_iff (h : Started wr wr' pref namespaceUri localName nmspFound) :
    TokensRight wr' wr.buffer.output.length pref namespaceUri localName nmspFound ↔
      CoverAll wr'.buffer wr (namePieces pref namespaceUri localName nmspFound) := by
  have hcolon : (textBytes ":").length = 1 := rfl
  have hspace : (textBytes " ").length = 1 := rfl
  have hxmlns : (textBytes "xmlns:").length = 6 := rfl
  have hequal : (textBytes "=\"").length = 2 := rfl
  have hname : (wr.puts [.token pref, .plain (textBytes ":")]).buffer.output.length =
      wr.buffer.output.length + pref.length + 1 := by
    simp only [length_output_puts, total_cons, total_nil, Piece.bytes]
    omega
  have helement : (∃ prefTok nameTok stackNo rest,
      wr'.element = ⟨some prefTok, nameTok, stackNo⟩ :: rest ∧
        Covers wr'.buffer prefTok wr.buffer.output.length pref ∧
        Covers wr'.buffer nameTok (wr.buffer.output.length + pref.length + 1) localName) ↔
      Covers wr'.buffer (wr'.buffer.pos wr.next pref.length) wr.buffer.output.length pref ∧
        Covers wr'.buffer
          (wr'.buffer.pos (wr.puts [.token pref, .plain (textBytes ":")]).next localName.length)
          (wr.puts [.token pref, .plain (textBytes ":")]).buffer.output.length localName := by
    obtain ⟨stackNo, rest, hstack⟩ := h.element
    rw [hname]
    constructor
    · rintro ⟨prefTok, nameTok, stackNo', rest', hstack', hcovers⟩
      obtain ⟨helem, -⟩ := List.cons.inj (hstack.symm.trans hstack')
      obtain ⟨hpref, rfl, -⟩ := Element.mk.inj helem
      obtain rfl := Option.some.inj hpref
      exact hcovers
    · exact fun hcovers => ⟨_, _, _, _, hstack, hcovers⟩
  cases hfound : nmspFound with
  | true =>
    constructor
    · rintro ⟨hcovers, -⟩
      obtain ⟨hpref, hlocal⟩ := helement.mp hcovers
      exact ⟨hpref, hlocal, trivial⟩
    · rintro ⟨hpref, hlocal, -⟩
      exact ⟨helement.mpr ⟨hpref, hlocal⟩, fun hnew => absurd hnew (by decide)⟩
  | false =>
    have hnmName : (wr.puts [.token pref, .plain (textBytes ":"), .token localName,
        .plain (textBytes " "), .plain (textBytes "xmlns:")]).buffer.output.length =
        wr.buffer.output.length + pref.length + localName.length + 8 := by
      simp only [length_output_puts, total_cons, total_nil, Piece.bytes]
      omega
    have hnmUri : (wr.puts [.token pref, .plain (textBytes ":"), .token localName,
        .plain (textBytes " "), .plain (textBytes "xmlns:"), .token pref,
        .plain (textBytes "=\"")]).buffer.output.length =
        wr.buffer.output.length + 2 * pref.length + localName.length + 10 := by
      simp only [length_output_puts, total_cons, total_nil, Piece.bytes]
      omega
    obtain ⟨rest, hstack⟩ := h.namesp hfound
    constructor
    · rintro ⟨hcovers, hnamesp⟩
      obtain ⟨hpref, hlocal⟩ := helement.mp hcovers
      obtain ⟨nameTok, uriTok, rest', hstack', hnm, huri⟩ := hnamesp rfl
      obtain ⟨hns, -⟩ := List.cons.inj (hstack.symm.trans hstack')
      obtain ⟨hnames, huris⟩ := Namesp.mk.inj hns
      obtain rfl := List.singleton_inj.mp hnames
      obtain rfl := List.singleton_inj.mp huris
      rw [← hnmName] at hnm
      rw [← hnmUri] at huri
      exact ⟨hpref, hlocal, hnm, huri, trivial⟩
    · rintro ⟨hpref, hlocal, hnm, huri, -⟩
      refine ⟨helement.mpr ⟨hpref, hlocal⟩, fun _ => ⟨_, _, _, hstack, ?_, ?_⟩⟩
      · rw [← hnmName]
        exact hnm
      · rw [← hnmUri]
        exact huri

lemma XmlWriter.Wf.kept_tag (h : wr.Wf) (lead : List UInt8) (pieces : List Piece) :
    Kept wr.buffer.space wr.buffer.output.length (.plain lead :: pieces) ↔
      CoverAll ((wr.closed.put (.plain lead)).puts pieces).buffer (wr.closed.put (.plain lead))
        pieces := by
  have hkept := h.closed.kept_iff (.plain lead :: pieces)
  rw [(closed_fields wr).1] at hkept
  exact hkept

lemma length_output_lead (wr : XmlWriter) (lead : List UInt8) :
    (wr.closed.put (.plain lead)).buffer.output.length =
      wr.buffer.output.length + lead.length := by
  have hput := output_put wr.closed.buffer (.plain lead)
  rw [(closed_fields wr).1] at hput
  change ((wr.closed.buffer.put (.plain lead)).output).length = _
  rw [(closed_fields wr).1, hput, List.length_append]
  rfl

/-- What a start tag with a prefix needs: behind each of its tokens that has bytes, the rest of the
tag fits into the free space of the buffer. -/
def TagFits (wr : XmlWriter) (pref namespaceUri localName : List UInt8) : Prop :=
  Kept wr.buffer.space wr.buffer.output.length
    (.plain (wr.status.lead emptyEndNs) ::
      namePieces pref namespaceUri localName (wr.nmspFound pref))

lemma XmlWriter.Wf.tagRight_iff (h : wr.Wf) :
    TagRight wr pref namespaceUri localName ↔ TagFits wr pref namespaceUri localName := by
  obtain ⟨wr', hrun, hstarted⟩ := h.writeStartElementNs pref namespaceUri localName
  have htokens := hstarted.tokensRight_iff
  rw [length_output_lead, hstarted.buffer, ← h.kept_tag] at htokens
  constructor
  · rintro ⟨wr'', hrun', hright, -⟩
    obtain rfl := Except.ok.inj (hrun.symm.trans hrun')
    exact htokens.mp hright
  · intro hfits
    have hright := htokens.mpr hfits
    refine ⟨wr', hrun, hright, ?_⟩
    obtain ⟨prefTok, nameTok, stackNo, rest, helement, hpref, hname⟩ := hright.element
    refine endsAs_of_covers hstarted.wf (by simp [hstarted.status]) helement fun later hgrows => ?_
    have hbehind := hgrows.trans (grows_puts_writer later (prefPieces later (some prefTok)))
    have hlocal := hname.tokBytes hbehind
    simp only [endPieces, hlocal]
    simp [prefPieces, hpref.tokBytes hgrows, Piece.bytes]

lemma XmlWriter.Wf.plainTagRight_iff (h : wr.Wf) (name : List UInt8) :
    PlainTagRight wr name ↔ (name ≠ [] →
      wr.buffer.output.length + (wr.status.lead (textBytes "/><")).length < 2 ^ 31) := by
  obtain ⟨res, wr', hrun, hstarted⟩ := h.writeStartElement name
  obtain ⟨stackNo, rest, helement⟩ := hstarted.element
  have hcovers : Covers wr'.buffer
      (wr'.buffer.pos (wr.closed.put (.plain (wr.status.lead (textBytes "/><")))).next name.length)
      (wr.buffer.output.length + (wr.status.lead (textBytes "/><")).length) name ↔
      (name ≠ [] →
        wr.buffer.output.length + (wr.status.lead (textBytes "/><")).length < 2 ^ 31) := by
    have hkept := (h.kept_tag (wr.status.lead (textBytes "/><")) [.token name]).symm
    simp only [CoverAll, Kept, XmlWriter.puts, List.foldl_cons, List.foldl_nil, length_output_lead,
      true_or, and_true] at hkept
    rw [hstarted.buffer]
    exact hkept
  constructor
  · rintro ⟨res', wr'', hrun', ⟨nameTok, stackNo', rest', helement', hright⟩, -⟩
    obtain ⟨-, rfl⟩ := Prod.mk.inj (Except.ok.inj (hrun.symm.trans hrun'))
    obtain ⟨helem, -⟩ := List.cons.inj (helement.symm.trans helement')
    obtain ⟨-, rfl, -⟩ := Element.mk.inj helem
    exact hcovers.mp hright
  · intro hplace
    have hright := hcovers.mpr hplace
    refine ⟨res, wr', hrun, ⟨_, _, _, helement, hright⟩, ?_⟩
    refine endsAs_of_covers hstarted.wf (by simp [hstarted.status]) helement fun later hgrows => ?_
    have hlocal := hright.tokBytes (hgrows.trans (grows_puts_writer later (prefPieces later none)))
    simp only [endPieces, hlocal]
    simp [prefPieces, Piece.bytes]

end Theorems

/-- Four bytes before the end of the buffer the name goes to the next one, and the prefix is left
behind. -/
lemma not_tagRight_near_end {bytes : List UInt8} (hlength : bytes.length = 16380) :
    ¬ TagRight ((createXmlStreamWriterForMemory fun _ _ => 0).put (.plain bytes))
      [112] [117] [110] := by
  have hspace : ((createXmlStreamWriterForMemory fun _ _ => 0).put (.plain bytes)).buffer.space =
      ⟨16384, 4⟩ := by
    have hput := space_put (createXmlStreamWriterForMemory fun _ _ => 0).buffer (.plain bytes)
    rw [Space.put, hlength] at hput
    exact hput.trans (by decide +kernel)
  have hfound : ((createXmlStreamWriterForMemory fun _ _ => 0).put (.plain bytes)).nmspFound [112] =
      false := rfl
  have hstatus : ((createXmlStreamWriterForMemory fun _ _ => 0).put (.plain bytes)).status =
      .begining := rfl
  intro hright
  have hfits := ((wf_create fun _ _ => 0).put (.plain bytes)).tagRight_iff.mp hright
  rw [TagFits, hspace, hfound, hstatus] at hfits
  obtain ⟨hfirst, -⟩ := hfits
  obtain ⟨-, hnil | htotal⟩ := hfirst (by decide)
  · cases hnil
  · exact absurd htotal (by decide +kernel)

end Axis2C.GuththilaWriter
