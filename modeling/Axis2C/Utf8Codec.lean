import Mathlib.Data.List.Flatten
import Mathlib.Tactic

/-!
# The incremental UTF-8 decoder and encoder of guththila

Both sides are state machines that may be interrupted after any byte. The
decoder keeps the number of continuation bytes still owed and the bytes of the
character so far; the encoder keeps the number of bytes still to be written.
Code points and counters are natural numbers: no branch makes one negative.
-/
namespace Axis2C.Guththila

/-- `guththila_utf8_decoder_t`. The two four-byte arrays are adjacent in the
structure and `used_bytes` is not reset when a character completes, so they are
kept as one block of eight cells: `used_buffer` first, `error_buffer` after it. -/
structure Decoder where
  remainingBytes : ℕ
  usedBytes : ℕ
  errorBytes : ℕ
  buffers : List UInt8
  codePoint : ℕ
  replacementCodePoint : ℕ
  deriving Repr, DecidableEq

def utf8DecoderCreate : Decoder :=
  ⟨0, 0, 0, List.replicate 8 0, 0, 0x3F⟩

def utf8DecoderClear (d : Decoder) : Decoder :=
  { d with
    remainingBytes := 0
    usedBytes := 0
    errorBytes := 0
    buffers := (d.buffers.set 0 0).set 4 0
    codePoint := 0 }

/-- `GUTHTHILA_UTF8_DECODER_IS_ERROR`. -/
def Decoder.isError (d : Decoder) : Bool := 0 < d.errorBytes

/-- `GUTHTHILA_UTF8_DECODER_IS_CODE_POINT`. -/
def Decoder.isCodePoint (d : Decoder) : Bool := d.remainingBytes = 0 ∧ 0 < d.usedBytes

/-- Report the first `n` stored bytes as bad: `memcpy(error_buffer, used_buffer, n)`. -/
def Decoder.reportError (d : Decoder) (n : ℕ) : Decoder :=
  { d with errorBytes := n, buffers := d.buffers.take 4 ++ d.buffers.take n ++ d.buffers.drop (4 + n) }

/-- The common tail of the branches in which the character is lost. -/
def Decoder.replace (d : Decoder) : Decoder :=
  { d with codePoint := d.replacementCodePoint, usedBytes := 0, remainingBytes := 0 }

/-- A lead byte. Bytes still pending before it are bad, this one may be good. -/
def Decoder.lead (d : Decoder) (value owed : ℕ) : Decoder :=
  { (if 0 < d.remainingBytes then d.reportError d.usedBytes else d) with
    codePoint := value, usedBytes := 1, remainingBytes := owed }

/-- The number of bytes the shortest form of a code point takes. -/
def shortestForm (codePoint : ℕ) : ℕ :=
  if codePoint ≤ 0x7F then 1
  else if codePoint ≤ 0x7FF then 2
  else if codePoint ≤ 0xFFFF then 3
  else 4

/-- The last continuation byte has been read: reject overlong forms and code
points Unicode does not define. The latter branch of the source copies no bytes. -/
def Decoder.finish (d : Decoder) : Decoder :=
  if d.codePoint ≤ 0x10FFFF then
    if d.usedBytes ≠ shortestForm d.codePoint then (d.reportError d.usedBytes).replace else d
  else { d with errorBytes := d.usedBytes }.replace

/-- A continuation byte `10xx xxxx`. -/
def Decoder.followOn (d : Decoder) (inbyte : ℕ) : Decoder :=
  if 0 < d.remainingBytes then
    let d' : Decoder := { d with
      codePoint := (d.codePoint <<< 6) ||| (inbyte &&& 0x3F)
      usedBytes := d.usedBytes + 1
      remainingBytes := d.remainingBytes - 1 }
    if d'.remainingBytes = 0 then d'.finish else d'
  else (d.reportError 1).replace

/-- The state change of `guththila_utf8_decoder_decode`. -/
def Decoder.store (d : Decoder) (inchar : UInt8) : Decoder :=
  let d := { d with errorBytes := 0, buffers := d.buffers.set d.usedBytes inchar }
  let inbyte := inchar.toNat
  if inbyte < 0x80 then d.lead inbyte 0
  else if inbyte < 0xC0 then d.followOn inbyte
  else if inbyte < 0xC2 then (d.reportError (d.usedBytes + 1)).replace
  else if inbyte < 0xE0 then d.lead (inbyte &&& 0x1F) 1
  else if inbyte < 0xF0 then d.lead (inbyte &&& 0x0F) 2
  else if inbyte < 0xF5 then d.lead (inbyte &&& 0x07) 3
  else (d.reportError (d.usedBytes + 1)).replace

structure DecodeResult where
  /-- The return value: no continuation byte is owed. -/
  done : Bool
  /-- What is stored through the `code_point` argument, if anything is. -/
  codePoint : Option ℕ
  decoder : Decoder
  deriving Repr, DecidableEq

def utf8DecoderDecode (d : Decoder) (inchar : UInt8) : DecodeResult :=
  let d := d.store inchar
  { done := d.remainingBytes = 0
    codePoint := if d.isCodePoint then some d.codePoint else none
    decoder := d }

structure Encoder where
  remainingBytes : ℕ
  isError : Bool
  deriving Repr, DecidableEq

def utf8EncoderCreate : Encoder := ⟨0, false⟩

/-- The bytes written so far by one call, the space left and the bytes owed. -/
structure EncodeCall where
  remainingBytes : ℕ
  bufferLength : ℕ
  out : List UInt8
  deriving Repr, DecidableEq

/-- `*buffer = b; buffer++; (*buffer_length)--; remaining_bytes--`. -/
def EncodeCall.put (s : EncodeCall) (b : ℕ) : EncodeCall :=
  ⟨s.remainingBytes - 1, s.bufferLength - 1, s.out ++ [UInt8.ofNat b]⟩

/-- The nested `if (*buffer_length >= 1)` blocks: each byte but the last is
written only while as many bytes are owed as follow it, itself included. -/
def EncodeCall.putAll (s : EncodeCall) : List ℕ → EncodeCall
  | [] => s
  | b :: bs =>
    if 1 ≤ s.bufferLength then
      (if bs = [] ∨ bs.length + 1 ≤ s.remainingBytes then s.put b else s).putAll bs
    else s

structure EncodeResult where
  done : Bool
  out : List UInt8
  encoder : Encoder
  deriving Repr, DecidableEq

/-- The expressions of the four branches, first byte first. -/
def encodedForm (codePoint : ℕ) : List ℕ :=
  if codePoint ≤ 0x7F then [codePoint]
  else if codePoint ≤ 0x7FF then [0xC0 ||| (codePoint >>> 6), 0x80 ||| (codePoint &&& 0x3F)]
  else if codePoint ≤ 0xFFFF then
    [0xE0 ||| (codePoint >>> 12), 0x80 ||| ((codePoint >>> 6) &&& 0x3F),
      0x80 ||| (codePoint &&& 0x3F)]
  else
    [0xF0 ||| (codePoint >>> 18), 0x80 ||| ((codePoint >>> 12) &&& 0x3F),
      0x80 ||| ((codePoint >>> 6) &&& 0x3F), 0x80 ||| (codePoint &&& 0x3F)]

def utf8EncoderEncode (e : Encoder) (codePoint bufferLength : ℕ) : EncodeResult :=
  if codePoint ≤ 0x10FFFF then
    let form := encodedForm codePoint
    let owed := if e.remainingBytes = 0 then form.length else e.remainingBytes
    let s := (EncodeCall.mk owed bufferLength []).putAll form
    ⟨s.remainingBytes = 0, s.out, ⟨s.remainingBytes, false⟩⟩
  else ⟨true, [], ⟨0, true⟩⟩

/-! ### Whole streams -/

/-- What a caller sees while feeding a byte sequence: the code points stored,
whether some call reported bytes in error, and the decoder at the end. -/
structure Feed where
  emitted : List ℕ
  error : Bool
  decoder : Decoder
  deriving Repr, DecidableEq

def decodeAll : Decoder → List UInt8 → Feed
  | d, [] => ⟨[], false, d⟩
  | d, b :: bs =>
    let r := utf8DecoderDecode d b
    let f := decodeAll r.decoder bs
    ⟨r.codePoint.toList ++ f.emitted, r.decoder.isError || f.error, f.decoder⟩

/-- No byte in error and no continuation byte owed at the end. -/
def Feed.clean (f : Feed) : Prop := f.error = false ∧ f.decoder.remainingBytes = 0

/-- The bytes the encoder produces for one code point when it has room for them. -/
def utf8Encoding (codePoint : ℕ) : List UInt8 :=
  (utf8EncoderEncode utf8EncoderCreate codePoint 4).out

def encodeAll (codePoints : List ℕ) : List UInt8 := codePoints.flatMap utf8Encoding

/-- Repeated calls for one code point with output buffers of the given sizes,
up to the call that reports completion. -/
def encodeSplit (e : Encoder) (codePoint : ℕ) : List ℕ → Bool × List UInt8
  | [] => (false, [])
  | n :: ns =>
    let r := utf8EncoderEncode e codePoint n
    if r.done then (true, r.out)
    else
      let rest := encodeSplit r.encoder codePoint ns
      (rest.1, r.out ++ rest.2)

/-! ### Bit patterns as arithmetic -/

lemma or_low {k : ℕ} (a : ℕ) {b : ℕ} (h : b < 2 ^ k) : 2 ^ k * a ||| b = 2 ^ k * a + b :=
  (Nat.two_pow_add_eq_or_of_lt h a).symm

lemma low_six (b : ℕ) : b &&& 0x3F = b % 64 := Nat.and_two_pow_sub_one_eq_mod b 6

lemma followOn_value (c b : ℕ) : (c <<< 6) ||| (b &&& 0x3F) = 64 * c + b % 64 := by
  have hlt : b % 64 < 2 ^ 6 := Nat.mod_lt b (by norm_num)
  rw [low_six, Nat.shiftLeft_eq, Nat.mul_comm]
  exact or_low c hlt

lemma continuation_value (c : ℕ) : 0x80 ||| (c &&& 0x3F) = 0x80 + c % 64 := by
  rw [low_six]
  exact or_low (k := 6) 2 (by omega)

lemma encodedForm_one {c : ℕ} (h : c ≤ 0x7F) : encodedForm c = [c] := by
  simp [encodedForm, h]

lemma encodedForm_two {c : ℕ} (h1 : 0x7F < c) (h2 : c ≤ 0x7FF) :
    encodedForm c = [0xC0 + c / 64, 0x80 + c % 64] := by
  have hlead : 0xC0 ||| (c >>> 6) = 0xC0 + c / 64 := by
    rw [Nat.shiftRight_eq_div_pow]
    exact or_low (k := 5) 6 (by omega)
  simp [encodedForm, Nat.not_le.mpr h1, h2, hlead, continuation_value]

lemma encodedForm_three {c : ℕ} (h1 : 0x7FF < c) (h2 : c ≤ 0xFFFF) :
    encodedForm c = [0xE0 + c / 4096, 0x80 + c / 64 % 64, 0x80 + c % 64] := by
  have hlead : 0xE0 ||| (c / 4096) = 0xE0 + c / 4096 := or_low (k := 4) 14 (by omega)
  simp [encodedForm, show ¬ c ≤ 0x7F by omega, Nat.not_le.mpr h1, h2, hlead,
    continuation_value, Nat.shiftRight_eq_div_pow]

lemma encodedForm_four {c : ℕ} (h1 : 0xFFFF < c) (h2 : c ≤ 0x10FFFF) :
    encodedForm c =
      [0xF0 + c / 262144, 0x80 + c / 4096 % 64, 0x80 + c / 64 % 64, 0x80 + c % 64] := by
  have hlead : 0xF0 ||| (c / 262144) = 0xF0 + c / 262144 := or_low (k := 3) 30 (by omega)
  simp [encodedForm, show ¬ c ≤ 0x7F by omega, show ¬ c ≤ 0x7FF by omega, Nat.not_le.mpr h1,
    hlead, continuation_value, Nat.shiftRight_eq_div_pow]

lemma encodedForm_length_pos (c : ℕ) : 0 < (encodedForm c).length := by
  simp only [encodedForm]
  split_ifs <;> simp

lemma encodedForm_length_le (c : ℕ) : (encodedForm c).length ≤ 4 := by
  simp only [encodedForm]
  split_ifs <;> simp

/-! ### The encoder -/

/-- With `done` bytes of the form already written and the rest owed, one call
writes exactly the next bytes that fit. -/
lemma putAll_suffix (form : List ℕ) (owed : ℕ) (s : EncodeCall)
    (hpos : 0 < s.remainingBytes) (howed : s.remainingBytes = owed)
    (hle : owed ≤ form.length) :
    s.putAll form =
      ⟨owed - s.bufferLength, s.bufferLength - owed,
        s.out ++ ((form.drop (form.length - owed)).take s.bufferLength).map UInt8.ofNat⟩ := by
  induction form generalizing owed s with
  | nil => simp only [List.length_nil] at hle; omega
  | cons b bs ih =>
    by_cases hbuf : 1 ≤ s.bufferLength
    · by_cases hlast : bs = []
      · subst hlast
        have h1 : owed = 1 := by simp only [List.length_cons, List.length_nil] at hle; omega
        subst h1
        obtain ⟨r, l, o⟩ := s
        obtain ⟨l, rfl⟩ := Nat.exists_eq_add_of_le' hbuf
        simp_all [EncodeCall.putAll, EncodeCall.put]
      · by_cases hfull : bs.length + 1 ≤ owed
        · have howed' : owed = bs.length + 1 := by simp only [List.length_cons] at hle; omega
          have hbs : 0 < bs.length := List.length_pos_iff.mpr hlast
          have hstep : s.putAll (b :: bs) = (s.put b).putAll bs := by
            simp [EncodeCall.putAll, hbuf, howed, hfull]
          rw [hstep, ih (owed - 1) (s.put b) (by simp [EncodeCall.put]; omega)
            (by simp [EncodeCall.put]; omega) (by omega)]
          obtain ⟨r, l, o⟩ := s
          obtain ⟨l, rfl⟩ := Nat.exists_eq_add_of_le' hbuf
          subst howed'
          simp [EncodeCall.put]
        · have hstep : s.putAll (b :: bs) = s.putAll bs := by
            simp [EncodeCall.putAll, hbuf, howed, hfull, hlast]
          rw [hstep, ih owed s hpos howed (by omega)]
          have hdrop : bs.length + 1 - owed = bs.length - owed + 1 := by omega
          rw [List.length_cons, hdrop, List.drop_succ_cons]
    · have h0 : s.bufferLength = 0 := by omega
      obtain ⟨r, l, o⟩ := s
      simp_all [EncodeCall.putAll]

lemma utf8EncoderEncode_owed {e : Encoder} {c : ℕ} (hc : c ≤ 0x10FFFF) {owed : ℕ}
    (howed : (if e.remainingBytes = 0 then (encodedForm c).length else e.remainingBytes) = owed)
    (hle : owed ≤ (encodedForm c).length) (n : ℕ) :
    utf8EncoderEncode e c n =
      ⟨owed - n = 0, (((encodedForm c).drop ((encodedForm c).length - owed)).take n).map UInt8.ofNat,
        ⟨owed - n, false⟩⟩ := by
  have hpos : 0 < owed := by
    have := encodedForm_length_pos c
    split_ifs at howed <;> omega
  simp [utf8EncoderEncode, hc, howed, putAll_suffix _ owed ⟨owed, n, []⟩ hpos rfl hle]

theorem utf8Encoding_eq {c : ℕ} (hc : c ≤ 0x10FFFF) :
    utf8Encoding c = (encodedForm c).map UInt8.ofNat := by
  have h := utf8EncoderEncode_owed (e := utf8EncoderCreate) hc rfl
    (by simp [utf8EncoderCreate]) 4
  rw [utf8Encoding, h]
  simp [utf8EncoderCreate, List.take_of_length_le (encodedForm_length_le c)]

/-- An interrupted encoding continues where it stopped: with `owed` bytes left,
the calls produce the last `owed` bytes as far as the buffers reach. -/
lemma encodeSplit_owed {c : ℕ} (hc : c ≤ 0x10FFFF) (sizes : List ℕ) (e : Encoder) (owed : ℕ)
    (howed : (if e.remainingBytes = 0 then (encodedForm c).length else e.remainingBytes) = owed)
    (hle : owed ≤ (encodedForm c).length) :
    encodeSplit e c sizes =
      (decide (0 < owed ∧ owed ≤ sizes.sum),
        (((encodedForm c).drop ((encodedForm c).length - owed)).take sizes.sum).map UInt8.ofNat) := by
  have hpos : 0 < owed := by
    have := encodedForm_length_pos c
    split_ifs at howed <;> omega
  induction sizes generalizing e owed with
  | nil => simp [encodeSplit, hpos.ne']
  | cons n ns ih =>
    have hcall := utf8EncoderEncode_owed hc howed hle n
    by_cases hdone : owed ≤ n
    · have hlen : ((encodedForm c).drop ((encodedForm c).length - owed)).length ≤ n := by
        rw [List.length_drop]; omega
      have hlen' : ((encodedForm c).drop ((encodedForm c).length - owed)).length ≤ n + ns.sum := by
        omega
      simp only [encodeSplit, hcall, List.sum_cons, List.take_of_length_le hlen,
        List.take_of_length_le hlen']
      simp [Nat.sub_eq_zero_of_le hdone, hpos, show owed ≤ n + ns.sum by omega]
    · have hrest := ih ⟨owed - n, false⟩ (owed - n) (by simp; omega) (by omega) (by omega)
      have hdrop : (encodedForm c).length - (owed - n) = (encodedForm c).length - owed + n := by
        omega
      have hne : ¬ owed - n = 0 := by omega
      simp only [encodeSplit, hcall, hrest, hne, decide_false, Bool.false_eq_true, if_false,
        List.sum_cons]
      refine Prod.ext ?_ ?_
      · exact decide_eq_decide.mpr (by omega)
      · rw [← List.map_append, hdrop, ← List.drop_drop, ← List.take_add]

/-! ### The decoder -/

/-- Between characters a lead byte is taken without complaint. -/
lemma lead_ready {d : Decoder} (hd : d.remainingBytes = 0) (he : d.errorBytes = 0)
    (value owed : ℕ) :
    (d.lead value owed).remainingBytes = owed ∧ (d.lead value owed).usedBytes = 1 ∧
      (d.lead value owed).codePoint = value ∧ (d.lead value owed).errorBytes = 0 := by
  simp [Decoder.lead, hd, he]

/-- Inside a character a lead byte is an error. -/
lemma lead_pending {d : Decoder} (hd : 0 < d.remainingBytes) (hu : 0 < d.usedBytes)
    (value owed : ℕ) : 0 < (d.lead value owed).errorBytes := by
  simpa [Decoder.lead, hd, Decoder.reportError] using hu

section

variable {d : Decoder} {b : UInt8} (h1 : 0x80 ≤ b.toNat) (h2 : b.toNat < 0xC0)

include h1 h2

/-- A continuation byte that does not complete the character. -/
lemma store_followOn (hd : 2 ≤ d.remainingBytes) :
    (d.store b).remainingBytes = d.remainingBytes - 1 ∧
      (d.store b).usedBytes = d.usedBytes + 1 ∧
      (d.store b).codePoint = 64 * d.codePoint + b.toNat % 64 ∧ (d.store b).errorBytes = 0 := by
  simp [Decoder.store, Nat.not_lt.mpr h1, h2, Decoder.followOn, show 0 < d.remainingBytes by omega,
    show d.remainingBytes - 1 ≠ 0 by omega, followOn_value]

/-- The byte that completes a character in its shortest form. -/
lemma store_last (hd : d.remainingBytes = 1) {c : ℕ} (hc : 64 * d.codePoint + b.toNat % 64 = c)
    (hmax : c ≤ 0x10FFFF) (hform : d.usedBytes + 1 = shortestForm c) :
    (d.store b).remainingBytes = 0 ∧ 0 < (d.store b).usedBytes ∧
      (d.store b).codePoint = c ∧ (d.store b).errorBytes = 0 := by
  simp [Decoder.store, Nat.not_lt.mpr h1, h2, Decoder.followOn, hd, followOn_value, hc,
    Decoder.finish, hmax, hform]
  rw [← hform]; omega

/-- A continuation byte that completes an overlong or undefined character. -/
lemma store_last_bad (hd : d.remainingBytes = 1) {c : ℕ} (hc : 64 * d.codePoint + b.toNat % 64 = c)
    (hbad : ¬ (c ≤ 0x10FFFF ∧ d.usedBytes + 1 = shortestForm c)) : 0 < (d.store b).errorBytes := by
  simp only [Decoder.store, Nat.not_lt.mpr h1, h2, Decoder.followOn, hd, followOn_value, hc,
    Decoder.finish, if_true, if_false, Nat.sub_self, Nat.lt_one_iff]
  by_cases hmax : c ≤ 0x10FFFF
  · have hform : d.usedBytes + 1 ≠ shortestForm c := fun h => hbad ⟨hmax, h⟩
    simp [hmax, hform, Decoder.reportError, Decoder.replace]
  · simp [hmax, Decoder.replace]

end

/-- Anything but a continuation byte inside a character is an error. -/
lemma store_not_followOn {d : Decoder} {b : UInt8} (hb : ¬ (0x80 ≤ b.toNat ∧ b.toNat < 0xC0))
    (hd : 0 < d.remainingBytes) (hu : 0 < d.usedBytes) : 0 < (d.store b).errorBytes := by
  simp only [Decoder.store]
  split_ifs
  · exact lead_pending (by exact hd) (by exact hu) _ _
  · omega
  · simp [Decoder.reportError, Decoder.replace]
  · exact lead_pending (by exact hd) (by exact hu) _ _
  · exact lead_pending (by exact hd) (by exact hu) _ _
  · exact lead_pending (by exact hd) (by exact hu) _ _
  · simp [Decoder.reportError, Decoder.replace]

lemma store_ready_ascii {d : Decoder} {b : UInt8} (hd : d.remainingBytes = 0)
    (hb : b.toNat < 0x80) :
    (d.store b).remainingBytes = 0 ∧ (d.store b).usedBytes = 1 ∧
      (d.store b).codePoint = b.toNat ∧ (d.store b).errorBytes = 0 := by
  simp only [Decoder.store, hb, if_true]
  exact lead_ready (by exact hd) rfl _ _

/-- A lead byte of a character of `n + 1` bytes with the given payload bits. -/
def LeadByte (b : UInt8) (n value : ℕ) : Prop :=
  n = 1 ∧ 0xC2 ≤ b.toNat ∧ b.toNat = 0xC0 + value ∧ value < 32 ∨
    n = 2 ∧ b.toNat = 0xE0 + value ∧ value < 16 ∨
    n = 3 ∧ b.toNat = 0xF0 + value ∧ value < 5

lemma store_ready_lead {d : Decoder} {b : UInt8} (hd : d.remainingBytes = 0) {n value : ℕ}
    (hb : LeadByte b n value) :
    (d.store b).remainingBytes = n ∧ (d.store b).usedBytes = 1 ∧
      (d.store b).codePoint = value ∧ (d.store b).errorBytes = 0 := by
  have hlow5 : b.toNat &&& 0x1F = b.toNat % 32 := Nat.and_two_pow_sub_one_eq_mod _ 5
  have hlow4 : b.toNat &&& 0x0F = b.toNat % 16 := Nat.and_two_pow_sub_one_eq_mod _ 4
  have hlow3 : b.toNat &&& 0x07 = b.toNat % 8 := Nat.and_two_pow_sub_one_eq_mod _ 3
  simp only [Decoder.store, hlow5, hlow4, hlow3]
  obtain ⟨rfl, h1, h2, h3⟩ | ⟨rfl, h2, h3⟩ | ⟨rfl, h2, h3⟩ := hb
  · rw [if_neg (by omega), if_neg (by omega), if_neg (by omega), if_pos (by omega),
      show b.toNat % 32 = value by omega]
    exact lead_ready (by exact hd) rfl _ _
  · rw [if_neg (by omega), if_neg (by omega), if_neg (by omega), if_neg (by omega),
      if_pos (by omega), show b.toNat % 16 = value by omega]
    exact lead_ready (by exact hd) rfl _ _
  · rw [if_neg (by omega), if_neg (by omega), if_neg (by omega), if_neg (by omega),
      if_neg (by omega), if_pos (by omega), show b.toNat % 8 = value by omega]
    exact lead_ready (by exact hd) rfl _ _

/-- Between characters only the lead bytes above are not in error. -/
lemma store_ready_bad {d : Decoder} {b : UInt8} (hd : d.remainingBytes = 0)
    (hb : 0x80 ≤ b.toNat ∧ b.toNat < 0xC2 ∨ 0xF5 ≤ b.toNat) : 0 < (d.store b).errorBytes := by
  simp only [Decoder.store]
  split_ifs
  · omega
  · simp [Decoder.followOn, hd, Decoder.reportError, Decoder.replace]
  · simp [Decoder.reportError, Decoder.replace]
  · omega
  · omega
  · omega
  · simp [Decoder.reportError, Decoder.replace]

lemma decodeAll_cons (d : Decoder) (b : UInt8) (bs : List UInt8) :
    decodeAll d (b :: bs) =
      ⟨(if (d.store b).isCodePoint then [(d.store b).codePoint] else []) ++
          (decodeAll (d.store b) bs).emitted,
        (d.store b).isError || (decodeAll (d.store b) bs).error,
        (decodeAll (d.store b) bs).decoder⟩ := by
  simp only [decodeAll, utf8DecoderDecode]
  split_ifs <;> simp

lemma clean_cons {d : Decoder} {b : UInt8} {bs : List UInt8} :
    (decodeAll d (b :: bs)).clean ↔
      (d.store b).errorBytes = 0 ∧ (decodeAll (d.store b) bs).clean := by
  simp [decodeAll_cons, Feed.clean, Decoder.isError, and_assoc]

/-- A continuation byte with the given six payload bits. -/
def continuation (k : ℕ) : UInt8 := UInt8.ofNat (0x80 + k)

lemma continuation_toNat {k : ℕ} (hk : k < 64) : (continuation k).toNat = 0x80 + k := by
  simp only [continuation, UInt8.toNat_ofNat']
  omega

lemma eq_continuation {b : UInt8} (h1 : 0x80 ≤ b.toNat) (h2 : b.toNat < 0xC0) :
    b = continuation (b.toNat % 64) := by
  have h : 0x80 + b.toNat % 64 = b.toNat := by omega
  rw [continuation, h, UInt8.ofNat_toNat]

/-- The value after appending the payloads of continuation bytes. -/
def payload (value : ℕ) (ks : List ℕ) : ℕ := ks.foldl (fun c k => 64 * c + k) value

/-- A pending character is completed by exactly its continuation bytes. -/
lemma decodeAll_continuations (ks : List ℕ) (d : Decoder) (hks : ∀ k ∈ ks, k < 64)
    (hlen : d.remainingBytes = ks.length) (hpos : 0 < ks.length)
    (hmax : payload d.codePoint ks ≤ 0x10FFFF)
    (hform : d.usedBytes + ks.length = shortestForm (payload d.codePoint ks)) :
    ∃ d' : Decoder, d'.remainingBytes = 0 ∧ ∀ rest,
      decodeAll d (ks.map continuation ++ rest) =
        ⟨payload d.codePoint ks :: (decodeAll d' rest).emitted, (decodeAll d' rest).error,
          (decodeAll d' rest).decoder⟩ := by
  induction ks generalizing d with
  | nil => simp at hpos
  | cons k ks ih =>
    have hk : k < 64 := hks k (by simp)
    have htn := continuation_toNat hk
    have h1 : 0x80 ≤ (continuation k).toNat := by omega
    have h2 : (continuation k).toNat < 0xC0 := by omega
    have hmod : (continuation k).toNat % 64 = k := by omega
    cases ks with
    | nil =>
      simp only [payload, List.foldl_cons, List.foldl_nil, List.length_cons, List.length_nil]
        at hmax hform hlen ⊢
      obtain ⟨hr, hu, hc, he⟩ := store_last (d := d) h1 h2 hlen (by rw [hmod]) hmax hform
      refine ⟨d.store (continuation k), hr, fun rest => ?_⟩
      simp [decodeAll_cons, Decoder.isCodePoint, Decoder.isError, hr, hu, hc, he]
    | cons k' ks =>
      obtain ⟨hr, hu, hc, he⟩ := store_followOn (d := d) h1 h2
        (by rw [hlen]; simp)
      rw [hmod] at hc
      have hlen' : (d.store (continuation k)).remainingBytes = (k' :: ks).length := by
        rw [hr, hlen]; simp
      have hpay : payload (d.store (continuation k)).codePoint (k' :: ks) =
          payload d.codePoint (k :: k' :: ks) := by rw [hc]; rfl
      obtain ⟨d', hd', hrest⟩ := ih (d.store (continuation k))
        (fun x hx => hks x (by simp [hx])) hlen' (by simp) (by rw [hpay]; exact hmax)
        (by
          rw [hpay, hu, ← hform]
          simp only [List.length_cons]
          omega)
      refine ⟨d', hd', fun rest => ?_⟩
      rw [List.map_cons, List.cons_append, decodeAll_cons, hrest rest, hpay]
      simp [Decoder.isCodePoint, Decoder.isError, he, hlen']

/-- Conversely, a stream that ends clean supplies them and nothing overlong. -/
lemma continuations_of_clean (n : ℕ) (d : Decoder) (bytes : List UInt8)
    (hn : d.remainingBytes = n) (hpos : 0 < n) (hu : 0 < d.usedBytes)
    (hclean : (decodeAll d bytes).clean) :
    ∃ ks rest, ks.length = n ∧ (∀ k ∈ ks, k < 64) ∧ bytes = ks.map continuation ++ rest ∧
      payload d.codePoint ks ≤ 0x10FFFF ∧
      d.usedBytes + n = shortestForm (payload d.codePoint ks) := by
  induction n generalizing d bytes with
  | zero => omega
  | succ n ih =>
    cases bytes with
    | nil =>
      obtain ⟨-, hzero⟩ := hclean
      simp only [decodeAll] at hzero
      omega
    | cons b bs =>
      obtain ⟨herr, hrest⟩ := clean_cons.mp hclean
      by_cases hb : 0x80 ≤ b.toNat ∧ b.toNat < 0xC0
      · obtain ⟨h1, h2⟩ := hb
        have hk : b.toNat % 64 < 64 := Nat.mod_lt _ (by norm_num)
        cases n with
        | zero =>
          by_cases hgood : 64 * d.codePoint + b.toNat % 64 ≤ 0x10FFFF ∧
              d.usedBytes + 1 = shortestForm (64 * d.codePoint + b.toNat % 64)
          · exact ⟨[b.toNat % 64], bs, rfl, by simpa using hk,
              by simp [← eq_continuation h1 h2], hgood.1, hgood.2⟩
          · have := store_last_bad h1 h2 hn rfl hgood
            omega
        | succ n =>
          obtain ⟨hr, hused, hc, -⟩ := store_followOn (d := d) h1 h2 (by omega)
          obtain ⟨ks, rest, hlen, hks, hbs, hmax, hform⟩ :=
            ih (d.store b) bs (by omega) (by omega) (by omega) hrest
          refine ⟨b.toNat % 64 :: ks, rest, by simp [hlen], by simpa using ⟨hk, hks⟩, ?_, ?_, ?_⟩
          · simp [← eq_continuation h1 h2, hbs]
          · simpa [payload, hc] using hmax
          · rw [hc, hused] at hform
            simp only [payload, List.foldl_cons] at hform ⊢
            omega
      · have := store_not_followOn hb (by omega) hu
        omega

lemma shortestForm_cases (c n : ℕ) (h : n = shortestForm c) :
    n = 1 ∧ c ≤ 0x7F ∨ n = 2 ∧ 0x7F < c ∧ c ≤ 0x7FF ∨ n = 3 ∧ 0x7FF < c ∧ c ≤ 0xFFFF ∨
      n = 4 ∧ 0xFFFF < c := by
  simp only [shortestForm] at h
  split_ifs at h <;> omega

lemma utf8Encoding_lead {c : ℕ} (h1 : 0x7F < c) (h2 : c ≤ 0x10FFFF) :
    ∃ b n value ks, LeadByte b n value ∧ ks.length = n ∧ (∀ k ∈ ks, k < 64) ∧
      payload value ks = c ∧ 1 + n = shortestForm c ∧
      utf8Encoding c = b :: ks.map continuation := by
  have hmod : ∀ x : ℕ, x % 64 < 64 := fun x => Nat.mod_lt x (by norm_num)
  rw [utf8Encoding_eq h2]
  by_cases h7 : c ≤ 0x7FF
  · refine ⟨UInt8.ofNat (0xC0 + c / 64), 1, c / 64, [c % 64], .inl ?_, rfl, by simp [hmod],
      ?_, by simp [shortestForm, Nat.not_le.mpr h1, h7], by simp [encodedForm_two h1 h7, continuation]⟩
    · have htn : (UInt8.ofNat (0xC0 + c / 64)).toNat = 0xC0 + c / 64 := by
        rw [UInt8.toNat_ofNat']; omega
      omega
    · simp only [payload, List.foldl_cons, List.foldl_nil]
      omega
  by_cases hF : c ≤ 0xFFFF
  · refine ⟨UInt8.ofNat (0xE0 + c / 4096), 2, c / 4096, [c / 64 % 64, c % 64],
      .inr (.inl ?_), rfl, by simp [hmod], ?_,
      by simp [shortestForm, Nat.not_le.mpr h1, h7, hF],
      by simp [encodedForm_three (Nat.not_le.mp h7) hF, continuation]⟩
    · have htn : (UInt8.ofNat (0xE0 + c / 4096)).toNat = 0xE0 + c / 4096 := by
        rw [UInt8.toNat_ofNat']; omega
      omega
    · simp only [payload, List.foldl_cons, List.foldl_nil]
      omega
  · refine ⟨UInt8.ofNat (0xF0 + c / 262144), 3, c / 262144,
      [c / 4096 % 64, c / 64 % 64, c % 64], .inr (.inr ?_), rfl, by simp [hmod], ?_,
      by simp [shortestForm, Nat.not_le.mpr h1, h7, hF],
      by simp [encodedForm_four (Nat.not_le.mp hF) h2, continuation]⟩
    · have htn : (UInt8.ofNat (0xF0 + c / 262144)).toNat = 0xF0 + c / 262144 := by
        rw [UInt8.toNat_ofNat']; omega
      omega
    · simp only [payload, List.foldl_cons, List.foldl_nil]
      omega

/-- A lead byte with as many continuations as it asks for is an encoding,
unless the form is overlong or the value out of range. -/
lemma utf8Encoding_of_lead {b : UInt8} {n value : ℕ} {ks : List ℕ} (hb : LeadByte b n value)
    (hlen : ks.length = n) (hks : ∀ k ∈ ks, k < 64) (hmax : payload value ks ≤ 0x10FFFF)
    (hform : 1 + n = shortestForm (payload value ks)) :
    utf8Encoding (payload value ks) = b :: ks.map continuation := by
  have hcases := shortestForm_cases _ _ hform
  have hbyte : b = UInt8.ofNat b.toNat := (UInt8.ofNat_toNat).symm
  rw [utf8Encoding_eq hmax]
  obtain ⟨rfl, -, hb, hv⟩ | ⟨rfl, hb, hv⟩ | ⟨rfl, hb, hv⟩ := hb
  · obtain ⟨k, rfl⟩ := List.length_eq_one_iff.mp hlen
    have hk : k < 64 := hks k (by simp)
    simp only [payload, List.foldl_cons, List.foldl_nil] at hcases hmax ⊢
    rw [encodedForm_two (by omega) (by omega), hbyte, hb]
    simp [continuation, show (64 * value + k) / 64 = value by omega,
      show (64 * value + k) % 64 = k by omega]
  · obtain ⟨k, j, rfl⟩ := List.length_eq_two.mp hlen
    have hk : k < 64 := hks k (by simp)
    have hj : j < 64 := hks j (by simp)
    simp only [payload, List.foldl_cons, List.foldl_nil] at hcases hmax ⊢
    rw [encodedForm_three (by omega) (by omega), hbyte, hb]
    simp [continuation, show (64 * (64 * value + k) + j) / 4096 = value by omega,
      show (64 * (64 * value + k) + j) / 64 % 64 = k by omega,
      show (64 * (64 * value + k) + j) % 64 = j by omega]
  · obtain ⟨k, j, i, rfl⟩ := List.length_eq_three.mp hlen
    have hk : k < 64 := hks k (by simp)
    have hj : j < 64 := hks j (by simp)
    have hi : i < 64 := hks i (by simp)
    simp only [payload, List.foldl_cons, List.foldl_nil] at hcases hmax ⊢
    rw [encodedForm_four (by omega) (by omega), hbyte, hb]
    simp [continuation, show (64 * (64 * (64 * value + k) + j) + i) / 262144 = value by omega,
      show (64 * (64 * (64 * value + k) + j) + i) / 4096 % 64 = k by omega,
      show (64 * (64 * (64 * value + k) + j) + i) / 64 % 64 = j by omega,
      show (64 * (64 * (64 * value + k) + j) + i) % 64 = i by omega]

/-- Between characters the decoder turns an encoding back into its code point. -/
lemma decodeAll_encoding {d : Decoder} (hd : d.remainingBytes = 0) {c : ℕ} (hc : c ≤ 0x10FFFF) :
    ∃ d' : Decoder, d'.remainingBytes = 0 ∧ ∀ rest,
      decodeAll d (utf8Encoding c ++ rest) =
        ⟨c :: (decodeAll d' rest).emitted, (decodeAll d' rest).error, (decodeAll d' rest).decoder⟩ := by
  by_cases h1 : c ≤ 0x7F
  · have htn : (UInt8.ofNat c).toNat = c := by simp only [UInt8.toNat_ofNat']; omega
    obtain ⟨hr, hu, hcp, he⟩ := store_ready_ascii (b := UInt8.ofNat c) hd (by omega)
    refine ⟨d.store (UInt8.ofNat c), hr, fun rest => ?_⟩
    rw [utf8Encoding_eq hc, encodedForm_one h1]
    simp [decodeAll_cons, Decoder.isCodePoint, Decoder.isError, hr, hu, hcp, he, htn]
  · obtain ⟨b, n, value, ks, hb, hlen, hks, hpay, hform, henc⟩ :=
      utf8Encoding_lead (Nat.not_le.mp h1) hc
    obtain ⟨hr, hu, hcp, he⟩ := store_ready_lead hd hb
    have hn : 0 < n := by obtain ⟨rfl, -⟩ | ⟨rfl, -⟩ | ⟨rfl, -⟩ := hb <;> omega
    obtain ⟨d', hd', hrest⟩ := decodeAll_continuations ks (d.store b) hks (by omega) (by omega)
      (by rw [hcp, hpay]; exact hc) (by rw [hcp, hpay, hu, hlen]; exact hform)
    refine ⟨d', hd', fun rest => ?_⟩
    rw [henc, List.cons_append, decodeAll_cons, hrest rest, hcp, hpay]
    simp [Decoder.isCodePoint, Decoder.isError, he, hr, hn.ne']

lemma decodeAll_encodeAll (cs : List ℕ) (hcs : ∀ c ∈ cs, c ≤ 0x10FFFF) {d : Decoder}
    (hd : d.remainingBytes = 0) :
    (decodeAll d (encodeAll cs)).clean ∧ (decodeAll d (encodeAll cs)).emitted = cs := by
  induction cs generalizing d with
  | nil => simp [encodeAll, decodeAll, Feed.clean, hd]
  | cons c cs ih =>
    obtain ⟨d', hd', hrest⟩ := decodeAll_encoding hd (hcs c (by simp))
    obtain ⟨hclean, hemit⟩ := ih (fun x hx => hcs x (by simp [hx])) hd'
    have hcons : encodeAll (c :: cs) = utf8Encoding c ++ encodeAll cs := by simp [encodeAll]
    rw [hcons, hrest]
    exact ⟨hclean, by simp [hemit]⟩

lemma exists_encodeAll_of_clean (bytes : List UInt8) (d : Decoder) (hd : d.remainingBytes = 0)
    (hclean : (decodeAll d bytes).clean) :
    ∃ cs, (∀ c ∈ cs, c ≤ 0x10FFFF) ∧ bytes = encodeAll cs := by
  induction hn : bytes.length using Nat.strong_induction_on generalizing bytes d with
  | _ n ih =>
  subst hn
  cases bytes with
  | nil => exact ⟨[], by simp, by simp [encodeAll]⟩
  | cons b bs =>
    obtain ⟨herr, hrest⟩ := clean_cons.mp hclean
    -- the tail after one complete character is clean from a ready decoder again
    have htail : ∀ c rest, c ≤ 0x10FFFF → b :: bs = utf8Encoding c ++ rest →
        rest.length < (b :: bs).length →
        ∃ cs, (∀ c ∈ cs, c ≤ 0x10FFFF) ∧ b :: bs = encodeAll cs := by
      intro c rest hc hsplit hlt
      obtain ⟨d', hd', hdec⟩ := decodeAll_encoding hd hc
      rw [hsplit, hdec rest] at hclean
      obtain ⟨cs, hcs, hbytes⟩ := ih rest.length hlt rest d' hd' hclean rfl
      exact ⟨c :: cs, by simpa using ⟨hc, hcs⟩, by rw [hsplit, hbytes]; simp [encodeAll]⟩
    by_cases hascii : b.toNat < 0x80
    · refine htail b.toNat bs (by omega) ?_ (by simp)
      rw [utf8Encoding_eq (by omega), encodedForm_one (by omega)]
      simp
    by_cases hbad : 0x80 ≤ b.toNat ∧ b.toNat < 0xC2 ∨ 0xF5 ≤ b.toNat
    · have := store_ready_bad hd hbad
      omega
    obtain ⟨n, value, hlead⟩ : ∃ n value, LeadByte b n value := by
      simp only [LeadByte]
      by_cases h2 : b.toNat < 0xE0
      · exact ⟨1, b.toNat - 0xC0, by omega⟩
      by_cases h3 : b.toNat < 0xF0
      · exact ⟨2, b.toNat - 0xE0, by omega⟩
      · exact ⟨3, b.toNat - 0xF0, by omega⟩
    obtain ⟨hr, hu, hcp, -⟩ := store_ready_lead hd hlead
    have hn : 0 < n := by obtain ⟨rfl, -⟩ | ⟨rfl, -⟩ | ⟨rfl, -⟩ := hlead <;> omega
    obtain ⟨ks, rest, hlen, hks, hbs, hmax, hform⟩ :=
      continuations_of_clean n (d.store b) bs hr hn (by omega) hrest
    rw [hcp] at hmax hform
    rw [hu] at hform
    refine htail (payload value ks) rest hmax ?_ (by simp [hbs])
    rw [utf8Encoding_of_lead hlead hlen hks hmax hform, List.cons_append, hbs]

/-- The codec as a whole. A stream fed to a fresh decoder ends clean exactly
when it is a concatenation of encodings, the code points emitted are then the
ones encoded, and cutting the output buffer into pieces never changes a byte. -/
theorem utf8_codec :
    (∀ bytes : List UInt8,
      ((decodeAll utf8DecoderCreate bytes).clean ↔
        ∃ cs, (∀ c ∈ cs, c ≤ 0x10FFFF) ∧ bytes = encodeAll cs) ∧
      ∀ cs, (∀ c ∈ cs, c ≤ 0x10FFFF) → bytes = encodeAll cs →
        (decodeAll utf8DecoderCreate bytes).emitted = cs) ∧
    ∀ c ≤ 0x10FFFF, ∀ sizes : List ℕ,
      encodeSplit utf8EncoderCreate c sizes =
        (decide ((utf8Encoding c).length ≤ sizes.sum), (utf8Encoding c).take sizes.sum) := by
  refine ⟨fun bytes => ⟨⟨?_, ?_⟩, ?_⟩, ?_⟩
  · exact exists_encodeAll_of_clean bytes utf8DecoderCreate rfl
  · rintro ⟨cs, hcs, rfl⟩
    exact (decodeAll_encodeAll cs hcs rfl).1
  · rintro cs hcs rfl
    exact (decodeAll_encodeAll cs hcs rfl).2
  · intro c hc sizes
    have hpos := encodedForm_length_pos c
    rw [encodeSplit_owed hc sizes utf8EncoderCreate (encodedForm c).length rfl le_rfl,
      utf8Encoding_eq hc]
    simp [hpos]

example : decodeAll utf8DecoderCreate [0xE2, 0x82, 0xAC, 0x41] =
    ⟨[0x20AC, 0x41], false, ⟨0, 1, 0, [0xE2, 0x82, 0xAC, 0x41, 0, 0, 0, 0], 0x41, 0x3F⟩⟩ := by
  decide

end Axis2C.Guththila
