import Axis2C.MachineInts

/-!
# Base64

`base64.c`. Lengths are C `int`s: the number of characters to decode is a difference of
pointers converted to one, and the arithmetic on it is that of two's complement.
-/
namespace Axis2C.Base64
open MachineInts

section Tables

/-- `pr2six`. -/
def pr2sixTable : List UInt8 := [
  64, 64, 64, 64, 64, 64, 64, 64, 64, 64, 64, 64, 64, 64, 64, 64,
  64, 64, 64, 64, 64, 64, 64, 64, 64, 64, 64, 64, 64, 64, 64, 64,
  64, 64, 64, 64, 64, 64, 64, 64, 64, 64, 64, 62, 64, 64, 64, 63,
  52, 53, 54, 55, 56, 57, 58, 59, 60, 61, 64, 64, 64, 64, 64, 64,
  64, 0, 1, 2, 3, 4, 5, 6, 7, 8, 9, 10, 11, 12, 13, 14,
  15, 16, 17, 18, 19, 20, 21, 22, 23, 24, 25, 64, 64, 64, 64, 64,
  64, 26, 27, 28, 29, 30, 31, 32, 33, 34, 35, 36, 37, 38, 39, 40,
  41, 42, 43, 44, 45, 46, 47, 48, 49, 50, 51, 64, 64, 64, 64, 64,
  64, 64, 64, 64, 64, 64, 64, 64, 64, 64, 64, 64, 64, 64, 64, 64,
  64, 64, 64, 64, 64, 64, 64, 64, 64, 64, 64, 64, 64, 64, 64, 64,
  64, 64, 64, 64, 64, 64, 64, 64, 64, 64, 64, 64, 64, 64, 64, 64,
  64, 64, 64, 64, 64, 64, 64, 64, 64, 64, 64, 64, 64, 64, 64, 64,
  64, 64, 64, 64, 64, 64, 64, 64, 64, 64, 64, 64, 64, 64, 64, 64,
  64, 64, 64, 64, 64, 64, 64, 64, 64, 64, 64, 64, 64, 64, 64, 64,
  64, 64, 64, 64, 64, 64, 64, 64, 64, 64, 64, 64, 64, 64, 64, 64,
  64, 64, 64, 64, 64, 64, 64, 64, 64, 64, 64, 64, 64, 64, 64, 64]

/-- An entry of `pr2six`; 64 stands for a character that is not in the alphabet. -/
def pr2six (c : UInt8) : UInt8 := pr2sixTable.getD c.toNat 64

/-- `basis_64`. -/
def basis64Text : List UInt8 := [
  65, 66, 67, 68, 69, 70, 71, 72, 73, 74, 75, 76, 77, 78, 79, 80, 81, 82, 83, 84, 85, 86, 87,
  88, 89, 90, 97, 98, 99, 100, 101, 102, 103, 104, 105, 106, 107, 108, 109, 110, 111, 112, 113,
  114, 115, 116, 117, 118, 119, 120, 121, 122, 48, 49, 50, 51, 52, 53, 54, 55, 56, 57, 43, 47]

def basis64 (i : UInt8) : UInt8 := basis64Text.getD i.toNat 0

/-- The value of a character of the alphabet is its place there. -/
lemma pr2six_basis64_ofNat : ∀ i : Fin 64, pr2six (basis64 (UInt8.ofNat i)) = UInt8.ofNat i := by
  decide

lemma pr2six_basis64 {i : UInt8} (h : i < 64) : pr2six (basis64 i) = i := by
  have hi := pr2six_basis64_ofNat ⟨i.toNat, h⟩
  simpa using hi

end Tables

section Encode

/-- The six bits of `basis_64[(string[i] >> 2) & 0x3F]`. -/
def sextet1 (x : UInt8) : UInt8 := (x >>> 2) &&& 0x3F

def sextet2 (x y : UInt8) : UInt8 := ((x &&& 0x3) <<< 4) ||| ((y &&& 0xF0) >>> 4)

def sextet3 (y z : UInt8) : UInt8 := ((y &&& 0xF) <<< 2) ||| ((z &&& 0xC0) >>> 6)

def sextet4 (z : UInt8) : UInt8 := z &&& 0x3F

/-- The characters stored by `axutil_base64_encode_binary` in front of the terminator: the
loop takes three bytes at a time, and one or two may be left. -/
def encodeLoop : List UInt8 → List UInt8
  | x :: y :: z :: string =>
    basis64 (sextet1 x) :: basis64 (sextet2 x y) :: basis64 (sextet3 y z) ::
      basis64 (sextet4 z) :: encodeLoop string
  | [x, y] => [basis64 (sextet1 x), basis64 (sextet2 x y), basis64 ((y &&& 0xF) <<< 2), 61]
  | [x] => [basis64 (sextet1 x), basis64 ((x &&& 0x3) <<< 4), 61, 61]
  | [] => []

/-- `axutil_base64_encode_binary`: what is stored in `encoded`, and `p - encoded`. -/
def encodeBinary (string : List UInt8) : List UInt8 × ℤ :=
  let encoded := encodeLoop string ++ [0]
  (encoded, int32 encoded.length)

/-- `axutil_base64_encode_len`. -/
def encodeLen (len : ℤ) : ℤ := int32 (int32 ((int32 (len + 2)).tdiv 3 * 4) + 1)

end Encode

section Decode

/-- The number of characters of the alphabet in front, as the scan counts it. -/
def nprbytes (bufcoded : List UInt8) : ℤ :=
  int32 (int32 ((bufcoded.takeWhile fun c => pr2six c ≤ 63).length + 1) - 1)

/-- `axutil_base64_decode_len`. On an `int` in two's complement `>> 2` is the quotient
rounded down and `& 0x03` the remainder. -/
def decodeLen : Option (List UInt8) → ℤ
  | none => -1
  | some bufcoded =>
    let n := nprbytes bufcoded
    let nbytesdecoded := n / 4 * 3
    if n % 4 ≠ 0 then nbytesdecoded + (n % 4 - 1) else nbytesdecoded

def octet1 (a b : UInt8) : UInt8 := pr2six a <<< 2 ||| pr2six b >>> 4

def octet2 (b c : UInt8) : UInt8 := pr2six b <<< 4 ||| pr2six c >>> 2

def octet3 (c d : UInt8) : UInt8 := pr2six c <<< 6 ||| pr2six d

/-- What the loop has written, and where and with which count it stops. -/
structure Decoding where
  bufout : List UInt8
  bufin : List UInt8
  nprbytes : ℤ

/-- The loop of `axutil_base64_decode_binary`, which stops with four characters at most. -/
def decodeLoop : List UInt8 → ℤ → Decoding
  | a :: b :: c :: d :: bufin, n =>
    if 4 < n then
      let rest := decodeLoop bufin (n - 4)
      { rest with bufout := octet1 a b :: octet2 b c :: octet3 c d :: rest.bufout }
    else ⟨[], a :: b :: c :: d :: bufin, n⟩
  | bufin, n => ⟨[], bufin, n⟩

/-- The bytes of the last four characters or fewer. -/
def decodeRest (bufin : List UInt8) (n : ℤ) : List UInt8 :=
  (if 1 < n then [octet1 (bufin.getD 0 0) (bufin.getD 1 0)] else []) ++
    ((if 2 < n then [octet2 (bufin.getD 1 0) (bufin.getD 2 0)] else []) ++
      (if 3 < n then [octet3 (bufin.getD 2 0) (bufin.getD 3 0)] else []))

/-- `axutil_base64_decode_binary`: the bytes stored in `bufplain`, and the value returned. -/
def decodeBinary : Option (List UInt8) → List UInt8 × ℤ
  | none => ([], -1)
  | some bufcoded =>
    let n := nprbytes bufcoded
    let nbytesdecoded := (int32 (n + 3)).tdiv 4 * 3
    let loop := decodeLoop bufcoded n
    (loop.bufout ++ decodeRest loop.bufin loop.nprbytes,
      nbytesdecoded - (4 - loop.nprbytes) % 4)

end Decode

section Bits

lemma or_lt_64 {v w : UInt8} (hv : v < 64) (hw : w < 64) : v ||| w < 64 := by
  rw [UInt8.lt_iff_toNat_lt] at *
  rw [UInt8.toNat_or]
  exact Nat.or_lt_two_pow (n := 6) hv hw

lemma sextet1_lt (x : UInt8) : sextet1 x < 64 := by
  rw [UInt8.lt_iff_toNat_lt, sextet1, UInt8.toNat_and]
  exact Nat.lt_succ_of_le Nat.and_le_right

lemma sextet4_lt (z : UInt8) : sextet4 z < 64 := by
  rw [UInt8.lt_iff_toNat_lt, sextet4, UInt8.toNat_and]
  exact Nat.lt_succ_of_le Nat.and_le_right

lemma sextet2_lt (x y : UInt8) : sextet2 x y < 64 := by
  refine or_lt_64 ?_ ?_
  · rw [UInt8.lt_iff_toNat_lt]
    have hlow : x.toNat &&& 3 ≤ 3 := Nat.and_le_right
    simp [Nat.shiftLeft_eq]
    omega
  · rw [UInt8.lt_iff_toNat_lt]
    have hlow : y.toNat &&& 240 ≤ 240 := Nat.and_le_right
    simp [Nat.shiftRight_eq_div_pow]
    omega

lemma sextet3_lt (y z : UInt8) : sextet3 y z < 64 := by
  refine or_lt_64 ?_ ?_
  · rw [UInt8.lt_iff_toNat_lt]
    have hlow : y.toNat &&& 15 ≤ 15 := Nat.and_le_right
    simp [Nat.shiftLeft_eq]
    omega
  · rw [UInt8.lt_iff_toNat_lt]
    have hlow : z.toNat &&& 192 ≤ 192 := Nat.and_le_right
    simp [Nat.shiftRight_eq_div_pow]
    omega

lemma octet1_sextets (x y : UInt8) : octet1 (basis64 (sextet1 x)) (basis64 (sextet2 x y)) = x := by
  rw [octet1, pr2six_basis64 (sextet1_lt x), pr2six_basis64 (sextet2_lt x y)]
  apply UInt8.eq_of_toBitVec_eq
  ext i hi
  simp [sextet1, sextet2]
  interval_cases i <;> simp

lemma octet2_sextets (x y z : UInt8) :
    octet2 (basis64 (sextet2 x y)) (basis64 (sextet3 y z)) = y := by
  rw [octet2, pr2six_basis64 (sextet2_lt x y), pr2six_basis64 (sextet3_lt y z)]
  apply UInt8.eq_of_toBitVec_eq
  ext i hi
  simp [sextet2, sextet3]
  interval_cases i <;> simp

lemma octet3_sextets (y z : UInt8) : octet3 (basis64 (sextet3 y z)) (basis64 (sextet4 z)) = z := by
  rw [octet3, pr2six_basis64 (sextet3_lt y z), pr2six_basis64 (sextet4_lt z)]
  apply UInt8.eq_of_toBitVec_eq
  ext i hi
  simp [sextet3, sextet4]
  interval_cases i <;> simp

end Bits

section Lengths

/-- The number of characters of the alphabet in front. -/
def letters (s : List UInt8) : ℕ := (s.takeWhile fun c => pr2six c ≤ 63).length

lemma letters_le (s : List UInt8) : letters s ≤ s.length := (List.takeWhile_prefix _).length_le

lemma nprbytes_eq (s : List UInt8) : nprbytes s = int32 (letters s) := by
  unfold nprbytes letters
  rw [int32_sub, add_sub_cancel_right]

/-- The bytes that are written for `n` characters. -/
def decoded (s : List UInt8) (n : ℤ) : List UInt8 :=
  (decodeLoop s n).bufout ++ decodeRest (decodeLoop s n).bufin (decodeLoop s n).nprbytes

lemma decodeLoop_stop (s : List UInt8) {n : ℤ} (h : n ≤ 4) : decodeLoop s n = ⟨[], s, n⟩ := by
  unfold decodeLoop
  split
  · rw [if_neg (not_lt.mpr h)]
  · rfl

lemma decoded_stop (s : List UInt8) {n : ℤ} (h : n ≤ 4) : decoded s n = decodeRest s n := by
  rw [decoded, decodeLoop_stop s h, List.nil_append]

lemma decodeLoop_step (a b c d : UInt8) (s : List UInt8) {n : ℤ} (h : 4 < n) :
    decodeLoop (a :: b :: c :: d :: s) n =
      { decodeLoop s (n - 4) with
        bufout := octet1 a b :: octet2 b c :: octet3 c d :: (decodeLoop s (n - 4)).bufout } := by
  rw [decodeLoop, if_pos h]

lemma decoded_step (a b c d : UInt8) (s : List UInt8) {n : ℤ} (h : 4 < n) :
    decoded (a :: b :: c :: d :: s) n =
      octet1 a b :: octet2 b c :: octet3 c d :: decoded s (n - 4) := by
  rw [decoded, decodeLoop_step a b c d s h, decoded]
  rfl

/-- The number of bytes in `n` characters. -/
def plainLength (n : ℤ) : ℤ := if n % 4 ≠ 0 then n / 4 * 3 + (n % 4 - 1) else n / 4 * 3

lemma decodeLen_eq (s : List UInt8) : decodeLen (some s) = plainLength (nprbytes s) := rfl

lemma plainLength_sub {n : ℤ} : plainLength (n - 4) = plainLength n - 3 := by
  unfold plainLength
  split <;> split <;> omega

/-- As many bytes are written as there are in the characters, and the count that is left
over has the same remainder. -/
lemma decoded_length (s : List UInt8) {n : ℤ} (hpos : 0 ≤ n) (hle : n ≤ s.length) :
    ((decoded s n).length : ℤ) = plainLength n ∧
      (4 - (decodeLoop s n).nprbytes) % 4 = (4 - n) % 4 := by
  by_cases hstop : n ≤ 4
  · rw [decoded_stop s hstop, decodeLoop_stop s hstop]
    refine ⟨?_, rfl⟩
    unfold decodeRest plainLength
    interval_cases n <;> simp
  · match s, hle with
    | a :: b :: c :: d :: s, hle =>
      have hlt : 4 < n := by omega
      simp only [List.length_cons] at hle
      obtain ⟨hlen, hrest⟩ := decoded_length s (n := n - 4) (by omega) (by omega)
      rw [decoded_step a b c d s hlt, decodeLoop_step a b c d s hlt]
      rw [plainLength_sub] at hlen
      simp only [List.length_cons]
      constructor <;> omega
    | [], hle | [_], hle | [_, _], hle | [_, _, _], hle => simp at hle; omega

/-- Nothing is read if the count is negative. -/
lemma decoded_negative (s : List UInt8) {n : ℤ} (h : n < 0) : decoded s n = [] := by
  rw [decoded_stop s (by omega)]
  unfold decodeRest
  rw [if_neg (by omega), if_neg (by omega), if_neg (by omega)]
  rfl

/-- The value that is returned for `n` characters with the remainder `r` left. -/
lemma returned_eq {n : ℤ} (hpos : 0 ≤ n) (hint : n + 3 < 2 ^ 31) :
    (int32 (n + 3)).tdiv 4 * 3 - (4 - n) % 4 = plainLength n := by
  rw [int32_eq_self (by omega) hint, Int.tdiv_eq_ediv_of_nonneg (by omega)]
  unfold plainLength
  split <;> omega

end Lengths

section RoundTrip

lemma letter_basis64 {i : UInt8} (h : i < 64) : pr2six (basis64 i) ≤ 63 := by
  rw [pr2six_basis64 h]
  exact Nat.le_of_lt_succ h

lemma sextet2_last (x : UInt8) : (x &&& 0x3) <<< 4 = sextet2 x 0 := by simp [sextet2]

lemma sextet3_last (y : UInt8) : (y &&& 0xF) <<< 2 = sextet3 y 0 := by simp [sextet3]

/-- The number of letters for `n` bytes. -/
def letterCount (n : ℕ) : ℕ := n / 3 * 4 + if n % 3 = 0 then 0 else n % 3 + 1

lemma letterCount_add (n : ℕ) : letterCount (n + 3) = letterCount n + 4 := by
  unfold letterCount
  rw [Nat.add_div_right _ (by decide), Nat.add_mod_right]
  omega

lemma letters_cons {c : UInt8} (h : pr2six c ≤ 63) (s : List UInt8) :
    letters (c :: s) = letters s + 1 := by
  rw [letters, List.takeWhile_cons_of_pos (by simpa using h), List.length_cons, letters]

lemma letters_stop {c : UInt8} (h : ¬ pr2six c ≤ 63) (s : List UInt8) : letters (c :: s) = 0 := by
  rw [letters, List.takeWhile_cons_of_neg (by simpa using h), List.length_nil]

/-- The letters end where the padding or the terminator begins. -/
lemma letters_encodeLoop (b : List UInt8) :
    letters (encodeLoop b ++ [0]) = letterCount b.length := by
  induction b using encodeLoop.induct with
  | case1 x y z b ih =>
    rw [encodeLoop, List.length_cons, List.length_cons, List.length_cons, letterCount_add, ← ih]
    simp [letters_cons (letter_basis64 (sextet1_lt x)),
      letters_cons (letter_basis64 (sextet2_lt x y)),
      letters_cons (letter_basis64 (sextet3_lt y z)), letters_cons (letter_basis64 (sextet4_lt z))]
  | case2 x y =>
    rw [encodeLoop, sextet3_last]
    simp only [List.cons_append, letters_cons (letter_basis64 (sextet1_lt x)),
      letters_cons (letter_basis64 (sextet2_lt x y)),
      letters_cons (letter_basis64 (sextet3_lt y 0)),
      letters_stop (show ¬ pr2six 61 ≤ 63 by decide)]
    simp [letterCount]
  | case3 x =>
    rw [encodeLoop, sextet2_last]
    simp only [List.cons_append, letters_cons (letter_basis64 (sextet1_lt x)),
      letters_cons (letter_basis64 (sextet2_lt x 0)),
      letters_stop (show ¬ pr2six 61 ≤ 63 by decide)]
    simp [letterCount]
  | case4 => rfl

lemma length_encodeLoop (b : List UInt8) : (encodeLoop b).length = (b.length + 2) / 3 * 4 := by
  induction b using encodeLoop.induct with
  | case1 x y z b ih =>
    simp only [encodeLoop, List.length_cons, ih]
    omega
  | case2 x y | case3 x => simp [encodeLoop]
  | case4 => rfl

lemma decodeRest_two (a b : UInt8) (s : List UInt8) :
    decodeRest (a :: b :: s) 2 = [octet1 a b] := by
  simp [decodeRest]

lemma decodeRest_three (a b c : UInt8) (s : List UInt8) :
    decodeRest (a :: b :: c :: s) 3 = [octet1 a b, octet2 b c] := by
  simp [decodeRest]

lemma decodeRest_four (a b c d : UInt8) (s : List UInt8) :
    decodeRest (a :: b :: c :: d :: s) 4 = [octet1 a b, octet2 b c, octet3 c d] := by
  simp [decodeRest]

/-- The letters of a byte string are decoded to it, whatever follows. -/
lemma decoded_encodeLoop (b t : List UInt8) :
    decoded (encodeLoop b ++ t) (letterCount b.length) = b := by
  induction b using encodeLoop.induct with
  | case1 x y z b ih =>
    simp only [encodeLoop, List.cons_append, List.length_cons, letterCount_add]
    by_cases hb : b = []
    · -- the last group is not taken by the loop
      subst hb
      have hcount : ((letterCount ([] : List UInt8).length + 4 : ℕ) : ℤ) = 4 := rfl
      rw [hcount, decoded_stop _ le_rfl, decodeRest_four, octet1_sextets, octet2_sextets,
        octet3_sextets]
    · have hpos : 0 < letterCount b.length := by
        have hlen := List.length_pos_of_ne_nil hb
        unfold letterCount
        split <;> omega
      rw [decoded_step _ _ _ _ _ (by push_cast; omega), octet1_sextets, octet2_sextets,
        octet3_sextets, Nat.cast_add, Nat.cast_ofNat, add_sub_cancel_right, ih]
  | case2 x y =>
    have hcount : (letterCount [x, y].length : ℤ) = 3 := by simp [letterCount]
    rw [hcount, encodeLoop, sextet3_last, decoded_stop _ (by decide)]
    simp only [List.cons_append]
    rw [decodeRest_three, octet1_sextets, octet2_sextets]
  | case3 x =>
    have hcount : (letterCount [x].length : ℤ) = 2 := by simp [letterCount]
    rw [hcount, encodeLoop, sextet2_last, decoded_stop _ (by decide)]
    simp only [List.cons_append]
    rw [decodeRest_two, octet1_sextets]
  | case4 => exact decoded_stop _ (by decide)

end RoundTrip

section Codec

variable {b s : List UInt8}

/-- The text of a byte string has the computed length, and is decoded to the byte string. -/
def EncodesRight (b : List UInt8) : Prop :=
  decodeBinary (some (encodeBinary b).1) = (b, (b.length : ℤ)) ∧
    ((encodeBinary b).1.length : ℤ) = encodeLen b.length

/-- As many bytes are written as are computed, and their number is returned. -/
def DecodesRight (s : List UInt8) : Prop :=
  ((decodeBinary (some s)).1.length : ℤ) = decodeLen (some s) ∧
    (decodeBinary (some s)).2 = decodeLen (some s)

lemma decodeBinary_eq (s : List UInt8) :
    decodeBinary (some s) = (decoded s (int32 (letters s)),
      (int32 (int32 (letters s) + 3)).tdiv 4 * 3 -
        (4 - (decodeLoop s (int32 (letters s))).nprbytes) % 4) := by
  rw [← nprbytes_eq]
  rfl

/-- What is returned if the count is an `int` and can be rounded up to a multiple of 4. -/
lemma decodeBinary_returns (hpos : 0 ≤ int32 (letters s)) (hint : int32 (letters s) < 2 ^ 31 - 3) :
    (decodeBinary (some s)).2 = plainLength (int32 (letters s)) := by
  have hle : int32 (letters s) ≤ s.length := by
    have hletters := letters_le s
    have hcast := int32_natCast_le (letters s)
    omega
  rw [decodeBinary_eq, (decoded_length s hpos hle).2, returned_eq hpos (by omega)]

theorem decodesRight_iff :
    DecodesRight s ↔ 0 ≤ int32 (letters s) ∧ int32 (letters s) < 2 ^ 31 - 3 := by
  have hle : int32 (letters s) ≤ s.length := by
    have hletters := letters_le s
    have hcast := int32_natCast_le (letters s)
    omega
  unfold DecodesRight
  rw [decodeLen_eq, nprbytes_eq]
  constructor
  · rintro ⟨hwritten, hreturned⟩
    rw [decodeBinary_eq] at hwritten hreturned
    by_cases hneg : int32 (letters s) < 0
    · rw [decoded_negative s hneg, List.length_nil] at hwritten
      unfold plainLength at hwritten
      split at hwritten <;> omega
    · refine ⟨by omega, ?_⟩
      by_contra hlarge
      -- the sum with 3 is no `int` any more, so that the value returned is negative
      have hrange := int32_range (letters s)
      have hwrap : int32 (int32 (letters s) + 3) < 0 := by
        rw [int32, Int.bmod_def]
        omega
      have hquotient : 0 ≤ (-int32 (int32 (letters s) + 3)).tdiv 4 :=
        Int.tdiv_nonneg (by omega) (by omega)
      rw [Int.neg_tdiv] at hquotient
      have hplain : 0 < plainLength (int32 (letters s)) := by
        unfold plainLength
        split <;> omega
      have hrest := Int.emod_nonneg (4 - (decodeLoop s (int32 (letters s))).nprbytes)
        (show (4 : ℤ) ≠ 0 by decide)
      simp only at hreturned
      omega
  · rintro ⟨hpos, hint⟩
    refine ⟨?_, decodeBinary_returns hpos hint⟩
    rw [decodeBinary_eq]
    exact (decoded_length s hpos hle).1

theorem encodesRight_iff : EncodesRight b ↔ b.length ≤ 1610612733 := by
  have hlength : (encodeBinary b).1.length = (b.length + 2) / 3 * 4 + 1 := by
    change (encodeLoop b ++ [0]).length = _
    rw [List.length_append, length_encodeLoop]
    rfl
  unfold EncodesRight
  rw [hlength]
  constructor
  · rintro ⟨-, hlen⟩
    have hrange := (int32_range (int32 ((int32 (b.length + 2)).tdiv 3 * 4) + 1)).2
    rw [encodeLen] at hlen
    omega
  · intro hle
    have hcount : letterCount b.length < 2 ^ 31 - 3 := by
      unfold letterCount
      split <;> omega
    have hint : int32 (letters (encodeBinary b).1) = letterCount b.length := by
      rw [show (encodeBinary b).1 = encodeLoop b ++ [0] from rfl, letters_encodeLoop]
      exact int32_eq_self (by omega) (by omega)
    have hdecoded : decoded (encodeBinary b).1 (int32 (letters (encodeBinary b).1)) = b := by
      rw [hint]
      exact decoded_encodeLoop b [0]
    refine ⟨Prod.ext ?_ ?_, ?_⟩
    · rw [decodeBinary_eq, hdecoded]
    · have hright := decodesRight_iff.mpr ⟨by rw [hint]; omega, by rw [hint]; omega⟩
      rw [hright.2, ← hright.1, decodeBinary_eq, hdecoded]
    · have hsum : int32 ((b.length : ℤ) + 2) = b.length + 2 := int32_eq_self (by omega) (by omega)
      have hgroups : int32 (((b.length : ℤ) + 2) / 3 * 4) = (b.length + 2) / 3 * 4 :=
        int32_eq_self (by omega) (by omega)
      rw [encodeLen, hsum, Int.tdiv_eq_ediv_of_nonneg (by omega), hgroups,
        int32_eq_self (by omega) (by omega)]
      push_cast
      rfl

/-- A byte string goes through its text and back, and the text has the computed length, exactly
if that length is an `int`. The bytes decoded from a string of any kind have the computed
length, which is returned, exactly if the letters in front, counted in an `int`, are not
negative and can be rounded up to a multiple of 4. -/
theorem base64_codec :
    (∀ b, EncodesRight b ↔ b.length ≤ 1610612733) ∧
      ∀ s, DecodesRight s ↔ 0 ≤ int32 (letters s) ∧ int32 (letters s) < 2 ^ 31 - 3 :=
  ⟨fun _ => encodesRight_iff, fun _ => decodesRight_iff⟩

lemma letters_replicate (n : ℕ) : letters (List.replicate n 65) = n := by
  have hletter : pr2six 65 ≤ 63 := by decide
  rw [letters, List.takeWhile_replicate, if_pos (by simpa using hletter), List.length_replicate]

/-- Of `2 ^ 32 - 1` letters, counted as -1, none is decoded, but -1 is returned. -/
theorem long_text_not_decoded :
    decodeBinary (some (List.replicate (2 ^ 32 - 1) 65)) = ([], -1) ∧
      decodeLen (some (List.replicate (2 ^ 32 - 1) 65)) = -1 ∧ ¬ ∀ s, DecodesRight s := by
  have hcount : int32 (letters (List.replicate (2 ^ 32 - 1) 65)) = -1 := by
    rw [letters_replicate]
    decide
  refine ⟨?_, ?_, fun h => ?_⟩
  · rw [decodeBinary_eq, hcount, decoded_negative _ (by decide), decodeLoop_stop _ (by decide)]
    rfl
  · rw [decodeLen_eq, nprbytes_eq, hcount]
    rfl
  · have hpos := (decodesRight_iff.mp (h (List.replicate (2 ^ 32 - 1) 65))).1
    rw [hcount] at hpos
    exact absurd hpos (by decide)

end Codec

end Axis2C.Base64
