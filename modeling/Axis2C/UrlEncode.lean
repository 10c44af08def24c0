import Axis2C.HttpChunkedRoundTrip

/-!
# Percent encoding

`axutil_url_encode` and `axutil_url_decode`. A `char` is signed and `%x` has no width, so
that a byte from 128 on is printed with eight digits, which do not fit the scratch array,
and one below 16 with a single digit, which is not decoded. The buffer grows in time,
except from a single byte.
-/
namespace Axis2C.UrlEncode
open HttpChunked (formatHex hexDigit hexValue)

section Encode

def isalnum (c : UInt8) : Bool :=
  (48 ≤ c && c ≤ 57) || (65 ≤ c && c ≤ 90) || (97 ≤ c && c ≤ 122)

/-- The characters "-_.~". -/
def safe : List UInt8 := [45, 95, 46, 126]

/-- The characters ";/?:@&=#[]!$'()*+,". -/
def reserve : List UInt8 := [59, 47, 63, 58, 64, 38, 61, 35, 91, 93, 33, 36, 39, 40, 41, 42, 43, 44]

/-- `is_safe_or_unreserve`. A reserved character is treated as any other one. -/
def isSafeOrUnreserve (c : UInt8) : Bool :=
  if safe.contains c then true
  else if reserve.contains c then false
  else false

/-- What `sprintf` takes a `char` for under `%x`: it is extended to an `int` with its sign. -/
def signExtended (c : UInt8) : ℕ := if c < 128 then c.toNat else 2 ^ 32 - 256 + c.toNat

/-- What is printed to `string`. -/
def charText (c : UInt8) : List UInt8 :=
  if isalnum c || isSafeOrUnreserve c then [c] else 37 :: formatHex (signExtended c)

/-- What goes wrong: `string` is too short, `len * 2` is no `int`, or the text and its NUL
do not fit `dest`. -/
inductive Fault
  | string
  | len
  | dest
  deriving DecidableEq, Repr

/-- The buffer that is written to, with its capacity. -/
structure Dest where
  text : List UInt8
  len : ℕ
  deriving DecidableEq, Repr

/-- The buffer with twice its capacity if less than four bytes are left. -/
def expandBuffer (dest : Dest) : Except Fault Dest :=
  if dest.len < dest.text.length + 4 then
    if 2 ^ 31 ≤ dest.len * 2 then .error .len else .ok { dest with len := dest.len * 2 }
  else .ok dest

def strcat (dest : Dest) (string : List UInt8) : Except Fault Dest :=
  if dest.len < dest.text.length + string.length + 1 then .error .dest
  else .ok { dest with text := dest.text ++ string }

def encodeChar (dest : Dest) (c : UInt8) : Except Fault Dest :=
  if 4 < (charText c).length + 1 then .error .string
  else do
    let dest ← expandBuffer dest
    strcat dest (charText c)

/-- The loop over `buff[i]`. Behind the bytes of the list stands a NUL. -/
def encodeLoop : List UInt8 → ℕ → Dest → Except Fault Dest
  | [], _, dest => .ok dest
  | c :: buff, i, dest =>
    if i < dest.len ∧ c ≠ 0 then do
      let dest ← encodeChar dest c
      encodeLoop buff (i + 1) dest
    else .ok dest

/-- `axutil_url_encode`, with a destination of capacity `len`. -/
def urlEncode (dest buff : List UInt8) (len : ℕ) : Except Fault Dest :=
  encodeLoop buff 0 ⟨dest, len⟩

end Encode

section Decode

def isxdigit (c : UInt8) : Bool := (hexValue c).isSome

/-- `axutil_hexit`. -/
def hexit (c : UInt8) : ℕ := (hexValue c).getD 0

/-- `axutil_url_decode`. -/
def urlDecode : List UInt8 → List UInt8
  | 37 :: a :: b :: src =>
    if isxdigit a ∧ isxdigit b then UInt8.ofNat (hexit a * 16 + hexit b) :: urlDecode src
    else 37 :: urlDecode (a :: b :: src)
  | c :: src => c :: urlDecode src
  | [] => []

end Decode

/-- The bytes are encoded without a fault, and decoded again. -/
def RoundTrips (s : List UInt8) : Prop :=
  ∃ dest, urlEncode [] s s.length = .ok dest ∧ urlDecode dest.text = s

/-- A byte that is written as it is. -/
def IsPlain (c : UInt8) : Prop := (isalnum c || isSafeOrUnreserve c) = true

def encoded (s : List UInt8) : List UInt8 := s.flatMap charText

section Texts

variable {c : UInt8}

lemma formatHex_of_lt {n : ℕ} (h : n < 16) : formatHex n = [hexDigit n] := by
  unfold formatHex
  by_cases hn : n = 0
  · subst hn
    decide
  · rw [if_neg hn, Nat.digits_of_lt 16 n hn h]
    rfl

lemma formatHex_two {n : ℕ} (hle : 16 ≤ n) (hlt : n < 256) :
    formatHex n = [hexDigit (n / 16), hexDigit (n % 16)] := by
  have hdigits : Nat.digits 16 n = [n % 16, n / 16] := by
    rw [Nat.digits_def' (by norm_num) (by omega),
      Nat.digits_of_lt 16 (n / 16) (by omega) (by omega)]
  unfold formatHex
  rw [if_neg (by omega), hdigits]
  rfl

lemma hexit_hexDigit {d : ℕ} (hd : d < 16) : hexit (hexDigit d) = d := by
  rw [hexit, (HttpChunked.hexDigit_cases hd).1]
  rfl

lemma hexit_lt (c : UInt8) : hexit c < 16 := by
  unfold hexit hexValue
  split_ifs with hdigit hlower hupper
  · have hle : c.toNat ≤ 57 := UInt8.le_iff_toNat_le.mp hdigit.2
    rw [Option.getD_some]
    omega
  · have hle : c.toNat ≤ 102 := UInt8.le_iff_toNat_le.mp hlower.2
    rw [Option.getD_some]
    omega
  · have hle : c.toNat ≤ 70 := UInt8.le_iff_toNat_le.mp hupper.2
    rw [Option.getD_some]
    omega
  · rw [Option.getD_none]
    omega

lemma isxdigit_hexDigit {d : ℕ} (hd : d < 16) : isxdigit (hexDigit d) = true := by
  rw [isxdigit, (HttpChunked.hexDigit_cases hd).1]
  rfl

lemma plain_range (h : IsPlain c) : 16 ≤ c ∧ c < 128 ∧ c ≠ 37 := by
  have hsafe : isSafeOrUnreserve c = true → c ∈ safe := by
    unfold isSafeOrUnreserve
    split_ifs with hc
    · exact fun _ => List.contains_iff_mem.mp hc
    · exact fun hfalse => absurd hfalse (by decide)
    · exact fun hfalse => absurd hfalse (by decide)
  unfold IsPlain at h
  rcases Bool.or_eq_true_iff.mp h with halnum | hother
  · simp only [isalnum, Bool.or_eq_true, Bool.and_eq_true, decide_eq_true_eq,
      UInt8.le_iff_toNat_le] at halnum
    have hnat : 48 ≤ c.toNat ∧ c.toNat ≤ 122 := by
      simp only [UInt8.reduceToNat] at halnum
      omega
    refine ⟨UInt8.le_iff_toNat_le.mpr ?_, UInt8.lt_iff_toNat_lt.mpr ?_, ?_⟩
    · simp only [UInt8.reduceToNat]
      omega
    · simp only [UInt8.reduceToNat]
      omega
    · rintro rfl
      simp only [UInt8.reduceToNat] at hnat
      omega
  · have hmem := hsafe hother
    simp only [safe, List.mem_cons, List.not_mem_nil, or_false] at hmem
    rcases hmem with rfl | rfl | rfl | rfl <;> decide

lemma charText_plain (h : IsPlain c) : charText c = [c] := if_pos h

lemma charText_not_plain (h : ¬ IsPlain c) :
    charText c = 37 :: formatHex (signExtended c) := if_neg h

/-- A byte from 16 to 127 that is not written as it is has two digits. -/
lemma charText_escaped (h : ¬ IsPlain c) (hle : 16 ≤ c) (hlt : c < 128) :
    charText c = [37, hexDigit (c.toNat / 16), hexDigit (c.toNat % 16)] := by
  have hle' : 16 ≤ c.toNat := UInt8.le_iff_toNat_le.mp hle
  have hlt' : c.toNat < 128 := UInt8.lt_iff_toNat_lt.mp hlt
  rw [charText_not_plain h, signExtended, if_pos hlt, formatHex_two hle' (by omega)]

lemma charText_control (hlt : c < 16) : charText c = [37, hexDigit c.toNat] := by
  have hplain : ¬ IsPlain c := fun h => absurd (plain_range h).1 (UInt8.not_le.mpr hlt)
  have hlt' : c.toNat < 16 := UInt8.lt_iff_toNat_lt.mp hlt
  have hsmall : c < 128 := UInt8.lt_iff_toNat_lt.mpr (by simp only [UInt8.reduceToNat]; omega)
  rw [charText_not_plain hplain, signExtended, if_pos hsmall, formatHex_of_lt hlt']

/-- A byte from 128 on has eight. -/
lemma length_charText_high (hle : 128 ≤ c) : 3 < (charText c).length := by
  have hplain : ¬ IsPlain c := fun h => absurd (plain_range h).2.1 (UInt8.not_lt.mpr hle)
  have hlong : 7 < (formatHex (signExtended c)).length := by
    apply HttpChunked.lt_length_formatHex
    rw [signExtended, if_neg (UInt8.not_lt.mpr hle)]
    omega
  rw [charText_not_plain hplain, List.length_cons]
  omega

lemma length_charText_le (hlt : c < 128) : (charText c).length ≤ 3 := by
  by_cases hplain : IsPlain c
  · simp [charText_plain hplain]
  · by_cases hle : 16 ≤ c
    · simp [charText_escaped hplain hle hlt]
    · simp [charText_control (UInt8.not_le.mp hle)]

end Texts

section Decoding

variable {c : UInt8} {rest : List UInt8}

lemma urlDecode_cons (hc : c ≠ 37) : urlDecode (c :: rest) = c :: urlDecode rest := by
  match rest with
  | [] | [_] => simp [urlDecode]
  | a :: b :: rest =>
    rw [urlDecode]
    intro _ _ _ heq
    exact absurd heq hc

lemma urlDecode_charText (hle : 16 ≤ c) (hlt : c < 128) (rest : List UInt8) :
    urlDecode (charText c ++ rest) = c :: urlDecode rest := by
  by_cases hplain : IsPlain c
  · rw [charText_plain hplain]
    exact urlDecode_cons (plain_range hplain).2.2
  · have hlt' : c.toNat < 128 := UInt8.lt_iff_toNat_lt.mp hlt
    have hhigh : c.toNat / 16 < 16 := by omega
    have hlow : c.toNat % 16 < 16 := by omega
    rw [charText_escaped hplain hle hlt]
    simp only [List.cons_append, List.nil_append, urlDecode, isxdigit_hexDigit hhigh,
      isxdigit_hexDigit hlow, hexit_hexDigit hhigh, hexit_hexDigit hlow, and_self, if_true]
    rw [Nat.div_add_mod' c.toNat 16, UInt8.ofNat_toNat]

lemma urlDecode_control (hlt : c < 16) (hnul : c ≠ 0) (rest more : List UInt8) :
    urlDecode (charText c ++ rest) ≠ c :: more := by
  have hlt' : c.toNat < 16 := UInt8.lt_iff_toNat_lt.mp hlt
  have hpos : 0 < c.toNat := Nat.pos_of_ne_zero fun hzero => hnul (UInt8.toNat_inj.mp hzero)
  have hpercent : (37 : UInt8) ≠ c := by
    rintro rfl
    exact absurd hlt (by decide)
  rw [charText_control hlt]
  intro heq
  cases rest with
  | nil => exact hpercent (List.cons.inj heq).1
  | cons b rest =>
    simp only [List.cons_append, List.nil_append, urlDecode, isxdigit_hexDigit hlt',
      hexit_hexDigit hlt', true_and] at heq
    split_ifs at heq
    · -- the digit of the byte is taken for the upper one of two
      have hbyte := congrArg UInt8.toNat (List.cons.inj heq).1
      have hlow := hexit_lt b
      rw [UInt8.toNat_ofNat', Nat.mod_eq_of_lt (by omega)] at hbyte
      omega
    · exact hpercent (List.cons.inj heq).1

lemma urlDecode_encoded {s : List UInt8} (hs : ∀ c ∈ s, 16 ≤ c ∧ c < 128) :
    urlDecode (encoded s) = s := by
  induction s with
  | nil => simp [encoded, urlDecode]
  | cons c s ih =>
    obtain ⟨hle, hlt⟩ := hs c (List.mem_cons_self ..)
    rw [encoded, List.flatMap_cons, urlDecode_charText hle hlt]
    exact congrArg _ (ih fun d hd => hs d (List.mem_cons_of_mem _ hd))

/-- What is decoded has no control byte, as its first one would be lost. -/
lemma range_of_urlDecode {s : List UInt8} (hnul : 0 ∉ s) (hs : ∀ c ∈ s, c < 128)
    (h : urlDecode (encoded s) = s) : ∀ c ∈ s, 16 ≤ c := by
  induction s with
  | nil => simp
  | cons c s ih =>
    simp only [List.mem_cons, not_or, forall_eq_or_imp] at hnul hs ⊢
    rw [encoded, List.flatMap_cons] at h
    by_cases hle : 16 ≤ c
    · rw [urlDecode_charText hle hs.1] at h
      exact ⟨hle, ih hnul.2 hs.2 (List.cons.inj h).2⟩
    · exact absurd h (urlDecode_control (UInt8.not_le.mp hle) (Ne.symm hnul.1) _ _)

end Decoding

section Buffer

variable {dest dest' : Dest} {c : UInt8}
variable {buff : List UInt8}

/-- Room for one more character, or at least for the growth that makes it. -/
structure Room (dest : Dest) : Prop where
  text : dest.text.length < dest.len
  len : 4 ≤ dest.len ∨ dest.text = [] ∧ 2 ≤ dest.len

def nextLen (dest : Dest) : ℕ :=
  if dest.len < dest.text.length + 4 then dest.len * 2 else dest.len

lemma Room.nextLen_le (h : Room dest) : dest.text.length + 4 ≤ nextLen dest := by
  have htext := h.text
  unfold nextLen
  rcases h.len with hlen | ⟨hempty, hlen⟩
  · split_ifs <;> omega
  · rw [hempty] at htext ⊢
    rw [List.length_nil] at htext ⊢
    split_ifs <;> omega

lemma nextLen_eq_mul (dest : Dest) : ∃ k, nextLen dest = dest.len * 2 ^ k := by
  unfold nextLen
  split_ifs
  · exact ⟨1, by simp⟩
  · exact ⟨0, by simp⟩

lemma expandBuffer_eq (h : dest.len < 2 ^ 31) :
    expandBuffer dest = if nextLen dest < 2 ^ 31 then .ok { dest with len := nextLen dest }
      else .error .len := by
  unfold expandBuffer nextLen
  by_cases hgrow : dest.len < dest.text.length + 4
  · simp only [if_pos hgrow]
    by_cases hint : 2 ^ 31 ≤ dest.len * 2
    · rw [if_pos hint, if_neg (by omega)]
    · rw [if_neg hint, if_pos (by omega)]
  · simp only [if_neg hgrow]
    rw [if_pos h]

/-- With room a byte is written exactly if it is below 128 and the buffer can grow. -/
lemma encodeChar_eq_ok_iff (hroom : Room dest) (hint : dest.len < 2 ^ 31) :
    encodeChar dest c = .ok dest' ↔
      c < 128 ∧ nextLen dest < 2 ^ 31 ∧ dest' = ⟨dest.text ++ charText c, nextLen dest⟩ := by
  have hfits := hroom.nextLen_le
  unfold encodeChar
  rw [expandBuffer_eq hint]
  by_cases hc : c < 128
  · have hshort := length_charText_le hc
    rw [if_neg (by omega)]
    by_cases hnext : nextLen dest < 2 ^ 31
    · have hroom' : ¬ nextLen dest < dest.text.length + (charText c).length + 1 := by omega
      have hstrcat : strcat { dest with len := nextLen dest } (charText c) =
          .ok ⟨dest.text ++ charText c, nextLen dest⟩ := if_neg hroom'
      rw [if_pos hnext]
      simp only [bind, Except.bind, hstrcat, Except.ok.injEq]
      exact ⟨fun h => ⟨hc, hnext, h.symm⟩, fun h => h.2.2.symm⟩
    · rw [if_neg hnext]
      simp only [bind, Except.bind, reduceCtorEq, false_iff]
      exact fun h => hnext h.2.1
  · have hlong := length_charText_high (UInt8.not_lt.mp hc)
    rw [if_pos (by omega)]
    simp only [reduceCtorEq, false_iff]
    exact fun h => hc h.1

lemma Room.next (hroom : Room dest) (hc : c < 128) :
    Room ⟨dest.text ++ charText c, nextLen dest⟩ := by
  have hfits := hroom.nextLen_le
  have hshort := length_charText_le hc
  exact
    { text := by
        show (dest.text ++ charText c).length < nextLen dest
        rw [List.length_append]
        omega
      len := Or.inl (by
        show 4 ≤ nextLen dest
        omega) }

lemma encodeLoop_cons {i : ℕ} (hi : i < dest.len) (hc : c ≠ 0) :
    encodeLoop (c :: buff) i dest = (encodeChar dest c).bind (encodeLoop buff (i + 1)) :=
  if_pos ⟨hi, hc⟩

/-- The text is what the bytes are encoded to, all of them are below 128, and the last
capacity, twice the first some times over, left four bytes in front of the last byte. -/
structure Written (buff : List UInt8) (dest dest' : Dest) : Prop where
  text : dest'.text = dest.text ++ encoded buff
  range : ∀ c ∈ buff, c < 128
  len : buff ≠ [] → ∃ k, (dest.text ++ encoded buff.dropLast).length + 4 ≤ dest.len * 2 ^ k ∧
    dest.len * 2 ^ k < 2 ^ 31

lemma nextLen_ge (dest : Dest) : dest.len ≤ nextLen dest := by
  unfold nextLen
  split_ifs <;> omega

/-- What the loop has done where it ends without a fault. -/
lemma written_of_encodeLoop {i : ℕ} (hnul : 0 ∉ buff) (hi : i + buff.length ≤ dest.len)
    (hroom : Room dest) (hint : dest.len < 2 ^ 31) (h : encodeLoop buff i dest = .ok dest') :
    Written buff dest dest' := by
  induction buff generalizing i dest with
  | nil =>
    obtain rfl := Except.ok.inj h
    exact ⟨by simp [encoded], by simp, by simp⟩
  | cons c buff ih =>
    simp only [List.mem_cons, not_or, List.length_cons] at hnul hi
    rw [encodeLoop_cons (by omega) (Ne.symm hnul.1)] at h
    cases hchar : encodeChar dest c with
    | error f =>
      rw [hchar] at h
      cases h
    | ok next =>
      rw [hchar] at h
      obtain ⟨hc, hnext, rfl⟩ := (encodeChar_eq_ok_iff hroom hint).mp hchar
      have hge := nextLen_ge dest
      have hrest := ih hnul.2 (by simp only; omega) (hroom.next hc) hnext h
      obtain ⟨k, hk⟩ := nextLen_eq_mul dest
      refine ⟨?_, ?_, fun _ => ?_⟩
      · rw [hrest.text]
        simp [encoded]
      · simpa [hc] using hrest.range
      · cases buff with
        | nil =>
          refine ⟨k, ?_, ?_⟩
          · simpa [encoded, ← hk] using hroom.nextLen_le
          · rwa [← hk]
        | cons d buff =>
          obtain ⟨m, hfits, hsmall⟩ := hrest.len (by simp)
          rw [hk, mul_assoc, ← pow_add] at hfits hsmall
          refine ⟨k + m, ?_, hsmall⟩
          simpa [encoded] using hfits

/-- The loop ends without a fault where the capacity can grow far enough. -/
lemma encodeLoop_ok {i k : ℕ} (hnul : 0 ∉ buff) (hi : i + buff.length ≤ dest.len)
    (hroom : Room dest) (hrange : ∀ c ∈ buff, c < 128)
    (hfits : buff ≠ [] → (dest.text ++ encoded buff.dropLast).length + 4 ≤ dest.len * 2 ^ k)
    (hsmall : dest.len * 2 ^ k < 2 ^ 31) : ∃ dest', encodeLoop buff i dest = .ok dest' := by
  induction buff generalizing i k dest with
  | nil => exact ⟨dest, rfl⟩
  | cons c buff ih =>
    simp only [List.mem_cons, not_or, List.length_cons, forall_eq_or_imp] at hnul hi hrange
    have hle : dest.len ≤ dest.len * 2 ^ k := Nat.le_mul_of_pos_right _ (by positivity)
    -- the capacity of the next character is not above the last one
    have hnext : ∃ m, nextLen dest * 2 ^ m = dest.len * 2 ^ k := by
      unfold nextLen
      split_ifs with hgrow
      · cases k with
        | zero =>
          have hlast := hfits (by simp)
          simp only [List.length_append, pow_zero, mul_one] at hlast
          omega
        | succ k => exact ⟨k, by ring⟩
      · exact ⟨k, rfl⟩
    obtain ⟨m, hm⟩ := hnext
    have hbound : nextLen dest ≤ nextLen dest * 2 ^ m :=
      Nat.le_mul_of_pos_right _ (by positivity)
    have hchar : encodeChar dest c = .ok ⟨dest.text ++ charText c, nextLen dest⟩ :=
      (encodeChar_eq_ok_iff hroom (by omega)).mpr ⟨hrange.1, by omega, rfl⟩
    rw [encodeLoop_cons (by omega) (Ne.symm hnul.1), hchar]
    have hge := nextLen_ge dest
    apply ih (k := m) hnul.2 (by simp only; omega) (hroom.next hrange.1) hrange.2
    · intro hne
      obtain ⟨d, buff, rfl⟩ := List.exists_cons_of_ne_nil hne
      simpa [encoded, hm] using hfits (by simp)
    · rwa [hm]

end Buffer

/-- A single byte is written exactly if it needs no escape, as the two bytes of the grown
buffer hold one and the NUL. -/
lemma urlEncode_single (c : UInt8) (hnul : c ≠ 0) (dest : Dest) :
    urlEncode [] [c] 1 = .ok dest ↔ IsPlain c ∧ dest = ⟨[c], 2⟩ := by
  have hgrown : expandBuffer ⟨[], 1⟩ = .ok ⟨[], 2⟩ := rfl
  have hloop : urlEncode [] [c] 1 = encodeChar ⟨[], 1⟩ c := by
    rw [urlEncode, encodeLoop_cons (by simp) hnul]
    cases encodeChar ⟨[], 1⟩ c <;> rfl
  have hwritten : encodeChar ⟨[], 1⟩ c =
      if 4 < (charText c).length + 1 then .error .string else strcat ⟨[], 2⟩ (charText c) := by
    rw [encodeChar, hgrown]
    rfl
  rw [hloop, hwritten]
  by_cases hplain : IsPlain c
  · rw [charText_plain hplain]
    simp [strcat, hplain, eq_comm]
  · have hlong : 2 ≤ (charText c).length := by
      obtain ⟨ds, hne, -, heq, -⟩ := HttpChunked.formatHex_eq (signExtended c)
      have hpos : 0 < ds.length := List.length_pos_of_ne_nil hne
      rw [charText_not_plain hplain, List.length_cons, heq, List.length_map]
      omega
    simp only [hplain, false_and, iff_false]
    split_ifs
    · simp
    · have hfull : ([] : List UInt8).length + (charText c).length + 1 > 2 := by
        rw [List.length_nil]
        omega
      rw [strcat, if_pos hfull]
      simp

/-- Bytes are encoded and decoded again exactly if each of them is from 16 to 127, a single
one needs no escape, and the capacity that is needed is an `int`. -/
theorem url_encode_round_trips_iff (s : List UInt8) (hnul : 0 ∉ s) (hlen : s.length < 2 ^ 31) :
    RoundTrips s ↔ (∀ c ∈ s, 16 ≤ c ∧ c < 128) ∧ (s.length = 1 → ∀ c ∈ s, IsPlain c) ∧
      (s ≠ [] → ∃ k, (encoded s.dropLast).length + 4 ≤ s.length * 2 ^ k ∧
        s.length * 2 ^ k < 2 ^ 31) := by
  match s with
  | [] =>
    have hempty : RoundTrips [] := ⟨⟨[], 0⟩, rfl, by simp [urlDecode]⟩
    simp [hempty]
  | [c] =>
    simp only [List.mem_singleton] at hnul
    have hcapacity : ∃ k, (encoded [c].dropLast).length + 4 ≤ [c].length * 2 ^ k ∧
        [c].length * 2 ^ k < 2 ^ 31 := ⟨2, by simp [encoded], by simp⟩
    constructor
    · rintro ⟨dest, hencode, -⟩
      obtain ⟨hplain, -⟩ := (urlEncode_single c (Ne.symm hnul) dest).mp hencode
      have hrange := plain_range hplain
      exact ⟨by simpa using ⟨hrange.1, hrange.2.1⟩, by simpa using hplain, fun _ => hcapacity⟩
    · rintro ⟨-, hsingle, -⟩
      have hplain : IsPlain c := hsingle rfl c (by simp)
      refine ⟨⟨[c], 2⟩, (urlEncode_single c (Ne.symm hnul) _).mpr ⟨hplain, rfl⟩, ?_⟩
      rw [urlDecode_cons (plain_range hplain).2.2, urlDecode]
  | c :: d :: s =>
    have hroom : Room ⟨[], (c :: d :: s).length⟩ :=
      { text := by simp
        len := Or.inr ⟨rfl, by simp⟩ }
    constructor
    · rintro ⟨dest, hencode, hdecode⟩
      have hwritten := written_of_encodeLoop hnul (by simp) hroom hlen hencode
      have htext : dest.text = encoded (c :: d :: s) := hwritten.text
      rw [htext] at hdecode
      have hlow := range_of_urlDecode hnul hwritten.range hdecode
      exact ⟨fun e he => ⟨hlow e he, hwritten.range e he⟩, by simp, hwritten.len⟩
    · rintro ⟨hrange, -, hcapacity⟩
      obtain ⟨k, hfits, hsmall⟩ := hcapacity (by simp)
      obtain ⟨dest, hencode⟩ := encodeLoop_ok (i := 0) hnul (by simp) hroom
        (fun e he => (hrange e he).2) (fun _ => hfits) hsmall
      have hwritten := written_of_encodeLoop hnul (by simp) hroom hlen hencode
      have htext : dest.text = encoded (c :: d :: s) := hwritten.text
      exact ⟨dest, hencode, htext ▸ urlDecode_encoded hrange⟩

/-- The two bytes "a&". -/
theorem url_encode_round_trips_ampersand :
    RoundTrips [97, 38] ↔ (∀ c ∈ ([97, 38] : List UInt8), 16 ≤ c ∧ c < 128) ∧
      (([97, 38] : List UInt8).length = 1 → ∀ c ∈ ([97, 38] : List UInt8), IsPlain c) ∧
      (([97, 38] : List UInt8) ≠ [] → ∃ k, (encoded ([97, 38] : List UInt8).dropLast).length + 4 ≤
        ([97, 38] : List UInt8).length * 2 ^ k ∧ ([97, 38] : List UInt8).length * 2 ^ k < 2 ^ 31) :=
  url_encode_round_trips_iff [97, 38] (by decide) (by decide)

/-- A line feed is written with one digit, which is left as it is. -/
theorem line_feed_is_lost :
    ∃ dest, urlEncode [] [97, 10] 2 = .ok dest ∧ urlDecode dest.text = [97, 37, 97] ∧
      ¬ RoundTrips [97, 10] := by
  have hencode : urlEncode [] [97, 10] 2 = .ok ⟨[97, 37, 97], 8⟩ := by decide
  have hdecode : urlDecode [97, 37, 97] = [97, 37, 97] := by decide
  refine ⟨_, hencode, hdecode, ?_⟩
  rintro ⟨dest, hdest, hround⟩
  obtain rfl := Except.ok.inj (hencode.symm.trans hdest)
  exact absurd (hround.symm.trans hdecode) (by decide)

end Axis2C.UrlEncode
