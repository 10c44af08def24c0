import Axis2C.GuththilaParser
import Mathlib.Tactic

/-!
# Characters ahead of the parser

The characters a memory reader will give are a function of the decoder and the
bytes not read yet. `Reads` says which of them lie between two places of the
document, each with its bytes.
-/
namespace Axis2C.Guththila
open StatefulRuns

/-! ### The decoder on a list of bytes -/

/-- The character that the bytes complete, the decoder after it and the bytes
left. The code is -1 at the end and at a byte in error. -/
def scanLoop : Decoder → List UInt8 → ℤ × Decoder × List UInt8
  | d, [] => (-1, d, [])
  | d, b :: bs =>
    let d := d.store b
    if d.isError then (-1, d, bs)
    else if d.remainingBytes = 0 then (d.codePoint, d, bs)
    else scanLoop d bs

def scanChar (d : Decoder) (bs : List UInt8) : ℤ × Decoder × List UInt8 :=
  if d.isError ∧ d.isCodePoint then (d.codePoint, utf8DecoderClear d, bs) else scanLoop d bs

/-- What every decoder that was fed some bytes satisfies. -/
structure Decoder.Sound (d : Decoder) : Prop where
  owed : d.remainingBytes ≤ 3
  stored : 0 < d.remainingBytes → 0 < d.usedBytes

lemma sound_create : utf8DecoderCreate.Sound := ⟨by decide, by decide⟩

lemma sound_clear (d : Decoder) : (utf8DecoderClear d).Sound :=
  ⟨Nat.zero_le 3, fun h => absurd h (lt_irrefl 0)⟩

def Decoder.Lost (d : Decoder) : Prop := d.isError ∧ d.remainingBytes = 0 ∧ d.usedBytes = 0

/-- A decoder that has stored a continuation byte in `d`, which owed one. -/
structure Decoder.Continued (d d' : Decoder) : Prop where
  inside : 0 < d.remainingBytes
  remaining : d'.remainingBytes = d.remainingBytes - 1
  used : d'.usedBytes = d.usedBytes + 1
  noError : ¬ d'.isError
  shortest : d'.remainingBytes = 0 → d.usedBytes + 1 = shortestForm d'.codePoint

lemma Decoder.lost_of_replace {d : Decoder} (h : 0 < d.errorBytes) : d.replace.Lost :=
  ⟨decide_eq_true h, rfl, rfl⟩

lemma followOn_cases (d : Decoder) (hd : d.errorBytes = 0) (inbyte : ℕ) :
    (d.followOn inbyte).Lost ∨ d.Continued (d.followOn inbyte) := by
  unfold Decoder.followOn
  split_ifs with hinside
  · simp only
    split_ifs with hlast
    · unfold Decoder.finish
      simp only
      split_ifs with hmax hform
      · exact Or.inl (Decoder.lost_of_replace (Nat.succ_pos _))
      · exact Or.inr ⟨hinside, rfl, rfl, by simp [Decoder.isError, hd],
          fun _ => not_not.mp hform⟩
      · exact Or.inl (Decoder.lost_of_replace (Nat.succ_pos _))
    · exact Or.inr ⟨hinside, rfl, rfl, by simp [Decoder.isError, hd], fun h => absurd h hlast⟩
  · exact Or.inl (Decoder.lost_of_replace Nat.one_pos)

/-- A decoder that has begun a character in `d`, an error if one was going on. -/
structure Decoder.Begun (d d' : Decoder) : Prop where
  owed : d'.remainingBytes ≤ 3
  used : d'.usedBytes = 1
  error : d'.isError ↔ 0 < d.remainingBytes ∧ 0 < d.usedBytes

lemma begun_lead {d : Decoder} (hd : d.errorBytes = 0) (value : ℕ) {owed : ℕ} (h : owed ≤ 3) :
    d.Begun (d.lead value owed) := by
  refine ⟨h, rfl, ?_⟩
  by_cases hinside : 0 < d.remainingBytes
  · simp [Decoder.lead, Decoder.isError, Decoder.reportError, hinside]
  · simp [Decoder.lead, Decoder.isError, hinside, hd]

/-- What a byte does to a decoder. -/
lemma store_cases (d : Decoder) (b : UInt8) :
    (d.store b).Lost ∨ d.Continued (d.store b) ∨ d.Begun (d.store b) := by
  -- the byte is first put into the buffer, which none of the fields compared depends on
  have hfields : ∀ d' : Decoder, Decoder.Continued
      { d with errorBytes := 0, buffers := d.buffers.set d.usedBytes b } d' → d.Continued d' :=
    fun d' h => ⟨h.inside, h.remaining, h.used, h.noError, h.shortest⟩
  have hbegun : ∀ d' : Decoder, Decoder.Begun
      { d with errorBytes := 0, buffers := d.buffers.set d.usedBytes b } d' → d.Begun d' :=
    fun d' h => ⟨h.owed, h.used, h.error⟩
  simp only [Decoder.store]
  split_ifs
  · exact Or.inr (Or.inr (hbegun _ (begun_lead rfl _ (by decide))))
  · rcases followOn_cases { d with errorBytes := 0, buffers := d.buffers.set d.usedBytes b } rfl
      b.toNat with h | h
    · exact Or.inl h
    · exact Or.inr (Or.inl (hfields _ h))
  · exact Or.inl (Decoder.lost_of_replace (Nat.succ_pos _))
  · exact Or.inr (Or.inr (hbegun _ (begun_lead rfl _ (by decide))))
  · exact Or.inr (Or.inr (hbegun _ (begun_lead rfl _ (by decide))))
  · exact Or.inr (Or.inr (hbegun _ (begun_lead rfl _ (by decide))))
  · exact Or.inl (Decoder.lost_of_replace (Nat.succ_pos _))

lemma Decoder.Sound.store {d : Decoder} (h : d.Sound) (b : UInt8) : (d.store b).Sound := by
  have howed := h.owed
  rcases store_cases d b with hlost | hcontinued | hbegun
  · exact ⟨by rw [hlost.2.1]; exact Nat.zero_le 3, by simp [hlost.2.1]⟩
  · exact ⟨by rw [hcontinued.remaining]; omega, fun _ => by rw [hcontinued.used]; omega⟩
  · exact ⟨hbegun.owed, fun _ => by rw [hbegun.used]; exact Nat.one_pos⟩

/-- A complete character has been stored. -/
lemma store_used {d : Decoder} {b : UInt8} (herror : ¬ (d.store b).isError) :
    0 < (d.store b).usedBytes := by
  rcases store_cases d b with hlost | hcontinued | hbegun
  · exact absurd hlost.1 herror
  · rw [hcontinued.used]; omega
  · rw [hbegun.used]; exact Nat.one_pos

/-- Inside a character a byte that is no error leaves fewer bytes owed. -/
lemma store_inside {d : Decoder} (h : d.Sound) (hinside : 0 < d.remainingBytes) {b : UInt8}
    (herror : ¬ (d.store b).isError) : d.Continued (d.store b) := by
  rcases store_cases d b with hlost | hcontinued | hbegun
  · exact absurd hlost.1 herror
  · exact hcontinued
  · exact absurd (hbegun.error.mpr ⟨hinside, h.stored hinside⟩) herror

/-! ### Characters of a memory reader -/

/-- A memory reader over `data`. -/
def OnData (data : List UInt8) (i : Input) : Prop :=
  i.reader = .memory ∧ i.buffer = ⟨data, data.length, 0, true⟩ ∧ i.decoder.Sound

lemma nextByte_end {data : List UInt8} {i : Input} (h : OnData data i)
    (hrest : data.drop i.next = []) : nextByte i = .ok (-1) i := by
  obtain ⟨hreader, hbuffer, -⟩ := h
  have hnext : ¬ i.next < i.buffer.buff.length := by
    rw [hbuffer]
    exact Nat.not_lt.mpr (List.drop_eq_nil_iff.mp hrest)
  simp only [nextByte, hreader, if_neg hnext]

lemma nextByte_cons {data : List UInt8} {i : Input} (h : OnData data i) {b : UInt8}
    {bs : List UInt8} (hrest : data.drop i.next = b :: bs) :
    nextByte i = .ok b.toNat { i with next := i.next + 1 } ∧ data.drop (i.next + 1) = bs := by
  obtain ⟨hreader, hbuffer, -⟩ := h
  have hget : data[i.next]? = some b := by
    rw [← List.head?_drop, hrest]
    rfl
  have hnext : i.next < i.buffer.buff.length := by
    rw [hbuffer]
    exact (List.getElem?_eq_some_iff.mp hget).1
  have hbyte : i.buffer.byteAt i.next = some b := by
    rw [hbuffer]
    simpa [Buffer.byteAt] using hget
  constructor
  · simp only [nextByte, hreader, if_pos hnext, fetch, hbyte]
  · rw [← List.drop_drop, hrest]
    rfl

def enoughRounds (d : Decoder) (rounds : ℕ) : Prop :=
  if d.remainingBytes = 0 then 4 ≤ rounds else d.remainingBytes ≤ rounds

def Input.scanned (i : Input) (r : ℤ × Decoder × List UInt8) (bs : List UInt8) : Input :=
  { i with next := i.next + (bs.length - r.2.2.length), decoder := r.2.1 }

lemma scanLoop_length (d : Decoder) (bs : List UInt8) : (scanLoop d bs).2.2.length ≤ bs.length := by
  induction bs generalizing d with
  | nil => exact le_rfl
  | cons b bs ih =>
    simp only [scanLoop]
    split_ifs
    · simp
    · simp
    · exact (ih _).trans (by simp)

lemma decodeLoop_scan {data : List UInt8} (bs : List UInt8) {i : Input} (h : OnData data i)
    (hrest : data.drop i.next = bs) (rounds : ℕ) (hrounds : enoughRounds i.decoder rounds) :
    decodeLoop rounds i = .ok (scanLoop i.decoder bs).1 (i.scanned (scanLoop i.decoder bs) bs) := by
  induction bs generalizing i rounds with
  | nil =>
    cases rounds with
    | zero => unfold enoughRounds at hrounds; split at hrounds <;> omega
    | succ rounds =>
      rw [decodeLoop_end (nextByte_end h hrest)]
      rfl
  | cons b bs ih =>
    obtain ⟨hbyte, hrest'⟩ := nextByte_cons h hrest
    cases rounds with
    | zero => unfold enoughRounds at hrounds; split at hrounds <;> omega
    | succ rounds =>
      have hofNat : UInt8.ofNat b.toNat = b := UInt8.ofNat_toNat
      rw [decodeLoop_byte hbyte]
      simp only [hofNat, scanLoop]
      by_cases herror : (i.decoder.store b).isError = true
      · simp [herror, Input.scanned]
      by_cases hdone : (i.decoder.store b).remainingBytes = 0
      · simp [herror, hdone, store_used herror, Input.scanned]
      simp only [herror, hdone, if_false, Bool.false_eq_true]
      have hsound := h.2.2.store b
      rw [ih (i := { i with next := i.next + 1, decoder := i.decoder.store b })
        ⟨h.1, h.2.1, hsound⟩ hrest' rounds]
      · have hlen := scanLoop_length (i.decoder.store b) bs
        simp only [Input.scanned, List.length_cons]
        congr 2
        omega
      · have howed := hsound.owed
        unfold enoughRounds at hrounds ⊢
        simp only [hdone, if_false]
        by_cases hinside : 0 < i.decoder.remainingBytes
        · have hremaining := (store_inside h.2.2 hinside herror).remaining
          rw [if_neg (by omega)] at hrounds
          omega
        · rw [if_pos (by omega)] at hrounds
          omega

lemma scanLoop_sound {d : Decoder} (h : d.Sound) (bs : List UInt8) : (scanLoop d bs).2.1.Sound := by
  induction bs generalizing d with
  | nil => exact h
  | cons b bs ih =>
    simp only [scanLoop]
    split_ifs
    · exact h.store b
    · exact h.store b
    · exact ih (h.store b)

lemma scanChar_sound {d : Decoder} (h : d.Sound) (bs : List UInt8) :
    (scanChar d bs).2.1.Sound := by
  unfold scanChar
  split_ifs
  · exact sound_clear d
  · exact scanLoop_sound h bs

lemma scanLoop_suffix (d : Decoder) (bs : List UInt8) : (scanLoop d bs).2.2 <:+ bs := by
  induction bs generalizing d with
  | nil => exact List.suffix_rfl
  | cons b bs ih =>
    simp only [scanLoop]
    split_ifs
    · exact List.suffix_cons b bs
    · exact List.suffix_cons b bs
    · exact (ih _).trans (List.suffix_cons b bs)

/-- A memory reader gives the characters of the scan. -/
theorem nextChar_scan {data : List UInt8} {i : Input} (h : OnData data i) :
    ∃ i', nextChar i = .ok (scanChar i.decoder (data.drop i.next)).1 i' ∧ OnData data i' ∧
      i' = i.scanned (scanChar i.decoder (data.drop i.next)) (data.drop i.next) ∧
      data.drop i'.next = (scanChar i.decoder (data.drop i.next)).2.2 := by
  obtain ⟨hreader, hbuffer, hsound⟩ := h
  by_cases hpending : i.decoder.isError ∧ i.decoder.isCodePoint
  · refine ⟨_, nextChar_pending hpending |>.trans ?_, ⟨?_, ?_, ?_⟩, rfl, ?_⟩
    · simp [scanChar, if_pos hpending, Input.scanned]
    · exact hreader
    · exact hbuffer
    · simp only [scanChar, if_pos hpending, Input.scanned]
      exact sound_clear _
    · simp [scanChar, if_pos hpending, Input.scanned]
  · have hrounds : enoughRounds i.decoder 4 := by
      have howed := hsound.owed
      unfold enoughRounds
      split <;> omega
    refine ⟨_, (nextChar_ready hpending).trans
      ((decodeLoop_scan _ ⟨hreader, hbuffer, hsound⟩ rfl 4 hrounds).trans ?_), ⟨?_, ?_, ?_⟩,
      rfl, ?_⟩
    · simp [scanChar, if_neg hpending]
    · exact hreader
    · exact hbuffer
    · simp only [scanChar, if_neg hpending, Input.scanned]
      exact scanLoop_sound hsound _
    · have hsuffix := scanLoop_suffix i.decoder (data.drop i.next)
      simp only [scanChar, if_neg hpending, Input.scanned]
      rw [← List.drop_drop]
      exact (List.suffix_iff_eq_drop.mp hsuffix).symm

/-! ### Places and the characters between them -/

/-- A character and the bytes it was read from. -/
structure Ch where
  code : ℤ
  bytes : Token
  deriving Repr, DecidableEq

structure Place where
  next : ℕ
  decoder : Decoder
  deriving Repr, DecidableEq

def Input.place (i : Input) : Place := ⟨i.next, i.decoder⟩

/-- The next character from `p` on is `c`, and `p'` is the place behind it. -/
structure ReadsChar (data : List UInt8) (p : Place) (c : Ch) (p' : Place) : Prop where
  scan : scanChar p.decoder (data.drop p.next) = (c.code, p'.decoder, data.drop p'.next)
  found : c.code ≠ -1
  bytes : data.drop p.next = c.bytes ++ data.drop p'.next
  next : p'.next = p.next + c.bytes.length
  used : p'.decoder.usedBytes = c.bytes.length

/-- The next characters from the first place on, up to the second. -/
inductive Reads (data : List UInt8) : Place → List Ch → Place → Prop
  | nil (p : Place) : Reads data p [] p
  | cons {p p' p'' : Place} {c : Ch} {cs : List Ch} :
      ReadsChar data p c p' → Reads data p' cs p'' → Reads data p (c :: cs) p''

/-- Between characters, with nothing kept back. -/
def Decoder.Ready (d : Decoder) : Prop :=
  d.remainingBytes = 0 ∧ ¬ (d.isError ∧ d.isCodePoint)

lemma ready_create : utf8DecoderCreate.Ready := ⟨rfl, by decide⟩

/-- There is no further character: the end of the input or a byte in error. -/
def ReadsNone (data : List UInt8) (p : Place) : Prop :=
  (scanChar p.decoder (data.drop p.next)).1 = -1

lemma scanLoop_ready {d : Decoder} {bs : List UInt8} (h : (scanLoop d bs).1 ≠ -1) :
    (scanLoop d bs).2.1.Ready := by
  induction bs generalizing d with
  | nil => exact absurd rfl h
  | cons b bs ih =>
    simp only [scanLoop] at h ⊢
    split_ifs at h ⊢ with herror hdone
    · exact absurd rfl h
    · exact ⟨hdone, fun h => herror h.1⟩
    · exact ih h

lemma scanChar_ready {d : Decoder} {bs : List UInt8} (h : (scanChar d bs).1 ≠ -1) :
    (scanChar d bs).2.1.Ready := by
  unfold scanChar at h ⊢
  split_ifs at h ⊢ with hpending
  · exact ⟨rfl, by simp [utf8DecoderClear, Decoder.isError]⟩
  · exact scanLoop_ready h

lemma ReadsChar.ready {data : List UInt8} {p p' : Place} {c : Ch} (h : ReadsChar data p c p') :
    p'.decoder.Ready := by
  have hready := @scanChar_ready p.decoder (data.drop p.next)
  rw [h.scan] at hready
  exact hready h.found

/-- A character of several bytes is not ASCII. -/
lemma scanLoop_inside {d : Decoder} (h : d.Sound) (hinside : 0 < d.remainingBytes)
    {bs : List UInt8} (hfound : (scanLoop d bs).1 ≠ -1) : 128 ≤ (scanLoop d bs).1 := by
  induction bs generalizing d with
  | nil => exact absurd rfl hfound
  | cons b bs ih =>
    simp only [scanLoop] at hfound ⊢
    split_ifs at hfound ⊢ with herror hdone
    · exact absurd rfl hfound
    · have hshortest := (store_inside h hinside herror).shortest hdone
      have hused := h.stored hinside
      have hlarge : ¬ (d.store b).codePoint ≤ 0x7F := by
        intro hsmall
        rw [shortestForm, if_pos hsmall] at hshortest
        omega
      omega
    · exact ih (h.store b) (Nat.pos_of_ne_zero hdone) hfound

/-- Between characters a byte that completes one is ASCII. -/
lemma store_ready_done {d : Decoder} (hd : d.remainingBytes = 0) {b : UInt8}
    (hdone : (d.store b).remainingBytes = 0) (herror : ¬ (d.store b).isError) : b.toNat < 0x80 := by
  by_contra hb
  have hbyte := b.toNat_lt
  by_cases hbad : 0x80 ≤ b.toNat ∧ b.toNat < 0xC2 ∨ 0xF5 ≤ b.toNat
  · exact herror (decide_eq_true (store_ready_bad hd hbad))
  · obtain ⟨n, value, hlead, hn⟩ : ∃ n value, LeadByte b n value ∧ 0 < n := by
      unfold LeadByte
      by_cases h1 : b.toNat < 0xE0
      · exact ⟨1, b.toNat - 0xC0, Or.inl ⟨rfl, by omega, by omega, by omega⟩, by omega⟩
      · by_cases h2 : b.toNat < 0xF0
        · exact ⟨2, b.toNat - 0xE0, Or.inr (Or.inl ⟨rfl, by omega, by omega⟩), by omega⟩
        · exact ⟨3, b.toNat - 0xF0, Or.inr (Or.inr ⟨rfl, by omega, by omega⟩), by omega⟩
    have hremaining := (store_ready_lead hd hlead).1
    omega

section

variable {data : List UInt8} {p p' : Place} {c : Ch} (h : ReadsChar data p c p')
  (hsound : p.decoder.Sound)

include h hsound

/-- An ASCII character behind another one is the byte itself. -/
lemma ReadsChar.ascii_bytes (hready : p.decoder.Ready) (hascii : c.code < 128) :
    c.bytes = [UInt8.ofNat c.code.toNat] := by
  have hscan := h.scan
  have hbytes := h.bytes
  rw [scanChar, if_neg hready.2] at hscan
  cases hrest : data.drop p.next with
  | nil => rw [hrest] at hscan; exact absurd (congrArg Prod.fst hscan).symm h.found
  | cons b bs =>
    rw [hrest] at hscan hbytes
    simp only [scanLoop] at hscan
    split_ifs at hscan with herror hdone
    · exact absurd (congrArg Prod.fst hscan).symm h.found
    · have hleft : bs = data.drop p'.next := congrArg (fun r => r.2.2) hscan
      have hcode : ((p.decoder.store b).codePoint : ℤ) = c.code := congrArg Prod.fst hscan
      have hpoint := (store_ready_ascii hready.1 (store_ready_done hready.1 hdone herror)).2.2.1
      rw [← hleft, ← List.singleton_append, List.append_cancel_right_eq] at hbytes
      rw [← hbytes, ← hcode, hpoint]
      simp
    · have hfound : (scanLoop (p.decoder.store b) bs).1 ≠ -1 := by
        rw [hscan]
        exact h.found
      have hinside := scanLoop_inside (hsound.store b) (Nat.pos_of_ne_zero hdone) hfound
      rw [hscan] at hinside
      exact absurd hinside (not_le.mpr hascii)

lemma ReadsChar.ascii (hready : p.decoder.Ready) (hascii : c.code < 128) : c.bytes.length = 1 := by
  rw [h.ascii_bytes hsound hready hascii]
  rfl

lemma ReadsChar.sound : p'.decoder.Sound := by
  have hscan := scanChar_sound hsound (data.drop p.next)
  rw [h.scan] at hscan
  exact hscan

end

lemma ReadsChar.run {data : List UInt8} {i : Input} {c : Ch} {p : Place}
    (h : ReadsChar data i.place c p) (hi : OnData data i) :
    ∃ i', nextChar i = .ok c.code i' ∧ OnData data i' ∧ i'.place = p := by
  obtain ⟨i', hrun, hi', hscanned, -⟩ := nextChar_scan hi
  have hscan : scanChar i.decoder (data.drop i.next) = (c.code, p.decoder, data.drop p.next) :=
    h.scan
  have hbytes := congrArg List.length h.bytes
  refine ⟨i', by rw [hrun, hscan], hi', ?_⟩
  rw [hscanned, hscan, Input.place, Input.scanned]
  simp only [Input.place, List.length_append] at hbytes ⊢
  have hnext := h.next
  simp only [Input.place] at hnext
  cases p
  simp only at hnext hbytes ⊢
  congr 1
  omega

lemma ReadsNone.run {data : List UInt8} {i : Input} (h : ReadsNone data i.place)
    (hi : OnData data i) : ∃ i', nextChar i = .ok (-1) i' ∧ OnData data i' := by
  obtain ⟨i', hrun, hi', -⟩ := nextChar_scan hi
  have hnone : (scanChar i.decoder (data.drop i.next)).1 = -1 := h
  exact ⟨i', by rw [hrun, hnone], hi'⟩

/-- `used_bytes` counts the bytes of the character. -/
lemma scanLoop_used_inside {d : Decoder} (h : d.Sound) (hinside : 0 < d.remainingBytes)
    {bs : List UInt8} (hfound : (scanLoop d bs).1 ≠ -1) :
    (scanLoop d bs).2.1.usedBytes = d.usedBytes + (bs.length - (scanLoop d bs).2.2.length) := by
  induction bs generalizing d with
  | nil => exact absurd rfl hfound
  | cons b bs ih =>
    simp only [scanLoop] at hfound ⊢
    split_ifs at hfound ⊢ with herror hdone
    · exact absurd rfl hfound
    · simp [(store_inside h hinside herror).used]
    · have hlen := scanLoop_length (d.store b) bs
      rw [ih (h.store b) (Nat.pos_of_ne_zero hdone) hfound, (store_inside h hinside herror).used,
        List.length_cons]
      omega

lemma scanLoop_used {d : Decoder} (h : d.Sound) (hready : d.remainingBytes = 0) {bs : List UInt8}
    (hfound : (scanLoop d bs).1 ≠ -1) :
    (scanLoop d bs).2.1.usedBytes = bs.length - (scanLoop d bs).2.2.length := by
  cases bs with
  | nil => exact absurd rfl hfound
  | cons b bs =>
    simp only [scanLoop] at hfound ⊢
    split_ifs at hfound ⊢ with herror hdone
    · exact absurd rfl hfound
    all_goals
      have hused : (d.store b).usedBytes = 1 := by
        rcases store_cases d b with hlost | hcontinued | hbegun
        · exact absurd hlost.1 herror
        · exact absurd hready (Nat.pos_iff_ne_zero.mp hcontinued.inside)
        · exact hbegun.used
    · simp [hused]
    · have hlen := scanLoop_length (d.store b) bs
      rw [scanLoop_used_inside (h.store b) (Nat.pos_of_ne_zero hdone) hfound, hused,
        List.length_cons]
      omega

/-- From a place between characters: the next one, or none. -/
lemma readsChar_or_none (data : List UInt8) {p : Place} (hsound : p.decoder.Sound)
    (hready : p.decoder.Ready) : ReadsNone data p ∨ ∃ c p', ReadsChar data p c p' := by
  have hscan : scanChar p.decoder (data.drop p.next) = scanLoop p.decoder (data.drop p.next) :=
    if_neg hready.2
  by_cases hnone : (scanChar p.decoder (data.drop p.next)).1 = -1
  · exact Or.inl hnone
  right
  rw [hscan] at hnone
  have hused := scanLoop_used hsound hready.1 hnone
  obtain ⟨bytes, hbytes⟩ := scanLoop_suffix p.decoder (data.drop p.next)
  have hlen : (data.drop p.next).length - (scanLoop p.decoder (data.drop p.next)).2.2.length =
      bytes.length := by
    have := congrArg List.length hbytes
    rw [List.length_append] at this
    omega
  have hrest : data.drop (p.next + bytes.length) = (scanLoop p.decoder (data.drop p.next)).2.2 := by
    rw [← List.drop_drop, ← hlen]
    exact (List.suffix_iff_eq_drop.mp (scanLoop_suffix _ _)).symm
  refine ⟨⟨(scanLoop p.decoder (data.drop p.next)).1, bytes⟩,
    ⟨p.next + bytes.length, (scanLoop p.decoder (data.drop p.next)).2.1⟩, ?_, hnone, ?_, rfl, ?_⟩
  · rw [hscan, hrest]
  · rw [hrest, hbytes]
  · rw [hused, hlen]

/-- An ASCII character from any place: the decoder had kept it, or was between
characters. -/
lemma readsChar_ascii {data : List UInt8} {p : Place} (hsound : p.decoder.Sound)
    (hfound : (scanChar p.decoder (data.drop p.next)).1 ≠ -1)
    (hascii : (scanChar p.decoder (data.drop p.next)).1 < 128) :
    ∃ c p', ReadsChar data p c p' ∧ (p.decoder.Ready ∨ c.bytes = []) := by
  by_cases hpending : p.decoder.isError ∧ p.decoder.isCodePoint
  · have hscan : scanChar p.decoder (data.drop p.next) =
        ((p.decoder.codePoint : ℤ), utf8DecoderClear p.decoder, data.drop p.next) := if_pos hpending
    rw [hscan] at hfound
    exact ⟨⟨p.decoder.codePoint, []⟩, ⟨p.next, utf8DecoderClear p.decoder⟩,
      ⟨hscan, hfound, rfl, rfl, rfl⟩, Or.inr rfl⟩
  · by_cases hinside : 0 < p.decoder.remainingBytes
    · rw [scanChar, if_neg hpending] at hfound hascii
      exact absurd (scanLoop_inside hsound hinside hfound) (not_le.mpr hascii)
    · have hready : p.decoder.Ready := ⟨by omega, hpending⟩
      rcases readsChar_or_none data hsound hready with hnone | ⟨c, p', hc⟩
      · exact absurd hnone hfound
      · exact ⟨c, p', hc, Or.inl hready⟩

/-- There is at most one next character. -/
lemma ReadsChar.unique {data : List UInt8} {p q q' : Place} {c d : Ch} (h : ReadsChar data p c q)
    (h' : ReadsChar data p d q') : c = d ∧ q = q' := by
  have hscan := h.scan.symm.trans h'.scan
  obtain ⟨hcode, hdecoder, -⟩ : c.code = d.code ∧ q.decoder = q'.decoder ∧ _ := by
    simpa only [Prod.mk.injEq] using hscan
  have hlength : c.bytes.length = d.bytes.length := by
    rw [← h.used, ← h'.used, hdecoder]
  have hbytes : c.bytes = d.bytes := (List.append_inj (h.bytes.symm.trans h'.bytes) hlength).1
  have hnext : q.next = q'.next := by rw [h.next, h'.next, hlength]
  cases c; cases d; cases q; cases q'
  simp_all

def Ch.ofByte (b : UInt8) : Ch := ⟨b.toNat, [b]⟩

/-- An ASCII byte between characters is a character. -/
lemma readsChar_byte {data : List UInt8} {p : Place} (hready : p.decoder.Ready) {b : UInt8}
    {bs : List UInt8} (hrest : data.drop p.next = b :: bs) (hb : b.toNat < 128) :
    ReadsChar data p (Ch.ofByte b) ⟨p.next + 1, p.decoder.store b⟩ := by
  obtain ⟨hremaining, hused, hpoint, herror⟩ := store_ready_ascii hready.1 hb
  have hdrop : data.drop (p.next + 1) = bs := by
    rw [← List.drop_drop, hrest]
    rfl
  refine ⟨?_, by simp [Ch.ofByte], ?_, rfl, hused⟩
  · rw [scanChar, if_neg hready.2, hrest, scanLoop]
    simp [Ch.ofByte, Decoder.isError, herror, hremaining, hpoint, hdrop]
  · rw [hrest, hdrop]
    rfl

lemma reads_cons {data : List UInt8} {p p' : Place} {c : Ch} {cs : List Ch} :
    Reads data p (c :: cs) p' ↔ ∃ q, ReadsChar data p c q ∧ Reads data q cs p' := by
  constructor
  · intro h
    cases h with
    | cons hc hcs => exact ⟨_, hc, hcs⟩
  · rintro ⟨q, hc, hcs⟩
    exact .cons hc hcs

lemma reads_append {data : List UInt8} {p p' : Place} {cs ds : List Ch} :
    Reads data p (cs ++ ds) p' ↔ ∃ q, Reads data p cs q ∧ Reads data q ds p' := by
  induction cs generalizing p with
  | nil =>
    constructor
    · exact fun h => ⟨p, .nil p, h⟩
    · rintro ⟨q, hnil, h⟩
      cases hnil
      exact h
  | cons c cs ih =>
    rw [List.cons_append, reads_cons]
    constructor
    · rintro ⟨q, hc, h⟩
      obtain ⟨r, hcs, hds⟩ := ih.mp h
      exact ⟨r, .cons hc hcs, hds⟩
    · rintro ⟨r, hcs, hds⟩
      obtain ⟨q, hc, hcs⟩ := reads_cons.mp hcs
      exact ⟨q, hc, ih.mpr ⟨r, hcs, hds⟩⟩

/-- Of two texts ahead of a place one continues the other. -/
lemma Reads.comparable {data : List UInt8} {p q q' : Place} {cs ds : List Ch}
    (h : Reads data p cs q) (h' : Reads data p ds q') : ∃ t t', cs ++ t = ds ++ t' := by
  induction h generalizing ds with
  | nil p => exact ⟨ds, [], by simp⟩
  | @cons p r q c cs hc hcs ih =>
    cases h' with
    | nil => exact ⟨[], c :: cs, by simp⟩
    | cons hd hds =>
      obtain ⟨rfl, rfl⟩ := hc.unique hd
      obtain ⟨t, t', heq⟩ := ih hds
      exact ⟨t, t', by rw [List.cons_append, heq]; rfl⟩

lemma reads_bytes {data : List UInt8} (bs : List UInt8) {rest : List UInt8} {p : Place}
    (hready : p.decoder.Ready) (hrest : data.drop p.next = bs ++ rest)
    (hbs : ∀ b ∈ bs, b.toNat < 128) :
    Reads data p (bs.map Ch.ofByte) ⟨p.next + bs.length, bs.foldl Decoder.store p.decoder⟩ := by
  induction bs generalizing p with
  | nil => exact .nil p
  | cons b bs ih =>
    have hb := readsChar_byte hready hrest (hbs b (List.mem_cons_self ..))
    have hdrop : data.drop (p.next + 1) = bs ++ rest := by
      rw [← List.drop_drop, hrest]
      rfl
    have hread := ih (p := ⟨p.next + 1, p.decoder.store b⟩) hb.ready hdrop
      fun b hb => hbs b (List.mem_cons_of_mem _ hb)
    have hnext : p.next + 1 + bs.length = p.next + (b :: bs).length := by
      rw [List.length_cons]
      omega
    rw [hnext] at hread
    exact .cons hb hread

lemma Reads.sound {data : List UInt8} {p p' : Place} {cs : List Ch} (h : Reads data p cs p')
    (hsound : p.decoder.Sound) : p'.decoder.Sound := by
  induction h with
  | nil p => exact hsound
  | cons hc hcs ih => exact ih (hc.sound hsound)

lemma Reads.ready {data : List UInt8} {p p' : Place} {cs : List Ch} (h : Reads data p cs p')
    (hready : p.decoder.Ready) : p'.decoder.Ready := by
  induction h with
  | nil p => exact hready
  | cons hc hcs ih => exact ih hc.ready

def bytesOf (cs : List Ch) : Token := cs.flatMap Ch.bytes

@[simp] lemma bytesOf_append (cs ds : List Ch) : bytesOf (cs ++ ds) = bytesOf cs ++ bytesOf ds := by
  simp [bytesOf]

@[simp] lemma bytesOf_singleton (c : Ch) : bytesOf [c] = c.bytes := by
  simp [bytesOf]

/-- The text between two places. -/
lemma Reads.bytes {data : List UInt8} {p p' : Place} {cs : List Ch} (h : Reads data p cs p') :
    data.drop p.next = bytesOf cs ++ data.drop p'.next ∧
      p'.next = p.next + (bytesOf cs).length := by
  induction h with
  | nil p => exact ⟨rfl, rfl⟩
  | cons hc hcs ih =>
    refine ⟨?_, ?_⟩
    · rw [hc.bytes, ih.1]
      simp [bytesOf]
    · rw [ih.2, hc.next]
      simp [bytesOf]
      omega

end Axis2C.Guththila
