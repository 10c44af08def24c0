import Axis2C.Utf8Codec

/-!
# The buffers of the UTF-8 decoder

Which bytes of a stream are malformed, against what the decoder keeps of them.
`used_bytes` is left as it is when a character is complete, so the next byte is
stored behind this character, and the first cell of `used_buffer` keeps a byte
of an earlier one.
-/
namespace Axis2C.Guththila

/-! ### The bytes of a stream -/

def isFollowOn (b : UInt8) : Bool := 0x80 ≤ b.toNat ∧ b.toNat < 0xC0

/-- How many bytes a character that begins with `b` has. None begins with a follow-on byte, with
`C0` or `C1`, or with a byte from `F5` on. -/
def characterLength (b : UInt8) : ℕ :=
  if b.toNat < 0x80 then 1
  else if b.toNat < 0xC2 then 0
  else if b.toNat < 0xE0 then 2
  else if b.toNat < 0xF0 then 3
  else if b.toNat < 0xF5 then 4
  else 0

def firstPayload (b : UInt8) : ℕ :=
  if b.toNat < 0x80 then b.toNat
  else if b.toNat < 0xE0 then b.toNat % 32
  else if b.toNat < 0xF0 then b.toNat % 16
  else b.toNat % 8

def bytesValue : List UInt8 → ℕ
  | [] => 0
  | first :: rest => rest.foldl (fun c b => 64 * c + b.toNat % 64) (firstPayload first)

/-- The shortest form of a code point. The surrogates count as characters, as in the source. -/
def isCharacter (bytes : List UInt8) : Bool :=
  bytesValue bytes ≤ 0x10FFFF ∧ bytes.length = shortestForm (bytesValue bytes)

/-- What one byte means after the bytes of a character in progress. -/
structure Received where
  /-- The bytes of the character in progress after it. -/
  pending : List UInt8
  /-- The bytes that turn out to be malformed. -/
  broken : List UInt8
  /-- It is the last byte of a character. -/
  complete : Bool
  deriving Repr, DecidableEq

def receive (pending : List UInt8) (b : UInt8) : Received :=
  if b.toNat < 0x80 then ⟨[], pending, true⟩
  else if b.toNat < 0xC0 then
    match pending with
    | [] => ⟨[], [b], false⟩
    | first :: rest =>
      if rest.length + 2 < characterLength first then ⟨first :: (rest ++ [b]), [], false⟩
      else if isCharacter (first :: (rest ++ [b])) then ⟨[], [], true⟩
      else ⟨[], first :: (rest ++ [b]), false⟩
  else if characterLength b = 0 then ⟨[], pending ++ [b], false⟩
  else ⟨[b], pending, false⟩

/-- A stream up to some byte. -/
structure Intake where
  /-- The malformed bytes since the last complete character. -/
  malformed : List UInt8
  pending : List UInt8
  deriving Repr, DecidableEq

def Intake.broken (r : Intake) (b : UInt8) : List UInt8 := (receive r.pending b).broken

def Intake.next (r : Intake) (b : UInt8) : Intake where
  malformed := if (receive r.pending b).complete then [] else r.malformed ++ r.broken b
  pending := (receive r.pending b).pending

/-- `b` is the last byte of a sequence of the right length whose code point Unicode does not
have. -/
def aboveUnicode (pending : List UInt8) (b : UInt8) : Bool :=
  isFollowOn b ∧ pending.length + 1 = characterLength (pending.headD 0x80) ∧
    0x10FFFF < bytesValue (pending ++ [b])

/-! ### The decoder over a stream -/

/-- The first `error_bytes` entries of `error_buffer`. -/
def Decoder.errorEntries (d : Decoder) : List UInt8 := (d.buffers.drop 4).take d.errorBytes

/-- What holds of each call of a stream that is decoded. -/
def Fed (call : Decoder → Intake → UInt8 → Prop) : Decoder → Intake → List UInt8 → Prop
  | _, _, [] => True
  | d, r, b :: bs => call d r b ∧ Fed call (d.store b) (r.next b) bs

/-- The byte is stored inside of `used_buffer`, `error_bytes` is at most 4, and if it is not 0, the
entries of `error_buffer` are these bytes. -/
def Reports (d : Decoder) (b : UInt8) (bytes : List UInt8) : Prop :=
  d.usedBytes < 4 ∧ (d.store b).errorBytes ≤ 4 ∧
    ((d.store b).isError = true → (d.store b).errorEntries = bytes)

/-- The used bytes are as many as those of the character in progress, and begin as they do. -/
def Decoder.InStep (d : Decoder) (pending : List UInt8) : Prop :=
  d.usedBytes = pending.length ∧ (pending ≠ [] → d.buffers.head? = pending.head?)

/-- Before a byte: there is a cell for it, and where it shows that bytes are malformed, the used
bytes are those of the character in progress, and no code point above Unicode is complete, unless
`error_buffer` has its bytes already. -/
def Prepared (d : Decoder) (r : Intake) (b : UInt8) : Prop :=
  d.usedBytes < 4 ∧ (r.broken b ≠ [] →
    if aboveUnicode r.pending b then
      (d.buffers.drop 4).take (r.pending.length + 1) = r.pending ++ [b]
    else d.InStep r.pending)

/-! ### The cells -/

lemma errorEntries_reportError {d : Decoder} {n : ℕ} (hlength : d.buffers.length = 8)
    (hn : n ≤ 4) : (d.reportError n).errorEntries = d.buffers.take n := by
  have htake : (d.buffers.take 4).length = 4 := by rw [List.length_take]; omega
  have hfirst : (d.buffers.take n).length = n := by rw [List.length_take]; omega
  simp only [Decoder.errorEntries, Decoder.reportError, List.append_assoc]
  rw [List.drop_left' htake, List.take_left' hfirst]

lemma reportError_buffers {d : Decoder} {n : ℕ} (hlength : d.buffers.length = 8) (hn : n ≤ 4) :
    (d.reportError n).buffers.length = 8 ∧
      (d.reportError n).buffers.take 4 = d.buffers.take 4 := by
  have htake : (d.buffers.take 4).length = 4 := by rw [List.length_take]; omega
  constructor
  · simp only [Decoder.reportError, List.length_append, List.length_take, List.length_drop]
    omega
  · simp only [Decoder.reportError, List.append_assoc]
    exact List.take_left' htake

/-- The bytes in front of the cell that is written, and the byte. -/
lemma take_set {cells : List UInt8} {u : ℕ} (hu : u < cells.length) (b : UInt8) :
    (cells.set u b).take (u + 1) = cells.take u ++ [b] := by
  rw [List.take_add_one, List.getElem?_set_self hu, List.take_set_of_le le_rfl]
  rfl

/-! ### One byte -/

/-- How the fields of the decoder stand to the stream before them. -/
structure Decoder.Keeps (d : Decoder) (r : Intake) : Prop where
  cells : d.buffers.length = 8
  used : d.usedBytes ≤ 4
  /-- The first cell never has a follow-on byte while bytes are in use. -/
  front : 0 < d.usedBytes → isFollowOn (d.buffers.headD 0) = false
  idle : r.pending = [] → d.remainingBytes = 0 ∧ (r.malformed ≠ [] → d.usedBytes = 0)
  inside : ∀ first rest, r.pending = first :: rest → 0 < d.remainingBytes ∧
    rest.length + 1 + d.remainingBytes = characterLength first ∧
    d.usedBytes = rest.length + 1 ∧ d.codePoint = bytesValue r.pending ∧
    (d.buffers.take d.usedBytes).tail = rest

/-- What one byte does to a decoder that keeps step with the stream. -/
structure Stored (d : Decoder) (r : Intake) (b : UInt8) : Prop where
  keeps : (d.store b).Keeps (r.next b)
  bound : (d.store b).errorBytes ≤ 4
  error : (d.store b).isError = true ↔ r.broken b ≠ []
  entries : r.broken b ≠ [] → ((d.store b).errorEntries = r.broken b ↔
    if aboveUnicode r.pending b then
      (d.buffers.drop 4).take (r.pending.length + 1) = r.pending ++ [b]
    else d.InStep r.pending)
  length : r.malformed ≠ [] → r.broken b ≠ [] → (d.store b).errorBytes = (r.broken b).length

def Decoder.placed (d : Decoder) (b : UInt8) : Decoder :=
  { d with errorBytes := 0, buffers := d.buffers.set d.usedBytes b }

section Step

variable {d : Decoder} {r : Intake} {b : UInt8}

lemma characterLength_le (b : UInt8) : characterLength b ≤ 4 := by
  unfold characterLength
  split_ifs <;> omega

lemma Decoder.Keeps.inStep_iff (h : d.Keeps r) :
    d.buffers.take d.usedBytes = r.pending ↔ d.InStep r.pending := by
  have hcells := h.cells
  cases hpending : r.pending with
  | nil =>
    have hlength : (d.buffers.take d.usedBytes).length = d.usedBytes := by
      rw [List.length_take, h.cells]
      have hused := h.used
      omega
    constructor
    · intro htake
      rw [htake] at hlength
      exact ⟨hlength.symm, fun hne => absurd rfl hne⟩
    · rintro ⟨hused, -⟩
      rw [hused, List.length_nil, List.take_zero]
  | cons first rest =>
    obtain ⟨-, -, hused, -, htail⟩ := h.inside first rest hpending
    obtain ⟨x, xs, hbuffers⟩ : ∃ x xs, d.buffers = x :: xs :=
      List.exists_cons_of_length_pos (by omega)
    rw [hbuffers, hused, List.take_succ_cons] at htail ⊢
    rw [List.tail_cons] at htail
    rw [htail, Decoder.InStep, hbuffers]
    simp [hused]

lemma placed_facts (hcells : d.buffers.length = 8) (hused : d.usedBytes < 4) :
    (d.placed b).buffers.length = 8 ∧
      (d.placed b).buffers.take d.usedBytes = d.buffers.take d.usedBytes ∧
      (d.placed b).buffers.take (d.usedBytes + 1) = d.buffers.take d.usedBytes ++ [b] ∧
      (d.placed b).buffers.drop 4 = d.buffers.drop 4 := by
  refine ⟨by rw [Decoder.placed, List.length_set, hcells], ?_, ?_, ?_⟩
  · exact List.take_set_of_le le_rfl
  · exact take_set (by omega) b
  · exact List.drop_set_of_lt hused

lemma store_first (d : Decoder) (hb : characterLength b ≠ 0) :
    d.store b = (d.placed b).lead (firstPayload b) (characterLength b - 1) := by
  have hlow5 : b.toNat &&& 0x1F = b.toNat % 32 := Nat.and_two_pow_sub_one_eq_mod _ 5
  have hlow4 : b.toNat &&& 0x0F = b.toNat % 16 := Nat.and_two_pow_sub_one_eq_mod _ 4
  have hlow3 : b.toNat &&& 0x07 = b.toNat % 8 := Nat.and_two_pow_sub_one_eq_mod _ 3
  simp only [Decoder.store, hlow5, hlow4, hlow3]
  unfold characterLength at hb ⊢
  unfold firstPayload
  split_ifs at hb ⊢ <;> first | rfl | omega

lemma store_continuation (d : Decoder) (hb : isFollowOn b = true) :
    d.store b = (d.placed b).followOn b.toNat := by
  simp only [isFollowOn, decide_eq_true_eq] at hb
  simp only [Decoder.store]
  rw [if_neg (by omega), if_pos hb.2]
  rfl

/-- A byte that is never part of a character. -/
lemma store_never (d : Decoder) (hb : characterLength b = 0) (hfollow : isFollowOn b = false) :
    d.store b = ((d.placed b).reportError (d.usedBytes + 1)).replace := by
  simp only [isFollowOn, decide_eq_false_iff_not] at hfollow
  unfold characterLength at hb
  simp only [Decoder.store]
  split_ifs at hb ⊢ <;> first | rfl | omega

lemma receive_first (pending : List UInt8) (hb : characterLength b ≠ 0) :
    receive pending b = if characterLength b = 1 then ⟨[], pending, true⟩
      else ⟨[b], pending, false⟩ := by
  unfold receive
  unfold characterLength at hb ⊢
  split_ifs at hb ⊢ <;> first | rfl | omega

lemma receive_never (pending : List UInt8) (hb : characterLength b = 0)
    (hfollow : isFollowOn b = false) : receive pending b = ⟨[], pending ++ [b], false⟩ := by
  simp only [isFollowOn, decide_eq_false_iff_not] at hfollow
  have hlength := hb
  unfold receive
  unfold characterLength at hb
  split_ifs at hb ⊢ <;> first | rfl | omega

lemma not_followOn_of_first (hb : characterLength b ≠ 0) : isFollowOn b = false := by
  unfold characterLength at hb
  simp only [isFollowOn, decide_eq_false_iff_not]
  split_ifs at hb <;> omega

lemma not_aboveUnicode (pending : List UInt8) (hfollow : isFollowOn b = false) :
    aboveUnicode pending b = false := by
  simp [aboveUnicode, hfollow]

/-- The first cell stays, or gets the byte. -/
lemma front_of_take {cells cells' : List UInt8} (hcells : cells.length = 8)
    (htake : cells'.take 4 = cells.take 4) : cells'.headD 0 = cells.headD 0 := by
  obtain ⟨x, xs, rfl⟩ : ∃ x xs, cells = x :: xs := List.exists_cons_of_length_pos (by omega)
  cases cells' with
  | nil => simp at htake
  | cons y ys =>
    rw [List.take_succ_cons, List.take_succ_cons] at htake
    exact (List.cons.inj htake).1

lemma Decoder.Keeps.placed_front (h : d.Keeps r) (hfollow : isFollowOn b = false) :
    isFollowOn ((d.placed b).buffers.headD 0) = false := by
  obtain ⟨x, xs, hbuffers⟩ : ∃ x xs, d.buffers = x :: xs :=
    List.exists_cons_of_length_pos (by rw [h.cells]; omega)
  have hfront := h.front
  rw [Decoder.placed, hbuffers]
  rw [hbuffers] at hfront
  cases hused : d.usedBytes with
  | zero => simpa using hfollow
  | succ u => simpa using hfront (by omega)

lemma lead_cells {d : Decoder} (hlength : d.buffers.length = 8) (hused : d.usedBytes ≤ 4)
    (value owed : ℕ) : (d.lead value owed).buffers.length = 8 ∧
      (d.lead value owed).buffers.take 4 = d.buffers.take 4 := by
  unfold Decoder.lead
  split_ifs
  · exact reportError_buffers hlength hused
  · exact ⟨hlength, rfl⟩

/-- The byte begins a character: what is in progress before it is malformed. -/
lemma stored_first (h : d.Keeps r) (hused : d.usedBytes < 4) (hb : characterLength b ≠ 0) :
    Stored d r b := by
  obtain ⟨hlength, htake, -, hdrop⟩ := placed_facts (b := b) h.cells hused
  have hfollow := not_followOn_of_first hb
  have hfront := h.placed_front hfollow
  have hreceive := receive_first r.pending hb
  have hbroken : r.broken b = r.pending := by
    rw [Intake.broken, hreceive]
    split <;> rfl
  have hremaining : 0 < d.remainingBytes ↔ r.pending ≠ [] := by
    constructor
    · intro hpos hnil
      exact hpos.ne' (h.idle hnil).1
    · intro hne
      obtain ⟨first, rest, hpending⟩ := List.exists_cons_of_ne_nil hne
      exact (h.inside first rest hpending).1
  have hstore := store_first d hb
  obtain ⟨hcells, hsame⟩ := lead_cells hlength hused.le (firstPayload b) (characterLength b - 1)
  -- the bytes that are reported
  have herror : (d.store b).errorBytes = r.pending.length ∧
      (r.pending ≠ [] → (d.store b).errorEntries = d.buffers.take d.usedBytes) := by
    rw [hstore]
    cases hpending : r.pending with
    | nil =>
      have hzero : ¬ 0 < (d.placed b).remainingBytes := by
        simp [Decoder.placed, (h.idle hpending).1]
      refine ⟨?_, fun hne => absurd rfl hne⟩
      rw [Decoder.lead, if_neg hzero]
      rfl
    | cons first rest =>
      obtain ⟨hpos, -, husedEq, -, -⟩ := h.inside first rest hpending
      have hlead : (d.placed b).lead (firstPayload b) (characterLength b - 1) =
          { (d.placed b).reportError d.usedBytes with
            codePoint := firstPayload b, usedBytes := 1
            remainingBytes := characterLength b - 1 } := by
        have hplaced : 0 < (d.placed b).remainingBytes := hpos
        rw [Decoder.lead, if_pos hplaced]
        rfl
      rw [hlead]
      exact ⟨husedEq, fun _ => (errorEntries_reportError hlength hused.le).trans htake⟩
  have hbytes : r.pending.length ≤ 4 := by
    cases hpending : r.pending with
    | nil => simp
    | cons first rest =>
      obtain ⟨-, -, husedEq, -, -⟩ := h.inside first rest hpending
      rw [List.length_cons]
      omega
  refine ⟨⟨?_, ?_, ?_, ?_, ?_⟩, ?_, ?_, ?_, ?_⟩
  · rw [hstore]
    exact hcells
  · rw [hstore]
    exact Nat.one_le_ofNat
  · intro _
    rw [hstore, front_of_take hlength hsame]
    exact hfront
  · rw [Intake.next, hreceive]
    split
    · next hone =>
        intro _
        refine ⟨?_, fun hne => absurd rfl hne⟩
        rw [hstore, hone]
        rfl
    · intro hnil
      cases hnil
  · rw [Intake.next, hreceive]
    split
    · intro first rest hnil
      cases hnil
    · next hone =>
        intro first rest hcons
        obtain ⟨rfl, rfl⟩ := List.cons.inj hcons
        rw [hstore]
        refine ⟨?_, ?_, rfl, rfl, ?_⟩
        · change 0 < characterLength b - 1
          omega
        · change 0 + 1 + (characterLength b - 1) = characterLength b
          omega
        · obtain ⟨x, xs, hx⟩ : ∃ x xs, ((d.placed b).lead (firstPayload b)
              (characterLength b - 1)).buffers = x :: xs :=
            List.exists_cons_of_length_pos (by omega)
          rw [hx]
          rfl
  · rw [herror.1]
    exact hbytes
  · rw [hbroken, Decoder.isError, herror.1, decide_eq_true_eq, List.length_pos_iff]
  · intro hne
    rw [hbroken] at hne ⊢
    rw [not_aboveUnicode _ hfollow, herror.2 hne, h.inStep_iff]
    rfl
  · intro _ _
    rw [hbroken]
    exact herror.1

/-- The character is lost and nothing is in progress. -/
lemma keeps_lost {d' : Decoder} {r' : Intake} (hcells : d'.buffers.length = 8)
    (hused : d'.usedBytes = 0) (hremaining : d'.remainingBytes = 0) (hpending : r'.pending = []) :
    d'.Keeps r' where
  cells := hcells
  used := by omega
  front := by omega
  idle := fun _ => ⟨hremaining, fun _ => hused⟩
  inside := by
    intro first rest hcons
    rw [hpending] at hcons
    cases hcons

lemma Decoder.Keeps.take_length (h : d.Keeps r) :
    (d.buffers.take d.usedBytes).length = d.usedBytes := by
  have hused := h.used
  rw [List.length_take, h.cells]
  omega

/-- A byte that is never part of a character is malformed with what is in progress. -/
lemma stored_never (h : d.Keeps r) (hused : d.usedBytes < 4) (hb : characterLength b = 0)
    (hfollow : isFollowOn b = false) : Stored d r b := by
  obtain ⟨hlength, -, htake, -⟩ := placed_facts (b := b) h.cells hused
  have hreceive := receive_never r.pending hb hfollow
  have hbroken : r.broken b = r.pending ++ [b] := by rw [Intake.broken, hreceive]
  have hne : r.broken b ≠ [] := by simp [hbroken]
  have hstore := store_never d hb hfollow
  obtain ⟨hcells, -⟩ := reportError_buffers (d := d.placed b) hlength hused
  have hentries : (d.store b).errorEntries = d.buffers.take d.usedBytes ++ [b] := by
    rw [hstore, ← htake]
    exact errorEntries_reportError hlength hused
  have herror : (d.store b).errorBytes = d.usedBytes + 1 := by
    rw [hstore]
    rfl
  refine ⟨?_, ?_, ?_, ?_, ?_⟩
  · rw [hstore]
    exact keeps_lost hcells rfl rfl (by rw [Intake.next, hreceive])
  · rw [herror]
    exact hused
  · exact iff_of_true (by rw [Decoder.isError, herror]; simp) hne
  · intro _
    rw [not_aboveUnicode _ hfollow, hentries, hbroken, List.append_left_inj, h.inStep_iff]
    rfl
  · intro hmalformed _
    rw [herror, hbroken, List.length_append, List.length_singleton]
    cases hpending : r.pending with
    | nil => rw [(h.idle hpending).2 hmalformed, List.length_nil]
    | cons first rest => rw [(h.inside first rest hpending).2.2.1, List.length_cons]

/-- A follow-on byte that is not expected. -/
lemma stored_unexpected (h : d.Keeps r) (hused : d.usedBytes < 4) (hfollow : isFollowOn b = true)
    (hpending : r.pending = []) : Stored d r b := by
  obtain ⟨hlength, -, htake, -⟩ := placed_facts (b := b) h.cells hused
  have hreceive : receive r.pending b = ⟨[], [b], false⟩ := by
    simp only [isFollowOn, decide_eq_true_eq] at hfollow
    rw [hpending, receive, if_neg (by omega), if_pos hfollow.2]
  have hbroken : r.broken b = [b] := by rw [Intake.broken, hreceive]
  have hne : r.broken b ≠ [] := by simp [hbroken]
  have hstore : d.store b = ((d.placed b).reportError 1).replace := by
    have hzero : ¬ 0 < (d.placed b).remainingBytes := by
      simp [Decoder.placed, (h.idle hpending).1]
    rw [store_continuation d hfollow, Decoder.followOn, if_neg hzero]
  have hone : 1 ≤ 4 := by omega
  obtain ⟨hcells, -⟩ := reportError_buffers (d := d.placed b) hlength hone
  have hentries : (d.store b).errorEntries = (d.placed b).buffers.take 1 := by
    rw [hstore]
    exact errorEntries_reportError hlength hone
  have herror : (d.store b).errorBytes = 1 := by
    rw [hstore]
    rfl
  refine ⟨?_, ?_, ?_, ?_, ?_⟩
  · rw [hstore]
    exact keeps_lost hcells rfl rfl (by rw [Intake.next, hreceive])
  · rw [herror]
    omega
  · exact iff_of_true (by rw [Decoder.isError, herror]; rfl) hne
  · intro _
    have habove : aboveUnicode r.pending b = false := by
      rw [hpending]
      simp [aboveUnicode, characterLength]
    rw [habove, if_neg (by simp), hentries, hbroken, Decoder.InStep, hpending]
    by_cases hzero : d.usedBytes = 0
    · rw [hzero, List.take_zero, List.nil_append, Nat.zero_add] at htake
      exact iff_of_true htake ⟨hzero, fun hne => absurd rfl hne⟩
    · refine iff_of_false ?_ fun hstep => hzero hstep.1
      -- the first cell has the byte of an earlier character
      obtain ⟨x, xs, hbuffers⟩ : ∃ x xs, d.buffers = x :: xs :=
        List.exists_cons_of_length_pos (by rw [h.cells]; omega)
      obtain ⟨u, hu⟩ := Nat.exists_eq_succ_of_ne_zero hzero
      have hfirst := h.front (Nat.pos_of_ne_zero hzero)
      rw [hbuffers, List.headD_cons] at hfirst
      rw [Decoder.placed, hbuffers, hu]
      intro hsame
      obtain rfl : x = b := by simpa using hsame
      rw [hfirst] at hfollow
      cases hfollow
  · intro _ _
    rw [herror, hbroken]
    rfl

lemma bytesValue_append (first : UInt8) (rest : List UInt8) (b : UInt8) :
    bytesValue (first :: (rest ++ [b])) = 64 * bytesValue (first :: rest) + b.toNat % 64 := by
  simp [bytesValue]

/-- The next byte of a character, and its last byte. -/
lemma stored_continuation (h : d.Keeps r) (hused : d.usedBytes < 4) (hfollow : isFollowOn b = true)
    {first : UInt8} {rest : List UInt8} (hpending : r.pending = first :: rest) :
    Stored d r b := by
  obtain ⟨hlength, -, htake, hdrop⟩ := placed_facts (b := b) h.cells hused
  obtain ⟨hpos, hcount, husedEq, hvalue, htail⟩ := h.inside first rest hpending
  have hfirst := characterLength_le first
  have hranges : 0x80 ≤ b.toNat ∧ b.toNat < 0xC0 := by simpa [isFollowOn] using hfollow
  -- the first cell is left alone
  have hfront : isFollowOn ((d.placed b).buffers.headD 0) = false := by
    obtain ⟨x, xs, hbuffers⟩ : ∃ x xs, d.buffers = x :: xs :=
      List.exists_cons_of_length_pos (by rw [h.cells]; omega)
    have hold := h.front (by omega)
    rw [hbuffers, List.headD_cons] at hold
    rw [Decoder.placed, hbuffers, husedEq]
    simpa using hold
  have hsum : (d.codePoint <<< 6) ||| (b.toNat &&& 0x3F) = bytesValue (first :: (rest ++ [b])) := by
    rw [followOn_value, hvalue, hpending, bytesValue_append]
  set d' : Decoder :=
    { d.placed b with
      codePoint := bytesValue (first :: (rest ++ [b]))
      usedBytes := d.usedBytes + 1
      remainingBytes := d.remainingBytes - 1 } with hd'
  have hstore : d.store b = if d.remainingBytes - 1 = 0 then d'.finish else d' := by
    have hplaced : 0 < (d.placed b).remainingBytes := hpos
    rw [store_continuation d hfollow, Decoder.followOn, if_pos hplaced, hd', ← hsum]
    rfl
  have hreceive : receive r.pending b =
      if rest.length + 2 < characterLength first then ⟨first :: (rest ++ [b]), [], false⟩
      else if isCharacter (first :: (rest ++ [b])) then ⟨[], [], true⟩
      else ⟨[], first :: (rest ++ [b]), false⟩ := by
    rw [hpending, receive, if_neg (by omega), if_pos hranges.2]
  by_cases hmore : rest.length + 2 < characterLength first
  · rw [if_pos hmore] at hreceive
    rw [if_neg (by omega)] at hstore
    have hbroken : r.broken b = [] := by rw [Intake.broken, hreceive]
    refine ⟨⟨?_, ?_, ?_, ?_, ?_⟩, ?_, ?_, ?_, ?_⟩
    · rw [hstore]
      exact hlength
    · rw [hstore]
      exact hused
    · intro _
      rw [hstore]
      exact hfront
    · rw [Intake.next, hreceive]
      intro hnil
      cases hnil
    · rw [Intake.next, hreceive]
      intro first' rest' hcons
      obtain ⟨rfl, rfl⟩ := List.cons.inj hcons
      rw [hstore, List.length_append, List.length_singleton]
      refine ⟨?_, ?_, ?_, rfl, ?_⟩
      · change 0 < d.remainingBytes - 1
        omega
      · change rest.length + 1 + 1 + (d.remainingBytes - 1) = _
        omega
      · change d.usedBytes + 1 = _
        omega
      · change ((d.placed b).buffers.take (d.usedBytes + 1)).tail = _
        rw [htake, List.tail_append_of_ne_nil, htail]
        rw [← List.length_pos_iff, h.take_length]
        omega
    · rw [hstore]
      exact Nat.zero_le _
    · rw [hbroken, hstore]
      simp [Decoder.isError, hd', Decoder.placed]
    · exact fun hne => absurd hbroken hne
    · exact fun _ hne => absurd hbroken hne
  · rw [if_neg hmore] at hreceive
    rw [if_pos (by omega)] at hstore
    have hlast : rest.length + 2 = characterLength first := by omega
    have hsize : (first :: (rest ++ [b])).length = d.usedBytes + 1 := by
      simp [husedEq]
    by_cases hchar : isCharacter (first :: (rest ++ [b])) = true
    · -- the character is complete
      rw [if_pos hchar] at hreceive
      simp only [isCharacter, decide_eq_true_eq] at hchar
      have hfinish : d'.finish = d' := by
        have hsame : ¬ d'.usedBytes ≠ shortestForm d'.codePoint :=
          not_not.mpr (hsize.symm.trans hchar.2)
        rw [Decoder.finish, if_pos hchar.1, if_neg hsame]
      rw [hfinish] at hstore
      have hbroken : r.broken b = [] := by rw [Intake.broken, hreceive]
      refine ⟨⟨?_, ?_, ?_, ?_, ?_⟩, ?_, ?_, ?_, ?_⟩
      · rw [hstore]
        exact hlength
      · rw [hstore]
        exact hused
      · intro _
        rw [hstore]
        exact hfront
      · rw [Intake.next, hreceive, hstore]
        refine fun _ => ⟨?_, fun hne => absurd rfl hne⟩
        change d.remainingBytes - 1 = 0
        omega
      · rw [Intake.next, hreceive]
        intro _ _ hnil
        cases hnil
      · rw [hstore]
        exact Nat.zero_le _
      · rw [hbroken, hstore]
        simp [Decoder.isError, hd', Decoder.placed]
      · exact fun hne => absurd hbroken hne
      · exact fun _ hne => absurd hbroken hne
    · rw [if_neg hchar] at hreceive
      simp only [isCharacter, decide_eq_true_eq] at hchar
      have hbroken : r.broken b = first :: (rest ++ [b]) := by rw [Intake.broken, hreceive]
      have hne : r.broken b ≠ [] := by simp [hbroken]
      have hnext : (r.next b).pending = [] := by rw [Intake.next, hreceive]
      by_cases habove : 0x10FFFF < bytesValue (first :: (rest ++ [b]))
      · -- nothing is copied
        have hfinish : d'.finish = { d' with errorBytes := d'.usedBytes }.replace := by
          have hnot : ¬ d'.codePoint ≤ 0x10FFFF := not_le.mpr habove
          rw [Decoder.finish, if_neg hnot]
        rw [hfinish] at hstore
        have herror : (d.store b).errorBytes = d.usedBytes + 1 := by
          rw [hstore]
          rfl
        have hentries : (d.store b).errorEntries = (d.buffers.drop 4).take (d.usedBytes + 1) := by
          rw [← hdrop, hstore]
          rfl
        refine ⟨?_, ?_, ?_, ?_, ?_⟩
        · rw [hstore]
          exact keeps_lost hlength rfl rfl hnext
        · rw [herror]
          exact hused
        · exact iff_of_true (by rw [Decoder.isError, herror]; simp) hne
        · intro _
          have hunicode : aboveUnicode r.pending b = true := by
            rw [hpending]
            simp only [aboveUnicode, decide_eq_true_eq]
            exact ⟨hfollow, by simpa using hlast, habove⟩
          rw [hunicode, if_pos rfl, hentries, hbroken, hpending, husedEq]
          rfl
        · intro _ _
          rw [herror, hbroken, hsize]
      · -- an overlong form
        have hfinish : d'.finish = (d'.reportError (d.usedBytes + 1)).replace := by
          have hform : d'.usedBytes ≠ shortestForm d'.codePoint :=
            fun hform => hchar ⟨not_lt.mp habove, hsize.trans hform⟩
          have hmax : d'.codePoint ≤ 0x10FFFF := not_lt.mp habove
          rw [Decoder.finish, if_pos hmax, if_pos hform]
        rw [hfinish] at hstore
        have hcells' : d'.buffers.length = 8 := hlength
        obtain ⟨hcells, -⟩ := reportError_buffers hcells' hused
        have hentries : (d.store b).errorEntries = d.buffers.take d.usedBytes ++ [b] := by
          rw [hstore, ← htake]
          exact errorEntries_reportError hcells' hused
        have herror : (d.store b).errorBytes = d.usedBytes + 1 := by
          rw [hstore]
          rfl
        refine ⟨?_, ?_, ?_, ?_, ?_⟩
        · rw [hstore]
          exact keeps_lost hcells rfl rfl hnext
        · rw [herror]
          exact hused
        · exact iff_of_true (by rw [Decoder.isError, herror]; simp) hne
        · intro _
          have hunicode : aboveUnicode r.pending b = false := by
            rw [hpending]
            simp only [aboveUnicode, decide_eq_false_iff_not]
            exact fun h => habove h.2.2
          rw [hunicode, if_neg (by simp), hentries, hbroken, ← List.cons_append,
            List.append_left_inj, ← hpending]
          exact h.inStep_iff
        · intro _ _
          rw [herror, hbroken, hsize]

lemma stored (h : d.Keeps r) (hused : d.usedBytes < 4) (b : UInt8) : Stored d r b := by
  by_cases hb : characterLength b = 0
  · cases hfollow : isFollowOn b with
    | false => exact stored_never h hused hb hfollow
    | true =>
      cases hpending : r.pending with
      | nil => exact stored_unexpected h hused hfollow hpending
      | cons first rest => exact stored_continuation h hused hfollow hpending
  · exact stored_first h hused hb

end Step

/-! ### Streams -/

lemma keeps_create : utf8DecoderCreate.Keeps ⟨[], []⟩ where
  cells := rfl
  used := Nat.zero_le _
  front := fun h => absurd h (by decide)
  idle := fun _ => ⟨rfl, fun h => absurd rfl h⟩
  inside := fun _ _ h => by cases h

/-- Two properties of the calls that agree where the decoder keeps step hold of the same
streams. -/
lemma fed_iff {call call' : Decoder → Intake → UInt8 → Prop}
    (hused : ∀ {d r b}, call d r b → d.usedBytes < 4)
    (hiff : ∀ {d : Decoder} {r : Intake} {b : UInt8}, d.Keeps r → (call d r b ↔ call' d r b))
    (bs : List UInt8) {d : Decoder} {r : Intake} (h : d.Keeps r) :
    Fed call d r bs ↔ Fed call' d r bs := by
  induction bs generalizing d r with
  | nil => exact Iff.rfl
  | cons b bs ih =>
    constructor
    · rintro ⟨hcall, hrest⟩
      exact ⟨(hiff h).mp hcall, (ih (stored h (hused hcall) b).keeps).mp hrest⟩
    · rintro ⟨hcall, hrest⟩
      have hcall' := (hiff h).mpr hcall
      exact ⟨hcall', (ih (stored h (hused hcall') b).keeps).mpr hrest⟩

/-- The bytes of one error. -/
lemma reports_broken_iff {d : Decoder} {r : Intake} {b : UInt8} (h : d.Keeps r) :
    Reports d b (r.broken b) ↔ Prepared d r b := by
  constructor
  · rintro ⟨hused, -, hentries⟩
    have hstored := stored h hused b
    exact ⟨hused, fun hne => (hstored.entries hne).mp (hentries (hstored.error.mpr hne))⟩
  · rintro ⟨hused, hprepared⟩
    have hstored := stored h hused b
    refine ⟨hused, hstored.bound, fun herror => ?_⟩
    have hne := hstored.error.mp herror
    exact (hstored.entries hne).mpr (hprepared hne)

/-- All malformed bytes since the last complete character. -/
lemma reports_malformed_iff {d : Decoder} {r : Intake} {b : UInt8} (h : d.Keeps r) :
    Reports d b (r.malformed ++ r.broken b) ↔
      Prepared d r b ∧ (r.broken b ≠ [] → r.malformed = []) := by
  constructor
  · rintro ⟨hused, hbound, hentries⟩
    have hstored := stored h hused b
    have hfirst : r.broken b ≠ [] → r.malformed = [] := by
      intro hne
      by_contra hmalformed
      have hlength := congrArg List.length (hentries (hstored.error.mpr hne))
      have hsize := hstored.length hmalformed hne
      have hcells : (d.store b).errorEntries.length ≤ (d.store b).errorBytes := by
        rw [Decoder.errorEntries, List.length_take]
        exact Nat.min_le_left _ _
      rw [List.length_append] at hlength
      have hpos := List.length_pos_iff.mpr hmalformed
      omega
    refine ⟨(reports_broken_iff h).mp ⟨hused, hbound, fun herror => ?_⟩, hfirst⟩
    rw [hentries herror, hfirst (hstored.error.mp herror), List.nil_append]
  · rintro ⟨hprepared, hfirst⟩
    obtain ⟨hused, hbound, hentries⟩ := (reports_broken_iff h).mpr hprepared
    have hstored := stored h hused b
    refine ⟨hused, hbound, fun herror => ?_⟩
    rw [hentries herror, hfirst (hstored.error.mp herror), List.nil_append]

end Axis2C.Guththila
