import Axis2C.HttpChunkedReader

/-!
# The body of a request

`axis2_http_transport_utils_on_data_request`, through which the parsers read a body, and the
context that `axis2_http_transport_utils_process_http_post_request` makes for it. The stream
hands over at each read a non-empty part of what is asked for, and behind its last byte it
answers 0 or -1. Lengths stay in the int range.
-/
namespace Axis2C.HttpRequestBody
open HttpChunkedReader

/-- `axis2_callback_info_t`. -/
structure CallbackInfo where
  inStream : Wire
  contentLength : ℤ
  unreadLen : ℤ
  chunkedStream : Option ChunkedStream

/-- What a call returns, what it stores into the buffer and the context behind it. -/
structure Answer where
  len : CInt
  stores : List Store
  info : CallbackInfo

/-- The bytes the caller takes from the buffer. -/
def Answer.data (a : Answer) : List UInt8 :=
  (a.stores.flatMap Store.bytes).take a.len.val.toNat

lemma inInt_zero : InInt 0 := by decide

def zero : CInt := ⟨0, inInt_zero⟩

/-- The terminating NUL. -/
def escNull (len : CInt) : Store := ⟨len.val, [0]⟩

/-- The branch without chunks; one byte of the buffer is reserved. -/
def readContent (info : CallbackInfo) (size : ℕ) : Answer :=
  let (len, bytes, inStream) := streamRead info.inStream (size - 1)
  let info := { info with inStream }
  if 0 < len.val then
    ⟨len, [⟨0, bytes⟩, escNull len], { info with unreadLen := info.unreadLen - len.val }⟩
  else if len.val = 0 then ⟨len, [⟨0, bytes⟩], { info with unreadLen := 0 }⟩
  else ⟨len, [⟨0, bytes⟩], info⟩

/-- `axis2_http_transport_utils_on_data_request`; `buffer` says whether the pointer is set. -/
def onDataRequest (fuel : ℕ) (buffer : Bool) (size : ℕ) (info : CallbackInfo) :
    Except Fault Answer :=
  if buffer = false then .ok ⟨zero, [], info⟩
  else if info.unreadLen ≤ 0 ∧ info.contentLength ≠ -1 then .ok ⟨zero, [], info⟩
  else
    match info.chunkedStream with
    | some cs => do
        let result ← httpChunkedStreamRead fuel cs (some info.inStream) true (size - 1)
        let stores :=
          if 0 ≤ result.ret.val then result.stores ++ [escNull result.ret] else result.stores
        .ok ⟨result.ret, stores,
          { info with
            inStream := result.stream.getD info.inStream
            chunkedStream := some result.cs }⟩
    | none => .ok (readContent info size)

/-- The context of a request with a length and without chunked encoding. -/
def callbackContext (inStream : Wire) (contentLength : ℕ) : CallbackInfo :=
  ⟨inStream, contentLength, contentLength, none⟩

abbrev BufferSize := { size : ℕ // 1 < size }

def answers (fuel : ℕ) : CallbackInfo → List BufferSize → Except Fault (List Answer)
  | _, [] => .ok []
  | info, size :: sizes => do
      let a ← onDataRequest fuel true size.val info
      let rest ← answers fuel a.info sizes
      .ok (a :: rest)

def delivered (as : List Answer) : List UInt8 := as.flatMap Answer.data

/-- A body of `n` bytes in front of the stream is delivered, and no byte behind it touched. -/
structure BodyOnly (n : ℕ) (s : Wire) (as : List Answer) : Prop where
  body : delivered as <+: s.pending.take n
  untouched : ∀ a ∈ as, s.pending.drop n <:+ a.info.inStream.pending
  goesOn : ∀ calls a rest, as = calls ++ a :: rest → (delivered calls).length < n →
    (delivered calls).length < s.pending.length → 0 < a.len.val
  silent : ∀ calls a rest, as = calls ++ a :: rest →
    n ≤ (delivered calls).length ∨ s.pending.length ≤ (delivered calls).length → a.len.val = 0

/-- All calls return, and what they deliver is the body. -/
def Serves (fuel n : ℕ) (s : Wire) (sizes : List BufferSize) : Prop :=
  ∃ as, answers fuel (callbackContext s n) sizes = .ok as ∧ BodyOnly n s as

/-- No read that starts among the next `left` bytes of the stream is handed bytes from behind
them, and an end of the stream among them is answered with 0. -/
inductive Fits : ℕ → Wire → List BufferSize → Prop
  | idle {left : ℕ} {s : Wire} : Fits left s []
  | whole {s : Wire} {sizes : List BufferSize} : Fits 0 s sizes
  | ended {left : ℕ} {s : Wire} {sizes : List BufferSize} (hpending : s.pending = [])
      (hresult : s.endResult.val = 0) : Fits left s sizes
  | read {left : ℕ} {s : Wire} {size : BufferSize} {sizes : List BufferSize}
      (hpending : s.pending ≠ []) (hroom : s.handed (size.val - 1) ≤ left)
      (hrest : Fits (left - s.handed (size.val - 1)) (s.advance (s.handed (size.val - 1))) sizes) :
      Fits left s (size :: sizes)

section Calls

variable {fuel n : ℕ} {s : Wire} {info : CallbackInfo} {size : BufferSize}
  {sizes : List BufferSize} {a : Answer}

/-- The answer of a call that does not read. -/
def quiet (info : CallbackInfo) : Answer := ⟨zero, [], info⟩

@[simp] lemma data_quiet (info : CallbackInfo) : (quiet info).data = [] := rfl

lemma onDataRequest_done (hunread : info.unreadLen ≤ 0) (hlength : info.contentLength ≠ -1) :
    onDataRequest fuel true size.val info = .ok (quiet info) := by
  rw [onDataRequest, if_neg Bool.noConfusion, if_pos ⟨hunread, hlength⟩]
  rfl

lemma onDataRequest_reads (hunread : 0 < info.unreadLen) (hplain : info.chunkedStream = none) :
    onDataRequest fuel true size.val info = .ok (readContent info size.val) := by
  rw [onDataRequest, if_neg Bool.noConfusion, if_neg (fun h => by omega), hplain]

lemma exists_answers_cons {P : List Answer → Prop}
    (h : onDataRequest fuel true size.val info = .ok a) :
    (∃ as, answers fuel info (size :: sizes) = .ok as ∧ P as) ↔
      ∃ as, answers fuel a.info sizes = .ok as ∧ P (a :: as) := by
  have hfirst : answers fuel info (size :: sizes) =
      answers fuel a.info sizes >>= fun rest => .ok (a :: rest) := by
    rw [answers, h]
    rfl
  cases hrest : answers fuel a.info sizes with
  | error fault | ok rest =>
    rw [hfirst, hrest]
    simp [Bind.bind, Except.bind]

/-- Once nothing is unread, every call is quiet. -/
lemma answers_done (hunread : info.unreadLen ≤ 0) (hlength : info.contentLength ≠ -1)
    (sizes : List BufferSize) :
    answers fuel info sizes = .ok (List.replicate sizes.length (quiet info)) := by
  induction sizes with
  | nil => rfl
  | cons size sizes ih =>
    rw [answers, onDataRequest_done hunread hlength]
    change (do let rest ← answers fuel info sizes; Except.ok (quiet info :: rest)) = _
    rw [ih]
    rfl

lemma data_readContent_end (info : CallbackInfo) (size : BufferSize)
    (hpending : info.inStream.pending = []) :
    (readContent info size.val).data = [] := by
  simp only [readContent, streamRead_nil hpending]
  rcases endResult_cases info.inStream with h | h <;> simp [h, Answer.data]

lemma readContent_end (info : CallbackInfo) (size : BufferSize)
    (hpending : info.inStream.pending = [])
    (hresult : info.inStream.endResult.val = 0) :
    (readContent info size.val).len.val = 0 ∧
      (readContent info size.val).info =
        { info with inStream := info.inStream.readAtEnd, unreadLen := 0 } := by
  simp [readContent, streamRead_nil hpending, hresult]

lemma len_readContent_end (info : CallbackInfo) (size : BufferSize)
    (hpending : info.inStream.pending = []) :
    (readContent info size.val).len = info.inStream.endResult := by
  simp only [readContent, streamRead_nil hpending]
  split_ifs <;> rfl

lemma readContent_pending (info : CallbackInfo) (size : BufferSize)
    (hpending : info.inStream.pending ≠ []) :
    (readContent info size.val).len.val = info.inStream.handed (size.val - 1) ∧
      (readContent info size.val).data =
        info.inStream.pending.take (info.inStream.handed (size.val - 1)) ∧
      (readContent info size.val).info =
        { info with
          inStream := info.inStream.advance (info.inStream.handed (size.val - 1))
          unreadLen := info.unreadLen - info.inStream.handed (size.val - 1) } := by
  obtain ⟨hlen, hbytes, hnext⟩ := streamRead_pending hpending (size.val - 1)
  have hsize := size.property
  have hpos : 0 < info.inStream.handed (size.val - 1) := handed_pos hpending (by omega)
  have hlength := handed_le_length info.inStream (size.val - 1)
  rcases hr : streamRead info.inStream (size.val - 1) with ⟨len, bytes, inStream⟩
  rw [hr] at hlen hbytes hnext
  dsimp only at hlen hbytes hnext
  have hread : 0 < len.val := by omega
  have hanswer : readContent info size.val = ⟨len, [⟨0, bytes⟩, escNull len],
      { info with inStream, unreadLen := info.unreadLen - len.val }⟩ := by
    simp only [readContent, hr, if_pos hread]
  rw [hanswer, ← hnext, ← hbytes, ← hlen]
  refine ⟨rfl, ?_, rfl⟩
  have hbytesLength : bytes.length = len.val.toNat := by
    rw [hbytes, List.length_take, hlen]
    omega
  show (bytes ++ ([0] ++ [])).take len.val.toNat = bytes
  rw [List.take_append_of_le_length hbytesLength.ge, ← hbytesLength, List.take_length]

end Calls

section Bodies

variable {fuel n k : ℕ} {s : Wire} {a : Answer} {as : List Answer}

lemma forall_split_cons {α : Type*} {P : List α → α → Prop} {a : α} {as : List α} :
    (∀ front b back, a :: as = front ++ b :: back → P front b) ↔
      P [] a ∧ ∀ front b back, as = front ++ b :: back → P (a :: front) b := by
  constructor
  · intro h
    refine ⟨h [] a as rfl, ?_⟩
    intro front b back heq
    exact h (a :: front) b back (by rw [heq, List.cons_append])
  · rintro ⟨hfirst, hrest⟩ front b back heq
    cases front with
    | nil =>
      obtain ⟨rfl, rfl⟩ := List.cons.inj heq
      exact hfirst
    | cons c front =>
      obtain ⟨rfl, htail⟩ := List.cons.inj heq
      exact hrest front b back htail

lemma delivered_cons (a : Answer) (as : List Answer) :
    delivered (a :: as) = a.data ++ delivered as := List.flatMap_cons ..

/-- A read of bytes of the body leaves the law for the rest of it. -/
lemma bodyOnly_cons_iff (hlen : a.len.val = k) (hpos : 0 < k) (hbody : k ≤ n)
    (hlength : k ≤ s.pending.length) (hdata : a.data = s.pending.take k)
    (hstream : a.info.inStream = s.advance k) :
    BodyOnly n s (a :: as) ↔ BodyOnly (n - k) (s.advance k) as := by
  have htaken : a.data.length = k := by
    rw [hdata, List.length_take, Nat.min_eq_left hlength]
  have hsplit : s.pending.take n = a.data ++ (s.pending.drop k).take (n - k) := by
    rw [hdata, ← List.take_add, Nat.add_sub_cancel' hbody]
  have hlater (calls : List Answer) :
      (delivered (a :: calls)).length = k + (delivered calls).length := by
    rw [delivered_cons, List.length_append, htaken]
  have hrest : (s.advance k).pending.length = s.pending.length - k := by
    rw [pending_advance, List.length_drop]
  have hbehind : (s.advance k).pending.drop (n - k) = s.pending.drop n := by
    rw [pending_advance, List.drop_drop, Nat.add_sub_cancel' hbody]
  constructor
  · intro h
    refine ⟨?_, ?_, ?_, ?_⟩
    · have hprefix := h.body
      rw [delivered_cons, hsplit, List.prefix_append_right_inj] at hprefix
      exact hprefix
    · intro b hb
      rw [hbehind]
      exact h.untouched b (List.mem_cons_of_mem a hb)
    · intro calls b rest heq hn hl
      have hl' := hlater calls
      exact (forall_split_cons.mp h.goesOn).2 calls b rest heq (by omega) (by omega)
    · intro calls b rest heq hdone
      have hl' := hlater calls
      exact (forall_split_cons.mp h.silent).2 calls b rest heq (by omega)
  · intro h
    refine ⟨?_, ?_, forall_split_cons.mpr ⟨?_, ?_⟩, forall_split_cons.mpr ⟨?_, ?_⟩⟩
    · rw [delivered_cons, hsplit, List.prefix_append_right_inj]
      exact h.body
    · intro b hb
      rcases List.mem_cons.mp hb with rfl | hb
      · rw [hstream, pending_advance]
        exact List.drop_suffix_drop_left s.pending hbody
      · rw [← hbehind]
        exact h.untouched b hb
    · intro _ _
      omega
    · intro calls b rest heq hn hl
      have hl' := hlater calls
      exact h.goesOn calls b rest heq (by omega) (by omega)
    · intro hdone
      simp only [delivered, List.flatMap_nil, List.length_nil] at hdone
      omega
    · intro calls b rest heq hdone
      have hl' := hlater calls
      exact h.silent calls b rest heq (by omega)

/-- Calls that do not read keep the law once the body or the stream is at its end. -/
lemma bodyOnly_quiet (info : CallbackInfo) (hend : n = 0 ∨ s.pending = [])
    (hstream : info.inStream.pending = s.pending) (count : ℕ) :
    BodyOnly n s (List.replicate count (quiet info)) := by
  have hnothing (m : ℕ) : delivered (List.replicate m (quiet info)) = [] := by
    simp [delivered]
  have hquiet {calls rest : List Answer} {a : Answer}
      (heq : List.replicate count (quiet info) = calls ++ a :: rest) : a = quiet info :=
    List.eq_of_mem_replicate (heq ▸ List.mem_append_right calls List.mem_cons_self)
  refine ⟨?_, ?_, ?_, ?_⟩
  · rw [hnothing]
    exact List.nil_prefix
  · intro a ha
    rw [List.eq_of_mem_replicate ha]
    exact hstream ▸ List.drop_suffix n s.pending
  · intro calls a rest _ hbody hlength
    rcases hend with rfl | hpending
    · omega
    · rw [hpending, List.length_nil] at hlength
      omega
  · intro calls a rest heq _
    rw [hquiet heq]
    rfl

/-- An answer 0 at the end of the stream, with quiet calls behind it. -/
lemma bodyOnly_end_cons (hpending : s.pending = []) (hlen : a.len.val = 0) (hdata : a.data = [])
    (h : BodyOnly n s as) : BodyOnly n s (a :: as) := by
  have hnone : s.pending.length = 0 := by rw [hpending, List.length_nil]
  refine ⟨?_, ?_, ?_, forall_split_cons.mpr ⟨fun _ => hlen, ?_⟩⟩
  · rw [delivered_cons, hdata, List.nil_append]
    exact h.body
  · intro b hb
    rw [hpending, List.drop_nil]
    exact List.nil_suffix
  · intro calls b rest _ _ hlength
    omega
  · intro calls b rest heq _
    exact h.silent calls b rest heq (Or.inr (by omega))

end Bodies

section Runs

variable {left : ℕ} {s : Wire} {size : BufferSize} {sizes : List BufferSize}

lemma bodyOnly_nil (n : ℕ) (s : Wire) : BodyOnly n s [] := by
  refine ⟨List.nil_prefix, by simp, ?_, ?_⟩
  · intro calls a rest heq
    simp at heq
  · intro calls a rest heq
    simp at heq

/-- The calls of a run in the middle of a body, where the unread length is what is left of it.
The induction is on the calls that follow. -/
lemma answers_bodyOnly_iff (fuel : ℕ) {contentLength : ℤ} (hlength : contentLength ≠ -1)
    (sizes : List BufferSize) (left : ℕ) (s : Wire) :
    (∃ as, answers fuel ⟨s, contentLength, left, none⟩ sizes = .ok as ∧ BodyOnly left s as) ↔
      Fits left s sizes := by
  induction sizes generalizing left s with
  | nil => exact ⟨fun _ => .idle, fun _ => ⟨[], rfl, bodyOnly_nil left s⟩⟩
  | cons size sizes ih =>
    rcases Nat.eq_zero_or_pos left with rfl | hleft
    · refine ⟨fun _ => .whole, fun _ => ⟨_, answers_done le_rfl hlength _, ?_⟩⟩
      exact bodyOnly_quiet ⟨s, contentLength, (0 : ℕ), none⟩ (Or.inl rfl) rfl _
    have hreads : onDataRequest fuel true size.val ⟨s, contentLength, left, none⟩ =
        .ok (readContent ⟨s, contentLength, left, none⟩ size.val) :=
      onDataRequest_reads (Int.natCast_pos.mpr hleft) rfl
    rw [exists_answers_cons hreads]
    set a := readContent ⟨s, contentLength, left, none⟩ size.val with ha
    by_cases hpending : s.pending = []
    · have hdata : a.data = [] := data_readContent_end _ size hpending
      by_cases hresult : s.endResult.val = 0
      · obtain ⟨hlen, hinfo⟩ := readContent_end ⟨s, contentLength, left, none⟩ size
          hpending hresult
        refine ⟨fun _ => .ended hpending hresult, fun _ => ?_⟩
        rw [ha, hinfo]
        refine ⟨_, answers_done le_rfl hlength sizes, ?_⟩
        exact bodyOnly_end_cons hpending hlen hdata (bodyOnly_quiet _ (Or.inr hpending) rfl _)
      · -- The stream fails, and the failure is handed on.
        constructor
        · rintro ⟨as, -, hlaw⟩
          have hsilent := hlaw.silent [] a as rfl (Or.inr (by simp [hpending]))
          rw [ha, len_readContent_end ⟨s, contentLength, left, none⟩ size hpending] at hsilent
          exact absurd hsilent hresult
        · intro hfits
          cases hfits with
          | whole => omega
          | ended _ h => exact absurd h hresult
          | read h _ _ => exact absurd hpending h
    · obtain ⟨hlen, hdata, hinfo⟩ := readContent_pending
        ⟨s, contentLength, left, none⟩ size hpending
      rw [← ha] at hlen hdata hinfo
      dsimp only at hlen hdata hinfo
      have hsize := size.property
      have hpos : 0 < s.handed (size.val - 1) := handed_pos hpending (by omega)
      have hpart := handed_le_length s (size.val - 1)
      set k := s.handed (size.val - 1) with hk
      by_cases hroom : k ≤ left
      · have hrest : a.info = ⟨s.advance k, contentLength, (left - k : ℕ), none⟩ := by
          rw [hinfo]
          congr 1
          omega
        rw [hrest]
        have hstream : a.info.inStream = s.advance k := by rw [hrest]
        simp only [bodyOnly_cons_iff hlen hpos hroom hpart hdata hstream]
        rw [ih (left - k) (s.advance k)]
        refine ⟨fun h => .read hpending hroom h, fun hfits => ?_⟩
        cases hfits with
        | whole => omega
        | ended h _ => exact absurd h hpending
        | read _ _ h => exact h
      · -- The read goes on behind the body.
        constructor
        · rintro ⟨as, -, hlaw⟩
          have hprefix := hlaw.body.length_le
          rw [delivered_cons, List.length_append, hdata, List.length_take,
            Nat.min_eq_left hpart, List.length_take] at hprefix
          omega
        · intro hfits
          cases hfits with
          | whole => omega
          | ended h _ => exact absurd h hpending
          | read _ h _ => exact absurd h hroom

/-- The calls serve a body exactly when no read goes on behind it and the stream does not fail
in front of its end. -/
theorem serves_iff (fuel n : ℕ) (s : Wire) (sizes : List BufferSize) :
    Serves fuel n s sizes ↔ Fits n s sizes :=
  answers_bodyOnly_iff fuel (by omega) sizes n s

/-- A body of one byte in front of the next request, and a buffer for two bytes. -/
def nextRequest : Wire where
  pending := [65, 66]
  pos := 0
  deliver := fun _ => 2
  ended := 0
  failing := fun _ => false

theorem nextRequest_not_serves : ¬ ∃ fuel, Serves fuel 1 nextRequest [⟨3, by decide⟩] := by
  rintro ⟨fuel, as, has, hlaw⟩
  rw [← Except.ok.inj has] at hlaw
  exact absurd hlaw.body (by decide)

end Runs

end Axis2C.HttpRequestBody
