import Axis2C.HttpChunkedRoundTrip

/-!
# Sending the body of an HTTP message

The body part of `axis2_http_client_send` and of
`axis2_simple_http_svr_conn_write_response`, over an underlying stream whose writes
take a part of what they are given or fail, and then fail for good. An attachment
(MTOM) is sent in another way and left out. A loop that never ends is a fault.
-/
namespace Axis2C.HttpSend
open HttpChunked

section Operations

/-- What the calls of `axutil_stream_write` give, by the number of the call: how many
bytes one takes, and the first that fails. -/
structure Results where
  takes : ℕ → ℕ
  failsFrom : Option ℕ
  takes_pos : ∀ call, 0 < takes call

def Results.fails (r : Results) (call : ℕ) : Bool := r.failsFrom.any (· ≤ call)

/-- The bytes on the wire, and the number of calls so far. -/
structure Wire where
  sent : List UInt8
  calls : ℕ

variable (r : Results)

def streamWrite (w : Wire) (buffer : List UInt8) : ℤ × Wire :=
  if r.fails w.calls then (-1, ⟨w.sent, w.calls + 1⟩)
  else
    let count := min (r.takes w.calls) buffer.length
    (count, ⟨w.sent ++ buffer.take count, w.calls + 1⟩)

/-- `axutil_http_chunked_stream_write`. Only the result of the second write is kept. -/
def chunkedStreamWrite (w : Wire) (buffer : List UInt8) : Except Fault (ℤ × Wire) :=
  let tmpBuf := formatHex (buffer.length % 2 ^ 32) ++ crlf
  if 10 < tmpBuf.length + 1 then .error .tmpBuf
  else
    let (_, w) := streamWrite r w tmpBuf
    let (len, w) := streamWrite r w buffer
    let (_, w) := streamWrite r w crlf
    .ok (len, w)

def writeLastChunk (w : Wire) : Wire := (streamWrite r w [48, 13, 10, 13, 10]).2

variable (body : List UInt8)

def clientLoop : ℕ → ℕ → Wire → Except Fault (Bool × Wire)
  | 0, _, _ => .error .stuck
  | fuel + 1, written, w =>
    if written < body.length then
      let (len, w) := streamWrite r w (body.drop written)
      if len = -1 then .ok (false, w) else clientLoop fuel (written + len.toNat) w
    else .ok (true, w)

def clientChunkedLoop : ℕ → ℤ → Wire → Except Fault (Bool × Wire)
  | 0, _, _ => .error .stuck
  | fuel + 1, written, w =>
    if written < body.length then
      match chunkedStreamWrite r w body with
      | .error f => .error f
      | .ok (written, w) =>
        if written = -1 then .ok (false, w) else clientChunkedLoop fuel written w
    else .ok (true, writeLastChunk r w)

/-- The body part of `axis2_http_client_send`. -/
def httpClientSend (chunkingEnabled : Bool) (fuel : ℕ) : Except Fault (Bool × Wire) :=
  if chunkingEnabled then clientChunkedLoop r body fuel 0 ⟨[], 0⟩
  else clientLoop r body fuel 0 ⟨[], 0⟩

/-- `axis2_http_response_writer_print_str`: the text ends at the first NUL. -/
def printStr (w : Wire) (str : List UInt8) : Bool × Wire :=
  let (write, w) := streamWrite r w (str.takeWhile (· ≠ 0))
  (decide (0 ≤ write), w)

/-- `axis2_http_response_writer_println_str`. -/
def printlnStr (w : Wire) (str : List UInt8) : Bool × Wire :=
  match printStr r w str with
  | (true, w) => printStr r w crlf
  | (false, w) => (false, w)

/-- The loop of the server with chunking. Every pass sends the whole body, and a failed
write adds to what is left. -/
def serverChunkedLoop : ℕ → ℤ → Wire → Except Fault (Bool × Wire)
  | 0, _, _ => .error .stuck
  | fuel + 1, left, w =>
    if 0 < left then
      match chunkedStreamWrite r w body with
      | .error f => .error f
      | .ok (len, w) => serverChunkedLoop fuel (left - len) w
    else .ok (true, writeLastChunk r w)

/-- The body part of `axis2_simple_http_svr_conn_write_response`. -/
def svrConnWriteResponse (chunkedEncoding : Bool) (fuel : ℕ) : Except Fault (Bool × Wire) :=
  if chunkedEncoding then serverChunkedLoop r body fuel body.length ⟨[], 0⟩
  else .ok (printlnStr r ⟨[], 0⟩ body)

end Operations

section Specification

/-- A body, with its size an `int`. -/
structure Body where
  bytes : List UInt8
  pos : 0 < bytes.length
  int : bytes.length < 2 ^ 31

/-- The wire carries the body, in one or more chunks when it is chunked, and nothing
else. -/
def Carries (chunked : Bool) (body sent : List UInt8) : Prop :=
  if chunked then ∃ chunks, [] ∉ chunks ∧ chunks.flatten = body ∧ sent = chunkedBody chunks
  else sent = body

/-- The function returns; when it reports success the wire carries the body; when a write
failed it reports failure. -/
def SentOnce (r : Results) (chunked : Bool) (body : List UInt8)
    (send : ℕ → Except Fault (Bool × Wire)) : Prop :=
  ∃ bound, ∀ fuel, bound ≤ fuel → ∃ ok w, send fuel = .ok (ok, w) ∧
    (ok = true → Carries chunked body w.sent) ∧ ((∃ call < w.calls, r.fails call) → ok = false)

def sizeLine (body : List UInt8) : List UInt8 := formatHex body.length ++ crlf

/-- The size line, the body, its CRLF and the last chunk are each taken whole by the first
write of them. -/
structure TakenWhole (r : Results) (body : List UInt8) : Prop where
  line : (sizeLine body).length ≤ r.takes 0
  body : body.length ≤ r.takes 1
  crlf : 2 ≤ r.takes 2
  last : 5 ≤ r.takes 3
  works : r.fails 3 = false

/-- A write fails before some write has taken the whole body. -/
def FailsEarly (r : Results) (body : List UInt8) : Prop :=
  ∃ k, r.failsFrom = some k ∧ ∀ i, 3 * i + 1 < k → r.takes (3 * i + 1) < body.length

def ClientChunkedMeets (r : Results) (body : List UInt8) : Prop :=
  body.length < 2 ^ 28 ∧ (FailsEarly r body ∨ TakenWhole r body)

def ServerChunkedMeets (r : Results) (body : List UInt8) : Prop :=
  body.length < 2 ^ 28 ∧ TakenWhole r body

/-- When the server sends a body without chunking as it should: one of the two writes
fails, or the CRLF that it adds is what the first write has left of the body. -/
def ServerPlainMeets (r : Results) (body : List UInt8) : Prop :=
  r.fails 1 ∨
    (body.takeWhile (· ≠ 0)).take (r.takes 0) ++ crlf.take (r.takes 1) = body

end Specification

section Writes

variable {r : Results} {w : Wire} {body buffer : List UInt8}

lemma Results.fails_mono {i j : ℕ} (hij : i ≤ j) (h : r.fails i = true) : r.fails j = true := by
  unfold Results.fails at h ⊢
  cases hk : r.failsFrom with
  | none => simp [hk] at h
  | some k =>
    simp only [hk, Option.any_some, decide_eq_true_eq] at h ⊢
    omega

lemma Results.works_mono {i j : ℕ} (hij : i ≤ j) (h : r.fails j = false) : r.fails i = false := by
  by_contra hi
  have := r.fails_mono hij (by simpa using hi)
  simp [h] at this

lemma streamWrite_fails (h : r.fails w.calls = true) :
    streamWrite r w buffer = (-1, ⟨w.sent, w.calls + 1⟩) := by simp [streamWrite, h]

lemma streamWrite_takes (h : r.fails w.calls = false) :
    streamWrite r w buffer = (((min (r.takes w.calls) buffer.length : ℕ) : ℤ),
      ⟨w.sent ++ buffer.take (r.takes w.calls), w.calls + 1⟩) := by
  have htake : buffer.take (min (r.takes w.calls) buffer.length) =
      buffer.take (r.takes w.calls) := by
    rw [List.take_eq_take_iff]
    omega
  simp [streamWrite, h, htake]

/-- What a write puts on the wire, whether it fails or not. -/
def put (r : Results) (call : ℕ) (buffer : List UInt8) : List UInt8 :=
  if r.fails call then [] else buffer.take (r.takes call)

lemma streamWrite_snd (r : Results) (w : Wire) (buffer : List UInt8) :
    (streamWrite r w buffer).2 = ⟨w.sent ++ put r w.calls buffer, w.calls + 1⟩ := by
  cases h : r.fails w.calls with
  | true => simp [streamWrite_fails h, put, h]
  | false => simp [streamWrite_takes h, put, h]

lemma put_length_le (r : Results) (call : ℕ) (buffer : List UInt8) :
    (put r call buffer).length ≤ buffer.length := by
  unfold put
  split
  · simp
  · simp [List.length_take]

lemma put_whole {call : ℕ} (hw : r.fails call = false) (h : buffer.length ≤ r.takes call) :
    put r call buffer = buffer := by
  simp [put, hw, List.take_of_length_le h]

lemma takes_of_put {call : ℕ} (hw : r.fails call = false)
    (h : buffer.length ≤ (put r call buffer).length) : buffer.length ≤ r.takes call := by
  simp only [put, hw, Bool.false_eq_true, if_false, List.length_take] at h
  omega

/-- One chunk, when its size line fits `tmp_buf`. -/
lemma chunkedStreamWrite_eq (hsize : body.length < 2 ^ 28) (w : Wire) :
    chunkedStreamWrite r w body = .ok
      (if r.fails (w.calls + 1) then -1
        else ((min (r.takes (w.calls + 1)) body.length : ℕ) : ℤ),
        ⟨w.sent ++ put r w.calls (sizeLine body) ++ put r (w.calls + 1) body ++
          put r (w.calls + 2) crlf, w.calls + 3⟩) := by
  have hmod : body.length % 2 ^ 32 = body.length := Nat.mod_eq_of_lt (by omega)
  have hlen := length_formatHex_le hsize
  unfold chunkedStreamWrite
  rw [hmod]
  simp only
  rw [if_neg (by simp [crlf]; omega)]
  have hfst (w : Wire) : (streamWrite r w body).1 =
      if r.fails w.calls then -1 else ((min (r.takes w.calls) body.length : ℕ) : ℤ) := by
    cases h : r.fails w.calls with
    | true => simp [streamWrite_fails h]
    | false => simp [streamWrite_takes h]
  simp [streamWrite_snd, hfst, sizeLine]

/-- A longer size line is written past the end of `tmp_buf`. -/
lemma chunkedStreamWrite_overflow (hint : body.length < 2 ^ 31) (hsize : 2 ^ 28 ≤ body.length)
    (w : Wire) : chunkedStreamWrite r w body = .error .tmpBuf := by
  have hmod : body.length % 2 ^ 32 = body.length := Nat.mod_eq_of_lt (by omega)
  have hlen := lt_length_formatHex hsize
  unfold chunkedStreamWrite
  rw [hmod]
  simp only
  rw [if_pos (by simp [crlf]; omega)]

end Writes

section Plain

variable {r : Results} {w : Wire} {body : List UInt8}

lemma clientLoop_spec {written fuel : ℕ} (hfuel : body.length - written < fuel)
    (hle : written ≤ body.length) (hsent : w.sent = body.take written)
    (hworks : ∀ call < w.calls, r.fails call = false) :
    ∃ ok w', clientLoop r body fuel written w = .ok (ok, w') ∧
      (ok = true → w'.sent = body) ∧ ((∃ call < w'.calls, r.fails call) → ok = false) := by
  induction fuel generalizing written w with
  | zero => omega
  | succ fuel ih =>
    unfold clientLoop
    by_cases hlt : written < body.length
    · rw [if_pos hlt]
      cases hfails : r.fails w.calls with
      | true =>
        simp only [streamWrite_fails hfails, if_true]
        exact ⟨false, _, rfl, by simp, by simp⟩
      | false =>
        have hpos := r.takes_pos w.calls
        simp only [streamWrite_takes hfails]
        rw [if_neg (by omega), Int.toNat_natCast]
        refine ih ?_ ?_ ?_ ?_
        · simp only [List.length_drop]
          omega
        · simp only [List.length_drop]
          omega
        · rw [hsent, List.length_drop, ← List.take_add]
          rw [List.take_eq_take_iff]
          omega
        · intro call hcall
          obtain hcall | rfl := Nat.lt_succ_iff_lt_or_eq.mp hcall
          · exact hworks call hcall
          · exact hfails
    · rw [if_neg hlt]
      refine ⟨true, w, rfl, fun _ => ?_, fun ⟨call, hcall, hfails⟩ => ?_⟩
      · rw [hsent, List.take_of_length_le (by omega)]
      · rw [hworks call hcall] at hfails
        cases hfails

/-- Without chunking the client sends every body once. -/
lemma client_plain (r : Results) (body : List UInt8) :
    SentOnce r false body (httpClientSend r body false) := by
  refine ⟨body.length + 1, fun fuel hfuel => ?_⟩
  have hstart : (⟨[], 0⟩ : Wire).sent = body.take 0 := by simp
  obtain ⟨ok, w, hrun, hsent, hfailed⟩ := clientLoop_spec (r := r)
    (show body.length - 0 < fuel by omega) (Nat.zero_le _) hstart (by simp)
  exact ⟨ok, w, by simpa [httpClientSend] using hrun, by simpa [Carries] using hsent, hfailed⟩

/-- What the server does without chunking. -/
lemma printlnStr_eq (r : Results) (body : List UInt8) :
    printlnStr r ⟨[], 0⟩ body =
      if r.fails 0 then (false, ⟨[], 1⟩)
      else if r.fails 1 then (false, ⟨(body.takeWhile (· ≠ 0)).take (r.takes 0), 2⟩)
      else (true, ⟨(body.takeWhile (· ≠ 0)).take (r.takes 0) ++ crlf.take (r.takes 1), 2⟩) := by
  have hcrlf : crlf.takeWhile (· ≠ 0) = crlf := by decide
  unfold printlnStr printStr
  rw [hcrlf]
  cases h0 : r.fails 0 with
  | true => simp [streamWrite_fails (w := ⟨[], 0⟩) h0]
  | false =>
    cases h1 : r.fails 1 with
    | true => simp [streamWrite_takes (w := ⟨[], 0⟩) h0, streamWrite_fails (w := ⟨_, 1⟩) h1]
    | false => simp [streamWrite_takes (w := ⟨[], 0⟩) h0, streamWrite_takes (w := ⟨_, 1⟩) h1]

lemma server_plain (r : Results) (body : List UInt8) :
    SentOnce r false body (svrConnWriteResponse r body false) ↔ ServerPlainMeets r body := by
  simp only [SentOnce, svrConnWriteResponse, Bool.false_eq_true, if_false, printlnStr_eq,
    ServerPlainMeets, Carries]
  cases h1 : r.fails 1 with
  | true =>
    refine ⟨fun _ => .inl rfl, fun _ => ⟨0, fun fuel _ => ?_⟩⟩
    cases h0 : r.fails 0 with
    | true => exact ⟨false, ⟨[], 1⟩, by simp, by simp, by simp⟩
    | false =>
      exact ⟨false, ⟨(body.takeWhile (· ≠ 0)).take (r.takes 0), 2⟩, by simp, by simp, by simp⟩
  | false =>
    have h0 := r.works_mono (Nat.zero_le 1) h1
    simp only [h0, Bool.false_eq_true, if_false, false_or, Except.ok.injEq, Prod.mk.injEq]
    constructor
    · rintro ⟨bound, hall⟩
      obtain ⟨ok, w, ⟨rfl, rfl⟩, hsent, -⟩ := hall bound le_rfl
      exact hsent rfl
    · intro hsent
      refine ⟨0, fun fuel _ => ⟨true, _, ⟨rfl, rfl⟩, fun _ => hsent, ?_⟩⟩
      rintro ⟨call, hcall, hfails⟩
      rw [r.works_mono (Nat.lt_succ_iff.mp hcall) h1] at hfails
      cases hfails

end Plain

section Lengths

/-- A sum has no more digits than its summands together. -/
lemma length_formatHex_add {a b : ℕ} (ha : 0 < a) (hb : 0 < b) :
    (formatHex (a + b)).length ≤ (formatHex a).length + (formatHex b).length := by
  have hdigits {n : ℕ} (hn : 0 < n) : (formatHex n).length = (Nat.digits 16 n).length := by
    simp [formatHex, hn.ne']
  rw [hdigits ha, hdigits hb, hdigits (by omega), Nat.digits_length_le_iff (by norm_num), pow_add]
  have hlt {n : ℕ} (hn : 0 < n) :
      n < 16 ^ (Nat.digits 16 n).length ∧ 2 ≤ 16 ^ (Nat.digits 16 n).length := by
    have hn' := (Nat.digits_length_le_iff (show 1 < 16 by norm_num) n).mp le_rfl
    exact ⟨hn', by omega⟩
  obtain ⟨hla, ha2⟩ := hlt ha
  obtain ⟨hlb, hb2⟩ := hlt hb
  calc a + b < 16 ^ (Nat.digits 16 a).length + 16 ^ (Nat.digits 16 b).length := by omega
    _ ≤ 16 ^ (Nat.digits 16 a).length * 16 ^ (Nat.digits 16 b).length := by nlinarith

lemma length_chunks {chunks : List (List UInt8)} (hne : chunks ≠ []) (hpos : [] ∉ chunks) :
    (chunk chunks.flatten).length ≤ (chunks.flatMap chunk).length := by
  induction chunks with
  | nil => exact (hne rfl).elim
  | cons c chunks ih =>
    simp only [List.mem_cons, not_or] at hpos
    by_cases hchunks : chunks = []
    · simp [hchunks]
    · have ih' := ih hchunks hpos.2
      have hc : 0 < c.length := List.length_pos_iff.mpr (Ne.symm hpos.1)
      have hrest : 0 < chunks.flatten.length := by
        obtain ⟨d, ds, rfl⟩ := List.exists_cons_of_ne_nil hchunks
        have hd : d ≠ [] := fun h => hpos.2 (by simp [h])
        have := List.length_pos_iff.mpr hd
        simp only [List.flatten_cons, List.length_append]
        omega
      have hdigits := length_formatHex_add hc hrest
      simp only [List.flatten_cons, List.flatMap_cons, List.length_append, chunk] at ih' ⊢
      omega

lemma length_carries {body sent : List UInt8} (hpos : 0 < body.length)
    (h : Carries true body sent) : (sizeLine body).length + body.length + 7 ≤ sent.length := by
  obtain ⟨chunks, hne, rfl, rfl⟩ := h
  have hchunks : chunks ≠ [] := by
    rintro rfl
    simp at hpos
  have hlen := length_chunks hchunks hne
  simp only [chunk, chunkedBody, sizeLine, crlf, List.length_append, List.length_cons,
    List.length_nil] at hlen ⊢
  omega

end Lengths

section Chunked

variable {r : Results} {body : List UInt8}

/-- What both chunked loops leave when the first write of the body takes all of it. -/
def onePass (r : Results) (body : List UInt8) : Wire :=
  ⟨put r 0 (sizeLine body) ++ body ++ put r 2 crlf ++ put r 3 [48, 13, 10, 13, 10], 4⟩

section

variable (hsize : body.length < 2 ^ 28) (hpos : 0 < body.length) (hworks : r.fails 1 = false)
  (hwhole : body.length ≤ r.takes 1) (fuel : ℕ)

include hsize hpos hworks hwhole fuel

lemma client_onePass : httpClientSend r body true (fuel + 2) = .ok (true, onePass r body) := by
  have hlt : (0 : ℤ) < body.length := by omega
  simp only [httpClientSend, if_true, clientChunkedLoop, hlt, chunkedStreamWrite_eq hsize,
    hworks, min_eq_right hwhole, put_whole hworks hwhole, Bool.false_eq_true, if_false,
    Nat.zero_add]
  rw [if_neg (by omega), if_neg (lt_irrefl _)]
  simp [onePass, writeLastChunk, streamWrite_snd]

lemma server_onePass :
    svrConnWriteResponse r body true (fuel + 2) = .ok (true, onePass r body) := by
  have hlt : (0 : ℤ) < body.length := by omega
  simp only [svrConnWriteResponse, if_true, serverChunkedLoop, hlt, chunkedStreamWrite_eq hsize,
    hworks, min_eq_right hwhole, put_whole hworks hwhole, Bool.false_eq_true, if_false,
    Nat.zero_add]
  rw [if_neg (by omega)]
  simp [onePass, writeLastChunk, streamWrite_snd]

end

/-- One pass is right exactly when every write takes all it is given. -/
lemma onePass_iff (hpos : 0 < body.length) (hwhole : body.length ≤ r.takes 1) :
    (Carries true body (onePass r body).sent ∧ ¬ ∃ call < (onePass r body).calls, r.fails call) ↔
      TakenWhole r body := by
  constructor
  · rintro ⟨hcarries, hnone⟩
    have hcall (call : ℕ) (h : call < 4) : r.fails call = false := by
      by_contra hfails
      exact hnone ⟨call, h, by simpa using hfails⟩
    have hlen := length_carries hpos hcarries
    have hline := put_length_le r 0 (sizeLine body)
    have hcrlf := put_length_le r 2 crlf
    have hlast := put_length_le r 3 [48, 13, 10, 13, 10]
    simp only [onePass, List.length_append] at hlen
    have hcrlf2 : crlf.length = 2 := rfl
    have hlast5 : ([48, 13, 10, 13, 10] : List UInt8).length = 5 := rfl
    rw [hcrlf2] at hcrlf
    rw [hlast5] at hlast
    have hc : crlf.length ≤ r.takes 2 := takes_of_put (hcall 2 (by omega)) (by omega)
    have hl : ([48, 13, 10, 13, 10] : List UInt8).length ≤ r.takes 3 :=
      takes_of_put (hcall 3 (by omega)) (by omega)
    exact ⟨takes_of_put (hcall 0 (by omega)) (by omega), hwhole, by omega, by omega,
      hcall 3 (by omega)⟩
  · intro h
    have hcall (call : ℕ) (hlt : call < 4) : r.fails call = false :=
      r.works_mono (by omega) h.works
    constructor
    · refine ⟨[body], ?_, by simp, ?_⟩
      · simpa using (List.length_pos_iff.mp hpos).symm
      · simp only [onePass, put_whole (hcall 0 (by omega)) h.line,
          put_whole (hcall 2 (by omega)) (show crlf.length ≤ _ from h.crlf),
          put_whole (hcall 3 (by omega))
            (show ([48, 13, 10, 13, 10] : List UInt8).length ≤ _ from h.last)]
        simp [sizeLine, chunkedBody, chunk]
    · rintro ⟨call, hlt, hfails⟩
      rw [hcall call hlt] at hfails
      cases hfails

/-- A client whose writes fail before one of them took the whole body reports it. -/
lemma clientChunkedLoop_fails (hsize : body.length < 2 ^ 28) {k : ℕ}
    (hk : r.failsFrom = some k) (hpart : ∀ i, 3 * i + 1 < k → r.takes (3 * i + 1) < body.length)
    {fuel i : ℕ} {written : ℤ} {w : Wire} (hcalls : w.calls = 3 * i)
    (hwritten : written < body.length) (hfuel : k ≤ 3 * i + 3 * fuel) :
    ∃ w', clientChunkedLoop r body (fuel + 1) written w = .ok (false, w') := by
  induction fuel generalizing i written w with
  | zero =>
    have hfails : r.fails (w.calls + 1) = true := by
      simp only [Results.fails, hk, Option.any_some, decide_eq_true_eq]
      omega
    simp [clientChunkedLoop, hwritten, chunkedStreamWrite_eq hsize, hfails]
  | succ fuel ih =>
    cases hfails : r.fails (w.calls + 1) with
    | true => simp [clientChunkedLoop, hwritten, chunkedStreamWrite_eq hsize, hfails]
    | false =>
      have hlt : 3 * i + 1 < k := by
        simp only [Results.fails, hk, Option.any_some, decide_eq_false_iff_not] at hfails
        omega
      have htakes := hpart i hlt
      rw [clientChunkedLoop]
      simp only [hwritten, chunkedStreamWrite_eq hsize, hfails, if_true, Bool.false_eq_true,
        if_false]
      rw [if_neg (by omega)]
      rw [hcalls]
      exact ih (i := i + 1) (by simp only; omega) (by omega) (by omega)

/-- A server whose write of the body failed goes on for ever. -/
lemma serverChunkedLoop_stuck (hsize : body.length < 2 ^ 28) {fuel : ℕ} {left : ℤ} {w : Wire}
    (hleft : 0 < left) (hfails : r.fails (w.calls + 1) = true) :
    serverChunkedLoop r body fuel left w = .error .stuck := by
  induction fuel generalizing left w with
  | zero => rfl
  | succ fuel ih =>
    rw [serverChunkedLoop]
    simp only [hleft, chunkedStreamWrite_eq hsize, hfails, if_true]
    exact ih (by omega) (r.fails_mono (by simp only; omega) hfails)

/-- A size line that does not fit is a fault in every run of both. -/
lemma chunked_overflow (hpos : 0 < body.length) (hint : body.length < 2 ^ 31)
    (hsize : 2 ^ 28 ≤ body.length) (fuel : ℕ) :
    httpClientSend r body true (fuel + 1) = .error .tmpBuf ∧
      svrConnWriteResponse r body true (fuel + 1) = .error .tmpBuf := by
  have hlt : (0 : ℤ) < body.length := by omega
  constructor
  · simp [httpClientSend, clientChunkedLoop, hpos, chunkedStreamWrite_overflow hint hsize]
  · simp [svrConnWriteResponse, serverChunkedLoop, hpos, chunkedStreamWrite_overflow hint hsize]

/-- What a fault in every longer run shows. -/
lemma not_sentOnce {chunked : Bool} {send : ℕ → Except Fault (Bool × Wire)} {f : Fault}
    (h : ∀ fuel, send (fuel + 1) = .error f) : ¬ SentOnce r chunked body send := by
  rintro ⟨bound, hall⟩
  obtain ⟨ok, w, hrun, -⟩ := hall (bound + 1) (by omega)
  rw [h] at hrun
  cases hrun

/-- Runs that all end in the same way. -/
lemma sentOnce_iff {chunked : Bool} {send : ℕ → Except Fault (Bool × Wire)} {w : Wire} {n : ℕ}
    (h : ∀ fuel, send (fuel + n) = .ok (true, w)) :
    SentOnce r chunked body send ↔
      Carries chunked body w.sent ∧ ¬ ∃ call < w.calls, r.fails call := by
  constructor
  · rintro ⟨bound, hall⟩
    obtain ⟨ok, w', hrun, hcarries, hfailed⟩ := hall (bound + n) (by omega)
    rw [h] at hrun
    obtain ⟨rfl, rfl⟩ := Prod.mk.inj (Except.ok.inj hrun)
    refine ⟨hcarries rfl, fun hcall => ?_⟩
    cases hfailed hcall
  · rintro ⟨hcarries, hnone⟩
    refine ⟨n, fun fuel hfuel => ⟨true, w, ?_, fun _ => hcarries, fun hcall => (hnone hcall).elim⟩⟩
    obtain ⟨k, rfl⟩ : ∃ k, fuel = k + n := ⟨fuel - n, by omega⟩
    exact h k

lemma failsEarly_of_fails (h : r.fails 1 = true) : FailsEarly r body := by
  unfold Results.fails at h
  cases hk : r.failsFrom with
  | none => simp [hk] at h
  | some k =>
    simp only [hk, Option.any_some, decide_eq_true_eq] at h
    exact ⟨k, hk, fun i hi => by omega⟩

lemma client_chunked (hpos : 0 < body.length) (h : ClientChunkedMeets r body) :
    SentOnce r true body (httpClientSend r body true) := by
  obtain ⟨hsize, ⟨k, hk, hpart⟩ | hwhole⟩ := h
  · refine ⟨k + 1, fun fuel hfuel => ?_⟩
    obtain ⟨j, rfl⟩ : ∃ j, fuel = j + 1 := ⟨fuel - 1, by omega⟩
    obtain ⟨w, hrun⟩ := clientChunkedLoop_fails (i := 0) (w := ⟨[], 0⟩) hsize hk hpart rfl
      (show (0 : ℤ) < body.length by omega) (show k ≤ 3 * 0 + 3 * j by omega)
    exact ⟨false, w, by simpa [httpClientSend] using hrun, by simp, fun _ => rfl⟩
  · have hworks := r.works_mono (show 1 ≤ 3 by omega) hwhole.works
    rw [sentOnce_iff (client_onePass hsize hpos hworks hwhole.body)]
    exact (onePass_iff hpos hwhole.body).mpr hwhole

lemma server_chunked (hpos : 0 < body.length) (h : ServerChunkedMeets r body) :
    SentOnce r true body (svrConnWriteResponse r body true) := by
  obtain ⟨hsize, hwhole⟩ := h
  have hworks := r.works_mono (show 1 ≤ 3 by omega) hwhole.works
  rw [sentOnce_iff (server_onePass hsize hpos hworks hwhole.body)]
  exact (onePass_iff hpos hwhole.body).mpr hwhole

/-- Apart from a first write that takes a part of the body, the conditions are exact. -/
lemma chunked_exact (body : Body) (hfirst : r.fails 1 = true ∨ body.bytes.length ≤ r.takes 1) :
    (SentOnce r true body.bytes (httpClientSend r body.bytes true) →
      ClientChunkedMeets r body.bytes) ∧
    (SentOnce r true body.bytes (svrConnWriteResponse r body.bytes true) →
      ServerChunkedMeets r body.bytes) := by
  obtain ⟨body, hpos, hint⟩ := body
  by_cases hsize : body.length < 2 ^ 28
  · cases hworks : r.fails 1 with
    | true =>
      refine ⟨fun _ => ⟨hsize, .inl (failsEarly_of_fails hworks)⟩, fun h => ?_⟩
      refine absurd h (not_sentOnce (f := .stuck) fun fuel => ?_)
      simp only [svrConnWriteResponse, if_true]
      exact serverChunkedLoop_stuck hsize (by omega) hworks
    | false =>
      have hwhole : body.length ≤ r.takes 1 := by simpa [hworks] using hfirst
      constructor
      · intro h
        rw [sentOnce_iff (client_onePass hsize hpos hworks hwhole)] at h
        exact ⟨hsize, .inr ((onePass_iff hpos hwhole).mp h)⟩
      · intro h
        rw [sentOnce_iff (server_onePass hsize hpos hworks hwhole)] at h
        exact ⟨hsize, (onePass_iff hpos hwhole).mp h⟩
  · have hover := chunked_overflow (r := r) hpos hint (not_lt.mp hsize)
    exact ⟨fun h => absurd h (not_sentOnce fun fuel => (hover fuel).1),
      fun h => absurd h (not_sentOnce fun fuel => (hover fuel).2)⟩

end Chunked

section Results

/-- Without chunking the client always sends the body once and the server only when a
write fails or the added CRLF is what the body still lacks. With chunking both do when
the first writes take all they are given; the client also when it fails before a write
took the whole body. When the first write of the body takes all of it or fails, they do
only then. -/
theorem bodies_sent_once (r : Results) (body : Body) :
    SentOnce r false body.bytes (httpClientSend r body.bytes false) ∧
    (SentOnce r false body.bytes (svrConnWriteResponse r body.bytes false) ↔
      ServerPlainMeets r body.bytes) ∧
    (ClientChunkedMeets r body.bytes →
      SentOnce r true body.bytes (httpClientSend r body.bytes true)) ∧
    (ServerChunkedMeets r body.bytes →
      SentOnce r true body.bytes (svrConnWriteResponse r body.bytes true)) ∧
    (r.fails 1 = true ∨ body.bytes.length ≤ r.takes 1 →
      (SentOnce r true body.bytes (httpClientSend r body.bytes true) →
        ClientChunkedMeets r body.bytes) ∧
      (SentOnce r true body.bytes (svrConnWriteResponse r body.bytes true) →
        ServerChunkedMeets r body.bytes)) :=
  ⟨client_plain r body.bytes, server_plain r body.bytes, client_chunked body.pos,
    server_chunked body.pos, chunked_exact body⟩

lemma chunks_of_two {x y : UInt8} {chunks : List (List UInt8)} (hne : [] ∉ chunks)
    (h : chunks.flatten = [x, y]) : chunks = [[x, y]] ∨ chunks = [[x], [y]] := by
  have hempty {cs : List (List UInt8)} (hcs : [] ∉ cs) (hflat : cs.flatten = []) : cs = [] := by
    cases cs with
    | nil => rfl
    | cons c cs => simp_all
  match chunks, hne, h with
  | [] :: _, hne, _ => exact (hne (by simp)).elim
  | [a] :: cs, hne, h =>
    match cs, hne, h with
    | [] :: _, hne, _ => exact (hne (by simp)).elim
    | [b] :: cs, hne, h =>
      have hcs : cs = [] := hempty (by simp_all) (by simp_all)
      simp_all
  | (a :: b :: c) :: cs, hne, h =>
    have hcs : cs = [] := hempty (by simp_all) (by simp_all)
    simp_all

/-- The client sends `ab` in chunks, and the first write of the body takes one byte: the
body is sent again from its beginning, and the call reports success. -/
theorem body_repeated_after_short_write :
    ∃ r : Results, r.failsFrom = none ∧
      (∀ fuel, httpClientSend r [97, 98] true (fuel + 3) = .ok (true,
        ⟨[50, 13, 10, 97, 13, 10, 50, 13, 10, 97, 98, 13, 10, 48, 13, 10, 13, 10], 7⟩)) ∧
      ¬ SentOnce r true [97, 98] (httpClientSend r [97, 98] true) := by
  have hrun (fuel : ℕ) : httpClientSend
      ⟨fun call => if call = 1 then 1 else 5, none, fun call => by split <;> omega⟩
      [97, 98] true (fuel + 3) = .ok (true,
        ⟨[50, 13, 10, 97, 13, 10, 50, 13, 10, 97, 98, 13, 10, 48, 13, 10, 13, 10], 7⟩) := by
    simp [httpClientSend, clientChunkedLoop, chunkedStreamWrite, streamWrite, formatHex, hexDigit,
      Results.fails, writeLastChunk, crlf]
  refine ⟨_, rfl, hrun, ?_⟩
  rw [sentOnce_iff hrun]
  rintro ⟨⟨chunks, hne, hflat, hsent⟩, -⟩
  obtain rfl | rfl := chunks_of_two hne hflat
  all_goals simp [formatHex, hexDigit, crlf] at hsent

end Results

end Axis2C.HttpSend
