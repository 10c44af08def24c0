import Axis2C.MimeSearch

/-!
# What one search finds

The search looks for the first byte of the string in the recorded bytes, but the comparison from
there on runs into the bytes behind them.
-/
namespace Axis2C.Mime

open FirstOccurrence RawMemory

variable {size : ℕ} {s : SearchString} {b : Option (Buffer size)}

/-- The text at every candidate ends inside of the allocation, and the string is not in it. -/
def Clean (s : SearchString) (b : Option (Buffer size)) : Prop :=
  ∀ off, off + s.length ≤ (dataOf b).length → (dataOf b)[off]? = some s.first →
    0 ∈ (blockOf b).drop off ∧ ¬ s.bytes <:+: ((blockOf b).drop off).takeWhile (· ≠ 0)

/-- The string is not longer than a buffer with the byte behind it, and what the next allocation
holds behind its recorded bytes completes no match in front of the first real one. -/
def Joins (s : SearchString) (b b' : Option (Buffer size)) : Prop :=
  s.length ≤ (dataOf b).length + 1 ∧
    ∀ p < (dataOf b).length, (dataOf b).length < p + s.length →
      s.bytes <+: (dataOf b).drop p ++ blockOf b' →
        ∃ q ≤ p, s.bytes <+: (dataOf b).drop q ++ dataOf b'

lemma block_eq_append (b : Option (Buffer size)) : ∃ t, blockOf b = dataOf b ++ t := by
  cases b with
  | none => exact ⟨[], rfl⟩
  | some b => exact ⟨b.stale, rfl⟩

lemma length_data_le (b : Option (Buffer size)) : (dataOf b).length ≤ (blockOf b).length := by
  obtain ⟨t, ht⟩ := block_eq_append b
  rw [ht, List.length_append]
  exact Nat.le_add_right ..

lemma length_data_le_size (b : Option (Buffer size)) : (dataOf b).length ≤ size := by
  cases b with
  | none => exact Nat.zero_le _
  | some b => exact b.fits

/-- The cells in front of the recorded length are the recorded bytes. -/
lemma getElem?_block {p : ℕ} (hp : p < (dataOf b).length) : (blockOf b)[p]? = (dataOf b)[p]? := by
  obtain ⟨t, ht⟩ := block_eq_append b
  rw [ht, List.getElem?_append_left hp]

lemma SearchString.getElem?_of_prefix {m : List UInt8} {p : ℕ} (h : s.bytes <+: m.drop p) :
    m[p]? = some s.first := by
  obtain ⟨t, ht⟩ := h
  have hbytes : s.bytes = s.first :: s.bytes.tail := (List.cons_head_tail s.nonempty).symm
  rw [hbytes, List.cons_append] at ht
  have hget := congrArg (·[0]?) ht
  simpa using hget.symm

section SearchBuffer

variable {info : SearchInfo size}

/-- The comparison at the first candidate that does not pass on decides. -/
lemma searchBuffer_cases (info : SearchInfo size) :
    (info.searchBuffer = some none ∧
        ∀ off, off + info.searchStr.length ≤ (dataOf info.buffer1).length →
          (dataOf info.buffer1)[off]? = some info.searchStr.first →
            strstr 0 info.searchStr.bytes (blockOf info.buffer1) off = some none) ∨
      ∃ off : ℕ, off + info.searchStr.length ≤ (dataOf info.buffer1).length ∧
        (dataOf info.buffer1)[off]? = some info.searchStr.first ∧
        strstr 0 info.searchStr.bytes (blockOf info.buffer1) off ≠ some none ∧
        info.searchBuffer = strstr 0 info.searchStr.bytes (blockOf info.buffer1) off ∧
          ∀ q < off, (dataOf info.buffer1)[q]? = some info.searchStr.first →
            strstr 0 info.searchStr.bytes (blockOf info.buffer1) q = some none := by
  have hpos := info.searchStr.length_pos
  have hblock := length_data_le info.buffer1
  rcases Nat.lt_or_ge ((dataOf info.buffer1).length + 1) info.searchStr.length with hlt | hge
  · refine .inl ⟨?_, fun off hoff => by omega⟩
    rw [SearchInfo.searchBuffer, scanFor, if_pos (by rw [SearchInfo.len1]; omega)]
  · have hlimit : info.len1 - info.searchStr.length + 1 =
        (((dataOf info.buffer1).length + 1 - info.searchStr.length : ℕ) : ℤ) := by
      rw [SearchInfo.len1]
      omega
    rw [SearchInfo.searchBuffer, hlimit]
    obtain ⟨hnone, hall⟩ | ⟨off, -, hoff, hc, hne, hfound, hall⟩ :=
      scanFor_cases (blockOf info.buffer1) info.searchStr.first
        (fun pos => strstr 0 info.searchStr.bytes (blockOf info.buffer1) pos)
        ((dataOf info.buffer1).length + 1 - info.searchStr.length)
        ((dataOf info.buffer1).length + 1) 0 (by omega) (by omega) (by omega)
    · refine .inl ⟨hnone, fun off hoff hc => hall off (Nat.zero_le _) (by omega) ?_⟩
      rw [getElem?_block (by omega), hc]
    · rw [getElem?_block (by omega)] at hc
      refine .inr ⟨off, by omega, hc, hne, hfound, fun q hq hqc => ?_⟩
      refine hall q (Nat.zero_le _) hq ?_
      rw [getElem?_block (by omega), hqc]

/-- An occurrence in the recorded bytes is found. -/
lemma searchBuffer_first {q : ℕ}
    (hq : FirstIndex info.searchStr.bytes (dataOf info.buffer1) q) :
    info.searchBuffer = some (some (q : ℤ)) := by
  have hne := info.searchStr.nonempty
  obtain ⟨t, ht⟩ := block_eq_append info.buffer1
  have hblock : FirstIndex info.searchStr.bytes (blockOf info.buffer1) q := by
    rw [ht]
    exact hq.append hne t
  have hroom := room_of_prefix_drop hne hq.1
  have hat : strstr 0 info.searchStr.bytes (blockOf info.buffer1) q = some (some (q : ℤ)) := by
    rw [strstr_first hne hblock le_rfl, Nat.sub_self, List.take_zero, if_neg List.not_mem_nil]
  obtain ⟨-, hall⟩ | ⟨off, hoff, hc, hstop, hfound, hall⟩ := searchBuffer_cases info
  · have hnone := hall q hroom (SearchString.getElem?_of_prefix hq.1)
    rw [hat] at hnone
    cases hnone
  · -- the scan does not pass over the occurrence, and from in front of it finds nothing else
    have hle : off ≤ q := by
      by_contra hlt
      have hnone := hall q (by omega) (SearchString.getElem?_of_prefix hq.1)
      rw [hat] at hnone
      cases hnone
    rw [strstr_first hne hblock hle] at hstop hfound
    rw [hfound]
    split at hstop
    · exact absurd rfl hstop
    · next hz => rw [if_neg hz]

lemma searchBuffer_none_iff :
    info.searchBuffer = some none ↔ Clean info.searchStr info.buffer1 := by
  have hstr : ∀ off : ℕ, strstr 0 info.searchStr.bytes (blockOf info.buffer1) off = some none ↔
      0 ∈ (blockOf info.buffer1).drop off ∧
        ¬ info.searchStr.bytes <:+: ((blockOf info.buffer1).drop off).takeWhile (· ≠ 0) :=
    fun off => strstr_none_iff info.searchStr.nonempty info.searchStr.text _ off
  obtain ⟨hnone, hall⟩ | ⟨off, hoff, hc, hstop, hfound, -⟩ := searchBuffer_cases info
  · refine iff_of_true hnone fun off hoff hc => ?_
    exact (hstr off).mp (hall off hoff hc)
  · refine iff_of_false (fun h => hstop (hfound.symm.trans h)) fun hclean => ?_
    exact hstop ((hstr off).mpr (hclean off hoff hc))

end SearchBuffer

section SearchParts

variable {info : SearchInfo size}

/-- Too short a first buffer has the search start in front of it. -/
lemma searchParts_short (h : (dataOf info.buffer1).length + 1 < info.searchStr.length) :
    info.searchParts = none := by
  obtain ⟨n, hn⟩ := Nat.exists_eq_succ_of_ne_zero info.searchStr.length_pos.ne'
  have hlen : info.len1 - (info.len1 - info.searchStr.length + 1) = n := by omega
  rw [SearchInfo.searchParts, hn, scanFor, ← hn, if_neg (by omega), hlen, Int.toNat_natCast,
    memchr_before _ _ (by omega) (by rw [SearchInfo.len1]; omega), Option.bind_none]

/-- Both comparisons hold exactly when the string begins here and goes on in the second buffer. -/
lemma matchParts_eq {b' : Buffer size} (h2 : info.buffer2 = some b')
    (hshort : info.searchStr.length ≤ (dataOf info.buffer1).length + 1) {p : ℕ}
    (hp : p < (dataOf info.buffer1).length)
    (hover : (dataOf info.buffer1).length < p + info.searchStr.length) :
    info.matchParts p =
      if info.searchStr.bytes <+: (dataOf info.buffer1).drop p ++ b'.block then
        some (some ((p : ℤ), (p : ℤ) + info.searchStr.length - info.len1))
      else some none := by
  obtain ⟨t, ht⟩ := block_eq_append info.buffer1
  have hsize := length_data_le_size info.buffer1
  have hblock := length_data_le info.buffer1
  have hoffset : (info.len1 - p).toNat = ((dataOf info.buffer1).drop p).length := by
    rw [SearchInfo.len1, List.length_drop]
    omega
  have hdrop : ((dataOf info.buffer1).drop p).length ≤ info.searchStr.bytes.length := by
    rw [List.length_drop, ← SearchString.length]
    omega
  have htake : (info.searchStr.bytes.take ((dataOf info.buffer1).drop p).length).length =
      ((dataOf info.buffer1).drop p).length := List.length_take_of_le hdrop
  -- the part that is left lies inside of the second allocation
  have hrest : 0 + (info.searchStr.bytes.drop ((dataOf info.buffer1).drop p).length).length ≤
      b'.block.length := by
    rw [List.length_drop, List.length_drop, Buffer.length_block, ← SearchString.length]
    omega
  have hfront : info.searchStr.bytes.take ((dataOf info.buffer1).drop p).length <+:
      (blockOf info.buffer1).drop p ↔
        info.searchStr.bytes.take ((dataOf info.buffer1).drop p).length =
          (dataOf info.buffer1).drop p := by
    rw [ht, List.drop_append_of_le_length hp.le]
    constructor
    · intro h
      refine List.IsPrefix.eq_of_length ?_ htake
      exact List.prefix_of_prefix_length_le h (List.prefix_append _ t) htake.le
    · intro h
      rw [h]
      exact List.prefix_append _ t
  have hfirst := memcmp_inside (m := blockOf info.buffer1) (i := p)
    (s := info.searchStr.bytes.take ((dataOf info.buffer1).drop p).length) (by
      rw [htake, List.length_drop]
      omega)
  have hsecond := memcmp_inside hrest
  rw [Nat.cast_zero, List.drop_zero] at hsecond
  rw [SearchInfo.matchParts, hoffset, if_neg (by rw [List.length_drop]; omega), hfirst, h2,
    Option.bind_some, blockOf_some, hsecond, Option.map_some]
  have hrestLen : (info.searchStr.length : ℤ) - ((dataOf info.buffer1).drop p).length =
      (p : ℤ) + info.searchStr.length - info.len1 := by
    rw [SearchInfo.len1, List.length_drop]
    omega
  by_cases hwhole : info.searchStr.bytes <+: (dataOf info.buffer1).drop p ++ b'.block
  · obtain ⟨htakes, hgoes⟩ := (prefix_append_iff hdrop).mp hwhole
    rw [if_pos hwhole, if_pos (decide_eq_true (hfront.mpr htakes)),
      if_pos (decide_eq_true hgoes), hrestLen]
  · rw [if_neg hwhole]
    by_cases htakes : info.searchStr.bytes.take ((dataOf info.buffer1).drop p).length =
        (dataOf info.buffer1).drop p
    · have hstops : ¬ info.searchStr.bytes.drop ((dataOf info.buffer1).drop p).length <+:
          b'.block := fun hgoes => hwhole ((prefix_append_iff hdrop).mpr ⟨htakes, hgoes⟩)
      rw [if_pos (decide_eq_true (hfront.mpr htakes)), decide_eq_false hstops]
      rfl
    · rw [decide_eq_false (fun h => htakes (hfront.mp h))]
      rfl

/-- The first candidate at which the second allocation completes a match decides. -/
lemma searchParts_cases (info : SearchInfo size) {b' : Buffer size} (h2 : info.buffer2 = some b')
    (hshort : info.searchStr.length ≤ (dataOf info.buffer1).length + 1) :
    (info.searchParts = some none ∧
        ∀ p < (dataOf info.buffer1).length,
          (dataOf info.buffer1).length < p + info.searchStr.length →
            ¬ info.searchStr.bytes <+: (dataOf info.buffer1).drop p ++ b'.block) ∨
      ∃ p < (dataOf info.buffer1).length,
        (dataOf info.buffer1).length < p + info.searchStr.length ∧
        info.searchStr.bytes <+: (dataOf info.buffer1).drop p ++ b'.block ∧
        info.searchParts =
          some (some ((p : ℤ), (p : ℤ) + info.searchStr.length - info.len1)) ∧
        ∀ q < p, (dataOf info.buffer1).length < q + info.searchStr.length →
          ¬ info.searchStr.bytes <+: (dataOf info.buffer1).drop q ++ b'.block := by
  have hpos := info.searchStr.length_pos
  have hstart : info.len1 - info.searchStr.length + 1 =
      (((dataOf info.buffer1).length + 1 - info.searchStr.length : ℕ) : ℤ) := by
    rw [SearchInfo.len1]
    omega
  have hcell : ∀ p < (dataOf info.buffer1).length,
      info.searchStr.bytes <+: (dataOf info.buffer1).drop p ++ b'.block →
        (blockOf info.buffer1)[p]? = some info.searchStr.first := by
    intro p hp hprefix
    rw [← List.drop_append_of_le_length hp.le] at hprefix
    have happend : (dataOf info.buffer1 ++ b'.block)[p]? = (dataOf info.buffer1)[p]? :=
      List.getElem?_append_left hp
    rw [getElem?_block hp, ← happend]
    exact SearchString.getElem?_of_prefix hprefix
  rw [SearchInfo.searchParts, hstart]
  obtain ⟨hnone, hall⟩ | ⟨p, hip, hp, hc, hstop, hfound, hall⟩ :=
    scanFor_cases (blockOf info.buffer1) info.searchStr.first info.matchParts
      (dataOf info.buffer1).length info.searchStr.length
      ((dataOf info.buffer1).length + 1 - info.searchStr.length) (length_data_le _) (by omega)
      (by omega)
  · refine .inl ⟨hnone, fun p hp hover hprefix => ?_⟩
    have hpass := hall p (by omega) hp (hcell p hp hprefix)
    rw [matchParts_eq h2 hshort hp hover, if_pos hprefix] at hpass
    cases hpass
  · have hover : (dataOf info.buffer1).length < p + info.searchStr.length := by omega
    rw [matchParts_eq h2 hshort hp hover] at hstop hfound
    by_cases hprefix : info.searchStr.bytes <+: (dataOf info.buffer1).drop p ++ b'.block
    · rw [if_pos hprefix] at hfound
      refine .inr ⟨p, hp, hover, hprefix, hfound, fun q hq hqover hqprefix => ?_⟩
      have hpass := hall q (by omega) hq (hcell q (by omega) hqprefix)
      rw [matchParts_eq h2 hshort (by omega) hqover, if_pos hqprefix] at hpass
      cases hpass
    · rw [if_neg hprefix] at hstop
      exact absurd rfl hstop

end SearchParts

end Axis2C.Mime
