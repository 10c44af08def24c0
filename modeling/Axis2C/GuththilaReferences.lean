import Axis2C.GuththilaTagTokens

/-!
# Evaluating references in place

`guththila_string_evaluate_references` reads a string at `i` and writes it at
`j ≤ i`. Between the two stand bytes that nobody reads again, so the bytes from
`i` on are those of the original.
-/
namespace Axis2C.GuththilaReferences
open Guththila (stringEvaluateReferences textBytes)
open GuththilaWriter (escape escapeSequence XmlWriter Status createXmlStreamWriterForMemory
  wf_create)

/-! ### The loops over the memory -/

/-- `for (i = 0; (i < size) && (start[i] != '&'); i++)`. -/
def firstAmpersand (start : List UInt8) (size : ℕ) : ℕ → ℕ → ℕ
  | fuel + 1, i =>
    if i < size ∧ start.getD i 0 ≠ 38 then firstAmpersand start size fuel (i + 1) else i
  | 0, i => i

/-- Whether the characters behind `i` are there and are these. -/
def behind (start : List UInt8) (size i : ℕ) (seq : List UInt8) : Bool :=
  i + seq.length < size && (start.drop (i + 1)).take seq.length = seq

/-- The character for the reference at `i` and the length of the reference. -/
def reference (start : List UInt8) (size i : ℕ) : Option (UInt8 × ℕ) :=
  if behind start size i (textBytes "gt;") then some (62, 4)
  else if behind start size i (textBytes "lt;") then some (60, 4)
  else if behind start size i (textBytes "amp;") then some (38, 5)
  else if behind start size i (textBytes "apos;") then some (39, 6)
  else if behind start size i (textBytes "quot;") then some (34, 6)
  else none

/-- Copy characters downward until the next ampersand, which is copied as well but not passed. -/
def copyDown (size : ℕ) : ℕ → List UInt8 → ℕ → ℕ → List UInt8 × ℕ × ℕ
  | fuel + 1, start, i, j =>
    if i < size then
      let ch := start.getD i 0
      let start := start.set j ch
      if ch ≠ 38 then copyDown size fuel start (i + 1) (j + 1) else (start, i, j)
    else (start, i, j)
  | 0, start, i, j => (start, i, j)

/-- Replace the reference at `i`. -/
def replaceReference (start : List UInt8) (size i j : ℕ) : List UInt8 × ℕ × ℕ :=
  match reference start size i with
  | some (ch, len) => (start.set j ch, i + len, j + 1)
  -- ampersand does not start a sequence
  | none => (start.set j (start.getD i 0), i + 1, j + 1)

/-- `while (i < size)`. -/
def referenceLoop (size : ℕ) : ℕ → List UInt8 → ℕ → ℕ → List UInt8 × ℕ
  | fuel + 1, start, i, j =>
    if i < size then
      let (start, i, j) := replaceReference start size i j
      let (start, i, j) := copyDown size (size + 1) start i j
      referenceLoop size fuel start i j
    else (start, j)
  | 0, start, _, j => (start, j)

/-- The memory at `start` after the call. -/
def evaluateReferences (start : List UInt8) (size : ℕ) : List UInt8 :=
  let i := firstAmpersand start size (size + 1) 0
  if i < size then
    let (start, j) := referenceLoop size (size + 1) start i i
    start.set j 0
  else start

/-! ### The single pass -/

section Pass

variable {ch : UInt8}

def names : List (List UInt8 × UInt8) :=
  [(textBytes "gt;", 62), (textBytes "lt;", 60), (textBytes "amp;", 38), (textBytes "apos;", 39),
    (textBytes "quot;", 34)]

lemma pass_reference {seq : List UInt8} (h : (seq, ch) ∈ names) (rest : List UInt8) :
    stringEvaluateReferences (38 :: seq ++ rest) = ch :: stringEvaluateReferences rest := by
  simp only [names, List.mem_cons, List.not_mem_nil, or_false, Prod.mk.injEq] at h
  obtain ⟨rfl, rfl⟩ | ⟨rfl, rfl⟩ | ⟨rfl, rfl⟩ | ⟨rfl, rfl⟩ | ⟨rfl, rfl⟩ := h
  all_goals simp [textBytes, stringEvaluateReferences]

/-- An ampersand that starts none of the references. -/
lemma pass_ampersand {rest : List UInt8} (h : ∀ p ∈ names, ¬ p.1 <+: rest) :
    stringEvaluateReferences (38 :: rest) = 38 :: stringEvaluateReferences rest := by
  have hnone : ∀ p ∈ names, ∀ {tail}, 38 :: rest ≠ 38 :: (p.1 ++ tail) :=
    fun p hmem tail heq => h p hmem ⟨tail, (List.cons.inj heq).2.symm⟩
  conv_lhs => unfold stringEvaluateReferences
  split
  · next heq => cases heq
  · next heq => exact absurd heq (hnone (textBytes "gt;", 62) (by simp [names]))
  · next heq => exact absurd heq (hnone (textBytes "lt;", 60) (by simp [names]))
  · next heq => exact absurd heq (hnone (textBytes "amp;", 38) (by simp [names]))
  · next heq => exact absurd heq (hnone (textBytes "apos;", 39) (by simp [names]))
  · next heq => exact absurd heq (hnone (textBytes "quot;", 34) (by simp [names]))
  · next heq =>
      obtain ⟨rfl, rfl⟩ := List.cons.inj heq
      rfl

lemma pass_cons (h : ch ≠ 38) (rest : List UInt8) :
    stringEvaluateReferences (ch :: rest) = ch :: stringEvaluateReferences rest := by
  conv_lhs => unfold stringEvaluateReferences
  split <;> simp_all

lemma pass_plain {plain : List UInt8} (h : ∀ ch ∈ plain, ch ≠ 38) (rest : List UInt8) :
    stringEvaluateReferences (plain ++ rest) = plain ++ stringEvaluateReferences rest := by
  induction plain with
  | nil => rfl
  | cons ch plain ih =>
    rw [List.cons_append, pass_cons (h ch (List.mem_cons_self ..)),
      ih fun c hc => h c (List.mem_cons_of_mem _ hc), List.cons_append]

lemma escapeSequence_name {seq : List UInt8} (h : escapeSequence ch = some seq) :
    ∃ name, seq = 38 :: name ∧ (name, ch) ∈ names := by
  unfold escapeSequence at h
  split at h
  · next hch => exact ⟨textBytes "gt;", (Option.some.inj h).symm, by simp [names, hch]⟩
  split at h
  · next hch => exact ⟨textBytes "lt;", (Option.some.inj h).symm, by simp [names, hch]⟩
  split at h
  · next hch => exact ⟨textBytes "apos;", (Option.some.inj h).symm, by simp [names, hch]⟩
  split at h
  · next hch => exact ⟨textBytes "quot;", (Option.some.inj h).symm, by simp [names, hch]⟩
  split at h
  · next hch => exact ⟨textBytes "amp;", (Option.some.inj h).symm, by simp [names, hch]⟩
  · cases h

/-- The text that the writer escapes is what is read. -/
lemma pass_escape (s : List UInt8) : stringEvaluateReferences (escape s) = s := by
  induction s with
  | nil => rfl
  | cons ch s ih =>
    have hcons : escape (ch :: s) = (escapeSequence ch).getD [ch] ++ escape s := rfl
    rw [hcons]
    cases hseq : escapeSequence ch with
    | none =>
      have hplain : ch ≠ 38 := by
        rintro rfl
        cases hseq
      rw [Option.getD_none, List.singleton_append, pass_cons hplain, ih]
    | some seq =>
      obtain ⟨name, rfl, hname⟩ := escapeSequence_name hseq
      rw [Option.getD_some, pass_reference hname, ih]

end Pass

/-! ### The pass in place -/

section InPlace

/-- The string so far, bytes nobody reads again, the bytes still to be read and the NUL. -/
def memory (out gap rest : List UInt8) : List UInt8 := out ++ (gap ++ (rest ++ [0]))

variable (out gap : List UInt8)

lemma memory_getD (c : UInt8) (rest : List UInt8) :
    (memory out gap (c :: rest)).getD (out.length + gap.length) 0 = c := by
  have hmem : memory out gap (c :: rest) = (out ++ gap) ++ c :: (rest ++ [0]) := by
    simp [memory]
  rw [hmem, ← List.length_append, List.getD_eq_getElem?_getD]
  simp

/-- A write at the end of the string, when the bytes `front` have been read. -/
lemma memory_set {front : List UInt8} (h : front ≠ []) (c : UInt8) (rest : List UInt8) :
    ∃ gap', (memory out gap (front ++ rest)).set out.length c = memory (out ++ [c]) gap' rest ∧
      gap'.length + 1 = gap.length + front.length := by
  obtain ⟨g, gap', hfront⟩ := List.exists_cons_of_ne_nil (List.append_ne_nil_of_right_ne_nil gap h)
  refine ⟨gap', ?_, ?_⟩
  · have hmem : memory out gap (front ++ rest) = out ++ (g :: gap') ++ (rest ++ [0]) := by
      rw [← hfront]
      simp [memory]
    rw [hmem]
    simp [memory]
  · have hlen := congrArg List.length hfront
    simpa using hlen.symm

/-- A write of the next byte to be read loses nothing. -/
lemma memory_store (c : UInt8) (rest : List UInt8) :
    ∃ gap', (memory out gap (c :: rest)).set out.length c = memory out gap' (c :: rest) ∧
      gap'.length = gap.length := by
  cases gap with
  | nil => exact ⟨[], by simp [memory], rfl⟩
  | cons g gap => exact ⟨c :: gap, by simp [memory], by simp⟩

lemma memory_behind (seq rest : List UInt8) :
    behind (memory out gap (38 :: rest)) (out.length + gap.length + (rest.length + 1))
      (out.length + gap.length) seq = decide (seq <+: rest) := by
  have hdrop : (memory out gap (38 :: rest)).drop (out.length + gap.length + 1) = rest ++ [0] := by
    have hmem : memory out gap (38 :: rest) = (out ++ gap ++ [38]) ++ (rest ++ [0]) := by
      simp [memory]
    rw [hmem]
    exact List.drop_left' (by simp; omega)
  rw [behind, hdrop, ← Bool.decide_and, decide_eq_decide]
  constructor
  · rintro ⟨hlt, htake⟩
    have hle : seq.length ≤ rest.length := by omega
    rw [List.take_append_of_le_length hle] at htake
    exact htake ▸ List.take_prefix ..
  · intro hprefix
    have hle := hprefix.length_le
    refine ⟨by omega, ?_⟩
    rw [List.take_append_of_le_length hle]
    exact (List.prefix_iff_eq_take.mp hprefix).symm

/-- The reference that is found is the one whose name stands behind the ampersand. -/
lemma memory_reference (rest : List UInt8) :
    match reference (memory out gap (38 :: rest)) (out.length + gap.length + (rest.length + 1))
      (out.length + gap.length) with
    | some (ch, len) => ∃ name, (name, ch) ∈ names ∧ name <+: rest ∧ len = name.length + 1
    | none => ∀ p ∈ names, ¬ p.1 <+: rest := by
  simp only [reference, memory_behind, decide_eq_true_eq]
  by_cases hgt : textBytes "gt;" <+: rest
  · rw [if_pos hgt]
    exact ⟨_, by simp [names], hgt, rfl⟩
  by_cases hlt : textBytes "lt;" <+: rest
  · rw [if_neg hgt, if_pos hlt]
    exact ⟨textBytes "lt;", by simp [names], hlt, rfl⟩
  by_cases hamp : textBytes "amp;" <+: rest
  · rw [if_neg hgt, if_neg hlt, if_pos hamp]
    exact ⟨textBytes "amp;", by simp [names], hamp, rfl⟩
  by_cases hapos : textBytes "apos;" <+: rest
  · rw [if_neg hgt, if_neg hlt, if_neg hamp, if_pos hapos]
    exact ⟨textBytes "apos;", by simp [names], hapos, rfl⟩
  by_cases hquot : textBytes "quot;" <+: rest
  · rw [if_neg hgt, if_neg hlt, if_neg hamp, if_neg hapos, if_pos hquot]
    exact ⟨textBytes "quot;", by simp [names], hquot, rfl⟩
  rw [if_neg hgt, if_neg hlt, if_neg hamp, if_neg hapos, if_neg hquot]
  simp [names, hgt, hlt, hamp, hapos, hquot]

/-- One reference becomes one character of the string. -/
lemma memory_replaceReference (rest : List UInt8) :
    ∃ ch front rest' gap', 38 :: rest = front ++ rest' ∧ front ≠ [] ∧
      stringEvaluateReferences (38 :: rest) = ch :: stringEvaluateReferences rest' ∧
      gap'.length + 1 = gap.length + front.length ∧
      replaceReference (memory out gap (38 :: rest)) (out.length + gap.length + (rest.length + 1))
          (out.length + gap.length) out.length =
        (memory (out ++ [ch]) gap' rest', out.length + gap.length + front.length,
          out.length + 1) := by
  have hreference := memory_reference out gap rest
  rw [replaceReference]
  split at hreference
  · next ch len _ =>
      obtain ⟨name, hname, ⟨rest', rfl⟩, rfl⟩ := hreference
      obtain ⟨gap', hset, hlen⟩ := memory_set out gap (List.cons_ne_nil 38 name) ch rest'
      refine ⟨ch, 38 :: name, rest', gap', rfl, List.cons_ne_nil _ _, pass_reference hname rest',
        hlen, ?_⟩
      exact Prod.ext hset rfl
  · next =>
      obtain ⟨gap', hset, hlen⟩ := memory_set out gap (List.cons_ne_nil 38 []) 38 rest
      refine ⟨38, [38], rest, gap', rfl, List.cons_ne_nil _ _, pass_ampersand hreference, hlen, ?_⟩
      rw [memory_getD]
      exact Prod.ext hset rfl

/-- The characters up to the next ampersand are moved down; storing the ampersand as well changes
nothing that is still to be read. -/
lemma memory_copyDown {plain rest : List UInt8} (hplain : ∀ c ∈ plain, c ≠ 38)
    (hrest : ∀ c ∈ rest.head?, c = 38) (out gap : List UInt8) (fuel : ℕ)
    (hfuel : plain.length < fuel) :
    ∃ gap', gap'.length = gap.length ∧
      copyDown (out.length + gap.length + (plain.length + rest.length)) fuel
          (memory out gap (plain ++ rest)) (out.length + gap.length) out.length =
        (memory (out ++ plain) gap' rest, out.length + gap.length + plain.length,
          out.length + plain.length) := by
  induction plain generalizing out gap fuel with
  | nil =>
    obtain ⟨fuel, rfl⟩ : ∃ n, fuel = n + 1 := ⟨fuel - 1, by simp at hfuel; omega⟩
    cases rest with
    | nil => exact ⟨gap, rfl, by simp [copyDown]⟩
    | cons c rest =>
      obtain rfl : c = 38 := hrest c rfl
      obtain ⟨gap', hstore, hlen⟩ := memory_store out gap 38 rest
      refine ⟨gap', hlen, ?_⟩
      rw [copyDown, if_pos (by simp), List.nil_append]
      simp only [memory_getD]
      rw [if_neg (not_not.mpr rfl), hstore]
      simp
  | cons c plain ih =>
    obtain ⟨fuel, rfl⟩ : ∃ n, fuel = n + 1 := ⟨fuel - 1, by omega⟩
    obtain ⟨gap', hset, hlen⟩ := memory_set out gap (List.cons_ne_nil c []) c (plain ++ rest)
    obtain ⟨gap'', hlen', hcopy⟩ := ih (fun c hc => hplain c (List.mem_cons_of_mem _ hc))
      (out ++ [c]) gap' fuel (by simpa using hfuel)
    have hgap : gap'.length = gap.length := by simpa using hlen
    have hplace : (out ++ [c]).length + gap'.length = out.length + gap.length + 1 := by
      rw [List.length_append, List.length_singleton, hgap]
      omega
    have hsize : out.length + gap.length + ((c :: plain).length + rest.length) =
        out.length + gap.length + 1 + (plain.length + rest.length) := by
      rw [List.length_cons]
      omega
    rw [hplace, List.length_append, List.length_singleton] at hcopy
    refine ⟨gap'', hlen'.trans hgap, ?_⟩
    rw [copyDown, if_pos (by simp), List.cons_append]
    simp only [memory_getD]
    rw [List.singleton_append] at hset
    rw [if_pos (hplain c (List.mem_cons_self ..)), hset, hsize, hcopy]
    simp [add_assoc, add_comm 1]

/-- A string is cut before its first ampersand. -/
lemma exists_cut (rest : List UInt8) :
    ∃ plain rest', rest = plain ++ rest' ∧ (∀ c ∈ plain, c ≠ 38) ∧
      ∀ c ∈ rest'.head?, c = 38 := by
  refine ⟨_, _, (List.takeWhile_append_dropWhile (p := (· ≠ (38 : UInt8)))).symm, ?_, ?_⟩
  · intro c hc
    simpa using List.mem_takeWhile_imp hc
  · intro c hc
    have hnot := List.head?_dropWhile_not (· ≠ (38 : UInt8)) rest
    rw [Option.mem_def.mp hc] at hnot
    simpa using hnot

/-- The rest of the string is evaluated behind what has been written. -/
lemma memory_referenceLoop (rest : List UInt8) (hrest : ∀ c ∈ rest.head?, c = 38)
    (out gap : List UInt8) (fuel : ℕ) (hfuel : rest.length < fuel) :
    ∃ gap', referenceLoop (out.length + gap.length + rest.length) fuel (memory out gap rest)
        (out.length + gap.length) out.length =
      (memory (out ++ stringEvaluateReferences rest) gap' [],
        (out ++ stringEvaluateReferences rest).length) := by
  induction hn : rest.length using Nat.strong_induction_on generalizing rest out gap fuel with
  | _ n ih =>
    subst hn
    obtain ⟨fuel, rfl⟩ : ∃ n, fuel = n + 1 := ⟨fuel - 1, by omega⟩
    cases rest with
    | nil => exact ⟨gap, by simp [referenceLoop, stringEvaluateReferences]⟩
    | cons c rest =>
      obtain rfl : c = 38 := hrest c rfl
      obtain ⟨ch, front, left, gap₁, hcut, hfront, hpass, hgap₁, hreplace⟩ :=
        memory_replaceReference out gap rest
      obtain ⟨plain, rest', rfl, hplain, hrest'⟩ := exists_cut left
      have hlen : rest.length + 1 = front.length + (plain.length + rest'.length) := by
        simpa using congrArg List.length hcut
      have hpos : 0 < front.length := List.length_pos_of_ne_nil hfront
      obtain ⟨gap₂, hgap₂, hcopy⟩ := memory_copyDown hplain hrest' (out ++ [ch]) gap₁
        (out.length + gap.length + (rest.length + 1) + 1) (by omega)
      obtain ⟨gap₃, hloop⟩ := ih rest'.length (by simp; omega) rest' hrest'
        (out ++ [ch] ++ plain) gap₂ fuel (by simp at hfuel; omega) rfl
      have hi : (out ++ [ch]).length + gap₁.length =
          out.length + gap.length + front.length := by
        rw [List.length_append, List.length_singleton]
        omega
      have hsize : out.length + gap.length + front.length + (plain.length + rest'.length) =
          out.length + gap.length + (rest.length + 1) := by
        omega
      have hi' : (out ++ [ch] ++ plain).length + gap₂.length =
          out.length + gap.length + front.length + plain.length := by
        rw [List.length_append, hgap₂]
        omega
      refine ⟨gap₃, ?_⟩
      rw [hpass, pass_plain hplain, referenceLoop, if_pos (by simp), List.length_cons, hreplace]
      rw [hi, hsize, List.length_append, List.length_singleton] at hcopy
      rw [hi', add_assoc _ plain.length, hsize] at hloop
      simp only [hcopy]
      have hj : out.length + 1 + plain.length = (out ++ ch :: plain).length := by
        rw [List.length_append, List.length_cons]
        omega
      rw [List.append_assoc, List.append_assoc, List.singleton_append] at hloop
      rw [hj, List.append_assoc, List.singleton_append]
      exact hloop

lemma memory_firstAmpersand {plain rest : List UInt8} (hplain : ∀ c ∈ plain, c ≠ 38)
    (hrest : ∀ c ∈ rest.head?, c = 38) (out : List UInt8) (fuel : ℕ)
    (hfuel : plain.length < fuel) :
    firstAmpersand (memory out [] (plain ++ rest)) (out.length + (plain.length + rest.length)) fuel
      out.length = out.length + plain.length := by
  have hread : ∀ (out : List UInt8) (c : UInt8) (rest : List UInt8),
      (memory out [] (c :: rest)).getD out.length 0 = c :=
    fun out c rest => memory_getD out [] c rest
  induction plain generalizing out fuel with
  | nil =>
    obtain ⟨fuel, rfl⟩ : ∃ n, fuel = n + 1 := ⟨fuel - 1, by simp at hfuel; omega⟩
    rw [firstAmpersand, if_neg]
    · rfl
    · rintro ⟨hlt, hne⟩
      cases rest with
      | nil => exact absurd hlt (by simp)
      | cons c rest =>
        rw [List.nil_append, hread] at hne
        exact hne (hrest c rfl)
  | cons c plain ih =>
    obtain ⟨fuel, rfl⟩ : ∃ n, fuel = n + 1 := ⟨fuel - 1, by omega⟩
    have hmem : memory out [] (c :: (plain ++ rest)) =
        memory (out ++ [c]) [] (plain ++ rest) := by
      simp [memory]
    have hscan := ih (fun c hc => hplain c (List.mem_cons_of_mem _ hc)) (out ++ [c]) fuel
      (by simpa using hfuel)
    have hsize : out.length + ((c :: plain).length + rest.length) =
        (out ++ [c]).length + (plain.length + rest.length) := by
      simp
      omega
    rw [firstAmpersand, List.cons_append, hread, if_pos ⟨by simp, hplain c (by simp)⟩, hmem,
      hsize]
    rw [List.length_append, List.length_singleton] at hscan ⊢
    rw [hscan, List.length_cons]
    omega

/-- The memory then holds the string of the single pass and a NUL. -/
theorem evaluateReferences_pass (t : List UInt8) :
    (stringEvaluateReferences t ++ [0]) <+: evaluateReferences (t ++ [0]) t.length := by
  obtain ⟨plain, rest, rfl, hplain, hrest⟩ := exists_cut t
  have hscan := memory_firstAmpersand hplain hrest [] ((plain ++ rest).length + 1) (by simp)
  simp only [memory, List.nil_append, List.length_nil, zero_add, ← List.length_append] at hscan
  rw [evaluateReferences, hscan, pass_plain hplain]
  cases rest with
  | nil => simp [stringEvaluateReferences]
  | cons c rest =>
    obtain ⟨gap, hloop⟩ := memory_referenceLoop (c :: rest) hrest plain []
      ((plain ++ c :: rest).length + 1) (by simp)
    have hstart : plain ++ c :: rest ++ [0] = memory plain [] (c :: rest) := by
      simp [memory]
    rw [List.length_nil, Nat.add_zero, ← List.length_append] at hloop
    simp only [hstart, hloop]
    rw [if_pos (by simp)]
    cases gap with
    | nil => exact ⟨[], by simp [memory]⟩
    | cons g gap => exact ⟨gap ++ [0], by simp [memory]⟩

end InPlace

/-! ### The round trip -/

/-- What is written before the characters. -/
def closing : Status → List UInt8
  | .start => textBytes ">"
  | .startEmpty => textBytes "/>"
  | .begining => []

/-- The C string in the memory at `start`. -/
def stringAt (start : List UInt8) : List UInt8 := start.takeWhile (· ≠ 0)

lemma stringAt_prefix {s start : List UInt8} (hs : (0 : UInt8) ∉ s) (h : (s ++ [0]) <+: start) :
    stringAt start = s := by
  obtain ⟨after, rfl⟩ := h
  have hpos : ∀ c ∈ s, c ≠ 0 := fun c hc hzero => hs (hzero ▸ hc)
  rw [stringAt, List.append_assoc, List.takeWhile_append_of_pos (by simpa using hpos)]
  simp

/-- The characters of a NUL-free string are read as they were written, and what is done in place
is the single pass. -/
theorem characters_round_trip (wr : XmlWriter) (h : wr.Wf) (s : List UInt8)
    (hs : (0 : UInt8) ∉ s) :
    (∃ wr' emitted, GuththilaWriter.writeCharacters wr s = .ok (true, wr') ∧
      wr'.buffer.output = wr.buffer.output ++ closing wr.status ++ emitted ∧
      stringAt (evaluateReferences (emitted ++ [0]) emitted.length) = s) ∧
    ∀ t, (stringEvaluateReferences t ++ [0]) <+: evaluateReferences (t ++ [0]) t.length := by
  refine ⟨?_, evaluateReferences_pass⟩
  obtain ⟨wr', hrun, -, -, -, houtput⟩ := h.writeCharacters s
  have hclosing : wr'.buffer.output = wr.buffer.output ++ closing wr.status ++ escape s := by
    rw [houtput]
    cases wr.status <;> rfl
  have hread := evaluateReferences_pass (escape s)
  rw [pass_escape] at hread
  exact ⟨wr', escape s, hrun, hclosing, stringAt_prefix hs hread⟩

theorem characters_round_trip_fresh : ∃ wr' emitted,
    GuththilaWriter.writeCharacters (createXmlStreamWriterForMemory fun _ _ => 0)
        (textBytes "a&lt;") = .ok (true, wr') ∧
      wr'.buffer.output = emitted ∧
      stringAt (evaluateReferences (emitted ++ [0]) emitted.length) = textBytes "a&lt;" := by
  obtain ⟨⟨wr', emitted, hrun, houtput, hread⟩, -⟩ :=
    characters_round_trip _ (wf_create fun _ _ => 0) (textBytes "a&lt;") (by decide)
  exact ⟨wr', emitted, hrun, houtput, hread⟩

end Axis2C.GuththilaReferences
