import Mathlib.Data.List.Nodup
import Mathlib.Tactic

/-!
# The token pool of the parser

`guththila_token.c`: the tokens lie in blocks, the next twice as long as the one before, and
those that are not handed out are on a stack. The table of the blocks grows when it is full; the
table of their lengths does not. An access outside a table has no result.
-/
namespace Axis2C.Guththila.TokenPool

def defListSize : ℕ := 16

def defSize : ℕ := 16

/-- The block and the place in it. -/
abbrev Token := ℕ × ℕ

/-- `guththila_tok_list_t`; `list` and `capacity` have as many entries as were allocated. -/
structure TokList where
  fr_stack : List Token
  list : List ℕ
  no_list : ℕ
  cur_list : ℕ
  capacity : List ℕ

/-- `tab[i] = v` -/
def store (tab : List ℕ) (i v : ℕ) : Option (List ℕ) :=
  if i < tab.length then some (tab.set i v) else none

def pushBlock (fr_stack : List Token) (cur cap : ℕ) : List Token :=
  (List.range cap).foldl (fun stack i => (cur, i) :: stack) fr_stack

/-- The first branch of `guththila_tok_list_grow`: the next block. -/
def nextBlock (tok_list : TokList) : Option TokList := do
  let cur := tok_list.cur_list + 1
  let last ← tok_list.capacity[cur - 1]?
  let cur_cap := last * 2
  let list ← store tok_list.list cur cur_cap
  let capacity ← store tok_list.capacity cur cur_cap
  return ⟨pushBlock tok_list.fr_stack cur cur_cap, list, tok_list.no_list, cur, capacity⟩

/-- The entries up to `cur_list` in a table of twice the length. -/
def copyList (tok_list : TokList) : Option (List ℕ) :=
  if tok_list.cur_list < tok_list.list.length ∧ tok_list.cur_list < tok_list.no_list * 2 then
    some (tok_list.list.take (tok_list.cur_list + 1) ++
      List.replicate (tok_list.no_list * 2 - (tok_list.cur_list + 1)) 0)
  else none

/-- `guththila_tok_list_grow`, with its status; the second branch calls the function again and
reports a failure. -/
def grow : ℕ → TokList → Option (Bool × TokList)
  | 0, _ => none
  | fuel + 1, tok_list =>
    if tok_list.cur_list < tok_list.no_list - 1 then (nextBlock tok_list).map (true, ·)
    else do
      let list ← copyList tok_list
      let grown ← grow fuel { tok_list with list := list, no_list := tok_list.no_list * 2 }
      return (false, grown.2)

/-- `guththila_tok_list_init` -/
def init : TokList :=
  ⟨pushBlock [] 0 defSize, (List.replicate defListSize 0).set 0 defSize, defListSize, 0,
    (List.replicate defListSize 0).set 0 defSize⟩

/-- `guththila_stack_pop` -/
def pop (tok_list : TokList) : Option Token × TokList :=
  match tok_list.fr_stack with
  | [] => (none, tok_list)
  | token :: fr_stack => (some token, { tok_list with fr_stack := fr_stack })

/-- `guththila_tok_list_get_token`; a table that was made longer has room, so that `grow` calls
itself once at most. -/
def getToken (tok_list : TokList) : Option (Option Token × TokList) :=
  if tok_list.fr_stack ≠ [] then some (pop tok_list)
  else do
    let (status, tok_list) ← grow 2 tok_list
    return if status then pop tok_list else (none, tok_list)

/-- `guththila_tok_list_release_token` -/
def releaseToken (tok_list : TokList) (token : Token) : TokList :=
  { tok_list with fr_stack := token :: tok_list.fr_stack }

section Runs

/-- A call: one for a token, or one that gives back the token with this number among those that
are handed out. -/
inductive Call where
  | get
  | release (i : ℕ)

/-- Every call for a token gives one that is not handed out, without an access outside the
tables. -/
def Serves : List Call → TokList → List Token → Prop
  | [], _, _ => True
  | .get :: calls, tok_list, out => ∃ token tok_list', getToken tok_list =
      some (some token, tok_list') ∧ token ∉ out ∧ Serves calls tok_list' (token :: out)
  | .release i :: calls, tok_list, out =>
    ∀ token, out[i]? = some token → Serves calls (releaseToken tok_list token) (out.eraseIdx i)

/-- The tokens of all blocks up to the last that `capacity` has an entry for. -/
def poolSize : ℕ := defSize * (2 ^ defListSize - 1)

/-- Before every call for a token fewer than `poolSize` are handed out, `n` at first. -/
def Fits : List Call → ℕ → Prop
  | [], _ => True
  | .get :: calls, n => n < poolSize ∧ Fits calls (n + 1)
  | .release i :: calls, n => i < n → Fits calls (n - 1)

end Runs

section Invariant

/-- The tokens of the blocks so far are on the stack or handed out, each once. -/
structure Pooled (tok_list : TokList) (out : List Token) : Prop where
  no_list : tok_list.no_list = defListSize
  list : tok_list.list.length = defListSize
  capacity : tok_list.capacity.length = defListSize
  cur_list : tok_list.cur_list < defListSize
  cur_cap : tok_list.capacity[tok_list.cur_list]? = some (defSize * 2 ^ tok_list.cur_list)
  count : tok_list.fr_stack.length + out.length = defSize * (2 ^ (tok_list.cur_list + 1) - 1)
  nodup : (tok_list.fr_stack ++ out).Nodup
  blocks : ∀ token ∈ tok_list.fr_stack ++ out, token.1 ≤ tok_list.cur_list

variable {tok_list : TokList} {out : List Token}

lemma pushBlock_eq (fr_stack : List Token) (cur cap : ℕ) :
    pushBlock fr_stack cur cap = ((List.range cap).map fun i => (cur, i)).reverse ++ fr_stack := by
  unfold pushBlock
  generalize List.range cap = places
  induction places generalizing fr_stack with
  | nil => rfl
  | cons i places ih => rw [List.foldl_cons, ih]; simp

lemma pushBlock_length (fr_stack : List Token) (cur cap : ℕ) :
    (pushBlock fr_stack cur cap).length = cap + fr_stack.length := by
  simp [pushBlock_eq]

lemma pooled_init : Pooled init [] := by
  refine ⟨rfl, rfl, rfl, by decide, rfl, rfl, by decide, by decide⟩

/-- A new block is disjoint from what is handed out. -/
lemma Pooled.nextBlock (h : Pooled tok_list out) (hempty : tok_list.fr_stack = [])
    (hroom : tok_list.cur_list + 1 < defListSize) :
    ∃ grown, nextBlock tok_list = some grown ∧ Pooled grown out ∧ grown.fr_stack ≠ [] := by
  obtain ⟨hno, hlist, hcap, -, hcur, hcount, hnodup, hblocks⟩ := h
  rw [hempty, List.nil_append] at hnodup hblocks
  rw [hempty, List.length_nil, Nat.zero_add] at hcount
  have hdouble : defSize * 2 ^ tok_list.cur_list * 2 = defSize * 2 ^ (tok_list.cur_list + 1) := by
    rw [pow_succ, mul_assoc]
  refine ⟨⟨pushBlock tok_list.fr_stack (tok_list.cur_list + 1)
    (defSize * 2 ^ (tok_list.cur_list + 1)),
    tok_list.list.set (tok_list.cur_list + 1) (defSize * 2 ^ (tok_list.cur_list + 1)),
    tok_list.no_list, tok_list.cur_list + 1,
    tok_list.capacity.set (tok_list.cur_list + 1) (defSize * 2 ^ (tok_list.cur_list + 1))⟩, ?_, ?_⟩
  · simp [TokenPool.nextBlock, hcur, store, hlist, hcap, hroom, hdouble]
  · refine ⟨⟨hno, by simpa using hlist, by simpa using hcap, hroom, ?_, ?_, ?_, ?_⟩, ?_⟩
    · rw [List.getElem?_set_self (by rw [hcap]; exact hroom)]
    · rw [pushBlock_length, hempty, List.length_nil, hcount]
      have hpow : 0 < 2 ^ (tok_list.cur_list + 1) := by positivity
      rw [pow_succ 2 (tok_list.cur_list + 1), Nat.add_zero, ← Nat.mul_add]
      congr 1
      omega
    · rw [pushBlock_eq, hempty, List.append_nil, List.nodup_append]
      refine ⟨?_, hnodup, ?_⟩
      · rw [List.nodup_reverse]
        exact List.nodup_range.map fun i j hij => (Prod.mk.inj hij).2
      · rintro token hnew _ hout rfl
        have hle := hblocks token hout
        obtain ⟨i, -, rfl⟩ : ∃ i, i < _ ∧ (tok_list.cur_list + 1, i) = token := by simpa using hnew
        exact absurd hle (by simp)
    · rw [pushBlock_eq, hempty, List.append_nil]
      intro token hmem
      rcases List.mem_append.mp hmem with hnew | hout
      · obtain ⟨i, -, rfl⟩ : ∃ i, i < _ ∧ (tok_list.cur_list + 1, i) = token := by simpa using hnew
        exact le_rfl
      · exact (hblocks token hout).trans (Nat.le_succ _)
    · rw [← List.length_pos_iff, pushBlock_length]
      have hpow : 0 < defSize * 2 ^ (tok_list.cur_list + 1) := by
        unfold defSize
        positivity
      omega

/-- A token from the stack. -/
lemma Pooled.pop (h : Pooled tok_list out) (hne : tok_list.fr_stack ≠ []) :
    ∃ token rest, pop tok_list = (some token, rest) ∧ token ∉ out ∧ Pooled rest (token :: out) := by
  obtain ⟨token, fr_stack, hstack⟩ := List.exists_cons_of_ne_nil hne
  obtain ⟨hno, hlist, hcap, hlt, hcur, hcount, hnodup, hblocks⟩ := h
  rw [hstack] at hcount hnodup hblocks
  have hperm : (fr_stack ++ token :: out).Perm (token :: fr_stack ++ out) := List.perm_middle
  refine ⟨token, { tok_list with fr_stack := fr_stack }, by simp [TokenPool.pop, hstack], ?_,
    hno, hlist, hcap, hlt, hcur, ?_, hperm.nodup_iff.mpr hnodup, ?_⟩
  · intro hmem
    exact (List.nodup_cons.mp hnodup).1 (List.mem_append_right _ hmem)
  · rw [← hcount, List.length_cons, List.length_cons]
    show fr_stack.length + (out.length + 1) = fr_stack.length + 1 + out.length
    omega
  · exact fun t ht => hblocks t (hperm.mem_iff.mp ht)

/-- A token that is given back. -/
lemma Pooled.release (h : Pooled tok_list out) {i : ℕ} {token : Token}
    (hi : out[i]? = some token) : Pooled (releaseToken tok_list token) (out.eraseIdx i) := by
  obtain ⟨hlt, hget⟩ := List.getElem?_eq_some_iff.mp hi
  have hperm : (token :: tok_list.fr_stack ++ out.eraseIdx i).Perm (tok_list.fr_stack ++ out) := by
    have hout : (token :: out.eraseIdx i).Perm out := by
      rw [← hget]
      exact List.getElem_cons_eraseIdx_perm hlt
    exact (@List.perm_middle _ _ tok_list.fr_stack _).symm.trans (hout.append_left _)
  refine ⟨h.no_list, h.list, h.capacity, h.cur_list, h.cur_cap, ?_, hperm.nodup_iff.mpr h.nodup,
    fun t ht => h.blocks t (hperm.mem_iff.mp ht)⟩
  have hlength := hperm.length_eq
  simp only [List.length_append, List.length_cons] at hlength
  have hcount := h.count
  rw [← hlength] at hcount
  exact hcount

/-- With all blocks handed out, the entry of `capacity` behind the last is written. -/
lemma Pooled.getToken_full (h : Pooled tok_list out) (hempty : tok_list.fr_stack = [])
    (hlast : ¬ tok_list.cur_list + 1 < defListSize) : getToken tok_list = none := by
  have hcur : tok_list.cur_list = 15 := by
    have hlt := h.cur_list
    unfold defListSize at hlt hlast
    omega
  have hno := h.no_list
  have hlist := h.list
  have hcap := h.capacity
  unfold defListSize at hno hlist hcap
  simp [getToken, hempty, grow, copyList, TokenPool.nextBlock, store, hcur, hno, hlist, hcap]

/-- The tokens that are handed out are fewer than all, where one is left or the next block is. -/
lemma Pooled.out_lt (h : Pooled tok_list out)
    (hleft : tok_list.fr_stack ≠ [] ∨ tok_list.cur_list + 1 < defListSize) :
    out.length < poolSize := by
  have hcount := h.count
  unfold poolSize
  rcases hleft with hne | hroom
  · have hpos := List.length_pos_iff.mpr hne
    have hle : defSize * (2 ^ (tok_list.cur_list + 1) - 1) ≤ defSize * (2 ^ defListSize - 1) :=
      Nat.mul_le_mul_left _ (Nat.sub_le_sub_right
        (Nat.pow_le_pow_right (by decide) h.cur_list) 1)
    omega
  · have hlt : defSize * (2 ^ (tok_list.cur_list + 1) - 1) < defSize * (2 ^ defListSize - 1) := by
      have hpow : 2 ^ (tok_list.cur_list + 1) < 2 ^ defListSize :=
        Nat.pow_lt_pow_right (by decide) hroom
      have hone : 0 < 2 ^ (tok_list.cur_list + 1) := by positivity
      exact Nat.mul_lt_mul_of_pos_left (by omega) (by decide)
    omega

/-- A call is served where fewer tokens than all are handed out, and only there. -/
lemma Pooled.getToken (h : Pooled tok_list out) :
    (out.length < poolSize ∧ ∃ token rest, getToken tok_list = some (some token, rest) ∧
      token ∉ out ∧ Pooled rest (token :: out)) ∨
    (¬ out.length < poolSize ∧ getToken tok_list = none) := by
  by_cases hempty : tok_list.fr_stack = []
  · by_cases hroom : tok_list.cur_list + 1 < defListSize
    · obtain ⟨grown, hgrown, hpooled, hne⟩ := h.nextBlock hempty hroom
      obtain ⟨token, rest, hpop, hnot, hrest⟩ := hpooled.pop hne
      refine .inl ⟨h.out_lt (.inr hroom), token, rest, ?_, hnot, hrest⟩
      have hlt : tok_list.cur_list < tok_list.no_list - 1 := by
        rw [h.no_list]
        omega
      simp [TokenPool.getToken, hempty, grow, hlt, hgrown, hpop]
    · refine .inr ⟨?_, h.getToken_full hempty hroom⟩
      have hcount := h.count
      have hlast : tok_list.cur_list + 1 = defListSize := by
        have hlt := h.cur_list
        omega
      rw [hempty, List.length_nil, Nat.zero_add, hlast] at hcount
      exact fun hlt => absurd hcount (Nat.ne_of_lt hlt)
  · obtain ⟨token, rest, hpop, hnot, hrest⟩ := h.pop hempty
    refine .inl ⟨h.out_lt (.inl hempty), token, rest, ?_, hnot, hrest⟩
    rw [TokenPool.getToken, if_pos hempty, hpop]

lemma Pooled.serves_iff_fits (h : Pooled tok_list out) (calls : List Call) :
    Serves calls tok_list out ↔ Fits calls out.length := by
  induction calls generalizing tok_list out with
  | nil => exact Iff.rfl
  | cons call calls ih =>
    cases call with
    | get =>
      rw [Serves, Fits]
      rcases h.getToken with ⟨hlt, token, rest, hget, hnot, hrest⟩ | ⟨hfull, hget⟩
      · rw [hget]
        constructor
        · rintro ⟨_, _, ⟨⟩, -, hserves⟩
          exact ⟨hlt, (ih hrest).mp hserves⟩
        · rintro ⟨-, hfits⟩
          exact ⟨token, rest, rfl, hnot, (ih hrest).mpr hfits⟩
      · simp [hget, hfull]
    | release i =>
      rw [Serves, Fits]
      by_cases hi : i < out.length
      · have hget := List.getElem?_eq_getElem hi
        have hnext := ih (h.release hget)
        rw [List.length_eraseIdx_of_lt hi] at hnext
        simp [hi, hnext]
      · simp [hi]

lemma fits_replicate (count n : ℕ) :
    Fits (List.replicate count .get) n ↔ count = 0 ∨ n + count ≤ poolSize := by
  induction count generalizing n with
  | zero => simp [Fits]
  | succ count ih =>
    rw [List.replicate_succ, Fits, ih]
    omega

end Invariant

/-- **Token pool.** A run is served as long as fewer than all tokens of the sixteen blocks are
handed out. -/
theorem pool_serves_iff (calls : List Call) : Serves calls init [] ↔ Fits calls 0 :=
  pooled_init.serves_iff_fits calls

/-- One call more than there are tokens. -/
theorem exhausted_not_served : ¬ Serves (List.replicate (poolSize + 1) .get) init [] := by
  rw [pooled_init.serves_iff_fits, fits_replicate]
  simp

end Axis2C.Guththila.TokenPool
