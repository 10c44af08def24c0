import Axis2C.FirstOccurrence
import Axis2C.Uri
import Mathlib.Data.Rat.Defs
import Mathlib.Algebra.Order.Field.Rat

/-!
# Accept headers

`axutil_tokenize`, `axis2_http_accept_record_create`, the loops over the tokens in
`axis2_http_worker_process_request` and the loop of
`axis2_http_transport_utils_process_accept_headers`. Qualities are exact numbers, and memory
allocation succeeds.
-/
namespace Axis2C.HttpAccept
open FirstOccurrence

abbrev Text := List Char

section Tokens

/-- The loop of `axutil_tokenize`, with a bound for its passes. -/
def tokenizeLoop (delim : Char) : ℕ → Text → List Text
  | 0, _ => []
  | fuel + 1, str =>
    match search [delim] str with
    | none => if str = [] then [] else [str]
    | some index =>
      let token := upTo str index
      let rest := index.tail
      (if token = [] then [] else [token]) ++
        if rest = [] then [] else tokenizeLoop delim fuel rest

/-- `axutil_tokenize`. -/
def tokenize (text : Text) (delim : Char) : Option (List Text) :=
  if text = [] then none else some (tokenizeLoop delim text.length text)

/-- `axutil_strltrim`. -/
def strltrim (s trim : Text) : Option Text :=
  match s.dropWhile (· ∈ trim) with
  | [] => none
  | c :: s => some (c :: s)

/-- `axutil_strrtrim`. -/
def strrtrim (s trim : Text) : Option Text := (strltrim s.reverse trim).map List.reverse

/-- `axutil_strtrim`; NULL where nothing is left. -/
def strtrim (s trim : Text) : Option Text := (strltrim s trim).bind (strrtrim · trim)

end Tokens

section Numbers

inductive Quality where
  | finite (q : ℚ)
  | infinite (negative : Bool)
  | nan
  deriving DecidableEq, Repr

/-- `quality > 1.0 || quality < 0.0`. -/
def Quality.outside : Quality → Bool
  | .finite q => decide (1 < q) || decide (q < 0)
  | .infinite _ => true
  | .nan => false

def hexValue (c : Char) : Option ℕ :=
  if c.isDigit then some (c.toNat - '0'.toNat)
  else if 'a' ≤ c.toLower ∧ c.toLower ≤ 'f' then some (c.toLower.toNat - 'a'.toNat + 10)
  else none

def decimalValue (c : Char) : Option ℕ := if c.isDigit then hexValue c else none

def ofDigits (base : ℕ) (value : Char → Option ℕ) (digits : Text) : ℕ :=
  digits.foldl (fun n c => n * base + (value c).getD 0) 0

/-- The exponent behind `mark`; a mark without digits is not part of the number. -/
def scanExponent (mark : Char) : Text → ℤ
  | [] => 0
  | c :: s =>
    if c.toLower = mark then
      let signed := Uris.takeSign s
      let e : ℤ := ofDigits 10 decimalValue (signed.2.takeWhile Char.isDigit)
      if signed.1 then -e else e
    else 0

/-- The number at the front of a text: digits, a point, digits and an exponent. -/
def scanNumber (base : ℕ) (value : Char → Option ℕ) (mark : Char) (power : ℚ) (places : ℤ)
    (s : Text) : Option ℚ :=
  let whole := s.takeWhile fun c => (value c).isSome
  let rest := s.dropWhile fun c => (value c).isSome
  let point := rest.head? = some '.'
  let fraction := if point then rest.tail.takeWhile fun c => (value c).isSome else []
  let rest := if point then rest.tail.dropWhile fun c => (value c).isSome else rest
  if whole ++ fraction = [] then none
  else
    some (ofDigits base value (whole ++ fraction) *
      power ^ (scanExponent mark rest - places * fraction.length))

/-- A text begins with a word in small or capital letters. -/
def beginsWith (word s : Text) : Bool := (s.take word.length).map Char.toLower = word

/-- `%f` of `sscanf`. -/
def scanFloat (s : Text) : Option Quality :=
  let signed := Uris.takeSign (s.dropWhile Uris.isSpace)
  let t := signed.2
  let sign (q : ℚ) : Quality := .finite (if signed.1 then -q else q)
  if beginsWith "n".toList t then if beginsWith "nan".toList t then some .nan else none
  else if beginsWith "i".toList t then
    if beginsWith "infi".toList t then
      if beginsWith "infinity".toList t then some (.infinite signed.1) else none
    else if beginsWith "inf".toList t then some (.infinite signed.1) else none
  else if beginsWith "0x".toList t then
    let h := t.drop 2
    match scanNumber 16 hexValue 'p' 2 4 h with
    | some q => some (sign q)
    | none => if h.head? = some '.' then some (sign 0) else none
  else (scanNumber 10 decimalValue 'e' 10 1 t).map sign

/-- `%d` of `sscanf`. -/
def scanInt (s : Text) : Option ℤ :=
  let signed := Uris.takeSign (s.dropWhile Uris.isSpace)
  if signed.2.takeWhile Char.isDigit = [] then none
  else some (Int.bmod (Uris.strtol s).1 (2 ^ 32))

end Numbers

section Records

/-- `axis2_http_accept_record_t`. -/
structure AcceptRecord where
  name : Text
  quality : Quality
  level : ℤ
  record : Option Text
  deriving DecidableEq, Repr

/-- The text in front of the first `needle`. -/
def cutAt (needle str : Text) : Text :=
  match search needle str with
  | some tmp => upTo str tmp
  | none => str

/-- The text that is read as a number: one character behind the start of the first `needle`,
without the signs around it. -/
def numberAt (needle str : Text) : Option Text :=
  (search needle str).bind fun tmp => strtrim tmp.tail " =;".toList

def levelWord : Text := "level".toList

/-- `axis2_http_accept_record_create`. -/
def acceptRecordCreate (str : Text) : Option AcceptRecord :=
  let record := strtrim str " ,".toList
  let quality := ((numberAt ['q'] str).bind scanFloat).getD (.finite 1)
  let tmpAcceptRecord := cutAt ['q'] str
  let level := ((numberAt levelWord tmpAcceptRecord).bind scanInt).getD (-1)
  (strtrim (cutAt levelWord tmpAcceptRecord) " ;".toList).bind fun name =>
    if quality.outside then none else some ⟨name, quality, level, record⟩

end Records

section Loops

/-- The loop of `axis2_http_worker_process_request`, which it has three times. -/
def workerLoop : List Text → List AcceptRecord → List AcceptRecord
  | [], recordList => recordList
  | token :: fieldList, recordList =>
    workerLoop fieldList (recordList ++ (acceptRecordCreate token).toList)

def workerRecordList (headerValue : Text) : Option (List AcceptRecord) :=
  (tokenize headerValue ',').bind fun fieldList =>
    let recordList := workerLoop fieldList []
    if recordList = [] then none else some recordList

/-- An entry of `accept_field_list`. -/
inductive Entry where
  | token (str : Text)
  | record (rec : AcceptRecord)
  deriving DecidableEq, Repr

inductive Fault where
  /-- A record is read as if it were a text. -/
  | recordAsToken
  deriving DecidableEq, Repr

def Entry.isToken : Entry → Bool
  | .token _ => true
  | .record _ => false

/-- The loop of `axis2_http_transport_utils_process_accept_headers`. What it makes of a token it
appends to the list it takes the tokens from. -/
def processLoop (fieldList : List Entry) (recordList : List AcceptRecord) :
    Except Fault (List AcceptRecord) :=
  match fieldList with
  | [] => .ok recordList
  | .token str :: rest =>
    processLoop (rest ++ (acceptRecordCreate str).toList.map .record) recordList
  | .record _ :: _ => .error .recordAsToken
termination_by fieldList.countP Entry.isToken
decreasing_by
  have hnone (l : List AcceptRecord) : (l.map Entry.record).countP Entry.isToken = 0 := by
    simp [List.countP_eq_zero, Entry.isToken]
  rw [List.countP_append, hnone, List.countP_cons_of_pos rfl]
  omega

/-- `axis2_http_transport_utils_process_accept_headers`. -/
def processAcceptHeaders (acceptValue : Text) : Except Fault (Option (List AcceptRecord)) :=
  match tokenize acceptValue ',' with
  | none => .ok none
  | some acceptFieldList =>
    (processLoop (acceptFieldList.map .token) []).map fun acceptRecordList =>
      if acceptRecordList = [] then none else some acceptRecordList

lemma workerLoop_eq (fieldList : List Text) (recordList : List AcceptRecord) :
    workerLoop fieldList recordList = recordList ++ fieldList.filterMap acceptRecordCreate := by
  induction fieldList generalizing recordList with
  | nil => simp [workerLoop]
  | cons token fieldList ih =>
    rw [workerLoop, ih, List.append_assoc]
    cases h : acceptRecordCreate token <;> simp [h]

/-- The first record ends the loop, and no record reaches the other list. The induction is on the
tokens in front of the records made so far. -/
lemma processLoop_eq (tokens : List Text) (made recordList : List AcceptRecord) :
    processLoop (tokens.map .token ++ made.map .record) recordList =
      if made ++ tokens.filterMap acceptRecordCreate = [] then .ok recordList
      else .error .recordAsToken := by
  induction tokens generalizing made with
  | nil => cases made <;> simp [processLoop]
  | cons str tokens ih =>
    rw [List.map_cons, List.cons_append, processLoop, List.append_assoc, ← List.map_append, ih]
    cases h : acceptRecordCreate str <;> simp [h]

/-- The worker's list, where there is one, is lost: a record of it is taken for a token. -/
lemma processAcceptHeaders_eq (acceptValue : Text) :
    processAcceptHeaders acceptValue =
      if workerRecordList acceptValue = none then .ok none else .error .recordAsToken := by
  unfold processAcceptHeaders workerRecordList
  cases tokenize acceptValue ',' with
  | none => rfl
  | some tokens =>
    have hloop := processLoop_eq tokens [] []
    rw [List.map_nil, List.append_nil, List.nil_append] at hloop
    simp only [hloop, Option.bind_some, workerLoop_eq, List.nil_append]
    by_cases hmade : tokens.filterMap acceptRecordCreate = []
    · simp [hmade, Except.map]
    · simp [hmade, Except.map]

end Loops

section Ranges

def delimiters : Text := ",;= ".toList

/-- A number with at most one point, between 0 and 1. -/
structure Decimal where
  whole : Text
  fraction : Option Text
  digits : ∀ c ∈ whole ++ fraction.getD [], c.isDigit = true
  nonempty : whole ++ fraction.getD [] ≠ []
  le_one : ofDigits 10 decimalValue (whole ++ fraction.getD []) ≤ 10 ^ (fraction.getD []).length

def Decimal.text (d : Decimal) : Text :=
  d.whole ++ (d.fraction.map ('.' :: ·)).getD []

def Decimal.value (d : Decimal) : ℚ :=
  ofDigits 10 decimalValue (d.whole ++ d.fraction.getD []) / 10 ^ (d.fraction.getD []).length

/-- A media type, a charset or a language with its parameters. -/
structure Range where
  name : Text
  level : Option ℕ
  quality : Option Decimal
  nonempty : name ≠ []
  clean : ∀ c ∈ name, c ∉ delimiters

def Range.text (r : Range) : Text :=
  r.name ++ (r.level.map fun n => ";level=".toList ++ Nat.toDigits 10 n).getD [] ++
    (r.quality.map fun d => ";q=".toList ++ d.text).getD []

def acceptValue (ranges : List Range) : Text := [','].intercalate (ranges.map Range.text)

/-- What a record has to say of a range. -/
structure AcceptRecord.Describes (rec : AcceptRecord) (r : Range) : Prop where
  name : rec.name = r.name
  level : rec.level = (r.level.map Int.ofNat).getD (-1)
  quality : rec.quality = .finite ((r.quality.map Decimal.value).getD 1)

/-- One record for each range, in order, as the worker makes them. -/
def Meets (ranges : List Range) : Prop :=
  ∃ recordList, processAcceptHeaders (acceptValue ranges) = .ok recordList ∧
    List.Forall₂ AcceptRecord.Describes (recordList.getD []) ranges ∧
    recordList = workerRecordList (acceptValue ranges)

/-- Ranges are never described: no call gives a list. -/
theorem meets_iff (ranges : List Range) : Meets ranges ↔ ranges = [] := by
  constructor
  · rintro ⟨recordList, hprocess, hrecords, -⟩
    rw [processAcceptHeaders_eq] at hprocess
    split_ifs at hprocess
    rw [← Except.ok.inj hprocess] at hrecords
    cases hrecords
    rfl
  · rintro rfl
    exact ⟨none, rfl, .nil, rfl⟩

/-- The language `en`. -/
def english : Range := ⟨"en".toList, none, none, by decide, by simp [delimiters]⟩

theorem english_not_meets : ¬ Meets [english] := by
  rintro ⟨recordList, hprocess, hrecords, -⟩
  rw [processAcceptHeaders_eq] at hprocess
  split_ifs at hprocess
  rw [← Except.ok.inj hprocess] at hrecords
  cases hrecords

end Ranges

end Axis2C.HttpAccept
