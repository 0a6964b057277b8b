import Mathlib.Data.List.DropRight
import Mathlib.Data.Rat.Floor
import ChatApplication.Lib.FirstBy
import ChatApplication.Lib.PathTree

/-!
# Dynamic values and their coercions (`ChatSharedClass.swift`)

Firebase hands the application untyped values (`Any?`), and the application reads them through
three coercions: `String.getstring`, `Int.getint` and `ChatSharedClass.getDictionary`.  This
module embeds the values and the coercions.

A Swift string is represented by the Unicode scalars of its canonical (NFC) form, so that
Swift's `==` and `<` on strings are equality and lexicographic order of the representation.
A dictionary is an association list; the order of the list is the order in which Swift
enumerates it, which is unspecified, so statements quantify over it.

* `trimmed_trimming` — trimming is idempotent.
* `Trimmed.of_forall` — a string without white space is read unchanged.
* `trimmed_getstring` — what `getstring` returns is trimmed.
* `getint_toString` — a printed integer is read back by `getint`.
* `uniqueArray_eq_firstBy` — `Array.uniqueArray` keeps the first element of every key.
-/

namespace ChatApplication

/-! ## Foundation values -/

/-- `NSNumber`: an integer or a finite double, by value. -/
inductive NSNumber where
  | integer (i : Int)
  | real (q : Rat)
  deriving DecidableEq, Repr

/-- `Any`: what a snapshot or a Swift dictionary can hold.  `int` is a native Swift `Int`. -/
inductive AnyValue where
  | null
  | string (s : String)
  | int (i : Int)
  | number (n : NSNumber)
  | array (a : List AnyValue)
  | dictionary (d : List (String × AnyValue))
  deriving Repr

/-- `Dictionary<String, Any>`, in enumeration order. -/
abbrev Dict := List (String × AnyValue)

/-- The integers Swift's 64-bit `Int` can hold. -/
def inIntRange (i : Int) : Bool := decide (-2 ^ 63 ≤ i ∧ i < 2 ^ 63)

/-- Whether an integer is exactly a `Double` (53 significant bits). -/
def isExactDouble (i : Int) : Bool :=
  i.natAbs % 2 ^ (Nat.log2 i.natAbs + 1 - 53) == 0

/-- `as? Double`: bridging succeeds only when no precision is lost. -/
def NSNumber.asDouble : NSNumber → Option Rat
  | .integer i => if isExactDouble i then some i else none
  | .real q => some q

/-- `as? Int`. -/
def NSNumber.asInt : NSNumber → Option Int
  | .integer i => if inIntRange i then some i else none
  | .real q => if q.den = 1 ∧ inIntRange q.num then some q.num else none

namespace AnyValue

def asString : AnyValue → Option String
  | .string s => some s
  | _ => none

def asDouble : AnyValue → Option Rat
  | .number n => n.asDouble
  | _ => none

def asInt : AnyValue → Option Int
  | .int i => some i
  | .number n => n.asInt
  | _ => none

/-- On the 64-bit targets `Int64` and `Int` have the same values. -/
def asInt64 : AnyValue → Option Int := asInt

end AnyValue

/-! ## White space -/

/-- `CharacterSet.whitespacesAndNewlines`: general category Z*, U+0009–U+000D, U+0085. -/
def isWhitespaceOrNewline (c : Char) : Bool :=
  let n := c.toNat
  n == 0x20 || (decide (0x09 ≤ n) && decide (n ≤ 0x0D)) || n == 0x85 || n == 0xA0 || n == 0x1680 ||
    (decide (0x2000 ≤ n) && decide (n ≤ 0x200A)) || n == 0x2028 || n == 0x2029 || n == 0x202F ||
    n == 0x205F || n == 0x3000

/-- Drop the characters satisfying `p` at both ends. -/
def trimList {α : Type} (p : α → Bool) (l : List α) : List α := (l.dropWhile p).rdropWhile p

/-- `String.stringByTrimmingWhiteSpaceAndNewLine`. -/
def stringByTrimmingWhiteSpaceAndNewLine (s : String) : String :=
  String.ofList (trimList isWhitespaceOrNewline s.toList)

/-- The string has no white space at its ends. -/
def Trimmed (s : String) : Prop := stringByTrimmingWhiteSpaceAndNewLine s = s

instance : DecidablePred Trimmed := fun s =>
  inferInstanceAs (Decidable (stringByTrimmingWhiteSpaceAndNewLine s = s))

theorem trimList_eq_self {α : Type} {p : α → Bool} {l : List α} (h : ∀ a ∈ l, p a = false) :
    trimList p l = l := by
  unfold trimList
  have hd : l.dropWhile p = l := by
    cases l with
    | nil => rfl
    | cons a l => simp [h a List.mem_cons_self]
  rw [hd, List.rdropWhile_eq_self_iff]
  intro hl
  simp [h _ (List.getLast_mem hl)]

theorem trimList_trimList {α : Type} (p : α → Bool) (l : List α) :
    trimList p (trimList p l) = trimList p l := by
  unfold trimList
  have hd : ((l.dropWhile p).rdropWhile p).dropWhile p = (l.dropWhile p).rdropWhile p := by
    -- the head of a trimmed list is the head of `dropWhile`, which fails `p`
    rw [List.dropWhile_eq_self_iff]
    intro hlen
    have hpre := List.rdropWhile_prefix p (l.dropWhile p)
    have hlen' : 0 < (l.dropWhile p).length := lt_of_lt_of_le hlen hpre.length_le
    have hhead := hpre.getElem hlen
    have hfail := List.dropWhile_get_zero_not p l hlen'
    simpa [← hhead] using hfail
  rw [hd, List.rdropWhile_idempotent]

/-- Trimming takes away elements satisfying `p` at both ends. -/
theorem exists_append_trimList {α : Type} (p : α → Bool) (l : List α) :
    ∃ pre post : List α, l = pre ++ trimList p l ++ post ∧ (∀ a ∈ pre, p a = true) ∧
      ∀ a ∈ post, p a = true := by
  refine ⟨l.takeWhile p, (l.dropWhile p).rtakeWhile p, ?_, fun a => List.mem_takeWhile_imp,
    fun a => List.mem_rtakeWhile_imp⟩
  unfold trimList
  rw [List.append_assoc, List.rdropWhile_append_rtakeWhile, List.takeWhile_append_dropWhile]

theorem trimList_eq_self_of_countP {α : Type} {p : α → Bool} {l : List α}
    (h : (trimList p l).countP p = l.countP p) : trimList p l = l := by
  obtain ⟨pre, post, hl, hpre, hpost⟩ := exists_append_trimList p l
  have hcount := congrArg (List.countP p) hl
  rw [List.countP_append, List.countP_append, List.countP_eq_length.mpr hpre,
    List.countP_eq_length.mpr hpost] at hcount
  have hpre' : pre = [] := List.length_eq_zero_iff.mp (by omega)
  have hpost' : post = [] := List.length_eq_zero_iff.mp (by omega)
  rw [hpre', hpost', List.nil_append, List.append_nil] at hl
  exact hl.symm

/-- **Trimming is idempotent.** -/
theorem trimmed_trimming (s : String) : Trimmed (stringByTrimmingWhiteSpaceAndNewLine s) := by
  simp only [Trimmed, stringByTrimmingWhiteSpaceAndNewLine, String.toList_ofList, trimList_trimList]

@[simp] theorem trimming_trimming (s : String) :
    stringByTrimmingWhiteSpaceAndNewLine (stringByTrimmingWhiteSpaceAndNewLine s) =
      stringByTrimmingWhiteSpaceAndNewLine s := trimmed_trimming s

theorem Trimmed.of_forall {s : String} (h : ∀ c ∈ s.toList, isWhitespaceOrNewline c = false) :
    Trimmed s := by
  simp [Trimmed, stringByTrimmingWhiteSpaceAndNewLine, trimList_eq_self h]

theorem trimmed_empty : Trimmed "" := by decide

theorem isWhitespaceOrNewline_of_isDigit {c : Char} (h : c.isDigit = true) :
    isWhitespaceOrNewline c = false := by
  simp only [Char.isDigit, Bool.and_eq_true, decide_eq_true_eq] at h
  have h₁ : 48 ≤ c.toNat := h.1
  have h₂ : c.toNat ≤ 57 := h.2
  simp only [isWhitespaceOrNewline, Bool.or_eq_false_iff, Bool.and_eq_false_iff, beq_eq_false_iff_ne,
    decide_eq_false_iff_not]
  omega

/-! ## Coercions -/

/-- Round a non-negative rational to the nearest integer, ties to even. -/
def roundHalfEven (q : Rat) : Nat :=
  let n := q.floor.toNat
  let r := q - n
  if r < 1 / 2 then n else if 1 / 2 < r then n + 1 else n + n % 2

/-- `NumberFormatter.string(from:)` with at least one integer digit and at most two fraction
digits, in a locale with ASCII digits and a decimal point.  The value itself is rounded; Foundation
rounds the shortest decimal of the double, so the last digit may differ.  No result depends on it: they
use that the text is a numeral. -/
def numberFormatter (q : Rat) : String :=
  let hundredths := roundHalfEven (|q| * 100)
  let fraction := hundredths % 100
  let digits :=
    if fraction = 0 then ""
    else if fraction % 10 = 0 then "." ++ toString (fraction / 10)
    else "." ++ toString (fraction / 10) ++ toString (fraction % 10)
  (if q < 0 then "-" else "") ++ toString (hundredths / 100) ++ digits

/-- `String.getstring`. -/
def getstring (message : Option AnyValue) : String :=
  match message.bind AnyValue.asString with
  | some strMessage => stringByTrimmingWhiteSpaceAndNewLine strMessage
  | none =>
    match message.bind AnyValue.asDouble with
    | some doubleValue => numberFormatter doubleValue
    | none =>
      match message.bind AnyValue.asInt with
      | some intValue => toString intValue
      | none =>
        match message.bind AnyValue.asInt64 with
        | some int64Value => toString int64Value
        | none => ""

/-- `String.getstring` of an optional string. -/
def getstringOf (s : Option String) : String := getstring (s.map .string)

@[simp] theorem getstring_string (s : String) :
    getstring (some (.string s)) = stringByTrimmingWhiteSpaceAndNewLine s := rfl

@[simp] theorem getstringOf_some (s : String) :
    getstringOf (some s) = stringByTrimmingWhiteSpaceAndNewLine s := rfl

theorem getstringOf_getD (s : Option String) : getstringOf (some (s.getD "")) = getstringOf s := by
  cases s with
  | none => exact trimmed_empty
  | some s => rfl

/-- The value of a non-empty run of ASCII digits. -/
def digitsValue (cs : List Char) : Option Nat :=
  if !cs.isEmpty && cs.all Char.isDigit then
    some (cs.foldl (fun n c => 10 * n + (c.toNat - '0'.toNat)) 0)
  else none

/-- `Int.init?(_ text: String)`: an optional sign, ASCII digits, no overflow. -/
def intOfString (s : String) : Option Int :=
  let value :=
    match s.toList with
    | '-' :: cs => (digitsValue cs).map fun n => -(n : Int)
    | '+' :: cs => (digitsValue cs).map fun n => (n : Int)
    | cs => (digitsValue cs).map fun n => (n : Int)
  value.bind fun i => if inIntRange i then some i else none

/-- `Int.getint`. -/
def getint (value : Option AnyValue) : Int :=
  match value.bind AnyValue.asInt with
  | some intValue => intValue
  | none => (intOfString (getstring value)).getD 0

/-! ## Printed numbers -/

/-- A string of digits, signs and points. -/
def Numeric (s : String) : Prop := ∀ c ∈ s.toList, c.isDigit = true ∨ c = '-' ∨ c = '.'

theorem Numeric.trimmed {s : String} (h : Numeric s) : Trimmed s := by
  refine Trimmed.of_forall fun c hc => ?_
  rcases h c hc with hdigit | rfl | rfl
  · exact isWhitespaceOrNewline_of_isDigit hdigit
  · decide
  · decide

theorem Numeric.append {s t : String} (hs : Numeric s) (ht : Numeric t) : Numeric (s ++ t) := by
  intro c hc
  rw [String.toList_append, List.mem_append] at hc
  rcases hc with hc | hc
  · exact hs c hc
  · exact ht c hc

theorem numeric_empty : Numeric "" := fun _ hc => absurd hc (by simp)

theorem toList_toString_nat (n : Nat) : (toString n).toList = Nat.toDigits 10 n := by
  rw [Nat.toString_eq_repr, Nat.toList_repr]

theorem numeric_toString_nat (n : Nat) : Numeric (toString n) := by
  intro c hc
  rw [toList_toString_nat] at hc
  exact .inl (Nat.isDigit_of_mem_toDigits (by decide) (by decide) hc)

theorem toString_int (i : Int) :
    toString i = if 0 ≤ i then toString i.toNat else "-" ++ toString (-i).toNat := by
  rw [Int.toString_eq_repr, Int.repr_eq_if]
  rfl

theorem numeric_minus : Numeric "-" := fun c hc => .inr (.inl (by simpa using hc))

theorem numeric_point : Numeric "." := fun c hc => .inr (.inr (by simpa using hc))

theorem numeric_toString_int (i : Int) : Numeric (toString i) := by
  rw [toString_int]
  split
  · exact numeric_toString_nat _
  · exact numeric_minus.append (numeric_toString_nat _)

theorem numeric_numberFormatter (q : Rat) : Numeric (numberFormatter q) := by
  unfold numberFormatter
  refine Numeric.append (Numeric.append ?_ (numeric_toString_nat _)) ?_
  · split
    · exact numeric_minus
    · exact numeric_empty
  · split
    · exact numeric_empty
    · split
      · exact numeric_point.append (numeric_toString_nat _)
      · exact (numeric_point.append (numeric_toString_nat _)).append (numeric_toString_nat _)

/-- **What `getstring` returns is trimmed**, whatever the value. -/
theorem trimmed_getstring (v : Option AnyValue) : Trimmed (getstring v) := by
  unfold getstring
  split
  · exact trimmed_trimming _
  · split
    · exact (numeric_numberFormatter _).trimmed
    · split
      · exact (numeric_toString_int _).trimmed
      · split
        · exact (numeric_toString_int _).trimmed
        · exact trimmed_empty

theorem digitsValue_toDigits (n : Nat) : digitsValue (Nat.toDigits 10 n) = some n := by
  have hempty : (Nat.toDigits 10 n).isEmpty = false := by
    rw [List.isEmpty_eq_false_iff]
    exact Nat.toDigits_ne_nil
  have hdigits : (Nat.toDigits 10 n).all Char.isDigit = true := by
    rw [List.all_eq_true]
    exact fun c hc => Nat.isDigit_of_mem_toDigits (by decide) (by decide) hc
  unfold digitsValue
  rw [hempty, hdigits, ← Nat.ofDigitChars_eq_foldl, Nat.ofDigitChars_ten_toDigits]
  rfl

/-- A string that begins with a digit has no sign. -/
theorem intOfString_of_digit {s : String} {c : Char} {cs : List Char} (hs : s.toList = c :: cs)
    (hc : c.isDigit = true) :
    intOfString s =
      ((digitsValue (c :: cs)).map fun n => (n : Int)).bind fun i =>
        if inIntRange i then some i else none := by
  unfold intOfString
  rw [hs]
  have hminus : c ≠ '-' := by rintro rfl; revert hc; decide
  have hplus : c ≠ '+' := by rintro rfl; revert hc; decide
  split
  · rename_i heq
    exact absurd (List.cons.inj heq).1 hminus
  · rename_i heq
    exact absurd (List.cons.inj heq).1 hplus
  · rfl

/-- **Printing and reading back an integer**, up to both ends of `Int`. -/
theorem intOfString_toString {i : Int} (h : inIntRange i = true) : intOfString (toString i) = some i := by
  rw [toString_int]
  split
  · rename_i hi
    have hlist := toList_toString_nat i.toNat
    obtain ⟨c, cs, hcs⟩ := List.exists_cons_of_ne_nil (Nat.toDigits_ne_nil (n := i.toNat) (b := 10))
    have hc : c.isDigit = true :=
      Nat.isDigit_of_mem_toDigits (by decide) (by decide) (hcs ▸ List.mem_cons_self)
    rw [intOfString_of_digit (hlist.trans hcs) hc, ← hcs, digitsValue_toDigits]
    simp [Int.toNat_of_nonneg hi, h]
  · rename_i hi
    have hneg : -((-i).toNat : Int) = i := by omega
    have hlist : ("-" ++ toString (-i).toNat).toList = '-' :: Nat.toDigits 10 (-i).toNat := by
      rw [String.toList_append, toList_toString_nat]
      rfl
    unfold intOfString
    rw [hlist]
    simp only [digitsValue_toDigits]
    show (if inIntRange (-((-i).toNat : Int)) then some (-((-i).toNat : Int)) else none) = some i
    rw [hneg, if_pos h]

theorem getint_toString {i : Int} (h : inIntRange i = true) :
    getint (some (.string (toString i))) = i := by
  show (intOfString (getstring (some (.string (toString i))))).getD 0 = i
  rw [getstring_string, (numeric_toString_int i).trimmed, intOfString_toString h, Option.getD_some]

/-! ## Dictionaries -/

/-- The dictionary `["": ""]` the application falls back to. -/
def emptyDictionary : Dict := [("", .string "")]

/-- `ChatSharedClass.getDictionary` on a value. -/
def getDictionaryOf : AnyValue → Dict
  | .dictionary dict => dict
  | .array (first :: _) => getDictionaryOf first
  | .array [] => emptyDictionary
  | _ => emptyDictionary

/-- `ChatSharedClass.getDictionary`. -/
def getDictionary : Option AnyValue → Dict
  | some v => getDictionaryOf v
  | none => emptyDictionary

@[simp] theorem getDictionary_dictionary (d : Dict) : getDictionary (some (.dictionary d)) = d := by
  simp [getDictionary, getDictionaryOf]

/-! ## Arrays -/

section UniqueArray

variable {α τ : Type} [DecidableEq τ]

/-- The loop body of `Array.uniqueArray`: the hash set of seen keys and the output. -/
def uniqueStep (map : α → τ) (st : List τ × List α) (value : α) : List τ × List α :=
  if map value ∈ st.1 then st else (map value :: st.1, st.2 ++ [value])

/-- `Array.uniqueArray(map:)`. -/
def uniqueArray (map : α → τ) (l : List α) : List α := (l.foldl (uniqueStep map) ([], [])).2

open FirstBy in
/-- The set of seen keys is the set of keys of the output. -/
theorem foldl_uniqueStep (map : α → τ) (l : List α) :
    (∀ k, k ∈ (l.foldl (uniqueStep map) ([], [])).1 ↔ k ∈ (firstBy map l).map map) ∧
      (l.foldl (uniqueStep map) ([], [])).2 = firstBy map l := by
  induction l using List.reverseRecOn with
  | nil => exact ⟨fun k => Iff.rfl, rfl⟩
  | append_singleton l x ih =>
    obtain ⟨hset, hout⟩ := ih
    rw [List.foldl_append, firstBy_concat]
    generalize l.foldl (uniqueStep map) ([], []) = st at hset hout ⊢
    simp only [List.foldl_cons, List.foldl_nil, uniqueStep]
    split
    · rename_i hx
      rw [insertNew, if_pos ((hset _).mp hx)]
      exact ⟨hset, hout⟩
    · rename_i hx
      rw [insertNew, if_neg (fun h => hx ((hset _).mpr h)), ← hout]
      refine ⟨fun k => ?_, rfl⟩
      rw [List.mem_cons, hset, ← hout]
      simp [or_comm]

theorem uniqueArray_eq_firstBy (map : α → τ) (l : List α) :
    uniqueArray map l = FirstBy.firstBy map l :=
  (foldl_uniqueStep map l).2

end UniqueArray

end ChatApplication
