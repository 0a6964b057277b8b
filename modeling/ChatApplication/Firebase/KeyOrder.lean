import ChatApplication.Firebase.SortedDictionary

/-!
# The order of keys (vendored `FUtilities.m`)

`compareKey:toKey:` orders the keys of the children of a node: first the keys that read as 32-bit
integers, by their value and then by their length, then the others unit by unit.  A string is the
list of its UTF-16 units.

* `transCmp_compareKey` — the order is a total preorder, so the sorted dictionaries can use it.
* `compareKey_eq_iff` — it tells different keys apart, except `0…0` from `-0…0` of the same length.
* `children_of_dictionary` — when the children of a dictionary can be built, and what they hold.
-/

namespace ChatApplication

open SortedEntries

/-- `unichar`. -/
abbrev Unichar := Fin 65536

/-- `NSString`. -/
@[ext]
structure NSString where
  characters : List Unichar
  deriving DecidableEq, Repr

/-- The UTF-16 units of a character. -/
def utf16 (c : Char) : List Unichar :=
  if h : c.toNat < 65536 then [⟨c.toNat, h⟩]
  else
    [Fin.ofNat 65536 (0xD800 + (c.toNat - 0x10000) / 0x400),
      Fin.ofNat 65536 (0xDC00 + (c.toNat - 0x10000) % 0x400)]

def NSString.ofString (s : String) : NSString := ⟨s.toList.flatMap utf16⟩

/-- A key of a child, or one of the two names that `FUtilities` compares by identity. -/
inductive FKey where
  | minName
  | string (s : NSString)
  | maxName
  deriving DecidableEq, Repr

/-- The key of the child with a name. -/
def childKey (name : String) : FKey := .string (.ofString name)

/-! ## Integer keys -/

def INTEGER_32_MIN : Int := -2147483648

def INTEGER_32_MAX : Int := 2147483647

/-- The loop over the digits. -/
def parseDigits : Nat → List Unichar → Option Nat
  | value, [] => some value
  | value, c :: cs => if c.val < 48 ∨ 57 < c.val then none else parseDigits (value * 10 + (c.val - 48)) cs

/-- `-`. -/
def minusSign : Unichar := 45

/-- `tryParseStringToInt`. -/
def tryParseStringToInt (str : NSString) : Option Int :=
  if 11 < str.characters.length ∨ str.characters.length = 0 then none
  else if str.characters.head? = some minusSign then
    if str.characters.length = 1 then none
    else (parseDigits 0 str.characters.tail).bind fun value =>
      if -(value : Int) < INTEGER_32_MIN ∨ INTEGER_32_MAX < -(value : Int) then none else some (-(value : Int))
  else (parseDigits 0 str.characters).bind fun value =>
    if (value : Int) < INTEGER_32_MIN ∨ INTEGER_32_MAX < (value : Int) then none else some (value : Int)

/-- `compareKey:toKey:` on two strings. -/
def compareStrings (a b : NSString) : Ordering :=
  match tryParseStringToInt a, tryParseStringToInt b with
  | some aAsInt, some bAsInt =>
    if aAsInt > bAsInt then .gt
    else if aAsInt < bAsInt then .lt
    else if a.characters.length > b.characters.length then .gt
    else if a.characters.length < b.characters.length then .lt
    else .eq
  | some _, none => .lt
  | none, some _ => .gt
  | none, none => compare a.characters b.characters

/-- `compareKey:toKey:`. -/
def compareKey (a b : FKey) : Ordering :=
  if a = b then .eq
  else if a = .minName ∨ b = .maxName then .lt
  else if b = .minName ∨ a = .maxName then .gt
  else
    match a, b with
    | .string a, .string b => compareStrings a b
    | _, _ => .eq

/-! ## The order as one comparison of ranks -/

namespace FKey

/-- The four groups of keys, in their order: the least name, the integers, the other strings, the
greatest name. -/
def group : FKey → Nat
  | minName => 0
  | string s => if (tryParseStringToInt s).isSome then 1 else 2
  | maxName => 3

/-- What an integer key is compared by first. -/
def intValue : FKey → Int
  | string s => (tryParseStringToInt s).getD 0
  | _ => 0

/-- What integer keys of the same value are compared by. -/
def intLength : FKey → Nat
  | string s => if (tryParseStringToInt s).isSome then s.characters.length else 0
  | _ => 0

/-- What the other strings are compared by. -/
def literal : FKey → List Unichar
  | string s => if (tryParseStringToInt s).isSome then [] else s.characters
  | _ => []

end FKey

/-- A comparison by cases is the comparison of the order, then the rest. -/
theorem ite_gt_ite_lt {α : Type*} [LinearOrder α] (x y : α) (o : Ordering) :
    (if x > y then .gt else if x < y then .lt else o) = (compare x y).then o := by
  rcases lt_trichotomy x y with h | h | h
  · rw [if_neg h.not_gt, if_pos h, compare_lt_iff_lt.mpr h]
    rfl
  · rw [if_neg h.not_gt, if_neg h.not_lt, compare_eq_iff_eq.mpr h]
    rfl
  · rw [if_pos h, compare_gt_iff_gt.mpr h]
    rfl

/-- The comparison of keys, as one comparison of four ranks. -/
def compareRanks : FKey → FKey → Ordering :=
  compareLex (compareOn FKey.group) <| compareLex (compareOn FKey.intValue) <|
    compareLex (compareOn FKey.intLength) (compareOn FKey.literal)

theorem compareRanks_of_group_lt {a b : FKey} (h : a.group < b.group) : compareRanks a b = .lt := by
  rw [compareRanks, compareLex, compareOn, compare_lt_iff_lt.mpr h]
  rfl

theorem compareRanks_of_group_gt {a b : FKey} (h : b.group < a.group) : compareRanks a b = .gt := by
  rw [compareRanks, compareLex, compareOn, compare_gt_iff_gt.mpr h]
  rfl

theorem group_string (s : NSString) :
    FKey.minName.group < (FKey.string s).group ∧ (FKey.string s).group < FKey.maxName.group := by
  simp only [FKey.group]
  split_ifs <;> omega

theorem compareStrings_self (s : NSString) : compareStrings s s = .eq := by
  rw [compareStrings]
  cases tryParseStringToInt s with
  | none => exact Std.ReflCmp.compare_self
  | some value => simp

theorem compareStrings_eq (s t : NSString) : compareStrings s t = compareRanks (.string s) (.string t) := by
  simp only [compareStrings, compareRanks, compareLex, compareOn, FKey.group, FKey.intValue, FKey.intLength,
    FKey.literal]
  cases hs : tryParseStringToInt s with
  | none =>
    cases ht : tryParseStringToInt t with
    | none => simp
    | some value => rfl
  | some value =>
    cases ht : tryParseStringToInt t with
    | none => rfl
    | some value' =>
      simp only [ite_gt_ite_lt]
      simp

theorem compareKey_eq_compareRanks : compareKey = compareRanks := by
  funext a b
  cases a with
  | minName =>
    cases b with
    | minName => rfl
    | maxName => rfl
    | string t =>
      rw [compareRanks_of_group_lt (group_string t).1]
      simp [compareKey]
  | maxName =>
    cases b with
    | minName => rfl
    | maxName => rfl
    | string t =>
      rw [compareRanks_of_group_gt (group_string t).2]
      simp [compareKey]
  | string s =>
    cases b with
    | minName =>
      rw [compareRanks_of_group_gt (group_string s).1]
      simp [compareKey]
    | maxName =>
      rw [compareRanks_of_group_lt (group_string s).2]
      simp [compareKey]
    | string t =>
      rw [← compareStrings_eq, compareKey]
      split_ifs with h
      · cases h
        exact (compareStrings_self s).symm
      · simp_all
      · rfl

/-- **The order of keys is a total preorder.** -/
instance transCmp_compareKey : Std.TransCmp compareKey := by
  rw [compareKey_eq_compareRanks]
  unfold compareRanks
  infer_instance

/-! ## Keys of the same order -/

theorem parseDigits_cons {value : Nat} {c : Unichar} {cs : List Unichar} {x : Nat}
    (h : parseDigits value (c :: cs) = some x) :
    48 ≤ c.val ∧ c.val ≤ 57 ∧ parseDigits (value * 10 + (c.val - 48)) cs = some x := by
  rw [parseDigits] at h
  split_ifs at h with hc
  exact ⟨by omega, by omega, h⟩

/-- Numerals of one length are told apart by their values. -/
theorem parseDigits_inj {cs ds : List Unichar} {v w x : Nat} (hlen : cs.length = ds.length)
    (hc : parseDigits v cs = some x) (hd : parseDigits w ds = some x) : v = w ∧ cs = ds := by
  induction cs generalizing ds v w with
  | nil =>
    obtain rfl := List.length_eq_zero_iff.mp hlen.symm
    rw [parseDigits, Option.some.injEq] at hc hd
    exact ⟨hc.trans hd.symm, rfl⟩
  | cons c cs ih =>
    cases ds with
    | nil => cases hlen
    | cons d ds =>
      obtain ⟨hc1, hc2, hc⟩ := parseDigits_cons hc
      obtain ⟨hd1, hd2, hd⟩ := parseDigits_cons hd
      obtain ⟨hvalue, rfl⟩ := ih (Nat.succ.inj hlen) hc hd
      have hcd : c = d := Fin.ext (by omega)
      exact ⟨by omega, by rw [hcd]⟩

/-- `0…0`. -/
def zeros (n : Nat) : List Unichar := List.replicate n 48

theorem parseDigits_zeros (n : Nat) : parseDigits 0 (zeros n) = some 0 := by
  induction n with
  | zero => rfl
  | succ n ih => exact ih

theorem eq_zeros {cs : List Unichar} (h : parseDigits 0 cs = some 0) : cs = zeros cs.length :=
  (parseDigits_inj (by simp [zeros]) h (parseDigits_zeros _)).2

/-- What reads as an integer. -/
theorem tryParseStringToInt_eq_some {s : NSString} {x : Int} (h : tryParseStringToInt s = some x) :
    s.characters.length ≤ 11 ∧
      ((∃ cs value, s.characters = minusSign :: cs ∧ cs ≠ [] ∧ parseDigits 0 cs = some value ∧ x = -value) ∨
        ∃ value : Nat, parseDigits 0 s.characters = some value ∧ x = value) := by
  rw [tryParseStringToInt] at h
  split_ifs at h with hlen hneg hone
  · obtain ⟨value, hvalue, hx⟩ := Option.bind_eq_some_iff.mp h
    obtain ⟨cs, hcs⟩ := List.head?_eq_some_iff.mp hneg
    rw [hcs] at hvalue hone hlen ⊢
    split_ifs at hx
    refine ⟨by omega, .inl ⟨cs, value, rfl, ?_, hvalue, (Option.some.inj hx).symm⟩⟩
    rintro rfl
    exact hone rfl
  · obtain ⟨value, hvalue, hx⟩ := Option.bind_eq_some_iff.mp h
    split_ifs at hx
    exact ⟨by omega, .inr ⟨value, hvalue, (Option.some.inj hx).symm⟩⟩

/-- The two spellings of zero that have the same length. -/
def ZeroTwins (a b : NSString) : Prop :=
  ∃ n, 1 ≤ n ∧ n ≤ 10 ∧ a.characters = zeros (n + 1) ∧ b.characters = minusSign :: zeros n

theorem ZeroTwins.same {a b : NSString} (h : ZeroTwins a b) :
    tryParseStringToInt a = some 0 ∧ tryParseStringToInt b = some 0 ∧
      a.characters.length = b.characters.length := by
  obtain ⟨n, hn1, hn10, ha, hb⟩ := h
  have halen : a.characters.length = n + 1 := by simp [ha, zeros]
  have hblen : b.characters.length = n + 1 := by simp [hb, zeros]
  refine ⟨?_, ?_, halen.trans hblen.symm⟩
  · have hhead : a.characters.head? ≠ some minusSign := by
      rw [ha, zeros, List.replicate_succ, List.head?_cons]
      decide
    rw [tryParseStringToInt, if_neg (by omega), if_neg hhead, ha, parseDigits_zeros]
    rfl
  · have hhead : b.characters.head? = some minusSign := by rw [hb, List.head?_cons]
    rw [tryParseStringToInt, if_neg (by omega), if_pos hhead, if_neg (by omega), hb, List.tail_cons,
      parseDigits_zeros]
    rfl

/-- A string without a sign and one with it have the same value only at zero. -/
theorem zeroTwins_of_sign {a b : NSString} {ds : List Unichar} {v w : Nat}
    (hlen : a.characters.length = b.characters.length) (h11 : b.characters.length ≤ 11)
    (hv : parseDigits 0 a.characters = some v) (hb : b.characters = minusSign :: ds) (hds : ds ≠ [])
    (hw : parseDigits 0 ds = some w) (hvw : (v : Int) = -w) : ZeroTwins a b := by
  obtain ⟨rfl, rfl⟩ : v = 0 ∧ w = 0 := by omega
  rw [hb, List.length_cons] at hlen h11
  have hds1 : 1 ≤ ds.length := List.length_pos_iff.mpr hds
  refine ⟨ds.length, hds1, by omega, ?_, ?_⟩
  · rw [← hlen]
    exact eq_zeros hv
  · rw [hb, ← eq_zeros hw]

/-- Integer keys of one value and one length. -/
theorem eq_or_zeroTwins {a b : NSString} {x : Int} (ha : tryParseStringToInt a = some x)
    (hb : tryParseStringToInt b = some x) (hlen : a.characters.length = b.characters.length) :
    a = b ∨ ZeroTwins a b ∨ ZeroTwins b a := by
  obtain ⟨ha11, ⟨cs, v, hcs, hcs0, hv, hx⟩ | ⟨v, hv, hx⟩⟩ := tryParseStringToInt_eq_some ha
  · obtain ⟨hb11, ⟨ds, w, hds, hds0, hw, hy⟩ | ⟨w, hw, hy⟩⟩ := tryParseStringToInt_eq_some hb
    · obtain rfl : v = w := by omega
      have hlen' : cs.length = ds.length := by simpa [hcs, hds] using hlen
      rw [(parseDigits_inj hlen' hv hw).2, ← hds] at hcs
      exact .inl (NSString.ext hcs)
    · exact .inr (.inr (zeroTwins_of_sign hlen.symm ha11 hw hcs hcs0 hv (by omega)))
  · obtain ⟨hb11, ⟨ds, w, hds, hds0, hw, hy⟩ | ⟨w, hw, hy⟩⟩ := tryParseStringToInt_eq_some hb
    · exact .inr (.inl (zeroTwins_of_sign hlen hb11 hv hds hds0 hw (by omega)))
    · obtain rfl : v = w := by omega
      exact .inl (NSString.ext (parseDigits_inj hlen hv hw).2)

/-- Keys that are different strings but have the same order. -/
def FKey.Twins : FKey → FKey → Prop
  | string a, string b => ZeroTwins a b ∨ ZeroTwins b a
  | _, _ => False

theorem compareStrings_eq_iff {a b : NSString} :
    compareStrings a b = .eq ↔ a = b ∨ ZeroTwins a b ∨ ZeroTwins b a := by
  constructor
  · intro h
    rw [compareStrings] at h
    cases ha : tryParseStringToInt a with
    | none =>
      cases hb : tryParseStringToInt b with
      | none =>
        rw [ha, hb] at h
        exact .inl (NSString.ext (Std.compare_eq_iff_eq.mp h))
      | some y => simp [ha, hb] at h
    | some x =>
      cases hb : tryParseStringToInt b with
      | none => simp [ha, hb] at h
      | some y =>
        simp only [ha, hb, ite_gt_ite_lt, Ordering.then_eq_eq, compare_eq_iff_eq, and_true] at h
        obtain ⟨rfl, hlen⟩ := h
        exact eq_or_zeroTwins ha hb hlen
  · rintro (rfl | h | h)
    · exact compareStrings_self a
    · obtain ⟨ha, hb, hlen⟩ := h.same
      simp [compareStrings, ha, hb, hlen]
    · obtain ⟨hb, ha, hlen⟩ := h.same
      simp [compareStrings, ha, hb, hlen]

/-- **The order tells keys apart**, except the spellings of zero. -/
theorem compareKey_eq_iff {a b : FKey} : compareKey a b = .eq ↔ a = b ∨ a.Twins b := by
  cases a with
  | minName => cases b <;> simp [compareKey, FKey.Twins]
  | maxName => cases b <;> simp [compareKey, FKey.Twins]
  | string s =>
    cases b with
    | minName => simp [compareKey, FKey.Twins]
    | maxName => simp [compareKey, FKey.Twins]
    | string t =>
      rw [compareKey_eq_compareRanks, ← compareStrings_eq, compareStrings_eq_iff, FKey.string.injEq, FKey.Twins]

/-! ## The children of a node -/

section Children

variable {ν : Type*} {dictionary : List (FKey × ν)}

/-- Two keys of the dictionary have the same order. -/
def HasTwins (dictionary : List (FKey × ν)) : Prop :=
  ∃ x ∈ dictionary, ∃ y ∈ dictionary, x.1.Twins y.1

theorem ZeroTwins.ne {a b : NSString} (h : ZeroTwins a b) : a ≠ b := by
  rintro rfl
  obtain ⟨n, -, -, ha, hb⟩ := h
  rw [ha, zeros, List.replicate_succ, List.cons.injEq] at hb
  exact absurd hb.1 (by decide)

theorem FKey.Twins.ne {a b : FKey} (h : a.Twins b) : a ≠ b := by
  rintro rfl
  cases a with
  | minName => exact h
  | maxName => exact h
  | string s => exact h.elim (fun h => h.ne rfl) fun h => h.ne rfl

theorem distinct_iff_not_hasTwins (hkeys : (dictionary.map Prod.fst).Nodup) :
    Distinct compareKey dictionary ↔ ¬HasTwins dictionary := by
  constructor
  · rintro hdistinct ⟨x, hx, y, hy, htwins⟩
    have hsame : compareKey x.1 y.1 = .eq := compareKey_eq_iff.mpr (.inr htwins)
    exact htwins.ne (eq_of_pairwise_ne (List.pairwise_map.mpr hdistinct) (List.mem_map_of_mem hx)
      (List.mem_map_of_mem hy) hsame)
  · intro hnone
    refine (List.pairwise_map.mp hkeys).imp_of_mem fun hx hy hne heq => ?_
    rcases compareKey_eq_iff.mp heq with heq | htwins
    · exact hne heq
    · exact hnone ⟨_, hx, _, hy, htwins⟩

/-- **The children of a node can be built exactly when no two keys are spellings of zero** of the same
length; a child is then found under its own key, and under the other spelling of it. -/
theorem children_of_dictionary (hkeys : (dictionary.map Prod.fst).Nodup) :
    (HasTwins dictionary →
      (FImmutableSortedDictionary.fromDictionary dictionary : Except _ (FImmutableSortedDictionary compareKey ν)) =
        .error .sameOrdering) ∧
    (¬HasTwins dictionary → ∃ d : FImmutableSortedDictionary compareKey ν,
      FImmutableSortedDictionary.fromDictionary dictionary = .ok d ∧
      ∀ k v, d.get k = some v ↔ (k, v) ∈ dictionary ∨ ∃ k', k.Twins k' ∧ (k', v) ∈ dictionary) := by
  constructor
  · intro htwins
    rcases FImmutableSortedDictionary.fromDictionary_eq compareKey dictionary with ⟨_, _, hdistinct, _⟩ | ⟨herror, _⟩
    · exact absurd htwins ((distinct_iff_not_hasTwins hkeys).mp hdistinct)
    · exact herror
  · intro hnone
    have hdistinct := (distinct_iff_not_hasTwins hkeys).mpr hnone
    obtain ⟨d, hd, -, hget⟩ := FImmutableSortedDictionary.get_fromDictionary hdistinct
    refine ⟨d, hd, fun k v => ?_⟩
    rw [hget, find_eq_some_iff hdistinct]
    simp only [compareKey_eq_iff, or_and_right, exists_or, exists_eq_left']

/-- Two spellings of zero are refused; one alone is found under both names. -/
theorem children_of_dictionary_zero :
    (FImmutableSortedDictionary.fromDictionary [(FKey.string ⟨[48, 48]⟩, true), (.string ⟨[45, 48]⟩, false)] :
        Except _ (FImmutableSortedDictionary compareKey Bool)) = .error .sameOrdering ∧
    ∃ d : FImmutableSortedDictionary compareKey Bool,
      FImmutableSortedDictionary.fromDictionary [(FKey.string ⟨[48, 48]⟩, true)] = .ok d ∧
      d.get (.string ⟨[45, 48]⟩) = some true := by
  have htwins : ZeroTwins ⟨[48, 48]⟩ ⟨[45, 48]⟩ := ⟨1, by decide, by decide, rfl, rfl⟩
  refine ⟨(children_of_dictionary (by decide)).1 ⟨_, List.mem_cons_self, _,
    List.mem_cons_of_mem _ List.mem_cons_self, .inl htwins⟩, ?_⟩
  have hnone : ¬HasTwins [(FKey.string ⟨[48, 48]⟩, true)] := by
    rintro ⟨x, hx, y, hy, h⟩
    exact h.ne (by rw [List.mem_singleton.mp hx, List.mem_singleton.mp hy])
  obtain ⟨d, hd, hget⟩ := (children_of_dictionary (by decide)).2 hnone
  exact ⟨d, hd, (hget _ _).mpr (.inr ⟨.string ⟨[48, 48]⟩, Or.inr htwins, List.mem_cons_self⟩)⟩

end Children

end ChatApplication
