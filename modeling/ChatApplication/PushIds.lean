import ChatApplication.Conversation
import ChatApplication.Lib.Numeral

/-!
# The keys of messages (vendored `FNextPushId.m`)

`childByAutoId` names a message by the time in milliseconds and twelve random characters.  Within one
millisecond the random characters are counted up instead of drawn again.  The names are numerals over
`PUSH_CHARS`, so they sort by the time at which they were made.

* `nextDigits`, `FNextPushId.get` — one call; counting past the last name of a millisecond, where the
  source zeroes all characters and writes before the start of its array, is `none`.
* `nextDigits_spec` — on a clock that has not gone back, every name is a larger numeral than the last.
* `isSome_pushIds_iff` — all names are there exactly when no millisecond runs out of names (`NamesLeft`).
* `pushIds_increasing` — over any number of calls that leave names in every millisecond, the names are
  twenty characters long, strictly increasing, and keys as the conversations need them.
-/

namespace ChatApplication

open Numeral

/-- The twelve values of `arc4random() % 64`. -/
abbrev RandomDraw := Vector (Fin 64) 12

/-- `lastPushTime` and `lastRandChars`. -/
structure PushState where
  lastPushTime : Nat := 0
  lastRandChars : List Nat := List.replicate 12 0
  deriving DecidableEq, Repr

/-- `[PUSH_CHARS characterAtIndex:i]`. -/
def pushChar (i : Nat) : Char := PUSH_CHARS.getD i '-'

/-- The places in `PUSH_CHARS` of the characters of the next name, and the state after it. -/
def nextDigits (now : Nat) (draw : RandomDraw) (s : PushState) : Option (List Nat × PushState) :=
  (if now = s.lastPushTime then succ 63 s.lastRandChars else some (draw.toList.map Fin.val)).map
    fun chars => (fixed 64 8 now ++ chars, ⟨now, chars⟩)

def pushString (digits : List Nat) : String := String.ofList (digits.map pushChar)

/-- `FNextPushId get:` at the time `now` in milliseconds. -/
def FNextPushId.get (now : Nat) (draw : RandomDraw) (s : PushState) : Option (String × PushState) :=
  (nextDigits now draw s).map fun r => (pushString r.1, r.2)

/-- The names of a sequence of calls. -/
def pushIds : PushState → List (Nat × RandomDraw) → Option (List String)
  | _, [] => some []
  | s, (now, draw) :: calls =>
    (FNextPushId.get now draw s).bind fun r => (pushIds r.2 calls).map (r.1 :: ·)

/-- The number that the twelve characters of a call are counted up to: one more than the number of the last
call within one millisecond, the number drawn otherwise. -/
def nextCount (now : Nat) (draw : RandomDraw) (lastPushTime count : Nat) : Nat :=
  if now = lastPushTime then count + 1 else value 64 (draw.toList.map Fin.val)

/-- These numbers for a sequence of calls. -/
def counts : Nat → Nat → List (Nat × RandomDraw) → List Nat
  | _, _, [] => []
  | lastPushTime, count, (now, draw) :: calls =>
    nextCount now draw lastPushTime count :: counts now (nextCount now draw lastPushTime count) calls

/-- No millisecond counts past the last of the `64 ^ 12` names that twelve characters have. -/
def NamesLeft (calls : List (Nat × RandomDraw)) : Prop := ∀ n ∈ counts 0 0 calls, n < 64 ^ 12

instance (calls : List (Nat × RandomDraw)) : Decidable (NamesLeft calls) :=
  inferInstanceAs (Decidable (∀ n ∈ counts 0 0 calls, n < 64 ^ 12))

/-! ## One call -/

/-- Twelve places in `PUSH_CHARS`. -/
def PushState.Wf (s : PushState) : Prop :=
  s.lastRandChars.length = 12 ∧ ∀ d ∈ s.lastRandChars, d < 64

/-- The last name as a number. -/
def PushState.last (s : PushState) : Nat := s.lastPushTime * 64 ^ 12 + value 64 s.lastRandChars

theorem wf_initial : PushState.Wf {} := by
  unfold PushState.Wf
  decide

theorem draw_lt (draw : RandomDraw) : ∀ d ∈ draw.toList.map Fin.val, d < 64 := by
  intro d hd
  obtain ⟨x, -, rfl⟩ := List.mem_map.mp hd
  exact x.isLt

theorem PushState.Wf.value_lt {s : PushState} (h : s.Wf) : value 64 s.lastRandChars < 64 ^ 12 := by
  have hlt := Numeral.value_lt h.2
  rwa [h.1] at hlt

/-- There is a next name exactly when the call counts up to a number of twelve characters; these are then
the characters of the name after its time. -/
theorem nextDigits_counts (now : Nat) (draw : RandomDraw) {s : PushState} (hs : s.Wf) :
    ((nextDigits now draw s).isSome ↔
      nextCount now draw s.lastPushTime (value 64 s.lastRandChars) < 64 ^ 12) ∧
      ∀ digits s', nextDigits now draw s = some (digits, s') →
        s'.Wf ∧ s'.lastPushTime = now ∧ digits = fixed 64 8 now ++ s'.lastRandChars ∧
          value 64 s'.lastRandChars = nextCount now draw s.lastPushTime (value 64 s.lastRandChars) := by
  unfold nextDigits nextCount
  by_cases hdup : now = s.lastPushTime
  · have hiff := isSome_succ_iff hs.2
    rw [hs.1] at hiff
    simp only [if_pos hdup, Option.isSome_map]
    refine ⟨hiff, fun digits s' h => ?_⟩
    obtain ⟨chars, hchars, heq⟩ := Option.map_eq_some_iff.mp h
    obtain ⟨hlen, hlt, hval⟩ := value_succ hchars hs.2
    cases heq
    exact ⟨⟨hlen.trans hs.1, hlt⟩, rfl, rfl, hval⟩
  · have hwf : (⟨now, draw.toList.map Fin.val⟩ : PushState).Wf := ⟨by simp, draw_lt draw⟩
    simp only [if_neg hdup]
    refine ⟨iff_of_true rfl hwf.value_lt, fun digits s' h => ?_⟩
    cases h
    exact ⟨hwf, rfl, rfl, rfl⟩

/-- **One name**: it is a larger numeral than the last one, if the clock has not gone back. -/
theorem nextDigits_spec {now : Nat} {draw : RandomDraw} {s s' : PushState} {digits : List Nat}
    (h : nextDigits now draw s = some (digits, s')) (hs : s.Wf) (hnow : now < 64 ^ 8)
    (hclock : s.lastPushTime ≤ now) :
    s'.Wf ∧ s'.lastPushTime = now ∧ s.last < s'.last ∧ digits.length = 20 ∧ (∀ d ∈ digits, d < 64) ∧
      value 64 digits = s'.last := by
  obtain ⟨hs', htime, rfl, hcount⟩ := (nextDigits_counts now draw hs).2 digits s' h
  have hsvalue := hs.value_lt
  refine ⟨hs', htime, ?_, ?_, ?_, ?_⟩
  · rw [PushState.last, PushState.last, htime, hcount, nextCount]
    rcases Nat.lt_or_eq_of_le hclock with hlast | hlast
    · have hmul : (s.lastPushTime + 1) * 64 ^ 12 ≤ now * 64 ^ 12 := Nat.mul_le_mul_right _ hlast
      rw [Nat.add_mul, Nat.one_mul] at hmul
      omega
    · rw [if_pos hlast.symm, hlast]
      omega
  · rw [List.length_append, length_fixed, hs'.1]
  · intro d hd
    rcases List.mem_append.mp hd with hd | hd
    · exact fixed_lt (by decide) 8 now d hd
    · exact hs'.2 d hd
  · rw [value_append, value_fixed hnow, hs'.1, PushState.last, htime]

/-! ## Texts -/

theorem pushChar_eq_getElem {d : Nat} (hd : d < PUSH_CHARS.length) : pushChar d = PUSH_CHARS[d] := by
  simp [pushChar, hd]

theorem length_PUSH_CHARS : PUSH_CHARS.length = 64 := by decide

/-- The characters are in the order of their places. -/
theorem pushChar_lt {d e : Nat} (hd : d < 64) (he : e < 64) (h : d < e) : pushChar d < pushChar e := by
  have hsorted : PUSH_CHARS.Pairwise (· < ·) := by decide
  rw [← length_PUSH_CHARS] at hd he
  rw [pushChar_eq_getElem hd, pushChar_eq_getElem he]
  exact List.pairwise_iff_getElem.mp hsorted d e hd he h

theorem pushChar_mem {d : Nat} (hd : d < 64) : pushChar d ∈ PUSH_CHARS := by
  rw [← length_PUSH_CHARS] at hd
  rw [pushChar_eq_getElem hd]
  exact List.getElem_mem hd

theorem pushString_lt {ds es : List Nat} (hlen : ds.length = es.length) (hds : ∀ d ∈ ds, d < 64)
    (hes : ∀ e ∈ es, e < 64) (h : value 64 ds < value 64 es) : pushString ds < pushString es := by
  rw [String.lt_iff, pushString, pushString, String.toList_ofList, String.toList_ofList]
  exact map_lt_map (fun _ _ hd he => pushChar_lt hd he) hds hes (lt_of_value_lt hlen hds hes h)

theorem toList_pushString_mem {ds : List Nat} (hds : ∀ d ∈ ds, d < 64) :
    ∀ c ∈ (pushString ds).toList, c ∈ PUSH_CHARS := by
  intro c hc
  rw [pushString, String.toList_ofList] at hc
  obtain ⟨d, hd, rfl⟩ := List.mem_map.mp hc
  exact pushChar_mem (hds d hd)

/-- Until the year 2109 the first character is the first of `PUSH_CHARS`, so that the name is no index. -/
theorem isIndexKey_pushString {now : Nat} (hnow : now < 64 ^ 7) (chars : List Nat) :
    isIndexKey (pushString (fixed 64 8 now ++ chars)) = false := by
  have hhead : (fixed 64 8 now).head? = some 0 := fixed_head hnow
  obtain ⟨rest, hrest⟩ : ∃ rest, fixed 64 8 now = 0 :: rest := by
    cases hfixed : fixed 64 8 now with
    | nil => rw [hfixed] at hhead; cases hhead
    | cons d rest => rw [hfixed] at hhead; cases hhead; exact ⟨rest, rfl⟩
  have hlist : (pushString (fixed 64 8 now ++ chars)).toList = '-' :: (rest ++ chars).map pushChar := by
    rw [pushString, String.toList_ofList, hrest, List.cons_append, List.map_cons]
    rfl
  simp [isIndexKey, hlist, intForString, digitsValue, show Char.isDigit '-' = false from rfl]

/-! ## Any number of calls -/

/-- The names of calls on a clock that does not go back, from the last name on. -/
theorem pushIds_spec : ∀ (calls : List (Nat × RandomDraw)) {s : PushState} {ids : List String},
    pushIds s calls = some ids → s.Wf → (∀ call ∈ calls, s.lastPushTime ≤ call.1 ∧ call.1 < 64 ^ 7) →
    (calls.map Prod.fst).Pairwise (· ≤ ·) →
    ∃ digits : List (List Nat), ids = digits.map pushString ∧
      (∀ ds ∈ digits, ds.length = 20 ∧ (∀ d ∈ ds, d < 64) ∧ s.last < value 64 ds) ∧
      digits.Pairwise (fun ds es => value 64 ds < value 64 es) ∧
      ∀ id ∈ ids, isIndexKey id = false
  | [], s, ids, h, _, _, _ => by
    cases h
    exact ⟨[], rfl, nofun, .nil, nofun⟩
  | (now, draw) :: calls, s, ids, h, hs, htimes, hclock => by
    obtain ⟨⟨id, s'⟩, hget, hrest⟩ := Option.bind_eq_some_iff.mp h
    obtain ⟨ids', hids', rfl⟩ := Option.map_eq_some_iff.mp hrest
    obtain ⟨⟨ds, s''⟩, hnext, heq⟩ := Option.map_eq_some_iff.mp hget
    obtain ⟨rfl, rfl⟩ := Prod.mk.inj heq
    obtain ⟨hle, hlt⟩ := htimes (now, draw) List.mem_cons_self
    obtain ⟨hs', htime, hlast, hlen, hdigits, hvalue⟩ :=
      nextDigits_spec hnext hs (Nat.lt_trans hlt (by decide)) hle
    rw [List.map_cons, List.pairwise_cons] at hclock
    obtain ⟨digits, rfl, hall, hpairwise, hindex⟩ := pushIds_spec calls hids' hs' (fun call hcall =>
      ⟨htime ▸ hclock.1 call.1 (List.mem_map_of_mem hcall), (htimes call (List.mem_cons_of_mem _ hcall)).2⟩)
      hclock.2
    refine ⟨ds :: digits, rfl, ?_, ?_, ?_⟩
    · intro es hes
      rcases List.mem_cons.mp hes with rfl | hes
      · exact ⟨hlen, hdigits, by rw [hvalue]; exact hlast⟩
      · obtain ⟨hlen', hdigits', hlt'⟩ := hall es hes
        exact ⟨hlen', hdigits', Nat.lt_trans hlast hlt'⟩
    · refine List.pairwise_cons.mpr ⟨fun es hes => ?_, hpairwise⟩
      rw [hvalue]
      exact (hall es hes).2.2
    · intro id hid
      rcases List.mem_cons.mp hid with rfl | hid
      · obtain ⟨chars, -, heq⟩ := Option.map_eq_some_iff.mp hnext
        rw [← (Prod.mk.inj heq).1]
        exact isIndexKey_pushString hlt chars
      · exact hindex id hid

/-- The names of calls from the first one on. -/
theorem pushIds_initial {calls : List (Nat × RandomDraw)} {ids : List String}
    (h : pushIds {} calls = some ids) (hclock : (calls.map Prod.fst).Pairwise (· ≤ ·))
    (htimes : ∀ call ∈ calls, call.1 < 64 ^ 7) :
    ∃ digits : List (List Nat), ids = digits.map pushString ∧
      (∀ ds ∈ digits, ds.length = 20 ∧ ∀ d ∈ ds, d < 64) ∧
      digits.Pairwise (fun ds es => value 64 ds < value 64 es) ∧ ∀ id ∈ ids, isIndexKey id = false := by
  have hlater : ∀ call ∈ calls, PushState.lastPushTime {} ≤ call.1 ∧ call.1 < 64 ^ 7 := by
    intro call hcall
    exact ⟨Nat.zero_le _, htimes call hcall⟩
  obtain ⟨digits, hids, hall, hpairwise, hindex⟩ := pushIds_spec calls h wf_initial hlater hclock
  exact ⟨digits, hids, fun ds hds => ⟨(hall ds hds).1, (hall ds hds).2.1⟩, hpairwise, hindex⟩

/-- The names of calls are all there exactly when every count is one of twelve characters. -/
theorem isSome_pushIds_counts : ∀ (calls : List (Nat × RandomDraw)) {s : PushState}, s.Wf →
    ((pushIds s calls).isSome ↔
      ∀ n ∈ counts s.lastPushTime (value 64 s.lastRandChars) calls, n < 64 ^ 12)
  | [], s, _ => by simp [pushIds, counts]
  | (now, draw) :: calls, s, hs => by
    obtain ⟨hiff, hnext⟩ := nextDigits_counts now draw hs
    rw [pushIds, FNextPushId.get, counts, List.forall_mem_cons, ← hiff]
    cases h : nextDigits now draw s with
    | none => simp
    | some r =>
      obtain ⟨hs', htime, -, hcount⟩ := hnext r.1 r.2 h
      have ih := isSome_pushIds_counts calls hs'
      rw [htime, hcount] at ih
      simp only [Option.map_some, Option.bind_some, Option.isSome_map, Option.isSome_some, true_and]
      exact ih

/-- **Names run out within one millisecond, and only so.** -/
theorem isSome_pushIds_iff (calls : List (Nat × RandomDraw)) :
    (pushIds {} calls).isSome ↔ NamesLeft calls :=
  isSome_pushIds_counts calls wf_initial

theorem length_pushIds : ∀ {calls : List (Nat × RandomDraw)} {s : PushState} {ids : List String},
    pushIds s calls = some ids → ids.length = calls.length
  | [], _, _, h => by cases h; rfl
  | (now, draw) :: calls, s, ids, h => by
    obtain ⟨r, -, hrest⟩ := Option.bind_eq_some_iff.mp h
    obtain ⟨ids', hids', rfl⟩ := Option.map_eq_some_iff.mp hrest
    rw [List.length_cons, List.length_cons, length_pushIds hids']

/-- **Names sort by the time at which they were made.**  On a clock that does not go back and stands
before the year 2109, any number of calls, also within one millisecond, give their names exactly when no
millisecond counts past its last name.  The names are then strictly increasing (so no two of them are
equal), twenty characters long, and keys of messages. -/
theorem pushIds_increasing {calls : List (Nat × RandomDraw)}
    (hclock : (calls.map Prod.fst).Pairwise (· ≤ ·)) (htimes : ∀ call ∈ calls, call.1 < 64 ^ 7) :
    ((pushIds {} calls).isSome ↔ NamesLeft calls) ∧
      ∀ ids, pushIds {} calls = some ids → ids.length = calls.length ∧ ids.Pairwise (· < ·) ∧
        ∀ id ∈ ids, id.length = 20 ∧ ∃ key : PushId, key.val = id := by
  refine ⟨isSome_pushIds_iff calls, fun ids h => ⟨length_pushIds h, ?_⟩⟩
  obtain ⟨digits, rfl, hall, hpairwise, hindex⟩ := pushIds_initial h hclock htimes
  constructor
  · rw [List.pairwise_map]
    refine hpairwise.imp_of_mem fun {ds es} hds hes hlt => ?_
    obtain ⟨hlen, hd⟩ := hall ds hds
    obtain ⟨hlen', he⟩ := hall es hes
    exact pushString_lt (hlen.trans hlen'.symm) hd he hlt
  · intro id hid
    obtain ⟨ds, hds, rfl⟩ := List.mem_map.mp hid
    obtain ⟨hlen, hd⟩ := hall ds hds
    refine ⟨?_, ⟨_, toList_pushString_mem hd, hindex _ hid⟩, rfl⟩
    rw [← String.length_toList, pushString, String.toList_ofList, List.length_map, hlen]

/-- Three calls, two of them in one millisecond with a carry between them. -/
theorem pushIds_increasing_with_carry :
    let draw : RandomDraw := #v[0, 1, 2, 3, 4, 5, 6, 7, 8, 9, 10, 63]
    let calls := [(1700000000000, draw), (1700000000000, draw), (1700000000001, draw)]
    let ids := ["-NjEtLV--0123456789z", "-NjEtLV--012345678A-", "-NjEtLV0-0123456789z"]
    NamesLeft calls ∧ pushIds {} calls = some ids ∧
      ids.Pairwise (· < ·) ∧ ∀ id ∈ ids, id.length = 20 ∧ ∃ key : PushId, key.val = id := by
  intro draw calls ids
  have h : pushIds {} calls = some ids := by decide
  have hclock : (calls.map Prod.fst).Pairwise (· ≤ ·) := by decide
  obtain ⟨hiff, hids⟩ := pushIds_increasing hclock (by decide)
  exact ⟨hiff.mp (by rw [h]; rfl), h, (hids ids h).2⟩

-- The last name of a millisecond is drawn, and a second call comes within it.
example :
    let calls : List (Nat × RandomDraw) := List.replicate 2 (1700000000000, Vector.replicate 12 63)
    ¬ NamesLeft calls ∧ pushIds {} calls = none := by decide +kernel

end ChatApplication
