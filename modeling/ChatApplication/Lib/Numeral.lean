import Mathlib.Data.List.Induction
import Mathlib.Tactic.Ring

/-!
# Numerals of a fixed width

Lists of digits, the most significant first.  Numerals of one width are ordered as lists in the way
their values are ordered as numbers, so a name that is a numeral sorts by its value.

* `value_fixed` — the digits written for a number.
* `value_succ` — counting up with a carry adds one.
* `isSome_succ_iff` — it fails at the largest number of the width, and only there.
* `lt_of_value_lt` — the smaller value comes first in the order of lists, and `map_lt_map` in the
  order of the texts, when the digits' characters are ordered like the digits.
-/

namespace Numeral

/-- The number with the given digits. -/
def value (b : Nat) (ds : List Nat) : Nat := ds.foldl (fun v d => v * b + d) 0

/-- The last `w` digits of `n`. -/
def fixed (b : Nat) : Nat → Nat → List Nat
  | 0, _ => []
  | w + 1, n => fixed b w (n / b) ++ [n % b]

/-- Counting up, the last digit first: digits that are `top` become zero up to the first one that is
not, which is raised. -/
def carry (top : Nat) : List Nat → Option (List Nat)
  | [] => none
  | d :: ds => if d = top then (carry top ds).map (0 :: ·) else some ((d + 1) :: ds)

/-- Counting up. -/
def succ (top : Nat) (ds : List Nat) : Option (List Nat) := (carry top ds.reverse).map List.reverse

variable {b : Nat}

theorem value_concat (ds : List Nat) (d : Nat) : value b (ds ++ [d]) = value b ds * b + d := by
  simp [value, List.foldl_append]

theorem value_append (ds es : List Nat) :
    value b (ds ++ es) = value b ds * b ^ es.length + value b es := by
  induction es using List.reverseRecOn with
  | nil => simp [value]
  | append_singleton es e ih =>
    rw [← List.append_assoc, value_concat, value_concat, ih, List.length_append, List.length_singleton,
      Nat.pow_succ]
    ring

theorem value_cons (d : Nat) (ds : List Nat) : value b (d :: ds) = d * b ^ ds.length + value b ds := by
  rw [← List.singleton_append, value_append]
  simp [value]

theorem value_lt {ds : List Nat} (h : ∀ d ∈ ds, d < b) : value b ds < b ^ ds.length := by
  induction ds with
  | nil => simp [value]
  | cons d ds ih =>
    have hd : d + 1 ≤ b := h d List.mem_cons_self
    have hds := ih fun e he => h e (List.mem_cons_of_mem _ he)
    calc value b (d :: ds) = d * b ^ ds.length + value b ds := value_cons d ds
      _ < d * b ^ ds.length + b ^ ds.length := by omega
      _ = (d + 1) * b ^ ds.length := by ring
      _ ≤ b * b ^ ds.length := Nat.mul_le_mul_right _ hd
      _ = b ^ (d :: ds).length := by rw [List.length_cons, Nat.pow_succ, Nat.mul_comm]

theorem length_fixed (w n : Nat) : (fixed b w n).length = w := by
  induction w generalizing n with
  | zero => rfl
  | succ w ih => rw [fixed, List.length_append, ih, List.length_singleton]

theorem fixed_lt (hb : 0 < b) (w n : Nat) : ∀ d ∈ fixed b w n, d < b := by
  induction w generalizing n with
  | zero => simp [fixed]
  | succ w ih =>
    intro d hd
    rcases List.mem_append.mp hd with hd | hd
    · exact ih _ d hd
    · rw [List.mem_singleton.mp hd]
      exact Nat.mod_lt _ hb

/-- A number that fits is read back. -/
theorem value_fixed {w n : Nat} (h : n < b ^ w) : value b (fixed b w n) = n := by
  induction w generalizing n with
  | zero => simp at h; simp [h, fixed, value]
  | succ w ih =>
    have hdiv : n / b < b ^ w := by
      rw [Nat.div_lt_iff_lt_mul (Nat.pos_of_ne_zero fun hb => by simp [hb] at h), ← Nat.pow_succ]
      exact h
    rw [fixed, value_concat, ih hdiv]
    exact Nat.div_add_mod' n b

theorem fixed_head {w n : Nat} (h : n < b ^ w) : (fixed b (w + 1) n).head? = some 0 := by
  induction w generalizing n with
  | zero => simp at h; simp [h, fixed]
  | succ w ih =>
    have hdiv : n / b < b ^ w := by
      rw [Nat.div_lt_iff_lt_mul (Nat.pos_of_ne_zero fun hb => by simp [hb] at h), ← Nat.pow_succ]
      exact h
    rw [fixed, List.head?_append, ih hdiv]
    rfl

/-- What counting up does, the last digit first. -/
theorem carry_spec {top : Nat} {ds es : List Nat} (h : carry top ds = some es)
    (hds : ∀ d ∈ ds, d < top + 1) :
    es.length = ds.length ∧ (∀ e ∈ es, e < top + 1) ∧
      value (top + 1) es.reverse = value (top + 1) ds.reverse + 1 := by
  induction ds generalizing es with
  | nil => cases h
  | cons d ds ih =>
    have htail : ∀ e ∈ ds, e < top + 1 := fun e he => hds e (List.mem_cons_of_mem _ he)
    rw [carry] at h
    split at h
    · rename_i hd
      obtain ⟨es', hes', rfl⟩ := Option.map_eq_some_iff.mp h
      obtain ⟨hlen, hlt, hval⟩ := ih hes' htail
      refine ⟨by simp [hlen], ?_, ?_⟩
      · simpa using hlt
      · rw [List.reverse_cons, List.reverse_cons, value_concat, value_concat, hval, hd]
        ring
    · rename_i hd
      cases h
      have hlt : d < top + 1 := hds d List.mem_cons_self
      refine ⟨by simp, ?_, ?_⟩
      · intro e he
        rcases List.mem_cons.mp he with rfl | he
        · omega
        · exact htail e he
      · rw [List.reverse_cons, List.reverse_cons, value_concat, value_concat]
        ring

/-- **Counting up adds one.** -/
theorem value_succ {top : Nat} {ds es : List Nat} (h : succ top ds = some es)
    (hds : ∀ d ∈ ds, d < top + 1) :
    es.length = ds.length ∧ (∀ e ∈ es, e < top + 1) ∧ value (top + 1) es = value (top + 1) ds + 1 := by
  obtain ⟨es', hes', rfl⟩ := Option.map_eq_some_iff.mp h
  obtain ⟨hlen, hlt, hval⟩ := carry_spec hes' (by simpa using hds)
  rw [List.reverse_reverse] at hval
  exact ⟨by simpa using hlen, by simpa using hlt, hval⟩

/-- Where counting up fails, all digits are the last one. -/
theorem value_of_carry_eq_none {top : Nat} {ds : List Nat} (h : carry top ds = none) :
    value (top + 1) ds.reverse + 1 = (top + 1) ^ ds.length := by
  induction ds with
  | nil => simp [value]
  | cons d ds ih =>
    rw [carry] at h
    split at h
    · rename_i hd
      have ih := ih (Option.map_eq_none_iff.mp h)
      rw [List.reverse_cons, value_concat, hd, List.length_cons, Nat.pow_succ, ← ih]
      ring
    · cases h

/-- **Counting up fails at the largest number of the width, and only there.** -/
theorem isSome_succ_iff {top : Nat} {ds : List Nat} (hds : ∀ d ∈ ds, d < top + 1) :
    (succ top ds).isSome ↔ value (top + 1) ds + 1 < (top + 1) ^ ds.length := by
  cases h : succ top ds with
  | none =>
    have hlast := value_of_carry_eq_none (Option.map_eq_none_iff.mp h)
    rw [List.reverse_reverse, List.length_reverse] at hlast
    rw [hlast]
    simp
  | some es =>
    obtain ⟨hlen, hlt, hval⟩ := value_succ h hds
    rw [← hval, ← hlen]
    simp [value_lt hlt]

/-- **Numerals of one width sort by their values.** -/
theorem lt_of_value_lt : ∀ {ds es : List Nat}, ds.length = es.length → (∀ d ∈ ds, d < b) →
    (∀ e ∈ es, e < b) → value b ds < value b es → ds < es
  | [], [], _, _, _, h => absurd h (Nat.lt_irrefl _)
  | [], _ :: _, hlen, _, _, _ => by simp at hlen
  | _ :: _, [], hlen, _, _, _ => by simp at hlen
  | d :: ds, e :: es, hlen, hds, hes, h => by
    have hlen' : ds.length = es.length := by simpa using hlen
    have hvd := value_lt fun d' hd' => hds d' (List.mem_cons_of_mem _ hd')
    have hve := value_lt fun e' he' => hes e' (List.mem_cons_of_mem _ he')
    rw [value_cons, value_cons, hlen'] at h
    rw [hlen'] at hvd
    rcases Nat.lt_trichotomy d e with hlt | rfl | hgt
    · exact List.Lex.rel hlt
    · refine List.Lex.cons (lt_of_value_lt hlen' (fun d' hd' => hds d' (List.mem_cons_of_mem _ hd'))
        (fun e' he' => hes e' (List.mem_cons_of_mem _ he')) ?_)
      omega
    · exfalso
      have hmul : (e + 1) * b ^ es.length ≤ d * b ^ es.length := Nat.mul_le_mul_right _ hgt
      rw [Nat.add_mul, Nat.one_mul] at hmul
      omega

/-- A map that is increasing on the digits is increasing on numerals. -/
theorem map_lt_map {β : Type*} [LT β] {f : Nat → β} (hf : ∀ d e, d < b → e < b → d < e → f d < f e) :
    ∀ {ds es : List Nat}, (∀ d ∈ ds, d < b) → (∀ e ∈ es, e < b) → ds < es → ds.map f < es.map f
  | _, _, _, _, .nil => .nil
  | _, _, hds, hes, .rel h => .rel (hf _ _ (hds _ List.mem_cons_self) (hes _ List.mem_cons_self) h)
  | _, _, hds, hes, .cons h =>
    .cons (map_lt_map hf (fun d hd => hds d (List.mem_cons_of_mem _ hd))
      (fun e he => hes e (List.mem_cons_of_mem _ he)) h)

end Numeral
