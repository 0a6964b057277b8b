import Mathlib.Data.List.Induction

/-!
# Runs of a guarded transition function

A system is a partial step function `step : σ → ε → Option σ`; `none` means that the event is
not enabled in the state.  A run is a list of events, and every prefix of a run is a run, so a
statement about the last state of every run is a statement about every state of every run.

* `run_invariant` — what the first state has and every step keeps, every reached state has.
* `Meets` — every step of a run meets a condition on the state before it and the event;
  `run_invariant_of_meets` is the invariant rule for such runs.
* `foldlM_invariant` — the same rule for a step that may fail: no run fails.
* `Along` — a statement about every event and the events before it, for systems that are functions
  of the list of events; `along_concat` takes it apart at the last event.
* `forall_prefix_iff_along` — a law of every state of a run as a condition on every step.
-/

namespace Runs

variable {σ ε : Type*} {step : σ → ε → Option σ}

/-- The state after a list of events. -/
def run (step : σ → ε → Option σ) : σ → List ε → Option σ
  | s, [] => some s
  | s, e :: es => (step s e).bind fun s' => run step s' es

/-- Every step of the run from `s` along the events meets the condition `C`. -/
def Meets (step : σ → ε → Option σ) (C : σ → ε → Prop) : σ → List ε → Prop
  | _, [] => True
  | s, e :: es => C s e ∧ ∀ s', step s e = some s' → Meets step C s' es

theorem run_cons_eq_some {s s'' : σ} {e : ε} {es : List ε} :
    run step s (e :: es) = some s'' ↔ ∃ s', step s e = some s' ∧ run step s' es = some s'' := by
  simp [run, Option.bind_eq_some_iff]

theorem run_append (s : σ) (es fs : List ε) :
    run step s (es ++ fs) = (run step s es).bind fun s' => run step s' fs := by
  induction es generalizing s with
  | nil => rfl
  | cons e es ih =>
    simp only [List.cons_append, run, Option.bind_assoc]
    exact congrArg _ (funext ih)

theorem run_concat_eq_some {s s'' : σ} {e : ε} {es : List ε} :
    run step s (es ++ [e]) = some s'' ↔ ∃ s', run step s es = some s' ∧ step s' e = some s'' := by
  rw [run_append]
  simp [run, Option.bind_eq_some_iff]

/-- **Invariant rule** for runs whose steps all meet a condition. -/
theorem run_invariant_of_meets {C : σ → ε → Prop} {I : σ → Prop}
    (hstep : ∀ s e s', I s → C s e → step s e = some s' → I s') :
    ∀ (es : List ε) (s s' : σ), I s → Meets step C s es → run step s es = some s' → I s'
  | [], _, _, hi, _, hr => by cases hr; exact hi
  | e :: es, s, s', hi, hm, hr => by
    obtain ⟨s₁, h₁, h₂⟩ := run_cons_eq_some.mp hr
    exact run_invariant_of_meets hstep es s₁ s' (hstep s e s₁ hi hm.1 h₁) (hm.2 s₁ h₁) h₂

/-- **Invariant rule** for all runs. -/
theorem run_invariant {I : σ → Prop} (hstep : ∀ s e s', I s → step s e = some s' → I s') :
    ∀ (es : List ε) (s s' : σ), I s → run step s es = some s' → I s'
  | [], _, _, hi, hr => by cases hr; exact hi
  | e :: es, s, s', hi, hr => by
    obtain ⟨s₁, h₁, h₂⟩ := run_cons_eq_some.mp hr
    exact run_invariant hstep es s₁ s' (hstep s e s₁ hi h₁) h₂

/-- **Invariant rule** for a step that may fail: if it never fails where the invariant holds, no run
fails. -/
theorem foldlM_invariant {φ : Type*} {f : σ → ε → Except φ σ} {I : σ → Prop}
    (hstep : ∀ s e, I s → ∃ s', f s e = .ok s' ∧ I s') :
    ∀ (es : List ε) (s : σ), I s → ∃ s', es.foldlM f s = .ok s' ∧ I s'
  | [], s, hi => ⟨s, rfl, hi⟩
  | e :: es, s, hi => by
    obtain ⟨s₁, h₁, hi₁⟩ := hstep s e hi
    obtain ⟨s', hs', hi'⟩ := foldlM_invariant hstep es s₁ hi₁
    refine ⟨s', ?_, hi'⟩
    rw [List.foldlM_cons, h₁]
    exact hs'

/-- A step that never fails folds like the function it computes. -/
theorem foldlM_eq_ok_foldl {φ : Type*} {f : σ → ε → Except φ σ} {g : σ → ε → σ}
    (h : ∀ s e, f s e = .ok (g s e)) (es : List ε) (s : σ) : es.foldlM f s = .ok (es.foldl g s) := by
  induction es generalizing s with
  | nil => rfl
  | cons e es ih =>
    rw [List.foldlM_cons, h, List.foldl_cons]
    exact ih _

/-- On a concrete run the condition can be evaluated. -/
instance Meets.instDecidable {C : σ → ε → Prop} [∀ s e, Decidable (C s e)] :
    (s : σ) → (es : List ε) → Decidable (Meets step C s es)
  | _, [] => isTrue trivial
  | s, e :: es =>
    match h : step s e with
    | none => decidable_of_iff (C s e) (by simp [Meets, h])
    | some s' =>
      have := Meets.instDecidable (C := C) s' es
      decidable_of_iff (C s e ∧ Meets step C s' es) (by simp [Meets, h])

/-- Every event of the list, with the events before it, satisfies `P`. -/
def Along (P : List ε → ε → Prop) (es : List ε) : Prop :=
  ∀ earlier e, (earlier ++ [e]) <+: es → P earlier e

theorem along_nil (P : List ε → ε → Prop) : Along P [] := by
  intro earlier e hpre
  simp at hpre

theorem along_concat {P : List ε → ε → Prop} {es : List ε} {e : ε} :
    Along P (es ++ [e]) ↔ Along P es ∧ P es e := by
  constructor
  · intro h
    refine ⟨fun earlier e' hpre => h earlier e' (hpre.trans (List.prefix_append _ _)), ?_⟩
    exact h es e (List.prefix_refl _)
  · rintro ⟨hes, he⟩ earlier e' hpre
    rcases List.prefix_concat_iff.mp hpre with heq | hpre
    · obtain ⟨rfl, rfl⟩ := List.append_singleton_inj.mp heq
      exact he
    · exact hes earlier e' hpre

theorem along_append {P : List ε → ε → Prop} {es fs : List ε} :
    Along P (es ++ fs) ↔ Along P es ∧ Along (fun earlier e => P (es ++ earlier) e) fs := by
  induction fs using List.reverseRecOn with
  | nil => simp [along_nil]
  | append_singleton fs f ih => rw [← List.append_assoc, along_concat, ih, along_concat, and_assoc]

/-- A statement about every prefix of a list, taken apart at the last event. -/
theorem forall_prefix_concat {P : List ε → Prop} {es : List ε} {e : ε} :
    (∀ earlier, earlier <+: es ++ [e] → P earlier) ↔
      (∀ earlier, earlier <+: es → P earlier) ∧ P (es ++ [e]) := by
  simp only [List.prefix_concat_iff]
  constructor
  · intro h
    exact ⟨fun earlier hpre => h earlier (.inr hpre), h _ (.inl rfl)⟩
  · rintro ⟨hes, he⟩ earlier (rfl | hpre)
    · exact he
    · exact hes earlier hpre

/-- **A law of every state of a run** that each step keeps exactly when it meets a condition: it
holds in all states exactly when all steps meet the condition. -/
theorem forall_prefix_iff_along {P : List ε → Prop} {C : List ε → ε → Prop} (hnil : P [])
    (hstep : ∀ es e, P es → (P (es ++ [e]) ↔ C es e)) (es : List ε) :
    (∀ earlier, earlier <+: es → P earlier) ↔ Along C es := by
  induction es using List.reverseRecOn with
  | nil =>
    refine ⟨fun _ => along_nil _, fun _ earlier hpre => ?_⟩
    rw [List.prefix_nil.mp hpre]
    exact hnil
  | append_singleton es e ih =>
    rw [forall_prefix_concat, along_concat, ← ih]
    exact and_congr_right fun hes => hstep es e (hes es (List.prefix_refl _))

end Runs
