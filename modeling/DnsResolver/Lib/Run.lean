import Mathlib.Data.List.Basic

/-!
# Runs

A run is a left fold of a step function over the list of its actions.

* `Meets step ok as s`   every step of the run meets `ok`, a condition on the action and on the
                         state before it;
* `Meets.invariant`      what every such step keeps holds after the run;
* `Meets.initial`      the first steps of such a run are one;
* `meets_iff`            the condition at every step, between the steps before and after it;
* `Meets.and`            two conditions on one run;
* `foldl_iff_exists`     a fact that steps bring about and none undoes;
* `lockstep`             what relates two states and is kept by equal steps relates two runs;
* `Meets.stutter`        a run beside the run that leaves some of its actions out.
-/

namespace Run

variable {σ α : Type*} {step : σ → α → σ} {ok ok' : σ → α → Prop} {I : σ → Prop} {as bs : List α}
  {s : σ}

/-- every step of the run from `s` meets `ok` -/
def Meets (step : σ → α → σ) (ok : σ → α → Prop) : List α → σ → Prop
  | [], _ => True
  | a :: as, s => ok s a ∧ Meets step ok as (step s a)

instance decidableMeets [∀ s a, Decidable (ok s a)] :
    (as : List α) → (s : σ) → Decidable (Meets step ok as s)
  | [], _ => isTrue trivial
  | a :: as, s =>
    haveI := decidableMeets as (step s a)
    inferInstanceAs (Decidable (ok s a ∧ Meets step ok as (step s a)))

theorem Meets.append :
    Meets step ok (as ++ bs) s ↔ Meets step ok as s ∧ Meets step ok bs (as.foldl step s) := by
  induction as generalizing s with
  | nil => simp only [List.nil_append, Meets, List.foldl_nil, true_and]
  | cons a as ih => simp only [List.cons_append, Meets, List.foldl_cons, ih, and_assoc]

theorem Meets.initial (h : Meets step ok bs s) (hp : as <+: bs) : Meets step ok as s := by
  obtain ⟨rest, rfl⟩ := hp
  exact (Meets.append.mp h).1

theorem meets_iff : Meets step ok as s ↔
    ∀ before a after, as = before ++ a :: after → ok (before.foldl step s) a := by
  constructor
  · rintro h before a after rfl
    exact (Meets.append.mp h).2.1
  · intro h
    induction as generalizing s with
    | nil => exact trivial
    | cons a as ih =>
      refine ⟨h [] a as rfl, ih fun before b after hb => ?_⟩
      exact h (a :: before) b after (by rw [hb, List.cons_append])

theorem Meets.and (h : Meets step ok as s) (h' : Meets step ok' as s) :
    Meets step (fun s a => ok s a ∧ ok' s a) as s := by
  induction as generalizing s with
  | nil => exact trivial
  | cons a as ih => exact ⟨⟨h.1, h'.1⟩, ih h.2 h'.2⟩

/-- **The invariant rule.**  What holds before and is kept by every step that meets `ok` holds
after a run of such steps. -/
theorem Meets.invariant (hstep : ∀ s a, I s → ok s a → I (step s a)) (h : I s)
    (hm : Meets step ok as s) : I (as.foldl step s) := by
  induction as generalizing s with
  | nil => exact h
  | cons a as ih => exact ih (hstep s a h hm.1) hm.2

theorem foldl_iff_exists {Q : α → Prop} (hstep : ∀ s a, I (step s a) ↔ I s ∨ Q a) (as : List α)
    (s : σ) : I (as.foldl step s) ↔ I s ∨ ∃ a ∈ as, Q a := by
  induction as generalizing s with
  | nil => simp
  | cons a as ih =>
    rw [List.foldl_cons, ih, hstep, or_assoc]
    simp

theorem lockstep {R : σ → σ → Prop} {s' : σ}
    (hstep : ∀ s s' a, R s s' → R (step s a) (step s' a)) (h : R s s') (as : List α) :
    R (as.foldl step s) (as.foldl step s') := by
  induction as generalizing s s' with
  | nil => exact h
  | cons a as ih => exact ih (hstep s s' a h)

/-- **Actions left out.**  What relates a run to the run of its visible actions: a visible action is
a step of both, any other action a step of the first alone. -/
theorem Meets.stutter {visible : α → Bool} {R : σ → σ → Prop} {s' : σ}
    (hboth : ∀ s s' a, visible a = true → R s s' → ok s a → ok' s' a → R (step s a) (step s' a))
    (hone : ∀ s s' a, visible a = false → R s s' → ok s a → R (step s a) s') (h : R s s')
    (hm : Meets step ok as s) (hm' : Meets step ok' (as.filter visible) s') :
    R (as.foldl step s) ((as.filter visible).foldl step s') := by
  induction as generalizing s s' with
  | nil => exact h
  | cons a as ih =>
    cases hv : visible a with
    | true =>
      rw [List.filter_cons_of_pos hv] at hm' ⊢
      exact ih (hboth s s' a hv h hm.1 hm'.1) hm.2 hm'.2
    | false =>
      rw [List.filter_cons_of_neg (by rw [hv]; exact Bool.false_ne_true)] at hm' ⊢
      exact ih (hone s s' a hv h hm.1) hm.2 hm'

end Run
