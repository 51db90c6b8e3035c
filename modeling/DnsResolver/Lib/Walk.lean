import Mathlib.Data.List.Nodup
import Mathlib.Data.List.Infix

/-!
# Bounded walks

A walk follows a partial function: `step a` is the hop to take at `a`, if there is one, and
`dest` the place the hop leads to.  `explore` follows it for at most `k` hops and keeps the keys
of the places it has seen; a place is looked up before the hops are counted.

* `Path step dest a l b`   the hops `l` lead from `a` to `b`;
* `places`                 the keys on the way, the start included;
* `explore_ends`           how an exploration ends, with the path it took;
* `explore_complete_iff`, `explore_loop_iff`, `explore_tooLong_iff`   the three outcomes from
                           the start, in terms of paths.
-/

namespace Walk

inductive Outcome (σ : Type*) where
  | complete (hops : List σ)
  | loop
  | tooLong

section
variable {α σ κ : Type*} (step : α → Option σ) (dest : σ → α) (key : α → κ)

inductive Path : α → List σ → α → Prop
  | nil (a : α) : Path a [] a
  | cons {a b : α} {s : σ} {l : List σ} : step a = some s → Path (dest s) l b → Path a (s :: l) b

/-- the keys of the places on the way -/
def places (a : α) (l : List σ) : List κ := key a :: l.map fun s => key (dest s)

/-- at most `k` hops from `a`, after the hops `acc`, with the keys `seen` -/
def explore [DecidableEq κ] : Nat → List κ → List σ → α → Outcome σ
  | 0, seen, _, a => if key a ∈ seen then .loop else .tooLong
  | k + 1, seen, acc, a =>
    if key a ∈ seen then .loop
    else
      match step a with
      | some s => explore k (key a :: seen) (acc ++ [s]) (dest s)
      | none => .complete acc

/-- the end of an exploration and the path that led there -/
inductive Ends (k : Nat) (seen : List κ) (acc : List σ) (a : α) : Outcome σ → Prop
  | complete {l : List σ} {b : α} : Path step dest a l b → step b = none → l.length < k →
      (places dest key a l ++ seen).Nodup → Ends k seen acc a (.complete (acc ++ l))
  | loop {l : List σ} {b : α} : Path step dest a l b → l.length ≤ k →
      ¬ (places dest key a l ++ seen).Nodup → Ends k seen acc a .loop
  | tooLong {l : List σ} {b : α} : Path step dest a l b → l.length = k →
      (places dest key a l ++ seen).Nodup → Ends k seen acc a .tooLong

end

section
variable {α σ κ : Type*} {step : α → Option σ} {dest : σ → α} {key : α → κ} {a b b' : α}
  {l l' : List σ} {k : Nat}

theorem places_initial (h : l <+: l') : places dest key a l <+: places dest key a l' := by
  obtain ⟨r, rfl⟩ := h
  refine ⟨r.map fun s => key (dest s), ?_⟩
  simp only [places, List.map_append, List.cons_append]

theorem nodup_initial (h : l <+: l') (hn : (places dest key a l').Nodup) :
    (places dest key a l).Nodup := hn.sublist (places_initial h).sublist

theorem Path.initial (h : Path step dest a l b) (h' : Path step dest a l' b')
    (hl : l.length ≤ l'.length) : l <+: l' := by
  induction h generalizing l' with
  | nil a => exact List.nil_prefix
  | @cons a b s l hs _ ih =>
    cases h' with
    | nil => exact absurd hl (by simp)
    | cons hs' ht =>
      obtain rfl := Option.some.inj (hs.symm.trans hs')
      exact (List.prefix_cons_inj _).mpr (ih ht (by simpa using hl))

theorem Path.stops (h : Path step dest a l b) (hb : step b = none)
    (h' : Path step dest a l' b') : l' <+: l := by
  induction h generalizing l' with
  | nil a =>
    cases h' with
    | nil => exact List.nil_prefix
    | cons hs _ => exact absurd (hs.symm.trans hb) (by simp)
  | @cons a b s l hs _ ih =>
    cases h' with
    | nil => exact List.nil_prefix
    | cons hs' ht =>
      obtain rfl := Option.some.inj (hs.symm.trans hs')
      exact (List.prefix_cons_inj _).mpr (ih hb ht)

theorem Path.take (h : Path step dest a l b) (k : Nat) : ∃ c, Path step dest a (l.take k) c := by
  induction h generalizing k with
  | nil a => exact ⟨a, by rw [List.take_nil]; exact .nil a⟩
  | @cons a b s l hs _ ih =>
    cases k with
    | zero => exact ⟨a, .nil a⟩
    | succ k =>
      obtain ⟨c, hc⟩ := ih k
      exact ⟨c, .cons hs hc⟩

theorem Path.step_mem (h : Path step dest a l b) : ∀ s ∈ l, ∃ c, step c = some s := by
  induction h with
  | nil a => exact fun s hs => absurd hs List.not_mem_nil
  | @cons a b s l hs _ ih =>
    intro s' hs'
    rcases List.mem_cons.mp hs' with rfl | hs'
    · exact ⟨a, hs⟩
    · exact ih s' hs'

variable [DecidableEq κ]

/-- **How an exploration ends.** -/
theorem explore_ends {seen : List κ} (hseen : seen.Nodup) (acc : List σ) (a : α) :
    Ends step dest key k seen acc a (explore step dest key k seen acc a) := by
  induction k generalizing seen acc a with
  | zero =>
    simp only [explore]
    split
    · rename_i hin
      exact .loop (.nil a) le_rfl fun hn => (List.nodup_cons.mp hn).1 hin
    · rename_i hin
      exact .tooLong (.nil a) rfl (List.nodup_cons.mpr ⟨hin, hseen⟩)
  | succ k ih =>
    simp only [explore]
    split
    · rename_i hin
      exact .loop (.nil a) (by simp) fun hn => (List.nodup_cons.mp hn).1 hin
    · rename_i hin
      cases hs : step a with
      | none =>
        have hend : Ends step dest key (k + 1) seen acc a (.complete (acc ++ [])) :=
          .complete (.nil a) hs (by simp) (List.nodup_cons.mpr ⟨hin, hseen⟩)
        rwa [List.append_nil] at hend
      | some s =>
        -- the key of `a` moves from the places of the path to those seen before
        have hmove : ∀ l : List σ, (places dest key (dest s) l ++ key a :: seen).Nodup ↔
            (places dest key a (s :: l) ++ seen).Nodup := fun l => List.perm_middle.nodup_iff
        have hend := ih (List.nodup_cons.mpr ⟨hin, hseen⟩) (acc ++ [s]) (dest s)
        simp only
        generalize explore step dest key k (key a :: seen) (acc ++ [s]) (dest s) = o at hend
        cases hend with
        | complete hp hb hl hn =>
          rw [List.append_assoc, List.singleton_append]
          exact .complete (.cons hs hp) hb (by simpa using hl) ((hmove _).mp hn)
        | loop hp hl hn =>
          exact .loop (.cons hs hp) (by simpa using hl) fun h => hn ((hmove _).mpr h)
        | tooLong hp hl hn =>
          exact .tooLong (.cons hs hp) (by simp [hl]) ((hmove _).mp hn)

/-- `explore_ends` from the start -/
theorem explore_start : Ends step dest key k [] [] a (explore step dest key k [] [] a) :=
  explore_ends List.nodup_nil [] a

theorem explore_complete_iff {c : List σ} : explore step dest key k [] [] a = .complete c ↔
    ∃ b, Path step dest a c b ∧ step b = none ∧ c.length < k ∧ (places dest key a c).Nodup := by
  have hend : Ends step dest key k [] [] a (explore step dest key k [] [] a) := explore_start
  generalize explore step dest key k [] [] a = o at hend ⊢
  constructor
  · rintro rfl
    cases hend with
    | complete hp hb hl hn => exact ⟨_, hp, hb, hl, by simpa using hn⟩
  · rintro ⟨b, hp, hb, hl, hn⟩
    cases hend with
    | complete hp' hb' _ _ =>
      rw [(hp.stops hb hp').eq_of_length_le (hp'.stops hb' hp).length_le, List.nil_append]
    | loop hp' _ hn' =>
      exact absurd (nodup_initial (hp.stops hb hp') hn) (by simpa using hn')
    | tooLong hp' hl' _ =>
      have := (hp.stops hb hp').length_le
      omega

theorem explore_loop_iff : explore step dest key k [] [] a = .loop ↔
    ∃ c b, Path step dest a c b ∧ c.length ≤ k ∧ ¬ (places dest key a c).Nodup := by
  have hend : Ends step dest key k [] [] a (explore step dest key k [] [] a) := explore_start
  generalize explore step dest key k [] [] a = o at hend ⊢
  constructor
  · rintro rfl
    cases hend with
    | loop hp hl hn => exact ⟨_, _, hp, hl, by simpa using hn⟩
  · rintro ⟨c, b, hp, hl, hn⟩
    cases hend with
    | complete hp' hb' _ hn' =>
      exact absurd (nodup_initial (hp'.stops hb' hp) (by simpa using hn')) hn
    | loop _ _ _ => rfl
    | tooLong hp' hl' hn' =>
      exact absurd (nodup_initial (hp.initial hp' (by omega)) (by simpa using hn')) hn

theorem explore_tooLong_iff : explore step dest key k [] [] a = .tooLong ↔
    ∃ c b, Path step dest a c b ∧ c.length = k ∧ (places dest key a c).Nodup := by
  have hend : Ends step dest key k [] [] a (explore step dest key k [] [] a) := explore_start
  generalize explore step dest key k [] [] a = o at hend ⊢
  constructor
  · rintro rfl
    cases hend with
    | tooLong hp hl hn => exact ⟨_, _, hp, hl, by simpa using hn⟩
  · rintro ⟨c, b, hp, hl, hn⟩
    cases hend with
    | complete hp' hb' hl' _ =>
      have := (hp'.stops hb' hp).length_le
      omega
    | loop hp' hl' hn' =>
      exact absurd (nodup_initial (hp'.initial hp (by omega)) hn) (by simpa using hn')
    | tooLong _ _ _ => rfl

end
end Walk
