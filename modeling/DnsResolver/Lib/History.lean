import Mathlib.Data.List.Infix
import Mathlib.Data.List.Induction

/-!
# Histories: the run at the end, and what has not happened since a moment

A history is a list with the newest entry last, and a moment of it is a prefix.

* `run a w`        how many `a` the history ends with;
* `Ended k a w`    it ends with `k` times `a` (`ended_iff`);
* `Broke`          it had `j` times `a` at some moment, and not `k` times `b` since
                   (`broke_concat`: one more entry; `broke_iff_last`: the last such moment).
-/

namespace History

section
variable {α : Type*} {a b x y : α} {w l m : List α} {j k : Nat}

theorem concat_suffix_concat : l ++ [x] <:+ m ++ [y] ↔ x = y ∧ l <:+ m := by
  rw [List.suffix_concat_iff]
  constructor
  · rintro (h | ⟨t, ht, hm⟩)
    · exact absurd h (by simp)
    · obtain ⟨rfl, hxy⟩ := List.append_inj' ht rfl
      exact ⟨List.singleton_inj.mp hxy, hm⟩
  · rintro ⟨rfl, hm⟩
    exact Or.inr ⟨l, rfl, hm⟩

/-! ## runs -/

/-- the history ends with `k` times `a` -/
def Ended (k : Nat) (a : α) (w : List α) : Prop := List.replicate k a <:+ w

theorem ended_zero (a : α) (w : List α) : Ended 0 a w := List.nil_suffix

theorem ended_nil : Ended k a [] ↔ k = 0 := by
  rw [Ended, List.suffix_nil, List.replicate_eq_nil_iff]

theorem ended_concat : Ended (k + 1) a (w ++ [x]) ↔ x = a ∧ Ended k a w := by
  rw [Ended, List.replicate_succ', concat_suffix_concat, eq_comm]
  rfl

theorem Ended.mono (h : Ended k a w) (hjk : j ≤ k) : Ended j a w := by
  refine List.IsSuffix.trans ?_ h
  rw [← Nat.sub_add_cancel hjk, List.replicate_add]
  exact List.suffix_append _ _

/-- a run that is longer than what came behind `w` reaches back into `w` -/
theorem Ended.reach (h : Ended k a (w ++ l)) (hl : l.length < k) : Ended 1 a w := by
  induction l using List.reverseRecOn generalizing k with
  | nil =>
    rw [List.append_nil] at h
    exact h.mono hl
  | append_singleton l x ih =>
    rw [List.length_append, List.length_singleton] at hl
    obtain ⟨i, rfl⟩ := Nat.exists_eq_add_of_lt hl
    rw [← List.append_assoc, ended_concat] at h
    exact ih h.2 (by omega)

/-- so, if `w` ends with something else, the run lies behind it -/
theorem Ended.behind (h : Ended k a (w ++ l)) (hb : Ended 1 b w) (hab : a ≠ b) : Ended k a l := by
  have hlen : k ≤ l.length := by
    by_contra hlt
    have hreach := h.reach (Nat.lt_of_not_le hlt)
    cases w using List.reverseRecOn with
    | nil => exact absurd (ended_nil.mp hb) (by omega)
    | append_singleton w y =>
      exact hab ((ended_concat.mp hreach).1.symm.trans (ended_concat.mp hb).1)
  exact List.suffix_of_suffix_length_le h (List.suffix_append w l)
    (by rw [List.length_replicate]; exact hlen)

theorem infix_concat : List.replicate k a <:+: w ++ [x] ↔
    Ended k a (w ++ [x]) ∨ List.replicate k a <:+: w :=
  List.infix_concat_iff

variable [DecidableEq α]

/-- how many `a` the history ends with -/
def run (a : α) (w : List α) : Nat := w.foldl (fun n x => if x = a then n + 1 else 0) 0

theorem run_concat (a x : α) (w : List α) :
    run a (w ++ [x]) = if x = a then run a w + 1 else 0 := by
  rw [run, List.foldl_append]
  rfl

theorem run_le_length (a : α) (w : List α) : run a w ≤ w.length := by
  induction w using List.reverseRecOn with
  | nil => exact Nat.le_refl 0
  | append_singleton w x ih =>
    rw [run_concat, List.length_append, List.length_singleton]
    split <;> omega

theorem ended_iff : Ended k a w ↔ k ≤ run a w := by
  induction w using List.reverseRecOn generalizing k with
  | nil =>
    rw [ended_nil]
    exact Nat.le_zero.symm
  | append_singleton w x ih =>
    cases k with
    | zero => exact ⟨fun _ => Nat.zero_le _, fun _ => ended_zero a _⟩
    | succ k =>
      rw [ended_concat, ih, run_concat]
      by_cases h : x = a
      · rw [if_pos h]
        exact ⟨fun hk => Nat.succ_le_succ hk.2, fun hk => ⟨h, Nat.le_of_succ_le_succ hk⟩⟩
      · rw [if_neg h]
        exact ⟨fun hk => absurd hk.1 h, fun hk => absurd hk (by omega)⟩

end

/-! ## since a moment -/

section
variable {α : Type*} {a b x : α} {w p q : List α} {j k : Nat}

/-- `w = p ++ q`, where `p` ends with `j` times `a` and `q` nowhere has `k` times `b` -/
structure Splits (j : Nat) (a : α) (k : Nat) (b : α) (w p q : List α) : Prop where
  eq : w = p ++ q
  ended : Ended j a p
  quiet : ¬ List.replicate k b <:+: q

/-- the history ended with `j` times `a` at some moment and had no `k` times `b` since then -/
def Broke (j : Nat) (a : α) (k : Nat) (b : α) (w : List α) : Prop :=
  ∃ p q, Splits j a k b w p q

theorem broke_of_ended (h : Ended j a w) (hk : 0 < k) : Broke j a k b w :=
  ⟨w, [], (List.append_nil w).symm, h, fun hq => by
    rw [List.infix_nil, List.replicate_eq_nil_iff] at hq
    omega⟩

/-- **One more entry.** -/
theorem broke_concat (hab : b ≠ a) (hj : 0 < j) (hk : 0 < k) :
    Broke j a k b (w ++ [x]) ↔
      Ended j a (w ++ [x]) ∨ Broke j a k b w ∧ ¬ Ended k b (w ++ [x]) := by
  constructor
  · rintro ⟨p, q, heq, hend, hquiet⟩
    cases q using List.reverseRecOn with
    | nil =>
      rw [List.append_nil] at heq
      rw [heq]
      exact Or.inl hend
    | append_singleton q y =>
      rw [← List.append_assoc] at heq
      obtain ⟨rfl, hxy⟩ := List.append_inj' heq rfl
      obtain rfl := List.singleton_inj.mp hxy
      rw [infix_concat, not_or] at hquiet
      refine Or.inr ⟨⟨p, q, rfl, hend, hquiet.2⟩, fun h => hquiet.1 ?_⟩
      rw [List.append_assoc] at h
      exact h.behind (hend.mono hj) hab
  · rintro (h | ⟨⟨p, q, rfl, hend, hquiet⟩, hno⟩)
    · exact broke_of_ended h hk
    · refine ⟨p, q ++ [x], List.append_assoc p q [x], hend, ?_⟩
      rw [infix_concat, not_or]
      refine ⟨fun h => hno ?_, hquiet⟩
      rw [List.append_assoc]
      exact List.IsSuffix.trans h (List.suffix_append p _)

/-- **The last moment will do.** -/
theorem broke_iff_last : Broke j a k b w ↔
    ∃ p q, Splits j a k b w p q ∧
      ∀ p' q', w = p' ++ q' → Ended j a p' → p'.length ≤ p.length := by
  constructor
  · rintro ⟨p, q, h⟩
    induction hn : q.length using Nat.strong_induction_on generalizing p q with
    | _ n ih =>
      by_cases hlast : ∀ p' q', w = p' ++ q' → Ended j a p' → p'.length ≤ p.length
      · exact ⟨p, q, h, hlast⟩
      · -- a later moment leaves less behind it
        push Not at hlast
        obtain ⟨p', q', hw, hend, hlt⟩ := hlast
        obtain ⟨r, rfl, hq⟩ | ⟨r, rfl, _⟩ := List.append_eq_append_iff.mp (h.eq.symm.trans hw)
        · rw [List.length_append] at hlt
          refine ih q'.length ?_ (p ++ r) q' ⟨hw, hend, fun hin => h.quiet ?_⟩ rfl
          · rw [← hn, hq, List.length_append]
            omega
          · rw [hq]
            exact List.IsInfix.trans hin (List.suffix_append r q').isInfix
        · rw [List.length_append] at hlt
          omega
  · rintro ⟨p, q, h, _⟩
    exact ⟨p, q, h⟩

end
end History
