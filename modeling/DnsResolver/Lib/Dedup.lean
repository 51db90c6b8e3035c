import Mathlib.Data.List.Basic

/-!
# Lists up to an equivalence

`List.eraseDupsBy r` keeps the first of every class of a list, in order.  Here `r` is a decidable
equivalence.

* `eraseDupsBy_filter`   the first occurrences of a union of classes;
* `eraseDupsBy_append`   the first occurrences of a concatenation;
* `addNew r new acc`     the elements of `new` appended to `acc` one by one, each only if its class
                         is not there yet: `eraseDupsBy_addNew` says that it does not matter for
                         the first occurrences.
-/

namespace Dedup

section
variable {α : Type*} {r : α → α → Bool}

theorem eraseDupsBy_filter {p : α → Bool} (hp : ∀ x y, r x y = true → p x = p y) (l : List α) :
    (l.filter p).eraseDupsBy r = (l.eraseDupsBy r).filter p := by
  induction hn : l.length using Nat.strongRecOn generalizing l with
  | ind n ih =>
    cases l with
    | nil => rfl
    | cons a as =>
      have hrec := ih (as.filter fun b => r b a = false).length (by
        have := List.length_filter_le (fun b => r b a = false) as
        rw [List.length_cons] at hn
        omega) _ rfl
      rw [List.eraseDupsBy_cons]
      by_cases ha : p a = true
      · rw [List.filter_cons_of_pos ha, List.filter_cons_of_pos ha, List.eraseDupsBy_cons, ← hrec,
          List.filter_filter, List.filter_filter]
        simp only [Bool.and_comm]
      · rw [List.filter_cons_of_neg ha, List.filter_cons_of_neg ha, ← hrec, List.filter_filter]
        -- what passes is of another class than `a` anyway
        congr 1
        refine List.filter_congr fun b _ => ?_
        cases hb : r b a with
        | false => simp
        | true =>
          rw [Bool.not_eq_true] at ha
          simp [hp b a hb, ha]

variable (hr : Equivalence fun a b => r a b = true)
include hr

theorem eraseDupsBy_append (l l' : List α) :
    (l ++ l').eraseDupsBy r =
      l.eraseDupsBy r ++ (l'.filter fun x => !l.any (r x)).eraseDupsBy r := by
  induction hn : l.length using Nat.strongRecOn generalizing l l' with
  | ind n ih =>
    cases l with
    | nil => simp
    | cons a as =>
      have hrec := ih (as.filter fun b => r b a = false).length (by
        have := List.length_filter_le (fun b => r b a = false) as
        rw [List.length_cons] at hn
        omega) (as.filter fun b => r b a = false) (l'.filter fun b => r b a = false) rfl
      rw [List.cons_append, List.eraseDupsBy_cons, List.eraseDupsBy_cons, List.filter_append, hrec,
        List.cons_append, List.filter_filter]
      congr 3
      refine List.filter_congr fun x _ => ?_
      rw [List.any_cons]
      cases hx : r x a with
      | true => simp
      | false =>
        have hany : (as.filter fun b => r b a = false).any (r x) = as.any (r x) := by
          rw [List.any_filter]
          congr 1
          funext b
          cases hb : r b a with
          | false => simp
          | true =>
            cases hxb : r x b with
            | false => simp
            | true =>
              have := hr.trans hxb hb
              rw [hx] at this
              exact absurd this (by simp)
        rw [hany]
        simp

theorem eraseDupsBy_append_congr (l : List α) {l₁ l₂ : List α}
    (h : l₁.eraseDupsBy r = l₂.eraseDupsBy r) :
    (l ++ l₁).eraseDupsBy r = (l ++ l₂).eraseDupsBy r := by
  have hp : ∀ x y, r x y = true → (!l.any (r x)) = !l.any (r y) := by
    intro x y hxy
    have hclass : r x = r y := by
      funext z
      rw [Bool.eq_iff_iff]
      exact ⟨fun h => hr.trans (hr.symm hxy) h, fun h => hr.trans hxy h⟩
    rw [hclass]
  rw [eraseDupsBy_append hr, eraseDupsBy_append hr, eraseDupsBy_filter hp, eraseDupsBy_filter hp, h]

omit hr

/-! ## additions -/

/-- the elements of `new` whose class is not there yet, added one by one -/
def addNew (r : α → α → Bool) (new acc : List α) : List α :=
  new.foldl (fun acc x => if acc.any fun e => r e x then acc else acc ++ [x]) acc

theorem addNew_cons (x : α) (new acc : List α) :
    addNew r (x :: new) acc =
      addNew r new (if acc.any fun e => r e x then acc else acc ++ [x]) := rfl

theorem subset_addNew (new acc : List α) : acc ⊆ addNew r new acc := by
  induction new generalizing acc with
  | nil => exact List.Subset.refl _
  | cons x new ih =>
    rw [addNew_cons]
    split
    · exact ih acc
    · exact List.Subset.trans (List.subset_append_left acc [x]) (ih (acc ++ [x]))

theorem mem_addNew {new acc : List α} {e : α} (h : e ∈ addNew r new acc) : e ∈ acc ∨ e ∈ new := by
  induction new generalizing acc with
  | nil => exact Or.inl h
  | cons x new ih =>
    rw [addNew_cons] at h
    rcases ih h with he | he
    · split at he
      · exact Or.inl he
      · rcases List.mem_append.mp he with he | he
        · exact Or.inl he
        · exact Or.inr (List.mem_cons.mpr (Or.inl (List.mem_singleton.mp he)))
    · exact Or.inr (List.mem_cons_of_mem x he)

include hr

theorem addNew_covers {new acc : List α} {x : α} (h : x ∈ new) :
    ∃ e ∈ addNew r new acc, r e x = true := by
  induction new generalizing acc with
  | nil => exact absurd h (by simp)
  | cons y new ih =>
    rw [addNew_cons]
    rcases List.mem_cons.mp h with rfl | h
    · split
      · rename_i hany
        obtain ⟨e, he, hex⟩ := List.any_eq_true.mp hany
        exact ⟨e, subset_addNew new acc he, hex⟩
      · exact ⟨x, subset_addNew new _ (List.mem_append_right acc (List.mem_singleton.mpr rfl)),
          hr.refl x⟩
    · exact ih h

theorem eraseDupsBy_addNew (new acc : List α) :
    (addNew r new acc).eraseDupsBy r = (acc ++ new).eraseDupsBy r := by
  induction new generalizing acc with
  | nil => rw [List.append_nil]; rfl
  | cons x new ih =>
    rw [addNew_cons, ih]
    split
    · rename_i hany
      have hx : (acc.any (r x)) = true := by
        obtain ⟨e, he, hex⟩ := List.any_eq_true.mp hany
        exact List.any_eq_true.mpr ⟨e, he, hr.symm hex⟩
      rw [eraseDupsBy_append hr, eraseDupsBy_append hr, List.filter_cons_of_neg (by simp [hx])]
    · rw [List.append_assoc, List.singleton_append]

end
end Dedup
