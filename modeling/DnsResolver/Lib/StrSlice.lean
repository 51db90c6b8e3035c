import Mathlib.Data.List.Basic

/-!
# Byte offsets in a text

A text is a list of characters, and its slices are named by the offsets of their UTF-8 bytes.  An
offset inside of a character is no place to cut: there is no such slice.

* `splitAt?_eq_some`   the places to cut are the sizes of what stands before them;
* `slice_eq_some`      the slices of a text are what stands between two such places;
* `slice_append`       what stands before a slice does not matter.
-/

namespace StrSlice

def size : List Char → Nat
  | [] => 0
  | c :: s => c.utf8Size + size s

/-- the text before and after a byte offset -/
def splitAt? : Nat → List Char → Option (List Char × List Char)
  | 0, s => some ([], s)
  | _ + 1, [] => none
  | i + 1, c :: s =>
    if c.utf8Size ≤ i + 1 then
      (splitAt? (i + 1 - c.utf8Size) s).map fun p => (c :: p.1, p.2)
    else none

/-- the text from byte `i` up to byte `j` -/
def slice (s : List Char) (i j : Nat) : Option (List Char) :=
  (splitAt? i s).bind fun p => (splitAt? (j - i) p.2).map Prod.fst

theorem size_cons (c : Char) (s : List Char) : size (c :: s) = c.utf8Size + size s := rfl

theorem size_append (s t : List Char) : size (s ++ t) = size s + size t := by
  induction s with
  | nil => exact (Nat.zero_add (size t)).symm
  | cons c s ih => rw [List.cons_append, size_cons, size_cons, ih, Nat.add_assoc]

theorem size_eq_zero {s : List Char} : size s = 0 ↔ s = [] := by
  cases s with
  | nil => exact iff_of_true rfl rfl
  | cons c s =>
    have hpos := c.utf8Size_pos
    rw [size_cons]
    exact iff_of_false (by omega) (List.cons_ne_nil c s)

theorem splitAt?_zero (s : List Char) : splitAt? 0 s = some ([], s) := by
  cases s <;> rfl

theorem splitAt?_cons (c : Char) (i : Nat) (s : List Char) :
    splitAt? (c.utf8Size + i) (c :: s) = (splitAt? i s).map fun p => (c :: p.1, p.2) := by
  obtain ⟨k, hk⟩ := Nat.exists_eq_succ_of_ne_zero
    (show c.utf8Size + i ≠ 0 by have := c.utf8Size_pos; omega)
  rw [hk]
  show (if c.utf8Size ≤ k + 1 then _ else _) = _
  rw [if_pos (show c.utf8Size ≤ k + 1 by omega), show k + 1 - c.utf8Size = i by omega]

theorem splitAt?_append (s : List Char) (i : Nat) (t : List Char) :
    splitAt? (size s + i) (s ++ t) = (splitAt? i t).map fun p => (s ++ p.1, p.2) := by
  induction s with
  | nil =>
    show splitAt? (0 + i) t = (splitAt? i t).map id
    rw [Nat.zero_add, Option.map_id]
    rfl
  | cons c s ih =>
    rw [size_cons, Nat.add_assoc, List.cons_append, splitAt?_cons, ih, Option.map_map]
    rfl

/-- **The places to cut.** -/
theorem splitAt?_eq_some {i : Nat} {s a b : List Char} :
    splitAt? i s = some (a, b) ↔ s = a ++ b ∧ size a = i := by
  constructor
  · intro h
    induction s generalizing i a with
    | nil =>
      cases i with
      | zero =>
        obtain ⟨rfl, rfl⟩ := Prod.mk.inj (Option.some.inj h)
        exact ⟨rfl, rfl⟩
      | succ i => cases h
    | cons c s ih =>
      cases i with
      | zero =>
        obtain ⟨rfl, rfl⟩ := Prod.mk.inj (Option.some.inj h)
        exact ⟨rfl, rfl⟩
      | succ i =>
        unfold splitAt? at h
        by_cases hc : c.utf8Size ≤ i + 1
        · rw [if_pos hc] at h
          obtain ⟨⟨a', b'⟩, htail, hp⟩ := Option.map_eq_some_iff.mp h
          obtain ⟨rfl, rfl⟩ := Prod.mk.inj hp
          obtain ⟨rfl, hsize⟩ := ih htail
          refine ⟨rfl, ?_⟩
          rw [size_cons, hsize]
          omega
        · rw [if_neg hc] at h
          cases h
  · rintro ⟨rfl, rfl⟩
    have h := splitAt?_append a 0 b
    rw [Nat.add_zero, splitAt?_zero, Option.map_some, List.append_nil] at h
    exact h

/-- **The slices.** -/
theorem slice_eq_some {s m : List Char} {i j : Nat} :
    slice s i j = some m ↔ ∃ a b, s = a ++ (m ++ b) ∧ size a = i ∧ size m = j - i := by
  unfold slice
  rw [Option.bind_eq_some_iff]
  constructor
  · rintro ⟨⟨a, t⟩, hsplit, hmap⟩
    obtain ⟨⟨m', b⟩, hrest, rfl⟩ := Option.map_eq_some_iff.mp hmap
    obtain ⟨rfl, ha⟩ := splitAt?_eq_some.mp hsplit
    obtain ⟨rfl, hm⟩ := splitAt?_eq_some.mp hrest
    exact ⟨a, b, rfl, ha, hm⟩
  · rintro ⟨a, b, rfl, ha, hm⟩
    refine ⟨(a, m ++ b), splitAt?_eq_some.mpr ⟨rfl, ha⟩, ?_⟩
    show (splitAt? (j - i) (m ++ b)).map Prod.fst = some m
    rw [splitAt?_eq_some.mpr ⟨rfl, hm⟩]
    rfl

/-- **A slice behind a text** is a slice of the rest. -/
theorem slice_append (s t : List Char) (i j : Nat) :
    slice (s ++ t) (size s + i) (size s + j) = slice t i j := by
  unfold slice
  rw [splitAt?_append, Option.bind_map, show size s + j - (size s + i) = j - i by omega]
  rfl

end StrSlice
