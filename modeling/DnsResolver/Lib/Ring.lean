import Mathlib.Order.Defs.LinearOrder
import Mathlib.Data.List.Rotate
import Mathlib.Data.List.Lex
import Mathlib.Data.List.Pairwise
import Mathlib.Tactic.Order

/-!
# Rings of a linear order: the links of a sorted cyclic list and the gaps between them

A strictly increasing list `l` closed up to a ring has one LINK `(o, n)` per member: `n` is the
successor of `o`, and the last member points back to the first (`links`).  `Inside o n t` is the
open gap of a link, read cyclically: between `o` and `n` if `o < n`, otherwise above `o` or
below `n`.

* `not_mem_of_inside`   a point in the gap of a link is no member of the ring;
* `key_ne_of_inside`    the same for a ring whose members are ordered by a key;
* `HalfOpen`            the gap together with its left end;
* `halfOpen_iff`        what the half-open test adds to the open one;
* `link_ne_iff`         a link has two ends exactly if the ring has two members;
* `countP_links`        the links partition the order: every point is met once, as the left end of
                        a link or in its gap.
-/

namespace Ring

/-- the bytes of a machine word in their usual order -/
instance linearOrderUInt8 : LinearOrder UInt8 where
  le_refl := fun a => UInt8.le_refl a
  le_trans := fun _ _ _ => UInt8.le_trans
  le_antisymm := fun _ _ => UInt8.le_antisymm
  le_total := UInt8.le_total
  lt_iff_le_not_ge := fun a b => by
    rw [UInt8.not_le]
    exact ⟨fun h => ⟨UInt8.le_of_lt h, h⟩, fun h => h.2⟩
  toDecidableLE := inferInstance
  toDecidableEq := inferInstance
  toDecidableLT := inferInstance

section
variable {α : Type*}

/-- member and cyclic successor, for every member of the ring -/
def links (l : List α) : List (α × α) := l.zip (l.rotate 1)

/-- a link joins position `i` to position `i + 1`, cyclically -/
theorem mem_links {l : List α} {o n : α} (h : (o, n) ∈ links l) :
    ∃ i < l.length, l[i]? = some o ∧ l[(i + 1) % l.length]? = some n := by
  obtain ⟨i, hi, he⟩ := List.mem_iff_getElem.mp h
  have hlen : i < l.length := by
    simpa [links] using hi
  have hmod : (i + 1) % l.length < l.length := Nat.mod_lt _ (by omega)
  refine ⟨i, hlen, ?_, ?_⟩
  · have h1 := congrArg Prod.fst he
    rw [List.getElem?_eq_getElem hlen]
    simpa [links, List.getElem_zip] using h1
  · have h2 := congrArg Prod.snd he
    rw [List.getElem?_eq_getElem hmod]
    simpa [links, List.getElem_zip, List.getElem_rotate] using h2

theorem links_map {β : Type*} (f : α → β) (l : List α) :
    links (l.map f) = (links l).map (Prod.map f f) := by
  simp only [links, ← List.map_rotate, List.zip_map]

theorem map_fst_links (l : List α) : (links l).map Prod.fst = l :=
  List.map_fst_zip (by rw [List.length_rotate])

theorem exists_link {l : List α} {a : α} (h : a ∈ l) : ∃ n, (a, n) ∈ links l := by
  rw [← map_fst_links l] at h
  obtain ⟨k, hk, rfl⟩ := List.mem_map.mp h
  exact ⟨k.2, hk⟩

theorem fst_mem_of_links {l : List α} {o n : α} (h : (o, n) ∈ links l) : o ∈ l :=
  (List.of_mem_zip h).1

end

section
variable {α : Type*} [LinearOrder α]

/-- `t` lies in the open gap of the link `(o, n)` -/
def Inside (o n t : α) : Prop := if o < n then o < t ∧ t < n else o < t ∨ t < n

instance (o n t : α) : Decidable (Inside o n t) := by
  unfold Inside; infer_instance

/-- `t` lies in the gap of the link `(o, n)` or is its left end, tested as
`o ≤ t < n` with the wrapped form whenever `n < o` -/
def HalfOpen (o n t : α) : Prop := if o ≤ n then o ≤ t ∧ t < n else o ≤ t ∨ t < n

instance (o n t : α) : Decidable (HalfOpen o n t) := by
  unfold HalfOpen; infer_instance

/-- the half-open test is the open one plus the left end, and it is empty on a one-point ring -/
theorem halfOpen_iff {o n t : α} : HalfOpen o n t ↔ o ≠ n ∧ (t = o ∨ Inside o n t) := by
  unfold HalfOpen Inside
  rcases lt_trichotomy o n with h | h | h
  · rw [if_pos h.le, if_pos h]
    constructor
    · rintro ⟨h1, h2⟩
      rcases h1.eq_or_lt with e | e
      · exact ⟨h.ne, Or.inl e.symm⟩
      · exact ⟨h.ne, Or.inr ⟨e, h2⟩⟩
    · rintro ⟨_, rfl | ⟨h1, h2⟩⟩
      · exact ⟨le_rfl, h⟩
      · exact ⟨h1.le, h2⟩
  · subst h
    rw [if_pos le_rfl]
    constructor
    · rintro ⟨h1, h2⟩
      exact absurd h2 (not_lt.mpr h1)
    · rintro ⟨h1, _⟩
      exact absurd rfl h1
  · rw [if_neg (not_le.mpr h), if_neg (not_lt.mpr h.le)]
    constructor
    · rintro (h1 | h1)
      · rcases h1.eq_or_lt with e | e
        · exact ⟨h.ne', Or.inl e.symm⟩
        · exact ⟨h.ne', Or.inr (Or.inl e)⟩
      · exact ⟨h.ne', Or.inr (Or.inr h1)⟩
    · rintro ⟨_, rfl | h1 | h1⟩
      · exact Or.inl le_rfl
      · exact Or.inl h1.le
      · exact Or.inr h1

theorem Inside.before {o n t u : α} (h : Inside o n t) (hou : o < u) (hut : u < t) :
    Inside o n u := by
  unfold Inside at h ⊢
  split at h
  · rename_i hon
    rw [if_pos hon]
    exact ⟨hou, hut.trans h.2⟩
  · rename_i hon
    rw [if_neg hon]
    exact Or.inl hou

theorem index_lt {l : List α} (hs : l.Pairwise (· < ·)) {i j : Nat} {a b : α}
    (hi : l[i]? = some a) (hj : l[j]? = some b) (h : a < b) : i < j := by
  obtain ⟨hi', rfl⟩ := List.getElem?_eq_some_iff.mp hi
  obtain ⟨hj', rfl⟩ := List.getElem?_eq_some_iff.mp hj
  by_contra hba
  rcases Nat.eq_or_lt_of_le (Nat.le_of_not_lt hba) with e | e
  · subst e
    exact absurd h (lt_irrefl _)
  · exact absurd h (not_lt.mpr (List.pairwise_iff_getElem.mp hs j i hj' hi' e).le)

/-- **A point in the gap of a link is no member of the ring.** -/
theorem not_mem_of_inside {l : List α} (hs : l.Pairwise (· < ·)) {o n t : α}
    (hl : (o, n) ∈ links l) (ht : Inside o n t) : t ∉ l := by
  intro hmem
  obtain ⟨i, hi, ho, hn⟩ := mem_links hl
  obtain ⟨j, hj⟩ := List.mem_iff_getElem?.mp hmem
  have hjl : j < l.length := (List.getElem?_eq_some_iff.mp hj).1
  unfold Inside at ht
  by_cases hlast : i + 1 < l.length
  · -- an inner link: the gap lies between neighbours
    have hmod : (i + 1) % l.length = i + 1 := Nat.mod_eq_of_lt hlast
    rw [hmod] at hn
    have hlt : o < n := by
      obtain ⟨_, rfl⟩ := List.getElem?_eq_some_iff.mp ho
      obtain ⟨_, rfl⟩ := List.getElem?_eq_some_iff.mp hn
      exact List.pairwise_iff_getElem.mp hs i (i + 1) hi hlast (Nat.lt_succ_self i)
    rw [if_pos hlt] at ht
    have h1 := index_lt hs ho hj ht.1
    have h2 := index_lt hs hj hn ht.2
    omega
  · -- the closing link: nothing above the last member or below the first
    have hmod : (i + 1) % l.length = 0 := by
      rw [show i + 1 = l.length by omega, Nat.mod_self]
    rw [hmod] at hn
    have h1 : ¬ o < t := fun h => by
      have := index_lt hs ho hj h
      omega
    have h2 : ¬ t < n := fun h => by
      have := index_lt hs hj hn h
      omega
    split at ht
    · exact h1 ht.1
    · rcases ht with h | h
      · exact h1 h
      · exact h2 h

/-- the ends of a link are two members, unless the ring has a single one -/
theorem link_ne_iff {l : List α} (hs : l.Pairwise (· < ·)) {o n : α} (hl : (o, n) ∈ links l) :
    o ≠ n ↔ 2 ≤ l.length := by
  obtain ⟨i, hi, ho, hn⟩ := mem_links hl
  obtain ⟨_, rfl⟩ := List.getElem?_eq_some_iff.mp ho
  obtain ⟨_, rfl⟩ := List.getElem?_eq_some_iff.mp hn
  have hd : l.Nodup := hs.imp fun h => ne_of_lt h
  rw [Ne, hd.getElem_inj_iff]
  by_cases hlast : i + 1 < l.length
  · rw [Nat.mod_eq_of_lt hlast]
    omega
  · rw [show i + 1 = l.length by omega, Nat.mod_self]
    omega

/-! ### the partition -/

/-- `t` is the left end of the link `(o, n)` or lies in its gap -/
def Meets (o n t : α) : Prop := t = o ∨ Inside o n t

instance (o n t : α) : Decidable (Meets o n t) := by
  unfold Meets; infer_instance

theorem not_inside_left (o n : α) : ¬ Inside o n o := by
  unfold Inside
  split
  · exact fun h => lt_irrefl o h.1
  · rename_i hon
    rintro (h | h)
    · exact lt_irrefl o h
    · exact hon h

theorem meets_of_lt {o n t : α} (h : o < n) : Meets o n t ↔ o ≤ t ∧ t < n := by
  unfold Meets Inside
  rw [if_pos h]
  constructor
  · rintro (rfl | ⟨h1, h2⟩)
    · exact ⟨le_rfl, h⟩
    · exact ⟨h1.le, h2⟩
  · rintro ⟨h1, h2⟩
    rcases h1.eq_or_lt with e | e
    · exact Or.inl e.symm
    · exact Or.inr ⟨e, h2⟩

theorem meets_of_ge {o n t : α} (h : n ≤ o) : Meets o n t ↔ o ≤ t ∨ t < n := by
  unfold Meets Inside
  rw [if_neg (not_lt.mpr h)]
  constructor
  · rintro (rfl | h1 | h1)
    · exact Or.inl le_rfl
    · exact Or.inl h1.le
    · exact Or.inr h1
  · rintro (h1 | h1)
    · rcases h1.eq_or_lt with e | e
      · exact Or.inl e.symm
      · exact Or.inr (Or.inl e)
    · exact Or.inr (Or.inr h1)

/-- the steps up a sorted list and the one back from its end to `b` meet what is not between `b`
and the first member, and meet it once -/
theorem countP_path {a b : α} {l : List α} (hs : (a :: l).Pairwise (· < ·)) (hb : b ≤ a) (t : α) :
    ((a :: l).zip (l ++ [b])).countP (fun k => decide (Meets k.1 k.2 t)) =
      if a ≤ t ∨ t < b then 1 else 0 := by
  induction l generalizing a with
  | nil =>
    show [(a, b)].countP _ = _
    rw [List.countP_singleton]
    simp only [decide_eq_true_eq, meets_of_ge hb]
  | cons c l ih =>
    have hac : a < c := (List.pairwise_cons.mp hs).1 c List.mem_cons_self
    show ((a, c) :: (c :: l).zip (l ++ [b])).countP _ = _
    rw [List.countP_cons, ih (List.pairwise_cons.mp hs).2 (hb.trans hac.le)]
    simp only [decide_eq_true_eq, meets_of_lt hac]
    by_cases hct : c ≤ t
    · -- from `c` on: the first step does not reach `t`
      rw [if_pos (Or.inl hct), if_neg (fun h => not_lt.mpr hct h.2),
        if_pos (Or.inl (hac.le.trans hct))]
    by_cases htb : t < b
    · rw [if_pos (Or.inr htb), if_neg (fun h => not_le.mpr htb (hb.trans h.1)),
        if_pos (Or.inr htb)]
    · rw [if_neg (not_or.mpr ⟨hct, htb⟩), Nat.zero_add]
      by_cases hat : a ≤ t
      · rw [if_pos ⟨hat, not_le.mp hct⟩, if_pos (Or.inl hat)]
      · rw [if_neg (fun h => hat h.1), if_neg (not_or.mpr ⟨hat, htb⟩)]

/-- **The links of a ring partition the order**: exactly one meets a given point. -/
theorem countP_links {l : List α} (hs : l.Pairwise (· < ·)) (hne : l ≠ []) (t : α) :
    (links l).countP (fun k => decide (Meets k.1 k.2 t)) = 1 := by
  cases l with
  | nil => exact absurd rfl hne
  | cons a l =>
    have hlinks : links (a :: l) = (a :: l).zip (l ++ [a]) := by
      rw [links, List.rotate_cons_succ, List.rotate_zero]
    rw [hlinks, countP_path hs le_rfl, if_pos (le_or_gt a t)]

end

section
variable {α β : Type*} [LinearOrder α] {f : β → α} {l : List β}

theorem countP_links_key (hs : l.Pairwise fun a b => f a < f b) (hne : l ≠ []) (t : α) :
    (links l).countP (fun k => decide (Meets (f k.1) (f k.2) t)) = 1 := by
  have h := countP_links (List.pairwise_map.mpr hs) (fun h => hne (List.map_eq_nil_iff.mp h)) t
  rw [links_map, List.countP_map] at h
  exact h

theorem eq_of_key (hs : l.Pairwise fun a b => f a < f b) {a b : β} (ha : a ∈ l) (hb : b ∈ l)
    (h : f a = f b) : a = b := by
  by_contra hne
  have hd : l.Pairwise fun a b => f a ≠ f b := hs.imp fun h => ne_of_lt h
  have hsymm : Std.Symm fun a b : β => f a ≠ f b := ⟨fun _ _ h => h.symm⟩
  exact hd.forall ha hb hne h

theorem link_key_ne_iff (hs : l.Pairwise fun a b => f a < f b) {o n : β}
    (hl : (o, n) ∈ links l) : f o ≠ f n ↔ 2 ≤ l.length := by
  have hlink : (f o, f n) ∈ links (l.map f) := by
    rw [links_map]
    exact List.mem_map.mpr ⟨(o, n), hl, rfl⟩
  rw [link_ne_iff (List.pairwise_map.mpr hs) hlink, List.length_map]

/-- **A key in the gap of a link is no key of the ring.** -/
theorem key_ne_of_inside (hs : l.Pairwise fun a b => f a < f b) {o n : β} {t : α}
    (hl : (o, n) ∈ links l) (ht : Inside (f o) (f n) t) : ∀ a ∈ l, f a ≠ t := by
  intro a ha he
  have hlink : (f o, f n) ∈ links (l.map f) := by
    rw [links_map]
    exact List.mem_map.mpr ⟨(o, n), hl, rfl⟩
  exact not_mem_of_inside (List.pairwise_map.mpr hs) hlink ht (List.mem_map.mpr ⟨a, ha, he⟩)

end
end Ring
