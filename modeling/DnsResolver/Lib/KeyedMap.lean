import Mathlib.Data.List.Basic

/-!
# Maps whose keys are compared up to a key function

A hash map over `ν` whose equality is equality of `key`: the list of its entries in the order of
iteration, no two of them under one key.

* `KeyedMap.entryOr n v f`   `entry(n).or_insert(v)`, changed by `f`;
* `KeyedMap.modify k f`      `get_mut`, changed by `f`;
* `get_entryOr`, `get_modify`, `get_retain`   a look-up after each of them;
* `get_foldl_modify`         one `modify` for every entry of another map: every key is changed at
                             most once, so that the order of iteration plays no part.
-/

structure KeyedMap {ν κ : Type*} (key : ν → κ) (β : Type*) where
  entries : List (ν × β)
  distinct : entries.Pairwise fun a b => key a.1 ≠ key b.1

namespace KeyedMap

variable {ν κ β γ : Type*}

/-! ## lists of entries -/

section
variable [DecidableEq κ] (key : ν → κ)

def find (k : κ) : List (ν × β) → Option β
  | [] => none
  | e :: m => if key e.1 = k then some e.2 else find k m

/-- the value under the key of `n` changed by `f`, a new one starting at `v` -/
def put (n : ν) (v : β) (f : β → β) : List (ν × β) → List (ν × β)
  | [] => [(n, f v)]
  | e :: m => if key e.1 = key n then (e.1, f e.2) :: m else e :: put n v f m

/-- the value under `k`, if there is one, changed by `f` -/
def change (k : κ) (f : β → β) : List (ν × β) → List (ν × β)
  | [] => []
  | e :: m => if key e.1 = k then (e.1, f e.2) :: m else e :: change k f m

variable {key} {k : κ} {n : ν} {v : β} {f : β → β} {m : List (ν × β)}

theorem find_cons_self {e : ν × β} (h : key e.1 = k) : find key k (e :: m) = some e.2 := by
  rw [find, if_pos h]

theorem find_cons_of_ne {e : ν × β} (h : key e.1 ≠ k) : find key k (e :: m) = find key k m := by
  rw [find, if_neg h]

theorem mem_of_find (h : find key k m = some v) : ∃ e ∈ m, key e.1 = k ∧ e.2 = v := by
  induction m with
  | nil => exact absurd h (by rintro ⟨⟩)
  | cons e m ih =>
    by_cases hk : key e.1 = k
    · rw [find_cons_self hk] at h
      exact ⟨e, List.mem_cons_self, hk, Option.some.inj h⟩
    · rw [find_cons_of_ne hk] at h
      obtain ⟨e', he', h'⟩ := ih h
      exact ⟨e', List.mem_cons_of_mem e he', h'⟩

theorem find_of_mem (hd : m.Pairwise fun a b => key a.1 ≠ key b.1) {e : ν × β} (he : e ∈ m) :
    find key (key e.1) m = some e.2 := by
  induction m with
  | nil => exact absurd he List.not_mem_nil
  | cons a m ih =>
    obtain ⟨ha, hm⟩ := List.pairwise_cons.mp hd
    rcases List.mem_cons.mp he with rfl | he
    · exact find_cons_self rfl
    · rw [find_cons_of_ne (ha e he)]
      exact ih hm he

theorem find_put (k : κ) (n : ν) (v : β) (f : β → β) (m : List (ν × β)) :
    find key k (put key n v f m) =
      if key n = k then some (f ((find key k m).getD v)) else find key k m := by
  induction m with
  | nil => rfl
  | cons e m ih =>
    rw [put]
    by_cases hen : key e.1 = key n
    · rw [if_pos hen]
      by_cases hk : key n = k
      · rw [if_pos hk, find_cons_self (e := e) (hen.trans hk)]
        exact find_cons_self (hen.trans hk)
      · have hek : key e.1 ≠ k := fun h => hk (hen.symm.trans h)
        rw [if_neg hk, find_cons_of_ne (e := e) hek]
        exact find_cons_of_ne hek
    · rw [if_neg hen]
      by_cases hek : key e.1 = k
      · have hk : key n ≠ k := fun h => hen (hek.trans h.symm)
        rw [if_neg hk, find_cons_self hek, find_cons_self hek]
      · rw [find_cons_of_ne hek, find_cons_of_ne hek, ih]

theorem find_change (k k' : κ) (f : β → β) (m : List (ν × β)) :
    find key k (change key k' f m) =
      if k' = k then (find key k m).map f else find key k m := by
  induction m with
  | nil => rw [change]; exact (ite_self none).symm
  | cons e m ih =>
    rw [change]
    by_cases hek' : key e.1 = k'
    · rw [if_pos hek']
      by_cases hk : k' = k
      · rw [if_pos hk, find_cons_self (e := e) (hek'.trans hk)]
        exact find_cons_self (hek'.trans hk)
      · have hek : key e.1 ≠ k := fun h => hk (hek'.symm.trans h)
        rw [if_neg hk, find_cons_of_ne (e := e) hek]
        exact find_cons_of_ne hek
    · rw [if_neg hek']
      by_cases hek : key e.1 = k
      · have hk : k' ≠ k := fun h => hek' (hek.trans h.symm)
        rw [if_neg hk, find_cons_self hek, find_cons_self hek]
      · rw [find_cons_of_ne hek, find_cons_of_ne hek, ih]

theorem find_filter (hd : m.Pairwise fun a b => key a.1 ≠ key b.1) (p : β → Bool) (k : κ) :
    find key k (m.filter fun e => p e.2) = (find key k m).filter p := by
  induction m with
  | nil => rfl
  | cons e m ih =>
    obtain ⟨hhead, htail⟩ := List.pairwise_cons.mp hd
    rw [List.filter_cons]
    by_cases hek : key e.1 = k
    · rw [find_cons_self hek, Option.filter_some]
      by_cases hp : p e.2 = true
      · rw [if_pos hp, if_pos hp, find_cons_self hek]
      · rw [if_neg hp, if_neg hp, ih htail]
        -- the key of an entry that is dropped is nowhere else
        cases hm : find key k m with
        | none => rfl
        | some v =>
          obtain ⟨e', he', hk', -⟩ := mem_of_find hm
          exact absurd (hek.trans hk'.symm) (hhead e' he')
    · rw [find_cons_of_ne hek, ← ih htail]
      split
      · exact find_cons_of_ne hek
      · rfl

theorem fst_of_mem_put {a : ν × β} (h : a ∈ put key n v f m) : (∃ e ∈ m, e.1 = a.1) ∨ a.1 = n := by
  induction m with
  | nil =>
    obtain rfl := List.mem_singleton.mp h
    exact Or.inr rfl
  | cons e m ih =>
    rw [put] at h
    split at h
    · rcases List.mem_cons.mp h with rfl | h
      · exact Or.inl ⟨e, List.mem_cons_self, rfl⟩
      · exact Or.inl ⟨a, List.mem_cons_of_mem e h, rfl⟩
    · rcases List.mem_cons.mp h with rfl | h
      · exact Or.inl ⟨a, List.mem_cons_self, rfl⟩
      · rcases ih h with ⟨e', he', hk⟩ | hn
        · exact Or.inl ⟨e', List.mem_cons_of_mem e he', hk⟩
        · exact Or.inr hn

theorem pairwise_put (hd : m.Pairwise fun a b => key a.1 ≠ key b.1) :
    (put key n v f m).Pairwise fun a b => key a.1 ≠ key b.1 := by
  induction m with
  | nil => exact List.pairwise_singleton _ _
  | cons e m ih =>
    obtain ⟨hhead, htail⟩ := List.pairwise_cons.mp hd
    rw [put]
    split
    · exact List.pairwise_cons.mpr ⟨hhead, htail⟩
    · rename_i hne
      refine List.pairwise_cons.mpr ⟨fun a ha => ?_, ih htail⟩
      rcases fst_of_mem_put ha with ⟨e', he', hk⟩ | hn
      · rw [← hk]
        exact hhead e' he'
      · rw [hn]
        exact hne

theorem map_fst_change (k : κ) (f : β → β) (m : List (ν × β)) :
    (change key k f m).map Prod.fst = m.map Prod.fst := by
  induction m with
  | nil => rfl
  | cons e m ih =>
    rw [change]
    split
    · rfl
    · rw [List.map_cons, List.map_cons, ih]

theorem pairwise_change (hd : m.Pairwise fun a b => key a.1 ≠ key b.1) :
    (change key k f m).Pairwise fun a b => key a.1 ≠ key b.1 := by
  have hmap := List.pairwise_map (f := Prod.fst) (R := fun a b => key a ≠ key b) (l := m)
  have hmap' := List.pairwise_map (f := Prod.fst) (R := fun a b => key a ≠ key b)
    (l := change key k f m)
  rw [map_fst_change] at hmap'
  exact hmap'.mp (hmap.mpr hd)

theorem length_put_le (n : ν) (v : β) (f : β → β) (m : List (ν × β)) :
    (put key n v f m).length ≤ m.length + 1 := by
  induction m with
  | nil => exact Nat.le_refl _
  | cons e m ih =>
    rw [put]
    split
    · exact Nat.le_succ _
    · exact Nat.succ_le_succ ih

theorem length_change (k : κ) (f : β → β) (m : List (ν × β)) :
    (change key k f m).length = m.length := by
  rw [← List.length_map (f := Prod.fst), map_fst_change, List.length_map]

theorem put_of_absent (n : ν) (v : β) (f : β → β) (h : ∀ e ∈ m, key e.1 ≠ key n) :
    put key n v f m = m ++ [(n, f v)] := by
  induction m with
  | nil => rfl
  | cons e m ih =>
    rw [put, if_neg (h e List.mem_cons_self), ih fun e' he' => h e' (List.mem_cons_of_mem e he')]
    rfl

theorem find_map_fst {g : ν → ν} (hg : ∀ e ∈ m, key (g e.1) = key e.1) (k : κ) :
    find key k (m.map fun e => (g e.1, e.2)) = find key k m := by
  induction m with
  | nil => rfl
  | cons e m ih =>
    have htail := ih fun e' he' => hg e' (List.mem_cons_of_mem e he')
    have hhead := hg e List.mem_cons_self
    rw [List.map_cons, find, find, hhead, htail]

end

/-! ## maps -/

section
variable {key : ν → κ}

def empty : KeyedMap key β := ⟨[], List.Pairwise.nil⟩

/-- `retain` -/
def retain (p : β → Bool) (m : KeyedMap key β) : KeyedMap key β where
  entries := m.entries.filter fun e => p e.2
  distinct := m.distinct.filter _

variable [DecidableEq κ]

def get (m : KeyedMap key β) (k : κ) : Option β := find key k m.entries

/-- `entry(n).or_insert(v)`, changed by `f` -/
def entryOr (m : KeyedMap key β) (n : ν) (v : β) (f : β → β) : KeyedMap key β where
  entries := put key n v f m.entries
  distinct := pairwise_put m.distinct

/-- `get_mut`, changed by `f` -/
def modify (m : KeyedMap key β) (k : κ) (f : β → β) : KeyedMap key β where
  entries := change key k f m.entries
  distinct := pairwise_change m.distinct

/-- what is under a key of a map of lists -/
def values (m : KeyedMap key (List β)) (k : κ) : List β := (m.get k).getD []

theorem get_entryOr (m : KeyedMap key β) (n : ν) (v : β) (f : β → β) (k : κ) :
    (m.entryOr n v f).get k = if key n = k then some (f ((m.get k).getD v)) else m.get k :=
  find_put k n v f m.entries

theorem get_modify (m : KeyedMap key β) (k' : κ) (f : β → β) (k : κ) :
    (m.modify k' f).get k = if k' = k then (m.get k).map f else m.get k :=
  find_change k k' f m.entries

theorem get_retain (m : KeyedMap key β) (p : β → Bool) (k : κ) :
    (m.retain p).get k = (m.get k).filter p :=
  find_filter m.distinct p k

theorem get_of_mem (m : KeyedMap key β) {e : ν × β} (he : e ∈ m.entries) :
    m.get (key e.1) = some e.2 :=
  find_of_mem m.distinct he

theorem mem_of_get {m : KeyedMap key β} {k : κ} {v : β} (h : m.get k = some v) :
    ∃ e ∈ m.entries, key e.1 = k ∧ e.2 = v :=
  mem_of_find h

theorem values_entryOr_append (m : KeyedMap key (List β)) (n : ν) (b : List β) (k : κ) :
    (m.entryOr n [] (· ++ b)).values k = m.values k ++ if key n = k then b else [] := by
  unfold values
  rw [get_entryOr]
  split
  · rfl
  · exact (List.append_nil _).symm

theorem get_foldl_modify (g : γ → β → β) (o : KeyedMap key γ) (m : KeyedMap key β) (k : κ) :
    (o.entries.foldl (fun m e => m.modify (key e.1) (g e.2)) m).get k =
      (o.get k).elim (m.get k) fun c => (m.get k).map (g c) := by
  obtain ⟨es, hd⟩ := o
  show (es.foldl (fun m e => m.modify (key e.1) (g e.2)) m).get k =
    (find key k es).elim (m.get k) fun c => (m.get k).map (g c)
  induction es generalizing m with
  | nil => rfl
  | cons e es ih =>
    obtain ⟨hhead, htail⟩ := List.pairwise_cons.mp hd
    rw [List.foldl_cons, ih _ htail]
    by_cases hek : key e.1 = k
    · have hnone : find key k es = none := by
        cases h : find key k es with
        | none => rfl
        | some c =>
          obtain ⟨e', he', hk', -⟩ := mem_of_find h
          exact absurd (hek.trans hk'.symm) (hhead e' he')
      rw [hnone, find_cons_self hek]
      show (m.modify (key e.1) (g e.2)).get k = _
      rw [get_modify, if_pos hek]
      rfl
    · rw [find_cons_of_ne hek, get_modify, if_neg hek]

end

end KeyedMap
