import DnsResolver.Lib.Ring

/-!
# Domain names

A name is the list of its labels, leaf first, as `Name::iter` yields them; the root is the empty
list.  Every name that reaches the resolver came off the wire or was built by `from_labels`,
`base_name` or `from_str` of an absolute text, so it is absolute and keeps the length limits of
the wire format: they are the field `valid`.

Names are compared without regard to ASCII case: `Name ==` and the helper `name_eq` of the source
are equality of `fold`, the labels in lower case.  The string keys `to_string().to_lowercase()` of
its caches are finer: `Display` decodes a label that begins with `xn--` and not one that begins
with `XN--`.

* `zoneOf a b`      `a.zone_of(b)`: `a` is `b` or an ancestor of `b`;
* `ancestors n`     `n`, its parent, and so on up to the root;
* `canon n`         the folded labels root first; their lexicographic order is the canonical
                    order of RFC 4034 §6.1, which is `Name`'s `Ord`;
* `Above c n`       `c.zoneOf n`, in the spelling of `n`;
* `wildcard c`      `*.c`, the root if that would be too long.
-/

namespace DnsResolver

abbrev Label := List UInt8

/-- the key of a cache that is kept by name.  The folded labels stand for the text
`to_string().to_lowercase()`, which has one form more for a name with a label `xn--`. -/
abbrev ZoneKey := List Label

/-- ASCII lower case of one byte, `u8::to_ascii_lowercase` -/
def lowerByte (b : UInt8) : UInt8 := if 65 ≤ b ∧ b ≤ 90 then b + 32 else b

def foldLabel (l : Label) : Label := l.map lowerByte

/-- octets of the uncompressed wire form: one length octet per label and the final zero -/
def wireLen : List Label → Nat
  | [] => 1
  | l :: ls => (l.length + 1) + wireLen ls

/-- the length limits of the wire format -/
def ValidLabels (ls : List Label) : Prop :=
  (∀ l ∈ ls, 1 ≤ l.length ∧ l.length ≤ 63) ∧ wireLen ls ≤ 255

instance (ls : List Label) : Decidable (ValidLabels ls) := by
  unfold ValidLabels; infer_instance

structure Name where
  labels : List Label
  valid : ValidLabels labels
  deriving DecidableEq

theorem wireLen_cons (l : Label) (ls : List Label) :
    wireLen (l :: ls) = (l.length + 1) + wireLen ls := rfl

theorem wireLen_le_of_suffix {a b : List Label} (h : a <:+ b) : wireLen a ≤ wireLen b := by
  obtain ⟨p, rfl⟩ := h
  induction p with
  | nil => exact le_rfl
  | cons l p ih =>
    rw [List.cons_append, wireLen_cons]
    omega

theorem ValidLabels.tail {ls : List Label} (h : ValidLabels ls) : ValidLabels ls.tail := by
  cases ls with
  | nil => exact h
  | cons l ls =>
    refine ⟨fun m hm => h.1 m (List.mem_cons_of_mem _ hm), ?_⟩
    have h2 := h.2
    rw [wireLen_cons] at h2
    show wireLen ls ≤ 255
    omega

theorem length_foldLabel (l : Label) : (foldLabel l).length = l.length := List.length_map _

theorem wireLen_fold (ls : List Label) : wireLen (ls.map foldLabel) = wireLen ls := by
  induction ls with
  | nil => rfl
  | cons l ls ih => rw [List.map_cons, wireLen_cons, wireLen_cons, ih, length_foldLabel]

theorem validLabels_fold {ls : List Label} : ValidLabels (ls.map foldLabel) ↔ ValidLabels ls := by
  simp only [ValidLabels, wireLen_fold, List.forall_mem_map, length_foldLabel]

namespace Name

theorem ext {a b : Name} (h : a.labels = b.labels) : a = b := by
  cases a; cases b; simp only [Name.mk.injEq]; exact h

def root : Name := ⟨[], by decide⟩

/-- `Name::from_labels` -/
def fromLabels (ls : List Label) : Option Name :=
  if h : ValidLabels ls then some ⟨ls, h⟩ else none

def isRoot (n : Name) : Bool := n.labels.isEmpty

/-- `Name::base_name`: the parent; the root is its own parent -/
def baseName (n : Name) : Name := ⟨n.labels.tail, n.valid.tail⟩

def fold (n : Name) : List Label := n.labels.map foldLabel

/-- the label `*` -/
def star : Label := [42]

/-- `Name::num_labels`: a leading wildcard label is not counted -/
def numLabels (n : Name) : Nat :=
  match n.labels with
  | [] => 0
  | l :: ls => if l = star then ls.length else ls.length + 1

def canon (n : Name) : List Label := n.fold.reverse

/-- `name_eq`, and `==` on names -/
def nameEq (a b : Name) : Bool := a.fold == b.fold

/-- `a.zone_of(b)`: `a` is `b` or one of its ancestors -/
def zoneOf (a b : Name) : Bool := a.fold.isSuffixOf b.fold

def ancestorsAux : Nat → Name → List Name
  | 0, n => [n]
  | k + 1, n => n :: ancestorsAux k n.baseName

/-- the name and its ancestors up to the root -/
def ancestors (n : Name) : List Name := ancestorsAux n.labels.length n

/-- the child `*` of `e`, the root if it does not fit -/
def wildcard (e : Name) : Name := (fromLabels (star :: e.labels)).getD root

/-- `c` is `n` or one of its ancestors, spelled as in `n` -/
def Above (c n : Name) : Prop := c.labels <:+ n.labels

/-! ## case folding -/

@[simp] theorem fold_root : root.fold = [] := rfl

@[simp] theorem fold_baseName (n : Name) : n.baseName.fold = n.fold.tail := by
  simp only [fold, baseName, List.map_tail]

@[simp] theorem length_fold (n : Name) : n.fold.length = n.labels.length := by
  simp only [fold, List.length_map]

theorem lowerByte_eq_star {b : UInt8} : lowerByte b = 42 ↔ b = 42 := by
  simp only [lowerByte, UInt8.le_iff_toNat_le, ← UInt8.toNat_inj]
  split
  · rename_i h
    simp only [UInt8.toNat_add, UInt8.reduceToNat] at h ⊢
    omega
  · rfl

theorem foldLabel_eq_star {l : Label} : foldLabel l = star ↔ l = star := by
  simp only [foldLabel, star, List.map_eq_singleton_iff, lowerByte_eq_star, exists_eq_right]

theorem numLabels_congr {a b : Name} (h : a.fold = b.fold) : a.numLabels = b.numLabels := by
  have key : ∀ n : Name, n.numLabels =
      if n.fold.head? = some star then n.fold.length - 1 else n.fold.length := by
    intro n
    unfold numLabels fold
    cases n.labels with
    | nil => rfl
    | cons l ls =>
      simp only [List.map_cons, List.head?_cons, Option.some.injEq, foldLabel_eq_star,
        List.length_cons, List.length_map, Nat.add_sub_cancel]
  rw [key, key, h]

theorem isRoot_iff {n : Name} : n.isRoot = true ↔ n.fold = [] := by
  simp only [isRoot, fold, List.isEmpty_iff, List.map_eq_nil_iff]

theorem nameEq_iff {a b : Name} : a.nameEq b = true ↔ a.fold = b.fold := by
  simp only [nameEq, beq_iff_eq]

theorem nameEq_eq_false {a b : Name} : a.nameEq b = false ↔ a.fold ≠ b.fold := by
  simp only [nameEq, beq_eq_false_iff_ne]

theorem nameEq_refl (a : Name) : a.nameEq a = true := by rw [nameEq_iff]

theorem nameEq_symm {a b : Name} (h : a.nameEq b = true) : b.nameEq a = true := by
  rw [nameEq_iff] at h ⊢
  exact h.symm

theorem nameEq_trans {a b c : Name} (h : a.nameEq b = true) (h' : b.nameEq c = true) :
    a.nameEq c = true := by
  rw [nameEq_iff] at h h' ⊢
  exact h.trans h'

/-! ## ancestors -/

theorem zoneOf_iff {a b : Name} : a.zoneOf b = true ↔ a.fold <:+ b.fold := by
  simp only [zoneOf, List.isSuffixOf_iff_suffix]

theorem zoneOf_refl (a : Name) : a.zoneOf a = true := by
  rw [zoneOf_iff]

theorem zoneOf_of_nameEq {a b : Name} (h : a.nameEq b = true) : a.zoneOf b = true := by
  rw [nameEq_iff] at h
  rw [zoneOf_iff, h]

theorem zoneOf_trans {a b c : Name} (h : a.zoneOf b = true) (h' : b.zoneOf c = true) :
    a.zoneOf c = true := by
  rw [zoneOf_iff] at h h' ⊢
  exact h.trans h'

theorem zoneOf_baseName (n : Name) : n.baseName.zoneOf n = true := by
  rw [zoneOf_iff, fold_baseName]
  exact List.tail_suffix _

theorem root_zoneOf (n : Name) : root.zoneOf n = true := by
  rw [zoneOf_iff, fold_root]
  exact List.nil_suffix

theorem nameEq_of_zoneOf {a b : Name} (h : a.zoneOf b = true) (h' : b.zoneOf a = true) :
    a.nameEq b = true := by
  rw [zoneOf_iff] at h h'
  rw [nameEq_iff]
  exact h.eq_of_length_le h'.length_le

theorem zoneOf_total {a b n : Name} (ha : a.zoneOf n = true) (hb : b.zoneOf n = true) :
    a.zoneOf b = true ∨ b.zoneOf a = true := by
  rw [zoneOf_iff] at ha hb
  rw [zoneOf_iff, zoneOf_iff]
  exact List.suffix_or_suffix_of_suffix ha hb

theorem nameEq_of_length {a b n : Name} (ha : a.zoneOf n = true) (hb : b.zoneOf n = true)
    (hl : a.fold.length = b.fold.length) : a.nameEq b = true := by
  rw [nameEq_iff]
  rcases zoneOf_total ha hb with h | h
  · rw [zoneOf_iff] at h
    exact h.eq_of_length hl
  · rw [zoneOf_iff] at h
    exact (h.eq_of_length hl.symm).symm

/-- a child of `c` has one label more -/
theorem length_child {n c : Name} (h : n.baseName.nameEq c = true) (hne : n.nameEq c = false) :
    n.fold.length = c.fold.length + 1 := by
  rw [nameEq_iff, fold_baseName] at h
  cases hf : n.fold with
  | nil =>
    rw [hf] at h
    have : n.nameEq c = true := nameEq_iff.mpr (hf.trans h)
    exact absurd this (by simp [hne])
  | cons a as =>
    rw [hf] at h
    rw [← h]
    rfl

theorem zoneOf_baseName_of_ne {a n : Name} (h : a.zoneOf n = true) (hne : a.nameEq n = false) :
    a.zoneOf n.baseName = true := by
  rw [zoneOf_iff] at h ⊢
  rw [fold_baseName]
  cases hn : n.fold with
  | nil =>
    rw [hn] at h
    exact absurd (nameEq_iff.mpr ((List.suffix_nil.mp h).trans hn.symm)) (by simp [hne])
  | cons l ls =>
    rw [hn, List.suffix_cons_iff] at h
    rcases h with h | h
    · exact absurd (nameEq_iff.mpr (h.trans hn.symm)) (by simp [hne])
    · exact h

theorem nameEq_of_zoneOf_baseName {a n : Name} (h : a.zoneOf n.baseName = true)
    (hr : n.isRoot = false) : a.nameEq n = false := by
  cases he : a.nameEq n with
  | false => rfl
  | true =>
    have hlen := (zoneOf_iff.mp h).length_le
    rw [fold_baseName, List.length_tail, nameEq_iff.mp he] at hlen
    cases hf : n.fold with
    | nil => exact absurd (isRoot_iff.mpr hf) (by simp [hr])
    | cons l ls =>
      rw [hf, List.length_cons] at hlen
      omega

theorem mem_ancestorsAux {k : Nat} {n a : Name} (hk : n.labels.length ≤ k)
    (h : a ∈ ancestorsAux k n) : a.zoneOf n = true := by
  induction k generalizing n with
  | zero =>
    rw [List.mem_singleton.mp h]
    exact zoneOf_refl _
  | succ k ih =>
    rcases List.mem_cons.mp h with rfl | h
    · exact zoneOf_refl _
    · refine zoneOf_trans (ih ?_ h) (zoneOf_baseName n)
      simp only [baseName, List.length_tail]
      omega

theorem zoneOf_of_mem_ancestors {n a : Name} (h : a ∈ n.ancestors) : a.zoneOf n = true :=
  mem_ancestorsAux le_rfl h

theorem ancestors_of_not_root {n : Name} (h : n.isRoot = false) :
    n.ancestors = n :: n.baseName.ancestors := by
  unfold ancestors
  have hlen : n.labels.length = n.baseName.labels.length + 1 := by
    cases hl : n.labels with
    | nil => exact absurd h (by simp only [isRoot, hl, List.isEmpty_nil, Bool.true_eq_false,
        not_false_eq_true])
    | cons a as => simp only [baseName, hl, List.tail_cons, List.length_cons]
  rw [hlen]
  rfl

theorem Above.refl (n : Name) : n.Above n := List.suffix_rfl

theorem Above.of_baseName {c n : Name} (h : c.Above n.baseName) : c.Above n :=
  List.IsSuffix.trans h (List.tail_suffix _)

theorem Above.zoneOf {c n : Name} (h : c.Above n) : c.zoneOf n = true :=
  zoneOf_iff.mpr (h.map foldLabel)

theorem Above.eq_of_fold {c c' n : Name} (h : c.Above n) (h' : c'.Above n)
    (hf : c.fold = c'.fold) : c = c' := by
  have hlen : c.labels.length = c'.labels.length := by rw [← length_fold, hf, length_fold]
  refine ext ?_
  rcases List.suffix_or_suffix_of_suffix h h' with hs | hs
  · exact hs.eq_of_length hlen
  · exact (hs.eq_of_length hlen.symm).symm

theorem exists_above {c n : Name} (h : c.zoneOf n = true) : ∃ c' : Name, c'.Above n ∧
    c'.fold = c.fold := by
  obtain ⟨p, hp⟩ := zoneOf_iff.mp h
  have hsuf : n.labels.drop p.length <:+ n.labels := List.drop_suffix _ _
  have hvalid : ValidLabels (n.labels.drop p.length) :=
    ⟨fun l hl => n.valid.1 l (hsuf.subset hl), (wireLen_le_of_suffix hsuf).trans n.valid.2⟩
  refine ⟨⟨_, hvalid⟩, hsuf, ?_⟩
  show (n.labels.drop p.length).map foldLabel = c.fold
  rw [List.map_drop]
  show n.fold.drop p.length = c.fold
  rw [← hp, List.drop_left]

/-- the ancestors of a name in order, each strictly below the ones after it -/
theorem ancestors_pairwise (n : Name) :
    n.ancestors.Pairwise fun below above =>
      above.zoneOf below = true ∧ below.zoneOf above = false := by
  induction hk : n.labels.length generalizing n with
  | zero =>
    have hn : n = root := ext (List.eq_nil_of_length_eq_zero hk)
    rw [hn]
    exact List.pairwise_singleton _ _
  | succ k ih =>
    have hr : n.isRoot = false := by
      cases hl : n.labels with
      | nil => rw [hl] at hk; simp at hk
      | cons a as => simp only [isRoot, hl, List.isEmpty_cons]
    have hb : n.baseName.labels.length = k := by
      simp only [baseName, List.length_tail]
      omega
    rw [ancestors_of_not_root hr]
    refine List.pairwise_cons.mpr ⟨fun above habove => ?_, ih n.baseName hb⟩
    have hparent := zoneOf_of_mem_ancestors habove
    refine ⟨zoneOf_trans hparent (zoneOf_baseName n), ?_⟩
    cases hz : n.zoneOf above with
    | false => rfl
    | true =>
      have hle := (zoneOf_iff.mp (zoneOf_trans hz hparent)).length_le
      rw [length_fold, length_fold] at hle
      omega

/-- `Line a l b`: the names of `l` lead from `a` down to `b`, one label at a time -/
inductive Line : Name → List Name → Name → Prop
  | nil (n : Name) : Line n [] n
  | cons {n z b : Name} {l : List Name} : z.baseName = n → z.isRoot = false → Line z l b →
      Line n (z :: l) b

theorem Line.snoc {a b z : Name} {l : List Name} (h : Line a l b) (hz : z.baseName = b)
    (hr : z.isRoot = false) : Line a (l ++ [z]) z := by
  induction h with
  | nil n => exact .cons hz hr (.nil z)
  | cons h1 h2 _ ih => exact .cons h1 h2 (ih hz)

theorem line_ancestorsAux {k : Nat} {n : Name} (hk : n.labels.length = k) :
    ∃ l, (ancestorsAux k n).reverse = root :: l ∧ Line root l n := by
  induction k generalizing n with
  | zero =>
    have hn : n = root := ext (List.eq_nil_of_length_eq_zero hk)
    exact ⟨[], by rw [hn]; rfl, hn ▸ Line.nil _⟩
  | succ k ih =>
    obtain ⟨l, hl, hline⟩ := ih (n := n.baseName) (by
      simp only [baseName, List.length_tail]
      omega)
    refine ⟨l ++ [n], ?_, hline.snoc rfl ?_⟩
    · simp only [ancestorsAux, List.reverse_cons, hl, List.cons_append]
    · cases hl : n.labels with
      | nil => rw [hl] at hk; simp at hk
      | cons a as => simp only [isRoot, hl, List.isEmpty_cons]

theorem line_ancestors (n : Name) : ∃ l, n.ancestors.reverse = root :: l ∧ Line root l n :=
  line_ancestorsAux rfl

/-! ## wildcards -/

/-- the wildcard of a proper ancestor of a name always fits -/
theorem fold_wildcard {e q : Name} (h : e.zoneOf q = true) (hne : e.nameEq q = false) :
    (wildcard e).fold = star :: e.fold := by
  have hv : ValidLabels (star :: e.labels) := by
    refine ⟨?_, ?_⟩
    · intro l hl
      rcases List.mem_cons.mp hl with rfl | hl
      · decide
      · exact e.valid.1 l hl
    · have hb := zoneOf_iff.mp (zoneOf_baseName_of_ne h hne)
      rw [fold_baseName] at hb
      have hle := wireLen_le_of_suffix hb
      have hq := q.valid
      cases hl : q.labels with
      | nil =>
        have he := zoneOf_iff.mp h
        have hqf : q.fold = [] := by simp only [fold, hl, List.map_nil]
        rw [hqf, List.suffix_nil] at he
        have heq : e.nameEq q = true := nameEq_iff.mpr (he.trans hqf.symm)
        exact absurd heq (by simp [hne])
      | cons l ls =>
        rw [hl] at hq
        have h1 := (hq.1 l (List.mem_cons_self ..)).1
        have h2 := hq.2
        simp only [fold, hl, List.map_cons, List.tail_cons, wireLen_fold] at hle
        rw [wireLen_cons] at h2 ⊢
        have h3 : star.length = 1 := rfl
        omega
  have hs : foldLabel star = star := by decide
  simp only [wildcard, fromLabels, hv, dite_true, Option.getD_some, fold, List.map_cons, hs]

theorem fold_wildcard_congr {e c : Name} (h : e.fold = c.fold) :
    (wildcard e).fold = (wildcard c).fold := by
  have hfold : (star :: e.labels).map foldLabel = (star :: c.labels).map foldLabel := by
    rw [List.map_cons, List.map_cons]
    exact congrArg (foldLabel star :: ·) h
  have hvalid : ValidLabels (star :: e.labels) ↔ ValidLabels (star :: c.labels) := by
    rw [← validLabels_fold, hfold, validLabels_fold]
  unfold wildcard fromLabels
  by_cases hc : ValidLabels (star :: c.labels)
  · rw [dif_pos hc, dif_pos (hvalid.mpr hc)]
    exact hfold
  · rw [dif_neg hc, dif_neg (mt hvalid.mp hc)]

end Name
end DnsResolver
