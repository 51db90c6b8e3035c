import Mathlib.Data.List.Basic

/-!
# Growing traces and searches that carry a state

Two small tools for programs that are written with an explicit state.

* `Grew P old new`   the trace `new` is `old` followed by events that all satisfy `P`; the
                     rules say how growth composes and what it says about one event;
* `Added old new e`  `e` is one of the new events;
* `search f l s`     a loop over `l` with early exit: `f` is tried on one element after the
                     other, the state is threaded through, and the first answer other than
                     `miss` ends the loop.  `search_keeps` is the invariant rule;
                     `search_hit`, `search_stop` and `search_hit_split` say where an answer came
                     from and `search_added` where an event did.  `search_lockstep` compares two
                     searches; `search_affordable` and `search_finds` are about tries that spend
                     from a supply.
-/

namespace Trace

section
variable {ε : Type*}

/-- `new` extends `old` by events that all satisfy `P` -/
def Grew (P : ε → Prop) (old new : List ε) : Prop :=
  ∃ es, new = old ++ es ∧ ∀ e ∈ es, P e

variable {P Q : ε → Prop} {a b c : List ε}

theorem Grew.refl (a : List ε) : Grew P a a := ⟨[], by simp, by simp⟩

theorem Grew.trans (h : Grew P a b) (h' : Grew P b c) : Grew P a c := by
  obtain ⟨es, rfl, he⟩ := h
  obtain ⟨es', rfl, he'⟩ := h'
  refine ⟨es ++ es', by rw [List.append_assoc], fun e hm => ?_⟩
  rcases List.mem_append.mp hm with hm | hm
  · exact he e hm
  · exact he' e hm

theorem Grew.mono (h : Grew P a b) (hPQ : ∀ e, P e → Q e) : Grew Q a b := by
  obtain ⟨es, rfl, he⟩ := h
  exact ⟨es, rfl, fun e hm => hPQ e (he e hm)⟩

theorem Grew.push {e : ε} (h : P e) : Grew P a (a ++ [e]) :=
  ⟨[e], rfl, fun e' hm => by rw [List.mem_singleton.mp hm]; exact h⟩

theorem Grew.mem (h : Grew P a b) {e : ε} (he : e ∈ b) : e ∈ a ∨ P e := by
  obtain ⟨es, rfl, hes⟩ := h
  rcases List.mem_append.mp he with hm | hm
  · exact Or.inl hm
  · exact Or.inr (hes e hm)

theorem Grew.subset (h : Grew P a b) : a ⊆ b := by
  obtain ⟨es, rfl, _⟩ := h
  exact List.subset_append_left _ _

/-- `e` is among the events that `new` has and `old` had not -/
def Added (old new : List ε) (e : ε) : Prop := ∃ es, new = old ++ es ∧ e ∈ es

theorem Added.push {e : ε} : Added a (a ++ [e]) e := ⟨[e], rfl, List.mem_singleton.mpr rfl⟩

theorem Added.mem {e : ε} (h : Added a b e) : e ∈ b := by
  obtain ⟨es, rfl, he⟩ := h
  exact List.mem_append_right _ he

theorem Added.after {e : ε} (h : Added b c e) (hg : Grew P a b) : Added a c e := by
  obtain ⟨es, rfl, he⟩ := h
  obtain ⟨es', rfl, _⟩ := hg
  exact ⟨es' ++ es, by rw [List.append_assoc], List.mem_append_right _ he⟩

theorem Added.grew {e : ε} (h : Added a b e) (hg : Grew P b c) : Added a c e := by
  obtain ⟨es, rfl, he⟩ := h
  obtain ⟨es', rfl, _⟩ := hg
  exact ⟨es ++ es', by rw [List.append_assoc], List.mem_append_left _ he⟩

theorem Added.mem_of_eq {es : List ε} {e : ε} (h : Added a b e) (hb : b = a ++ es) : e ∈ es := by
  obtain ⟨es', rfl, he⟩ := h
  rwa [List.append_cancel_left hb] at he

theorem not_added_self {e : ε} : ¬ Added a a e := by
  rintro ⟨es, he, hm⟩
  have hnil : es = [] := List.append_right_eq_self.mp he.symm
  rw [hnil] at hm
  exact absurd hm (List.not_mem_nil)

theorem Added.split {e : ε} (h : Added a c e) (hab : Grew P a b) (hbc : Grew Q b c) :
    Added a b e ∨ Added b c e := by
  obtain ⟨es, rfl, _⟩ := hab
  obtain ⟨es', rfl, _⟩ := hbc
  have hm := h.mem_of_eq (List.append_assoc a es es')
  rcases List.mem_append.mp hm with hm | hm
  · exact Or.inl ⟨es, rfl, hm⟩
  · exact Or.inr ⟨es', rfl, hm⟩

end

/-! ## searches -/

/-- how a search ends: with an answer, cut short without one, or at the end of the list -/
inductive Result (β : Type*) where
  | hit (b : β)
  | stop
  | miss

section
variable {α β σ : Type*}

/-- try `f` on one element after the other until it does not miss -/
def search (f : α → σ → Result β × σ) : List α → σ → Result β × σ
  | [], s => (.miss, s)
  | a :: l, s =>
    match f a s with
    | (.hit b, s') => (.hit b, s')
    | (.stop, s') => (.stop, s')
    | (.miss, s') => search f l s'

variable {f : α → σ → Result β × σ} {R : σ → σ → Prop}

theorem search_nil (s : σ) : search f [] s = (.miss, s) := rfl

theorem search_cons_miss {a : α} {l : List α} {s s' : σ} (h : f a s = (.miss, s')) :
    search f (a :: l) s = search f l s' := by
  rw [search, h]

theorem search_append (l l' : List α) (s : σ) :
    search f (l ++ l') s =
      match search f l s with
      | (.miss, s') => search f l' s'
      | (r, s') => (r, s') := by
  induction l generalizing s with
  | nil => rfl
  | cons a l ih =>
    cases h : f a s with
    | mk r s' =>
      cases r with
      | hit b => simp only [List.cons_append, search, h]
      | stop => simp only [List.cons_append, search, h]
      | miss => rw [List.cons_append, search_cons_miss h, search_cons_miss h, ih s']

theorem search_keeps (hr : ∀ s, R s s) (ht : ∀ s₁ s₂ s₃, R s₁ s₂ → R s₂ s₃ → R s₁ s₃)
    (l : List α) (hf : ∀ a ∈ l, ∀ s, R s (f a s).2) (s : σ) : R s (search f l s).2 := by
  induction l generalizing s with
  | nil => exact hr s
  | cons a l ih =>
    have ha := hf a (List.mem_cons_self ..) s
    have hl := ih (fun b hb => hf b (List.mem_cons_of_mem _ hb))
    cases h : f a s with
    | mk r s' =>
      rw [h] at ha
      cases r with
      | hit b => simpa only [search, h] using ha
      | stop => simpa only [search, h] using ha
      | miss =>
        rw [search_cons_miss h]
        exact ht _ _ _ ha (hl s')

theorem search_hit (hr : ∀ s, R s s) (ht : ∀ s₁ s₂ s₃, R s₁ s₂ → R s₂ s₃ → R s₁ s₃)
    (l : List α) (hf : ∀ a ∈ l, ∀ s, R s (f a s).2) {s s' : σ} {b : β}
    (h : search f l s = (.hit b, s')) : ∃ a ∈ l, ∃ s₁, R s s₁ ∧ f a s₁ = (.hit b, s') := by
  induction l generalizing s with
  | nil => simp [search_nil] at h
  | cons a l ih =>
    have ha := hf a (List.mem_cons_self ..) s
    cases hfa : f a s with
    | mk r s₁ =>
      rw [hfa] at ha
      cases r with
      | hit b' =>
        rw [search, hfa] at h
        exact ⟨a, List.mem_cons_self .., s, hr s, hfa.trans h⟩
      | stop =>
        rw [search, hfa] at h
        simp at h
      | miss =>
        rw [search_cons_miss hfa] at h
        obtain ⟨a', ha', s₂, hR, he⟩ := ih (fun b hb => hf b (List.mem_cons_of_mem _ hb)) h
        exact ⟨a', List.mem_cons_of_mem _ ha', s₂, ht _ _ _ ha hR, he⟩

theorem search_stop (l : List α) {s s' : σ} (h : search f l s = (.stop, s')) :
    ∃ a ∈ l, ∃ s₁, f a s₁ = (.stop, s') := by
  induction l generalizing s with
  | nil => simp [search_nil] at h
  | cons a l ih =>
    cases hfa : f a s with
    | mk r s₁ =>
      cases r with
      | hit b => rw [search, hfa] at h; simp at h
      | stop =>
        rw [search, hfa] at h
        exact ⟨a, List.mem_cons_self .., s, hfa.trans h⟩
      | miss =>
        rw [search_cons_miss hfa] at h
        obtain ⟨a', ha', s₂, he⟩ := ih h
        exact ⟨a', List.mem_cons_of_mem _ ha', s₂, he⟩

/-- a search that ends in a miss missed on every element -/
theorem search_miss (hr : ∀ s, R s s) (ht : ∀ s₁ s₂ s₃, R s₁ s₂ → R s₂ s₃ → R s₁ s₃)
    (l : List α) (hf : ∀ a ∈ l, ∀ s, R s (f a s).2) {s s' : σ}
    (h : search f l s = (.miss, s')) :
    ∀ a ∈ l, ∃ s₁ s₂, R s s₁ ∧ R s₂ s' ∧ f a s₁ = (.miss, s₂) := by
  induction l generalizing s with
  | nil => simp
  | cons a l ih =>
    have ha := hf a (List.mem_cons_self ..) s
    cases hfa : f a s with
    | mk r s₁ =>
      rw [hfa] at ha
      cases r with
      | hit b' => rw [search, hfa] at h; simp at h
      | stop => rw [search, hfa] at h; simp at h
      | miss =>
        rw [search_cons_miss hfa] at h
        have hl := fun b hb => hf b (List.mem_cons_of_mem a hb)
        intro a' ha'
        rcases List.mem_cons.mp ha' with rfl | hm
        · refine ⟨s, s₁, hr s, ?_, hfa⟩
          have hk := search_keeps hr ht l hl s₁
          rwa [h] at hk
        · obtain ⟨s₂, s₃, h1, h2, h3⟩ := ih hl h a' hm
          exact ⟨s₂, s₃, ht _ _ _ ha h1, h2, h3⟩

theorem search_hit_split {l : List α} {s s' : σ} {b : β} (h : search f l s = (.hit b, s')) :
    ∃ pre a post s₁, l = pre ++ a :: post ∧ search f pre s = (.miss, s₁) ∧
      f a s₁ = (.hit b, s') := by
  induction l generalizing s with
  | nil => simp [search_nil] at h
  | cons a l ih =>
    cases hfa : f a s with
    | mk r s₁ =>
      cases r with
      | hit b' =>
        rw [search, hfa] at h
        exact ⟨[], a, l, s, rfl, rfl, hfa.trans h⟩
      | stop => rw [search, hfa] at h; simp at h
      | miss =>
        rw [search_cons_miss hfa] at h
        obtain ⟨pre, a', post, s₂, rfl, hpre, hhit⟩ := ih h
        exact ⟨a :: pre, a', post, s₂, rfl, (search_cons_miss hfa).trans hpre, hhit⟩

theorem search_added {ε : Type*} (log : σ → List ε) (hr : ∀ s, R s s)
    (ht : ∀ s₁ s₂ s₃, R s₁ s₂ → R s₂ s₃ → R s₁ s₃)
    (hlog : ∀ s s', R s s' → Grew (fun _ => True) (log s) (log s'))
    (l : List α) (hf : ∀ a ∈ l, ∀ s, R s (f a s).2) {s s' : σ} {r : Result β} {e : ε}
    (h : search f l s = (r, s')) (he : Added (log s) (log s') e) :
    ∃ a ∈ l, ∃ s₁ s₂ r₁, R s s₁ ∧ R s₂ s' ∧ f a s₁ = (r₁, s₂) ∧ Added (log s₁) (log s₂) e ∧
      (r₁ = .miss ∨ r₁ = r) := by
  induction l generalizing s with
  | nil =>
    rw [search_nil] at h
    rw [(Prod.mk.inj h).2] at he
    exact absurd he not_added_self
  | cons a l ih =>
    have ha := hf a (List.mem_cons_self ..) s
    have hl := fun b hb => hf b (List.mem_cons_of_mem a hb)
    cases hfa : f a s with
    | mk r₁ s₁ =>
      rw [hfa] at ha
      have hlast : (r₁, s₁) = (r, s') → ∃ a' ∈ a :: l, ∃ s₁ s₂ r₁, R s s₁ ∧ R s₂ s' ∧
          f a' s₁ = (r₁, s₂) ∧ Added (log s₁) (log s₂) e ∧ (r₁ = .miss ∨ r₁ = r) := by
        intro heq
        obtain ⟨rfl, rfl⟩ := Prod.mk.inj heq
        exact ⟨a, List.mem_cons_self .., s, s₁, r₁, hr s, hr s₁, hfa, he, Or.inr rfl⟩
      cases r₁ with
      | hit b => exact hlast (by rw [← h, search, hfa])
      | stop => exact hlast (by rw [← h, search, hfa])
      | miss =>
        rw [search_cons_miss hfa] at h
        have hrest : R s₁ s' := by
          have hk := search_keeps hr ht l hl s₁
          rwa [h] at hk
        rcases he.split (hlog s s₁ ha) (hlog s₁ s' hrest) with he | he
        · exact ⟨a, List.mem_cons_self .., s, s₁, .miss, hr s, hrest, hfa, he, Or.inl rfl⟩
        · obtain ⟨a', ha', s₂, s₃, r₂, h1, h2, h3, h4, h5⟩ := ih hl h he
          exact ⟨a', List.mem_cons_of_mem _ ha', s₂, s₃, r₂, ht _ _ _ ha h1, h2, h3, h4, h5⟩

/-- two searches over one list whose tries agree, in related states, end alike -/
theorem search_lockstep {f' : α → σ → Result β × σ} (l : List α)
    (hf : ∀ a ∈ l, ∀ s s', R s s' → (f a s).1 = (f' a s').1 ∧ R (f a s).2 (f' a s').2)
    {s s' : σ} (h : R s s') :
    (search f l s).1 = (search f' l s').1 ∧ R (search f l s).2 (search f' l s').2 := by
  induction l generalizing s s' with
  | nil => exact ⟨rfl, h⟩
  | cons a l ih =>
    obtain ⟨hr, hs⟩ := hf a (List.mem_cons_self ..) s s' h
    cases hx : f a s with
    | mk r s₁ =>
      cases hy : f' a s' with
      | mk r' s₁' =>
        rw [hx, hy] at hr hs
        obtain rfl : r = r' := hr
        cases r with
        | hit b =>
          simp only [search, hx, hy]
          exact ⟨trivial, hs⟩
        | stop =>
          simp only [search, hx, hy]
          exact ⟨trivial, hs⟩
        | miss =>
          rw [search_cons_miss hx, search_cons_miss hy]
          exact ih (fun b hb => hf b (List.mem_cons_of_mem a hb)) hs

/-! ## tries that spend -/

/-- tries that are not cut short while `c` is left and spend at most `c` each -/
def Affordable (f : α → σ → Result β × σ) (left : σ → Nat) (c : Nat) (l : List α) : Prop :=
  ∀ a ∈ l, ∀ s, c ≤ left s → (f a s).1 ≠ .stop ∧ left s ≤ left (f a s).2 + c

variable {left : σ → Nat} {c : Nat}

theorem search_affordable (l : List α) (hf : Affordable f left c l) {s : σ}
    (h : l.length * c ≤ left s) :
    (search f l s).1 ≠ .stop ∧ left s ≤ left (search f l s).2 + l.length * c := by
  induction l generalizing s with
  | nil => exact ⟨by simp [search_nil], by simp [search_nil]⟩
  | cons a l ih =>
    rw [List.length_cons, Nat.succ_mul] at h
    obtain ⟨hr, hs⟩ := hf a (List.mem_cons_self ..) s (by omega)
    rw [List.length_cons, Nat.succ_mul]
    cases hx : f a s with
    | mk r s₁ =>
      rw [hx] at hr hs
      dsimp only at hr hs
      cases r with
      | hit b =>
        simp only [search, hx]
        exact ⟨hr, by omega⟩
      | stop => exact absurd rfl hr
      | miss =>
        rw [search_cons_miss hx]
        obtain ⟨hr', hs'⟩ := ih (fun b hb => hf b (List.mem_cons_of_mem a hb)) (s := s₁) (by omega)
        exact ⟨hr', by omega⟩

theorem search_finds {l : List α} (hf : Affordable f left c l) {a₀ : α} (ha : a₀ ∈ l)
    (hhit : ∀ s, c ≤ left s → ∃ b, (f a₀ s).1 = .hit b) {s : σ} (h : l.length * c ≤ left s) :
    ∃ b, (search f l s).1 = .hit b := by
  induction l generalizing s with
  | nil => exact absurd ha (List.not_mem_nil)
  | cons a l ih =>
    rw [List.length_cons, Nat.succ_mul] at h
    obtain ⟨hr, hs⟩ := hf a (List.mem_cons_self ..) s (by omega)
    cases hx : f a s with
    | mk r s₁ =>
      rw [hx] at hr hs
      dsimp only at hr hs
      cases r with
      | hit b => exact ⟨b, by simp only [search, hx]⟩
      | stop => exact absurd rfl hr
      | miss =>
        rw [search_cons_miss hx]
        rcases List.mem_cons.mp ha with rfl | hmem
        · obtain ⟨b, hb⟩ := hhit s (by omega)
          rw [hx] at hb
          exact absurd hb (by simp)
        · exact ih (fun b hb => hf b (List.mem_cons_of_mem a hb)) hmem (by omega)

end
end Trace
