import Mathlib.Data.List.Basic

/-!
# Encodings that delimit themselves

`Framed ok enc view` says of an encoder `enc` that its output can be read off the front of any
buffer: for values that satisfy `ok`, the buffer determines what follows the encoding and, of the
value, all that `view` shows.

* `Framed.of_length`   encodings of one length;
* `Framed.append`      one encoding after the other;
* `Framed.body`        a header that tells the length of what it is followed by;
* `Framed.flatMap`     a sequence of encodings.
-/

namespace Framing

section
variable {α β γ δ : Type*}

def Framed (ok : α → Prop) (enc : α → List β) (view : α → γ) : Prop :=
  ∀ a b, ok a → ok b → ∀ r s, enc a ++ r = enc b ++ s → view a = view b ∧ r = s

variable {ok : α → Prop} {enc enc' : α → List β} {view : α → γ} {view' : α → δ}

theorem Framed.of_length (hlen : ∀ a b, (enc a).length = (enc b).length)
    (hinj : ∀ a b, enc a = enc b → view a = view b) : Framed ok enc view := by
  intro a b _ _ r s h
  obtain ⟨he, hr⟩ := List.append_inj h (hlen a b)
  exact ⟨hinj a b he, hr⟩

theorem Framed.append (h : Framed ok enc view) (h' : Framed ok enc' view') :
    Framed ok (fun a => enc a ++ enc' a) fun a => (view a, view' a) := by
  intro a b ha hb r s he
  rw [List.append_assoc, List.append_assoc] at he
  obtain ⟨hv, he'⟩ := h a b ha hb _ _ he
  obtain ⟨hv', hr⟩ := h' a b ha hb _ _ he'
  exact ⟨Prod.ext hv hv', hr⟩

theorem Framed.comp {ι : Type*} (h : Framed ok enc view) (f : ι → α) :
    Framed (fun i => ok (f i)) (fun i => enc (f i)) fun i => view (f i) :=
  fun a b ha hb => h (f a) (f b) ha hb

theorem Framed.mono {ok' : α → Prop} (h : Framed ok enc view) (hok : ∀ a, ok' a → ok a) :
    Framed ok' enc view := fun a b ha hb => h a b (hok a ha) (hok b hb)

theorem Framed.body (h : Framed ok enc view) (body : α → List β)
    (hlen : ∀ a b, ok a → ok b → view a = view b → (body a).length = (body b).length) :
    Framed ok (fun a => enc a ++ body a) fun a => (view a, body a) := by
  intro a b ha hb r s he
  rw [List.append_assoc, List.append_assoc] at he
  obtain ⟨hv, he'⟩ := h a b ha hb _ _ he
  obtain ⟨hbody, hr⟩ := List.append_inj he' (hlen a b ha hb hv)
  exact ⟨Prod.ext hv hbody, hr⟩

/-- a sequence of encodings shows the views of its members -/
theorem Framed.flatMap (h : Framed ok enc view) (hne : ∀ a, enc a ≠ []) {l m : List α}
    (hl : ∀ a ∈ l, ok a) (hm : ∀ a ∈ m, ok a) (he : l.flatMap enc = m.flatMap enc) :
    l.map view = m.map view := by
  induction l generalizing m with
  | nil =>
    cases m with
    | nil => rfl
    | cons b m =>
      rw [List.flatMap_cons, List.flatMap_nil] at he
      exact absurd (List.append_eq_nil_iff.mp he.symm).1 (hne b)
  | cons a l ih =>
    cases m with
    | nil =>
      rw [List.flatMap_cons, List.flatMap_nil] at he
      exact absurd (List.append_eq_nil_iff.mp he).1 (hne a)
    | cons b m =>
      rw [List.flatMap_cons, List.flatMap_cons] at he
      obtain ⟨hv, he'⟩ := h a b (hl a List.mem_cons_self) (hm b List.mem_cons_self) _ _ he
      rw [List.map_cons, List.map_cons, hv,
        ih (fun c hc => hl c (List.mem_cons_of_mem _ hc))
          (fun c hc => hm c (List.mem_cons_of_mem _ hc)) he']

end
end Framing
