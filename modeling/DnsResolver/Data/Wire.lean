import DnsResolver.Data.Record
import DnsResolver.Lib.Framing

/-!
# The wire form read back

Integers have a fixed width and names end at their zero octet, so both can be read off the front
of a buffer.

* `framed_be16`, `framed_be32`            big endian integers;
* `framed_octets`                         two octets;
* `framed_wireLabels`                     the labels of a name;
* `Name.framed_wire`, `Name.framed_wireLower`   a name in its own case, and in lower case.
-/

namespace DnsResolver
open Framing

/-! ## integers -/

theorem be16_inj {m n : UInt16} (h : be16 m = be16 n) : m = n := by
  simp only [be16, List.cons.injEq, and_true, ← UInt8.toNat_inj, UInt16.toNat_toUInt8,
    UInt16.toNat_shiftRight, UInt16.reduceToNat, Nat.reduceMod, Nat.shiftRight_eq_div_pow,
    Nat.reducePow] at h
  have hm := m.toNat_lt
  have hn := n.toNat_lt
  rw [← UInt16.toNat_inj]
  omega

theorem be32_inj {m n : UInt32} (h : be32 m = be32 n) : m = n := by
  simp only [be32, List.cons.injEq, and_true, ← UInt8.toNat_inj, UInt32.toNat_toUInt8,
    UInt32.toNat_shiftRight, UInt32.reduceToNat, Nat.reduceMod, Nat.shiftRight_eq_div_pow,
    Nat.reducePow] at h
  have hm := m.toNat_lt
  have hn := n.toNat_lt
  rw [← UInt32.toNat_inj]
  omega

section
variable {α : Type} {ok : α → Prop}

theorem framed_be16 (f : α → UInt16) : Framed ok (fun a => be16 (f a)) f :=
  Framed.of_length (fun _ _ => rfl) fun _ _ => be16_inj

theorem framed_be32 (f : α → UInt32) : Framed ok (fun a => be32 (f a)) f :=
  Framed.of_length (fun _ _ => rfl) fun _ _ => be32_inj

theorem framed_octets (f g : α → UInt8) :
    Framed ok (fun a => [f a, g a]) fun a => (f a, g a) := by
  refine Framed.of_length (fun _ _ => rfl) fun a b h => ?_
  obtain ⟨hf, hrest⟩ := List.cons.inj h
  exact Prod.ext hf (List.cons.inj hrest).1

end

/-! ## names -/

theorem wireLabels_cons (l : Label) (ls : List Label) :
    wireLabels (l :: ls) = l.length.toUInt8 :: (l ++ wireLabels ls) := by
  simp only [wireLabels, List.flatMap_cons, List.cons_append, List.append_assoc]

theorem length_wireLabels (ls : List Label) : (wireLabels ls).length = wireLen ls := by
  induction ls with
  | nil => rfl
  | cons l ls ih =>
    rw [wireLabels_cons, wireLen_cons, List.length_cons, List.length_append, ih]
    omega

theorem toUInt8_inj {m n : Nat} (hm : m ≤ 63) (hn : n ≤ 63) (h : m.toUInt8 = n.toUInt8) :
    m = n := by
  have := congrArg UInt8.toNat h
  rw [Nat.toUInt8_eq, Nat.toUInt8_eq, UInt8.toNat_ofNat', UInt8.toNat_ofNat'] at this
  omega

theorem toUInt8_ne_zero {n : Nat} (h : 1 ≤ n ∧ n ≤ 63) : n.toUInt8 ≠ 0 := by
  intro h0
  have := toUInt8_inj h.2 (Nat.zero_le _) h0
  omega

theorem framed_wireLabels :
    Framed (fun ls : List Label => ∀ l ∈ ls, 1 ≤ l.length ∧ l.length ≤ 63) wireLabels id := by
  intro ls
  induction ls with
  | nil =>
    intro ms _ hm r s h
    cases ms with
    | nil => exact ⟨rfl, List.append_cancel_left h⟩
    | cons m ms =>
      rw [wireLabels_cons] at h
      exact absurd (List.cons.inj h).1.symm (toUInt8_ne_zero (hm m List.mem_cons_self))
  | cons l ls ih =>
    intro ms hl hm r s h
    cases ms with
    | nil =>
      rw [wireLabels_cons] at h
      exact absurd (List.cons.inj h).1 (toUInt8_ne_zero (hl l List.mem_cons_self))
    | cons m ms =>
      rw [wireLabels_cons, wireLabels_cons, List.cons_append, List.cons_append,
        List.append_assoc, List.append_assoc] at h
      obtain ⟨hlen, hrest⟩ := List.cons.inj h
      have hlen' := toUInt8_inj (hl l List.mem_cons_self).2 (hm m List.mem_cons_self).2 hlen
      obtain ⟨rfl, hrest'⟩ := List.append_inj hrest hlen'
      obtain ⟨hls, hr⟩ := ih ms (fun k hk => hl k (List.mem_cons_of_mem _ hk))
        (fun k hk => hm k (List.mem_cons_of_mem _ hk)) r s hrest'
      exact ⟨congrArg (l :: ·) hls, hr⟩

theorem two_mul_length_le_wireLen {ls : List Label} (h : ∀ l ∈ ls, 1 ≤ l.length) :
    2 * ls.length + 1 ≤ wireLen ls := by
  induction ls with
  | nil => exact le_refl _
  | cons l ls ih =>
    have hl := h l (List.mem_cons_self ..)
    have hrest := ih fun l' hl' => h l' (List.mem_cons_of_mem _ hl')
    rw [wireLen_cons, List.length_cons]
    omega

namespace Name

/-- a name has at most 127 labels -/
theorem length_labels_le (n : Name) : n.labels.length ≤ 127 := by
  have hlen := two_mul_length_le_wireLen fun l hl => (n.valid.1 l hl).1
  have hwire := n.valid.2
  omega

theorem toNat_labelCount (n : Name) : n.labels.length.toUInt8.toNat = n.labels.length := by
  have hbound := n.length_labels_le
  rw [Nat.toUInt8_eq, UInt8.toNat_ofNat']
  omega

section
variable {α : Type} {ok : α → Prop}

theorem framed_wire (f : α → Name) : Framed ok (fun a => (f a).wire) fun a => (f a).labels :=
  (framed_wireLabels.comp fun a => (f a).labels).mono fun a _ => (f a).valid.1

theorem framed_wireLower (f : α → Name) :
    Framed ok (fun a => (f a).wireLower) fun a => (f a).fold :=
  (framed_wireLabels.comp fun a => (f a).fold).mono fun a _ =>
    (validLabels_fold.mpr (f a).valid).1

end

theorem wire_inj {a b : Name} (h : a.wire = b.wire) : a = b := by
  have hf : Framed (fun _ => True) wire labels := framed_wire id
  exact ext (hf a b trivial trivial [] [] (by rw [h])).1

theorem length_wire_congr {a b : Name} (h : a.fold = b.fold) : a.wire.length = b.wire.length := by
  have hlen := congrArg wireLen h
  rw [fold, fold, wireLen_fold, wireLen_fold] at hlen
  rw [wire, wire, length_wireLabels, length_wireLabels, hlen]

theorem length_wireLower_le (n : Name) : n.wireLower.length ≤ 255 := by
  rw [wireLower, length_wireLabels, fold, wireLen_fold]
  exact n.valid.2

theorem length_wire_le (n : Name) : n.wire.length ≤ 255 := by
  rw [wire, length_wireLabels]
  exact n.valid.2

end Name
end DnsResolver
