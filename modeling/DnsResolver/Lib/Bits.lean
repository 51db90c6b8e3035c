import Mathlib.Data.List.Induction
import Mathlib.Tactic.Ring

/-!
# Bit strings, cut into groups and carried by a register

A bit string is a list of Booleans, the most significant bit first.

* `value`, `word`     the number a bit string stands for, and the `w` lowest bits of a number;
* `blocks`            the full groups of `w` members of a list, the remainder left out;
* `blocks_flatten`    a list that was put together from groups falls into these groups;
* `EndsWith n p`      the register `n` ends with the bits `p`: what it keeps of a stream after bits
                      were shifted in (`EndsWith.shift`), were read (`EndsWith.high`,
                      `EndsWith.low`) or fell off at its upper end (`EndsWith.wrap`).
-/

namespace BitGroups

/-! ## numbers and bit strings -/

def value (bs : List Bool) : Nat := bs.foldl (fun n b => 2 * n + b.toNat) 0

def word : Nat → Nat → List Bool
  | 0, _ => []
  | w + 1, n => word w (n / 2) ++ [decide (n % 2 = 1)]

theorem value_nil : value [] = 0 := rfl

theorem value_concat (bs : List Bool) (b : Bool) : value (bs ++ [b]) = 2 * value bs + b.toNat := by
  rw [value, List.foldl_append]
  rfl

theorem value_append (as bs : List Bool) :
    value (as ++ bs) = 2 ^ bs.length * value as + value bs := by
  induction bs using List.reverseRecOn with
  | nil => simp [value_nil]
  | append_singleton bs b ih =>
    rw [← List.append_assoc, value_concat, value_concat, ih, List.length_append,
      List.length_singleton, Nat.pow_succ]
    ring

theorem value_lt (bs : List Bool) : value bs < 2 ^ bs.length := by
  induction bs using List.reverseRecOn with
  | nil => exact Nat.one_pos
  | append_singleton bs b ih =>
    have hb : b.toNat ≤ 1 := Bool.toNat_le b
    rw [value_concat, List.length_append, List.length_singleton, Nat.pow_succ]
    omega

theorem length_word (w n : Nat) : (word w n).length = w := by
  induction w generalizing n with
  | zero => rfl
  | succ w ih => rw [word, List.length_append, ih, List.length_singleton]

theorem length_flatMap_word {α : Type*} (w : Nat) (f : α → Nat) (l : List α) :
    (l.flatMap fun x => word w (f x)).length = w * l.length := by
  induction l with
  | nil => rfl
  | cons x l ih =>
    rw [List.flatMap_cons, List.length_append, length_word, ih, List.length_cons, Nat.mul_add,
      Nat.mul_one, Nat.add_comm]

theorem value_word {w n : Nat} (h : n < 2 ^ w) : value (word w n) = n := by
  induction w generalizing n with
  | zero =>
    rw [Nat.pow_zero] at h
    rw [word, value_nil]
    omega
  | succ w ih =>
    rw [Nat.pow_succ] at h
    rw [word, value_concat, ih (by omega)]
    rcases Nat.mod_two_eq_zero_or_one n with hn | hn
    · rw [hn, decide_eq_false (by omega), Bool.toNat_false]
      omega
    · rw [hn, decide_eq_true rfl, Bool.toNat_true]
      omega

theorem word_value (bs : List Bool) : word bs.length (value bs) = bs := by
  induction bs using List.reverseRecOn with
  | nil => rfl
  | append_singleton bs b ih =>
    have hb : b.toNat ≤ 1 := Bool.toNat_le b
    have hhalf : (2 * value bs + b.toNat) / 2 = value bs := by omega
    have hbit : decide ((2 * value bs + b.toNat) % 2 = 1) = b := by
      rw [Nat.mul_add_mod]
      cases b <;> rfl
    rw [value_concat, List.length_append, List.length_singleton, word, hhalf, ih, hbit]

/-! ## groups -/

section
variable {α : Type*} {w : Nat}

/-- the full groups of `w` members, in order -/
def blocks (w : Nat) (l : List α) : List (List α) :=
  (List.range (l.length / w)).map fun i => (l.drop (w * i)).take w

theorem blocks_of_lt {l : List α} (h : l.length < w) : blocks w l = [] := by
  rw [blocks, Nat.div_eq_of_lt h]
  rfl

theorem blocks_append {a l : List α} (hw : 0 < w) (ha : a.length = w) :
    blocks w (a ++ l) = a :: blocks w l := by
  have hlen : (a ++ l).length / w = l.length / w + 1 := by
    rw [List.length_append, ha, Nat.add_div_left _ hw]
  rw [blocks, hlen, List.range_succ_eq_map, List.map_cons, List.map_map]
  refine congrArg₂ List.cons ?_ (List.map_congr_left fun i _ => ?_)
  · rw [Nat.mul_zero, List.drop_zero, ← ha, List.take_left]
  · show ((a ++ l).drop (w * (i + 1))).take w = (l.drop (w * i)).take w
    rw [Nat.mul_succ, Nat.add_comm, ← List.drop_drop, ← ha, List.drop_left]

/-- **Groups put together fall apart into the same groups**, whatever is left over behind them. -/
theorem blocks_flatten {L : List (List α)} {r : List α} (hL : ∀ a ∈ L, a.length = w)
    (hr : r.length < w) : blocks w (L.flatten ++ r) = L := by
  induction L with
  | nil => exact blocks_of_lt hr
  | cons a L ih =>
    rw [List.flatten_cons, List.append_assoc, blocks_append (by omega) (hL a List.mem_cons_self),
      ih fun b hb => hL b (List.mem_cons_of_mem a hb)]

theorem length_of_mem_blocks {l a : List α} (h : a ∈ blocks w l) : a.length = w := by
  obtain ⟨i, hi, rfl⟩ := List.mem_map.mp h
  have hi' : (i + 1) * w ≤ l.length :=
    Nat.mul_le_of_le_div w (i + 1) l.length (List.mem_range.mp hi)
  rw [List.length_take, List.length_drop]
  rw [Nat.succ_mul, Nat.mul_comm] at hi'
  omega

theorem flatten_blocks (hw : 0 < w) (l : List α) (h : w ∣ l.length) :
    (blocks w l).flatten = l := by
  obtain ⟨k, hk⟩ := h
  induction k generalizing l with
  | zero =>
    rw [List.length_eq_zero_iff.mp hk, blocks_of_lt (show ([] : List α).length < w from hw)]
    rfl
  | succ k ih =>
    rw [Nat.mul_succ] at hk
    have htake : (l.take w).length = w := by
      rw [List.length_take]
      omega
    have hdrop : (l.drop w).length = w * k := by
      rw [List.length_drop]
      omega
    calc (blocks w l).flatten = (blocks w (l.take w ++ l.drop w)).flatten := by
          rw [List.take_append_drop]
      _ = l.take w ++ (blocks w (l.drop w)).flatten := by
          rw [blocks_append hw htake, List.flatten_cons]
      _ = l := by rw [ih _ hdrop, List.take_append_drop]

end

theorem flatMap_word_blocks {w : Nat} (hw : 0 < w) (l : List Bool) (h : w ∣ l.length) :
    ((blocks w l).map value).flatMap (word w) = l := by
  rw [List.flatMap, List.map_map]
  refine Eq.trans ?_ (flatten_blocks hw l h)
  refine congrArg List.flatten ((List.map_congr_left fun g hg => ?_).trans (List.map_id _))
  show word w (value g) = g
  rw [← length_of_mem_blocks hg, word_value]

theorem blocks_octets (b : List UInt8) {r : List Bool} (hr : r.length < 8) :
    (blocks 8 (b.flatMap (fun x => word 8 x.toNat) ++ r)).map (fun g => UInt8.ofNat (value g)) =
      b := by
  have hlen : ∀ g ∈ b.map fun x => word 8 x.toNat, g.length = 8 := by
    intro g hg
    obtain ⟨x, _, rfl⟩ := List.mem_map.mp hg
    exact length_word 8 x.toNat
  have hbyte : ∀ x : UInt8, UInt8.ofNat (value (word 8 x.toNat)) = x := by
    intro x
    rw [value_word x.toNat_lt, UInt8.ofNat_toNat]
  rw [List.flatMap, blocks_flatten hlen hr, List.map_map]
  exact (List.map_congr_left fun x _ => hbyte x).trans (List.map_id b)

/-- zero bits behind, up to a multiple of `w` -/
def pad (w : Nat) (bs : List Bool) : List Bool :=
  bs ++ List.replicate ((w - bs.length % w) % w) false

theorem dvd_length_pad {w : Nat} (hw : 0 < w) (bs : List Bool) : w ∣ (pad w bs).length := by
  rw [pad, List.length_append, List.length_replicate]
  apply Nat.dvd_of_mod_eq_zero
  have hlt := Nat.mod_lt bs.length hw
  rw [Nat.add_mod, Nat.mod_mod]
  rcases Nat.eq_zero_or_pos (bs.length % w) with h | h
  · rw [h, Nat.sub_zero, Nat.mod_self, Nat.zero_add, Nat.zero_mod]
  · rw [Nat.mod_eq_of_lt (show w - bs.length % w < w by omega),
      show bs.length % w + (w - bs.length % w) = w by omega, Nat.mod_self]

/-! ## a register -/

/-- the lowest bits of `n` are `p` -/
def EndsWith (n : Nat) (p : List Bool) : Prop := n % 2 ^ p.length = value p

section
variable {n w : Nat} {p q : List Bool}

theorem EndsWith.shift (h : EndsWith n p) (q : List Bool) :
    EndsWith (2 ^ q.length * n + value q) (p ++ q) := by
  unfold EndsWith at h ⊢
  rw [List.length_append, value_append, ← h, Nat.pow_add, Nat.mul_comm (2 ^ p.length),
    Nat.add_mod, Nat.mul_mod_mul_left]
  have hq := value_lt q
  have hp := Nat.mod_lt n (Nat.two_pow_pos p.length)
  have hle : 2 ^ q.length * (n % 2 ^ p.length) + 2 ^ q.length ≤ 2 ^ q.length * 2 ^ p.length := by
    rw [← Nat.mul_succ]
    exact Nat.mul_le_mul_left _ hp
  rw [Nat.mod_eq_of_lt (a := value q) (by omega), Nat.mod_eq_of_lt (by omega)]

theorem EndsWith.low (h : EndsWith n (p ++ q)) : EndsWith n q := by
  unfold EndsWith at h ⊢
  rw [List.length_append, value_append] at h
  have hdvd : 2 ^ q.length ∣ 2 ^ (p.length + q.length) :=
    Nat.pow_dvd_pow 2 (Nat.le_add_left _ _)
  rw [← Nat.mod_mod_of_dvd n hdvd, h, Nat.mul_add_mod, Nat.mod_eq_of_lt (value_lt q)]

theorem EndsWith.high (h : EndsWith n (p ++ q)) : EndsWith (n / 2 ^ q.length) p := by
  unfold EndsWith at h ⊢
  rw [List.length_append, value_append, Nat.pow_add, Nat.mul_comm] at h
  rw [← Nat.mod_mul_right_div_self, h, Nat.mul_add_div (Nat.two_pow_pos _),
    Nat.div_eq_of_lt (value_lt q), Nat.add_zero]

/-- bits that fall off at the upper end of the register do not matter -/
theorem EndsWith.wrap (h : EndsWith n p) (hw : p.length ≤ w) : EndsWith (n % 2 ^ w) p := by
  unfold EndsWith at h ⊢
  rw [Nat.mod_mod_of_dvd n (Nat.pow_dvd_pow 2 hw), h]

end
end BitGroups
