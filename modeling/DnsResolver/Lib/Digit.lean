import Mathlib.Tactic.SplitIfs

/-!
# Digits in a radix

`char::to_digit`: the letters of both cases go on where the ten digits end.

* `toDigit_lt`    a digit is below its radix;
* `toDigit_hex`   the hexadecimal digits.
-/

namespace Digit

/-- `char::to_digit` -/
def toDigit (radix : Nat) (c : Char) : Option Nat :=
  let n := c.toNat
  let d := if 48 ≤ n ∧ n ≤ 57 then n - 48
    else if 97 ≤ n ∧ n ≤ 122 then n - 87
    else if 65 ≤ n ∧ n ≤ 90 then n - 55
    else radix
  if d < radix then some d else none

/-- a byte as a character, the way `from_str_radix` reads it -/
def byteDigit (radix : Nat) (b : UInt8) : Option UInt8 :=
  (toDigit radix (Char.ofNat b.toNat)).map UInt8.ofNat

theorem toDigit_lt {radix x : Nat} {c : Char} (h : toDigit radix c = some x) : x < radix := by
  unfold toDigit at h
  dsimp only at h
  generalize (if 48 ≤ c.toNat ∧ c.toNat ≤ 57 then c.toNat - 48
    else if 97 ≤ c.toNat ∧ c.toNat ≤ 122 then c.toNat - 87
    else if 65 ≤ c.toNat ∧ c.toNat ≤ 90 then c.toNat - 55 else radix) = d at h
  by_cases hd : d < radix
  · rw [if_pos hd] at h
    rwa [← Option.some.inj h]
  · rw [if_neg hd] at h
    cases h

theorem toDigit_hex (c : Char) : toDigit 16 c ≠ none ↔ 48 ≤ c.toNat ∧ c.toNat ≤ 57 ∨
    65 ≤ c.toNat ∧ c.toNat ≤ 70 ∨ 97 ≤ c.toNat ∧ c.toNat ≤ 102 := by
  have hsome : ∀ d : Nat, (if d < 16 then some d else none) ≠ none ↔ d < 16 := by
    intro d
    by_cases hd : d < 16
    · rw [if_pos hd]
      exact iff_of_true (Option.some_ne_none d) hd
    · rw [if_neg hd]
      exact iff_of_false (fun h => h rfl) hd
  unfold toDigit
  dsimp only
  rw [hsome]
  split_ifs <;> omega

theorem byteDigit_ascii {radix : Nat} {c : Char} (h : c.toNat < 256) :
    byteDigit radix (UInt8.ofNat c.toNat) = (toDigit radix c).map UInt8.ofNat := by
  unfold byteDigit
  rw [UInt8.toNat_ofNat_of_lt' h, Char.ofNat_toNat]

theorem byteDigit_high {b : UInt8} (h : 128 ≤ b) : byteDigit 16 b = none := by
  have hall : ∀ n : Fin 256, 128 ≤ n.val → toDigit 16 (Char.ofNat n.val) = none := by decide +kernel
  unfold byteDigit
  rw [hall ⟨b.toNat, b.toNat_lt⟩ (UInt8.le_iff_toNat_le.mp h)]
  rfl

end Digit
