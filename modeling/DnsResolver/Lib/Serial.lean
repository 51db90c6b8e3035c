import Mathlib.Tactic.Common

/-!
# Serial numbers and clocks

A clock that counts in `Nat` is read modulo the size of `UInt32`.  Two readings are compared by
the distance from one to the other: at most half the circle is "not before".

* `toNat_sub_clock`   how far a deadline is from a later reading;
* `toNat_clock_sub`   how far a later reading is from a start;
* `Window`            a start, a deadline and a reading between them, all at most half the circle
                      apart; `Window.later` and `Window.elapsed` say how long it stays open.
-/

namespace Serial

variable {start deadline : UInt32} {s t : Nat}

theorem toNat_sub_clock (hst : s ≤ t) (hl : t - s ≤ (deadline - UInt32.ofNat s).toNat) :
    (deadline - UInt32.ofNat t).toNat = (deadline - UInt32.ofNat s).toNat - (t - s) := by
  have hd := deadline.toNat_lt
  simp only [UInt32.toNat_sub, UInt32.toNat_ofNat'] at hl ⊢
  omega

theorem toNat_clock_sub (hst : s ≤ t)
    (hl : (UInt32.ofNat s - start).toNat + (t - s) < 4294967296) :
    (UInt32.ofNat t - start).toNat = (UInt32.ofNat s - start).toNat + (t - s) := by
  have hd := start.toNat_lt
  simp only [UInt32.toNat_sub, UInt32.toNat_ofNat'] at hl ⊢
  omega

theorem half_iff {a : UInt32} : a < 0x80000000 ↔ a.toNat < 2147483648 := UInt32.lt_iff_toNat_lt

/-- `now` is not before `start`, `deadline` is not before `now`, nor before `start` -/
structure Window (start deadline now : UInt32) : Prop where
  started : now - start < 0x80000000
  running : deadline - now < 0x80000000
  ordered : deadline - start < 0x80000000

theorem Window.toNat_add {now : UInt32} (h : Window start deadline now) :
    (now - start).toNat + (deadline - now).toNat = (deadline - start).toNat := by
  obtain ⟨h1, h2, _⟩ := h
  have hs := start.toNat_lt
  have hd := deadline.toNat_lt
  have hn := now.toNat_lt
  rw [half_iff] at h1 h2
  simp only [UInt32.toNat_sub] at h1 h2 ⊢
  omega

/-- **A window stays open until its deadline.** -/
theorem Window.later (h : Window start deadline (UInt32.ofNat s)) (hst : s ≤ t)
    (hl : t - s ≤ (deadline - UInt32.ofNat s).toNat) : Window start deadline (UInt32.ofNat t) := by
  have hsum := h.toNat_add
  have hord := h.ordered
  have hrun := h.running
  rw [half_iff] at hord hrun
  have hleft := toNat_sub_clock hst hl
  have hgone : (UInt32.ofNat t - start).toNat = (UInt32.ofNat s - start).toNat + (t - s) :=
    toNat_clock_sub hst (by omega)
  refine ⟨?_, ?_, h.ordered⟩
  · rw [half_iff, hgone]
    omega
  · rw [half_iff, hleft]
    omega

/-- a window that is still open has not passed its deadline, if less than half the circle went by -/
theorem Window.elapsed (h : Window start deadline (UInt32.ofNat s))
    (h' : Window start deadline (UInt32.ofNat t)) (hst : s ≤ t) (hl : t - s < 2147483648) :
    t - s ≤ (deadline - UInt32.ofNat s).toNat := by
  have hrun := h.running
  have hrun' := h'.running
  have hd := deadline.toNat_lt
  rw [half_iff] at hrun hrun'
  simp only [UInt32.toNat_sub, UInt32.toNat_ofNat'] at hrun hrun' ⊢
  omega

end Serial
