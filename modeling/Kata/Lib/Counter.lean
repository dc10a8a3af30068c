import Mathlib.Tactic.Ring

/-!
# Kata.Lib.Counter

Wrapping 32-bit counters. A pair of counters stands for the distance between them, which is exact as
long as it is below `2 ^ 32`, however often the counters themselves have wrapped.
-/

namespace Lib

variable {a b : UInt32} {k : Nat}

theorem toNat_eq_add_sub (a b : UInt32) : a.toNat = (b.toNat + (a - b).toNat) % 2 ^ 32 := by
  have ha := a.toNat_lt
  have hb := b.toNat_lt
  rw [UInt32.toNat_sub]
  omega

theorem toNat_add_sub (h : (a - b).toNat + k < 2 ^ 32) : (a + UInt32.ofNat k - b).toNat = (a - b).toNat + k := by
  have ha := a.toNat_lt
  have hb := b.toNat_lt
  simp only [UInt32.toNat_sub, UInt32.toNat_add, UInt32.toNat_ofNat'] at h ⊢
  omega

theorem toNat_sub_add (h : k ≤ (a - b).toNat) : (a - (b + UInt32.ofNat k)).toNat = (a - b).toNat - k := by
  have ha := a.toNat_lt
  have hb := b.toNat_lt
  simp only [UInt32.toNat_sub, UInt32.toNat_add, UInt32.toNat_ofNat'] at h ⊢
  omega

theorem toNat_ofNat_sub {l m : Nat} (hle : m ≤ l) (h : l - m < 2 ^ 32) :
    (UInt32.ofNat l - UInt32.ofNat m).toNat = l - m := by
  simp only [UInt32.toNat_sub, UInt32.toNat_ofNat']
  omega

end Lib
