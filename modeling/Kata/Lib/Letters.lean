import Mathlib.Algebra.Ring.Int.Defs

/-!
# Kata.Lib.Letters

Numbers written with letters: a, b, …, z, aa, ab and so on. A fixed number of places is enough for
the numbers below a bound.
-/

namespace Lib

/-- The letters of `index`, the last one first, and what is left of it after so many places. -/
def letters : Nat → Int → List Char × Int
  | 0, index => ([], index)
  | places + 1, index =>
    if 0 ≤ index then
      let (ls, index') := letters places (index / 26 - 1)
      (Char.ofNat (97 + (index % 26).toNat) :: ls, index')
    else ([], index)

theorem letters_done (places : Nat) {index : Int} (h : index < 26 ^ places - 1) : (letters places index).2 < 0 := by
  induction places generalizing index with
  | zero =>
    rw [letters]
    simpa using h
  | succ n ih =>
    rw [letters]
    split
    · refine ih ?_
      have hpow : (26 : Int) ^ (n + 1) = 26 ^ n * 26 := pow_succ 26 n
      omega
    · rename_i hneg
      simpa using hneg

end Lib
