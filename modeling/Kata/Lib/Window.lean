import Mathlib.Data.List.Basic

/-!
# Kata.Lib.Window

A window of a list: `n` entries from position `i` on. `All` says that they are there and all have
one value, and `fill` sets them. `count_fill_new` and `count_fill_old` count the entries of a list
when a window changes from one value to another.
-/

namespace Lib
namespace Window

variable {α : Type}

/-- Set the entries that exist in the window. -/
def fill : List α → Nat → Nat → α → List α
  | [], _, _, _ => []
  | xs, 0, 0, _ => xs
  | _ :: xs, 0, n + 1, v => v :: fill xs 0 n v
  | x :: xs, i + 1, n, v => x :: fill xs i n v

/-- The window lies in the list, and every entry in it is `v`. -/
def All (xs : List α) (i n : Nat) (v : α) : Prop := ∀ k, i ≤ k → k < i + n → xs[k]? = some v

variable {xs : List α} {x v a b : α} {i n k : Nat}

@[simp] theorem length_fill : (fill xs i n v).length = xs.length := by
  fun_induction fill xs i n v with
  | case1 | case2 => rfl
  | case3 _ xs n v ih | case4 x xs i n v ih => rw [List.length_cons, List.length_cons, ih]

theorem getElem?_fill_inside (h : i ≤ k) (hk : k < i + n) (hlen : k < xs.length) : (fill xs i n v)[k]? = some v := by
  fun_induction fill xs i n v generalizing k with
  | case1 => exact absurd hlen (Nat.not_lt_zero _)
  | case2 => omega
  | case3 _ xs n v ih =>
    cases k with
    | zero => rfl
    | succ k =>
      rw [List.length_cons] at hlen
      exact ih (Nat.zero_le _) (by omega) (by omega)
  | case4 x xs i n v ih =>
    cases k with
    | zero => omega
    | succ k =>
      rw [List.length_cons] at hlen
      exact ih (by omega) (by omega) (by omega)

theorem getElem?_fill_outside (h : k < i ∨ i + n ≤ k) : (fill xs i n v)[k]? = xs[k]? := by
  fun_induction fill xs i n v generalizing k with
  | case1 | case2 => rfl
  | case3 _ xs n v ih =>
    cases k with
    | zero => omega
    | succ k => exact ih (by omega)
  | case4 x xs i n v ih =>
    cases k with
    | zero => rfl
    | succ k => exact ih (by omega)

theorem All.tail (h : All (x :: xs) (i + 1) n v) : All xs i n v := by
  intro k hk hkn
  exact h (k + 1) (by omega) (by omega)

theorem All.tail_zero (h : All (x :: xs) 0 (n + 1) v) : All xs 0 n v := by
  intro k hk hkn
  exact h (k + 1) (by omega) (by omega)

theorem All.head_eq (h : All (x :: xs) 0 (n + 1) v) : x = v :=
  Option.some.inj (h 0 (Nat.le_refl _) (by omega))

theorem fill_one : fill xs i 1 v = xs.set i v := by
  induction xs generalizing i with
  | nil => rfl
  | cons x xs ih =>
    cases i with
    | zero =>
      rw [fill, List.set_cons_zero]
      cases xs <;> rfl
    | succ i => rw [fill, List.set_cons_succ, ih]

/-- The first entry can be set before the others. -/
theorem fill_set : fill (xs.set i v) (i + 1) n v = fill xs i (n + 1) v := by
  induction xs generalizing i with
  | nil => rfl
  | cons x xs ih =>
    cases i with
    | zero => rfl
    | succ i => rw [List.set_cons_succ, fill, fill, ih]

theorem fill_eq_self (h : ∀ k, i ≤ k → k < i + n → k < xs.length → xs[k]? = some v) : fill xs i n v = xs := by
  apply List.ext_getElem?
  intro k
  by_cases hk : i ≤ k ∧ k < i + n ∧ k < xs.length
  · rw [getElem?_fill_inside hk.1 hk.2.1 hk.2.2, h k hk.1 hk.2.1 hk.2.2]
  · by_cases hlen : k < xs.length
    · exact getElem?_fill_outside (by omega)
    · rw [List.getElem?_eq_none (by rw [length_fill]; omega), List.getElem?_eq_none (by omega)]

section Count

variable [DecidableEq α]

theorem count_fill_new (hab : b ≠ a) (h : All xs i n b) : (fill xs i n a).count a = xs.count a + n := by
  fun_induction fill xs i n a with
  | case1 i n a =>
    cases n with
    | zero => rfl
    | succ n => cases h i (Nat.le_refl _) (by omega)
  | case2 => rfl
  | case3 x xs n a ih =>
    rw [h.head_eq, List.count_cons_self, List.count_cons_of_ne hab, ih hab h.tail_zero]
    omega
  | case4 x xs i n a ih =>
    rw [List.count_cons, List.count_cons, ih hab h.tail]
    omega

theorem count_fill_old (hab : a ≠ b) (h : All xs i n b) : (fill xs i n a).count b + n = xs.count b := by
  fun_induction fill xs i n a with
  | case1 i n a =>
    cases n with
    | zero => rfl
    | succ n => cases h i (Nat.le_refl _) (by omega)
  | case2 => rfl
  | case3 x xs n a ih =>
    have hrest := ih hab h.tail_zero
    rw [h.head_eq, List.count_cons_self, List.count_cons_of_ne hab]
    omega
  | case4 x xs i n a ih =>
    have hrest := ih hab h.tail
    rw [List.count_cons, List.count_cons]
    omega

theorem count_fill_le (hab : a ≠ b) : (fill xs i n a).count b ≤ xs.count b := by
  fun_induction fill xs i n a with
  | case1 | case2 => exact Nat.le_refl _
  | case3 x xs n a ih =>
    rw [List.count_cons_of_ne hab]
    exact Nat.le_trans (ih hab) List.count_le_count_cons
  | case4 x xs i n a ih =>
    rw [List.count_cons, List.count_cons]
    exact Nat.add_le_add_right (ih hab) _

theorem count_fill_lt (hab : a ≠ b) (h : i ≤ k) (hk : k < i + n) (hx : xs[k]? = some b) :
    (fill xs i n a).count b < xs.count b := by
  fun_induction fill xs i n a generalizing k with
  | case1 => cases hx
  | case2 => omega
  | case3 x xs n a ih =>
    rw [List.count_cons_of_ne hab]
    cases k with
    | zero =>
      rw [List.getElem?_cons_zero, Option.some_inj] at hx
      rw [hx, List.count_cons_self]
      exact Nat.lt_succ_of_le (count_fill_le hab)
    | succ k => exact Nat.lt_of_lt_of_le (ih hab (Nat.zero_le _) (by omega) hx) List.count_le_count_cons
  | case4 x xs i n a ih =>
    rw [List.count_cons, List.count_cons]
    cases k with
    | zero => omega
    | succ k => exact Nat.add_lt_add_right (ih hab (by omega) (by omega) hx) _

end Count

end Window
end Lib
