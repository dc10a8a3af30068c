import Mathlib.Tactic.Ring

/-!
# Kata.Lib.Lists

Where a cut of a list falls when the list is also given as `l ++ e :: r`, the last element with a
property, and what a change of one element does to a count.
-/

namespace Lib

variable {α : Type}

/-- A cut of `l ++ e :: r` falls in `l` (or right before `e`), or behind `e`. -/
theorem append_cons_cut {l r pre post : List α} {e : α} (h : l ++ e :: r = pre ++ post) :
    (∃ c, l = pre ++ c ∧ post = c ++ e :: r) ∨ (∃ c, pre = l ++ e :: c ∧ r = c ++ post) := by
  rcases List.append_eq_append_iff.mp h with ⟨c, hpre, hpost⟩ | ⟨c, hl, hpost⟩
  · cases c with
    | nil => exact .inl ⟨[], by simpa using hpre.symm, by simpa using hpost.symm⟩
    | cons x c =>
      simp only [List.cons_append, List.cons.injEq] at hpost
      exact .inr ⟨c, by rw [hpre, hpost.1], hpost.2⟩
  · exact .inl ⟨c, hl, hpost⟩

/-- An element `x` of `l ++ e :: r` lies in `l`, is `e`, or lies in `r`. -/
theorem append_cons_elem {l r pre post : List α} {e x : α} (h : l ++ e :: r = pre ++ x :: post) :
    (∃ c, l = pre ++ x :: c ∧ post = c ++ e :: r) ∨ (l = pre ∧ e = x ∧ r = post) ∨
      (∃ c, pre = l ++ e :: c ∧ r = c ++ x :: post) := by
  rcases append_cons_cut h with ⟨c, hl, hpost⟩ | ⟨c, hpre, hr⟩
  · cases c with
    | nil =>
      simp only [List.nil_append, List.cons.injEq] at hpost
      exact .inr (.inl ⟨by simpa using hl, hpost.1.symm, hpost.2.symm⟩)
    | cons y c =>
      simp only [List.cons_append, List.cons.injEq] at hpost
      exact .inl ⟨c, by rw [hl, hpost.1], hpost.2⟩
  · exact .inr (.inr ⟨c, hpre, hr⟩)

theorem exists_last {P : α → Prop} {l : List α} (h : ∃ x ∈ l, P x) :
    ∃ pre x post, l = pre ++ x :: post ∧ P x ∧ ∀ y ∈ post, ¬ P y := by
  induction l with
  | nil =>
    obtain ⟨x, hx, -⟩ := h
    exact nomatch hx
  | cons z l ih =>
    by_cases hlater : ∃ x ∈ l, P x
    · obtain ⟨pre, x, post, rfl, hx, hpost⟩ := ih hlater
      exact ⟨z :: pre, x, post, rfl, hx, hpost⟩
    · obtain ⟨x, hx, hP⟩ := h
      rcases List.mem_cons.mp hx with rfl | hx
      · exact ⟨[], x, l, rfl, hP, fun y hy hPy => hlater ⟨y, hy, hPy⟩⟩
      · exact absurd ⟨x, hx, hP⟩ hlater

theorem countP_set_add {l : List α} {i : Nat} {a b : α} (p : α → Bool) (h : l[i]? = some a) :
    (l.set i b).countP p + (p a).toNat = l.countP p + (p b).toNat := by
  obtain ⟨hi, ha⟩ := List.getElem?_eq_some_iff.mp h
  have hpos : p a = true → 0 < l.countP p := fun hp => List.countP_pos_iff.mpr ⟨a, List.mem_of_getElem? h, hp⟩
  rw [List.countP_set hi, ha]
  cases hpa : p a with
  | false => cases p b <;> simp
  | true =>
    have := hpos hpa
    cases p b <;> simp <;> omega

end Lib
