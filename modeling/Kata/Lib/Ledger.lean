import Mathlib.Data.Set.Insert
import Mathlib.Logic.Function.Basic

/-!
# Kata.Lib.Ledger

Keys with owners. In a `Ledger` every key that is taken has exactly one owner, and nobody owns
another key. It is kept when somebody without a key takes one that is free (`take`), and when a key
is given back by its owner (`release`).

The numbers below a counter that were not released are such keys (`inUse`). The lowest of those that
are free is the last one of a descending list of released numbers, or else the counter (`lowest`).
-/

namespace Lib

variable {ι κ : Type}

structure Ledger (taken : Set κ) (owner : ι → Option κ) : Prop where
  single : ∀ {d d' i}, owner d = some i → owner d' = some i → d = d'
  taken_iff : ∀ i, i ∈ taken ↔ ∃ d, owner d = some i

namespace Ledger

variable {taken : Set κ} {owner : ι → Option κ} {d : ι} {i : κ}

theorem empty : Ledger (∅ : Set κ) (fun _ : ι => none) := ⟨nofun, fun _ => ⟨nofun, nofun⟩⟩

variable [DecidableEq ι]

theorem keep (h : Ledger taken owner) {key : Option κ} (hd : owner d = key) :
    Ledger taken (Function.update owner d key) := by
  rw [← hd, Function.update_eq_self]
  exact h

theorem take (h : Ledger taken owner) (hd : owner d = none) (hi : i ∉ taken) :
    Ledger (insert i taken) (Function.update owner d (some i)) := by
  have hfree : ∀ d', owner d' ≠ some i := fun d' hd' => hi ((h.taken_iff i).mpr ⟨d', hd'⟩)
  constructor
  · intro d1 d2 j h1 h2
    by_cases hd1 : d1 = d
    · by_cases hd2 : d2 = d
      · rw [hd1, hd2]
      · rw [hd1, Function.update_self] at h1
        rw [Function.update_of_ne hd2] at h2
        exact absurd (h2.trans h1.symm) (hfree d2)
    · rw [Function.update_of_ne hd1] at h1
      by_cases hd2 : d2 = d
      · rw [hd2, Function.update_self] at h2
        exact absurd (h1.trans h2.symm) (hfree d1)
      · rw [Function.update_of_ne hd2] at h2
        exact h.single h1 h2
  · intro j
    constructor
    · rintro (rfl | hj)
      · exact ⟨d, Function.update_self _ _ _⟩
      · obtain ⟨d', hd'⟩ := (h.taken_iff j).mp hj
        have hne : d' ≠ d := by
          rintro rfl
          rw [hd] at hd'
          cases hd'
        exact ⟨d', (Function.update_of_ne hne _ _).trans hd'⟩
    · rintro ⟨d', hd'⟩
      by_cases heq : d' = d
      · rw [heq, Function.update_self] at hd'
        exact .inl (Option.some.inj hd').symm
      · rw [Function.update_of_ne heq] at hd'
        exact .inr ((h.taken_iff j).mpr ⟨d', hd'⟩)

theorem release (h : Ledger taken owner) (hd : owner d = some i) :
    Ledger (taken \ {i}) (Function.update owner d none) := by
  constructor
  · intro d1 d2 j h1 h2
    by_cases hd1 : d1 = d
    · rw [hd1, Function.update_self] at h1
      cases h1
    · by_cases hd2 : d2 = d
      · rw [hd2, Function.update_self] at h2
        cases h2
      · rw [Function.update_of_ne hd1] at h1
        rw [Function.update_of_ne hd2] at h2
        exact h.single h1 h2
  · intro j
    constructor
    · rintro ⟨hj, hne⟩
      obtain ⟨d', hd'⟩ := (h.taken_iff j).mp hj
      have hother : d' ≠ d := by
        rintro rfl
        exact hne (Option.some.inj (hd'.symm.trans hd))
      exact ⟨d', (Function.update_of_ne hother _ _).trans hd'⟩
    · rintro ⟨d', hd'⟩
      by_cases heq : d' = d
      · rw [heq, Function.update_self] at hd'
        cases hd'
      · rw [Function.update_of_ne heq] at hd'
        refine ⟨(h.taken_iff j).mpr ⟨d', hd'⟩, ?_⟩
        rintro rfl
        exact heq (h.single hd' hd)

theorem not_of_leak (h : Ledger taken owner) {taken' : Set κ} (hi : i ∈ taken')
    (hd : owner d = some i ∨ i ∉ taken) : ¬ Ledger taken' (Function.update owner d none) := by
  intro hl
  obtain ⟨d', hd'⟩ := (hl.taken_iff i).mp hi
  by_cases heq : d' = d
  · rw [heq, Function.update_self] at hd'
    cases hd'
  · rw [Function.update_of_ne heq] at hd'
    rcases hd with hd | hfree
    · exact heq (h.single hd' hd)
    · exact hfree ((h.taken_iff i).mpr ⟨d', hd'⟩)

end Ledger

/-! ## Numbers below a counter -/

section Numbers

/-- The numbers that were handed out and not released. -/
def inUse (counter : Nat) (released : List Nat) : Set Nat := {i | i < counter ∧ i ∉ released}

variable {counter : Nat} {released : List Nat} {i : Nat}

theorem inUse_succ (counter : Nat) : inUse (counter + 1) [] = insert counter (inUse counter []) := by
  ext i
  simp only [inUse, Set.mem_ofPred_eq, Set.mem_insert_iff, List.not_mem_nil, not_false_eq_true, and_true]
  omega

theorem inUse_release {released' : List Nat} (h : ∀ j, j ∈ released' ↔ j ∈ released ∨ j = i) :
    inUse counter released' = inUse counter released \ {i} := by
  ext j
  simp only [inUse, Set.mem_ofPred_eq, Set.mem_sdiff, Set.mem_singleton_iff, h, not_or, and_assoc]

/-- The next number is free, and those below it are in use. -/
theorem lowest (hsorted : released.Pairwise (· > ·)) (hlt : ∀ i ∈ released, i < counter) :
    released.getLast?.getD counter ∉ inUse counter released ∧
      ∀ j < released.getLast?.getD counter, j ∈ inUse counter released := by
  cases hlast : released.getLast? with
  | none =>
    rw [List.getLast?_eq_none_iff.mp hlast]
    exact ⟨fun h => Nat.lt_irrefl _ h.1, fun j hj => ⟨hj, List.not_mem_nil⟩⟩
  | some i =>
    obtain ⟨front, rfl⟩ := List.getLast?_eq_some_iff.mp hlast
    have hi : i ∈ front ++ [i] := List.mem_append_right _ (List.mem_singleton_self i)
    refine ⟨fun h => h.2 hi, ?_⟩
    intro j hj
    refine ⟨Nat.lt_trans hj (hlt i hi), ?_⟩
    intro hmem
    rcases List.mem_append.mp hmem with hfront | hsingle
    · have hgt := (List.pairwise_append.mp hsorted).2.2 j hfront i (List.mem_singleton_self i)
      exact Nat.lt_asymm hj hgt
    · exact Nat.ne_of_lt hj (List.mem_singleton.mp hsingle)

end Numbers
end Lib
