import Mathlib.Tactic.Ring

/-!
# Kata.Lib.SortedMap

Maps as lists of pairs in the order of the keys. A lookup is `List.lookup`, which finds the first
pair with the key.
-/

namespace Lib
namespace SortedMap

variable {κ β : Type} [BEq κ] [LawfulBEq κ] {k k' : κ} {v : β} {l : List (κ × β)}

theorem lookup_cons_of_ne {p : κ × β} (h : k ≠ p.1) : List.lookup k (p :: l) = List.lookup k l := by
  rw [List.lookup_cons, beq_false_of_ne h]

theorem mem_of_lookup (h : l.lookup k = some v) : (k, v) ∈ l := by
  induction l with
  | nil => cases h
  | cons p l ih =>
    by_cases heq : k = p.1
    · rw [List.lookup_cons, heq, beq_self_eq_true] at h
      cases h
      rw [heq]
      exact List.mem_cons_self
    · rw [lookup_cons_of_ne heq] at h
      exact List.mem_cons_of_mem p (ih h)

theorem lookup_of_mem (hl : (l.map Prod.fst).Nodup) (h : (k, v) ∈ l) : l.lookup k = some v := by
  induction l with
  | nil => cases h
  | cons p l ih =>
    rw [List.map_cons, List.nodup_cons] at hl
    rcases List.mem_cons.mp h with rfl | h
    · exact List.lookup_cons_self
    · have hne : k ≠ p.1 := by
        rintro rfl
        exact hl.1 (List.mem_map.mpr ⟨_, h, rfl⟩)
      rw [lookup_cons_of_ne hne]
      exact ih hl.2 h

variable [LT κ] [DecidableLT κ]

def insert (k : κ) (v : β) : List (κ × β) → List (κ × β)
  | [] => [(k, v)]
  | (k', v') :: l =>
    if k == k' then (k, v) :: l
    else if k < k' then (k, v) :: (k', v') :: l
    else (k', v') :: insert k v l

@[simp] theorem lookup_insert_self (k : κ) (v : β) (l : List (κ × β)) : (insert k v l).lookup k = some v := by
  induction l with
  | nil => exact List.lookup_cons_self
  | cons p l ih =>
    obtain ⟨k', v'⟩ := p
    unfold insert
    by_cases heq : k = k'
    · rw [if_pos (beq_iff_eq.mpr heq)]
      exact List.lookup_cons_self
    · rw [if_neg (mt beq_iff_eq.mp heq)]
      by_cases hlt : k < k'
      · rw [if_pos hlt]
        exact List.lookup_cons_self
      · rw [if_neg hlt, lookup_cons_of_ne heq, ih]

theorem lookup_insert_of_ne (h : k' ≠ k) (v : β) (l : List (κ × β)) : (insert k v l).lookup k' = l.lookup k' := by
  induction l with
  | nil => exact lookup_cons_of_ne h
  | cons p l ih =>
    obtain ⟨j, w⟩ := p
    unfold insert
    by_cases heq : k = j
    · subst heq
      rw [if_pos (beq_self_eq_true k), lookup_cons_of_ne h, lookup_cons_of_ne h]
    · rw [if_neg (mt beq_iff_eq.mp heq)]
      by_cases hlt : k < j
      · rw [if_pos hlt, lookup_cons_of_ne h]
      · rw [if_neg hlt, List.lookup_cons, List.lookup_cons, ih]

theorem mem_insert {p : κ × β} (h : p ∈ insert k v l) : p = (k, v) ∨ p ∈ l := by
  induction l with
  | nil => exact .inl (List.mem_singleton.mp h)
  | cons q l ih =>
    obtain ⟨k', v'⟩ := q
    unfold insert at h
    split at h
    · rcases List.mem_cons.mp h with h | h
      · exact .inl h
      · exact .inr (List.mem_cons_of_mem _ h)
    · split at h
      · rcases List.mem_cons.mp h with h | h
        · exact .inl h
        · exact .inr h
      · rcases List.mem_cons.mp h with h | h
        · exact .inr (h ▸ List.mem_cons_self)
        · rcases ih h with h | h
          · exact .inl h
          · exact .inr (List.mem_cons_of_mem _ h)

theorem mem_insert_of_lookup_none (h : l.lookup k = none) {p : κ × β} (hp : p ∈ l) : p ∈ insert k v l := by
  induction l with
  | nil => exact nomatch hp
  | cons q l ih =>
    obtain ⟨k', v'⟩ := q
    have hne : k ≠ k' := by
      intro heq
      subst heq
      rw [List.lookup_cons_self] at h
      cases h
    rw [lookup_cons_of_ne hne] at h
    unfold insert
    rw [if_neg (mt beq_iff_eq.mp hne)]
    by_cases hlt : k < k'
    · rw [if_pos hlt]
      exact List.mem_cons_of_mem _ hp
    · rw [if_neg hlt]
      rcases List.mem_cons.mp hp with rfl | hp
      · exact List.mem_cons_self
      · exact List.mem_cons_of_mem _ (ih h hp)

end SortedMap
end Lib
