import Mathlib.Algebra.BigOperators.Group.Finset.Basic
import Mathlib.Tactic.Ring
import Mathlib.Data.List.AList

/-!
# Kata.Lib.Dict

Dictionaries as association lists: what is left when entries are dropped by their keys, and
dictionaries into which the entries of a list are put one after another. The keys are then those of
the dictionary and of the list (`keys_puts`), and if no key is twice in the list, every entry of the
list is in the dictionary (`lookup_puts_of_mem`).
-/

namespace Lib
namespace Dict

variable {κ β : Type} [DecidableEq κ] {keep : κ → Bool} {s : AList fun _ : κ => β} {k : κ} {v : β}

theorem lookup_insert_eq (s : AList fun _ : κ => β) (k k' : κ) (v : β) :
    (s.insert k v).lookup k' = if k' = k then some v else s.lookup k' := by
  by_cases h : k' = k
  · rw [if_pos h, h, AList.lookup_insert]
  · rw [if_neg h, AList.lookup_insert_ne h]

theorem lookup_erase_eq (s : AList fun _ : κ => β) (k k' : κ) :
    (s.erase k).lookup k' = if k' = k then none else s.lookup k' := by
  by_cases h : k' = k
  · rw [if_pos h, h, AList.lookup_erase]
  · rw [if_neg h, AList.lookup_erase_ne h]

def retain (keep : κ → Bool) (s : AList fun _ : κ => β) : AList fun _ : κ => β :=
  ⟨s.entries.filter fun e => keep e.1, s.nodupKeys.sublist List.filter_sublist⟩

theorem lookup_retain (keep : κ → Bool) (s : AList fun _ : κ => β) (k : κ) :
    (retain keep s).lookup k = if keep k then s.lookup k else none := by
  refine Option.ext fun v => ?_
  by_cases h : keep k
  · rw [if_pos h, ← Option.mem_def, ← Option.mem_def, AList.mem_lookup_iff, AList.mem_lookup_iff]
    exact List.mem_filter.trans (and_iff_left h)
  · rw [if_neg h, ← Option.mem_def, AList.mem_lookup_iff]
    refine ⟨fun hm => absurd (List.mem_filter.mp hm).2 h, nofun⟩

theorem mem_retain : k ∈ retain keep s ↔ keep k ∧ k ∈ s := by
  rw [← AList.lookup_isSome, lookup_retain, ← AList.lookup_isSome]
  by_cases h : keep k
  · rw [if_pos h, and_iff_right h]
  · rw [if_neg h]
    exact ⟨nofun, fun h' => absurd h'.1 h⟩

def keys (s : AList fun _ : κ => β) : Finset κ := s.keys.toFinset

@[simp] theorem mem_keys : k ∈ keys s ↔ k ∈ s := List.mem_toFinset

theorem card_keys (s : AList fun _ : κ => β) :
    (keys s).card = s.keys.length := List.toFinset_card_of_nodup s.keys_nodup

theorem sum_keys (f : κ → Nat) (s : AList fun _ : κ => β) : (s.keys.map f).sum = ∑ k ∈ keys s, f k :=
  (List.sum_toFinset f s.keys_nodup).symm

def puts (s : AList fun _ : κ => β) (l : List (κ × β)) : AList fun _ : κ => β :=
  l.foldl (fun s x => s.insert x.1 x.2) s

theorem mem_puts (l : List (κ × β)) : k ∈ puts s l ↔ k ∈ s ∨ k ∈ l.map Prod.fst := by
  induction l generalizing s with
  | nil => exact ⟨.inl, fun h => h.elim id nofun⟩
  | cons x l ih =>
    refine ih.trans ?_
    rw [AList.mem_insert, List.map_cons, List.mem_cons]
    tauto

theorem keys_puts (s : AList fun _ : κ => β) (l : List (κ × β)) :
    keys (puts s l) = keys s ∪ (l.map Prod.fst).toFinset := by
  ext k
  rw [mem_keys, mem_puts, Finset.mem_union, mem_keys, List.mem_toFinset]

theorem lookup_puts_of_notMem {l : List (κ × β)} (h : k ∉ l.map Prod.fst) : (puts s l).lookup k = s.lookup k := by
  induction l generalizing s with
  | nil => rfl
  | cons x l ih =>
    rw [List.map_cons, List.mem_cons, not_or] at h
    exact (ih h.2).trans (AList.lookup_insert_ne h.1)

theorem lookup_puts_of_mem {l : List (κ × β)} (hl : (l.map Prod.fst).Nodup) (h : (k, v) ∈ l) :
    (puts s l).lookup k = some v := by
  induction l generalizing s with
  | nil => cases h
  | cons x l ih =>
    rw [List.map_cons, List.nodup_cons] at hl
    rcases List.mem_cons.mp h with rfl | h
    · exact (lookup_puts_of_notMem hl.1).trans (AList.lookup_insert s)
    · exact ih hl.2 h

end Dict
end Lib
