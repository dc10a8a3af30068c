import Mathlib.Tactic.Common

/-!
# Kata.Lib.Collect

Collecting the wanted elements of a list into a bounded queue, with a flag that says whether all of
them fitted. The queue has the first ones of them, as many as fit (`collect_eq`): with its flag set
it is complete (`collect_complete`), without it full (`collect_full`).
-/

namespace Lib

variable {α β : Type} {size : Nat} {f : α → Option β} {q : List β} {as : List α}

def collect (size : Nat) (f : α → Option β) : List α → List β → List β × Bool
  | [], q => (q, true)
  | a :: as, q =>
    match f a with
    | none => collect size f as q
    | some b => if q.length ≥ size then (q, false) else collect size f as (q ++ [b])

theorem collect_eq (h : q.length ≤ size) : collect size f as q =
    (q ++ (as.filterMap f).take (size - q.length), decide (q.length + (as.filterMap f).length ≤ size)) := by
  induction as generalizing q with
  | nil => simp [collect, h]
  | cons a as ih =>
    cases ha : f a with
    | none =>
      simp only [collect, ha, List.filterMap_cons_none ha]
      exact ih h
    | some b =>
      simp only [collect, ha, List.filterMap_cons_some ha, List.length_cons]
      split
      · rename_i hge
        have hroom : size - q.length = 0 := Nat.sub_eq_zero_of_le hge
        have hmore : ¬ q.length + ((as.filterMap f).length + 1) ≤ size := by omega
        rw [hroom, List.take_zero, List.append_nil, decide_eq_false hmore]
      · rename_i hlt
        have hlen : (q ++ [b]).length = q.length + 1 := by rw [List.length_append, List.length_singleton]
        have hroom : size - q.length = size - (q.length + 1) + 1 := by omega
        rw [ih (by omega), hlen, hroom, List.take_succ_cons, List.append_assoc, List.singleton_append,
          Nat.add_assoc, Nat.add_comm 1]

theorem collect_fst : (collect size f as []).1 = (as.filterMap f).take size := by
  rw [collect_eq (Nat.zero_le size)]
  rfl

theorem collect_snd : (collect size f as []).2 = decide ((as.filterMap f).length ≤ size) := by
  rw [collect_eq (Nat.zero_le size), List.length_nil, Nat.zero_add]

theorem collect_length : (collect size f as []).1.length ≤ size := by
  rw [collect_fst]
  exact List.length_take_le _ _

theorem collect_complete (h : (collect size f as []).2 = true) : (collect size f as []).1 = as.filterMap f := by
  rw [collect_snd] at h
  rw [collect_fst, List.take_of_length_le (of_decide_eq_true h)]

theorem collect_full (h : (collect size f as []).2 = false) : (collect size f as []).1.length = size := by
  rw [collect_snd] at h
  rw [collect_fst]
  exact List.length_take_of_le (Nat.le_of_not_le (of_decide_eq_false h))

theorem mem_collect {b : β} (h : b ∈ (collect size f as []).1) : ∃ a ∈ as, f a = some b := by
  rw [collect_fst] at h
  exact List.mem_filterMap.mp (List.mem_of_mem_take h)

end Lib
