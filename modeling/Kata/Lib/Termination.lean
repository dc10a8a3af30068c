import Mathlib.Data.Finset.Card
import Mathlib.Data.List.AList
import Mathlib.Logic.Function.Iterate
import Mathlib.Tactic.Ring

/-!
# Kata.Lib.Termination

Loops, and two measures for them. `Stops` says that a loop has a result; a measure that every round
lowers proves it (`stops_of_measure`), an invariant that sends every round to the next refutes it
(`not_stops`). `total` adds up a weight over the values of an association list, and changes with one
value at a time (`total_insert`). A sequence that stays in a finite set for one step more than the
set has elements stays there for ever (`iterate_mem`).
-/

namespace Lib

section Loop

variable {σ ρ : Type} {body : σ → ρ ⊕ σ} {s s' : σ}

/-- The body gives a result, or the state for the next round. -/
def loop (body : σ → ρ ⊕ σ) : Nat → σ → Option ρ
  | 0, _ => none
  | n + 1, s =>
    match body s with
    | .inl r => some r
    | .inr s' => loop body n s'

def Stops (body : σ → ρ ⊕ σ) (s : σ) : Prop := ∃ n r, loop body n s = some r

theorem stops_of_result {r : ρ} (h : body s = .inl r) : Stops body s := ⟨1, r, by rw [loop, h]⟩

theorem stops_of_next (h : body s = .inr s') (hs : Stops body s') : Stops body s := by
  obtain ⟨n, r, hn⟩ := hs
  refine ⟨n + 1, r, ?_⟩
  rw [loop, h]
  exact hn

theorem stops_of_measure {I : σ → Prop} (measure : σ → Nat)
    (hstep : ∀ s s', I s → body s = .inr s' → I s' ∧ measure s' < measure s) (hI : I s) :
    Stops body s := by
  induction hn : measure s using Nat.strong_induction_on generalizing s with
  | _ n ih =>
    cases hb : body s with
    | inl r => exact stops_of_result hb
    | inr s' =>
      obtain ⟨hI', hlt⟩ := hstep s s' hI hb
      exact stops_of_next hb (ih (measure s') (hn ▸ hlt) hI' rfl)

theorem not_stops {I : σ → Prop} (hstep : ∀ s, I s → ∃ s', body s = .inr s' ∧ I s') (hI : I s) :
    ¬ Stops body s := by
  rintro ⟨n, r, hn⟩
  induction n generalizing s with
  | zero => cases hn
  | succ n ih =>
    obtain ⟨s', hb, hI'⟩ := hstep s hI
    rw [loop, hb] at hn
    exact ih hI' hn

end Loop

section Total

variable {α β : Type} {f : β → Nat} {a : α} {b b' : β}

def total (f : β → Nat) (s : AList fun _ : α => β) : Nat := (s.entries.map fun e => f e.2).sum

theorem total_insert [DecidableEq α] {s : AList fun _ : α => β} (h : s.lookup a = some b) :
    total f (s.insert a b') + f b = total f s + f b' := by
  have hmem : a ∈ s.entries.keys := List.mem_keys_of_mem (AList.mem_lookup_iff.mp h)
  obtain ⟨b0, l₁, l₂, _, hl, hk⟩ := List.exists_of_kerase hmem
  have hb : b0 = b := by
    have h0 : s.lookup a = some b0 := AList.mem_lookup_iff.mpr (by rw [hl]; simp)
    rw [h] at h0
    exact (Option.some.inj h0).symm
  subst hb
  simp only [total, AList.entries_insert, hk]
  rw [hl]
  simp only [List.map_append, List.map_cons, List.sum_append, List.sum_cons]
  omega

theorem total_le {n : Nat} (h : ∀ b, f b ≤ n) (s : AList fun _ : α => β) :
    total f s ≤ n * s.entries.length := by
  unfold total
  induction s.entries with
  | nil => exact Nat.le_refl _
  | cons e l ih =>
    have he := h e.2
    simp only [List.map_cons, List.sum_cons, List.length_cons, Nat.mul_add, Nat.mul_one]
    omega

end Total

section Iterate

variable {α : Type} {f : α → α} {s : Finset α} {x : α}

/-- A sequence that comes back to an earlier element only has the elements up to there. -/
theorem iterate_eq_earlier {i j : Nat} (hlt : i < j) (heq : f^[i] x = f^[j] x) (n : Nat) :
    ∃ k < j, f^[n] x = f^[k] x := by
  induction n using Nat.strong_induction_on with
  | _ n ih =>
    by_cases hn : n < j
    · exact ⟨n, hn, rfl⟩
    · obtain ⟨k, hk, hback⟩ := ih (n - j + i) (by omega)
      refine ⟨k, hk, ?_⟩
      calc f^[n] x = f^[n - j] (f^[j] x) := by
            rw [← Function.iterate_add_apply, Nat.sub_add_cancel (Nat.le_of_not_lt hn)]
        _ = f^[n - j + i] x := by rw [← heq, Function.iterate_add_apply]
        _ = f^[k] x := hback

theorem iterate_mem (h : ∀ i ≤ s.card, f^[i] x ∈ s) (n : Nat) : f^[n] x ∈ s := by
  have hcard : s.card < (Finset.range (s.card + 1)).card := by simp
  obtain ⟨i, hi, j, hj, hne, heq⟩ := Finset.exists_ne_map_eq_of_card_lt_of_maps_to hcard
    (f := fun i => f^[i] x) (fun i hi => h i (Nat.le_of_lt_succ (Finset.mem_range.mp hi)))
  rw [Finset.mem_range] at hi hj
  cases Nat.lt_or_gt_of_ne hne with
  | inl hlt =>
    obtain ⟨k, hk, hback⟩ := iterate_eq_earlier hlt heq n
    exact hback ▸ h k (by omega)
  | inr hgt =>
    obtain ⟨k, hk, hback⟩ := iterate_eq_earlier hgt heq.symm n
    exact hback ▸ h k (by omega)

end Iterate
end Lib
