import Mathlib.Data.List.Induction

/-!
# Kata.Lib.Pieces

Pieces of a list at known positions: `At l o u` says that `u` stands in `l` from position `o` on. A
concatenation stands at a position exactly if its parts stand one behind the other (`at_append`,
`at_flatMap`), so that a table of records of one size is read record by record (`At.record`).
-/

namespace Lib

variable {α β : Type} {l l' u v : List α} {o : Nat}

/-- `u` stands in `l` from position `o` on. -/
def At (l : List α) (o : Nat) (u : List α) : Prop := u <+: l.drop o

theorem at_nil : At l o [] := List.nil_prefix

theorem at_append : At l o (u ++ v) ↔ At l o u ∧ At l (o + u.length) v := by
  unfold At
  rw [← List.drop_drop]
  constructor
  · rintro ⟨t, ht⟩
    rw [← ht]
    refine ⟨?_, ?_⟩
    · rw [List.append_assoc]
      exact List.prefix_append u _
    · rw [List.append_assoc, List.drop_left]
      exact List.prefix_append v t
  · rintro ⟨⟨t, ht⟩, hv⟩
    rw [← ht] at hv ⊢
    rw [List.drop_left] at hv
    exact (List.prefix_append_right_inj u).mpr hv

theorem At.mono (h : At l o u) (hl : l <+: l') : At l' o u := by
  obtain ⟨t, rfl⟩ := hl
  refine h.trans ?_
  rw [List.drop_append]
  exact List.prefix_append _ _

theorem At.length_le (h : At l o u) (hu : u ≠ []) : o + u.length ≤ l.length := by
  have hle := List.IsPrefix.length_le h
  have hpos := List.length_pos_iff.mpr hu
  rw [List.length_drop] at hle
  omega

theorem at_of_append (p q : List α) : At (p ++ u ++ q) p.length u := by
  unfold At
  rw [List.append_assoc, List.drop_left]
  exact List.prefix_append u q

/-- A piece as a slice of its length. -/
theorem slice_eq_iff {n : Nat} (hn : u.length = n) : (l.drop o).take n = u ↔ At l o u := by
  subst hn
  exact ⟨fun h => h ▸ List.take_prefix _ _, fun h => (List.prefix_iff_eq_take.mp h).symm⟩

theorem at_flatMap {f : β → List α} {xs : List β} :
    At l o (xs.flatMap f) ↔ ∀ i x, xs[i]? = some x → At l (o + ((xs.take i).flatMap f).length) (f x) := by
  induction xs generalizing o with
  | nil => exact ⟨fun _ i x hi => (nomatch hi), fun _ => at_nil⟩
  | cons y xs ih =>
    rw [List.flatMap_cons, at_append, ih]
    constructor
    · rintro ⟨hy, hxs⟩ i x hi
      cases i with
      | zero =>
        cases hi
        exact hy
      | succ i =>
        rw [List.take_succ_cons, List.flatMap_cons, List.length_append, ← Nat.add_assoc]
        exact hxs i x hi
    · intro h
      refine ⟨h 0 y rfl, fun i x hi => ?_⟩
      have hx := h (i + 1) x hi
      rw [List.take_succ_cons, List.flatMap_cons, List.length_append, ← Nat.add_assoc] at hx
      exact hx

theorem length_flatMap_of_forall {f : β → List α} {k : Nat} (hf : ∀ r, (f r).length = k) (rs : List β) :
    (rs.flatMap f).length = k * rs.length := by
  induction rs with
  | nil => rfl
  | cons r rs ih =>
    rw [List.flatMap_cons, List.length_append, hf, ih, List.length_cons, Nat.mul_succ, Nat.add_comm]

theorem At.record {f : β → List α} {k : Nat} (hf : ∀ r, (f r).length = k) {rs : List β} (h : At l o (rs.flatMap f))
    {i : Nat} {r : β} (hi : rs[i]? = some r) : At l (o + k * i) (f r) := by
  obtain ⟨hlt, -⟩ := List.getElem?_eq_some_iff.mp hi
  have hrec := at_flatMap.mp h i r hi
  rw [length_flatMap_of_forall hf, List.length_take, Nat.min_eq_left (Nat.le_of_lt hlt)] at hrec
  exact hrec

/-- A fact about a fold that follows how far the fold has come. -/
theorem foldl_induct {σ : Type} {f : σ → β → σ} {P : List β → σ → Prop} {s : σ} (h₀ : P [] s)
    (hstep : ∀ ys a s, P ys s → P (ys ++ [a]) (f s a)) (xs : List β) : P xs (xs.foldl f s) := by
  induction xs using List.reverseRecOn with
  | nil => exact h₀
  | append_singleton ys a ih =>
    rw [List.foldl_append]
    exact hstep ys a _ ih

end Lib
