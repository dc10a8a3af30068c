import Mathlib.Order.WellFoundedSet
import Mathlib.Tactic.Ring

/-!
# Kata.Lib.Graph

Graphs without cycles, and traversals of a graph breadth first without a set of visited nodes: a
queue of nodes, of which the first is visited and replaced by its children at the end.

* `acyclic_insert_iff`: one more edge makes no cycle exactly if its end does not lead to its start.
* `order_isSome`: in a finite graph without cycles, the traversal ends.
* `order_eq_none`: it does not if the queue has a node from which one can go on for ever.
* `breadthFirst_eq_foldl`: a traversal that changes a state on the way is a fold over the order of the visits.
-/

namespace Lib

open Relation

section Acyclic

variable {α : Type} {r r' : α → α → Prop} {p t : α}

/-- Nothing leads back to itself. -/
def Acyclic (r : α → α → Prop) : Prop := ∀ a, ¬ TransGen r a a

theorem Acyclic.mono (h : Acyclic r) (hsub : ∀ a b, r' a b → r a b) : Acyclic r' :=
  fun a ha => h a (TransGen.mono hsub a a ha)

/-- A way in a graph with one more edge takes that edge or not. -/
theorem transGen_insert (hsub : ∀ a b, r' a b → r a b ∨ (a = p ∧ b = t)) {a b : α} (h : TransGen r' a b) :
    TransGen r a b ∨ (ReflTransGen r a p ∧ ReflTransGen r t b) := by
  induction h with
  | single hab =>
    rcases hsub _ _ hab with hab | ⟨rfl, rfl⟩
    · exact .inl (.single hab)
    · exact .inr ⟨.refl, .refl⟩
  | tail _ hbc ih =>
    rcases hsub _ _ hbc with hbc | ⟨rfl, rfl⟩
    · rcases ih with ih | ⟨hstart, hend⟩
      · exact .inl (ih.tail hbc)
      · exact .inr ⟨hstart, hend.tail hbc⟩
    · rcases ih with ih | ⟨hstart, -⟩
      · exact .inr ⟨ih.to_reflTransGen, .refl⟩
      · exact .inr ⟨hstart, .refl⟩

/-- A way to `p` does not need the edges that leave `p`. -/
theorem reflTransGen_of_keep (hkeep : ∀ a b, a ≠ p → r a b → r' a b) (h : ReflTransGen r t p) :
    ReflTransGen r' t p := by
  induction h using ReflTransGen.head_induction_on with
  | refl => exact .refl
  | @head a b hab _ ih =>
    by_cases ha : a = p
    · rw [ha]
    · exact .head (hkeep a b ha hab) ih

theorem acyclic_insert_iff (hsub : ∀ a b, r' a b → r a b ∨ (a = p ∧ b = t)) (hnew : r' p t)
    (hkeep : ∀ a b, a ≠ p → r a b → r' a b) (h : Acyclic r) : Acyclic r' ↔ ¬ ReflTransGen r t p := by
  constructor
  · intro h' hback
    exact h' p (.head' hnew (reflTransGen_of_keep hkeep hback))
  · intro hback a ha
    rcases transGen_insert hsub ha with hcycle | ⟨hstart, hend⟩
    · exact h a hcycle
    · exact hback (hend.trans hstart)

end Acyclic

/-! ## Finite graphs -/

section Weight

variable {α : Type} {children : α → List α}

theorem wellFounded_of_acyclic (h : Acyclic fun a b => b ∈ children a) (s : Finset α)
    (hs : ∀ a, children a ≠ [] → a ∈ s) : WellFounded fun b a => b ∈ children a := by
  let up (b a : α) : Prop := TransGen (fun a b => b ∈ children a) a b
  have hirrefl : Std.Irrefl up := ⟨h⟩
  have htrans : IsTrans α up := ⟨fun _ _ _ hab hbc => hbc.trans hab⟩
  have horder : IsStrictOrder α up := {}
  have hwf : Set.WellFoundedOn (↑s) up := s.finite_toSet.wellFoundedOn
  have hout : ∀ a, a ∉ s → Acc (fun b a => b ∈ children a) a := by
    intro a ha
    refine ⟨a, fun b hb => absurd (hs a ?_) ha⟩
    exact List.ne_nil_of_mem hb
  refine ⟨fun a => ?_⟩
  by_cases ha : a ∈ s
  · refine hwf.induction ha fun x _ ih => ⟨x, fun b hb => ?_⟩
    by_cases hbs : b ∈ s
    · exact ih b hbs (.single hb)
    · exact hout b hbs
  · exact hout a ha

/-- The number of ways that begin in a node. -/
theorem exists_weight (h : WellFounded fun b a => b ∈ children a) :
    ∃ w : α → Nat, ∀ a, w a = 1 + ((children a).map w).sum := by
  let step (a : α) (ih : ∀ b, b ∈ children a → Nat) : Nat :=
    1 + ((children a).attach.map fun b => ih b.1 b.2).sum
  refine ⟨h.fix step, fun a => ?_⟩
  rw [h.fix_eq]
  show 1 + ((children a).attach.map fun b => h.fix step b.1).sum = _
  rw [List.attach_map_val]

end Weight

/-! ## Breadth first -/

section BreadthFirst

variable {α σ : Type}

/-- `step` visits a node and returns its children; `none` if the queue is not empty after the given
number of visits. -/
def breadthFirst (step : σ → α → σ × List α) : (fuel : Nat) → (queue : List α) → σ → Option σ
  | _, [], s => some s
  | 0, _ :: _, _ => none
  | fuel + 1, a :: q, s => breadthFirst step fuel (q ++ (step s a).2) (step s a).1

/-- The order of the visits. -/
def order (children : α → List α) : (fuel : Nat) → (queue : List α) → Option (List α)
  | _, [] => some []
  | 0, _ :: _ => none
  | fuel + 1, a :: q => (order children fuel (q ++ children a)).map (a :: ·)

variable {children : α → List α}

variable {fuel : Nat} {a : α} {q xs : List α}

theorem order_succ_eq_some (h : order children (fuel + 1) (a :: q) = some xs) :
    ∃ ys, order children fuel (q ++ children a) = some ys ∧ xs = a :: ys := by
  obtain ⟨ys, hys, rfl⟩ := Option.map_eq_some_iff.mp h
  exact ⟨ys, hys, rfl⟩

theorem breadthFirst_eq_foldl {step : σ → α → σ × List α} {I : σ → Prop}
    (hstep : ∀ s a, I s → (step s a).2 = children a ∧ I (step s a).1) (fuel : Nat) (q : List α) (s : σ) (hI : I s) :
    breadthFirst step fuel q s = (order children fuel q).map (List.foldl (fun s a => (step s a).1) s) := by
  induction fuel generalizing q s with
  | zero =>
    cases q with
    | nil | cons a q => rfl
  | succ fuel ih =>
    cases q with
    | nil => rfl
    | cons a q =>
      rw [breadthFirst, order, (hstep s a hI).1, ih _ _ (hstep s a hI).2, Option.map_map]
      rfl

theorem order_isSome {w : α → Nat} (hw : ∀ a, w a = 1 + ((children a).map w).sum) (fuel : Nat) (q : List α)
    (hfuel : (q.map w).sum ≤ fuel) : (order children fuel q).isSome := by
  induction fuel generalizing q with
  | zero =>
    cases q with
    | nil => rfl
    | cons a q =>
      have := hw a
      rw [List.map_cons, List.sum_cons] at hfuel
      omega
  | succ fuel ih =>
    cases q with
    | nil => rfl
    | cons a q =>
      have := hw a
      rw [List.map_cons, List.sum_cons] at hfuel
      rw [order, Option.isSome_map]
      refine ih _ ?_
      rw [List.map_append, List.sum_append]
      omega

theorem order_eq_none {S : α → Prop} (hS : ∀ a, S a → ∃ b ∈ children a, S b) (fuel : Nat)
    (hq : ∃ a ∈ q, S a) : order children fuel q = none := by
  induction fuel generalizing q with
  | zero =>
    cases q with
    | nil =>
      obtain ⟨a, ha, -⟩ := hq
      exact nomatch ha
    | cons a q => rfl
  | succ fuel ih =>
    cases q with
    | nil =>
      obtain ⟨a, ha, -⟩ := hq
      exact nomatch ha
    | cons x q =>
      obtain ⟨a, ha, hSa⟩ := hq
      rw [order, ih ?_, Option.map_none]
      rcases List.mem_cons.mp ha with rfl | ha
      · obtain ⟨b, hb, hSb⟩ := hS a hSa
        exact ⟨b, List.mem_append_right q hb, hSb⟩
      · exact ⟨a, List.mem_append_left _ ha, hSa⟩

theorem order_mem (h : order children fuel q = some xs) (ha : a ∈ q) : a ∈ xs := by
  induction fuel generalizing q xs with
  | zero =>
    cases q with
    | nil => exact nomatch ha
    | cons x q => cases h
  | succ fuel ih =>
    cases q with
    | nil => exact nomatch ha
    | cons x q =>
      obtain ⟨ys, hys, rfl⟩ := order_succ_eq_some h
      rcases List.mem_cons.mp ha with rfl | ha
      · exact List.mem_cons_self
      · exact List.mem_cons_of_mem x (ih hys (List.mem_append_left _ ha))

/-- The children of a node that is visited are visited. -/
theorem order_children (h : order children fuel q = some xs) {a b : α} (ha : a ∈ xs)
    (hb : b ∈ children a) : b ∈ xs := by
  induction fuel generalizing q xs with
  | zero =>
    cases q with
    | nil =>
      cases h
      exact nomatch ha
    | cons x q => cases h
  | succ fuel ih =>
    cases q with
    | nil =>
      cases h
      exact nomatch ha
    | cons x q =>
      obtain ⟨ys, hys, rfl⟩ := order_succ_eq_some h
      refine List.mem_cons_of_mem x ?_
      rcases List.mem_cons.mp ha with rfl | ha
      · exact order_mem hys (List.mem_append_right q hb)
      · exact ih hys ha

theorem order_head (h : order children fuel (a :: q) = some xs) : ∃ ys, xs = a :: ys := by
  cases fuel with
  | zero => cases h
  | succ fuel =>
    obtain ⟨ys, -, rfl⟩ := order_succ_eq_some h
    exact ⟨ys, rfl⟩

end BreadthFirst
end Lib
