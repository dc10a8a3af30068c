import Mathlib.Data.List.Forall2
import Mathlib.Tactic.Common

/-!
# Kata.Lib.RoundTrip

Sending a value through a message format and back. A format without optional scalars writes an
absent one as some fixed word and reads a word back through a test (`optional`). What comes back is
the same up to the zero, which may be absent or present (`SameOr`), exactly for the values that pass
the test or are the zero (`sameOr_optional_iff`), and it is equal for those that pass
(`optional_eq_iff`). `rel_map_iff` and `forall₂_map_iff` carry such a fact through options and
lists.
-/

namespace Lib

variable {α β : Type}

/-- Equal, or the zero on one side and nothing on the other. -/
inductive SameOr (z : α) : Option α → Option α → Prop where
  | same (o : Option α) : SameOr z o o
  | dropped : SameOr z none (some z)
  | added : SameOr z (some z) none

theorem sameOr_iff_getD {z : α} {a b : Option α} : SameOr z a b ↔ a.getD z = b.getD z := by
  constructor
  · intro h
    cases h <;> rfl
  · intro h
    cases a with
    | none =>
      cases b with
      | none => exact .same none
      | some b =>
        cases h
        exact .dropped
    | some a =>
      cases b with
      | none =>
        cases h
        exact .added
      | some b =>
        cases h
        exact .same (some a)

def optional (keep : β → Prop) [DecidablePred keep] (back : β → α) (w : β) : Option α :=
  if keep w then some (back w) else none

variable {z : α} {w : β} {keep : β → Prop} [DecidablePred keep] {back : β → α} {there : α → β}

theorem sameOr_none_some {v : α} : SameOr z none (some v) ↔ v = z := by
  constructor
  · intro h
    cases h
    rfl
  · intro h
    rw [h]
    exact .dropped

theorem optional_of_keep (h : keep w) : optional keep back w = some (back w) := if_pos h

theorem optional_of_not_keep (h : ¬ keep w) : optional keep back w = none := if_neg h

theorem sameOr_optional_iff (hback : ∀ v, back (there v) = v) (hw : back w = z) (o : Option α) :
    SameOr z (optional keep back (o.elim w there)) o ↔ ∀ v ∈ o, keep (there v) ∨ v = z := by
  cases o with
  | none =>
    refine ⟨fun _ v hv => (nomatch hv), fun _ => ?_⟩
    rw [Option.elim_none]
    by_cases hk : keep w
    · rw [optional_of_keep hk, hw]
      exact .added
    · rw [optional_of_not_keep hk]
      exact .same none
  | some v =>
    rw [Option.elim_some]
    simp only [Option.mem_some_iff, forall_eq']
    by_cases hk : keep (there v)
    · rw [optional_of_keep hk, hback]
      exact ⟨fun _ => .inl hk, fun _ => .same _⟩
    · rw [optional_of_not_keep hk, sameOr_none_some]
      exact ⟨.inr, fun h => h.resolve_left hk⟩

theorem optional_eq_iff (hback : ∀ v, back (there v) = v) (hw : ¬ keep w) (o : Option α) :
    optional keep back (o.elim w there) = o ↔ ∀ v ∈ o, keep (there v) := by
  cases o with
  | none => simp [optional_of_not_keep hw]
  | some v =>
    rw [Option.elim_some]
    simp only [Option.mem_some_iff, forall_eq']
    by_cases hk : keep (there v)
    · rw [optional_of_keep hk, hback]
      exact iff_of_true rfl hk
    · rw [optional_of_not_keep hk]
      exact iff_of_false (Option.some_ne_none v).symm hk

theorem some_elim_eq_iff (o : Option α) : some (o.elim z id) = o ↔ o.isSome := by
  cases o <;> simp

theorem sameOr_some_elim (hback : ∀ v, back (there v) = v) (hw : back w = z) (o : Option α) :
    SameOr z (some (back (o.elim w there))) o := by
  cases o with
  | none =>
    rw [Option.elim_none, hw]
    exact .added
  | some v =>
    rw [Option.elim_some, hback]
    exact .same _

theorem sameOr_some_elim_id (o : Option α) : SameOr z (some (o.elim z id)) o :=
  sameOr_some_elim (fun _ => Eq.refl (id _)) (Eq.refl (id z)) o

section Lift

variable {R : α → α → Prop} {P : α → Prop}

theorem rel_map_iff (h : ∀ a, R (back (there a)) a ↔ P a) (o : Option α) :
    Option.Rel R ((o.map there).map back) o ↔ ∀ a ∈ o, P a := by
  cases o with
  | none => exact ⟨fun _ a ha => (nomatch ha), fun _ => .none⟩
  | some a =>
    simp only [Option.map_some, Option.mem_some_iff, forall_eq', ← h]
    constructor
    · intro hr
      cases hr with
      | some hr => exact hr
    · exact .some

theorem forall₂_map_iff (h : ∀ a, R (back (there a)) a ↔ P a) (l : List α) :
    List.Forall₂ R ((l.map there).map back) l ↔ ∀ a ∈ l, P a := by
  rw [List.map_map, List.forall₂_map_left_iff, List.forall₂_same]
  exact forall₂_congr fun a _ => h a

theorem map_back_eq_iff (h : ∀ a, back (there a) = a ↔ P a) (l : List α) :
    (l.map there).map back = l ↔ ∀ a ∈ l, P a := by
  have hid : (l.map there).map back = l ↔ l.map (back ∘ there) = l.map id := by
    rw [List.map_map, List.map_id]
  rw [hid, List.map_inj_left]
  exact forall₂_congr fun a _ => h a

/-- The same for a conversion `f` that keeps every element of the list, before and after the trip. -/
theorem filterMap_back_eq_iff {γ : Type} {f : α → Option γ} {l : List α} (hf : ∀ a ∈ l, (f a).isSome)
    (hback : ∀ a ∈ l, (f (back (there a))).isSome) (h : ∀ a ∈ l, f (back (there a)) = f a ↔ P a) :
    ((l.map there).map back).filterMap f = l.filterMap f ↔ ∀ a ∈ l, P a := by
  induction l with
  | nil => simp
  | cons a l ih =>
    obtain ⟨c, hc⟩ := Option.isSome_iff_exists.mp (hf a List.mem_cons_self)
    obtain ⟨c', hc'⟩ := Option.isSome_iff_exists.mp (hback a List.mem_cons_self)
    have htail := ih (fun x hx => hf x (List.mem_cons_of_mem a hx)) (fun x hx => hback x (List.mem_cons_of_mem a hx))
      (fun x hx => h x (List.mem_cons_of_mem a hx))
    have hhead := h a List.mem_cons_self
    rw [hc, hc', Option.some.injEq] at hhead
    rw [List.map_cons, List.map_cons, List.filterMap_cons_some hc', List.filterMap_cons_some hc, List.cons.injEq,
      List.forall_mem_cons, htail, hhead]

theorem map_back (h : ∀ a, back (there a) = a) (l : List α) : (l.map there).map back = l :=
  (map_back_eq_iff (fun a => iff_true_intro (h a)) l).mpr fun _ _ => trivial

theorem option_map_back_eq_iff (h : ∀ a, back (there a) = a ↔ P a) (o : Option α) :
    (o.map there).map back = o ↔ ∀ a ∈ o, P a := by
  cases o with
  | none => simp
  | some a => simp [h]

theorem option_map_back (h : ∀ a, back (there a) = a) (o : Option α) : (o.map there).map back = o :=
  (option_map_back_eq_iff (fun a => iff_true_intro (h a)) o).mpr fun _ _ => trivial

end Lift
end Lib
