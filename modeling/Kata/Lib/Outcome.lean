import Mathlib.Tactic.Ring

/-!
# Kata.Lib.Outcome

Computations that either return a value or stop with an error (`Except`): how a computation whose
first part is known goes on, and the parts of one that has returned. `Returns` says that there is a
value, and `Ends Q E` that a value returned satisfies `Q` and an error `E`.
-/

namespace Lib

variable {ε α β : Type}

@[simp] theorem ok_bind (a : α) (f : α → Except ε β) : (Except.ok a >>= f) = f a := rfl

@[simp] theorem error_bind (e : ε) (f : α → Except ε β) : ((Except.error e : Except ε α) >>= f) = .error e := rfl

@[simp] theorem pure_eq_ok (a : α) : (pure a : Except ε α) = .ok a := rfl

theorem bind_eq_ok {x : Except ε α} {f : α → Except ε β} {b : β} :
    (x >>= f) = .ok b ↔ ∃ a, x = .ok a ∧ f a = .ok b := by
  cases x with
  | error e | ok a => simp

theorem of_mapError_ok {ε' : Type} {x : Except ε α} {f : ε → ε'} {a : α} (h : x.mapError f = .ok a) : x = .ok a := by
  cases x with
  | error e => cases h
  | ok b =>
    cases h
    rfl

def Returns (x : Except ε α) : Prop := ∃ a, x = .ok a

@[simp] theorem returns_ok (a : α) : Returns (.ok a : Except ε α) := ⟨a, rfl⟩

@[simp] theorem not_returns_error (e : ε) : ¬ Returns (.error e : Except ε α) := nofun

theorem returns_bind {x : Except ε α} {f : α → Except ε β} : Returns (x >>= f) ↔ ∃ a, x = .ok a ∧ Returns (f a) := by
  cases x with
  | error e | ok a => simp

structure Ends (Q : α → Prop) (E : ε → Prop) (x : Except ε α) : Prop where
  ok : ∀ a, x = .ok a → Q a
  error : ∀ e, x = .error e → E e

section Ends

variable {Q : α → Prop} {R : β → Prop} {E : ε → Prop} {x : Except ε α} {f : α → Except ε β}

theorem Ends.of_ok {a : α} (h : Q a) : Ends Q E (.ok a) := by
  refine ⟨fun b hb => ?_, nofun⟩
  cases hb
  exact h

theorem Ends.of_error {e : ε} (h : E e) : Ends Q E (.error e) := by
  refine ⟨nofun, fun d hd => ?_⟩
  cases hd
  exact h

theorem Ends.bind (hx : Ends Q E x) (hf : ∀ a, Q a → Ends R E (f a)) : Ends R E (x >>= f) := by
  cases x with
  | ok a => exact hf a (hx.ok a rfl)
  | error e => exact .of_error (hx.error e rfl)

theorem Ends.mono {Q' : α → Prop} (hx : Ends Q E x) (h : ∀ a, Q a → Q' a) : Ends Q' E x :=
  ⟨fun a ha => h a (hx.ok a ha), hx.error⟩

theorem Ends.ite {p : Prop} [Decidable p] {x y : Except ε α} (hx : p → Ends Q E x) (hy : ¬ p → Ends Q E y) :
    Ends Q E (if p then x else y) := by
  by_cases h : p
  · rw [if_pos h]
    exact hx h
  · rw [if_neg h]
    exact hy h

end Ends
end Lib
