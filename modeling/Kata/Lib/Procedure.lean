import Mathlib.Tactic.Ring

/-!
# Kata.Lib.Procedure

Procedures on a state that return a value, return an error or panic. After an error the state stays
as it was left; after a panic there is none.

`Safe c x s Q` says that `x` does not panic in `s`, that `Q` holds of a value it returns and the
state then, and that it does return a value if `c` holds. `Panics` says that it panics. Each has one
rule for each way to put procedures together.
-/

namespace Lib

def Procedure (σ ε π α : Type) : Type := σ → Except π (Except ε α × σ)

namespace Procedure

variable {σ ε π α β : Type}

def bind (x : Procedure σ ε π α) (f : α → Procedure σ ε π β) : Procedure σ ε π β := fun s =>
  match x s with
  | .ok (.ok a, t) => f a t
  | .ok (.error e, t) => .ok (.error e, t)
  | .error p => .error p

instance : Monad (Procedure σ ε π) where
  pure a := fun s => .ok (.ok a, s)
  bind := bind

def fail (e : ε) : Procedure σ ε π α := fun s => .ok (.error e, s)

/-- A computation without state, which may panic. -/
def lift (x : Except π α) : Procedure σ ε π α := fun s =>
  match x with
  | .ok a => .ok (.ok a, s)
  | .error p => .error p

def okOr (x : Option α) (e : ε) : Procedure σ ε π α :=
  match x with
  | some a => pure a
  | none => fail e

def modify (f : σ → σ) : Procedure σ ε π Unit := fun s => .ok (.ok (), f s)

variable {x : Procedure σ ε π α} {f : α → Procedure σ ε π β} {s t : σ} {c : Prop} {Q Q' : α → σ → Prop}
  {R : β → σ → Prop} {a : α}

theorem bind_of_ok (h : x s = .ok (.ok a, t)) (f : α → Procedure σ ε π β) : (x >>= f) s = f a t := by
  show Procedure.bind x f s = _
  unfold Procedure.bind
  rw [h]

theorem lift_of_ok {v : Except π α} (h : v = .ok a) :
    (lift v : Procedure σ ε π α) s = .ok (.ok a, s) := by rw [h]; rfl

theorem okOr_of_some {v : Option α} {e : ε} (h : v = some a) :
    (okOr v e : Procedure σ ε π α) s = .ok (.ok a, s) := by rw [h]; rfl

/-! ## Procedures that do not panic -/

def Safe (c : Prop) (x : Procedure σ ε π α) (s : σ) (Q : α → σ → Prop) : Prop :=
  ∃ r t, x s = .ok (r, t) ∧ (∀ a, r = .ok a → Q a t) ∧ (c → ∃ a, r = .ok a)

theorem Safe.of_ok (h : x s = .ok (.ok a, t)) (hQ : Q a t) : Safe c x s Q := by
  refine ⟨.ok a, t, h, ?_, fun _ => ⟨a, rfl⟩⟩
  intro b hb
  cases hb
  exact hQ

theorem Safe.of_error {e : ε} (h : x s = .ok (.error e, t)) (hc : ¬ c) : Safe c x s Q :=
  ⟨.error e, t, h, nofun, fun hc' => absurd hc' hc⟩

theorem Safe.pure (h : Q a s) : Safe c (pure a : Procedure σ ε π α) s Q := .of_ok rfl h

theorem Safe.okOr {v : Option α} {e : ε} (hc : c → ∃ a, v = some a) (h : ∀ a, v = some a → Q a s) :
    Safe c (okOr v e : Procedure σ ε π α) s Q := by
  cases v with
  | none =>
    refine .of_error rfl fun h => ?_
    obtain ⟨a, ha⟩ := hc h
    cases ha
  | some a => exact .of_ok rfl (h a rfl)

/-- After a first part whose outcome is known. -/
theorem Safe.step (h : x s = .ok (.ok a, t)) (hf : Safe c (f a) t R) : Safe c (x >>= f) s R := by
  unfold Safe
  rwa [bind_of_ok h f]

theorem Safe.bind (hx : Safe c x s Q) (hf : ∀ a t, Q a t → Safe c (f a) t R) : Safe c (x >>= f) s R := by
  obtain ⟨r, t, hrun, hQ, hc⟩ := hx
  show Safe c (Procedure.bind x f) s R
  unfold Safe Procedure.bind
  rw [hrun]
  cases r with
  | error e =>
    refine ⟨.error e, t, rfl, nofun, fun h => ?_⟩
    obtain ⟨a, ha⟩ := hc h
    cases ha
  | ok a => exact hf a t (hQ a rfl)

theorem Safe.ite {p : Prop} [Decidable p] {x y : Procedure σ ε π α} (hx : p → Safe c x s Q)
    (hy : ¬ p → Safe c y s Q) : Safe c (if p then x else y) s Q := by
  by_cases h : p
  · rw [if_pos h]
    exact hx h
  · rw [if_neg h]
    exact hy h

theorem Safe.mono (hx : Safe c x s Q) (h : ∀ a t, Q a t → Q' a t) : Safe c x s Q' := by
  obtain ⟨r, t, hrun, hQ, hc⟩ := hx
  exact ⟨r, t, hrun, fun a ha => h a t (hQ a ha), hc⟩

theorem Safe.returns (hx : Safe c x s Q) (hc : c) : ∃ a t, x s = .ok (.ok a, t) ∧ Q a t := by
  obtain ⟨r, t, hrun, hQ, hok⟩ := hx
  obtain ⟨a, rfl⟩ := hok hc
  exact ⟨a, t, hrun, hQ a rfl⟩

/-! ## Procedures that panic -/

def Panics (x : Procedure σ ε π α) (s : σ) : Prop := ∃ p, x s = .error p

theorem Panics.lift {p : π} {v : Except π α} (h : v = .error p) : Panics (lift v : Procedure σ ε π α) s := by
  subst h
  exact ⟨p, rfl⟩

theorem Panics.bind (hx : Panics x s) (f : α → Procedure σ ε π β) : Panics (x >>= f) s := by
  obtain ⟨p, hp⟩ := hx
  refine ⟨p, ?_⟩
  show Procedure.bind x f s = _
  unfold Procedure.bind
  rw [hp]

theorem Panics.step (h : x s = .ok (.ok a, t)) (hf : Panics (f a) t) : Panics (x >>= f) s := by
  unfold Panics
  rwa [bind_of_ok h f]

theorem Panics.after (hx : Safe True x s Q) (hf : ∀ a t, Q a t → Panics (f a) t) : Panics (x >>= f) s := by
  obtain ⟨a, t, hrun, hQ⟩ := hx.returns trivial
  exact .step hrun (hf a t hQ)

end Procedure
end Lib
