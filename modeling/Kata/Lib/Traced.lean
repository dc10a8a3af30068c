import Kata.Lib.Outcome

/-!
# Kata.Lib.Traced

Computations that make calls to a party outside of the model. Each call is recorded and answered
from the calls made before it; a computation can stop with an error, and the calls made up to there
stay made. `Only P` says that all calls satisfy `P`, `Adds P` the same of the calls that are added,
and `Yields` which calls are made and what is returned; `Ends` is about what is returned only, and
`OrFails` compares two computations one of which may fail where the other goes on. Each has one rule
for each way to put computations together.
-/

namespace Lib

def Traced (ε κ α : Type) : Type := List κ → Except ε α × List κ

namespace Traced

variable {ε κ α β : Type}

def bind (x : Traced ε κ α) (f : α → Traced ε κ β) : Traced ε κ β := fun calls =>
  match x calls with
  | (.ok a, calls') => f a calls'
  | (.error e, calls') => (.error e, calls')

instance : Monad (Traced ε κ) where
  pure a := fun calls => (.ok a, calls)
  bind := bind

/-- A computation without calls. -/
def lift (x : Except ε α) : Traced ε κ α := fun calls => (x, calls)

def throw (e : ε) : Traced ε κ α := fun calls => (.error e, calls)

/-- Make the call `c`; `answer` is what the other party answers after the calls it has seen. -/
def call (answer : List κ → κ → Except ε α) (c : κ) : Traced ε κ α := fun calls =>
  (answer calls c, calls ++ [c])

/-- Look at the state of the other party, which depends on the calls it has seen. -/
def ask (view : List κ → α) : Traced ε κ α := fun calls => (.ok (view calls), calls)

def Only (P : κ → Prop) (x : Traced ε κ α) : Prop :=
  ∀ calls, (∀ c ∈ calls, P c) → ∀ c ∈ (x calls).2, P c

variable {P : κ → Prop}

theorem Only.pure (a : α) : Only P (pure a : Traced ε κ α) := fun _ h => h

theorem Only.throw (e : ε) : Only P (throw e : Traced ε κ α) := fun _ h => h

theorem Only.ask (view : List κ → α) : Only P (ask view : Traced ε κ α) := fun _ h => h

variable {answer : List κ → κ → Except ε α} {c : κ}

theorem Only.call (hc : P c) : Only P (call answer c) := by
  intro calls h d hd
  rcases List.mem_append.mp hd with hd | hd
  · exact h d hd
  · cases List.mem_singleton.mp hd
    exact hc

variable {x : Traced ε κ α} {f : α → Traced ε κ β}

theorem Only.bind (hx : Only P x) (hf : ∀ a, Only P (f a)) : Only P (x >>= f) := by
  intro calls h
  have hmid := hx calls h
  show ∀ c ∈ (Traced.bind x f calls).2, P c
  unfold Traced.bind
  split
  · rename_i a calls' heq
    rw [heq] at hmid
    exact hf a calls' hmid
  · rename_i e calls' heq
    rw [heq] at hmid
    exact hmid

theorem Only.ite {p : Prop} [Decidable p] {x y : Traced ε κ α} (hx : p → Only P x) (hy : ¬ p → Only P y) :
    Only P (if p then x else y) := by
  by_cases h : p
  · rw [if_pos h]
    exact hx h
  · rw [if_neg h]
    exact hy h

/-! ## The calls that are added -/

/-- The calls made before stay, and those that are added satisfy `P`. -/
def Adds (P : κ → Prop) (x : Traced ε κ α) : Prop := ∀ calls, ∃ cs, (x calls).2 = calls ++ cs ∧ ∀ c ∈ cs, P c

theorem Adds.nothing (h : ∀ calls, (x calls).2 = calls) : Adds P x :=
  fun calls => ⟨[], (h calls).trans (List.append_nil calls).symm, nofun⟩

theorem Adds.pure (a : α) : Adds P (pure a : Traced ε κ α) := .nothing fun _ => rfl

theorem Adds.throw (e : ε) : Adds P (throw e : Traced ε κ α) := .nothing fun _ => rfl

theorem Adds.call (hc : P c) : Adds P (call answer c) := by
  intro calls
  refine ⟨[c], rfl, ?_⟩
  intro d hd
  cases List.mem_singleton.mp hd
  exact hc

theorem Adds.bind (hx : Adds P x) (hf : ∀ a, Adds P (f a)) : Adds P (x >>= f) := by
  intro calls
  obtain ⟨cs, hcs, hP⟩ := hx calls
  show ∃ cs, (Traced.bind x f calls).2 = calls ++ cs ∧ ∀ c ∈ cs, P c
  unfold Traced.bind
  split
  · rename_i a calls' heq
    have hcalls : calls' = calls ++ cs := by rw [← hcs, heq]
    obtain ⟨ds, hds, hP'⟩ := hf a calls'
    refine ⟨cs ++ ds, ?_, ?_⟩
    · rw [hds, hcalls, List.append_assoc]
    · intro c hc
      rcases List.mem_append.mp hc with hc | hc
      · exact hP c hc
      · exact hP' c hc
  · rename_i e calls' heq
    rw [heq] at hcs
    exact ⟨cs, hcs, hP⟩

theorem Adds.ite {p : Prop} [Decidable p] {x y : Traced ε κ α} (hx : p → Adds P x) (hy : ¬ p → Adds P y) :
    Adds P (if p then x else y) := by
  by_cases h : p
  · rw [if_pos h]
    exact hx h
  · rw [if_neg h]
    exact hy h

/-! ## Computations that go through -/

/-- The computation makes the calls `cs`, all of them are answered, and it returns `a`. -/
def Yields (x : Traced ε κ α) (a : α) (cs : List κ) : Prop := ∀ calls, x calls = (.ok a, calls ++ cs)

variable {a : α} {b : β} {cs ds : List κ}

theorem Yields.pure (a : α) : Yields (pure a : Traced ε κ α) a [] := by
  intro calls
  rw [List.append_nil]
  rfl

theorem Yields.lift {x : Except ε α} (h : x = .ok a) : Yields (lift x : Traced ε κ α) a [] := by
  intro calls
  rw [List.append_nil, h]
  rfl

theorem Yields.call (h : ∀ calls, answer calls c = .ok a) : Yields (call answer c) a [c] := by
  intro calls
  show (answer calls c, calls ++ [c]) = _
  rw [h]

/-- What comes after a computation that goes through. -/
theorem Yields.bind_eq (hx : Yields x a cs) (f : α → Traced ε κ β) (calls : List κ) :
    (x >>= f) calls = f a (calls ++ cs) := by
  show Traced.bind x f calls = _
  unfold Traced.bind
  rw [hx calls]

theorem Yields.bind (hx : Yields x a cs) (hf : Yields (f a) b ds) : Yields (x >>= f) b (cs ++ ds) := by
  intro calls
  rw [hx.bind_eq, hf, List.append_assoc]

variable {calls : List κ}

theorem call_bind_call {answer' : List κ → κ → Except ε β} {c d : κ} (hc : answer calls c = .ok a)
    (hd : answer' (calls ++ [c]) d = .ok b) :
    (call answer c >>= fun _ => call answer' d) calls = (.ok b, calls ++ [c, d]) := by
  show Traced.bind (call answer c) (fun _ => call answer' d) calls = _
  rw [Traced.bind, call, hc]
  show (answer' (calls ++ [c]) d, calls ++ [c] ++ [d]) = _
  rw [hd, List.append_assoc, List.singleton_append]

theorem Yields.lift_bind {x : Except ε α} (hx : x = .ok a) (hf : Yields (f a) b ds) :
    Yields (Traced.lift x >>= f) b ds :=
  (Yields.lift hx).bind hf

theorem lift_error_bind {x : Except ε α} {e : ε} (hx : x = .error e) (f : α → Traced ε κ β) (calls : List κ) :
    (Traced.lift x >>= f) calls = (.error e, calls) := by
  rw [hx]
  rfl

theorem bind_ok {calls calls' : List κ} (hx : x calls = (.ok a, calls'))
    (f : α → Traced ε κ β) : (x >>= f) calls = f a calls' := by
  show Traced.bind x f calls = _
  unfold Traced.bind
  rw [hx]

theorem bind_error {e : ε} {calls calls' : List κ} (hx : x calls = (.error e, calls'))
    (f : α → Traced ε κ β) : (x >>= f) calls = (.error e, calls') := by
  show Traced.bind x f calls = _
  unfold Traced.bind
  rw [hx]

/-! ## Outcomes -/

/-- Whatever calls have been made before, a value that is returned satisfies `Q` and an error `E`. -/
def Ends (Q : α → Prop) (E : ε → Prop) (x : Traced ε κ α) : Prop := ∀ calls, Lib.Ends Q E (x calls).1

section Ends

variable {Q : α → Prop} {R : β → Prop} {E : ε → Prop}

theorem Ends.pure {a : α} (h : Q a) : Ends Q E (pure a : Traced ε κ α) := fun _ => .of_ok h

theorem Ends.lift {x : Except ε α} (h : Lib.Ends Q E x) : Ends Q E (lift x : Traced ε κ α) := fun _ => h

theorem Ends.call {answer : List κ → κ → Except ε α} {c : κ} (h : ∀ calls, Lib.Ends Q E (answer calls c)) :
    Ends Q E (call answer c) := fun calls => h calls

variable {x : Traced ε κ α}

theorem Ends.bind {f : α → Traced ε κ β} (hx : Ends Q E x) (hf : ∀ a, Q a → Ends R E (f a)) : Ends R E (x >>= f) := by
  intro calls
  show Lib.Ends R E (Traced.bind x f calls).1
  unfold Traced.bind
  split
  · rename_i a calls' heq
    exact hf a ((hx calls).ok a (by rw [heq])) calls'
  · rename_i e calls' heq
    exact .of_error ((hx calls).error e (by rw [heq]))

theorem Ends.ite {p : Prop} [Decidable p] {x y : Traced ε κ α} (hx : p → Ends Q E x) (hy : ¬ p → Ends Q E y) :
    Ends Q E (if p then x else y) := by
  by_cases h : p
  · rw [if_pos h]
    exact hx h
  · rw [if_neg h]
    exact hy h

/-- Only what is known of the value returned matters for what comes next. -/
theorem Ends.bind_congr {f g : α → Traced ε κ β} (hx : Ends Q E x) (h : ∀ a, Q a → f a = g a) :
    (x >>= f) = (x >>= g) := by
  funext calls
  show Traced.bind x f calls = Traced.bind x g calls
  unfold Traced.bind
  split
  · rename_i a calls' heq
    rw [h a ((hx calls).ok a (by rw [heq]))]
  · rfl

end Ends

/-- `x` does what `y` does, or it stops with an error that satisfies `E`. -/
def OrFails (E : ε → Prop) (x y : Traced ε κ α) : Prop :=
  ∀ calls, x calls = y calls ∨ ∃ e, (x calls).1 = .error e ∧ E e

section OrFails

variable {E : ε → Prop} {x y : Traced ε κ α} {f g : α → Traced ε κ β}

theorem OrFails.refl (x : Traced ε κ α) : OrFails E x x := fun _ => .inl rfl

theorem OrFails.ok (h : OrFails E x y) {calls : List κ} {a : α} (ha : (x calls).1 = .ok a) : (y calls).1 = .ok a := by
  rcases h calls with heq | ⟨e, he, -⟩
  · rw [← heq, ha]
  · rw [he] at ha
    cases ha

theorem OrFails.call {answer : List κ → κ → Except ε Unit} {accept : List κ → κ → Except ε Unit} {c : κ}
    (haccept : ∀ calls, accept calls c = .ok ()) (h : ∀ calls e, answer calls c = .error e → E e) :
    OrFails E (call answer c) (call accept c) := by
  intro calls
  unfold Traced.call
  cases hc : answer calls c with
  | ok u => exact .inl (by rw [haccept])
  | error e => exact .inr ⟨e, rfl, h calls e hc⟩

theorem OrFails.bind (hx : OrFails E x y) (hf : ∀ a, OrFails E (f a) (g a)) : OrFails E (x >>= f) (y >>= g) := by
  intro calls
  show Traced.bind x f calls = Traced.bind y g calls ∨ ∃ e, (Traced.bind x f calls).1 = .error e ∧ E e
  unfold Traced.bind
  rcases hx calls with heq | ⟨e, he, hE⟩
  · rw [← heq]
    split
    · rename_i a calls' _
      exact hf a calls'
    · exact .inl rfl
  · refine .inr ⟨e, ?_, hE⟩
    split
    · rename_i a calls' hok
      rw [hok] at he
      cases he
    · rename_i e' calls' herr
      rw [herr] at he
      cases he
      rfl

theorem OrFails.ite {p : Prop} [Decidable p] {x' y' : Traced ε κ α} (hx : OrFails E x y) (hy : OrFails E x' y') :
    OrFails E (if p then x else x') (if p then y else y') := by
  by_cases h : p
  · rw [if_pos h, if_pos h]
    exact hx
  · rw [if_neg h, if_neg h]
    exact hy

end OrFails
end Traced
end Lib
