import Mathlib.Tactic.Ring

/-!
# Kata.Lib.Runs

Runs of a labelled transition system, and the rule that an invariant of the steps is an invariant of
the runs. For a system whose next state is a function, `always_iff` turns an exact condition on the
steps into an exact condition on the runs.
-/

namespace Lib

variable {σ α : Type}

inductive Run (step : σ → α → σ → Prop) : σ → List α → σ → Prop where
  | nil {s : σ} : Run step s [] s
  | cons {s s1 s2 : σ} {a : α} {as : List α} :
      step s a s1 → Run step s1 as s2 → Run step s (a :: as) s2

namespace Run

variable {step step' : σ → α → σ → Prop} {s s1 s2 : σ} {as bs : List α}

theorem invariant {I : σ → Prop} (hstep : ∀ s a s', I s → step s a s' → I s')
    (h : Run step s as s1) : I s → I s1 := by
  induction h with
  | nil => exact id
  | cons hs _ ih =>
    intro hI
    exact ih (hstep _ _ _ hI hs)

theorem append (h : Run step s as s1) (h' : Run step s1 bs s2) : Run step s (as ++ bs) s2 := by
  induction h with
  | nil => exact h'
  | cons hs _ ih => exact .cons hs (ih h')

/-- A run that was computed: `next` makes steps only, and `P` holds where it ends. -/
theorem exists_of_foldlM (next : σ → α → Option σ) (s : σ) (as : List α) (P : σ → Bool)
    (hnext : ∀ s a s', next s a = some s' → step s a s') (h : (as.foldlM next s).any P = true) :
    ∃ s', Run step s as s' ∧ P s' = true := by
  induction as generalizing s with
  | nil => exact ⟨s, .nil, h⟩
  | cons a as ih =>
    rw [List.foldlM_cons] at h
    cases hs : next s a with
    | none =>
      rw [hs] at h
      cases h
    | some s1 =>
      rw [hs] at h
      obtain ⟨s', hrun, hP⟩ := ih s1 h
      exact ⟨s', .cons (hnext s a s1 hs) hrun, hP⟩

end Run

section Deterministic

variable {next : σ → α → σ} {P : σ → Prop} {Q : σ → α → Prop}

/-- `P` holds in every state of the run. -/
def Always (next : σ → α → σ) (P : σ → Prop) : σ → List α → Prop
  | s, [] => P s
  | s, a :: as => P s ∧ Always next P (next s a) as

/-- `Q` holds of every step of the run. -/
def Throughout (next : σ → α → σ) (Q : σ → α → Prop) : σ → List α → Prop
  | _, [] => True
  | s, a :: as => Q s a ∧ Throughout next Q (next s a) as

variable {s : σ} {as : List α}

theorem Always.head (h : Always next P s as) : P s := by
  cases as with
  | nil => exact h
  | cons a as => exact h.1

variable {I : σ → Prop}

/-- `I` is only kept by the steps of which `Q` holds. -/
theorem always_iff_of (hI : ∀ s a, I s → P s → Q s a → I (next s a))
    (hstep : ∀ s a, I s → P s → (P (next s a) ↔ Q s a)) (hi : I s) (hp : P s)
    (as : List α) : Always next P s as ↔ Throughout next Q s as := by
  induction as generalizing s with
  | nil => exact ⟨fun _ => trivial, fun _ => hp⟩
  | cons a as ih =>
    constructor
    · intro h
      have hp' := h.2.head
      have hq := (hstep s a hi hp).mp hp'
      exact ⟨hq, (ih (hI s a hi hp hq) hp').mp h.2⟩
    · intro h
      have hp' := (hstep s a hi hp).mpr h.1
      exact ⟨hp, (ih (hI s a hi hp h.1) hp').mpr h.2⟩

/-- A condition on the steps that keeps an invariant, under which every step leads to a state with
`P`. -/
theorem always_of (hI : ∀ s a, I s → Q s a → I (next s a))
    (hstep : ∀ s a, I s → Q s a → P (next s a)) (hi : I s) (hp : P s) (h : Throughout next Q s as) :
    Always next P s as := by
  induction as generalizing s with
  | nil => exact hp
  | cons a as ih => exact ⟨hp, ih (hI s a hi h.1) (hstep s a hi h.1) h.2⟩

theorem always_iff (hI : ∀ s a, I s → I (next s a))
    (hstep : ∀ s a, I s → P s → (P (next s a) ↔ Q s a)) (hi : I s) (hp : P s)
    (as : List α) : Always next P s as ↔ Throughout next Q s as :=
  always_iff_of (fun s a hi _ _ => hI s a hi) hstep hi hp as

end Deterministic
end Lib
