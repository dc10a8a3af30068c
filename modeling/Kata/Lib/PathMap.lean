import Mathlib.Data.List.Infix

/-!
# Kata.Lib.PathMap

Trees as functions from paths. Putting a value at a path takes everything below the path away, and
every place above it that is empty gets a default value. After a list of puts, a path has the value
that was put there last, unless something was put above it later (`puts_of_last`), and whatever has
another value than the default was put there and not taken away since (`last_of_puts`).
-/

namespace Lib

variable {κ β : Type} [DecidableEq κ]

abbrev PathMap (κ β : Type) := List κ → Option β

namespace PathMap

/-- Put a value at `p`. -/
def put (d : β) (m : PathMap κ β) (p : List κ) (v : β) : PathMap κ β := fun q =>
  if p <+: q then (if q = p then some v else none)
  else if q <+: p then some ((m q).getD d)
  else m q

def puts (d : β) (m : PathMap κ β) (l : List (List κ × β)) : PathMap κ β := l.foldl (fun m x => put d m x.1 x.2) m

variable {d v : β} {m : PathMap κ β} {p q : List κ}

theorem put_self : put d m p v p = some v := by
  unfold put
  rw [if_pos List.prefix_rfl, if_pos rfl]

theorem put_of_not_prefix (hp : ¬ p <+: q) :
    put d m p v q = m q ∨ (q <+: p ∧ put d m p v q = some ((m q).getD d)) := by
  unfold put
  rw [if_neg hp]
  by_cases hq : q <+: p
  · rw [if_pos hq]
    exact .inr ⟨hq, rfl⟩
  · rw [if_neg hq]
    exact .inl rfl

/-- What is there stays if nothing is put there or above. -/
theorem put_of_some (hp : ¬ p <+: q) {w : β} (hm : m q = some w) : put d m p v q = some w := by
  rcases put_of_not_prefix hp with h | ⟨-, h⟩
  · rw [h, hm]
  · rw [h, hm]
    rfl

theorem puts_of_some (l : List (List κ × β)) (hl : ∀ x ∈ l, ¬ x.1 <+: q) {w : β} (hm : m q = some w) :
    puts d m l q = some w := by
  induction l generalizing m with
  | nil => exact hm
  | cons x l ih =>
    obtain ⟨hx, hl⟩ := List.forall_mem_cons.mp hl
    exact ih hl (put_of_some hx hm)

theorem puts_append (l l' : List (List κ × β)) : puts d m (l ++ l') = puts d (puts d m l) l' := List.foldl_append

theorem puts_of_last (l l' : List (List κ × β)) (hl : ∀ x ∈ l', ¬ x.1 <+: q) :
    puts d m (l ++ (q, v) :: l') q = some v := by
  rw [puts_append]
  exact puts_of_some l' hl put_self

theorem last_of_puts (l : List (List κ × β)) {w : β} (hw : puts d m l q = some w) (hd : w ≠ d) :
    (m q = some w ∧ ∀ x ∈ l, ¬ x.1 <+: q) ∨ ∃ pre post, l = pre ++ (q, w) :: post ∧ ∀ x ∈ post, ¬ x.1 <+: q := by
  induction l generalizing m with
  | nil => exact .inl ⟨hw, nofun⟩
  | cons x l ih =>
    have hw : puts d (put d m x.1 x.2) l q = some w := hw
    rcases ih hw with ⟨hput, hl⟩ | ⟨pre, post, rfl, hpost⟩
    · by_cases hx : x.1 <+: q
      · by_cases hq : q = x.1
        · subst hq
          rw [put_self, Option.some.injEq] at hput
          exact .inr ⟨[], l, by rw [← hput]; rfl, hl⟩
        · rw [put, if_pos hx, if_neg hq] at hput
          cases hput
      · rcases put_of_not_prefix (d := d) (m := m) (v := x.2) hx with h | ⟨-, h⟩
        · rw [h] at hput
          exact .inl ⟨hput, List.forall_mem_cons.mpr ⟨hx, hl⟩⟩
        · rw [h, Option.some.injEq] at hput
          cases hm : m q with
          | none =>
            rw [hm] at hput
            exact absurd hput.symm hd
          | some u =>
            rw [hm] at hput
            exact .inl ⟨congrArg some hput, List.forall_mem_cons.mpr ⟨hx, hl⟩⟩
    · exact .inr ⟨x :: pre, post, rfl, hpost⟩

end PathMap
end Lib
