import Mathlib.Tactic.Ring

/-!
# Kata.Lib.Hole

Sizes laid out one after the other from an address on, around a hole that must stay empty. What does
not fit below the hole as a whole is split there, unless the space below is too small to be used.

`place` gives the pieces of each size and `final` where the last one ends. The pieces of a size add
up to it (`sum_pieces`), and all pieces are in order, apart from each other (`place_behind`) and
outside of the hole (`place_bounds`).
-/

namespace Lib

/-- Nothing is placed from `lo` up to `hi`. A space below `lo` of less than `split` is left. -/
structure Hole where
  lo : Nat
  hi : Nat
  split : Nat
  le : lo ≤ hi

namespace Hole

variable (h : Hole) {start size : Nat}

def Whole (start size : Nat) : Prop := h.hi ≤ start ∨ start + size ≤ h.lo

instance : Decidable (h.Whole start size) := inferInstanceAs (Decidable (_ ∨ _))

/-- The part that goes below the hole. -/
def below (start : Nat) : Nat := if h.lo - start < h.split then 0 else h.lo - start

/-- The pieces, each with its address and its size. -/
def pieces (start size : Nat) : List (Nat × Nat) :=
  if h.Whole start size then [(start, size)]
  else if h.lo - start < h.split then [(h.hi, size)]
  else [(start, h.lo - start), (h.hi, size - (h.lo - start))]

def next (start size : Nat) : Nat :=
  if h.Whole start size then start + size else h.hi + (size - h.below start)

def place (start : Nat) : List Nat → List (List (Nat × Nat))
  | [] => []
  | size :: rest => h.pieces start size :: place (h.next start size) rest

def final (start : Nat) (sizes : List Nat) : Nat := sizes.foldl h.next start

/-- The address is not in the hole, though it may be where it begins. -/
def Outside (start : Nat) : Prop := start ≤ h.lo ∨ h.hi ≤ start

variable {h}

/-- A piece that begins and ends outside. -/
def Clear (h : Hole) (p : Nat × Nat) : Prop := p.1 + p.2 ≤ h.lo ∨ h.hi ≤ p.1

/-- One piece is behind the other. -/
def Behind (p q : Nat × Nat) : Prop := p.1 + p.2 ≤ q.1

theorem le_of_not_whole (ho : h.Outside start) (hw : ¬ h.Whole start size) : start ≤ h.lo ∧ h.lo - start < size := by
  unfold Whole at hw
  unfold Outside at ho
  omega

theorem below_le (start : Nat) : h.below start ≤ h.lo - start := by
  unfold below
  split
  · exact Nat.zero_le _
  · exact Nat.le_refl _

theorem sum_pieces (ho : h.Outside start) : ((h.pieces start size).map Prod.snd).sum = size := by
  unfold pieces
  split
  · simp
  · rename_i hw
    have := le_of_not_whole ho hw
    split
    · simp
    · simp only [List.map_cons, List.map_nil, List.sum_cons, List.sum_nil]
      omega

theorem next_outside (start size : Nat) : h.Outside (h.next start size) := by
  have hle := h.le
  unfold next Outside
  split
  · rename_i hw
    unfold Whole at hw
    omega
  · omega

theorem add_le_next (ho : h.Outside start) : start + size ≤ h.next start size := by
  have hle := h.le
  unfold next
  split
  · exact Nat.le_refl _
  · rename_i hw
    have hstart := le_of_not_whole ho hw
    have hbelow := below_le (h := h) start
    omega

theorem le_next (ho : h.Outside start) : start ≤ h.next start size :=
  Nat.le_trans (Nat.le_add_right _ _) (add_le_next ho)

variable {p : Nat × Nat}

/-- Where a piece of `size` can be. -/
theorem pieces_bounds (ho : h.Outside start) (hp : p ∈ h.pieces start size) :
    start ≤ p.1 ∧ p.1 + p.2 ≤ h.next start size ∧ h.Clear p := by
  have hle := h.le
  unfold pieces at hp
  unfold next Clear
  split at hp
  · rename_i hw
    obtain rfl := List.mem_singleton.mp hp
    rw [if_pos hw]
    exact ⟨Nat.le_refl _, Nat.le_refl _, hw.symm⟩
  · rename_i hw
    have hstart := le_of_not_whole ho hw
    rw [if_neg hw]
    split at hp
    · rename_i hs
      obtain rfl := List.mem_singleton.mp hp
      rw [below, if_pos hs]
      exact ⟨by simp only; omega, by simp only; omega, .inr (Nat.le_refl _)⟩
    · rename_i hs
      rw [below, if_neg hs]
      simp only [List.mem_cons, List.not_mem_nil, or_false] at hp
      rcases hp with rfl | rfl
      · exact ⟨Nat.le_refl _, by simp only; omega, .inl (by simp only; omega)⟩
      · exact ⟨by simp only; omega, by simp only; omega, .inr (Nat.le_refl _)⟩

theorem pieces_behind (ho : h.Outside start) : (h.pieces start size).Pairwise Behind := by
  have hle := h.le
  unfold pieces
  split
  · exact List.pairwise_singleton _ _
  · rename_i hw
    have hstart := le_of_not_whole ho hw
    split
    · exact List.pairwise_singleton _ _
    · refine List.pairwise_cons.mpr ⟨?_, List.pairwise_singleton _ _⟩
      intro q hq
      obtain rfl := List.mem_singleton.mp hq
      simp only [Behind]
      omega

theorem exists_piece_next (start size : Nat) : ∃ p ∈ h.pieces start size, p.1 + p.2 = h.next start size := by
  unfold pieces next
  split
  · exact ⟨_, List.mem_singleton_self _, rfl⟩
  · rename_i hw
    split
    · rename_i hs
      refine ⟨_, List.mem_singleton_self _, ?_⟩
      rw [below, if_pos hs, Nat.sub_zero]
    · rename_i hs
      refine ⟨_, List.mem_cons_of_mem _ (List.mem_singleton_self _), ?_⟩
      rw [below, if_neg hs]

theorem pieces_pos (ho : h.Outside start) (hsplit : 0 < h.split) (hsize : 0 < size)
    (hp : p ∈ h.pieces start size) : 0 < p.2 := by
  unfold pieces at hp
  split at hp
  · obtain rfl := List.mem_singleton.mp hp
    exact hsize
  · rename_i hw
    have hstart := le_of_not_whole ho hw
    split at hp
    · obtain rfl := List.mem_singleton.mp hp
      exact hsize
    · simp only [List.mem_cons, List.not_mem_nil, or_false] at hp
      rcases hp with rfl | rfl
      · simp only
        omega
      · simp only
        omega

/-! ## All sizes -/

@[simp] theorem final_cons (start size : Nat) (rest : List Nat) :
    h.final start (size :: rest) = h.final (h.next start size) rest := rfl

theorem final_append (start : Nat) (pre post : List Nat) :
    h.final start (pre ++ post) = h.final (h.final start pre) post := List.foldl_append

theorem le_final (ho : h.Outside start) (sizes : List Nat) : start ≤ h.final start sizes := by
  induction sizes generalizing start with
  | nil => exact Nat.le_refl _
  | cons size rest ih => exact Nat.le_trans (le_next ho) (ih (next_outside start size))

variable {sizes : List Nat}

theorem add_le_final (ho : h.Outside start) (hs : size ∈ sizes) : start + size ≤ h.final start sizes := by
  induction sizes generalizing start with
  | nil => cases hs
  | cons first rest ih =>
    have hnext := next_outside (h := h) start first
    rcases List.mem_cons.mp hs with rfl | hs
    · exact Nat.le_trans (add_le_next ho) (le_final hnext rest)
    · exact Nat.le_trans (Nat.add_le_add_right (le_next ho) _) (ih hnext hs)

theorem place_append (start : Nat) (pre post : List Nat) :
    h.place start (pre ++ post) = h.place start pre ++ h.place (h.final start pre) post := by
  induction pre generalizing start with
  | nil => rfl
  | cons size rest ih => rw [List.cons_append, place, place, ih, final_cons, List.cons_append]

theorem place_bounds (ho : h.Outside start)
    (hp : p ∈ (h.place start sizes).flatten) : start ≤ p.1 ∧ p.1 + p.2 ≤ h.final start sizes ∧ h.Clear p := by
  induction sizes generalizing start with
  | nil => cases hp
  | cons size rest ih =>
    have hnext := next_outside (h := h) start size
    rw [place, List.flatten_cons, List.mem_append] at hp
    rcases hp with hp | hp
    · obtain ⟨h1, h2, h3⟩ := pieces_bounds ho hp
      exact ⟨h1, Nat.le_trans h2 (le_final hnext rest), h3⟩
    · obtain ⟨h1, h2, h3⟩ := ih hnext hp
      exact ⟨Nat.le_trans (le_next ho) h1, h2, h3⟩

theorem place_behind (ho : h.Outside start) (sizes : List Nat) : (h.place start sizes).flatten.Pairwise Behind := by
  induction sizes generalizing start with
  | nil => exact .nil
  | cons size rest ih =>
    have hnext := next_outside (h := h) start size
    rw [place, List.flatten_cons]
    refine List.pairwise_append.mpr ⟨pieces_behind ho, ih hnext, ?_⟩
    intro p hp q hq
    exact Nat.le_trans (pieces_bounds ho hp).2.1 (place_bounds hnext hq).1

theorem place_pos (ho : h.Outside start) (hsplit : 0 < h.split) (hsizes : ∀ size ∈ sizes, 0 < size)
    (hp : p ∈ (h.place start sizes).flatten) : 0 < p.2 := by
  induction sizes generalizing start with
  | nil => cases hp
  | cons size rest ih =>
    rw [place, List.flatten_cons, List.mem_append] at hp
    rcases hp with hp | hp
    · exact pieces_pos ho hsplit (hsizes size List.mem_cons_self) hp
    · exact ih (next_outside start size) (fun s hs => hsizes s (List.mem_cons_of_mem _ hs)) hp

theorem place_length_le (ho : h.Outside start) (hsplit : 0 < h.split) (hsizes : ∀ size ∈ sizes, 0 < size) :
    start + (h.place start sizes).flatten.length ≤ h.final start sizes := by
  induction sizes generalizing start with
  | nil => exact Nat.le_refl _
  | cons size rest ih =>
    have hrest := ih (next_outside (h := h) start size) fun s hs => hsizes s (List.mem_cons_of_mem _ hs)
    have hone : start + (h.pieces start size).length ≤ h.next start size := by
      have hle := h.le
      have hpos := hsizes size List.mem_cons_self
      unfold pieces next
      split
      · simp only [List.length_singleton]
        omega
      · rename_i hw
        have hstart := le_of_not_whole ho hw
        split
        · rename_i hs
          rw [below, if_pos hs]
          simp only [List.length_singleton]
          omega
        · rename_i hs
          rw [below, if_neg hs]
          simp only [List.length_cons, List.length_nil]
          omega
    rw [place, List.flatten_cons, List.length_append, final_cons]
    omega

theorem exists_piece_final (start : Nat) (hne : sizes ≠ []) :
    ∃ p ∈ (h.place start sizes).flatten, p.1 + p.2 = h.final start sizes := by
  obtain ⟨pre, size, rfl⟩ := List.eq_nil_or_concat sizes |>.resolve_left hne
  obtain ⟨p, hp, heq⟩ := exists_piece_next (h := h) (h.final start pre) size
  rw [List.concat_eq_append, place_append, final_append]
  refine ⟨p, ?_, heq⟩
  simp only [place, List.flatten_append, List.mem_append, List.flatten_cons, List.flatten_nil, List.append_nil]
  exact .inr hp

end Hole
end Lib
