import Mathlib.Data.List.OfFn
import Mathlib.Tactic.Ring

/-!
# Kata.Lib.Ring

Ring buffers: the elements of a fixed array from a position on, wrapping around at its end.

`ring d pos len` is the view. A write of `src` at a position takes one copy, or two when it wraps
around (`ringWrite`), and puts `src` behind what the ring held as long as there is room
(`ring_ringWrite`). Reading takes contiguous slices (`slice_eq_ring`), one after the other
(`ring_add`).
-/

namespace Lib

variable {α : Type} {n : Nat}

/-- The elements from `ofs` up to `ofs + len`, without wrapping. -/
def slice (d : Fin n → α) (ofs len : Nat) : List α := ((List.ofFn d).drop ofs).take len

/-- Overwrite the elements from `ofs` on with `src`. -/
def copyAt (d : Fin n → α) (ofs : Nat) (src : List α) : Fin n → α := fun i =>
  if h : ofs ≤ i ∧ i - ofs < src.length then src.get ⟨i - ofs, h.2⟩ else d i

/-- Overwrite the elements from `pos` on with `src`, wrapping around. -/
def ringWrite (d : Fin n → α) (pos : Nat) (src : List α) : Fin n → α :=
  let ofs := pos % n
  let len := min (n - ofs) src.length
  let d := copyAt d ofs (src.take len)
  if len < src.length then copyAt d 0 (src.drop len) else d

theorem ringWrite_congr {d : Fin n → α} {pos pos' : Nat} {src : List α} (h : pos % n = pos' % n) :
    ringWrite d pos src = ringWrite d pos' src := by
  simp only [ringWrite, h]

section Ring

variable [NeZero n]

def ring (d : Fin n → α) (pos len : Nat) : List α :=
  (List.range len).map fun i => d (Fin.ofNat n (pos + i))

variable {d : Fin n → α} {pos pos' len : Nat} {src : List α}

@[simp] theorem ring_length : (ring d pos len).length = len := by simp [ring]

theorem ring_add (a b : Nat) : ring d pos (a + b) = ring d pos a ++ ring d (pos + a) b := by
  simp [ring, List.range_add, Nat.add_assoc]

theorem ofNat_congr (h : pos % n = pos' % n) (i : Nat) : Fin.ofNat n (pos + i) = Fin.ofNat n (pos' + i) := by
  apply Fin.ext
  simp only [Fin.ofNat]
  rw [Nat.add_mod, h, ← Nat.add_mod]

theorem ring_congr (h : pos % n = pos' % n) : ring d pos len = ring d pos' len := by
  unfold ring
  refine List.map_congr_left ?_
  intro i _
  rw [ofNat_congr h]

theorem slice_eq_ring (h : pos % n + len ≤ n) : slice d (pos % n) len = ring d pos len := by
  have hmod : pos % n = pos % n % n := (Nat.mod_mod pos n).symm
  rw [ring_congr hmod]
  refine List.ext_getElem ?_ ?_
  · simp [slice]
    omega
  · intro i hi _
    have hlt : pos % n + i < n := by
      simp only [slice, List.length_take, List.length_drop, List.length_ofFn] at hi
      omega
    simp only [slice, ring, List.getElem_take, List.getElem_drop, List.getElem_ofFn,
      List.getElem_map, List.getElem_range]
    congr 1
    apply Fin.ext
    simp [Fin.ofNat, Nat.mod_eq_of_lt hlt]

/-- Where the element `k` behind a position is found. -/
theorem val_ofNat_add (pos : Nat) {k : Nat} (hk : k < n) :
    (Fin.ofNat n (pos + k)).val = if pos % n + k < n then pos % n + k else pos % n + k - n := by
  have hlt : pos % n < n := Nat.mod_lt pos (Nat.pos_of_neZero n)
  have hval : (Fin.ofNat n (pos + k)).val = (pos % n + k) % n := by
    simp [Fin.ofNat, Nat.add_mod]
  rw [hval]
  split
  · rename_i h
    exact Nat.mod_eq_of_lt h
  · rename_i h
    rw [Nat.mod_eq_sub_mod (by omega), Nat.mod_eq_of_lt (by omega)]

/-- A write changes exactly the `src.length` elements from its position on. -/
theorem ringWrite_apply (hs : src.length ≤ n) {k : Nat} (hk : k < n) :
    ringWrite d pos src (Fin.ofNat n (pos + k)) =
      if h : k < src.length then src.get ⟨k, h⟩ else d (Fin.ofNat n (pos + k)) := by
  have hofs : pos % n < n := Nat.mod_lt pos (Nat.pos_of_neZero n)
  have hval := val_ofNat_add pos hk
  generalize Fin.ofNat n (pos + k) = j at hval ⊢
  unfold ringWrite
  -- the two copies in terms of the offset; `j` is behind or in front of the wrap
  by_cases hfit : pos % n + src.length ≤ n
  · have hlen : min (n - pos % n) src.length = src.length := by omega
    simp only [hlen, Nat.lt_irrefl, if_false, copyAt, List.take_length]
    by_cases hkl : k < src.length
    · have hj : j.val = pos % n + k := by rw [hval, if_pos (by omega)]
      rw [dif_pos ⟨by omega, by omega⟩, dif_pos hkl]
      congr 2
      omega
    · rw [dif_neg (by split at hval <;> omega), dif_neg hkl]
  · have hlen : min (n - pos % n) src.length = n - pos % n := by omega
    have hwrap : n - pos % n < src.length := by omega
    simp only [hlen, if_pos hwrap, copyAt, List.length_drop, List.length_take]
    by_cases hkl : k < src.length
    · rw [dif_pos hkl]
      by_cases hin : pos % n + k < n
      · have hj : j.val = pos % n + k := by rw [hval, if_pos hin]
        rw [dif_neg (by omega), dif_pos ⟨by omega, by omega⟩]
        simp only [List.get_eq_getElem, List.getElem_take]
        congr 1
        omega
      · have hj : j.val = pos % n + k - n := by rw [hval, if_neg hin]
        rw [dif_pos ⟨by omega, by omega⟩]
        simp only [List.get_eq_getElem, List.getElem_drop]
        congr 1
        omega
    · rw [dif_neg (by split at hval <;> omega), dif_neg (by split at hval <;> omega), dif_neg hkl]

/-- A write at the end of the ring's contents appends to them. -/
theorem ring_ringWrite (d : Fin n → α) (pos : Nat) (h : len + src.length ≤ n) :
    ring (ringWrite d (pos + len) src) pos (len + src.length) = ring d pos len ++ src := by
  rw [ring_add]
  have hold : ring (ringWrite d (pos + len) src) pos len = ring d pos len := by
    unfold ring
    refine List.map_congr_left ?_
    intro i hi
    rw [List.mem_range] at hi
    -- seen from the write position, an old element lies a full turn behind
    have hpos : Fin.ofNat n (pos + i) = Fin.ofNat n (pos + len + (n - len + i)) := by
      apply Fin.ext
      simp only [Fin.ofNat]
      rw [show pos + len + (n - len + i) = pos + i + n by omega, Nat.add_mod_right]
    rw [hpos, ringWrite_apply (by omega) (by omega), dif_neg (by omega)]
  have hnew : ring (ringWrite d (pos + len) src) (pos + len) src.length = src := by
    refine List.ext_getElem (by simp) ?_
    intro i hi hi'
    simp only [ring, List.getElem_map, List.getElem_range]
    rw [ringWrite_apply (by omega) (by omega), dif_pos hi']
    rfl
  rw [hold, hnew]

end Ring
end Lib
