import Mathlib.Data.Nat.Log
import Mathlib.Tactic.Ring

/-!
# Kata.Lib.Merkle

Hash trees of any arity. The blocks of a level are hashed, the digests are put in groups of `k`
(`chunks`), and each group makes one block of the level above (`above`). `treeBlocks` lists the
blocks of all levels, the top first.

`length_above` and `length_treeBlocks` give the sizes of a level and of the tree. `eq_of_level_hash`
says that two trees with the same digest at the top have the same blocks at the bottom, or there is
a collision between blocks at the same place.
-/

namespace Lib

/-- Division that rounds up. -/
def ceilDiv (a b : Nat) : Nat := (a + (b - 1)) / b

variable {a b c : Nat}

theorem ceilDiv_le_iff (hb : 0 < b) : ceilDiv a b ≤ c ↔ a ≤ b * c := by
  rw [ceilDiv, Nat.div_le_iff_le_mul_add_pred hb]
  omega

theorem ceilDiv_ceilDiv (a : Nat) (hb : 0 < b) (hc : 0 < c) :
    ceilDiv (ceilDiv a b) c = ceilDiv a (b * c) := by
  refine Nat.le_antisymm ?_ ?_
  · rw [ceilDiv_le_iff hc, ceilDiv_le_iff hb, ← Nat.mul_assoc, ← ceilDiv_le_iff (Nat.mul_pos hb hc)]
  · rw [ceilDiv_le_iff (Nat.mul_pos hb hc), Nat.mul_assoc, ← ceilDiv_le_iff hb, ← ceilDiv_le_iff hc]

theorem ceilDiv_mul_left (hb : 0 < b) (hc : 0 < c) : ceilDiv (c * a) (c * b) = ceilDiv a b := by
  have hiff : ∀ m, ceilDiv (c * a) (c * b) ≤ m ↔ ceilDiv a b ≤ m := by
    intro m
    rw [ceilDiv_le_iff (Nat.mul_pos hc hb), ceilDiv_le_iff hb, Nat.mul_assoc,
      Nat.mul_le_mul_left_iff hc]
  exact Nat.le_antisymm ((hiff _).mpr (Nat.le_refl _)) ((hiff _).mp (Nat.le_refl _))

theorem ceilDiv_pos (ha : 0 < a) (hb : 0 < b) : 0 < ceilDiv a b := by
  refine Nat.pos_of_ne_zero fun h => ?_
  have := (ceilDiv_le_iff (c := 0) hb).mp (Nat.le_of_eq h)
  omega

namespace Merkle

/-! ## Groups -/

section Chunks

variable {α : Type} {k : Nat}

/-- The list in groups of `k`, the last one possibly shorter. -/
def chunks (k : Nat) : List α → List (List α)
  | [] => []
  | a :: l => (a :: l.take (k - 1)) :: chunks k (l.drop (k - 1))
termination_by l => l.length
decreasing_by
  rw [List.length_drop, List.length_cons]
  omega

@[simp] theorem chunks_nil : chunks k ([] : List α) = [] := by
  rw [chunks]

theorem chunks_cons (a : α) (l : List α) :
    chunks k (a :: l) = (a :: l.take (k - 1)) :: chunks k (l.drop (k - 1)) := by
  rw [chunks]

variable {g : List α}

theorem chunks_append (hk : 0 < k) (hg : g.length = k) (l : List α) :
    chunks k (g ++ l) = g :: chunks k l := by
  cases g with
  | nil =>
    rw [← hg] at hk
    exact absurd hk (Nat.lt_irrefl 0)
  | cons a g =>
    have hlen : g.length = k - 1 := by
      rw [List.length_cons] at hg
      omega
    rw [List.cons_append, chunks_cons, List.take_left' hlen, List.drop_left' hlen]

variable {gs : List (List α)}

theorem chunks_flatten_append (hk : 0 < k) (hgs : ∀ g ∈ gs, g.length = k) (l : List α) :
    chunks k (gs.flatten ++ l) = gs ++ chunks k l := by
  induction gs with
  | nil => rfl
  | cons g gs ih =>
    rw [List.flatten_cons, List.append_assoc, chunks_append hk (hgs g List.mem_cons_self),
      ih fun x hx => hgs x (List.mem_cons_of_mem g hx), List.cons_append]

theorem length_flatten_groups (hgs : ∀ g ∈ gs, g.length = k) :
    gs.flatten.length = gs.length * k := by
  induction gs with
  | nil => rw [List.flatten_nil, List.length_nil, List.length_nil, Nat.zero_mul]
  | cons g gs ih =>
    rw [List.flatten_cons, List.length_append, hgs g List.mem_cons_self,
      ih fun x hx => hgs x (List.mem_cons_of_mem g hx), List.length_cons, Nat.succ_mul,
        Nat.add_comm]

theorem chunks_of_length_le {l : List α} (hl : l ≠ []) (h : l.length ≤ k) : chunks k l = [l] := by
  cases l with
  | nil => exact absurd rfl hl
  | cons a l =>
    have hlen : l.length ≤ k - 1 := by
      rw [List.length_cons] at h
      omega
    rw [chunks_cons, List.take_of_length_le hlen, List.drop_of_length_le hlen, chunks_nil]

theorem length_chunks (hk : 0 < k) (l : List α) : (chunks k l).length = ceilDiv l.length k := by
  induction l using chunks.induct k with
  | case1 =>
    rw [chunks_nil]
    exact (Nat.div_eq_of_lt (by simp; omega)).symm
  | case2 a l ih =>
    rw [chunks_cons, List.length_cons, ih, List.length_drop, List.length_cons, ceilDiv, ceilDiv]
    by_cases h : k - 1 ≤ l.length
    · have heq : l.length + 1 + (k - 1) = (l.length - (k - 1) + (k - 1)) + k := by omega
      rw [heq, Nat.add_div_right _ hk]
    · have hzero : l.length - (k - 1) = 0 := by omega
      rw [hzero, Nat.div_eq_of_lt (by omega), Nat.zero_add]
      exact (Nat.div_eq_of_lt_le (by omega) (by omega)).symm

theorem length_le_of_mem_chunks (hk : 0 < k) (l : List α) (h : g ∈ chunks k l) : g.length ≤ k := by
  induction l using chunks.induct k with
  | case1 =>
    rw [chunks_nil] at h
    exact nomatch h
  | case2 a l ih =>
    rw [chunks_cons] at h
    rcases List.mem_cons.mp h with rfl | h
    · rw [List.length_cons, List.length_take]
      omega
    · exact ih h

/-- Groups that a function tells apart by their elements: the lists are equal if the groups look the
same. -/
theorem eq_of_map_chunks {β : Type} {f : List α → β}
    (hf : ∀ d e : List α, d.length = e.length → f d = f e → d = e)
    (l l' : List α) (hlen : l.length = l'.length) (h : (chunks k l).map f = (chunks k l').map f) :
    l = l' := by
  induction l using chunks.induct k generalizing l' with
  | case1 => exact (List.length_eq_zero_iff.mp hlen.symm).symm
  | case2 a l ih =>
    cases l' with
    | nil => cases hlen
    | cons a' l' =>
      have hlen' : l.length = l'.length := Nat.succ.inj hlen
      rw [chunks_cons, chunks_cons, List.map_cons, List.map_cons, List.cons.injEq] at h
      have hhead := hf _ _ (by simp [hlen']) h.1
      have hdrop : (l.drop (k - 1)).length = (l'.drop (k - 1)).length := by simp [hlen']
      have htail := ih _ hdrop h.2
      rw [List.cons.injEq] at hhead
      rw [hhead.1, ← List.take_append_drop (k - 1) l, hhead.2, htail, List.take_append_drop]

end Chunks

/-! ## Levels -/

section Levels

variable {β δ : Type} (k : Nat) (hash : β → δ) (node : List δ → β)

/-- The level above a level. -/
def above (blocks : List β) : List β := (chunks k (blocks.map hash)).map node

/-- The blocks of the `j` levels above the given one, the top first. -/
def treeBlocks : Nat → List β → List β
  | 0, _ => []
  | j + 1, blocks => treeBlocks j (above k hash node blocks) ++ above k hash node blocks

/-- The level that is `j` levels above. -/
def level : Nat → List β → List β
  | 0, blocks => blocks
  | j + 1, blocks => level j (above k hash node blocks)

/-- The number of blocks of the `j` levels above a level of `n` blocks. -/
def treeSize : Nat → Nat → Nat
  | 0, _ => 0
  | j + 1, n => treeSize j (ceilDiv n k) + ceilDiv n k

variable {k hash node}

theorem length_above (hk : 0 < k) (blocks : List β) :
    (above k hash node blocks).length = ceilDiv blocks.length k := by
  rw [above, List.length_map, length_chunks hk, List.length_map]

theorem treeBlocks_top (j : Nat) (blocks : List β) :
    ∃ rest, treeBlocks k hash node (j + 1) blocks = level k hash node (j + 1) blocks ++ rest := by
  induction j generalizing blocks with
  | zero => exact ⟨[], (List.append_nil _).symm⟩
  | succ j ih =>
    obtain ⟨rest, hrest⟩ := ih (above k hash node blocks)
    refine ⟨rest ++ above k hash node blocks, ?_⟩
    rw [treeBlocks, hrest, List.append_assoc]
    rfl

theorem length_treeBlocks (hk : 0 < k) (j : Nat) (blocks : List β) :
    (treeBlocks k hash node j blocks).length = treeSize k j blocks.length := by
  induction j generalizing blocks with
  | zero => rfl
  | succ j ih => rw [treeBlocks, List.length_append, ih, length_above hk, treeSize]

theorem exists_of_mem_treeBlocks (hk : 0 < k) {b : β} (j : Nat) {blocks : List β}
    (h : b ∈ treeBlocks k hash node j blocks) : ∃ g, g.length ≤ k ∧ b = node g := by
  induction j generalizing blocks with
  | zero => exact nomatch h
  | succ j ih =>
    rcases List.mem_append.mp h with h | h
    · exact ih h
    · obtain ⟨g, hg, rfl⟩ := List.mem_map.mp h
      exact ⟨g, length_le_of_mem_chunks hk _ hg, rfl⟩

/-- The tree grows by one level at its top. -/
theorem treeSize_succ_top (hk : 0 < k) (j n : Nat) :
    treeSize k (j + 1) n = treeSize k j n + ceilDiv n (k ^ (j + 1)) := by
  induction j generalizing n with
  | zero => rw [treeSize, treeSize, treeSize, Nat.pow_one]
  | succ j ih =>
    rw [treeSize, ih, ceilDiv_ceilDiv _ hk (Nat.pow_pos hk), ← Nat.pow_succ', treeSize,
      Nat.succ_eq_add_one]
    omega

/-- No two blocks at the same place of two levels have the same digest, unless they are equal. -/
def NoCollision (hash : β → δ) (xs ys : List β) :
    Prop := ∀ p ∈ xs.zip ys, hash p.1 = hash p.2 → p.1 = p.2

theorem NoCollision.refl (xs : List β) : NoCollision hash xs xs := by
  intro p hp _
  induction xs with
  | nil => exact nomatch hp
  | cons x xs ih =>
    rcases List.mem_cons.mp hp with rfl | hp
    · rfl
    · exact ih hp

theorem NoCollision.of_injective (h : ∀ x y, hash x = hash y → x = y) (xs ys : List β) :
    NoCollision hash xs ys :=
  fun p _ => h p.1 p.2

variable {xs ys : List β}

theorem eq_of_map_hash (hc : NoCollision hash xs ys) (hlen : xs.length = ys.length)
    (h : xs.map hash = ys.map hash) : xs = ys := by
  induction xs generalizing ys with
  | nil => exact (List.length_eq_zero_iff.mp hlen.symm).symm
  | cons x xs ih =>
    cases ys with
    | nil => cases hlen
    | cons y ys =>
      rw [List.map_cons, List.map_cons, List.cons.injEq] at h
      have hhead : x = y := hc (x, y) List.mem_cons_self h.1
      have htail := ih (fun p hp => hc p (List.mem_cons_of_mem _ hp)) (Nat.succ.inj hlen) h.2
      rw [hhead, htail]

theorem above_inj (hnode : ∀ d e : List δ, d.length = e.length → node d = node e → d = e)
    (hc : NoCollision hash xs ys) (hlen : xs.length = ys.length)
    (h : above k hash node xs = above k hash node ys) : xs = ys :=
  eq_of_map_hash hc hlen (eq_of_map_chunks hnode _ _ (by simp [hlen]) h)

theorem NoCollision.of_append {xs ys zs ws : List β} (hlen : xs.length = ys.length)
    (h : NoCollision hash (xs ++ zs) (ys ++ ws)) :
    NoCollision hash xs ys ∧ NoCollision hash zs ws := by
  unfold NoCollision at h
  rw [List.zip_append hlen] at h
  exact ⟨fun p hp => h p (List.mem_append_left _ hp), fun p hp => h p (List.mem_append_right _ hp)⟩

theorem eq_of_level_hash (hk : 0 < k)
    (hnode : ∀ d e : List δ, d.length = e.length → node d = node e → d = e) (j : Nat)
    (hlen : xs.length = ys.length) (hc : NoCollision hash xs ys)
    (htree : NoCollision hash (treeBlocks k hash node j xs) (treeBlocks k hash node j ys))
    (h : (level k hash node j xs).map hash = (level k hash node j ys).map hash) : xs = ys := by
  induction j generalizing xs ys with
  | zero => exact eq_of_map_hash hc hlen h
  | succ j ih =>
    have habove : (above k hash node xs).length = (above k hash node ys).length := by
      rw [length_above hk, length_above hk, hlen]
    have hsize : (treeBlocks k hash node j (above k hash node xs)).length
        = (treeBlocks k hash node j (above k hash node ys)).length := by
      rw [length_treeBlocks hk, length_treeBlocks hk, habove]
    obtain ⟨hupper, hhere⟩ := NoCollision.of_append hsize htree
    exact above_inj hnode hc hlen (ih habove hhere hupper h)

end Levels
end Merkle
end Lib
