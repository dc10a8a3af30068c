import Kata.Lib.Merkle
import Kata.Lib.Outcome
import Kata.Verity.Builder

/-!
# Kata.Verity.Levels

What the level buffers of the verity builder hold at any time. Take the digests `ds` that have
entered a level so far: whole groups of them have been written as hash blocks, and their digests
have entered the level above; the rest is in the buffer (`Filled`). A level that is not the root is
never left full (`Settled`).

* `goUp_settles`: a level that has become full is written and the levels above are settled.
* `flush_flushed`: at the end, all levels below the root are written, and the blocks written are those of the groups of
  the digests that have entered (`Flushed`).
* `Flushed.tree`: then the root buffer holds the digests of the last level but one, and the blocks written are the
  hash blocks of the tree, level after level in the file.
-/

namespace Kata.Verity

open Lib Lib.Merkle

/-! ## Hash blocks -/

section Blocks

variable (dg : Digest) (salt : Bytes) (hbs : Nat)

/-- How many digests a hash block holds. -/
def arity : Nat := hbs / dg.outputSize

def saltedDigest (block : Bytes) : Vector UInt8 dg.outputSize := dg.hash (salt ++ block)

variable {dg} in
def digestBytes (ds : List (Vector UInt8 dg.outputSize)) : Bytes := (ds.map Vector.toList).flatten

variable {dg} in
/-- Digests one after the other, padded with zeros. -/
def hashBlock (ds : List (Vector UInt8 dg.outputSize)) : Bytes :=
  digestBytes ds ++ List.replicate (hbs - ds.length * dg.outputSize) 0

/-- Blocks one after the other from an offset on. -/
def layout (size : Nat) : Nat → List Bytes → List (Bytes × Nat)
  | _, [] => []
  | offset, b :: bs => (b, offset) :: layout size (offset + size) bs

variable {dg salt hbs}

theorem length_digestBytes (ds : List (Vector UInt8 dg.outputSize)) :
    (digestBytes ds).length = ds.length * dg.outputSize := by
  have hgroups : ∀ g ∈ ds.map Vector.toList, g.length = dg.outputSize := by simp
  rw [digestBytes, length_flatten_groups hgroups, List.length_map]

theorem digestBytes_append (ds : List (Vector UInt8 dg.outputSize)) (d : Vector UInt8 dg.outputSize) :
    digestBytes (ds ++ [d]) = digestBytes ds ++ d.toList := by
  simp [digestBytes]

theorem used_le {m : Nat} (h : m ≤ arity dg hbs) : m * dg.outputSize ≤ hbs :=
  Nat.le_trans (Nat.mul_le_mul_right _ h) (Nat.div_mul_le_self _ _)

theorem length_hashBlock {ds : List (Vector UInt8 dg.outputSize)} (h : ds.length ≤ arity dg hbs) :
    (hashBlock hbs ds).length = hbs := by
  have := used_le h
  rw [hashBlock, List.length_append, length_digestBytes, List.length_replicate]
  omega

theorem layout_append (size offset : Nat) (bs cs : List Bytes) :
    layout size offset (bs ++ cs) = layout size offset bs ++ layout size (offset + bs.length * size) cs := by
  induction bs generalizing offset with
  | nil => rw [List.nil_append, List.length_nil, Nat.zero_mul]; rfl
  | cons b bs ih =>
    have hoff : offset + size + bs.length * size = offset + (bs.length + 1) * size := by
      rw [Nat.succ_mul]
      omega
    rw [List.cons_append, layout, ih, layout, List.cons_append, List.length_cons, hoff]

end Blocks

/-! ## One level -/

section Level

variable (dg : Digest) (hbs : Nat)

/-- The level's buffer holds these digests, and its next block goes to this offset. -/
structure Holds (level : Level) (rem : List (Vector UInt8 dg.outputSize)) (offset : Nat) : Prop where
  nextIndex : level.nextIndex = rem.length
  fileOffset : level.fileOffset = offset
  length : level.data.length = hbs
  data : level.data.take (rem.length * dg.outputSize) = digestBytes rem

variable {dg hbs} {v : Verity} {l offset : Nat} {level : Level} {rem : List (Vector UInt8 dg.outputSize)}

theorem levelAt_of_getElem? (h : v.levels[l]? = some level) : levelAt v l = .ok level := by
  unfold levelAt
  rw [h]

theorem getElem?_setLevel_self {level' : Level} (h : v.levels[l]? = some level) :
    (setLevel v l level').levels[l]? = some level' :=
  List.getElem?_set_self (List.getElem?_eq_some_iff.mp h).1

theorem addHash_holds (hv : v.hashBlockSize = hbs) (hl : v.levels[l]? = some level)
    (h : Holds dg hbs level rem offset) (hrem : rem.length < arity dg hbs) (d : Vector UInt8 dg.outputSize) :
    ∃ level', addHash dg v l d.toList = .ok (decide (arity dg hbs ≤ rem.length + 1), setLevel v l level') ∧
      Holds dg hbs level' (rem ++ [d]) offset := by
  have hused : (rem.length + 1) * dg.outputSize ≤ hbs := used_le hrem
  have hlen : d.toList.length = dg.outputSize := Vector.length_toList
  have hend : rem.length * dg.outputSize + dg.outputSize = (rem.length + 1) * dg.outputSize := (Nat.succ_mul _ _).symm
  let data := digestBytes rem ++ d.toList ++ level.data.drop ((rem.length + 1) * dg.outputSize)
  have hcopy : copyFromSlice level.data (level.nextIndex * dg.outputSize) d.toList = .ok data := by
    rw [h.nextIndex, copyFromSlice, if_pos (by rw [hlen, hend, h.length]; exact hused), hlen, hend, h.data]
  have hnew : (digestBytes rem ++ d.toList).length = (rem.length + 1) * dg.outputSize := by
    rw [List.length_append, length_digestBytes, hlen, hend]
  refine ⟨{ level with data := data, nextIndex := level.nextIndex + 1 }, ?_, ?_⟩
  · unfold addHash
    rw [levelAt_of_getElem? hl, ok_bind, hcopy, ok_bind, hv, h.nextIndex]
    rfl
  · constructor
    · show level.nextIndex + 1 = _
      rw [h.nextIndex, List.length_append, List.length_singleton]
    · exact h.fileOffset
    · show data.length = hbs
      rw [List.length_append, hnew, List.length_drop, h.length]
      omega
    · show data.take _ = _
      rw [List.length_append, List.length_singleton, List.take_left' hnew, digestBytes_append]

theorem finalizeLevel_holds (hl : v.levels[l]? = some level) (h : Holds dg hbs level rem offset)
    (hrem : rem.length ≤ arity dg hbs) :
    finalizeLevel dg v l = .ok (setLevel v l { level with data := hashBlock hbs rem, nextIndex := 0 }) := by
  have hused : level.nextIndex * dg.outputSize ≤ level.data.length := by
    rw [h.nextIndex, h.length]
    exact used_le hrem
  unfold finalizeLevel
  rw [levelAt_of_getElem? hl, ok_bind]
  dsimp only
  rw [if_pos hused, h.nextIndex, h.data, h.length]
  rfl

variable (checks : Bool) {writer : List (Bytes × Nat) → Bytes × Nat → Except Error Unit}

theorem emit_holds (hw : ∀ calls c, writer calls c = .ok ()) (hv : v.hashBlockSize = hbs)
    (hl : v.levels[l]? = some level) (h : Holds dg hbs level rem offset) (hrem : rem.length ≤ arity dg hbs)
    (hoff : offset + hbs ≤ U64.max) :
    ∃ level', (emit dg checks writer v l).Yields (hashBlock hbs rem,
      setLevel v l level') [(hashBlock hbs rem, offset)] ∧
      Holds dg hbs level' [] (offset + hbs) := by
  let done : Level := { level with data := hashBlock hbs rem, nextIndex := 0 }
  refine ⟨{ done with fileOffset := offset + hbs }, ?_, ?_⟩
  · unfold emit
    refine Traced.Yields.lift_bind (finalizeLevel_holds hl h hrem) ?_
    refine Traced.Yields.lift_bind (levelAt_of_getElem? (getElem?_setLevel_self hl)) ?_
    have hcall : Traced.Yields (Traced.call writer (done.data, done.fileOffset))
        () [(hashBlock hbs rem, offset)] := by
      rw [show done.fileOffset = offset from h.fileOffset]
      exact Traced.Yields.call fun calls => hw calls _
    have hadd : U64.add checks Error.overflow done.fileOffset (setLevel v l done).hashBlockSize =
        .ok (offset + hbs) := by
      rw [show done.fileOffset = offset from h.fileOffset, show (setLevel v l done).hashBlockSize = hbs from hv]
      exact U64.add_of_le hoff
    refine hcall.bind (Traced.Yields.lift_bind hadd ?_)
    have hset : setLevel (setLevel v l done) l { done with fileOffset := offset + hbs }
        = setLevel v l { done with fileOffset := offset + hbs } := by
      simp [setLevel]
    rw [hset]
    exact Traced.Yields.pure _
  · exact ⟨rfl, rfl, length_hashBlock hrem, by rw [List.length_nil, Nat.zero_mul]; rfl⟩

end Level

/-! ## All levels -/

section Levels

variable (dg : Digest) (salt : Bytes) (hbs base : Nat)

/-- Where level `l` begins if `n` digests enter it in all. -/
def levelBase (l n : Nat) : Nat := base + hbs * treeSize (arity dg hbs) l (ceilDiv n (arity dg hbs))

/-- The digests `ds` have entered level `l`, of `n` in all; it holds `rem`, and `W` has been written
for it and for the levels above. -/
inductive Filled (ls : List Level) : (l n : Nat) → (ds rem : List (Vector UInt8 dg.outputSize)) →
    (W : List (Bytes × Nat)) → Prop
  | root {n : Nat} {ds : List (Vector UInt8 dg.outputSize)} {level : Level} (hl : ls[0]? = some level)
      (hholds : Holds dg hbs level ds base) : Filled ls 0 n ds ds []
  | lower {l n : Nat} {gs : List (List (Vector UInt8 dg.outputSize))} {rem above : List (Vector UInt8 dg.outputSize)}
      {level : Level} {W W' : List (Bytes × Nat)} (hl : ls[l + 1]? = some level)
      (hholds : Holds dg hbs level rem (levelBase dg hbs base (l + 1) n + gs.length * hbs))
      (hgs : ∀ g ∈ gs, g.length = arity dg hbs)
      (hW : W.Perm (layout hbs (levelBase dg hbs base (l + 1) n) (gs.map (hashBlock hbs)) ++ W'))
      (hnotfull : l ≠ 0 → above.length < arity dg hbs)
      (habove : Filled ls l (ceilDiv n (arity dg hbs))
        ((gs.map (hashBlock hbs)).map (saltedDigest dg salt)) above W') :
      Filled ls (l + 1) n (gs.flatten ++ rem) rem W

/-- Only the root may be full. -/
def Settled (ls : List Level) (l n : Nat) (ds : List (Vector UInt8 dg.outputSize)) (W : List (Bytes × Nat)) : Prop :=
  ∃ rem, (l ≠ 0 → rem.length < arity dg hbs) ∧ Filled dg salt hbs base ls l n ds rem W

/-- The root has room for its digests, and the offsets of the tree fit. -/
structure Room (l n : Nat) : Prop where
  fits : n ≤ arity dg hbs ^ (l + 1)
  offsets : base + hbs * treeSize (arity dg hbs) (l + 1) n ≤ U64.max

variable {dg salt hbs base} {ls ls' : List Level} {l n : Nat} {ds rem : List (Vector UInt8 dg.outputSize)}
variable {W : List (Bytes × Nat)}

theorem Filled.congr (h : Filled dg salt hbs base ls l n ds rem W) (hls : ∀ i ≤ l, ls'[i]? = ls[i]?) :
    Filled dg salt hbs base ls' l n ds rem W := by
  induction h with
  | root hl hholds => exact .root ((hls 0 (Nat.le_refl 0)).trans hl) hholds
  | lower hl hholds hgs hW hnotfull _ ih =>
    exact .lower ((hls _ (Nat.le_refl _)).trans hl) hholds hgs hW hnotfull
      (ih fun i hi => hls i (Nat.le_succ_of_le hi))

theorem Filled.root_eq (h : Filled dg salt hbs base ls 0 n ds rem W) : ds = rem := by
  cases h
  rfl

theorem Room.above (hk : 0 < arity dg hbs) (h : Room dg hbs base (l + 1) n) :
    Room dg hbs base l (ceilDiv n (arity dg hbs)) := by
  constructor
  · rw [ceilDiv_le_iff hk, ← Nat.pow_succ']
    exact h.fits
  · refine Nat.le_trans (Nat.add_le_add_left (Nat.mul_le_mul_left hbs ?_) _) h.offsets
    show _ ≤ treeSize (arity dg hbs) (l + 1) (ceilDiv n (arity dg hbs)) + ceilDiv n (arity dg hbs)
    exact Nat.le_add_right _ _

/-- The next block of a level that still has digests to write has its place. -/
theorem Room.next (h : Room dg hbs base l n) {m : Nat} (hm : m < ceilDiv n (arity dg hbs)) :
    levelBase dg hbs base l n + m * hbs + hbs ≤ U64.max := by
  have hle : hbs * (m + 1) ≤ hbs * ceilDiv n (arity dg hbs) := Nat.mul_le_mul_left hbs hm
  have := h.offsets
  rw [treeSize, Nat.mul_add] at this
  rw [levelBase, Nat.mul_comm m]
  rw [Nat.mul_succ] at hle
  omega

variable {v : Verity}

theorem Filled.add (hv : v.hashBlockSize = hbs) (h : Filled dg salt hbs base v.levels l n ds rem W)
    (hrem : rem.length < arity dg hbs) (d : Vector UInt8 dg.outputSize) :
    ∃ level, addHash dg v l d.toList = .ok (decide (arity dg hbs ≤ rem.length + 1), setLevel v l level) ∧
      Filled dg salt hbs base (v.levels.set l level) l n (ds ++ [d]) (rem ++ [d]) W := by
  cases h with
  | root hl hholds =>
    obtain ⟨level, hadd, hholds'⟩ := addHash_holds hv hl hholds hrem d
    exact ⟨level, hadd, .root (getElem?_setLevel_self hl) hholds'⟩
  | @lower l n gs rem above level W W' hl hholds hgs hW hnotfull habove =>
    obtain ⟨level', hadd, hholds'⟩ := addHash_holds hv hl hholds hrem d
    refine ⟨level', hadd, ?_⟩
    rw [List.append_assoc]
    refine .lower (getElem?_setLevel_self hl) hholds' hgs hW hnotfull (habove.congr fun i hi => ?_)
    exact List.getElem?_set_ne (by omega)

theorem groups_lt_ceilDiv {gs : List (List (Vector UInt8 dg.outputSize))} (hgs : ∀ g ∈ gs, g.length = arity dg hbs)
    (hk : 0 < arity dg hbs) (hrem : 0 < rem.length) (hn : (gs.flatten ++ rem).length ≤ n) :
    gs.length < ceilDiv n (arity dg hbs) := by
  rw [List.length_append, length_flatten_groups hgs, Nat.mul_comm] at hn
  refine Nat.lt_of_not_le fun hle => ?_
  rw [ceilDiv_le_iff hk] at hle
  omega

variable (checks : Bool) {writer : List (Bytes × Nat) → Bytes × Nat → Except Error Unit}

/-- What `uplevel` does to a level that holds digests: `gs` have been written before. -/
theorem uplevel_filled (hw : ∀ calls c, writer calls c = .ok ()) (hv : v.hashBlockSize = hbs) (hs : v.seeded = salt)
    (h : Filled dg salt hbs base v.levels (l + 1) n ds rem W) (hrem : rem.length ≤ arity dg hbs)
    (hpos : 0 < rem.length) (hds : ds.length ≤ n) (hroom : Room dg hbs base (l + 1) n) :
    ∃ gs above W' ls level, ds = gs.flatten ++ rem ∧ (∀ g ∈ gs, g.length = arity dg hbs) ∧
      gs.length < ceilDiv n (arity dg hbs) ∧ above.length < arity dg hbs ∧
      (uplevel dg checks writer v (l + 1)).Yields (decide (arity dg hbs ≤ above.length + 1), { v with levels := ls })
        [(hashBlock hbs rem, levelBase dg hbs base (l + 1) n + gs.length * hbs)] ∧
      W.Perm (layout hbs (levelBase dg hbs base (l + 1) n) (gs.map (hashBlock hbs)) ++ W') ∧
      Filled dg salt hbs base ls l (ceilDiv n (arity dg hbs))
        (((gs ++ [rem]).map (hashBlock hbs)).map (saltedDigest dg salt))
        (above ++ [saltedDigest dg salt (hashBlock hbs rem)]) W' ∧
      ls[l + 1]? = some level ∧
      Holds dg hbs level [] (levelBase dg hbs base (l + 1) n + (gs.length + 1) * hbs) ∧
      ls.length = v.levels.length ∧ ∀ i, l + 1 < i → ls[i]? = v.levels[i]? := by
  cases h with
  | @lower _ _ gs _ above level _ W' hl hholds hgs hW hnotfull habove =>
    have hk : 0 < arity dg hbs := Nat.lt_of_lt_of_le hpos hrem
    have hnext := groups_lt_ceilDiv hgs hk hpos hds
    -- The level above has room: if it is the root, because fewer than all groups have entered it.
    have hfree : above.length < arity dg hbs := by
      cases l with
      | succ l => exact hnotfull (Nat.succ_ne_zero l)
      | zero =>
        have hroot := (hroom.above hk).fits
        rw [← habove.root_eq, List.length_map, List.length_map]
        rw [Nat.zero_add, Nat.pow_one] at hroot
        exact Nat.lt_of_lt_of_le hnext hroot
    obtain ⟨level', hemit, hholds'⟩ := emit_holds checks hw hv hl hholds hrem (hroom.next hnext)
    have habove' : Filled dg salt hbs base (setLevel v (l + 1) level').levels l (ceilDiv n (arity dg hbs))
        ((gs.map (hashBlock hbs)).map (saltedDigest dg salt)) above W' :=
      habove.congr fun i hi => List.getElem?_set_ne (by omega)
    obtain ⟨upper, hadd, hfilled⟩ := Filled.add (v := setLevel v (l + 1) level') hv habove' hfree
      (saltedDigest dg salt (hashBlock hbs rem))
    have hlater : ∀ i, l + 1 < i → ((v.levels.set (l + 1) level').set l upper)[i]? = v.levels[i]? := by
      intro i hi
      rw [List.getElem?_set_ne (by omega), List.getElem?_set_ne (by omega)]
    refine ⟨gs, above, W', (v.levels.set (l + 1) level').set l upper, level', rfl, hgs, hnext,
      hfree, ?_, hW, ?_, ?_, ?_,
      ?_, hlater⟩
    · unfold uplevel
      refine hemit.bind (Traced.Yields.lift ?_)
      have hdigest : digest dg (setLevel v (l + 1) level') (hashBlock hbs rem)
          = (saltedDigest dg salt (hashBlock hbs rem)).toList := by
        show (dg.hash (v.seeded ++ _)).toList = _
        rw [hs]
        rfl
      rw [hdigest]
      exact hadd
    · rw [List.map_append, List.map_append]
      exact hfilled
    · rw [List.getElem?_set_ne (by omega)]
      exact getElem?_setLevel_self hl
    · rw [Nat.succ_mul, ← Nat.add_assoc]
      exact hholds'
    · rw [List.length_set, List.length_set]

theorem perm_next {A W W' Wn : List (Bytes × Nat)} {w : Bytes × Nat} (h : W.Perm (A ++ W')) :
    (W ++ ([w] ++ Wn)).Perm (A ++ [w] ++ (W' ++ Wn)) := by
  refine (h.append_right _).trans ?_
  rw [List.append_assoc, List.append_assoc, List.singleton_append, List.singleton_append]
  exact List.perm_middle.append_left A

theorem layout_groups_snoc (offset : Nat) (gs : List (List (Vector UInt8 dg.outputSize)))
    (rem : List (Vector UInt8 dg.outputSize)) :
    layout hbs offset ((gs ++ [rem]).map (hashBlock hbs))
      = layout hbs offset (gs.map (hashBlock hbs)) ++ [(hashBlock hbs rem, offset + gs.length * hbs)] := by
  rw [List.map_append, layout_append, List.length_map]
  rfl

theorem goUp_settles (hw : ∀ calls c, writer calls c = .ok ()) (l : Nat) (hv : v.hashBlockSize = hbs)
    (hs : v.seeded = salt) (h : Filled dg salt hbs base v.levels l n ds rem W)
    (hfull : rem.length = arity dg hbs) (hk : 0 < arity dg hbs) (hds : ds.length ≤ n)
    (hroom : Room dg hbs base l n) : ∃ ls Wn, (goUp dg checks writer l v).Yields { v with levels := ls } Wn ∧
      Settled dg salt hbs base ls l n ds (W ++ Wn) ∧ ls.length = v.levels.length ∧
      ∀ i, l < i → ls[i]? = v.levels[i]? := by
  induction l generalizing v n ds rem W with
  | zero =>
    refine ⟨v.levels, [], Traced.Yields.pure v, ⟨rem, fun h0 => absurd rfl h0, ?_⟩, rfl, fun i _ => rfl⟩
    rw [List.append_nil]
    exact h
  | succ l ih =>
    obtain ⟨gs, above, W', ls, level, rfl, hgs, hnext, hfree, hup, hW, hfilled, hl, hholds, hlen, hlater⟩ :=
      uplevel_filled checks hw hv hs h (Nat.le_of_eq hfull) (by omega) hds hroom
    -- The levels above are settled, whether the next one has become full or not.
    obtain ⟨ls', Wn, hgo, hsettled, hlen', hlater'⟩ : ∃ ls' Wn,
        (if decide (arity dg hbs ≤ above.length + 1) then goUp dg checks writer l { v with levels := ls }
          else pure { v with levels := ls }).Yields { v with levels := ls' } Wn ∧
        Settled dg salt hbs base ls' l (ceilDiv n (arity dg hbs))
          (((gs ++ [rem]).map (hashBlock hbs)).map (saltedDigest dg salt)) (W' ++ Wn) ∧
        ls'.length = ls.length ∧ ∀ i, l < i → ls'[i]? = ls[i]? := by
      by_cases hup : arity dg hbs ≤ above.length + 1
      · rw [decide_eq_true hup, if_pos rfl]
        refine ih (v := { v with levels := ls }) hv hs hfilled ?_ ?_ (hroom.above hk)
        · rw [List.length_append, List.length_singleton]
          omega
        · rw [List.length_map, List.length_map, List.length_append, List.length_singleton]
          exact hnext
      · rw [decide_eq_false hup, if_neg Bool.false_ne_true]
        refine ⟨ls, [], Traced.Yields.pure _, ⟨above ++ [saltedDigest dg salt (hashBlock hbs rem)],
          fun _ => ?_, ?_⟩, rfl,
          fun i _ => rfl⟩
        · rw [List.length_append, List.length_singleton]
          omega
        · rw [List.append_nil]
          exact hfilled
    refine ⟨ls', _, hup.bind hgo, ⟨[], fun _ => hk, ?_⟩, hlen'.trans hlen, ?_⟩
    · obtain ⟨rest, hrest, hfilled'⟩ := hsettled
      have hds' : gs.flatten ++ rem = (gs ++ [rem]).flatten ++ [] := by simp
      rw [hds']
      refine .lower ((hlater' _ (Nat.lt_succ_self l)).trans hl) ?_ ?_ ?_ hrest hfilled'
      · rw [List.length_append, List.length_singleton]
        exact hholds
      · intro g hg
        rcases List.mem_append.mp hg with hg | hg
        · exact hgs g hg
        · rw [List.mem_singleton.mp hg]
          exact hfull
      · rw [layout_groups_snoc]
        exact perm_next hW
    · intro i hi
      rw [hlater' i (by omega), hlater i hi]

/-! ## The end of the data -/

variable (dg salt hbs base) in
/-- All levels from `l` up to the one below the root have been written; the blocks `bs` are hashed
by level `l`. -/
inductive Flushed (ls : List Level) : (l : Nat) → (bs : List Bytes) → (W : List (Bytes × Nat)) → Prop
  | root {bs : List Bytes} {level : Level} (hl : ls[0]? = some level)
      (hholds : Holds dg hbs level (bs.map (saltedDigest dg salt)) base) : Flushed ls 0 bs []
  | lower {l : Nat} {bs : List Bytes} {level : Level} {W W' : List (Bytes × Nat)} (hl : ls[l + 1]? = some level)
      (hoff : level.fileOffset = base + hbs * treeSize (arity dg hbs) (l + 2) bs.length)
      (hW : W.Perm (layout hbs (levelBase dg hbs base (l + 1) bs.length)
        (above (arity dg hbs) (saltedDigest dg salt) (hashBlock hbs) bs) ++ W'))
      (habove : Flushed ls l (above (arity dg hbs) (saltedDigest dg salt) (hashBlock hbs) bs) W') :
        Flushed ls (l + 1) bs W

variable {bs : List Bytes}

/-- A level that has written the groups `gs`, which are all its digests, is flushed if the levels
above are. -/
theorem Flushed.of_groups {gs : List (List (Vector UInt8 dg.outputSize))} {level : Level} {W W' : List (Bytes × Nat)}
    (hk : 0 < arity dg hbs) (hgs : chunks (arity dg hbs) (bs.map (saltedDigest dg salt)) = gs)
    (hl : ls[l + 1]? = some level)
    (hholds : Holds dg hbs level [] (levelBase dg hbs base (l + 1) bs.length + gs.length * hbs))
    (hW : W.Perm (layout hbs (levelBase dg hbs base (l + 1) bs.length) (gs.map (hashBlock hbs)) ++ W'))
    (habove : Flushed dg salt hbs base ls l (gs.map (hashBlock hbs)) W') :
    Flushed dg salt hbs base ls (l + 1) bs W := by
  have hcount : gs.length = ceilDiv bs.length (arity dg hbs) := by
    rw [← hgs, length_chunks hk, List.length_map]
  have hblocks : above (arity dg hbs) (saltedDigest dg salt) (hashBlock hbs) bs = gs.map (hashBlock hbs) := by
    rw [above, hgs]
  have hoff : level.fileOffset = base + hbs * treeSize (arity dg hbs) (l + 2) bs.length := by
    show _ = base + hbs * (treeSize _ (l + 1) (ceilDiv _ _) + ceilDiv _ _)
    rw [hholds.fileOffset, hcount, levelBase, Nat.mul_add, Nat.mul_comm (ceilDiv _ _), Nat.add_assoc]
  rw [← hblocks] at hW habove
  exact .lower hl hoff hW habove

theorem upAll_flushed (hw : ∀ calls c, writer calls c = .ok ()) (l : Nat) (hv : v.hashBlockSize = hbs)
    (hs : v.seeded = salt)
    (h : Filled dg salt hbs base v.levels l bs.length (bs.map (saltedDigest dg salt)) rem W)
    (hrem : rem.length ≤ arity dg hbs) (hpos : 0 < rem.length) (hroom : Room dg hbs base l bs.length) :
    ∃ ls Wn, (upAll dg checks writer l v).Yields { v with levels := ls } Wn ∧
      Flushed dg salt hbs base ls l bs (W ++ Wn) ∧ ls.length = v.levels.length ∧
      ∀ i, l < i → ls[i]? = v.levels[i]? := by
  induction l generalizing v bs rem W with
  | zero =>
    refine ⟨v.levels, [], Traced.Yields.pure v, ?_, rfl, fun i _ => rfl⟩
    cases h with
    | root hl hholds => exact .root hl hholds
  | succ l ih =>
    have hk : 0 < arity dg hbs := Nat.lt_of_lt_of_le hpos hrem
    obtain ⟨gs, upper, W', ls, level, hds, hgs, hnext, hfree, hup, hW, hfilled, hl, hholds, hlen, hlater⟩ :=
      uplevel_filled checks hw hv hs h hrem hpos (by rw [List.length_map]) hroom
    have hchunks : chunks (arity dg hbs) (bs.map (saltedDigest dg salt)) = gs ++ [rem] := by
      rw [hds, chunks_flatten_append hk hgs, chunks_of_length_le (List.ne_nil_of_length_pos hpos) hrem]
    have hcount : ceilDiv bs.length (arity dg hbs) = ((gs ++ [rem]).map (hashBlock hbs)).length := by
      rw [List.length_map, ← hchunks, length_chunks hk, List.length_map]
    have hroom' := hroom.above hk
    rw [hcount] at hfilled hroom'
    obtain ⟨ls', Wn, hgo, hflushed, hlen', hlater'⟩ := ih (v := { v with levels := ls }) hv hs hfilled
      (by rw [List.length_append, List.length_singleton]; exact hfree) (by simp) hroom'
    refine ⟨ls', _, hup.bind hgo, ?_, hlen'.trans hlen, ?_⟩
    · refine .of_groups hk hchunks ((hlater' _ (Nat.lt_succ_self l)).trans hl) ?_ ?_ hflushed
      · rw [List.length_append, List.length_singleton]
        exact hholds
      · rw [layout_groups_snoc]
        exact perm_next hW
    · intro i hi
      rw [hlater' i (by omega), hlater i hi]

theorem flush_flushed (hw : ∀ calls c, writer calls c = .ok ()) (l : Nat) (hv : v.hashBlockSize = hbs)
    (hs : v.seeded = salt) (hk : 0 < arity dg hbs)
    (h : Settled dg salt hbs base v.levels l bs.length (bs.map (saltedDigest dg salt)) W)
    (hroom : Room dg hbs base l bs.length) :
    ∃ ls Wn, (flush dg checks writer l v).Yields { v with levels := ls } Wn ∧
      Flushed dg salt hbs base ls l bs (W ++ Wn) ∧ ls.length = v.levels.length ∧
      ∀ i, l < i → ls[i]? = v.levels[i]? := by
  induction l generalizing v bs W with
  | zero =>
    obtain ⟨rem, -, hfilled⟩ := h
    refine ⟨v.levels, [], Traced.Yields.pure v, ?_, rfl, fun i _ => rfl⟩
    cases hfilled with
    | root hl hholds => exact .root hl hholds
  | succ l ih =>
    obtain ⟨rem, hnotfull, hfilled⟩ := h
    have hrem := hnotfull (Nat.succ_ne_zero l)
    generalize hds : bs.map (saltedDigest dg salt) = ds at hfilled
    cases hfilled with
    | @lower _ _ gs _ upper level _ W' hl hholds hgs hW hupper habove =>
      have hat : levelAt v (l + 1) = .ok level := levelAt_of_getElem? hl
      by_cases hempty : level.nextIndex = 0
      · -- Nothing is left in this level: its groups are all there is.
        have hnil : rem = [] := List.length_eq_zero_iff.mp (hholds.nextIndex.symm.trans hempty)
        subst hnil
        have hchunks : chunks (arity dg hbs) (bs.map (saltedDigest dg salt)) = gs := by
          rw [hds, chunks_flatten_append hk hgs, chunks_nil, List.append_nil]
        have hcount : ceilDiv bs.length (arity dg hbs) = (gs.map (hashBlock hbs)).length := by
          rw [List.length_map, ← hchunks, length_chunks hk, List.length_map]
        have hroom' := hroom.above hk
        rw [hcount] at habove hroom'
        obtain ⟨ls, Wn, hgo, hflushed, hlen, hlater⟩ := ih hv hs ⟨upper, hupper, habove⟩ hroom'
        refine ⟨ls, Wn, ?_, ?_, hlen, fun i hi => hlater i (by omega)⟩
        · unfold flush
          refine Traced.Yields.lift_bind hat ?_
          rw [if_neg (not_not_intro hempty)]
          exact hgo
        · refine .of_groups hk hchunks ((hlater _ (Nat.lt_succ_self l)).trans hl) hholds ?_ hflushed
          rw [← List.append_assoc]
          exact hW.append_right Wn
      · have hpos : 0 < rem.length := by
          rw [← hholds.nextIndex]
          exact Nat.pos_of_ne_zero hempty
        have hfilled : Filled dg salt hbs base v.levels (l + 1) bs.length (bs.map (saltedDigest dg salt)) rem W := by
          rw [hds]
          exact .lower hl hholds hgs hW hupper habove
        obtain ⟨ls, Wn, hgo, hflushed⟩ := upAll_flushed checks hw (l + 1) hv hs hfilled (Nat.le_of_lt hrem)
          hpos hroom
        refine ⟨ls, Wn, ?_, hflushed⟩
        unfold flush
        refine Traced.Yields.lift_bind hat ?_
        rw [if_pos hempty]
        exact hgo

/-- The root holds the digests of the blocks below it, and with its own block all blocks of the tree
are in their places. -/
theorem Flushed.tree (hk : 0 < arity dg hbs) (h : Flushed dg salt hbs base ls l bs W) (hpos : 0 < bs.length)
    (hfits : bs.length ≤ arity dg hbs ^ (l + 1)) :
    ∃ level ds, ls[0]? = some level ∧ Holds dg hbs level ds base ∧ ds.length ≤ arity dg hbs ∧
      Merkle.level (arity dg hbs) (saltedDigest dg salt) (hashBlock hbs) (l + 1) bs = [hashBlock hbs ds] ∧
      (W ++ [(hashBlock hbs ds, base)]).Perm
        (layout hbs base (treeBlocks (arity dg hbs) (saltedDigest dg salt) (hashBlock hbs) (l + 1) bs)) := by
  induction h with
  | @root bs level hl hholds =>
    rw [Nat.zero_add, Nat.pow_one] at hfits
    have hchunks : chunks (arity dg hbs) (bs.map (saltedDigest dg salt)) = [bs.map (saltedDigest dg salt)] :=
      chunks_of_length_le (List.ne_nil_of_length_pos (by rw [List.length_map]; exact hpos))
        (by rw [List.length_map]; exact hfits)
    have habove : above (arity dg hbs) (saltedDigest dg salt) (hashBlock hbs) bs
        = [hashBlock hbs (bs.map (saltedDigest dg salt))] := by
      rw [above, hchunks]
      rfl
    refine ⟨level, bs.map (saltedDigest dg salt), hl, hholds, by rw [List.length_map]; exact hfits, habove, ?_⟩
    rw [treeBlocks, treeBlocks, habove]
    exact List.Perm.refl _
  | @lower l bs level W W' hl hoff hW _ ih =>
    have hlen : (above (arity dg hbs) (saltedDigest dg salt) (hashBlock hbs) bs).length
        = ceilDiv bs.length (arity dg hbs) := length_above hk bs
    obtain ⟨root, ds, hroot, hholds, hds, htop, hperm⟩ := ih (by rw [hlen]; exact ceilDiv_pos hpos hk)
      (by rw [hlen, ceilDiv_le_iff hk, ← Nat.pow_succ']; exact hfits)
    refine ⟨root, ds, hroot, hholds, hds, htop, ?_⟩
    rw [treeBlocks, layout_append, length_treeBlocks hk, hlen, Nat.mul_comm (treeSize _ _ _)]
    refine (hW.append_right _).trans ?_
    rw [List.append_assoc]
    exact List.perm_append_comm.trans (hperm.append_right _)

end Levels

end Kata.Verity
