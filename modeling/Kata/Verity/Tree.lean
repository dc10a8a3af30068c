import Kata.Verity.Levels

/-!
# Kata.Verity.Tree

The verity builder computes the hash tree of the data. The tree is defined from the data blocks
alone: a level is made of the salted digests of the level below, as many as fit in a hash block,
padded with zeros (`Merkle.above`), up to the level of a single block.

* `new_settled`: the offsets that `Verity::new` computes from powers of the arity are where the levels of the tree begin.
* `addBlocks_settles`: after any number of blocks, the levels hold what `Settled` says.
* `newTraverse_merkleTree`: the result is the digest of the top block; the blocks written are those of the tree, each
  once and at its place, the root first in the file; the superblock comes after them.
-/

namespace Kata.Verity

open Lib Lib.Merkle

section Sizes

variable (dg : Digest) (hbs : Nat)

/-- The data in blocks of `size` bytes. -/
def dataBlocks (size : Nat) : Nat → Bytes → List Bytes
  | 0, _ => []
  | n + 1, data => data.take size :: dataBlocks size n (data.drop size)

/-- The number of levels over `n` data blocks. -/
def height (n : Nat) : Nat := Nat.clog (arity dg hbs) n

/-- The end of the tree in the file. -/
def treeEnd (base n : Nat) : Nat := base + hbs * treeSize (arity dg hbs) (height dg hbs n) n

/-- The sizes and offsets that `Verity::new` computes do not overflow. -/
structure Fits (dataBlockSize n base : Nat) : Prop where
  size : n * dataBlockSize + dataBlockSize * arity dg hbs ^ height dg hbs n ≤ U64.max
  tree : treeEnd dg hbs base n ≤ U64.max

theorem length_dataBlocks (size n : Nat) (data : Bytes) : (dataBlocks size n data).length = n := by
  induction n generalizing data with
  | zero => rfl
  | succ n ih => rw [dataBlocks, List.length_cons, ih]

end Sizes

/-! ## New -/

section New

variable (checks : Bool) {k dbs hbs n : Nat}

theorem countLevels_of_pow (hk : 0 < k) {size L : Nat} (hmax : dbs * k ^ L ≤ U64.max) (hle : size ≤ dbs * k ^ L)
    (hlt : ∀ j < L, dbs * k ^ j < size) (fuel : Nat) {j : Nat} (hj : j ≤ L) (hfuel : L < j + fuel) :
    countLevels checks k size fuel j (dbs * k ^ j) = .ok L := by
  induction fuel generalizing j with
  | zero => omega
  | succ fuel ih =>
    unfold countLevels
    rcases Nat.lt_or_eq_of_le hj with hj | rfl
    · have hnext : dbs * k ^ j * k = dbs * k ^ (j + 1) := by rw [Nat.mul_assoc, Nat.pow_succ]
      have hfit : dbs * k ^ j * k ≤ U64.max := by
        rw [hnext]
        exact Nat.le_trans (Nat.mul_le_mul_left dbs (Nat.pow_le_pow_right hk hj)) hmax
      rw [if_pos (hlt j hj), U64.mul_of_le hfit]
      dsimp only
      rw [hnext]
      exact ih hj (by omega)
    · rw [if_neg (by omega)]

theorem blockCount_eq (hk : 0 < k) (hdbs : 0 < dbs) {e : Nat} (hmax : n * dbs + dbs * k ^ e ≤ U64.max) :
    blockCount checks k dbs (n * dbs) e = .ok (ceilDiv n (k ^ e)) := by
  have hentry : 0 < dbs * k ^ e := Nat.mul_pos hdbs (Nat.pow_pos hk)
  have hpow : k ^ e ≤ dbs * k ^ e := Nat.le_mul_of_pos_left _ hdbs
  unfold blockCount
  rw [Verity.pow, if_pos (by omega), ok_bind, U64.mul_of_le (by omega), ok_bind, U64.add_of_le hmax, ok_bind,
    U64.sub_of_le (by omega), ok_bind, div, if_neg (Nat.ne_of_gt hentry), Nat.add_sub_assoc hentry,
    ← ceilDiv_mul_left (Nat.pow_pos hk) hdbs, Nat.mul_comm n dbs]
  rfl

/-- Each level begins after the ones above. -/
theorem levelOffsets_eq (hk : 0 < k) (hdbs : 0 < dbs) (e w : Nat) (hmax : n * dbs + dbs * k ^ e ≤ U64.max)
    (htree : w + hbs * treeSize k e n ≤ U64.max) :
    ∃ offsets, levelOffsets checks k dbs hbs (n * dbs) e w = .ok offsets ∧ offsets.length = e ∧
      ∀ i < e, offsets[i]? = some (w + hbs * treeSize k i (ceilDiv n (k ^ (e - i)))) := by
  induction e generalizing w with
  | zero => exact ⟨[], rfl, rfl, fun i hi => absurd hi (Nat.not_lt_zero i)⟩
  | succ e ih =>
    have htop := treeSize_succ_top hk e n
    rw [htop, Nat.mul_add] at htree
    have hless : dbs * k ^ e ≤ dbs * k ^ (e + 1) :=
      Nat.mul_le_mul_left dbs (Nat.pow_le_pow_right hk (Nat.le_succ e))
    obtain ⟨offsets, heq, hlen, hat⟩ := ih (w + hbs * ceilDiv n (k ^ (e + 1))) (by omega) (by omega)
    refine ⟨w :: offsets, ?_, by rw [List.length_cons, hlen], ?_⟩
    · unfold levelOffsets
      rw [blockCount_eq checks hk hdbs hmax, ok_bind, U64.mul_of_le (by omega), ok_bind,
        U64.add_of_le (by omega), ok_bind, heq,
        ok_bind]
    · intro i hi
      cases i with
      | zero => rfl
      | succ i =>
        have hpow : k ^ (e - i) * k ^ (i + 1) = k ^ (e + 1) := by
          rw [← Nat.pow_add]
          congr 1
          omega
        rw [List.getElem?_cons_succ, hat i (by omega), Nat.add_sub_add_right, treeSize_succ_top hk,
          ceilDiv_ceilDiv _ (Nat.pow_pos hk) (Nat.pow_pos hk), hpow, Nat.mul_add]
        congr 1
        omega

variable {dg : Digest} {salt : Bytes} {base : Nat}

theorem holds_zeros (offset : Nat) :
    Holds dg hbs { nextIndex := 0, fileOffset := offset, data := List.replicate hbs 0 } [] offset :=
  ⟨rfl, rfl, List.length_replicate, by rw [List.length_nil, Nat.zero_mul]; rfl⟩

theorem filled_new (salt : Bytes) (hk : 0 < arity dg hbs) {offsets : List Nat} {L : Nat} (hat : ∀ i < L, offsets[i]?
      = some (base + hbs * treeSize (arity dg hbs) i (ceilDiv n (arity dg hbs ^ (L - i)))))
    (l : Nat) (hl : l < L) :
    Filled dg salt hbs base
      (offsets.map fun offset => { nextIndex := 0, fileOffset := offset, data := List.replicate hbs 0 }) l
      (ceilDiv n (arity dg hbs ^ (L - 1 - l))) [] [] [] := by
  induction l with
  | zero =>
    refine .root ?_ (holds_zeros base)
    rw [List.getElem?_map, hat 0 hl]
    rfl
  | succ l ih =>
    have hpow : ceilDiv (ceilDiv n (arity dg hbs ^ (L - 1 - (l + 1)))) (arity dg hbs)
        = ceilDiv n (arity dg hbs ^ (L - 1 - l)) := by
      rw [ceilDiv_ceilDiv _ (Nat.pow_pos hk) hk, ← Nat.pow_succ]
      congr 2
      omega
    have hexp : L - (l + 1) = L - 1 - l := by omega
    refine @Filled.lower dg salt hbs base _ l _ [] [] [] _ [] [] ?_ (holds_zeros _) nofun (List.Perm.refl _)
      (fun _ => hk) ?_
    · rw [List.getElem?_map, hat (l + 1) hl, levelBase, hpow, hexp, List.length_nil, Nat.zero_mul]
      rfl
    · rw [hpow]
      exact ih (by omega)

/-- The builder before its first block. -/
def initial (dataBlockSize hashBlockSize n : Nat) (salt : Bytes) (levels : List Level) : Verity :=
  { levels := levels
    seeded := salt
    dataBlockSize := dataBlockSize
    hashBlockSize := hashBlockSize
    blockRemainingCount := n
    superBlock := { dataBlockSize := dataBlockSize, hashBlockSize := hashBlockSize, dataBlockCount := n } }

theorem new_settled (hdbs : 0 < dbs) (hn : 2 ≤ n) (hk : 2 ≤ arity dg hbs) {fuel : Nat}
    (hfuel : height dg hbs n < fuel) (hfit : Fits dg hbs dbs n base) :
    ∃ ls, new dg checks fuel (n * dbs) dbs hbs salt base = .ok (initial dbs hbs n salt ls) ∧
      ls.length = height dg hbs n ∧ Settled dg salt hbs base ls (height dg hbs n - 1) n [] [] := by
  have hpos : 0 < arity dg hbs := by omega
  have hsize : n * dbs = dbs * n := Nat.mul_comm _ _
  have hheight : 0 < height dg hbs n := Nat.clog_pos hk hn
  have hmax := hfit.size
  have hcount : countLevels checks (arity dg hbs) (n * dbs) fuel 0 dbs = .ok (height dg hbs n) := by
    have hle : n * dbs ≤ dbs * arity dg hbs ^ height dg hbs n := by
      rw [hsize]
      exact Nat.mul_le_mul_left dbs (Nat.le_pow_clog hk n)
    have hlt : ∀ j < height dg hbs n, dbs * arity dg hbs ^ j < n * dbs := by
      intro j hj
      rw [hsize]
      exact Nat.mul_lt_mul_of_pos_left (Nat.pow_lt_of_lt_clog hj) hdbs
    have h := countLevels_of_pow checks hpos (by omega) hle hlt fuel (Nat.zero_le _) (by omega)
    rwa [Nat.pow_zero, Nat.mul_one] at h
  obtain ⟨offsets, hoffsets, hlen, hat⟩ := levelOffsets_eq checks hpos hdbs (height dg hbs n) base
    hmax hfit.tree
  refine ⟨offsets.map fun offset =>
    { nextIndex := 0, fileOffset := offset, data := List.replicate hbs 0 }, ?_, ?_, [],
    fun _ => hpos, ?_⟩
  · unfold new
    dsimp only
    rw [show hbs / dg.outputSize = arity dg hbs from rfl, hcount, ok_bind, hoffsets, ok_bind, div,
      if_neg (Nat.ne_of_gt hdbs), ok_bind, Nat.mul_div_cancel n hdbs]
    rfl
  · rw [List.length_map, hlen]
  · have h := filled_new salt hpos hat (height dg hbs n - 1) (by omega)
    rwa [Nat.sub_self, Nat.pow_zero, ceilDiv, Nat.div_one] at h

end New

/-! ## The data blocks -/

section Run

variable {dg : Digest} {salt file : Bytes} {dbs hbs base l n : Nat} (checks : Bool)
variable {writer : List (Bytes × Nat) → Bytes × Nat → Except Error Unit}

variable {v : Verity} {ds : List (Vector UInt8 dg.outputSize)} {W : List (Bytes × Nat)}

theorem addBlock_settles (hw : ∀ calls c, writer calls c = .ok ()) {r : Nat} (hv : v.hashBlockSize = hbs)
    (hs : v.seeded = salt) (hlen : v.levels.length = l + 1) (hr : v.blockRemainingCount = r + 1)
    (hk : 0 < arity dg hbs) (h : Settled dg salt hbs base v.levels l n ds W) (hds : ds.length < n)
    (hroom : Room dg hbs base l n) (b : Bytes) :
    ∃ ls Wn, (addBlock dg checks writer v b).Yields { v with levels := ls, blockRemainingCount := r } Wn ∧
      Settled dg salt hbs base ls l n (ds ++ [saltedDigest dg salt b]) (W ++ Wn) ∧ ls.length = l + 1 := by
  obtain ⟨rem, hnotfull, hfilled⟩ := h
  have hfree : rem.length < arity dg hbs := by
    cases l with
    | succ l => exact hnotfull (Nat.succ_ne_zero l)
    | zero =>
      have hfits := hroom.fits
      rw [Nat.zero_add, Nat.pow_one] at hfits
      rw [← hfilled.root_eq]
      omega
  let v' : Verity := { v with blockRemainingCount := r }
  obtain ⟨level, hadd, hfilled'⟩ := Filled.add (v := v') hv hfilled hfree (saltedDigest dg salt b)
  have hsub : U64.sub checks Error.overflow v'.levels.length 1 = .ok l := by
    rw [show v'.levels.length = l + 1 from hlen]
    exact U64.sub_of_le (Nat.le_add_left 1 l)
  have hdigest : digest dg v' b = (saltedDigest dg salt b).toList := by
    show (dg.hash (v.seeded ++ b)).toList = _
    rw [hs]
    rfl
  -- `add_block` hashes the block into the lowest level, and goes up if that is full now.
  have hblock : addBlock dg checks writer v b =
    (Traced.lift (U64.sub checks .overflow v'.levels.length 1) >>= fun last =>
      Traced.lift (addHash dg v' last (digest dg v' b)) >>= fun p =>
      if p.1 then goUp dg checks writer (v'.levels.length - 1) p.2 else pure p.2) := by
    unfold addBlock
    rw [if_neg (by omega), hr]
    rfl
  rw [hblock]
  by_cases hfull : arity dg hbs ≤ rem.length + 1
  · obtain ⟨ls, Wn, hgo, hsettled, hlen', -⟩ := goUp_settles checks hw l (v := setLevel v' l level) hv hs hfilled'
      (by rw [List.length_append, List.length_singleton]; omega) hk
      (by rw [List.length_append, List.length_singleton]; exact hds) hroom
    refine ⟨ls, Wn, Traced.Yields.lift_bind hsub
      (Traced.Yields.lift_bind (by rw [hdigest]; exact hadd) ?_), hsettled, ?_⟩
    · dsimp only
      rw [if_pos (decide_eq_true hfull), show v'.levels.length - 1 =
        l by rw [show v'.levels.length = l + 1 from hlen]; rfl]
      exact hgo
    · rw [hlen', setLevel, List.length_set]
      exact hlen
  · refine ⟨v.levels.set l level, [],
      Traced.Yields.lift_bind hsub (Traced.Yields.lift_bind (by rw [hdigest]; exact hadd) ?_),
      ⟨rem ++ [saltedDigest dg salt b], fun _ => ?_, ?_⟩, ?_⟩
    · dsimp only
      rw [if_neg (by simpa using hfull)]
      exact Traced.Yields.pure _
    · rw [List.length_append, List.length_singleton]
      omega
    · rw [List.append_nil]
      exact hfilled'
    · rw [List.length_set, hlen]

variable {readOffset : Nat}

theorem addBlocks_settles (hw : ∀ calls c, writer calls c = .ok ()) (hk : 0 < arity dg hbs)
    (hroom : Room dg hbs base l n) (r : Nat) (hv : v.hashBlockSize = hbs) (hs : v.seeded = salt)
    (hd : v.dataBlockSize = dbs) (hlen : v.levels.length = l + 1) (hr : v.blockRemainingCount = r)
    (h : Settled dg salt hbs base v.levels l n ds W) (hds : ds.length + r = n)
    (hfile : readOffset + r * dbs ≤ file.length) (hmax : readOffset + r * dbs ≤ U64.max) :
    ∃ ls Wn, (addBlocks dg checks writer file r readOffset v).Yields
        { v with levels := ls, blockRemainingCount := 0 } Wn ∧
      Settled dg salt hbs base ls l n
        (ds ++ (dataBlocks dbs r (file.drop readOffset)).map (saltedDigest dg salt)) (W ++ Wn) ∧
          ls.length = l + 1 := by
  induction r generalizing v ds W readOffset with
  | zero =>
    refine ⟨v.levels, [], ?_, ?_, hlen⟩
    · have hsame : { v with levels := v.levels, blockRemainingCount := 0 } = v := by rw [← hr]
      rw [hsame]
      exact Traced.Yields.pure v
    · rw [dataBlocks, List.map_nil, List.append_nil, List.append_nil]
      exact h
  | succ r ih =>
    rw [Nat.succ_mul] at hfile hmax
    have hread : readExact file readOffset v.dataBlockSize = .ok ((file.drop readOffset).take dbs) := by
      rw [hd]
      exact if_pos (by omega)
    obtain ⟨ls, Wn, hadd, hsettled, hlen'⟩ := addBlock_settles checks hw hv hs hlen hr hk h (by omega) hroom
      ((file.drop readOffset).take dbs)
    have hnext : U64.add checks Error.overflow readOffset v.dataBlockSize = .ok (readOffset + dbs) := by
      rw [hd]
      exact U64.add_of_le (by omega)
    have hcount : (ds ++ [saltedDigest dg salt ((file.drop readOffset).take dbs)]).length + r = n := by
      rw [List.length_append, List.length_singleton]
      omega
    have hfile' : readOffset + dbs + r * dbs ≤ file.length := by omega
    have hmax' : readOffset + dbs + r * dbs ≤ U64.max := by omega
    obtain ⟨ls', Wn', hgo, hsettled', hlen''⟩ := ih (v := { v with levels := ls, blockRemainingCount := r })
      hv hs hd hlen' rfl hsettled hcount hfile' hmax'
    refine ⟨ls', Wn ++ Wn', ?_, ?_, hlen''⟩
    · unfold addBlocks
      rw [if_pos (by rw [moreBlocks, hr]; exact decide_eq_true (Nat.succ_pos r))]
      exact Traced.Yields.lift_bind hread (hadd.bind (Traced.Yields.lift_bind hnext hgo))
    · rw [dataBlocks, List.map_cons, List.drop_drop, ← List.append_assoc]
      rw [List.append_assoc ds, List.singleton_append] at hsettled'
      exact hsettled'

variable {bs : List Bytes}

/-- Where the lowest level ends once all levels have been written and the root has moved on by a
block. -/
theorem Flushed.last_offset (hk : 0 < arity dg hbs) {ls : List Level}
    {root : Level} (h : Flushed dg salt hbs base ls l bs W)
    (hpos : 0 < bs.length) (hfits : bs.length ≤ arity dg hbs ^ (l + 1)) (hlen : ls.length = l + 1)
    (hroot : Holds dg hbs root ds (base + hbs)) :
    ∃ last, (ls.set 0 root)[l]? = some last ∧
      last.fileOffset = base + hbs * treeSize (arity dg hbs) (l + 1) bs.length := by
  cases h with
  | root hl hholds =>
    have hone : ceilDiv bs.length (arity dg hbs) = 1 := by
      rw [Nat.zero_add, Nat.pow_one] at hfits
      refine Nat.le_antisymm ((ceilDiv_le_iff hk).mpr ?_) (ceilDiv_pos hpos hk)
      rw [Nat.mul_one]
      exact hfits
    refine ⟨root, List.getElem?_set_self (by omega), ?_⟩
    rw [hroot.fileOffset, treeSize, treeSize, hone, Nat.zero_add, Nat.mul_one]
  | @lower l _ last _ _ hl hoff _ _ =>
    refine ⟨last, ?_, hoff⟩
    rw [List.getElem?_set_ne (Nat.succ_ne_zero l).symm]
    exact hl

theorem writeSuperBlock_yields (hw : ∀ calls c, writer calls c = .ok ()) {last : Level}
    (hl : v.levels[v.levels.length - 1]? = some last) (hoff : last.fileOffset + 4096 ≤ U64.max) :
    (writeSuperBlock checks writer v).Yields ()
      [(v.superBlock.asBytes, last.fileOffset + (4096 - 512)), ([0], last.fileOffset + 4095)] := by
  unfold writeSuperBlock
  refine Traced.Yields.lift_bind (levelAt_of_getElem? hl) (Traced.Yields.lift_bind (U64.add_of_le hoff) ?_)
  refine Traced.Yields.lift_bind (U64.sub_of_le (by omega)) ?_
  rw [Nat.add_sub_assoc (by omega)]
  refine Traced.Yields.bind (Traced.Yields.call fun calls => hw calls _) ?_
  exact Traced.Yields.lift_bind (U64.add_of_le (by omega)) (Traced.Yields.call fun calls => hw calls _)

variable (dg salt hbs) in
/-- The blocks of the tree over some blocks, the root first. -/
def tree (bs : List Bytes) : List Bytes :=
  treeBlocks (arity dg hbs) (saltedDigest dg salt) (hashBlock hbs) (height dg hbs bs.length) bs

variable (dg salt hbs) in
/-- The level of the root. -/
def topLevel (bs : List Bytes) : List Bytes :=
  Merkle.level (arity dg hbs) (saltedDigest dg salt) (hashBlock hbs) (height dg hbs bs.length) bs

variable (salt) in
/-- What is left to do when the tree has been written. -/
theorem newTraverse_eq (hw : ∀ calls c, writer calls c = .ok ()) (hdbs : 0 < dbs) (hn : 2 ≤ n) (hk : 2 ≤ arity dg hbs)
    {fuel readOffset : Nat} (hfuel : height dg hbs n < fuel) (hfit : Fits dg hbs dbs n base)
    (hfile : readOffset + n * dbs ≤ file.length) (hread : readOffset + n * dbs ≤ U64.max) (writeSuperblock : Bool) :
    ∃ top W v last, topLevel dg salt hbs (dataBlocks dbs n (file.drop readOffset)) = [top] ∧
      W.Perm (layout hbs base (tree dg salt hbs (dataBlocks dbs n (file.drop readOffset)))) ∧
      v.superBlock = { dataBlockSize := dbs, hashBlockSize := hbs, dataBlockCount := n } ∧
      v.levels[v.levels.length - 1]? = some last ∧ last.fileOffset = treeEnd dg hbs base n ∧
      ∀ calls, newTraverse dg checks writer fuel (n * dbs) dbs hbs salt base file readOffset writeSuperblock calls
        = (if writeSuperblock then writeSuperBlock checks writer v >>= fun _ => pure (saltedDigest dg salt top).toList
            else pure (saltedDigest dg salt top).toList : VerityM Bytes) (calls ++ W) := by
  have hpos : 0 < arity dg hbs := by omega
  have hblocks : (dataBlocks dbs n (file.drop readOffset)).length = n := length_dataBlocks _ _ _
  obtain ⟨l, hl⟩ : ∃ l, height dg hbs n = l + 1 := Nat.exists_eq_succ_of_ne_zero (Nat.ne_of_gt (Nat.clog_pos hk hn))
  have hfits : n ≤ arity dg hbs ^ (l + 1) := by
    rw [← hl]
    exact Nat.le_pow_clog hk n
  have hroom : Room dg hbs base l n := ⟨hfits, by rw [← hl]; exact hfit.tree⟩
  obtain ⟨ls, hnew, hlen, hsettled⟩ := new_settled checks hdbs hn hk hfuel hfit
  rw [hl] at hlen hsettled
  let v₀ : Verity := initial dbs hbs n salt ls
  have hv₀ : v₀.hashBlockSize = hbs := rfl
  have hs₀ : v₀.seeded = salt := rfl
  have hd₀ : v₀.dataBlockSize = dbs := rfl
  obtain ⟨ls₁, W₁, hadd, hsettled₁, hlen₁⟩ := addBlocks_settles checks hw hpos hroom n hv₀ hs₀ hd₀ hlen rfl hsettled
    (Nat.zero_add n) hfile hread
  generalize dataBlocks dbs n (file.drop readOffset) = bs at hblocks hsettled₁ ⊢
  subst hblocks
  rw [List.nil_append, List.nil_append] at hsettled₁
  let v₁ : Verity := { v₀ with levels := ls₁, blockRemainingCount := 0 }
  have hv₁ : v₁.hashBlockSize = hbs := rfl
  have hs₁ : v₁.seeded = salt := rfl
  obtain ⟨ls₂, W₂, hflush, hflushed, hlen₂, -⟩ := flush_flushed checks hw l hv₁ hs₁ hpos hsettled₁ hroom
  obtain ⟨root, ds, hroot, hholds, hds, htop, hperm⟩ := hflushed.tree hpos (by omega) hfits
  let v₂ : Verity := { v₁ with levels := ls₂ }
  have hv₂ : v₂.hashBlockSize = hbs := rfl
  have hend : base + hbs ≤ U64.max := by
    have hone : 0 < treeSize (arity dg hbs) (l + 1) bs.length := Nat.add_pos_right _ (ceilDiv_pos (by omega) hpos)
    exact Nat.le_trans (Nat.add_le_add_left (Nat.le_mul_of_pos_right _ hone) _) hroom.offsets
  obtain ⟨root', hemit, hholds'⟩ := emit_holds checks hw hv₂ hroot hholds hds hend
  have hlen' : ls₂.length = l + 1 := hlen₂.trans hlen₁
  obtain ⟨last, hlast, hoff⟩ := hflushed.last_offset hpos (by omega) hfits hlen' hholds'
  refine ⟨hashBlock hbs ds, W₁ ++ W₂ ++ [(hashBlock hbs ds, base)], setLevel v₂ 0 root', last, ?_, ?_, rfl, ?_,
    ?_, ?_⟩
  · rw [topLevel, hl]
    exact htop
  · rw [tree, hl]
    exact hperm
  · show (ls₂.set 0 root')[(ls₂.set 0 root').length - 1]? = _
    rw [List.length_set, hlen']
    exact hlast
  · rw [treeEnd, hl]
    exact hoff
  · intro calls
    let rest (p : Bytes × Verity) : VerityM Bytes :=
      if writeSuperblock then writeSuperBlock checks writer p.2 >>= fun _ => pure (digest dg p.2 p.1)
      else pure (digest dg p.2 p.1)
    have hlast : v₁.levels.length - 1 = l := by rw [show v₁.levels.length = l + 1 from hlen₁]; rfl
    calc newTraverse dg checks writer fuel (bs.length * dbs) dbs hbs salt base file readOffset writeSuperblock calls
        = traverseFile dg checks writer file readOffset writeSuperblock v₀ calls := by
          unfold newTraverse
          rw [(Traced.Yields.lift hnew).bind_eq, List.append_nil]
      _ = finalize dg checks writer v₁ writeSuperblock (calls ++ W₁) := hadd.bind_eq _ _
      _ = (flush dg checks writer l v₁ >>= fun v => emit dg checks writer v 0 >>= rest) (calls ++ W₁) := by
          unfold finalize
          rw [hlast]
      _ = (emit dg checks writer v₂ 0 >>= rest) (calls ++ W₁ ++ W₂) := hflush.bind_eq _ _
      _ = rest (hashBlock hbs ds, setLevel v₂ 0 root')
            (calls ++ W₁ ++ W₂ ++ [(hashBlock hbs ds, base)]) := hemit.bind_eq _ _
      _ = rest (hashBlock hbs ds, setLevel v₂ 0 root')
            (calls ++ (W₁ ++ W₂ ++ [(hashBlock hbs ds, base)])) := by
          rw [List.append_assoc calls, List.append_assoc calls]

/-- The superblock, and a byte that makes the file as long as the block it stands in. -/
def superBlockWrites (writeSuperblock : Bool) (dataBlockSize hashBlockSize n offset : Nat) : List (Bytes × Nat) :=
  if writeSuperblock then
    [({ dataBlockSize := dataBlockSize, hashBlockSize := hashBlockSize, dataBlockCount := n : SuperBlock }.asBytes,
      offset + (4096 - 512)), ([0], offset + 4095)]
  else []

variable (salt) in
theorem newTraverse_run (hw : ∀ calls c, writer calls c = .ok ()) (hdbs : 0 < dbs) (hn : 2 ≤ n)
    (hk : 2 ≤ arity dg hbs)
    {fuel readOffset : Nat} {writeSuperblock : Bool} (hfuel : height dg hbs n < fuel)
    (hfit : Fits dg hbs dbs n base) (hfile : readOffset + n * dbs ≤ file.length)
    (hread : readOffset + n * dbs ≤ U64.max)
    (hsuper : writeSuperblock = true → treeEnd dg hbs base n + 4096 ≤ U64.max) :
    ∃ top W, topLevel dg salt hbs (dataBlocks dbs n (file.drop readOffset)) = [top] ∧
      W.Perm (layout hbs base (tree dg salt hbs (dataBlocks dbs n (file.drop readOffset)))) ∧
      newTraverse dg checks writer fuel (n * dbs) dbs hbs salt base file readOffset writeSuperblock []
        = (.ok (saltedDigest dg salt top).toList,
          W ++ superBlockWrites writeSuperblock dbs hbs n (treeEnd dg hbs base n)) := by
  obtain ⟨top, W, v, last, htop, hperm, hv, hlast, hoff, hrun⟩ :=
    newTraverse_eq salt checks hw hdbs hn hk hfuel hfit hfile hread writeSuperblock
  refine ⟨top, W, htop, hperm, ?_⟩
  rw [hrun [], List.nil_append]
  cases writeSuperblock with
  | false =>
    rw [superBlockWrites, if_neg Bool.false_ne_true, if_neg Bool.false_ne_true, List.append_nil]
    rfl
  | true =>
    have hwrite := writeSuperBlock_yields checks hw hlast (by rw [hoff]; exact hsuper rfl)
    rw [if_pos rfl, hwrite.bind_eq, hoff, hv]
    rfl

theorem length_tree (hk : 0 < arity dg hbs) (bs : List Bytes) :
    (tree dg salt hbs bs).length = treeSize (arity dg hbs) (height dg hbs bs.length) bs.length :=
  length_treeBlocks hk _ bs

theorem length_of_mem_tree (hk : 0 < arity dg hbs) {b : Bytes} (hb : b ∈ tree dg salt hbs bs) : b.length = hbs := by
  obtain ⟨g, hg, rfl⟩ := exists_of_mem_treeBlocks hk _ hb
  exact length_hashBlock hg

theorem tree_eq_cons (hk : 2 ≤ arity dg hbs) (hn : 2 ≤ bs.length) {top : Bytes}
    (htop : topLevel dg salt hbs bs = [top]) : ∃ rest, tree dg salt hbs bs = top :: rest := by
  obtain ⟨l, hl⟩ := Nat.exists_eq_succ_of_ne_zero (Nat.ne_of_gt (Nat.clog_pos hk hn))
  rw [topLevel, height, hl] at htop
  rw [tree, height, hl]
  obtain ⟨rest, hrest⟩ := treeBlocks_top l bs
  exact ⟨rest, by rw [hrest, htop]; rfl⟩

/-- Every data of at least two blocks: the result is the digest of the top of the tree, and what is
written is the tree, one block after the other with the root first, and the superblock after it. -/
theorem newTraverse_merkleTree (hw : ∀ calls c, writer calls c = .ok ()) (hdbs : 0 < dbs) (hn : 2 ≤ n)
    (hk : 2 ≤ arity dg hbs) {fuel readOffset : Nat} {writeSuperblock : Bool} (hfuel : height dg hbs n < fuel)
    (hfile : readOffset + n * dbs ≤ file.length) (hfit : Fits dg hbs dbs n base)
    (hread : readOffset + n * dbs ≤ U64.max)
    (hsuper : writeSuperblock = true → treeEnd dg hbs base n + 4096 ≤ U64.max) :
    ∃ top rest W, topLevel dg salt hbs (dataBlocks dbs n (file.drop readOffset)) = [top] ∧
      tree dg salt hbs (dataBlocks dbs n (file.drop readOffset)) = top :: rest ∧
      (∀ b ∈ top :: rest, b.length = hbs) ∧
      W.Perm (layout hbs base (top :: rest)) ∧
      newTraverse dg checks writer fuel (n * dbs) dbs hbs salt base file readOffset writeSuperblock []
        = (.ok (saltedDigest dg salt top).toList,
          W ++ superBlockWrites writeSuperblock dbs hbs n (base + hbs * (top :: rest).length)) := by
  have hpos : 0 < arity dg hbs := by omega
  obtain ⟨top, W, htop, hperm, hrun⟩ := newTraverse_run salt checks hw hdbs hn hk hfuel hfit hfile hread hsuper
  have hcount : (dataBlocks dbs n (file.drop readOffset)).length = n := length_dataBlocks _ _ _
  generalize dataBlocks dbs n (file.drop readOffset) = bs at htop hperm hcount ⊢
  subst hcount
  obtain ⟨rest, hrest⟩ := tree_eq_cons hk hn htop
  have hend : treeEnd dg hbs base bs.length = base + hbs * (top :: rest).length := by
    rw [← hrest, length_tree hpos]
    rfl
  refine ⟨top, rest, W, htop, hrest, ?_, hrest ▸ hperm, ?_⟩
  · intro b hb
    rw [← hrest] at hb
    exact length_of_mem_tree hpos hb
  · rw [hrun, hend]

end Run

/-- A digest of one byte. -/
def byteDigest : Digest where
  outputSize := 1
  pos := by decide
  hash block := #v[block.foldl (fun d b => 3 * d + b) 7]

theorem newTraverse_merkleTree_threeBlocks :
    ∃ top rest W, topLevel byteDigest [5] 2 (dataBlocks 1 3 ([1, 2, 3].drop 0)) = [top] ∧
      tree byteDigest [5] 2 (dataBlocks 1 3 ([1, 2, 3].drop 0)) = top :: rest ∧ (∀ b ∈ top :: rest, b.length = 2) ∧
      W.Perm (layout 2 100 (top :: rest)) ∧
      newTraverse byteDigest true noWrite 3 (3 * 1) 1 2 [5] 100 [1, 2, 3] 0 true []
        = (.ok (saltedDigest byteDigest [5] top).toList, W ++ superBlockWrites true 1 2 3
          (100 + 2 * (top :: rest).length)) :=
  newTraverse_merkleTree true (fun _ _ => rfl) (by decide) (by decide) (by decide) (by decide) (by decide)
    ⟨by decide, by decide⟩ (by decide) (fun _ => by decide)

end Kata.Verity
