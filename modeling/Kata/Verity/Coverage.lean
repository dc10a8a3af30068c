import Kata.Verity.Tree

/-!
# Kata.Verity.Coverage

Which files the root hash protects. `Verity::new` takes the number of levels from the size in bytes,
but hashes only the whole blocks: the bytes after the last whole block are never read, and a file of
at most one block has no level at all, so that `traverse_file` panics. `protects_iff` says when
every byte is protected: the size is a multiple of the block size, there are at least two blocks, a
hash block holds at least two digests and no offset overflows.

The writer may be any that does not panic itself: the run with it is the run with `no_write`, unless
it fails (`newTraverse_orFails`).
-/

namespace Kata.Verity

open Lib Lib.Merkle

/-- The error is a panic. -/
def Panic (e : Error) : Prop := e.isPanic = true

/-- The error is an `io::Error` that is returned. -/
def Rejection (e : Error) : Prop := e.isPanic = false

theorem overflow_panic : Panic .overflow := rfl

/-! ## The errors of the builder

Without a failing writer and with enough data to read, all errors are panics. Block sizes never
change.-/

section Errors

variable {dg : Digest} {checks : Bool} {v : Verity}

theorem levelAt_ends (l : Nat) : Ends (fun _ => True) Panic (levelAt v l) := by
  unfold levelAt
  split
  · exact .of_error rfl
  · exact .of_ok trivial

theorem pow_ends (a e : Nat) : Ends (fun _ => True) Panic (pow checks a e) :=
  .ite (fun _ => .of_ok trivial) fun _ => .ite (fun _ => .of_error rfl) fun _ => .of_ok trivial

theorem countLevels_ends (k size fuel : Nat) (count maxSize : Nat) :
    Ends (fun _ => True) Panic (countLevels checks k size fuel count maxSize) := by
  induction fuel generalizing count maxSize with
  | zero => exact .of_error rfl
  | succ fuel ih =>
    unfold countLevels
    refine .ite (fun _ => ?_) fun _ => .of_ok trivial
    have hmul : Ends (fun _ => True) Panic (U64.mul checks Error.overflow maxSize k) :=
      U64.mul_ends overflow_panic
    split
    · rename_i heq
      exact .of_error (hmul.error _ heq)
    · exact ih _ _

theorem blockCount_ends (k dbs size e : Nat) :
    Ends (fun _ => True) Panic (blockCount checks k dbs size e) :=
  (pow_ends k e).bind fun _ _ => (U64.mul_ends overflow_panic).bind fun _ _ =>
    (U64.add_ends overflow_panic).bind fun _ _ =>
    (U64.sub_ends overflow_panic).bind fun _ _ =>
      .ite (fun _ => .of_error rfl) fun _ => .of_ok trivial

theorem levelOffsets_ends (k dbs hbs size e w : Nat) :
    Ends (fun _ => True) Panic (levelOffsets checks k dbs hbs size e w) := by
  induction e generalizing w with
  | zero => exact .of_ok trivial
  | succ e ih =>
    exact (blockCount_ends k dbs size (e + 1)).bind fun _ _ => (U64.mul_ends overflow_panic).bind
      fun _ _ =>
      (U64.add_ends overflow_panic).bind fun _ _ => (ih _).bind fun _ _ => .of_ok trivial

theorem new_ends (fuel size dbs hbs : Nat) (salt : Bytes) (w : Nat) :
    Ends (fun v => v.dataBlockSize = dbs ∧ v.blockRemainingCount = size / dbs) Panic
      (new dg checks fuel size dbs hbs salt w) := by
  refine (countLevels_ends _ _ _ _ _).bind fun _ _ => (levelOffsets_ends _ _ _ _ _ _).bind
    fun _ _ => ?_
  have hdiv : Ends (fun n => n = size / dbs) Panic (div size dbs) :=
    .ite (fun _ => .of_error rfl) fun _ => .of_ok rfl
  exact hdiv.bind fun n hn => .of_ok ⟨rfl, hn⟩

/-- The block sizes are those of `v`. -/
def SameSizes (v w : Verity) : Prop := w.dataBlockSize = v.dataBlockSize

theorem addHash_ends (l : Nat) (hash : Bytes) :
    Ends (fun p => SameSizes v p.2) Panic (addHash dg v l hash) := by
  refine (levelAt_ends l).bind fun level _ => ?_
  have hcopy : Ends (fun _ => True) Panic
      (copyFromSlice level.data (level.nextIndex * dg.outputSize) hash) :=
    .ite (fun _ => .of_ok trivial) fun _ => .of_error rfl
  exact hcopy.bind fun _ _ => .of_ok rfl

theorem finalizeLevel_ends (l : Nat) : Ends (SameSizes v) Panic (finalizeLevel dg v l) :=
  (levelAt_ends l).bind fun _ _ => .ite (fun _ => .of_ok rfl) fun _ => .of_error rfl

theorem noWrite_ends (c : Bytes × Nat) :
    Traced.Ends (fun _ => True) Panic (Traced.call noWrite c) :=
  .call fun _ => .of_ok trivial

theorem emit_ends (l : Nat) :
    Traced.Ends (fun p => SameSizes v p.2) Panic (emit dg checks noWrite v l) :=
  (Traced.Ends.lift (finalizeLevel_ends l)).bind fun _ hw =>
    (Traced.Ends.lift (levelAt_ends l)).bind fun _ _ =>
    (noWrite_ends _).bind fun _ _ => (Traced.Ends.lift (U64.add_ends overflow_panic)).bind
      fun _ _ => .pure hw

theorem uplevel_ends (l : Nat) :
    Traced.Ends (fun p => SameSizes v p.2) Panic (uplevel dg checks noWrite v l) :=
  (emit_ends l).bind fun p hp => .lift ((addHash_ends (l - 1) (digest dg p.2 p.1)).mono fun _ hq =>
    hq.trans hp)

variable (dg checks) in
theorem goUp_ends (l : Nat) (v : Verity) :
    Traced.Ends (SameSizes v) Panic (goUp dg checks noWrite l v) := by
  induction l generalizing v with
  | zero => exact .pure rfl
  | succ l ih =>
    refine (uplevel_ends (l + 1)).bind fun p hp => .ite (fun _ => ?_) fun _ => .pure hp
    have h := ih p.2
    rwa [show SameSizes p.2 = SameSizes v from by unfold SameSizes; rw [hp]] at h

theorem upAll_ends (l : Nat) (v : Verity) :
    Traced.Ends (fun _ => True) Panic (upAll dg checks noWrite l v) := by
  induction l generalizing v with
  | zero => exact .pure trivial
  | succ l ih => exact (uplevel_ends (l + 1)).bind fun p _ => ih p.2

theorem flush_ends (l : Nat) (v : Verity) :
    Traced.Ends (fun _ => True) Panic (flush dg checks noWrite l v) := by
  induction l generalizing v with
  | zero => exact .pure trivial
  | succ l ih =>
    exact (Traced.Ends.lift (levelAt_ends (l + 1))).bind fun _ _ => .ite (fun _ => upAll_ends _ v)
      fun _ => ih v

theorem writeSuperBlock_ends (v : Verity) :
    Traced.Ends (fun _ => True) Panic (writeSuperBlock checks noWrite v) :=
  (Traced.Ends.lift (levelAt_ends _)).bind fun _ _ =>
    (Traced.Ends.lift (U64.add_ends overflow_panic)).bind fun _ _ =>
    (Traced.Ends.lift (U64.sub_ends overflow_panic)).bind fun _ _ => (noWrite_ends _).bind
      fun _ _ =>
    (Traced.Ends.lift (U64.add_ends overflow_panic)).bind fun _ _ => noWrite_ends _

theorem finalize_ends (v : Verity) (writeSuperblock : Bool) :
    Traced.Ends (fun _ => True) Panic (finalize dg checks noWrite v writeSuperblock) :=
  (flush_ends _ v).bind fun _ _ => (emit_ends 0).bind fun _ _ =>
    .ite (fun _ => (writeSuperBlock_ends _).bind fun _ _ => .pure trivial) fun _ => .pure trivial

theorem addBlock_ends (b : Bytes) (hmore : moreBlocks v = true) :
    Traced.Ends (SameSizes v) Panic (addBlock dg checks noWrite v b) := by
  have hpos : 0 < v.blockRemainingCount := of_decide_eq_true hmore
  unfold addBlock
  rw [if_neg (Nat.ne_of_gt hpos)]
  refine (Traced.Ends.lift (U64.sub_ends overflow_panic)).bind fun _ _ => ?_
  refine (Traced.Ends.lift (addHash_ends _ _)).bind fun p hp => .ite (fun _ => ?_) fun _ => .pure hp
  have h := goUp_ends dg checks (v.levels.length - 1) p.2
  rwa [show SameSizes p.2 = SameSizes v from by unfold SameSizes; rw [hp]] at h

end Errors

/-! ## What is read -/

section Reads

variable {dg : Digest} {file file' : Bytes} {dbs : Nat}

theorem add_checked_ends (a b : Nat) :
    Ends (fun c => c = a + b) Panic (U64.add true Error.overflow a b) :=
  ⟨fun _ h => (U64.add_checked_eq_ok.mp h).2, (U64.add_ends overflow_panic).error⟩

variable {offset : Nat}

theorem readExact_ends (h : offset + dbs ≤ file.length) :
    Ends (fun _ => True) Panic (readExact file offset dbs) := .ite (fun _ => .of_ok trivial)
      fun hgt => absurd h hgt

variable {v : Verity}

theorem addBlocks_ends (r : Nat) (hd : v.dataBlockSize = dbs)
    (hfile : offset + r * dbs ≤ file.length) :
    Traced.Ends (fun _ => True) Panic (addBlocks dg true noWrite file r offset v) := by
  induction r generalizing offset v with
  | zero => exact .pure trivial
  | succ r ih =>
    rw [Nat.succ_mul] at hfile
    refine .ite (fun hmore => ?_) fun _ => .pure trivial
    refine (Traced.Ends.lift (readExact_ends (by rw [hd]; omega))).bind fun b _ =>
      (addBlock_ends b hmore).bind fun w hw => ?_
    have hd' : w.dataBlockSize = dbs := hw.trans hd
    refine (Traced.Ends.lift (add_checked_ends offset w.dataBlockSize)).bind fun next hnext => ?_
    exact ih hd' (by rw [hnext, hd']; omega)

variable {m : Nat}

/-- Only the bytes of the blocks are read. -/
theorem readExact_congr (hsame : file.take m = file'.take m) (hm : m ≤ file.length)
    (hm' : m ≤ file'.length) (h : offset + dbs ≤ m) :
    readExact file offset dbs = readExact file' offset dbs := by
  have hread : ∀ f : Bytes, ((f.take m).drop offset).take dbs = (f.drop offset).take dbs := by
    intro f
    rw [List.drop_take, List.take_take, Nat.min_eq_left (by omega)]
  unfold readExact
  rw [if_pos (by omega), if_pos (by omega), ← hread file, ← hread file', hsame]

theorem addBlocks_congr (hsame : file.take m = file'.take m) (hm : m ≤ file.length)
    (hm' : m ≤ file'.length) (r : Nat) (hd : v.dataBlockSize = dbs) (h : offset + r * dbs ≤ m) :
    addBlocks dg true noWrite file r offset v = addBlocks dg true noWrite file' r offset v := by
  induction r generalizing offset v with
  | zero => rfl
  | succ r ih =>
    rw [Nat.succ_mul] at h
    unfold addBlocks
    by_cases hmore : moreBlocks v = true
    · rw [if_pos hmore, if_pos hmore, hd, readExact_congr hsame hm hm' (by omega)]
      refine (Traced.Ends.lift (readExact_ends (by omega))).bind_congr fun b _ => ?_
      refine (addBlock_ends b hmore).bind_congr fun w hw => ?_
      have hd' : w.dataBlockSize = dbs := hw.trans hd
      refine (Traced.Ends.lift (add_checked_ends offset w.dataBlockSize)).bind_congr
        fun next hnext => ?_
      exact ih hd' (by rw [hnext, hd']; omega)
    · rw [if_neg hmore, if_neg hmore]

variable {fuel size hbs base : Nat} {salt : Bytes} {writeSuperblock : Bool}

theorem newTraverse_ends (hfile : size ≤ file.length) :
    Traced.Ends (fun _ => True) Panic
      (newTraverse dg true noWrite fuel size dbs hbs salt base file 0 writeSuperblock) := by
  refine (Traced.Ends.lift (new_ends fuel size dbs hbs salt base)).bind fun v hv => ?_
  refine (addBlocks_ends _ hv.1 ?_).bind fun w _ => finalize_ends w writeSuperblock
  rw [hv.2, Nat.zero_add]
  exact Nat.le_trans (Nat.div_mul_le_self size dbs) hfile

theorem newTraverse_congr (hsame : file.take (size / dbs * dbs) = file'.take (size / dbs * dbs))
    (hfile : size ≤ file.length) (hfile' : size ≤ file'.length) :
    newTraverse dg true noWrite fuel size dbs hbs salt base file 0 writeSuperblock
      = newTraverse dg true noWrite fuel size dbs hbs salt base file' 0 writeSuperblock := by
  have hblocks : size / dbs * dbs ≤ size := Nat.div_mul_le_self size dbs
  refine (Traced.Ends.lift (new_ends fuel size dbs hbs salt base)).bind_congr fun v hv => ?_
  unfold traverseFile
  rw [addBlocks_congr hsame (by omega) (by omega) _ hv.1 (by rw [hv.2, Nat.zero_add])]

end Reads

/-! ## Without levels -/

section NoLevels

variable {dg : Digest} {file : Bytes} {v : Verity}

theorem addBlock_noLevels (hl : v.levels = []) (hr : v.blockRemainingCount ≠ 0) (b : Bytes)
    (calls : List (Bytes × Nat)) :
    addBlock dg true noWrite v b calls = (.error .overflow, calls) := by
  unfold addBlock
  rw [if_neg hr]
  refine Traced.lift_error_bind ?_ _ calls
  show U64.sub true Error.overflow v.levels.length 1 = .error .overflow
  rw [hl]
  rfl

theorem finalize_noLevels (hl : v.levels = []) (writeSuperblock : Bool)
    (calls : List (Bytes × Nat)) :
    finalize dg true noWrite v writeSuperblock calls = (.error .indexOutOfBounds, calls) := by
  have hat : levelAt v 0 = .error .indexOutOfBounds := by
    unfold levelAt
    rw [hl]
    rfl
  have hfinal : finalizeLevel dg v 0 = .error .indexOutOfBounds := by
    unfold finalizeLevel
    rw [hat]
    rfl
  have hflush : (flush dg true noWrite (v.levels.length - 1) v).Yields v [] := by
    rw [hl]
    exact Traced.Yields.pure v
  unfold finalize
  rw [hflush.bind_eq, List.append_nil]
  exact Traced.bind_error (Traced.lift_error_bind hfinal _ calls) _

/-- Whatever it is that has to be read, there is no level to put a digest in. -/
theorem traverseFile_noLevels (hl : v.levels = [])
    (hfile : v.blockRemainingCount * v.dataBlockSize ≤ file.length) (writeSuperblock : Bool) :
    ∃ e, Panic e ∧ traverseFile dg true noWrite file 0 writeSuperblock v [] = (.error e, []) := by
  cases hr : v.blockRemainingCount with
  | zero =>
    refine ⟨.indexOutOfBounds, rfl, ?_⟩
    have hadd : (addBlocks dg true noWrite file v.blockRemainingCount 0 v).Yields v [] := by
      rw [hr]
      exact Traced.Yields.pure v
    unfold traverseFile
    rw [hadd.bind_eq]
    exact finalize_noLevels hl writeSuperblock []
  | succ r =>
    refine ⟨.overflow, rfl, ?_⟩
    have hread : readExact file 0 v.dataBlockSize = .ok ((file.drop 0).take v.dataBlockSize) := by
      refine if_pos ?_
      rw [hr, Nat.succ_mul] at hfile
      omega
    unfold traverseFile
    rw [hr]
    refine Traced.bind_error ?_ _
    unfold addBlocks
    rw [if_pos (by rw [moreBlocks, hr]; exact decide_eq_true (Nat.succ_pos r)),
      (Traced.Yields.lift hread).bind_eq]
    exact Traced.bind_error (addBlock_noLevels hl (by omega) _ _) _

end NoLevels

/-! ## Sizes that `Verity::new` accepts -/

section Accepted

variable {k dbs hbs size : Nat}

/-- The loop ends with the first power that is large enough. -/
theorem countLevels_eq_ok (fuel : Nat) {count maxSize L : Nat}
    (h : countLevels true k size fuel count maxSize = .ok L) :
    ∃ j, L = count + j ∧ size ≤ maxSize * k ^ j ∧ ∀ i < j, maxSize * k ^ i < size := by
  induction fuel generalizing count maxSize with
  | zero => cases h
  | succ fuel ih =>
    unfold countLevels at h
    split at h
    · rename_i hlt
      split at h
      · cases h
      · rename_i next hmul
        obtain ⟨hfit, rfl⟩ := U64.mul_checked_eq_ok.mp hmul
        obtain ⟨j, rfl, hle, hbelow⟩ := ih h
        refine ⟨j + 1, by omega, ?_, ?_⟩
        · rw [Nat.pow_succ', ← Nat.mul_assoc]
          exact hle
        · intro i hi
          cases i with
          | zero => rwa [Nat.pow_zero, Nat.mul_one]
          | succ i =>
            rw [Nat.pow_succ', ← Nat.mul_assoc]
            exact hbelow i (by omega)
    · rename_i hge
      cases h
      exact ⟨0, rfl, by rw [Nat.pow_zero, Nat.mul_one]; omega, fun i hi => absurd hi (Nat.not_lt_zero i)⟩

/-- With room for one digest only, no number of levels is enough. -/
theorem two_le_of_countLevels {fuel L : Nat} (hlt : dbs < size)
    (h : countLevels true k size fuel 0 dbs = .ok L) : 2 ≤ k := by
  obtain ⟨j, -, hle, -⟩ := countLevels_eq_ok fuel h
  refine Nat.le_of_not_lt fun hk => ?_
  have hpow : k ^ j ≤ 1 := Nat.one_pow j ▸ Nat.pow_le_pow_left (Nat.le_of_lt_succ hk) j
  have := Nat.mul_le_mul_left dbs hpow
  omega

theorem eq_clog_of_countLevels {fuel n L : Nat} (hk : 2 ≤ k) (hdbs : 0 < dbs)
    (h : countLevels true k (n * dbs) fuel 0 dbs = .ok L) : L = Nat.clog k n := by
  obtain ⟨j, rfl, hle, hbelow⟩ := countLevels_eq_ok fuel h
  rw [Nat.zero_add]
  rw [Nat.mul_comm n dbs] at hle hbelow
  refine Nat.le_antisymm (Nat.le_of_not_lt fun hlt => ?_)
    (Nat.clog_le_of_le_pow (Nat.le_of_mul_le_mul_left hle hdbs))
  have h := hbelow _ hlt
  exact absurd (Nat.lt_of_mul_lt_mul_left h) (Nat.not_lt.mpr (Nat.le_pow_clog hk n))

theorem blockCount_checked {n e c : Nat} (h : blockCount true k dbs (n * dbs) e = .ok c) :
    n * dbs + dbs * k ^ e ≤ U64.max := by
  unfold blockCount at h
  obtain ⟨factor, hpow, h⟩ := bind_eq_ok.mp h
  obtain ⟨entry, hmul, h⟩ := bind_eq_ok.mp h
  obtain ⟨sum, hadd, -⟩ := bind_eq_ok.mp h
  have hfactor : factor = k ^ e := by
    unfold pow at hpow
    split at hpow
    · cases hpow
      rfl
    · cases hpow
  rw [(U64.mul_checked_eq_ok.mp hmul).2, hfactor] at hadd
  exact (U64.add_checked_eq_ok.mp hadd).1

variable {n : Nat} {offsets : List Nat}

theorem levelOffsets_succ_eq_ok (hk : 0 < k) (hdbs : 0 < dbs) {e w : Nat}
    (h : levelOffsets true k dbs hbs (n * dbs) (e + 1) w = .ok offsets) :
    n * dbs + dbs * k ^ (e + 1) ≤ U64.max ∧ w + hbs * ceilDiv n (k ^ (e + 1)) ≤ U64.max ∧
      ∃ rest, levelOffsets true k dbs hbs (n * dbs) e (w + hbs * ceilDiv n (k ^ (e + 1))) =
        .ok rest := by
  rw [levelOffsets] at h
  obtain ⟨c, hcount, h⟩ := bind_eq_ok.mp h
  have hmax := blockCount_checked hcount
  rw [blockCount_eq true hk hdbs hmax] at hcount
  cases hcount
  obtain ⟨bytes, hmul, h⟩ := bind_eq_ok.mp h
  obtain ⟨next, hadd, h⟩ := bind_eq_ok.mp h
  obtain ⟨rest, hrest, -⟩ := bind_eq_ok.mp h
  rw [(U64.mul_checked_eq_ok.mp hmul).2] at hadd
  obtain ⟨hfit, rfl⟩ := U64.add_checked_eq_ok.mp hadd
  exact ⟨hmax, hfit, rest, hrest⟩

theorem levelOffsets_checked (hk : 0 < k) (hdbs : 0 < dbs) (e w : Nat)
    (h : levelOffsets true k dbs hbs (n * dbs) (e + 1) w = .ok offsets) :
    n * dbs + dbs * k ^ (e + 1) ≤ U64.max ∧ w + hbs * treeSize k (e + 1) n ≤ U64.max := by
  induction e generalizing w offsets with
  | zero =>
    obtain ⟨hmax, hfit, -⟩ := levelOffsets_succ_eq_ok hk hdbs h
    refine ⟨hmax, ?_⟩
    rw [treeSize_succ_top hk, treeSize, Nat.zero_add]
    exact hfit
  | succ e ih =>
    obtain ⟨hmax, -, rest, hrest⟩ := levelOffsets_succ_eq_ok hk hdbs h
    have htree := (ih _ hrest).2
    refine ⟨hmax, ?_⟩
    rw [treeSize_succ_top hk, Nat.mul_add]
    omega

variable {dg : Digest} {fuel base : Nat} {salt : Bytes} {v : Verity}

theorem new_eq_ok (h : new dg true fuel size dbs hbs salt base = .ok v) :
    ∃ L offsets, countLevels true (arity dg hbs) size fuel 0 dbs = .ok L ∧
      levelOffsets true (arity dg hbs) dbs hbs size L base = .ok offsets ∧
      v.levels = offsets.map (fun offset =>
        { nextIndex := 0, fileOffset := offset, data := List.replicate hbs 0 }) := by
  unfold new at h
  obtain ⟨L, hcount, h⟩ := bind_eq_ok.mp h
  obtain ⟨offsets, hoffsets, h⟩ := bind_eq_ok.mp h
  obtain ⟨n, -, h⟩ := bind_eq_ok.mp h
  cases h
  exact ⟨L, offsets, hcount, hoffsets, rfl⟩

theorem new_noLevels (hle : size ≤ dbs) (h : new dg true fuel size dbs hbs salt base = .ok v) :
    v.levels = [] := by
  obtain ⟨L, offsets, hcount, hoffsets, hv⟩ := new_eq_ok h
  obtain ⟨j, rfl, -, hbelow⟩ := countLevels_eq_ok fuel hcount
  have hj : j = 0 := by
    refine Nat.eq_zero_of_not_pos fun hpos => ?_
    have := hbelow 0 hpos
    rw [Nat.pow_zero, Nat.mul_one] at this
    omega
  subst hj
  cases hoffsets
  exact hv

variable {file : Bytes}

theorem newTraverse_small (hle : size ≤ dbs) (hfile : size ≤ file.length) (writeSuperblock : Bool) :
    ∃ e, Panic e ∧
      newTraverse dg true noWrite fuel size dbs hbs salt base file 0 writeSuperblock [] =
        (.error e, []) := by
  unfold newTraverse
  cases hnew : new dg true fuel size dbs hbs salt base with
  | error e =>
    refine ⟨e, (new_ends fuel size dbs hbs salt base).error e hnew, ?_⟩
    exact Traced.lift_error_bind rfl _ []
  | ok v =>
    obtain ⟨hd, hr⟩ := (new_ends fuel size dbs hbs salt base).ok v hnew
    have hread : v.blockRemainingCount * v.dataBlockSize ≤ file.length := by
      rw [hd, hr]
      exact Nat.le_trans (Nat.div_mul_le_self size dbs) hfile
    exact traverseFile_noLevels (new_noLevels hle hnew) hread writeSuperblock

theorem appendTree_small (hfile : file.length ≤ 4096) :
    ∃ e, Panic e ∧ appendTree dg true noWrite fuel file [] = (.error e, []) :=
  newTraverse_small hfile (Nat.le_refl _) true

theorem fits_of_new (hdbs : 0 < dbs) (hn : 2 ≤ n) (hk : 2 ≤ arity dg hbs)
    (h : new dg true fuel (n * dbs) dbs hbs salt base = .ok v) : Fits dg hbs dbs n base := by
  obtain ⟨L, offsets, hcount, hoffsets, -⟩ := new_eq_ok h
  have hL : L = height dg hbs n := eq_clog_of_countLevels hk hdbs hcount
  obtain ⟨e, he⟩ : ∃ e, height dg hbs n = e + 1 := Nat.exists_eq_succ_of_ne_zero
    (Nat.ne_of_gt (Nat.clog_pos hk hn))
  rw [hL, he] at hoffsets
  obtain ⟨hsize, htree⟩ := levelOffsets_checked (by omega) hdbs e base hoffsets
  rw [← he] at hsize htree
  exact ⟨hsize, htree⟩

end Accepted

/-! ## Other writers -/

section Writers

variable {dg : Digest} {checks : Bool}
  {writer : List (Bytes × Nat) → Bytes × Nat → Except Error Unit}

/-- The writer's own errors are no panics. -/
def Polite (writer : List (Bytes × Nat) → Bytes × Nat → Except Error Unit) : Prop :=
  ∀ calls c e, writer calls c = .error e → Rejection e

section

variable (hw : Polite writer)
include hw

theorem call_orFails (c : Bytes × Nat) :
    Traced.OrFails Rejection (Traced.call writer c) (Traced.call noWrite c) :=
  .call (fun _ => rfl) fun calls => hw calls c

theorem emit_orFails (v : Verity) (l : Nat) :
    Traced.OrFails Rejection (emit dg checks writer v l) (emit dg checks noWrite v l) :=
  (Traced.OrFails.refl _).bind fun _ => (Traced.OrFails.refl _).bind fun _ =>
    (call_orFails hw _).bind fun _ => .refl _

theorem uplevel_orFails (v : Verity) (l : Nat) :
    Traced.OrFails Rejection (uplevel dg checks writer v l) (uplevel dg checks noWrite v l) :=
  (emit_orFails hw v l).bind fun _ => .refl _

theorem goUp_orFails (l : Nat) (v : Verity) :
    Traced.OrFails Rejection (goUp dg checks writer l v) (goUp dg checks noWrite l v) := by
  induction l generalizing v with
  | zero => exact .refl _
  | succ l ih => exact (uplevel_orFails hw v (l + 1)).bind fun p => .ite (ih p.2) (.refl _)

theorem addBlock_orFails (v : Verity) (b : Bytes) :
    Traced.OrFails Rejection (addBlock dg checks writer v b) (addBlock dg checks noWrite v b) :=
  .ite (.refl _) ((Traced.OrFails.refl _).bind fun _ => (Traced.OrFails.refl _).bind fun p =>
    .ite (goUp_orFails hw _ p.2) (.refl _))

theorem upAll_orFails (l : Nat) (v : Verity) :
    Traced.OrFails Rejection (upAll dg checks writer l v) (upAll dg checks noWrite l v) := by
  induction l generalizing v with
  | zero => exact .refl _
  | succ l ih => exact (uplevel_orFails hw v (l + 1)).bind fun p => ih p.2

theorem flush_orFails (l : Nat) (v : Verity) :
    Traced.OrFails Rejection (flush dg checks writer l v) (flush dg checks noWrite l v) := by
  induction l generalizing v with
  | zero => exact .refl _
  | succ l ih =>
    exact (Traced.OrFails.refl _).bind fun _ => .ite (upAll_orFails hw (l + 1) v) (ih v)

theorem writeSuperBlock_orFails (v : Verity) :
    Traced.OrFails Rejection (writeSuperBlock checks writer v) (writeSuperBlock checks noWrite v) :=
  (Traced.OrFails.refl _).bind fun _ => (Traced.OrFails.refl _).bind fun _ =>
    (Traced.OrFails.refl _).bind fun _ =>
    (call_orFails hw _).bind fun _ => (Traced.OrFails.refl _).bind fun _ => call_orFails hw _

theorem finalize_orFails (v : Verity) (writeSuperblock : Bool) :
    Traced.OrFails Rejection (finalize dg checks writer v writeSuperblock)
      (finalize dg checks noWrite v writeSuperblock) :=
  (flush_orFails hw _ v).bind fun w => (emit_orFails hw w 0).bind fun p =>
    .ite ((writeSuperBlock_orFails hw p.2).bind fun _ => .refl _) (.refl _)

theorem addBlocks_orFails (file : Bytes) (r offset : Nat) (v : Verity) :
    Traced.OrFails Rejection (addBlocks dg checks writer file r offset v)
      (addBlocks dg checks noWrite file r offset v) := by
  induction r generalizing offset v with
  | zero => exact .refl _
  | succ r ih =>
    exact .ite ((Traced.OrFails.refl _).bind fun b => (addBlock_orFails hw v b).bind fun w =>
      (Traced.OrFails.refl _).bind fun next => ih next w) (.refl _)

theorem newTraverse_orFails (fuel size dbs hbs : Nat) (salt : Bytes) (base : Nat)
    (file : Bytes) (offset : Nat) (writeSuperblock : Bool) :
    Traced.OrFails Rejection
      (newTraverse dg checks writer fuel size dbs hbs salt base file offset writeSuperblock)
      (newTraverse dg checks noWrite fuel size dbs hbs salt base file offset writeSuperblock) :=
  (Traced.OrFails.refl _).bind fun v => (addBlocks_orFails hw file _ offset v).bind fun w =>
    finalize_orFails hw w writeSuperblock

end

theorem noWrite_polite : Polite noWrite := nofun

theorem noWrite_accepts (calls : List (Bytes × Nat)) (c : Bytes × Nat) :
    noWrite calls c = .ok () := rfl

end Writers

/-! ## Protection -/

section Protection

variable (dg : Digest) (salt : Bytes) (hbs : Nat)

/-- No two different blocks at the same place of the trees over these data blocks have the same
digest. A digest that is injective on the blocks has none, but none of a fixed size is injective on
all blocks. -/
def NoClash (bs bs' : List Bytes) : Prop :=
  NoCollision (saltedDigest dg salt) bs bs' ∧
    NoCollision (saltedDigest dg salt) (tree dg salt hbs bs) (tree dg salt hbs bs')

/-- With any build setting and writer, no file of this size makes the builder panic, and two
different files get different root hashes unless one of them is rejected. -/
def Protects (size dataBlockSize base : Nat) (writeSuperblock : Bool) : Prop :=
  ∀ checks fuel writer, 65 ≤ fuel → Polite writer →
    (∀ file : Bytes, file.length = size → ∀ e,
      (newTraverse dg checks writer fuel size dataBlockSize hbs salt base file 0
        writeSuperblock []).1 = .error e →
      Rejection e) ∧
    ∀ file file' : Bytes, file.length = size → file'.length = size → file ≠ file' →
      NoClash dg salt hbs (dataBlocks dataBlockSize (size / dataBlockSize) file)
        (dataBlocks dataBlockSize (size / dataBlockSize) file') →
      ∀ root, ¬ ((newTraverse dg checks writer fuel size dataBlockSize hbs salt base file 0
          writeSuperblock []).1 = .ok root ∧
        (newTraverse dg checks writer fuel size dataBlockSize hbs salt base file' 0
          writeSuperblock []).1 = .ok root)

variable {dg salt hbs} {size dbs base : Nat} {writeSuperblock : Bool}

theorem NoClash.refl (bs : List Bytes) : NoClash dg salt hbs bs bs := ⟨.refl _, .refl _⟩

theorem NoClash.of_injective (h : ∀ x y, saltedDigest dg salt x = saltedDigest dg salt y → x = y)
    (bs bs' : List Bytes) : NoClash dg salt hbs bs bs' := ⟨.of_injective h _ _, .of_injective h _ _⟩

theorem digestBytes_inj {ds es : List (Vector UInt8 dg.outputSize)} (hlen : ds.length = es.length)
    (h : digestBytes ds = digestBytes es) : ds = es := by
  induction ds generalizing es with
  | nil => exact (List.length_eq_zero_iff.mp hlen.symm).symm
  | cons d ds ih =>
    cases es with
    | nil => cases hlen
    | cons e es =>
      have hsplit : d.toList ++ digestBytes ds = e.toList ++ digestBytes es := h
      obtain ⟨hhead, htail⟩ := List.append_inj hsplit
        (by rw [Vector.length_toList, Vector.length_toList])
      rw [Vector.toList_inj.mp hhead, ih (Nat.succ.inj hlen) htail]

theorem hashBlock_inj (ds es : List (Vector UInt8 dg.outputSize)) (hlen : ds.length = es.length)
    (h : hashBlock hbs ds = hashBlock hbs es) : ds = es := by
  refine digestBytes_inj hlen (List.append_inj h ?_).1
  rw [length_digestBytes, length_digestBytes, hlen]

variable {file file' : Bytes}

theorem eq_of_dataBlocks (n : Nat) (hlen : file.length = n * dbs) (hlen' : file'.length = n * dbs)
    (h : dataBlocks dbs n file = dataBlocks dbs n file') : file = file' := by
  induction n generalizing file file' with
  | zero =>
    rw [Nat.zero_mul] at hlen hlen'
    rw [List.length_eq_zero_iff.mp hlen, List.length_eq_zero_iff.mp hlen']
  | succ n ih =>
    rw [Nat.succ_mul] at hlen hlen'
    rw [dataBlocks, dataBlocks, List.cons.injEq] at h
    have hdrop := ih (by rw [List.length_drop]; omega) (by rw [List.length_drop]; omega) h.2
    rw [← List.take_append_drop dbs file, h.1, hdrop, List.take_append_drop]

/-- Trees with the same digest at the top are over the same data. -/
theorem eq_of_topLevel (hk : 0 < arity dg hbs) {bs bs' : List Bytes} {top top' : Bytes}
    (hlen : bs.length = bs'.length)
    (hc : NoClash dg salt hbs bs bs') (htop : topLevel dg salt hbs bs = [top])
    (htop' : topLevel dg salt hbs bs' = [top'])
    (h : saltedDigest dg salt top = saltedDigest dg salt top') : bs = bs' := by
  obtain ⟨hdata, htree⟩ := hc
  unfold topLevel at htop htop'
  unfold tree at htree
  rw [← hlen] at htop' htree
  refine eq_of_level_hash hk hashBlock_inj _ hlen hdata htree ?_
  rw [htop, htop', List.map_cons, List.map_cons, h]

/-! ### What protection needs -/

section

variable (h : Protects dg salt hbs size dbs base writeSuperblock)
include h

theorem Protects.runs (hfile : file.length = size) :
    ∃ root, (newTraverse dg true noWrite 65 size dbs hbs salt base file 0 writeSuperblock []).1 =
      .ok root := by
  have hreject := (h true 65 noWrite (Nat.le_refl _) noWrite_polite).1 file hfile
  have hpanic : Ends (fun _ => True) Panic
      (newTraverse dg true noWrite 65 size dbs hbs salt base file 0 writeSuperblock []).1 :=
    newTraverse_ends (Nat.le_of_eq hfile.symm) []
  cases hout : (newTraverse dg true noWrite 65 size dbs hbs salt base file 0
    writeSuperblock []).1 with
  | ok root => exact ⟨root, rfl⟩
  | error e =>
    have hfalse : e.isPanic = false := hreject e hout
    have htrue : e.isPanic = true := hpanic.error e hout
    rw [hfalse] at htrue
    cases htrue

theorem Protects.new_ok : ∃ v, new dg true 65 size dbs hbs salt base = .ok v := by
  have hfile : (List.replicate size (0 : UInt8)).length = size := List.length_replicate
  obtain ⟨root, hrun⟩ := h.runs hfile
  cases hnew : new dg true 65 size dbs hbs salt base with
  | ok v => exact ⟨v, rfl⟩
  | error e =>
    unfold newTraverse at hrun
    rw [Traced.lift_error_bind hnew] at hrun
    cases hrun

theorem Protects.two_blocks : dbs < size := by
  refine Nat.lt_of_not_le fun hle => ?_
  have hfile : (List.replicate size (0 : UInt8)).length = size := List.length_replicate
  obtain ⟨root, hrun⟩ := h.runs hfile
  obtain ⟨e, -, hpanic⟩ := newTraverse_small hle (Nat.le_of_eq hfile.symm) writeSuperblock
  rw [hpanic] at hrun
  cases hrun

theorem Protects.two_le_arity : 2 ≤ arity dg hbs := by
  obtain ⟨v, hnew⟩ := h.new_ok
  obtain ⟨L, offsets, hcount, -⟩ := new_eq_ok hnew
  exact two_le_of_countLevels h.two_blocks hcount

end

theorem dataBlocks_congr (n : Nat) (h : file.take (n * dbs) = file'.take (n * dbs)) :
    dataBlocks dbs n file = dataBlocks dbs n file' := by
  induction n generalizing file file' with
  | zero => rfl
  | succ n ih =>
    rw [Nat.succ_mul] at h
    have htake : file.take dbs = file'.take dbs := by
      have := congrArg (List.take dbs) h
      rwa [List.take_take, List.take_take, Nat.min_eq_left (Nat.le_add_left _ _)] at this
    have hdrop : (file.drop dbs).take (n * dbs) = (file'.drop dbs).take (n * dbs) := by
      have := congrArg (List.drop dbs) h
      rwa [List.drop_take, List.drop_take, Nat.add_sub_cancel] at this
    rw [dataBlocks, dataBlocks, htake, ih hdrop]

/-- Two files that differ in their last byte only, which is not in a block. -/
theorem Protects.dvd (h : Protects dg salt hbs size dbs base writeSuperblock) : dbs ∣ size := by
  refine Decidable.byContradiction fun hdvd => ?_
  have hlt : size / dbs * dbs < size := by
    refine Nat.lt_of_le_of_ne (Nat.div_mul_le_self size dbs) fun heq => hdvd ⟨size / dbs, ?_⟩
    rw [Nat.mul_comm]
    exact heq.symm
  let file (b : UInt8) : Bytes := List.replicate (size - 1) 0 ++ [b]
  have hlen : ∀ b, (file b).length = size := by
    intro b
    rw [List.length_append, List.length_replicate, List.length_singleton]
    omega
  have htake : (file 0).take (size / dbs * dbs) = (file 1).take (size / dbs * dbs) := by
    have hle : size / dbs * dbs ≤ (List.replicate (size - 1) (0 : UInt8)).length := by
      rw [List.length_replicate]
      omega
    rw [List.take_append_of_le_length hle, List.take_append_of_le_length hle]
  have hne : file 0 ≠ file 1 := by
    intro heq
    have := List.append_cancel_left heq
    cases this
  have hblocks : dataBlocks dbs (size / dbs) (file 0) = dataBlocks dbs (size / dbs) (file 1) :=
    dataBlocks_congr _ htake
  obtain ⟨root, hrun⟩ := h.runs (hlen 0)
  have hrun' := hrun
  rw [newTraverse_congr htake (Nat.le_of_eq (hlen 0).symm) (Nat.le_of_eq (hlen 1).symm)] at hrun'
  refine (h true 65 noWrite (Nat.le_refl _) noWrite_polite).2 (file 0) (file 1) (hlen 0)
    (hlen 1) hne ?_ root ⟨hrun, hrun'⟩
  rw [hblocks]
  exact NoClash.refl _

theorem height_lt (hk : 2 ≤ arity dg hbs) {n : Nat} (hdbs : 0 < dbs)
    (hfit : Fits dg hbs dbs n base) : height dg hbs n < 65 := by
  have hpow : 2 ^ height dg hbs n ≤ arity dg hbs ^ height dg hbs n := Nat.pow_le_pow_left hk _
  have hmul : arity dg hbs ^ height dg hbs n ≤ dbs * arity dg hbs ^ height dg hbs n :=
    Nat.le_mul_of_pos_left _ hdbs
  have hmax := hfit.size
  refine (Nat.pow_lt_pow_iff_right (a := 2) (by decide)).mp ?_
  have : U64.max < 2 ^ 65 := by decide
  omega

theorem Protects.superBlock (h : Protects dg salt hbs size dbs base writeSuperblock)
    (hdbs : 0 < dbs)
    (hn : 2 ≤ size / dbs) (hfit : Fits dg hbs dbs (size / dbs) base)
    (hsuper : writeSuperblock = true) : treeEnd dg hbs base (size / dbs) + 4096 ≤ U64.max := by
  refine Decidable.byContradiction fun hgt => ?_
  subst hsuper
  have hfile : (List.replicate size (0 : UInt8)).length = size := List.length_replicate
  have hsize : size / dbs * dbs = size := Nat.div_mul_cancel h.dvd
  have hmax := hfit.size
  obtain ⟨root, hrun⟩ := h.runs hfile
  obtain ⟨top, W, v, last, -, -, -, hlast, hoff, heq⟩ := newTraverse_eq salt true noWrite_accepts
    hdbs hn h.two_le_arity
    (height_lt h.two_le_arity hdbs hfit) hfit
      (by rw [hfile, Nat.zero_add]; exact Nat.le_of_eq hsize) (by omega) true
  have hadd : U64.add true Error.overflow last.fileOffset 4096 = .error .overflow := by
    rw [hoff]
    exact (if_neg hgt).trans (if_pos rfl)
  rw [hsize] at heq
  rw [heq, if_pos rfl] at hrun
  have hfail : writeSuperBlock true noWrite v ([] ++ W) = (.error .overflow, [] ++ W) := by
    unfold writeSuperBlock
    rw [(Traced.Yields.lift (levelAt_of_getElem? hlast)).bind_eq, List.append_nil]
    exact Traced.lift_error_bind hadd _ _
  rw [Traced.bind_error hfail] at hrun
  cases hrun

theorem two_le_div (hdvd : dbs ∣ size) (hlt : dbs < size) : 2 ≤ size / dbs := by
  have hsize := Nat.div_mul_cancel hdvd
  refine Nat.le_of_not_lt fun hn => ?_
  have := Nat.mul_le_mul_right dbs (Nat.le_of_lt_succ hn)
  omega

variable (salt) in
theorem newTraverse_whole (checks : Bool) {fuel : Nat} (hfuel : 65 ≤ fuel) (hdvd : dbs ∣ size)
    (hlt : dbs < size) (hk : 2 ≤ arity dg hbs) (hfit : Fits dg hbs dbs (size / dbs) base)
    (hsuper : writeSuperblock = true → treeEnd dg hbs base (size / dbs) + 4096 ≤ U64.max)
    (hfile : file.length = size) :
    ∃ top, topLevel dg salt hbs (dataBlocks dbs (size / dbs) file) = [top] ∧
      (newTraverse dg checks noWrite fuel size dbs hbs salt base file 0 writeSuperblock []).1
        = .ok (saltedDigest dg salt top).toList := by
  have hdbs : 0 < dbs := Nat.pos_of_dvd_of_pos hdvd (by omega)
  have hsize : size / dbs * dbs = size := Nat.div_mul_cancel hdvd
  have hheight : height dg hbs (size / dbs) < fuel := Nat.lt_of_lt_of_le (height_lt hk hdbs hfit)
    hfuel
  have hmax := hfit.size
  obtain ⟨top, W, htop, -, hrun⟩ := newTraverse_run salt checks noWrite_accepts hdbs
    (two_le_div hdvd hlt) hk hheight hfit
    (by rw [hfile, Nat.zero_add]; exact Nat.le_of_eq hsize) (by omega) hsuper
  rw [hsize] at hrun
  exact ⟨top, htop, by rw [hrun]⟩

/-- Every byte is protected exactly if there are at least two blocks and nothing but whole blocks, a
hash block holds two digests and no offset overflows. -/
theorem protects_iff :
    Protects dg salt hbs size dbs base writeSuperblock ↔
      dbs ∣ size ∧ dbs < size ∧ 2 ≤ arity dg hbs ∧ Fits dg hbs dbs (size / dbs) base ∧
        (writeSuperblock = true → treeEnd dg hbs base (size / dbs) + 4096 ≤ U64.max) := by
  constructor
  · intro h
    have hlt := h.two_blocks
    have hdbs : 0 < dbs := Nat.pos_of_dvd_of_pos h.dvd (by omega)
    have hn := two_le_div h.dvd hlt
    obtain ⟨v, hnew⟩ := h.new_ok
    rw [← Nat.div_mul_cancel h.dvd] at hnew
    have hfit := fits_of_new hdbs hn h.two_le_arity hnew
    exact ⟨h.dvd, hlt, h.two_le_arity, hfit, h.superBlock hdbs hn hfit⟩
  · rintro ⟨hdvd, hlt, hk, hfit, hsuper⟩ checks fuel writer hfuel hw
    have hwhole : ∀ file : Bytes, file.length = size → ∃ top, _ := fun file hfile =>
      newTraverse_whole salt checks hfuel hdvd hlt hk hfit hsuper hfile
    -- A writer that fails only adds rejections to the runs without one.
    have hwriter : ∀ file, Traced.OrFails Rejection
        (newTraverse dg checks writer fuel size dbs hbs salt base file 0 writeSuperblock)
        (newTraverse dg checks noWrite fuel size dbs hbs salt base file 0 writeSuperblock) :=
      fun file => newTraverse_orFails hw fuel size dbs hbs salt base file 0 writeSuperblock
    constructor
    · intro file hfile e he
      obtain ⟨top, -, hok⟩ := hwhole file hfile
      rcases hwriter file [] with heq | ⟨d, hd, hreject⟩
      · rw [heq, hok] at he
        cases he
      · rw [hd] at he
        cases he
        exact hreject
    · rintro file file' hfile hfile' hne hclash root ⟨hroot, hroot'⟩
      obtain ⟨top, htop, hok⟩ := hwhole file hfile
      obtain ⟨top', htop', hok'⟩ := hwhole file' hfile'
      have hdigest : saltedDigest dg salt top = saltedDigest dg salt top' := by
        refine Vector.toList_inj.mp (Except.ok.inj (ε := Error) ?_)
        rw [← hok, ← hok', (hwriter file).ok hroot, (hwriter file').ok hroot']
      have hsize := Nat.div_mul_cancel hdvd
      have hblocks := eq_of_topLevel (by omega) (by rw [length_dataBlocks, length_dataBlocks])
        hclash htop htop' hdigest
      exact hne (eq_of_dataBlocks _ (hfile.trans hsize.symm) (hfile'.trans hsize.symm) hblocks)

/-- One block makes the builder panic, and the third byte of one block and a half is not protected. -/
theorem oneBlock_panics_tail_unprotected :
    (newTraverse byteDigest true noWrite 65 2 2 2 [] 2 [1, 2] 0 true []).1 = .error .overflow ∧
      (newTraverse byteDigest false noWrite 65 2 2 2 [] 2 [1, 2] 0 true []).1 =
        .error .indexOutOfBounds ∧
      (newTraverse byteDigest true noWrite 65 3 2 2 [] 3 [1, 2, 3] 0 true []).1
        = (newTraverse byteDigest true noWrite 65 3 2 2 [] 3 [1, 2, 4] 0 true []).1 ∧
      ¬ Protects byteDigest [] 2 2 2 2 true ∧ ¬ Protects byteDigest [] 2 3 2 3 true := by
  have hone : (newTraverse byteDigest true noWrite 65 2 2 2 [] 2 [1, 2] 0 true []).1 =
      .error .overflow := by decide
  have htail : (newTraverse byteDigest true noWrite 65 3 2 2 [] 3 [1, 2, 3] 0 true []).1 =
      .ok [11] := by decide
  have htail' : (newTraverse byteDigest true noWrite 65 3 2 2 [] 3 [1, 2, 4] 0 true []).1 =
      .ok [11] := by decide
  refine ⟨hone, by decide, by rw [htail, htail'], ?_, ?_⟩
  · intro h
    have hreject : Error.isPanic .overflow = false :=
      (h true 65 noWrite (by decide) noWrite_polite).1 [1, 2] rfl _ hone
    cases hreject
  · intro h
    have hclash : NoClash byteDigest [] 2 (dataBlocks 2 (3 / 2) [1, 2, 3])
        (dataBlocks 2 (3 / 2) [1, 2, 4]) :=
      NoClash.refl [[1, 2]]
    exact (h true 65 noWrite (by decide) noWrite_polite).2 [1, 2, 3] [1, 2, 4] rfl rfl
      (by decide) hclash [11]
      ⟨htail, htail'⟩

end Protection

end Kata.Verity
