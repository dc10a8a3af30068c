import Kata.Lib.Decimal
import Kata.Lib.Outcome
import Kata.Lib.U64
import Mathlib.Tactic.IntervalCases

/-!
# Kata.Cgroups.CpuSet

The bit mask that the systemd driver makes of a list of CPUs or memory nodes
(`rustjail/src/cgroups/systemd/subsystem/cpuset.rs`).

`try_from` sets one bit of a growing bit vector for each number (`Represents`), takes its bytes and
reverses them. The bytes are in systemd's order before they are reversed, so that the mask is the
requested one only if it reads the same in both directions (`bitMask_denotes_iff`): one byte always
does, and the mask of CPU 8 does not (`mask_of_eight`).

The crate `bit-vec` is not part of the repository. `BitVecs` has its operations as a parameter, and
says what is assumed of them.
-/

namespace Kata.Cgroups

open Lib

inductive BitMaskError where
  | parse (e : ParseIntError)
  | invalid (message : String)
  | panic
deriving DecidableEq

/-! ## The bit vector -/

/-- The operations on a bit vector, where `none` is a panic, and what they do to its bits. -/
structure BitVecs (V : Type) where
  fromElem : Nat → Bool → V
  len : V → Nat
  grow : V → Nat → Bool → Option V
  set : V → Nat → Bool → Option V
  toBytes : V → List (BitVec 8)
  /-- The bits that a vector stands for. -/
  bit : V → Nat → Bool
  len_fromElem : ∀ n b, len (fromElem n b) = n
  bit_fromElem : ∀ n b i, i < n → bit (fromElem n b) i = b
  /-- The length is a `usize`. -/
  grow_isSome : ∀ v n b, (grow v n b).isSome ↔ len v + n ≤ U64.max
  len_grow : ∀ {v n b v'}, grow v n b = some v' → len v' = len v + n
  bit_grow : ∀ {v n b v'}, grow v n b = some v' → ∀ i < len v', bit v' i = if i < len v then bit v i else b
  set_isSome : ∀ v i b, (set v i b).isSome ↔ i < len v
  len_set : ∀ {v i b v'}, set v i b = some v' → len v' = len v
  bit_set : ∀ {v i b v'}, set v i b = some v' → ∀ j < len v, bit v' j = if j = i then b else bit v j
  length_toBytes : ∀ v, (toBytes v).length = (len v + 7) / 8
  /-- The first bit of a byte is its most significant one. -/
  bit_toBytes : ∀ v, ∀ i < len v, ((toBytes v).getD (i / 8) 0).getMsbD (i % 8) = bit v i

/-! ## The conversion -/

def adjustIndex (idx : Nat) : Nat := idx / 8 * 8 + 7 - idx % 8

section TryFrom

variable {V : Type} (api : BitVecs V)

/-- The loop `while idx >= bitmask_vec.len()`. -/
def growFor (idx : Nat) (v : V) : Except BitMaskError V :=
  if idx ≥ api.len v then
    match _h : api.grow v 8 false with
    | none => .error .panic
    | some v' => growFor idx v'
  else .ok v
termination_by idx + 1 - api.len v
decreasing_by
  have := api.len_grow _h
  omega

def setBit (v : V) (idx : Nat) : Except BitMaskError V :=
  match api.set v (adjustIndex idx) true with
  | none => .error .panic
  | some v' => .ok v'

def parseIndex (text : List Char) : Except BitMaskError Nat := (Lib.parse U64.max text).mapError .parse

def setIndexes (indexes : List Nat) (v : V) : Except BitMaskError V := indexes.foldlM (setBit api) v

def addRange (bitmaskStr : List Char) (v : V) (bitmask : List Char) : Except BitMaskError V :=
  match bitmask.splitOn '-' with
  | [number] => do
    let idx ← parseIndex number
    let v ← growFor api idx v
    setBit api v idx
  | [left, right] => do
    let leftIndex ← parseIndex left
    let rightIndex ← parseIndex right
    let v ← growFor api rightIndex v
    setIndexes api (List.range' leftIndex (rightIndex + 1 - leftIndex)) v
  | _ => .error (.invalid ("invalid bitmask str " ++ String.ofList bitmaskStr))

def tryFrom (bitmaskStr : List Char) : Except BitMaskError (List (BitVec 8)) := do
  let bitmaskVec ← (bitmaskStr.splitOn ',').foldlM (addRange api bitmaskStr) (api.fromElem 8 false)
  return (api.toBytes bitmaskVec).reverse

end TryFrom

/-! ## The set that a list denotes -/

inductive Item where
  | number (n : Numeral)
  | range (a b : Numeral) (le : a.value ≤ b.value)

namespace Item

def text : Item → List Char
  | .number n => n.digits
  | .range a b _ => a.digits ++ '-' :: b.digits

def Contains : Item → Nat → Prop
  | .number n, i => i = n.value
  | .range a b _, i => a.value ≤ i ∧ i ≤ b.value

def last : Item → Nat
  | .number n => n.value
  | .range _ b _ => b.value

end Item

def listText (items : List Item) : List Char := [','].intercalate (items.map Item.text)

def Denotes (items : List Item) (i : Nat) : Prop := ∃ item ∈ items, item.Contains i

/-- The largest number of the set. -/
def lastOf (items : List Item) : Nat := items.foldr (fun item m => max item.last m) 0

/-- How systemd reads a mask; what is not there is not set. -/
def maskBit (bytes : List (BitVec 8)) (k j : Nat) : Bool := (bytes.getD k 0).getLsbD j

/-! ## What the bits represent -/

/-- The bit of `i` is at the adjusted index. -/
structure Represents {V : Type} (api : BitVecs V) (v : V) (S : Nat → Prop) (n : Nat) : Prop where
  len_eq : api.len v = 8 * n
  fits : 8 * n ≤ U64.max
  bit_iff : ∀ i < 8 * n, api.bit v (adjustIndex i) = true ↔ S i
  lt_of : ∀ i, S i → i < 8 * n

variable {V : Type} {api : BitVecs V} {v v' : V} {S : Nat → Prop} {n idx : Nat}

theorem adjustIndex_inj {i j : Nat} : adjustIndex i = adjustIndex j ↔ i = j := by
  unfold adjustIndex
  omega

theorem adjustIndex_lt : adjustIndex idx < 8 * n ↔ idx < 8 * n := by
  unfold adjustIndex
  omega

theorem Represents.congr {S' : Nat → Prop} (h : Represents api v S n) (hS : ∀ i, S i ↔ S' i) :
    Represents api v S' n :=
  ⟨h.len_eq, h.fits, fun i hi => (h.bit_iff i hi).trans (hS i), fun i hi => h.lt_of i ((hS i).mpr hi)⟩

theorem Represents.start (api : BitVecs V) : Represents api (api.fromElem 8 false) (fun _ => False) 1 := by
  refine ⟨api.len_fromElem 8 false, by decide, fun i hi => ?_, nofun⟩
  rw [api.bit_fromElem 8 false _ (adjustIndex_lt.mpr hi)]
  exact ⟨nofun, nofun⟩

theorem Represents.grow (h : Represents api v S n) (hgrow : api.grow v 8 false = some v') :
    Represents api v' S (n + 1) := by
  have hlen : api.len v' = 8 * (n + 1) := by rw [api.len_grow hgrow, h.len_eq, Nat.mul_succ]
  have hfits : api.len v + 8 ≤ U64.max := (api.grow_isSome v 8 false).mp (hgrow ▸ rfl)
  refine ⟨hlen, by rwa [h.len_eq] at hfits, fun i hi => ?_, fun i hi => ?_⟩
  · rw [api.bit_grow hgrow _ (hlen ▸ adjustIndex_lt.mpr hi), h.len_eq]
    by_cases hin : i < 8 * n
    · rw [if_pos (adjustIndex_lt.mpr hin), h.bit_iff i hin]
    · rw [if_neg fun hlt => hin (adjustIndex_lt.mp hlt)]
      exact ⟨nofun, fun hS => absurd (h.lt_of i hS) hin⟩
  · have hlt := h.lt_of i hi
    omega

theorem Represents.set (h : Represents api v S n) (hidx : idx < 8 * n) :
    ∃ v', setBit api v idx = .ok v' ∧ Represents api v' (fun i => S i ∨ i = idx) n := by
  have hlt : adjustIndex idx < api.len v := h.len_eq ▸ adjustIndex_lt.mpr hidx
  obtain ⟨v', hset⟩ := Option.isSome_iff_exists.mp ((api.set_isSome v _ true).mpr hlt)
  refine ⟨v', by rw [setBit, hset], (api.len_set hset).trans h.len_eq, h.fits, fun i hi => ?_, ?_⟩
  · rw [api.bit_set hset _ (h.len_eq ▸ adjustIndex_lt.mpr hi)]
    by_cases heq : i = idx
    · rw [if_pos (adjustIndex_inj.mpr heq)]
      exact ⟨fun _ => .inr heq, fun _ => rfl⟩
    · rw [if_neg fun hadj => heq (adjustIndex_inj.mp hadj), h.bit_iff i hi]
      exact ⟨.inl, fun hS => hS.resolve_right heq⟩
  · rintro i (hS | rfl)
    · exact h.lt_of i hS
    · exact hidx

theorem Represents.setIndexes (h : Represents api v S n) {indexes : List Nat} (hlt : ∀ i ∈ indexes, i < 8 * n) :
    ∃ v', setIndexes api indexes v = .ok v' ∧ Represents api v' (fun i => S i ∨ i ∈ indexes) n := by
  induction indexes generalizing v S with
  | nil => exact ⟨v, rfl, by simpa using h⟩
  | cons idx indexes ih =>
    obtain ⟨v₁, hset, hrep⟩ := h.set (hlt idx (.head _))
    obtain ⟨v₂, hrest, hrep'⟩ := ih hrep fun i hi => hlt i (.tail _ hi)
    refine ⟨v₂, ?_, ?_⟩
    · rw [Cgroups.setIndexes, List.foldlM_cons, hset]
      exact hrest
    · simpa only [List.mem_cons, or_assoc] using hrep'

/-- An index at or above it does not fit: the vector is a number of whole bytes. -/
def indexLimit : Nat := 2 ^ 64 - 8

theorem growFor_of_some (hout : idx ≥ api.len v) (hgrow : api.grow v 8 false = some v') :
    growFor api idx v = growFor api idx v' := by
  rw [growFor, if_pos hout]
  split
  · rename_i hnone
    rw [hgrow] at hnone
    cases hnone
  · rename_i w hsome
    rw [hgrow] at hsome
    cases hsome
    rfl

theorem growFor_of_none (hout : idx ≥ api.len v) (hgrow : api.grow v 8 false = none) :
    growFor api idx v = .error .panic := by
  rw [growFor, if_pos hout]
  split
  · rfl
  · rename_i w hsome
    rw [hgrow] at hsome
    cases hsome

/-- The vector grows to the byte of `idx`, if that is in the range of `usize`. -/
theorem Represents.growFor_cases (h : Represents api v S n) (idx : Nat) :
    if idx < indexLimit then ∃ v', growFor api idx v = .ok v' ∧ Represents api v' S (max n (idx / 8 + 1))
    else growFor api idx v = .error .panic := by
  have hfits := h.fits
  have hlen := h.len_eq
  -- The bytes that are still to be added.
  induction hm : idx / 8 + 1 - n generalizing v n with
  | zero =>
    have hin : ¬ idx ≥ api.len v := by omega
    have hidx : idx < indexLimit := by
      unfold indexLimit
      unfold U64.max at hfits
      omega
    rw [if_pos hidx]
    refine ⟨v, by rw [growFor, if_neg hin], ?_⟩
    rwa [Nat.max_eq_left (by omega)]
  | succ m ih =>
    have hout : idx ≥ api.len v := by omega
    cases hgrow : api.grow v 8 false with
    | none =>
      have hover : ¬ api.len v + 8 ≤ U64.max := fun hle => by
        have hsome := (api.grow_isSome v 8 false).mpr hle
        rw [hgrow] at hsome
        cases hsome
      have hidx : ¬ idx < indexLimit := by
        unfold indexLimit
        unfold U64.max at hover
        omega
      rw [if_neg hidx]
      exact growFor_of_none hout hgrow
    | some v' =>
      have hrep := h.grow hgrow
      have hmax : max n (idx / 8 + 1) = max (n + 1) (idx / 8 + 1) := by omega
      rw [growFor_of_some hout hgrow, hmax]
      exact ih hrep hrep.fits hrep.len_eq (by omega)

theorem Represents.growFor (h : Represents api v S n) (hidx : idx < indexLimit) :
    ∃ v', growFor api idx v = .ok v' ∧ Represents api v' S (max n (idx / 8 + 1)) := by
  have hcases := h.growFor_cases idx
  rwa [if_pos hidx] at hcases

theorem growFor_error (h : Represents api v S n) (hidx : ¬ idx < indexLimit) :
    growFor api idx v = .error .panic := by
  have hcases := h.growFor_cases idx
  rwa [if_neg hidx] at hcases

theorem parseIndex_ok {m : Numeral} (h : m.value ≤ U64.max) : parseIndex m.digits = .ok m.value := by
  rw [parseIndex, parse_numeral, if_pos h]
  rfl

theorem parseIndex_error {m : Numeral} (h : ¬ m.value ≤ U64.max) :
    parseIndex m.digits = .error (.parse .posOverflow) := by
  rw [parseIndex, parse_numeral, if_neg h]
  rfl

theorem le_max_of_lt_indexLimit (h : idx < indexLimit) : idx ≤ U64.max := by
  unfold indexLimit at h
  unfold U64.max
  omega

/-! ## One item of the list -/

theorem splitOn_number (m : Numeral) : m.digits.splitOn '-' = [m.digits] := by
  have h := @List.splitOn_intercalate _ [m.digits] _ _ '-' ?_ (List.cons_ne_nil _ _)
  · simpa using h
  · intro l hl
    cases List.mem_singleton.mp hl
    exact m.not_mem (by decide)

theorem splitOn_range (a b : Numeral) : (a.digits ++ '-' :: b.digits).splitOn '-' = [a.digits, b.digits] := by
  have h := @List.splitOn_intercalate _ [a.digits, b.digits] _ _ '-' ?_ (List.cons_ne_nil _ _)
  · simpa using h
  · intro l hl
    rcases List.mem_cons.mp hl with rfl | hl
    · exact a.not_mem (by decide)
    · cases List.mem_singleton.mp hl
      exact b.not_mem (by decide)

theorem addRange_ok (h : Represents api v S n) (str : List Char) {item : Item} (hlast : item.last < indexLimit) :
    ∃ v', addRange api str v item.text = .ok v' ∧
      Represents api v' (fun i => S i ∨ item.Contains i) (max n (item.last / 8 + 1)) := by
  cases item with
  | number m =>
    simp only [addRange, Item.text, splitOn_number, Item.last] at hlast ⊢
    have hlt : m.value < 8 * max n (m.value / 8 + 1) := by omega
    obtain ⟨v₁, hgrow, hrep₁⟩ := h.growFor hlast
    obtain ⟨v₂, hset, hrep₂⟩ := hrep₁.set hlt
    refine ⟨v₂, ?_, hrep₂⟩
    rw [parseIndex_ok (le_max_of_lt_indexLimit hlast)]
    show (growFor api m.value v >>= fun v => setBit api v m.value) = _
    rw [hgrow]
    exact hset
  | range a b hab =>
    simp only [addRange, Item.text, splitOn_range, Item.last] at hlast ⊢
    have hlt : ∀ i ∈ List.range' a.value (b.value + 1 - a.value), i < 8 * max n (b.value / 8 + 1) := by
      intro i hi
      have hi' := (List.mem_range'_1.mp hi).2
      omega
    obtain ⟨v₁, hgrow, hrep₁⟩ := h.growFor hlast
    obtain ⟨v₂, hset, hrep₂⟩ := hrep₁.setIndexes hlt
    refine ⟨v₂, ?_, hrep₂.congr fun i => ?_⟩
    · rw [parseIndex_ok (le_max_of_lt_indexLimit (Nat.lt_of_le_of_lt hab hlast)),
        parseIndex_ok (le_max_of_lt_indexLimit hlast)]
      show (growFor api b.value v >>= setIndexes api _) = _
      rw [hgrow]
      exact hset
    · have hmem : i ∈ List.range' a.value (b.value + 1 - a.value) ↔ a.value ≤ i ∧ i ≤ b.value := by
        rw [List.mem_range'_1]
        omega
      exact or_congr_right hmem

theorem addRange_error (h : Represents api v S n) (str : List Char) {item : Item} (hlast : ¬ item.last < indexLimit) :
    ∃ e, addRange api str v item.text = .error e := by
  cases item with
  | number m =>
    simp only [addRange, Item.text, splitOn_number, Item.last] at hlast ⊢
    by_cases hm : m.value ≤ U64.max
    · rw [parseIndex_ok hm]
      show ∃ e, (growFor api m.value v >>= fun v => setBit api v m.value) = .error e
      rw [growFor_error h hlast]
      exact ⟨_, rfl⟩
    · rw [parseIndex_error hm]
      exact ⟨_, rfl⟩
  | range a b hab =>
    simp only [addRange, Item.text, splitOn_range, Item.last] at hlast ⊢
    by_cases hb : b.value ≤ U64.max
    · rw [parseIndex_ok (Nat.le_trans hab hb), parseIndex_ok hb]
      show ∃ e, (growFor api b.value v >>= setIndexes api _) = .error e
      rw [growFor_error h hlast]
      exact ⟨_, rfl⟩
    · by_cases ha : a.value ≤ U64.max
      · rw [parseIndex_ok ha, parseIndex_error hb]
        exact ⟨_, rfl⟩
      · rw [parseIndex_error ha]
        exact ⟨_, rfl⟩

/-! ## The whole list -/

theorem addRanges_ok (h : Represents api v S n) (str : List Char) {items : List Item}
    (hlast : lastOf items < indexLimit) :
    ∃ v', (items.map Item.text).foldlM (addRange api str) v = .ok v' ∧
      Represents api v' (fun i => S i ∨ Denotes items i)
        (items.foldl (fun n item => max n (item.last / 8 + 1)) n) := by
  induction items generalizing v S n with
  | nil => exact ⟨v, rfl, h.congr fun i => by simp [Denotes]⟩
  | cons item items ih =>
    have hmax : max item.last (lastOf items) < indexLimit := hlast
    obtain ⟨v₁, hfirst, hrep₁⟩ := addRange_ok h str (Nat.lt_of_le_of_lt (Nat.le_max_left _ _) hmax)
    obtain ⟨v₂, hrest, hrep₂⟩ := ih hrep₁ (Nat.lt_of_le_of_lt (Nat.le_max_right _ _) hmax)
    refine ⟨v₂, ?_, hrep₂.congr fun i => ?_⟩
    · rw [List.map_cons, List.foldlM_cons, hfirst]
      exact hrest
    · simp only [Denotes, List.exists_mem_cons_iff, or_assoc]

theorem addRanges_error (h : Represents api v S n) (str : List Char) {items : List Item}
    (hlast : ¬ lastOf items < indexLimit) : ∃ e, (items.map Item.text).foldlM (addRange api str) v = .error e := by
  induction items generalizing v S n with
  | nil => exact absurd (by decide) hlast
  | cons item items ih =>
    rw [List.map_cons, List.foldlM_cons]
    by_cases hitem : item.last < indexLimit
    · have hrest : ¬ lastOf items < indexLimit := fun hlt => hlast (Nat.max_lt.mpr ⟨hitem, hlt⟩)
      obtain ⟨v₁, hfirst, hrep₁⟩ := addRange_ok h str hitem
      rw [hfirst]
      exact ih hrep₁ hrest
    · obtain ⟨e, he⟩ := addRange_error h str hitem
      rw [he]
      exact ⟨e, rfl⟩

theorem bytes_eq (items : List Item) (hn : 1 ≤ n) :
    items.foldl (fun n item => max n (item.last / 8 + 1)) n = max n (lastOf items / 8 + 1) := by
  induction items generalizing n with
  | nil => exact (Nat.max_eq_left hn).symm
  | cons item items ih =>
    rw [List.foldl_cons, ih (Nat.le_trans hn (Nat.le_max_left _ _))]
    show _ = max n (max item.last (lastOf items) / 8 + 1)
    omega

theorem text_not_mem_comma (item : Item) : ',' ∉ item.text := by
  cases item with
  | number m => exact m.not_mem (by decide)
  | range a b _ =>
    intro h
    rcases List.mem_append.mp h with h | h
    · exact a.not_mem (by decide) h
    · rcases List.mem_cons.mp h with h | h
      · exact absurd h (by decide)
      · exact b.not_mem (by decide) h

theorem splitOn_listText {items : List Item} (hne : items ≠ []) :
    (listText items).splitOn ',' = items.map Item.text := by
  refine List.splitOn_intercalate ',' ?_ (by simpa using hne)
  intro l hl
  obtain ⟨item, -, rfl⟩ := List.mem_map.mp hl
  exact text_not_mem_comma item

/-! ## The bytes -/

/-- Byte `k` has the bits of the numbers from `8 * k` on, the least significant one first. -/
theorem maskBit_toBytes (h : Represents api v S n) {k j : Nat} (hk : k < n) (hj : j < 8) :
    maskBit (api.toBytes v) k j = true ↔ S (8 * k + j) := by
  have hidx : adjustIndex (8 * k + j) = 8 * k + (7 - j) := by
    unfold adjustIndex
    omega
  have hlt : 8 * k + (7 - j) < api.len v := by
    rw [h.len_eq]
    omega
  have hbit := api.bit_toBytes v _ hlt
  have hbyte : (8 * k + (7 - j)) / 8 = k := by omega
  have hmod : (8 * k + (7 - j)) % 8 = 7 - j := by omega
  have hmsb : 8 - 1 - (7 - j) = j := by omega
  rw [hbyte, hmod, BitVec.getMsbD, hmsb, decide_eq_true (by omega : 7 - j < 8), Bool.true_and] at hbit
  rw [maskBit, hbit, ← hidx]
  exact h.bit_iff _ (by omega)

/-- The bytes are the ones of systemd's order, from the last one to the first. -/
theorem maskBit_reverse (h : Represents api v S n) {k j : Nat} (hj : j < 8) :
    maskBit (api.toBytes v).reverse k j = true ↔ k < n ∧ S (8 * (n - 1 - k) + j) := by
  have hlen : (api.toBytes v).length = n := by
    rw [api.length_toBytes, h.len_eq]
    omega
  by_cases hk : k < n
  · rw [← maskBit_toBytes h (by omega) hj, and_iff_right hk, maskBit, maskBit, List.getD_eq_getElem?_getD,
      List.getElem?_reverse (hlen.symm ▸ hk), hlen, List.getD_eq_getElem?_getD]
  · have hout : (api.toBytes v).reverse.length ≤ k := by
      rw [List.length_reverse, hlen]
      exact Nat.le_of_not_lt hk
    have hzero : (0 : BitVec 8).getLsbD j = false := BitVec.getLsbD_zero
    rw [maskBit, List.getD_eq_getElem?_getD, List.getElem?_eq_none hout, Option.getD_none, hzero]
    exact ⟨nofun, fun hS => absurd hS.1 hk⟩

/-! ## The mask and the set -/

section Mask

variable {items : List Item}

theorem tryFrom_ok (api : BitVecs V) (hne : items ≠ []) (hlast : lastOf items < indexLimit) :
    ∃ v, tryFrom api (listText items) = .ok (api.toBytes v).reverse ∧
      Represents api v (Denotes items) (lastOf items / 8 + 1) := by
  obtain ⟨v, hfold, hrep⟩ := addRanges_ok (.start api) (listText items) hlast
  refine ⟨v, ?_, ?_⟩
  · rw [tryFrom, splitOn_listText hne, hfold]
    rfl
  · rw [bytes_eq items (Nat.le_refl 1), Nat.max_eq_right (Nat.le_add_left _ _)] at hrep
    exact hrep.congr fun i => by rw [false_or]

theorem tryFrom_error (api : BitVecs V) (hne : items ≠ []) (hlast : ¬ lastOf items < indexLimit) :
    ∃ e, tryFrom api (listText items) = .error e := by
  obtain ⟨e, hfold⟩ := addRanges_error (.start api) (listText items) hlast
  refine ⟨e, ?_⟩
  rw [tryFrom, splitOn_listText hne, hfold]
  rfl

theorem le_lastOf {i : Nat} (h : Denotes items i) : i ≤ lastOf items := by
  obtain ⟨item, hmem, hi⟩ := h
  have hitem : i ≤ item.last := by
    cases item with
    | number m => exact Nat.le_of_eq hi
    | range a b _ => exact hi.2
  refine Nat.le_trans hitem ?_
  induction items with
  | nil => cases hmem
  | cons head items ih =>
    rcases List.mem_cons.mp hmem with rfl | hmem
    · exact Nat.le_max_left _ _
    · exact Nat.le_trans (ih hmem) (Nat.le_max_right _ _)

/-- The mask is the requested one if and only if its bytes read the same in both directions. -/
theorem bitMask_denotes_iff (api : BitVecs V) (items : List Item) (hne : items ≠ []) :
    (∃ bytes, tryFrom api (listText items) = .ok bytes ∧
        ∀ k j, j < 8 → (maskBit bytes k j = true ↔ Denotes items (8 * k + j))) ↔
      lastOf items < 2 ^ 64 - 8 ∧
        ∀ k j, k ≤ lastOf items / 8 → j < 8 →
          (Denotes items (8 * k + j) ↔ Denotes items (8 * (lastOf items / 8 - k) + j)) := by
  by_cases hlast : lastOf items < indexLimit
  · obtain ⟨v, hok, hrep⟩ := tryFrom_ok api hne hlast
    constructor
    · rintro ⟨bytes, hbytes, hmask⟩
      rw [hok] at hbytes
      cases hbytes
      refine ⟨hlast, fun k j hk hj => ?_⟩
      rw [← hmask k j hj, maskBit_reverse hrep hj]
      exact and_iff_right (Nat.lt_succ_of_le hk)
    · rintro ⟨-, hmirror⟩
      refine ⟨_, hok, fun k j hj => ?_⟩
      rw [maskBit_reverse hrep hj]
      by_cases hk : k ≤ lastOf items / 8
      · rw [hmirror k j hk hj]
        exact and_iff_right (Nat.lt_succ_of_le hk)
      · constructor
        · intro h
          exact absurd (Nat.le_of_lt_succ h.1) hk
        · intro h
          have hle := le_lastOf h
          omega
  · obtain ⟨e, herror⟩ := tryFrom_error api hne hlast
    constructor
    · rintro ⟨bytes, hbytes, -⟩
      rw [herror] at hbytes
      cases hbytes
    · intro h
      exact absurd h.1 hlast

/-- A bit vector as its length and its bits. -/
structure Bits where
  len : Nat
  bit : Nat → Bool

/-- The operations on these. -/
def bits : BitVecs Bits where
  fromElem n b := ⟨n, fun _ => b⟩
  len := Bits.len
  grow v n b := if v.len + n ≤ U64.max then some ⟨v.len + n, fun i => if i < v.len then v.bit i else b⟩ else none
  set v i b := if i < v.len then some ⟨v.len, fun j => if j = i then b else v.bit j⟩ else none
  toBytes v := (List.range ((v.len + 7) / 8)).map fun k => BitVec.ofBoolListBE
    [v.bit (8 * k), v.bit (8 * k + 1), v.bit (8 * k + 2), v.bit (8 * k + 3),
      v.bit (8 * k + 4), v.bit (8 * k + 5), v.bit (8 * k + 6), v.bit (8 * k + 7)]
  bit := Bits.bit
  len_fromElem _ _ := rfl
  bit_fromElem _ _ _ _ := rfl
  grow_isSome v n b := by split <;> simp [*]
  len_grow h := by
    split at h
    · cases h
      rfl
    · cases h
  bit_grow h i _ := by
    split at h
    · cases h
      rfl
    · cases h
  set_isSome v i b := by split <;> simp [*]
  len_set h := by
    split at h
    · cases h
      rfl
    · cases h
  bit_set h j _ := by
    split at h
    · cases h
      rfl
    · cases h
  length_toBytes v := by rw [List.length_map, List.length_range]
  bit_toBytes v i hi := by
    have hbyte : i / 8 < (v.len + 7) / 8 := by omega
    have hi : i = 8 * (i / 8) + i % 8 := (Nat.div_add_mod i 8).symm
    have hmod := Nat.mod_lt i (by decide : 8 > 0)
    rw [List.getD_eq_getElem?_getD, List.getElem?_map, List.getElem?_range hbyte, Option.map_some, Option.getD_some,
      BitVec.getMsbD_ofBoolListBE]
    generalize i / 8 = k, i % 8 = j at hi hmod
    subst hi
    interval_cases j <;> rfl

/-- `2-4`, the range of the source's own test. -/
def twoToFour : List Item := [.range ⟨['2'], by decide, by simp⟩ ⟨['4'], by decide, by simp⟩ (by decide)]

theorem bitMask_of_two_to_four :
    ∃ bytes, tryFrom bits (listText twoToFour) = .ok bytes ∧
      ∀ k j, j < 8 → (maskBit bytes k j = true ↔ Denotes twoToFour (8 * k + j)) := by
  refine (bitMask_denotes_iff bits twoToFour (List.cons_ne_nil _ _)).mpr ⟨by decide, fun k j hk _ => ?_⟩
  have hlast : lastOf twoToFour / 8 = 0 := by decide
  rw [hlast] at hk ⊢
  rw [Nat.le_zero.mp hk]

def onlyEight : List Item := [.number ⟨['8'], by decide, by simp⟩]

theorem not_denotes_onlyEight (api : BitVecs V) :
    ¬ ∃ bytes, tryFrom api (listText onlyEight) = .ok bytes ∧
      ∀ k j, j < 8 → (maskBit bytes k j = true ↔ Denotes onlyEight (8 * k + j)) := by
  rintro ⟨bytes, hbytes, hmask⟩
  have hne : onlyEight ≠ [] := List.cons_ne_nil _ _
  obtain ⟨v, hok, hrep⟩ := tryFrom_ok api hne (by decide)
  rw [hok] at hbytes
  cases hbytes
  have hfirst : maskBit (api.toBytes v).reverse 0 0 = true :=
    (maskBit_reverse hrep (by decide)).mpr ⟨by decide, _, .head _, rfl⟩
  obtain ⟨item, hitem, hzero⟩ := (hmask 0 0 (by decide)).mp hfirst
  cases List.mem_singleton.mp hitem
  have height : (0 : Nat) = 8 := hzero
  cases height

/-- CPU 8 is asked for, and the mask has CPU 0. -/
theorem mask_of_eight :
    tryFrom bits (listText onlyEight) = .ok [1, 0] ∧
      ¬ ∃ bytes, tryFrom bits (listText onlyEight) = .ok bytes ∧
        ∀ k j, j < 8 → (maskBit bytes k j = true ↔ Denotes onlyEight (8 * k + j)) :=
  ⟨by decide +kernel, not_denotes_onlyEight bits⟩

end Mask
end Kata.Cgroups
