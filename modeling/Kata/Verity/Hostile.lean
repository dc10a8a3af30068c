import Kata.Verity.DmTarget

/-!
# Kata.Verity.Hostile

`prepare_dm_target` on a device with any content.

The block sizes are not checked, and only the end of the data is compared with the size of the
device. `prepareDmTarget_safe_iff` says for which devices the agent does not panic and names areas
that do not overlap.
-/

namespace Kata.Verity

open Lib

structure VerityArea where
  dataBlockSize : Nat
  hashBlockSize : Nat
  blocks : Nat
  hashStart : Nat

/-- What the device names in its last block. -/
def superBlockOf (file : Bytes) : SuperBlock :=
  SuperBlock.ofBytes ((((file.drop (file.length - 4096)).take 4096).drop (4096 - 512)).take 16)

def SuperBlock.dataSize (sb : SuperBlock) : Nat := sb.dataBlockCount * sb.dataBlockSize

def hashStartOf (checks : Bool) (dataSize hashBlockSize : Nat) : Except DmError Nat := do
  let sum ← U64.add checks .overflow dataSize hashBlockSize
  let sum ← U64.sub checks .overflow sum 1
  divU64 sum hashBlockSize

/-- The numbers of `prepareDmTarget`, for a device of the given size. -/
def verityArea (checks : Bool) (path : String) (size : Nat) (sb : SuperBlock) : Except DmError VerityArea := do
  if size < 4096 then .error (.message s!"Block device ({path}) is too small: {size}")
  else if U64.max < sb.dataSize then .error (.message "Invalid data size")
  else if size < sb.dataSize then
    .error (.message s!"Data size ({sb.dataSize}) is greater than device size ({size}) for device {path}")
  else
    let blocks ← divU64 sb.dataSize sb.dataBlockSize
    let hashStart ← hashStartOf checks sb.dataSize sb.hashBlockSize
    return ⟨sb.dataBlockSize, sb.hashBlockSize, blocks, hashStart⟩

def VerityArea.target (path hash : String) (a : VerityArea) : Nat × Nat × String × String :=
  (0, a.blocks * a.dataBlockSize / 512, "verity", verityParams path hash a.dataBlockSize
    a.hashBlockSize a.blocks a.hashStart)

/-- The function returns, and the areas it names are inside the device, the hash area behind the
data. -/
def Safe (size : Nat) : Except DmError VerityArea → Prop
  | .error e => ∃ text, e = .message text
  | .ok a => a.blocks * a.dataBlockSize ≤ size ∧ a.blocks * a.dataBlockSize ≤ a.hashStart * a.hashBlockSize ∧
      a.hashStart * a.hashBlockSize < size

/-- The device is refused. -/
def Refused (size : Nat) (sb : SuperBlock) : Prop := size < 4096 ∨ U64.max < sb.dataSize ∨ size < sb.dataSize

/-- The block sizes are not 0, and the data, rounded up to whole hash blocks, ends before the
device. The sum of data size and hash block size may wrap around to 0 where that is not checked. -/
def Separate (checks : Bool) (size : Nat) (sb : SuperBlock) : Prop :=
  sb.dataBlockSize ≠ 0 ∧ sb.hashBlockSize ≠ 0 ∧
    (sb.dataSize + sb.hashBlockSize ≤ U64.max ∨ checks = false ∧ sb.dataSize + sb.hashBlockSize = 2 ^ 64) ∧
    (sb.dataSize + sb.hashBlockSize - 1) / sb.hashBlockSize * sb.hashBlockSize < size

variable {checks : Bool} {path hash : String} {file : Bytes} {dataSize size h : Nat} {sb : SuperBlock} {e : DmError}

theorem divU64_dataSize (sb : SuperBlock) (hd : sb.dataBlockSize ≠ 0) :
    divU64 sb.dataSize sb.dataBlockSize = .ok sb.dataBlockCount := by
  rw [divU64, if_neg hd, SuperBlock.dataSize, Nat.mul_div_cancel _ (Nat.pos_of_ne_zero hd)]

theorem hashBlockSize_lt (bytes : Bytes) : (SuperBlock.ofBytes bytes).hashBlockSize < 2 ^ 32 := by
  have hlen : ((bytes.drop 4).take 4).length ≤ 4 := List.length_take_le _ _
  exact Nat.lt_of_lt_of_le (ofLeBytes_lt _) (Nat.pow_le_pow_right (by decide) hlen)

theorem prepareDmTarget_eq : prepareDmTarget checks path hash file =
    (verityArea checks path file.length (superBlockOf file)).map (·.target path hash) := by
  unfold prepareDmTarget verityArea superBlockOf
  dsimp only
  generalize SuperBlock.ofBytes _ = sb
  generalize file.length = size
  rw [← SuperBlock.dataSize]
  by_cases hsmall : size < 4096
  · rw [if_pos hsmall, if_pos hsmall, Except.map]
  rw [if_neg hsmall, if_neg hsmall]
  by_cases hbig : U64.max < sb.dataSize
  · rw [if_pos hbig, if_pos hbig, Except.map]
  rw [if_neg hbig, if_neg hbig]
  by_cases hgreater : size < sb.dataSize
  · rw [if_pos hgreater, if_pos hgreater, Except.map]
  rw [if_neg hgreater, if_neg hgreater]
  by_cases hd : sb.dataBlockSize = 0
  · rw [divU64, if_pos hd]
    rfl
  · rw [divU64_dataSize _ hd, hashStartOf, ok_bind, ok_bind]
    cases U64.add checks DmError.overflow sb.dataSize sb.hashBlockSize with
    | error e => rfl
    | ok sum =>
      rw [ok_bind, ok_bind]
      cases U64.sub checks DmError.overflow sum 1 with
      | error e => rfl
      | ok sum =>
        rw [ok_bind, ok_bind]
        cases divU64 sum sb.hashBlockSize with
        | error e => rfl
        | ok start => rfl

theorem hashStartOf_error (herror : hashStartOf checks dataSize h = .error e) (text : String) :
    e ≠ .message text := by
  have hends : Ends (fun _ => True) (· ≠ DmError.message text) (hashStartOf checks dataSize h) := by
    refine (U64.add_ends nofun).bind fun sum _ => (U64.sub_ends nofun).bind fun sum _ => ?_
    exact .ite (fun _ => .of_error nofun) fun _ => .of_ok trivial
  exact hends.error e herror

theorem hashStartOf_iff (hh : h < 2 ^ 32) (hsize : dataSize ≤ U64.max) :
    (∃ start, hashStartOf checks dataSize h = .ok start ∧ dataSize ≤ start * h ∧ start * h < size) ↔
      h ≠ 0 ∧ (dataSize + h ≤ U64.max ∨ checks = false ∧ dataSize + h = 2 ^ 64) ∧
        (dataSize + h - 1) / h * h < size := by
  by_cases h0 : h = 0
  · refine iff_of_false ?_ fun hsep => hsep.1 h0
    rintro ⟨start, hok, -⟩
    obtain ⟨_, -, hok⟩ := bind_eq_ok.mp hok
    obtain ⟨_, -, hok⟩ := bind_eq_ok.mp hok
    rw [divU64, if_pos h0] at hok
    cases hok
  have hround : dataSize ≤ (dataSize + h - 1) / h * h := by
    have hdiv := Nat.div_add_mod (dataSize + h - 1) h
    have hmod := Nat.mod_lt (dataSize + h - 1) (Nat.pos_of_ne_zero h0)
    rw [Nat.mul_comm] at hdiv
    omega
  have hmax : U64.max + 1 = 2 ^ 64 := by decide
  by_cases hfit : dataSize + h ≤ U64.max ∨ checks = false ∧ dataSize + h = 2 ^ 64
  · -- the sum may wrap around and come back
    have hstart : hashStartOf checks dataSize h = .ok ((dataSize + h - 1) / h) := by
      rcases hfit with hfit | ⟨rfl, hwrap⟩
      · rw [hashStartOf, U64.add_of_le hfit, ok_bind, U64.sub_of_le (by omega), ok_bind, divU64, if_neg h0]
      · have hadd : U64.add false DmError.overflow dataSize h = .ok 0 := U64.add_eq_ok_iff.mpr ⟨by simp, by omega⟩
        rw [hashStartOf, hadd, hwrap]
        exact if_neg h0
    rw [hstart, and_iff_right h0, and_iff_right hfit]
    simp [hround]
  · refine ⟨?_, fun hsep => absurd hsep.2.1 hfit⟩
    rintro ⟨start, hok, hle, -⟩
    obtain ⟨sum, hadd, hrest⟩ := bind_eq_ok.mp hok
    obtain ⟨hchecks, rfl⟩ := U64.add_eq_ok_iff.mp hadd
    cases checks with
    | true => exact absurd (.inl (hchecks rfl)) hfit
    | false =>
      simp only [not_or, true_and] at hfit
      rw [U64.sub_of_le (by omega), ok_bind, divU64, if_neg h0, Nat.div_eq_of_lt (by omega)] at hrest
      cases hrest
      omega

theorem safe_iff (hh : sb.hashBlockSize < 2 ^ 32) :
    Safe size (verityArea checks path size sb) ↔ Refused size sb ∨ Separate checks size sb := by
  rw [verityArea]
  by_cases hsmall : size < 4096
  · rw [if_pos hsmall]
    exact iff_of_true ⟨_, rfl⟩ (.inl (.inl hsmall))
  rw [if_neg hsmall]
  by_cases hbig : U64.max < sb.dataSize
  · rw [if_pos hbig]
    exact iff_of_true ⟨_, rfl⟩ (.inl (.inr (.inl hbig)))
  rw [if_neg hbig]
  by_cases hgreater : size < sb.dataSize
  · rw [if_pos hgreater]
    exact iff_of_true ⟨_, rfl⟩ (.inl (.inr (.inr hgreater)))
  rw [if_neg hgreater]
  have haccepted : ¬ Refused size sb := by simp only [Refused, hsmall, hbig, hgreater, or_self, not_false_eq_true]
  rw [or_iff_right haccepted, Separate]
  by_cases hd : sb.dataBlockSize = 0
  · rw [divU64, if_pos hd]
    exact iff_of_false (by rintro ⟨_, ⟨⟩⟩) fun hsep => hsep.1 hd
  rw [divU64_dataSize sb hd, ok_bind, and_iff_right hd, ← hashStartOf_iff hh (Nat.le_of_not_lt hbig)]
  cases hstart : hashStartOf checks sb.dataSize sb.hashBlockSize with
  | error e => exact iff_of_false (by rintro ⟨text, htext⟩; exact hashStartOf_error hstart text htext) (by simp)
  | ok start =>
    show sb.dataSize ≤ size ∧ sb.dataSize ≤ start * sb.hashBlockSize ∧ start * sb.hashBlockSize < size ↔ _
    simp [Nat.le_of_not_lt hgreater]

theorem prepareDmTarget_safe_iff (checks : Bool) (path hash : String) (file : Bytes) :
    prepareDmTarget checks path hash file =
      (verityArea checks path file.length (superBlockOf file)).map (·.target path hash) ∧
    (Safe file.length (verityArea checks path file.length (superBlockOf file)) ↔
      Refused file.length (superBlockOf file) ∨ Separate checks file.length (superBlockOf file)) := by
  exact ⟨prepareDmTarget_eq, safe_iff (hashBlockSize_lt _)⟩

/-- A device of zeros has blocks of size 0. -/
theorem zeros_panic : prepareDmTarget true "/dev/vda" "c0" (List.replicate 4096 0) = .error .divisionByZero ∧
    ¬ Safe 4096 (verityArea true "/dev/vda" 4096 (superBlockOf (List.replicate 4096 0))) := by
  have hsb : superBlockOf (List.replicate 4096 0) = ⟨0, 0, 0⟩ := by
    simp only [superBlockOf, List.length_replicate, List.drop_replicate, List.take_replicate]
    decide
  have harea : verityArea true "/dev/vda" 4096 ⟨0, 0, 0⟩ = .error .divisionByZero := by
    simp [verityArea, SuperBlock.dataSize, divU64]
  rw [prepareDmTarget_eq, List.length_replicate, hsb, harea]
  exact ⟨rfl, by rintro ⟨_, ⟨⟩⟩⟩

end Kata.Verity
