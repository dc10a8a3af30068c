import Kata.Lib.Outcome

/-!
# Kata.Lib.U64

Arithmetic of 64 bit words, as naturals. On overflow an operation either stops with an error or
wraps around, as the build setting `checks` says; the error is that of the program. Each operation
has one lemma for operands that fit and one for whatever it returns.
-/

namespace Lib
namespace U64

def max : Nat := 2 ^ 64 - 1

variable {ε : Type}

def add (checks : Bool) (overflow : ε) (a b : Nat) : Except ε Nat :=
  if a + b ≤ max then .ok (a + b)
  else if checks then .error overflow
  else .ok ((a + b) % 2 ^ 64)

def sub (checks : Bool) (overflow : ε) (a b : Nat) : Except ε Nat :=
  if b ≤ a then .ok (a - b)
  else if checks then .error overflow
  else .ok (2 ^ 64 + a - b)

def mul (checks : Bool) (overflow : ε) (a b : Nat) : Except ε Nat :=
  if a * b ≤ max then .ok (a * b)
  else if checks then .error overflow
  else .ok (a * b % 2 ^ 64)

variable {checks : Bool} {overflow : ε} {a b c : Nat}

theorem add_of_le (h : a + b ≤ max) : add checks overflow a b = .ok (a + b) := if_pos h

theorem sub_of_le (h : b ≤ a) : sub checks overflow a b = .ok (a - b) := if_pos h

theorem mul_of_le (h : a * b ≤ max) : mul checks overflow a b = .ok (a * b) := if_pos h

theorem mod_le_max (n : Nat) : n % 2 ^ 64 ≤ max := Nat.le_of_lt_succ (Nat.mod_lt _ (by decide))

theorem add_eq_ok (h : add checks overflow a b = .ok c) :
    (a + b ≤ max ∧ c = a + b) ∨ (max < a + b ∧ c = (a + b) % 2 ^ 64) := by
  unfold add at h
  split at h
  · rename_i hle
    cases h
    exact .inl ⟨hle, rfl⟩
  · rename_i hgt
    split at h
    · cases h
    · cases h
      exact .inr ⟨Nat.lt_of_not_le hgt, rfl⟩

theorem add_eq_error {e : ε} (h : add checks overflow a b = .error e) : max < a + b := by
  unfold add at h
  split at h
  · cases h
  · rename_i hgt
    exact Nat.lt_of_not_le hgt

theorem mod_of_le_max (h : a ≤ max) : a % 2 ^ 64 = a := Nat.mod_eq_of_lt (Nat.lt_succ_of_le h)

/-- Whatever is returned is what the word holds of the result. -/
theorem word_eq_ok_iff {n : Nat} :
    (if n ≤ max then .ok n else if checks then .error overflow else .ok (n % 2 ^ 64) : Except ε Nat) = .ok c ↔
      (checks = true → n ≤ max) ∧ c = n % 2 ^ 64 := by
  by_cases h : n ≤ max
  · rw [if_pos h, mod_of_le_max h, Except.ok.injEq]
    exact ⟨fun heq => ⟨fun _ => h, heq.symm⟩, fun heq => heq.2.symm⟩
  · rw [if_neg h]
    cases checks with
    | true => exact ⟨nofun, fun heq => absurd (heq.1 rfl) h⟩
    | false =>
      rw [if_neg Bool.false_ne_true, Except.ok.injEq]
      exact ⟨fun heq => ⟨nofun, heq.symm⟩, fun heq => heq.2.symm⟩

theorem checked_iff {n : Nat} : (true = true → n ≤ max) ∧ c = n % 2 ^ 64 ↔ n ≤ max ∧ c = n := by
  constructor
  · rintro ⟨h, rfl⟩
    exact ⟨h rfl, mod_of_le_max (h rfl)⟩
  · rintro ⟨h, rfl⟩
    exact ⟨fun _ => h, (mod_of_le_max h).symm⟩

theorem add_eq_ok_iff : add checks overflow a b = .ok c ↔ (checks = true → a + b ≤ max) ∧ c = (a + b) % 2 ^ 64 :=
  word_eq_ok_iff

theorem mul_eq_ok_iff : mul checks overflow a b = .ok c ↔ (checks = true → a * b ≤ max) ∧ c = a * b % 2 ^ 64 :=
  word_eq_ok_iff

theorem add_checked_eq_ok : add true overflow a b = .ok c ↔ a + b ≤ max ∧ c = a + b := add_eq_ok_iff.trans checked_iff

theorem mul_checked_eq_ok : mul true overflow a b = .ok c ↔ a * b ≤ max ∧ c = a * b := mul_eq_ok_iff.trans checked_iff

theorem add_le (h : add checks overflow a b = .ok c) : c ≤ a + b := by
  rcases add_eq_ok h with ⟨_, rfl⟩ | ⟨_, rfl⟩
  · exact Nat.le_refl _
  · exact Nat.mod_le _ _

theorem add_le_max (h : add checks overflow a b = .ok c) : c ≤ max := by
  rcases add_eq_ok h with ⟨hle, rfl⟩ | ⟨_, rfl⟩
  · exact hle
  · exact mod_le_max _

theorem sub_le_max (ha : a ≤ max) (h : sub checks overflow a b = .ok c) : c ≤ max := by
  unfold sub at h
  split at h
  · cases h
    exact Nat.le_trans (Nat.sub_le _ _) ha
  · split at h
    · cases h
    · cases h
      unfold max at *
      omega

theorem mul_le (h : mul checks overflow a b = .ok c) : c ≤ a * b := by
  unfold mul at h
  split at h
  · cases h
    exact Nat.le_refl _
  · split at h
    · cases h
    · cases h
      exact Nat.mod_le _ _

theorem toNat_toUInt64 {s : Int64} (h : 0 < s) : s.toUInt64.toNat = s.toInt.toNat := by
  have hs : 0 < s.toBitVec.toInt := Int64.lt_iff_toInt_lt.mp h
  show s.toBitVec.toNat = s.toBitVec.toInt.toNat
  rw [BitVec.toInt_eq_toNat_cond] at hs ⊢
  split at hs <;> omega

/-! The only error is the overflow. -/

section Ends

variable {E : ε → Prop}

theorem add_ends (h : E overflow) : Ends (fun _ => True) E (add checks overflow a b) :=
  .ite (fun _ => .of_ok trivial) fun _ => .ite (fun _ => .of_error h) fun _ => .of_ok trivial

theorem sub_ends (h : E overflow) : Ends (fun _ => True) E (sub checks overflow a b) :=
  .ite (fun _ => .of_ok trivial) fun _ => .ite (fun _ => .of_error h) fun _ => .of_ok trivial

theorem mul_ends (h : E overflow) : Ends (fun _ => True) E (mul checks overflow a b) :=
  .ite (fun _ => .of_ok trivial) fun _ => .ite (fun _ => .of_error h) fun _ => .of_ok trivial

end Ends

end U64
end Lib
