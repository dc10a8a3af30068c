import Mathlib.Data.List.Basic

/-!
# Kata.Lib.Decimal

Decimal numbers in text, as a parser for unsigned machine integers reads them: digits with an
optional plus sign, and an error for an empty text, for another character and for a number above
`max`. `parse_numeral` says what it makes of a numeral.
-/

namespace Lib

inductive ParseIntError where
  | empty
  | invalidDigit
  | posOverflow
deriving DecidableEq

def digitValue (c : Char) : Nat := c.toNat - '0'.toNat

def parseDigits (max : Nat) : Nat → List Char → Except ParseIntError Nat
  | acc, [] => .ok acc
  | acc, c :: cs =>
    if !c.isDigit then .error .invalidDigit
    else if acc * 10 + digitValue c ≤ max then parseDigits max (acc * 10 + digitValue c) cs
    else .error .posOverflow

def parse (max : Nat) : List Char → Except ParseIntError Nat
  | [] => .error .empty
  | c :: cs =>
    if (c = '+' ∨ c = '-') ∧ cs = [] then .error .invalidDigit
    else if c = '+' then parseDigits max 0 cs
    else parseDigits max 0 (c :: cs)

structure Numeral where
  digits : List Char
  ne_nil : digits ≠ []
  isDigit : ∀ c ∈ digits, c.isDigit = true

/-- The value of digits that stand after a number. -/
def valueFrom (acc : Nat) (cs : List Char) : Nat := cs.foldl (fun acc c => acc * 10 + digitValue c) acc

def Numeral.value (n : Numeral) : Nat := valueFrom 0 n.digits

variable {max acc : Nat} {cs : List Char}

theorem le_valueFrom : acc ≤ valueFrom acc cs := by
  induction cs generalizing acc with
  | nil => exact Nat.le_refl _
  | cons c cs ih =>
    have hle : acc * 10 + digitValue c ≤ valueFrom acc (c :: cs) := ih
    omega

theorem parseDigits_eq (hcs : ∀ c ∈ cs, c.isDigit = true) (hacc : acc ≤ max) :
    parseDigits max acc cs = if valueFrom acc cs ≤ max then .ok (valueFrom acc cs) else .error .posOverflow := by
  induction cs generalizing acc with
  | nil => exact (if_pos hacc).symm
  | cons c cs ih =>
    have hc : (!c.isDigit) = false := by rw [hcs c (.head _)]; rfl
    have hvalue : valueFrom acc (c :: cs) = valueFrom (acc * 10 + digitValue c) cs := rfl
    rw [parseDigits, hc, if_neg Bool.false_ne_true, hvalue]
    by_cases hle : acc * 10 + digitValue c ≤ max
    · rw [if_pos hle]
      exact ih (fun d hd => hcs d (.tail _ hd)) hle
    · have hgt : ¬ valueFrom (acc * 10 + digitValue c) cs ≤ max := fun h => hle (Nat.le_trans le_valueFrom h)
      rw [if_neg hle, if_neg hgt]

theorem Numeral.not_mem (n : Numeral) {c : Char} (hc : c.isDigit = false) : c ∉ n.digits := by
  intro hmem
  rw [n.isDigit c hmem] at hc
  cases hc

theorem parse_numeral (n : Numeral) :
    parse max n.digits = if n.value ≤ max then .ok n.value else .error .posOverflow := by
  have hplus := n.not_mem (c := '+') (by decide)
  have hminus := n.not_mem (c := '-') (by decide)
  rw [Numeral.value, ← parseDigits_eq n.isDigit (Nat.zero_le max)]
  cases hdigits : n.digits with
  | nil => exact absurd hdigits n.ne_nil
  | cons c cs =>
    rw [hdigits] at hplus hminus
    have hc : c ≠ '+' := fun h => hplus (h ▸ .head _)
    have hc' : c ≠ '-' := fun h => hminus (h ▸ .head _)
    rw [parse, if_neg fun h => h.1.elim hc hc', if_neg hc]

end Lib
