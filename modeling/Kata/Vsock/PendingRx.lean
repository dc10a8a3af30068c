import Mathlib.Logic.Basic

/-!
# Kata.Vsock.PendingRx

The set of pending RX indications of a connection (`vsock/csm/mod.rs`), a bit set.

Only the five low bits are ever set, so the set is empty exactly when it contains no indication
(`isEmpty_iff`); with the lemmas on `insert` and `remove` nothing below refers to the bits.
-/

namespace Kata.Vsock

inductive PendingRx where
  | request
  | response
  | rst
  | rw
  | creditUpdate
deriving DecidableEq, Repr

namespace PendingRx

def toNat : PendingRx → Nat
  | .request => 0
  | .response => 1
  | .rst => 2
  | .rw => 3
  | .creditUpdate => 4

def intoMask (it : PendingRx) : BitVec 16 := 1#16 <<< it.toNat

theorem toNat_lt (it : PendingRx) : it.toNat < 5 := by cases it <;> decide

theorem toNat_inj {a b : PendingRx} (h : a.toNat = b.toNat) : a = b := by
  cases a <;> cases b <;> first | rfl | cases h

theorem exists_toNat {i : Nat} (h : i < 5) : ∃ it : PendingRx, it.toNat = i := by
  match i, h with
  | 0, _ => exact ⟨.request, rfl⟩
  | 1, _ => exact ⟨.response, rfl⟩
  | 2, _ => exact ⟨.rst, rfl⟩
  | 3, _ => exact ⟨.rw, rfl⟩
  | 4, _ => exact ⟨.creditUpdate, rfl⟩

theorem getLsbD_intoMask (it : PendingRx) (i : Nat) : it.intoMask.getLsbD i = decide (i = it.toNat) := by
  have hlt := it.toNat_lt
  have htwo : it.intoMask = BitVec.twoPow 16 it.toNat := rfl
  rw [htwo, BitVec.getLsbD_twoPow]
  have h16 : it.toNat < 16 := by omega
  simp [h16, eq_comm]

end PendingRx

structure PendingRxSet where
  data : BitVec 16
  small : ∀ i, 5 ≤ i → data.getLsbD i = false

namespace PendingRxSet

variable (s : PendingRxSet)

def contains (it : PendingRx) : Bool := s.data &&& it.intoMask != 0#16

def isEmpty : Bool := s.data == 0#16

def insert (it : PendingRx) : PendingRxSet where
  data := s.data ||| it.intoMask
  small := by
    intro i hi
    have hlt := it.toNat_lt
    have hne : i ≠ it.toNat := by omega
    simp [s.small i hi, PendingRx.getLsbD_intoMask, hne]

/-- The set after `remove`, whose result is `contains`. -/
def remove (it : PendingRx) : PendingRxSet where
  data := s.data &&& ~~~it.intoMask
  small := by
    intro i hi
    simp [s.small i hi]

/-- `PendingRxSet::from` -/
def single (it : PendingRx) : PendingRxSet where
  data := it.intoMask
  small := by
    intro i hi
    have hlt := it.toNat_lt
    have hne : i ≠ it.toNat := by omega
    simp [PendingRx.getLsbD_intoMask, hne]

theorem contains_eq (it : PendingRx) : s.contains it = s.data.getLsbD it.toNat := by
  have htwo : it.intoMask = BitVec.twoPow 16 it.toNat := rfl
  have hlt := it.toNat_lt
  have hne : BitVec.twoPow 16 it.toNat ≠ 0#16 := by
    intro h
    have hbit := congrArg (fun x => x.getLsbD it.toNat) h
    have h16 : it.toNat < 16 := by omega
    simp [h16] at hbit
  unfold contains
  rw [htwo, BitVec.and_twoPow]
  cases s.data.getLsbD it.toNat with
  | true => simp [hne]
  | false => simp

@[simp] theorem contains_insert (it other : PendingRx) :
    (s.insert it).contains other = (s.contains other || decide (other = it)) := by
  rw [contains_eq, contains_eq]
  simp only [insert, BitVec.getLsbD_or, PendingRx.getLsbD_intoMask]
  congr 1
  simp only [decide_eq_decide]
  exact ⟨PendingRx.toNat_inj, fun h => by rw [h]⟩

@[simp] theorem contains_remove (it other : PendingRx) :
    (s.remove it).contains other = (s.contains other && !decide (other = it)) := by
  have hlt := other.toNat_lt
  have h16 : other.toNat < 16 := by omega
  have hiff : other.toNat = it.toNat ↔ other = it := ⟨PendingRx.toNat_inj, fun h => by rw [h]⟩
  rw [contains_eq, contains_eq]
  simp only [remove, BitVec.getLsbD_and, BitVec.getLsbD_not, PendingRx.getLsbD_intoMask, h16, hiff,
    decide_true, Bool.true_and]

@[simp] theorem contains_single (it other : PendingRx) : (single it).contains other = decide (other = it) := by
  rw [contains_eq]
  simp only [single, PendingRx.getLsbD_intoMask, decide_eq_decide]
  exact ⟨PendingRx.toNat_inj, fun h => by rw [h]⟩

theorem isEmpty_iff : s.isEmpty = true ↔ ∀ it, s.contains it = false := by
  constructor
  · intro h it
    have hz : s.data = 0#16 := by simpa [isEmpty] using h
    rw [contains_eq, hz]
    simp
  · intro h
    have hz : s.data = 0#16 := by
      refine BitVec.eq_of_getLsbD_eq ?_
      intro i _
      by_cases hi : i < 5
      · obtain ⟨it, hit⟩ := PendingRx.exists_toNat hi
        have hc := h it
        rw [contains_eq, hit] at hc
        simpa using hc
      · simpa using s.small i (by omega)
    simp [isEmpty, hz]

/-- Only indications that do not belong to the handshake have been added. -/
structure Grown (s s' : PendingRxSet) : Prop where
  mono : ∀ it, s.contains it = true → s'.contains it = true
  request : s'.contains .request = s.contains .request
  response : s'.contains .response = s.contains .response

theorem Grown.refl : Grown s s := ⟨fun _ h => h, rfl, rfl⟩

theorem Grown.trans {s s' s'' : PendingRxSet} (h : Grown s s') (h' : Grown s' s'') : Grown s s'' :=
  ⟨fun it hit => h'.mono it (h.mono it hit), h'.request.trans h.request,
    h'.response.trans h.response⟩

theorem Grown.insert {s s' : PendingRxSet} (h : Grown s s') {it : PendingRx} (hreq : it ≠ .request)
    (hres : it ≠ .response) : Grown s (s'.insert it) := by
  refine ⟨?_, ?_, ?_⟩
  · intro other ho
    simp [h.mono other ho]
  · simp [h.request, hreq.symm]
  · simp [h.response, hres.symm]

end PendingRxSet
end Kata.Vsock
