import Mathlib.Tactic.Ring

/-!
# Kata.Lib.Credit

Credit-based flow control between a sender and a receiver with a buffer, over channels that delay
but keep the order. The receiver reports how much it has forwarded; the sender never has more than
the window between what it has sent and the latest report.

`Sound` is kept by every step (`Sound.step`) and implies that what the receiver holds and what is
still on its way fit in the window (`Sound.held_le`), however late the reports arrive.
-/

namespace Lib

/-- `data` are the sizes of the packets on their way, `acks` the reports on their way back, both
with the next to arrive first. -/
structure Credit where
  sent : Nat
  seen : Nat
  data : List Nat
  acks : List Nat
  held : Nat
  forwarded : Nat

namespace Credit

/-- The receiver may drop data, so it ends up with at most what has arrived. -/
inductive Step (window : Nat) (s : Credit) : Credit → Prop where
  | send {n : Nat} : n + (s.sent - s.seen) ≤ window →
      Step window s { s with sent := s.sent + n, data := s.data ++ [n] }
  | receive {n held forwarded : Nat} {rest : List Nat} : s.data = n :: rest →
      s.forwarded ≤ forwarded → forwarded + held ≤ s.forwarded + s.held + n →
      Step window s { s with data := rest, held := held, forwarded := forwarded }
  | forward {held forwarded : Nat} : s.forwarded ≤ forwarded →
      forwarded + held ≤ s.forwarded + s.held →
      Step window s { s with held := held, forwarded := forwarded }
  | ack : Step window s { s with acks := s.acks ++ [s.forwarded] }
  | learn {n : Nat} {rest : List Nat} : s.acks = n :: rest →
      Step window s { s with acks := rest, seen := n }

structure Sound (window : Nat) (s : Credit) : Prop where
  ordered : (s.seen :: s.acks).Pairwise (· ≤ ·)
  acked : ∀ n ∈ s.seen :: s.acks, n ≤ s.forwarded
  arrived : s.forwarded + s.held + s.data.sum ≤ s.sent
  limited : s.sent ≤ s.seen + window

variable {window : Nat} {s s' : Credit}

theorem Sound.init : Sound window ⟨0, 0, [], [], 0, 0⟩ := by
  refine ⟨by simp, by simp, by simp, Nat.zero_le _⟩

theorem Sound.seen_le (h : Sound window s) : s.seen ≤ s.forwarded := h.acked s.seen List.mem_cons_self

theorem Sound.held_le (h : Sound window s) : s.held + s.data.sum ≤ window := by
  have hseen := h.seen_le
  have harrived := h.arrived
  have hlimited := h.limited
  omega

theorem Sound.seen_le_sent (h : Sound window s) : s.seen ≤ s.sent := by
  have hseen := h.seen_le
  have harrived := h.arrived
  omega

theorem Sound.step (h : Sound window s) (hs : Step window s s') : Sound window s' := by
  have hsent := h.seen_le_sent
  have hlimited := h.limited
  cases hs with
  | send hn =>
    have harrived := h.arrived
    refine ⟨h.ordered, h.acked, ?_, ?_⟩
    · simp only [List.sum_append, List.sum_singleton]
      omega
    · dsimp only
      omega
  | receive hd hf hle =>
    have harrived := h.arrived
    rw [hd, List.sum_cons] at harrived
    refine ⟨h.ordered, ?_, ?_, hlimited⟩
    · intro n hn
      exact Nat.le_trans (h.acked n hn) hf
    · dsimp only
      omega
  | forward hf hle =>
    have harrived := h.arrived
    refine ⟨h.ordered, ?_, ?_, hlimited⟩
    · intro n hn
      exact Nat.le_trans (h.acked n hn) hf
    · dsimp only
      omega
  | ack =>
    -- the new report is the latest one
    refine ⟨?_, ?_, h.arrived, hlimited⟩
    · rw [← List.cons_append]
      refine List.pairwise_append.mpr ⟨h.ordered, by simp, ?_⟩
      intro n hn m hm
      rw [List.mem_singleton.mp hm]
      exact h.acked n hn
    · intro n hn
      rw [← List.cons_append, List.mem_append, List.mem_singleton] at hn
      cases hn with
      | inl hold => exact h.acked n hold
      | inr hnew => exact Nat.le_of_eq hnew
  | learn ha =>
    have hord := h.ordered
    have hacked := h.acked
    rw [ha] at hord hacked
    have htail := (List.pairwise_cons.mp hord)
    have hnew := htail.1 _ List.mem_cons_self
    refine ⟨htail.2, ?_, h.arrived, ?_⟩
    · intro n hn
      exact hacked n (List.mem_cons_of_mem _ hn)
    · dsimp only
      omega

end Credit
end Lib
