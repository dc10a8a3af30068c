import Kata.Lib.Runs
import Kata.Vsock.Connection

/-!
# Kata.Vsock.Shutdown

Can a connection that the guest has fully shut down be reaped? `Reapable` asks for a pending RST, or
for data that still has to be flushed together with an armed kill timer.

The two branches of `send_pkt` for SHUTDOWN packets differ: only the first arms the timer. So a
connection stays reapable through a run exactly when no later SHUTDOWN packet completes the shutdown
with data in the buffer and the timer unarmed, and its RST has not been handed out
(`reapable_always_iff`).
-/

namespace Kata.Vsock.VsockConnection

open Lib

def Reapable (c : VsockConnection) : Prop :=
  c.state = .peerClosed true true →
    c.pendingRx.contains .rst = true ∨ (c.txBuf.isEmpty = false ∧ c.expiry ≠ none)

/-- A SHUTDOWN packet after which both flags are set, for a connection that has seen one before. -/
def completesShutdown (c : VsockConnection) (p : TxPacket) : Bool :=
  match c.state with
  | .peerClosed recvOff sendOff =>
    p.op == opShutdown && (recvOff || p.recvOff) && (sendOff || p.sendOff)
  | _ => false

/-- The condition on a call: a shutdown is completed with an empty buffer or an armed timer, and the
RST of a connection that is shut down is not handed out. -/
def KeepsReapable (c : VsockConnection) : Call → Prop
  | .sendPkt p _ => c.completesShutdown p = true → c.txBuf.isEmpty = false → c.expiry ≠ none
  | .recvPkt _ _ => ¬ (c.state = .peerClosed true true ∧ c.pendingRx.contains .rst = true)
  | .notify _ => True

instance (c : VsockConnection) : (a : Call) → Decidable (c.KeepsReapable a)
  | .sendPkt _ _ => inferInstanceAs (Decidable (_ → _ → _))
  | .recvPkt _ _ => inferInstanceAs (Decidable (¬ (_ ∧ _)))
  | .notify _ => inferInstanceAs (Decidable True)

/-- An RST is only pending for a connection that is killed or that is shut down and drained. -/
def RstJustified (c : VsockConnection) : Prop :=
  c.pendingRx.contains .rst = true →
    c.state = .killed ∨ (c.state = .peerClosed true true ∧ c.txBuf.isEmpty = true)

variable {c c' : VsockConnection}

theorem RstJustified.not_pending (h : c.RstJustified) (hk : c.state ≠ .killed)
    (ht : c.state ≠ .peerClosed true true) : c.pendingRx.contains .rst = false := by
  refine Bool.eq_false_of_not_eq_true fun hrst => ?_
  cases h hrst with
  | inl h => exact hk h
  | inr h => exact ht h.1

theorem justified_of_not_pending (h : c.pendingRx.contains .rst = false) : c.RstJustified := by
  intro hrst
  rw [h] at hrst
  cases hrst

variable {p : TxPacket}

theorem state_of_consumes (h : c.consumes p = true) : c.state ≠ .killed ∧ c.state ≠ .peerClosed true true := by
  constructor <;> intro hstate <;> simp [consumes, hstate, ConnState.fromPeer] at h

variable {now : Nat}

theorem SendStep.rstJustified (hs : SendStep c p now c') (h : c.RstJustified) : c'.RstJustified := by
  cases hs with
  | data hc _ hr =>
    obtain ⟨hk, ht⟩ := state_of_consumes hc
    have hnot := h.not_pending hk ht
    refine justified_of_not_pending ?_
    cases hr with
    | inl hr => rw [hr, hnot]
    | inr hr => simp [hr, hnot]
  | failed => exact fun _ => .inl rfl
  | response _ hstate =>
    refine justified_of_not_pending ?_
    exact h.not_pending (by simp [hstate]) (by simp [hstate])
  | shutdown _ hstate =>
    have hnot := h.not_pending (by simp [hstate]) (by simp [hstate])
    intro hrst
    dsimp only at hrst ⊢
    split at hrst
    · rename_i hall
      simp only [Bool.and_eq_true] at hall
      exact .inr ⟨by rw [hall.1.1, hall.1.2], hall.2⟩
    · rw [hnot] at hrst
      cases hrst
  | moreShutdown _ hstate =>
    intro hrst
    dsimp only at hrst ⊢
    split at hrst
    · rename_i hall
      simp only [Bool.and_eq_true] at hall
      exact .inr ⟨by rw [hall.1.1, hall.1.2], hall.2⟩
    · cases h hrst with
      | inl hk => rw [hstate] at hk; cases hk
      | inr ht =>
        rw [hstate] at ht
        cases ht.1
        exact .inr ⟨rfl, ht.2⟩
  | creditRequest =>
    intro hrst
    exact h (by simpa using hrst)
  | dropped => exact h

theorem RecvStep.rst_taken {result : Except VsockError Unit} {pkt : VsockPacket}
    (hs : RecvStep c now result pkt c') : c'.pendingRx.contains .rst = false := by
  cases hs with
  | rst => simp
  | response h | request h | invalid h | creditRequest h | bufMissing h | closed h | data h | readError h => simp [h]
  | creditUpdate h hd | noData h hd => cases hd <;> simp [h]

theorem NotifyStep.rstJustified (hs : NotifyStep c c') (h : c.RstJustified) : c'.RstJustified := by
  cases hs with
  | noFlush _ hrst =>
    intro hr
    exact h (hrst ▸ hr)
  | flushed hne _ _ hrst =>
    intro hr
    cases hrst.mp hr with
    | inl hold =>
      cases h hold with
      | inl hk => exact .inl hk
      | inr ht => rw [ht.2] at hne; cases hne
    | inr ht => exact .inr ht
  | failed => exact fun _ => .inl rfl

theorem rstJustified_call (c : VsockConnection) (a : Call) (h : c.RstJustified) : (c.call a).RstJustified := by
  cases a with
  | sendPkt p now => exact (sendPkt_step c p now).rstJustified h
  | recvPkt pkt now => exact justified_of_not_pending (recvPkt_step c pkt now).rst_taken
  | notify evset => exact (notify_step c evset).rstJustified h

theorem completesShutdown_eq_false (h : p.op = opShutdown → ∀ recvOff sendOff,
      c.state ≠ .peerClosed recvOff sendOff) :
    c.completesShutdown p = false := by
  unfold completesShutdown
  split
  · rename_i recvOff sendOff hstate
    have hop : p.op ≠ opShutdown := fun hop => h hop recvOff sendOff hstate
    simp [hop]
  · rfl

theorem reapable_of_state (h : c.state ≠ .peerClosed true true) : c.Reapable := fun h' => absurd h' h

/-- A further SHUTDOWN packet keeps the connection reapable exactly if the timer is armed where data
is left. -/
theorem reapable_moreShutdown_iff {recvOff sendOff : Bool} (hj : c.RstJustified)
    (hstate : c.state = .peerClosed recvOff sendOff) (hop : p.op = opShutdown) :
    Reapable
        { c with
          state := .peerClosed (recvOff || p.recvOff) (sendOff || p.sendOff)
          pendingRx := if (recvOff || p.recvOff) && (sendOff || p.sendOff) && c.txBuf.isEmpty then
            c.pendingRx.insert .rst else c.pendingRx } ↔
      (c.completesShutdown p = true → c.txBuf.isEmpty = false → c.expiry ≠ none) := by
  have hcompletes : c.completesShutdown p = ((recvOff || p.recvOff) && (sendOff || p.sendOff)) := by
    simp [completesShutdown, hstate, hop]
  rw [hcompletes]
  cases hboth : (recvOff || p.recvOff) && (sendOff || p.sendOff) with
  | false =>
    refine iff_of_true (reapable_of_state ?_) nofun
    intro h
    injection h with hr hs
    rw [hr, hs] at hboth
    cases hboth
  | true =>
    rw [Bool.and_eq_true] at hboth
    simp only [Reapable, hboth.1, hboth.2, Bool.true_and, forall_const]
    cases he : c.txBuf.isEmpty with
    | true => simp
    | false =>
      -- with data in the buffer no RST can be pending
      have hnot : c.pendingRx.contains .rst = false := by
        refine Bool.eq_false_of_not_eq_true fun hrst => ?_
        cases hj hrst with
        | inl hk => rw [hstate] at hk; cases hk
        | inr ht => rw [he] at ht; cases ht.2
      simp [hnot]

theorem SendStep.reapable_iff (hs : SendStep c p now c') (hj : c.RstJustified) (hr : c.Reapable) :
    c'.Reapable ↔ (c.completesShutdown p = true → c.txBuf.isEmpty = false → c.expiry ≠ none) := by
  have hfree : c'.Reapable →
      (p.op = opShutdown → ∀ recvOff sendOff, c.state ≠ .peerClosed recvOff sendOff) →
      (c'.Reapable ↔ (c.completesShutdown p = true → c.txBuf.isEmpty = false → c.expiry ≠ none)) := by
    intro hreap hfirst
    rw [completesShutdown_eq_false hfirst]
    exact iff_of_true hreap (by simp)
  cases hs with
  | data hc =>
    obtain ⟨_, ht⟩ := state_of_consumes hc
    refine hfree (reapable_of_state ht) ?_
    intro hop
    simp [consumes, hop, opShutdown, opRw] at hc
  | failed hc =>
    refine hfree (reapable_of_state (by simp [kill, schedule])) ?_
    intro hop
    simp [consumes, hop, opShutdown, opRw] at hc
  | response _ hstate => exact hfree (reapable_of_state (by simp)) fun _ => by simp [hstate]
  | shutdown _ hstate =>
    refine hfree ?_ fun _ => by simp [hstate]
    intro h
    injection h with hr hs
    cases c.txBuf.isEmpty <;> simp [hr, hs]
  | moreShutdown _ hstate hop => exact reapable_moreShutdown_iff hj hstate hop
  | creditRequest _ hop =>
    refine hfree ?_ ?_
    · intro h
      cases hr h with
      | inl hrst => exact .inl (by simp [hrst])
      | inr harmed => exact .inr harmed
    · intro hop'
      rw [hop] at hop'
      cases hop'
  | dropped _ hfirst => exact hfree hr hfirst

theorem RecvStep.reapable {result : Except VsockError Unit} {pkt : VsockPacket}
    (hs : RecvStep c now result pkt c') (hr : c.Reapable)
    (hrst : c.pendingRx.contains .rst = false) : c'.Reapable := by
  have hkeep : c.state = .peerClosed true true → c.txBuf.isEmpty = false ∧ c.expiry ≠ none := by
    intro hstate
    cases hr hstate with
    | inl h => rw [hrst] at h; cases h
    | inr h => exact h
  cases hs with
  | rst h => rw [hrst] at h; cases h
  | response | closed => exact reapable_of_state nofun
  | request => exact fun hstate => .inr ⟨(hkeep hstate).1, nofun⟩
  | invalid | creditRequest | bufMissing | data | readError => exact fun hstate => .inr (hkeep hstate)
  | creditUpdate _ hd | noData _ hd => cases hd <;> exact fun hstate => .inr (hkeep hstate)

theorem recvPkt_reapable_iff (c : VsockConnection) (pkt : VsockPacket) (now : Nat)
    (hj : c.RstJustified) (hr : c.Reapable) :
    (c.recvPkt pkt now).2.2.Reapable ↔ c.KeepsReapable (.recvPkt pkt now) := by
  cases hrst : c.pendingRx.contains .rst with
  | false =>
    refine iff_of_true ((recvPkt_step c pkt now).reapable hr hrst) ?_
    intro h
    rw [hrst] at h
    cases h.2
  | true =>
    have hrecv : (c.recvPkt pkt now).2.2 = c.unschedule .rst := by simp [recvPkt, hrst]
    rw [hrecv]
    constructor
    · intro hreap hshut
      cases hj hrst with
      | inl hk => rw [hk] at hshut; cases hshut.1
      | inr ht =>
        cases hreap ht.1 with
        | inl h => simp at h
        | inr h =>
          have hne : c.txBuf.isEmpty = false := h.1
          rw [ht.2] at hne
          cases hne
    · intro hkeeps
      exact reapable_of_state fun h => hkeeps ⟨h, hrst⟩

theorem NotifyStep.reapable (hs : NotifyStep c c') (hr : c.Reapable) : c'.Reapable := by
  cases hs with
  | noFlush hg =>
    intro hstate
    cases hr hstate with
    | inl h => exact .inl (hg.mono .rst h)
    | inr h => exact .inr h
  | @flushed _ _ t _ r hne _ hg hrst =>
    intro hstate
    by_cases he : t.isEmpty = true
    · exact .inl (hrst.mpr (.inr ⟨hstate, he⟩))
    · cases hr hstate with
      | inl h => exact .inl (hg.mono .rst h)
      | inr h => exact .inr ⟨Bool.eq_false_of_not_eq_true he, h.2⟩
  | failed => exact reapable_of_state nofun

theorem reapable_call_iff (c : VsockConnection) (a : Call) (hj : c.RstJustified) (hr : c.Reapable) :
    (c.call a).Reapable ↔ c.KeepsReapable a := by
  cases a with
  | sendPkt p now => exact (sendPkt_step c p now).reapable_iff hj hr
  | recvPkt pkt now => exact recvPkt_reapable_iff c pkt now hj hr
  | notify evset => exact iff_of_true ((notify_step c evset).reapable hr) trivial

theorem reapable_always_iff (hc : c.IsNew) (calls : List Call) :
    Always call Reapable c calls ↔ Throughout call KeepsReapable c calls := by
  refine always_iff rstJustified_call reapable_call_iff ?_ ?_ calls
  · cases hc with
    | peerInit => exact justified_of_not_pending (by simp [newPeerInit])
    | localInit => exact justified_of_not_pending (by simp [newLocalInit])
  · cases hc with
    | peerInit | localInit => exact reapable_of_state nofun

/-- Both flags arrive at once, with data in the buffer: the timer is armed. -/
theorem reapable_always_at_once :
    Always call Reapable (newPeerInit ⟨0, [], [], []⟩ hostCid 3 1024 5000 65536)
      [.recvPkt ⟨{}, none⟩ 0, .sendPkt (.data [1, 2] (by decide) { bufAlloc := 65536 }) 0,
        .sendPkt (.control { op := opShutdown, flags := 3 } rfl) 0] := by
  refine (reapable_always_iff (.peerInit _ _ _ _ _ _) _).mpr ⟨?_, ?_, ?_, trivial⟩
  · decide
  · decide
  · decide

/-- The flags arrive one by one, with data in the buffer: no RST is pending and no timer is armed. -/
theorem not_reapable_one_by_one :
    ∃ c, Run CallStep (newPeerInit ⟨0, [], [], []⟩ hostCid 3 1024 5000 65536)
        [.recvPkt ⟨{}, none⟩ 0, .sendPkt (.data [1, 2] (by decide) { bufAlloc := 65536 }) 0,
          .sendPkt (.control { op := opShutdown, flags := flagsShutdownRcv } rfl) 0,
          .sendPkt (.control { op := opShutdown, flags := flagsShutdownSend } rfl) 0] c ∧
      c.state = .peerClosed true true ∧ c.pendingRx.contains .rst = false ∧ c.expiry = none := by
  refine ⟨_, .cons rfl (.cons rfl (.cons rfl (.cons rfl .nil))), ?_, ?_, ?_⟩
  · rfl
  · rfl
  · rfl

end Kata.Vsock.VsockConnection
