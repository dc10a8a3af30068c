import Kata.Vsock.RxSync
import Kata.Vsock.Sweep

/-!
# Kata.Vsock.KillSync

While the kill queue of the muxer is synchronised, it should have an item for every connection whose
kill timer is armed. Two things break this.

`apply_conn_mutation` only queues a connection whose timer was not running before. A guest that
answers a connection request before it has been sent the request gets an established connection with
a running timer, and when this timer is armed again the new time is not queued
(`rearmed_forgotten`).

`from_conn_map` leaves out the connections that have expired already. A connection that was not in
the old queue and has expired when the queue is built anew is therefore never killed
(`rebuild_forgets`).

In a run in which neither happens the queue is complete, and a later sweep kills every connection
whose timer has expired (`killq_complete`).
-/

namespace Kata.Vsock

open VsockConnection Lib

namespace VsockConnection

variable {c c' : VsockConnection} {now : Nat}

/-- When the kill timer may be running, at time `now` or later. -/
structure TimerInv (now : Nat) (c : VsockConnection) : Prop where
  awaiting : c.Awaiting
  request : c.pendingRx.contains .request = true →
    c.expiry = none ∧ (c.state = .localInit ∨ c.state = .killed)
  armed : c.expiry ≠ none → c.state = .localInit ∨ c.state = .localClosed ∨
    c.state = .peerClosed true true ∨ c.state = .killed
  bounded : ∀ t, c.expiry = some t → t ≤ now + connShutdownTimeoutMs

/-- What a call does to the kill timer. It is only armed if it is not running yet. -/
inductive TimerStep (now : Nat) (c c' : VsockConnection) : Prop where
  | kept : c'.expiry = c.expiry → (c'.state ≠ .killed → c.state ≠ .killed) → TimerStep now c c'
  | disarmed : c'.expiry = none → TimerStep now c c'
  | armed : c.expiry = none → c'.expiry = some (now + connShutdownTimeoutMs) → TimerStep now c c'

/-- The packet does not answer a request that has not been sent yet. -/
def AnswersInOrder (c : VsockConnection) (p : TxPacket) : Prop :=
  p.op = opResponse → c.state = .localInit → c.pendingRx.contains .request = false

theorem TimerStep.bounded (hs : TimerStep now c c')
    (h : ∀ t, c.expiry = some t → t ≤ now + connShutdownTimeoutMs) (t : Nat)
    (ht : c'.expiry = some t) : t ≤ now + connShutdownTimeoutMs := by
  cases hs with
  | kept hexp _ => exact h t (hexp ▸ ht)
  | disarmed hexp =>
    rw [hexp] at ht
    cases ht
  | armed _ hexp =>
    rw [hexp] at ht
    cases ht
    exact Nat.le_refl _

theorem TimerInv.mono {now' : Nat} (h : TimerInv now c) (hle : now ≤ now') : TimerInv now' c where
  awaiting := h.awaiting
  request := h.request
  armed := h.armed
  bounded t ht := by
    have hb := h.bounded t ht
    omega

theorem TimerInv.updateCredit (h : TimerInv now c) (p : TxPacket) : TimerInv now (c.updateCredit p) :=
  ⟨h.awaiting, h.request, h.armed, h.bounded⟩

variable {p : TxPacket}

theorem TimerStep.of_updateCredit (h : TimerStep now (c.updateCredit p) c') : TimerStep now c c' := by
  cases h with
  | kept hexp hlive => exact .kept hexp hlive
  | disarmed hexp => exact .disarmed hexp
  | armed hnone hexp => exact .armed hnone hexp

/-- In the states in which data flows the timer is not running. -/
theorem TimerInv.expiry_none (h : TimerInv now c) (ht : c.state.toPeer = true) : c.expiry = none := by
  refine Classical.not_not.mp fun hne => ?_
  have harmed := h.armed hne
  cases hstate : c.state <;> simp_all [ConnState.toPeer]

theorem SendStep.timer (hs : SendStep c p now c') (h : TimerInv now c) : TimerStep now c c' := by
  cases hs with
  | data | creditRequest | dropped => exact .kept rfl id
  | failed => exact .kept rfl fun hk => absurd rfl hk
  | response => exact .disarmed rfl
  | shutdown _ he =>
    have hnone : c.expiry = none := h.expiry_none (by rw [he]; rfl)
    cases hw : p.recvOff && p.sendOff && !c.txBuf.isEmpty with
    | true => exact .armed hnone rfl
    | false => exact .disarmed hnone
  | moreShutdown _ hp => exact .kept rfl fun _ => by rw [hp]; nofun

theorem SendStep.timerInv (hs : SendStep c p now c') (h : TimerInv now c)
    (hok : c.AnswersInOrder p) : TimerInv now c' where
  awaiting := hs.awaiting h.awaiting
  bounded := (hs.timer h).bounded h.bounded
  request := by
    intro hreq
    rw [hs.grown.request] at hreq
    obtain ⟨hexp, hstate⟩ := h.request hreq
    have hfrom : c.state.fromPeer = false := by
      cases hstate with
      | inl hl => rw [hl]; rfl
      | inr hk => rw [hk]; rfl
    cases hs with
    | data hc | failed hc => simp [consumes, hfrom] at hc
    | response _ hl hp =>
      rw [hok hp hl] at hreq
      cases hreq
    | shutdown _ he => simp [he] at hstate
    | moreShutdown _ hp => simp [hp] at hstate
    | creditRequest | dropped => exact ⟨hexp, hstate⟩
  armed := by
    intro hne
    cases hs with
    | data | creditRequest | dropped => exact h.armed hne
    | failed => exact .inr (.inr (.inr rfl))
    | response => exact absurd rfl hne
    | shutdown _ he =>
      have hnone : c.expiry = none := h.expiry_none (by rw [he]; rfl)
      cases hw : p.recvOff && p.sendOff && !c.txBuf.isEmpty with
      | true =>
        simp only [Bool.and_eq_true] at hw
        exact .inr (.inr (.inl (by simp [hw.1.1, hw.1.2])))
      | false => simp [hw, hnone] at hne
    | moreShutdown _ hp =>
      have harmed := h.armed hne
      simp only [hp, reduceCtorEq, ConnState.peerClosed.injEq, or_false, false_or] at harmed
      exact .inr (.inr (.inl (by simp [harmed.1, harmed.2])))

theorem RecvStep.timer {result : Except VsockError Unit} {pkt : VsockPacket}
    (hs : RecvStep c now result pkt c') (h : TimerInv now c) : TimerStep now c c' := by
  cases hs with
  | response _ hres => exact .disarmed (h.awaiting hres).2.1
  | request _ hreq => exact .armed (h.request hreq).1 rfl
  | closed _ ht => exact .armed (h.expiry_none ht) rfl
  | creditUpdate _ hd | noData _ hd => cases hd <;> exact .kept rfl id
  | _ => exact .kept rfl id

theorem RecvStep.timerInv {result : Except VsockError Unit} {pkt : VsockPacket}
    (hs : RecvStep c now result pkt c') (h : TimerInv now c) : TimerInv now c' where
  awaiting := hs.awaiting h.awaiting
  bounded := (hs.timer h).bounded h.bounded
  request := by
    intro hreq
    have hold := hs.shrunk .request hreq
    have hsame := h.request hold
    cases hs with
    | response _ hres =>
      rw [(h.awaiting hres).1] at hold
      cases hold
    | request => simp at hreq
    | closed _ ht =>
      obtain ⟨_, hl | hk⟩ := hsame
      · rw [hl] at ht
        cases ht
      · rw [hk] at ht
        cases ht
    | creditUpdate _ hd | noData _ hd => cases hd <;> exact hsame
    | _ => exact hsame
  armed := by
    intro hne
    cases hs with
    | response _ hres => exact absurd (h.awaiting hres).2.1 hne
    | request _ hreq =>
      cases (h.request hreq).2 with
      | inl hl => exact .inl hl
      | inr hk => exact .inr (.inr (.inr hk))
    | closed => exact .inr (.inl rfl)
    | creditUpdate _ hd | noData _ hd => cases hd <;> exact h.armed hne
    | _ => exact h.armed hne

theorem NotifyStep.timer (hs : NotifyStep c c') (now : Nat) : TimerStep now c c' := by
  cases hs with
  | noFlush | flushed => exact .kept rfl id
  | failed => exact .kept rfl fun hk => absurd rfl hk

theorem NotifyStep.timerInv (hs : NotifyStep c c') (h : TimerInv now c) : TimerInv now c' where
  awaiting := hs.awaiting h.awaiting
  bounded := (hs.timer now).bounded h.bounded
  request := by
    intro hreq
    rw [hs.grown.request] at hreq
    have hsame := h.request hreq
    cases hs with
    | noFlush | flushed => exact hsame
    | failed => exact ⟨hsame.1, .inr rfl⟩
  armed := by
    intro hne
    cases hs with
    | noFlush | flushed => exact h.armed hne
    | failed => exact .inr (.inr (.inr rfl))

theorem TimerInv.kill (h : TimerInv now c) : TimerInv now c.kill where
  awaiting := h.awaiting.kill
  bounded := h.bounded
  request hreq := ⟨(h.request (by simpa [VsockConnection.kill] using hreq)).1, .inr rfl⟩
  armed _ := .inr (.inr (.inr rfl))

end VsockConnection

namespace VsockMuxer

theorem timer_connInv (now : Nat) : ConnInv (TimerInv now) AnswersInOrder now where
  isNew h := by
    have haw := (awaiting_connInv now).isNew h
    cases h with
    | peerInit => exact ⟨haw, by simp [newPeerInit], by simp [newPeerInit], by simp [newPeerInit]⟩
    | localInit => exact ⟨haw, by simp [newLocalInit], by simp [newLocalInit], by simp [newLocalInit]⟩
  kill h := h.kill
  ackLocal := by
    intro c port h
    obtain ⟨s, hs | hs⟩ := ackLocal_cases c port
    · rw [hs]
      exact ⟨h.awaiting, h.request, h.armed, h.bounded⟩
    · rw [hs]
      exact TimerInv.kill ⟨h.awaiting, h.request, h.armed, h.bounded⟩
  sendPkt hok h := (sendPkt_step _ _ now).timerInv (h.updateCredit _) hok
  recvPkt pkt h := (recvPkt_step _ pkt now).timerInv h
  notify evset h := (notify_step _ evset).timerInv h

variable {old : VsockConnection}

theorem timerStep_mutated (key : ConnMapKey)
    {f : VsockConnection → VsockConnection} {now : Nat} (h : TimerStep now old (f old)) :
    TimerStep now old (mutated key old f) := by
  unfold mutated
  split
  · obtain ⟨s, hs | hs⟩ := ackLocal_cases (f old) key.localPort
    · rw [hs]
      cases h with
      | kept hexp hlive => exact .kept hexp hlive
      | disarmed hexp => exact .disarmed hexp
      | armed hnone hexp => exact .armed hnone hexp
    · rw [hs]
      cases h with
      | kept hexp _ => exact .kept hexp fun hk => absurd rfl hk
      | disarmed hexp => exact .disarmed hexp
      | armed hnone hexp => exact .armed hnone hexp
  · exact h

/-! ## The queue -/

/-- The queue is in the order of its times, and while it is synchronised it has an item for every
connection whose timer is armed and that has not been killed. -/
structure Scheduled (now : Nat) (connMap : ConnMap) (k : MuxerKillQ) : Prop where
  sorted : k.q.Pairwise (·.killTime ≤ ·.killTime)
  bounded : ∀ it ∈ k.q, it.killTime ≤ now + connShutdownTimeoutMs
  complete : k.synced = true → ∀ key conn t, connMap.lookup key = some conn → conn.expiry = some t →
    conn.state ≠ .killed → ⟨key, t⟩ ∈ k.q

variable {now : Nat} {connMap : ConnMap} {k : MuxerKillQ} {key : ConnMapKey} {conn : VsockConnection}
  {m m' : VsockMuxer}

theorem Scheduled.mono {now' : Nat} (h : Scheduled now connMap k) (hle : now ≤ now') : Scheduled now' connMap k where
  sorted := h.sorted
  bounded it hit := by
    have hb := h.bounded it hit
    omega
  complete := h.complete

theorem Scheduled.push (h : Scheduled now connMap k) (key : ConnMapKey) :
    Scheduled now connMap (k.push key (now + connShutdownTimeoutMs)) where
  sorted := by
    cases k.push_q key (now + connShutdownTimeoutMs) with
    | inl hq => exact hq ▸ h.sorted
    | inr hq =>
      rw [hq, List.pairwise_append]
      refine ⟨h.sorted, List.pairwise_singleton _ _, ?_⟩
      intro it hit last hlast
      cases List.mem_singleton.mp hlast
      exact h.bounded it hit
  bounded := by
    intro it hit
    cases k.push_q key (now + connShutdownTimeoutMs) with
    | inl hq => exact h.bounded it (hq ▸ hit)
    | inr hq =>
      rw [hq, List.mem_append, List.mem_singleton] at hit
      cases hit with
      | inl hold => exact h.bounded it hold
      | inr hnew => exact hnew ▸ Nat.le_refl _
  complete := by
    intro hs k' c t hl hexp hlive
    obtain ⟨hsync, hq⟩ := MuxerKillQ.push_synced hs
    rw [hq]
    exact List.mem_append_left _ (h.complete hsync k' c t hl hexp hlive)

theorem Scheduled.insert (h : Scheduled now connMap k)
    (hconn : k.synced = true → ∀ t, conn.expiry = some t → conn.state ≠ .killed → ⟨key, t⟩ ∈ k.q) :
    Scheduled now (connMap.insert key conn) k where
  sorted := h.sorted
  bounded := h.bounded
  complete := by
    intro hs k' c t hl hexp hlive
    by_cases hk : k' = key
    · subst hk
      rw [AList.lookup_insert] at hl
      cases hl
      exact hconn hs t hexp hlive
    · rw [AList.lookup_insert_ne hk] at hl
      exact h.complete hs k' c t hl hexp hlive

/-- The queue need not name more if connections are only killed or removed. -/
theorem Scheduled.fewer (h : Scheduled now m.connMap m.killq) (hq : m'.killq = m.killq)
    (hfew : ∀ key conn, m'.connMap.lookup key = some conn → conn.state ≠ .killed →
      m.connMap.lookup key = some conn) : Scheduled now m'.connMap m'.killq where
  sorted := by
    rw [hq]
    exact h.sorted
  bounded := by
    rw [hq]
    exact h.bounded
  complete := by
    intro hs key conn t hl hexp hlive
    rw [hq] at hs ⊢
    exact h.complete hs key conn t (hfew key conn hl hlive) hexp hlive

theorem Scheduled.killConnection (h : Scheduled now m.connMap m.killq) (key : ConnMapKey) :
    Scheduled now (m.killConnection key).connMap (m.killConnection key).killq :=
  h.fewer (m.killConnection_killq key) fun _ _ hl hlive => (m.killConnection_killing key).unkilled hl hlive

theorem requeue_killq_of_not (h : (!old.willExpire now && conn.willExpire now) = false) :
    (m.requeue key old conn now).killq = m.killq := by
  have hrx : (if !old.hasPendingRx && conn.hasPendingRx then m.pushRx (.connRx key) else m).killq =
      m.killq := by split <;> rfl
  unfold requeue
  dsimp only
  split
  · rw [h]
    exact hrx
  · exact hrx

theorem requeue_killq_of_armed {t : Nat} (hexp : conn.expiry = some t)
    (h : (!old.willExpire now && conn.willExpire now) = true) :
    (m.requeue key old conn now).killq = m.killq.push key t := by
  have hrx : (if !old.hasPendingRx && conn.hasPendingRx then m.pushRx (.connRx key) else m).killq =
      m.killq := by split <;> rfl
  simp only [requeue, hexp, h, if_true, hrx]

section

variable (h : Scheduled now m.connMap m.killq)
include h

theorem Scheduled.requeue (hl : m.connMap.lookup key = some old) (hs : TimerStep now old conn) :
    Scheduled now ((m.setConn key conn).requeue key old conn now).connMap
      ((m.setConn key conn).requeue key old conn now).killq := by
  rw [requeue_connMap]
  cases hs with
  | kept hexp hlive =>
    have hsame : conn.willExpire now = old.willExpire now := by simp [willExpire, hexp]
    rw [requeue_killq_of_not (by rw [hsame, Bool.not_and_self])]
    exact h.insert fun hsync t ht hk => h.complete hsync key old t hl (hexp ▸ ht) (hlive hk)
  | disarmed hexp =>
    rw [requeue_killq_of_not (by simp [willExpire, hexp])]
    refine h.insert fun _ t ht => ?_
    rw [hexp] at ht
    cases ht
  | armed hnone hexp =>
    rw [requeue_killq_of_armed hexp (by simp [willExpire, hnone, hexp, connShutdownTimeoutMs])]
    refine (h.push key).insert fun hsync t ht _ => ?_
    rw [hexp] at ht
    cases ht
    rw [(MuxerKillQ.push_synced hsync).2]
    exact List.mem_append_right _ List.mem_cons_self

theorem Scheduled.applyConnMutation {f : VsockConnection → VsockConnection}
    (hf : ∀ old, m.connMap.lookup key = some old → TimerStep now old (f old)) :
    Scheduled now (m.applyConnMutation key now f).connMap (m.applyConnMutation key now f).killq := by
  obtain ⟨_, hout⟩ | ⟨old, m', hl, hsame, hout⟩ := m.applyConnMutation_cases key now f
  · rw [hout]
    exact h
  · have hreq := h.requeue hl (timerStep_mutated key (hf old hl))
    rw [← hsame.connMap, ← hsame.killq] at hreq
    cases hout with
    | inl hout => exact hout ▸ hreq
    | inr hout => exact hout ▸ hreq.killConnection key

theorem Scheduled.pop (hpop : m.killq.pop now = some (key, k)) :
    Scheduled now ({ m with killq := k }.killExpired key now).connMap
      ({ m with killq := k }.killExpired key now).killq := by
  obtain ⟨front, hq, hkey, hdue, hsync⟩ := MuxerKillQ.pop_some hpop
  have hsorted := h.sorted
  have hbounded := h.bounded
  rw [hq] at hsorted hbounded
  rw [killExpired_killq]
  refine ⟨hsorted.of_cons, fun it hit => hbounded it (List.mem_cons_of_mem _ hit), ?_⟩
  intro hs key' conn t hl hexp hlive
  have hkill := killExpired_killing { m with killq := k } key now
  have hmem := h.complete (hsync ▸ hs) key' conn t (hkill.unkilled hl hlive) hexp hlive
  rw [hq, List.mem_cons] at hmem
  cases hmem with
  | inr hrest => exact hrest
  | inl hfront =>
    -- the item of an expired connection is only popped together with killing it
    subst hfront
    cases hkey
    have hdead := killExpired_reaped { m with killq := k } key' now conn hl (by
      simp only [hasExpired, hexp, decide_eq_true_eq]
      exact Nat.le_of_lt hdue)
    exact absurd hdead hlive

theorem Scheduled.sweep : Scheduled now (m.sweep now).connMap (m.sweep now).killq :=
  sweepLoop_invariant (I := fun m => Scheduled now m.connMap m.killq) (fun hm hpop => hm.pop hpop) h

end

/-- If a sweep builds the queue anew, no connection that has expired is missing in the old queue. -/
def SweptInTime (m : VsockMuxer) (now : Nat) : Prop :=
  m.killq.synced = false → (∀ it ∈ m.killq.q, it.killTime < now) →
    ∀ key conn, m.connMap.lookup key = some conn → conn.hasExpired now = true → conn.state ≠ .killed →
      ∃ it ∈ m.killq.q, it.key = key

theorem Scheduled.sweepKillq (h : Scheduled now m.connMap m.killq) (htimer : EachConn (TimerInv now) m)
    (hin : SweptInTime m now) : Scheduled now (m.sweepKillq now).connMap (m.sweepKillq now).killq := by
  obtain hout | ⟨hempty, hunsync, hout⟩ := m.sweepKillq_cases now
  · rw [hout]
    exact h.sweep
  · rw [hout]
    have hpast : ∀ it ∈ m.killq.q, it.killTime < now ∧ Reaped now (m.sweep now) it.key := by
      intro it hit
      cases sweep_reaps now hit with
      | inl hstill =>
        rw [hempty] at hstill
        cases hstill
      | inr hpast => exact hpast
    have htimer' : EachConn (TimerInv now) (m.sweep now) := htimer.sweepLoop (timer_connInv now)
    refine ⟨MuxerKillQ.sorted_fromConnMap _ now, ?_, ?_⟩
    · intro it hit
      obtain ⟨conn, hl, hexp, _⟩ := MuxerKillQ.of_mem_fromConnMap hit
      exact (htimer' it.key conn hl).bounded _ hexp
    · intro hs key conn t hl hexp hlive
      refine MuxerKillQ.mem_fromConnMap hs hl hexp (Nat.lt_of_not_le fun hle => hlive ?_)
      have hdue : conn.hasExpired now = true := by simpa [hasExpired, hexp] using hle
      obtain ⟨it, hit, rfl⟩ := hin hunsync (fun it hit => (hpast it hit).1) key conn
        ((m.sweep_killing now).unkilled hl hlive) hdue hlive
      exact (hpast it hit).2 conn hl hdue

/-- A connection that has expired, but is not in the queue when that is built anew, is forgotten: it
stays as it is, and the new queue has no item for it. -/
theorem rebuild_forgets (hunsync : m.killq.synced = false) (hpast : ∀ it ∈ m.killq.q, it.killTime < now)
    (hl : m.connMap.lookup key = some conn) (hexp : conn.hasExpired now = true)
    (hmiss : ∀ it ∈ m.killq.q, it.key ≠ key) :
    (m.sweepKillq now).connMap.lookup key = some conn ∧
      ∀ it ∈ (m.sweepKillq now).killq.q, it.key ≠ key := by
  have hkept := sweep_unnamed now hl hmiss
  refine ⟨sweepKillq_connMap m now ▸ hkept, ?_⟩
  intro it hit hkey
  rw [sweepKillq_of_past hunsync hpast] at hit
  obtain ⟨conn', hl', hexp', hlt⟩ := MuxerKillQ.of_mem_fromConnMap hit
  rw [hkey, hkept] at hl'
  cases hl'
  simp only [hasExpired, hexp', decide_eq_true_eq] at hexp
  omega

/-! ## Runs -/

/-- The muxer and the time of its last call. -/
structure Clocked where
  clock : Nat
  muxer : VsockMuxer

namespace Clocked

/-- A call at a time that is not before that of the last call. -/
inductive Step (s : Clocked) : Nat × Option Op → Clocked → Prop where
  | mk {now : Nat} {op : Option Op} {m : VsockMuxer} : s.clock ≤ now → s.muxer.Step (now, op) m →
      Step s (now, op) ⟨now, m⟩

/-- The guest answers no request that has not been sent, and a call that sweeps does so in time. -/
def InTime (s : Clocked) : Nat × Option Op → Prop
  | (_, none) => True
  | (now, some op) =>
    (s.muxer.sweeps op = true → s.muxer.SweptInTime now) ∧
    ∀ p connected conn, op = .sendPkt p connected → p.pkt.hdr.type = typeStream →
      p.pkt.hdr.dstCid = hostCid →
      s.muxer.connMap.lookup ⟨p.pkt.hdr.dstPort, p.pkt.hdr.srcPort⟩ = some conn →
      conn.AnswersInOrder p

theorem inTime_of_synced {s : Clocked} {now : Nat} {op : Op} (hs : s.muxer.killq.synced = true)
    (hop : ∀ p connected, op ≠ .sendPkt p connected) : s.InTime (now, some op) := by
  refine ⟨?_, fun p connected _ heq => absurd heq (hop p connected)⟩
  intro _ hunsync
  rw [hs] at hunsync
  cases hunsync

end Clocked

/-- The invariant of the kill queue. -/
structure KillInv (now : Nat) (m : VsockMuxer) : Prop where
  timer : EachConn (TimerInv now) m
  scheduled : Scheduled now m.connMap m.killq

theorem KillInv.mono {now' : Nat} (h : KillInv now m) (hle : now ≤ now') : KillInv now' m :=
  ⟨fun key conn hl => (h.timer key conn hl).mono hle, h.scheduled.mono hle⟩

theorem killInv_keeps {s : Clocked} {op : Op} (hok : s.InTime (now, some op)) :
    Keeps (KillInv now) s.muxer now op := by
  have hc : Keeps (EachConn (TimerInv now)) s.muxer now op :=
    (timer_connInv now).keeps fun hop ht hcid hl => hok.2 _ _ _ hop ht hcid hl
  exact {
    frame := fun hs h => ⟨hc.frame hs h.timer, by rw [hs.connMap, hs.killq]; exact h.scheduled⟩
    allocate := fun hp h => ⟨hc.allocate hp h.timer, by
      obtain ⟨_, _, hout⟩ := Option.map_eq_some_iff.mp hp
      cases hout
      exact h.scheduled⟩
    enqRst := fun l p h => ⟨hc.enqRst l p h.timer, h.scheduled⟩
    removeConnection := fun key h => ⟨hc.removeConnection key h.timer,
      h.scheduled.fewer (removeConnection_killq _ key) fun _ _ hl _ => lookup_removeConnection hl⟩
    deliver := fun hop ht hcid h => ⟨hc.deliver hop ht hcid h.timer,
      h.scheduled.applyConnMutation fun old hl =>
        .of_updateCredit ((sendPkt_step old _ now).timer ((h.timer _ old hl).updateCredit _))⟩
    notify := fun key evset h => ⟨hc.notify key evset h.timer,
      h.scheduled.applyConnMutation fun old _ => (notify_step old evset).timer now⟩
    sweepKillq := fun hs a hcm hk h => ⟨hc.sweepKillq hs hcm hk h.timer,
      h.scheduled.sweepKillq h.timer (by
        unfold SweptInTime
        rw [hcm, hk]
        exact hok.1 hs)⟩
    add := fun key conn hn h => ⟨hc.add key hn h.timer, h.scheduled.insert fun _ t ht => by
      cases hn <;> cases ht⟩
    resyncRxq := fun h => ⟨hc.resyncRxq h.timer, by
      unfold resyncRxq
      split <;> exact h.scheduled⟩
    popRst := fun hpeek h => ⟨hc.popRst hpeek h.timer, h.scheduled⟩
    recvConn := fun pkt hpeek h => ⟨hc.recvConn pkt hpeek h.timer, by
      unfold recvConn
      split
      · exact h.scheduled
      · dsimp only
        split <;> exact h.scheduled.applyConnMutation fun old hl =>
          (recvPkt_step old pkt now).timer (h.timer _ old hl)⟩ }

theorem killInv_step {s s' : Clocked} {a : Nat × Option Op} (h : KillInv s.clock s.muxer)
    (hs : s.InTime a ∧ s.Step a s') : KillInv s'.clock s'.muxer := by
  obtain ⟨hok, ⟨hle, hstep⟩⟩ := hs
  have hnow := h.mono hle
  cases hstep with
  | call happ => exact (killInv_keeps hok).apply hnow happ
  | rehash hp =>
    refine ⟨hnow.timer.rehash hp, hnow.scheduled.fewer rfl ?_⟩
    intro key conn hl _
    rw [← AList.perm_lookup hp]
    exact hl

theorem killInv_new (cid : UInt64) (epollCtl : List Bool) (start : Nat) : KillInv start (new cid epollCtl) := by
  refine ⟨?_, List.Pairwise.nil, nofun, ?_⟩
  · intro key conn hl
    simp [new] at hl
  · intro _ key conn t hl
    simp [new] at hl

/-- A sweep kills a connection whose timer has expired if the queue is synchronised, and also if all
timers that were armed before have expired. -/
theorem KillInv.killed {clock t : Nat} (h : KillInv clock m) (hl : m.connMap.lookup key = some conn)
    (hexp : conn.expiry = some t) (ht : t < now)
    (hsweep : m.killq.synced = true ∨ clock + connShutdownTimeoutMs < now ∧ m.SweptInTime now) :
    ∃ conn', (m.sweepKillq now).connMap.lookup key = some conn' ∧ conn'.state = .killed := by
  have hdue : conn.hasExpired now = true := by
    simp only [hasExpired, hexp, decide_eq_true_eq]
    exact Nat.le_of_lt ht
  by_cases hlive : conn.state = .killed
  · obtain ⟨conn', hl', heq | hdead⟩ := (m.sweep_killing now).present hl
    · subst heq
      exact ⟨conn', sweepKillq_connMap m now ▸ hl', hlive⟩
    · exact ⟨conn', sweepKillq_connMap m now ▸ hl', hdead⟩
  · have hitem : ∃ it ∈ m.killq.q, it.key = key ∧ it.killTime < now := by
      cases hs : m.killq.synced with
      | true => exact ⟨⟨key, t⟩, h.scheduled.complete hs key conn t hl hexp hlive, rfl, ht⟩
      | false =>
        obtain hsync | ⟨hlate, hin⟩ := hsweep
        · rw [hs] at hsync
          cases hsync
        · have hpast : ∀ it ∈ m.killq.q, it.killTime < now := fun it hit =>
            Nat.lt_of_le_of_lt (h.scheduled.bounded it hit) hlate
          obtain ⟨it, hit, hkey⟩ := hin hs hpast key conn hl hdue hlive
          exact ⟨it, hit, hkey, hpast it hit⟩
    obtain ⟨it, hit, rfl, hpast⟩ := hitem
    exact sweepKillq_kills h.scheduled.sorted hit hpast hl hdue

theorem killq_complete {cid : UInt64} {epollCtl : List Bool} {start : Nat}
    {ops : List (Nat × Option Op)} {s : Clocked}
    (hrun : Run (fun s a s' => s.InTime a ∧ Clocked.Step s a s') ⟨start, new cid epollCtl⟩ ops s) :
    (s.muxer.killq.synced = true → ∀ key conn t, s.muxer.connMap.lookup key = some conn →
      conn.expiry = some t → conn.state ≠ .killed → ⟨key, t⟩ ∈ s.muxer.killq.q) ∧
    ∀ key conn t now, s.muxer.connMap.lookup key = some conn → conn.expiry = some t → t < now →
      s.muxer.killq.synced = true ∨
        s.clock + connShutdownTimeoutMs < now ∧ s.muxer.SweptInTime now →
      ∃ conn', (s.muxer.sweepKillq now).connMap.lookup key = some conn' ∧ conn'.state = .killed := by
  have hinv : KillInv s.clock s.muxer :=
    hrun.invariant (I := fun s => KillInv s.clock s.muxer) (fun _ _ _ => killInv_step)
      (killInv_new cid epollCtl start)
  refine ⟨hinv.scheduled.complete, ?_⟩
  intro key conn t now hl hexp ht hsweep
  exact hinv.killed hl hexp ht hsweep

/-- The calls for a connection that a host process opens to port 5000 of the guest. -/
def hostConnect : List (Nat × Option Op) :=
  [(0, some (.addBackend .unixStream 7 true)),
    (0, some (.handleEvent 7 ⟨true, false⟩ ⟨some ⟨8, [], [.ok 100], [.ok []]⟩, none, none, true⟩)),
    (0, some (.handleEvent 8 ⟨true, false⟩ ⟨none, some (.connect 5000), none, true⟩))]

/-- A connection whose request is not answered is killed after two seconds. -/
theorem killq_complete_unanswered :
    ∃ s, Run (fun s a s' => s.InTime a ∧ Clocked.Step s a s') ⟨0, new 3 []⟩
        (hostConnect ++ [(0, some (.recvPkt ⟨{}, none⟩))]) s ∧
      ⟨⟨1073741824, 5000⟩, 2000⟩ ∈ s.muxer.killq.q ∧
      ∃ conn, (s.muxer.sweepKillq 2001).connMap.lookup ⟨1073741824, 5000⟩ = some conn ∧
        conn.state = .killed := by
  have hrun : Run (fun s a s' => s.InTime a ∧ Clocked.Step s a s') ⟨0, new 3 []⟩
      (hostConnect ++ [(0, some (.recvPkt ⟨{}, none⟩))]) _ :=
    .cons ⟨Clocked.inTime_of_synced rfl nofun, .mk (Nat.le_refl 0) (.call rfl)⟩
      (.cons ⟨Clocked.inTime_of_synced rfl nofun, .mk (Nat.le_refl 0) (.call rfl)⟩
        (.cons ⟨Clocked.inTime_of_synced rfl nofun, .mk (Nat.le_refl 0) (.call rfl)⟩
          (.cons ⟨Clocked.inTime_of_synced rfl nofun, .mk (Nat.le_refl 0) (.call rfl)⟩ .nil)))
  obtain ⟨hcomplete, hkilled⟩ := killq_complete hrun
  exact ⟨_, hrun, hcomplete rfl ⟨1073741824, 5000⟩ _ 2000 rfl rfl nofun,
    hkilled ⟨1073741824, 5000⟩ _ 2000 2001 rfl rfl (by decide) (.inl rfl)⟩

/-- The guest answers before it has been sent the request, and at time 100 the host closes the
connection. Two requests of the guest, at 2050 and 5000, sweep the kill queue. -/
def earlyAnswer : List (Nat × Option Op) :=
  hostConnect ++
    [(0, some (.sendPkt (guestPkt 1073741824 opResponse) none)),
      (0, some (.recvPkt ⟨{}, none⟩)),
      (100, some (.handleEvent 8 ⟨true, false⟩ ⟨none, none, none, true⟩)),
      (100, some (.recvPkt ⟨{}, some [0]⟩)),
      (2050, some (.sendPkt (guestPkt 1024 opRequest) (some ⟨9, [], [], []⟩))),
      (5000, some (.sendPkt (guestPkt 1025 opRequest) (some ⟨10, [], [], []⟩)))]

/-- The timer of the request runs on while the connection is established, so arming it again, to
2100, does not queue the connection. The sweep at 2050 takes the only item off the queue, and the
sweep at 5000 does not kill the connection. -/
theorem rearmed_forgotten :
    ∃ s conn, Run Clocked.Step ⟨0, new 3 []⟩ earlyAnswer s ∧
      s.muxer.killq.synced = true ∧ s.muxer.connMap.lookup ⟨1073741824, 5000⟩ = some conn ∧
      conn.expiry = some 2100 ∧ conn.state = .localClosed ∧ s.muxer.killq.q = [] := by
  have hrun : Run Clocked.Step ⟨0, new 3 []⟩ earlyAnswer _ :=
    .cons (.mk (Nat.le_refl _) (.call rfl)) (.cons (.mk (Nat.le_refl _) (.call rfl))
      (.cons (.mk (Nat.le_refl _) (.call rfl)) (.cons (.mk (Nat.le_refl _) (.call rfl))
        (.cons (.mk (Nat.le_refl _) (.call rfl)) (.cons (.mk (Nat.zero_le _) (.call rfl))
          (.cons (.mk (Nat.le_refl _) (.call rfl)) (.cons (.mk (by decide) (.call rfl))
            (.cons (.mk (by decide) (.call rfl)) .nil))))))))
  exact ⟨_, _, hrun, rfl, rfl, rfl, rfl, rfl⟩

end VsockMuxer
end Kata.Vsock
