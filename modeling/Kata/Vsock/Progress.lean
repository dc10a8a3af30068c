import Kata.Lib.Termination
import Kata.Vsock.RxSync
import Kata.Vsock.Sweep

/-!
# Kata.Vsock.Progress

The calls of the muxer return. The loop of `recv_pkt` goes on as long as connections have nothing to
yield; each pass takes an item off the queue or something from what a connection has pending
(`recvConn_work`), so it ends (`recvPkt_isSome`). Only the search for a local port does not return,
if all ports are in use (`allocateLocalPort_none`, `apply_isSome`).
-/

namespace Kata.Vsock

open VsockConnection Lib

namespace VsockConnection

variable {c c' : VsockConnection}

/-- What a connection can still contribute to the passes of the loop. Being killed counts for one,
as it may put the connection on the queue once more. -/
def work (c : VsockConnection) : Nat :=
  (c.pendingRx.contains .request).toNat + (c.pendingRx.contains .response).toNat +
    (c.pendingRx.contains .rw).toNat + (c.pendingRx.contains .creditUpdate).toNat +
    if c.pendingRx.contains .rst then 1 else 2

theorem work_le (c : VsockConnection) : c.work ≤ 7 := by
  have hle (it : PendingRx) := Bool.toNat_le (c.pendingRx.contains it)
  have hreq := hle .request
  have hres := hle .response
  have hrw := hle .rw
  have hcu := hle .creditUpdate
  unfold work
  split <;> omega

theorem not_contains_of_idle (h : c.hasPendingRx = false) (it : PendingRx) : c.pendingRx.contains it = false := by
  refine Bool.eq_false_of_not_eq_true fun hit => ?_
  rw [hasPendingRx_iff.mpr ⟨it, hit⟩] at h
  cases h

/-- A pass without a packet: the connection has less to do, or nothing at all. -/
structure Fruitless (c c' : VsockConnection) : Prop where
  state : c'.state = c.state
  quiet : (!c.hasPendingRx && c'.hasPendingRx) = false
  rst : c'.pendingRx.contains .rst = false
  work : c'.work + c'.hasPendingRx.toNat ≤ c.work

theorem RecvStep.fruitless {now : Nat} {e : VsockError} {pkt : VsockPacket}
    (h : RecvStep c now (.error e) pkt c') : Fruitless c c' := by
  cases h with
  | bufMissing hrst _ hrw =>
    have hpend : c.hasPendingRx = true := hasPendingRx_iff.mpr ⟨.rw, hrw⟩
    have hwork : (c.unschedule .rw).work + 1 = c.work := by
      simp only [VsockConnection.work, contains_unschedule, hrst, hrw, reduceCtorEq, decide_false,
        decide_true, Bool.not_false, Bool.not_true, Bool.and_true, Bool.and_false, Bool.toNat_false,
        Bool.toNat_true]
      omega
    have hle := Bool.toNat_le (c.unschedule .rw).hasPendingRx
    exact ⟨rfl, by simp [hpend], by simp [hrst], by omega⟩
  | noData hrst hd hnone =>
    have htwo : 2 ≤ c.work := by simp [work, hrst]
    refine ⟨?_, by rw [hnone, Bool.and_false], not_contains_of_idle hnone .rst, ?_⟩
    · cases hd <;> rfl
    · rw [hnone]
      simpa [work, not_contains_of_idle hnone] using htwo

end VsockConnection

namespace VsockMuxer

variable {m : VsockMuxer} {key : ConnMapKey} {conn : VsockConnection} {now : Nat}

/-- A bound on the passes of the loop that are left. -/
def work (m : VsockMuxer) : Nat := m.rxq.q.length + total VsockConnection.work m.connMap

theorem mutated_of_state {old : VsockConnection} {f : VsockConnection → VsockConnection}
    (h : (f old).state = old.state) : mutated key old f = f old := by
  cases hs : old.state with
  | _ => simp [mutated, h, hs]

theorem length_push_connRx (r : MuxerRxQ) (key : ConnMapKey) :
    r.q.length ≤ (r.push (.connRx key)).2.q.length ∧
      (r.push (.connRx key)).2.q.length ≤ r.q.length + 1 := by
  unfold MuxerRxQ.push
  split
  · simp
  · exact ⟨Nat.le_refl _, Nat.le_succ _⟩

/-- Changing one connection changes the bound by what that connection contributes. -/
theorem work_insert {m' : VsockMuxer} {conn' : VsockConnection} (hl : m.connMap.lookup key = some conn)
    (hmap : m'.connMap = m.connMap.insert key conn') :
    m'.work + m.rxq.q.length + conn.work = m.work + m'.rxq.q.length + conn'.work := by
  have hset : total VsockConnection.work (m.connMap.insert key conn') + conn.work = _ := total_insert hl
  unfold work
  rw [hmap]
  omega

/-- Killing a connection may queue it, but then it has less left to do. -/
theorem killConnection_work (hl : m.connMap.lookup key = some conn) (hrst : conn.pendingRx.contains .rst = false) :
    m.rxq.q.length ≤ (m.killConnection key).rxq.q.length ∧ (m.killConnection key).work ≤ m.work := by
  have hset := work_insert hl (killConnection_connMap hl)
  have hkill : conn.kill.work + 1 = conn.work := by simp [VsockConnection.work, VsockConnection.kill, hrst]
  have hlen : m.rxq.q.length ≤ (m.killConnection key).rxq.q.length ∧
      (m.killConnection key).rxq.q.length ≤ m.rxq.q.length + 1 := by
    unfold killConnection
    rw [hl]
    dsimp only
    split
    · exact ⟨Nat.le_refl _, Nat.le_succ _⟩
    · exact length_push_connRx m.rxq key
  omega

theorem applyConnMutation_work (now : Nat) {f : VsockConnection → VsockConnection}
    (hl : m.connMap.lookup key = some conn) (hf : Fruitless conn (f conn)) :
    m.rxq.q.length ≤ (m.applyConnMutation key now f).rxq.q.length ∧
      (m.applyConnMutation key now f).work + (f conn).hasPendingRx.toNat ≤ m.work := by
  obtain ⟨hnone, _⟩ | ⟨old, m', hold, hsame, hout⟩ := m.applyConnMutation_cases key now f
  · rw [hl] at hnone
    cases hnone
  · rw [hl] at hold
    cases hold
    rw [mutated_of_state hf.state] at hsame
    have hrxq : m'.rxq = m.rxq := by
      rw [hsame.rxq, requeue_rxq, hf.quiet]
      rfl
    have hmap : m'.connMap = m.connMap.insert key (f conn) :=
      hsame.connMap.trans (requeue_connMap _ _ _ _ _)
    have hset := work_insert hl hmap
    have hless := hf.work
    rw [hrxq] at hset
    cases hout with
    | inl hout =>
      rw [hout, hrxq]
      exact ⟨Nat.le_refl _, by omega⟩
    | inr hout =>
      have hl' : m'.connMap.lookup key = some (f conn) := by
        rw [hmap]
        exact AList.lookup_insert _
      obtain ⟨hlen, hkill⟩ := killConnection_work hl' hf.rst
      rw [hrxq] at hlen
      rw [hout]
      exact ⟨hlen, by omega⟩

theorem pop_work (h : 0 < m.rxq.q.length) : { m with rxq := m.rxq.pop }.work < m.work := by
  simp only [work, MuxerRxQ.pop, List.length_tail]
  omega

/-- A pass through the loop that yields no packet gets closer to the end. -/
theorem recvConn_work {e : VsockError} (pkt : VsockPacket) (now : Nat) (hpeek : m.rxq.peek = some (.connRx key))
    (herr : (m.recvConn key pkt now).1 = .error e) : (m.recvConn key pkt now).2.2.work < m.work := by
  obtain ⟨rest, hq⟩ : ∃ rest, m.rxq.q = .connRx key :: rest := List.head?_eq_some_iff.mp hpeek
  have hlen : 0 < m.rxq.q.length := by simp [hq]
  cases hl : m.connMap.lookup key with
  | none =>
    simp only [recvConn, hl]
    exact pop_work hlen
  | some conn =>
    simp only [recvConn, hl] at herr ⊢
    have hstep := recvPkt_step conn pkt now
    rw [herr] at hstep
    obtain ⟨hmore, hwork⟩ :=
      applyConnMutation_work now (f := fun c => (c.recvPkt pkt now).2.2) hl hstep.fruitless
    split
    · rename_i hp
      rw [hp] at hwork
      exact hwork
    · have hpop := pop_work (Nat.lt_of_lt_of_le hlen hmore)
      omega

theorem recvLoop_isSome {fuel : Nat} (pkt : VsockPacket) (h : m.work < fuel) :
    (recvLoop now fuel m pkt).isSome = true := by
  induction fuel generalizing m pkt with
  | zero => exact absurd h (Nat.not_lt_zero _)
  | succ fuel ih =>
    unfold recvLoop
    split
    · rfl
    · rfl
    · rename_i key hpeek
      split
      · rfl
      · rename_i e pkt' m' hres
        have hless := recvConn_work (e := e) pkt now hpeek (by rw [hres])
        rw [hres] at hless
        exact ih pkt' (Nat.lt_of_lt_of_le hless (Nat.le_of_lt_succ h))

theorem recvPkt_isSome (m : VsockMuxer) (pkt : VsockPacket) (now : Nat) : (m.recvPkt pkt now).isSome = true := by
  refine recvLoop_isSome pkt ?_
  have htotal := total_le work_le m.resyncRxq.connMap
  unfold work recvFuel
  omega

/-! ## Local ports -/

theorem searchPort_none {used : Finset UInt32} {fuel : Nat} {last : UInt32} :
    searchPort used fuel last = none ↔ ∀ i < fuel, nextPort^[i + 1] last ∈ used := by
  induction fuel generalizing last with
  | zero => simp [searchPort]
  | succ fuel ih =>
    unfold searchPort
    split
    · rename_i hused
      rw [ih]
      constructor
      · intro h i hi
        cases i with
        | zero => exact hused
        | succ i => exact h i (Nat.lt_of_succ_lt_succ hi)
      · intro h i hi
        exact h (i + 1) (Nat.succ_lt_succ hi)
    · rename_i hfree
      constructor
      · nofun
      · intro h
        exact absurd (h 0 (Nat.succ_pos _)) hfree

/-- No port is allocated only if every port that the source would try, however long it searches, is
in use. -/
theorem allocateLocalPort_none (m : VsockMuxer) :
    m.allocateLocalPort = none ↔ ∀ n, nextPort^[n + 1] m.localPortLast ∈ m.localPortSet := by
  unfold allocateLocalPort
  rw [Option.map_eq_none_iff, searchPort_none]
  constructor
  · intro h n
    rw [Function.iterate_succ_apply]
    refine iterate_mem (fun i hi => ?_) n
    rw [← Function.iterate_succ_apply]
    exact h i (Nat.lt_succ_of_le hi)
  · intro h i _
    exact h i

/-- Every call returns while there is a local port left. -/
theorem apply_isSome (hport : m.allocateLocalPort.isSome = true) (now : Nat) (op : Op) :
    (m.apply now op).isSome = true := by
  have hremoved (fd) : (m.removeListener fd).allocateLocalPort.isSome = true := by
    simpa [allocateLocalPort, removeListener] using hport
  cases op with
  | addBackend | sendPkt | sweepKillq => rfl
  | recvPkt pkt => simpa [apply] using m.recvPkt_isSome pkt now
  | handleEvent fd evset host =>
    unfold apply handleEvent
    dsimp only
    split
    · rfl
    · split
      · split <;> rfl
      · rfl
    · split
      · rfl
      · simpa [addLocalInit] using hremoved fd
      · rfl
    · split
      · rfl
      · split
        · simpa [addLocalInit] using hremoved fd
        · simpa using hremoved fd
    · rfl

/-- The guest asks for a connection, resets it and asks for another one: the first item of the queue
is stale. -/
theorem recvPkt_stale_returns :
    ∃ m, Run Step (new 3 [])
        [(0, some (.addBackend .unixStream 7 true)),
          (0, some (.sendPkt (guestPkt 1024 opRequest) (some ⟨8, [], [], []⟩))),
          (0, some (.sendPkt (guestPkt 1024 opRst) none)),
          (0, some (.sendPkt (guestPkt 1025 opRequest) (some ⟨9, [], [], []⟩)))] m ∧
      m.rxq.q = [.connRx ⟨1024, 5000⟩, .connRx ⟨1025, 5000⟩] ∧ m.connMap.lookup ⟨1024, 5000⟩ = none ∧
      (m.apply 0 (.recvPkt ⟨{}, none⟩)).isSome = true :=
  ⟨_, .cons (.call rfl) (.cons (.call rfl) (.cons (.call rfl) (.cons (.call rfl) .nil))), rfl, rfl,
    apply_isSome rfl 0 _⟩

end VsockMuxer
end Kata.Vsock
