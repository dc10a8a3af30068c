import Kata.Vsock.RxSync

/-!
# Kata.Vsock.RstDelivery

An RST that the guest receives ends the connection on the host as well (`rst_ends_connection`), if
the calls come in an order in which the muxer does not queue an RST for a live connection.

The muxer removes a connection that yields an RST. An RST which the muxer itself has queued is
passed on without a look at the connections. So it must not be queued for a live connection, as for
a packet that is not of type stream (`nonStream_outlives_rst`), and no connection may be opened on
its ports while it is queued.
-/

namespace Kata.Vsock.VsockMuxer

open Lib

/-- No RST is queued for a live connection. -/
def RstInv (m : VsockMuxer) : Prop :=
  ∀ l p, .rstPkt l p ∈ m.rxq.q → m.connMap.lookup ⟨l, p⟩ = none

/-- A packet that is not of type stream names no live connection, and a connection is only opened on
ports for which no RST is queued. -/
structure InOrder (m : VsockMuxer) (a : Nat × Option Op) : Prop where
  nonStream : ∀ {p connected}, a.2 = some (.sendPkt p connected) → p.pkt.hdr.type ≠ typeStream →
    m.connMap.lookup ⟨p.pkt.hdr.dstPort, p.pkt.hdr.srcPort⟩ = none
  opening : ∀ {op key}, a.2 = some op → m.opens op = some key →
    .rstPkt key.localPort key.peerPort ∉ m.rxq.q

section Steps

variable {m m' : VsockMuxer} {key : ConnMapKey} {conn : VsockConnection} {now : Nat} {op : Op}

/-- What queues no RST and adds no connection keeps the invariant. -/
theorem RstInv.mono (h : RstInv m) (hrst : ∀ {l p}, .rstPkt l p ∈ m'.rxq.q → .rstPkt l p ∈ m.rxq.q)
    (hconn : ∀ {key}, m.connMap.lookup key = none → m'.connMap.lookup key = none) : RstInv m' := by
  intro l p hmem
  exact hconn (h l p (hrst hmem))

theorem RstInv.quiet (h : RstInv m) (hq : Quiet m m') : RstInv m' := by
  refine h.mono hq.rst ?_
  intro key hnone
  rw [AList.lookup_eq_none] at hnone ⊢
  exact mt hq.mem_iff.mp hnone

theorem RstInv.enqRst (h : RstInv m) {l p : UInt32} (hnone : m.connMap.lookup ⟨l, p⟩ = none) :
    RstInv (m.enqRst l p) := by
  intro l' p' hmem
  cases m.rxq.mem_of_push_rstPkt hmem with
  | inl heq =>
    cases heq
    exact hnone
  | inr hold => exact h l' p' hold

theorem removeConnection_rxq (m : VsockMuxer) (key : ConnMapKey) : (m.removeConnection key).rxq = m.rxq := by
  unfold removeConnection
  split <;> rfl

theorem lookup_removed (m : VsockMuxer) (key : ConnMapKey) : (m.removeConnection key).connMap.lookup key = none := by
  unfold removeConnection
  split
  · assumption
  · exact AList.lookup_erase key m.connMap

theorem RstInv.removeConnection (h : RstInv m) (key : ConnMapKey) : RstInv (m.removeConnection key) := by
  refine h.mono (fun hmem => ?_) (fun {k} hnone => ?_)
  · rw [removeConnection_rxq] at hmem
    exact hmem
  · cases hl : (m.removeConnection key).connMap.lookup k with
    | none => rfl
    | some conn =>
      rw [lookup_removeConnection hl] at hnone
      cases hnone

theorem RstInv.setConn (h : RstInv m) (hfree : .rstPkt key.localPort key.peerPort ∉ m.rxq.q) :
    RstInv (m.setConn key conn) := by
  intro l p hmem
  have hne : (⟨l, p⟩ : ConnMapKey) ≠ key := by
    intro heq
    exact hfree (heq ▸ hmem)
  rw [VsockMuxer.setConn, AList.lookup_insert_ne hne]
  exact h l p hmem

theorem RstInv.added (h : RstInv m) {ok : Bool} (hadd : Added m key conn now ok m')
    (hfree : ok = true → .rstPkt key.localPort key.peerPort ∉ m.rxq.q) : RstInv m' := by
  have hswept := (m.sweepKillq_swept now).quiet
  cases hadd with
  | refused _ hsame => exact h.quiet (hswept.trans hsame.quiet)
  | added _ hsame =>
    have hpushed := (hswept.trans hsame.quiet).trans (pushRx_quiet _ key)
    exact (h.quiet hpushed).setConn (mt hpushed.rst (hfree rfl))

theorem allocateLocalPort_rstInv {port : UInt32} (h : RstInv m)
    (hport : m.allocateLocalPort = some (port, m')) : RstInv m' := by
  obtain ⟨_, rfl⟩ := allocateLocalPort_fields hport
  exact h

variable {pkt : VsockPacket} {out : Except VsockError Unit × VsockPacket × VsockMuxer}

theorem Received.rstInv (hrecv : Received now m pkt out) (h : RstInv m) : RstInv out.2.2 := by
  induction hrecv with
  | empty => exact h
  | rst => exact h.quiet (pop_quiet _)
  | conn _ hres => exact h.quiet (quiet_of_recvConn hres)
  | connRst _ hres => exact (h.quiet (quiet_of_recvConn hres)).removeConnection _
  | next _ hres _ ih => exact ih (h.quiet (quiet_of_recvConn hres))

theorem Received.ends
    (hrecv : Received now m pkt out) (h : RstInv m) (hok : out.1 = .ok ()) (hop : out.2.1.op = opRst) :
    out.2.2.connMap.lookup ⟨out.2.1.hdr.srcPort, out.2.1.hdr.dstPort⟩ = none := by
  induction hrecv with
  | empty => cases hok
  | rst hpeek => exact h _ _ (List.mem_of_mem_head? hpeek)
  | conn _ _ hne => exact absurd hop hne
  | connRst => exact lookup_removed _ _
  | next _ hres _ ih => exact ih (h.quiet (quiet_of_recvConn hres)) hok hop

theorem Effect.rstInv (he : Effect m now op m') (ho : InOrder m (now, some op)) (h : RstInv m) : RstInv m' := by
  cases he with
  | frame _ hsame => exact h.quiet hsame.quiet
  | nonStream ht => exact h.enqRst (ho.nonStream rfl ht)
  | unknown hnone => exact h.enqRst hnone
  | accepted hs _ hadd => exact h.added hadd fun _ => ho.opening rfl (opens_sendPkt hs hadd.admits)
  | refused hs hnone hadd =>
    refine (h.added hadd nofun).enqRst ?_
    cases hadd with
    | refused _ hsame =>
      have hquiet := (m.sweepKillq_swept now).quiet.trans hsame.quiet
      rw [AList.lookup_eq_none] at hnone ⊢
      exact mt hquiet.mem_iff.mp hnone
  | reset => exact h.removeConnection _
  | deliver =>
    exact h.quiet (m.applyConnMutation_quiet _ now fun c => c.sendPkt_sameEnds _ now)
  | receive hrecv => exact hrecv.rstInv (h.quiet m.resyncRxq_quiet)
  | notify =>
    exact h.quiet (m.applyConnMutation_quiet _ now fun c => (VsockConnection.notify_step c _).sameEnds)
  | connect hconn hs hsame hctl hport hadd =>
    have hrxq := hsame.rxq
    refine (allocateLocalPort_rstInv (h.quiet hsame.quiet) hport).added hadd ?_
    intro hok
    subst hok
    have hfree := ho.opening rfl (opens_connect hconn hs hsame hctl hport hadd.admits)
    obtain ⟨_, rfl⟩ := allocateLocalPort_fields hport
    rw [hrxq]
    exact hfree
  | abandon _ _ hsame hport => exact allocateLocalPort_rstInv (h.quiet hsame.quiet) hport
  | sweepKillq => exact h.quiet (m.sweepKillq_swept now).quiet

theorem rstInv_step {a : Nat × Option Op} (h : RstInv m) (hs : InOrder m a ∧ Step m a m') : RstInv m' := by
  obtain ⟨ho, hs⟩ := hs
  cases hs with
  | call happ => exact (apply_effect happ).rstInv ho h
  | rehash hp =>
    intro l p hmem
    rw [AList.perm_lookup hp]
    exact h l p hmem

end Steps

theorem rst_ends_connection {cid : UInt64} {epollCtl : List Bool} {ops : List (Nat × Option Op)} {m : VsockMuxer}
    (hrun : Run (fun m a m' => InOrder m a ∧ Step m a m') (new cid epollCtl) ops m)
    {now : Nat} {pkt pkt' : VsockPacket} {m' : VsockMuxer}
    (hrecv : m.recvPkt pkt now = some (.ok (), pkt', m')) (hop : pkt'.op = opRst) :
    m'.connMap.lookup ⟨pkt'.hdr.srcPort, pkt'.hdr.dstPort⟩ = none := by
  have hinv : RstInv m := by
    refine hrun.invariant (fun _ _ _ => rstInv_step) ?_
    intro l p hmem
    simp [new, MuxerRxQ.default] at hmem
  exact (recvLoop_received hrecv).ends (hinv.quiet m.resyncRxq_quiet) rfl hop

/-- A connection of the guest that has been answered. -/
def guestConnected : List (Nat × Option Op) :=
  [(0, some (.addBackend .unixStream 7 true)),
    (0, some (.sendPkt (guestPkt 1024 opRequest) (some ⟨8, [], [], []⟩))),
    (0, some (.recvPkt ⟨{}, none⟩))]

/-- The guest shuts down both directions. -/
def guestShutdown : TxPacket := .control ⟨3, hostCid, 5000, 1024, 0, typeStream, opShutdown, 3, 65536, 0⟩ rfl

theorem inOrder_of_noRst {m : VsockMuxer} {a : Nat × Option Op}
    (hstream : ∀ {p connected}, a.2 = some (.sendPkt p connected) → p.pkt.hdr.type = typeStream)
    (hrst : ∀ it ∈ m.rxq.q, ∃ key, it = .connRx key) : InOrder m a where
  nonStream hop ht := absurd (hstream hop) ht
  opening _ _ hmem := by
    obtain ⟨key, hit⟩ := hrst _ hmem
    cases hit

/-- After a shutdown the connection yields an RST, and is gone. -/
theorem rst_ends_connection_shutdown :
    ∃ m pkt' m', Run (fun m a m' => InOrder m a ∧ Step m a m') (new 3 [])
        (guestConnected ++ [(0, some (.sendPkt guestShutdown none))]) m ∧
      m.recvPkt ⟨{}, none⟩ 0 = some (.ok (), pkt', m') ∧ pkt'.op = opRst ∧
      pkt'.hdr.srcPort = 1024 ∧ pkt'.hdr.dstPort = 5000 ∧ m'.connMap.lookup ⟨1024, 5000⟩ = none := by
  have hrun : Run (fun m a m' => InOrder m a ∧ Step m a m') (new 3 [])
      (guestConnected ++ [(0, some (.sendPkt guestShutdown none))]) _ :=
    .cons ⟨inOrder_of_noRst nofun nofun, .call rfl⟩
      (.cons ⟨inOrder_of_noRst (by rintro p c ⟨⟩; rfl) nofun, .call rfl⟩
        (.cons ⟨inOrder_of_noRst nofun (by rintro it (_ | ⟨_, ⟨⟩⟩); exact ⟨_, rfl⟩), .call rfl⟩
          (.cons ⟨inOrder_of_noRst (by rintro p c ⟨⟩; rfl) nofun, .call rfl⟩ .nil)))
  exact ⟨_, _, _, hrun, rfl, rfl, rfl, rfl, rst_ends_connection hrun rfl rfl⟩

/-- A packet of the guest whose type is not stream. -/
def guestSeqPkt : TxPacket := .control ⟨3, hostCid, 5000, 1024, 0, 2, opRw, 0, 65536, 0⟩ rfl

theorem nonStream_outlives_rst :
    ∃ m pkt' m' conn, Run Step (new 3 [])
        (guestConnected ++ [(0, some (.sendPkt guestSeqPkt none))]) m ∧
      m.recvPkt ⟨{}, none⟩ 0 = some (.ok (), pkt', m') ∧ pkt'.op = opRst ∧
      m'.connMap.lookup ⟨pkt'.hdr.srcPort, pkt'.hdr.dstPort⟩ = some conn := by
  have hrun : Run Step (new 3 []) (guestConnected ++ [(0, some (.sendPkt guestSeqPkt none))]) _ :=
    .cons (.call rfl) (.cons (.call rfl) (.cons (.call rfl) (.cons (.call rfl) .nil)))
  exact ⟨_, _, _, _, hrun, rfl, rfl, rfl⟩

end Kata.Vsock.VsockMuxer
