import Kata.Vsock.Muxer

/-!
# Kata.Vsock.MuxerEffects

What a call of the muxer can do. `Effect` has a constructor for each outcome of a call, with what
the call has checked by then, and every call has one of these outcomes (`apply_effect`). `Received`
is the same for the loop of `recv_pkt`, and `Added` for adding a connection.

Most of what a call does is `Quiet`: no connection comes or goes, no local port is taken or freed,
and no RST is queued.
-/

namespace Kata.Vsock

open VsockConnection

namespace VsockMuxer

/-- The fields other than the listeners and the backends. -/
structure SameCore (m m' : VsockMuxer) : Prop where
  connMap : m'.connMap = m.connMap
  rxq : m'.rxq = m.rxq
  killq : m'.killq = m.killq
  localPortSet : m'.localPortSet = m.localPortSet
  localPortLast : m'.localPortLast = m.localPortLast

theorem SameCore.trans {m m' m'' : VsockMuxer} (h : SameCore m m') (h' : SameCore m' m'') : SameCore m m'' :=
  ⟨h'.connMap.trans h.connMap, h'.rxq.trans h.rxq, h'.killq.trans h.killq,
    h'.localPortSet.trans h.localPortSet, h'.localPortLast.trans h.localPortLast⟩

theorem ctl_sameCore (m : VsockMuxer) : SameCore m m.ctl.2 := by
  unfold ctl
  split <;> exact ⟨rfl, rfl, rfl, rfl, rfl⟩

theorem addListener_sameCore (m : VsockMuxer) (fd : Nat) (listener : EpollListener) :
    SameCore m (m.addListener fd listener).2 := by
  have hctl := m.ctl_sameCore
  unfold addListener
  dsimp only
  split
  · exact hctl.trans ⟨rfl, rfl, rfl, rfl, rfl⟩
  · exact hctl

theorem removeListener_sameCore (m : VsockMuxer) (fd : Nat) : SameCore m (m.removeListener fd) :=
  ⟨rfl, rfl, rfl, rfl, rfl⟩

/-- Updating a listener may fail, and then the connection is killed. -/
theorem updateListener_cases (m : VsockMuxer) (key : ConnMapKey) (fd : Nat) (evset : EvSet) :
    ∃ m', SameCore m m' ∧
      (m.updateListener key fd evset = m' ∨ m.updateListener key fd evset = m'.killConnection key) := by
  unfold updateListener
  split
  · exact ⟨_, m.removeListener_sameCore fd, .inl rfl⟩
  · split
    · rename_i listening old _
      split
      · exact ⟨m, ⟨rfl, rfl, rfl, rfl, rfl⟩, .inl rfl⟩
      · have hset : SameCore m
            { m with listenerMap := m.listenerMap.insert fd (.connection listening evset) } :=
          ⟨rfl, rfl, rfl, rfl, rfl⟩
        dsimp only
        split
        · exact ⟨_, hset.trans (ctl_sameCore _), .inl rfl⟩
        · exact ⟨_, hset.trans (ctl_sameCore _), .inr rfl⟩
    · dsimp only
      split
      · exact ⟨_, m.addListener_sameCore fd _, .inl rfl⟩
      · exact ⟨_, m.addListener_sameCore fd _, .inr rfl⟩

/-- The parts of `apply_conn_mutation`: the connection is replaced, then the queues and the listener
are updated. -/
theorem applyConnMutation_cases (m : VsockMuxer) (key : ConnMapKey) (now : Nat)
    (f : VsockConnection → VsockConnection) :
    (m.connMap.lookup key = none ∧ m.applyConnMutation key now f = m) ∨
    ∃ old m', m.connMap.lookup key = some old ∧
      SameCore ((m.setConn key (mutated key old f)).requeue key old (mutated key old f) now) m' ∧
      (m.applyConnMutation key now f = m' ∨ m.applyConnMutation key now f = m'.killConnection key) := by
  unfold applyConnMutation
  split
  · exact .inl ⟨‹_›, rfl⟩
  · rename_i old hl
    obtain ⟨m', hsame, hout⟩ := updateListener_cases
      ((m.setConn key (mutated key old f)).requeue key old (mutated key old f) now) key
      (mutated key old f).stream.fd (mutated key old f).getPolledEvset
    exact .inr ⟨old, m', hl, hsame, hout⟩

variable {now fuel : Nat} {m : VsockMuxer}

/-- What holds of the muxer before the loop of a sweep, and is kept when an item is popped and its
connection killed if it has expired, holds after the loop. -/
theorem sweepLoop_invariant {I : VsockMuxer → Prop}
    (hpop : ∀ {m key killq}, I m → m.killq.pop now = some (key, killq) →
      I ({ m with killq := killq }.killExpired key now))
    (h : I m) : I (sweepLoop now fuel m) := by
  induction fuel generalizing m with
  | zero => exact h
  | succ fuel ih =>
    unfold sweepLoop
    split
    · exact h
    · exact ih (hpop h ‹_›)

theorem requeue_connMap (m : VsockMuxer) (key : ConnMapKey) (old conn : VsockConnection) (now : Nat) :
    (m.requeue key old conn now).connMap = m.connMap := by
  unfold requeue
  dsimp only
  split
  · split <;> split <;> rfl
  · split <;> rfl

theorem requeue_rxq (m : VsockMuxer) (key : ConnMapKey) (old conn : VsockConnection) (now : Nat) :
    (m.requeue key old conn now).rxq =
      if !old.hasPendingRx && conn.hasPendingRx then (m.rxq.push (.connRx key)).2 else m.rxq := by
  unfold requeue
  dsimp only
  split
  · split <;> split <;> rfl
  · split <;> rfl

theorem ackLocal_cases (conn : VsockConnection) (port : UInt32) :
    ∃ s, ackLocal conn port = { conn with stream := s } ∨
      ackLocal conn port = { conn with stream := s }.kill := by
  unfold ackLocal sendBytesRaw
  cases hw : conn.stream.write (ackMsg port) with
  | mk result s =>
    cases result with
    | error e => exact ⟨s, .inr rfl⟩
    | ok written =>
      dsimp only
      split
      · exact ⟨s, .inl rfl⟩
      · exact ⟨s, .inr rfl⟩

/-! ## What leaves the connections and the ports alone -/

/-- No connection comes or goes, or gets other ports, no local port is taken or freed, and no RST is
queued. -/
structure Quiet (m m' : VsockMuxer) : Prop where
  keys : m'.connMap.keys.Perm m.connMap.keys
  ends : ∀ {key conn'}, m'.connMap.lookup key = some conn' →
    ∃ conn, m.connMap.lookup key = some conn ∧ SameEnds conn conn'
  localPortSet : m'.localPortSet = m.localPortSet
  localPortLast : m'.localPortLast = m.localPortLast
  rst : ∀ {l p}, .rstPkt l p ∈ m'.rxq.q → .rstPkt l p ∈ m.rxq.q

section Quiet

variable {m m' m'' : VsockMuxer} {key : ConnMapKey} {conn : VsockConnection} {now : Nat}

theorem Quiet.trans (h : Quiet m m') (h' : Quiet m' m'') : Quiet m m'' where
  keys := h'.keys.trans h.keys
  ends hl := by
    obtain ⟨conn', hl', hends'⟩ := h'.ends hl
    obtain ⟨conn, hl, hends⟩ := h.ends hl'
    exact ⟨conn, hl, hends.trans hends'⟩
  localPortSet := h'.localPortSet.trans h.localPortSet
  localPortLast := h'.localPortLast.trans h.localPortLast
  rst hrst := h.rst (h'.rst hrst)

/-- Only the queues differ, and no RST is queued. -/
theorem Quiet.of_queues (hc : m'.connMap = m.connMap) (hs : m'.localPortSet = m.localPortSet)
    (hlast : m'.localPortLast = m.localPortLast)
    (hrst : ∀ {l p}, .rstPkt l p ∈ m'.rxq.q → .rstPkt l p ∈ m.rxq.q) : Quiet m m' where
  keys := by rw [hc]
  ends hl := ⟨_, hc ▸ hl, rfl, rfl⟩
  localPortSet := hs
  localPortLast := hlast
  rst := hrst

theorem Quiet.refl (m : VsockMuxer) : Quiet m m := .of_queues rfl rfl rfl id

theorem SameCore.quiet (h : SameCore m m') : Quiet m m' :=
  .of_queues h.connMap h.localPortSet h.localPortLast fun hrst => h.rxq ▸ hrst

theorem Quiet.mem_iff (h : Quiet m m') : key ∈ m'.connMap ↔ key ∈ m.connMap :=
  h.keys.mem_iff

theorem Quiet.length (h : Quiet m m') : m'.connMap.entries.length = m.connMap.entries.length := by
  simpa [AList.keys, List.keys] using h.keys.length_eq

theorem pushRx_quiet (m : VsockMuxer) (key : ConnMapKey) : Quiet m (m.pushRx (.connRx key)) := by
  refine .of_queues rfl rfl rfl ?_
  intro l p hrst
  exact m.rxq.mem_of_push_connRx hrst nofun

theorem pop_quiet (m : VsockMuxer) : Quiet m { m with rxq := m.rxq.pop } :=
  .of_queues rfl rfl rfl List.mem_of_mem_tail

theorem setConn_quiet (hl : m.connMap.lookup key = some conn) {conn' : VsockConnection}
    (hends : SameEnds conn conn') : Quiet m (m.setConn key conn') where
  keys := by
    have hmem : key ∈ m.connMap.keys := AList.lookup_isSome.mp (by rw [hl]; rfl)
    rw [setConn, AList.keys_insert]
    exact (List.perm_cons_erase hmem).symm
  ends := by
    intro k c hk
    by_cases heq : k = key
    · subst heq
      rw [setConn, AList.lookup_insert] at hk
      cases hk
      exact ⟨conn, hl, hends⟩
    · rw [setConn, AList.lookup_insert_ne heq] at hk
      exact ⟨c, hk, rfl, rfl⟩
  localPortSet := rfl
  localPortLast := rfl
  rst := id

theorem killConnection_quiet (m : VsockMuxer) (key : ConnMapKey) : Quiet m (m.killConnection key) := by
  unfold killConnection
  split
  · exact m.pushRx_quiet key
  · rename_i conn hl
    have hset : Quiet m (m.setConn key conn.kill) := setConn_quiet hl ⟨rfl, rfl⟩
    split
    · exact hset
    · exact hset.trans (pushRx_quiet _ key)

theorem requeue_quiet (m : VsockMuxer) (key : ConnMapKey) (old conn : VsockConnection) (now : Nat) :
    Quiet m (m.requeue key old conn now) := by
  have hrx : Quiet m (if !old.hasPendingRx && conn.hasPendingRx then m.pushRx (.connRx key) else m) := by
    split
    · exact m.pushRx_quiet key
    · exact .refl m
  unfold requeue
  dsimp only
  split
  · split
    · exact hrx.trans (.of_queues rfl rfl rfl id)
    · exact hrx
  · exact hrx

variable {f : VsockConnection → VsockConnection}

theorem mutated_sameEnds (key : ConnMapKey) (hf : SameEnds conn (f conn)) : SameEnds conn (mutated key conn f) := by
  unfold mutated
  split
  · obtain ⟨s, hs | hs⟩ := ackLocal_cases (f conn) key.localPort
    · rw [hs]
      exact hf.trans ⟨rfl, rfl⟩
    · rw [hs]
      exact hf.trans ⟨rfl, rfl⟩
  · exact hf

section Quiet

variable (m : VsockMuxer)

theorem applyConnMutation_quiet (key : ConnMapKey) (now : Nat) (hf : ∀ conn, SameEnds conn (f conn)) :
    Quiet m (m.applyConnMutation key now f) := by
  obtain ⟨_, hout⟩ | ⟨old, m', hl, hsame, hout⟩ := m.applyConnMutation_cases key now f
  · rw [hout]
    exact .refl m
  · have hset : Quiet m (m.setConn key (mutated key old f)) :=
      setConn_quiet hl (mutated_sameEnds key (hf old))
    have hm' : Quiet m m' := (hset.trans (requeue_quiet _ _ _ _ _)).trans hsame.quiet
    cases hout with
    | inl hout => exact hout ▸ hm'
    | inr hout => exact hout ▸ hm'.trans (m'.killConnection_quiet key)

/-- What a sweep leaves alone, the listeners included. -/
structure Swept (m m' : VsockMuxer) : Prop where
  quiet : Quiet m m'
  epollCtl : m'.epollCtl = m.epollCtl

theorem killConnection_epollCtl (key : ConnMapKey) : (m.killConnection key).epollCtl = m.epollCtl := by
  unfold killConnection
  split
  · rfl
  · split <;> rfl

theorem sweepLoop_swept (now fuel : Nat) : Swept m (sweepLoop now fuel m) := by
  refine sweepLoop_invariant (I := Swept m) ?_ ⟨.refl m, rfl⟩
  intro m' key killq hm' _
  have hpop : Swept m { m' with killq := killq } :=
    ⟨hm'.quiet.trans (.of_queues rfl rfl rfl id), hm'.epollCtl⟩
  unfold killExpired
  split
  · exact hpop
  · split
    · exact ⟨hpop.quiet.trans (killConnection_quiet _ key),
        (killConnection_epollCtl _ key).trans hpop.epollCtl⟩
    · exact hpop

theorem sweepKillq_swept (now : Nat) : Swept m (m.sweepKillq now) := by
  have hsweep : Swept m (m.sweep now) := m.sweepLoop_swept now _
  unfold sweepKillq
  dsimp only
  split
  · have hagain := sweepLoop_swept
      { m.sweep now with killq := MuxerKillQ.fromConnMap (m.sweep now).connMap now } now
      (MuxerKillQ.fromConnMap (m.sweep now).connMap now).q.length
    have hrebuilt : Quiet (m.sweep now)
        { m.sweep now with killq := MuxerKillQ.fromConnMap (m.sweep now).connMap now } :=
      .of_queues rfl rfl rfl id
    exact ⟨(hsweep.quiet.trans hrebuilt).trans hagain.quiet, hagain.epollCtl.trans hsweep.epollCtl⟩
  · exact hsweep

theorem resyncRxq_quiet : Quiet m m.resyncRxq := by
  unfold resyncRxq
  split
  · refine .of_queues rfl rfl rfl ?_
    intro l p hrst
    obtain ⟨key, conn, hit, -⟩ := MuxerRxQ.of_mem_fromConnMap hrst
    cases hit
  · exact .refl m

theorem recvConn_quiet (key : ConnMapKey) (pkt : VsockPacket) (now : Nat) :
    Quiet m (m.recvConn key pkt now).2.2 := by
  unfold recvConn
  split
  · exact m.pop_quiet
  · have happ : Quiet m (m.applyConnMutation key now fun c => (c.recvPkt pkt now).2.2) :=
      m.applyConnMutation_quiet key now fun c => (recvPkt_step c pkt now).sameEnds
    dsimp only
    split
    · exact happ
    · exact happ.trans (pop_quiet _)

end Quiet

theorem quiet_of_recvConn {pkt pkt' : VsockPacket}
    {result : Except VsockError Unit} (h : m.recvConn key pkt now = (result, pkt', m')) : Quiet m m' := by
  have hquiet := m.recvConn_quiet key pkt now
  rw [h] at hquiet
  exact hquiet

end Quiet

/-! ## Adding a connection -/

/-- There is room for a connection, and the next call of `epoll_ctl` succeeds. -/
def admits (m : VsockMuxer) : Bool :=
  decide (m.connMap.entries.length < maxConnections) && m.epollCtl.head? != some false

/-- What adding a connection to `m` leaves, and whether the connection is there. -/
inductive Added (m : VsockMuxer) (key : ConnMapKey) (conn : VsockConnection) (now : Nat) :
    Bool → VsockMuxer → Prop where
  | added {m' : VsockMuxer} : m.admits = true → SameCore (m.sweepKillq now) m' →
      Added m key conn now true ((m'.pushRx (.connRx key)).setConn key conn)
  | refused {m' : VsockMuxer} : m.admits = false → SameCore (m.sweepKillq now) m' →
      Added m key conn now false m'

variable {conn : VsockConnection}

theorem isNew_pending (h : conn.IsNew) : conn.hasPendingRx = true := by
  cases h with
  | peerInit => exact hasPendingRx_iff.mpr ⟨.response, by simp [newPeerInit]⟩
  | localInit => exact hasPendingRx_iff.mpr ⟨.request, by simp [newLocalInit]⟩

theorem addListener_fst (m : VsockMuxer) (fd : Nat) (listener : EpollListener) :
    (m.addListener fd listener).1 = (m.epollCtl.head? != some false) := by
  unfold addListener ctl
  cases hctl : m.epollCtl with
  | nil => rfl
  | cons ok rest => cases ok <;> rfl

theorem addConnection_added (m : VsockMuxer) (key : ConnMapKey) (now : Nat) (hn : conn.IsNew) :
    Added m key conn now (m.addConnection key conn now).1 (m.addConnection key conn now).2 := by
  have hswept := m.sweepKillq_swept now
  unfold addConnection
  dsimp only
  rw [hswept.quiet.length]
  split
  · rename_i hfull
    exact .refused (by simp [admits]; omega) ⟨rfl, rfl, rfl, rfl, rfl⟩
  · rename_i hroom
    have hlen : m.connMap.entries.length < maxConnections := Nat.lt_of_not_le hroom
    have hlisten := addListener_sameCore (m.sweepKillq now) conn.stream.fd
      (.connection key conn.getPolledEvset)
    rw [addListener_fst, hswept.epollCtl, isNew_pending hn]
    split
    · rename_i hctl
      exact .added (by simp [admits, hlen, hctl]) hlisten
    · rename_i hctl
      exact .refused (by simp [admits, hlen, hctl]) hlisten

/-! ## Allocating a port -/

theorem searchPort_free {used : Finset UInt32} {last port : UInt32}
    (h : searchPort used fuel last = some port) : port ∉ used := by
  induction fuel generalizing last with
  | zero => cases h
  | succ fuel ih =>
    unfold searchPort at h
    split at h
    · exact ih h
    · cases h
      assumption

variable {m' : VsockMuxer} {port : UInt32}

theorem allocateLocalPort_fields (h : m.allocateLocalPort = some (port, m')) :
    port ∉ m.localPortSet ∧
      m' = { m with localPortLast := port, localPortSet := insert port m.localPortSet } := by
  obtain ⟨found, hfound, hout⟩ := Option.map_eq_some_iff.mp h
  cases hout
  exact ⟨searchPort_free hfound, rfl⟩

/-! ## Packets to the guest -/

/-- The passes through the loop of `recv_pkt`, up to the packet that it returns. -/
inductive Received (now : Nat) : VsockMuxer → VsockPacket →
    Except VsockError Unit × VsockPacket × VsockMuxer → Prop where
  | empty {m : VsockMuxer} {pkt : VsockPacket} : m.rxq.peek = none →
      Received now m pkt (.error .noData, pkt, m)
  | rst {m : VsockMuxer} {pkt : VsockPacket} {l p : UInt32} : m.rxq.peek = some (.rstPkt l p) →
      Received now m pkt (.ok (), m.rstPacket pkt l p, { m with rxq := m.rxq.pop })
  | conn {m m' : VsockMuxer} {pkt pkt' : VsockPacket} {key : ConnMapKey} :
      m.rxq.peek = some (.connRx key) → m.recvConn key pkt now = (.ok (), pkt', m') →
      pkt'.op ≠ opRst → Received now m pkt (.ok (), pkt', m')
  | connRst {m m' : VsockMuxer} {pkt pkt' : VsockPacket} {key : ConnMapKey} :
      m.rxq.peek = some (.connRx key) → m.recvConn key pkt now = (.ok (), pkt', m') →
      pkt'.op = opRst →
      Received now m pkt (.ok (), pkt', m'.removeConnection ⟨pkt'.hdr.srcPort, pkt'.hdr.dstPort⟩)
  | next {m m' : VsockMuxer} {pkt pkt' : VsockPacket} {key : ConnMapKey} {e : VsockError}
      {out : Except VsockError Unit × VsockPacket × VsockMuxer} :
      m.rxq.peek = some (.connRx key) → m.recvConn key pkt now = (.error e, pkt', m') →
      Received now m' pkt' out → Received now m pkt out

theorem recvLoop_received {pkt : VsockPacket}
    {out : Except VsockError Unit × VsockPacket × VsockMuxer} (h : recvLoop now fuel m pkt = some out) :
    Received now m pkt out := by
  induction fuel generalizing m pkt with
  | zero => cases h
  | succ fuel ih =>
    unfold recvLoop at h
    split at h
    · cases h
      exact .empty ‹_›
    · cases h
      exact .rst ‹_›
    · rename_i key hpeek
      split at h
      · rename_i pkt' m' hres
        cases h
        split
        · exact .connRst hpeek hres ‹_›
        · exact .conn hpeek hres ‹_›
      · rename_i e pkt' m' hres
        exact .next hpeek hres (ih h)

/-! ## Calls -/

/-- The calls that sweep the kill queue, mostly to make room for a connection. -/
def sweeps (m : VsockMuxer) : Op → Bool
  | .addBackend _ _ _ => false
  | .sendPkt p connected =>
    p.pkt.hdr.type == typeStream && p.pkt.hdr.dstCid == hostCid &&
      (m.connMap.lookup ⟨p.pkt.hdr.dstPort, p.pkt.hdr.srcPort⟩).isNone && p.op == opRequest &&
      m.peerBackend.any (· ∈ m.backendMap) && connected.isSome
  | .recvPkt _ => false
  | .handleEvent fd _ host =>
    match m.listenerMap.lookup fd with
    | some (.localStream _) =>
      match host.port with
      | some (.connect _) => true
      | _ => false
    | some (.passFdStream _) => host.passFd.isSome && host.nonblocking
    | _ => false
  | .sweepKillq => true

/-- The stream and the guest port of the host-initiated connection that a call is to open. -/
def connecting (m : VsockMuxer) : Op → Option (HostStream × UInt32)
  | .handleEvent fd _ host =>
    match m.listenerMap.lookup fd with
    | some (.localStream stream) =>
      match host.port with
      | some (.connect peerPort) => some (stream, peerPort)
      | _ => none
    | some (.passFdStream _) => host.passFd
    | _ => none
  | _ => none

/-- The key of the connection that a call adds. -/
def opens (m : VsockMuxer) (op : Op) : Option ConnMapKey :=
  if m.sweeps op && m.admits then
    match op with
    | .sendPkt p _ => some ⟨p.pkt.hdr.dstPort, p.pkt.hdr.srcPort⟩
    | op =>
      (m.connecting op).bind fun (_, peerPort) =>
        m.allocateLocalPort.map fun (port, _) => ⟨port, peerPort⟩
  else none

inductive Effect (m : VsockMuxer) (now : Nat) : Op → VsockMuxer → Prop where
  | frame {op : Op} {m' : VsockMuxer} : m.connecting op = none → SameCore m m' → Effect m now op m'
  | nonStream {p : TxPacket} {connected : Option HostStream} : p.pkt.hdr.type ≠ typeStream →
      Effect m now (.sendPkt p connected) (m.enqRst p.pkt.hdr.dstPort p.pkt.hdr.srcPort)
  | unknown {p : TxPacket} {connected : Option HostStream} :
      m.connMap.lookup ⟨p.pkt.hdr.dstPort, p.pkt.hdr.srcPort⟩ = none →
      Effect m now (.sendPkt p connected) (m.enqRst p.pkt.hdr.dstPort p.pkt.hdr.srcPort)
  | accepted {p : TxPacket} {stream : HostStream} {m' : VsockMuxer} :
      m.sweeps (.sendPkt p (some stream)) = true →
      m.connMap.lookup ⟨p.pkt.hdr.dstPort, p.pkt.hdr.srcPort⟩ = none →
      Added m ⟨p.pkt.hdr.dstPort, p.pkt.hdr.srcPort⟩ (newPeerInit stream hostCid m.cid p.pkt.hdr.dstPort
        p.pkt.hdr.srcPort p.pkt.hdr.bufAlloc) now true m' →
      Effect m now (.sendPkt p (some stream)) m'
  | refused {p : TxPacket} {stream : HostStream} {m' : VsockMuxer} :
      m.sweeps (.sendPkt p (some stream)) = true →
      m.connMap.lookup ⟨p.pkt.hdr.dstPort, p.pkt.hdr.srcPort⟩ = none →
      Added m ⟨p.pkt.hdr.dstPort, p.pkt.hdr.srcPort⟩ (newPeerInit stream hostCid m.cid p.pkt.hdr.dstPort
        p.pkt.hdr.srcPort p.pkt.hdr.bufAlloc) now false m' →
      Effect m now (.sendPkt p (some stream)) (m'.enqRst p.pkt.hdr.dstPort p.pkt.hdr.srcPort)
  | reset {p : TxPacket} {connected : Option HostStream} {conn : VsockConnection} :
      m.connMap.lookup ⟨p.pkt.hdr.dstPort, p.pkt.hdr.srcPort⟩ = some conn → p.op = opRst →
      Effect m now (.sendPkt p connected) (m.removeConnection ⟨p.pkt.hdr.dstPort, p.pkt.hdr.srcPort⟩)
  | deliver {p : TxPacket} {connected : Option HostStream} :
      p.pkt.hdr.type = typeStream → p.pkt.hdr.dstCid = hostCid →
      Effect m now (.sendPkt p connected)
        (m.applyConnMutation ⟨p.pkt.hdr.dstPort, p.pkt.hdr.srcPort⟩ now fun conn => conn.sendPkt p now)
  | receive {pkt : VsockPacket} {out : Except VsockError Unit × VsockPacket × VsockMuxer} :
      Received now m.resyncRxq pkt out → Effect m now (.recvPkt pkt) out.2.2
  | notify {fd : Nat} {evset : EvSet} {host : HostAnswers} {key : ConnMapKey} :
      m.connecting (.handleEvent fd evset host) = none →
      Effect m now (.handleEvent fd evset host)
        (m.applyConnMutation key now fun conn => conn.notify evset)
  | connect {op : Op} {stream : HostStream} {port peerPort : UInt32} {ok : Bool}
      {a b m' : VsockMuxer} :
      m.connecting op = some (stream, peerPort) → m.sweeps op = true →
      SameCore m a → a.epollCtl = m.epollCtl → a.allocateLocalPort = some (port, b) →
      Added b ⟨port, peerPort⟩ (newLocalInit stream hostCid b.cid port peerPort) now ok m' →
      Effect m now op m'
  | abandon {op : Op} {stream : HostStream} {port peerPort : UInt32} {a m' : VsockMuxer} :
      m.connecting op = some (stream, peerPort) → m.sweeps op = false →
      SameCore m a → a.allocateLocalPort = some (port, m') → Effect m now op m'
  | sweepKillq : Effect m now .sweepKillq (m.sweepKillq now)

section Effect

variable {m m' a : VsockMuxer} {now : Nat}

variable {p : TxPacket} {connected : Option HostStream}

theorem handlePeerRequestPkt_effect (hnone : m.connMap.lookup ⟨p.pkt.hdr.dstPort, p.pkt.hdr.srcPort⟩ = none)
    (hs : m.peerBackend.any (· ∈ m.backendMap) = true → connected.isSome = true →
      m.sweeps (.sendPkt p connected) = true) :
    Effect m now (.sendPkt p connected) (m.handlePeerRequestPkt p connected now) := by
  unfold handlePeerRequestPkt
  split
  · exact .unknown hnone
  · rename_i type htype
    split
    · rename_i hmem
      cases connected with
      | none => exact .unknown hnone
      | some stream =>
        have hsweeps := hs (by simp [htype, hmem]) rfl
        have hadd := m.addConnection_added ⟨p.pkt.hdr.dstPort, p.pkt.hdr.srcPort⟩ now
          (.peerInit stream hostCid m.cid p.pkt.hdr.dstPort p.pkt.hdr.srcPort p.pkt.hdr.bufAlloc)
        dsimp only
        split
        · rename_i hok
          rw [hok] at hadd
          exact .accepted hsweeps hnone hadd
        · rename_i hok
          rw [Bool.eq_false_of_not_eq_true hok] at hadd
          exact .refused hsweeps hnone hadd
    · exact .unknown hnone

theorem sendPkt_effect (m : VsockMuxer) (p : TxPacket) (connected : Option HostStream) (now : Nat) :
    Effect m now (.sendPkt p connected) (m.sendPkt p connected now) := by
  unfold sendPkt
  dsimp only
  split
  · exact .nonStream ‹_›
  · rename_i htype
    have htype := Classical.not_not.mp htype
    split
    · exact .frame rfl ⟨rfl, rfl, rfl, rfl, rfl⟩
    · rename_i hcid
      have hcid := Classical.not_not.mp hcid
      split
      · rename_i hisNone
        have hnone := Option.isNone_iff_eq_none.mp hisNone
        split
        · rename_i hop
          refine handlePeerRequestPkt_effect hnone ?_
          intro hback hconn
          simp only [sweeps, Bool.and_eq_true, beq_iff_eq]
          exact ⟨⟨⟨⟨⟨htype, hcid⟩, hisNone⟩, hop⟩, hback⟩, hconn⟩
        · exact .unknown hnone
      · rename_i hsome
        obtain ⟨conn, hl⟩ := Option.ne_none_iff_exists'.mp (mt Option.isNone_iff_eq_none.mpr hsome)
        split
        · exact .reset hl ‹_›
        · exact .deliver htype hcid

variable {op : Op} {stream : HostStream} {peerPort : UInt32}

theorem addLocalInit_effect
    (hconn : m.connecting op = some (stream, peerPort)) (hs : m.sweeps op = true) (hsame : SameCore m a)
    (hctl : a.epollCtl = m.epollCtl) (hadd : a.addLocalInit stream peerPort now = some m') : Effect m now op m' := by
  unfold addLocalInit at hadd
  obtain ⟨⟨port, b⟩, hport, rfl⟩ := Option.map_eq_some_iff.mp hadd
  exact .connect hconn hs hsame hctl hport
    (b.addConnection_added ⟨port, peerPort⟩ now (.localInit _ _ _ _ _))

theorem handleEvent_effect {fd : Nat} {evset : EvSet} {host : HostAnswers}
    (h : m.handleEvent fd evset host now = some m') : Effect m now (.handleEvent fd evset host) m' := by
  unfold handleEvent at h
  split at h
  · rename_i hl
    cases h
    exact .notify (by simp [connecting, hl])
  · rename_i hl
    have hconn : m.connecting (.handleEvent fd evset host) = none := by simp [connecting, hl]
    split at h
    · split at h
      · cases h
        exact .frame hconn ⟨rfl, rfl, rfl, rfl, rfl⟩
      · cases h
        exact .frame hconn (addListener_sameCore _ _ _)
    · cases h
      exact .frame hconn ⟨rfl, rfl, rfl, rfl, rfl⟩
  · rename_i stream hl
    have hsame := removeListener_sameCore m fd
    dsimp only at h
    split at h
    · rename_i hport
      cases h
      exact .frame (by simp [connecting, hl, hport]) hsame
    · rename_i peerPort hport
      exact addLocalInit_effect (by simp [connecting, hl, hport]) (by simp [sweeps, hl, hport]) hsame
        rfl h
    · rename_i hport
      cases h
      exact .frame (by simp [connecting, hl, hport]) (hsame.trans (addListener_sameCore _ _ _))
  · rename_i hl
    have hsame := removeListener_sameCore m fd
    dsimp only at h
    split at h
    · rename_i hfd
      cases h
      exact .frame (by simp [connecting, hl, hfd]) hsame
    · rename_i stream peerPort hfd
      have hconn : m.connecting (.handleEvent fd evset host) = some (stream, peerPort) := by
        simp [connecting, hl, hfd]
      split at h
      · rename_i hnb
        exact addLocalInit_effect hconn (by simp [sweeps, hl, hfd, hnb]) hsame rfl h
      · rename_i hnb
        obtain ⟨⟨port, b⟩, hport, rfl⟩ := Option.map_eq_some_iff.mp h
        exact .abandon hconn (by simp [sweeps, hl, hnb]) hsame hport
  · rename_i hl
    cases h
    exact .frame (by simp [connecting, hl]) ⟨rfl, rfl, rfl, rfl, rfl⟩

theorem addBackend_sameCore (m : VsockMuxer) (type : VsockBackendType) (fd : Nat) (isPeerBackend : Bool) :
    SameCore m (m.addBackend type fd isPeerBackend) := by
  unfold addBackend
  split
  · exact ⟨rfl, rfl, rfl, rfl, rfl⟩
  · have hlisten := addListener_sameCore m fd (.backend type)
    dsimp only
    split
    · exact hlisten.trans ⟨rfl, rfl, rfl, rfl, rfl⟩
    · exact hlisten

theorem apply_effect (h : m.apply now op = some m') : Effect m now op m' := by
  cases op with
  | addBackend type fd isPeerBackend =>
    cases h
    exact .frame rfl (m.addBackend_sameCore type fd isPeerBackend)
  | sendPkt p connected =>
    cases h
    exact m.sendPkt_effect p connected now
  | recvPkt pkt =>
    obtain ⟨out, hout, rfl⟩ := Option.map_eq_some_iff.mp h
    exact .receive (recvLoop_received hout)
  | handleEvent fd evset host => exact handleEvent_effect h
  | sweepKillq =>
    cases h
    exact .sweepKillq

theorem Added.admits {key : ConnMapKey} {conn : VsockConnection}
    (h : Added m key conn now true m') : m.admits = true := by
  cases h with
  | added hadmits => exact hadmits

theorem opens_sendPkt (hs : m.sweeps (.sendPkt p connected) = true) (ha : m.admits = true) :
    m.opens (.sendPkt p connected) = some ⟨p.pkt.hdr.dstPort, p.pkt.hdr.srcPort⟩ := by
  simp [opens, hs, ha]

variable {port : UInt32} {b : VsockMuxer}

theorem allocateLocalPort_congr (hsame : SameCore m a)
    (h : a.allocateLocalPort = some (port, b)) : ∃ b', m.allocateLocalPort = some (port, b') := by
  unfold allocateLocalPort at h ⊢
  rw [hsame.localPortSet, hsame.localPortLast] at h
  obtain ⟨found, hfound, hout⟩ := Option.map_eq_some_iff.mp h
  cases hout
  rw [hfound]
  exact ⟨_, rfl⟩

theorem opens_connect
    (hconn : m.connecting op = some (stream, peerPort)) (hs : m.sweeps op = true) (hsame : SameCore m a)
    (hctl : a.epollCtl = m.epollCtl) (hport : a.allocateLocalPort = some (port, b))
    (ha : b.admits = true) : m.opens op = some ⟨port, peerPort⟩ := by
  obtain ⟨_, rfl⟩ := allocateLocalPort_fields hport
  obtain ⟨b', hport'⟩ := allocateLocalPort_congr hsame hport
  have hadmits : m.admits = true := by
    simpa [admits, hsame.connMap, hctl] using ha
  unfold opens
  rw [hs, hadmits]
  cases op with
  | handleEvent fd evset host => simp [hconn, hport']
  | _ => cases hconn

end Effect
end VsockMuxer
end Kata.Vsock
