import Mathlib.Data.Finset.Card
import Kata.Lib.Runs
import Kata.Vsock.MuxerQueues

/-!
# Kata.Vsock.Muxer

The vsock muxer (`muxer/muxer_impl.rs`), which serves all connections of a guest.

The muxer is driven by packets from the guest, by requests for packets to the guest and by epoll
events; `Op` are these calls with what the host answers in them, `Step` is one call. A call reads
the clock once. A step may also reorder the connections, since nothing is known about the order in
which a hash map is iterated. `apply` is `none` where the source does not return.
-/

namespace Kata.Vsock

inductive VsockBackendType where
  | unixStream
  | tcp
  | inner
  | hybridStream
deriving DecidableEq, Repr

inductive EpollListener where
  | connection (key : ConnMapKey) (evset : EvSet)
  | backend (type : VsockBackendType)
  | localStream (stream : HostStream)
  | passFdStream (stream : HostStream)

/-- The command that a host process sends on a new stream. -/
inductive ReadPortResult where
  | passFd
  | connect (port : UInt32)
deriving DecidableEq, Repr

/-- What the host answers while an event is handled: a stream from `accept`, the command read from a
stream, the file descriptor and port passed over it, and whether that could be set to non-blocking. -/
structure HostAnswers where
  stream : Option HostStream
  port : Option ReadPortResult
  passFd : Option (HostStream × UInt32)
  nonblocking : Bool

/-- `epollCtl` are the outcomes of the next calls of `epoll_ctl`; with none left they succeed. -/
structure VsockMuxer where
  cid : UInt64
  connMap : ConnMap
  listenerMap : AList fun _ : Nat => EpollListener
  rxq : MuxerRxQ
  killq : MuxerKillQ
  localPortSet : Finset UInt32
  localPortLast : UInt32
  backendMap : List VsockBackendType
  peerBackend : Option VsockBackendType
  epollCtl : List Bool

namespace VsockMuxer

def new (cid : UInt64) (epollCtl : List Bool) : VsockMuxer where
  cid := cid
  connMap := ∅
  listenerMap := ∅
  rxq := MuxerRxQ.default
  killq := MuxerKillQ.default
  localPortSet := ∅
  localPortLast := ((1 : UInt32) <<< (30 : UInt32)) - 1
  backendMap := []
  peerBackend := none
  epollCtl := epollCtl

/-! ## Listeners and ports -/

variable (m : VsockMuxer)

/-- The outcome of one call of `epoll_ctl`. -/
def ctl : Bool × VsockMuxer :=
  match m.epollCtl with
  | [] => (true, m)
  | ok :: rest => (ok, { m with epollCtl := rest })

def addListener (fd : Nat) (listener : EpollListener) : Bool × VsockMuxer :=
  let (ok, m) := m.ctl
  if ok then (true, { m with listenerMap := m.listenerMap.insert fd listener }) else (false, m)

/-- The muxer after `remove_listener`; a failed `epoll_ctl` is only logged. -/
def removeListener (fd : Nat) : VsockMuxer :=
  { m with listenerMap := m.listenerMap.erase fd }

/-- The port after `last` in the range for host-initiated connections. -/
def nextPort (last : UInt32) :
    UInt32 := ((last + 1) &&& ~~~((1 : UInt32) <<< (31 : UInt32))) ||| ((1 : UInt32) <<< (30 : UInt32))

/-- The search for a free port, `none` after `fuel` ports in use. -/
def searchPort (used : Finset UInt32) : Nat → UInt32 → Option UInt32
  | 0, _ => none
  | fuel + 1, last =>
    if nextPort last ∈ used then searchPort used fuel (nextPort last) else some (nextPort last)

/-- With one port more in use than there are ports in use, the search of the source has come back to
a port it has seen before, and does not end. -/
def allocateLocalPort : Option (UInt32 × VsockMuxer) :=
  (searchPort m.localPortSet (m.localPortSet.card + 1) m.localPortLast).map fun port =>
    (port, { m with localPortLast := port, localPortSet := insert port m.localPortSet })

def freeLocalPort (port : UInt32) : VsockMuxer :=
  { m with localPortSet := m.localPortSet.erase port }

/-! ## Connections -/

def pushRx (rx : MuxerRx) : VsockMuxer := { m with rxq := (m.rxq.push rx).2 }

def enqRst (localPort peerPort : UInt32) : VsockMuxer :=
  m.pushRx (.rstPkt localPort peerPort)

section Key

variable (key : ConnMapKey)

def setConn (conn : VsockConnection) : VsockMuxer :=
  { m with connMap := m.connMap.insert key conn }

def killConnection : VsockMuxer :=
  match m.connMap.lookup key with
  | none => m.pushRx (.connRx key)
  | some conn =>
    if conn.hasPendingRx then m.setConn key conn.kill
    else (m.setConn key conn.kill).pushRx (.connRx key)

def removeConnection : VsockMuxer :=
  match m.connMap.lookup key with
  | none => m.freeLocalPort key.localPort
  | some conn =>
    ({ m with connMap := m.connMap.erase key }.removeListener conn.stream.fd).freeLocalPort
      key.localPort

/-- `OK <port>` and a newline -/
def ackMsg (port : UInt32) : List UInt8 :=
  (['O', 'K', ' '] ++ Nat.toDigits 10 port.toNat ++ ['\n']).map fun c => UInt8.ofNat c.toNat

/-- The host is told that its connection is established. -/
def ackLocal (conn : VsockConnection) (port : UInt32) : VsockConnection :=
  match conn.sendBytesRaw (ackMsg port) with
  | (.ok written, conn) => if written = (ackMsg port).length then conn else conn.kill
  | (.error _, conn) => conn.kill

/-- The listener of a connection that wants the events `evset`. -/
def updateListener (fd : Nat) (evset : EvSet) : VsockMuxer :=
  if !evset.epollIn && !evset.epollOut then m.removeListener fd
  else
    match m.listenerMap.lookup fd with
    | some (.connection listening old) =>
      if old = evset then m
      else
        let m := { m with listenerMap := m.listenerMap.insert fd (.connection listening evset) }
        let (ok, m) := m.ctl
        if ok then m else m.killConnection key
    | _ =>
      let (ok, m) := m.addListener fd (.connection key evset)
      if ok then m else m.killConnection key

/-- The queues after a connection `old` has become `conn`. -/
def requeue (old conn : VsockConnection) (now : Nat) :
    VsockMuxer :=
  let m := if !old.hasPendingRx && conn.hasPendingRx then m.pushRx (.connRx key) else m
  match conn.expiry with
  | some t =>
    if !old.willExpire now && conn.willExpire now then { m with killq := m.killq.push key t } else m
  | none => m

/-- The connection as `apply_conn_mutation` leaves it. -/
def mutated (old : VsockConnection) (f : VsockConnection → VsockConnection) :
    VsockConnection :=
  if old.state = .localInit && (f old).state = .established then ackLocal (f old) key.localPort
  else f old

def applyConnMutation (now : Nat)
    (f : VsockConnection → VsockConnection) : VsockMuxer :=
  match m.connMap.lookup key with
  | none => m
  | some old =>
    let conn := mutated key old f
    ((m.setConn key conn).requeue key old conn now).updateListener key conn.stream.fd
      conn.getPolledEvset

/-! ## The kill queue -/

/-- The connection of a popped item, whose timer may have been disarmed or armed again since. -/
def killExpired (now : Nat) : VsockMuxer :=
  match m.connMap.lookup key with
  | none => m
  | some conn => if conn.hasExpired now then m.killConnection key else m

def sweepLoop (now : Nat) : Nat → VsockMuxer → VsockMuxer
  | 0, m => m
  | fuel + 1, m =>
    match m.killq.pop now with
    | none => m
    | some (key, killq) => sweepLoop now fuel ({ m with killq := killq }.killExpired key now)

/-- The loop of `sweep_killq`: it pops at most as many items as there are. -/
def sweep (now : Nat) : VsockMuxer := sweepLoop now m.killq.q.length m

/-- The queue is built anew at most once, see `sweep_rebuilt`. -/
def sweepKillq (now : Nat) : VsockMuxer :=
  let m := m.sweep now
  if m.killq.isEmpty && !m.killq.synced then
    { m with killq := MuxerKillQ.fromConnMap m.connMap now }.sweep now
  else m

def addConnection (conn : VsockConnection) (now : Nat) :
    Bool × VsockMuxer :=
  let m := m.sweepKillq now
  if m.connMap.entries.length ≥ maxConnections then (false, m)
  else
    let (ok, m) := m.addListener conn.stream.fd (.connection key conn.getPolledEvset)
    if ok then
      let m := if conn.hasPendingRx then m.pushRx (.connRx key) else m
      (true, m.setConn key conn)
    else (false, m)

/-! ## Packets -/

def handlePeerRequestPkt (p : TxPacket) (connected : Option HostStream) (now : Nat) :
    VsockMuxer :=
  let rst (m : VsockMuxer) := m.enqRst p.pkt.hdr.dstPort p.pkt.hdr.srcPort
  match m.peerBackend with
  | none => rst m
  | some type =>
    if type ∈ m.backendMap then
      match connected with
      | none => rst m
      | some stream =>
        let (ok, m) := m.addConnection ⟨p.pkt.hdr.dstPort, p.pkt.hdr.srcPort⟩
          (VsockConnection.newPeerInit stream hostCid m.cid p.pkt.hdr.dstPort p.pkt.hdr.srcPort
            p.pkt.hdr.bufAlloc) now
        if ok then m else rst m
    else rst m

/-- A packet from the guest; `connected` is the answer of the backend to a connection request. -/
def sendPkt (p : TxPacket) (connected : Option HostStream) (now : Nat) : VsockMuxer :=
  let key : ConnMapKey := ⟨p.pkt.hdr.dstPort, p.pkt.hdr.srcPort⟩
  if p.pkt.hdr.type ≠ typeStream then m.enqRst p.pkt.hdr.dstPort p.pkt.hdr.srcPort
  else if p.pkt.hdr.dstCid ≠ hostCid then m
  else if (m.connMap.lookup key).isNone then
    if p.op = opRequest then m.handlePeerRequestPkt p connected now
    else m.enqRst p.pkt.hdr.dstPort p.pkt.hdr.srcPort
  else if p.op = opRst then m.removeConnection key
  else m.applyConnMutation key now fun conn => conn.sendPkt p now

/-- The packet for an RST item. -/
def rstPacket (pkt : VsockPacket) (localPort peerPort : UInt32) : VsockPacket :=
  { pkt with
    hdr := {
      op := opRst
      srcCid := hostCid
      dstCid := m.cid
      srcPort := localPort
      dstPort := peerPort
      type := typeStream } }

/-- The item of a connection at the front of the queue. It is taken off if the connection has
nothing more to send right after it has yielded its packet. -/
def recvConn (pkt : VsockPacket) (now : Nat) :
    Except VsockError Unit × VsockPacket × VsockMuxer :=
  match m.connMap.lookup key with
  | none => (.error .noData, pkt, { m with rxq := m.rxq.pop })
  | some conn =>
    let (result, pkt', conn') := conn.recvPkt pkt now
    let m := m.applyConnMutation key now fun c => (c.recvPkt pkt now).2.2
    (result, pkt', if conn'.hasPendingRx then m else { m with rxq := m.rxq.pop })

end Key

def recvLoop (now : Nat) : Nat → VsockMuxer → VsockPacket →
    Option (Except VsockError Unit × VsockPacket × VsockMuxer)
  | 0, _, _ => none
  | fuel + 1, m, pkt =>
    match m.rxq.peek with
    | none => some (.error .noData, pkt, m)
    | some (.rstPkt localPort peerPort) =>
      some (.ok (), m.rstPacket pkt localPort peerPort, { m with rxq := m.rxq.pop })
    | some (.connRx key) =>
      match m.recvConn key pkt now with
      | (.ok (), pkt, m) =>
        some (.ok (), pkt,
          if pkt.op = opRst then m.removeConnection ⟨pkt.hdr.srcPort, pkt.hdr.dstPort⟩ else m)
      | (.error _, pkt, m) => recvLoop now fuel m pkt

/-- A bound on the passes through the loop, see `recvPkt_isSome`. -/
def recvFuel : Nat := m.rxq.q.length + 7 * m.connMap.entries.length + 1

/-- An empty queue that is out of sync is built anew first. -/
def resyncRxq : VsockMuxer :=
  if m.rxq.isEmpty && !m.rxq.synced then { m with rxq := MuxerRxQ.fromConnMap m.connMap } else m

def recvPkt (pkt : VsockPacket) (now : Nat) :
    Option (Except VsockError Unit × VsockPacket × VsockMuxer) :=
  recvLoop now m.resyncRxq.recvFuel m.resyncRxq pkt

def hasPendingRx : Bool := !m.rxq.isEmpty || !m.rxq.synced

/-! ## Events -/

/-- A host-initiated connection, on a new local port. The port stays allocated if the connection is
refused. -/
def addLocalInit (stream : HostStream) (peerPort : UInt32) (now : Nat) :
    Option VsockMuxer :=
  m.allocateLocalPort.map fun (localPort, m) =>
    (m.addConnection ⟨localPort, peerPort⟩
      (VsockConnection.newLocalInit stream hostCid m.cid localPort peerPort) now).2

def handleEvent (fd : Nat) (evset : EvSet) (host : HostAnswers) (now : Nat) :
    Option VsockMuxer :=
  match m.listenerMap.lookup fd with
  | some (.connection key _) => some (m.applyConnMutation key now fun conn => conn.notify evset)
  | some (.backend type) =>
    -- the limit is compared with the length of the RX queue, which is never that long
    if type ∈ m.backendMap ∧ m.rxq.q.length ≠ maxConnections then
      match host.stream with
      | none => some m
      | some stream => some (m.addListener stream.fd (.localStream stream)).2
    else some m
  | some (.localStream stream) =>
    let m := m.removeListener fd
    match host.port with
    | none => some m
    | some (.connect peerPort) => m.addLocalInit stream peerPort now
    | some .passFd => some (m.addListener stream.fd (.passFdStream stream)).2
  | some (.passFdStream _) =>
    let m := m.removeListener fd
    match host.passFd with
    | none => some m
    | some (stream, peerPort) =>
      if host.nonblocking then m.addLocalInit stream peerPort now
      else m.allocateLocalPort.map (·.2)
  | none => some m

def addBackend (type : VsockBackendType) (fd : Nat) (isPeerBackend : Bool) :
    VsockMuxer :=
  if type ∈ m.backendMap then m
  else
    let (ok, m) := m.addListener fd (.backend type)
    if ok then
      { m with
        backendMap := type :: m.backendMap
        peerBackend := if isPeerBackend then some type else m.peerBackend }
    else m

/-! ## Runs -/

/-- A call of the muxer. Sweeping the kill queue is also a call of its own. -/
inductive Op where
  | addBackend (type : VsockBackendType) (fd : Nat) (isPeerBackend : Bool)
  | sendPkt (p : TxPacket) (connected : Option HostStream)
  | recvPkt (pkt : VsockPacket)
  | handleEvent (fd : Nat) (evset : EvSet) (host : HostAnswers)
  | sweepKillq

def apply (now : Nat) : Op → Option VsockMuxer
  | .addBackend type fd isPeerBackend => some (m.addBackend type fd isPeerBackend)
  | .sendPkt p connected => some (m.sendPkt p connected now)
  | .recvPkt pkt => (m.recvPkt pkt now).map (·.2.2)
  | .handleEvent fd evset host => m.handleEvent fd evset host now
  | .sweepKillq => some (m.sweepKillq now)

/-- A step is labelled with the time and the call, if it is one. -/
inductive Step (m : VsockMuxer) : Nat × Option Op → VsockMuxer → Prop where
  | call {now : Nat} {op : Op} {m' : VsockMuxer} : m.apply now op = some m' → Step m (now, some op) m'
  | rehash {now : Nat} {connMap : ConnMap} : connMap.entries.Perm m.connMap.entries →
      Step m (now, none) { m with connMap := connMap }

end VsockMuxer
end Kata.Vsock
