import Kata.Vsock.TxBuf
import Kata.Vsock.Packet
import Kata.Vsock.PendingRx

/-!
# Kata.Vsock.Connection

The vsock connection state machine (`vsock/csm/connection.rs`).

The functions are followed by what each of them can do: `RecvStep`, `SendStep` and `NotifyStep` list
the outcomes of `recv_pkt`, `send_pkt` and `notify` (`recvPkt_step`, `sendPkt_step`, `notify_step`),
`Consumed` describes `send_bytes`. Every invariant of a connection is derived from these.

Time is a number of milliseconds, read once by each call.
-/

namespace Kata.Vsock

inductive ConnState where
  | localInit
  | peerInit
  | established
  | localClosed
  | peerClosed (recvOff sendOff : Bool)
  | killed
deriving DecidableEq, Repr

namespace ConnState

/-- The states in which data from the peer is accepted. -/
def fromPeer : ConnState → Bool
  | .established => true
  | .peerClosed _ sendOff => !sendOff
  | _ => false

/-- The states in which data may be sent to the peer. -/
def toPeer : ConnState → Bool
  | .established => true
  | .peerClosed recvOff _ => !recvOff
  | _ => false

end ConnState

/-- `CONN_CREDIT_UPDATE_THRESHOLD` -/
def connCreditUpdateThreshold : UInt32 := 4 * 1024

def connRequestTimeoutMs : Nat := 2000

def connShutdownTimeoutMs : Nat := 2000

structure EvSet where
  epollIn : Bool
  epollOut : Bool
deriving DecidableEq, Repr

structure VsockConnection where
  state : ConnState
  localCid : UInt64
  peerCid : UInt64
  localPort : UInt32
  peerPort : UInt32
  stream : HostStream
  txBuf : TxBuf
  fwdCnt : UInt32
  peerBufAlloc : UInt32
  peerFwdCnt : UInt32
  rxCnt : UInt32
  lastFwdCntToPeer : UInt32
  pendingRx : PendingRxSet
  expiry : Option Nat

namespace VsockConnection

def newPeerInit (stream : HostStream) (localCid peerCid : UInt64) (localPort peerPort : UInt32)
    (peerBufAlloc : UInt32) : VsockConnection where
  state := .peerInit
  localCid := localCid
  peerCid := peerCid
  localPort := localPort
  peerPort := peerPort
  stream := stream
  txBuf := TxBuf.default
  fwdCnt := 0
  peerBufAlloc := peerBufAlloc
  peerFwdCnt := 0
  rxCnt := 0
  lastFwdCntToPeer := 0
  pendingRx := PendingRxSet.single .response
  expiry := none

def newLocalInit (stream : HostStream) (localCid peerCid : UInt64) (localPort peerPort : UInt32) :
    VsockConnection where
  state := .localInit
  localCid := localCid
  peerCid := peerCid
  localPort := localPort
  peerPort := peerPort
  stream := stream
  txBuf := TxBuf.default
  fwdCnt := 0
  peerBufAlloc := 0
  peerFwdCnt := 0
  rxCnt := 0
  lastFwdCntToPeer := 0
  pendingRx := PendingRxSet.single .request
  expiry := none

variable (c : VsockConnection)

def hasPendingRx : Bool := !c.pendingRx.isEmpty

def willExpire (now : Nat) : Bool :=
  match c.expiry with
  | none => false
  | some t => decide (t > now)

def hasExpired (now : Nat) : Bool :=
  match c.expiry with
  | none => false
  | some t => decide (t ≤ now)

/-- `pending_rx.insert` -/
def schedule (it : PendingRx) : VsockConnection :=
  { c with pendingRx := c.pendingRx.insert it }

/-- `pending_rx.remove` -/
def unschedule (it : PendingRx) : VsockConnection :=
  { c with pendingRx := c.pendingRx.remove it }

def kill : VsockConnection := { c with state := .killed }.schedule .rst

/-- Bypasses the state machine and flow control. -/
def sendBytesRaw (buf : List UInt8) : Except CsmError Nat × VsockConnection :=
  match c.stream.write buf with
  | (.ok cnt, stream) => (.ok cnt, { c with stream := stream })
  | (.error e, stream) => (.error (.streamWrite e), { c with stream := stream })

def peerNeedsCreditUpdate : Bool :=
  UInt32.ofNat txBufSize - (c.fwdCnt - c.lastFwdCntToPeer) < connCreditUpdateThreshold

def peerAvailCredit : Nat :=
  (c.peerBufAlloc - (c.rxCnt - c.peerFwdCnt)).toNat

def needCreditUpdateFromPeer : Bool := c.peerAvailCredit == 0

section Packet

variable (pkt : VsockPacket)

/-- The header is zeroed out first. -/
def initPkt : VsockPacket :=
  { pkt with
    hdr := {
      srcCid := c.localCid
      dstCid := c.peerCid
      srcPort := c.localPort
      dstPort := c.peerPort
      type := typeStream
      bufAlloc := UInt32.ofNat txBufSize
      fwdCnt := c.fwdCnt } }

/-! ## Towards the guest -/

def recvCreditUpdate :
    Except VsockError Unit × VsockPacket × VsockConnection :=
  let c' := c.unschedule .creditUpdate
  if c.pendingRx.contains .creditUpdate && !c'.hasPendingRx then
    (.ok (), pkt.setOp opCreditUpdate, { c' with lastFwdCntToPeer := c'.fwdCnt })
  else (.error .noData, pkt, c')

/-- The packet for a read of the host stream. A read of no bytes means that the stream was closed. -/
def recvRead (bytes : List UInt8) (now : Nat) :
    VsockPacket × VsockConnection :=
  let (pkt, c) :=
    if bytes.length = 0 then
      (((pkt.setOp opShutdown).setFlag flagsShutdownRcv).setFlag flagsShutdownSend,
        { c with state := .localClosed, expiry := some (now + connShutdownTimeoutMs) })
    else (((pkt.fill bytes).setOp opRw).setLen (UInt32.ofNat bytes.length), c)
  (pkt, { c with rxCnt := c.rxCnt + pkt.hdr.len, lastFwdCntToPeer := c.fwdCnt })

/-- The `Rw` indication, which has just been removed. A blocked read falls through to the credit
update. -/
def recvRw (now : Nat) :
    Except VsockError Unit × VsockPacket × VsockConnection :=
  if c.state.toPeer then
    if c.needCreditUpdateFromPeer then
      (.ok (), pkt.setOp opCreditRequest, { c with lastFwdCntToPeer := c.fwdCnt })
    else
      match pkt.buf with
      | none => (.error .pktBufMissing, pkt, c)
      | some buf =>
        match c.stream.read (min buf.length c.peerAvailCredit) with
        | (.ok bytes, stream) => (.ok (), recvRead { c with stream := stream } pkt bytes now)
        | (.error .wouldBlock, stream) => recvCreditUpdate { c with stream := stream } pkt
        | (.error .other, stream) =>
          (.ok (), pkt.setOp opRst, { c with stream := stream, lastFwdCntToPeer := c.fwdCnt })
  else (.ok (), pkt.setOp opRst, c)

def recvPkt (now : Nat) :
    Except VsockError Unit × VsockPacket × VsockConnection :=
  let pkt := c.initPkt pkt
  if c.pendingRx.contains .rst then (.ok (), pkt.setOp opRst, c.unschedule .rst)
  else if c.pendingRx.contains .response then
    (.ok (), pkt.setOp opResponse, { c with pendingRx := c.pendingRx.remove .response, state := .established })
  else if c.pendingRx.contains .request then
    (.ok (), pkt.setOp opRequest,
      { c with
        pendingRx := c.pendingRx.remove .request, expiry := some (now + connRequestTimeoutMs) })
  else if c.pendingRx.contains .rw then recvRw (c.unschedule .rw) pkt now
  else recvCreditUpdate c pkt

end Packet

/-! ## Towards the host -/

def sendBytes (buf : List UInt8) : Except CsmError Unit × VsockConnection :=
  if !c.txBuf.isEmpty then
    match c.txBuf.push buf with
    | .ok txBuf => (.ok (), { c with txBuf := txBuf })
    | .error e => (.error e, c)
  else
    match c.stream.write buf with
    | (.error .other, stream) => (.error (.streamWrite .other), { c with stream := stream })
    | (.error .wouldBlock, stream) => pushRest { c with stream := stream } buf 0
    | (.ok written, stream) => pushRest { c with stream := stream } buf written
where
  /-- What is left of `buf` after `written` bytes goes to the buffer. -/
  pushRest (c : VsockConnection) (buf : List UInt8) (written : Nat) :
      Except CsmError Unit × VsockConnection :=
    let c := { c with fwdCnt := c.fwdCnt + UInt32.ofNat written }
    if written < buf.length then
      match c.txBuf.push (buf.drop written) with
      | .ok txBuf => (.ok (), { c with txBuf := txBuf })
      | .error e => (.error e, c)
    else (.ok (), c)

/-- The data of an RW packet. An error is unrecoverable. -/
def sendData (buf : List UInt8) : VsockConnection :=
  match c.sendBytes buf with
  | (.error _, c) => c.kill
  | (.ok (), c) => if c.peerNeedsCreditUpdate then c.schedule .creditUpdate else c

/-- The first SHUTDOWN packet of an established connection. -/
def sendShutdown (recvOff sendOff : Bool) (now : Nat) : VsockConnection :=
  let c := { c with state := .peerClosed recvOff sendOff }
  if recvOff && sendOff then
    if c.txBuf.isEmpty then c.schedule .rst
    else { c with expiry := some (now + connShutdownTimeoutMs) }
  else c

/-- A further SHUTDOWN packet; `recvOff` and `sendOff` are the flags of all of them. The kill timer
is not armed here. -/
def sendMoreShutdown (recvOff sendOff : Bool) : VsockConnection :=
  let c := { c with state := .peerClosed recvOff sendOff }
  if recvOff && sendOff && c.txBuf.isEmpty then c.schedule .rst else c

/-- Every packet updates what is known of the credit of the peer. -/
def updateCredit (p : TxPacket) : VsockConnection :=
  { c with peerBufAlloc := p.pkt.hdr.bufAlloc, peerFwdCnt := p.pkt.hdr.fwdCnt }

/-- A packet that no branch is about is dropped, as is a credit update. -/
def sendPkt (p : TxPacket) (now : Nat) : VsockConnection :=
  let c := c.updateCredit p
  if c.state.fromPeer && p.op == opRw then
    if p.pkt.buf.isNone then c else c.sendData p.payload
  else
    match c.state with
    | .localInit =>
      if p.op = opResponse then { c with expiry := none, state := .established } else c
    | .established =>
      if p.op = opShutdown then c.sendShutdown p.recvOff p.sendOff now
      else if p.op = opCreditRequest then c.schedule .creditUpdate
      else c
    | .peerClosed recvOff sendOff =>
      if p.op = opShutdown then c.sendMoreShutdown (recvOff || p.recvOff) (sendOff || p.sendOff)
      else if p.op = opCreditRequest && !sendOff then c.schedule .creditUpdate
      else c
    | .peerInit => if p.op = opCreditRequest then c.schedule .creditUpdate else c
    | .localClosed => c
    | .killed => c

/-! ## Events of the host stream -/

def getPolledEvset : EvSet where
  epollOut := !c.txBuf.isEmpty
  epollIn :=
    match c.state with
    | .killed => false
    | .localClosed => false
    | .peerClosed true _ => false
    | _ => !c.needCreditUpdateFromPeer

/-- The result of `flush_to`: a blocked write is absorbed, any other error kills the connection. -/
def flushed : Except CsmError Nat → VsockConnection
  | .ok n => { c with fwdCnt := c.fwdCnt + UInt32.ofNat n }
  | .error (.txBufFlush .wouldBlock) => c
  | .error _ => c.kill

/-- A connection that was only waiting for its buffer to drain is terminated. -/
def afterFlush : VsockConnection :=
  if c.state = .peerClosed true true && c.txBuf.isEmpty then c.schedule .rst
  else if c.peerNeedsCreditUpdate then c.schedule .creditUpdate
  else c

/-- `EPOLLOUT` with data in the buffer. -/
def notifyOut : VsockConnection :=
  let (result, txBuf, stream) := c.txBuf.flushTo c.stream
  ({ c with txBuf := txBuf, stream := stream }.flushed result).afterFlush

def notify (evset : EvSet) : VsockConnection :=
  let c := if evset.epollIn then c.schedule .rw else c
  if evset.epollOut && !c.txBuf.isEmpty then c.notifyOut else c

/-! ## What each call can do -/

section Fields

variable {c : VsockConnection} {it other : PendingRx}

@[simp] theorem contains_schedule : (c.schedule it).pendingRx.contains other =
    (c.pendingRx.contains other || decide (other = it)) := PendingRxSet.contains_insert _ _ _

@[simp] theorem contains_unschedule : (c.unschedule it).pendingRx.contains other =
    (c.pendingRx.contains other && !decide (other = it)) := PendingRxSet.contains_remove _ _ _

theorem hasPendingRx_iff : c.hasPendingRx = true ↔ ∃ it, c.pendingRx.contains it = true := by
  have h := PendingRxSet.isEmpty_iff c.pendingRx
  cases he : c.pendingRx.isEmpty with
  | true =>
    have hnone := h.mp he
    simp [hasPendingRx, he, hnone]
  | false =>
    rw [he] at h
    simpa [hasPendingRx, he] using h

end Fields

/-- How a stream and a buffer take the bytes of `buf`: `w` is what the stream accepts. After an
error some of the last bytes are missing. -/
structure Consumed (s : HostStream) (t : TxBuf) (buf : List UInt8) (result : Except CsmError Unit)
    (s' : HostStream) (t' : TxBuf) (w : List UInt8) : Prop where
  accepted : s'.accepted = s.accepted ++ w
  fd : s'.fd = s.fd
  initial : w ++ t'.contents <+: t.contents ++ buf
  ok : result = .ok () → w ++ t'.contents = t.contents ++ buf
  failure : ∀ e, result = .error e →
    (e = .txBufFull ∧ txBufSize < t.len + buf.length) ∨ e = .streamWrite .other

theorem contents_of_isEmpty {t : TxBuf} (h : t.isEmpty = true) : t.contents = [] := by
  have hlen := t.contents_length
  rw [TxBuf.isEmpty_iff.mp h] at hlen
  exact List.length_eq_zero_iff.mp hlen

/-- The part of `send_bytes` after the write: `written` bytes of `buf` are with the stream already. -/
theorem pushRest_spec (c : VsockConnection) {s : HostStream} {buf : List UInt8} {written : Nat}
    (hempty : c.txBuf.isEmpty = true) (hw : written ≤ buf.length)
    (ha : c.stream.accepted = s.accepted ++ buf.take written) (hf : c.stream.fd = s.fd) :
    ∃ t, (sendBytes.pushRest c buf written).2 =
        { c with txBuf := t, fwdCnt := c.fwdCnt + UInt32.ofNat (buf.take written).length } ∧
      Consumed s c.txBuf buf (sendBytes.pushRest c buf written).1 c.stream t (buf.take written) := by
  have hnil := contents_of_isEmpty hempty
  have hlen : (buf.take written).length = written := List.length_take_of_le hw
  rw [hlen]
  unfold sendBytes.pushRest
  by_cases hlt : written < buf.length
  · obtain ⟨hover, hpush⟩ | ⟨_, t, hpush, hcont, _⟩ := c.txBuf.push_spec (buf.drop written)
    · refine ⟨c.txBuf, ?_⟩
      simp only [hlt, if_true, hpush, true_and]
      refine ⟨ha, hf, ?_, nofun, ?_⟩
      · rw [hnil, List.append_nil, List.nil_append]
        exact List.take_prefix written buf
      · intro e he
        cases he
        rw [List.length_drop] at hover
        exact .inl ⟨rfl, by omega⟩
    · refine ⟨t, ?_⟩
      have hall : buf.take written ++ t.contents = c.txBuf.contents ++ buf := by
        rw [hcont, hnil, List.nil_append, List.take_append_drop, List.nil_append]
      simp only [hlt, if_true, hpush, true_and]
      exact ⟨ha, hf, hall ▸ List.prefix_rfl, fun _ => hall, nofun⟩
  · have hall : buf.take written ++ c.txBuf.contents = c.txBuf.contents ++ buf := by
      rw [List.take_of_length_le (by omega), hnil, List.append_nil, List.nil_append]
    refine ⟨c.txBuf, ?_⟩
    simp only [hlt, if_false, true_and]
    exact ⟨ha, hf, hall ▸ List.prefix_rfl, fun _ => hall, nofun⟩

theorem sendBytes_spec (c : VsockConnection) (buf : List UInt8) :
    ∃ s t w, (c.sendBytes buf).2 =
        { c with stream := s, txBuf := t, fwdCnt := c.fwdCnt + UInt32.ofNat w.length } ∧
      Consumed c.stream c.txBuf buf (c.sendBytes buf).1 s t w := by
  unfold sendBytes
  cases he : c.txBuf.isEmpty with
  | false =>
    obtain ⟨hover, hpush⟩ | ⟨_, t, hpush, hcont, _⟩ := c.txBuf.push_spec buf
    · refine ⟨c.stream, c.txBuf, [], ?_⟩
      simp only [Bool.not_false, if_true, hpush]
      refine ⟨by simp, by simp, rfl, by simp, nofun, ?_⟩
      intro e he
      cases he
      exact .inl ⟨rfl, hover⟩
    · refine ⟨c.stream, t, [], ?_⟩
      simp only [Bool.not_false, if_true, hpush]
      exact ⟨by simp, by simp, rfl, by simp [hcont], fun _ => by simp [hcont], nofun⟩
  | true =>
    simp only [Bool.not_true]
    split
    · rename_i h; cases h
    · split
      · rename_i stream hw
        obtain ⟨ha, hf⟩ := HostStream.write_error hw
        refine ⟨stream, c.txBuf, [], by simp, by simp [ha], hf, by simp, nofun, ?_⟩
        intro e he
        cases he
        exact .inr rfl
      · rename_i stream hw
        obtain ⟨ha, hf⟩ := HostStream.write_error hw
        obtain ⟨t, hc, hcons⟩ := pushRest_spec { c with stream := stream } he (Nat.zero_le buf.length)
          (by simp [ha]) hf
        exact ⟨stream, t, _, hc, hcons⟩
      · rename_i written stream hw
        obtain ⟨ha, hf⟩ := HostStream.write_ok hw
        obtain ⟨t, hc, hcons⟩ := pushRest_spec { c with stream := stream } he
          (Nat.le_of_lt_succ written.isLt) ha hf
        exact ⟨stream, t, _, hc, hcons⟩

/-- The packets that reach `send_bytes`. -/
def consumes (c : VsockConnection) (p : TxPacket) : Bool :=
  c.state.fromPeer && p.op == opRw && p.pkt.buf.isSome

/-- The outcomes of `send_pkt`, after the update of the credit. -/
inductive SendStep (c : VsockConnection) (p : TxPacket) (now : Nat) : VsockConnection → Prop where
  | data {s : HostStream} {t : TxBuf} {w : List UInt8} {r : PendingRxSet} :
      c.consumes p = true → Consumed c.stream c.txBuf p.payload (.ok ()) s t w →
      r = c.pendingRx ∨ r = c.pendingRx.insert .creditUpdate →
      SendStep c p now
        { c with stream := s, txBuf := t, fwdCnt := c.fwdCnt + UInt32.ofNat w.length, pendingRx := r }
  | failed {e : CsmError} {s : HostStream} {t : TxBuf} {w : List UInt8} :
      c.consumes p = true → Consumed c.stream c.txBuf p.payload (.error e) s t w →
      SendStep c p now
        { c with stream := s, txBuf := t, fwdCnt := c.fwdCnt + UInt32.ofNat w.length }.kill
  | response : c.consumes p = false → c.state = .localInit → p.op = opResponse →
      SendStep c p now { c with expiry := none, state := .established }
  | shutdown : c.consumes p = false → c.state = .established → p.op = opShutdown →
      SendStep c p now
        { c with
          state := .peerClosed p.recvOff p.sendOff
          pendingRx := if p.recvOff && p.sendOff && c.txBuf.isEmpty then c.pendingRx.insert .rst
            else c.pendingRx
          expiry := if p.recvOff && p.sendOff && !c.txBuf.isEmpty then some (now + connShutdownTimeoutMs)
            else c.expiry }
  | moreShutdown {recvOff sendOff : Bool} :
      c.consumes p = false → c.state = .peerClosed recvOff sendOff → p.op = opShutdown →
      SendStep c p now
        { c with
          state := .peerClosed (recvOff || p.recvOff) (sendOff || p.sendOff)
          pendingRx := if (recvOff || p.recvOff) && (sendOff || p.sendOff) && c.txBuf.isEmpty then
            c.pendingRx.insert .rst else c.pendingRx }
  | creditRequest : c.consumes p = false → p.op = opCreditRequest →
      SendStep c p now (c.schedule .creditUpdate)
  | dropped : c.consumes p = false →
      (p.op = opShutdown → ∀ recvOff sendOff, c.state ≠ .peerClosed recvOff sendOff) →
      SendStep c p now c

variable {c : VsockConnection} {p : TxPacket} {now : Nat}

theorem sendData_step (hc : c.consumes p = true) : SendStep c p now (c.sendData p.payload) := by
  obtain ⟨s, t, w, hfields, hcons⟩ := sendBytes_spec c p.payload
  unfold sendData
  split
  · rename_i e c' he
    simp only [he] at hfields hcons
    rw [hfields]
    exact .failed hc hcons
  · rename_i c' he
    simp only [he] at hfields hcons
    rw [hfields]
    split
    · exact .data hc hcons (.inr rfl)
    · exact .data hc hcons (.inl rfl)

theorem sendData_killed {buf : List UInt8} (hc : c.state ≠ .killed)
    (h : (c.sendData buf).state = .killed) : ∃ e, (c.sendBytes buf).1 = .error e := by
  obtain ⟨s, t, w, hfields, _⟩ := sendBytes_spec c buf
  unfold sendData at h
  split at h
  · rename_i e c' he
    exact ⟨e, by rw [he]⟩
  · rename_i c' he
    simp only [he] at hfields
    rw [hfields] at h
    split at h <;> exact absurd h hc

theorem sendPkt_of_consumes (now : Nat)
    (hc : c.consumes p = true) : c.sendPkt p now = (c.updateCredit p).sendData p.payload := by
  simp only [consumes, Bool.and_eq_true] at hc
  have hdata : ((c.updateCredit p).state.fromPeer && p.op == opRw) = true := by
    rw [Bool.and_eq_true]
    exact hc.1
  simp only [sendPkt, hdata, if_true]
  cases hb : p.pkt.buf with
  | none => simp [hb] at hc
  | some b => rfl

theorem sendShutdown_eq (c : VsockConnection) (recvOff sendOff : Bool) (now : Nat) :
    c.sendShutdown recvOff sendOff now =
      { c with
        state := .peerClosed recvOff sendOff
        pendingRx := if recvOff && sendOff && c.txBuf.isEmpty then c.pendingRx.insert .rst
          else c.pendingRx
        expiry := if recvOff && sendOff && !c.txBuf.isEmpty then some (now + connShutdownTimeoutMs)
          else c.expiry } := by
  cases hb : recvOff && sendOff <;> cases he : c.txBuf.isEmpty <;>
    simp [sendShutdown, schedule, hb, he]

theorem sendMoreShutdown_eq (c : VsockConnection) (recvOff sendOff : Bool) :
    c.sendMoreShutdown recvOff sendOff =
      { c with
        state := .peerClosed recvOff sendOff
        pendingRx := if recvOff && sendOff && c.txBuf.isEmpty then c.pendingRx.insert .rst
          else c.pendingRx } := by
  cases hb : recvOff && sendOff && c.txBuf.isEmpty <;> simp [sendMoreShutdown, schedule, hb]

theorem sendPkt_step (c : VsockConnection) (p : TxPacket) (now : Nat) :
    SendStep (c.updateCredit p) p now (c.sendPkt p now) := by
  unfold sendPkt
  generalize c.updateCredit p = c
  dsimp only
  split
  · rename_i hdata
    split
    · rename_i hnone
      refine .dropped ?_ ?_
      · simp [consumes, Option.isNone_iff_eq_none.mp hnone]
      · intro hop
        simp [hop, opShutdown, opRw] at hdata
    · rename_i hsome
      refine sendData_step ?_
      rw [consumes, hdata, Bool.true_and]
      simpa [Option.isSome_iff_ne_none] using hsome
  · rename_i hdata
    have hno : c.consumes p = false := by
      rw [consumes, Bool.eq_false_of_not_eq_true hdata, Bool.false_and]
    cases hstate : c.state with
    | localInit =>
      dsimp only
      split
      · exact .response hno hstate ‹_›
      · exact .dropped hno fun _ => by simp [hstate]
    | established =>
      dsimp only
      split
      · exact sendShutdown_eq c _ _ now ▸ .shutdown hno hstate ‹_›
      · split
        · exact .creditRequest hno ‹_›
        · exact .dropped hno fun _ => by simp [hstate]
    | peerClosed recvOff sendOff =>
      dsimp only
      split
      · exact sendMoreShutdown_eq c _ _ ▸ .moreShutdown hno hstate ‹_›
      · rename_i hop
        split
        · rename_i hreq
          simp only [Bool.and_eq_true, decide_eq_true_eq] at hreq
          exact .creditRequest hno hreq.1
        · exact .dropped hno fun h => absurd h hop
    | peerInit =>
      dsimp only
      split
      · exact .creditRequest hno ‹_›
      · exact .dropped hno fun _ => by simp [hstate]
    | localClosed | killed => exact .dropped hno fun _ => by simp [hstate]

/-- What `recv_pkt` goes on with after the higher indications: the connection as it was, or without
the `Rw` indication after a blocked read. -/
inductive Idle (c : VsockConnection) : VsockConnection → Prop where
  | same : Idle c c
  | blocked {s : HostStream} :
      c.pendingRx.contains .rw = true → s.accepted = c.stream.accepted → s.fd = c.stream.fd →
      Idle c { c with pendingRx := c.pendingRx.remove .rw, stream := s }

/-- The outcomes of `recv_pkt`. -/
inductive RecvStep (c : VsockConnection) (now : Nat) :
    Except VsockError Unit → VsockPacket → VsockConnection → Prop where
  | rst {pkt : VsockPacket} :
      c.pendingRx.contains .rst = true → pkt.op = opRst →
      RecvStep c now (.ok ()) pkt (c.unschedule .rst)
  | response {pkt : VsockPacket} :
      c.pendingRx.contains .rst = false → c.pendingRx.contains .response = true →
      pkt.op = opResponse →
      RecvStep c now (.ok ()) pkt { c with pendingRx := c.pendingRx.remove .response, state := .established }
  | request {pkt : VsockPacket} :
      c.pendingRx.contains .rst = false → c.pendingRx.contains .request = true →
      pkt.op = opRequest →
      RecvStep c now (.ok ()) pkt
        { c with
        pendingRx := c.pendingRx.remove .request, expiry := some (now + connRequestTimeoutMs) }
  | invalid {pkt : VsockPacket} :
      c.pendingRx.contains .rst = false → c.state.toPeer = false → pkt.op = opRst →
      RecvStep c now (.ok ()) pkt (c.unschedule .rw)
  | creditRequest {pkt : VsockPacket} :
      c.pendingRx.contains .rst = false → c.state.toPeer = true → pkt.op = opCreditRequest →
      RecvStep c now (.ok ()) pkt { c with pendingRx := c.pendingRx.remove .rw, lastFwdCntToPeer := c.fwdCnt }
  | bufMissing {pkt : VsockPacket} :
      c.pendingRx.contains .rst = false → c.state.toPeer = true → c.pendingRx.contains .rw = true →
      RecvStep c now (.error .pktBufMissing) pkt (c.unschedule .rw)
  | closed {pkt : VsockPacket} {s : HostStream} :
      c.pendingRx.contains .rst = false → c.state.toPeer = true →
      s.accepted = c.stream.accepted → s.fd = c.stream.fd → pkt.op = opShutdown →
      RecvStep c now (.ok ()) pkt
        { c with
          pendingRx := c.pendingRx.remove .rw, stream := s, state := .localClosed, expiry := some
            (now + connShutdownTimeoutMs),
          lastFwdCntToPeer := c.fwdCnt }
  | data {pkt : VsockPacket} {s : HostStream} {bytes : List UInt8} :
      c.pendingRx.contains .rst = false → c.state.toPeer = true →
      s.accepted = c.stream.accepted → s.fd = c.stream.fd →
      0 < bytes.length → bytes.length ≤ c.peerAvailCredit →
      pkt.op = opRw → pkt.hdr.len = UInt32.ofNat bytes.length →
      RecvStep c now (.ok ()) pkt
        { c with
          pendingRx := c.pendingRx.remove .rw, stream := s, rxCnt := c.rxCnt + UInt32.ofNat
            bytes.length, lastFwdCntToPeer := c.fwdCnt }
  | readError {pkt : VsockPacket} {s : HostStream} :
      c.pendingRx.contains .rst = false → c.state.toPeer = true →
      s.accepted = c.stream.accepted → s.fd = c.stream.fd → pkt.op = opRst →
      RecvStep c now (.ok ()) pkt
        { c with
          pendingRx := c.pendingRx.remove .rw, stream := s, lastFwdCntToPeer := c.fwdCnt }
  | creditUpdate {pkt : VsockPacket} {d : VsockConnection} :
      c.pendingRx.contains .rst = false → Idle c d → pkt.op = opCreditUpdate →
      RecvStep c now (.ok ()) pkt { d with
        pendingRx := d.pendingRx.remove .creditUpdate, lastFwdCntToPeer := d.fwdCnt }
  | noData {pkt : VsockPacket} {d : VsockConnection} :
      c.pendingRx.contains .rst = false → Idle c d → (d.unschedule .creditUpdate).hasPendingRx = false →
      RecvStep c now (.error .noData) pkt (d.unschedule .creditUpdate)

variable {pkt : VsockPacket}

theorem recvCreditUpdate_step {c d : VsockConnection} (hrst : c.pendingRx.contains .rst = false) (hd : Idle c d)
    (hquiet : ∀ it, it ≠ .creditUpdate → d.pendingRx.contains it = false) :
    RecvStep c now (d.recvCreditUpdate pkt).1 (d.recvCreditUpdate pkt).2.1
      (d.recvCreditUpdate pkt).2.2 := by
  have hnone : (d.unschedule .creditUpdate).hasPendingRx = false := by
    refine Bool.eq_false_of_not_eq_true fun h => ?_
    obtain ⟨it, hit⟩ := hasPendingRx_iff.mp h
    by_cases hc : it = .creditUpdate
    · simp [hc] at hit
    · simp [hquiet it hc] at hit
  unfold recvCreditUpdate
  dsimp only
  split
  · exact .creditUpdate hrst hd rfl
  · exact .noData hrst hd hnone

theorem recvRead_step {s : HostStream} {bytes : List UInt8} (hrst : c.pendingRx.contains .rst = false)
    (hto : c.state.toPeer = true) (ha : s.accepted = c.stream.accepted) (hf : s.fd = c.stream.fd)
    (hle : bytes.length ≤ c.peerAvailCredit) (hlen : pkt.hdr.len = 0) :
    RecvStep c now (.ok ()) (recvRead { c with pendingRx := c.pendingRx.remove .rw, stream := s } pkt bytes now).1
      (recvRead { c with pendingRx := c.pendingRx.remove .rw, stream := s } pkt bytes now).2 := by
  by_cases h0 : bytes.length = 0
  · have hsame : (((pkt.setOp opShutdown).setFlag flagsShutdownRcv).setFlag
        flagsShutdownSend).hdr.len = 0 := hlen
    simp only [recvRead, h0, if_true, hsame, UInt32.add_zero]
    exact .closed hrst hto ha hf rfl
  · simp only [recvRead, h0, if_false]
    exact .data hrst hto ha hf (Nat.pos_of_ne_zero h0) hle rfl rfl

theorem recvRw_step (hrst : c.pendingRx.contains .rst = false) (hres : c.pendingRx.contains .response = false)
    (hreq : c.pendingRx.contains .request = false) (hrw : c.pendingRx.contains .rw = true) (hlen : pkt.hdr.len = 0) :
    RecvStep c now (recvRw (c.unschedule .rw) pkt now).1 (recvRw (c.unschedule .rw) pkt now).2.1
      (recvRw (c.unschedule .rw) pkt now).2.2 := by
  have hstate : (c.unschedule .rw).state = c.state := rfl
  have hcredit : (c.unschedule .rw).peerAvailCredit = c.peerAvailCredit := rfl
  unfold recvRw
  simp only [hstate, hcredit]
  split
  · rename_i hto
    split
    · exact .creditRequest hrst hto rfl
    · split
      · exact .bufMissing hrst hto hrw
      · split
        · rename_i bytes s hread
          obtain ⟨ha, hf⟩ := HostStream.read_frame hread
          have hle := HostStream.read_length hread
          exact recvRead_step hrst hto ha hf (Nat.le_trans hle (Nat.min_le_right _ _)) hlen
        · rename_i s hread
          obtain ⟨ha, hf⟩ := HostStream.read_frame hread
          refine recvCreditUpdate_step hrst (.blocked hrw ha hf) ?_
          intro it hit
          cases it <;> simp [hrst, hres, hreq] at hit ⊢
        · rename_i s hread
          obtain ⟨ha, hf⟩ := HostStream.read_frame hread
          exact .readError hrst hto ha hf rfl
  · exact .invalid hrst (Bool.eq_false_of_not_eq_true ‹_›) rfl

theorem recvPkt_step (c : VsockConnection) (pkt : VsockPacket) (now : Nat) :
    RecvStep c now (c.recvPkt pkt now).1 (c.recvPkt pkt now).2.1 (c.recvPkt pkt now).2.2 := by
  unfold recvPkt
  dsimp only
  split
  · exact .rst ‹_› rfl
  · rename_i hrst
    have hrst' := Bool.eq_false_of_not_eq_true hrst
    split
    · exact .response hrst' ‹_› rfl
    · rename_i hres
      split
      · exact .request hrst' ‹_› rfl
      · rename_i hreq
        have hres' := Bool.eq_false_of_not_eq_true hres
        have hreq' := Bool.eq_false_of_not_eq_true hreq
        split
        · exact recvRw_step hrst' hres' hreq' ‹_› rfl
        · rename_i hrw
          refine recvCreditUpdate_step hrst' .same ?_
          intro it hit
          cases it <;> simp_all

/-- After the header is initialised, only the op, the length and the flags are set. -/
theorem recvPkt_hdr (c : VsockConnection) (pkt : VsockPacket) (now : Nat) :
    ∃ op len flags, (c.recvPkt pkt now).2.1.hdr =
      { (c.initPkt pkt).hdr with op := op, len := len, flags := flags } := by
  have hcredit : ∀ d : VsockConnection, ∃ op len flags, (d.recvCreditUpdate (c.initPkt pkt)).2.1.hdr =
      { (c.initPkt pkt).hdr with op := op, len := len, flags := flags } := by
    intro d
    unfold recvCreditUpdate
    dsimp only
    split <;> exact ⟨_, _, _, rfl⟩
  unfold recvPkt
  dsimp only
  split
  · exact ⟨_, _, _, rfl⟩
  · split
    · exact ⟨_, _, _, rfl⟩
    · split
      · exact ⟨_, _, _, rfl⟩
      · split
        · unfold recvRw
          split
          · split
            · exact ⟨_, _, _, rfl⟩
            · split
              · exact ⟨_, _, _, rfl⟩
              · split
                · unfold recvRead
                  dsimp only
                  split <;> exact ⟨_, _, _, rfl⟩
                · exact hcredit _
                · exact ⟨_, _, _, rfl⟩
          · exact ⟨_, _, _, rfl⟩
        · exact hcredit c

theorem recvPkt_fwdCnt (c : VsockConnection) (pkt : VsockPacket) (now : Nat) :
    (c.recvPkt pkt now).2.1.hdr.fwdCnt = c.fwdCnt := by
  obtain ⟨_, _, _, hhdr⟩ := c.recvPkt_hdr pkt now
  rw [hhdr]
  rfl

/-- The outcomes of `notify`. -/
inductive NotifyStep (c : VsockConnection) : VsockConnection → Prop where
  | noFlush {r : PendingRxSet} :
      c.pendingRx.Grown r → r.contains .rst = c.pendingRx.contains .rst →
      NotifyStep c { c with pendingRx := r }
  | flushed {result : Except CsmError Nat} {s : HostStream} {t : TxBuf} {w : List UInt8}
      {r : PendingRxSet} :
      c.txBuf.isEmpty = false → TxBuf.Flushed c.txBuf c.stream result t s w → c.pendingRx.Grown r →
      (r.contains .rst = true ↔
        c.pendingRx.contains .rst = true ∨ c.state = .peerClosed true true ∧ t.isEmpty = true) →
      NotifyStep c
        { c with stream := s, txBuf := t, fwdCnt := c.fwdCnt + UInt32.ofNat w.length, pendingRx := r }
  | failed {s : HostStream} {r : PendingRxSet} :
      s.accepted = c.stream.accepted → s.fd = c.stream.fd → c.pendingRx.Grown r →
      r.contains .rst = true →
      NotifyStep c { c with stream := s, state := .killed, pendingRx := r }

theorem afterFlush_spec (c : VsockConnection) : ∃ r, c.afterFlush = { c with pendingRx := r } ∧ c.pendingRx.Grown r ∧
      (r.contains .rst = true ↔ c.pendingRx.contains .rst = true ∨
        c.state = .peerClosed true true ∧ c.txBuf.isEmpty = true) := by
  have hg := PendingRxSet.Grown.refl c.pendingRx
  unfold afterFlush
  split
  · rename_i hwait
    simp only [Bool.and_eq_true, decide_eq_true_eq] at hwait
    exact ⟨_, rfl, hg.insert nofun nofun, by simp [hwait]⟩
  · rename_i hwait
    simp only [Bool.and_eq_true, decide_eq_true_eq] at hwait
    have hrst : (c.schedule .creditUpdate).pendingRx.contains .rst = c.pendingRx.contains .rst := by
      simp
    split
    · exact ⟨_, rfl, hg.insert nofun nofun, hrst ▸ (or_iff_left hwait).symm⟩
    · exact ⟨_, rfl, hg, (or_iff_left hwait).symm⟩

theorem notifyOut_step {r : PendingRxSet} (hne : c.txBuf.isEmpty = false)
    (hg : c.pendingRx.Grown r) (hrst : r.contains .rst = c.pendingRx.contains .rst) :
    NotifyStep c { c with pendingRx := r }.notifyOut := by
  obtain ⟨w, hflush⟩ := TxBuf.flushTo_spec c.txBuf c.stream
  unfold notifyOut
  simp only
  generalize c.txBuf.flushTo c.stream = out at hflush
  obtain ⟨result, t, s⟩ := out
  dsimp only at hflush ⊢
  obtain hok | ⟨e, herr, hw, ht⟩ := hflush.result
  · subst hok
    obtain ⟨r', hr, hg', hreap⟩ := afterFlush_spec
      { c with pendingRx := r, txBuf := t, stream := s, fwdCnt := c.fwdCnt + UInt32.ofNat w.length }
    exact hr ▸ .flushed hne hflush (hg.trans hg') (hrst ▸ hreap)
  · subst herr hw ht
    cases e with
    | wouldBlock =>
      obtain ⟨r', hr, hg', hreap⟩ := afterFlush_spec { c with pendingRx := r, stream := s }
      have hstep := NotifyStep.flushed hne hflush (hg.trans hg') (hrst ▸ hreap)
      have hzero : c.fwdCnt + UInt32.ofNat ([] : List UInt8).length = c.fwdCnt :=
        UInt32.add_zero c.fwdCnt
      rw [hzero] at hstep
      exact hr ▸ hstep
    | other =>
      have hkill : c.pendingRx.Grown (r.insert .rst) := hg.insert nofun nofun
      obtain ⟨r', hr, hg', _⟩ := afterFlush_spec { c with pendingRx := r, stream := s }.kill
      have hrst' : r'.contains .rst = true := hg'.mono .rst (by simp [kill])
      have ha : s.accepted = c.stream.accepted := by rw [hflush.accepted, List.append_nil]
      exact hr ▸ .failed ha hflush.fd (hkill.trans hg') hrst'

theorem notify_step (c : VsockConnection) (evset : EvSet) : NotifyStep c (c.notify evset) := by
  have hg := PendingRxSet.Grown.refl c.pendingRx
  have hin : (c.schedule .rw).pendingRx.contains .rst = c.pendingRx.contains .rst := by simp
  have hbuf : ∀ b : TxBuf, (evset.epollOut && !b.isEmpty) = true → b.isEmpty = false := by simp
  unfold notify
  split <;> dsimp only <;> split
  · exact notifyOut_step (hbuf c.txBuf ‹_›) (hg.insert nofun nofun) hin
  · exact .noFlush (hg.insert nofun nofun) hin
  · exact notifyOut_step (hbuf c.txBuf ‹_›) hg rfl
  · exact .noFlush hg rfl

/-! ## Sequences of calls -/

/-- A call on a connection, by the muxer. -/
inductive Call where
  | sendPkt (p : TxPacket) (now : Nat)
  | recvPkt (pkt : VsockPacket) (now : Nat)
  | notify (evset : EvSet)

def call (c : VsockConnection) : Call → VsockConnection
  | .sendPkt p now => c.sendPkt p now
  | .recvPkt pkt now => (c.recvPkt pkt now).2.2
  | .notify evset => c.notify evset

def CallStep (c : VsockConnection) (a : Call) (c' : VsockConnection) : Prop := c' = c.call a

/-- A connection as the muxer creates it. -/
inductive IsNew : VsockConnection → Prop where
  | peerInit (s : HostStream) (localCid peerCid : UInt64) (localPort peerPort peerBufAlloc : UInt32) :
      IsNew (newPeerInit s localCid peerCid localPort peerPort peerBufAlloc)
  | localInit (s : HostStream) (localCid peerCid : UInt64) (localPort peerPort : UInt32) :
      IsNew (newLocalInit s localCid peerCid localPort peerPort)

/-- A new connection on a stream that has not accepted any bytes yet. -/
structure Fresh (c : VsockConnection) : Prop where
  isNew : c.IsNew
  accepted : c.stream.accepted = []

/-! ## The way of the data from guest to host -/

/-- The bytes that a call hands to `send_bytes`. -/
def given (c : VsockConnection) : Call → List UInt8
  | .sendPkt p _ => if c.consumes p then p.payload else []
  | .recvPkt _ _ => []
  | .notify _ => []

/-- What a call does to the data: it hands on `buf`, and the stream accepts `w`. Only a call that
kills the connection loses bytes, the last ones. -/
structure Moved (c c' : VsockConnection) (buf w : List UInt8) : Prop where
  accepted : c'.stream.accepted = c.stream.accepted ++ w
  fwdCnt : c'.fwdCnt = c.fwdCnt + UInt32.ofNat w.length
  initial : w ++ c'.txBuf.contents <+: c.txBuf.contents ++ buf
  all : c'.state ≠ .killed → w ++ c'.txBuf.contents = c.txBuf.contents ++ buf

/-- No data is moved at all. -/
structure SameTx (c c' : VsockConnection) : Prop where
  accepted : c'.stream.accepted = c.stream.accepted
  txBuf : c'.txBuf = c.txBuf
  fwdCnt : c'.fwdCnt = c.fwdCnt

variable {c' : VsockConnection}

theorem SameTx.moved (h : SameTx c c') : Moved c c' [] [] := by
  refine ⟨by simp [h.accepted], ?_, by simp [h.txBuf], fun _ => by simp [h.txBuf]⟩
  rw [h.fwdCnt]
  exact (UInt32.add_zero c.fwdCnt).symm

theorem SendStep.moved (h : SendStep c p now c') : ∃ w, Moved c c' (if c.consumes p then p.payload else []) w := by
  have hnone : c.consumes p = false → SameTx c c' →
      ∃ w, Moved c c' (if c.consumes p then p.payload else []) w := by
    intro hno hm
    rw [hno, if_neg Bool.false_ne_true]
    exact ⟨[], hm.moved⟩
  cases h with
  | data hc hcons =>
    rw [hc, if_pos rfl]
    exact ⟨_, hcons.accepted, rfl, hcons.initial, fun _ => hcons.ok rfl⟩
  | failed hc hcons =>
    rw [hc, if_pos rfl]
    exact ⟨_, hcons.accepted, rfl, hcons.initial, fun h => absurd rfl h⟩
  | response hno | shutdown hno | moreShutdown hno | creditRequest hno
  | dropped hno => exact hnone hno ⟨rfl, rfl, rfl⟩

theorem RecvStep.sameTx {result : Except VsockError Unit} (h : RecvStep c now result pkt c') : SameTx c c' := by
  cases h with
  | rst | response | request | invalid | creditRequest | bufMissing => exact ⟨rfl, rfl, rfl⟩
  | closed _ _ ha | data _ _ ha | readError _ _ ha => exact ⟨ha, rfl, rfl⟩
  | creditUpdate _ hd | noData _ hd =>
    cases hd with
    | same => exact ⟨rfl, rfl, rfl⟩
    | blocked _ ha => exact ⟨ha, rfl, rfl⟩

theorem NotifyStep.moved (h : NotifyStep c c') : ∃ w, Moved c c' [] w := by
  cases h with
  | noFlush => exact ⟨[], SameTx.moved ⟨rfl, rfl, rfl⟩⟩
  | flushed _ hflush =>
    have hall := hflush.contents.symm
    refine ⟨_, hflush.accepted, rfl, ?_, ?_⟩
    · rw [List.append_nil]
      exact hall ▸ List.prefix_rfl
    · intro _
      rw [List.append_nil]
      exact hall
  | failed ha => exact ⟨[], SameTx.moved ⟨ha, rfl, rfl⟩⟩

theorem call_moved (c : VsockConnection) (a : Call) : ∃ w, Moved c (c.call a) (c.given a) w := by
  cases a with
  | sendPkt p now =>
    obtain ⟨w, hm⟩ := (sendPkt_step c p now).moved
    exact ⟨w, hm.accepted, hm.fwdCnt, hm.initial, hm.all⟩
  | recvPkt pkt now => exact ⟨[], (recvPkt_step c pkt now).sameTx.moved⟩
  | notify evset => exact (notify_step c evset).moved

/-! ## The ends of a connection -/

/-- No operation moves a connection to other ports. -/
structure SameEnds (c c' : VsockConnection) : Prop where
  localPort : c'.localPort = c.localPort
  peerPort : c'.peerPort = c.peerPort

theorem SameEnds.trans {c c' c'' : VsockConnection} (h : SameEnds c c') (h' : SameEnds c' c'') : SameEnds c c'' :=
  ⟨h'.localPort.trans h.localPort, h'.peerPort.trans h.peerPort⟩

theorem SendStep.sameEnds (h : SendStep c p now c') : SameEnds c c' := by
  cases h <;> exact ⟨rfl, rfl⟩

theorem sendPkt_sameEnds (c : VsockConnection) (p : TxPacket) (now : Nat) : SameEnds c (c.sendPkt p now) := by
  have hcredit : SameEnds c (c.updateCredit p) := ⟨rfl, rfl⟩
  exact hcredit.trans (sendPkt_step c p now).sameEnds

theorem RecvStep.sameEnds {result : Except VsockError Unit} (h : RecvStep c now result pkt c') : SameEnds c c' := by
  cases h with
  | creditUpdate _ hd | noData _ hd => cases hd <;> exact ⟨rfl, rfl⟩
  | _ => exact ⟨rfl, rfl⟩

theorem NotifyStep.sameEnds (h : NotifyStep c c') : SameEnds c c' := by
  cases h <;> exact ⟨rfl, rfl⟩

/-- A packet of a connection goes from its local to its peer port. -/
theorem recvPkt_ports (c : VsockConnection) (pkt : VsockPacket) (now : Nat) :
    (c.recvPkt pkt now).2.1.hdr.srcPort = c.localPort ∧
      (c.recvPkt pkt now).2.1.hdr.dstPort = c.peerPort := by
  obtain ⟨_, _, _, hhdr⟩ := c.recvPkt_hdr pkt now
  rw [hhdr]
  exact ⟨rfl, rfl⟩

end VsockConnection
end Kata.Vsock
