import Kata.Lib.Runs
import Kata.Lib.Credit
import Kata.Vsock.Connection

/-!
# Kata.Vsock.FlowControl

Flow control in both directions.

`Link` is the system of a connection and a guest that obeys the credit it is given, with packets on
their way in both directions. It simulates credit-based flow control as such (`Lib.Credit`), with
the counters of the protocol standing for the true numbers modulo `2 ^ 32`, so the transmit buffer
never overflows (`push_never_full`).

Towards the guest the connection relies on the guest: `peer_avail_credit` is a wrapping difference,
so a data packet stays within the buffer of the guest exactly when what is outstanding did so before
(`rw_within_credit_iff`). That holds as long as no packet announces less than what is outstanding
(`covered_run`).
-/

namespace Kata.Vsock

open VsockConnection Lib

/-- The packets on their way are listed with the next to arrive first. `txCnt` counts the bytes that
the guest has sent, `fwdSeen` is the latest `fwd_cnt` it has received. -/
structure Link where
  conn : VsockConnection
  toHost : List TxPacket
  toGuest : List VsockPacket
  txCnt : UInt32
  fwdSeen : UInt32

namespace Link

inductive Event where
  | guestSend (p : TxPacket)
  | deliver (now : Nat)
  | yield (pkt : VsockPacket) (now : Nat)
  | learn
  | notify (evset : EvSet)

/-- The bytes of a packet that count against the credit. -/
def dataLen (p : TxPacket) : Nat := if p.op = opRw then p.pkt.hdr.len.toNat else 0

def init (c : VsockConnection) : Link := ⟨c, [], [], 0, 0⟩

inductive Step (s : Link) : Event → Link → Prop where
  /-- The guest sends data only within the credit that it knows of. -/
  | guestSend {p : TxPacket} :
      (p.op = opRw → p.pkt.hdr.len.toNat + (s.txCnt - s.fwdSeen).toNat ≤ txBufSize) →
      Step s (.guestSend p)
        { s with toHost := s.toHost ++ [p], txCnt := s.txCnt + UInt32.ofNat (dataLen p) }
  | deliver {p : TxPacket} {rest : List TxPacket} {now : Nat} : s.toHost = p :: rest →
      Step s (.deliver now) { s with conn := s.conn.sendPkt p now, toHost := rest }
  | yield {pkt pkt' : VsockPacket} {now : Nat} {c' : VsockConnection} :
      s.conn.recvPkt pkt now = (.ok (), pkt', c') →
      Step s (.yield pkt now) { s with conn := c', toGuest := s.toGuest ++ [pkt'] }
  | yieldError {pkt pkt' : VsockPacket} {now : Nat} {c' : VsockConnection} {e : VsockError} :
      s.conn.recvPkt pkt now = (.error e, pkt', c') →
      Step s (.yield pkt now) { s with conn := c' }
  | learn {q : VsockPacket} {rest : List VsockPacket} : s.toGuest = q :: rest →
      Step s .learn { s with toGuest := rest, fwdSeen := q.hdr.fwdCnt }
  | notify {evset : EvSet} : Step s (.notify evset) { s with conn := s.conn.notify evset }

/-- The link stands for a state of credit-based flow control. -/
structure Sim (s : Link) (a : Credit) : Prop where
  txCnt : s.txCnt = UInt32.ofNat a.sent
  fwdSeen : s.fwdSeen = UInt32.ofNat a.seen
  data : s.toHost.map dataLen = a.data
  acks : s.toGuest.map (·.hdr.fwdCnt) = a.acks.map UInt32.ofNat
  held : s.conn.txBuf.len = a.held
  forwarded : s.conn.stream.accepted.length = a.forwarded
  fwdCnt : s.conn.fwdCnt = UInt32.ofNat a.forwarded

variable {s s' : Link} {a : Credit}

variable {c : VsockConnection}

theorem sim_init (h : c.Fresh) : Sim (init c) ⟨0, 0, [], [], 0, 0⟩ := by
  have hlen : TxBuf.default.len = 0 := by decide
  have hacc : (init c).conn.stream.accepted.length = 0 := List.length_eq_zero_iff.mpr h.accepted
  cases h.isNew with
  | peerInit | localInit => exact ⟨rfl, rfl, rfl, rfl, hlen, hacc, rfl⟩

theorem given_length_le (c : VsockConnection) (p : TxPacket) (now : Nat) :
    (c.given (.sendPkt p now)).length ≤ dataLen p := by
  cases hc : c.consumes p with
  | true =>
    simp only [given, hc, if_true, p.payload_length]
    simp only [consumes, Bool.and_eq_true, beq_iff_eq] at hc
    rw [dataLen, if_pos hc.1.2]
  | false => simp [given, hc]

/-- The data side of a call, in numbers. -/
structure Numbers (a : Credit) (c' : VsockConnection) (len : Nat) : Prop where
  forward : a.forwarded ≤ c'.stream.accepted.length
  bound : c'.stream.accepted.length + c'.txBuf.len ≤ a.forwarded + a.held + len
  fwdCnt : c'.fwdCnt = UInt32.ofNat c'.stream.accepted.length

variable {c' : VsockConnection}

theorem Sim.numbers {buf w : List UInt8} (h : Sim s a) (hm : Moved s.conn c' buf w) : Numbers a c' buf.length := by
  have hle := hm.initial.length_le
  have hacc : c'.stream.accepted.length = a.forwarded + w.length := by
    rw [hm.accepted, List.length_append, h.forwarded]
  simp only [List.length_append, TxBuf.contents_length, h.held] at hle
  refine ⟨by omega, by omega, ?_⟩
  rw [hm.fwdCnt, h.fwdCnt, hacc, UInt32.ofNat_add]

/-! One lemma for each event: which state of credit-based flow control the link stands for after it. -/

theorem Sim.guestSend (h : Sim s a) (p : TxPacket) :
    Sim { s with toHost := s.toHost ++ [p], txCnt := s.txCnt + UInt32.ofNat (dataLen p) }
      { a with sent := a.sent + dataLen p, data := a.data ++ [dataLen p] } := by
  refine ⟨?_, h.fwdSeen, ?_, h.acks, h.held, h.forwarded, h.fwdCnt⟩
  · simp only [h.txCnt, UInt32.ofNat_add]
  · simp only [List.map_append, h.data, List.map_cons, List.map_nil]

variable {p : TxPacket}

theorem Sim.deliver (h : Sim s a) (rest : List TxPacket) (now : Nat) :
    Sim { s with conn := s.conn.sendPkt p now, toHost := rest }
      { a with
        data := rest.map dataLen
        held := (s.conn.sendPkt p now).txBuf.len
        forwarded := (s.conn.sendPkt p now).stream.accepted.length } := by
  obtain ⟨w, hm⟩ := call_moved s.conn (.sendPkt p now)
  exact ⟨h.txCnt, h.fwdSeen, rfl, h.acks, rfl, rfl, (h.numbers hm).fwdCnt⟩

variable {pkt pkt' : VsockPacket} {now : Nat}

theorem Sim.yield (h : Sim s a) (hrecv : s.conn.recvPkt pkt now = (.ok (), pkt', c')) :
    Sim { s with conn := c', toGuest := s.toGuest ++ [pkt'] } { a with acks := a.acks ++ [a.forwarded] } := by
  have hsame := (recvPkt_step s.conn pkt now).sameTx
  have hcnt : pkt'.hdr.fwdCnt = UInt32.ofNat a.forwarded := by
    have hfwd := recvPkt_fwdCnt s.conn pkt now
    rw [hrecv, h.fwdCnt] at hfwd
    exact hfwd
  rw [hrecv] at hsame
  refine ⟨h.txCnt, h.fwdSeen, h.data, ?_, ?_, ?_, ?_⟩
  · simp only [List.map_append, h.acks, List.map_cons, List.map_nil, hcnt]
  · exact hsame.txBuf ▸ h.held
  · exact hsame.accepted ▸ h.forwarded
  · exact hsame.fwdCnt.trans h.fwdCnt

theorem Sim.yieldError (h : Sim s a) {e : VsockError}
    (hrecv : s.conn.recvPkt pkt now = (.error e, pkt', c')) : Sim { s with conn := c' } a := by
  have hsame := (recvPkt_step s.conn pkt now).sameTx
  rw [hrecv] at hsame
  refine ⟨h.txCnt, h.fwdSeen, h.data, h.acks, ?_, ?_, ?_⟩
  · exact hsame.txBuf ▸ h.held
  · exact hsame.accepted ▸ h.forwarded
  · exact hsame.fwdCnt.trans h.fwdCnt

theorem Sim.learn (h : Sim s a) {q : VsockPacket} {rest : List VsockPacket} (hq : s.toGuest = q :: rest) :
    ∃ n acks, a.acks = n :: acks ∧
      Sim { s with toGuest := rest, fwdSeen := q.hdr.fwdCnt } { a with acks := acks, seen := n } := by
  have hacks := h.acks
  rw [hq, List.map_cons] at hacks
  obtain ⟨n, acks, ha, hn, hrest⟩ := List.map_eq_cons_iff.mp hacks.symm
  exact ⟨n, acks, ha, h.txCnt, hn.symm, h.data, hrest.symm, h.held, h.forwarded, h.fwdCnt⟩

theorem Sim.notify (h : Sim s a) (evset : EvSet) : Sim { s with conn := s.conn.notify evset }
      { a with
        held := (s.conn.notify evset).txBuf.len
        forwarded := (s.conn.notify evset).stream.accepted.length } := by
  obtain ⟨w, hm⟩ := call_moved s.conn (.notify evset)
  exact ⟨h.txCnt, h.fwdSeen, h.data, h.acks, rfl, rfl, (h.numbers hm).fwdCnt⟩

theorem simulates_guestSend (h : Sim s a) (hsound : a.Sound txBufSize)
    (hcredit : p.op = opRw → p.pkt.hdr.len.toNat + (s.txCnt - s.fwdSeen).toNat ≤ txBufSize) :
    dataLen p + (a.sent - a.seen) ≤ txBufSize := by
  have hlimited := hsound.limited
  have hdist : (s.txCnt - s.fwdSeen).toNat = a.sent - a.seen := by
    rw [h.txCnt, h.fwdSeen]
    refine toNat_ofNat_sub hsound.seen_le_sent ?_
    simp only [txBufSize] at hlimited
    omega
  unfold dataLen
  split
  · rename_i hop
    rw [← hdist]
    exact hcredit hop
  · omega

variable {rest : List TxPacket}

/-- A delivered packet is received by the abstract system. -/
theorem Sim.receive (h : Sim s a) (hp : s.toHost = p :: rest) (now : Nat) :
    Credit.Step txBufSize a { a with
      data := rest.map dataLen
      held := (s.conn.sendPkt p now).txBuf.len
      forwarded := (s.conn.sendPkt p now).stream.accepted.length } := by
  obtain ⟨w, hm⟩ := call_moved s.conn (.sendPkt p now)
  have hn := h.numbers hm
  have hgiven := given_length_le s.conn p now
  have hdata := h.data
  rw [hp, List.map_cons] at hdata
  exact .receive hdata.symm hn.forward (Nat.le_trans hn.bound (Nat.add_le_add_left hgiven _))

theorem Sim.forward (h : Sim s a) (evset : EvSet) :
    Credit.Step txBufSize a { a with
      held := (s.conn.notify evset).txBuf.len
      forwarded := (s.conn.notify evset).stream.accepted.length } := by
  obtain ⟨w, hm⟩ := call_moved s.conn (.notify evset)
  have hn := h.numbers hm
  exact .forward hn.forward hn.bound

theorem simulates (h : Sim s a) (hsound : a.Sound txBufSize) {e : Event} (hs : Step s e s') :
    ∃ a', (a' = a ∨ Credit.Step txBufSize a a') ∧ Sim s' a' := by
  cases hs with
  | guestSend hcredit => exact ⟨_, .inr (.send (simulates_guestSend h hsound hcredit)), h.guestSend _⟩
  | deliver hp => exact ⟨_, .inr (h.receive hp _), h.deliver _ _⟩
  | yield hrecv => exact ⟨_, .inr .ack, h.yield hrecv⟩
  | yieldError hrecv => exact ⟨a, .inl rfl, h.yieldError hrecv⟩
  | learn hq =>
    obtain ⟨n, acks, ha, hsim⟩ := h.learn hq
    exact ⟨_, .inr (.learn ha), hsim⟩
  | notify => exact ⟨_, .inr (h.forward _), h.notify _⟩

variable {events : List Event}

theorem run_sound (hc : c.Fresh) (hrun : Run Step (init c) events s) : ∃ a, a.Sound txBufSize ∧ Sim s a := by
  refine hrun.invariant (I := fun s => ∃ a : Credit, a.Sound txBufSize ∧ Sim s a) ?_
    ⟨_, .init, sim_init hc⟩
  intro s e s' h hstep
  obtain ⟨a, hsound, hsim⟩ := h
  obtain ⟨a', hmatch, hsim'⟩ := simulates hsim hsound hstep
  cases hmatch with
  | inl hsame => exact ⟨a', hsame ▸ hsound, hsim'⟩
  | inr hstep' => exact ⟨a', hsound.step hstep', hsim'⟩

theorem head_fits (hc : c.Fresh) (hrun : Run Step (init c) events s) (hp : s.toHost = p :: rest)
    (hcons : s.conn.consumes p = true) : s.conn.txBuf.len + p.payload.length ≤ txBufSize := by
  obtain ⟨a, hsound, hsim⟩ := run_sound hc hrun
  have hheld := hsound.held_le
  simp only [consumes, Bool.and_eq_true, beq_iff_eq] at hcons
  have hlen : dataLen p = p.payload.length := by
    rw [dataLen, if_pos hcons.1.2, p.payload_length]
  rw [← hsim.held, ← hsim.data, hp, List.map_cons, List.sum_cons, hlen] at hheld
  omega

theorem push_never_full {c : VsockConnection} {events : List Event} {p : TxPacket}
    {rest : List TxPacket} (hc : c.Fresh) (hrun : Run Step (init c) events s)
    (hp : s.toHost = p :: rest) (hcons : s.conn.consumes p = true) :
    ((s.conn.updateCredit p).sendBytes p.payload).1 ≠ .error .txBufFull ∧
      ∀ now, (s.conn.sendPkt p now).state = .killed →
        ((s.conn.updateCredit p).sendBytes p.payload).1 = .error (.streamWrite .other) := by
  have hfits := head_fits hc hrun hp hcons
  obtain ⟨stream, t, w, hfields, hconsumed⟩ := sendBytes_spec (s.conn.updateCredit p) p.payload
  refine ⟨?_, ?_⟩
  · intro hfull
    cases hconsumed.failure _ hfull with
    | inl h => exact absurd hfits (Nat.not_le_of_lt h.2)
    | inr h => cases h
  · intro now hkilled
    rw [sendPkt_of_consumes now hcons] at hkilled
    have halive : (s.conn.updateCredit p).state ≠ .killed := by
      intro h
      have hstate : s.conn.state = .killed := h
      simp [consumes, hstate, ConnState.fromPeer] at hcons
    obtain ⟨e, he⟩ := sendData_killed halive hkilled
    cases hconsumed.failure e he with
    | inl h => exact absurd hfits (Nat.not_le_of_lt h.2)
    | inr h => rw [he, h]

/-- A packet as large as the buffer, with nothing accepted by the stream. -/
theorem push_never_full_window :
    ∃ s p, Run Step (init (newPeerInit ⟨0, [], [], []⟩ hostCid 3 1024 5000 65536))
        [.yield ⟨{}, none⟩ 0, .guestSend p] s ∧
      p.payload.length = txBufSize ∧ s.toHost = [p] ∧
      ((s.conn.updateCredit p).sendBytes p.payload).1 ≠ .error .txBufFull := by
  have hfit : (List.replicate txBufSize (7 : UInt8)).length ≤ maxPktBufSize :=
    Nat.le_of_eq List.length_replicate
  have hlen : (TxPacket.data (List.replicate txBufSize 7) hfit { bufAlloc := 65536 }).pkt.hdr.len.toNat = txBufSize :=
    (TxPacket.toNat_ofNat_length hfit).trans List.length_replicate
  have hcredit : (TxPacket.data (List.replicate txBufSize 7) hfit { bufAlloc := 65536 }).pkt.hdr.len.toNat +
      ((0 : UInt32) - 0).toNat ≤ txBufSize := by
    rw [hlen]
    decide
  have hrun : Run Step (init (newPeerInit ⟨0, [], [], []⟩ hostCid 3 1024 5000 65536))
      [.yield ⟨{}, none⟩ 0, .guestSend (.data (List.replicate txBufSize 7) hfit { bufAlloc := 65536 })] _ :=
    .cons (.yield rfl) (.cons (.guestSend fun _ => hcredit) .nil)
  exact ⟨_, _, hrun, (TxPacket.payload_length _).trans hlen, rfl,
    (push_never_full ⟨.peerInit _ _ _ _ _ _, rfl⟩ hrun rfl rfl).1⟩

end Link

/-! ## Towards the guest -/

namespace VsockConnection

/-- The bytes sent to the guest that it has not reported as forwarded. -/
def outstanding (c : VsockConnection) : Nat := (c.rxCnt - c.peerFwdCnt).toNat

variable {c : VsockConnection}

theorem peerAvailCredit_eq (h : c.outstanding ≤ c.peerBufAlloc.toNat) :
    c.peerAvailCredit = c.peerBufAlloc.toNat - c.outstanding :=
  UInt32.toNat_sub_of_le _ _ h

variable {c' : VsockConnection} {now : Nat}

variable {result : Except VsockError Unit} {pkt : VsockPacket}

theorem RecvStep.rw_len (h : RecvStep c now result pkt c') (hok : result = .ok ()) (hop : pkt.op = opRw) :
    0 < pkt.hdr.len.toNat ∧ pkt.hdr.len.toNat ≤ c.peerAvailCredit ∧
      c'.rxCnt = c.rxCnt + UInt32.ofNat pkt.hdr.len.toNat := by
  cases h with
  | rst _ h | response _ _ h | request _ _ h | invalid _ _ h | creditRequest _ _ h
  | closed _ _ _ _ h | readError _ _ _ _ h | creditUpdate _ _ h => rw [h] at hop; cases hop
  | bufMissing => cases hok
  | noData => cases hok
  | @data _ s bytes _ _ _ _ hpos hle _ hlen =>
    have hlt : c.peerAvailCredit < UInt32.size := UInt32.toNat_lt_size _
    have hnum : pkt.hdr.len.toNat = bytes.length := by
      rw [hlen]
      exact UInt32.toNat_ofNat_of_lt' (Nat.lt_of_le_of_lt hle hlt)
    rw [hnum]
    exact ⟨hpos, hle, rfl⟩

theorem rw_within_credit_iff {c : VsockConnection} {pkt : VsockPacket} {now : Nat}
    (h : (c.recvPkt pkt now).1 = .ok ()) (hop : (c.recvPkt pkt now).2.1.op = opRw) :
    (c.recvPkt pkt now).2.1.hdr.len.toNat + c.outstanding ≤ c.peerBufAlloc.toNat ↔
      c.outstanding ≤ c.peerBufAlloc.toNat := by
  obtain ⟨_, hle, _⟩ := (recvPkt_step c pkt now).rw_len h hop
  constructor
  · intro hall
    exact Nat.le_trans (Nat.le_add_left _ _) hall
  · intro hout
    rw [peerAvailCredit_eq hout] at hle
    omega

theorem rw_within_credit_first :
    ∃ c, Run CallStep
        (newPeerInit ⟨0, [], [], [.ok [1, 2, 3, 4], .ok [5]]⟩ hostCid 3 1024 5000 65536)
        [.recvPkt ⟨{}, none⟩ 0, .notify ⟨true, false⟩] c ∧
      (c.recvPkt ⟨{}, some (List.replicate 8 0)⟩ 0).2.1.hdr.len.toNat + c.outstanding ≤
        c.peerBufAlloc.toNat := by
  refine ⟨_, .cons rfl (.cons rfl .nil), ?_⟩
  exact (rw_within_credit_iff (by rfl) (by rfl)).mpr (by decide)

/-- The guest has 4 bytes outstanding and announces a buffer of 2; the next byte is sent all the
same. -/
theorem rw_beyond_credit :
    ∃ c, Run CallStep
        (newPeerInit ⟨0, [], [], [.ok [1, 2, 3, 4], .ok [5]]⟩ hostCid 3 1024 5000 65536)
        [.recvPkt ⟨{}, none⟩ 0, .notify ⟨true, false⟩, .recvPkt ⟨{}, some (List.replicate 8 0)⟩ 0,
          .sendPkt (.control { op := opCreditUpdate, bufAlloc := 2 } rfl) 0, .notify ⟨true, false⟩] c ∧
      (c.recvPkt ⟨{}, some (List.replicate 8 0)⟩ 0).1 = .ok () ∧
      (c.recvPkt ⟨{}, some (List.replicate 8 0)⟩ 0).2.1.op = opRw ∧
      ¬ (c.recvPkt ⟨{}, some (List.replicate 8 0)⟩ 0).2.1.hdr.len.toNat + c.outstanding ≤
        c.peerBufAlloc.toNat := by
  refine ⟨_, .cons rfl (.cons rfl (.cons rfl (.cons rfl (.cons rfl .nil)))), ?_, ?_, ?_⟩
  · rfl
  · rfl
  · decide

/-! ### What is asked of the guest -/

/-- A packet from the guest announces a buffer that holds at least what is outstanding. -/
def Covers (c : VsockConnection) : Call → Prop
  | .sendPkt p _ => (c.rxCnt - p.pkt.hdr.fwdCnt).toNat ≤ p.pkt.hdr.bufAlloc.toNat
  | .recvPkt _ _ => True
  | .notify _ => True

/-- The fields of `peer_avail_credit`. -/
structure SameCredit (c c' : VsockConnection) : Prop where
  peerBufAlloc : c'.peerBufAlloc = c.peerBufAlloc
  peerFwdCnt : c'.peerFwdCnt = c.peerFwdCnt
  rxCnt : c'.rxCnt = c.rxCnt

theorem SendStep.sameCredit {p : TxPacket} (h : SendStep c p now c') : SameCredit c c' := by
  cases h with
  | data | failed | response | shutdown | moreShutdown | creditRequest | dropped => exact ⟨rfl, rfl, rfl⟩

theorem NotifyStep.sameCredit (h : NotifyStep c c') : SameCredit c c' := by
  cases h with
  | noFlush | flushed | failed => exact ⟨rfl, rfl, rfl⟩

/-- Only data counts as received, and no more of it than there is credit for. -/
theorem RecvStep.credit (h : RecvStep c now result pkt c') : ∃ n ≤ c.peerAvailCredit,
    c'.peerBufAlloc = c.peerBufAlloc ∧ c'.peerFwdCnt = c.peerFwdCnt ∧ c'.rxCnt = c.rxCnt + UInt32.ofNat n := by
  have hzero : c.rxCnt = c.rxCnt + UInt32.ofNat 0 := (UInt32.add_zero _).symm
  cases h with
  | rst | response | request | invalid | creditRequest | bufMissing | closed | readError =>
    exact ⟨0, Nat.zero_le _, rfl, rfl, hzero⟩
  | data _ _ _ _ _ hle => exact ⟨_, hle, rfl, rfl, rfl⟩
  | creditUpdate _ hd | noData _ hd => cases hd <;> exact ⟨0, Nat.zero_le _, rfl, rfl, hzero⟩

theorem SameCredit.outstanding_le (h : SameCredit c c')
    (hout : c.outstanding ≤ c.peerBufAlloc.toNat) : c'.outstanding ≤ c'.peerBufAlloc.toNat := by
  rw [outstanding, h.rxCnt, h.peerFwdCnt, h.peerBufAlloc]
  exact hout

theorem covered_step {a : Call} (hout : c.outstanding ≤ c.peerBufAlloc.toNat)
    (hcov : c.Covers a) (h : CallStep c a c') : c'.outstanding ≤ c'.peerBufAlloc.toNat := by
  rw [h]
  cases a with
  | sendPkt p now => exact (sendPkt_step c p now).sameCredit.outstanding_le hcov
  | recvPkt pkt now =>
    obtain ⟨n, hn, halloc, hfwd, hrx⟩ := (recvPkt_step c pkt now).credit
    have hlt := c.peerBufAlloc.toNat_lt
    rw [peerAvailCredit_eq hout] at hn
    have hsum : (c.rxCnt + UInt32.ofNat n - c.peerFwdCnt).toNat = c.outstanding + n := by
      refine toNat_add_sub ?_
      rw [← outstanding]
      omega
    rw [call, outstanding, hrx, hfwd, hsum, halloc]
    omega
  | notify evset => exact (notify_step c evset).sameCredit.outstanding_le hout

/-- As long as the packets of the guest cover what is outstanding, every data packet stays within
its buffer. -/
theorem covered_run {calls : List Call} (hc : c.IsNew)
    (hrun : Run (fun c a c' => c.Covers a ∧ CallStep c a c') c calls c') :
    c'.outstanding ≤ c'.peerBufAlloc.toNat := by
  refine hrun.invariant (I := fun c => c.outstanding ≤ c.peerBufAlloc.toNat) ?_ ?_
  · intro c a c' hout h
    exact covered_step hout h.1 h.2
  · cases hc with
    | peerInit => simp [outstanding, newPeerInit]
    | localInit => simp [outstanding, newLocalInit]

theorem covered_run_read : ∃ c : VsockConnection, c.outstanding = 4 ∧ c.outstanding ≤ c.peerBufAlloc.toNat := by
  refine ⟨_, ?_, covered_run (.peerInit ⟨0, [], [], [.ok [1, 2, 3, 4]]⟩ hostCid 3 1024 5000 65536)
    (.cons (a := Call.recvPkt ⟨{}, none⟩ 0) ⟨trivial, rfl⟩ (.cons (a := Call.notify ⟨true, false⟩) ⟨trivial, rfl⟩
      (.cons (a := Call.recvPkt ⟨{}, some (List.replicate 8 0)⟩ 0) ⟨trivial, rfl⟩ .nil)))⟩
  decide

end VsockConnection
end Kata.Vsock
