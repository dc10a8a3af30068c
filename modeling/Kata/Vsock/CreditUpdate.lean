import Kata.Vsock.FlowControl
import Kata.Vsock.RxSync

/-!
# Kata.Vsock.CreditUpdate

The guest is told in time how much the connection has forwarded.

`last_fwd_cnt_to_peer` is what the connection believes it has told the guest. As long as the guest
knows no more than that, what is not told stays within the buffer, and a credit update is pending as
soon as nearly all of it is used (`creditUpdate_pending`). Every packet reports `fwd_cnt`, but a
connection request does so without a record of it. That is harmless as long as no data has been
forwarded before, so the guest must not answer a request that it has not received yet:
`eager_response_starves` is a run in which it does, and is then never told again.

The muxer removes a connection with the RST that it yields, so a run ends there.
-/

namespace Kata.Vsock

open VsockConnection Lib

/-! ## The connection -/

namespace VsockConnection

variable {c d : VsockConnection} {pkt : VsockPacket} {now : Nat}

/-- What the guest has not been told yet. -/
def untold (c : VsockConnection) : Nat := (c.fwdCnt - c.lastFwdCntToPeer).toNat

/-- The credit update is still pending, or the packet reports all `n` bytes and that is on record. -/
def Reported (n : UInt32) (out : Except VsockError Unit × VsockPacket × VsockConnection) : Prop :=
  out.2.2.pendingRx.contains .creditUpdate = true ∨ out.1 = .ok () ∧ out.2.2.lastFwdCntToPeer = n

theorem recvCreditUpdate_reported (h : d.pendingRx.contains .creditUpdate = true)
    (hquiet : ∀ it, it ≠ .creditUpdate → d.pendingRx.contains it = false) :
    Reported d.fwdCnt (d.recvCreditUpdate pkt) := by
  have hnone : (d.unschedule .creditUpdate).hasPendingRx = false := by
    refine Bool.eq_false_of_not_eq_true fun hp => ?_
    obtain ⟨it, hit⟩ := hasPendingRx_iff.mp hp
    by_cases hc : it = .creditUpdate
    · simp [hc] at hit
    · simp [hquiet it hc] at hit
  unfold recvCreditUpdate
  rw [if_pos (by rw [h, hnone]; rfl)]
  exact .inr ⟨rfl, rfl⟩

theorem recvRead_pendingRx (c : VsockConnection) (pkt : VsockPacket) (bytes : List UInt8) (now : Nat) :
    (recvRead c pkt bytes now).2.pendingRx = c.pendingRx := by
  unfold recvRead
  dsimp only
  split
  · rfl
  · rfl

section

variable (h : c.pendingRx.contains .creditUpdate = true)
include h

theorem recvRw_reported (hquiet : ∀ it, it ≠ .creditUpdate → c.pendingRx.contains it = false) :
    Reported c.fwdCnt (recvRw c pkt now) := by
  unfold recvRw
  split
  · split
    · exact .inl h
    · split
      · exact .inl h
      · split
        · left
          rw [recvRead_pendingRx]
          exact h
        · rename_i stream _
          exact recvCreditUpdate_reported (d := { c with stream := stream }) h hquiet
        · exact .inl h
  · exact .inl h

theorem recvPkt_reported : Reported c.fwdCnt (c.recvPkt pkt now) := by
  unfold recvPkt
  dsimp only
  split
  · exact .inl (by simp [h])
  · rename_i hrst
    split
    · exact .inl (by simp [h])
    · rename_i hres
      split
      · exact .inl (by simp [h])
      · rename_i hreq
        split
        · have hquiet : ∀ it, it ≠ .creditUpdate → (c.unschedule .rw).pendingRx.contains it = false := by
            intro it hit
            cases it <;> simp_all
          exact recvRw_reported (c := c.unschedule .rw) (by simp [h]) hquiet
        · refine recvCreditUpdate_reported h ?_
          intro it hit
          cases it <;> simp_all

/-- A credit update is taken off only with a packet that reports all that has been forwarded. -/
theorem recvPkt_clears (hafter : (c.recvPkt pkt now).2.2.pendingRx.contains .creditUpdate = false) :
    (c.recvPkt pkt now).1 = .ok () ∧ (c.recvPkt pkt now).2.1.hdr.fwdCnt = c.fwdCnt ∧
      (c.recvPkt pkt now).2.2.lastFwdCntToPeer = c.fwdCnt := by
  rcases recvPkt_reported h with hstill | ⟨hok, hlast⟩
  · rw [hafter] at hstill
    cases hstill
  · exact ⟨hok, c.recvPkt_fwdCnt pkt now, hlast⟩

end

/-- After data has been forwarded a credit update is pending if there has to be one. -/
def Announced (c : VsockConnection) : Prop :=
  c.state ≠ .killed → c.peerNeedsCreditUpdate = true →
    c.pendingRx.contains .creditUpdate = true ∨ c.pendingRx.contains .rst = true

theorem sendData_announced (c : VsockConnection) (buf : List UInt8) : (c.sendData buf).Announced := by
  unfold sendData
  split
  · intro halive
    exact absurd rfl halive
  · split
    · exact fun _ _ => .inl (by simp)
    · rename_i h
      exact fun _ hneeds => absurd hneeds h

theorem afterFlush_announced (c : VsockConnection) : c.afterFlush.Announced := by
  unfold afterFlush
  split
  · exact fun _ _ => .inr (by simp)
  · split
    · exact fun _ _ => .inl (by simp)
    · rename_i h
      exact fun _ hneeds => absurd hneeds h

/-- Either nothing is flushed, or what has been is announced. -/
theorem notify_announced (c : VsockConnection) (evset : EvSet) :
    (c.notify evset).Announced ∨ ∃ r, c.pendingRx.Grown r ∧ c.notify evset = { c with pendingRx := r } := by
  have hg := PendingRxSet.Grown.refl c.pendingRx
  unfold notify
  split <;> dsimp only <;> split
  · exact .inl (afterFlush_announced _)
  · exact .inr ⟨c.pendingRx.insert .rw, hg.insert nofun nofun, rfl⟩
  · exact .inl (afterFlush_announced _)
  · exact .inr ⟨_, hg, rfl⟩

/-! ### The handshake -/

/-- The handshake is pending only in the initial states, and a killed connection has its RST
pending. -/
structure Opening (c : VsockConnection) : Prop where
  response : c.pendingRx.contains .response = true → c.state = .peerInit ∨ c.state = .killed
  request : c.pendingRx.contains .request = true → c.state = .localInit ∨ c.state = .killed
  killed : c.state = .killed → c.pendingRx.contains .rst = true

variable {c' : VsockConnection}

/-- A packet of the handshake is pending. -/
def handshaking (c : VsockConnection) : Bool := c.pendingRx.contains .response || c.pendingRx.contains .request

theorem handshaking_grown (hg : c.pendingRx.Grown c'.pendingRx) : c'.handshaking = c.handshaking := by
  rw [handshaking, handshaking, hg.response, hg.request]

theorem Opening.not_fromPeer (h : c.Opening) (hopen : c.handshaking = true) : c.state.fromPeer = false := by
  rcases (Bool.or_eq_true _ _).mp hopen with hres | hreq
  · rcases h.response hres with hs | hs <;> rw [hs] <;> rfl
  · rcases h.request hreq with hs | hs <;> rw [hs] <;> rfl

theorem Opening.grown (h : c.Opening) (hg : c.pendingRx.Grown c'.pendingRx) (hstate : c'.state = c.state) :
    c'.Opening := by
  refine ⟨?_, ?_, ?_⟩
  · rw [hg.response, hstate]
    exact h.response
  · rw [hg.request, hstate]
    exact h.request
  · rw [hstate]
    exact fun hk => hg.mono _ (h.killed hk)

theorem Opening.of_killed (hstate : c.state = .killed) (hrst : c.pendingRx.contains .rst = true) : c.Opening :=
  ⟨fun _ => .inr hstate, fun _ => .inr hstate, fun _ => hrst⟩

/-- With the handshake done, any state but `Killed` will do. -/
theorem Opening.of_done (hdone : c.handshaking = false) (hstate : c.state ≠ .killed) : c.Opening := by
  obtain ⟨hres, hreq⟩ := (Bool.or_eq_false_iff).mp hdone
  refine ⟨?_, ?_, fun hk => absurd hk hstate⟩
  · rw [hres]
    exact nofun
  · rw [hreq]
    exact nofun

theorem Opening.done (h : c.Opening) (hfrom : c.state = .established ∨ ∃ r o, c.state = .peerClosed r o) :
    c.handshaking = false := by
  refine (Bool.or_eq_false_iff).mpr ⟨?_, ?_⟩
  · refine Bool.eq_false_of_not_eq_true fun hres => ?_
    rcases h.response hres with hs | hs <;> simp [hs] at hfrom
  · refine Bool.eq_false_of_not_eq_true fun hreq => ?_
    rcases h.request hreq with hs | hs <;> simp [hs] at hfrom

variable {p : TxPacket}

theorem SendStep.opening (hs : SendStep c p now c') (h : c.Opening)
    (hpatient : c.pendingRx.contains .request = true → p.op ≠ opResponse) : c'.Opening := by
  have hg := hs.grown
  cases hs with
  | data | creditRequest => exact h.grown hg rfl
  | failed => exact .of_killed rfl (by simp [kill])
  | response _ hstate hop =>
    refine .of_done ?_ (by simp)
    refine (Bool.or_eq_false_iff).mpr ⟨?_, ?_⟩
    · refine Bool.eq_false_of_not_eq_true fun hres => ?_
      rcases h.response hres with hs | hs <;> rw [hstate] at hs <;> cases hs
    · exact Bool.eq_false_of_not_eq_true fun hreq => hpatient hreq hop
  | shutdown _ hstate =>
    refine .of_done ?_ (by simp)
    rw [handshaking_grown hg, h.done (.inl hstate)]
  | moreShutdown _ hstate =>
    refine .of_done ?_ (by simp)
    rw [handshaking_grown hg, h.done (.inr ⟨_, _, hstate⟩)]
  | dropped => exact h

theorem NotifyStep.opening (hs : NotifyStep c c') (h : c.Opening) : c'.Opening := by
  have hg := hs.grown
  cases hs with
  | noFlush | flushed => exact h.grown hg rfl
  | failed _ _ _ hrst => exact .of_killed rfl hrst

variable {result : Except VsockError Unit}

section

variable (hs : RecvStep c now result pkt c')
include hs

/-- Unless it yields an RST, `recv_pkt` keeps a pending one, and it does not kill. -/
theorem RecvStep.alive (hop : result = .ok () → pkt.op ≠ opRst) :
    c.pendingRx.contains .rst = false ∧ (c'.state = .killed → c.state = .killed) := by
  cases hs with
  | rst _ h => exact absurd h (hop rfl)
  | response hrst | closed hrst => exact ⟨hrst, nofun⟩
  | creditUpdate hrst hd | noData hrst hd => cases hd <;> exact ⟨hrst, id⟩
  | _ hrst => exact ⟨hrst, id⟩

theorem RecvStep.opening (h : c.Opening) (hop : result = .ok () → pkt.op ≠ opRst) : c'.Opening := by
  obtain ⟨hrst, hkill⟩ := hs.alive hop
  have halive : c.state ≠ .killed := by
    intro hk
    rw [h.killed hk] at hrst
    cases hrst
  have hshrunk := hs.shrunk
  refine ⟨?_, ?_, fun hk => absurd (hkill hk) halive⟩
  · intro hres
    have hbefore := h.response (hshrunk _ hres)
    cases hs with
    | response => simp at hres
    | closed _ hto =>
      rcases hbefore with hs | hs <;> simp [hs, ConnState.toPeer] at hto
    | creditUpdate _ hd | noData _ hd => cases hd <;> exact hbefore
    | _ => exact hbefore
  · intro hreq
    have hbefore := h.request (hshrunk _ hreq)
    cases hs with
    | response _ hres =>
      have := h.response hres
      rcases hbefore with hs | hs <;> simp [hs] at this halive
    | closed _ hto =>
      rcases hbefore with hs | hs <;> simp [hs, ConnState.toPeer] at hto
    | creditUpdate _ hd | noData _ hd => cases hd <;> exact hbefore
    | _ => exact hbefore

theorem RecvStep.handshaking_of (h : c'.handshaking = true) : c.handshaking = true := by
  refine (Bool.or_eq_true _ _).mpr ?_
  rcases (Bool.or_eq_true _ _).mp h with hres | hreq
  · exact .inl (hs.shrunk _ hres)
  · exact .inr (hs.shrunk _ hreq)

theorem RecvStep.recorded (hok : result = .ok ()) (hop : pkt.op ≠ opRst) :
    c'.lastFwdCntToPeer = c.fwdCnt ∨ c.handshaking = true ∧ c'.lastFwdCntToPeer = c.lastFwdCntToPeer := by
  cases hs with
  | rst _ h | invalid _ _ h | readError _ _ _ _ h => exact absurd h hop
  | response _ hres => exact .inr ⟨by simp [handshaking, hres], rfl⟩
  | request _ hreq => exact .inr ⟨by simp [handshaking, hreq], rfl⟩
  | bufMissing => cases hok
  | creditUpdate _ hd => cases hd <;> exact .inl rfl
  | noData => cases hok
  | _ => exact .inl rfl

end

theorem SendStep.lastFwdCnt (hs : SendStep c p now c') : c'.lastFwdCntToPeer = c.lastFwdCntToPeer := by
  cases hs <;> rfl

theorem SendStep.no_data (hs : SendStep c p now c') (hno : c.consumes p = false) :
    c'.stream = c.stream ∧ (c.state = .killed → c'.state = .killed) := by
  cases hs with
  | data hc | failed hc => rw [hno] at hc; cases hc
  | response _ h | shutdown _ h | moreShutdown _ h => exact ⟨rfl, by simp [h]⟩
  | creditRequest | dropped => exact ⟨rfl, id⟩

theorem NotifyStep.lastFwdCnt (hs : NotifyStep c c') : c'.lastFwdCntToPeer = c.lastFwdCntToPeer := by
  cases hs <;> rfl

theorem RecvStep.error_lastFwdCnt {e : VsockError} (hs : RecvStep c now (.error e) pkt c') :
    c'.lastFwdCntToPeer = c.lastFwdCntToPeer := by
  cases hs with
  | bufMissing => rfl
  | noData _ hd => cases hd <;> rfl

end VsockConnection

/-! ## The link -/

namespace Link

variable {s s' : Link} {a a' : Credit} {last : Nat}

/-- The bytes that may be untold before a credit update is due. -/
def slack : Nat := txBufSize - connCreditUpdateThreshold.toNat

/-- `last` is the number that `last_fwd_cnt_to_peer` stands for. -/
structure Ledger (s : Link) (a : Credit) (last : Nat) : Prop where
  lastFwdCnt : s.conn.lastFwdCntToPeer = UInt32.ofNat last
  le : last ≤ a.forwarded
  told : ∀ n ∈ a.seen :: a.acks, n ≤ last
  opening : s.conn.Opening
  early : s.conn.handshaking = true → a.forwarded + a.held = 0
  due : s.conn.state ≠ .killed → slack < a.forwarded - last →
    s.conn.pendingRx.contains .creditUpdate = true ∨ s.conn.pendingRx.contains .rst = true

/-- The guest can have sent no more than the buffer holds beyond what it was told. -/
theorem untold_le (hsound : a.Sound txBufSize) (htold : ∀ n ∈ a.seen :: a.acks, n ≤ last) :
    a.forwarded - last ≤ txBufSize := by
  have hseen := htold a.seen List.mem_cons_self
  have harrived := hsound.arrived
  have hlimited := hsound.limited
  omega

variable {c : VsockConnection}

/-- Within the buffer the wrapping differences are the true ones. -/
theorem untold_eq {fwd : Nat} (hfwd : c.fwdCnt = UInt32.ofNat fwd)
    (hlast : c.lastFwdCntToPeer = UInt32.ofNat last) (hle : last ≤ fwd) (hbound : fwd - last ≤ txBufSize) :
    c.untold = fwd - last := by
  have hsize : txBufSize = 65536 := rfl
  rw [untold, hfwd, hlast]
  exact toNat_ofNat_sub hle (by omega)

theorem peerNeedsCreditUpdate_iff (hbound : c.untold ≤ txBufSize) :
    c.peerNeedsCreditUpdate = true ↔ slack < c.untold := by
  have hsize : txBufSize = 65536 := rfl
  have hthreshold : connCreditUpdateThreshold.toNat = 4096 := rfl
  have hfree : (UInt32.ofNat txBufSize - (c.fwdCnt - c.lastFwdCntToPeer)).toNat = txBufSize - c.untold := by
    rw [UInt32.toNat_sub_of_le]
    · rfl
    · rw [UInt32.le_iff_toNat_le]
      exact hbound
  rw [peerNeedsCreditUpdate, decide_eq_true_eq, UInt32.lt_iff_toNat_lt, hfree, slack]
  omega

theorem ledger_init (h : c.Fresh) : Ledger (init c) ⟨0, 0, [], [], 0, 0⟩ 0 := by
  refine ⟨?_, Nat.le_refl 0, by simp, ?_, fun _ => rfl, ?_⟩
  · cases h.isNew with
    | peerInit | localInit => rfl
  · cases h.isNew with
    | peerInit => exact ⟨fun _ => .inl rfl, by simp [init, newPeerInit], by simp [init, newPeerInit]⟩
    | localInit => exact ⟨by simp [init, newLocalInit], fun _ => .inl rfl, by simp [init, newLocalInit]⟩
  · intro _ hslack
    exact absurd hslack (Nat.not_lt_zero _)

theorem Ledger.same (h : Ledger s a last) (hconn : s'.conn = s.conn) (hfwd : a'.forwarded = a.forwarded)
    (hheld : a'.held = a.held) (hsub : ∀ n ∈ a'.seen :: a'.acks, n ∈ a.seen :: a.acks) : Ledger s' a' last := by
  refine ⟨?_, ?_, fun n hn => h.told n (hsub n hn), ?_, ?_, ?_⟩
  · rw [hconn]
    exact h.lastFwdCnt
  · rw [hfwd]
    exact h.le
  · rw [hconn]
    exact h.opening
  · rw [hconn, hfwd, hheld]
    exact h.early
  · rw [hconn, hfwd]
    exact h.due

variable {c' : VsockConnection}

section

variable (h : Ledger s a last)
include h

theorem Ledger.forward {toHost : List TxPacket}
    (hsound : a'.Sound txBufSize) (hsim : Sim { s with conn := c', toHost := toHost } a')
    (hseen : a'.seen = a.seen) (hacks : a'.acks = a.acks) (hle : a.forwarded ≤ a'.forwarded)
    (hearly : s.conn.handshaking = true → a'.forwarded + a'.held ≤ a.forwarded + a.held)
    (hlast : c'.lastFwdCntToPeer = s.conn.lastFwdCntToPeer) (hopening : c'.Opening)
    (hg : s.conn.pendingRx.Grown c'.pendingRx)
    (hannounced : c'.Announced ∨ a'.forwarded = a.forwarded ∧ (s.conn.state = .killed → c'.state = .killed)) :
    Ledger { s with conn := c', toHost := toHost } a' last := by
  have htold : ∀ n ∈ a'.seen :: a'.acks, n ≤ last := by
    rw [hseen, hacks]
    exact h.told
  have hlast' := hlast.trans h.lastFwdCnt
  have hle' := Nat.le_trans h.le hle
  refine ⟨hlast', hle', htold, hopening, ?_, ?_⟩
  · intro hh
    have hh' : s.conn.handshaking = true := by rwa [← handshaking_grown hg]
    have hzero := h.early hh'
    have hkept := hearly hh'
    omega
  · intro halive hslack
    rcases hannounced with hann | ⟨hfwd, hkilled⟩
    · have hbound := untold_le hsound htold
      have huntold := untold_eq (c := c') hsim.fwdCnt hlast' hle' hbound
      exact hann halive ((peerNeedsCreditUpdate_iff (huntold ▸ hbound)).mpr (huntold ▸ hslack))
    · rw [hfwd] at hslack
      rcases h.due (fun hk => halive (hkilled hk)) hslack with hc | hr
      · exact .inl (hg.mono _ hc)
      · exact .inr (hg.mono _ hr)

theorem Ledger.deliver (hsound : a.Sound txBufSize) (hsim : Sim s a) {p : TxPacket}
    {rest : List TxPacket} (hp : s.toHost = p :: rest) (now : Nat)
    (hpatient : s.conn.pendingRx.contains .request = true → p.op ≠ opResponse) :
    Ledger { s with conn := s.conn.sendPkt p now, toHost := rest }
      { a with
        data := rest.map dataLen
        held := (s.conn.sendPkt p now).txBuf.len
        forwarded := (s.conn.sendPkt p now).stream.accepted.length } last := by
  have hs := sendPkt_step s.conn p now
  obtain ⟨w, hm⟩ := call_moved s.conn (.sendPkt p now)
  have hn := hsim.numbers hm
  have hopening : (s.conn.updateCredit p).Opening := ⟨h.opening.response, h.opening.request, h.opening.killed⟩
  refine h.forward (hsound.step (hsim.receive hp now)) (hsim.deliver rest now) rfl rfl hn.forward ?_ hs.lastFwdCnt
    (hs.opening hopening hpatient) hs.grown ?_
  · intro hh
    -- no data is accepted during the handshake
    have hno : s.conn.consumes p = false := by simp [consumes, h.opening.not_fromPeer hh]
    have hbound := hn.bound
    rw [given, hno] at hbound
    exact hbound
  · cases hc : s.conn.consumes p with
    | true =>
      rw [sendPkt_of_consumes now hc]
      exact .inl (sendData_announced _ _)
    | false =>
      obtain ⟨hstream, hkilled⟩ := hs.no_data hc
      exact .inr ⟨by rw [hstream]; exact hsim.forwarded, hkilled⟩

theorem Ledger.notify (hsound : a.Sound txBufSize) (hsim : Sim s a) (evset : EvSet) :
    Ledger { s with conn := s.conn.notify evset }
      { a with
        held := (s.conn.notify evset).txBuf.len
        forwarded := (s.conn.notify evset).stream.accepted.length } last := by
  have hs := notify_step s.conn evset
  obtain ⟨w, hm⟩ := call_moved s.conn (.notify evset)
  have hn := hsim.numbers hm
  refine h.forward (hsound.step (hsim.forward evset)) (hsim.notify evset) rfl rfl hn.forward (fun _ => hn.bound)
    hs.lastFwdCnt (hs.opening h.opening) hs.grown ?_
  rcases s.conn.notify_announced evset with hann | ⟨r, _, heq⟩
  · exact .inl hann
  · refine .inr ⟨?_, ?_⟩
    · rw [heq]
      exact hsim.forwarded
    · rw [heq]
      exact id

/-- A packet reports all that has been forwarded. It is recorded, or there is nothing to report yet. -/
theorem Ledger.yield (hsim : Sim s a) {pkt pkt' : VsockPacket}
    {now : Nat} (hrecv : s.conn.recvPkt pkt now = (.ok (), pkt', c')) (hop : pkt'.op ≠ opRst) :
    ∃ last', Ledger { s with conn := c', toGuest := s.toGuest ++ [pkt'] }
      { a with acks := a.acks ++ [a.forwarded] } last' := by
  have hs := recvPkt_step s.conn pkt now
  rw [hrecv] at hs
  have hopening := hs.opening h.opening fun _ => hop
  have hearly : c'.handshaking = true → a.forwarded + a.held = 0 := fun hh => h.early (hs.handshaking_of hh)
  have hmem : ∀ last', last ≤ last' → a.forwarded ≤ last' →
      ∀ n ∈ a.seen :: (a.acks ++ [a.forwarded]), n ≤ last' := by
    intro last' hle hfwd n hn
    rw [← List.cons_append, List.mem_append, List.mem_singleton] at hn
    rcases hn with hold | hnew
    · exact Nat.le_trans (h.told n hold) hle
    · exact hnew ▸ hfwd
  rcases hs.recorded rfl hop with hlast | ⟨hh, hlast⟩
  · refine ⟨a.forwarded, hlast.trans hsim.fwdCnt, Nat.le_refl _, hmem _ h.le (Nat.le_refl _), hopening, hearly, ?_⟩
    intro _ hslack
    dsimp only at hslack
    omega
  · have hzero := h.early hh
    refine ⟨last, hlast.trans h.lastFwdCnt, h.le, hmem _ (Nat.le_refl _) (by omega), hopening, hearly, ?_⟩
    intro _ hslack
    dsimp only at hslack
    omega

theorem Ledger.yieldError {pkt pkt' : VsockPacket} {now : Nat}
    {e : VsockError} (hrecv : s.conn.recvPkt pkt now = (.error e, pkt', c')) :
    Ledger { s with conn := c' } a last := by
  have hs := recvPkt_step s.conn pkt now
  have hclears : s.conn.pendingRx.contains .creditUpdate = true →
      (s.conn.recvPkt pkt now).2.2.pendingRx.contains .creditUpdate = false →
      (s.conn.recvPkt pkt now).1 = .ok () := fun hbefore hafter => (recvPkt_clears hbefore hafter).1
  rw [hrecv] at hs hclears
  obtain ⟨hrst, hkill⟩ := hs.alive nofun
  refine ⟨hs.error_lastFwdCnt.trans h.lastFwdCnt, h.le, h.told, hs.opening h.opening nofun, ?_, ?_⟩
  · exact fun hh => h.early (hs.handshaking_of hh)
  · intro _ hslack
    have halive : s.conn.state ≠ .killed := by
      intro hk
      rw [h.opening.killed hk] at hrst
      cases hrst
    rcases h.due halive hslack with hc | hr
    · left
      refine Bool.eq_true_of_not_eq_false fun hgone => ?_
      cases hclears hc hgone
    · rw [hrst] at hr
      cases hr

theorem Ledger.kill : Ledger { s with conn := s.conn.kill } a last := by
  refine ⟨h.lastFwdCnt, h.le, h.told, .of_killed rfl (by simp [VsockConnection.kill]), ?_,
    fun halive => absurd rfl halive⟩
  intro hh
  refine h.early ?_
  have hg : s.conn.pendingRx.Grown s.conn.kill.pendingRx := (PendingRxSet.Grown.refl _).insert (by decide) (by decide)
  rwa [← handshaking_grown hg]

end

/-! ### Data that is forwarded at once -/

/-- What is left of a connection after the stream has taken a whole packet. -/
structure Forwards (c c' : VsockConnection) (n : Nat) (ws : List (Except ErrorKind Nat)) : Prop where
  state : c'.state = c.state
  txBuf : c'.txBuf = c.txBuf
  writes : c'.stream.writes = ws
  fwdCnt : c'.fwdCnt = c.fwdCnt + UInt32.ofNat n
  lastFwdCnt : c'.lastFwdCntToPeer = c.lastFwdCntToPeer
  pendingRx : c'.pendingRx =
    if c'.peerNeedsCreditUpdate then c.pendingRx.insert .creditUpdate else c.pendingRx

variable {bytes : List UInt8}

theorem sendPkt_forwards (h : bytes.length ≤ maxPktBufSize)
    (hdr : VsockPacketHdr) (now : Nat) {ws : List (Except ErrorKind Nat)} (hstate : c.state = .established)
    (hempty : c.txBuf.isEmpty = true) (hw : c.stream.writes = .ok bytes.length :: ws) :
    Forwards c (c.sendPkt (.data bytes h hdr) now) bytes.length ws := by
  have hpayload : (TxPacket.data bytes h hdr).payload = bytes := by
    simp only [TxPacket.payload, TxPacket.data, Option.getD_some, TxPacket.toNat_ofNat_length h, List.take_length]
  have hcons : c.consumes (.data bytes h hdr) = true := by
    rw [consumes, hstate]
    rfl
  rw [sendPkt_of_consumes now hcons, hpayload]
  simp only [sendData, sendBytes, updateCredit, hempty, HostStream.write, hw, sendBytes.pushRest, Nat.min_self,
    Nat.lt_irrefl, if_false, Bool.not_true, Bool.false_eq_true]
  split
  · rename_i hneeds
    exact ⟨rfl, rfl, rfl, rfl, rfl, (if_pos hneeds).symm⟩
  · rename_i hneeds
    exact ⟨rfl, rfl, rfl, rfl, rfl, (if_neg hneeds).symm⟩

/-! ### Runs -/

/-- A connection as it is served by the muxer, which may kill it (`none`). The muxer removes a
connection with the RST that it yields. -/
inductive Served (s : Link) : Option Event → Link → Prop where
  | event {e : Event} {s' : Link} : Step s e s' → (∀ q ∈ s'.toGuest, q.op ≠ opRst) → Served s (some e) s'
  | kill : Served s none { s with conn := s.conn.kill }

/-- The guest does not answer a request that has not been sent to it. -/
def Patient (s : Link) : Option Event → Prop
  | some (.deliver _) => s.conn.pendingRx.contains .request = true → ∀ p, s.toHost.head? = some p → p.op ≠ opResponse
  | _ => True

/-- A step of a patient guest. -/
def PatientStep (s : Link) (e : Option Event) (s' : Link) : Prop := Served s e s' ∧ Patient s e

theorem ledger_step {e : Option Event} (hsound : a.Sound txBufSize) (hsim : Sim s a) (h : Ledger s a last)
    (hstep : PatientStep s e s') : ∃ a' last', a'.Sound txBufSize ∧ Sim s' a' ∧ Ledger s' a' last' := by
  obtain ⟨hserved, hpatient⟩ := hstep
  cases hserved with
  | kill =>
    exact ⟨a, last, hsound, ⟨hsim.txCnt, hsim.fwdSeen, hsim.data, hsim.acks, hsim.held, hsim.forwarded, hsim.fwdCnt⟩,
      h.kill⟩
  | event hs hlive =>
    cases hs with
    | guestSend hcredit =>
      exact ⟨_, last, hsound.step (.send (simulates_guestSend hsim hsound hcredit)), hsim.guestSend _,
        h.same rfl rfl rfl fun _ hn => hn⟩
    | deliver hp =>
      refine ⟨_, last, hsound.step (hsim.receive hp _), hsim.deliver _ _, h.deliver hsound hsim hp _ ?_⟩
      intro hreq
      exact hpatient hreq _ (by rw [hp]; rfl)
    | yield hrecv =>
      obtain ⟨last', hledger⟩ := h.yield hsim hrecv (hlive _ (by simp))
      exact ⟨_, last', hsound.step .ack, hsim.yield hrecv, hledger⟩
    | yieldError hrecv => exact ⟨a, last, hsound, hsim.yieldError hrecv, h.yieldError hrecv⟩
    | learn hq =>
      obtain ⟨n, acks, ha, hsim'⟩ := hsim.learn hq
      refine ⟨_, last, hsound.step (.learn ha), hsim', h.same rfl rfl rfl ?_⟩
      intro m hm
      rw [ha]
      exact List.mem_cons_of_mem _ hm
    | notify => exact ⟨_, last, hsound.step (hsim.forward _), hsim.notify _, h.notify hsound hsim _⟩

theorem ledger_run {events : List (Option Event)} (hc : c.Fresh)
    (hrun : Run PatientStep (init c) events s) : ∃ a last, a.Sound txBufSize ∧ Sim s a ∧ Ledger s a last := by
  refine hrun.invariant (I := fun s => ∃ (a : Credit) (last : Nat), a.Sound txBufSize ∧ Sim s a ∧ Ledger s a last) ?_
    ⟨_, 0, .init, sim_init hc, ledger_init hc⟩
  intro s e s' h hstep
  obtain ⟨a, last, hsound, hsim, hledger⟩ := h
  exact ledger_step hsound hsim hledger hstep

theorem creditUpdate_pending {c : VsockConnection} {events : List (Option Event)} (hc : c.Fresh)
    (hrun : Run PatientStep (init c) events s) :
    (s.conn.state ≠ .killed → txBufSize - connCreditUpdateThreshold.toNat < s.conn.untold →
      s.conn.pendingRx.contains .creditUpdate = true ∨ s.conn.pendingRx.contains .rw = true ∨
        s.conn.pendingRx.contains .rst = true) ∧
    ∀ pkt now, s.conn.pendingRx.contains .creditUpdate = true →
      (s.conn.recvPkt pkt now).2.2.pendingRx.contains .creditUpdate = false →
      (s.conn.recvPkt pkt now).1 = .ok () ∧ (s.conn.recvPkt pkt now).2.1.hdr.fwdCnt = s.conn.fwdCnt ∧
        (s.conn.recvPkt pkt now).2.2.lastFwdCntToPeer = s.conn.fwdCnt := by
  obtain ⟨a, last, hsound, hsim, h⟩ := ledger_run hc hrun
  refine ⟨?_, fun pkt now hbefore hafter => recvPkt_clears hbefore hafter⟩
  intro halive hslack
  have hbound := untold_le hsound h.told
  rw [untold_eq hsim.fwdCnt h.lastFwdCnt h.le hbound] at hslack
  rcases h.due halive hslack with hcredit | hrst
  · exact .inl hcredit
  · exact .inr (.inr hrst)

/-- The credit of the guest for a packet of `bytes`. -/
theorem credit_of_length (h : bytes.length ≤ maxPktBufSize) {txCnt fwdSeen : UInt32}
    (hfits : bytes.length + (txCnt - fwdSeen).toNat ≤ txBufSize) :
    (TxPacket.data bytes h {}).op = opRw →
      (TxPacket.data bytes h {}).pkt.hdr.len.toNat + (txCnt - fwdSeen).toNat ≤ txBufSize := by
  intro _
  have hlen : (TxPacket.data bytes h {}).pkt.hdr.len.toNat = bytes.length := TxPacket.toNat_ofNat_length h
  rw [hlen]
  exact hfits

theorem full_run (h : bytes.length = 61441) (hle : bytes.length ≤ maxPktBufSize) :
    ∃ s, Run PatientStep (init (newPeerInit ⟨0, [], [.ok 61441], []⟩ hostCid 3 1024 5000 65536))
        [some (.yield ⟨{}, none⟩ 0), some (.guestSend (.data bytes hle {})), some (.deliver 0)] s ∧
      s.conn.state ≠ .killed ∧ txBufSize - connCreditUpdateThreshold.toNat < s.conn.untold := by
  let c := newPeerInit ⟨0, [], [.ok 61441], []⟩ hostCid 3 1024 5000 65536
  let c1 : VsockConnection := { c with pendingRx := c.pendingRx.remove .response, state := .established }
  have hempty : TxBuf.default.isEmpty = true := by decide
  have hforwards : Forwards c1 (c1.sendPkt (.data bytes hle {}) 0) bytes.length [] :=
    sendPkt_forwards hle {} 0 rfl hempty (by rw [h]; rfl)
  have hlive : ∀ q ∈ [(c.initPkt ⟨{}, none⟩).setOp opResponse], q.op ≠ opRst := by
    intro q hq
    rw [List.mem_singleton.mp hq]
    exact nofun
  have hpatient : c1.pendingRx.contains .request = true →
      ∀ p, [TxPacket.data bytes hle {}].head? = some p → p.op ≠ opResponse := by
    intro _ p hp
    cases hp
    exact nofun
  refine ⟨⟨c1.sendPkt (.data bytes hle {}) 0, [], [(c.initPkt ⟨{}, none⟩).setOp opResponse], _, 0⟩,
    .cons ⟨.event (.yield rfl) hlive, trivial⟩ (.cons ⟨.event (.guestSend (credit_of_length hle ?_)) hlive, trivial⟩
    (.cons ⟨.event (.deliver rfl) hlive, hpatient⟩ .nil)), ?_, ?_⟩
  · rw [h]
    decide
  · rw [hforwards.state]
    exact nofun
  · rw [untold, hforwards.fwdCnt, hforwards.lastFwdCnt, h]
    decide

/-- A guest that has used all but 4095 bytes of the buffer. -/
theorem creditUpdate_pending_full :
    ∃ s, Run PatientStep (init (newPeerInit ⟨0, [], [.ok 61441], []⟩ hostCid 3 1024 5000 65536))
        [some (.yield ⟨{}, none⟩ 0),
          some (.guestSend (.data (List.replicate 61441 7) (by rw [List.length_replicate]; decide) {})),
          some (.deliver 0)] s ∧
      s.conn.state ≠ .killed ∧ txBufSize - connCreditUpdateThreshold.toNat < s.conn.untold ∧
      (s.conn.pendingRx.contains .creditUpdate = true ∨ s.conn.pendingRx.contains .rw = true ∨
        s.conn.pendingRx.contains .rst = true) := by
  obtain ⟨s, hrun, halive, hslack⟩ :=
    full_run (List.length_replicate : (List.replicate 61441 (7 : UInt8)).length = 61441)
    (by rw [List.length_replicate]; decide)
  exact ⟨s, hrun, halive, hslack, (creditUpdate_pending ⟨.peerInit _ _ _ _ _ _, rfl⟩ hrun).1 halive hslack⟩

theorem eager_run {b1 b2 : List UInt8} (h1 : b1.length = 61440) (h2 : b2.length = 65536)
    (hle1 : b1.length ≤ maxPktBufSize) (hle2 : b2.length ≤ maxPktBufSize) :
    ∃ s, Run Served (init (newLocalInit ⟨0, [], [.ok 61440, .ok 65536], []⟩ hostCid 3 1024 5000))
        [some (.guestSend (.control { op := opResponse } rfl)), some (.deliver 0),
          some (.guestSend (.data b1 hle1 {})), some (.deliver 0), some (.yield ⟨{}, none⟩ 0), some .learn,
          some (.guestSend (.data b2 hle2 {})), some (.deliver 0)] s ∧
      s.conn.state ≠ .killed ∧ txBufSize - connCreditUpdateThreshold.toNat < s.conn.untold ∧
      s.conn.pendingRx.contains .creditUpdate = false ∧ s.conn.pendingRx.contains .rw = false ∧
        s.conn.pendingRx.contains .rst = false := by
  let c := newLocalInit ⟨0, [], [.ok 61440, .ok 65536], []⟩ hostCid 3 1024 5000
  let c1 := c.sendPkt (.control { op := opResponse } rfl) 0
  let c2 := c1.sendPkt (.data b1 hle1 {}) 0
  have hempty : TxBuf.default.isEmpty = true := by decide
  have hf1 : Forwards c1 c2 b1.length [.ok 65536] :=
    sendPkt_forwards hle1 {} 0 rfl hempty (by rw [h1]; rfl)
  have hfwd1 : c2.fwdCnt = 61440 := by
    rw [hf1.fwdCnt, h1]
    decide
  have hlast1 : c2.lastFwdCntToPeer = 0 := hf1.lastFwdCnt
  have hpending1 : c2.pendingRx = PendingRxSet.single .request := by
    have hno : c2.peerNeedsCreditUpdate = false := by
      rw [peerNeedsCreditUpdate, hfwd1, hlast1]
      decide
    rw [hf1.pendingRx, hno]
    rfl
  let c3 : VsockConnection :=
    { c2 with pendingRx := c2.pendingRx.remove .request, expiry := some (0 + connRequestTimeoutMs) }
  have hrecv : c2.recvPkt ⟨{}, none⟩ 0 = (.ok (), (c2.initPkt ⟨{}, none⟩).setOp opRequest, c3) := by
    simp [recvPkt, c3, hpending1]
  have hf2 : Forwards c3 (c3.sendPkt (.data b2 hle2 {}) 0) b2.length [] :=
    sendPkt_forwards hle2 {} 0 hf1.state (hf1.txBuf ▸ hempty) (by rw [h2]; exact hf1.writes)
  have hfwd2 : (c3.sendPkt (.data b2 hle2 {}) 0).fwdCnt = 126976 := by
    have hfwd : c3.fwdCnt = 61440 := hfwd1
    rw [hf2.fwdCnt, hfwd, h2]
    decide
  have hlast2 : (c3.sendPkt (.data b2 hle2 {}) 0).lastFwdCntToPeer = 0 := hf2.lastFwdCnt.trans hlast1
  -- the distance is beyond the buffer, so the space that is left seems to be large
  have hpending2 : (c3.sendPkt (.data b2 hle2 {}) 0).pendingRx = (PendingRxSet.single .request).remove .request := by
    have hno : (c3.sendPkt (.data b2 hle2 {}) 0).peerNeedsCreditUpdate = false := by
      rw [peerNeedsCreditUpdate, hfwd2, hlast2]
      decide
    rw [hf2.pendingRx, hno, ← hpending1]
    rfl
  have hno : ∀ q ∈ ([] : List VsockPacket), q.op ≠ opRst := nofun
  have hone : ∀ q ∈ [(c2.initPkt ⟨{}, none⟩).setOp opRequest], q.op ≠ opRst := by
    intro q hq
    rw [List.mem_singleton.mp hq]
    exact nofun
  refine ⟨⟨c3.sendPkt (.data b2 hle2 {}) 0, [], [], _, _⟩,
    .cons (.event (.guestSend nofun) hno) (.cons (.event (.deliver rfl) hno)
    (.cons (.event (.guestSend (credit_of_length hle1 ?_)) hno) (.cons (.event (.deliver rfl) hno)
    (.cons (.event (.yield hrecv) hone) (.cons (.event (.learn rfl) hno)
    (.cons (.event (.guestSend (credit_of_length hle2 ?_)) hno) (.cons (.event (.deliver rfl) hno) .nil))))))),
    ?_, ?_, ?_, ?_, ?_⟩
  · rw [h1]
    decide
  · have hlen : dataLen (.data b1 hle1 {}) = 61440 := by
      rw [← h1]
      exact TxPacket.toNat_ofNat_length hle1
    change b2.length + ((0 : UInt32) + UInt32.ofNat 0 + UInt32.ofNat
      (dataLen (.data b1 hle1 {})) - c2.fwdCnt).toNat ≤ _
    rw [hlen, hfwd1, h2]
    decide
  · rw [hf2.state]
    exact hf1.state ▸ nofun
  · rw [untold, hfwd2, hlast2]
    decide
  · rw [hpending2]
    decide
  · rw [hpending2]
    decide
  · rw [hpending2]
    decide

/-- The guest answers at once and sends 61440 bytes. The request is sent only then, and reports
them. All that the guest sends from there on is within its credit, and no credit update is ever
pending. -/
theorem eager_response_starves :
    ∃ s, Run Served (init (newLocalInit ⟨0, [], [.ok 61440, .ok 65536], []⟩ hostCid 3 1024 5000))
        [some (.guestSend (.control { op := opResponse } rfl)), some (.deliver 0),
          some (.guestSend (.data (List.replicate 61440 7) (by rw [List.length_replicate]; decide) {})),
          some (.deliver 0), some (.yield ⟨{}, none⟩ 0), some .learn,
          some (.guestSend (.data (List.replicate 65536 7) (by rw [List.length_replicate]; decide) {})),
          some (.deliver 0)] s ∧
      s.conn.state ≠ .killed ∧ txBufSize - connCreditUpdateThreshold.toNat < s.conn.untold ∧
      s.conn.pendingRx.contains .creditUpdate = false ∧ s.conn.pendingRx.contains .rw = false ∧
        s.conn.pendingRx.contains .rst = false :=
  eager_run List.length_replicate List.length_replicate _ _

end Link
end Kata.Vsock
