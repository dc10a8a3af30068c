import Kata.Vsock.MuxerEffects

/-!
# Kata.Vsock.MuxerSteps

What a call of the muxer consists of. `Keeps P m now op` lists what has to be shown of a predicate
`P` for each part of the call `op` on `m`; then the call keeps `P` (`Keeps.apply`). The invariants
of the muxer are proved through this rule, so they do not depend on how the parts are put together.

`EachConn Q` says that `Q` holds of every connection. It is kept if the operations of a connection
keep `Q` (`ConnInv.keeps`).
-/

namespace Kata.Vsock.VsockMuxer

structure Keeps (P : VsockMuxer → Prop) (m : VsockMuxer) (now : Nat) (op : Op) : Prop where
  frame : ∀ {a b}, SameCore a b → P a → P b
  allocate : ∀ {a b port}, a.allocateLocalPort = some (port, b) → P a → P b
  enqRst : ∀ {a} l p, P a → P (a.enqRst l p)
  removeConnection : ∀ {a} key, P a → P (a.removeConnection key)
  deliver : ∀ {p connected}, op = .sendPkt p connected → p.pkt.hdr.type = typeStream →
    p.pkt.hdr.dstCid = hostCid → P m →
    P (m.applyConnMutation ⟨p.pkt.hdr.dstPort, p.pkt.hdr.srcPort⟩ now fun conn => conn.sendPkt p now)
  notify : ∀ key evset, P m → P (m.applyConnMutation key now fun conn => conn.notify evset)
  sweepKillq : m.sweeps op = true → ∀ {a}, a.connMap = m.connMap → a.killq = m.killq → P a →
    P (a.sweepKillq now)
  add : ∀ {a} key {conn}, conn.IsNew → P a → P ((a.pushRx (.connRx key)).setConn key conn)
  resyncRxq : ∀ {a}, P a → P a.resyncRxq
  popRst : ∀ {a l p}, a.rxq.peek = some (.rstPkt l p) → P a → P { a with rxq := a.rxq.pop }
  recvConn : ∀ {a key} pkt, a.rxq.peek = some (.connRx key) → P a → P (a.recvConn key pkt now).2.2

namespace Keeps

variable {P : VsockMuxer → Prop} {m a b : VsockMuxer} {now : Nat} {op : Op}

theorem added (h : Keeps P m now op) (hs : m.sweeps op = true) (hc : a.connMap = m.connMap)
    (hk : a.killq = m.killq) {key : ConnMapKey} {conn : VsockConnection} {ok : Bool} (hn : conn.IsNew)
    (hp : P a) (hadd : Added a key conn now ok b) : P b := by
  have hsweep := h.sweepKillq hs hc hk hp
  cases hadd with
  | added _ hsame => exact h.add key hn (h.frame hsame hsweep)
  | refused _ hsame => exact h.frame hsame hsweep

theorem received (h : Keeps P m now op) {pkt : VsockPacket}
    {out : Except VsockError Unit × VsockPacket × VsockMuxer} (hp : P a) (hrecv : Received now a pkt out) :
    P out.2.2 := by
  induction hrecv with
  | empty => exact hp
  | rst hpeek => exact h.popRst hpeek hp
  | @conn a a' pkt pkt' key hpeek hres =>
    have hconn := h.recvConn pkt hpeek hp
    rw [hres] at hconn
    exact hconn
  | @connRst a a' pkt pkt' key hpeek hres =>
    have hconn := h.recvConn pkt hpeek hp
    rw [hres] at hconn
    exact h.removeConnection _ hconn
  | @next a a' pkt pkt' key e out hpeek hres _ ih =>
    have hconn := h.recvConn pkt hpeek hp
    rw [hres] at hconn
    exact ih hconn

theorem apply (h : Keeps P m now op) (hp : P m) (happ : m.apply now op = some b) : P b := by
  cases apply_effect happ with
  | frame _ hsame => exact h.frame hsame hp
  | nonStream | unknown => exact h.enqRst _ _ hp
  | accepted hs _ hadd => exact h.added hs rfl rfl (.peerInit _ _ _ _ _ _) hp hadd
  | refused hs _ hadd => exact h.enqRst _ _ (h.added hs rfl rfl (.peerInit _ _ _ _ _ _) hp hadd)
  | reset => exact h.removeConnection _ hp
  | deliver ht hcid => exact h.deliver rfl ht hcid hp
  | receive hrecv => exact h.received (h.resyncRxq hp) hrecv
  | notify => exact h.notify _ _ hp
  | connect _ hs hsame _ hport hadd =>
    obtain ⟨_, hfields⟩ := allocateLocalPort_fields hport
    exact h.added hs (hfields ▸ hsame.connMap) (hfields ▸ hsame.killq) (.localInit _ _ _ _ _)
      (h.allocate hport (h.frame hsame hp)) hadd
  | abandon _ _ hsame hport => exact h.allocate hport (h.frame hsame hp)
  | sweepKillq => exact h.sweepKillq rfl rfl rfl hp

end Keeps

/-! ## Invariants of each connection -/

def EachConn (Q : VsockConnection → Prop) (m : VsockMuxer) : Prop :=
  ∀ key conn, m.connMap.lookup key = some conn → Q conn

/-- `Q` is kept by all that can happen to a connection at time `now`, with a condition on the
packets from the guest. -/
structure ConnInv (Q : VsockConnection → Prop) (allowed : VsockConnection → TxPacket → Prop)
    (now : Nat) : Prop where
  isNew : ∀ {c}, c.IsNew → Q c
  kill : ∀ {c}, Q c → Q c.kill
  ackLocal : ∀ {c} port, Q c → Q (ackLocal c port)
  sendPkt : ∀ {c p}, allowed c p → Q c → Q (c.sendPkt p now)
  recvPkt : ∀ {c} pkt, Q c → Q (c.recvPkt pkt now).2.2
  notify : ∀ {c} evset, Q c → Q (c.notify evset)

section EachConn

variable {Q : VsockConnection → Prop} {allowed : VsockConnection → TxPacket → Prop}
  {m a : VsockMuxer} {key : ConnMapKey} {now : Nat}

theorem EachConn.congr (h : EachConn Q a) (hc : m.connMap = a.connMap) : EachConn Q m := by
  intro key conn hl
  exact h key conn (hc ▸ hl)

theorem EachConn.setConn (h : EachConn Q a) {conn : VsockConnection} (hq : Q conn) :
    EachConn Q (a.setConn key conn) := by
  intro k c hl
  by_cases hk : k = key
  · subst hk
    rw [VsockMuxer.setConn, AList.lookup_insert] at hl
    cases hl
    exact hq
  · rw [VsockMuxer.setConn, AList.lookup_insert_ne hk] at hl
    exact h k c hl

theorem EachConn.killConnection (h : EachConn Q a) (hkill : ∀ {c}, Q c → Q c.kill) :
    EachConn Q (a.killConnection key) := by
  unfold VsockMuxer.killConnection
  split
  · exact h.congr rfl
  · rename_i conn hl
    have hset : EachConn Q (a.setConn key conn.kill) := h.setConn (hkill (h key conn hl))
    split
    · exact hset
    · exact hset.congr rfl

theorem EachConn.applyConnMutation (h : EachConn Q a) (hi : ConnInv Q allowed now)
    {f : VsockConnection → VsockConnection} (hf : ∀ conn, a.connMap.lookup key = some conn → Q conn → Q (f conn)) :
    EachConn Q (a.applyConnMutation key now f) := by
  obtain ⟨_, hout⟩ | ⟨old, m', hl, hsame, hout⟩ := a.applyConnMutation_cases key now f
  · rw [hout]
    exact h
  · have hq := hf old hl (h key old hl)
    have hmut : Q (mutated key old f) := by
      unfold mutated
      split
      · exact hi.ackLocal _ hq
      · exact hq
    have hm' : EachConn Q m' :=
      (h.setConn hmut).congr (hsame.connMap.trans (requeue_connMap _ _ _ _ _))
    cases hout with
    | inl hout => exact hout ▸ hm'
    | inr hout => exact hout ▸ hm'.killConnection hi.kill

theorem EachConn.sweepLoop (hi : ConnInv Q allowed now) {fuel : Nat} (h : EachConn Q a) :
    EachConn Q (VsockMuxer.sweepLoop now fuel a) := by
  refine sweepLoop_invariant ?_ h
  intro m key killq hm _
  have hpop : EachConn Q { m with killq := killq } := hm.congr rfl
  unfold killExpired
  split
  · exact hpop
  · split
    · exact hpop.killConnection hi.kill
    · exact hpop

theorem EachConn.sweepKillq (hi : ConnInv Q allowed now) (h : EachConn Q a) : EachConn Q (a.sweepKillq now) := by
  have hsweep : EachConn Q (a.sweep now) := h.sweepLoop hi
  unfold VsockMuxer.sweepKillq
  dsimp only
  split
  · exact EachConn.sweepLoop hi (hsweep.congr rfl)
  · exact hsweep

theorem lookup_removeConnection {k : ConnMapKey} {conn : VsockConnection}
    (hl : (a.removeConnection key).connMap.lookup k = some conn) : a.connMap.lookup k = some conn := by
  unfold VsockMuxer.removeConnection at hl
  split at hl
  · exact hl
  · by_cases hk : k = key
    · subst hk
      simp [freeLocalPort, removeListener] at hl
    · simpa [freeLocalPort, removeListener, AList.lookup_erase_ne hk] using hl

theorem removeConnection_killq (a : VsockMuxer) (key : ConnMapKey) : (a.removeConnection key).killq = a.killq := by
  unfold VsockMuxer.removeConnection
  split <;> rfl

theorem EachConn.removeConnection (h : EachConn Q a) : EachConn Q (a.removeConnection key) := by
  intro k c hl
  exact h k c (lookup_removeConnection hl)

theorem EachConn.recvConn (hi : ConnInv Q allowed now) (h : EachConn Q a) (pkt : VsockPacket) :
    EachConn Q (a.recvConn key pkt now).2.2 := by
  unfold VsockMuxer.recvConn
  split
  · exact h.congr rfl
  · have happ : EachConn Q (a.applyConnMutation key now fun c => (c.recvPkt pkt now).2.2) :=
      h.applyConnMutation hi fun conn _ hq => hi.recvPkt pkt hq
    dsimp only
    split
    · exact happ
    · exact happ.congr rfl

theorem ConnInv.keeps (hi : ConnInv Q allowed now) {op : Op}
    (hok : ∀ {p connected conn}, op = .sendPkt p connected → p.pkt.hdr.type = typeStream →
      p.pkt.hdr.dstCid = hostCid →
      m.connMap.lookup ⟨p.pkt.hdr.dstPort, p.pkt.hdr.srcPort⟩ = some conn → allowed conn p) :
    Keeps (EachConn Q) m now op where
  frame hs h := h.congr hs.connMap
  allocate hp h := by
    obtain ⟨_, _, hout⟩ := Option.map_eq_some_iff.mp hp
    cases hout
    exact h.congr rfl
  enqRst _ _ h := h.congr rfl
  removeConnection _ h := h.removeConnection
  deliver hop ht hc h := h.applyConnMutation hi fun _ hl hq => hi.sendPkt (hok hop ht hc hl) hq
  notify _ evset h := h.applyConnMutation hi fun _ _ hq => hi.notify evset hq
  sweepKillq _ _ _ _ h := h.sweepKillq hi
  add _ _ hn h := EachConn.setConn (h.congr rfl) (hi.isNew hn)
  resyncRxq h := by
    unfold VsockMuxer.resyncRxq
    split
    · exact h.congr rfl
    · exact h
  popRst _ h := h.congr rfl
  recvConn pkt _ h := h.recvConn hi pkt

theorem EachConn.rehash (h : EachConn Q m) {connMap : ConnMap}
    (hp : connMap.entries.Perm m.connMap.entries) : EachConn Q { m with connMap := connMap } := by
  intro key conn hl
  refine h key conn ?_
  rw [← AList.perm_lookup hp]
  exact hl

end EachConn
end Kata.Vsock.VsockMuxer
