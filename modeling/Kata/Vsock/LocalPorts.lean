import Mathlib.Data.Finset.Option
import Kata.Vsock.KillSync
import Kata.Vsock.Progress

/-!
# Kata.Vsock.LocalPorts

The local ports of host-initiated connections. `Accounted` is the muxer together with the keys of
the host-initiated connections it holds. The ports in `local_port_set` are those of these
connections, and the search for a free port ends (`localPortSet_accounted`), as long as every call
is `Accountable`. The number of connections is bounded in any case (`connections_le`).

Two things go wrong otherwise. A port is allocated before it is known that the connection can be
added, and stays allocated if not (`refused_leaks_port`). And a port is freed with every connection,
also with one of the guest that happens to have the same local port.
-/

namespace Kata.Vsock.VsockMuxer

open Lib

/-! ## The search -/

theorem nextPort_toNat (last : UInt32) : (nextPort last).toNat = 2 ^ 30 + (last.toNat + 1) % 2 ^ 30 := by
  have hmask : (nextPort last).toNat = (last.toNat + 1) % 2 ^ 32 % 2 ^ 31 ||| 2 ^ 30 := by
    rw [← Nat.and_two_pow_sub_one_eq_mod _ 31]
    rfl
  have hmod : (last.toNat + 1) % 2 ^ 32 % 2 ^ 31 = (last.toNat + 1) % 2 ^ 31 := by omega
  rw [hmask, hmod]
  have hlow : (last.toNat + 1) % 2 ^ 30 < 2 ^ 30 := Nat.mod_lt _ (by decide)
  have hor : 2 ^ 30 + (last.toNat + 1) % 2 ^ 30 = 2 ^ 30 ||| (last.toNat + 1) % 2 ^ 30 :=
    Nat.two_pow_add_eq_or_of_lt hlow 1
  have hsplit : (last.toNat + 1) % 2 ^ 31 = (last.toNat + 1) % 2 ^ 30 ∨
      (last.toNat + 1) % 2 ^ 31 = 2 ^ 30 + (last.toNat + 1) % 2 ^ 30 := by omega
  cases hsplit with
  | inl hsplit => rw [hsplit, Nat.or_comm, ← hor]
  | inr hsplit => rw [hsplit, hor, Nat.or_comm, ← Nat.or_assoc, Nat.or_self, ← hor]

theorem iterate_nextPort_toNat (n : Nat) (last : UInt32) :
    (nextPort^[n + 1] last).toNat = 2 ^ 30 + (last.toNat + (n + 1)) % 2 ^ 30 := by
  induction n generalizing last with
  | zero => exact nextPort_toNat last
  | succ n ih =>
    rw [Function.iterate_succ_apply, ih, nextPort_toNat]
    omega

/-- The search goes through more ports than there can be connections. -/
theorem allocateLocalPort_isSome {m : VsockMuxer} (h : m.localPortSet.card ≤ maxConnections) :
    m.allocateLocalPort.isSome = true := by
  rw [Option.isSome_iff_ne_none]
  intro hnone
  have hall := (allocateLocalPort_none m).mp hnone
  have hcard : (Finset.range (maxConnections + 1)).card ≤ m.localPortSet.card := by
    refine Finset.card_le_card_of_injOn (fun n => nextPort^[n + 1] m.localPortLast) (fun n _ => hall n) ?_
    intro i hi j hj heq
    have hi := Finset.mem_range.mp hi
    have hj := Finset.mem_range.mp hj
    have hnat := congrArg UInt32.toNat heq
    simp only [iterate_nextPort_toNat, maxConnections] at hnat hi hj
    omega
  rw [Finset.card_range] at hcard
  omega

/-- The range of the ports for host-initiated connections. -/
def InHostRange (port : UInt32) : Prop := 2 ^ 30 ≤ port.toNat ∧ port.toNat < 2 ^ 31

theorem searchPort_inHostRange {used : Finset UInt32} {fuel : Nat} {last port : UInt32}
    (h : searchPort used fuel last = some port) : InHostRange port := by
  induction fuel generalizing last with
  | zero => cases h
  | succ fuel ih =>
    unfold searchPort at h
    split at h
    · exact ih h
    · cases h
      have hnat := nextPort_toNat last
      unfold InHostRange
      omega

theorem allocateLocalPort_inHostRange {m m' : VsockMuxer} {port : UInt32}
    (h : m.allocateLocalPort = some (port, m')) : InHostRange port := by
  obtain ⟨found, hfound, hout⟩ := Option.map_eq_some_iff.mp h
  cases hout
  exact searchPort_inHostRange hfound

/-! ## Host-initiated connections -/

/-- The key of the host-initiated connection that a call adds. -/
def hostOpens (m : VsockMuxer) (op : Op) : Option ConnMapKey :=
  if (m.connecting op).isSome then m.opens op else none

/-- A muxer with the keys of its host-initiated connections. -/
structure Accounted where
  muxer : VsockMuxer
  hosts : Finset ConnMapKey

/-- The host-initiated connections after a call that leaves `m'`: those that are still there, and
the one that the call has added. -/
def Accounted.remaining (s : Accounted) (op : Option Op) (m' : VsockMuxer) : Finset ConnMapKey :=
  (s.hosts ∪ (op.bind s.muxer.hostOpens).toFinset).filter (· ∈ m'.connMap)

inductive Accounted.Step (s : Accounted) (a : Nat × Option Op) : Accounted → Prop where
  | mk {m' : VsockMuxer} : s.muxer.Step a m' → Step s a ⟨m', s.remaining a.2 m'⟩

/-- A connection of the host is added when it is asked for, and the two sides do not use the same
local port. -/
structure Accountable (m : VsockMuxer) (a : Nat × Option Op) : Prop where
  added : ∀ {op}, a.2 = some op → (m.connecting op).isSome = true →
    m.sweeps op = true ∧ m.admits = true
  reserved : ∀ {op key}, a.2 = some op → (m.connecting op).isSome = true → key ∈ m.connMap →
    InHostRange key.localPort → key.localPort ∈ m.localPortSet
  guest : ∀ {p connected key}, a.2 = some (.sendPkt p connected) →
    m.opens (.sendPkt p connected) = some key → key.localPort ∉ m.localPortSet

structure PortInv (m : VsockMuxer) (hosts : Finset ConnMapKey) : Prop where
  ports : m.localPortSet = hosts.image (·.localPort)
  live : ∀ {key}, key ∈ hosts → key ∈ m.connMap
  own : ∀ {key}, key ∈ m.connMap → key.localPort ∈ m.localPortSet → key ∈ hosts
  distinct : ∀ {key key'}, key ∈ hosts → key' ∈ hosts → key.localPort = key'.localPort → key = key'
  ends : ∀ {key conn}, m.connMap.lookup key = some conn →
    conn.localPort = key.localPort ∧ conn.peerPort = key.peerPort
  room : m.connMap.entries.length ≤ maxConnections

section PortInv

variable {m m' : VsockMuxer} {hosts : Finset ConnMapKey} {key : ConnMapKey} {conn : VsockConnection}
  {now : Nat} {op : Op}

theorem PortInv.quiet (h : PortInv m hosts) (hq : Quiet m m') : PortInv m' hosts where
  ports := hq.localPortSet.trans h.ports
  live hk := hq.mem_iff.mpr (h.live hk)
  own hk hp := h.own (hq.mem_iff.mp hk) (hq.localPortSet ▸ hp)
  distinct := h.distinct
  ends hl := by
    obtain ⟨old, hold, hsame⟩ := hq.ends hl
    obtain ⟨hlocal, hpeer⟩ := h.ends hold
    exact ⟨hsame.localPort.trans hlocal, hsame.peerPort.trans hpeer⟩
  room := hq.length ▸ h.room

theorem mem_of_lookup (hl : m.connMap.lookup key = some conn) : key ∈ m.connMap :=
  AList.lookup_isSome.mp (by rw [hl]; rfl)

theorem mem_removeConnection {k : ConnMapKey} : k ∈ (m.removeConnection key).connMap ↔ k ≠ key ∧ k ∈ m.connMap := by
  unfold removeConnection
  split
  · rename_i hnone
    have hnot := AList.lookup_eq_none.mp hnone
    constructor
    · intro hk
      exact ⟨fun heq => hnot (heq ▸ hk), hk⟩
    · exact fun hk => hk.2
  · exact AList.mem_erase

theorem removeConnection_localPortSet (m : VsockMuxer) (key : ConnMapKey) :
    (m.removeConnection key).localPortSet = m.localPortSet.erase key.localPort := by
  unfold removeConnection
  split <;> rfl

theorem removeConnection_length (m : VsockMuxer) (key : ConnMapKey) :
    (m.removeConnection key).connMap.entries.length ≤ m.connMap.entries.length := by
  unfold removeConnection
  split
  · exact Nat.le_refl _
  · exact (List.kerase_sublist key m.connMap.entries).length_le

/-- The port of a connection is freed with it, and no other connection of the host has it. -/
theorem PortInv.removeConnection (h : PortInv m hosts) (hmem : key ∈ m.connMap) :
    PortInv (m.removeConnection key) (hosts.erase key) where
  ports := by
    rw [removeConnection_localPortSet, h.ports]
    ext port
    simp only [Finset.mem_erase, Finset.mem_image]
    constructor
    · rintro ⟨hne, k, hk, rfl⟩
      exact ⟨k, ⟨fun heq => hne (heq ▸ rfl), hk⟩, rfl⟩
    · rintro ⟨k, ⟨hne, hk⟩, rfl⟩
      refine ⟨?_, k, hk, rfl⟩
      intro heq
      have hport : key.localPort ∈ m.localPortSet := by
        rw [h.ports, ← heq]
        exact Finset.mem_image_of_mem _ hk
      exact hne (h.distinct hk (h.own hmem hport) heq)
  live hk := by
    obtain ⟨hne, hk⟩ := Finset.mem_erase.mp hk
    exact mem_removeConnection.mpr ⟨hne, h.live hk⟩
  own hk hp := by
    obtain ⟨hne, hk⟩ := mem_removeConnection.mp hk
    rw [removeConnection_localPortSet] at hp
    exact Finset.mem_erase.mpr ⟨hne, h.own hk (Finset.mem_of_mem_erase hp)⟩
  distinct hk hk' := h.distinct (Finset.mem_of_mem_erase hk) (Finset.mem_of_mem_erase hk')
  ends hl := h.ends (lookup_removeConnection hl)
  room := (removeConnection_length m key).trans h.room

theorem setConn_length (m : VsockMuxer) (key : ConnMapKey) (conn : VsockConnection) :
    (m.setConn key conn).connMap.entries.length ≤ m.connMap.entries.length + 1 := by
  have hle := (List.kerase_sublist key m.connMap.entries).length_le
  simpa [VsockMuxer.setConn, AList.entries_insert, List.length_cons] using hle

theorem PortInv.ends_setConn (h : PortInv m hosts) (hl : conn.localPort = key.localPort)
    (hp : conn.peerPort = key.peerPort) {k : ConnMapKey} {c : VsockConnection}
    (hk : (m.setConn key conn).connMap.lookup k = some c) : c.localPort = k.localPort ∧ c.peerPort = k.peerPort := by
  by_cases heq : k = key
  · subst heq
    rw [VsockMuxer.setConn, AList.lookup_insert] at hk
    cases hk
    exact ⟨hl, hp⟩
  · rw [VsockMuxer.setConn, AList.lookup_insert_ne heq] at hk
    exact h.ends hk

theorem mem_setConn {k : ConnMapKey} : k ∈ (m.setConn key conn).connMap ↔ k = key ∨ k ∈ m.connMap :=
  AList.mem_insert _

theorem PortInv.addGuest (h : PortInv m hosts) (hroom : m.connMap.entries.length < maxConnections)
    (hfree : key.localPort ∉ m.localPortSet) (hl : conn.localPort = key.localPort)
    (hp : conn.peerPort = key.peerPort) : PortInv (m.setConn key conn) hosts where
  ports := h.ports
  live hk := mem_setConn.mpr (.inr (h.live hk))
  own hk hport := by
    cases mem_setConn.mp hk with
    | inl heq => exact absurd (heq ▸ hport) hfree
    | inr hk => exact h.own hk hport
  distinct := h.distinct
  ends := h.ends_setConn hl hp
  room := (setConn_length m key conn).trans hroom

theorem PortInv.enqRst (h : PortInv m hosts) (l p : UInt32) : PortInv (m.enqRst l p) hosts :=
  ⟨h.ports, h.live, h.own, h.distinct, h.ends, h.room⟩

theorem PortInv.addHost (h : PortInv m hosts) {b : VsockMuxer} {port peerPort : UInt32}
    (hport : m.allocateLocalPort = some (port, b)) (hq : Quiet b m')
    (hroom : m.connMap.entries.length < maxConnections)
    (hfree : ∀ {k : ConnMapKey}, k ∈ m.connMap → k.localPort ≠ port)
    (hl : conn.localPort = port) (hp : conn.peerPort = peerPort) :
    PortInv (m'.setConn ⟨port, peerPort⟩ conn) (insert ⟨port, peerPort⟩ hosts) := by
  obtain ⟨_, rfl⟩ := allocateLocalPort_fields hport
  -- without the new port, `m'` is as good as `m`
  have hbase : PortInv { m' with localPortSet := m.localPortSet, localPortLast := m.localPortLast }
      hosts := h.quiet ⟨hq.keys, hq.ends, rfl, rfl, hq.rst⟩
  have hset : m'.localPortSet = insert port m.localPortSet := hq.localPortSet
  have hother : ∀ {k : ConnMapKey}, k ∈ m'.connMap → k.localPort ≠ port :=
    fun hk => hfree (hq.mem_iff.mp hk)
  refine ⟨?_, ?_, ?_, ?_, ?_, ?_⟩
  · rw [Finset.image_insert, ← h.ports]
    exact hset
  · intro k hk
    refine mem_setConn.mpr ?_
    cases Finset.mem_insert.mp hk with
    | inl heq => exact .inl heq
    | inr hk => exact .inr (hbase.live hk)
  · intro k hk hkport
    refine Finset.mem_insert.mpr ?_
    cases mem_setConn.mp hk with
    | inl heq => exact .inl heq
    | inr hk =>
      have hmem : k.localPort ∈ insert port m.localPortSet := hset ▸ hkport
      exact .inr (hbase.own hk (Finset.mem_of_mem_insert_of_ne hmem (hother hk)))
  · intro k k' hk hk' heq
    cases Finset.mem_insert.mp hk with
    | inl hnew =>
      cases Finset.mem_insert.mp hk' with
      | inl hnew' => exact hnew.trans hnew'.symm
      | inr hold' => exact absurd (heq.symm.trans (congrArg (·.localPort) hnew)) (hother (hbase.live hold'))
    | inr hold =>
      cases Finset.mem_insert.mp hk' with
      | inl hnew' => exact absurd (heq.trans (congrArg (·.localPort) hnew')) (hother (hbase.live hold))
      | inr hold' => exact h.distinct hold hold' heq
  · intro k c hk
    exact hbase.ends_setConn hl hp hk
  · have hlen := setConn_length m' ⟨port, peerPort⟩ conn
    have hsame : m'.connMap.entries.length = m.connMap.entries.length := hq.length
    omega

/-! ## Calls -/

theorem PortInv.filter_live (h : PortInv m hosts) : hosts.filter (· ∈ m.connMap) = hosts :=
  Finset.filter_true_of_mem fun _ hk => h.live hk

theorem PortInv.filter_quiet (h : PortInv m hosts) (hq : Quiet m m') :
    PortInv m' (hosts.filter (· ∈ m'.connMap)) := by
  have hm' := h.quiet hq
  rw [hm'.filter_live]
  exact hm'

theorem PortInv.filter_removed (h : PortInv m hosts) (hmem : key ∈ m.connMap) :
    PortInv (m.removeConnection key) (hosts.filter (· ∈ (m.removeConnection key).connMap)) := by
  have heq : hosts.filter (· ∈ (m.removeConnection key).connMap) = hosts.erase key := by
    ext k
    rw [Finset.mem_filter, Finset.mem_erase, mem_removeConnection]
    constructor
    · rintro ⟨hk, hne, _⟩
      exact ⟨hne, hk⟩
    · rintro ⟨hne, hk⟩
      exact ⟨hk, hne, h.live hk⟩
  rw [heq]
  exact h.removeConnection hmem

/-- A connection that yields a packet is the one that the ports of the packet name. -/
theorem PortInv.recvConn_ports (h : PortInv m hosts) {pkt pkt' : VsockPacket}
    (hres : m.recvConn key pkt now = (.ok (), pkt', m')) :
    (⟨pkt'.hdr.srcPort, pkt'.hdr.dstPort⟩ : ConnMapKey) ∈ m.connMap := by
  unfold recvConn at hres
  split at hres
  · cases hres
  · rename_i conn hl
    obtain ⟨hlocal, hpeer⟩ := h.ends hl
    obtain ⟨hsrc, hdst⟩ := conn.recvPkt_ports pkt now
    have hpkt : (conn.recvPkt pkt now).2.1 = pkt' := congrArg (·.2.1) hres
    rw [hpkt, hlocal] at hsrc
    rw [hpkt, hpeer] at hdst
    rw [hsrc, hdst]
    exact mem_of_lookup hl

theorem Received.portInv {pkt : VsockPacket} {out : Except VsockError Unit × VsockPacket × VsockMuxer}
    (hrecv : Received now m pkt out) (h : PortInv m hosts) :
    PortInv out.2.2 (hosts.filter (· ∈ out.2.2.connMap)) := by
  induction hrecv with
  | empty => exact h.filter_quiet (.refl _)
  | rst => exact h.filter_quiet (pop_quiet _)
  | conn _ hres => exact h.filter_quiet (quiet_of_recvConn hres)
  | @connRst m m' pkt pkt' key _ hres =>
    have hquiet := quiet_of_recvConn hres
    exact (h.quiet hquiet).filter_removed (hquiet.mem_iff.mpr (h.recvConn_ports hres))
  | next _ hres _ ih => exact ih (h.quiet (quiet_of_recvConn hres))

theorem remaining_of_none (hnone : m.connecting op = none) :
    Accounted.remaining ⟨m, hosts⟩ (some op) m' = hosts.filter (· ∈ m'.connMap) := by
  simp [Accounted.remaining, hostOpens, hnone]

theorem admits_room (h : m.admits = true) : m.connMap.entries.length < maxConnections := by
  simp only [admits, Bool.and_eq_true, decide_eq_true_eq] at h
  exact h.1

/-- The port that was allocated is not in use, so the connection is the only one that has it. -/
theorem PortInv.connect (h : PortInv m hosts) (ha : Accountable m (now, some op)) {a b : VsockMuxer}
    {stream : HostStream} {port peerPort : UInt32} {ok : Bool}
    (hconn : m.connecting op = some (stream, peerPort)) (hs : m.sweeps op = true) (hsame : SameCore m a)
    (hctl : a.epollCtl = m.epollCtl) (hport : a.allocateLocalPort = some (port, b)) (hadd : Added b ⟨port, peerPort⟩
      (VsockConnection.newLocalInit stream hostCid b.cid port peerPort) now ok m') :
    PortInv m' (Accounted.remaining ⟨m, hosts⟩ (some op) m') := by
  have hsome : (m.connecting op).isSome = true := by rw [hconn]; rfl
  obtain ⟨_, hroomy⟩ := ha.added rfl hsome
  obtain ⟨hunused, hb⟩ := allocateLocalPort_fields hport
  cases hadd with
  | refused hfull =>
    have hfull : m.admits = false := by simpa [hb, admits, hsame.connMap, hctl] using hfull
    rw [hroomy] at hfull
    cases hfull
  | @added c hadmits hcore =>
    have hq : Quiet b (c.pushRx (.connRx ⟨port, peerPort⟩)) :=
      ((b.sweepKillq_swept now).quiet.trans hcore.quiet).trans (pushRx_quiet _ _)
    have hfree : ∀ {k : ConnMapKey}, k ∈ a.connMap → k.localPort ≠ port := by
      intro k hk heq
      rw [hsame.connMap] at hk
      have hrange := allocateLocalPort_inHostRange hport
      have hmem := ha.reserved rfl hsome hk (heq ▸ hrange)
      rw [heq, ← hsame.localPortSet] at hmem
      exact hunused hmem
    have hroom : a.connMap.entries.length < maxConnections := by
      rw [hsame.connMap]
      exact admits_room hroomy
    have hnew : PortInv ((c.pushRx (.connRx ⟨port, peerPort⟩)).setConn ⟨port, peerPort⟩
        (VsockConnection.newLocalInit stream hostCid b.cid port peerPort))
        (insert ⟨port, peerPort⟩ hosts) :=
      (h.quiet hsame.quiet).addHost hport hq hroom hfree rfl rfl
    have hopens := opens_connect hconn hs hsame hctl hport hadmits
    have hrem : Accounted.remaining ⟨m, hosts⟩ (some op)
        ((c.pushRx (.connRx ⟨port, peerPort⟩)).setConn ⟨port, peerPort⟩
          (VsockConnection.newLocalInit stream hostCid b.cid port peerPort)) =
        insert ⟨port, peerPort⟩ hosts := by
      rw [← hnew.filter_live]
      simp [Accounted.remaining, hostOpens, hsome, hopens]
    rw [hrem]
    exact hnew

theorem Effect.portInv (he : Effect m now op m') (ha : Accountable m (now, some op))
    (h : PortInv m hosts) : PortInv m' (Accounted.remaining ⟨m, hosts⟩ (some op) m') := by
  have hswept := (m.sweepKillq_swept now).quiet
  cases he with
  | frame hnone hsame =>
    rw [remaining_of_none hnone]
    exact h.filter_quiet hsame.quiet
  | nonStream | unknown =>
    rw [remaining_of_none rfl]
    exact (h.enqRst _ _).filter_quiet (.refl _)
  | @accepted p stream _ hs _ hadd =>
    have hfree := ha.guest rfl (opens_sendPkt hs hadd.admits)
    rw [remaining_of_none rfl]
    cases hadd with
    | @added a hadmits hsame =>
      have hq : Quiet m (a.pushRx (.connRx ⟨p.pkt.hdr.dstPort, p.pkt.hdr.srcPort⟩)) :=
        (hswept.trans hsame.quiet).trans (pushRx_quiet _ _)
      refine ((h.quiet hq).addGuest ?_ ?_ rfl rfl).filter_quiet (.refl _)
      · rw [hq.length]
        exact admits_room hadmits
      · rw [hq.localPortSet]
        exact hfree
  | refused _ _ hadd =>
    rw [remaining_of_none rfl]
    cases hadd with
    | refused _ hsame =>
      exact ((h.quiet (hswept.trans hsame.quiet)).enqRst _ _).filter_quiet (.refl _)
  | reset hl =>
    rw [remaining_of_none rfl]
    exact h.filter_removed (mem_of_lookup hl)
  | deliver =>
    rw [remaining_of_none rfl]
    exact h.filter_quiet (m.applyConnMutation_quiet _ now fun c => c.sendPkt_sameEnds _ now)
  | receive hrecv =>
    rw [remaining_of_none rfl]
    exact hrecv.portInv (h.quiet m.resyncRxq_quiet)
  | notify hnone =>
    rw [remaining_of_none hnone]
    exact h.filter_quiet
      (m.applyConnMutation_quiet _ now fun c => (VsockConnection.notify_step c _).sameEnds)
  | connect hconn hs hsame hctl hport hadd => exact h.connect ha hconn hs hsame hctl hport hadd
  | abandon hconn hs =>
    have hsome : (m.connecting op).isSome = true := by rw [hconn]; rfl
    rw [(ha.added rfl hsome).1] at hs
    cases hs
  | sweepKillq =>
    rw [remaining_of_none rfl]
    exact h.filter_quiet hswept

theorem portInv_step {s s' : Accounted} {a : Nat × Option Op} (h : PortInv s.muxer s.hosts)
    (hs : Accountable s.muxer a ∧ Accounted.Step s a s') : PortInv s'.muxer s'.hosts := by
  obtain ⟨ha, ⟨hstep⟩⟩ := hs
  cases hstep with
  | call happ => exact (apply_effect happ).portInv ha h
  | @rehash now connMap hp =>
    have hkeys : connMap.keys.Perm s.muxer.connMap.keys := hp.map _
    have hq : Quiet s.muxer { s.muxer with connMap := connMap } :=
      ⟨hkeys, fun hl => ⟨_, (AList.perm_lookup hp) ▸ hl, rfl, rfl⟩, rfl, rfl, id⟩
    have hrem : s.remaining none { s.muxer with connMap := connMap } =
        s.hosts.filter (· ∈ connMap) := by
      simp [Accounted.remaining]
    rw [hrem]
    exact h.filter_quiet hq

theorem PortInv.card_le (h : PortInv m hosts) : m.localPortSet.card ≤ maxConnections := by
  have hsub : hosts ⊆ m.connMap.keys.toFinset := by
    intro key hk
    exact List.mem_toFinset.mpr (h.live hk)
  calc m.localPortSet.card
      ≤ hosts.card := by
        rw [h.ports]
        exact Finset.card_image_le
    _ ≤ m.connMap.keys.toFinset.card := Finset.card_le_card hsub
    _ ≤ m.connMap.keys.length := List.toFinset_card_le _
    _ = m.connMap.entries.length := by simp [AList.keys, List.keys]
    _ ≤ maxConnections := h.room

end PortInv

theorem localPortSet_accounted {cid : UInt64} {epollCtl : List Bool} {ops : List (Nat × Option Op)} {s : Accounted}
    (hrun : Run (fun s a s' => Accountable s.muxer a ∧ Accounted.Step s a s') ⟨new cid epollCtl, ∅⟩
      ops s) :
    s.muxer.localPortSet = s.hosts.image (·.localPort) ∧ (∀ key ∈ s.hosts, key ∈ s.muxer.connMap) ∧
      ∃ port m', s.muxer.allocateLocalPort = some (port, m') ∧ ∀ key ∈ s.hosts, key.localPort ≠ port := by
  have hinv : PortInv s.muxer s.hosts := by
    refine hrun.invariant (I := fun s => PortInv s.muxer s.hosts) (fun _ _ _ => portInv_step) ?_
    refine ⟨rfl, ?_, ?_, ?_, ?_, Nat.zero_le _⟩
    · intro key hk
      cases hk
    · intro key hk
      cases hk
    · intro key key' hk
      cases hk
    · intro key conn hl
      cases hl
  obtain ⟨⟨port, m'⟩, hport⟩ := Option.isSome_iff_exists.mp (allocateLocalPort_isSome hinv.card_le)
  refine ⟨hinv.ports, fun key hk => hinv.live hk, port, m', hport, ?_⟩
  intro key hk heq
  refine (allocateLocalPort_fields hport).1 ?_
  rw [hinv.ports, ← heq]
  exact Finset.mem_image_of_mem _ hk

theorem accountable_of_empty {m : VsockMuxer} {a : Nat × Option Op} (hconns : m.connMap = ∅)
    (hports : m.localPortSet = ∅) (hadd : ∀ {op}, a.2 = some op → (m.connecting op).isSome = true →
      m.sweeps op = true ∧ m.admits = true) : Accountable m a where
  added := hadd
  reserved _ _ hk := by
    rw [hconns] at hk
    exact absurd hk (AList.notMem_empty _)
  guest _ _ := by
    rw [hports]
    exact Finset.notMem_empty _

/-- The first connection of the host gets the first port, and the next one another. -/
theorem localPortSet_accounted_connect :
    ∃ s, Run (fun s a s' => Accountable s.muxer a ∧ Accounted.Step s a s') ⟨new 3 [], ∅⟩ hostConnect s ∧
      s.muxer.localPortSet = {1073741824} ∧ s.hosts = {⟨1073741824, 5000⟩} ∧
      s.muxer.localPortSet = s.hosts.image (·.localPort) ∧
      ∃ port m', s.muxer.allocateLocalPort = some (port, m') ∧ ∀ key ∈ s.hosts, key.localPort ≠ port := by
  have hrun : Run (fun s a s' => Accountable s.muxer a ∧ Accounted.Step s a s') ⟨new 3 [], ∅⟩
      hostConnect _ :=
    .cons ⟨accountable_of_empty rfl rfl (by rintro _ ⟨⟩ ⟨⟩), .mk (.call rfl)⟩
      (.cons ⟨accountable_of_empty rfl rfl (by rintro _ ⟨⟩ ⟨⟩), .mk (.call rfl)⟩
        (.cons ⟨accountable_of_empty rfl rfl (by rintro _ ⟨⟩ _; exact ⟨rfl, rfl⟩), .mk (.call rfl)⟩
          .nil))
  obtain ⟨hports, _, hfree⟩ := localPortSet_accounted hrun
  exact ⟨_, hrun, rfl, rfl, hports, hfree⟩

/-- The connection cannot be registered with epoll. Its port stays allocated, without a connection
that could ever free it. -/
theorem refused_leaks_port :
    ∃ s, Run Accounted.Step ⟨new 3 [true, true, false], ∅⟩ hostConnect s ∧
      s.hosts = ∅ ∧ s.muxer.connMap = ∅ ∧ s.muxer.localPortSet = {1073741824} := by
  have hrun : Run Accounted.Step ⟨new 3 [true, true, false], ∅⟩ hostConnect _ :=
    .cons (.mk (.call rfl)) (.cons (.mk (.call rfl)) (.cons (.mk (.call rfl)) .nil))
  exact ⟨_, hrun, rfl, rfl, rfl⟩

/-! ## The number of connections -/

def Room (m : VsockMuxer) : Prop := m.connMap.entries.length ≤ maxConnections

section Room

variable {m m' : VsockMuxer} {now : Nat} {op : Op}

theorem Room.quiet (h : m.Room) (hq : Quiet m m') : m'.Room := hq.length.le.trans h

theorem Room.removeConnection (h : m.Room) (key : ConnMapKey) : (m.removeConnection key).Room :=
  (removeConnection_length m key).trans h

theorem Received.room {pkt : VsockPacket} {out : Except VsockError Unit × VsockPacket × VsockMuxer}
    (hrecv : Received now m pkt out) (h : m.Room) : out.2.2.Room := by
  induction hrecv with
  | empty | rst => exact h
  | conn _ hres => exact h.quiet (quiet_of_recvConn hres)
  | connRst _ hres => exact (h.quiet (quiet_of_recvConn hres)).removeConnection _
  | next _ hres _ ih => exact ih (h.quiet (quiet_of_recvConn hres))

theorem Added.room {key : ConnMapKey} {conn : VsockConnection} {ok : Bool} (hadd : Added m key conn now ok m')
    (h : m.Room) : m'.Room := by
  have hswept := (m.sweepKillq_swept now).quiet
  cases hadd with
  | @added a hadmits hsame =>
    -- `admits` looks at `m`, and the sweep removes nothing
    have hq := (hswept.trans hsame.quiet).trans (pushRx_quiet a key)
    exact (setConn_length _ _ _).trans (hq.length ▸ admits_room hadmits)
  | refused _ hsame => exact h.quiet (hswept.trans hsame.quiet)

theorem Effect.room (he : Effect m now op m') (h : m.Room) : m'.Room := by
  cases he with
  | frame _ hsame => exact h.quiet hsame.quiet
  | nonStream | unknown => exact h
  | accepted _ _ hadd | refused _ _ hadd => exact hadd.room h
  | reset => exact h.removeConnection _
  | deliver => exact h.quiet (m.applyConnMutation_quiet _ now fun c => c.sendPkt_sameEnds _ now)
  | receive hrecv => exact hrecv.room (h.quiet m.resyncRxq_quiet)
  | notify => exact h.quiet (m.applyConnMutation_quiet _ now fun c => (VsockConnection.notify_step c _).sameEnds)
  | connect _ _ hsame _ hport hadd =>
    obtain ⟨_, rfl⟩ := allocateLocalPort_fields hport
    exact hadd.room (h.quiet hsame.quiet :)
  | abandon _ _ hsame hport =>
    obtain ⟨_, rfl⟩ := allocateLocalPort_fields hport
    exact (h.quiet hsame.quiet :)
  | sweepKillq => exact h.quiet (m.sweepKillq_swept now).quiet

/-- Whatever the guest and the host do, there are never more connections than allowed. -/
theorem connections_le {cid : UInt64} {epollCtl : List Bool} {ops : List (Nat × Option Op)}
    (hrun : Run Step (new cid epollCtl) ops m) : m.connMap.entries.length ≤ maxConnections := by
  refine hrun.invariant (I := Room) ?_ (Nat.zero_le _)
  intro m a m' h hs
  cases hs with
  | call happ => exact (apply_effect happ).room h
  | rehash hp => exact hp.length_eq.le.trans h

theorem connections_le_connect :
    ∃ m, Run Step (new 3 []) hostConnect m ∧ m.connMap.entries.length ≤ maxConnections := by
  have hrun : Run Step (new 3 []) hostConnect _ := .cons (.call rfl) (.cons (.call rfl) (.cons (.call rfl) .nil))
  exact ⟨_, hrun, connections_le hrun⟩

end Room

end Kata.Vsock.VsockMuxer
