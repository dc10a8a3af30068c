import Mathlib.Logic.Basic

/-!
# Kata.Vsock.Packet

Vsock packets (`vsock/packet.rs`) and the constants of the protocol (`vsock/mod.rs`, `defs::uapi`).

A packet is a header and an optional data buffer. `TxPacket` is a packet that `from_tx_virtq_head`
has accepted: its data buffer is there unless the length is 0, and holds at least that many bytes.
-/

namespace Kata.Vsock

def hostCid : UInt64 := 2

def typeStream : UInt16 := 1

def opRequest : UInt16 := 1
def opResponse : UInt16 := 2
def opRst : UInt16 := 3
def opShutdown : UInt16 := 4
def opRw : UInt16 := 5
def opCreditUpdate : UInt16 := 6
def opCreditRequest : UInt16 := 7

def flagsShutdownRcv : UInt32 := 1
def flagsShutdownSend : UInt32 := 2

/-- `MAX_PKT_BUF_SIZE` -/
def maxPktBufSize : Nat := 64 * 1024

structure VsockPacketHdr where
  srcCid : UInt64 := 0
  dstCid : UInt64 := 0
  srcPort : UInt32 := 0
  dstPort : UInt32 := 0
  len : UInt32 := 0
  type : UInt16 := 0
  op : UInt16 := 0
  flags : UInt32 := 0
  bufAlloc : UInt32 := 0
  fwdCnt : UInt32 := 0
deriving DecidableEq, Repr

structure VsockPacket where
  hdr : VsockPacketHdr
  buf : Option (List UInt8)
deriving DecidableEq, Repr

/-- The errors of the two directions of a channel. -/
inductive VsockError where
  | noData
  | pktBufMissing
deriving DecidableEq, Repr

namespace VsockPacket

section Fields

variable (p : VsockPacket)

def op : UInt16 := p.hdr.op

def setOp (op : UInt16) : VsockPacket := { p with hdr := { p.hdr with op := op } }

def setLen (len : UInt32) : VsockPacket :=
  { p with hdr := { p.hdr with len := len } }

def setFlag (flag : UInt32) : VsockPacket :=
  { p with hdr := { p.hdr with flags := p.hdr.flags ||| flag } }

/-- A read into the buffer overwrites its first bytes. -/
def fill (bytes : List UInt8) : VsockPacket :=
  { p with buf := p.buf.map fun b => bytes ++ b.drop bytes.length }

end Fields

end VsockPacket

structure TxPacket where
  pkt : VsockPacket
  len_le : pkt.hdr.len.toNat ≤ maxPktBufSize
  buf_none : pkt.buf = none → pkt.hdr.len = 0
  buf_some : ∀ b, pkt.buf = some b → pkt.hdr.len.toNat ≤ b.length

namespace TxPacket

def op (p : TxPacket) : UInt16 := p.pkt.hdr.op

def recvOff (p : TxPacket) : Bool := p.pkt.hdr.flags &&& flagsShutdownRcv != 0

def sendOff (p : TxPacket) : Bool := p.pkt.hdr.flags &&& flagsShutdownSend != 0

/-- The first `len` bytes of the buffer. -/
def payload (p : TxPacket) : List UInt8 := (p.pkt.buf.getD []).take p.pkt.hdr.len.toNat

theorem payload_length (p : TxPacket) : p.payload.length = p.pkt.hdr.len.toNat := by
  cases hb : p.pkt.buf with
  | none =>
    have h0 := p.buf_none hb
    simp [payload, hb, h0]
  | some b =>
    have hle := p.buf_some b hb
    simp [payload, hb, hle]

/-- A packet without data. -/
def control (hdr : VsockPacketHdr) (h : hdr.len = 0) : TxPacket where
  pkt := ⟨hdr, none⟩
  len_le := by
    rw [h]
    exact Nat.zero_le _
  buf_none := fun _ => h
  buf_some := nofun

theorem toNat_ofNat_length {bytes : List UInt8} (h : bytes.length ≤ maxPktBufSize) :
    (UInt32.ofNat bytes.length).toNat = bytes.length := by
  refine UInt32.toNat_ofNat_of_lt' (Nat.lt_of_le_of_lt h ?_)
  decide

/-- A data packet that carries `bytes`. -/
def data (bytes : List UInt8) (h : bytes.length ≤ maxPktBufSize) (hdr : VsockPacketHdr) : TxPacket where
  pkt := ⟨{ hdr with op := opRw, len := UInt32.ofNat bytes.length }, some bytes⟩
  len_le := by simpa only [toNat_ofNat_length h] using h
  buf_none := nofun
  buf_some := by
    intro b hb
    cases hb
    exact Nat.le_of_eq (toNat_ofNat_length h)

end TxPacket
end Kata.Vsock
