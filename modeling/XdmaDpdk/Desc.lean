import Mathlib.Data.BitVec
import Mathlib.Tactic.Common

namespace XdmaDpdk

/-!
# XDMA driver — descriptors and packet buffers

The two record types the burst paths work on:

* `XdmaDesc` (`struct xdma_desc`), the descriptor the device fetches, with the two
  read-modify-write helpers of its packed control word, `xdmaDescControlSet` and
  `xdmaDescAdjacentSet`;
* `RteMbuf` (`struct rte_mbuf`), the fields the driver reads or stamps.

Bus addresses are kept as the driver keeps them, in two 32-bit halves; `addrOf` puts the
halves together again (`addrOf_hi_lo`).
-/

/-- A 64-bit virtual or bus address. -/
abbrev Addr := BitVec 64

/-! ### Address halves -/

/-- `(uint32_t)(addr & 0xFFFFFFFF)`. -/
def lo32 (addr : Addr) : BitVec 32 := addr.setWidth 32

/-- `(uint32_t)(addr >> 32)`. -/
def hi32 (addr : Addr) : BitVec 32 := (addr >>> 32).setWidth 32

/-- The address a pair of `_hi` / `_lo` fields stands for. -/
def addrOf (hi lo : BitVec 32) : Addr := hi ++ lo

@[simp] theorem addrOf_hi_lo (addr : Addr) : addrOf (hi32 addr) (lo32 addr) = addr := by
  apply BitVec.eq_of_getLsbD_eq
  intro i hi
  simp only [addrOf, hi32, lo32, BitVec.getLsbD_append, BitVec.getLsbD_setWidth,
    BitVec.getLsbD_ushiftRight]
  by_cases h : i < 32
  · simp [h]
  · have hsub : 32 + (i - 32) = i := by omega
    have hlt : i - 32 < 32 := by omega
    simp [h, hsub, hlt]

@[simp] theorem addrOf_zero : addrOf 0 0 = 0 := by decide

/-! ### Descriptors -/

/-- `struct xdma_desc`. -/
structure XdmaDesc where
  control : BitVec 32
  len : BitVec 32
  srcAddrLo : BitVec 32
  srcAddrHi : BitVec 32
  dstAddrLo : BitVec 32
  dstAddrHi : BitVec 32
  nextLo : BitVec 32
  nextHi : BitVec 32
deriving DecidableEq, Repr

/-- `XDMA_DESC_STOPPED`, bit 0: the engine halts after this descriptor. -/
def xdmaDescStopped : BitVec 32 := 0x1#32

/-- `XDMA_DESC_COMPLETED`, bit 1: the engine writes its completed count back. -/
def xdmaDescCompleted : BitVec 32 := 0x2#32

/-- `XDMA_DESC_EOP`, bit 4: last descriptor of a packet. -/
def xdmaDescEop : BitVec 32 := 0x10#32

/-- `XDMA_DESC_NXT_ADJ_MASK`, bits 13..8. -/
def xdmaDescNxtAdjMask : BitVec 32 := 0x3F00#32

/-- The control word of a cleared descriptor: the magic and no flags. -/
def controlClear : BitVec 32 := 0xAD4B0000#32

/-- The control word `xdma_desc_ring_init` gives the last descriptor. -/
def controlLast : BitVec 32 := 0xAD4B0013#32

namespace XdmaDesc

/-- The device's reading of `XDMA_DESC_STOPPED`. -/
def stopped (d : XdmaDesc) : Bool := d.control.getLsbD 0

/-- The device's reading of `XDMA_DESC_COMPLETED`. -/
def completed (d : XdmaDesc) : Bool := d.control.getLsbD 1

/-- The source bus address. -/
def srcAddr (d : XdmaDesc) : Addr := addrOf d.srcAddrHi d.srcAddrLo

/-- The destination bus address. -/
def dstAddr (d : XdmaDesc) : Addr := addrOf d.dstAddrHi d.dstAddrLo

/-- The bus address of the next descriptor. -/
def nextAddr (d : XdmaDesc) : Addr := addrOf d.nextHi d.nextLo

/-- The all-zero descriptor, the contents of fresh zone memory. -/
def zero : XdmaDesc := ⟨0, 0, 0, 0, 0, 0, 0, 0⟩

end XdmaDesc

/-- `desc->control |= control_field`. -/
def xdmaDescControlSet (desc : XdmaDesc) (controlField : BitVec 32) : XdmaDesc :=
  { desc with control := desc.control ||| controlField }

/-- Replace the adjacency field of the control word; `nxtAdj` is shifted in unmasked. -/
def xdmaDescAdjacentSet (desc : XdmaDesc) (nxtAdj : BitVec 32) : XdmaDesc :=
  { desc with control := (desc.control &&& ~~~xdmaDescNxtAdjMask) ||| (nxtAdj <<< 8) }

@[simp] theorem stopped_controlSet (d : XdmaDesc) (f : BitVec 32) :
    (xdmaDescControlSet d f).stopped = (d.stopped || f.getLsbD 0) := by
  simp [xdmaDescControlSet, XdmaDesc.stopped]

@[simp] theorem completed_controlSet (d : XdmaDesc) (f : BitVec 32) :
    (xdmaDescControlSet d f).completed = (d.completed || f.getLsbD 1) := by
  simp [xdmaDescControlSet, XdmaDesc.completed]

/-- The adjacency field does not reach the stop bit. -/
@[simp] theorem stopped_adjacentSet (d : XdmaDesc) (n : BitVec 32) :
    (xdmaDescAdjacentSet d n).stopped = d.stopped := by
  simp [xdmaDescAdjacentSet, XdmaDesc.stopped, xdmaDescNxtAdjMask]

/-- The adjacency field does not reach the completion bit. -/
@[simp] theorem completed_adjacentSet (d : XdmaDesc) (n : BitVec 32) :
    (xdmaDescAdjacentSet d n).completed = d.completed := by
  simp [xdmaDescAdjacentSet, XdmaDesc.completed, xdmaDescNxtAdjMask]

/-! ### Packet buffers -/

/-- A pointer to an mbuf. -/
abbrev MbufPtr := Nat

/-- `struct rte_mbuf`: the fields the driver reads (`buf_addr`, `buf_iova`, `data_off`,
    `nb_segs`, `data_len`, `next`) or stamps on reception. -/
structure RteMbuf where
  bufAddr : Addr
  bufIova : Addr
  dataOff : BitVec 16
  nbSegs : Nat
  pktLen : BitVec 32
  dataLen : BitVec 16
  next : Option MbufPtr
  packetType : BitVec 32
  olFlags : BitVec 64
  port : BitVec 16
  vlanTci : BitVec 16
  rss : BitVec 32
deriving DecidableEq, Repr

/-- The packet buffers of the host, by pointer. -/
abbrev Heap := MbufPtr → RteMbuf

/-- The bus address of a buffer's data, `buf_iova + data_off`. -/
def RteMbuf.dataIova (mb : RteMbuf) : Addr := mb.bufIova + mb.dataOff.setWidth 64

end XdmaDpdk
