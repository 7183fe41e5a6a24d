import XdmaDpdk.Desc
import XdmaDpdk.Lib.ArrayLoop

namespace XdmaDpdk

open ArrayLoop

/-!
# XDMA driver — the engine

`XdmaEngine` is `struct xdma_engine`, together with the memory its pointers lead to: the
descriptor ring and the poll-mode word in the queue's memzone, and the register writes the
engine issues through its parent device.  This file follows `xdma_access_common.c`:

* `xdmaDescRingInit` / `xdmaDescRingClear` — the two sweeps over the ring;
* `takeDesc` — the use both bursts make of `get_desc` (`xdma_rxtx.c`): take the next
  descriptor and rewrite it, in closed form for a run of them (`foldl_takeDesc`);
* `xdmaTxEngineSetup` / `xdmaRxEngineSetup` — an engine as the queue set-up leaves it;
* `xdmaTxEngineStart` / `xdmaRxEngineStart` — programming the channel registers;
* `xdmaTxEngineStop` / `xdmaRxEngineStop` — stopping the channel and clearing the ring.

`rte_mem_virt2phy` is the host's page mapping and stays a parameter `virt2phy`.
-/

/-! ### Constants and registers -/

/-- `XDMA_DESC_MAX`. -/
def xdmaDescMax : Nat := 32

/-- `XDMA_DESC_SIZE`, the descriptor size the burst paths address with. -/
def xdmaDescSize : Nat := 64

/-- `XDMA_POLL_MODE_WB_SIZE`, the poll-word size the burst paths address with. -/
def xdmaPollModeWbSize : Nat := 32

/-- `sizeof(struct xdma_desc)`: eight `uint32_t`. -/
def sizeofXdmaDesc : Nat := 32

/-- `sizeof(struct xdma_poll_wb)`: one `uint32_t`. -/
def sizeofXdmaPollWb : Nat := 4

/-- `sizeof(struct xdma_c2h_stream_wb)`: two `uint32_t`. -/
def sizeofXdmaC2hStreamWb : Nat := 8

/-- `XDMA_ALIGN`. -/
def xdmaAlign : Nat := 4096

/-- `RX_COMMPLETED`. -/
def rxCommpleted : Nat := 1

def h2cChannelCtrl : Nat := 0x0004
def h2cPollModeLoWbAddr : Nat := 0x0088
def h2cPollModeHiWbAddr : Nat := 0x008c
def c2hChannelCtrl : Nat := 0x1004
def c2hPollModeLoWbAddr : Nat := 0x1088
def c2hPollModeHiWbAddr : Nat := 0x108c
def h2cSgdmaDescLoAddr : Nat := 0x4080
def h2cSgdmaDescHiAddr : Nat := 0x4084
def h2cSgdmaDescAdj : Nat := 0x4088
def c2hSgdmaDescLoAddr : Nat := 0x5080
def c2hSgdmaDescHiAddr : Nat := 0x5084

/-- `CTRL_RUN_STOP`. -/
def ctrlRunStop : BitVec 32 := 0x1#32

/-- The control flags every start and stop writes besides `CTRL_RUN_STOP`:
    `CTRL_IE_DESC_STOPPED | CTRL_IE_DESC_COMPLETED | CTRL_IE_DESC_ALIGN_MISMATCH |
    CTRL_IE_MAGIC_STOPPED | CTRL_IE_READ_ERROR | CTRL_IE_DESC_ERROR | CTRL_POLL_MODE_WB`. -/
def ctrlFlags : BitVec 32 :=
  (0x1#32 <<< 1) ||| (0x1#32 <<< 2) ||| (0x1#32 <<< 3) ||| (0x1#32 <<< 4) |||
    (0x1F#32 <<< 9) ||| (0x1F#32 <<< 19) ||| (0x1#32 <<< 26)

/-- One `xdma_reg_write`: a byte offset in the config BAR and the value stored there. -/
structure RegWrite where
  offset : Nat
  val : BitVec 32
deriving DecidableEq, Repr

/-! ### The engine structure -/

/-- `enum dma_data_direction`; an engine has one of the first two. -/
inductive DmaDataDirection
  | c2h
  | h2c
deriving DecidableEq, Repr

/-- `struct rte_memzone`: where a reserved zone lies and how many bytes were reserved.
    `rte_memzone_reserve_aligned` places it on an `XDMA_ALIGN` boundary. -/
structure RteMemzone where
  addr : Addr
  len : Nat
  aligned : addr.toNat % xdmaAlign = 0

/-- `struct xdma_engine`, with the memory behind its pointers.  `desc_ring` is split in its
    pointer value `descRingAddr` and its contents `descRing`, and `poll_mode_addr_virt` in
    its pointer value and the word `completedDescCount` stored there.  `int desc_used` is
    kept as its 32-bit pattern. -/
structure XdmaEngine where
  dir : DmaDataDirection
  channel : BitVec 2
  running : Bool
  descMax : Nat
  status : Nat
  pollModeAddrVirt : Addr
  completedDescCount : Nat
  descRingAddr : Addr
  descRing : Nat → XdmaDesc
  descUsed : Nat
  swRing : Addr
  portId : BitVec 32
  virt2phyOffset : Addr
  mz : RteMemzone
  regWrites : List RegWrite

/-- `&engine->desc_ring[i]`. -/
def XdmaEngine.descAddr (e : XdmaEngine) (i : Nat) : Addr :=
  e.descRingAddr + BitVec.ofNat 64 (sizeofXdmaDesc * i)

/-- `engine->desc_ring[i] = d`. -/
def XdmaEngine.setDesc (e : XdmaEngine) (i : Nat) (d : XdmaDesc) : XdmaEngine :=
  { e with descRing := Function.update e.descRing i d }

@[simp] theorem setDesc_descRing (e : XdmaEngine) (i : Nat) (d : XdmaDesc) :
    (e.setDesc i d).descRing = Function.update e.descRing i d := rfl

/-- `xdma_reg_write(engine->xdev, offset, val)`. -/
def xdmaRegWrite (e : XdmaEngine) (offset : Nat) (val : BitVec 32) : XdmaEngine :=
  { e with regWrites := e.regWrites ++ [⟨offset, val⟩] }

/-! ### The descriptor ring -/

/-- One pass of `xdma_desc_ring_init`: a clear descriptor linked to its successor, or the
    terminator with a null link. -/
def ringInitDesc (virt2phy : Addr → Addr) (e : XdmaEngine) (i : Nat) : XdmaDesc :=
  let last := i = e.descMax - 1
  let nextAddr := if last then 0 else virt2phy (e.descAddr (i + 1))
  { control := if last then controlLast else controlClear
    len := 0
    srcAddrLo := 0
    srcAddrHi := 0
    dstAddrLo := 0
    dstAddrHi := 0
    nextLo := lo32 nextAddr
    nextHi := hi32 nextAddr }

def xdmaDescRingInit (virt2phy : Addr → Addr) (e : XdmaEngine) : XdmaEngine :=
  let ring := forEach e.descMax (fun i => i) (fun i _ => ringInitDesc virt2phy e i) e.descRing
  { e with descRing := ring }

/-- One pass of `xdma_desc_ring_clear`: addresses and length go, and on H2C the control
    word as well; the link stays. -/
def ringClearDesc (dir : DmaDataDirection) (desc : XdmaDesc) : XdmaDesc :=
  { desc with
    len := 0
    dstAddrHi := 0
    dstAddrLo := 0
    srcAddrHi := 0
    srcAddrLo := 0
    control := if dir = .h2c then controlClear else desc.control }

def xdmaDescRingClear (e : XdmaEngine) : XdmaEngine :=
  let ring := forEach e.descMax (fun i => i) (fun _ d => ringClearDesc e.dir d) e.descRing
  { e with descRing := ring }

@[simp] theorem nextAddr_ringClearDesc (dir : DmaDataDirection) (d : XdmaDesc) :
    (ringClearDesc dir d).nextAddr = d.nextAddr := rfl

@[simp] theorem nextAddr_controlSet (d : XdmaDesc) (f : BitVec 32) :
    (xdmaDescControlSet d f).nextAddr = d.nextAddr := rfl

@[simp] theorem nextAddr_adjacentSet (d : XdmaDesc) (n : BitVec 32) :
    (xdmaDescAdjacentSet d n).nextAddr = d.nextAddr := rfl

@[simp] theorem nextAddr_ringInitDesc (virt2phy : Addr → Addr) (e : XdmaEngine) (i : Nat) :
    (ringInitDesc virt2phy e i).nextAddr
      = if i = e.descMax - 1 then 0 else virt2phy (e.descAddr (i + 1)) := by
  simp [ringInitDesc, XdmaDesc.nextAddr]

theorem descRing_init (virt2phy : Addr → Addr) (e : XdmaEngine) (i : Nat) (hi : i < e.descMax) :
    (xdmaDescRingInit virt2phy e).descRing i = ringInitDesc virt2phy e i := by
  simp [xdmaDescRingInit, forEach_apply, hi]

theorem descRing_clear (e : XdmaEngine) (i : Nat) (hi : i < e.descMax) :
    (xdmaDescRingClear e).descRing i = ringClearDesc e.dir (e.descRing i) := by
  simp [xdmaDescRingClear, forEach_apply, hi]

/-! ### Taking descriptors -/

/-- `get_desc`: the index of the next descriptor, and the engine with the index advanced
    modulo the ring size. -/
def getDesc (e : XdmaEngine) : Nat × XdmaEngine :=
  let id := e.descUsed
  (id, { e with descUsed := (id + 1) % e.descMax })

/-- Take the next descriptor and rewrite it by `fill`. -/
def takeDesc (e : XdmaEngine) (fill : XdmaDesc → XdmaDesc) : XdmaEngine :=
  let (id, e) := getDesc e
  e.setDesc id (fill (e.descRing id))

/-- **Staging lemma.** While they fit before the end of the ring, the descriptors taken are
    consecutive and nothing else of the engine changes. -/
theorem foldl_takeDesc (fills : List (XdmaDesc → XdmaDesc)) (e : XdmaEngine)
    (hused : e.descUsed < e.descMax) (hfit : e.descUsed + fills.length ≤ e.descMax) :
    fills.foldl takeDesc e
      = { e with
          descRing := writeFrom e.descUsed fills e.descRing
          descUsed := (e.descUsed + fills.length) % e.descMax } := by
  induction fills generalizing e with
  | nil => simp [Nat.mod_eq_of_lt hused]
  | cons fill fills ih =>
    rw [List.foldl_cons]
    rw [List.length_cons] at hfit
    rcases Nat.lt_or_eq_of_le (Nat.succ_le_of_lt hused) with hlt | heq
    · -- The index does not wrap: the rest is staged one descriptor further on.
      have hmod : (e.descUsed + 1) % e.descMax = e.descUsed + 1 := Nat.mod_eq_of_lt hlt
      rw [ih]
      · simp only [takeDesc, getDesc, XdmaEngine.setDesc, hmod, List.length_cons]
        rw [writeFrom_cons, Nat.add_assoc, Nat.add_comm 1]
      · simpa only [takeDesc, getDesc, XdmaEngine.setDesc, hmod] using hlt
      · simp only [takeDesc, getDesc, XdmaEngine.setDesc, hmod]
        omega
    · -- The index wraps: this write took the last descriptor and is the last one.
      have hnil : fills = [] := List.eq_nil_of_length_eq_zero (by omega)
      subst hnil
      have hcons := writeFrom_cons e.descUsed fill [] e.descRing
      rw [writeFrom_nil] at hcons
      simp only [List.foldl_nil, takeDesc, getDesc, XdmaEngine.setDesc, List.length_cons,
        List.length_nil, hcons]

/-! ### Queue set-up -/

/-- What the allocators hand to a queue set-up: the zone (zeroed) and the software ring. -/
structure SetupAlloc where
  zoneAddr : Addr
  zoneAligned : zoneAddr.toNat % xdmaAlign = 0
  swRing : Addr

/-- The fields the two queue set-ups fill in before they initialise the ring. -/
def engineAlloc (virt2phy : Addr → Addr) (dir : DmaDataDirection) (size : Nat)
    (channelId : BitVec 16) (a : SetupAlloc) : XdmaEngine where
  dir := dir
  channel := channelId.setWidth 2
  running := false
  descMax := xdmaDescMax
  status := 0
  pollModeAddrVirt := 0
  completedDescCount := 0
  descRingAddr := a.zoneAddr
  descRing := fun _ => XdmaDesc.zero
  descUsed := 0
  swRing := a.swRing
  portId := 0
  virt2phyOffset := virt2phy a.swRing - a.swRing
  mz := { addr := a.zoneAddr, len := size, aligned := a.zoneAligned }
  regWrites := []

/-- The body the two queue set-ups share once their allocations have succeeded. -/
def engineSetup (virt2phy : Addr → Addr) (dir : DmaDataDirection) (size : Nat)
    (channelId : BitVec 16) (a : SetupAlloc) : XdmaEngine :=
  let e := xdmaDescRingInit virt2phy (engineAlloc virt2phy dir size channelId a)
  { e with pollModeAddrVirt := e.mz.addr + BitVec.ofNat 64 (e.descMax * sizeofXdmaDesc) }

theorem descRing_engineSetup (virt2phy : Addr → Addr) (dir : DmaDataDirection) (size : Nat)
    (channelId : BitVec 16) (a : SetupAlloc) (i : Nat) (hi : i < xdmaDescMax) :
    (engineSetup virt2phy dir size channelId a).descRing i
      = ringInitDesc virt2phy (engineAlloc virt2phy dir size channelId a) i :=
  descRing_init virt2phy (engineAlloc virt2phy dir size channelId a) i hi

@[simp] theorem descAddr_engineSetup (virt2phy : Addr → Addr) (dir : DmaDataDirection) (size : Nat)
    (channelId : BitVec 16) (a : SetupAlloc) (i : Nat) :
    (engineSetup virt2phy dir size channelId a).descAddr i
      = a.zoneAddr + BitVec.ofNat 64 (sizeofXdmaDesc * i) := rfl

def xdmaTxEngineSetup (virt2phy : Addr → Addr) (channelId : BitVec 16) (a : SetupAlloc) :
    XdmaEngine :=
  engineSetup virt2phy .h2c (xdmaDescMax * sizeofXdmaDesc + sizeofXdmaPollWb) channelId a

def xdmaRxEngineSetup (virt2phy : Addr → Addr) (channelId : BitVec 16) (a : SetupAlloc) :
    XdmaEngine :=
  engineSetup virt2phy .c2h
    (xdmaDescMax * sizeofXdmaDesc + sizeofXdmaPollWb + sizeofXdmaC2hStreamWb) channelId a

/-- Allocations that succeed, on page boundaries. -/
def SetupAlloc.pages : SetupAlloc where
  zoneAddr := 0x100000
  zoneAligned := by decide
  swRing := 0x200000

/-! ### Starting and stopping the channel -/

def xdmaTxEngineStart (e : XdmaEngine) (firstDescAddr : Addr) (descAdj : Int) : XdmaEngine :=
  let e := { e with running := true }
  let firstDescAddr := firstDescAddr + e.virt2phyOffset
  let pollModeWbAddr := e.pollModeAddrVirt + e.virt2phyOffset
  let chan := e.channel.toNat * 0x100
  let e := xdmaRegWrite e (h2cSgdmaDescLoAddr + chan) (lo32 firstDescAddr)
  let e := xdmaRegWrite e (h2cSgdmaDescHiAddr + chan) (hi32 firstDescAddr)
  let e := xdmaRegWrite e (h2cSgdmaDescAdj + chan)
    (BitVec.ofInt 32 (if descAdj > 0 then descAdj else 0))
  let e := xdmaRegWrite e (h2cPollModeLoWbAddr + chan) (lo32 pollModeWbAddr)
  let e := xdmaRegWrite e (h2cPollModeHiWbAddr + chan) (hi32 pollModeWbAddr)
  xdmaRegWrite e (h2cChannelCtrl + chan) (ctrlRunStop ||| ctrlFlags)

@[simp] theorem descUsed_txStart (e : XdmaEngine) (addr : Addr) (adj : Int) :
    (xdmaTxEngineStart e addr adj).descUsed = e.descUsed := rfl

@[simp] theorem completedDescCount_txStart (e : XdmaEngine) (addr : Addr) (adj : Int) :
    (xdmaTxEngineStart e addr adj).completedDescCount = e.completedDescCount := rfl

def xdmaRxEngineStart (e : XdmaEngine) (firstDescAddr : Addr) : XdmaEngine :=
  let e := { e with running := true }
  let firstDescAddr := firstDescAddr + e.virt2phyOffset
  let pollModeWbAddr := e.pollModeAddrVirt + e.virt2phyOffset
  let chan := e.channel.toNat * 0x100
  let e := xdmaRegWrite e (c2hSgdmaDescLoAddr + chan) (lo32 firstDescAddr)
  let e := xdmaRegWrite e (c2hSgdmaDescHiAddr + chan) (hi32 firstDescAddr)
  let e := xdmaRegWrite e (c2hPollModeLoWbAddr + chan) (lo32 pollModeWbAddr)
  let e := xdmaRegWrite e (c2hPollModeHiWbAddr + chan) (hi32 pollModeWbAddr)
  xdmaRegWrite e (c2hChannelCtrl + chan) (ctrlRunStop ||| ctrlFlags)

/-- The register write that clears `CTRL_RUN_STOP`, and the ring clear after it: from here
    on the device fetches nothing. -/
def engineHalt (e : XdmaEngine) (channelCtrl : Nat) : XdmaEngine :=
  xdmaDescRingClear (xdmaRegWrite e (channelCtrl + e.channel.toNat * 0x100) ctrlFlags)

/-- The bookkeeping at the end of both stops: the engine is idle and its word is zero. -/
def engineReset (e : XdmaEngine) : XdmaEngine :=
  { e with running := false, descUsed := 0, completedDescCount := 0 }

def xdmaTxEngineStop (e : XdmaEngine) : XdmaEngine := engineReset (engineHalt e h2cChannelCtrl)

def xdmaRxEngineStop (e : XdmaEngine) : XdmaEngine := engineReset (engineHalt e c2hChannelCtrl)

end XdmaDpdk
