import XdmaDpdk.RxSystem

namespace XdmaDpdk

/-!
# XDMA driver — bus addresses

The bus addresses a burst leaves with the device for the objects of the queue's own zone:
the registers of the first descriptor and of the poll-mode word, the links between the
descriptors, and on C2H the write-back record in each posted descriptor.

The driver computes them in three ways: per object (`rte_mem_virt2phy`, the links), with the
offset of the software ring (the registers), and with the offset of each mbuf (the record).
`translates_iff`: they are all `virt2phy` of the object exactly when these offsets are the
object's own (`OffsetsAgree`, `MbufOffset`).
-/

/-! ### What the device is given -/

/-- The last value written to a register. -/
def XdmaEngine.reg (e : XdmaEngine) (offset : Nat) : Option (BitVec 32) :=
  (e.regWrites.reverse.find? (fun w => w.offset == offset)).map RegWrite.val

/-- The address in a pair of 32-bit registers of the engine's channel. -/
def XdmaEngine.addrReg (e : XdmaEngine) (hi lo : Nat) : Option Addr :=
  (e.reg (hi + e.channel.toNat * 0x100)).bind fun h =>
    (e.reg (lo + e.channel.toNat * 0x100)).map fun l => addrOf h l

def firstDescReg (e : XdmaEngine) : Option Addr :=
  match e.dir with
  | .h2c => e.addrReg h2cSgdmaDescHiAddr h2cSgdmaDescLoAddr
  | .c2h => e.addrReg c2hSgdmaDescHiAddr c2hSgdmaDescLoAddr

def pollModeReg (e : XdmaEngine) : Option Addr :=
  match e.dir with
  | .h2c => e.addrReg h2cPollModeHiWbAddr h2cPollModeLoWbAddr
  | .c2h => e.addrReg c2hPollModeHiWbAddr c2hPollModeLoWbAddr

/-- The starts of a burst on an idle engine: the engine it starts, and the mbufs it posts. -/
inductive BurstStart (e : XdmaEngine) : XdmaEngine → List RteMbuf → Prop
  | xmit (b : TxBurst) (hdir : e.dir = .h2c) : BurstStart e (xmitStart e b).2 []
  | recv (m : RxMem) (nbPkts : Nat) (hdir : e.dir = .c2h) :
      BurstStart e (rxEnter e m nbPkts).2.1
        ((List.range (min nbPkts e.descMax)).map (fun i => m.heap (m.arr i)))

/-- Each bus address the device holds is `virt2phy` of the object it is for; the first
    `posted` descriptors name the write-back record. -/
structure Translates (virt2phy : Addr → Addr) (e : XdmaEngine) (posted : Nat) : Prop where
  firstDesc : firstDescReg e = some (virt2phy (e.descAddr 0))
  pollWord : pollModeReg e = some (virt2phy e.pollModeAddrVirt)
  next : ∀ i, i + 1 < e.descMax → (e.descRing i).nextAddr = virt2phy (e.descAddr (i + 1))
  record : ∀ i < posted, (e.descRing i).srcAddr = virt2phy e.streamWbAddr

/-! ### When the offsets are right -/

/-- The software ring lies at the same offset to its bus address as the descriptors and the
    poll-mode word do. -/
def OffsetsAgree (virt2phy : Addr → Addr) (e : XdmaEngine) : Prop :=
  virt2phy (e.descAddr 0) - e.descAddr 0 = virt2phy e.swRing - e.swRing ∧
    virt2phy e.pollModeAddrVirt - e.pollModeAddrVirt = virt2phy e.swRing - e.swRing

/-- The mbuf lies at the same offset to its bus address as the write-back record does. -/
def MbufOffset (virt2phy : Addr → Addr) (e : XdmaEngine) (mb : RteMbuf) : Prop :=
  virt2phy e.streamWbAddr - e.streamWbAddr = mb.bufIova - mb.bufAddr

/-- An offset taken from one object translates another exactly when it is the other's own. -/
theorem add_offset_eq_iff (p bus offset : Addr) : p + offset = bus ↔ bus - p = offset := by
  rw [sub_eq_iff_eq_add, add_comm, eq_comm]

/-! ### The registers of a started channel -/

section
variable (e : XdmaEngine) (addr : Addr) (adj : Int)

theorem firstDescReg_txStart (hdir : e.dir = .h2c) :
    firstDescReg (xdmaTxEngineStart e addr adj) = some (addr + e.virt2phyOffset) := by
  have hd : (xdmaTxEngineStart e addr adj).dir = .h2c := hdir
  simp only [firstDescReg, hd, XdmaEngine.addrReg, XdmaEngine.reg]
  simp [xdmaTxEngineStart, xdmaRegWrite, h2cSgdmaDescHiAddr, h2cSgdmaDescLoAddr, h2cChannelCtrl,
    h2cPollModeHiWbAddr, h2cPollModeLoWbAddr, h2cSgdmaDescAdj]

theorem pollModeReg_txStart (hdir : e.dir = .h2c) :
    pollModeReg (xdmaTxEngineStart e addr adj) = some (e.pollModeAddrVirt + e.virt2phyOffset) := by
  have hd : (xdmaTxEngineStart e addr adj).dir = .h2c := hdir
  simp only [pollModeReg, hd, XdmaEngine.addrReg, XdmaEngine.reg]
  simp [xdmaTxEngineStart, xdmaRegWrite, h2cChannelCtrl, h2cPollModeHiWbAddr, h2cPollModeLoWbAddr]

theorem firstDescReg_rxStart (hdir : e.dir = .c2h) :
    firstDescReg (xdmaRxEngineStart e addr) = some (addr + e.virt2phyOffset) := by
  have hd : (xdmaRxEngineStart e addr).dir = .c2h := hdir
  simp only [firstDescReg, hd, XdmaEngine.addrReg, XdmaEngine.reg]
  simp [xdmaRxEngineStart, xdmaRegWrite, c2hSgdmaDescHiAddr, c2hSgdmaDescLoAddr, c2hChannelCtrl,
    c2hPollModeHiWbAddr, c2hPollModeLoWbAddr]

theorem pollModeReg_rxStart (hdir : e.dir = .c2h) :
    pollModeReg (xdmaRxEngineStart e addr) = some (e.pollModeAddrVirt + e.virt2phyOffset) := by
  have hd : (xdmaRxEngineStart e addr).dir = .c2h := hdir
  simp only [pollModeReg, hd, XdmaEngine.addrReg, XdmaEngine.reg]
  simp [xdmaRxEngineStart, xdmaRegWrite, c2hChannelCtrl, c2hPollModeHiWbAddr, c2hPollModeLoWbAddr]

end

/-! ### Bursts -/

section
variable {e e' : XdmaEngine} {posted : List RteMbuf}

theorem BurstStart.frame (h : BurstStart e e' posted) : Frame e e' := by
  cases h with
  | xmit b _ => exact frame_xmitStart e b
  | recv m nbPkts _ => exact frame_rxEnter e m nbPkts

/-- Both starts write the two register pairs with the offset of the software ring. -/
theorem BurstStart.regs (h : BurstStart e e' posted) (hrun : e.running = false) :
    firstDescReg e' = some (e.descAddr 0 + e.virt2phyOffset) ∧
      pollModeReg e' = some (e.pollModeAddrVirt + e.virt2phyOffset) := by
  cases h with
  | xmit b hdir =>
    have hf := frame_xmitStage e b
    have hd : (xmitStage e b).2.dir = .h2c := hf.dir.trans hdir
    rw [xmitStart_engine, firstDescReg_txStart _ _ _ hd, pollModeReg_txStart _ _ _ hd,
      hf.descAddr, hf.offset, hf.pollAddr]
    exact ⟨rfl, rfl⟩
  | recv m nbPkts hdir =>
    have hf := frame_rxPost e.clearStatus m (min nbPkts e.clearStatus.descMax)
    have hd : (rxPost e.clearStatus m (min nbPkts e.clearStatus.descMax)).dir = .c2h :=
      hf.dir.trans hdir
    rw [rxEnter_of_idle e m nbPkts hrun, rxArm_engine, firstDescReg_rxStart _ _ hd,
      pollModeReg_rxStart _ _ hd, hf.descAddr, hf.offset, hf.pollAddr]
    exact ⟨rfl, rfl⟩

/-- A receive burst names the record with the offset of each mbuf. -/
theorem BurstStart.srcAddr (h : BurstStart e e' posted) (hidle : RingIdle e)
    (hrun : e.running = false) (hmax : 0 < e.descMax) (i : Nat) (hi : i < posted.length) :
    (e'.descRing i).srcAddr = e.streamWbAddr + posted[i].vir2phy := by
  cases h with
  | xmit b _ =>
    -- H2C descriptors name no record.
    exact absurd hi (Nat.not_lt_zero i)
  | recv m nbPkts _ =>
    have hi' : i < min nbPkts e.descMax := by
      rwa [List.length_map, List.length_range] at hi
    have hused : e.clearStatus.descUsed = 0 := hidle.used
    rw [rxEnter_of_idle e m nbPkts hrun, List.getElem_map, List.getElem_range]
    exact rxArm_srcAddr e.clearStatus m nbPkts hused hmax i hi'

end

/-- **Address translation.** For every page mapping, every queue and every burst: what the
    device is given is `virt2phy` of the object, for all objects of the zone, exactly when
    the software ring lies at the offset of the descriptors and of the poll-mode word, and
    every posted mbuf at the offset of the write-back record. -/
theorem translates_iff (virt2phy : Addr → Addr) (e : XdmaEngine) (hreach : EngineReach virt2phy e)
    (hrun : e.running = false) (e' : XdmaEngine) (posted : List RteMbuf)
    (hstart : BurstStart e e' posted) :
    Translates virt2phy e' posted.length
      ↔ OffsetsAgree virt2phy e ∧ ∀ mb ∈ posted, MbufOffset virt2phy e mb := by
  have hinv := hreach.inv
  have hmax : e.descMax = xdmaDescMax := hinv.layout.descMax
  have hpos : 0 < e.descMax := by
    rw [hmax]
    decide
  have hf := hstart.frame
  obtain ⟨hfirst, hpoll⟩ := hstart.regs hrun
  have hoffset : e.virt2phyOffset = virt2phy e.swRing - e.swRing := hinv.layout.offset
  rw [hoffset] at hfirst hpoll
  constructor
  · -- Each bus address is an address plus an offset, so it gives the offset away.
    intro h
    refine ⟨⟨?_, ?_⟩, ?_⟩
    · have haddr := Option.some.inj (hfirst.symm.trans h.firstDesc)
      rw [hf.descAddr] at haddr
      exact (add_offset_eq_iff _ _ _).mp haddr
    · have haddr := Option.some.inj (hpoll.symm.trans h.pollWord)
      rw [hf.pollAddr] at haddr
      exact (add_offset_eq_iff _ _ _).mp haddr
    · intro mb hmb
      obtain ⟨i, hi, rfl⟩ := List.getElem_of_mem hmb
      have haddr := h.record i hi
      rw [hstart.srcAddr (hinv.idle hrun) hrun hpos i hi, hf.streamWbAddr] at haddr
      exact (add_offset_eq_iff _ _ _).mp haddr
  · rintro ⟨⟨hring, hword⟩, hmbufs⟩
    refine ⟨?_, ?_, ?_, ?_⟩
    · rw [hfirst, hf.descAddr, (add_offset_eq_iff _ _ _).mpr hring]
    · rw [hpoll, hf.pollAddr, (add_offset_eq_iff _ _ _).mpr hword]
    · -- The links are translated one by one, whatever the offsets are.
      intro i hi
      rw [hf.descMax] at hi
      rw [hf.next, hf.descAddr, hinv.links i (by omega), if_neg (by omega)]
    · intro i hi
      have hmb := hmbufs posted[i] (List.getElem_mem hi)
      rw [hstart.srcAddr (hinv.idle hrun) hrun hpos i hi, hf.streamWbAddr]
      exact (add_offset_eq_iff _ _ _).mpr hmb

/-- One packet on a fresh H2C queue of a host that maps every page to itself. -/
theorem translates_identity :
    Translates id (xmitStart (xdmaTxEngineSetup id 0 SetupAlloc.pages)
        (TxBurst.plain 1 (by decide))).2 ([] : List RteMbuf).length
      ↔ OffsetsAgree id (xdmaTxEngineSetup id 0 SetupAlloc.pages) ∧
        ∀ mb ∈ ([] : List RteMbuf), MbufOffset id (xdmaTxEngineSetup id 0 SetupAlloc.pages) mb :=
  translates_iff id _ (EngineReach.txSetup 0 SetupAlloc.pages) rfl _ [] (BurstStart.xmit _ rfl)

/-- Two hugepages of 2 MiB: the first is mapped to itself, the ones after it 1 GiB higher. -/
def splitPages (p : Addr) : Addr := if p < 0x200000 then p else p + 0x40000000

/-- With the zone on one hugepage and the software ring on another, the device is told to
    fetch its first descriptor from the wrong page. -/
theorem translates_fails :
    ¬ ∀ (virt2phy : Addr → Addr) (e : XdmaEngine), EngineReach virt2phy e → e.running = false →
      ∀ e' posted, BurstStart e e' posted → Translates virt2phy e' posted.length := by
  intro h
  have hreach : EngineReach splitPages (xdmaTxEngineSetup splitPages 0 SetupAlloc.pages) :=
    EngineReach.txSetup 0 SetupAlloc.pages
  have hstart : BurstStart (xdmaTxEngineSetup splitPages 0 SetupAlloc.pages) _ [] :=
    BurstStart.xmit (TxBurst.plain 1 (by decide)) rfl
  have hfirst := (h splitPages _ hreach rfl _ [] hstart).firstDesc
  rw [(hstart.regs rfl).1, hstart.frame.descAddr] at hfirst
  exact absurd (Option.some.inj hfirst) (by decide)

end XdmaDpdk
