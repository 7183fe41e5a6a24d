import XdmaDpdk.Control
import XdmaDpdk.RxCount
import XdmaDpdk.TxChain

namespace XdmaDpdk

open ArrayLoop ChainWalker

/-!
# XDMA driver — the receive chain handed to the device

What the device finds when an arming call of `xdma_recv_pkts` starts the channel.  Every
posted descriptor holds the address of its mbuf (`dstAddr_rxArm`), but no posted descriptor
is marked: the only `STOPPED` of a C2H ring is the one on its last descriptor, so the device
walks the whole ring (`deviceWalk_rxArm`).  `rxChainHandedOver_iff`: that is the chain the
call posted exactly when it posted a full ring.
-/

@[simp] theorem dstAddr_fillC2hDesc (a : Addr) (mb : RteMbuf) (d : XdmaDesc) :
    (fillC2hDesc a mb d).dstAddr = mb.dataIova := by
  simp [fillC2hDesc, XdmaDesc.dstAddr, xdmaDescControlSet]

section
variable {virt2phy : Addr → Addr} {e : XdmaEngine} (m : RxMem) (nbPkts : Nat)

/-- A posted descriptor holds the data address of the mbuf at its index. -/
theorem dstAddr_rxArm (hused : e.descUsed = 0) (hmax : 0 < e.descMax) (i : Nat)
    (hi : i < min nbPkts e.descMax) :
    ((rxArm e m nbPkts).2.1.descRing i).dstAddr = (m.heap (m.arr i)).dataIova := by
  rw [rxArm_desc e m nbPkts hused hmax i hi, dstAddr_fillC2hDesc]

/-- From `desc_ring[0]` the device walks the whole ring, however little of it is posted. -/
theorem deviceWalk_rxArm (hlinks : LinksIntact virt2phy e) (hmap : MapsRing virt2phy e)
    (hstop : ∀ i < e.descMax, (e.descRing i).stopped = decide (i + 1 = e.descMax))
    (hpos : 0 < e.descMax) :
    DeviceWalk virt2phy (rxArm e m nbPkts).2.1 (List.range e.descMax) := by
  have hkeep : Keeps XdmaDesc.stopped e (rxArm e m nbPkts).2.1 :=
    keeps_rxPost stopped_fillC2hDesc e m (min nbPkts e.descMax)
  have hframe := frame_rxArm e m nbPkts
  unfold DeviceWalk
  simp only [hkeep _, hframe.next, busIndex_frame hframe]
  -- The descriptors `0, …, desc_max - 1`, the last of them stopped.
  have hrun : ∀ i < e.descMax - 1, (e.descRing i).stopped = false ∧
      busIndex virt2phy e (e.descRing i).nextAddr = some (i + 1) := by
    intro i hi
    constructor
    · rw [hstop i (by omega)]
      exact decide_eq_false (by omega)
    · rw [hlinks i (by omega), if_neg (by omega)]
      exact busIndex_descAddr hmap (i + 1) (by omega)
  have hlast : (e.descRing (e.descMax - 1)).stopped = true := by
    rw [hstop _ (by omega)]
    exact decide_eq_true (Nat.sub_add_cancel hpos)
  have hwalk := Walk.of_consecutive hrun hlast (e.descMax - 1) (Nat.le_refl _)
  rwa [Nat.sub_self, ← List.range_eq_range', Nat.sub_add_cancel hpos] at hwalk

end

/-- The device walks the first `n` descriptors, and these hold the addresses of the first
    `n` mbufs of the caller's array. -/
structure RxChainHandedOver (virt2phy : Addr → Addr) (e : XdmaEngine) (m : RxMem) (n : Nat) :
    Prop where
  walk : DeviceWalk virt2phy e (List.range n)
  dst : ∀ i < n, (e.descRing i).dstAddr = (m.heap (m.arr i)).dataIova

/-- **The receive chain.** After any history, an arming call hands over the chain of the
    descriptors it posted exactly when it posts a full ring. -/
theorem rxChainHandedOver_iff (virt2phy : Addr → Addr) (e : XdmaEngine) (m : RxMem) (nbPkts : Nat)
    (hreach : EngineReach virt2phy e) (hdir : e.dir = .c2h) (hrun : e.running = false)
    (hmap : MapsRing virt2phy e) :
    RxChainHandedOver virt2phy (rxEnter e m nbPkts).2.1 m (min nbPkts e.descMax)
      ↔ e.descMax ≤ nbPkts := by
  have hinv := hreach.inv
  have hpos := hinv.descMax_pos
  rw [rxEnter_of_idle e m nbPkts hrun]
  have hwalk : DeviceWalk virt2phy (rxArm e.clearStatus m nbPkts).2.1 (List.range e.descMax) :=
    deviceWalk_rxArm m nbPkts hinv.links hmap (hreach.stopped_c2h hdir) hpos
  constructor
  · intro h
    -- Both walks are the device's, so they have the same length.
    have hlen := congrArg List.length (h.walk.unique hwalk)
    rw [List.length_range, List.length_range] at hlen
    omega
  · intro hfull
    have hmin : min nbPkts e.descMax = e.descMax := Nat.min_eq_right hfull
    refine ⟨by rw [hmin]; exact hwalk, fun i hi => ?_⟩
    exact dstAddr_rxArm (e := e.clearStatus) m nbPkts (hinv.idle hrun).used hpos i hi

theorem rxChainHandedOver_freshRx :
    RxChainHandedOver id (rxEnter freshRx.eng plainMem 32).2.1 plainMem
        (min 32 freshRx.eng.descMax)
      ↔ freshRx.eng.descMax ≤ 32 :=
  rxChainHandedOver_iff id freshRx.eng plainMem 32 (.rxSetup 0 SetupAlloc.pages) rfl rfl
    (MapsRing.of_injective Function.injective_id rfl)

/-- A call for one packet on a fresh queue hands over 32 descriptors. -/
theorem rxChain_one :
    ¬ ∀ (virt2phy : Addr → Addr) (e : XdmaEngine) (m : RxMem) (nbPkts : Nat),
      EngineReach virt2phy e → e.dir = .c2h → e.running = false → MapsRing virt2phy e →
      1 ≤ nbPkts → nbPkts < 2 ^ 16 →
      RxChainHandedOver virt2phy (rxEnter e m nbPkts).2.1 m (min nbPkts e.descMax) := by
  intro h
  have hreach : EngineReach id freshRx.eng := .rxSetup 0 SetupAlloc.pages
  have hmap : MapsRing id freshRx.eng := MapsRing.of_injective Function.injective_id rfl
  have hone := h id freshRx.eng plainMem 1 hreach rfl rfl hmap (Nat.le_refl 1) (by decide)
  have hall : DeviceWalk id (rxArm freshRx.eng.clearStatus plainMem 1).2.1 (List.range 32) :=
    deviceWalk_rxArm plainMem 1 hreach.inv.links hmap (hreach.stopped_c2h rfl) (by decide)
  have hlen := congrArg List.length (hone.walk.unique hall)
  exact absurd hlen (by decide)

end XdmaDpdk
