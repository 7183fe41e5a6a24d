import XdmaDpdk.History
import XdmaDpdk.Lib.ChainWalker

namespace XdmaDpdk

open ChainWalker

/-!
# XDMA driver — the chain handed to the device

What the device finds when a transmit burst starts the channel.  The device reads the ring
through bus addresses: `busIndex` is the descriptor a bus address names, and `txRules` its
reading of a descriptor.

* `isChain_xmitStage` — the staged ring is a chain of the descriptors `0, …, T % desc_max`,
  where `T` is the number of descriptors the burst staged;
* `chainHandedOver_iff` — the chain is the one the burst asked for exactly when the burst
  leaves a descriptor free.  A burst of `desc_max` descriptors wraps `desc_used` to 0, and
  the terminator flags land on the first descriptor of the burst itself.
-/

/-! ### Bus addresses of descriptors -/

/-- The descriptors of the ring have distinct bus addresses. -/
def MapsRing (virt2phy : Addr → Addr) (e : XdmaEngine) : Prop :=
  ∀ i < e.descMax, ∀ j < e.descMax,
    virt2phy (e.descAddr i) = virt2phy (e.descAddr j) → i = j

/-- The descriptor a bus address names, if any. -/
def busIndex (virt2phy : Addr → Addr) (e : XdmaEngine) (p : Addr) : Option Nat :=
  (List.range e.descMax).find? (fun i => virt2phy (e.descAddr i) == p)

theorem busIndex_descAddr {virt2phy : Addr → Addr} {e : XdmaEngine} (hmap : MapsRing virt2phy e)
    (i : Nat) (hi : i < e.descMax) : busIndex virt2phy e (virt2phy (e.descAddr i)) = some i := by
  cases hf : busIndex virt2phy e (virt2phy (e.descAddr i)) with
  | none =>
    -- The search passes over descriptor `i` itself.
    have hno := List.find?_eq_none.mp hf i (List.mem_range.mpr hi)
    simp at hno
  | some j =>
    have hj : j < e.descMax := List.mem_range.mp (List.mem_of_find?_eq_some hf)
    have heq : virt2phy (e.descAddr j) = virt2phy (e.descAddr i) := by
      simpa using List.find?_some hf
    rw [hmap j hj i hi heq]

/-- Addresses within one ring do not wrap. -/
theorem descAddr_inj (e : XdmaEngine) (hmax : e.descMax = xdmaDescMax) (i : Nat)
    (hi : i < e.descMax) (j : Nat) (hj : j < e.descMax) (h : e.descAddr i = e.descAddr j) :
    i = j := by
  have hofs := add_left_cancel (a := e.descRingAddr) h
  have hnat := congrArg BitVec.toNat hofs
  simp only [BitVec.toNat_ofNat, sizeofXdmaDesc] at hnat
  simp only [hmax, xdmaDescMax] at hi hj
  omega

theorem MapsRing.of_injective {virt2phy : Addr → Addr} (hinj : Function.Injective virt2phy)
    {e : XdmaEngine} (hmax : e.descMax = xdmaDescMax) : MapsRing virt2phy e :=
  fun i hi j hj h => descAddr_inj e hmax i hi j hj (hinj h)

/-! ### The device's reading of the ring -/

/-- How an H2C channel reads a descriptor. -/
def txRules (virt2phy : Addr → Addr) (e : XdmaEngine) : Rules Nat XdmaDesc where
  first := 0
  stop := XdmaDesc.stopped
  report := XdmaDesc.completed
  next d := busIndex virt2phy e d.nextAddr

/-- The descriptors the device walks from `desc_ring[0]` are those of `l`. -/
def DeviceWalk (virt2phy : Addr → Addr) (e : XdmaEngine) (l : List Nat) : Prop :=
  Walk (fun i => (e.descRing i).stopped)
    (fun i => busIndex virt2phy e (e.descRing i).nextAddr) 0 l

/-- The device walks the `T` staged descriptors in order and beyond them at most one empty
    descriptor, and only the last staged one may carry `STOPPED`. -/
structure ChainHandedOver (virt2phy : Addr → Addr) (e : XdmaEngine) (T : Nat) : Prop where
  walk : ∃ l, DeviceWalk virt2phy e l ∧
    (l = List.range T ∨ ∃ t, l = List.range T ++ [t] ∧ T ≤ t ∧ (e.descRing t).len = 0)
  stopped : ∀ i, i + 1 < T → (e.descRing i).stopped = false

/-! ### The staged chain -/

/-- The number of descriptors a burst stages on `e`. -/
def stagedCount (e : XdmaEngine) (b : TxBurst) : Nat := (b.writes e.descMax).length

theorem stagedCount_le (e : XdmaEngine) (b : TxBurst) : stagedCount e b ≤ e.descMax :=
  b.length_writes_le e.descMax

section
variable {virt2phy : Addr → Addr} {e : XdmaEngine} (b : TxBurst)

theorem busIndex_frame {e' : XdmaEngine} (hf : Frame e e') (p : Addr) :
    busIndex virt2phy e' p = busIndex virt2phy e p := by
  simp only [busIndex, hf.descMax, hf.descAddr]

/-- The staged ring, descriptor by descriptor. -/
theorem descRing_xmitStage (hidle : RingIdle e) (hpos : 0 < e.descMax) :
    (xmitStage e b).2.descRing
      = stagedRing e.descMax (b.writes e.descMax)
          (accepted b.heap b.txPkts e.descMax).length e.descRing := by
  rw [xmitStage_eq e b hidle.used hpos]

/-- Starting the channel leaves the ring as it was staged. -/
theorem descRing_xmitStart (e : XdmaEngine) (b : TxBurst) :
    (xmitStart e b).2.descRing = (xmitStage e b).2.descRing := rfl

/-- **The staged chain.** On an idle ring the device finds the descriptors
    `0, …, T % desc_max` chained, the last of them marked `STOPPED`. -/
theorem isChain_xmitStage (hlinks : LinksIntact virt2phy e) (hidle : RingIdle e)
    (hdir : e.dir = .h2c) (hpos : 0 < e.descMax) (hmap : MapsRing virt2phy e) :
    IsChain (txRules virt2phy e) (xmitStage e b).2.descRing (stagedCount e b % e.descMax) where
  first := rfl
  run i hi := by
    have hlt : stagedCount e b % e.descMax < e.descMax := Nat.mod_lt _ hpos
    have hne : i ≠ (b.writes e.descMax).length % e.descMax := Nat.ne_of_lt hi
    have hclear : (e.descRing i).stopped = false := by
      unfold XdmaDesc.stopped
      rw [hidle.clear hdir i (by omega)]
      decide
    have hlink : (e.descRing i).nextAddr = virt2phy (e.descAddr (i + 1)) := by
      rw [hlinks i (by omega), if_neg (by omega)]
    rw [descRing_xmitStage b hidle hpos]
    constructor
    · simp [txRules, stagedRing_stopped, hclear, hne]
    · simp only [txRules, stagedRing_nextAddr, hlink]
      exact busIndex_descAddr hmap (i + 1) (by omega)
  last := by
    rw [descRing_xmitStage b hidle hpos]
    simp [txRules, stagedRing_stopped, stagedCount]

/-- The device's walk is `0, …, T % desc_max`. -/
theorem deviceWalk_xmitStage (hlinks : LinksIntact virt2phy e) (hidle : RingIdle e)
    (hdir : e.dir = .h2c) (hpos : 0 < e.descMax) (hmap : MapsRing virt2phy e) :
    DeviceWalk virt2phy (xmitStage e b).2 (List.range (stagedCount e b % e.descMax + 1)) := by
  have hwalk := (isChain_xmitStage b hlinks hidle hdir hpos hmap).walk
  simp only [DeviceWalk, busIndex_frame (frame_xmitStage e b)]
  exact hwalk

/-- A burst that leaves a descriptor free hands over what it staged. -/
theorem chainHandedOver_of_lt (hlinks : LinksIntact virt2phy e) (hidle : RingIdle e)
    (hdir : e.dir = .h2c) (hmap : MapsRing virt2phy e) (hlt : stagedCount e b < e.descMax) :
    ChainHandedOver virt2phy (xmitStage e b).2 (stagedCount e b) := by
  have hpos : 0 < e.descMax := Nat.zero_lt_of_lt hlt
  have hmod : stagedCount e b % e.descMax = stagedCount e b := Nat.mod_eq_of_lt hlt
  have hwalk := deviceWalk_xmitStage b hlinks hidle hdir hpos hmap
  have hchain := isChain_xmitStage b hlinks hidle hdir hpos hmap
  rw [hmod] at hwalk hchain
  refine ⟨⟨_, hwalk, .inr ⟨stagedCount e b, List.range_succ, Nat.le_refl _, ?_⟩⟩, ?_⟩
  · -- The terminator is the first descriptor the burst did not write.
    rw [descRing_xmitStage b hidle hpos, stagedRing_len]
    have hnone : (b.writes e.descMax)[stagedCount e b]? = none :=
      List.getElem?_eq_none (Nat.le_refl _)
    rw [hnone]
    exact hidle.len _ hlt
  · intro i hi
    exact (hchain.run i (by omega)).1

/-- A burst that fills a ring of two descriptors or more does not: its chain ends at once. -/
theorem not_chainHandedOver_of_full (hlinks : LinksIntact virt2phy e) (hidle : RingIdle e)
    (hdir : e.dir = .h2c) (hmap : MapsRing virt2phy e) (hmax : 1 < e.descMax)
    (hfull : stagedCount e b = e.descMax) :
    ¬ ChainHandedOver virt2phy (xmitStage e b).2 (stagedCount e b) := by
  intro h
  obtain ⟨l, hl, hcases⟩ := h.walk
  have hwalk := deviceWalk_xmitStage b hlinks hidle hdir (Nat.zero_lt_of_lt hmax) hmap
  rw [hfull, Nat.mod_self] at hwalk
  have hlen := congrArg List.length (hl.unique hwalk)
  -- The walk handed over has one descriptor, the one asked for `desc_max` or one more.
  rcases hcases with rfl | ⟨t, rfl, -, -⟩
  · rw [hfull, List.length_range, List.length_range] at hlen
    omega
  · rw [hfull, List.length_append, List.length_range, List.length_range] at hlen
    simp only [List.length_singleton] at hlen
    omega

end

/-! ### Bursts on an idle queue -/

/-- **The chain handed over.** After any history, a burst on an idle H2C queue hands the
    device the chain it staged exactly when it does not fill the ring. -/
theorem chainHandedOver_iff (virt2phy : Addr → Addr) (e : XdmaEngine) (b : TxBurst)
    (hreach : EngineReach virt2phy e) (hdir : e.dir = .h2c) (hrun : e.running = false)
    (hmap : MapsRing virt2phy e) :
    ChainHandedOver virt2phy (xmitStage e b).2 (stagedCount e b)
      ↔ stagedCount e b < e.descMax := by
  have hinv := hreach.inv
  have hmax : e.descMax = xdmaDescMax := hinv.layout.descMax
  have hidle := hinv.idle hrun
  constructor
  · intro h
    apply Nat.lt_of_le_of_ne (stagedCount_le e b)
    intro hfull
    exact not_chainHandedOver_of_full b hinv.links hidle hdir hmap
      (by rw [hmax]; decide) hfull h
  · exact chainHandedOver_of_lt b hinv.links hidle hdir hmap

/-- An H2C queue just set up, on a host that maps every page to itself. -/
def freshTx : XdmaEngine := xdmaTxEngineSetup id 0 SetupAlloc.pages

theorem freshTx_reach : EngineReach id freshTx := EngineReach.txSetup 0 SetupAlloc.pages

theorem freshTx_mapsRing : MapsRing id freshTx := MapsRing.of_injective Function.injective_id rfl

theorem stagedCount_freshTx (n : Nat) (hn : n < 2 ^ 16) :
    stagedCount freshTx (TxBurst.plain n hn) = min n xdmaDescMax := by
  unfold stagedCount
  rw [writes_plain, List.length_replicate]
  rfl

/-- An H2C queue that has sent one packet. -/
def sentTx : XdmaEngine := xdmaTxEngineStop (xmitStart freshTx (TxBurst.plain 1 (by decide))).2

theorem xmit_sentTx :
    xdmaXmitPkts freshTx (TxBurst.plain 1 (by decide)) [1]
      = some { ret := 1
               engine := sentTx
               staged := (xmitStart freshTx (TxBurst.plain 1 (by decide))).1 } := by
  rw [xdmaXmitPkts_of_idle _ _ rfl]
  rfl

/-- Three packets of six segments on a fresh queue. -/
theorem chainHandedOver_segmented :
    ChainHandedOver id (xmitStage freshTx .segmented).2 6 := by
  have hcount : stagedCount freshTx .segmented = 6 := by decide
  have hchain := (chainHandedOver_iff id freshTx .segmented freshTx_reach rfl rfl
    freshTx_mapsRing).mpr (by rw [hcount]; decide)
  rwa [hcount] at hchain

/-- Thirty-two one-segment packets fill the ring, and the chain handed over ends at once. -/
theorem chainHandedOver_full_ring :
    ¬ ∀ (virt2phy : Addr → Addr) (e : XdmaEngine) (b : TxBurst),
      EngineReach virt2phy e → e.dir = .h2c → e.running = false → MapsRing virt2phy e →
      (∀ mb ∈ b.txPkts, 1 ≤ (b.heap mb).nbSegs) →
      1 ≤ stagedCount e b → stagedCount e b ≤ e.descMax →
      ChainHandedOver virt2phy (xmitStage e b).2 (stagedCount e b) := by
  intro h
  have hcount : stagedCount freshTx (TxBurst.plain 32 (by decide)) = 32 :=
    stagedCount_freshTx 32 (by decide)
  have hinv := freshTx_reach.inv
  refine not_chainHandedOver_of_full (TxBurst.plain 32 (by decide)) hinv.links
    (hinv.idle rfl) rfl freshTx_mapsRing (by decide) hcount ?_
  apply h id freshTx _ freshTx_reach rfl rfl freshTx_mapsRing
  · intro mb _
    exact Nat.le_refl 1
  · rw [hcount]
    decide
  · exact stagedCount_le _ _

end XdmaDpdk
