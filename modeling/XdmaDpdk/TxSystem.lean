import XdmaDpdk.TxChain

namespace XdmaDpdk

open ChainWalker

/-!
# XDMA driver — the transmit queue and its device

One H2C queue with the thread that calls `xdma_xmit_pkts` and the channel that walks its
ring, taking steps in any order (`TxStep`).  The driver's steps are the parts of
`xdmaXmitPkts` between which the device can act: stage and start (`xmitStart`), a look at
the poll-mode word that ends the wait (`txExitTest`), clear `RUN` and the ring
(`engineHalt`), reset the bookkeeping (`engineReset`); a call that finds the engine running
changes nothing.  The device is the `Walker` of the library under `txRules`: it
counts from 0 on each start, writes its count to the poll-mode word after each descriptor
with `COMPLETED`, halts after one with `STOPPED`, and may finish the descriptor in hand
after `RUN` is cleared.

Which bursts are submitted is the parameter `ok`.

* `TxSysInv` — what holds in every reachable state: an idle queue is ready for a burst, and
  while a burst waits the device is on its chain (`TxReach.inv`);
* `TxReach.device` — the device may run on by itself, and `TxReach.reach_report` — how far
  it may get.
-/

/-! ### The system -/

/-- Where the thread is in `xdma_xmit_pkts`: outside, in the wait loop, past its exit test,
    or in the stop with `RUN` cleared and the bookkeeping still to do. -/
inductive TxDriver
  | idle
  | polling (b : TxBurst)
  | exited
  | stopping

/-- The queue, its device and the thread. -/
structure TxSys where
  eng : XdmaEngine
  hw : Walker Nat XdmaDesc
  drv : TxDriver

/-- The device has written `count` to the poll-mode word. -/
def XdmaEngine.withWord (e : XdmaEngine) (count : Nat) : XdmaEngine :=
  { e with completedDescCount := count }

/-- One step of the thread or of the device. -/
inductive TxStep (virt2phy : Addr → Addr) (ok : TxSys → TxBurst → Prop) : TxSys → TxSys → Prop
  | call (s : TxSys) (b : TxBurst) (hd : s.drv = .idle) (hr : s.eng.running = false)
      (hok : ok s b) :
      TxStep virt2phy ok s
        { eng := (xmitStart s.eng b).2, hw := s.hw.start, drv := .polling b }
  | busy (s : TxSys) (b : TxBurst) (hr : s.eng.running = true) : TxStep virt2phy ok s s
  | exit (s : TxSys) (b : TxBurst) (hd : s.drv = .polling b)
      (ht : txExitTest s.eng.completedDescCount b.nbPkts = true) :
      TxStep virt2phy ok s { s with drv := .exited }
  | halt (s : TxSys) (hd : s.drv = .exited) :
      TxStep virt2phy ok s
        { eng := engineHalt s.eng h2cChannelCtrl, hw := s.hw.stop, drv := .stopping }
  | reset (s : TxSys) (hd : s.drv = .stopping) :
      TxStep virt2phy ok s { s with eng := engineReset s.eng, drv := .idle }
  | device (s : TxSys) (hw' : Walker Nat XdmaDesc) (count' : Nat)
      (h : Step (txRules virt2phy s.eng) s.eng.descRing (s.hw, s.eng.completedDescCount)
        (hw', count')) :
      TxStep virt2phy ok s { s with eng := s.eng.withWord count', hw := hw' }

/-- A queue just set up, and a device that was never started. -/
def TxSys.init (virt2phy : Addr → Addr) (channelId : BitVec 16) (a : SetupAlloc) : TxSys where
  eng := xdmaTxEngineSetup virt2phy channelId a
  hw := Walker.idle
  drv := .idle

/-- The states reached from a queue just set up. -/
def TxReach (virt2phy : Addr → Addr) (channelId : BitVec 16) (a : SetupAlloc)
    (ok : TxSys → TxBurst → Prop) (s : TxSys) : Prop :=
  Relation.ReflTransGen (TxStep virt2phy ok) (TxSys.init virt2phy channelId a) s

/-! ### The chain of a waiting burst -/

/-- The last descriptor of the chain a burst starts. -/
def lastDesc (e : XdmaEngine) (b : TxBurst) : Nat := stagedCount e b % e.descMax

theorem lastDesc_of_lt {e : XdmaEngine} {b : TxBurst} (h : stagedCount e b < e.descMax) :
    lastDesc e b = stagedCount e b := Nat.mod_eq_of_lt h

/-- The chain of a full ring ends where it starts. -/
theorem lastDesc_of_full {e : XdmaEngine} {b : TxBurst} (h : stagedCount e b = e.descMax) :
    lastDesc e b = 0 := by
  rw [lastDesc, h, Nat.mod_self]

theorem stagedCount_xmitStart (e : XdmaEngine) (b b' : TxBurst) :
    stagedCount (xmitStart e b).2 b' = stagedCount e b' := by
  unfold stagedCount
  rw [(frame_xmitStart e b).descMax]

theorem lastDesc_xmitStart (e : XdmaEngine) (b b' : TxBurst) :
    lastDesc (xmitStart e b).2 b' = lastDesc e b' := by
  unfold lastDesc
  rw [stagedCount_xmitStart, (frame_xmitStart e b).descMax]

/-- Descriptor `i` holds the last segment of a packet. -/
def packetEnd (e : XdmaEngine) (b : TxBurst) (i : Nat) : Bool :=
  ((b.writes e.descMax)[i]?.map Prod.snd).getD false

/-- The ring of `e` holds the chain of the burst `b`, and the device reports at the packet
    ends and at the last descriptor. -/
structure Staged (virt2phy : Addr → Addr) (e : XdmaEngine) (b : TxBurst) : Prop where
  chain : IsChain (txRules virt2phy e) e.descRing (lastDesc e b)
  report : ∀ i < lastDesc e b, (e.descRing i).completed = packetEnd e b i
  reportLast : (e.descRing (lastDesc e b)).completed = true

/-- A burst on an idle engine stages its chain. -/
theorem staged_xmitStart {virt2phy : Addr → Addr} {e : XdmaEngine} (b : TxBurst)
    (hlinks : LinksIntact virt2phy e) (hidle : RingIdle e) (hdir : e.dir = .h2c)
    (hpos : 0 < e.descMax) (hmap : MapsRing virt2phy e) :
    Staged virt2phy (xmitStart e b).2 b := by
  have hlt : stagedCount e b % e.descMax < e.descMax := Nat.mod_lt _ hpos
  have hring := (descRing_xmitStart e b).trans (descRing_xmitStage b hidle hpos)
  have hmax : (xmitStart e b).2.descMax = e.descMax := (frame_xmitStart e b).descMax
  have hlast : lastDesc (xmitStart e b).2 b = stagedCount e b % e.descMax :=
    lastDesc_xmitStart e b b
  have hrules : txRules virt2phy (xmitStart e b).2 = txRules virt2phy e := by
    simp only [txRules, busIndex_frame (frame_xmitStart e b)]
  refine ⟨?_, ?_, ?_⟩
  · rw [hlast, hrules, descRing_xmitStart]
    exact isChain_xmitStage b hlinks hidle hdir hpos hmap
  · -- Before the last descriptor only the packet ends report.
    intro i hi
    rw [hlast] at hi
    have hne : i ≠ (b.writes e.descMax).length % e.descMax := Nat.ne_of_lt hi
    have hclear : (e.descRing i).completed = false := by
      unfold XdmaDesc.completed
      rw [hidle.clear hdir i (by omega)]
      decide
    unfold packetEnd
    rw [hring, stagedRing_completed, hclear, hmax]
    simp [hne]
  · -- The last one carries the terminator flags.
    rw [hring, stagedRing_completed, hlast]
    simp [stagedCount]

/-! ### The system invariant -/

/-- What each place of the thread knows of the queue and the device. -/
def DriverInv (virt2phy : Addr → Addr) (s : TxSys) : Prop :=
  match s.drv with
  | .idle => s.eng.running = false ∧ s.hw.run = false ∧ s.hw.kick = false
  | .polling b => s.eng.running = true ∧ Staged virt2phy s.eng b ∧ s.hw.run = true ∧
      (s.hw.kick = false → OnChain s.eng.descRing (lastDesc s.eng b) s.hw)
  | .exited => s.eng.running = true
  | .stopping => s.eng.running = true ∧ RingIdle (engineReset s.eng) ∧ s.hw.run = false ∧
      s.hw.kick = false

/-- What holds in every reachable state. -/
structure TxSysInv (virt2phy : Addr → Addr) (s : TxSys) : Prop where
  engine : EngineInv virt2phy s.eng
  dir : s.eng.dir = .h2c
  mapsRing : MapsRing virt2phy s.eng
  driver : DriverInv virt2phy s

theorem MapsRing.of_frame {virt2phy : Addr → Addr} {e e' : XdmaEngine}
    (h : MapsRing virt2phy e) (hf : Frame e e') : MapsRing virt2phy e' := by
  intro i hi j hj
  rw [hf.descMax] at hi hj
  rw [hf.descAddr, hf.descAddr]
  exact h i hi j hj

theorem frame_withWord (e : XdmaEngine) (count : Nat) : Frame e (e.withWord count) :=
  ⟨rfl, fun _ => rfl⟩

section
variable {virt2phy : Addr → Addr} {ok : TxSys → TxBurst → Prop} {s s' : TxSys}

theorem TxSysInv.descMax (h : TxSysInv virt2phy s) : s.eng.descMax = xdmaDescMax :=
  h.engine.layout.descMax

theorem TxSysInv.descMax_pos (h : TxSysInv virt2phy s) : 0 < s.eng.descMax := by
  rw [h.descMax]
  decide

/-- Outside a burst the engine and the device's run control are off. -/
theorem TxSysInv.idle (h : TxSysInv virt2phy s) (hd : s.drv = .idle) :
    s.eng.running = false ∧ s.hw.run = false ∧ s.hw.kick = false := by
  have hdrv := h.driver
  simp only [DriverInv, hd] at hdrv
  exact hdrv

/-- While a burst waits its chain is on the ring, and the device on the chain. -/
theorem TxSysInv.polling (h : TxSysInv virt2phy s) {b : TxBurst} (hd : s.drv = .polling b) :
    s.eng.running = true ∧ Staged virt2phy s.eng b ∧ s.hw.run = true ∧
      (s.hw.kick = false → OnChain s.eng.descRing (lastDesc s.eng b) s.hw) := by
  have hdrv := h.driver
  simp only [DriverInv, hd] at hdrv
  exact hdrv

/-- An idle queue stages the burst it is given. -/
theorem TxSysInv.staged (h : TxSysInv virt2phy s) (hr : s.eng.running = false) (b : TxBurst) :
    Staged virt2phy (xmitStart s.eng b).2 b :=
  staged_xmitStart b h.engine.links (h.engine.idle hr) h.dir h.descMax_pos h.mapsRing

/-- The parts of the invariant that only the frame decides. -/
theorem TxSysInv.of_frame (h : TxSysInv virt2phy s) (hf : Frame s.eng s'.eng)
    (hidle : s'.eng.running = false → RingIdle s'.eng) (hdrv : DriverInv virt2phy s') :
    TxSysInv virt2phy s' :=
  ⟨h.engine.of_frame hf hidle, hf.dir.trans h.dir, h.mapsRing.of_frame hf, hdrv⟩

/-- A device step keeps the thread's knowledge: it touches neither the ring nor `RUN`. -/
theorem DriverInv.device {hw' : Walker Nat XdmaDesc} {count' : Nat}
    (h : DriverInv virt2phy s)
    (hs : Step (txRules virt2phy s.eng) s.eng.descRing (s.hw, s.eng.completedDescCount)
      (hw', count')) :
    DriverInv virt2phy { s with eng := s.eng.withWord count', hw := hw' } := by
  have hrun : hw'.run = s.hw.run := hs.run_eq
  have hkick : s.hw.kick = false → hw'.kick = false := by
    intro hk
    cases hs with
    | begin _ _ _ _ => rfl
    | fetch _ _ _ _ _ _ => exact hk
    | complete _ _ _ _ _ => exact hk
  cases hd : s.drv with
  | idle =>
    simp only [DriverInv, hd] at h ⊢
    exact ⟨h.1, hrun.trans h.2.1, hkick h.2.2⟩
  | polling b =>
    simp only [DriverInv, hd] at h ⊢
    obtain ⟨hrunning, hstaged, hhw, hon⟩ := h
    refine ⟨hrunning, ⟨hstaged.chain, hstaged.report, hstaged.reportLast⟩, hrun.trans hhw, ?_⟩
    intro hk'
    cases hk : s.hw.kick with
    | false => exact ((hon hk).step hstaged.chain hs).1
    | true =>
      obtain ⟨rfl, -⟩ := hs.of_kick hk hk'
      exact OnChain.of_begin hstaged.chain s.hw
  | exited =>
    simp only [DriverInv, hd] at h ⊢
    exact h
  | stopping =>
    simp only [DriverInv, hd] at h ⊢
    exact ⟨h.1, h.2.1, hrun.trans h.2.2.1, hkick h.2.2.2⟩

/-- **Step lemma.** -/
theorem TxSysInv.step (h : TxSysInv virt2phy s) (hs : TxStep virt2phy ok s s') :
    TxSysInv virt2phy s' := by
  cases hs with
  | call b hd hr hok =>
    refine h.of_frame (frame_xmitStart s.eng b) (fun hoff => ?_) ?_
    · exact absurd ((xmitStart_running s.eng b).symm.trans hoff) (by decide)
    · refine ⟨xmitStart_running s.eng b, h.staged hr b, rfl, fun hk => ?_⟩
      exact absurd hk (by simp [Walker.start])
  | busy b hr => exact h
  | exit b hd ht => exact h.of_frame (Frame.refl _) h.engine.idle (h.polling hd).1
  | halt hd =>
    have hdrv := h.driver
    simp only [DriverInv, hd] at hdrv
    refine h.of_frame (frame_engineHalt _ _) (fun hoff => ?_) ?_
    · exact absurd (hdrv.symm.trans hoff) (by decide)
    · exact ⟨hdrv, ringIdle_engineStop _ _, rfl, rfl⟩
  | reset hd =>
    -- The ring was emptied by the halt, and nothing has written it since.
    have hdrv := h.driver
    simp only [DriverInv, hd] at hdrv
    exact h.of_frame (frame_engineReset _) (fun _ => hdrv.2.1) ⟨rfl, hdrv.2.2⟩
  | device hw' count' hs =>
    refine h.of_frame (frame_withWord _ _) (fun hoff => ?_) (h.driver.device hs)
    have hidle := h.engine.idle hoff
    exact ⟨hidle.used, hidle.len, hidle.src, hidle.dst, hidle.clear⟩

end

theorem txSysInv_init (virt2phy : Addr → Addr) (channelId : BitVec 16) (a : SetupAlloc)
    (hmap : MapsRing virt2phy (xdmaTxEngineSetup virt2phy channelId a)) :
    TxSysInv virt2phy (TxSys.init virt2phy channelId a) :=
  ⟨(EngineReach.txSetup channelId a).inv, rfl, hmap, rfl, rfl, rfl⟩

section
variable {virt2phy : Addr → Addr} {channelId : BitVec 16} {a : SetupAlloc}
  {ok : TxSys → TxBurst → Prop} {s : TxSys}

/-- **Run lemma.** -/
theorem TxReach.inv (hmap : MapsRing virt2phy (xdmaTxEngineSetup virt2phy channelId a))
    (h : TxReach virt2phy channelId a ok s) : TxSysInv virt2phy s := by
  induction h with
  | refl => exact txSysInv_init virt2phy channelId a hmap
  | tail _ hs ih => exact ih.step hs

/-- The device may take any steps of its own. -/
theorem TxReach.device (h : TxReach virt2phy channelId a ok s) {hw' : Walker Nat XdmaDesc}
    {count' : Nat}
    (hs : Relation.ReflTransGen (Step (txRules virt2phy s.eng) s.eng.descRing)
      (s.hw, s.eng.completedDescCount) (hw', count')) :
    TxReach virt2phy channelId a ok { s with eng := s.eng.withWord count', hw := hw' } := by
  generalize hp : (hw', count') = p at hs
  induction hs generalizing hw' count' with
  | refl =>
    obtain ⟨rfl, rfl⟩ := Prod.mk.inj hp
    exact h
  | @tail q r _ hstep ih =>
    subst hp
    exact Relation.ReflTransGen.tail (ih rfl)
      (TxStep.device { s with eng := s.eng.withWord q.2, hw := q.1 } hw' count' hstep)

/-- While a burst waits for a device that has not taken up its start, the device can reach
    the report of any descriptor of the chain that reports. -/
theorem TxReach.reach_report (hmap : MapsRing virt2phy (xdmaTxEngineSetup virt2phy channelId a))
    (h : TxReach virt2phy channelId a ok s) {b : TxBurst} (hd : s.drv = .polling b)
    (hk : s.hw.kick = true) {k : Nat} (hkm : k ≤ lastDesc s.eng b)
    (hrep : (s.eng.descRing k).completed = true) :
    ∃ hw', TxReach virt2phy channelId a ok { s with eng := s.eng.withWord (k + 1), hw := hw' } ∧
      hw'.kick = false ∧ hw'.done = List.range (k + 1) ∧
      (k = lastDesc s.eng b → hw'.phase = .halted) := by
  obtain ⟨-, hstaged, hrun, -⟩ := (h.inv hmap).polling hd
  obtain ⟨w₀, x₀, hs₀, hon₀, hr₀, hc₀⟩ :=
    OnChain.of_start hstaged.chain hk s.eng.completedDescCount
  obtain ⟨w', x', hs', hon', -, hc', hx'⟩ :=
    hon₀.reach hstaged.chain (hr₀.trans hrun) hc₀ x₀ k hkm
  obtain rfl := hx' hrep
  refine ⟨w', h.device (hs₀.trans hs'), hon'.kick, ?_, ?_⟩
  · rw [hon'.done, hc']
  · rintro rfl
    exact hon'.halted hc'

end

end XdmaDpdk
