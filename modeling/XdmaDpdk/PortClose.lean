import XdmaDpdk.PortMoves
import XdmaDpdk.RxCount

namespace XdmaDpdk

open Handles

/-!
# XDMA driver — freeing under a running engine

Whether the rings a close frees belong to stopped engines.  The run bit of a channel follows
the `running` flag of the engine on it, and a channel without engine is stopped, as long as
nothing was freed under a running engine (`Tracks`).

* `freesStopped_freeQueues` — what the two loops of `xdma_dev_close` free is stopped exactly
  when every engine they come to is idle;
* `idle_devStop` — after `xdma_dev_stop` it is;
* `freesStopped_iff` — so over all sequences of operations, nothing is freed under a running
  engine exactly when every close finds its engines idle or stops them first
  (`CloseSound`).  `rte_pmd_xdma_dev_close` clears `dev_started` before `xdma_dev_close`
  tests it and never stops them.
-/

/-! ### Registers and engines -/

/-- Nothing but a software ring was freed while the channel's run bit was set. -/
def FreesStopped (log : DevLog) : Prop :=
  ∀ ev ∈ log.freed, ev.block ≠ .swRing → ev.run = false

/-- The run bits are those of the live engines. -/
structure Tracks (A : Arena DevLog XdmaEngine) : Prop where
  bit : ∀ {h e}, A.cell h = some e → runBit A.env.regs e.dir e.channel = e.running
  busy : ∀ {dir c}, runBit A.env.regs dir c = true →
    ∃ h e, A.cell h = some e ∧ e.dir = dir ∧ e.channel = c

/-- No two live engines have one direction and one channel. -/
def NamesApart (A : Arena DevLog XdmaEngine) : Prop :=
  ∀ h e h' e', A.cell h = some e → A.cell h' = some e' → e.dir = e'.dir →
    e.channel = e'.channel → h = h'

section
variable {A B : Arena DevLog XdmaEngine} {slots : List (DmaDataDirection × Option Nat)}

theorem NamesApart.kept (hA : NamesApart A) (h : CellsKept A B) : NamesApart B := by
  intro k e k' e' hk hk' hdir hchan
  obtain ⟨a, ha, hlay⟩ := h k e hk
  obtain ⟨a', ha', hlay'⟩ := h k' e' hk'
  rw [dir_of_layout hlay, dir_of_layout hlay'] at hdir
  rw [channel_of_layout hlay, channel_of_layout hlay'] at hchan
  exact hA k a k' a' ha ha' hdir hchan

/-- A call on one engine: the other engines have other registers. -/
theorem Tracks.settle (hT : Tracks A) (hnames : NamesApart A) {h : Nat} {e e' : XdmaEngine}
    (hcell : A.cell h = some e) (hon : OnChannel (e.on A.env) e') :
    Tracks (A.put h (settle A.env e')) where
  bit {k e''} hk := by
    show runBit e'.regWrites e''.dir e''.channel = e''.running
    by_cases hkh : k = h
    · subst hkh
      rw [Arena.put_cell_self] at hk
      obtain rfl := Option.some.inj hk
      rw [dir_of_layout hon.layout, channel_of_layout hon.layout]
      have hbit := hT.bit hcell
      exact hon.own hbit
    · rw [Arena.put_cell_of_ne _ hkh] at hk
      rw [hon.others _ _ (fun hname => hkh (hnames k e'' h e hk hcell hname.1 hname.2))]
      exact hT.bit hk
  busy {dir c} hbit := by
    by_cases hname : dir = e.dir ∧ c = e.channel
    · refine ⟨h, e', ?_, (dir_of_layout hon.layout).trans hname.1.symm,
        (channel_of_layout hon.layout).trans hname.2.symm⟩
      rw [Arena.put_cell_self]
      rfl
    · have hbit' : runBit A.env.regs dir c = true := (hon.others dir c hname).symm.trans hbit
      obtain ⟨k, a, hk, hdir, hchan⟩ := hT.busy hbit'
      have hkh : k ≠ h := by
        intro heq
        rw [heq] at hk
        obtain rfl := Option.some.inj (hcell.symm.trans hk)
        exact hname ⟨hdir.symm, hchan.symm⟩
      refine ⟨k, a, ?_, hdir, hchan⟩
      rw [Arena.put_cell_of_ne _ hkh]
      exact hk

/-- Taking away an engine that is stopped. -/
theorem Tracks.remove (hT : Tracks A) {h : Nat} {e : XdmaEngine} (hcell : A.cell h = some e)
    (hstop : runBit A.env.regs e.dir e.channel = false) (freed : List FreeEvent) :
    Tracks (A.put h ({ A.env with freed := freed }, none)) where
  bit {k e'} hk := by
    by_cases hkh : k = h
    · rw [hkh, Arena.put_cell_self] at hk
      cases hk
    · rw [Arena.put_cell_of_ne _ hkh] at hk
      exact hT.bit hk
  busy {dir c} hbit := by
    obtain ⟨k, a, hk, hdir, hchan⟩ := hT.busy hbit
    have hkh : k ≠ h := by
      intro heq
      rw [heq] at hk
      obtain rfl := Option.some.inj (hcell.symm.trans hk)
      rw [hdir, hchan] at hstop
      exact Bool.false_ne_true (hstop.symm.trans hbit)
    refine ⟨k, a, ?_, hdir, hchan⟩
    rw [Arena.put_cell_of_ne _ hkh]
    exact hk

/-- The events of a queue say what the run bit of its channel was. -/
theorem freeEvents_stopped (regs : List RegWrite) (h : Nat) (e : XdmaEngine) :
    (∀ ev ∈ freeEvents regs h e, ev.block ≠ .swRing → ev.run = false)
      ↔ runBit regs e.dir e.channel = false := by
  constructor
  · intro hall
    have hmem : Block.engine ∈ e.blocks := by
      unfold XdmaEngine.blocks
      split <;> simp
    exact hall _ (List.mem_map_of_mem hmem) (by simp)
  · intro hbit ev hev _
    obtain ⟨b, -, rfl⟩ := List.mem_map.mp hev
    exact hbit

theorem freesStopped_append {regs : List RegWrite} {freed evs : List FreeEvent} :
    FreesStopped { regs := regs, freed := freed ++ evs }
      ↔ FreesStopped { regs := regs, freed := freed } ∧
        ∀ ev ∈ evs, ev.block ≠ .swRing → ev.run = false := List.forall_mem_append

/-- Moves of the arena keep the run bits and the engines in step, as long as what they free is
    stopped. -/
theorem Tracks.moves {frees : Bool} (h : Moves frees A B) (hnames : NamesApart A)
    (hT : FreesStopped A.env → Tracks A) : FreesStopped B.env → Tracks B := by
  induction h with
  | refl => exact hT
  | fault _ ih => exact fun hfs => ⟨(ih hfs).bit, (ih hfs).busy⟩
  | regs regs _ hbit ih =>
    intro hfs
    exact ⟨fun hc => (hbit _ _).trans ((ih hfs).bit hc),
      fun hb => (ih hfs).busy ((hbit _ _).symm.trans hb)⟩
  | call hmoves hcell hcall ih =>
    exact fun hfs => (ih hfs).settle (hnames.kept hmoves.kept) hcell hcall.onChannel
  | free _ _ hcell ih =>
    intro hfs
    obtain ⟨hfs, hevs⟩ := freesStopped_append.mp hfs
    exact (ih hfs).remove hcell ((freeEvents_stopped _ _ _).mp hevs) _

/-- The log of a close over queues in the slots of their direction. -/
theorem sweep_free_env (hnodup : (handles slots).Nodup) (hf : A.faulted = false)
    (hlab : Labelled A slots) :
    (A.sweep freeQueue slots).env
      = { A.env with
          freed := A.env.freed ++
            (A.reached slots).flatMap fun r => freeEvents A.env.regs r.2.1 r.2.2 } := by
  have hfold : ∀ (l : List (DmaDataDirection × Nat × XdmaEngine)) (log : DevLog),
      (∀ r ∈ l, r.2.2.dir = r.1) →
      l.foldl (fun log r => (freeQueue r.1 log r.2.1 r.2.2).1) log
        = { log with
            freed := log.freed ++ l.flatMap fun r => freeEvents log.regs r.2.1 r.2.2 } := by
    intro l
    induction l with
    | nil =>
      intro log _
      rw [List.flatMap_nil, List.append_nil]
      rfl
    | cons r l ih =>
      intro log hl
      obtain ⟨hr, hl⟩ := List.forall_mem_cons.mp hl
      rw [List.foldl_cons, ih _ hl]
      unfold freeQueue
      rw [if_pos hr, List.flatMap_cons, List.append_assoc]
  rw [Arena.sweep_env hnodup hf]
  apply hfold
  intro r hr
  obtain ⟨hs, hcell⟩ := Arena.mem_reached hr
  exact hlab _ hs r.2.1 r.2.2 rfl hcell

end

/-! ### The port -/

/-- The engines a close comes to. -/
def Port.closed (p : Port) : List (DmaDataDirection × Nat × XdmaEngine) :=
  p.arena.reached (p.slots .c2h ++ p.slots .h2c)

/-- Every engine a close comes to is idle. -/
def QueuesIdle (p : Port) : Prop := ∀ r ∈ p.closed, r.2.2.running = false

theorem PortInv.namesApart {p : Port} (hinv : PortInv p) : NamesApart p.arena :=
  fun _ _ _ _ hk hk' hdir hchan => hinv.name_inj hk hk' hdir hchan

section
variable {p : Port} (hinv : PortInv p)
include hinv

/-- **Frees.** The loops of `xdma_dev_close` free only under stopped channels exactly when
    every engine they come to is idle. -/
theorem freesStopped_freeQueues (hT : Tracks p.arena) (hfs : FreesStopped p.arena.env)
    (hf : p.arena.faulted = false) :
    FreesStopped (freeQueues p).arena.env ↔ QueuesIdle p := by
  unfold freeQueues QueuesIdle Port.closed
  rw [← Arena.sweep_append, sweep_free_env (hinv.nodup_handles_append (by decide)) hf
    ((hinv.labelled .c2h).append (hinv.labelled .h2c)), freesStopped_append]
  constructor
  · intro h r hr
    have hevs := (freeEvents_stopped p.arena.env.regs r.2.1 r.2.2).mp
      fun ev hev => h.2 ev (List.mem_flatMap.mpr ⟨r, hr, hev⟩)
    rwa [hT.bit (Arena.mem_reached hr).2] at hevs
  · intro hidle
    refine ⟨hfs, fun ev hev => ?_⟩
    obtain ⟨r, hr, hev⟩ := List.mem_flatMap.mp hev
    apply (freeEvents_stopped p.arena.env.regs r.2.1 r.2.2).mpr _ ev hev
    rw [hT.bit (Arena.mem_reached hr).2]
    exact hidle r hr

/-- **Stops.** A stop that does not fault leaves every engine idle. -/
theorem idle_devStop (hf : p.arena.faulted = false)
    (hf' : (xdmaDevStop p).arena.faulted = false) : QueuesIdle (xdmaDevStop p) := by
  have harena : (xdmaDevStop p).arena = p.arena.sweep stopQueue (p.slots .h2c ++ p.slots .c2h) :=
    Arena.sweep_append .. |>.symm
  have hnodup : (handles (p.slots .h2c ++ p.slots .c2h)).Nodup :=
    hinv.nodup_handles_append (by decide)
  intro r hr
  obtain ⟨hs, hcell⟩ := Arena.mem_reached hr
  have hs' : (r.1, some r.2.1) ∈ p.slots .h2c ++ p.slots .c2h :=
    List.mem_append.mpr (List.mem_append.mp hs).symm
  -- Every slot led to an engine, this one among them, and the loop stopped it.
  rw [harena] at hf' hcell
  have hall := (Arena.sweep_faulted hnodup hf).mp hf'
  obtain ⟨e, he⟩ := Arena.mem_reached_of_live hall hs'
  obtain ⟨log, hlog⟩ := Arena.sweep_cell_of_mem stopQueue hnodup hf he
  have hstop : engineStopOf r.1 (e.on log) = r.2.2 := Option.some.inj (hlog.symm.trans hcell)
  rw [← hstop, running_engineStopOf]

/-- `xdma_dev_close` stops the engines first when the port is started. -/
theorem freesStopped_devClose (hT : Tracks p.arena) (hfs : FreesStopped p.arena.env)
    (hf : p.arena.faulted = false) :
    FreesStopped (xdmaDevClose p).arena.env ↔ p.devStarted = true ∨ QueuesIdle p := by
  unfold xdmaDevClose
  by_cases hstart : p.devStarted = true
  · rw [if_pos hstart]
    refine iff_of_true ?_ (.inl hstart)
    have hmoves : Moves false p.arena (xdmaDevStop p).arena := (Evolves.devStop hinv).moves
    have hfs' : FreesStopped (xdmaDevStop p).arena.env := by
      unfold FreesStopped
      rw [hmoves.freed_eq]
      exact hfs
    cases hf' : (xdmaDevStop p).arena.faulted with
    | true =>
      -- The stop has crashed: nothing is freed.
      unfold freeQueues
      rw [Arena.sweep_of_faulted hf', Arena.sweep_of_faulted hf']
      exact hfs'
    | false =>
      have hT' : Tracks (xdmaDevStop p).arena :=
        Tracks.moves hmoves hinv.namesApart (fun _ => hT) hfs'
      exact (freesStopped_freeQueues hinv.devStop hT' hfs' hf').mpr (idle_devStop hinv hf hf')
  · rw [if_neg hstart, freesStopped_freeQueues hinv hT hfs hf]
    exact (or_iff_right hstart).symm

end

/-- What a close must find, to free nothing under a running engine. -/
def CloseSound (p : Port) : PortOp → Prop
  | .pmdClose => QueuesIdle p
  | .devClose => p.devStarted = true ∨ QueuesIdle p
  | .devUninit => p.devConfigured = false ∨ p.devStarted = true ∨ QueuesIdle p
  | _ => True

theorem closeSound_of_open {p : Port} {op : PortOp} (hop : op.closes = false) :
    CloseSound p op := by
  cases op <;> trivial

/-! ### Sequences of operations -/

section
variable {dpdk : Dpdk} {ok : Port → PortOp → Prop} {p p' : Port} {op : PortOp}

theorem tracks_queueSetup {virt2phy : Addr → Addr} (hinv : PortInv p) (hT : Tracks p.arena)
    {dir : DmaDataDirection} {channelId : BitVec 16} (hfree : zoneTaken p dir channelId = false)
    (a : SetupAlloc) :
    Tracks (queueSetup virt2phy p dir channelId a).arena where
  bit {h e} hc := by
    show runBit p.arena.env.regs e.dir e.channel = e.running
    rcases queueSetup_cell hc with ⟨-, rfl⟩ | hlive
    · -- A set run bit would be that of a live engine with the name.
      rw [running_engineSetupOf, dir_engineSetupOf, channel_engineSetupOf]
      cases hbit : runBit p.arena.env.regs dir (channelId.setWidth 2) with
      | false => rfl
      | true =>
        obtain ⟨k, e, hk, hname⟩ := hT.busy hbit
        exact absurd hname (not_zoneTaken hinv hfree hk)
    · exact hT.bit hlive
  busy {d c} hbit := by
    obtain ⟨k, e, hk, hname⟩ := hT.busy hbit
    have hne : k ≠ p.nextHandle := (hinv.cell_lt hk).ne
    refine ⟨k, e, ?_, hname⟩
    show Function.update p.arena.cell p.nextHandle _ k = some e
    rw [Function.update_of_ne hne, hk]

/-- **Step lemma, registers.** -/
theorem tracks_step (hinv : PortInv p) (hT : FreesStopped p.arena.env → Tracks p.arena)
    (h : p.exec dpdk op = some p') : FreesStopped p'.arena.env → Tracks p'.arena := by
  rcases exec_cases hinv h with ⟨dir, channelId, a, -, -, hfree, rfl⟩ | hev
  · exact fun hfs => tracks_queueSetup hinv (hT hfs) hfree a
  · exact Tracks.moves hev.moves hinv.namesApart hT

/-- **Step lemma, frees.** An operation frees nothing under a running engine exactly when it
    is sound where it is issued. -/
theorem freesStopped_step (hinv : PortInv p) (hT : Tracks p.arena)
    (hfs : FreesStopped p.arena.env) (hf : p.arena.faulted = false)
    (h : p.exec dpdk op = some p') : FreesStopped p'.arena.env ↔ CloseSound p op := by
  cases hop : op.closes with
  | false =>
    refine iff_of_true ?_ (closeSound_of_open hop)
    rcases exec_cases hinv h with ⟨dir, channelId, a, -, -, -, rfl⟩ | hev
    · exact hfs
    · rw [hop] at hev
      unfold FreesStopped
      rw [hev.moves.freed_eq]
      exact hfs
  | true =>
    rcases close_cases hop with rfl | rfl | rfl
    · obtain rfl := Option.some.inj h
      -- The flag is cleared by now.
      have hclose := freesStopped_devClose (hinv.started false) hT hfs hf
      exact hclose.trans (or_iff_right Bool.false_ne_true)
    · obtain rfl := Option.some.inj h
      exact freesStopped_devClose hinv hT hfs hf
    · obtain rfl := Option.some.inj h
      unfold xdmaEthDevUninit
      dsimp only
      by_cases hconf : p.devConfigured = true
      · rw [if_pos hconf, freesStopped_devClose hinv hT hfs hf]
        exact (or_iff_right (fun hno => Bool.false_ne_true (hno.symm.trans hconf))).symm
      · rw [if_neg hconf]
        exact iff_of_true hfs (.inl (Bool.eq_false_of_not_eq_true hconf))

/-- **Run lemma.** Along every sequence of operations, as long as nothing was freed under a
    running engine, the run bits are those of the live engines. -/
theorem PortReach.tracks (h : PortReach dpdk ok p) :
    FreesStopped p.arena.env → Tracks p.arena := by
  induction h with
  | probed =>
    have hoff : ((0 &&& ctrlRunStop : BitVec 32) != 0) = false := by decide
    exact fun _ => ⟨nofun, fun hbit => absurd (hoff.symm.trans hbit) Bool.false_ne_true⟩
  | step op hreach _ _ hexec ih => exact tracks_step hreach.inv ih hexec

end

/-- **Frees and running engines.** Over all sequences of operations that keep to a policy, no
    zone and no engine is freed while the last value written to its channel's control
    register has `CTRL_RUN_STOP` set, exactly when every close the policy allows finds the
    engines it comes to idle, or stops them first. -/
theorem freesStopped_iff (dpdk : Dpdk) (ok : Port → PortOp → Prop) :
    (∀ p, PortReach dpdk ok p → FreesStopped p.arena.env)
      ↔ ∀ p op, PortReach dpdk ok p → p.arena.faulted = false → ok p op →
          CloseSound p op := by
  constructor
  · intro hall p op hreach hf hok
    cases hop : op.closes with
    | false => exact closeSound_of_open hop
    | true =>
      -- A close can always be issued.
      obtain ⟨p', hexec⟩ : ∃ p', p.exec dpdk op = some p' := by
        rcases close_cases hop with rfl | rfl | rfl <;> exact ⟨_, rfl⟩
      have hfs := hall p hreach
      apply (freesStopped_step hreach.inv (hreach.tracks hfs) hfs hf hexec).mp
      exact hall p' (.step op hreach hf hok hexec)
  · intro hsound p hreach
    induction hreach with
    | probed =>
      intro ev hev
      cases hev
    | step op hreach hf hok hexec ih =>
      apply (freesStopped_step hreach.inv (hreach.tracks ih) ih hf hexec).mpr
      exact hsound _ op hreach hf hok

/-- A started port with one receive queue, armed by a burst of 32. -/
def armedPort : Port :=
  let p := (queueSetup id (Port.probed.configured 1 0) .c2h 0 SetupAlloc.pages).started
  let e := (engineSetupOf id .c2h 0 SetupAlloc.pages).on p.arena.env
  { p with
    arena := p.arena.put 0
      (settle p.arena.env (xdmaRecvPkts e plainMem 32 (RxDevice.const 0)).engine) }

theorem reach_armedPort : PortReach Dpdk.plain (fun _ _ => True) armedPort := by
  have hconf : PortReach Dpdk.plain (fun _ _ => True) (Port.probed.configured 1 0) :=
    .step (.configure 1 0) .probed rfl trivial rfl
  have hsetup := hconf.step (.queueSetup .c2h 0 SetupAlloc.pages) rfl trivial rfl
  have hstart := hsetup.step .ethStart rfl trivial rfl
  exact hstart.step (.recv 0 plainMem 32 (RxDevice.const 0)) rfl trivial rfl

/-- `rte_pmd_xdma_dev_close` on it frees the ring under the running engine. -/
theorem freesRunning_armedPort :
    ¬ ∀ p, PortReach Dpdk.plain (fun _ _ => True) p → FreesStopped p.arena.env := by
  intro hall
  have hfs := hall _ reach_armedPort
  have hclose := hall _ (reach_armedPort.step .pmdClose rfl trivial rfl)
  have hexec : armedPort.exec Dpdk.plain .pmdClose = some (rtePmdXdmaDevClose armedPort) := rfl
  have hidle : QueuesIdle armedPort :=
    (freesStopped_step reach_armedPort.inv (reach_armedPort.tracks hfs) hfs rfl hexec).mp hclose
  have hrun := hidle _ (List.mem_cons_self ..)
  exact absurd hrun (by decide)

end XdmaDpdk
