import XdmaDpdk.Port

namespace XdmaDpdk

/-!
# XDMA driver — the run bit of a channel

What the operations on an engine do to `CTRL_RUN_STOP` in the control registers.  The
registers of a direction and a channel form a window of 0x100 bytes with the control register
at 4, so a write to another register of the window, or to another window, leaves the bit
(`runBit_append_of_ne`, `runBit_append_ctrl`).

`OnChannel e e'` — the engine keeps its layout, only the control register of its own channel
is written, and `CTRL_RUN_STOP` there is left as `running` says.  Every burst and every stop
(`QueueCall`) is such a call.
-/

/-! ### Layouts -/

theorem dir_of_layout {e e' : XdmaEngine} (h : e'.layout = e.layout) : e'.dir = e.dir :=
  congrArg EngineLayout.dir h

theorem channel_of_layout {e e' : XdmaEngine} (h : e'.layout = e.layout) :
    e'.channel = e.channel := congrArg EngineLayout.channel h

/-- The blocks of a queue depend on its layout only. -/
theorem blocks_of_layout {e e' : XdmaEngine} (h : e'.layout = e.layout) : e'.blocks = e.blocks := by
  have hring : e'.swRing = e.swRing := congrArg EngineLayout.swRing h
  unfold XdmaEngine.blocks
  rw [hring]

theorem layout_engineStopOf (dir : DmaDataDirection) (e : XdmaEngine) :
    (engineStopOf dir e).layout = e.layout := by
  cases dir with
  | c2h => exact (frame_engineStop e c2hChannelCtrl).layout
  | h2c => exact (frame_engineStop e h2cChannelCtrl).layout

@[simp] theorem running_engineStopOf (dir : DmaDataDirection) (e : XdmaEngine) :
    (engineStopOf dir e).running = false := by
  cases dir <;> rfl

/-! ### The run bit -/

theorem lastWrite_append (regs : List RegWrite) (w : RegWrite) (offset : Nat) :
    lastWrite (regs ++ [w]) offset
      = if w.offset = offset then some w.val else lastWrite regs offset := by
  unfold lastWrite
  rw [List.reverse_append, List.reverse_singleton, List.singleton_append, List.find?_cons]
  by_cases h : w.offset = offset
  · rw [if_pos h, beq_iff_eq.mpr h]
    rfl
  · rw [if_neg h, beq_eq_false_iff_ne.mpr h]

/-- Control registers sit at 4 in the window of their channel, and no other register does. -/
theorem runBit_append_of_ne {regs : List RegWrite} {w : RegWrite} (dir : DmaDataDirection)
    (channel : BitVec 2) (h : w.offset % 0x100 ≠ 4) :
    runBit (regs ++ [w]) dir channel = runBit regs dir channel := by
  have hne : w.offset ≠ channelCtrl dir + channel.toNat * 0x100 := by
    intro heq
    apply h
    rw [heq, Nat.add_mul_mod_self_right]
    cases dir <;> rfl
  unfold runBit
  rw [lastWrite_append, if_neg hne]

theorem channelCtrl_inj {dir dir' : DmaDataDirection} {c c' : BitVec 2}
    (h : channelCtrl dir + c.toNat * 0x100 = channelCtrl dir' + c'.toNat * 0x100) :
    dir = dir' ∧ c = c' := by
  have hc := c.isLt
  have hc' := c'.isLt
  -- Channels are 0x100 apart, the two directions 0x1000.
  cases dir <;> cases dir' <;> simp only [channelCtrl, h2cChannelCtrl, c2hChannelCtrl] at h
  · exact ⟨rfl, BitVec.eq_of_toNat_eq (by omega)⟩
  · omega
  · omega
  · exact ⟨rfl, BitVec.eq_of_toNat_eq (by omega)⟩

/-- A write to a control register sets the run bit of its channel, and no other. -/
theorem runBit_append_ctrl (regs : List RegWrite) (dir dir' : DmaDataDirection) (c c' : BitVec 2)
    (v : BitVec 32) :
    runBit (regs ++ [⟨channelCtrl dir' + c'.toNat * 0x100, v⟩]) dir c
      = if dir = dir' ∧ c = c' then (v &&& ctrlRunStop) != 0 else runBit regs dir c := by
  unfold runBit
  rw [lastWrite_append]
  by_cases h : dir = dir' ∧ c = c'
  · obtain ⟨rfl, rfl⟩ := h
    rw [if_pos rfl, if_pos ⟨rfl, rfl⟩]
    rfl
  · rw [if_neg h, if_neg (fun heq => h ((channelCtrl_inj heq).imp Eq.symm Eq.symm))]

/-- The registers a start writes before the control register. -/
theorem runBit_xdmaRegWrite (e : XdmaEngine) (base channel : Nat) (v : BitVec 32)
    (hbase : base % 0x100 ≠ 4) (dir : DmaDataDirection) (c : BitVec 2) :
    runBit (xdmaRegWrite e (base + channel * 0x100) v).regWrites dir c
      = runBit e.regWrites dir c := by
  apply runBit_append_of_ne
  show (base + channel * 0x100) % 0x100 ≠ 4
  rwa [Nat.add_mul_mod_self_right]

/-- The control write of a start, after writes that leave the run bits alone. -/
theorem runBit_append_run {regs regs' : List RegWrite} {dir : DmaDataDirection} {c : BitVec 2}
    (hkeep : runBit regs' dir c = runBit regs dir c) (d : DmaDataDirection) (channel : BitVec 2) :
    runBit (regs' ++ [⟨channelCtrl d + channel.toNat * 0x100, ctrlRunStop ||| ctrlFlags⟩]) dir c
      = if dir = d ∧ c = channel then true else runBit regs dir c := by
  have hrun : ((ctrlRunStop ||| ctrlFlags) &&& ctrlRunStop != 0) = true := by decide
  rw [runBit_append_ctrl, hkeep, hrun]

theorem runBit_txStart (e : XdmaEngine) (addr : Addr) (adj : Int) (dir : DmaDataDirection)
    (c : BitVec 2) :
    runBit (xdmaTxEngineStart e addr adj).regWrites dir c
      = if dir = .h2c ∧ c = e.channel then true else runBit e.regWrites dir c := by
  refine runBit_append_run ?_ .h2c e.channel
  apply (runBit_xdmaRegWrite _ h2cPollModeHiWbAddr _ _ (by decide) dir c).trans
  apply (runBit_xdmaRegWrite _ h2cPollModeLoWbAddr _ _ (by decide) dir c).trans
  apply (runBit_xdmaRegWrite _ h2cSgdmaDescAdj _ _ (by decide) dir c).trans
  apply (runBit_xdmaRegWrite _ h2cSgdmaDescHiAddr _ _ (by decide) dir c).trans
  exact runBit_xdmaRegWrite _ h2cSgdmaDescLoAddr _ _ (by decide) dir c

theorem runBit_rxStart (e : XdmaEngine) (addr : Addr) (dir : DmaDataDirection) (c : BitVec 2) :
    runBit (xdmaRxEngineStart e addr).regWrites dir c
      = if dir = .c2h ∧ c = e.channel then true else runBit e.regWrites dir c := by
  refine runBit_append_run ?_ .c2h e.channel
  apply (runBit_xdmaRegWrite _ c2hPollModeHiWbAddr _ _ (by decide) dir c).trans
  apply (runBit_xdmaRegWrite _ c2hPollModeLoWbAddr _ _ (by decide) dir c).trans
  apply (runBit_xdmaRegWrite _ c2hSgdmaDescHiAddr _ _ (by decide) dir c).trans
  exact runBit_xdmaRegWrite _ c2hSgdmaDescLoAddr _ _ (by decide) dir c

theorem runBit_engineStopOf (d : DmaDataDirection) (e : XdmaEngine) (dir : DmaDataDirection)
    (c : BitVec 2) :
    runBit (engineStopOf d e).regWrites dir c
      = if dir = d ∧ c = e.channel then false else runBit e.regWrites dir c := by
  cases d with
  | c2h => exact runBit_append_ctrl e.regWrites dir .c2h c e.channel ctrlFlags
  | h2c => exact runBit_append_ctrl e.regWrites dir .h2c c e.channel ctrlFlags

/-! ### What a call does to the registers -/

/-- The call writes the control register of the engine's own channel only, and as `running`
    says. -/
structure OnChannel (e e' : XdmaEngine) : Prop where
  layout : e'.layout = e.layout
  others : ∀ dir c, ¬ (dir = e.dir ∧ c = e.channel) →
    runBit e'.regWrites dir c = runBit e.regWrites dir c
  own : runBit e.regWrites e.dir e.channel = e.running →
    runBit e'.regWrites e.dir e.channel = e'.running

namespace OnChannel
variable {e e' e'' : XdmaEngine}

theorem refl (e : XdmaEngine) : OnChannel e e := ⟨rfl, fun _ _ _ => rfl, id⟩

theorem trans (h : OnChannel e e') (h' : OnChannel e' e'') : OnChannel e e'' where
  layout := h'.layout.trans h.layout
  others dir c hne := by
    have hne' : ¬ (dir = e'.dir ∧ c = e'.channel) := by
      rwa [dir_of_layout h.layout, channel_of_layout h.layout]
    rw [h'.others dir c hne', h.others dir c hne]
  own hbit := by
    have hbit' := h.own hbit
    rw [← dir_of_layout h.layout, ← channel_of_layout h.layout] at hbit' ⊢
    exact h'.own hbit'

/-- A call that writes no register. -/
theorem quiet (hlay : e'.layout = e.layout) (hregs : e'.regWrites = e.regWrites)
    (hrun : e'.running = e.running) : OnChannel e e' where
  layout := hlay
  others dir c _ := by rw [hregs]
  own hbit := by rw [hregs, hrun, hbit]

/-- A start or a stop of the engine. -/
theorem of_runBit (hlay : e'.layout = e.layout)
    (hbit : ∀ dir c, runBit e'.regWrites dir c
      = if dir = e.dir ∧ c = e.channel then e'.running else runBit e.regWrites dir c) :
    OnChannel e e' where
  layout := hlay
  others dir c hne := by rw [hbit, if_neg hne]
  own _ := by rw [hbit, if_pos ⟨rfl, rfl⟩]

theorem stop (e : XdmaEngine) : OnChannel e (engineStopOf e.dir e) := by
  apply of_runBit (layout_engineStopOf e.dir e)
  intro dir c
  rw [runBit_engineStopOf, running_engineStopOf]

end OnChannel

theorem foldl_keeps {α β : Type} (φ : XdmaEngine → β) (f : XdmaEngine → α → XdmaEngine)
    (hf : ∀ e a, φ (f e a) = φ e) (l : List α) (e : XdmaEngine) : φ (l.foldl f e) = φ e := by
  induction l generalizing e with
  | nil => rfl
  | cons a l ih => exact (ih (f e a)).trans (hf e a)

theorem regWrites_xmitStage (e : XdmaEngine) (b : TxBurst) :
    (xmitStage e b).2.regWrites = e.regWrites := by
  show (xmitLoop b.heap b.txPkts e.descMax { e with running := true }).2.regWrites = e.regWrites
  rw [xmitLoop_eq]
  exact foldl_keeps XdmaEngine.regWrites stageSeg (fun _ _ => rfl) _ { e with running := true }

theorem onChannel_xmitStart {e : XdmaEngine} (b : TxBurst) (hdir : e.dir = .h2c) :
    OnChannel e (xmitStart e b).2 := by
  apply OnChannel.of_runBit (frame_xmitStart e b).layout
  intro dir c
  have hchan : (xmitStage e b).2.channel = e.channel :=
    channel_of_layout (frame_xmitStage e b).layout
  rw [xmitStart_engine, runBit_txStart, regWrites_xmitStage, hchan, hdir]
  rfl

theorem onChannel_xdmaXmitPkts {e : XdmaEngine} {b : TxBurst} {reads : List Nat}
    {out : XmitResult} (hdir : e.dir = .h2c) (h : xdmaXmitPkts e b reads = some out) :
    OnChannel e out.engine := by
  rcases xdmaXmitPkts_cases h with ⟨-, rfl⟩ | ⟨-, -, rfl⟩
  · exact OnChannel.refl e
  · -- The engine is started and stopped by one call.
    have hstart := onChannel_xmitStart b hdir
    have hstop := OnChannel.stop (xmitStart e b).2
    rw [(frame_xmitStart e b).dir, hdir] at hstop
    exact hstart.trans hstop

theorem onChannel_rxArm {e : XdmaEngine} (m : RxMem) (nbPkts : Nat) (hdir : e.dir = .c2h) :
    OnChannel e (rxArm e m nbPkts).2.1 := by
  apply OnChannel.of_runBit (frame_rxArm e m nbPkts).layout
  intro dir c
  have hpost : (rxPost e m (min nbPkts e.descMax)).regWrites = e.regWrites :=
    foldl_keeps XdmaEngine.regWrites (fun e i => xdmaC2hDescSet e (m.heap (m.arr i)))
      (fun _ _ => rfl) _ e
  have hchan : (rxPost e m (min nbPkts e.descMax)).channel = e.channel :=
    channel_of_layout (frame_rxPost e m _).layout
  rw [rxArm_engine, runBit_rxStart, hpost, hchan, hdir]
  rfl

theorem onChannel_rxCollect {e : XdmaEngine} (m : RxMem) (nbPkts : Nat) (dev : RxDevice)
    (hdir : e.dir = .c2h) : OnChannel e (rxCollect e m nbPkts dev).engine := by
  obtain ⟨word, count, status, heng | heng⟩ := rxCollect_engine_cases e m nbPkts dev
  · rw [heng]
    exact OnChannel.quiet rfl rfl rfl
  · -- All that was asked for is consumed, and the engine stops.
    have hadv : OnChannel e (e.advance word count status) := OnChannel.quiet rfl rfl rfl
    have hstop := OnChannel.stop (e.advance word count status)
    rw [(frame_advance e word count status).dir, hdir] at hstop
    rw [heng]
    exact hadv.trans hstop

theorem onChannel_xdmaRecvPkts {e : XdmaEngine} (m : RxMem) (nbPkts : Nat) (dev : RxDevice)
    (hdir : e.dir = .c2h) : OnChannel e (xdmaRecvPkts e m nbPkts dev).engine := by
  have hclear : OnChannel e e.clearStatus := OnChannel.quiet rfl rfl rfl
  have hdir' : e.clearStatus.dir = .c2h := hdir
  unfold xdmaRecvPkts
  dsimp only
  split
  · exact hclear.trans (onChannel_rxCollect _ _ _ hdir')
  · -- Only an idle engine is armed, and so started.
    have harm := onChannel_rxArm m nbPkts hdir'
    have hdir'' : (rxArm e.clearStatus m nbPkts).2.1.dir = .c2h :=
      (frame_rxArm _ _ _).dir.trans hdir'
    exact (hclear.trans harm).trans (onChannel_rxCollect _ _ _ hdir'')

/-- The calls of the driver on the engine of a queue. -/
inductive QueueCall (e : XdmaEngine) : XdmaEngine → Prop
  | recv (m : RxMem) (nbPkts : Nat) (dev : RxDevice) : e.dir = .c2h →
      QueueCall e (xdmaRecvPkts e m nbPkts dev).engine
  | xmit (b : TxBurst) (reads : List Nat) (out : XmitResult) : e.dir = .h2c →
      xdmaXmitPkts e b reads = some out → QueueCall e out.engine
  | stop : QueueCall e (engineStopOf e.dir e)

theorem QueueCall.onChannel {e e' : XdmaEngine} (h : QueueCall e e') : OnChannel e e' := by
  cases h with
  | recv m nbPkts dev hdir => exact onChannel_xdmaRecvPkts m nbPkts dev hdir
  | xmit b reads out hdir hout => exact onChannel_xdmaXmitPkts hdir hout
  | stop => exact OnChannel.stop e

end XdmaDpdk
