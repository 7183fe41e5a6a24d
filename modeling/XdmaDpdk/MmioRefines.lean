import XdmaDpdk.MmioBoard

namespace XdmaDpdk

open ChainWalker

/-!
# XDMA driver — the board refines its queues

Each queue of the board of `BoardStep` behaves as the queue of `TxStep` does by itself.  In
that coarser system a burst starts in one step, with the write of the control register, and
a stop clears the ring with its write; the steps before and after these are not seen
(`MmioDriver.view`).

The device is given addresses that were translated with the offset of the software ring.  On a
host where another object has another offset they name something else, and the device goes
astray; so the results are about hosts where the offsets of every queue agree (`OffsetsAgree`).

* `Refines` — the relation between a queue of the board and the queue by itself: while a
  burst is programmed the coarse engine is the one before the call, and the registers hold
  the writes made so far;
* `Refines.own` — a step of the queue is a step or none of the coarse system,
  `MmioStep.within` — it writes registers of its own channel only, and `Refines.foreign` — a
  write in no register of the channel keeps the relation;
* `board_refines` — over any run of the board, each queue is at a state of a run of its own,
  which delivered the same and was called the same;
* `TxRun.onBoard` — every run of a queue by itself is one on the board;
* `board_sequential` — between calls, the engine and the registers of a channel are as its
  calls alone leave them;
* `board_inOrder_iff` — the boundary of in-order delivery for four queues at once.
-/

/-! ### The relation -/

/-- The place of the thread as the coarse system has it. -/
def MmioDriver.view : MmioDriver → TxDriver
  | .idle => .idle
  | .programming _ _ => .idle
  | .polling b => .polling b
  | .exited => .exited
  | .clearing => .stopping
  | .stopping => .stopping

/-- A queue of the board, with the coarse place. -/
def MmioQueue.view (q : MmioQueue) : TxSys where
  eng := q.eng
  hw := q.hw
  drv := q.drv.view

/-- `e` is the engine of the coarse system. -/
def EngineRefines (ok : TxBurst → Prop) (regs : Nat → BitVec 32) (q : MmioQueue)
    (e : XdmaEngine) : Prop :=
  match q.drv with
  | .programming b todo => ok b ∧ ∃ made, burstWrites e b = made ++ todo ∧ Holds regs made ∧
      q.eng = (xmitStage e b).2.withRegs (e.regWrites ++ made)
  | .clearing => e = xdmaDescRingClear q.eng
  | _ => e = q.eng

/-- The queue of the board is at the state `s` of the coarse system. -/
structure Refines (ok : TxBurst → Prop) (regs : Nat → BitVec 32) (q : MmioQueue) (s : TxSys) :
    Prop where
  hw : s.hw = q.hw
  drv : s.drv = q.drv.view
  engine : EngineRefines ok regs q s.eng
  programmed : Programmed regs s.eng s.hw

/-- The coarse system is that of channel `c`, and its offsets are right. -/
structure OnBoard (virt2phy : Addr → Addr) (c : BitVec 2) (s : TxSys) : Prop where
  inv : TxSysInv virt2phy s
  channel : s.eng.channel = c
  offsets : OffsetsAgree virt2phy s.eng

/-- The registers after at most one write. -/
def regsAfter (regs : Nat → BitVec 32) : Option RegWrite → Nat → BitVec 32
  | none => regs
  | some w => Function.update regs w.offset w.val

/-- A queue after at most one write on the bus. -/
def MmioQueue.after (q : MmioQueue) (c : BitVec 2) : Option RegWrite → MmioQueue
  | none => q
  | some w => q.see c w

@[simp] theorem regs_bus (B : Board) (out : Option RegWrite) :
    (B.bus out).regs = regsAfter B.regs out := by
  cases out <;> rfl

@[simp] theorem queue_bus (B : Board) (out : Option RegWrite) (c : BitVec 2) :
    (B.bus out).queue c = (B.queue c).after c out := by
  cases out <;> rfl

theorem queue_put_self (B : Board) (c : BitVec 2) (q : MmioQueue) : (B.put c q).queue c = q :=
  Function.update_self ..

theorem queue_put_of_ne (B : Board) {c c' : BitVec 2} (h : c' ≠ c) (q : MmioQueue) :
    (B.put c q).queue c' = B.queue c' := Function.update_of_ne h ..

theorem Frame.symm {e e' : XdmaEngine} (h : Frame e e') : Frame e' e :=
  ⟨h.layout.symm, fun i => (h.next i).symm⟩

theorem frame_withRegs (e : XdmaEngine) (regs : List RegWrite) : Frame e (e.withRegs regs) :=
  ⟨rfl, fun _ => rfl⟩

theorem frame_xdmaDescRingClear (e : XdmaEngine) : Frame e (xdmaDescRingClear e) :=
  frame_forEach e e.descMax (fun i => i) (fun _ d => ringClearDesc e.dir d) fun _ _ => rfl

section
variable {virt2phy : Addr → Addr} {ok : TxBurst → Prop} {c : BitVec 2} {regs : Nat → BitVec 32}
  {q q' : MmioQueue} {s s' : TxSys} {out : Option RegWrite}

theorem OnBoard.used (h : OnBoard virt2phy c s) (hd : s.drv = .idle) : s.eng.descUsed = 0 :=
  (h.inv.engine.idle (h.inv.idle hd).1).used

/-- The two engines have the same layout. -/
theorem Refines.frame (h : Refines ok regs q s) : Frame s.eng q.eng := by
  have heng := h.engine
  unfold EngineRefines at heng
  split at heng
  · obtain ⟨-, made, -, -, heq⟩ := heng
    rw [heq]
    exact (frame_xmitStage _ _).trans (frame_withRegs _ _)
  · rw [heng]
    exact (frame_xdmaDescRingClear q.eng).symm
  · rw [heng]
    exact Frame.refl _

theorem Refines.channel (h : Refines ok regs q s) (hb : OnBoard virt2phy c s) :
    q.eng.channel = c := (channel_of_layout h.frame.layout).trans hb.channel

/-- A device that may act finds its registers right. -/
theorem Refines.regsName (h : Refines ok regs q s) (hb : OnBoard virt2phy c s)
    (hact : q.hw.kick = true ∨ q.hw.phase ≠ .halted) : RegsName virt2phy c regs q := by
  have hprog := h.programmed
  rw [h.hw] at hprog
  exact RegsName.of_programmed hprog h.frame hb.channel hb.inv.engine.layout.offset hb.offsets hact

/-! ### Steps of the queue -/

/-- Staging is not seen. -/
theorem Refines.stage (h : Refines ok regs q s) {b : TxBurst} (hd : q.drv = .idle) (hok : ok b) :
    Refines ok regs
      { q with eng := (xmitStage q.eng b).2, drv := .programming b (burstWrites q.eng b) } s := by
  have heng := h.engine
  simp only [EngineRefines, hd] at heng
  refine ⟨h.hw, ?_, ⟨hok, [], ?_, nofun, ?_⟩, h.programmed⟩
  · rw [h.drv, hd]
    rfl
  · rw [heng]
    rfl
  · rw [heng, List.append_nil, ← regWrites_xmitStage q.eng b]
    rfl

/-- Nor is the programming of the address registers. -/
theorem Refines.program (h : Refines ok regs q s) {b : TxBurst} {w : RegWrite}
    {todo : List RegWrite} (hd : q.drv = .programming b (w :: todo)) :
    Refines ok (Function.update regs w.offset w.val)
      ({ q with eng := xdmaRegWrite q.eng w.offset w.val, drv := .programming b todo }.see c w)
      s := by
  have heng := h.engine
  simp only [EngineRefines, hd] at heng
  obtain ⟨hok, made, hsplit, hmade, heq⟩ := heng
  have hmem : w ∈ burstWrites s.eng b := by
    rw [hsplit]
    exact List.mem_append_right _ (List.mem_cons_self ..)
  have hnodup := nodup_burstWrites s.eng b
  rw [MmioQueue.see_of_ne (ne_ctrl_of_mem hmem c)]
  refine ⟨h.hw, ?_, ⟨hok, made ++ [w], ?_, ?_, ?_⟩, ?_⟩
  · rw [h.drv, hd]
    rfl
  · rw [hsplit, List.append_assoc]
    rfl
  · apply hmade.next
    rwa [← hsplit]
  · show xdmaRegWrite q.eng w.offset w.val = _
    rw [heq, ← List.append_assoc]
    rfl
  · -- A register written again gets the value it has.
    exact h.programmed.update fun w' hw' =>
      List.inj_on_of_nodup_map hnodup (addrWrites_subset_burstWrites s.eng b hw') hmem

/-- The write of the control register is the call. -/
theorem Refines.start (h : Refines ok regs q s) (hb : OnBoard virt2phy c s) {b : TxBurst}
    (hd : q.drv = .programming b []) :
    ∃ s', TxStep virt2phy (fun _ b => ok b) s s' ∧
      Refines ok (Function.update regs (txRunWrite q.eng).offset (txRunWrite q.eng).val)
        ({ q with
            eng := xdmaRegWrite q.eng (txRunWrite q.eng).offset (txRunWrite q.eng).val
            drv := .polling b }.see c (txRunWrite q.eng)) s' := by
  have hds : s.drv = .idle := by
    rw [h.drv, hd]
    rfl
  have heng := h.engine
  simp only [EngineRefines, hd] at heng
  obtain ⟨hok, made, hsplit, hmade, heq⟩ := heng
  rw [List.append_nil] at hsplit
  subst hsplit
  have hchan := h.channel hb
  refine ⟨_, TxStep.call s b hds (hb.inv.idle hds).1 hok, ?_, rfl, ?_, ?_⟩
  · show s.hw.start = decode c (txRunWrite q.eng) q.hw
    rw [decode_run hchan, h.hw]
  · show (xmitStart s.eng b).2 = xdmaRegWrite q.eng (txRunWrite q.eng).offset (txRunWrite q.eng).val
    rw [xmitStart_writes (hb.used hds) hb.inv.descMax_pos, heq]
    rfl
  · -- All address registers are written, and the control register is none of them.
    have hall : Holds (Function.update regs (txRunWrite q.eng).offset (txRunWrite q.eng).val)
        (burstWrites s.eng b) :=
      hmade.update fun w hw heq => absurd heq (ne_ctrl_of_mem hw q.eng.channel)
    have hprog : Programmed (Function.update regs (txRunWrite q.eng).offset (txRunWrite q.eng).val)
        s.eng s.hw.start :=
      ⟨fun _ w hw => hall w (addrWrites_subset_burstWrites s.eng b (List.mem_append_left _ hw)),
        fun _ w hw => hall w (addrWrites_subset_burstWrites s.eng b (List.mem_append_right _ hw))⟩
    exact hprog.frame (frame_xmitStart s.eng b)

/-- The write of the control register is the stop. -/
theorem Refines.halt (h : Refines ok regs q s) (hb : OnBoard virt2phy c s) (hd : q.drv = .exited) :
    ∃ s', TxStep virt2phy (fun _ b => ok b) s s' ∧
      Refines ok (Function.update regs (txHaltWrite q.eng).offset (txHaltWrite q.eng).val)
        ({ q with
            eng := xdmaRegWrite q.eng (txHaltWrite q.eng).offset (txHaltWrite q.eng).val
            drv := .clearing }.see c (txHaltWrite q.eng)) s' := by
  have hds : s.drv = .exited := by
    rw [h.drv, hd]
    rfl
  have heng := h.engine
  simp only [EngineRefines, hd] at heng
  have hchan := h.channel hb
  refine ⟨_, TxStep.halt s hds, ?_, rfl, ?_, ?_⟩
  · show s.hw.stop = decode c (txHaltWrite q.eng) q.hw
    rw [decode_halt hchan, h.hw]
  · show engineHalt s.eng h2cChannelCtrl = _
    rw [heng]
    rfl
  · have hprog : Programmed
        (Function.update regs (txHaltWrite q.eng).offset (txHaltWrite q.eng).val) s.eng s.hw :=
      h.programmed.update_of_ne fun w hw =>
        ne_ctrl_of_mem (addrWrites_subset s.eng 0 hw) q.eng.channel
    have hstop : Programmed
        (Function.update regs (txHaltWrite q.eng).offset (txHaltWrite q.eng).val) s.eng s.hw.stop :=
      ⟨fun hk => absurd hk (by simp [Walker.stop]), fun hact => hprog.word (hact.imp_left
        fun hk => absurd hk (by simp [Walker.stop]))⟩
    exact hstop.frame (frame_engineHalt s.eng h2cChannelCtrl)

/-- The device takes the same step in the coarse system. -/
theorem Refines.walk (h : Refines ok regs q s) (hb : OnBoard virt2phy c s)
    {hw' : Walker Nat XdmaDesc} {count' : Nat}
    (hs : Step (txRules virt2phy q.eng) q.eng.descRing (q.hw, q.eng.completedDescCount)
      (hw', count')) :
    Step (txRules virt2phy s.eng) s.eng.descRing (s.hw, s.eng.completedDescCount)
      (hw', count') := by
  have hrules : txRules virt2phy q.eng = txRules virt2phy s.eng := by
    simp only [txRules, busIndex_frame h.frame]
  rw [hrules, ← h.hw] at hs
  generalize txRules virt2phy s.eng = R at hs ⊢
  have heng := h.engine
  have hdrv := h.drv
  unfold EngineRefines at heng
  split at heng
  · -- The device is off, and does not see what is staged.
    rename_i b todo hd
    obtain ⟨-, made, -, -, heq⟩ := heng
    rw [hd] at hdrv
    obtain ⟨-, hrun, hkick⟩ := hb.inv.idle hdrv
    have hword : q.eng.completedDescCount = s.eng.completedDescCount := by
      rw [heq]
      exact completedDescCount_xmitStart s.eng b (hb.used hdrv) hb.inv.descMax_pos
    rw [hword] at hs
    exact hs.of_stopped hrun hkick _
  · -- Nor what is cleared.
    rename_i hd
    rw [hd] at hdrv
    have hinv := hb.inv.driver
    simp only [DriverInv, hdrv, MmioDriver.view] at hinv
    rw [heng]
    exact hs.of_stopped hinv.2.2.1 hinv.2.2.2 _
  · rw [heng]
    exact hs

theorem Refines.device (h : Refines ok regs q s) (hb : OnBoard virt2phy c s)
    {hw' : Walker Nat XdmaDesc} {count' : Nat}
    (hs : Step (txRules virt2phy q.eng) q.eng.descRing (q.hw, q.eng.completedDescCount)
      (hw', count')) :
    ∃ s', TxStep virt2phy (fun _ b => ok b) s s' ∧
      Refines ok regs { q with eng := q.eng.withWord count', hw := hw' } s' := by
  have hwalk := h.walk hb hs
  refine ⟨_, TxStep.device s hw' count' hwalk, rfl, h.drv, ?_, ?_⟩
  · have heng := h.engine
    have hdrv := h.drv
    show EngineRefines ok regs { q with eng := q.eng.withWord count', hw := hw' }
      (s.eng.withWord count')
    cases hd : q.drv with
    | programming b todo =>
      simp only [EngineRefines, hd] at heng ⊢
      rw [hd] at hdrv
      obtain ⟨hok, made, hsplit, hmade, heq⟩ := heng
      have hused := hb.used hdrv
      have hmax := hb.inv.descMax_pos
      refine ⟨hok, made, ?_, hmade, ?_⟩
      · rw [burstWrites_withWord hused hmax, hsplit]
      · rw [xmitStage_withWord hused hmax, heq]
        rfl
    | clearing =>
      simp only [EngineRefines, hd] at heng ⊢
      rw [heng]
      rfl
    | idle =>
      simp only [EngineRefines, hd] at heng ⊢
      rw [heng]
    | polling b =>
      simp only [EngineRefines, hd] at heng ⊢
      rw [heng]
    | exited =>
      simp only [EngineRefines, hd] at heng ⊢
      rw [heng]
    | stopping =>
      simp only [EngineRefines, hd] at heng ⊢
      rw [heng]
  · exact (h.programmed.device hwalk).frame (frame_withWord s.eng count')

/-- **Own steps** are steps of the coarse system, or not seen there. -/
theorem Refines.own (h : Refines ok regs q s) (hb : OnBoard virt2phy c s)
    (hs : MmioStep virt2phy ok c regs q q' out) :
    ∃ s', Relation.ReflGen (TxStep virt2phy fun _ b => ok b) s s' ∧
      Refines ok (regsAfter regs out) (q'.after c out) s' := by
  cases hs with
  | stage b hd hr hok => exact ⟨s, .refl, h.stage hd hok⟩
  | program b w todo hd => exact ⟨s, .refl, h.program hd⟩
  | start b hd =>
    obtain ⟨s', hstep, h'⟩ := h.start hb hd
    exact ⟨s', .single hstep, h'⟩
  | busy hr => exact ⟨s, .refl, h⟩
  | exit b hd ht =>
    have heng := h.engine
    have hdrv := h.drv
    simp only [EngineRefines, hd] at heng
    rw [hd] at hdrv
    rw [← heng] at ht
    exact ⟨_, .single (TxStep.exit s b hdrv ht), h.hw, rfl, heng, h.programmed⟩
  | halt hd =>
    obtain ⟨s', hstep, h'⟩ := h.halt hb hd
    exact ⟨s', .single hstep, h'⟩
  | clear hd =>
    have heng := h.engine
    have hdrv := h.drv
    simp only [EngineRefines, hd] at heng
    rw [hd] at hdrv
    exact ⟨s, .refl, h.hw, hdrv, heng, h.programmed⟩
  | reset hd =>
    have heng := h.engine
    have hdrv := h.drv
    simp only [EngineRefines, hd] at heng
    rw [hd] at hdrv
    refine ⟨_, .single (TxStep.reset s hdrv), h.hw, rfl, ?_, ?_⟩
    · show engineReset s.eng = engineReset q.eng
      rw [heng]
    · exact h.programmed.frame (frame_engineReset s.eng)
  | device hw' count' hname hwalk =>
    obtain ⟨s', hstep, h'⟩ := h.device hb hwalk
    exact ⟨s', .single hstep, h'⟩
  | astray _ hname hact hd => exact absurd (h.regsName hb hact) hname

/-- Threads write registers of their own channel. -/
theorem MmioStep.within (hs : MmioStep virt2phy ok c regs q q' out) (h : Refines ok regs q s)
    (hb : OnBoard virt2phy c s) {w : RegWrite} (hw : w ∈ out) :
    inWindow .h2c c w.offset = true := by
  have hchan := h.channel hb
  cases hs with
  | program b w' todo hd =>
    obtain rfl := Option.some.inj hw
    have heng := h.engine
    simp only [EngineRefines, hd] at heng
    obtain ⟨-, made, hsplit, -, -⟩ := heng
    apply within_burstWrites hb.channel b
    rw [hsplit]
    exact List.mem_append_right _ (List.mem_cons_self ..)
  | start b hd =>
    obtain rfl := Option.some.inj hw
    show inWindow .h2c c (h2cChannelCtrl + q.eng.channel.toNat * 0x100) = true
    rw [hchan]
    exact inWindow_ctrl c
  | halt hd =>
    obtain rfl := Option.some.inj hw
    show inWindow .h2c c (h2cChannelCtrl + q.eng.channel.toNat * 0x100) = true
    rw [hchan]
    exact inWindow_ctrl c
  | stage b hd hr hok => cases hw
  | busy hr => cases hw
  | exit b hd ht => cases hw
  | clear hd => cases hw
  | reset hd => cases hw
  | device hw' count' hname hwalk => cases hw
  | astray _ hname hact hd => cases hw

/-- What they write is in no register of another channel. -/
theorem MmioStep.outside (hs : MmioStep virt2phy ok c regs q q' out) (h : Refines ok regs q s)
    (hb : OnBoard virt2phy c s) {w : RegWrite} (hw : w ∈ out) {c' : BitVec 2} (hne : c' ≠ c) :
    inWindow .h2c c' w.offset = false := by
  by_contra hin
  exact hne (inWindow_inj (Bool.eq_true_of_not_eq_false hin) (hs.within h hb hw)).2

/-- A write is logged where it is made. -/
theorem MmioStep.log (hs : MmioStep virt2phy ok c regs q q' out) (h : Refines ok regs q s)
    (hb : OnBoard virt2phy c s) : q'.eng.regWrites = q.eng.regWrites ++ out.toList := by
  cases hs with
  | stage b hd hr hok =>
    show (xmitStage q.eng b).2.regWrites = q.eng.regWrites ++ []
    rw [regWrites_xmitStage, List.append_nil]
  | program b w todo hd => rfl
  | start b hd => rfl
  | halt hd => rfl
  | busy hr => exact (List.append_nil _).symm
  | exit b hd ht => exact (List.append_nil _).symm
  | clear hd => exact (List.append_nil _).symm
  | reset hd => exact (List.append_nil _).symm
  | device hw' count' hname hwalk => exact (List.append_nil _).symm
  | astray _ hname hact hd => exact absurd (h.regsName hb hact) hname

/-- **Foreign writes** are not seen. -/
theorem Refines.foreign (h : Refines ok regs q s) (hb : OnBoard virt2phy c s) {w : RegWrite}
    (hout : inWindow .h2c c w.offset = false) :
    Refines ok (Function.update regs w.offset w.val) (q.see c w) s := by
  rw [MmioQueue.see_of_outside hout]
  refine ⟨h.hw, h.drv, ?_, ?_⟩
  · have heng := h.engine
    unfold EngineRefines at heng ⊢
    split at heng
    · rename_i b todo hd
      obtain ⟨hok, made, hsplit, hmade, heq⟩ := heng
      have hwithin : Within .h2c c made := by
        intro w' hw'
        apply within_burstWrites hb.channel b
        rw [hsplit]
        exact List.mem_append_left _ hw'
      exact ⟨hok, made, hsplit, hmade.update_outside hwithin hout, heq⟩
    · exact heng
    · exact heng
  · apply h.programmed.update_of_ne
    intro w' hw' heq
    have hin := within_txAddrWrites hb.channel _ _ w' (addrWrites_subset s.eng 0 hw')
    rw [heq, hout] at hin
    exact absurd hin (by decide)

end

/-! ### Runs of the board -/

/-- A run from a board just set up, with the descriptors each channel completed and the bursts
    it started along it. -/
inductive BoardRun (virt2phy : Addr → Addr) (a : BitVec 2 → SetupAlloc)
    (ok : BitVec 2 → TxBurst → Prop) :
    (BitVec 2 → List XdmaDesc) → (BitVec 2 → List TxBurst) → Board → Prop
  | init (regs : Nat → BitVec 32) :
      BoardRun virt2phy a ok (fun _ => []) (fun _ => []) (Board.init virt2phy a regs)
  | step {sent : BitVec 2 → List XdmaDesc} {calls : BitVec 2 → List TxBurst} {B B' : Board} :
      BoardRun virt2phy a ok sent calls B → BoardStep virt2phy ok B B' →
      BoardRun virt2phy a ok (fun c => sent c ++ (B.queue c).hw.handed (B'.queue c).hw)
        (fun c => calls c ++ (B.queue c).view.submitted (B'.queue c).view) B'

theorem OffsetsAgree.of_frame {virt2phy : Addr → Addr} {e e' : XdmaEngine}
    (h : OffsetsAgree virt2phy e) (hf : Frame e e') : OffsetsAgree virt2phy e' := by
  have hring : e'.swRing = e.swRing := congrArg EngineLayout.swRing hf.layout
  unfold OffsetsAgree
  rw [hring, hf.descAddr, hf.pollAddr]
  exact h

section
variable {virt2phy : Addr → Addr} {channelId : BitVec 16} {al : SetupAlloc}
  {okS : TxSys → TxBurst → Prop} {s s' : TxSys} {sent : List XdmaDesc} {calls : List TxBurst}

theorem TxStep.frame (h : TxStep virt2phy okS s s') : Frame s.eng s'.eng := by
  cases h with
  | call b _ _ _ => exact frame_xmitStart s.eng b
  | busy b _ => exact Frame.refl _
  | exit b _ _ => exact Frame.refl _
  | halt _ => exact frame_engineHalt s.eng h2cChannelCtrl
  | reset _ => exact frame_engineReset s.eng
  | device _ count' _ => exact frame_withWord s.eng count'

theorem TxReach.frame (h : TxReach virt2phy channelId al okS s) :
    Frame (xdmaTxEngineSetup virt2phy channelId al) s.eng := by
  induction h with
  | refl => exact Frame.refl _
  | tail _ hs ih => exact ih.trans hs.frame

/-- A step that leaves the thread where it is starts no burst. -/
theorem submitted_of_drv_eq (h : s'.drv = s.drv) : s.submitted s' = [] := by
  unfold TxSys.submitted
  rw [h]
  cases s.drv <;> rfl

/-- A step, or none. -/
theorem TxRun.follow (h : TxRun virt2phy channelId al okS sent calls s)
    (hs : Relation.ReflGen (TxStep virt2phy okS) s s') :
    TxRun virt2phy channelId al okS (sent ++ s.hw.handed s'.hw) (calls ++ s.submitted s') s' := by
  cases hs with
  | refl =>
    rwa [Walker.handed_of_hand_eq rfl, submitted_of_drv_eq rfl, List.append_nil, List.append_nil]
  | single hstep => exact h.step hstep

theorem submitted_congr {t t' : TxSys} (h : s.drv = t.drv) (h' : s'.drv = t'.drv) :
    s.submitted s' = t.submitted t' := by
  unfold TxSys.submitted
  rw [h, h']

theorem inOrder_congr {t : TxSys} (h : s.drv = t.drv) :
    InOrder sent calls s ↔ InOrder sent calls t := by
  unfold InOrder
  rw [h]

end

section
variable {virt2phy : Addr → Addr} {a : BitVec 2 → SetupAlloc} {ok : BitVec 2 → TxBurst → Prop}
  {B B' : Board}

/-- The states of a queue by itself are states of a channel. -/
theorem TxReach.onBoard {c : BitVec 2} {okS : TxSys → TxBurst → Prop} {s : TxSys}
    (hmap : MapsRing virt2phy (boardEngine virt2phy a c))
    (hoff : OffsetsAgree virt2phy (boardEngine virt2phy a c))
    (h : TxReach virt2phy (c.setWidth 16) (a c) okS s) : OnBoard virt2phy c s where
  inv := h.inv hmap
  channel := (channel_of_layout h.frame.layout).trans (channel_boardEngine virt2phy a c)
  offsets := hoff.of_frame h.frame

/-- **Step lemma.** A step of the board is, for each queue, one of its own, or nothing. -/
theorem BoardStep.refines (h : BoardStep virt2phy ok B B') {s : BitVec 2 → TxSys}
    (href : ∀ c, Refines (ok c) B.regs (B.queue c) (s c))
    (hb : ∀ c, OnBoard virt2phy c (s c)) (c : BitVec 2) :
    ∃ s', Relation.ReflGen (TxStep virt2phy fun _ b => ok c b) (s c) s' ∧
      Refines (ok c) B'.regs (B'.queue c) s' := by
  cases h with
  | queue j q out hstep =>
    rw [regs_bus, queue_bus]
    show ∃ s', _ ∧ Refines (ok c) (regsAfter B.regs out) (((B.put j q).queue c).after c out) s'
    by_cases hj : c = j
    · subst hj
      rw [queue_put_self]
      exact (href c).own (hb c) hstep
    · rw [queue_put_of_ne B hj]
      cases hout : out with
      | none => exact ⟨s c, .refl, href c⟩
      | some w =>
        have hother := hstep.outside (href j) (hb j) (Option.mem_def.mpr hout) hj
        exact ⟨s c, .refl, (href c).foreign (hb c) hother⟩
  | other w hw => exact ⟨s c, .refl, (href c).foreign (hb c) (hw c)⟩

/-- **Run lemma.** -/
theorem BoardRun.refines {sent : BitVec 2 → List XdmaDesc} {calls : BitVec 2 → List TxBurst}
    (hmap : ∀ c, MapsRing virt2phy (boardEngine virt2phy a c))
    (hoff : ∀ c, OffsetsAgree virt2phy (boardEngine virt2phy a c))
    (h : BoardRun virt2phy a ok sent calls B) (c : BitVec 2) :
    ∃ s, TxRun virt2phy (c.setWidth 16) (a c) (fun _ b => ok c b) (sent c) (calls c) s ∧
      Refines (ok c) B.regs (B.queue c) s := by
  induction h generalizing c with
  | init regs =>
    refine ⟨_, TxRun.init, rfl, rfl, rfl, fun hk => absurd hk (by simp [TxSys.init, Walker.idle]),
      fun hact => ?_⟩
    simp [TxSys.init, Walker.idle] at hact
  | @step sent calls B B' _ hstep ih =>
    choose s hrun href using ih
    obtain ⟨s', hfollow, href'⟩ := hstep.refines href
      (fun c => (hrun c).toReach.onBoard (hmap c) (hoff c)) c
    have hrun' := (hrun c).follow hfollow
    have hsub : (s c).submitted s' = (B.queue c).view.submitted (B'.queue c).view :=
      submitted_congr (href c).drv href'.drv
    rw [(href c).hw, href'.hw, hsub] at hrun'
    exact ⟨s', hrun', href'⟩

end

/-! ### The registers of a channel -/

/-- The registers of channel `c` have the values last written to them in the log. -/
def RegsOfLog (c : BitVec 2) (regs : Nat → BitVec 32) (log : List RegWrite) : Prop :=
  ∀ offset v, inWindow .h2c c offset = true → lastWrite log offset = some v → regs offset = v

section
variable {c : BitVec 2} {regs : Nat → BitVec 32} {log : List RegWrite} {w : RegWrite}

theorem RegsOfLog.own (h : RegsOfLog c regs log) :
    RegsOfLog c (Function.update regs w.offset w.val) (log ++ [w]) := by
  intro offset v hin hlast
  rw [lastWrite_append] at hlast
  by_cases heq : w.offset = offset
  · rw [if_pos heq] at hlast
    rw [← heq, Function.update_self]
    exact Option.some.inj hlast
  · rw [if_neg heq] at hlast
    rw [Function.update_of_ne (Ne.symm heq)]
    exact h offset v hin hlast

theorem RegsOfLog.foreign (h : RegsOfLog c regs log) (hout : inWindow .h2c c w.offset = false) :
    RegsOfLog c (Function.update regs w.offset w.val) log := by
  intro offset v hin hlast
  have hne : offset ≠ w.offset := by
    rintro rfl
    exact absurd (hin.symm.trans hout) (by decide)
  rw [Function.update_of_ne hne]
  exact h offset v hin hlast

end

section
variable {virt2phy : Addr → Addr} {a : BitVec 2 → SetupAlloc} {ok : BitVec 2 → TxBurst → Prop}
  {B B' : Board}

/-- **Step lemma.** -/
theorem BoardStep.regsOfLog (h : BoardStep virt2phy ok B B') {s : BitVec 2 → TxSys}
    (href : ∀ c, Refines (ok c) B.regs (B.queue c) (s c)) (hb : ∀ c, OnBoard virt2phy c (s c))
    {c : BitVec 2} (hlog : RegsOfLog c B.regs (B.queue c).eng.regWrites) :
    RegsOfLog c B'.regs (B'.queue c).eng.regWrites := by
  cases h with
  | queue j q out hstep =>
    rw [regs_bus, queue_bus]
    show RegsOfLog c (regsAfter B.regs out) (((B.put j q).queue c).after c out).eng.regWrites
    have heng : ∀ r : MmioQueue, (r.after c out).eng = r.eng := by
      intro r
      cases out <;> rfl
    rw [heng]
    by_cases hj : c = j
    · subst hj
      rw [queue_put_self, hstep.log (href c) (hb c)]
      cases out with
      | none =>
        rw [Option.toList_none, List.append_nil]
        exact hlog
      | some w => exact hlog.own
    · rw [queue_put_of_ne B hj]
      cases hout : out with
      | none => exact hlog
      | some w => exact hlog.foreign (hstep.outside (href j) (hb j) (Option.mem_def.mpr hout) hj)
  | other w hw => exact hlog.foreign (hw c)

/-- **Run lemma.** -/
theorem BoardRun.regsOfLog {sent : BitVec 2 → List XdmaDesc} {calls : BitVec 2 → List TxBurst}
    (hmap : ∀ c, MapsRing virt2phy (boardEngine virt2phy a c))
    (hoff : ∀ c, OffsetsAgree virt2phy (boardEngine virt2phy a c))
    (h : BoardRun virt2phy a ok sent calls B) (c : BitVec 2) :
    RegsOfLog c B.regs (B.queue c).eng.regWrites := by
  induction h with
  | init regs =>
    intro offset v _ hlast
    have hnone : lastWrite ((Board.init virt2phy a regs).queue c).eng.regWrites offset = none := rfl
    exact absurd (hnone.symm.trans hlast) (by simp)
  | step hrun hstep ih =>
    choose s hsolo href using hrun.refines hmap hoff
    exact hstep.regsOfLog href (fun c => (hsolo c).toReach.onBoard (hmap c) (hoff c)) ih

end

/-! ### Runs of one channel on the board -/

/-- The place in the code of a place of the coarse system. -/
def TxDriver.place : TxDriver → MmioDriver
  | .idle => .idle
  | .polling b => .polling b
  | .exited => .exited
  | .stopping => .stopping

/-- A state of the coarse system as a queue of the board. -/
def TxSys.queue (s : TxSys) : MmioQueue where
  eng := s.eng
  hw := s.hw
  drv := s.drv.place

@[simp] theorem view_queue (s : TxSys) : s.queue.view = s := by
  cases s with
  | mk eng hw drv => cases drv <;> rfl

/-- Some run of the board leads channel `c` to `q`, with these lists. -/
def Leads (virt2phy : Addr → Addr) (a : BitVec 2 → SetupAlloc) (ok : BitVec 2 → TxBurst → Prop)
    (c : BitVec 2) (sent : List XdmaDesc) (calls : List TxBurst) (q : MmioQueue) : Prop :=
  ∃ allSent allCalls B, BoardRun virt2phy a ok allSent allCalls B ∧ allSent c = sent ∧
    allCalls c = calls ∧ B.queue c = q

section
variable {virt2phy : Addr → Addr} {a : BitVec 2 → SetupAlloc} {ok : BitVec 2 → TxBurst → Prop}
  {c : BitVec 2} {sent : List XdmaDesc} {calls : List TxBurst} {q q' : MmioQueue}

/-- A step of the channel, whatever its registers are. -/
theorem Leads.step {out : Option RegWrite} {r : MmioQueue}
    (hmap : ∀ c, MapsRing virt2phy (boardEngine virt2phy a c))
    (hoff : ∀ c, OffsetsAgree virt2phy (boardEngine virt2phy a c))
    (h : Leads virt2phy a ok c sent calls q)
    (hs : ∀ regs s, Refines (ok c) regs q s → OnBoard virt2phy c s →
      MmioStep virt2phy (ok c) c regs q q' out) (hr : q'.after c out = r) :
    Leads virt2phy a ok c (sent ++ q.hw.handed r.hw) (calls ++ q.view.submitted r.view) r := by
  obtain ⟨allSent, allCalls, B, hrun, rfl, rfl, rfl⟩ := h
  obtain ⟨s, hcoarse, href⟩ := hrun.refines hmap hoff c
  have hstep := hs B.regs s href (hcoarse.toReach.onBoard (hmap c) (hoff c))
  have hq : ((B.put c q').bus out).queue c = r := by
    rw [queue_bus, queue_put_self, hr]
  refine ⟨_, _, _, hrun.step (BoardStep.queue B c q' out hstep), ?_, ?_, hq⟩
  · rw [hq]
  · rw [hq]

/-- A step that is not seen. -/
theorem Leads.quiet {out : Option RegWrite} {r : MmioQueue}
    (hmap : ∀ c, MapsRing virt2phy (boardEngine virt2phy a c))
    (hoff : ∀ c, OffsetsAgree virt2phy (boardEngine virt2phy a c))
    (h : Leads virt2phy a ok c sent calls q)
    (hs : ∀ regs s, Refines (ok c) regs q s → OnBoard virt2phy c s →
      MmioStep virt2phy (ok c) c regs q q' out) (hr : q'.after c out = r)
    (hhand : r.hw.hand = q.hw.hand) (hsub : q.view.submitted r.view = []) :
    Leads virt2phy a ok c sent calls r := by
  have h' := h.step hmap hoff hs hr
  rwa [Walker.handed_of_hand_eq hhand, hsub, List.append_nil, List.append_nil] at h'

/-- The address registers are written one by one. -/
theorem Leads.program (hmap : ∀ c, MapsRing virt2phy (boardEngine virt2phy a c))
    (hoff : ∀ c, OffsetsAgree virt2phy (boardEngine virt2phy a c)) {e : XdmaEngine}
    {hw : Walker Nat XdmaDesc} {b : TxBurst} {todo : List RegWrite}
    (h : Leads virt2phy a ok c sent calls { eng := e, hw := hw, drv := .programming b todo })
    (hne : ∀ w ∈ todo, w.offset ≠ h2cChannelCtrl + c.toNat * 0x100) :
    Leads virt2phy a ok c sent calls
      { eng := e.withRegs (e.regWrites ++ todo), hw := hw, drv := .programming b [] } := by
  induction todo generalizing e with
  | nil =>
    rw [List.append_nil]
    exact h
  | cons w todo ih =>
    have hnext := h.quiet hmap hoff (fun _ _ _ _ => MmioStep.program _ b w todo rfl)
      (MmioQueue.see_of_ne (hne w (List.mem_cons_self ..)) _) rfl rfl
    have hrest := ih hnext fun w' hw' => hne w' (List.mem_cons_of_mem _ hw')
    have hregs : (xdmaRegWrite e w.offset w.val).regWrites ++ todo = e.regWrites ++ w :: todo :=
      List.append_assoc ..
    rw [hregs] at hrest
    exact hrest

/-- A call: staging, the writes of the address registers, that of the control register. -/
theorem Leads.call (hmap : ∀ c, MapsRing virt2phy (boardEngine virt2phy a c))
    (hoff : ∀ c, OffsetsAgree virt2phy (boardEngine virt2phy a c)) {e : XdmaEngine}
    {hw : Walker Nat XdmaDesc} {b : TxBurst}
    (h : Leads virt2phy a ok c sent calls { eng := e, hw := hw, drv := .idle })
    (hb : OnBoard virt2phy c { eng := e, hw := hw, drv := .idle }) (hok : ok c b) :
    Leads virt2phy a ok c sent (calls ++ [b])
      { eng := (xmitStart e b).2, hw := hw.start, drv := .polling b } := by
  have hstage := h.quiet hmap hoff
    (fun _ _ _ _ => MmioStep.stage _ b rfl (hb.inv.idle rfl).1 hok) rfl rfl rfl
  have hprog := hstage.program hmap hoff fun w hw => ne_ctrl_of_mem hw c
  -- The last write starts the device, and completes `xmitStart`.
  have hregs := regWrites_xmitStage e b
  have hchan : (xmitStage e b).2.channel = c :=
    (channel_of_layout (frame_xmitStage e b).layout).trans hb.channel
  have hstart := hprog.step hmap hoff (fun _ _ _ _ => MmioStep.start _ b rfl)
    (show MmioQueue.mk _ (decode c (txRunWrite (xmitStage e b).2) hw) _
        = { eng := (xmitStart e b).2, hw := hw.start, drv := .polling b } by
      rw [decode_run hchan, xmitStart_writes (hb.used rfl) hb.inv.descMax_pos, ← hregs]
      rfl)
  have hlists : Leads virt2phy a ok c (sent ++ hw.handed hw.start) (calls ++ [b])
      { eng := (xmitStart e b).2, hw := hw.start, drv := .polling b } := hstart
  have hnone : hw.handed hw.start = [] := Walker.handed_of_hand_eq rfl
  rwa [hnone, List.append_nil] at hlists

/-- A stop: the write of the control register, and the clearing of the ring. -/
theorem Leads.halt (hmap : ∀ c, MapsRing virt2phy (boardEngine virt2phy a c))
    (hoff : ∀ c, OffsetsAgree virt2phy (boardEngine virt2phy a c)) {e : XdmaEngine}
    {hw : Walker Nat XdmaDesc}
    (h : Leads virt2phy a ok c sent calls { eng := e, hw := hw, drv := .exited })
    (hchan : e.channel = c) :
    Leads virt2phy a ok c sent calls
      { eng := engineHalt e h2cChannelCtrl, hw := hw.stop, drv := .stopping } := by
  have hwrite := h.quiet hmap hoff (fun _ _ _ _ => MmioStep.halt _ rfl)
    (show MmioQueue.mk _ (decode c (txHaltWrite e) hw) _
        = { eng := xdmaRegWrite e (txHaltWrite e).offset (txHaltWrite e).val, hw := hw.stop,
            drv := .clearing } by
      rw [decode_halt hchan]) rfl rfl
  exact hwrite.quiet hmap hoff (fun _ _ _ _ => MmioStep.clear _ rfl) rfl rfl rfl

/-- **Completeness.** Every run of a queue by itself is one of its channel on the board. -/
theorem TxRun.onBoard {s : TxSys} (hmap : ∀ c, MapsRing virt2phy (boardEngine virt2phy a c))
    (hoff : ∀ c, OffsetsAgree virt2phy (boardEngine virt2phy a c))
    (h : TxRun virt2phy (c.setWidth 16) (a c) (fun _ b => ok c b) sent calls s) :
    Leads virt2phy a ok c sent calls s.queue := by
  induction h with
  | init => exact ⟨_, _, _, BoardRun.init fun _ => 0, rfl, rfl, rfl⟩
  | @step sent calls s s' hrun hstep ih =>
    have hb := hrun.toReach.onBoard (hmap c) (hoff c)
    obtain ⟨eng, hw, drv⟩ := s
    cases hstep with
    | call b hd hr hok =>
      obtain rfl : drv = .idle := hd
      have hnone : hw.handed hw.start = [] := Walker.handed_of_hand_eq rfl
      show Leads virt2phy a ok c (sent ++ hw.handed hw.start) (calls ++ [b]) _
      rw [hnone, List.append_nil]
      exact ih.call hmap hoff hb hok
    | busy b hr =>
      rwa [Walker.handed_of_hand_eq rfl, submitted_of_drv_eq rfl, List.append_nil, List.append_nil]
    | exit b hd ht =>
      obtain rfl : drv = .polling b := hd
      exact ih.step hmap hoff (fun _ _ _ _ => MmioStep.exit _ b rfl ht) rfl
    | halt hd =>
      obtain rfl : drv = .exited := hd
      have hnone : hw.handed hw.stop = [] := Walker.handed_of_hand_eq rfl
      show Leads virt2phy a ok c (sent ++ hw.handed hw.stop) (calls ++ []) _
      rw [hnone, List.append_nil, List.append_nil]
      exact ih.halt hmap hoff hb.channel
    | reset hd =>
      obtain rfl : drv = .stopping := hd
      exact ih.step hmap hoff (fun _ _ _ _ => MmioStep.reset _ rfl) rfl
    | device hw' count' hwalk =>
      have hnext := ih.step hmap hoff (fun regs s href hon =>
        MmioStep.device _ hw' count' (href.regsName hon hwalk.active) hwalk) rfl
      have hsub : (TxSys.mk eng hw drv).submitted ⟨eng.withWord count', hw', drv⟩ = [] :=
        submitted_of_drv_eq rfl
      have hview : (TxSys.mk eng hw drv).queue.view.submitted
          (TxSys.mk (eng.withWord count') hw' drv).queue.view = [] := by
        rw [view_queue, view_queue, hsub]
      show Leads virt2phy a ok c (sent ++ hw.handed hw')
        (calls ++ (TxSys.mk eng hw drv).submitted ⟨eng.withWord count', hw', drv⟩) _
      rw [hsub, ← hview]
      exact hnext

end

/-! ### Four queues -/

/-- Zones and software rings of the four channels, on pages of their own. -/
def SetupAlloc.ofChannel (c : BitVec 2) : SetupAlloc where
  zoneAddr := 0x100000 + c.setWidth 64 <<< 12
  zoneAligned := by
    revert c
    decide
  swRing := 0x200000 + c.setWidth 64 <<< 12

theorem mapsRing_ofChannel (c : BitVec 2) : MapsRing id (boardEngine id SetupAlloc.ofChannel c) :=
  MapsRing.of_injective Function.injective_id rfl

theorem offsetsAgree_ofChannel (c : BitVec 2) :
    OffsetsAgree id (boardEngine id SetupAlloc.ofChannel c) := by
  constructor <;> simp

/-- **Refinement.** Four H2C queues share the registers of a board, their threads make every
    register write in a step of its own, and other parts of the driver write where they want
    outside the four channels.  Where the offsets of every queue agree, each queue is over every
    run at a state that a queue by itself reaches with the same bursts submitted and the same
    descriptors completed; in particular no device goes astray. -/
theorem board_refines (virt2phy : Addr → Addr) (a : BitVec 2 → SetupAlloc)
    (hmap : ∀ c, MapsRing virt2phy (boardEngine virt2phy a c))
    (hoff : ∀ c, OffsetsAgree virt2phy (boardEngine virt2phy a c))
    (ok : BitVec 2 → TxBurst → Prop) (sent : BitVec 2 → List XdmaDesc)
    (calls : BitVec 2 → List TxBurst) (B : Board) (h : BoardRun virt2phy a ok sent calls B)
    (c : BitVec 2) :
    (∃ s, TxRun virt2phy (c.setWidth 16) (a c) (fun _ b => ok c b) (sent c) (calls c) s ∧
        Refines (ok c) B.regs (B.queue c) s) ∧
      ((B.queue c).hw.kick = true ∨ (B.queue c).hw.phase ≠ .halted →
        RegsName virt2phy c B.regs (B.queue c)) := by
  obtain ⟨s, hrun, href⟩ := h.refines hmap hoff c
  exact ⟨⟨s, hrun, href⟩, href.regsName (hrun.toReach.onBoard (hmap c) (hoff c))⟩

/-- Channel 3 of that board: its burst has returned, and the report of the terminator is still
    to come. -/
structure LateReport (sent : BitVec 2 → List XdmaDesc) (calls : BitVec 2 → List TxBurst)
    (B : Board) : Prop where
  run : BoardRun id SetupAlloc.ofChannel (fun _ b => OneSegment b ∧ b.nbPkts = 2) sent calls B
  idle : (B.queue 3).drv = .idle
  pending : (B.queue 3).hw.pending (txRules id (B.queue 3).eng) = some 3

theorem exists_lateReport : ∃ sent calls B, LateReport sent calls B := by
  obtain ⟨s, hreach, hd, hpend⟩ : ∃ s, TxReach id ((3 : BitVec 2).setWidth 16)
      (SetupAlloc.ofChannel 3) (OfSizes fun n => n = 2) s ∧ s.drv = .idle ∧
      s.hw.pending (txRules id s.eng) = some 3 :=
    TxReach.after_burst (mapsRing_ofChannel 3) (by decide) rfl
  obtain ⟨sent, calls, hrun⟩ := hreach.toRun
  have hlead : Leads id SetupAlloc.ofChannel (fun _ b => OneSegment b ∧ b.nbPkts = 2) 3 sent calls
      s.queue := TxRun.onBoard mapsRing_ofChannel offsetsAgree_ofChannel hrun
  obtain ⟨allSent, allCalls, B, hB, -, -, hq⟩ := hlead
  refine ⟨allSent, allCalls, B, hB, ?_, ?_⟩
  · rw [hq]
    show s.drv.place = _
    rw [hd]
    rfl
  · rw [hq]
    exact hpend

/-- The report goes where it should. -/
theorem board_refines_three :
    ∃ sent calls B, LateReport sent calls B ∧ RegsName id 3 B.regs (B.queue 3) := by
  obtain ⟨sent, calls, B, hlate⟩ := exists_lateReport
  obtain ⟨i, d, hbusy, -⟩ := Walker.pending_eq_some hlate.pending
  have href := board_refines id SetupAlloc.ofChannel mapsRing_ofChannel offsetsAgree_ofChannel _
    sent calls B hlate.run 3
  refine ⟨sent, calls, B, hlate, href.2 (.inr fun hrest => ?_)⟩
  rw [hrest] at hbusy
  cases hbusy

/-- **Sequential.** Where the offsets agree: whenever the thread of a channel is outside
    `xdma_xmit_pkts`, the engine is what the calls made on it leave one after the other,
    whatever the other channels did meanwhile, and the registers of the channel have the values
    these calls wrote last. -/
theorem board_sequential (virt2phy : Addr → Addr) (a : BitVec 2 → SetupAlloc)
    (hmap : ∀ c, MapsRing virt2phy (boardEngine virt2phy a c))
    (hoff : ∀ c, OffsetsAgree virt2phy (boardEngine virt2phy a c))
    (ok : BitVec 2 → TxBurst → Prop) (sent : BitVec 2 → List XdmaDesc)
    (calls : BitVec 2 → List TxBurst) (B : Board) (h : BoardRun virt2phy a ok sent calls B)
    (c : BitVec 2) (hd : (B.queue c).drv = .idle) :
    ∃ e, XmitSeq (boardEngine virt2phy a c) (calls c) e ∧ SameButWord (B.queue c).eng e ∧
      RegsOfLog c B.regs e.regWrites := by
  obtain ⟨s, hrun, href⟩ := h.refines hmap hoff c
  have hds : s.drv = .idle := by
    rw [href.drv, hd]
    rfl
  have heng := href.engine
  simp only [EngineRefines, hd] at heng
  have hseq := hrun.sequentialInv (hmap c)
  simp only [SequentialInv, hds] at hseq
  obtain ⟨e, hcalls, hsame⟩ := hseq
  rw [heng] at hsame
  have hlog : e.regWrites = (B.queue c).eng.regWrites := by
    unfold SameButWord at hsame
    rw [hsame]
    rfl
  refine ⟨e, hcalls, hsame, ?_⟩
  rw [hlog]
  exact h.regsOfLog hmap hoff c

/-- The burst of channel 3, by itself. -/
theorem board_sequential_three :
    ∃ sent calls B, LateReport sent calls B ∧
      ∃ e, XmitSeq (boardEngine id SetupAlloc.ofChannel 3) (calls 3) e ∧
        SameButWord (B.queue 3).eng e ∧ RegsOfLog 3 B.regs e.regWrites := by
  obtain ⟨sent, calls, B, hlate⟩ := exists_lateReport
  exact ⟨sent, calls, B, hlate, board_sequential id SetupAlloc.ofChannel mapsRing_ofChannel
    offsetsAgree_ofChannel _ sent calls B hlate.run 3 hlate.idle⟩

/-- **Order.** On each channel an application sends one-segment packets in bursts of its own
    sizes, all below `desc_max`.  Where the offsets agree, in every interleaving of the threads,
    their register writes and the devices, every channel delivers every segment exactly once and
    in order, exactly when no channel has two consecutive sizes. -/
theorem board_inOrder_iff (virt2phy : Addr → Addr) (a : BitVec 2 → SetupAlloc)
    (hmap : ∀ c, MapsRing virt2phy (boardEngine virt2phy a c))
    (hoff : ∀ c, OffsetsAgree virt2phy (boardEngine virt2phy a c))
    (sizes : BitVec 2 → Nat → Prop) (hlt : ∀ c n, sizes c n → n < xdmaDescMax) :
    (∀ sent calls B,
        BoardRun virt2phy a (fun c b => OneSegment b ∧ sizes c b.nbPkts) sent calls B →
        ∀ c, InOrder (sent c) (calls c) (B.queue c).view)
      ↔ ∀ c n, sizes c n → ¬ sizes c (n + 1) := by
  constructor
  · intro hord c
    apply gaps_of_inOrder (hmap c) (hlt c)
    -- A run of the queue by itself is one of its channel.
    intro sent calls s hrun
    have hlead : Leads virt2phy a (fun c b => OneSegment b ∧ sizes c b.nbPkts) c sent calls
        s.queue := TxRun.onBoard hmap hoff hrun
    obtain ⟨allSent, allCalls, B, hB, rfl, rfl, hq⟩ := hlead
    have hB' := hord allSent allCalls B hB c
    rwa [hq, view_queue] at hB'
  · intro hgap sent calls B hrun c
    obtain ⟨s, hsolo, href⟩ := hrun.refines hmap hoff c
    have hcoarse := TxRun.inOrder_of_gaps (hmap c) (hlt c) (hgap c) hsolo
    exact (inOrder_congr href.drv).mp hcoarse

/-- Bursts of 8, 10, 12 and 14 packets on the four channels. -/
theorem board_inOrder_four :
    (∀ sent calls B,
        BoardRun id SetupAlloc.ofChannel (fun c b => OneSegment b ∧ b.nbPkts = 8 + 2 * c.toNat)
          sent calls B →
        ∀ c, InOrder (sent c) (calls c) (B.queue c).view)
      ↔ ∀ (c : BitVec 2) n, n = 8 + 2 * c.toNat → ¬ n + 1 = 8 + 2 * c.toNat :=
  board_inOrder_iff id SetupAlloc.ofChannel mapsRing_ofChannel offsetsAgree_ofChannel
    (fun c n => n = 8 + 2 * c.toNat) (by
      intro c n hn
      have hc := c.isLt
      simp only [xdmaDescMax]
      omega)

end XdmaDpdk
