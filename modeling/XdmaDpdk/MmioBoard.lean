import XdmaDpdk.QueueIsolation
import XdmaDpdk.TxSequential
import XdmaDpdk.Translate

namespace XdmaDpdk

open ChainWalker

/-!
# XDMA driver — the transmit queues of a board, register by register

`TxStep` takes the start of a channel as one step of one queue.  Here the four H2C queues of
a board take their steps together, on one file of registers, and every `xdma_reg_write` of a
start or a stop is a step of its own: a burst is staged, its addresses are written to the
registers one by one (`burstWrites`), the control register is written last, and the stop
clears the ring after its write.  A device knows of all this what the registers of its
channel say: it reacts to writes of its control register (`decode`), starts at the
descriptor its address registers name and reports to the word they name.  Where they name
anything else it may do anything to its queue (`MmioStep.astray`).

* `BoardStep` — one step of a thread or a device, or a write of another part of the driver
  to a register of no H2C channel;
* `Holds` — registers that still have the values written to them;
* `Programmed` — the address registers a device is yet to read have the right values, and
  `RegsName.of_programmed` — they then name the objects of the queue.
-/

/-! ### The writes of a burst -/

/-- The writes of `xdma_tx_engine_start` before that of the control register. -/
def txAddrWrites (e : XdmaEngine) (addr : Addr) (adj : Int) : List RegWrite :=
  let chan := e.channel.toNat * 0x100
  [⟨h2cSgdmaDescLoAddr + chan, lo32 (addr + e.virt2phyOffset)⟩,
    ⟨h2cSgdmaDescHiAddr + chan, hi32 (addr + e.virt2phyOffset)⟩,
    ⟨h2cSgdmaDescAdj + chan, BitVec.ofInt 32 (if adj > 0 then adj else 0)⟩,
    ⟨h2cPollModeLoWbAddr + chan, lo32 (e.pollModeAddrVirt + e.virt2phyOffset)⟩,
    ⟨h2cPollModeHiWbAddr + chan, hi32 (e.pollModeAddrVirt + e.virt2phyOffset)⟩]

/-- The write of a start to the control register. -/
def txRunWrite (e : XdmaEngine) : RegWrite :=
  ⟨h2cChannelCtrl + e.channel.toNat * 0x100, ctrlRunStop ||| ctrlFlags⟩

/-- The write of a stop to the control register. -/
def txHaltWrite (e : XdmaEngine) : RegWrite :=
  ⟨h2cChannelCtrl + e.channel.toNat * 0x100, ctrlFlags⟩

theorem txStartWrites_eq (e : XdmaEngine) (addr : Addr) (adj : Int) :
    txStartWrites e addr adj = txAddrWrites e addr adj ++ [txRunWrite e] := rfl

/-- The writes a burst makes between its staging and its start. -/
def burstWrites (e : XdmaEngine) (b : TxBurst) : List RegWrite :=
  txAddrWrites (xmitStage e b).2 ((xmitStage e b).2.descAddr 0)
    (((xmitStage e b).1.length : Int) - 2)

/-- The writes that name the first descriptor. -/
def descWrites (e : XdmaEngine) : List RegWrite :=
  [⟨h2cSgdmaDescLoAddr + e.channel.toNat * 0x100, lo32 (e.descAddr 0 + e.virt2phyOffset)⟩,
    ⟨h2cSgdmaDescHiAddr + e.channel.toNat * 0x100, hi32 (e.descAddr 0 + e.virt2phyOffset)⟩]

/-- The writes that name the poll-mode word. -/
def pollWrites (e : XdmaEngine) : List RegWrite :=
  [⟨h2cPollModeLoWbAddr + e.channel.toNat * 0x100, lo32 (e.pollModeAddrVirt + e.virt2phyOffset)⟩,
    ⟨h2cPollModeHiWbAddr + e.channel.toNat * 0x100, hi32 (e.pollModeAddrVirt + e.virt2phyOffset)⟩]

/-- The writes the device goes by. -/
def addrWrites (e : XdmaEngine) : List RegWrite := descWrites e ++ pollWrites e

/-! ### Queues and boards -/

/-- Where a thread is in `xdma_xmit_pkts`: outside, with writes of its start still to make,
    in the wait loop, past its exit test, in the stop with the ring still to clear, or with
    the bookkeeping still to do. -/
inductive MmioDriver
  | idle
  | programming (b : TxBurst) (todo : List RegWrite)
  | polling (b : TxBurst)
  | exited
  | clearing
  | stopping

/-- A queue, its device and its thread. -/
structure MmioQueue where
  eng : XdmaEngine
  hw : Walker Nat XdmaDesc
  drv : MmioDriver

/-- The registers of the config BAR and the H2C queues. -/
structure Board where
  regs : Nat → BitVec 32
  queue : BitVec 2 → MmioQueue

/-- What the device of H2C channel `c` makes of a register write. -/
def decode (c : BitVec 2) (w : RegWrite) (hw : Walker Nat XdmaDesc) : Walker Nat XdmaDesc :=
  if w.offset = h2cChannelCtrl + c.toNat * 0x100 then
    if (w.val &&& ctrlRunStop) != 0 then hw.start else hw.stop
  else hw

/-- A write reaches the register file and the device of a channel. -/
def MmioQueue.see (q : MmioQueue) (c : BitVec 2) (w : RegWrite) : MmioQueue :=
  { q with hw := decode c w q.hw }

/-- A write on the bus. -/
def Board.write (B : Board) (w : RegWrite) : Board where
  regs := Function.update B.regs w.offset w.val
  queue c := (B.queue c).see c w

/-- At most one write on the bus. -/
def Board.bus (B : Board) : Option RegWrite → Board
  | none => B
  | some w => B.write w

/-- Another state of one queue. -/
def Board.put (B : Board) (c : BitVec 2) (q : MmioQueue) : Board :=
  { B with queue := Function.update B.queue c q }

/-! ### Steps -/

/-- The address in a pair of registers of channel `c`. -/
def addrAt (regs : Nat → BitVec 32) (hi lo : Nat) (c : BitVec 2) : Addr :=
  addrOf (regs (hi + c.toNat * 0x100)) (regs (lo + c.toNat * 0x100))

/-- The registers of channel `c` name the first descriptor of the queue, where its device is
    yet to take up a start, and the poll-mode word. -/
structure RegsName (virt2phy : Addr → Addr) (c : BitVec 2) (regs : Nat → BitVec 32)
    (q : MmioQueue) : Prop where
  first : q.hw.kick = true →
    addrAt regs h2cSgdmaDescHiAddr h2cSgdmaDescLoAddr c = virt2phy (q.eng.descAddr 0)
  word : addrAt regs h2cPollModeHiWbAddr h2cPollModeLoWbAddr c = virt2phy q.eng.pollModeAddrVirt

/-- One step of the thread or the device of channel `c`, with the register write it makes.
    The bursts that may be submitted are `ok`. -/
inductive MmioStep (virt2phy : Addr → Addr) (ok : TxBurst → Prop) (c : BitVec 2)
    (regs : Nat → BitVec 32) : MmioQueue → MmioQueue → Option RegWrite → Prop
  | stage (q : MmioQueue) (b : TxBurst) (hd : q.drv = .idle) (hr : q.eng.running = false)
      (hok : ok b) :
      MmioStep virt2phy ok c regs q
        { q with eng := (xmitStage q.eng b).2, drv := .programming b (burstWrites q.eng b) } none
  | program (q : MmioQueue) (b : TxBurst) (w : RegWrite) (todo : List RegWrite)
      (hd : q.drv = .programming b (w :: todo)) :
      MmioStep virt2phy ok c regs q
        { q with eng := xdmaRegWrite q.eng w.offset w.val, drv := .programming b todo } (some w)
  | start (q : MmioQueue) (b : TxBurst) (hd : q.drv = .programming b []) :
      MmioStep virt2phy ok c regs q
        { q with
          eng := xdmaRegWrite q.eng (txRunWrite q.eng).offset (txRunWrite q.eng).val
          drv := .polling b } (some (txRunWrite q.eng))
  | busy (q : MmioQueue) (hr : q.eng.running = true) : MmioStep virt2phy ok c regs q q none
  | exit (q : MmioQueue) (b : TxBurst) (hd : q.drv = .polling b)
      (ht : txExitTest q.eng.completedDescCount b.nbPkts = true) :
      MmioStep virt2phy ok c regs q { q with drv := .exited } none
  | halt (q : MmioQueue) (hd : q.drv = .exited) :
      MmioStep virt2phy ok c regs q
        { q with
          eng := xdmaRegWrite q.eng (txHaltWrite q.eng).offset (txHaltWrite q.eng).val
          drv := .clearing } (some (txHaltWrite q.eng))
  | clear (q : MmioQueue) (hd : q.drv = .clearing) :
      MmioStep virt2phy ok c regs q { q with eng := xdmaDescRingClear q.eng, drv := .stopping } none
  | reset (q : MmioQueue) (hd : q.drv = .stopping) :
      MmioStep virt2phy ok c regs q { q with eng := engineReset q.eng, drv := .idle } none
  | device (q : MmioQueue) (hw' : Walker Nat XdmaDesc) (count' : Nat)
      (hname : RegsName virt2phy c regs q)
      (h : Step (txRules virt2phy q.eng) q.eng.descRing (q.hw, q.eng.completedDescCount)
        (hw', count')) :
      MmioStep virt2phy ok c regs q { q with eng := q.eng.withWord count', hw := hw' } none
  -- A device with other addresses than those of its queue.
  | astray (q q' : MmioQueue) (hname : ¬ RegsName virt2phy c regs q)
      (hact : q.hw.kick = true ∨ q.hw.phase ≠ .halted) (hd : q'.drv = q.drv) :
      MmioStep virt2phy ok c regs q q' none

/-- One step of the board. -/
inductive BoardStep (virt2phy : Addr → Addr) (ok : BitVec 2 → TxBurst → Prop) :
    Board → Board → Prop
  | queue (B : Board) (c : BitVec 2) (q : MmioQueue) (out : Option RegWrite)
      (h : MmioStep virt2phy (ok c) c B.regs (B.queue c) q out) :
      BoardStep virt2phy ok B ((B.put c q).bus out)
  | other (B : Board) (w : RegWrite) (hw : ∀ c, inWindow .h2c c w.offset = false) :
      BoardStep virt2phy ok B (B.write w)

/-- The engine of channel `c`, just set up. -/
def boardEngine (virt2phy : Addr → Addr) (a : BitVec 2 → SetupAlloc) (c : BitVec 2) : XdmaEngine :=
  xdmaTxEngineSetup virt2phy (c.setWidth 16) (a c)

/-- A board just set up, with anything in its registers, and devices that were never
    started. -/
def Board.init (virt2phy : Addr → Addr) (a : BitVec 2 → SetupAlloc) (regs : Nat → BitVec 32) :
    Board where
  regs := regs
  queue c := { eng := boardEngine virt2phy a c, hw := Walker.idle, drv := .idle }

@[simp] theorem channel_boardEngine (virt2phy : Addr → Addr) (a : BitVec 2 → SetupAlloc)
    (c : BitVec 2) : (boardEngine virt2phy a c).channel = c := by
  show (c.setWidth 16).setWidth 2 = c
  rw [BitVec.setWidth_setWidth_of_le c (by decide), BitVec.setWidth_eq]

/-! ### What a write reaches -/

theorem decode_of_ne {c : BitVec 2} {w : RegWrite} (h : w.offset ≠ h2cChannelCtrl + c.toNat * 0x100)
    (hw : Walker Nat XdmaDesc) : decode c w hw = hw := if_neg h

theorem decode_run {c : BitVec 2} {e : XdmaEngine} (h : e.channel = c) (hw : Walker Nat XdmaDesc) :
    decode c (txRunWrite e) hw = hw.start := by
  subst h
  exact (if_pos rfl).trans (if_pos (show ((ctrlRunStop ||| ctrlFlags) &&& ctrlRunStop != 0) = true
    by decide))

theorem decode_halt {c : BitVec 2} {e : XdmaEngine} (h : e.channel = c) (hw : Walker Nat XdmaDesc) :
    decode c (txHaltWrite e) hw = hw.stop := by
  subst h
  exact (if_pos rfl).trans (if_neg (show ¬ (ctrlFlags &&& ctrlRunStop != 0) = true by decide))

theorem inWindow_ctrl (c : BitVec 2) :
    inWindow .h2c c (h2cChannelCtrl + c.toNat * 0x100) = true := inWindow_add (by decide) c

/-- A device does not see what is written outside its window. -/
theorem decode_of_outside {c : BitVec 2} {w : RegWrite} (h : inWindow .h2c c w.offset = false)
    (hw : Walker Nat XdmaDesc) : decode c w hw = hw := by
  apply decode_of_ne
  intro heq
  rw [heq, inWindow_ctrl] at h
  exact absurd h (by decide)

theorem MmioQueue.see_of_outside {c : BitVec 2} {w : RegWrite}
    (h : inWindow .h2c c w.offset = false) (q : MmioQueue) : q.see c w = q := by
  unfold MmioQueue.see
  rw [decode_of_outside h]

theorem MmioQueue.see_of_ne {c : BitVec 2} {w : RegWrite}
    (h : w.offset ≠ h2cChannelCtrl + c.toNat * 0x100) (q : MmioQueue) : q.see c w = q := by
  unfold MmioQueue.see
  rw [decode_of_ne h]

/-! ### Registers that keep their values -/

/-- The registers have the values written to them. -/
def Holds (regs : Nat → BitVec 32) (ws : List RegWrite) : Prop :=
  ∀ w ∈ ws, regs w.offset = w.val

section
variable {regs : Nat → BitVec 32} {ws : List RegWrite} {w : RegWrite}

/-- A write keeps the values it does not change. -/
theorem Holds.update (h : Holds regs ws) (hsame : ∀ w' ∈ ws, w'.offset = w.offset → w' = w) :
    Holds (Function.update regs w.offset w.val) ws := by
  intro w' hw'
  by_cases heq : w'.offset = w.offset
  · rw [hsame w' hw' heq, Function.update_self]
  · rw [Function.update_of_ne heq]
    exact h w' hw'

/-- Writes outside the window keep all values in it. -/
theorem Holds.update_outside {c : BitVec 2} (h : Holds regs ws) (hws : Within .h2c c ws)
    (hout : inWindow .h2c c w.offset = false) :
    Holds (Function.update regs w.offset w.val) ws := by
  apply h.update
  intro w' hw' heq
  have hin := hws w' hw'
  rw [heq, hout] at hin
  exact absurd hin (by decide)

/-- The next of a list of writes to different registers. -/
theorem Holds.next {todo : List RegWrite} (h : Holds regs ws)
    (hnodup : ((ws ++ w :: todo).map RegWrite.offset).Nodup) :
    Holds (Function.update regs w.offset w.val) (ws ++ [w]) := by
  have hinj := List.inj_on_of_nodup_map hnodup
  intro w' hw'
  -- No register of the list is written twice.
  rcases List.mem_append.mp hw' with hold | hnew
  · refine h.update (fun v hv heq => hinj ?_ ?_ heq) w' hold
    · exact List.mem_append_left _ hv
    · exact List.mem_append_right _ (List.mem_cons_self ..)
  · rw [List.mem_singleton.mp hnew, Function.update_self]

end

/-! ### The registers of a burst -/

theorem descWrites_frame {e e' : XdmaEngine} (hf : Frame e e') : descWrites e' = descWrites e := by
  unfold descWrites
  rw [channel_of_layout hf.layout, hf.descAddr, hf.offset]

theorem pollWrites_frame {e e' : XdmaEngine} (hf : Frame e e') : pollWrites e' = pollWrites e := by
  unfold pollWrites
  rw [channel_of_layout hf.layout, hf.pollAddr, hf.offset]

theorem addrWrites_frame {e e' : XdmaEngine} (hf : Frame e e') : addrWrites e' = addrWrites e := by
  unfold addrWrites
  rw [descWrites_frame hf, pollWrites_frame hf]

section
variable (e : XdmaEngine) (b : TxBurst)

theorem mem_txAddrWrites {e : XdmaEngine} {addr : Addr} {adj : Int} {w : RegWrite}
    (h : w ∈ txAddrWrites e addr adj) :
    ∃ base, (base = h2cSgdmaDescLoAddr ∨ base = h2cSgdmaDescHiAddr ∨ base = h2cSgdmaDescAdj ∨
      base = h2cPollModeLoWbAddr ∨ base = h2cPollModeHiWbAddr) ∧
      w.offset = base + e.channel.toNat * 0x100 := by
  simp only [txAddrWrites, List.mem_cons, List.not_mem_nil, or_false] at h
  rcases h with rfl | rfl | rfl | rfl | rfl <;> exact ⟨_, by decide, rfl⟩

theorem nodup_txAddrWrites (addr : Addr) (adj : Int) :
    ((txAddrWrites e addr adj).map RegWrite.offset).Nodup := by
  simp [txAddrWrites, h2cSgdmaDescLoAddr, h2cSgdmaDescHiAddr, h2cSgdmaDescAdj,
    h2cPollModeLoWbAddr, h2cPollModeHiWbAddr]

theorem nodup_burstWrites : ((burstWrites e b).map RegWrite.offset).Nodup :=
  nodup_txAddrWrites (xmitStage e b).2 _ _

/-- None of them is a control register. -/
theorem ne_ctrl_of_mem {e : XdmaEngine} {addr : Addr} {adj : Int} {w : RegWrite}
    (h : w ∈ txAddrWrites e addr adj) (c : BitVec 2) :
    w.offset ≠ h2cChannelCtrl + c.toNat * 0x100 := by
  obtain ⟨base, hbase, hoff⟩ := mem_txAddrWrites h
  rw [hoff]
  simp only [h2cSgdmaDescLoAddr, h2cSgdmaDescHiAddr, h2cSgdmaDescAdj, h2cPollModeLoWbAddr,
    h2cPollModeHiWbAddr] at hbase
  simp only [h2cChannelCtrl]
  omega

/-- They all belong to the channel of the engine. -/
theorem within_txAddrWrites {e : XdmaEngine} {c : BitVec 2} (hchan : e.channel = c) (addr : Addr)
    (adj : Int) : Within .h2c c (txAddrWrites e addr adj) := by
  intro w hw
  obtain ⟨base, hbase, hoff⟩ := mem_txAddrWrites hw
  rw [hoff, hchan]
  apply inWindow_add
  rcases hbase with rfl | rfl | rfl | rfl | rfl <;> decide

theorem within_burstWrites {e : XdmaEngine} {c : BitVec 2} (hchan : e.channel = c) (b : TxBurst) :
    Within .h2c c (burstWrites e b) :=
  within_txAddrWrites ((channel_of_layout (frame_xmitStage e b).layout).trans hchan) _ _

theorem addrWrites_subset (adj : Int) : addrWrites e ⊆ txAddrWrites e (e.descAddr 0) adj := by
  intro w hw
  simp only [addrWrites, descWrites, pollWrites, List.mem_append, List.mem_cons,
    List.not_mem_nil, or_false] at hw
  rcases hw with (rfl | rfl) | rfl | rfl <;> simp [txAddrWrites]

/-- A burst writes what the device goes by. -/
theorem addrWrites_subset_burstWrites : addrWrites e ⊆ burstWrites e b := by
  have hf := frame_xmitStage e b
  have heq : addrWrites (xmitStage e b).2 = addrWrites e := addrWrites_frame hf
  rw [← heq]
  exact addrWrites_subset (xmitStage e b).2 _

/-- What a burst writes does not depend on the word. -/
theorem burstWrites_withWord {e : XdmaEngine} (hused : e.descUsed = 0) (hmax : 0 < e.descMax)
    (b : TxBurst) (count : Nat) : burstWrites (e.withWord count) b = burstWrites e b := by
  unfold burstWrites
  rw [xmitStage_eq (e.withWord count) b hused hmax, xmitStage_eq e b hused hmax]
  rfl

theorem xmitStage_withWord {e : XdmaEngine} (hused : e.descUsed = 0) (hmax : 0 < e.descMax)
    (b : TxBurst) (count : Nat) :
    (xmitStage (e.withWord count) b).2 = (xmitStage e b).2.withWord count := by
  rw [xmitStage_eq (e.withWord count) b hused hmax, xmitStage_eq e b hused hmax]
  rfl

/-- Staging a burst and making all its writes is `xmitStart`. -/
theorem xmitStart_writes {e : XdmaEngine} (hused : e.descUsed = 0) (hmax : 0 < e.descMax)
    (b : TxBurst) :
    (xmitStart e b).2 = (xmitStage e b).2.withRegs
      (e.regWrites ++ burstWrites e b ++ [txRunWrite (xmitStage e b).2]) := by
  rw [xmitStart_engine, xdmaTxEngineStart_eq, txStartWrites_eq]
  unfold burstWrites
  rw [xmitStage_eq e b hused hmax, List.append_assoc]
  rfl

end

/-! ### What a device reads -/

/-- Where the device of the engine is yet to read an address register, it has the value that
    the start of a burst writes. -/
structure Programmed (regs : Nat → BitVec 32) (e : XdmaEngine) (hw : Walker Nat XdmaDesc) :
    Prop where
  first : hw.kick = true → Holds regs (descWrites e)
  word : hw.kick = true ∨ hw.phase ≠ .halted → Holds regs (pollWrites e)

section
variable {regs : Nat → BitVec 32} {e e' : XdmaEngine} {hw : Walker Nat XdmaDesc}

theorem Programmed.frame (h : Programmed regs e hw) (hf : Frame e e') : Programmed regs e' hw := by
  refine ⟨fun hk => ?_, fun hact => ?_⟩
  · rw [descWrites_frame hf]
    exact h.first hk
  · rw [pollWrites_frame hf]
    exact h.word hact

/-- Writes that agree with them keep the address registers. -/
theorem Programmed.update (h : Programmed regs e hw) {w : RegWrite}
    (hsame : ∀ w' ∈ addrWrites e, w'.offset = w.offset → w' = w) :
    Programmed (Function.update regs w.offset w.val) e hw where
  first hk := (h.first hk).update fun w' hw' => hsame w' (List.mem_append_left _ hw')
  word hact := (h.word hact).update fun w' hw' => hsame w' (List.mem_append_right _ hw')

/-- So do writes to other registers. -/
theorem Programmed.update_of_ne (h : Programmed regs e hw) {w : RegWrite}
    (hne : ∀ w' ∈ addrWrites e, w'.offset ≠ w.offset) :
    Programmed (Function.update regs w.offset w.val) e hw :=
  h.update fun w' hw' heq => absurd heq (hne w' hw')

/-- A device step reads what was to be read before it. -/
theorem Programmed.device {R : Rules Nat XdmaDesc} {mem : Nat → XdmaDesc}
    {hw' : Walker Nat XdmaDesc} {x x' : Nat} (h : Programmed regs e hw)
    (hs : Step R mem (hw, x) (hw', x')) : Programmed regs e hw' where
  first hk := h.first (hs.kick_of_kick hk)
  word _ := h.word hs.active

theorem addrAt_of_holds {hi lo : Nat} {c : BitVec 2} {p : Addr}
    (h : Holds regs [⟨lo + c.toNat * 0x100, lo32 p⟩, ⟨hi + c.toNat * 0x100, hi32 p⟩]) :
    addrAt regs hi lo c = p := by
  have hlo := h _ (List.mem_cons_self ..)
  have hhi := h _ (List.mem_cons_of_mem _ (List.mem_cons_self ..))
  unfold addrAt
  rw [hlo, hhi]
  exact addrOf_hi_lo p

/-- **Addresses.** When the offsets of the queue are right, a device that may act finds the
    objects of its queue named. -/
theorem RegsName.of_programmed {virt2phy : Addr → Addr} {c : BitVec 2} {q : MmioQueue}
    (h : Programmed regs e q.hw) (hf : Frame e q.eng) (hchan : e.channel = c)
    (hoffset : e.virt2phyOffset = virt2phy e.swRing - e.swRing) (hoff : OffsetsAgree virt2phy e)
    (hact : q.hw.kick = true ∨ q.hw.phase ≠ .halted) : RegsName virt2phy c regs q := by
  subst hchan
  -- What the driver writes is the address plus the offset of the ring.
  obtain ⟨hring, hword⟩ := hoff
  constructor
  · intro hk
    rw [addrAt_of_holds (h.first hk), hoffset, hf.descAddr]
    exact (add_offset_eq_iff _ _ _).mpr hring
  · rw [addrAt_of_holds (h.word hact), hoffset, hf.pollAddr]
    exact (add_offset_eq_iff _ _ _).mpr hword

end

end XdmaDpdk
