import XdmaDpdk.PortMoves

namespace XdmaDpdk

open Handles

/-!
# XDMA driver — closing a port

When the stop and the close paths are safe: no slot without engine is used, and every block
a queue set-up allocated is freed exactly once.

* `Ledger` — along every sequence of operations each block allocated is owned by one live
  engine or was freed, once;
* `exec_faulted` — an operation that goes through the queues faults exactly when some slot
  below the counts leads to no engine (`AllLive`): a queue that was configured and not set
  up, or one that `xdma_dev_close` has freed and left in its slot;
* `LifeInv` — on a port configured once no engine is left outside the slots, so a close that
  does not fault frees them all;
* `stepSafe_iff` — so over all such sequences closing is safe exactly when every operation
  that goes through the queues is issued while all of them are set up.
-/

/-! ### The ledger -/

/-- What was freed, block by block. -/
def FreeEvent.key (ev : FreeEvent) : Nat × Block := (ev.handle, ev.block)

/-- How often a block was freed. -/
def freedCount (A : Arena DevLog XdmaEngine) (b : Nat × Block) : Nat :=
  (A.env.freed.map FreeEvent.key).count b

/-- How often a live engine owns a block. -/
def ownedCount (A : Arena DevLog XdmaEngine) (b : Nat × Block) : Nat :=
  match A.cell b.1 with
  | some e => e.blocks.count b.2
  | none => 0

theorem count_blocks (l : List Block) (h : Nat) (b : Nat × Block) :
    (l.map fun x => (h, x)).count b = if b.1 = h then l.count b.2 else 0 := by
  obtain ⟨k, x⟩ := b
  by_cases hk : k = h
  · rw [if_pos hk, hk]
    exact List.count_map_of_injective l (fun x => (h, x)) (Prod.mk_right_injective h) x
  · rw [if_neg hk]
    apply List.count_eq_zero_of_not_mem
    intro hmem
    obtain ⟨y, -, heq⟩ := List.mem_map.mp hmem
    exact hk (congrArg Prod.fst heq).symm

theorem keys_freeEvents (regs : List RegWrite) (h : Nat) (e : XdmaEngine) :
    (freeEvents regs h e).map FreeEvent.key = e.blocks.map fun x => (h, x) := by
  unfold freeEvents
  rw [List.map_map]
  rfl

theorem nodup_blocks (e : XdmaEngine) : e.blocks.Nodup := by
  unfold XdmaEngine.blocks
  split <;> decide

theorem ownedCount_put_self (A : Arena DevLog XdmaEngine) (h : Nat) (log : DevLog)
    (a : Option XdmaEngine) (x : Block) :
    ownedCount (A.put h (log, a)) (h, x) = match a with
      | some e => e.blocks.count x
      | none => 0 := by
  unfold ownedCount
  rw [Arena.put_cell_self]

theorem ownedCount_put_of_ne (A : Arena DevLog XdmaEngine) {h : Nat}
    (q : DevLog × Option XdmaEngine) {b : Nat × Block} (hne : b.1 ≠ h) :
    ownedCount (A.put h q) b = ownedCount A b := by
  unfold ownedCount
  rw [Arena.put_cell_of_ne _ hne]

/-- **Conservation.** Moving the arena, a block is freed when its engine ceases to own it, and
    then only. -/
theorem Moves.conserve {frees : Bool} {A B : Arena DevLog XdmaEngine} (h : Moves frees A B)
    (b : Nat × Block) : freedCount B b + ownedCount B b = freedCount A b + ownedCount A b := by
  induction h with
  | refl => rfl
  | fault _ ih => exact ih
  | regs _ _ _ ih => exact ih
  | @call B k e e' _ hcell hcall ih =>
    have howned : ownedCount (B.put k (settle B.env e')) b = ownedCount B b := by
      by_cases hk : b.1 = k
      · obtain ⟨_, x⟩ := b
        obtain rfl : _ = k := hk
        unfold settle
        rw [ownedCount_put_self, ownedCount, hcell]
        show e'.blocks.count x = e.blocks.count x
        rw [blocks_of_layout hcall.onChannel.layout]
        rfl
      · exact ownedCount_put_of_ne B _ hk
    rw [howned, ← ih]
    rfl
  | @free B k e _ _ hcell ih =>
    rw [← ih]
    unfold freedCount
    show ((B.env.freed ++ freeEvents B.env.regs k e).map FreeEvent.key).count b + _ = _
    rw [List.map_append, List.count_append, keys_freeEvents, count_blocks]
    by_cases hk : b.1 = k
    · obtain ⟨_, x⟩ := b
      obtain rfl : _ = k := hk
      rw [if_pos rfl, ownedCount_put_self, ownedCount, hcell]
      rfl
    · rw [if_neg hk, ownedCount_put_of_ne B _ hk, Nat.add_zero]

/-- Every block allocated is owned by a live engine or was freed, and never twice. -/
structure Ledger (p : Port) : Prop where
  conserved : ∀ b, p.allocated.count b = freedCount p.arena b + ownedCount p.arena b
  alloc_lt : ∀ b ∈ p.allocated, b.1 < p.nextHandle
  nodup : p.allocated.Nodup

theorem Ledger.evolves {frees : Bool} {p p' : Port} (hled : Ledger p) (h : Evolves frees p p') :
    Ledger p' where
  conserved b := by rw [h.allocated, hled.conserved, h.moves.conserve]
  alloc_lt b hb := by
    rw [h.next]
    rw [h.allocated] at hb
    exact hled.alloc_lt b hb
  nodup := by
    rw [h.allocated]
    exact hled.nodup

section
variable {dpdk : Dpdk} {ok : Port → PortOp → Prop} {p p' : Port} {op : PortOp}

/-- A queue set-up allocates the blocks of its engine under a new handle. -/
theorem Ledger.queueSetup {virt2phy : Addr → Addr} (hled : Ledger p) (hinv : PortInv p)
    (dir : DmaDataDirection) (channelId : BitVec 16) (a : SetupAlloc) :
    Ledger (queueSetup virt2phy p dir channelId a) where
  conserved b := by
    -- Nothing is behind the new handle yet.
    have hnew : p.arena.cell p.nextHandle = none := by
      cases hcell : p.arena.cell p.nextHandle with
      | none => rfl
      | some e => exact absurd (hinv.cell_lt hcell) (lt_irrefl _)
    show (p.allocated ++ _).count b = freedCount p.arena b + ownedCount (p.arena.put _ _) b
    rw [List.count_append, count_blocks, hled.conserved]
    by_cases hb : b.1 = p.nextHandle
    · obtain ⟨k, x⟩ := b
      obtain rfl : k = p.nextHandle := hb
      rw [if_pos rfl, ownedCount_put_self, ownedCount, hnew]
      rfl
    · rw [if_neg hb, ownedCount_put_of_ne _ _ hb, Nat.add_zero]
  alloc_lt b hb := by
    rcases List.mem_append.mp hb with hb | hb
    · exact Nat.lt_succ_of_lt (hled.alloc_lt b hb)
    · obtain ⟨x, -, rfl⟩ := List.mem_map.mp hb
      exact Nat.lt_succ_self _
  nodup := by
    refine List.Nodup.append hled.nodup
      ((nodup_blocks _).map (Prod.mk_right_injective p.nextHandle)) ?_
    intro b hb hb'
    -- The new blocks have a handle that none allocated before has.
    obtain ⟨x, -, rfl⟩ := List.mem_map.mp hb'
    exact absurd (hled.alloc_lt _ hb) (lt_irrefl _)

/-- **Run lemma.** -/
theorem PortReach.ledger (h : PortReach dpdk ok p) : Ledger p := by
  induction h with
  | probed =>
    refine ⟨fun _ => rfl, ?_, List.nodup_nil⟩
    intro b hb
    cases hb
  | step op hreach _ _ hexec ih =>
    rcases exec_cases hreach.inv hexec with ⟨dir, channelId, a, -, -, -, rfl⟩ | hev
    · exact ih.queueSetup hreach.inv dir channelId a
    · exact ih.evolves hev

/-- No block is freed twice. -/
theorem Ledger.freedCount_le (hled : Ledger p) (b : Nat × Block) : freedCount p.arena b ≤ 1 := by
  have hone := List.nodup_iff_count_le_one.mp hled.nodup b
  have hcons := hled.conserved b
  omega

/-- A live engine was allocated and has not been freed. -/
theorem Ledger.of_live (hled : Ledger p) {h : Nat} {e : XdmaEngine}
    (hcell : p.arena.cell h = some e) :
    (h, Block.engine) ∈ p.allocated ∧ freedCount p.arena (h, .engine) = 0 := by
  have howned : ownedCount p.arena (h, .engine) = 1 := by
    unfold ownedCount XdmaEngine.blocks
    rw [hcell]
    dsimp only
    split <;> rfl
  have hone := List.nodup_iff_count_le_one.mp hled.nodup (h, .engine)
  have hcons := hled.conserved (h, .engine)
  exact ⟨List.count_pos_iff.mp (by omega), by omega⟩

/-- Where no engine is live, every block allocated was freed once. -/
theorem Ledger.freedCount_eq (hled : Ledger p) (hdead : ∀ h, p.arena.cell h = none)
    {b : Nat × Block} (hb : b ∈ p.allocated) : freedCount p.arena b = 1 := by
  have howned : ownedCount p.arena b = 0 := by
    unfold ownedCount
    rw [hdead]
  have hone := List.nodup_iff_count_le_one.mp hled.nodup b
  have hpos := List.count_pos_iff.mpr hb
  have hcons := hled.conserved b
  omega

end

/-! ### Faults -/

/-- Every slot below the counts leads to an engine. -/
def AllLive (p : Port) : Prop :=
  ∀ dir, ∀ i < p.nbQueues dir, ∃ h e, p.queues dir i = some h ∧ p.arena.cell h = some e

theorem live_iff {A : Arena DevLog XdmaEngine} {l : DmaDataDirection} {slot : Option Nat} :
    A.Live (l, slot) ↔ ∃ h e, slot = some h ∧ A.cell h = some e := by
  constructor
  · rintro ⟨r, hr⟩
    obtain ⟨hslot, hcell⟩ := Arena.get_eq_some.mp hr
    exact ⟨r.1, r.2, hslot, hcell⟩
  · rintro ⟨h, e, hslot, hcell⟩
    exact ⟨(h, e), Arena.get_eq_some.mpr ⟨hslot, hcell⟩⟩

/-- The loops over both directions find an engine everywhere. -/
theorem allLive_iff {p : Port} {dir dir' : DmaDataDirection} (hne : dir ≠ dir') :
    AllLive p ↔ ∀ s ∈ p.slots dir ++ p.slots dir', p.arena.Live s := by
  have hslots : ∀ d, (∀ s ∈ p.slots d, p.arena.Live s)
      ↔ ∀ i < p.nbQueues d, ∃ h e, p.queues d i = some h ∧ p.arena.cell h = some e := by
    intro d
    unfold Port.slots
    rw [List.forall_mem_map]
    constructor
    · exact fun h i hi => live_iff.mp (h i (List.mem_range.mpr hi))
    · exact fun h i hi => live_iff.mpr (h i (List.mem_range.mp hi))
  rw [List.forall_mem_append, hslots, hslots]
  constructor
  · exact fun h => ⟨h dir, h dir'⟩
  · intro h d
    cases d <;> cases dir <;> cases dir' <;> first | exact h.1 | exact h.2 | exact absurd rfl hne

/-- The loops over both directions come to every slot. -/
theorem mem_slots_append {p : Port} {dir d d' : DmaDataDirection} {i h : Nat} (hne : d ≠ d')
    (hi : i < p.nbQueues dir) (hslot : p.queues dir i = some h) :
    (dir, some h) ∈ p.slots d ++ p.slots d' := by
  have hmem : (dir, some h) ∈ p.slots dir := by
    rw [← hslot]
    exact List.mem_map_of_mem (List.mem_range.mpr hi)
  by_cases hd : dir = d
  · exact List.mem_append_left _ (hd ▸ hmem)
  · have hd' : dir = d' := by
      cases dir <;> cases d <;> cases d' <;>
        first | rfl | exact absurd rfl hne | exact absurd rfl hd
    exact List.mem_append_right _ (hd' ▸ hmem)

/-- After a fault nothing is freed. -/
theorem freeQueues_of_faulted {p : Port} (hf : p.arena.faulted = true) :
    (freeQueues p).arena = p.arena := by
  unfold freeQueues
  rw [Arena.sweep_of_faulted hf, Arena.sweep_of_faulted hf]

section
variable {p : Port} (hinv : PortInv p) (hf : p.arena.faulted = false)
include hinv hf

theorem faulted_devStop : (xdmaDevStop p).arena.faulted = false ↔ AllLive p := by
  have hne : DmaDataDirection.h2c ≠ .c2h := by decide
  unfold xdmaDevStop
  rw [← Arena.sweep_append, Arena.sweep_faulted (hinv.nodup_handles_append hne) hf,
    allLive_iff hne]

theorem faulted_freeQueues : (freeQueues p).arena.faulted = false ↔ AllLive p := by
  have hne : DmaDataDirection.c2h ≠ .h2c := by decide
  unfold freeQueues
  rw [← Arena.sweep_append, Arena.sweep_faulted (hinv.nodup_handles_append hne) hf,
    allLive_iff hne]

/-- A stop leaves every engine in its slot. -/
theorem allLive_devStop (hall : AllLive p) : AllLive (xdmaDevStop p) := by
  have hne : DmaDataDirection.h2c ≠ .c2h := by decide
  have harena : (xdmaDevStop p).arena = p.arena.sweep stopQueue (p.slots .h2c ++ p.slots .c2h) :=
    (Arena.sweep_append ..).symm
  intro dir i hi
  obtain ⟨h, e, hslot, -⟩ := hall dir i hi
  obtain ⟨a, ha⟩ :=
    Arena.mem_reached_of_live ((allLive_iff hne).mp hall) (mem_slots_append hne hi hslot)
  obtain ⟨log, hlog⟩ :=
    Arena.sweep_cell_of_mem stopQueue (hinv.nodup_handles_append hne) hf ha
  rw [← harena] at hlog
  exact ⟨h, _, hslot, hlog⟩

theorem faulted_devClose : (xdmaDevClose p).arena.faulted = false ↔ AllLive p := by
  unfold xdmaDevClose
  by_cases hstart : p.devStarted = true
  · rw [if_pos hstart]
    cases hstop : (xdmaDevStop p).arena.faulted with
    | true =>
      -- The stop has faulted, and so has the close.
      have hno : ¬ AllLive p := by
        rw [← faulted_devStop hinv hf, hstop]
        exact Bool.noConfusion
      rw [freeQueues_of_faulted hstop, hstop]
      exact iff_of_false Bool.noConfusion hno
    | false =>
      -- The stop went through, so the close finds the same engines.
      have hall : AllLive p := (faulted_devStop hinv hf).mp hstop
      rw [faulted_freeQueues hinv.devStop hstop]
      exact iff_of_true (allLive_devStop hinv hf hall) hall
  · rw [if_neg hstart]
    exact faulted_freeQueues hinv hf

end

/-- The operation goes through the queues. -/
def UsesQueues (p : Port) : PortOp → Prop
  | .devStop => True
  | .ethStop => p.devOps = true ∧ p.devStarted = true
  | .pmdClose => True
  | .devClose => True
  | .devUninit => p.devConfigured = true
  | _ => False

theorem faulted_burstOn {p p' : Port} {dir : DmaDataDirection} {queue : Nat}
    {burst : XdmaEngine → Option XdmaEngine} (h : burstOn p dir queue burst = some p') :
    p'.arena.faulted = p.arena.faulted := by
  obtain ⟨k, e, e', -, -, -, rfl⟩ := burstOn_cases h
  rfl

/-- **Faults.** An operation faults exactly when it goes through the queues and a slot leads to
    no engine. -/
theorem exec_faulted {dpdk : Dpdk} {p p' : Port} {op : PortOp} (hinv : PortInv p)
    (hf : p.arena.faulted = false) (h : p.exec dpdk op = some p') :
    p'.arena.faulted = false ↔ (UsesQueues p op → AllLive p) := by
  cases op with
  | configure nbRx nbTx =>
    rw [exec_configure] at h
    obtain ⟨-, rfl⟩ := allowed_of_some h
    exact iff_of_true hf False.elim
  | queueSetup dir channelId a =>
    rw [exec_queueSetup] at h
    obtain ⟨-, rfl⟩ := allowed_of_some h
    exact iff_of_true hf False.elim
  | devStart =>
    obtain rfl := Option.some.inj h
    exact iff_of_true hf False.elim
  | ethStart =>
    rw [exec_ethStart] at h
    obtain ⟨-, rfl⟩ := allowed_of_some h
    unfold Port.started
    split <;> exact iff_of_true hf False.elim
  | recv queue m nbPkts dev =>
    have hb : burstOn p .c2h queue (fun e => some (xdmaRecvPkts e m nbPkts dev).engine)
        = some p' := h
    exact iff_of_true ((faulted_burstOn hb).trans hf) False.elim
  | xmit queue b reads =>
    have hb : burstOn p .h2c queue (fun e => (xdmaXmitPkts e b reads).map XmitResult.engine)
        = some p' := h
    exact iff_of_true ((faulted_burstOn hb).trans hf) False.elim
  | devStop =>
    obtain rfl := Option.some.inj h
    have huse : UsesQueues p .devStop := trivial
    exact (faulted_devStop hinv hf).trans (imp_iff_right huse).symm
  | ethStop =>
    rw [exec_ethStop] at h
    obtain ⟨hops, rfl⟩ := allowed_of_some h
    unfold Port.halted
    by_cases hstart : p.devStarted = true
    · rw [if_pos hstart]
      have huse : UsesQueues p .ethStop := ⟨hops, hstart⟩
      exact (faulted_devStop (hinv.started false) hf).trans (imp_iff_right huse).symm
    · rw [if_neg hstart]
      exact iff_of_true hf (fun huse => absurd huse.2 hstart)
  | pmdClose =>
    obtain rfl := Option.some.inj h
    have huse : UsesQueues p .pmdClose := trivial
    exact (faulted_devClose (hinv.started false) hf).trans (imp_iff_right huse).symm
  | devClose =>
    obtain rfl := Option.some.inj h
    have huse : UsesQueues p .devClose := trivial
    exact (faulted_devClose hinv hf).trans (imp_iff_right huse).symm
  | devUninit =>
    obtain rfl := Option.some.inj h
    unfold xdmaEthDevUninit
    by_cases hconf : p.devConfigured = true
    · rw [if_pos hconf]
      have huse : UsesQueues p .devUninit := hconf
      exact (faulted_devClose hinv hf).trans (imp_iff_right huse).symm
    · rw [if_neg hconf]
      exact iff_of_true hf (fun huse => absurd huse hconf)

/-! ### Ports configured once -/

/-- The port is configured at most once. -/
def ConfiguredOnce (p : Port) : PortOp → Prop
  | .configure _ _ => p.devConfigured = false
  | _ => True

/-- Before it is configured a port has no queues, and no live engine is ever left outside the
    slots a close goes through. -/
structure LifeInv (p : Port) : Prop where
  unconfigured : p.devConfigured = false → ∀ dir, p.nbQueues dir = 0
  noLeak : p.arena.faulted = false → ∀ h e, p.arena.cell h = some e →
    ∃ dir, ∃ i < p.nbQueues dir, p.queues dir i = some h

/-- The flag of the configuration, the counts and the slots are as they were. -/
structure SameArrays (p p' : Port) : Prop where
  configured : p'.devConfigured = p.devConfigured
  nb : p'.nbQueues = p.nbQueues
  queues : p'.queues = p.queues

theorem SameArrays.devClose (p : Port) : SameArrays p (xdmaDevClose p) := by
  unfold xdmaDevClose
  split <;> exact ⟨rfl, rfl, rfl⟩

/-- The operations that change the counts or the slots. -/
def PortOp.rearranges : PortOp → Bool
  | .configure _ _ => true
  | .queueSetup _ _ _ => true
  | .pmdClose => true
  | .devUninit => true
  | _ => false

theorem exec_sameArrays {dpdk : Dpdk} {p p' : Port} {op : PortOp}
    (hop : op.rearranges = false) (h : p.exec dpdk op = some p') : SameArrays p p' := by
  have hburst : ∀ dir queue burst, burstOn p dir queue burst = some p' → SameArrays p p' := by
    intro dir queue burst hb
    obtain ⟨k, e, e', -, -, -, rfl⟩ := burstOn_cases hb
    exact ⟨rfl, rfl, rfl⟩
  cases op with
  | devStart =>
    obtain rfl := Option.some.inj h
    exact ⟨rfl, rfl, rfl⟩
  | ethStart =>
    rw [exec_ethStart] at h
    obtain ⟨-, rfl⟩ := allowed_of_some h
    unfold Port.started
    split <;> exact ⟨rfl, rfl, rfl⟩
  | recv queue m nbPkts dev =>
    exact hburst .c2h queue (fun e => some (xdmaRecvPkts e m nbPkts dev).engine) h
  | xmit queue b reads =>
    exact hburst .h2c queue (fun e => (xdmaXmitPkts e b reads).map XmitResult.engine) h
  | devStop =>
    obtain rfl := Option.some.inj h
    exact ⟨rfl, rfl, rfl⟩
  | ethStop =>
    rw [exec_ethStop] at h
    obtain ⟨-, rfl⟩ := allowed_of_some h
    unfold Port.halted
    split <;> exact ⟨rfl, rfl, rfl⟩
  | devClose =>
    obtain rfl := Option.some.inj h
    exact SameArrays.devClose p
  | _ => cases hop

section
variable {p p' : Port} (hinv : PortInv p) (hlife : LifeInv p) (hf : p.arena.faulted = false)
include hinv hlife hf

/-- The loops of a close leave no engine, unless they fault. -/
theorem dead_freeQueues (hf' : (freeQueues p).arena.faulted = false) (h : Nat) :
    (freeQueues p).arena.cell h = none := by
  have hne : DmaDataDirection.c2h ≠ .h2c := by decide
  have harena : (freeQueues p).arena = p.arena.sweep freeQueue (p.slots .c2h ++ p.slots .h2c) :=
    (Arena.sweep_append ..).symm
  have hall := (allLive_iff hne).mp ((faulted_freeQueues hinv hf).mp hf')
  cases hcell : (freeQueues p).arena.cell h with
  | none => rfl
  | some e' =>
    -- It was live before, in a slot of the loops, and they freed it.
    obtain ⟨e, he, -⟩ := (Evolves.freeQueues p).moves.kept h e' hcell
    obtain ⟨dir, i, hi, hslot⟩ := hlife.noLeak hf h e he
    obtain ⟨a, ha⟩ := Arena.mem_reached_of_live hall (mem_slots_append hne hi hslot)
    obtain ⟨log, hlog⟩ :=
      Arena.sweep_cell_of_mem freeQueue (hinv.nodup_handles_append hne) hf ha
    have hadir : a.dir = dir := (hinv.slot_engine hslot (Arena.mem_reached ha).2).1
    rw [harena, hlog] at hcell
    unfold freeQueue at hcell
    rw [if_pos hadir] at hcell
    cases hcell

theorem dead_devClose (hf' : (xdmaDevClose p).arena.faulted = false) (h : Nat) :
    (xdmaDevClose p).arena.cell h = none := by
  unfold xdmaDevClose at hf' ⊢
  by_cases hstart : p.devStarted = true
  · rw [if_pos hstart] at hf' ⊢
    have hev : Evolves false p (xdmaDevStop p) := Evolves.devStop hinv
    have hstop : (xdmaDevStop p).arena.faulted = false := by
      cases hstop : (xdmaDevStop p).arena.faulted with
      | false => rfl
      | true =>
        rw [freeQueues_of_faulted hstop, hstop] at hf'
        cases hf'
    -- The stop leaves engines and slots in their places.
    have hlife' : LifeInv (xdmaDevStop p) := by
      refine ⟨hlife.unconfigured, ?_⟩
      intro _ k e' hk
      obtain ⟨e, he, -⟩ := hev.moves.kept k e' hk
      exact hlife.noLeak hf k e he
    exact dead_freeQueues hinv.devStop hlife' hstop hf' h
  · rw [if_neg hstart] at hf' ⊢
    exact dead_freeQueues hinv hlife hf hf' h

/-- Closing leaves no engine, unless it faults. -/
theorem dead_close {dpdk : Dpdk} {op : PortOp} (hop : op.closes = true)
    (hexec : p.exec dpdk op = some p') (hf' : p'.arena.faulted = false) (h : Nat) :
    p'.arena.cell h = none := by
  rcases close_cases hop with rfl | rfl | rfl
  · obtain rfl := Option.some.inj hexec
    exact dead_devClose (hinv.started false) ⟨hlife.unconfigured, hlife.noLeak⟩ hf hf' h
  · obtain rfl := Option.some.inj hexec
    exact dead_devClose hinv hlife hf hf' h
  · obtain rfl := Option.some.inj hexec
    unfold xdmaEthDevUninit at hf' ⊢
    by_cases hconf : p.devConfigured = true
    · rw [if_pos hconf] at hf' ⊢
      exact dead_devClose hinv hlife hf hf' h
    · rw [if_neg hconf]
      -- Not configured: no queue, so no engine.
      cases hcell : p.arena.cell h with
      | none => rfl
      | some e =>
        obtain ⟨dir, i, hi, -⟩ := hlife.noLeak hf h e hcell
        rw [hlife.unconfigured (Bool.eq_false_of_not_eq_true hconf) dir] at hi
        cases hi

/-- After `xdma_dev_close` the slots keep their handles and no engine is left: only a port
    without queues may be closed again. -/
theorem allLive_devClose (hf' : (xdmaDevClose p).arena.faulted = false) :
    AllLive (xdmaDevClose p) ↔ ∀ dir, p.nbQueues dir = 0 := by
  unfold AllLive
  rw [(SameArrays.devClose p).nb]
  constructor
  · intro hall dir
    by_contra hpos
    -- Slot 0 would lead to an engine, and all of them were freed.
    obtain ⟨h, e, -, hcell⟩ := hall dir 0 (Nat.pos_of_ne_zero hpos)
    rw [dead_devClose hinv hlife hf hf' h] at hcell
    cases hcell
  · intro hzero dir i hi
    rw [hzero dir] at hi
    cases hi

omit hinv hlife hf in
/-- After `rte_pmd_xdma_dev_close` there are no queues to go through: `xdma_dev_close` may be
    reached again. -/
theorem allLive_pmdClose : AllLive (rtePmdXdmaDevClose p) := by
  intro dir i hi
  cases hi

omit hinv in
/-- Operations that leave the queue arrays alone. -/
theorem LifeInv.kept (hkept : CellsKept p.arena p'.arena) (hsame : SameArrays p p') :
    LifeInv p' where
  unconfigured hno := by
    rw [hsame.configured] at hno
    rw [hsame.nb]
    exact hlife.unconfigured hno
  noLeak _ h e' hcell := by
    obtain ⟨e, he, -⟩ := hkept h e' hcell
    rw [hsame.nb, hsame.queues]
    exact hlife.noLeak hf h e he

/-- A new engine is in its slot, and overwrites no live one. -/
theorem LifeInv.queueSetup {virt2phy : Addr → Addr} {dir : DmaDataDirection}
    {channelId : BitVec 16} (hlt : channelId.toNat < p.nbQueues dir)
    (hfree : zoneTaken p dir channelId = false) (a : SetupAlloc) :
    LifeInv (queueSetup virt2phy p dir channelId a) where
  unconfigured := hlife.unconfigured
  noLeak _ h e hcell := by
    rcases queueSetup_cell hcell with ⟨rfl, -⟩ | hlive
    · refine ⟨dir, channelId.toNat, hlt, ?_⟩
      show Function.update p.queues dir _ dir channelId.toNat = _
      rw [Function.update_self, Function.update_self]
    · obtain ⟨d, i, hi, hslot⟩ := hlife.noLeak hf h e hlive
      refine ⟨d, i, hi, ?_⟩
      show Function.update p.queues dir _ d i = _
      by_cases hd : d = dir
      · subst hd
        -- The slot of the channel holds no live engine: the name was free.
        have hne : i ≠ channelId.toNat := by
          intro heq
          obtain ⟨hdir, hchan⟩ := hinv.slot_engine hslot hlive
          apply not_zoneTaken hinv hfree hlive
          refine ⟨hdir, BitVec.eq_of_toNat_eq ?_⟩
          have hnb := hinv.nb_le d
          unfold xdmaChannelNumMax at hnb
          rw [hchan, heq, BitVec.toNat_setWidth]
          omega
        rw [Function.update_self, Function.update_of_ne hne]
        exact hslot
      · rw [Function.update_of_ne hd]
        exact hslot

/-- **Step lemma.** -/
theorem LifeInv.step {dpdk : Dpdk} {op : PortOp} (hop : ConfiguredOnce p op)
    (hexec : p.exec dpdk op = some p') : LifeInv p' := by
  cases hop' : op.rearranges with
  | false =>
    rcases exec_cases hinv hexec with ⟨dir, channelId, a, rfl, -⟩ | hev
    · cases hop'
    · exact hlife.kept hf hev.moves.kept (exec_sameArrays hop' hexec)
  | true =>
    -- After a close no engine is left to be outside the slots.
    have hclosed : op.closes = true → p'.arena.faulted = false → ∀ h e,
        p'.arena.cell h = some e → ∃ dir, ∃ i < p'.nbQueues dir, p'.queues dir i = some h := by
      intro hcloses hf' h e hcell
      rw [dead_close hinv hlife hf hcloses hexec hf' h] at hcell
      cases hcell
    cases op with
    | configure nbRx nbTx =>
      rw [exec_configure] at hexec
      obtain ⟨-, rfl⟩ := allowed_of_some hexec
      refine ⟨nofun, ?_⟩
      -- Nothing was set up before.
      intro _ h e hcell
      obtain ⟨dir, i, hi, -⟩ := hlife.noLeak hf h e hcell
      rw [hlife.unconfigured hop dir] at hi
      cases hi
    | queueSetup dir channelId a =>
      rw [exec_queueSetup] at hexec
      obtain ⟨hok, rfl⟩ := allowed_of_some hexec
      exact hlife.queueSetup hinv hf hok.2.1 hok.2.2 a
    | pmdClose =>
      obtain rfl := Option.some.inj hexec
      exact ⟨fun _ _ => rfl, hclosed rfl⟩
    | devUninit =>
      obtain rfl := Option.some.inj hexec
      exact ⟨fun _ _ => rfl, hclosed rfl⟩
    | _ => cases hop'

end

/-- The policy `ok`, on a port configured at most once. -/
def Lifecycle (ok : Port → PortOp → Prop) (p : Port) (op : PortOp) : Prop :=
  ConfiguredOnce p op ∧ ok p op

section
variable {dpdk : Dpdk} {ok : Port → PortOp → Prop} {p p' : Port} {op : PortOp}

/-- **Run lemma.** -/
theorem PortReach.life (h : PortReach dpdk (Lifecycle ok) p) : LifeInv p := by
  induction h with
  | probed => exact ⟨fun _ _ => rfl, nofun⟩
  | step op hreach hf hok hexec ih => exact ih.step hreach.inv hf hok.1 hexec

/-- What a safe operation leaves: no slot without engine was used, no block was freed twice,
    and after a close every block ever allocated has been freed. -/
structure StepSafe (op : PortOp) (p' : Port) : Prop where
  noFault : p'.arena.faulted = false
  once : ∀ b, freedCount p'.arena b ≤ 1
  all : op.closes = true → ∀ b ∈ p'.allocated, freedCount p'.arena b = 1

/-- **Step lemma.** An operation is safe exactly when the queues it goes through are set up. -/
theorem stepSafe_step (hreach : PortReach dpdk (Lifecycle ok) p)
    (hf : p.arena.faulted = false) (hok : Lifecycle ok p op)
    (hexec : p.exec dpdk op = some p') : StepSafe op p' ↔ (UsesQueues p op → AllLive p) := by
  -- Short of a fault, the ledger gives the rest.
  have hled : Ledger p' := (hreach.step op hf hok hexec).ledger
  rw [← exec_faulted hreach.inv hf hexec]
  constructor
  · exact StepSafe.noFault
  · intro hf'
    refine ⟨hf', hled.freedCount_le, ?_⟩
    intro hcloses b hb
    exact hled.freedCount_eq (dead_close hreach.inv hreach.life hf hcloses hexec hf') hb

end

/-- **Closing.** Over all sequences of operations that keep to a policy and configure the port
    at most once, no operation uses a slot without engine, no block is freed twice, and a close
    leaves every block freed exactly once, exactly when the policy allows an operation that
    goes through the queues only while all of them are set up. -/
theorem stepSafe_iff (dpdk : Dpdk) (ok : Port → PortOp → Prop) :
    (∀ p op p', PortReach dpdk (Lifecycle ok) p → p.arena.faulted = false →
        Lifecycle ok p op → p.exec dpdk op = some p' → StepSafe op p')
      ↔ ∀ p op, PortReach dpdk (Lifecycle ok) p → p.arena.faulted = false →
          Lifecycle ok p op → UsesQueues p op → AllLive p := by
  constructor
  · intro hall p op hreach hf hok huse
    -- An operation that goes through the queues is never refused.
    obtain ⟨p', hexec⟩ : ∃ p', p.exec dpdk op = some p' := by
      cases op with
      | ethStop => exact ⟨_, (exec_ethStop dpdk p).trans (if_pos huse.1)⟩
      | devStop => exact ⟨_, rfl⟩
      | pmdClose => exact ⟨_, rfl⟩
      | devClose => exact ⟨_, rfl⟩
      | devUninit => exact ⟨_, rfl⟩
      | _ => exact huse.elim
    exact (stepSafe_step hreach hf hok hexec).mp (hall p op p' hreach hf hok hexec) huse
  · intro hlive p op p' hreach hf hok hexec
    exact (stepSafe_step hreach hf hok hexec).mpr (hlive p op hreach hf hok)

/-- A receive and a transmit queue are configured and only the first is set up; closing the
    port uses the empty slot. -/
theorem stepSafe_fails :
    ¬ ∀ p op p', PortReach Dpdk.plain (Lifecycle fun _ _ => True) p → p.arena.faulted = false →
        Lifecycle (fun _ _ => True) p op → p.exec Dpdk.plain op = some p' → StepSafe op p' := by
  intro hall
  have hconf : PortReach Dpdk.plain (Lifecycle fun _ _ => True)
      (Port.probed.configured 1 1) :=
    .step (.configure 1 1) .probed rfl ⟨rfl, trivial⟩ rfl
  have hsetup := hconf.step (.queueSetup .c2h 0 SetupAlloc.pages) rfl ⟨trivial, trivial⟩ rfl
  have hsafe := hall _ .pmdClose _ hsetup rfl ⟨trivial, trivial⟩ rfl
  exact absurd hsafe.noFault (by decide)

end XdmaDpdk
