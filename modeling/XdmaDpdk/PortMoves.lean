import XdmaDpdk.RunBit

namespace XdmaDpdk

open Handles

/-!
# XDMA driver — what an operation moves

What the operations on a port can do, said once.

* `Moves` — the arena changes by calls on live engines (`QueueCall`), by faults and, in a
  close, by freeing live engines;
* `exec_cases` — every operation is a queue set-up, or it moves the arena and leaves every
  handle in its slot or nowhere (`Evolves`);
* `PortReach.inv` — slots share no engine, an engine sits in the slot of its direction and
  channel, and no two live engines share both.
-/

/-! ### Engines that stay -/

/-- Every live object of `A'` was live in `A`, with the same layout. -/
def CellsKept (A A' : Arena DevLog XdmaEngine) : Prop :=
  ∀ h e', A'.cell h = some e' → ∃ e, A.cell h = some e ∧ e'.layout = e.layout

namespace CellsKept
variable {A A' A'' : Arena DevLog XdmaEngine}

theorem refl (A : Arena DevLog XdmaEngine) : CellsKept A A := fun _ e' h => ⟨e', h, rfl⟩

theorem trans (h : CellsKept A A') (h' : CellsKept A' A'') : CellsKept A A'' := by
  intro k e'' hk
  obtain ⟨e', hk', hlay'⟩ := h' k e'' hk
  obtain ⟨e, hk, hlay⟩ := h k e' hk'
  exact ⟨e, hk, hlay'.trans hlay⟩

/-- Replacing an engine by one with its layout, or by nothing. -/
theorem put {h : Nat} {e : XdmaEngine} (hcell : A.cell h = some e) (q : DevLog × Option XdmaEngine)
    (hlay : ∀ e' ∈ q.2, e'.layout = e.layout) : CellsKept A (A.put h q) := by
  intro k e' hk
  by_cases hkh : k = h
  · subst hkh
    rw [Arena.put_cell_self] at hk
    exact ⟨e, hcell, hlay e' hk⟩
  · rw [Arena.put_cell_of_ne _ hkh] at hk
    exact ⟨e', hk, rfl⟩

end CellsKept

/-! ### Moves of the arena -/

/-- The changes of the arena in an operation; only a close (`frees`) frees. -/
inductive Moves (frees : Bool) (A : Arena DevLog XdmaEngine) : Arena DevLog XdmaEngine → Prop
  | refl : Moves frees A A
  | fault {B : Arena DevLog XdmaEngine} : Moves frees A B → Moves frees A { B with faulted := true }
  | regs {B : Arena DevLog XdmaEngine} (regs : List RegWrite) : Moves frees A B →
      (∀ dir c, runBit regs dir c = runBit B.env.regs dir c) →
      Moves frees A { B with env := { B.env with regs := regs } }
  | call {B : Arena DevLog XdmaEngine} {h : Nat} {e e' : XdmaEngine} : Moves frees A B →
      B.cell h = some e → QueueCall (e.on B.env) e' → Moves frees A (B.put h (settle B.env e'))
  | free {B : Arena DevLog XdmaEngine} {h : Nat} {e : XdmaEngine} : Moves frees A B →
      frees = true → B.cell h = some e →
      Moves frees A (B.put h
        ({ B.env with freed := B.env.freed ++ freeEvents B.env.regs h e }, none))

/-- The label of a slot is the direction of the engine in it. -/
def Labelled (A : Arena DevLog XdmaEngine) (slots : List (DmaDataDirection × Option Nat)) : Prop :=
  ∀ s ∈ slots, ∀ h e, s.2 = some h → A.cell h = some e → e.dir = s.1

theorem Labelled.append {A : Arena DevLog XdmaEngine}
    {s t : List (DmaDataDirection × Option Nat)} (hs : Labelled A s) (ht : Labelled A t) :
    Labelled A (s ++ t) := List.forall_mem_append.mpr ⟨hs, ht⟩

section
variable {frees : Bool} {A B C : Arena DevLog XdmaEngine}
  {slots : List (DmaDataDirection × Option Nat)}

theorem Labelled.kept (hA : Labelled A slots) (h : CellsKept A B) : Labelled B slots := by
  intro s hs k e hk hcell
  obtain ⟨a, ha, hlay⟩ := h k e hcell
  rw [dir_of_layout hlay]
  exact hA s hs k a hk ha

namespace Moves

theorem trans (h : Moves frees A B) (h' : Moves frees B C) : Moves frees A C := by
  induction h' with
  | refl => exact h
  | fault _ ih => exact ih.fault
  | regs regs _ hbit ih => exact ih.regs regs hbit
  | call _ hcell hcall ih => exact ih.call hcell hcall
  | free _ hfrees hcell ih => exact ih.free hfrees hcell

/-- Every live engine after was live before, with the same layout. -/
theorem kept (h : Moves frees A B) : CellsKept A B := by
  induction h with
  | refl => exact CellsKept.refl A
  | fault _ ih => exact ih
  | regs _ _ _ ih => exact ih
  | call _ hcell hcall ih =>
    apply ih.trans (CellsKept.put hcell _ _)
    intro e' he'
    obtain rfl := Option.some.inj he'
    exact hcall.onChannel.layout
  | free _ _ hcell ih => exact ih.trans (CellsKept.put hcell _ nofun)

/-- Without a close, nothing is freed. -/
theorem freed_eq (h : Moves false A B) : B.env.freed = A.env.freed := by
  induction h with
  | refl => rfl
  | fault _ ih => exact ih
  | regs _ _ _ ih => exact ih
  | call _ _ _ ih => exact ih
  | free _ hfrees _ _ => cases hfrees

/-- The stop loops. -/
theorem sweep_stop (hlab : Labelled A slots) : Moves frees A (A.sweep stopQueue slots) := by
  apply Arena.sweep_induct (P := Moves frees A) .refl
  · exact fun _ hB => hB.fault
  · intro B s h e hs hB _ hget
    obtain ⟨hslot, hcell⟩ := Arena.get_eq_some.mp hget
    -- The engine in a slot of the list is of the direction of the list.
    have hdir : e.dir = s.1 := hlab.kept hB.kept s hs h e hslot hcell
    have hstop : QueueCall (e.on B.env) (engineStopOf s.1 (e.on B.env)) := by
      rw [← hdir]
      exact QueueCall.stop
    exact hB.call hcell hstop

/-- The loops of a close. -/
theorem sweep_free (A : Arena DevLog XdmaEngine) (slots : List (DmaDataDirection × Option Nat)) :
    Moves true A (A.sweep freeQueue slots) := by
  apply Arena.sweep_induct (P := Moves true A) .refl
  · exact fun _ hB => hB.fault
  · intro B s h e _ hB _ hget
    have hcell := (Arena.get_eq_some.mp hget).2
    unfold freeQueue
    by_cases hdir : e.dir = s.1
    · rw [if_pos hdir]
      exact hB.free rfl hcell
    · -- Nothing is freed: the arena is as it was.
      rw [if_neg hdir]
      have hput : B.put h (B.env, some e) = B := by
        unfold Arena.put
        rw [← hcell, Function.update_eq_self]
      rw [hput]
      exact hB

end Moves

end

/-! ### Slots and engines -/

/-- How slots, engines and names go together. -/
structure PortInv (p : Port) : Prop where
  nb_le : ∀ dir, p.nbQueues dir ≤ xdmaChannelNumMax
  slot_lt : ∀ {dir i h}, p.queues dir i = some h → h < p.nextHandle
  cell_lt : ∀ {h e}, p.arena.cell h = some e → h < p.nextHandle
  slot_inj : ∀ {dir i dir' i' h}, p.queues dir i = some h → p.queues dir' i' = some h →
    dir = dir' ∧ i = i'
  slot_engine : ∀ {dir i h e}, p.queues dir i = some h → p.arena.cell h = some e →
    e.dir = dir ∧ e.channel.toNat = i
  name_inj : ∀ {h e h' e'}, p.arena.cell h = some e → p.arena.cell h' = some e' →
    e.dir = e'.dir → e.channel = e'.channel → h = h'

theorem portInv_probed : PortInv .probed where
  nb_le := fun _ => Nat.zero_le _
  slot_lt := nofun
  cell_lt := nofun
  slot_inj := nofun
  slot_engine := nofun
  name_inj := nofun

theorem handles_slots (p : Port) (dir : DmaDataDirection) :
    handles (p.slots dir) = (List.range (p.nbQueues dir)).filterMap (p.queues dir) := by
  unfold handles Port.slots
  rw [List.filterMap_map]
  rfl

theorem mem_slots {p : Port} {dir l : DmaDataDirection} {h : Nat} (hs : (l, some h) ∈ p.slots dir) :
    l = dir ∧ ∃ i < p.nbQueues dir, p.queues dir i = some h := by
  obtain ⟨i, hi, heq⟩ := List.mem_map.mp hs
  obtain ⟨rfl, hq⟩ := Prod.mk.injEq .. ▸ heq
  exact ⟨rfl, i, List.mem_range.mp hi, hq⟩

theorem PortInv.labelled {p : Port} (hinv : PortInv p) (dir : DmaDataDirection) :
    Labelled p.arena (p.slots dir) := by
  intro s hs h e hk hcell
  have hmem : (s.1, some h) ∈ p.slots dir := by
    rw [← hk]
    exact hs
  obtain ⟨hlabel, i, -, hi⟩ := mem_slots hmem
  rw [hlabel]
  exact (hinv.slot_engine hi hcell).1

theorem PortInv.nodup_handles {p : Port} (hinv : PortInv p) (dir : DmaDataDirection) :
    (handles (p.slots dir)).Nodup := by
  rw [handles_slots]
  apply List.Nodup.filterMap _ List.nodup_range
  intro i i' h hi hi'
  exact (hinv.slot_inj hi hi').2

/-- The two loops of a close or a stop never come to one engine twice. -/
theorem PortInv.nodup_handles_append {p : Port} (hinv : PortInv p) {dir dir' : DmaDataDirection}
    (hne : dir ≠ dir') : (handles (p.slots dir ++ p.slots dir')).Nodup := by
  rw [handles_append]
  refine List.Nodup.append (hinv.nodup_handles dir) (hinv.nodup_handles dir') ?_
  intro h hh hh'
  rw [handles_slots] at hh hh'
  obtain ⟨i, -, hi⟩ := List.mem_filterMap.mp hh
  obtain ⟨i', -, hi'⟩ := List.mem_filterMap.mp hh'
  exact hne (hinv.slot_inj hi hi').1

/-! ### Moves of the port -/

/-- What every operation but a queue set-up respects: the arena moves, there is no new
    engine, and no handle gets into another slot. -/
structure Evolves (frees : Bool) (p p' : Port) : Prop where
  next : p'.nextHandle = p.nextHandle
  allocated : p'.allocated = p.allocated
  nb : ∀ dir, p'.nbQueues dir ≤ max xdmaChannelNumMax (p.nbQueues dir)
  slots : ∀ dir i h, p'.queues dir i = some h → p.queues dir i = some h
  moves : Moves frees p.arena p'.arena

theorem PortInv.evolves {frees : Bool} {p p' : Port} (hinv : PortInv p)
    (h : Evolves frees p p') : PortInv p' where
  nb_le dir := (h.nb dir).trans (max_le le_rfl (hinv.nb_le dir))
  slot_lt hs := by
    rw [h.next]
    exact hinv.slot_lt (h.slots _ _ _ hs)
  cell_lt hc := by
    obtain ⟨e, he, -⟩ := h.moves.kept _ _ hc
    rw [h.next]
    exact hinv.cell_lt he
  slot_inj hs hs' := hinv.slot_inj (h.slots _ _ _ hs) (h.slots _ _ _ hs')
  slot_engine hs hc := by
    obtain ⟨e, he, hlay⟩ := h.moves.kept _ _ hc
    rw [dir_of_layout hlay, channel_of_layout hlay]
    exact hinv.slot_engine (h.slots _ _ _ hs) he
  name_inj hc hc' hdir hchan := by
    obtain ⟨e, he, hlay⟩ := h.moves.kept _ _ hc
    obtain ⟨e', he', hlay'⟩ := h.moves.kept _ _ hc'
    rw [dir_of_layout hlay, dir_of_layout hlay'] at hdir
    rw [channel_of_layout hlay, channel_of_layout hlay'] at hchan
    exact hinv.name_inj he he' hdir hchan

/-- A burst that returns was given the live engine of its slot. -/
theorem burstOn_cases {p p' : Port} {dir : DmaDataDirection} {queue : Nat}
    {burst : XdmaEngine → Option XdmaEngine} (h : burstOn p dir queue burst = some p') :
    ∃ k e e', p.queues dir queue = some k ∧ p.arena.cell k = some e ∧
      burst (e.on p.arena.env) = some e' ∧
      p' = { p with arena := p.arena.put k (settle p.arena.env e') } := by
  unfold burstOn at h
  cases hget : p.arena.get (p.queues dir queue) with
  | none => simp [hget] at h
  | some r =>
    rw [hget] at h
    obtain ⟨e', hb, rfl⟩ := Option.map_eq_some_iff.mp h
    obtain ⟨hslot, hcell⟩ := Arena.get_eq_some.mp hget
    exact ⟨r.1, r.2, e', hslot, hcell, hb, rfl⟩

namespace Evolves
variable {frees : Bool} {p p' p'' : Port}

theorem refl (p : Port) : Evolves frees p p :=
  ⟨rfl, rfl, fun _ => le_max_right .., fun _ _ _ h => h, .refl⟩

theorem trans (h : Evolves frees p p') (h' : Evolves frees p' p'') : Evolves frees p p'' where
  next := h'.next.trans h.next
  allocated := h'.allocated.trans h.allocated
  nb dir := by
    have h1 := h.nb dir
    have h2 := h'.nb dir
    omega
  slots dir i k hk := h.slots dir i k (h'.slots dir i k hk)
  moves := h.moves.trans h'.moves

/-- Only the arena changes. -/
theorem of_moves {A : Arena DevLog XdmaEngine} (hA : Moves frees p.arena A) :
    Evolves frees p { p with arena := A } :=
  ⟨rfl, rfl, fun _ => le_max_right .., fun _ _ _ h => h, hA⟩

theorem started (p : Port) (started : Bool) : Evolves frees p { p with devStarted := started } :=
  ⟨rfl, rfl, fun _ => le_max_right .., fun _ _ _ h => h, .refl⟩

theorem devStart (p : Port) : Evolves frees p (xdmaDevStart p) := by
  -- The two interrupt masks are no control registers.
  have huser : irqUserInterruptEnableMaskW1s % 0x100 ≠ 4 := by decide
  have hchannel : irqChannelInterruptEnableMaskW1s % 0x100 ≠ 4 := by decide
  apply of_moves
  apply Moves.refl.regs
  intro dir c
  rw [List.append_cons]
  exact (runBit_append_of_ne dir c hchannel).trans (runBit_append_of_ne dir c huser)

theorem devStop (hinv : PortInv p) : Evolves frees p (xdmaDevStop p) := by
  apply of_moves
  rw [← Arena.sweep_append]
  exact Moves.sweep_stop ((hinv.labelled .h2c).append (hinv.labelled .c2h))

theorem freeQueues (p : Port) : Evolves true p (freeQueues p) :=
  of_moves ((Moves.sweep_free _ _).trans (Moves.sweep_free _ _))

theorem devClose (hinv : PortInv p) : Evolves true p (xdmaDevClose p) := by
  refine trans ?_ (freeQueues _)
  by_cases hstart : p.devStarted = true
  · rw [if_pos hstart]
    exact devStop hinv
  · rw [if_neg hstart]
    exact refl p

theorem pmdClose (hinv : PortInv p) : Evolves true p (rtePmdXdmaDevClose p) := by
  have hflag : Evolves true p { p with devStarted := false } := started p false
  have hclose := hflag.trans (devClose (hinv.evolves hflag))
  -- Then the arrays are given back: no slot is left.
  refine hclose.trans ⟨rfl, rfl, fun _ => Nat.zero_le _, ?_, .refl⟩
  intro dir i h hslot
  cases hslot

theorem devUninit (hinv : PortInv p) : Evolves true p (xdmaEthDevUninit p) := by
  have hclose : Evolves true p (if p.devConfigured then xdmaDevClose p else p) := by
    by_cases hconf : p.devConfigured = true
    · rw [if_pos hconf]
      exact devClose hinv
    · rw [if_neg hconf]
      exact refl p
  exact hclose.trans ⟨rfl, rfl, fun _ => Nat.zero_le _, fun _ _ _ h => h, .refl⟩

theorem configure (p : Port) {nbRx nbTx : Nat}
    (hrx : queueCounts nbRx nbTx .c2h ≤ xdmaChannelNumMax)
    (htx : queueCounts nbRx nbTx .h2c ≤ xdmaChannelNumMax) :
    Evolves frees p (p.configured nbRx nbTx) := by
  refine ⟨rfl, rfl, ?_, ?_, .refl⟩
  · intro dir
    cases dir with
    | c2h => exact hrx.trans (le_max_left ..)
    | h2c => exact htx.trans (le_max_left ..)
  · intro dir i h hslot
    have hslot' : (if i < queueCounts nbRx nbTx dir then p.queues dir i else none) = some h := hslot
    split at hslot'
    · exact hslot'
    · cases hslot'

theorem start (p : Port) : Evolves frees p p.started := by
  unfold Port.started
  split
  · exact refl p
  · exact (devStart p).trans (started _ true)

theorem halt (hinv : PortInv p) : Evolves frees p p.halted := by
  unfold Port.halted
  split
  · -- The flag is cleared before the queues are stopped.
    have hflag : Evolves false p { p with devStarted := false } := started p false
    exact (started p false).trans (devStop (hinv.evolves hflag))
  · exact refl p

theorem burstOn (hinv : PortInv p) {dir : DmaDataDirection} {queue : Nat}
    {burst : XdmaEngine → Option XdmaEngine}
    (hburst : ∀ e e', e.dir = dir → burst e = some e' → QueueCall e e')
    (h : burstOn p dir queue burst = some p') : Evolves frees p p' := by
  obtain ⟨k, e, e', hslot, hcell, hb, rfl⟩ := burstOn_cases h
  have hdir : (e.on p.arena.env).dir = dir := (hinv.slot_engine hslot hcell).1
  exact of_moves (Moves.refl.call hcell (hburst _ _ hdir hb))

end Evolves

theorem PortInv.started {p : Port} (hinv : PortInv p) (started : Bool) :
    PortInv { p with devStarted := started } := by
  have hev : Evolves false p { p with devStarted := started } := Evolves.started p started
  exact hinv.evolves hev

theorem PortInv.devStop {p : Port} (hinv : PortInv p) : PortInv (xdmaDevStop p) := by
  have hev : Evolves false p (xdmaDevStop p) := Evolves.devStop hinv
  exact hinv.evolves hev

/-! ### Queue set-up -/

section
variable {virt2phy : Addr → Addr} {p : Port} {dir : DmaDataDirection} {channelId : BitVec 16}
  {a : SetupAlloc}

@[simp] theorem dir_engineSetupOf : (engineSetupOf virt2phy dir channelId a).dir = dir := by
  cases dir <;> rfl

@[simp] theorem channel_engineSetupOf :
    (engineSetupOf virt2phy dir channelId a).channel = channelId.setWidth 2 := by
  cases dir <;> rfl

@[simp] theorem running_engineSetupOf :
    (engineSetupOf virt2phy dir channelId a).running = false := by
  cases dir <;> rfl

/-- The slots after a queue set-up. -/
theorem queueSetup_slot {dir' : DmaDataDirection} {i h : Nat}
    (hs : (queueSetup virt2phy p dir channelId a).queues dir' i = some h) :
    (dir' = dir ∧ i = channelId.toNat ∧ h = p.nextHandle) ∨ p.queues dir' i = some h := by
  have hs' : Function.update p.queues dir
      (Function.update (p.queues dir) channelId.toNat (some p.nextHandle)) dir' i = some h := hs
  by_cases hdir : dir' = dir
  · subst hdir
    rw [Function.update_self] at hs'
    by_cases hi : i = channelId.toNat
    · rw [hi, Function.update_self] at hs'
      exact .inl ⟨rfl, hi, (Option.some.inj hs').symm⟩
    · rw [Function.update_of_ne hi] at hs'
      exact .inr hs'
  · rw [Function.update_of_ne hdir] at hs'
    exact .inr hs'

/-- The engines after a queue set-up. -/
theorem queueSetup_cell {h : Nat} {e : XdmaEngine}
    (hc : (queueSetup virt2phy p dir channelId a).arena.cell h = some e) :
    (h = p.nextHandle ∧ e = engineSetupOf virt2phy dir channelId a) ∨ p.arena.cell h = some e := by
  have hc' : Function.update p.arena.cell p.nextHandle
      (some (engineSetupOf virt2phy dir channelId a)) h = some e := hc
  by_cases hh : h = p.nextHandle
  · rw [hh, Function.update_self] at hc'
    exact .inl ⟨hh, (Option.some.inj hc').symm⟩
  · rw [Function.update_of_ne hh] at hc'
    exact .inr hc'

/-- No live engine has the direction and the channel of a free name. -/
theorem not_zoneTaken (hinv : PortInv p) (hfree : zoneTaken p dir channelId = false) {h : Nat}
    {e : XdmaEngine} (hc : p.arena.cell h = some e) :
    ¬ (e.dir = dir ∧ e.channel = channelId.setWidth 2) := by
  intro hname
  have hno := List.any_eq_false.mp hfree h (List.mem_range.mpr (hinv.cell_lt hc))
  simp [hc, hname] at hno

theorem PortInv.queueSetup (hinv : PortInv p) (hlt : channelId.toNat < p.nbQueues dir)
    (hfree : zoneTaken p dir channelId = false) :
    PortInv (queueSetup virt2phy p dir channelId a) where
  nb_le := hinv.nb_le
  slot_lt hs := by
    rcases queueSetup_slot hs with ⟨-, -, rfl⟩ | hs
    · exact Nat.lt_succ_self _
    · exact Nat.lt_succ_of_lt (hinv.slot_lt hs)
  cell_lt hc := by
    rcases queueSetup_cell hc with ⟨rfl, -⟩ | hc
    · exact Nat.lt_succ_self _
    · exact Nat.lt_succ_of_lt (hinv.cell_lt hc)
  slot_inj hs hs' := by
    -- The new handle is in one slot, and no old slot has it.
    rcases queueSetup_slot hs with ⟨rfl, rfl, rfl⟩ | hold <;>
      rcases queueSetup_slot hs' with ⟨rfl, rfl, hh⟩ | hold'
    · exact ⟨rfl, rfl⟩
    · exact absurd (hinv.slot_lt hold') (lt_irrefl _)
    · exact absurd (hh ▸ hinv.slot_lt hold) (lt_irrefl _)
    · exact hinv.slot_inj hold hold'
  slot_engine hs hc := by
    have hnb := hinv.nb_le dir
    unfold xdmaChannelNumMax at hnb
    rcases queueSetup_slot hs with ⟨rfl, rfl, rfl⟩ | hold <;>
      rcases queueSetup_cell hc with ⟨hh, rfl⟩ | hlive
    · refine ⟨dir_engineSetupOf, ?_⟩
      rw [channel_engineSetupOf, BitVec.toNat_setWidth]
      omega
    · exact absurd (hinv.cell_lt hlive) (lt_irrefl _)
    · exact absurd (hh ▸ hinv.slot_lt hold) (lt_irrefl _)
    · exact hinv.slot_engine hold hlive
  name_inj hc hc' hdir hchan := by
    -- The name was free, so the new engine shares it with none.
    rcases queueSetup_cell hc with ⟨rfl, rfl⟩ | hlive <;>
      rcases queueSetup_cell hc' with ⟨rfl, rfl⟩ | hlive'
    · rfl
    · rw [dir_engineSetupOf] at hdir
      rw [channel_engineSetupOf] at hchan
      exact absurd ⟨hdir.symm, hchan.symm⟩ (not_zoneTaken hinv hfree hlive')
    · rw [dir_engineSetupOf] at hdir
      rw [channel_engineSetupOf] at hchan
      exact absurd ⟨hdir, hchan⟩ (not_zoneTaken hinv hfree hlive)
    · exact hinv.name_inj hlive hlive' hdir hchan

end

/-! ### Operations -/

/-- The operations that free queues. -/
def PortOp.closes : PortOp → Bool
  | .pmdClose => true
  | .devClose => true
  | .devUninit => true
  | _ => false

theorem close_cases {op : PortOp} (hop : op.closes = true) :
    op = .pmdClose ∨ op = .devClose ∨ op = .devUninit := by
  cases op <;> simp [PortOp.closes] at hop ⊢

/-- An operation that ethdev does not refuse. -/
theorem allowed_of_some {allowed : Prop} [Decidable allowed] {p p' : Port}
    (h : (if allowed then some p else none) = some p') : allowed ∧ p' = p := by
  obtain ⟨hok, hp⟩ := Option.ite_none_right_eq_some.mp h
  exact ⟨hok, (Option.some.inj hp).symm⟩

/-- **Inversion.** An operation is an allowed queue set-up, or it moves the arena and leaves
    every handle in its place. -/
theorem exec_cases {dpdk : Dpdk} {p p' : Port} {op : PortOp} (hinv : PortInv p)
    (h : p.exec dpdk op = some p') :
    (∃ dir channelId a, op = .queueSetup dir channelId a ∧ channelId.toNat < p.nbQueues dir ∧
        zoneTaken p dir channelId = false ∧
        p' = queueSetup dpdk.virt2phy p dir channelId a) ∨
      Evolves op.closes p p' := by
  cases op with
  | configure nbRx nbTx =>
    rw [exec_configure] at h
    obtain ⟨hok, rfl⟩ := allowed_of_some h
    exact .inr (Evolves.configure p hok.2.2.1 hok.2.2.2)
  | queueSetup dir channelId a =>
    rw [exec_queueSetup] at h
    obtain ⟨hok, rfl⟩ := allowed_of_some h
    exact .inl ⟨dir, channelId, a, rfl, hok.2.1, hok.2.2, rfl⟩
  | devStart =>
    obtain rfl := Option.some.inj h
    exact .inr (Evolves.devStart p)
  | ethStart =>
    rw [exec_ethStart] at h
    obtain ⟨-, rfl⟩ := allowed_of_some h
    exact .inr (Evolves.start p)
  | recv queue m nbPkts dev =>
    have hb : burstOn p .c2h queue (fun e => some (xdmaRecvPkts e m nbPkts dev).engine)
        = some p' := h
    refine .inr (Evolves.burstOn hinv ?_ hb)
    intro e e' hdir he
    obtain rfl := Option.some.inj he
    exact .recv m nbPkts dev hdir
  | xmit queue b reads =>
    have hb : burstOn p .h2c queue (fun e => (xdmaXmitPkts e b reads).map XmitResult.engine)
        = some p' := h
    refine .inr (Evolves.burstOn hinv ?_ hb)
    intro e e' hdir he
    obtain ⟨out, hout, rfl⟩ := Option.map_eq_some_iff.mp he
    exact .xmit b reads out hdir hout
  | devStop =>
    obtain rfl := Option.some.inj h
    exact .inr (Evolves.devStop hinv)
  | ethStop =>
    rw [exec_ethStop] at h
    obtain ⟨-, rfl⟩ := allowed_of_some h
    exact .inr (Evolves.halt hinv)
  | pmdClose =>
    obtain rfl := Option.some.inj h
    exact .inr (Evolves.pmdClose hinv)
  | devClose =>
    obtain rfl := Option.some.inj h
    exact .inr (Evolves.devClose hinv)
  | devUninit =>
    obtain rfl := Option.some.inj h
    exact .inr (Evolves.devUninit hinv)

/-- **Step lemma.** -/
theorem PortInv.step {dpdk : Dpdk} {p p' : Port} {op : PortOp} (hinv : PortInv p)
    (h : p.exec dpdk op = some p') : PortInv p' := by
  rcases exec_cases hinv h with ⟨dir, channelId, a, -, hlt, hfree, rfl⟩ | hev
  · exact hinv.queueSetup hlt hfree
  · exact hinv.evolves hev

/-- **Run lemma.** -/
theorem PortReach.inv {dpdk : Dpdk} {ok : Port → PortOp → Prop} {p : Port}
    (h : PortReach dpdk ok p) : PortInv p := by
  induction h with
  | probed => exact portInv_probed
  | step op _ _ _ hexec ih => exact ih.step hexec

end XdmaDpdk
