import XdmaDpdk.Port

namespace XdmaDpdk

/-!
# XDMA driver — queue set-up under allocation failure

A queue set-up makes three allocations: the engine, its memzone and its software ring.  This
file follows `xdma_tx_engine_setup` and `xdma_rx_engine_setup` with the results of all three
as inputs; a memzone is refused as well when its name is in use.

* `setupOn` — a set-up, which returns or dereferences a null pointer;
* `SetupAtomic` — it publishes a complete engine, or fails without a trace.

Neither set-up looks at what the allocators return.  `setupAtomic_iff`: it is atomic exactly
when all three succeed, which they do not for a channel set up before (`setupOn_again`).
-/

/-! ### Zone names -/

/-- `RTE_MEMZONE_NAMESIZE`. -/
def rteMemzoneNamesize : Nat := 32

/-- `dev->device->driver->name`. -/
def driverName : List Char := "net_xdma".toList

/-- `"TxHwRn"` and `"RxHwRn"`. -/
def ringName : DmaDataDirection → List Char
  | .h2c => "TxHwRn".toList
  | .c2h => "RxHwRn".toList

/-- The name of a queue's zone: `"%s%s%d_%u"`, cut to the buffer it is printed into. -/
def zoneName (dir : DmaDataDirection) (portId : BitVec 16) (channelId : BitVec 32) : List Char :=
  (driverName ++ ringName dir ++ Nat.toDigits 10 portId.toNat ++ '_' ::
    Nat.toDigits 10 channelId.toNat).take (rteMemzoneNamesize - 1)

/-! ### The set-up -/

/-- The device state a set-up works on: the zone names in use, the blocks allocated, the
    engines behind their pointers, the queue slots and the engine tables `engine_h2c` /
    `engine_c2h`.  A slot without engine holds 0. -/
structure SetupDev where
  portId : BitVec 16
  zones : List (List Char)
  live : List (Block × Addr)
  engineAt : Addr → Option XdmaEngine
  queues : DmaDataDirection → Nat → Addr
  engineTable : DmaDataDirection → Nat → Option XdmaEngine

/-- What the three allocations of a set-up yield, 0 and `none` for `NULL`; the zone is what
    is reserved if its name is free. -/
structure SetupResults where
  engine : Addr
  zone : Option { addr : Addr // addr.toNat % xdmaAlign = 0 }
  swRing : Addr

/-- How a set-up ends. -/
inductive SetupOutcome
  | nullDeref (d : SetupDev)
  | returned (ret : Int) (d : SetupDev)

/-- `rte_zmalloc_socket`, with the pointer it returns. -/
def rteZmallocSocket (d : SetupDev) (b : Block) (p : Addr) : SetupDev :=
  if p = 0 then d else { d with live := d.live ++ [(b, p)] }

/-- `xdma_zone_reserve`. -/
def xdmaZoneReserve (d : SetupDev) (dir : DmaDataDirection) (channelId : BitVec 32)
    (zone : Option { addr : Addr // addr.toNat % xdmaAlign = 0 }) :
    Option { addr : Addr // addr.toNat % xdmaAlign = 0 } × SetupDev :=
  match zone with
  | none => (none, d)
  | some z =>
    if zoneName dir d.portId channelId ∈ d.zones then (none, d)
    else
      (some z, { d with
        zones := d.zones ++ [zoneName dir d.portId channelId]
        live := d.live ++ [(.memzone, z.1)] })

/-- The last part of a set-up: the engine goes to the engine table and to its slot. -/
def publishEngine (d : SetupDev) (dir : DmaDataDirection) (channelId : BitVec 16) (p : Addr)
    (e : XdmaEngine) : SetupDev :=
  { d with
    engineAt := Function.update d.engineAt p (some e)
    engineTable := Function.update d.engineTable dir
      (Function.update (d.engineTable dir) channelId.toNat (some e))
    queues := Function.update d.queues dir (Function.update (d.queues dir) channelId.toNat p) }

/-- The body of the two set-ups.  The fields of the engine are written before anything else is
    allocated, and `engine->mz->addr` is read after all allocations. -/
def setupOn (virt2phy : Addr → Addr) (dir : DmaDataDirection) (d : SetupDev)
    (channelId : BitVec 16) (r : SetupResults) : SetupOutcome :=
  let d := rteZmallocSocket d .engine r.engine
  if r.engine = 0 then .nullDeref d
  else
    let (mz, d) := xdmaZoneReserve d dir (channelId.setWidth 32) r.zone
    let d := rteZmallocSocket d .swRing r.swRing
    match mz with
    | none => .nullDeref d
    | some z =>
      let e := engineSetupOf virt2phy dir channelId
        { zoneAddr := z.1, zoneAligned := z.2, swRing := r.swRing }
      .returned 0 (publishEngine d dir channelId r.engine e)

/-- `xdma_tx_engine_setup`. -/
def xdmaTxEngineSetupOn (virt2phy : Addr → Addr) : SetupDev → BitVec 16 → SetupResults →
    SetupOutcome := setupOn virt2phy .h2c

/-- `xdma_rx_engine_setup`. -/
def xdmaRxEngineSetupOn (virt2phy : Addr → Addr) : SetupDev → BitVec 16 → SetupResults →
    SetupOutcome := setupOn virt2phy .c2h

/-! ### The contract -/

/-- A complete engine of a channel: an idle one as histories start from, with memory behind
    its software ring. -/
structure EngineReady (virt2phy : Addr → Addr) (dir : DmaDataDirection) (channelId : BitVec 16)
    (e : XdmaEngine) : Prop where
  inv : EngineInv virt2phy e
  dir : e.dir = dir
  channel : e.channel.toNat = channelId.toNat
  idle : e.running = false ∧ e.completedDescCount = 0
  swRing : e.swRing ≠ 0

/-- A set-up returns 0 with a complete engine published in slot and table, or a negative value
    with both as before and everything it allocated released. -/
def SetupAtomic (virt2phy : Addr → Addr) (d : SetupDev) (dir : DmaDataDirection)
    (channelId : BitVec 16) : SetupOutcome → Prop
  | .nullDeref _ => False
  | .returned ret d' =>
    (ret = 0 ∧ ∃ e, d'.engineAt (d'.queues dir channelId.toNat) = some e ∧
      d'.engineTable dir channelId.toNat = some e ∧ EngineReady virt2phy dir channelId e) ∨
    (ret < 0 ∧ d'.queues = d.queues ∧ d'.engineTable = d.engineTable ∧ d'.live = d.live ∧
      d'.zones = d.zones)

/-- All three allocations succeed. -/
structure AllAllocated (d : SetupDev) (dir : DmaDataDirection) (channelId : BitVec 16)
    (r : SetupResults) : Prop where
  engine : r.engine ≠ 0
  zone : r.zone.isSome
  name : zoneName dir d.portId (channelId.setWidth 32) ∉ d.zones
  swRing : r.swRing ≠ 0

section
variable {virt2phy : Addr → Addr} {dir : DmaDataDirection} {d : SetupDev} {channelId : BitVec 16}
  {r : SetupResults}

@[simp] theorem portId_rteZmallocSocket (d : SetupDev) (b : Block) (p : Addr) :
    (rteZmallocSocket d b p).portId = d.portId := by
  unfold rteZmallocSocket
  split <;> rfl

@[simp] theorem zones_rteZmallocSocket (d : SetupDev) (b : Block) (p : Addr) :
    (rteZmallocSocket d b p).zones = d.zones := by
  unfold rteZmallocSocket
  split <;> rfl

/-- A zone is reserved under a free name only, which is in use from then on. -/
theorem xdmaZoneReserve_cases (d : SetupDev) (dir : DmaDataDirection) (channelId : BitVec 32)
    (zone : Option { addr : Addr // addr.toNat % xdmaAlign = 0 }) :
    ((zone = none ∨ zoneName dir d.portId channelId ∈ d.zones) ∧
        xdmaZoneReserve d dir channelId zone = (none, d)) ∨
      ∃ z, zone = some z ∧ zoneName dir d.portId channelId ∉ d.zones ∧
        (xdmaZoneReserve d dir channelId zone).1 = some z ∧
        (xdmaZoneReserve d dir channelId zone).2.portId = d.portId ∧
        (xdmaZoneReserve d dir channelId zone).2.zones
          = d.zones ++ [zoneName dir d.portId channelId] := by
  cases zone with
  | none => exact .inl ⟨.inl rfl, rfl⟩
  | some z =>
    by_cases hname : zoneName dir d.portId channelId ∈ d.zones
    · exact .inl ⟨.inr hname, by simp [xdmaZoneReserve, hname]⟩
    · exact .inr ⟨z, rfl, hname, by simp [xdmaZoneReserve, hname], by simp [xdmaZoneReserve, hname],
        by simp [xdmaZoneReserve, hname]⟩

/-- **Inversion.** A set-up returns exactly when it got its engine and its zone, whatever
    became of the software ring; it returns 0 then. -/
theorem setupOn_cases (virt2phy : Addr → Addr) (dir : DmaDataDirection) (d : SetupDev)
    (channelId : BitVec 16) (r : SetupResults) :
    ((r.engine = 0 ∨ r.zone = none ∨ zoneName dir d.portId (channelId.setWidth 32) ∈ d.zones) ∧
        ∃ d', setupOn virt2phy dir d channelId r = .nullDeref d') ∨
      ∃ z d', r.engine ≠ 0 ∧ r.zone = some z ∧
        zoneName dir d.portId (channelId.setWidth 32) ∉ d.zones ∧
        d'.portId = d.portId ∧
        d'.zones = d.zones ++ [zoneName dir d.portId (channelId.setWidth 32)] ∧
        setupOn virt2phy dir d channelId r
          = .returned 0 (publishEngine d' dir channelId r.engine
              (engineSetupOf virt2phy dir channelId
                { zoneAddr := z.1, zoneAligned := z.2, swRing := r.swRing })) := by
  by_cases heng : r.engine = 0
  · -- The engine is written to without a check.
    refine .inl ⟨.inl heng, rteZmallocSocket d .engine r.engine, ?_⟩
    simp only [setupOn, if_pos heng]
  · rcases xdmaZoneReserve_cases (rteZmallocSocket d .engine r.engine) dir (channelId.setWidth 32)
      r.zone with ⟨hno, hres⟩ | ⟨z, hz, hname, hres, hport, hzones⟩
    · rw [portId_rteZmallocSocket, zones_rteZmallocSocket] at hno
      -- No zone: the software ring is allocated all the same, then the zone is read.
      refine .inl ⟨.inr hno,
        rteZmallocSocket (rteZmallocSocket d .engine r.engine) .swRing r.swRing, ?_⟩
      simp only [setupOn, if_neg heng, hres]
    · rw [portId_rteZmallocSocket] at hname hport hzones
      rw [zones_rteZmallocSocket] at hname hzones
      refine .inr ⟨z, rteZmallocSocket (xdmaZoneReserve (rteZmallocSocket d .engine r.engine) dir
        (channelId.setWidth 32) r.zone).2 .swRing r.swRing, heng, hz, hname, ?_, ?_, ?_⟩
      · rw [portId_rteZmallocSocket, hport]
      · rw [zones_rteZmallocSocket, hzones]
      · simp only [setupOn, if_neg heng, hres]

/-- A set-up that dereferences a null pointer is not atomic. -/
theorem not_setupAtomic_of_crash {d' : SetupDev}
    (h : setupOn virt2phy dir d channelId r = .nullDeref d') :
    ¬ SetupAtomic virt2phy d dir channelId (setupOn virt2phy dir d channelId r) := by
  rw [h]
  exact False.elim

/-- The engine of a set-up is complete when it has its software ring. -/
theorem engineReady_setup (virt2phy : Addr → Addr) (dir : DmaDataDirection)
    (hch : channelId.toNat < xdmaChannelNumMax) (a : SetupAlloc) (hsw : a.swRing ≠ 0) :
    EngineReady virt2phy dir channelId (engineSetupOf virt2phy dir channelId a) := by
  have hchan : (channelId.setWidth 2).toNat = channelId.toNat := by
    rw [BitVec.toNat_setWidth]
    exact Nat.mod_eq_of_lt hch
  cases dir with
  | c2h => exact ⟨engineInv_engineSetup virt2phy .c2h channelId a, rfl, hchan, ⟨rfl, rfl⟩, hsw⟩
  | h2c => exact ⟨engineInv_engineSetup virt2phy .h2c channelId a, rfl, hchan, ⟨rfl, rfl⟩, hsw⟩

theorem engineSetupOf_swRing (virt2phy : Addr → Addr) (dir : DmaDataDirection)
    (channelId : BitVec 16) (a : SetupAlloc) :
    (engineSetupOf virt2phy dir channelId a).swRing = a.swRing := by
  cases dir <;> rfl

/-- **Channels set up before.** After a set-up that returned, every further one of the channel
    dereferences the memzone it did not get, however much memory there is. -/
theorem setupOn_again {d' : SetupDev} {ret : Int}
    (h : setupOn virt2phy dir d channelId r = .returned ret d') (r' : SetupResults) :
    ∃ d'', setupOn virt2phy dir d' channelId r' = .nullDeref d'' := by
  rcases setupOn_cases virt2phy dir d channelId r with ⟨-, d₁, hcrash⟩ |
    ⟨z, d₁, -, -, -, hport, hzones, hret⟩
  · rw [hcrash] at h
    cases h
  · rw [hret] at h
    obtain ⟨-, rfl⟩ := SetupOutcome.returned.inj h
    -- The name is in use now.
    rcases setupOn_cases virt2phy dir (publishEngine d₁ dir channelId r.engine
      (engineSetupOf virt2phy dir channelId ⟨z.1, z.2, r.swRing⟩)) channelId r' with
      ⟨-, hcrash⟩ | ⟨z', d₂, -, -, hname, -⟩
    · exact hcrash
    · have hin : zoneName dir d₁.portId (channelId.setWidth 32) ∈ d₁.zones := by
        rw [hport, hzones]
        exact List.mem_append_right _ (List.mem_singleton_self _)
      exact absurd hin hname

end

/-- **Atomic set-up.** For every device state, both directions and every outcome of the
    allocations: a set-up is atomic exactly when all of them succeed. -/
theorem setupAtomic_iff (virt2phy : Addr → Addr) (dir : DmaDataDirection) (d : SetupDev)
    (channelId : BitVec 16) (hch : channelId.toNat < xdmaChannelNumMax) (r : SetupResults) :
    SetupAtomic virt2phy d dir channelId (setupOn virt2phy dir d channelId r)
      ↔ AllAllocated d dir channelId r := by
  rcases setupOn_cases virt2phy dir d channelId r with ⟨hfail, d', hcrash⟩ |
    ⟨z, d', heng, hz, hname, -, -, hret⟩
  · constructor
    · -- A crash is none of the two ways to end.
      exact fun hatomic => absurd hatomic (not_setupAtomic_of_crash hcrash)
    · intro hall
      rcases hfail with heng | hzone | hmem
      · exact absurd heng hall.engine
      · have hsome := hall.zone
        simp [hzone] at hsome
      · exact absurd hmem hall.name
  · rw [hret]
    constructor
    · rintro (⟨-, e, hslot, -, hready⟩ | ⟨hneg, -⟩)
      · -- The published engine has the software ring it got.
        have hpub : (publishEngine d' dir channelId r.engine (engineSetupOf virt2phy dir channelId
            ⟨z.1, z.2, r.swRing⟩)).engineAt ((publishEngine d' dir channelId r.engine
            (engineSetupOf virt2phy dir channelId ⟨z.1, z.2, r.swRing⟩)).queues dir channelId.toNat)
            = some (engineSetupOf virt2phy dir channelId ⟨z.1, z.2, r.swRing⟩) := by
          simp [publishEngine]
        obtain rfl := Option.some.inj (hpub.symm.trans hslot)
        have hsw := hready.swRing
        rw [engineSetupOf_swRing] at hsw
        exact ⟨heng, by simp [hz], hname, hsw⟩
      · exact absurd hneg (by decide)
    · intro hall
      -- Slot and table are given the same engine.
      refine .inl ⟨rfl, _, ?_, ?_,
        engineReady_setup virt2phy dir hch ⟨z.1, z.2, r.swRing⟩ hall.swRing⟩
      · simp [publishEngine]
      · simp [publishEngine]

/-- A device on which nothing is set up yet. -/
def bareDev : SetupDev where
  portId := 0
  zones := []
  live := []
  engineAt := fun _ => none
  queues := fun _ _ => 0
  engineTable := fun _ _ => none

/-- Allocations that all succeed. -/
def goodResults : SetupResults where
  engine := 0x300000
  zone := some ⟨SetupAlloc.pages.zoneAddr, SetupAlloc.pages.zoneAligned⟩
  swRing := SetupAlloc.pages.swRing

/-- The first set-up of a channel. -/
theorem setupAtomic_first :
    SetupAtomic id bareDev .c2h 0 (setupOn id .c2h bareDev 0 goodResults)
      ↔ AllAllocated bareDev .c2h 0 goodResults :=
  setupAtomic_iff id .c2h bareDev 0 (by decide) goodResults

/-- The second set-up of a channel is not atomic, with all the memory it asks for. -/
theorem setupAtomic_fails :
    ¬ ∀ (virt2phy : Addr → Addr) (dir : DmaDataDirection) (d : SetupDev) (channelId : BitVec 16),
      channelId.toNat < xdmaChannelNumMax → ∀ r : SetupResults,
      SetupAtomic virt2phy d dir channelId (setupOn virt2phy dir d channelId r) := by
  intro h
  rcases setupOn_cases id .c2h bareDev 0 goodResults with ⟨hfail, -⟩ | ⟨z, d', -, -, -, -, -, hret⟩
  · rcases hfail with heng | hzone | hname
    · exact absurd heng (by decide)
    · exact absurd hzone (by simp [goodResults])
    · exact absurd hname (by simp [bareDev])
  · obtain ⟨d'', hcrash⟩ := setupOn_again hret goodResults
    exact not_setupAtomic_of_crash hcrash (h id .c2h _ 0 (by decide) goodResults)

end XdmaDpdk
