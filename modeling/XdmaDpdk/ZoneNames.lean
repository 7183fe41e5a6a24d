import XdmaDpdk.QueueAlloc
import XdmaDpdk.Lib.CNumeral

namespace XdmaDpdk

open CNumeral

/-!
# XDMA driver — zone names

The memzone of a queue is reserved under a name made of the driver's name, the ring's name, the
port and the channel, and a name in use is refused.  All ports of a process share the names.

* `ZoneKey` — direction, port and channel, which the name is made of;
* `length_text_lt`, `text_injective` — the name fits its buffer, and the key can be read off it;
* `SetupSys.setups` — queue set-ups on any ports, one after the other;
* `setups_isSome_iff` — with memory for all, they go through exactly when no queue is set up
  twice, or was set up before.
-/

/-! ### Names -/

/-- What the name of a zone is made of. -/
structure ZoneKey where
  dir : DmaDataDirection
  portId : BitVec 16
  channelId : BitVec 32
deriving DecidableEq

namespace ZoneKey

/-- What `snprintf` would print into a buffer of any size. -/
def text (k : ZoneKey) : List Char :=
  driverName ++ ringName k.dir ++ Nat.toDigits 10 k.portId.toNat ++ '_' ::
    Nat.toDigits 10 k.channelId.toNat

def name (k : ZoneKey) : List Char := zoneName k.dir k.portId k.channelId

theorem name_eq_take (k : ZoneKey) : k.name = k.text.take (rteMemzoneNamesize - 1) := rfl

theorem length_ringName (dir : DmaDataDirection) : (ringName dir).length = 6 := by
  cases dir <;> decide

theorem ringName_injective : Function.Injective ringName := by
  intro dir dir' h
  cases dir <;> cases dir'
  · rfl
  · exact absurd h (by decide)
  · exact absurd h (by decide)
  · rfl

/-- Two names of 14 characters, five digits, a separator and ten digits at most. -/
theorem length_text_lt (k : ZoneKey) : k.text.length < rteMemzoneNamesize := by
  have hdriver : driverName.length = 8 := by decide
  have hport : (Nat.toDigits 10 k.portId.toNat).length ≤ 5 :=
    (Nat.length_toDigits_le_iff (by decide) (by decide)).mpr
      (Nat.lt_of_lt_of_le k.portId.isLt (by decide))
  have hchannel : (Nat.toDigits 10 k.channelId.toNat).length ≤ 10 :=
    (Nat.length_toDigits_le_iff (by decide) (by decide)).mpr
      (Nat.lt_of_lt_of_le k.channelId.isLt (by decide))
  simp only [text, List.length_append, List.length_cons, hdriver, length_ringName,
    rteMemzoneNamesize]
  omega

/-- Nothing is cut off. -/
theorem name_eq_text (k : ZoneKey) : k.name = k.text := by
  have hlen := k.length_text_lt
  rw [name_eq_take]
  exact List.take_of_length_le (by omega)

/-- The key can be read off the name: the ring name has a fixed length, and the separator ends
    the digits of the port. -/
theorem text_injective : Function.Injective text := by
  intro k k' h
  have hlist : driverName ++ (ringName k.dir ++ (Nat.toDigits 10 k.portId.toNat ++ '_' ::
        Nat.toDigits 10 k.channelId.toNat))
      = driverName ++ (ringName k'.dir ++ (Nat.toDigits 10 k'.portId.toNat ++ '_' ::
        Nat.toDigits 10 k'.channelId.toNat)) := by
    simpa [text] using h
  -- The ring name ends at a fixed place, the port at the separator.
  obtain ⟨hring, hnumbers⟩ := List.append_inj (List.append_cancel_left hlist)
    ((length_ringName k.dir).trans (length_ringName k'.dir).symm)
  obtain ⟨hport, hdigits⟩ := toDigits_append_inj (by decide : '_'.isDigit = false) hnumbers
  have hchannel := toDigits_injective hdigits
  obtain ⟨dir, portId, channelId⟩ := k
  obtain ⟨dir', portId', channelId'⟩ := k'
  obtain rfl := ringName_injective hring
  obtain rfl := BitVec.eq_of_toNat_eq hport
  obtain rfl := BitVec.eq_of_toNat_eq hchannel
  rfl

theorem name_injective : Function.Injective name := by
  intro k k' h
  rw [name_eq_text, name_eq_text] at h
  exact text_injective h

end ZoneKey

/-! ### Set-ups on the ports of a process -/

/-- Names, blocks and engines belong to the process, queue slots and engine tables to its
    ports. -/
structure SetupSys where
  zones : List (List Char)
  live : List (Block × Addr)
  engineAt : Addr → Option XdmaEngine
  queues : BitVec 16 → DmaDataDirection → Nat → Addr
  engineTable : BitVec 16 → DmaDataDirection → Nat → Option XdmaEngine

/-- One port of the process. -/
def SetupSys.dev (s : SetupSys) (portId : BitVec 16) : SetupDev where
  portId := portId
  zones := s.zones
  live := s.live
  engineAt := s.engineAt
  queues := s.queues portId
  engineTable := s.engineTable portId

/-- The process after a set-up on one of its ports. -/
def SetupSys.put (s : SetupSys) (portId : BitVec 16) (d : SetupDev) : SetupSys where
  zones := d.zones
  live := d.live
  engineAt := d.engineAt
  queues := Function.update s.queues portId d.queues
  engineTable := Function.update s.engineTable portId d.engineTable

/-- A queue set-up, with the results of its allocations. -/
structure SetupCall where
  dir : DmaDataDirection
  portId : BitVec 16
  channelId : BitVec 16
  results : SetupResults

/-- The key of the zone, with the channel as the `uint32_t` it is passed as. -/
def SetupCall.key (c : SetupCall) : ZoneKey where
  dir := c.dir
  portId := c.portId
  channelId := c.channelId.setWidth 32

/-- There is memory for the engine and for the zone. -/
def SetupCall.HasMemory (c : SetupCall) : Prop := c.results.engine ≠ 0 ∧ c.results.zone.isSome

namespace SetupSys
variable (virt2phy : Addr → Addr) (s : SetupSys)

/-- `none` when the set-up dereferences a null pointer. -/
def setup (c : SetupCall) : Option SetupSys :=
  match setupOn virt2phy c.dir (s.dev c.portId) c.channelId c.results with
  | .nullDeref _ => none
  | .returned _ d => some (s.put c.portId d)

/-- Set-ups one after the other. -/
def setups : SetupSys → List SetupCall → Option SetupSys
  | s, [] => some s
  | s, c :: calls => (setup virt2phy s c).bind fun s' => setups s' calls

/-- **Step lemma.**  With memory, a set-up goes through exactly when its name is free, and the
    name is in use after it. -/
theorem setup_cases {c : SetupCall} (hmem : c.HasMemory) :
    (c.key.name ∈ s.zones ∧ setup virt2phy s c = none) ∨
      (c.key.name ∉ s.zones ∧
        ∃ s', setup virt2phy s c = some s' ∧ s'.zones = s.zones ++ [c.key.name]) := by
  obtain ⟨hengine, hzone⟩ := hmem
  unfold setup
  rcases setupOn_cases virt2phy c.dir (s.dev c.portId) c.channelId c.results with
    ⟨hfail, d, hcrash⟩ | ⟨z, d, -, -, hname, -, hzones, hret⟩
  · rw [hcrash]
    rcases hfail with hnull | hnone | hin
    · exact absurd hnull hengine
    · rw [hnone] at hzone
      cases hzone
    · exact .inl ⟨hin, rfl⟩
  · rw [hret]
    exact .inr ⟨hname, _, rfl, hzones⟩

variable {virt2phy} {s}

/-- The names in use after a run are those before it and those of its queues. -/
theorem zones_setups {calls : List SetupCall} (hmem : ∀ c ∈ calls, c.HasMemory) {s' : SetupSys}
    (h : setups virt2phy s calls = some s') :
    s'.zones = s.zones ++ calls.map fun c => c.key.name := by
  induction calls generalizing s with
  | nil =>
    cases h
    simp
  | cons c calls ih =>
    rw [setups] at h
    obtain ⟨hc, hcalls⟩ := List.forall_mem_cons.mp hmem
    obtain ⟨s₁, hstep, hrest⟩ := Option.bind_eq_some_iff.mp h
    have hzones := ih hcalls hrest
    rcases setup_cases virt2phy s hc with ⟨-, hcrash⟩ | ⟨-, s₂, hstep', hnew⟩
    · rw [hcrash] at hstep
      cases hstep
    · cases hstep.symm.trans hstep'
      -- The rest of the run starts from the names after its first set-up.
      rw [hzones, hnew]
      simp

/-- **Run lemma.**  With memory for all, a run of set-ups goes through iff its queues are
    distinct and none of them is set up before. -/
theorem setups_isSome_iff {calls : List SetupCall} (hmem : ∀ c ∈ calls, c.HasMemory) :
    (setups virt2phy s calls).isSome
      ↔ (calls.map SetupCall.key).Nodup ∧ ∀ c ∈ calls, c.key.name ∉ s.zones := by
  induction calls generalizing s with
  | nil => simp [setups]
  | cons c calls ih =>
    obtain ⟨hc, hcalls⟩ := List.forall_mem_cons.mp hmem
    rcases setup_cases virt2phy s hc with ⟨hin, hcrash⟩ | ⟨hfree, s', hstep, hzones⟩
    · rw [setups, hcrash]
      simp [hin]
    · -- The names taken from here on have to differ from the one just taken as well.
      have hnames : ∀ c' : SetupCall,
          c'.key.name ∉ s'.zones ↔ c'.key.name ∉ s.zones ∧ c'.key ≠ c.key := by
        intro c'
        rw [hzones, List.mem_append, List.mem_singleton, not_or, ZoneKey.name_injective.eq_iff]
      rw [setups, hstep, Option.bind_some, ih hcalls]
      simp only [hnames, List.map_cons, List.nodup_cons, List.mem_map, List.mem_cons,
        forall_eq_or_imp, hfree, not_false_eq_true, true_and, not_exists, not_and]
      constructor
      · rintro ⟨hnodup, hall⟩
        exact ⟨⟨fun c' hc' => (hall c' hc').2, hnodup⟩, fun c' hc' => (hall c' hc').1⟩
      · rintro ⟨⟨hne, hnodup⟩, hall⟩
        exact ⟨hnodup, fun c' hc' => ⟨hall c' hc', hne c' hc'⟩⟩

end SetupSys

/-! ### The result -/

/-- **Zone names.**  For every ring, port and channel the name is printed in full; distinct
    triples have distinct names; and set-ups of distinct queues with memory for all of them go
    through, each under a name of its own. -/
theorem zoneNames_distinct :
    (∀ k : ZoneKey, k.text.length < rteMemzoneNamesize ∧
      zoneName k.dir k.portId k.channelId = k.text) ∧
    (∀ k k' : ZoneKey, k ≠ k' →
      zoneName k.dir k.portId k.channelId ≠ zoneName k'.dir k'.portId k'.channelId) ∧
    (∀ (virt2phy : Addr → Addr) (s : SetupSys) (calls : List SetupCall),
      (∀ c ∈ calls, c.HasMemory) → (∀ c ∈ calls, c.key.name ∉ s.zones) →
      (calls.map SetupCall.key).Nodup →
      ∃ s', s.setups virt2phy calls = some s' ∧
        s'.zones = s.zones ++ calls.map (fun c => c.key.name) ∧
        (calls.map fun c => c.key.name).Nodup) := by
  refine ⟨fun k => ⟨k.length_text_lt, k.name_eq_text⟩, ?_, ?_⟩
  · intro k k' hne hname
    exact hne (ZoneKey.name_injective hname)
  · intro virt2phy s calls hmem hfree hnodup
    obtain ⟨s', hrun⟩ := Option.isSome_iff_exists.mp
      ((SetupSys.setups_isSome_iff hmem).mpr ⟨hnodup, hfree⟩)
    refine ⟨s', hrun, SetupSys.zones_setups hmem hrun, ?_⟩
    have hnames := hnodup.map ZoneKey.name_injective
    rwa [List.map_map] at hnames

/-- A process before its first set-up. -/
def bareSys : SetupSys where
  zones := []
  live := []
  engineAt := fun _ => none
  queues := fun _ _ _ => 0
  engineTable := fun _ _ _ => none

/-- Both rings of one channel on two ports. -/
def fourSetups : List SetupCall :=
  [⟨.h2c, 0, 1, goodResults⟩, ⟨.c2h, 0, 1, goodResults⟩, ⟨.h2c, 1, 1, goodResults⟩,
    ⟨.c2h, 1, 1, goodResults⟩]

theorem zoneNames_distinct_fourSetups :
    ∃ s', bareSys.setups id fourSetups = some s' ∧
      s'.zones = ["net_xdmaTxHwRn0_1".toList, "net_xdmaRxHwRn0_1".toList,
        "net_xdmaTxHwRn1_1".toList, "net_xdmaRxHwRn1_1".toList] := by
  have hmem : ∀ c ∈ fourSetups, c.HasMemory := by
    intro c hc
    have hresults : c.results = goodResults := by
      simp only [fourSetups, List.mem_cons, List.not_mem_nil, or_false] at hc
      rcases hc with rfl | rfl | rfl | rfl <;> rfl
    simp only [SetupCall.HasMemory, hresults]
    exact ⟨by decide, rfl⟩
  obtain ⟨s', hrun, hzones, -⟩ := zoneNames_distinct.2.2 id bareSys fourSetups hmem
    (fun c _ => List.not_mem_nil) (by decide)
  refine ⟨s', hrun, hzones.trans ?_⟩
  decide

end XdmaDpdk
