import XdmaDpdk.History
import Mathlib.Data.List.Pairwise

namespace XdmaDpdk

/-!
# XDMA driver — the layout of a queue's zone

The byte ranges of the reserved memzone that the driver reads, or gives the device to write
(`zoneRanges`): the descriptors and the poll-mode word where the set-up places them, and on
C2H the stream write-back record where the burst paths address it.

The set-up counts in `sizeof(struct xdma_desc)`, the burst paths in `XDMA_DESC_SIZE`, twice
that.  `zoneSafe_iff`: the ranges lie in the zone and are disjoint for the H2C engines and
for no C2H engine, whose record starts at 2080 of a zone of 1036 bytes.
-/

/-! ### Byte ranges -/

/-- `len` bytes from `addr` on. -/
structure ByteRange where
  addr : Addr
  len : Nat

namespace ByteRange

/-- The range lies in the reserved bytes of the zone. -/
def Within (mz : RteMemzone) (r : ByteRange) : Prop :=
  mz.addr.toNat ≤ r.addr.toNat ∧ r.addr.toNat + r.len ≤ mz.addr.toNat + mz.len

/-- The ranges have no byte in common. -/
def Disjoint (r s : ByteRange) : Prop :=
  r.addr.toNat + r.len ≤ s.addr.toNat ∨ s.addr.toNat + s.len ≤ r.addr.toNat

end ByteRange

/-- Addresses of the zone's page do not wrap: the zone starts on a page boundary. -/
theorem RteMemzone.toNat_add (mz : RteMemzone) (k : Nat) (hk : k < xdmaAlign) :
    (mz.addr + BitVec.ofNat 64 k).toNat = mz.addr.toNat + k := by
  have haligned := mz.aligned
  have hlt := mz.addr.isLt
  simp only [xdmaAlign] at haligned hk
  rw [BitVec.toNat_add, BitVec.toNat_ofNat]
  omega

/-! ### The ranges of an engine -/

def descRange (e : XdmaEngine) (i : Nat) : ByteRange := ⟨e.descAddr i, sizeofXdmaDesc⟩

def pollRange (e : XdmaEngine) : ByteRange := ⟨e.pollModeAddrVirt, sizeofXdmaPollWb⟩

def streamWbRange (e : XdmaEngine) : ByteRange := ⟨e.streamWbAddr, sizeofXdmaC2hStreamWb⟩

/-- What the driver uses of the zone, or gives the device to use. -/
def zoneRanges (e : XdmaEngine) : List ByteRange :=
  (List.range e.descMax).map (descRange e) ++ pollRange e ::
    (match e.dir with
      | .h2c => []
      | .c2h => [streamWbRange e])

/-- Every range lies in the zone, and no two of them meet. -/
def ZoneSafe (e : XdmaEngine) : Prop :=
  (∀ r ∈ zoneRanges e, r.Within e.mz) ∧ (zoneRanges e).Pairwise ByteRange.Disjoint

section
variable {virt2phy : Addr → Addr} {e : XdmaEngine}

theorem toNat_descAddr (h : LayoutInv virt2phy e.layout) (i : Nat) (hi : i < xdmaDescMax) :
    (e.descAddr i).toNat = e.mz.addr.toNat + 32 * i := by
  have hring : e.descRingAddr = e.mz.addr := h.ringAddr
  simp only [xdmaDescMax] at hi
  unfold XdmaEngine.descAddr sizeofXdmaDesc
  rw [hring]
  exact e.mz.toNat_add (32 * i) (by simp only [xdmaAlign]; omega)

theorem toNat_pollAddr (h : LayoutInv virt2phy e.layout) :
    e.pollModeAddrVirt.toNat = e.mz.addr.toNat + 1024 := by
  have hpoll : e.pollModeAddrVirt = e.mz.addr + BitVec.ofNat 64 1024 := h.pollAddr
  rw [hpoll]
  exact e.mz.toNat_add 1024 (by decide)

/-- The record as the burst paths address it, 64 bytes a descriptor. -/
theorem toNat_streamWbAddr (h : LayoutInv virt2phy e.layout) :
    e.streamWbAddr.toNat = e.mz.addr.toNat + 2080 := by
  have hring : e.descRingAddr = e.mz.addr := h.ringAddr
  have hmax : e.descMax = 32 := h.descMax
  unfold XdmaEngine.streamWbAddr
  rw [hring, hmax]
  exact e.mz.toNat_add 2080 (by decide)

/-- The descriptors are laid out one after the other. -/
theorem descRanges_pairwise (h : LayoutInv virt2phy e.layout) :
    ((List.range e.descMax).map (descRange e)).Pairwise ByteRange.Disjoint := by
  have hmax : e.descMax = xdmaDescMax := h.descMax
  rw [List.pairwise_map]
  apply (List.pairwise_lt_range (n := e.descMax)).imp_of_mem
  intro i j hi hj hij
  rw [List.mem_range, hmax] at hi hj
  left
  simp only [descRange, toNat_descAddr h i hi, toNat_descAddr h j hj, sizeofXdmaDesc]
  omega

/-- The H2C layout: 32 descriptors and the poll-mode word fill the zone. -/
theorem zoneSafe_of_h2c (h : LayoutInv virt2phy e.layout) (hdir : e.dir = .h2c) : ZoneSafe e := by
  have hmax : e.descMax = xdmaDescMax := h.descMax
  have hlen : e.mz.len = 1028 := by
    have hzone : e.mz.len = zoneSize e.dir := h.zoneLen
    rw [hzone, hdir]
    decide
  have hranges : zoneRanges e = (List.range e.descMax).map (descRange e) ++ [pollRange e] := by
    unfold zoneRanges
    rw [hdir]
  unfold ZoneSafe
  rw [hranges]
  constructor
  · intro r hr
    rw [List.mem_append, List.mem_map, List.mem_singleton] at hr
    rcases hr with ⟨i, hi, rfl⟩ | rfl
    · -- The descriptors take the first 1024 bytes.
      rw [List.mem_range, hmax] at hi
      simp only [ByteRange.Within, descRange, toNat_descAddr h i hi, hlen, sizeofXdmaDesc]
      simp only [xdmaDescMax] at hi
      omega
    · -- The word takes the last four.
      simp only [ByteRange.Within, pollRange, toNat_pollAddr h, hlen, sizeofXdmaPollWb]
      omega
  · rw [List.pairwise_append]
    refine ⟨descRanges_pairwise h, List.pairwise_singleton _ _, ?_⟩
    intro r hr s hs
    rw [List.mem_map] at hr
    obtain ⟨i, hi, rfl⟩ := hr
    rw [List.mem_singleton] at hs
    subst hs
    rw [List.mem_range, hmax] at hi
    left
    simp only [descRange, pollRange, toNat_descAddr h i hi, toNat_pollAddr h, sizeofXdmaDesc]
    simp only [xdmaDescMax] at hi
    omega

/-- The C2H record starts past the end of the zone. -/
theorem not_within_streamWbRange (h : LayoutInv virt2phy e.layout) (hdir : e.dir = .c2h) :
    ¬ (streamWbRange e).Within e.mz := by
  have hlen : e.mz.len = 1036 := by
    have hzone : e.mz.len = zoneSize e.dir := h.zoneLen
    rw [hzone, hdir]
    decide
  simp only [ByteRange.Within, streamWbRange, toNat_streamWbAddr h, hlen]
  omega

theorem not_zoneSafe_of_c2h (h : LayoutInv virt2phy e.layout) (hdir : e.dir = .c2h) :
    ¬ ZoneSafe e := by
  rintro ⟨hwithin, -⟩
  apply not_within_streamWbRange h hdir
  apply hwithin
  unfold zoneRanges
  rw [hdir]
  simp

end

/-- **The zone layout.** Over any history of any queue, the ranges in use lie in the reserved
    zone and are disjoint exactly on the H2C engines. -/
theorem zoneSafe_iff (virt2phy : Addr → Addr) (e : XdmaEngine) (h : EngineReach virt2phy e) :
    ZoneSafe e ↔ e.dir = .h2c := by
  cases hdir : e.dir with
  | h2c => exact iff_of_true (zoneSafe_of_h2c h.inv.layout hdir) rfl
  | c2h => exact iff_of_false (not_zoneSafe_of_c2h h.inv.layout hdir) (by simp)

/-- A fresh C2H engine. -/
theorem zoneSafe_rxSetup :
    ZoneSafe (xdmaRxEngineSetup id 0 SetupAlloc.pages)
      ↔ (xdmaRxEngineSetup id 0 SetupAlloc.pages).dir = .h2c :=
  zoneSafe_iff id _ (EngineReach.rxSetup 0 SetupAlloc.pages)

/-- The record of a fresh C2H engine lies outside its zone. -/
theorem zoneSafe_fails :
    ¬ ∀ (virt2phy : Addr → Addr) (e : XdmaEngine), EngineReach virt2phy e → ZoneSafe e := by
  intro h
  have hreach : EngineReach id (xdmaRxEngineSetup id 0 SetupAlloc.pages) :=
    EngineReach.rxSetup 0 SetupAlloc.pages
  exact not_zoneSafe_of_c2h hreach.inv.layout rfl (h id _ hreach)

end XdmaDpdk
