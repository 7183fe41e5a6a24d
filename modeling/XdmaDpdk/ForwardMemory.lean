import XdmaDpdk.RxProgress
import XdmaDpdk.TxDelivery
import XdmaDpdk.Lib.ByteStore

namespace XdmaDpdk

open StableRead ChainWalker ByteStore

/-!
# XDMA test application — the memory between two ports

The two channels behind `fpga_to_fpga`, the C2H channel of the source queue and the H2C
channel of the destination queue, with the host memory between them (`Fabric`).  When the
source device completes a descriptor the next packet is at its destination address and the
length in the write-back record; while the descriptor is in its hand it may write anything
there.  When the destination device completes a descriptor the bytes at its source address
have left, as the memory has them then.

The descriptors share one write-back record, so a burst gets the right lengths only from
packets of one length: all packets have `len` bytes.  Packet number `m` of the run is
received into slot `m % 32` of the array.

* `Stored` — the packets from number `lo` on are in their buffers as they arrived: the source
  device only writes to the slot after the last one it reported;
* `Leaving` — the first `n` packets were handed to the destination queue, and what left are
  the first packets that arrived;
* `FabricInv.step` — every step of the two devices keeps both.
-/

/-! ### The two channels -/

/-- The channels, the memory and the write-back record between them, the packets that arrived
    at the one device, and those that left the other, each with its end-of-packet mark. -/
structure Fabric where
  chan : RxChannel
  tx : TxSys
  bytes : Addr → BitVec 8
  record : XdmaC2hStreamWb
  arrived : List (List (BitVec 8))
  departed : List (List (BitVec 8) × Bool)

/-- What completed H2C descriptors put on the line: the bytes at their source addresses. -/
def loaded (bytes : Addr → BitVec 8) (l : List XdmaDesc) : List (List (BitVec 8) × Bool) :=
  (carried l).map (fun g => (load g.1.1 g.1.2.toNat bytes, g.2))

/-- One step of one of the devices, while the source queue has the engine `e`. -/
inductive FabricStep (virt2phy : Addr → Addr) (len : Nat) (e : XdmaEngine) :
    Fabric → Fabric → Prop
  | walk (f : Fabric) (c : RxChannel) (hs : RxChannelStep virt2phy e f.chan c)
      (hnone : f.chan.hw.handed c.hw = []) :
      FabricStep virt2phy len e f { f with chan := c }
  | dma (f : Fabric) (d : XdmaDesc) (bytes : Addr → BitVec 8) (hd : f.chan.hw.hand = some d)
      (hout : ∀ x, x ∉ cells d.dstAddr d.len.toNat → bytes x = f.bytes x) :
      FabricStep virt2phy len e f { f with bytes := bytes }
  | fill (f : Fabric) (c : RxChannel) (d : XdmaDesc) (p : List (BitVec 8)) (control : BitVec 32)
      (hs : RxChannelStep virt2phy e f.chan c) (hone : f.chan.hw.handed c.hw = [d])
      (hp : p.length = len) :
      FabricStep virt2phy len e f
        { f with
          chan := c
          bytes := store d.dstAddr p f.bytes
          record := if d.srcAddr = virt2phy e.streamWbAddr then ⟨control, BitVec.ofNat 32 p.length⟩
            else f.record
          arrived := f.arrived ++ [p] }
  | send (f : Fabric) (hw' : Walker Nat XdmaDesc) (count' : Nat)
      (hs : Step (txRules virt2phy f.tx.eng) f.tx.eng.descRing
        (f.tx.hw, f.tx.eng.completedDescCount) (hw', count')) :
      FabricStep virt2phy len e f
        { f with
          tx := { f.tx with eng := f.tx.eng.withWord count', hw := hw' }
          departed := f.departed ++ loaded f.bytes (f.tx.hw.handed hw') }

/-- The C2H channel takes a step of its own, or none. -/
theorem FabricStep.chan {virt2phy : Addr → Addr} {len : Nat} {e : XdmaEngine} {f f' : Fabric}
    (h : FabricStep virt2phy len e f f') :
    Relation.ReflTransGen (RxChannelStep virt2phy e) f.chan f'.chan := by
  cases h with
  | walk c hs hnone => exact Relation.ReflTransGen.single hs
  | dma d bytes hd hout => exact Relation.ReflTransGen.refl
  | fill c d p control hs hone hp => exact Relation.ReflTransGen.single hs
  | send hw' count' hs => exact Relation.ReflTransGen.refl

/-- The thread of the transmit call is not moved. -/
theorem FabricStep.drv {virt2phy : Addr → Addr} {len : Nat} {e : XdmaEngine} {f f' : Fabric}
    (h : FabricStep virt2phy len e f f') : f'.tx.drv = f.tx.drv := by
  cases h <;> rfl

/-! ### The set-up -/

/-- Two queues just set up, the mbufs and the array of the loop, and the length of the
    packets. -/
structure ForwardConfig where
  virt2phy : Addr → Addr
  rxChannel : BitVec 16
  txChannel : BitVec 16
  rxAlloc : SetupAlloc
  txAlloc : SetupAlloc
  heap : Heap
  pkts : Nat → MbufPtr
  len : Nat

namespace ForwardConfig

def rxEngine (cfg : ForwardConfig) : XdmaEngine :=
  xdmaRxEngineSetup cfg.virt2phy cfg.rxChannel cfg.rxAlloc

def txEngine (cfg : ForwardConfig) : XdmaEngine :=
  xdmaTxEngineSetup cfg.virt2phy cfg.txChannel cfg.txAlloc

/-- The bus address of the buffer in slot `i` of the array. -/
def slotAddr (cfg : ForwardConfig) (i : Nat) : Addr := (cfg.heap (cfg.pkts i)).dataIova

/-- Packet number `m` as a segment of a transmit burst. -/
def segment (cfg : ForwardConfig) (m : Nat) : (Addr × BitVec 32) × Bool :=
  ((cfg.slotAddr (m % xdmaDescMax), BitVec.ofNat 32 cfg.len), true)

/-- The rings are mapped, the buffers do not overlap, the write-backs reach the record the
    driver reads, and a packet fits a descriptor. -/
structure Fits (cfg : ForwardConfig) : Prop where
  mapsRx : MapsRing cfg.virt2phy cfg.rxEngine
  mapsTx : MapsRing cfg.virt2phy cfg.txEngine
  len : cfg.len ≤ 64
  apart : ∀ i < xdmaDescMax, ∀ j < xdmaDescMax, i ≠ j →
    ∀ x ∈ cells (cfg.slotAddr i) 64, x ∉ cells (cfg.slotAddr j) 64
  record : ∀ i < xdmaDescMax, cfg.rxEngine.streamWbAddr + (cfg.heap (cfg.pkts i)).vir2phy
    = cfg.virt2phy cfg.rxEngine.streamWbAddr

theorem Fits.len_lt {cfg : ForwardConfig} (h : cfg.Fits) : cfg.len ≤ 2 ^ 64 :=
  h.len.trans (by decide)

theorem Fits.toNat_len {cfg : ForwardConfig} (h : cfg.Fits) :
    (BitVec.ofNat 32 cfg.len).toNat = cfg.len := by
  have hlen := h.len
  rw [BitVec.toNat_ofNat]
  exact Nat.mod_eq_of_lt (by omega)

/-- Different slots hold different mbufs. -/
theorem Fits.distinct {cfg : ForwardConfig} (h : cfg.Fits) :
    ∀ i < xdmaDescMax, ∀ j < xdmaDescMax, cfg.pkts i = cfg.pkts j → i = j := by
  intro i hi j hj heq
  by_contra hne
  -- One mbuf in two slots would make their buffers overlap.
  have hmem : cfg.slotAddr i ∈ cells (cfg.slotAddr i) 64 := by
    rw [mem_cells (by decide), sub_self]
    decide
  have hout := h.apart i hi j hj hne _ hmem
  unfold slotAddr at hmem hout
  rw [← heq] at hout
  exact hout hmem

end ForwardConfig

/-! ### The source side -/

/-- The ring of `e` posts the buffers of the array. -/
def Posted (cfg : ForwardConfig) (e : XdmaEngine) : Prop :=
  ∀ i < xdmaDescMax, (e.descRing i).dstAddr = cfg.slotAddr i ∧
    (e.descRing i).srcAddr = cfg.virt2phy e.streamWbAddr ∧ (e.descRing i).len = 64

/-- A round on the buffers of the array, that began with no packet from number `lo` on
    received. -/
structure Feeding (cfg : ForwardConfig) (e : XdmaEngine) (lo : Nat) (before : List Addr)
    (c : RxChannel) : Prop where
  round : Round cfg.virt2phy e before c
  posted : Posted cfg e
  whole : before.length % xdmaDescMax = 0
  le : before.length ≤ lo

/-- The source device is at rest, or in a round. -/
def Feeds (cfg : ForwardConfig) (e : XdmaEngine) (lo : Nat) (c : RxChannel) : Prop :=
  (c.hw.kick = false ∧ c.hw.phase = .halted) ∨ ∃ before, Feeding cfg e lo before c

/-- The packets from number `lo` on are in the buffers of their slots, and the record holds
    their length. -/
structure Stored (cfg : ForwardConfig) (lo : Nat) (f : Fabric) : Prop where
  count : f.arrived.length = f.chan.filled.length
  bytes : ∀ m, lo ≤ m → ∀ h : m < f.arrived.length,
    load (cfg.slotAddr (m % xdmaDescMax)) cfg.len f.bytes = f.arrived[m]
  record : f.arrived ≠ [] → f.record.len = BitVec.ofNat 32 cfg.len

section
variable {cfg : ForwardConfig} {virt2phy : Addr → Addr} {e : XdmaEngine} {lo : Nat}
  {before : List Addr} {c c' : RxChannel} {f f' : Fabric}

/-- The descriptor in the device's hand is the one after the last reported. -/
theorem Round.hand_eq (h : Round virt2phy e before c) {d : XdmaDesc} (hd : c.hw.hand = some d) :
    c.word < xdmaDescMax ∧ d = e.descRing c.word := by
  cases hk : c.hw.kick with
  | true =>
    -- Before it takes up its start the device is at rest.
    obtain ⟨i, hp⟩ := Walker.hand_eq_some.mp hd
    have hphase := (h.filling.waiting hk).1
    exact absurd (hp.symm.trans hphase) (by simp)
  | false =>
    -- Walking: the word counts the descriptors completed.
    obtain ⟨hon, hword, -⟩ := h.filling.walking hk
    obtain ⟨hle, hmem⟩ := hon.hand_eq hd
    rw [hword]
    exact ⟨Nat.lt_of_le_of_lt hle (by decide), hmem⟩

/-- A completion hands out the descriptor in hand. -/
theorem RxChannelStep.hand_of_handed (hs : RxChannelStep virt2phy e c c') {d : XdmaDesc}
    (hone : c.hw.handed c'.hw = [d]) : c.hw.hand = some d := by
  cases hs with
  | step hw' word' hs =>
    rcases hs.handed_eq with hnil | ⟨d', hd', hone'⟩
    · exact absurd (hnil.symm.trans hone) (by simp)
    · rw [hd', (List.cons.inj (hone'.symm.trans hone)).1]

/-- What a step adds to the addresses written to. -/
theorem RxChannelStep.filled (hs : RxChannelStep virt2phy e c c') :
    c'.filled = c.filled ++ (c.hw.handed c'.hw).map XdmaDesc.dstAddr := by
  cases hs
  rfl

/-- The number of packets that arrived. -/
theorem Feeding.count (h : Feeding cfg e lo before f.chan) (hst : Stored cfg lo f) :
    f.arrived.length = before.length + f.chan.word := by
  rw [hst.count, h.round.filling.filled_eq, List.length_append, length_firstAddrs]

/-- The descriptor in hand is that of the slot of the next packet. -/
theorem Feeding.hand (h : Feeding cfg e lo before f.chan) (hst : Stored cfg lo f) {d : XdmaDesc}
    (hd : f.chan.hw.hand = some d) :
    d.dstAddr = cfg.slotAddr (f.arrived.length % xdmaDescMax) ∧
      d.srcAddr = cfg.virt2phy e.streamWbAddr ∧ d.len.toNat = 64 := by
  obtain ⟨hlt, rfl⟩ := h.round.hand_eq hd
  obtain ⟨hdst, hsrc, hlen⟩ := h.posted f.chan.word hlt
  have hslot : f.arrived.length % xdmaDescMax = f.chan.word := by
    rw [h.count hst, Nat.add_mod, h.whole, Nat.zero_add, Nat.mod_mod, Nat.mod_eq_of_lt hlt]
  rw [hslot, hlen]
  exact ⟨hdst, hsrc, rfl⟩

/-- That slot is none of those of the packets still held. -/
theorem Feeding.slot_ne (h : Feeding cfg e lo before f.chan) (hst : Stored cfg lo f) {d : XdmaDesc}
    (hd : f.chan.hw.hand = some d) {m : Nat} (hlo : lo ≤ m) (hm : m < f.arrived.length) :
    m % xdmaDescMax ≠ f.arrived.length % xdmaDescMax := by
  have hcount := h.count hst
  have hlt := (h.round.hand_eq hd).1
  have hle := h.le
  have hwhole := h.whole
  simp only [xdmaDescMax] at hlt hwhole ⊢
  omega

/-- The packets still held are not where the device writes. -/
theorem Feeding.apart (h : Feeding cfg e lo before f.chan) (hfits : cfg.Fits)
    (hst : Stored cfg lo f) {d : XdmaDesc} (hd : f.chan.hw.hand = some d) {m : Nat} (hlo : lo ≤ m)
    (hm : m < f.arrived.length) :
    ∀ x ∈ cells (cfg.slotAddr (m % xdmaDescMax)) cfg.len, x ∉ cells d.dstAddr 64 := by
  intro x hx
  rw [(h.hand hst hd).1]
  exact hfits.apart _ (Nat.mod_lt _ (by decide)) _ (Nat.mod_lt _ (by decide))
    (h.slot_ne hst hd hlo hm) x (cells_subset hfits.len hx)

/-- Partial writes leave the packets alone. -/
theorem Stored.dma (hst : Stored cfg lo f) (h : Feeding cfg e lo before f.chan) (hfits : cfg.Fits)
    {d : XdmaDesc} (hd : f.chan.hw.hand = some d) {bytes : Addr → BitVec 8}
    (hout : ∀ x, x ∉ cells d.dstAddr d.len.toNat → bytes x = f.bytes x) :
    Stored cfg lo { f with bytes := bytes } := by
  refine ⟨hst.count, fun m hlo hm => ?_, hst.record⟩
  rw [← hst.bytes m hlo hm]
  apply load_congr
  intro x hx
  apply hout
  rw [(h.hand hst hd).2.2]
  exact h.apart hfits hst hd hlo hm x hx

/-- A packet that arrives is in the buffer of its slot, and the others stay where they are. -/
theorem Stored.fill (hst : Stored cfg lo f) (h : Feeding cfg e lo before f.chan) (hfits : cfg.Fits)
    (hs : RxChannelStep cfg.virt2phy e f.chan c) {d : XdmaDesc}
    (hone : f.chan.hw.handed c.hw = [d]) {p : List (BitVec 8)} (hp : p.length = cfg.len)
    (control : BitVec 32) :
    Stored cfg lo
      { f with
        chan := c
        bytes := store d.dstAddr p f.bytes
        record := if d.srcAddr = cfg.virt2phy e.streamWbAddr
          then ⟨control, BitVec.ofNat 32 p.length⟩ else f.record
        arrived := f.arrived ++ [p] } := by
  have hd := hs.hand_of_handed hone
  obtain ⟨hdst, hsrc, -⟩ := h.hand hst hd
  refine ⟨?_, fun m hlo hm => ?_, fun _ => ?_⟩
  · show (f.arrived ++ [p]).length = c.filled.length
    rw [hs.filled, hone, List.length_append, List.length_append, hst.count]
    rfl
  · show load _ _ (store d.dstAddr p f.bytes) = (f.arrived ++ [p])[m]
    rcases Nat.lt_or_ge m f.arrived.length with hlt | hge
    · -- A packet that was there: the new one goes to another slot.
      rw [List.getElem_append_left hlt, ← hst.bytes m hlo hlt]
      apply load_store_apart p f.bytes (hp ▸ hfits.len_lt)
      intro x hx hmem
      exact h.apart hfits hst hd hlo hlt x hx (cells_subset (hp ▸ hfits.len) hmem)
    · -- The packet itself.
      have hlen : (f.arrived ++ [p]).length = f.arrived.length + 1 := by
        rw [List.length_append, List.length_singleton]
      have hm' : m = f.arrived.length := by
        have hlt : m < (f.arrived ++ [p]).length := hm
        omega
      subst hm'
      rw [← hdst, ← hp, load_store p f.bytes (hp ▸ hfits.len_lt), List.getElem_concat_length rfl]
  · show (if d.srcAddr = _ then _ else f.record : XdmaC2hStreamWb).len = _
    rw [if_pos hsrc, hp]

/-- **Source steps** keep the round. -/
theorem Feeds.step (h : Feeds cfg e lo f.chan) (hs : FabricStep cfg.virt2phy cfg.len e f f') :
    Feeds cfg e lo f'.chan := by
  rcases h with ⟨hk, hp⟩ | ⟨before, h⟩
  · -- A device at rest stays there.
    cases hs with
    | walk c hs hnone => exact absurd hs (RxChannelStep.not_of_halted hk hp)
    | dma d bytes hd hout => exact .inl ⟨hk, hp⟩
    | fill c d p control hs hone hp' => exact absurd hs (RxChannelStep.not_of_halted hk hp)
    | send hw' count' hs => exact .inl ⟨hk, hp⟩
  · exact .inr ⟨before, h.round.reach hs.chan, h.posted, h.whole, h.le⟩

/-- **Memory steps** keep the packets. -/
theorem Stored.step (hst : Stored cfg lo f) (h : Feeds cfg e lo f.chan) (hfits : cfg.Fits)
    (hs : FabricStep cfg.virt2phy cfg.len e f f') : Stored cfg lo f' := by
  cases hs with
  | walk c hs hnone =>
    refine ⟨?_, hst.bytes, hst.record⟩
    show f.arrived.length = c.filled.length
    rw [hs.filled, hnone, List.map_nil, List.append_nil]
    exact hst.count
  | dma d bytes hd hout =>
    rcases h with ⟨-, hp⟩ | ⟨before, h⟩
    · -- A device at rest has no descriptor in hand to write by.
      obtain ⟨i, hb⟩ := Walker.hand_eq_some.mp hd
      exact absurd (hb.symm.trans hp) (by simp)
    · exact hst.dma h hfits hd hout
  | fill c d p control hs hone hp =>
    rcases h with ⟨hk, hph⟩ | ⟨before, h⟩
    · exact absurd hs (RxChannelStep.not_of_halted hk hph)
    · exact hst.fill h hfits hs hone hp control
  | send hw' count' hs => exact ⟨hst.count, hst.bytes, hst.record⟩

end

/-! ### The destination side -/

/-- The first `n` packets were handed to the destination queue, those from number `lo` on in
    the present burst, and what left is a front part of them, as they arrived. -/
structure Leaving (cfg : ForwardConfig) (ok : TxSys → TxBurst → Prop) (lo n : Nat)
    (sent : List XdmaDesc) (calls : List TxBurst) (f : Fabric) : Prop where
  run : TxRun cfg.virt2phy cfg.txChannel cfg.txAlloc ok sent calls f.tx
  submitted : calls.flatMap TxBurst.segments = (List.range n).map cfg.segment
  lo_le : lo ≤ n
  waits : ∀ b, f.tx.drv = .polling b → n = lo + b.segments.length
  within : n ≤ f.arrived.length
  departed : f.departed = (f.arrived.take (carried sent).length).map (fun p => (p, true))

/-- Every run of the destination queue delivers in order. -/
def Orderly (cfg : ForwardConfig) (ok : TxSys → TxBurst → Prop) : Prop :=
  ∀ sent calls s, TxRun cfg.virt2phy cfg.txChannel cfg.txAlloc ok sent calls s →
    InOrder sent calls s

section
variable {cfg : ForwardConfig} {ok : TxSys → TxBurst → Prop} {e : XdmaEngine} {lo n : Nat}
  {sent : List XdmaDesc} {calls : List TxBurst} {f f' : Fabric}

/-- What left is no more than what was submitted. -/
theorem Leaving.carried_le (h : Leaving cfg ok lo n sent calls f) (hord : Orderly cfg ok) :
    (carried sent).length ≤ n := by
  have hle := (hord sent calls f.tx h.run).carried_isPrefix.length_le
  rwa [h.submitted, List.length_map, List.length_range] at hle

/-- Outside a burst all of it has left. -/
theorem Leaving.carried_eq (h : Leaving cfg ok lo n sent calls f) (hord : Orderly cfg ok)
    (hno : ∀ b, f.tx.drv ≠ .polling b) : (carried sent).length = n := by
  have hall : carried sent = calls.flatMap TxBurst.segments := by
    have hin := hord sent calls f.tx h.run
    cases hd : f.tx.drv with
    | polling b => exact absurd hd (hno b)
    | idle | exited | stopping =>
      simp only [InOrder, hd] at hin
      exact hin
  rw [hall, h.submitted, List.length_map, List.length_range]

/-- In a burst all of the earlier ones have left. -/
theorem Leaving.le_carried (h : Leaving cfg ok lo n sent calls f) (hord : Orderly cfg ok) :
    lo ≤ (carried sent).length := by
  cases hd : f.tx.drv with
  | polling b =>
    have hin := hord sent calls f.tx h.run
    simp only [InOrder, hd] at hin
    -- The last call is the burst under way, of which a part has left.
    obtain ⟨earlier, part, rfl, hsent, -⟩ := hin
    have hsub := congrArg List.length h.submitted
    rw [List.flatMap_append, List.flatMap_singleton, List.length_append, List.length_map,
      List.length_range, h.waits b hd] at hsub
    rw [hsent, List.length_append]
    omega
  | idle | exited | stopping =>
    rw [h.carried_eq hord (by simp [hd])]
    exact h.lo_le

/-- A packet that leaves is the next one that arrived. -/
theorem Leaving.send (h : Leaving cfg ok lo n sent calls f) (hord : Orderly cfg ok)
    (hfits : cfg.Fits) (hst : Stored cfg lo f) {hw' : Walker Nat XdmaDesc} {count' : Nat}
    (hs : Step (txRules cfg.virt2phy f.tx.eng) f.tx.eng.descRing
      (f.tx.hw, f.tx.eng.completedDescCount) (hw', count')) :
    Leaving cfg ok lo n (sent ++ f.tx.hw.handed hw') calls
      { f with
        tx := { f.tx with eng := f.tx.eng.withWord count', hw := hw' }
        departed := f.departed ++ loaded f.bytes (f.tx.hw.handed hw') } := by
  have hrun := TxRun.step h.run (TxStep.device f.tx hw' count' hs)
  have hsub : f.tx.submitted { f.tx with eng := f.tx.eng.withWord count', hw := hw' } = [] := by
    unfold TxSys.submitted
    cases f.tx.drv <;> rfl
  rw [hsub, List.append_nil] at hrun
  refine ⟨hrun, h.submitted, h.lo_le, h.waits, h.within, ?_⟩
  show f.departed ++ loaded f.bytes (f.tx.hw.handed hw') = _
  have hpre := (hord _ _ _ hrun).carried_isPrefix
  rw [h.submitted, carried_append] at hpre
  rw [carried_append, List.length_append, h.departed]
  unfold loaded
  rcases hs.handed_eq with hnil | ⟨d, -, hone⟩
  · rw [hnil, carried_nil, List.map_nil, List.append_nil, List.length_nil, Nat.add_zero]
  · rw [hone] at hpre ⊢
    cases hterm : d.terminator with
    | true =>
      -- A terminator carries nothing.
      rw [carried_of_terminator hterm, List.map_nil, List.append_nil, List.length_nil, Nat.add_zero]
    | false =>
      rw [carried_of_not_terminator hterm] at hpre ⊢
      -- It is the segment of the next packet submitted, whose bytes are still in its buffer.
      have hk := hpre.length_le
      rw [List.length_append, List.length_singleton, List.length_map, List.length_range] at hk
      have hlt : (carried sent).length < f.arrived.length := Nat.lt_of_lt_of_le hk h.within
      have hseg : d.segment = cfg.segment (carried sent).length := by
        have hget := hpre.getElem (i := (carried sent).length) (by simp)
        rw [List.getElem_concat_length rfl, List.getElem_map, List.getElem_range] at hget
        exact hget
      have hbytes := hst.bytes _ (h.le_carried hord) hlt
      rw [List.length_singleton, List.take_succ_eq_append_getElem hlt, List.map_append, hseg,
        ← hbytes, List.map_singleton, List.map_singleton]
      unfold ForwardConfig.segment
      rw [hfits.toNat_len]

/-- A packet that arrives does not change what has left. -/
theorem Leaving.arrive (h : Leaving cfg ok lo n sent calls f) (hord : Orderly cfg ok)
    (p : List (BitVec 8)) :
    n ≤ (f.arrived ++ [p]).length ∧
      f.departed = ((f.arrived ++ [p]).take (carried sent).length).map (fun p => (p, true)) := by
  have hle := (h.carried_le hord).trans h.within
  constructor
  · rw [List.length_append]
    exact h.within.trans (Nat.le_add_right _ _)
  · rw [h.departed, List.take_append_of_le_length hle]

/-- **Destination steps.** -/
theorem Leaving.step (h : Leaving cfg ok lo n sent calls f) (hord : Orderly cfg ok)
    (hfits : cfg.Fits) (hst : Stored cfg lo f) (hs : FabricStep cfg.virt2phy cfg.len e f f') :
    ∃ sent', Leaving cfg ok lo n sent' calls f' := by
  cases hs with
  | walk c hs hnone => exact ⟨sent, h.run, h.submitted, h.lo_le, h.waits, h.within, h.departed⟩
  | dma d bytes hd hout =>
    exact ⟨sent, h.run, h.submitted, h.lo_le, h.waits, h.within, h.departed⟩
  | fill c d p control hs hone hp =>
    obtain ⟨hwithin, hdep⟩ := h.arrive hord p
    exact ⟨sent, h.run, h.submitted, h.lo_le, h.waits, hwithin, hdep⟩
  | send hw' count' hs => exact ⟨_, h.send hord hfits hst hs⟩

end

/-! ### Both sides -/

/-- The invariant of the two devices and the memory. -/
structure FabricInv (cfg : ForwardConfig) (ok : TxSys → TxBurst → Prop) (e : XdmaEngine)
    (lo n : Nat) (f : Fabric) : Prop where
  feeds : Feeds cfg e lo f.chan
  stored : Stored cfg lo f
  leaving : ∃ sent calls, Leaving cfg ok lo n sent calls f

section
variable {cfg : ForwardConfig} {ok : TxSys → TxBurst → Prop} {e : XdmaEngine} {lo n : Nat}
  {f f' : Fabric}

/-- **Step lemma.** -/
theorem FabricInv.step (h : FabricInv cfg ok e lo n f) (hord : Orderly cfg ok) (hfits : cfg.Fits)
    (hs : FabricStep cfg.virt2phy cfg.len e f f') : FabricInv cfg ok e lo n f' := by
  obtain ⟨sent, calls, hleave⟩ := h.leaving
  obtain ⟨sent', hleave'⟩ := hleave.step hord hfits h.stored hs
  exact ⟨h.feeds.step hs, h.stored.step h.feeds hfits hs, sent', calls, hleave'⟩

/-- **Run lemma.** -/
theorem FabricInv.reach (h : FabricInv cfg ok e lo n f) (hord : Orderly cfg ok) (hfits : cfg.Fits)
    (hs : Relation.ReflTransGen (FabricStep cfg.virt2phy cfg.len e) f f') :
    FabricInv cfg ok e lo n f' ∧ f'.tx.drv = f.tx.drv := by
  induction hs with
  | refl => exact ⟨h, rfl⟩
  | tail _ hs ih => exact ⟨ih.1.step hord hfits hs, hs.drv.trans ih.2⟩

end

end XdmaDpdk
