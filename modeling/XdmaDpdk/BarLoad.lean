import XdmaDpdk.Devargs
import XdmaDpdk.Lib.ByteStore

namespace XdmaDpdk

open ByteStore

/-!
# XDMA driver — loading a file into a BAR

`xdma_bar_load` copies the start of a file to a BAR, 64 MiB at a time: each chunk is mapped
with `mmap` and stored behind the ones before.  Which of the `mmap` calls succeed is an input.

* `barLoadLoop`, `xdmaBarLoad`, `rteBarLoad` — the loop and the two functions around it;
* `LoadInv`, `LoadEnd` — what holds before each chunk, and when the loop has ended;
* `barLoad_complete` — with all chunks mapped, the load is a single copy.

A chunk that cannot be mapped ends the loop, and `rte_bar_load` returns 0 all the same.
`loadReported_iff`: its result can be relied on exactly when every chunk can be mapped.
-/

/-! ### The loop -/

/-- `CHUNK_SIZE`.  `RTE_MIN` puts its arguments in parentheses, so that the product is taken as
    a whole. -/
def chunkSize : Nat := 64 * 1024 * 1024

/-- The memory a load stores to, its progress, the length and offset of each `mmap`, and the
    cells stored to, in order. -/
structure LoadState where
  mem : Addr → BitVec 8
  totalWritten : Nat
  mmaps : List (Nat × Nat)
  stored : List Addr

/-- `rte_memcpy` of a mapped chunk, and the count after it. -/
def storeChunk (file : List (BitVec 8)) (addr : Addr) (chunk : Nat) (s : LoadState) : LoadState :=
  { s with
    mem := store (addr + BitVec.ofNat 64 s.totalWritten)
      ((file.drop s.totalWritten).take chunk) s.mem
    stored := s.stored ++ cells (addr + BitVec.ofNat 64 s.totalWritten) chunk
    totalWritten := s.totalWritten + chunk }

/-- The loop of `xdma_bar_load`; `mmapOk` says which calls of `mmap` succeed, in order. -/
def barLoadLoop (file : List (BitVec 8)) (mmapOk : Nat → Bool) (addr : Addr) (fileSize : Nat)
    (s : LoadState) : LoadState :=
  if s.totalWritten < fileSize then
    let chunk := min chunkSize (fileSize - s.totalWritten)
    let mapped := { s with mmaps := s.mmaps ++ [(chunk, s.totalWritten)] }
    if mmapOk s.mmaps.length then
      barLoadLoop file mmapOk addr fileSize (storeChunk file addr chunk mapped)
    else mapped
  else s
termination_by fileSize - s.totalWritten
decreasing_by
  have hchunk : 0 < chunkSize := by decide
  show fileSize - (s.totalWritten + min chunkSize (fileSize - s.totalWritten)) < _
  omega

@[simp] theorem totalWritten_storeChunk (file : List (BitVec 8)) (addr : Addr) (chunk : Nat)
    (s : LoadState) : (storeChunk file addr chunk s).totalWritten = s.totalWritten + chunk := rfl

@[simp] theorem mmaps_storeChunk (file : List (BitVec 8)) (addr : Addr) (chunk : Nat)
    (s : LoadState) : (storeChunk file addr chunk s).mmaps = s.mmaps := rfl

section
variable {file : List (BitVec 8)} {mmapOk : Nat → Bool} {addr : Addr} {n : Nat} {s : LoadState}

/-- A pass of the loop whose chunk is mapped. -/
theorem barLoadLoop_pass (hlt : s.totalWritten < n) (hok : mmapOk s.mmaps.length = true) :
    barLoadLoop file mmapOk addr n s
      = barLoadLoop file mmapOk addr n (storeChunk file addr (min chunkSize (n - s.totalWritten))
          { s with
            mmaps := s.mmaps ++ [(min chunkSize (n - s.totalWritten), s.totalWritten)] }) := by
  rw [barLoadLoop, if_pos hlt]
  exact if_pos hok

theorem barLoadLoop_done (hge : n ≤ s.totalWritten) : barLoadLoop file mmapOk addr n s = s := by
  rw [barLoadLoop, if_neg (Nat.not_lt.mpr hge)]

end

/-- `RTE_MIN(file_size, size)`. -/
def loadSize (file : List (BitVec 8)) (size : BitVec 32) : Nat := min file.length size.toNat

/-- `(uint64_t)xdma_dev->bar[bar_idx] + offset`. -/
def loadAddr (d : XdmaDev) (offset : BitVec 32) (barIdx : Int) : Addr :=
  d.bar barIdx.toNat + offset.setWidth 64

/-- `file` is `none` when it cannot be opened, which ends the process. -/
def xdmaBarLoad (d : XdmaDev) (offset size : BitVec 32) (barIdx : Int)
    (file : Option (List (BitVec 8))) (mmapOk : Nat → Bool) (mem : Addr → BitVec 8) :
    Option LoadState :=
  file.map fun file =>
    barLoadLoop file mmapOk (loadAddr d offset barIdx) (loadSize file size)
      { mem := mem, totalWritten := 0, mmaps := [], stored := [] }

def rteBarLoad (d : XdmaDev) (offset size : BitVec 32) (barIdx : Int)
    (file : Option (List (BitVec 8))) (mmapOk : Nat → Bool) (mem : Addr → BitVec 8) :
    Option (Int × LoadState) :=
  (xdmaBarLoad d offset size barIdx file mmapOk mem).map fun s => (0, s)

/-! ### The loop invariant -/

/-- Every chunk of the first `n` bytes can be mapped. -/
def AllMapped (mmapOk : Nat → Bool) (n : Nat) : Prop := ∀ j, chunkSize * j < n → mmapOk j = true

/-- The bytes stored so far are the start of the file, each stored once. -/
structure LoadData (file : List (BitVec 8)) (addr : Addr) (n : Nat) (mem₀ : Addr → BitVec 8)
    (s : LoadState) : Prop where
  written_le : s.totalWritten ≤ n
  mem : s.mem = store addr (file.take s.totalWritten) mem₀
  stored : s.stored = cells addr s.totalWritten
  offsets : ∀ q ∈ s.mmaps, chunkSize ∣ q.2

/-- Before a chunk: all chunks so far were mapped, and were of full size. -/
structure LoadInv (file : List (BitVec 8)) (mmapOk : Nat → Bool) (addr : Addr) (n : Nat)
    (mem₀ : Addr → BitVec 8) (s : LoadState) : Prop extends LoadData file addr n mem₀ s where
  full : s.totalWritten < n → s.totalWritten = chunkSize * s.mmaps.length
  mapped : AllMapped mmapOk s.totalWritten

/-- After the loop: everything is written, or a chunk could not be mapped. -/
structure LoadEnd (file : List (BitVec 8)) (mmapOk : Nat → Bool) (addr : Addr) (n : Nat)
    (mem₀ : Addr → BitVec 8) (s : LoadState) : Prop extends LoadData file addr n mem₀ s where
  stop : s.totalWritten = n ∧ AllMapped mmapOk n ∨
    s.totalWritten < n ∧ ∃ j, s.totalWritten = chunkSize * j ∧ mmapOk j = false

section
variable {file : List (BitVec 8)} {mmapOk : Nat → Bool} {addr : Addr} {n : Nat}
  {mem₀ : Addr → BitVec 8} {s : LoadState}

theorem LoadInv.start (mem₀ : Addr → BitVec 8) :
    LoadInv file mmapOk addr n mem₀
      { mem := mem₀, totalWritten := 0, mmaps := [], stored := [] } where
  written_le := Nat.zero_le n
  mem := by simp
  stored := rfl
  offsets := by simp
  full := fun _ => rfl
  mapped := fun _ h => absurd h (Nat.not_lt_zero _)

/-- A request to `mmap`, at the offset the chunks so far end at. -/
theorem LoadInv.request (h : LoadInv file mmapOk addr n mem₀ s) (hlt : s.totalWritten < n)
    (chunk : Nat) :
    LoadData file addr n mem₀ { s with mmaps := s.mmaps ++ [(chunk, s.totalWritten)] } where
  written_le := h.written_le
  mem := h.mem
  stored := h.stored
  offsets := by
    intro q hq
    rcases List.mem_append.mp hq with hold | hnew
    · exact h.offsets q hold
    · rw [List.mem_singleton.mp hnew]
      show chunkSize ∣ s.totalWritten
      rw [h.full hlt]
      exact Nat.dvd_mul_right ..

/-- Storing a chunk behind what is stored. -/
theorem LoadData.storeChunk {chunk : Nat} (h : LoadData file addr n mem₀ s)
    (hn : n ≤ file.length) (hwrap : n ≤ 2 ^ 64) (hchunk : s.totalWritten + chunk ≤ n) :
    LoadData file addr n mem₀ (storeChunk file addr chunk s) where
  written_le := hchunk
  mem := by
    -- What is stored so far and the chunk are one prefix of the file.
    have hlen : (file.take s.totalWritten).length = s.totalWritten := by
      rw [List.length_take]
      omega
    have hlen' : ((file.drop s.totalWritten).take chunk).length ≤ chunk := List.length_take_le ..
    have happend := store_append (a := addr) mem₀
      (show (file.take s.totalWritten).length + ((file.drop s.totalWritten).take chunk).length
        ≤ 2 ^ 64 by omega)
    rw [hlen, ← h.mem, ← List.take_add] at happend
    exact happend
  stored := by
    show s.stored ++ _ = cells addr (s.totalWritten + chunk)
    rw [cells_add, h.stored]
  offsets := h.offsets

/-- One pass of the loop. -/
theorem LoadInv.step (h : LoadInv file mmapOk addr n mem₀ s) (hn : n ≤ file.length)
    (hwrap : n ≤ 2 ^ 64) (hlt : s.totalWritten < n) (hok : mmapOk s.mmaps.length = true) :
    LoadInv file mmapOk addr n mem₀ (storeChunk file addr
      (min chunkSize (n - s.totalWritten))
      { s with mmaps := s.mmaps ++ [(min chunkSize (n - s.totalWritten), s.totalWritten)] }) := by
  have hfull := h.full hlt
  refine { (h.request hlt _).storeChunk hn hwrap ?_ with full := ?_, mapped := ?_ }
  · show s.totalWritten + min chunkSize (n - s.totalWritten) ≤ n
    omega
  · intro hlt'
    simp only [XdmaDpdk.storeChunk, List.length_append, List.length_singleton, Nat.mul_succ]
      at hlt' ⊢
    omega
  · intro j hj
    -- The chunks so far, or the one just mapped.
    rcases Nat.lt_or_ge (chunkSize * j) s.totalWritten with hold | hnew
    · exact h.mapped j hold
    · have hj' : chunkSize * j < chunkSize * (s.mmaps.length + 1) := by
        simp only [XdmaDpdk.storeChunk] at hj
        rw [Nat.mul_succ]
        omega
      have hlt := Nat.lt_of_mul_lt_mul_left hj'
      have hge := Nat.le_of_mul_le_mul_left (hfull ▸ hnew) (by decide : 0 < chunkSize)
      rw [show j = s.mmaps.length by omega]
      exact hok

/-- The loop, from the invariant to its end. -/
theorem barLoadLoop_end (h : LoadInv file mmapOk addr n mem₀ s) (hn : n ≤ file.length)
    (hwrap : n ≤ 2 ^ 64) :
    LoadEnd file mmapOk addr n mem₀ (barLoadLoop file mmapOk addr n s) := by
  induction s using barLoadLoop.induct file mmapOk addr n with
  | case1 s hlt chunk mapped hok ih =>
    -- A chunk that is mapped is stored, and the loop goes on behind it.
    rw [barLoadLoop_pass hlt hok]
    exact ih (h.step hn hwrap hlt hok)
  | case2 s hlt hfail =>
    -- A chunk that is not mapped ends the loop with that much written.
    rw [barLoadLoop, if_pos hlt]
    simp only [if_neg hfail]
    refine { h.request hlt _ with stop := Or.inr ⟨hlt, s.mmaps.length, h.full hlt, ?_⟩ }
    exact Bool.eq_false_iff.mpr hfail
  | case3 s hge =>
    rw [barLoadLoop_done (Nat.not_lt.mp hge)]
    -- Nothing is left to write.
    have hall : s.totalWritten = n := Nat.le_antisymm h.written_le (Nat.not_lt.mp hge)
    exact { h.toLoadData with stop := Or.inl ⟨hall, hall ▸ h.mapped⟩ }

/-- The whole is written exactly when every chunk can be mapped. -/
theorem LoadEnd.complete_iff (h : LoadEnd file mmapOk addr n mem₀ s) :
    s.totalWritten = n ↔ AllMapped mmapOk n := by
  rcases h.stop with ⟨hall, hmapped⟩ | ⟨hlt, j, hj, hfail⟩
  · exact iff_of_true hall hmapped
  · refine iff_of_false (Nat.ne_of_lt hlt) fun hmapped => ?_
    -- The chunk that failed is one of those to be mapped.
    have hok := hmapped j (hj ▸ hlt)
    rw [hfail] at hok
    cases hok

end

theorem loadSize_le (file : List (BitVec 8)) (size : BitVec 32) :
    loadSize file size ≤ file.length ∧ loadSize file size < 2 ^ 32 := by
  have hsize := size.isLt
  unfold loadSize
  omega

/-- A load of a file that can be opened ends. -/
theorem xdmaBarLoad_end (d : XdmaDev) (offset size : BitVec 32) (barIdx : Int)
    (file : List (BitVec 8)) (mmapOk : Nat → Bool) (mem : Addr → BitVec 8) :
    ∃ s, xdmaBarLoad d offset size barIdx (some file) mmapOk mem = some s ∧
      LoadEnd file mmapOk (loadAddr d offset barIdx) (loadSize file size) mem s := by
  obtain ⟨hn, hwrap⟩ := loadSize_le file size
  exact ⟨_, rfl, barLoadLoop_end (.start mem) hn (by omega)⟩

/-! ### Complete loads -/

/-- The bytes `bs` are stored from `addr` on, each once and nothing else, by page-aligned
    mappings. -/
structure LoadedOnce (addr : Addr) (bs : List (BitVec 8)) (mem : Addr → BitVec 8)
    (s : LoadState) : Prop where
  copied : ∀ x (h : (x - addr).toNat < bs.length), s.mem x = bs[(x - addr).toNat]
  kept : ∀ x, bs.length ≤ (x - addr).toNat → s.mem x = mem x
  once : ∀ x, s.stored.count x = if (x - addr).toNat < bs.length then 1 else 0
  pages : ∀ pageSize, pageSize ∣ chunkSize → ∀ q ∈ s.mmaps, pageSize ∣ q.2

/-- **Chunked load.**  When every chunk can be mapped, a load ends and has copied the first
    `min(file length, size)` bytes of the file in one piece, and nothing else. -/
theorem barLoad_complete (d : XdmaDev) (offset size : BitVec 32) (barIdx : Int)
    (file : List (BitVec 8)) (mmapOk : Nat → Bool) (mem : Addr → BitVec 8)
    (hmapped : AllMapped mmapOk (loadSize file size)) :
    ∃ s, xdmaBarLoad d offset size barIdx (some file) mmapOk mem = some s ∧
      LoadedOnce (loadAddr d offset barIdx) (file.take (min file.length size.toNat)) mem s := by
  obtain ⟨s, hrun, hend⟩ := xdmaBarLoad_end d offset size barIdx file mmapOk mem
  have hall := hend.complete_iff.mpr hmapped
  obtain ⟨hn, hwrap⟩ := loadSize_le file size
  have hlen : (file.take (loadSize file size)).length = loadSize file size := by
    rw [List.length_take]
    omega
  refine ⟨s, hrun, ?_⟩
  show LoadedOnce _ (file.take (loadSize file size)) mem s
  constructor
  · intro x hx
    rw [hend.mem, hall]
    exact store_of_lt mem hx
  · intro x hx
    rw [hend.mem, hall]
    exact store_of_le mem hx
  · intro x
    rw [hend.stored, hall, hlen]
    exact count_cells (by omega)
  · intro pageSize hpage q hq
    exact hpage.trans (hend.offsets q hq)

/-- The mappings of a load of more than one chunk and at most two. -/
theorem mmaps_barLoadLoop_two {file : List (BitVec 8)} {addr : Addr} {n : Nat}
    (mem : Addr → BitVec 8) (hlo : chunkSize < n) (hhi : n ≤ 2 * chunkSize) :
    (barLoadLoop file (fun _ => true) addr n
        { mem := mem, totalWritten := 0, mmaps := [], stored := [] }).mmaps
      = [(chunkSize, 0), (n - chunkSize, chunkSize)] := by
  have hfirst : min chunkSize (n - 0) = chunkSize := by omega
  have hsecond : min chunkSize (n - (0 + chunkSize)) = n - chunkSize := by omega
  rw [barLoadLoop_pass (Nat.zero_lt_of_lt hlo) rfl]
  dsimp only
  rw [hfirst, barLoadLoop_pass (show 0 + chunkSize < n by omega) rfl, totalWritten_storeChunk,
    hsecond, mmaps_storeChunk]
  rw [barLoadLoop_done (by rw [totalWritten_storeChunk]; dsimp only; omega), mmaps_storeChunk]
  dsimp only
  rw [Nat.zero_add, List.nil_append, List.singleton_append]

/-- A file of five bytes more than a chunk, of which all but three are asked for: two passes,
    the second for the two bytes the chunk leaves. -/
theorem barLoad_complete_chunks :
    ∃ s, xdmaBarLoad XdmaDev.zeroed 16 0x4000002 1 (some (List.replicate (chunkSize + 5) 7))
        (fun _ => true) (fun _ => 0) = some s ∧
      LoadedOnce (loadAddr XdmaDev.zeroed 16 1) (List.replicate (chunkSize + 2) 7) (fun _ => 0) s ∧
      s.mmaps = [(chunkSize, 0), (2, chunkSize)] := by
  obtain ⟨s, hrun, hloaded⟩ := barLoad_complete XdmaDev.zeroed 16 0x4000002 1
    (List.replicate (chunkSize + 5) 7) (fun _ => true) (fun _ => 0) (fun _ _ => rfl)
  have hsize : (0x4000002 : BitVec 32).toNat = chunkSize + 2 := by decide
  have hmin : min (chunkSize + 5) (chunkSize + 2) = chunkSize + 2 := by omega
  rw [hsize, List.length_replicate, hmin, List.take_replicate, min_comm, hmin] at hloaded
  refine ⟨s, hrun, hloaded, ?_⟩
  have hload : loadSize (List.replicate (chunkSize + 5) (7 : BitVec 8)) 0x4000002
      = chunkSize + 2 := by
    rw [loadSize, hsize, List.length_replicate, hmin]
  rw [xdmaBarLoad, Option.map_some, hload] at hrun
  obtain rfl := Option.some.inj hrun
  have hpos : 2 ≤ chunkSize := by decide
  rw [mmaps_barLoadLoop_two _ (by omega) (by omega), Nat.add_sub_cancel_left]

/-! ### The result of a load -/

/-- Every cell of the load is stored to. -/
def PrefixWritten (addr : Addr) (n : Nat) (s : LoadState) : Prop :=
  ∀ x, (x - addr).toNat < n → x ∈ s.stored

theorem LoadEnd.prefixWritten_iff {file : List (BitVec 8)} {mmapOk : Nat → Bool} {addr : Addr}
    {n : Nat} {mem₀ : Addr → BitVec 8} {s : LoadState} (h : LoadEnd file mmapOk addr n mem₀ s)
    (hwrap : n ≤ 2 ^ 64) : PrefixWritten addr n s ↔ s.totalWritten = n := by
  have hle := h.written_le
  unfold PrefixWritten
  rw [h.stored]
  simp only [mem_cells (show s.totalWritten ≤ 2 ^ 64 by omega)]
  constructor
  · intro hwritten
    by_contra hne
    -- The first cell that is not written.
    have hnext := hwritten (addr + BitVec.ofNat 64 s.totalWritten)
    rw [offset_add addr (by omega)] at hnext
    omega
  · intro hall x hx
    rwa [hall]

/-- **Reported loads.**  `rte_bar_load` returns 0 only for complete loads iff every chunk of the
    load can be mapped. -/
theorem loadReported_iff (d : XdmaDev) (offset size : BitVec 32) (barIdx : Int)
    (file : List (BitVec 8)) (mmapOk : Nat → Bool) (mem : Addr → BitVec 8) :
    (∀ ret s, rteBarLoad d offset size barIdx (some file) mmapOk mem = some (ret, s) → ret = 0 →
        PrefixWritten (loadAddr d offset barIdx) (min file.length size.toNat) s)
      ↔ ∀ j, chunkSize * j < min file.length size.toNat → mmapOk j = true := by
  obtain ⟨s, hrun, hend⟩ := xdmaBarLoad_end d offset size barIdx file mmapOk mem
  have hwrap := (loadSize_le file size).2
  have hresult : rteBarLoad d offset size barIdx (some file) mmapOk mem = some (0, s) := by
    rw [rteBarLoad, hrun]
    rfl
  show _ ↔ AllMapped mmapOk (loadSize file size)
  rw [← hend.complete_iff, ← hend.prefixWritten_iff (by omega)]
  constructor
  · intro hreported
    exact hreported 0 s hresult rfl
  · intro hwritten ret s' hrun' _
    cases hresult.symm.trans hrun'
    exact hwritten

/-- A file of one byte that cannot be mapped. -/
theorem loadReported_fails :
    ¬ ∀ (d : XdmaDev) (offset size : BitVec 32) (barIdx : Int) (file : List (BitVec 8))
      (mmapOk : Nat → Bool) (mem : Addr → BitVec 8) (ret : Int) (s : LoadState),
      rteBarLoad d offset size barIdx (some file) mmapOk mem = some (ret, s) → ret = 0 →
      PrefixWritten (loadAddr d offset barIdx) (min file.length size.toNat) s := by
  intro h
  have hrun : barLoadLoop [7] (fun _ => false) (loadAddr XdmaDev.zeroed 0 1)
      (loadSize [7] 1) { mem := fun _ => 0, totalWritten := 0, mmaps := [], stored := [] }
      = { mem := fun _ => 0, totalWritten := 0, mmaps := [(1, 0)], stored := [] } := by
    rw [barLoadLoop]
    rfl
  have hwritten := h XdmaDev.zeroed 0 1 1 [7] (fun _ => false) (fun _ => 0) 0 _
    (congrArg (fun s => some ((0 : Int), s)) hrun) rfl (loadAddr XdmaDev.zeroed 0 1) (by decide)
  cases hwritten

end XdmaDpdk
