import XdmaDpdk.Bars

namespace XdmaDpdk

/-!
# XDMA driver — probing a device

`xdma_eth_dev_init` allocates two blocks, the MAC addresses and the access layer, and can fail
after either.  ethdev releases the port of a device whose init fails, and frees its MAC
addresses again if the pointer is still there.

* `xdmaEthDevInit` — the init function, the results of its allocations given by the input;
* `rteEthDevReleasePort` — what the port release frees;
* `ProbeReleased` — everything freed once, and no pointer to a freed block left;
* `xdmaEthDevInit_success` — what a successful init leaves.

The failure exits free what was allocated and keep the pointers, which `xdma_eth_dev_uninit`
clears.  `probeReleased_iff`: failures are clean exactly when there is no failure after the MAC
addresses are allocated.
-/

/-! ### The heap of a probe -/

/-- What a probe works on: the MAC address pointer, the private data, whether the device
    operations are set, and the blocks allocated and freed so far.  `none` is `NULL`. -/
structure ProbeState where
  macAddrs : Option Nat
  priv : XdmaDev
  devOps : Bool
  allocated : List Nat
  freed : List Nat

/-- A port as `rte_eth_dev_pci_allocate` hands it to the driver. -/
def ProbeState.fresh : ProbeState where
  macAddrs := none
  priv := XdmaDev.zeroed
  devOps := false
  allocated := []
  freed := []

/-- `rte_zmalloc`; `ok` says whether there is memory. -/
def rteZmalloc (ok : Bool) (s : ProbeState) : Option Nat × ProbeState :=
  if ok then (some s.allocated.length, { s with allocated := s.allocated ++ [s.allocated.length] })
  else (none, s)

/-- `rte_free`, which ignores `NULL`. -/
def rteFree (p : Option Nat) (s : ProbeState) : ProbeState :=
  match p with
  | none => s
  | some h => { s with freed := s.freed ++ [h] }

/-! ### `xdma_eth_dev_init` -/

def einval : Int := 22
def enomem : Int := 12

/-- The pointers given to the init function (`true` when they are not `NULL`), the process type,
    the device, and the results of the two allocations. -/
structure ProbeInput where
  dev : Bool
  data : Bool
  devPrivate : Bool
  pciDev : Bool
  primary : Bool
  devargs : Option (Option RteKvargs)
  pci : RtePciDevice
  macMem : Bool
  hwMem : Bool

/-- `xdma_hw_access_init` assigns function pointers. -/
def xdmaHwAccessInit : Int := 0

/-- The end of `xdma_eth_dev_init`, once `hw_access` is assigned. -/
def initBars (i : ProbeInput) (s : ProbeState) : Int × ProbeState :=
  if s.priv.hwAccess = none then (-enomem, rteFree s.macAddrs s)
  else if xdmaHwAccessInit < 0 then (-einval, rteFree s.macAddrs (rteFree s.priv.hwAccess s))
  else
    let (idx, d) := xdmaIdentifyBars i.pci s.priv
    let s := { s with priv := d }
    if idx < 0 then (-einval, rteFree s.macAddrs (rteFree s.priv.hwAccess s))
    else (0, { s with priv := storeUserBypass i.pci d, devOps := true })

/-- The middle of `xdma_eth_dev_init`: device arguments, config BAR and `hw_access`.  `none` when
    the device arguments crash it. -/
def initDevice (kv : Kvargs) (i : ProbeInput) (s : ProbeState) : Option (Int × ProbeState) :=
  match xdmaCheckKvargs kv i.devargs s.priv.withDefaultBars with
  | none => none
  | some (ret, d) =>
    let s := { s with priv := d }
    if ret ≠ 0 then some (-einval, rteFree s.macAddrs s)
    else
      let s := { s with priv := storeBar i.pci d.configBarIdx d }
      let (hwAccess, s) := rteZmalloc i.hwMem s
      some (initBars i { s with priv := { s.priv with hwAccess := hwAccess } })

def xdmaEthDevInit (kv : Kvargs) (i : ProbeInput) (s : ProbeState) : Option (Int × ProbeState) :=
  if !i.dev then some (-einval, s)
  else if !i.data then some (-einval, s)
  else if !i.devPrivate then some (-einval, s)
  else if !i.pciDev then some (-einval, s)
  else if !i.primary then some (0, { s with devOps := true })
  else
    let (macAddrs, s) := rteZmalloc i.macMem s
    let s := { s with macAddrs := macAddrs }
    if s.macAddrs = none then some (-enomem, s)
    else initDevice kv i s

/-- What `rte_eth_dev_release_port` frees of the driver's blocks. -/
def rteEthDevReleasePort (s : ProbeState) : ProbeState := rteFree s.macAddrs s

/-! ### Clean failures -/

/-- Every block is freed once, no pointer leads to a freed block, and the release of the port
    frees nothing twice. -/
structure ProbeReleased (s : ProbeState) : Prop where
  freedOnce : ∀ h ∈ s.allocated, s.freed.count h = 1
  macAddrs : ∀ h, s.macAddrs = some h → h ∉ s.freed
  hwAccess : ∀ h, s.priv.hwAccess = some h → h ∉ s.freed
  release : (rteEthDevReleasePort s).freed.Nodup

/-- The init function comes to its first allocation, and that succeeds. -/
def MacAllocated (i : ProbeInput) : Prop :=
  i.dev = true ∧ i.data = true ∧ i.devPrivate = true ∧ i.pciDev = true ∧ i.primary = true ∧
    i.macMem = true

/-- Nothing fails after the first allocation. -/
def NoLateFailure (kv : Kvargs) (i : ProbeInput) : Prop :=
  ∀ ret d, xdmaCheckKvargs kv i.devargs XdmaDev.zeroed.withDefaultBars = some (ret, d) →
    ret = 0 ∧ i.hwMem = true ∧ i.pci.len d.configBarIdx.toNat ≠ 0

section
variable {kv : Kvargs} {i : ProbeInput} {s : ProbeState}

/-- A state in which nothing was allocated. -/
theorem ProbeReleased.of_untouched (hmac : s.macAddrs = none) (hhw : s.priv.hwAccess = none)
    (halloc : s.allocated = []) (hfreed : s.freed = []) : ProbeReleased s := by
  refine ⟨?_, ?_, ?_, ?_⟩
  · simp [halloc]
  · simp [hmac]
  · simp [hhw]
  · simp [rteEthDevReleasePort, rteFree, hmac, hfreed]

/-- Freeing the MAC addresses leaves their pointer dangling. -/
theorem not_probeReleased_rteFree {h : Nat} (hmac : s.macAddrs = some h) :
    ¬ ProbeReleased (rteFree s.macAddrs s) := by
  intro hclean
  rw [hmac] at hclean
  exact hclean.macAddrs h hmac (List.mem_append_right _ (List.mem_singleton.mpr rfl))

/-- Short of the MAC addresses nothing is allocated. -/
theorem xdmaEthDevInit_of_early (h : ¬ MacAllocated i) :
    ∃ ret s', xdmaEthDevInit kv i .fresh = some (ret, s') ∧ ProbeReleased s' := by
  have huntouched : ProbeReleased .fresh := .of_untouched rfl rfl rfl rfl
  unfold xdmaEthDevInit
  split
  · exact ⟨_, _, rfl, huntouched⟩
  split
  · exact ⟨_, _, rfl, huntouched⟩
  split
  · exact ⟨_, _, rfl, huntouched⟩
  split
  · exact ⟨_, _, rfl, huntouched⟩
  split
  · exact ⟨_, _, rfl, .of_untouched rfl rfl rfl rfl⟩
  · next hdev hdata hpriv hpci hprimary =>
    simp only [Bool.not_eq_true', Bool.not_eq_false] at hdev hdata hpriv hpci hprimary
    -- All checks passed, so it was the allocation that failed.
    have hmem : i.macMem = false := by
      refine Bool.eq_false_iff.mpr fun hmem => h ?_
      exact ⟨hdev, hdata, hpriv, hpci, hprimary, hmem⟩
    simp only [rteZmalloc, hmem, Bool.false_eq_true, if_false, if_true]
    exact ⟨_, _, rfl, huntouched⟩

/-- The state after the first allocation. -/
def ProbeState.withMac : ProbeState :=
  { ProbeState.fresh with macAddrs := some 0, allocated := [0] }

@[simp] theorem priv_withMac : ProbeState.withMac.priv = XdmaDev.zeroed := rfl

theorem xdmaEthDevInit_of_mac (h : MacAllocated i) :
    xdmaEthDevInit kv i .fresh = initDevice kv i .withMac := by
  obtain ⟨hdev, hdata, hpriv, hpci, hprimary, hmem⟩ := h
  simp [xdmaEthDevInit, hdev, hdata, hpriv, hpci, hprimary, hmem, rteZmalloc, ProbeState.fresh,
    ProbeState.withMac]

/-- With `hw_access` and an enabled config BAR the init succeeds. -/
theorem initBars_of_enabled (hhw : s.priv.hwAccess ≠ none)
    (hlen : i.pci.len s.priv.configBarIdx.toNat ≠ 0) : ∃ s', initBars i s = (0, s') := by
  obtain ⟨d, hrun, -⟩ := xdmaIdentifyBars_of_enabled hlen
  have hinit : ¬ xdmaHwAccessInit < 0 := by decide
  rw [initBars, if_neg hhw, if_neg hinit, hrun]
  exact ⟨_, rfl⟩

/-- Without either it frees the MAC addresses and keeps their pointer. -/
theorem initBars_of_failure (hmac : s.macAddrs ≠ none)
    (hfail : s.priv.hwAccess = none ∨ i.pci.len s.priv.configBarIdx.toNat = 0) :
    ∃ ret s', initBars i s = (ret, s') ∧ ret < 0 ∧ ¬ ProbeReleased s' := by
  obtain ⟨h, hmac⟩ := Option.ne_none_iff_exists'.mp hmac
  by_cases hhw : s.priv.hwAccess = none
  · refine ⟨-enomem, _, if_pos hhw, by decide, ?_⟩
    exact not_probeReleased_rteFree hmac
  · have hlen := hfail.resolve_left hhw
    have hinit : ¬ xdmaHwAccessInit < 0 := by decide
    refine ⟨-einval, rteFree s.macAddrs (rteFree s.priv.hwAccess s), ?_, by decide, ?_⟩
    · rw [initBars, if_neg hhw, if_neg hinit, xdmaIdentifyBars_of_disabled hlen]
      rfl
    · -- `hw_access` is freed before the MAC addresses.
      have hkeep : (rteFree s.priv.hwAccess s).macAddrs = s.macAddrs := by
        unfold rteFree
        split <;> rfl
      rw [← hkeep]
      exact not_probeReleased_rteFree (hkeep.trans hmac)

theorem initDevice_of_crash
    (hargs : xdmaCheckKvargs kv i.devargs XdmaDev.zeroed.withDefaultBars = none) :
    initDevice kv i .withMac = none := by
  unfold initDevice
  rw [priv_withMac, hargs]

/-- An init that comes back has checked the arguments. -/
theorem checked_of_initDevice {ret : Int} (hrun : initDevice kv i .withMac = some (ret, s)) :
    ∃ ret' d, xdmaCheckKvargs kv i.devargs XdmaDev.zeroed.withDefaultBars = some (ret', d) := by
  cases hargs : xdmaCheckKvargs kv i.devargs XdmaDev.zeroed.withDefaultBars with
  | none =>
    rw [initDevice_of_crash hargs] at hrun
    cases hrun
  | some p => exact ⟨p.1, p.2, rfl⟩

theorem initDevice_of_refused {ret : Int} {d : XdmaDev}
    (hargs : xdmaCheckKvargs kv i.devargs XdmaDev.zeroed.withDefaultBars = some (ret, d))
    (hret : ret ≠ 0) :
    ∃ s', initDevice kv i .withMac = some (-einval, s') ∧ ¬ ProbeReleased s' := by
  have hrun : initDevice kv i .withMac
      = some (-einval, rteFree (some 0) { ProbeState.withMac with priv := d }) := by
    unfold initDevice
    rw [priv_withMac, hargs]
    exact if_pos hret
  have hmac : ({ ProbeState.withMac with priv := d } : ProbeState).macAddrs = some 0 := rfl
  exact ⟨_, hrun, not_probeReleased_rteFree hmac⟩

theorem initDevice_of_accepted {d : XdmaDev}
    (hargs : xdmaCheckKvargs kv i.devargs XdmaDev.zeroed.withDefaultBars = some (0, d)) :
    ∃ s, initDevice kv i .withMac = some (initBars i s) ∧ s.macAddrs = some 0 ∧ s.freed = [] ∧
      s.priv.configBarIdx = d.configBarIdx ∧
      s.priv.hwAccess = if i.hwMem = true then some 1 else none := by
  unfold initDevice
  rw [priv_withMac, hargs]
  by_cases hmem : i.hwMem = true
  · simp only [rteZmalloc, if_pos hmem]
    exact ⟨_, rfl, rfl, rfl, rfl, rfl⟩
  · simp only [rteZmalloc, if_neg hmem]
    exact ⟨_, rfl, rfl, rfl, rfl, rfl⟩

/-- The end of a successful init frees nothing and keeps both pointers. -/
theorem initBars_success {s' : ProbeState} (hrun : initBars i s = (0, s')) :
    s.priv.hwAccess ≠ none ∧ s'.priv.hwAccess = s.priv.hwAccess ∧ s'.macAddrs = s.macAddrs ∧
      s'.freed = s.freed ∧ s'.devOps = true := by
  unfold initBars at hrun
  split at hrun
  · cases hrun
  next hhw =>
    rw [if_neg (show ¬ xdmaHwAccessInit < 0 by decide)] at hrun
    have hkeep := hwAccess_xdmaIdentifyBars i.pci s.priv
    split at hrun
    next idx d hbars =>
      rw [hbars] at hkeep
      split at hrun
      · cases hrun
      · cases hrun
        exact ⟨hhw, (hwAccess_storeUserBypass i.pci d).trans hkeep, rfl, rfl, rfl⟩

/-- **Successful probes.**  The two blocks are live behind their pointers, nothing was freed,
    and the device operations are set. -/
theorem xdmaEthDevInit_success (hmac : MacAllocated i)
    (hrun : xdmaEthDevInit kv i .fresh = some (0, s)) :
    s.macAddrs = some 0 ∧ s.priv.hwAccess = some 1 ∧ s.freed = [] ∧ s.devOps = true := by
  rw [xdmaEthDevInit_of_mac hmac] at hrun
  obtain ⟨ret, d, hargs⟩ := checked_of_initDevice hrun
  by_cases hret : ret = 0
  · subst hret
    obtain ⟨s₀, hrun', hmac₀, hfreed, -, hhw⟩ := initDevice_of_accepted hargs
    rw [hrun', Option.some.injEq] at hrun
    obtain ⟨hsome, hkeep, hmacs, hfrees, hops⟩ := initBars_success hrun
    refine ⟨hmacs.trans hmac₀, ?_, hfrees.trans hfreed, hops⟩
    rw [hkeep, hhw]
    rw [hhw] at hsome
    split at hsome
    · next hmem => exact if_pos hmem
    · contradiction
  · obtain ⟨s', hrun', -⟩ := initDevice_of_refused hargs hret
    rw [hrun'] at hrun
    cases hrun

/-- A failure after the first allocation is not clean; without one the init does not fail. -/
theorem initDevice_clean_iff :
    (∀ ret s', initDevice kv i .withMac = some (ret, s') → ret < 0 → ProbeReleased s')
      ↔ NoLateFailure kv i := by
  constructor
  · intro hclean ret d hargs
    have hret : ret = 0 := by
      by_contra hret
      -- Refused arguments free the MAC addresses and keep the pointer.
      obtain ⟨s', hrun, hdirty⟩ := initDevice_of_refused hargs hret
      exact hdirty (hclean _ s' hrun (by decide))
    subst hret
    obtain ⟨s, hrun, hmac, -, hconfig, hhw⟩ := initDevice_of_accepted hargs
    by_contra hlate
    -- Accepted arguments leave two ways to fail.
    have hfail : s.priv.hwAccess = none ∨ i.pci.len s.priv.configBarIdx.toNat = 0 := by
      rw [hhw, hconfig]
      by_cases hmem : i.hwMem = true
      · exact Or.inr (not_not.mp fun hlen => hlate ⟨rfl, hmem, hlen⟩)
      · exact Or.inl (if_neg hmem)
    obtain ⟨ret, s', hbars, hneg, hdirty⟩ := initBars_of_failure (by simp [hmac]) hfail
    rw [hbars] at hrun
    exact hdirty (hclean ret s' hrun hneg)
  · intro hlate ret s' hrun hneg
    -- Arguments that crash the init leave no run to speak of.
    obtain ⟨ret₀, d, hargs⟩ := checked_of_initDevice hrun
    obtain ⟨rfl, hmem, hlen⟩ := hlate ret₀ d hargs
    obtain ⟨s, hrun', -, -, hconfig, hhw⟩ := initDevice_of_accepted hargs
    obtain ⟨s'', hbars⟩ := initBars_of_enabled (i := i) (s := s)
      (by simp [hhw, hmem]) (by rw [hconfig]; exact hlen)
    rw [hrun', hbars] at hrun
    cases hrun
    omega

end

/-! ### The result -/

/-- **Failed probes.**  A failing init leaves no dangling pointer iff nothing fails after the MAC
    addresses are allocated. -/
theorem probeReleased_iff (kv : Kvargs) (i : ProbeInput) :
    (∀ ret s, xdmaEthDevInit kv i .fresh = some (ret, s) → ret < 0 → ProbeReleased s)
      ↔ ¬ MacAllocated i ∨ NoLateFailure kv i := by
  by_cases h : MacAllocated i
  · rw [xdmaEthDevInit_of_mac h, initDevice_clean_iff]
    simp [h]
  · obtain ⟨ret, s, hrun, hclean⟩ := xdmaEthDevInit_of_early h
    simp only [h, not_false_eq_true, true_or, iff_true]
    intro ret' s' hrun' _
    cases hrun.symm.trans hrun'
    exact hclean

/-- `config_bar=9`: the MAC addresses are freed by the init and again with the port. -/
theorem probeReleased_fails :
    ¬ ∀ (i : ProbeInput) (ret : Int) (s : ProbeState), i.primary = true →
      xdmaEthDevInit .walk i .fresh = some (ret, s) → ret < 0 → ProbeReleased s := by
  intro h
  let i : ProbeInput :=
    { dev := true, data := true, devPrivate := true, pciDev := true, primary := true
      devargs := some (some [(configBarKey, some "9".toList)])
      pci := { len := fun _ => 65536, addr := fun _ => 0 }, macMem := true, hwMem := true }
  have hmac : MacAllocated i := ⟨rfl, rfl, rfl, rfl, rfl, rfl⟩
  have hvalues : valuesOf [(configBarKey, some "9".toList)] configBarKey
      = [some "9".toList] := by decide
  have hrefused : (if configBarOf "9".toList ≥ xdmaBarNum ∨ configBarOf "9".toList < 0
      then (-1 : Int) else 0) ≠ 0 := by decide
  obtain ⟨s, hrun, hdirty⟩ := initDevice_of_refused (i := i)
    (xdmaCheckKvargs_of_value .walk hvalues _) hrefused
  exact hdirty (h i _ s rfl ((xdmaEthDevInit_of_mac hmac).trans hrun) (by decide))

end XdmaDpdk
