import XdmaDpdk.Devargs
import XdmaDpdk.Lib.ByteStore
import Mathlib.Logic.Function.Basic

namespace XdmaDpdk

open ByteStore

/-!
# XDMA driver — BAR roles

A probe gives roles to the BARs of the device: the config BAR from the device arguments, the
user BAR, and a bypass BAR when one is left.

* `xdmaGetUserBar`, `xdmaIdentifyBars` — the choice of roles;
* `xdmaUserWrite` — a user register write, as the bytes it stores;
* `BarRoles` — distinct roles on enabled BARs, and user writes that stay out of the config BAR.

The bypass search passes over the BARs that have a role; the user BAR is the first enabled one
of BAR 0 and BAR 1, or else BAR 2, whatever the config BAR is.  `barRoles_iff`: the roles are
sound exactly when that choice is enabled and not the config BAR, or the device is refused.
-/

/-! ### The choice of roles -/

/-- The `mem_resource` array of `struct rte_pci_device`, by BAR. -/
structure RtePciDevice where
  len : Nat → BitVec 64
  addr : Nat → Addr

/-- `user_bar_id`. -/
def userBarId : BitVec 32 := 1

/-- The return value of `xdma_get_user_bar` and what it leaves in `*user_bar`. -/
def xdmaGetUserBar : Int × Nat :=
  match (List.range xdmaBarNum).find? fun barIdx => userBarId &&& (1 <<< barIdx) != 0 with
  | some barIdx => (0, barIdx)
  | none => (-1, 0)

def xdmaIdentifyBars (pci : RtePciDevice) (d : XdmaDev) : Int × XdmaDev :=
  if pci.len d.configBarIdx.toNat = 0 then (-1, d)
  else
    let (ret, usrBar) := xdmaGetUserBar
    let userBarIdx : Int :=
      if ret ≠ 0 ∨ pci.len usrBar = 0 then
        if pci.len 1 = 0 then 2 else 1
      else usrBar
    let bypass := (List.range xdmaBarNum).find? fun i =>
      pci.len i != 0 && (userBarIdx != i && d.configBarIdx != i)
    match bypass with
    | some i => (0, { d with userBarIdx := userBarIdx, bypassBarIdx := i })
    | none => (0, { d with userBarIdx := userBarIdx })

/-- `dma_priv->bar[i] = pci_dev->mem_resource[i].addr`. -/
def storeBar (pci : RtePciDevice) (i : Int) (d : XdmaDev) : XdmaDev :=
  { d with bar := Function.update d.bar i.toNat (pci.addr i.toNat) }

/-- What `xdma_eth_dev_init` stores once the roles are known. -/
def storeUserBypass (pci : RtePciDevice) (d : XdmaDev) : XdmaDev :=
  let d := if d.userBarIdx ≥ 0 then storeBar pci d.userBarIdx d else d
  if d.bypassBarIdx ≥ 0 then storeBar pci d.bypassBarIdx d else d

/-! ### User register writes -/

/-- The bytes of a `uint32_t`, little endian. -/
def bytes32 (val : BitVec 32) : List (BitVec 8) :=
  (List.range 4).map fun i => (val >>> (8 * i)).setWidth 8

def xdmaUserWrite (d : XdmaDev) (mem : Addr → BitVec 8) (regOffst val : BitVec 32) :
    Addr → BitVec 8 :=
  store (d.bar d.userBarIdx.toNat + regOffst.setWidth 64) (bytes32 val) mem

/-- An address of a BAR. -/
def InBar (pci : RtePciDevice) (i : Nat) (x : Addr) : Prop :=
  (x - pci.addr i).toNat < (pci.len i).toNat

/-- No address belongs to two BARs. -/
def MappedApart (pci : RtePciDevice) : Prop :=
  ∀ i j x, i < xdmaBarNum → j < xdmaBarNum → InBar pci i x → InBar pci j x → i = j

/-! ### Sound roles -/

/-- A BAR of the device, of non-zero length. -/
def Enabled (pci : RtePciDevice) (idx : Int) : Prop :=
  0 ≤ idx ∧ idx < xdmaBarNum ∧ pci.len idx.toNat ≠ 0

/-- A user register write within the user BAR leaves the config BAR as it is. -/
def UserWritesApart (pci : RtePciDevice) (d : XdmaDev) : Prop :=
  ∀ (mem : Addr → BitVec 8) (regOffst val : BitVec 32) (x : Addr),
    regOffst.toNat + 4 ≤ (pci.len d.userBarIdx.toNat).toNat →
    InBar pci d.configBarIdx.toNat x → xdmaUserWrite d mem regOffst val x = mem x

/-- The roles are distinct and enabled, and user writes stay out of the config BAR. -/
structure BarRoles (pci : RtePciDevice) (d : XdmaDev) : Prop where
  config : Enabled pci d.configBarIdx
  user : Enabled pci d.userBarIdx
  user_config : d.userBarIdx ≠ d.configBarIdx
  bypass : d.bypassBarIdx ≠ barIdInvalid → Enabled pci d.bypassBarIdx ∧
    d.bypassBarIdx ≠ d.configBarIdx ∧ d.bypassBarIdx ≠ d.userBarIdx
  writes : MappedApart pci → UserWritesApart pci d

/-- The first enabled one of BAR 0 and BAR 1, or else BAR 2, is enabled and not the config BAR. -/
def UserBarFree (pci : RtePciDevice) (configBarIdx : Int) : Prop :=
  (pci.len 0 ≠ 0 ∧ configBarIdx ≠ 0) ∨
    (pci.len 0 = 0 ∧ pci.len 1 ≠ 0 ∧ configBarIdx ≠ 1) ∨
    (pci.len 0 = 0 ∧ pci.len 1 = 0 ∧ pci.len 2 ≠ 0 ∧ configBarIdx ≠ 2)

/-! ### What `xdma_identify_bars` does -/

section
variable {pci : RtePciDevice} {d d' : XdmaDev}

theorem xdmaGetUserBar_eq : xdmaGetUserBar = (0, 0) := by decide

/-- The BAR the two fallbacks end on. -/
def userBarOf (pci : RtePciDevice) : Nat :=
  if pci.len 0 = 0 then if pci.len 1 = 0 then 2 else 1 else 0

theorem userBarOf_lt (pci : RtePciDevice) : userBarOf pci < xdmaBarNum := by
  unfold userBarOf
  split
  · split <;> decide
  · decide

theorem userBarFree_iff (pci : RtePciDevice) (configBarIdx : Int) :
    UserBarFree pci configBarIdx
      ↔ pci.len (userBarOf pci) ≠ 0 ∧ configBarIdx ≠ (userBarOf pci : Int) := by
  unfold UserBarFree userBarOf
  by_cases h0 : pci.len 0 = 0
  · rw [if_pos h0]
    by_cases h1 : pci.len 1 = 0
    · rw [if_pos h1]
      simp [h0, h1]
    · rw [if_neg h1]
      simp only [h0, h1, ne_eq]
      simp
  · rw [if_neg h0]
    simp only [h0, ne_eq]
    simp

/-- The two fallbacks, as the source nests them. -/
theorem userBarOf_eq (pci : RtePciDevice) :
    (if (0 : Int) ≠ 0 ∨ pci.len 0 = 0 then
      if pci.len 1 = 0 then (2 : Int) else 1 else ((0 : Nat) : Int)) = userBarOf pci := by
  simp [userBarOf]

/-- A device with its config BAR enabled: the user BAR is the first choice, and the bypass BAR,
    if one is found, is an enabled BAR without role. -/
theorem xdmaIdentifyBars_of_enabled (h : pci.len d.configBarIdx.toNat ≠ 0) :
    ∃ d', xdmaIdentifyBars pci d = (0, d') ∧ d'.configBarIdx = d.configBarIdx ∧
      d'.userBarIdx = userBarOf pci ∧
      (d'.bypassBarIdx = d.bypassBarIdx ∨
        Enabled pci d'.bypassBarIdx ∧ d'.bypassBarIdx ≠ d.configBarIdx ∧
          d'.bypassBarIdx ≠ d'.userBarIdx) := by
  simp only [xdmaIdentifyBars, if_neg h, xdmaGetUserBar_eq, userBarOf_eq]
  split
  · next i hfind =>
    -- The first enabled BAR without a role.
    have hfree := List.find?_some hfind
    have hrange := List.mem_range.mp (List.mem_of_find?_eq_some hfind)
    simp only [Bool.and_eq_true, bne_iff_ne, ne_eq] at hfree
    obtain ⟨hlen, huserNe, hconfigNe⟩ := hfree
    refine ⟨_, rfl, rfl, rfl, Or.inr ⟨⟨?_, ?_, hlen⟩, Ne.symm hconfigNe, Ne.symm huserNe⟩⟩
    · exact Int.natCast_nonneg i
    · exact Int.ofNat_lt.mpr hrange
  · exact ⟨_, rfl, rfl, rfl, Or.inl rfl⟩

theorem xdmaIdentifyBars_of_disabled (h : pci.len d.configBarIdx.toNat = 0) :
    xdmaIdentifyBars pci d = (-1, d) := if_pos h

theorem hwAccess_xdmaIdentifyBars (pci : RtePciDevice) (d : XdmaDev) :
    (xdmaIdentifyBars pci d).2.hwAccess = d.hwAccess := by
  unfold xdmaIdentifyBars
  split
  · rfl
  · simp only
    split <;> rfl

theorem hwAccess_storeUserBypass (pci : RtePciDevice) (d : XdmaDev) :
    (storeUserBypass pci d).hwAccess = d.hwAccess := by
  unfold storeUserBypass
  simp only
  split <;> split <;> rfl

/-- Storing the addresses keeps the roles and gives the user BAR its own address. -/
theorem storeUserBypass_roles (pci : RtePciDevice) (d : XdmaDev) :
    (storeUserBypass pci d).configBarIdx = d.configBarIdx ∧
      (storeUserBypass pci d).userBarIdx = d.userBarIdx ∧
      (storeUserBypass pci d).bypassBarIdx = d.bypassBarIdx := by
  unfold storeUserBypass
  simp only
  split <;> split <;> exact ⟨rfl, rfl, rfl⟩

theorem storeUserBypass_bar (pci : RtePciDevice) (h : 0 ≤ d.userBarIdx) :
    (storeUserBypass pci d).bar d.userBarIdx.toNat = pci.addr d.userBarIdx.toNat := by
  simp only [storeUserBypass, if_pos (show d.userBarIdx ≥ 0 from h)]
  split
  · by_cases hsame : d.userBarIdx.toNat = d.bypassBarIdx.toNat
    · simp [storeBar, hsame]
    · simp [storeBar, Function.update_of_ne hsame]
  · simp [storeBar]

/-- A store within one BAR stays out of every other. -/
theorem userWritesApart_of_ne (hapart : MappedApart pci)
    (hbar : d.bar d.userBarIdx.toNat = pci.addr d.userBarIdx.toNat)
    (hu : d.userBarIdx.toNat < xdmaBarNum) (hc : d.configBarIdx.toNat < xdmaBarNum)
    (hne : d.userBarIdx.toNat ≠ d.configBarIdx.toNat) : UserWritesApart pci d := by
  intro mem regOffst val x hfits hx
  have hlen := (pci.len d.userBarIdx.toNat).isLt
  -- Outside the user BAR, and so outside the four bytes of the store.
  have hout : ¬ InBar pci d.userBarIdx.toNat x := fun hin => hne (hapart _ _ x hu hc hin hx)
  have haddr : d.bar d.userBarIdx.toNat + regOffst.setWidth 64
      = pci.addr d.userBarIdx.toNat + BitVec.ofNat 64 regOffst.toNat := by
    rw [hbar, BitVec.ofNat_toNat]
  unfold xdmaUserWrite
  rw [haddr]
  apply store_of_le
  show 4 ≤ _
  by_cases hbefore : (x - pci.addr d.userBarIdx.toNat).toNat < regOffst.toNat
  · have hfar := le_offset_add (by omega) hbefore
    omega
  · have hoff := offset_sub (Nat.not_lt.mp hbefore)
    unfold InBar at hout
    omega

/-- Roles that satisfy the two tests on the user BAR are sound. -/
theorem BarRoles.of_identify (hc0 : 0 ≤ d.configBarIdx) (hc : d.configBarIdx < xdmaBarNum)
    (hbypass : d.bypassBarIdx = barIdInvalid) (hlen : pci.len d.configBarIdx.toNat ≠ 0)
    (hfree : UserBarFree pci d.configBarIdx) (h : xdmaIdentifyBars pci d = (0, d')) :
    BarRoles pci (storeUserBypass pci d') := by
  obtain ⟨d₁, hrun, hconfig, huser, hfound⟩ := xdmaIdentifyBars_of_enabled hlen
  obtain ⟨-, rfl⟩ := Prod.mk.inj (hrun.symm.trans h)
  obtain ⟨hsc, hsu, hsb⟩ := storeUserBypass_roles pci d₁
  obtain ⟨huserLen, huserNe⟩ := (userBarFree_iff pci d.configBarIdx).mp hfree
  have hult := userBarOf_lt pci
  have hnatU : d₁.userBarIdx.toNat = userBarOf pci := by simp [huser]
  constructor
  · show Enabled pci (storeUserBypass pci d₁).configBarIdx
    rw [hsc, hconfig]
    exact ⟨hc0, hc, hlen⟩
  · show Enabled pci (storeUserBypass pci d₁).userBarIdx
    rw [hsu, huser]
    exact ⟨Int.natCast_nonneg _, Int.ofNat_lt.mpr hult, huserLen⟩
  · rw [hsu, hsc, huser, hconfig]
    exact huserNe.symm
  · rw [hsb, hsc, hsu, hconfig]
    intro hset
    -- Either no bypass BAR was found or it has no other role.
    rcases hfound with hsame | ⟨henabled, hnc, hnu⟩
    · exact absurd (hsame.trans hbypass) hset
    · exact ⟨henabled, hnc, hnu⟩
  · intro hapart
    have hbar := storeUserBypass_bar pci (show 0 ≤ d₁.userBarIdx by simp [huser])
    apply userWritesApart_of_ne hapart
    · rw [hsu]
      exact hbar
    · rw [hsu, hnatU]
      exact hult
    · rw [hsc, hconfig]
      omega
    · rw [hsu, hsc, hconfig, hnatU]
      omega

end

/-! ### The result -/

/-- **BAR roles.**  On a device whose arguments are accepted, the roles a successful
    identification leaves are sound iff the config BAR is disabled (and the device refused), or
    the first choice for the user BAR is enabled and not the config BAR. -/
theorem barRoles_iff {kv : Kvargs} {devargs : Option (Option RteKvargs)} {d₀ d : XdmaDev}
    (pci : RtePciDevice)
    (h : xdmaCheckKvargs kv devargs d₀.withDefaultBars = some (0, d)) :
    (∀ d', xdmaIdentifyBars pci d = (0, d') → BarRoles pci (storeUserBypass pci d'))
      ↔ pci.len d.configBarIdx.toNat = 0 ∨ UserBarFree pci d.configBarIdx := by
  obtain ⟨hc0, hc, hd⟩ := xdmaCheckKvargs_range h (by decide : (0 : Int) ≤ defaultConfigBar)
    (by decide : defaultConfigBar < xdmaBarNum)
  have hbypass : d.bypassBarIdx = barIdInvalid := by rw [hd]; rfl
  by_cases hlen : pci.len d.configBarIdx.toNat = 0
  · rw [xdmaIdentifyBars_of_disabled hlen]
    simp [hlen]
  · simp only [hlen, false_or]
    refine ⟨fun hroles => ?_, fun hfree d' hrun => .of_identify hc0 hc hbypass hlen hfree hrun⟩
    obtain ⟨d', hrun, hconfig, huser, -⟩ := xdmaIdentifyBars_of_enabled hlen
    have hsound := hroles d' hrun
    obtain ⟨hsc, hsu, -⟩ := storeUserBypass_roles pci d'
    rw [userBarFree_iff]
    have henabled := hsound.user.2.2
    have hne := hsound.user_config
    rw [hsu, huser] at henabled
    rw [hsu, hsc, huser, hconfig] at hne
    exact ⟨by simpa using henabled, hne.symm⟩

/-- All six BARs enabled, no device arguments. -/
theorem barRoles_default :
    xdmaCheckKvargs .walk none XdmaDev.zeroed.withDefaultBars
      = some (0, XdmaDev.zeroed.withDefaultBars) ∧
    ((∀ d', xdmaIdentifyBars { len := fun _ => 65536, addr := fun i => BitVec.ofNat 64 (65536 * i) }
          XdmaDev.zeroed.withDefaultBars = (0, d') →
        BarRoles { len := fun _ => 65536, addr := fun i => BitVec.ofNat 64 (65536 * i) }
          (storeUserBypass
            { len := fun _ => 65536, addr := fun i => BitVec.ofNat 64 (65536 * i) } d'))
      ↔ (65536 : BitVec 64) = 0 ∨
        UserBarFree { len := fun _ => 65536, addr := fun i => BitVec.ofNat 64 (65536 * i) }
          defaultConfigBar) :=
  ⟨rfl, barRoles_iff _ (rfl : xdmaCheckKvargs .walk none XdmaDev.zeroed.withDefaultBars
    = some (0, XdmaDev.zeroed.withDefaultBars))⟩

/-- BAR 1 alone enabled: the config BAR is also the user BAR. -/
theorem barRoles_fails :
    ¬ ∀ (devargs : Option (Option RteKvargs)) (d₀ d d' : XdmaDev) (pci : RtePciDevice),
      xdmaCheckKvargs .walk devargs d₀.withDefaultBars = some (0, d) →
      xdmaIdentifyBars pci d = (0, d') → BarRoles pci (storeUserBypass pci d') := by
  intro h
  have hroles := h none XdmaDev.zeroed XdmaDev.zeroed.withDefaultBars _
    { len := fun i => if i = 1 then 65536 else 0, addr := fun _ => 0 } rfl rfl
  exact hroles.user_config rfl

end XdmaDpdk
