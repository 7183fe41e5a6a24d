import XdmaDpdk.AppPort

namespace XdmaDpdk

open Handles

/-!
# XDMA test application — the life of a port

`xdma_dev_close` faults on an empty slot and `rte_pmd_xdma_dev_close` frees rings under running
engines: the driver relies on its callers.  The test application does not let it down.

* `AppInv` — between two calls a port is closed or open;
* `app_lifecycle` — in any order of calls and bursts, none faults, deadlocks or frees under a
  running engine, and every block is freed once by the time the port is closed;
* `resetEvent_closes` — a reset event closes the port and leaves it so.
-/

/-! ### The functions of the application -/

/-- Between two calls a port is closed or open, and its entry in `pinfo` says which. -/
structure AppInv (dpdk : Dpdk) (s : AppPort) : Prop where
  ok : PortOk dpdk s.port
  state : (Closed s.port s.device ∧ s.numQueues = 0 ∧ s.memPool = false) ∨
    (SetUp s.port true s.numQueues (fun _ => s.numQueues) ∧ 0 < s.numQueues ∧ s.memPool = true ∧
      s.device = true)

section
variable {dpdk : Dpdk} {env : InitEnv} {s s' : AppPort} {ret : Int} {n : Nat}

theorem AppInv.locked (h : AppInv dpdk s) (locked : Bool) :
    AppInv dpdk { s with locked := locked } := ⟨h.ok, h.state⟩

/-- Without device the port is closed. -/
theorem AppInv.closed_of_gone (h : AppInv dpdk s) (hdev : s.device = false) :
    s.numQueues = 0 := by
  rcases h.state with ⟨-, h0, -⟩ | ⟨-, -, -, hdev'⟩
  · exact h0
  · exact absurd (hdev.symm.trans hdev') Bool.false_ne_true

/-- A device that is there has its table of operations. -/
theorem AppInv.ops_of_device (h : AppInv dpdk s) (hdev : s.device = true) :
    s.port.devOps = true := by
  rcases h.state with ⟨hc, -⟩ | ⟨hs, -⟩
  · exact hc.ops.trans hdev
  · exact hs.ops

/-- `port_init` of a closed port. -/
theorem AppInv.portInit (h : AppInv dpdk s) (hdev : s.device = true) (h0 : s.numQueues = 0)
    (hpool : env.hasPool = true) (hpos : 0 < n) (hn : n ≤ xdmaChannelNumMax) :
    ∃ s', s.portInit dpdk env n = some (0, s') ∧ AppInv dpdk s' ∧ s'.numQueues = n ∧
      s'.locked = s.locked := by
  rcases h.state with ⟨hc, -, hmp⟩ | ⟨-, hpos', -, -⟩
  · rw [hdev] at hc
    obtain ⟨p', hexec, hok, hs⟩ := h.ok.open env hc hpos hn
    refine ⟨{ s with port := p', numQueues := n, memPool := true }, ?_, ⟨hok, ?_⟩, rfl, rfl⟩
    · unfold AppPort.portInit
      rw [if_neg (by simp [hdev]), if_neg (by simp [hmp, hpool]), hexec]
      rfl
    · exact .inr ⟨hs, hpos, rfl, hdev⟩
  · exact absurd h0 hpos'.ne'

/-- Whatever `port_init` is given, what it leaves is a port again, unless the process exits. -/
theorem AppInv.portInit_inv (h : AppInv dpdk s) (hpos : 0 < n)
    (hret : s.portInit dpdk env n = some (ret, s')) :
    AppInv dpdk s' ∧ s'.locked = s.locked := by
  have hret' := hret
  unfold AppPort.portInit at hret
  by_cases hdev : s.device = false
  · rw [if_pos hdev] at hret
    -- A device that is gone is not touched.
    obtain rfl := congrArg Prod.snd (Option.some.inj hret)
    exact ⟨h, rfl⟩
  · rw [if_neg hdev] at hret
    by_cases hpool : s.memPool = true ∨ env.hasPool = false
    · -- The pool is there already or cannot be had: `rte_exit`.
      rw [if_pos hpool] at hret
      cases hret
    · rw [if_neg hpool] at hret
      have hdev' : s.device = true := by simpa using hdev
      have h0 : s.numQueues = 0 := by
        rcases h.state with ⟨-, h0, -⟩ | ⟨-, -, hmp, -⟩
        · exact h0
        · exact absurd (.inl hmp) hpool
      -- More queues than there are channels are refused.
      have hn : n ≤ xdmaChannelNumMax := by
        obtain ⟨p', hexec, -⟩ := Option.map_eq_some_iff.mp hret
        obtain ⟨p₁, hconf, -⟩ := Option.bind_eq_some_iff.mp hexec
        rw [exec_configure, queueCounts_self hpos] at hconf
        exact (allowed_of_some hconf).1.2.2.1
      have hpool' : env.hasPool = true := by
        rcases not_or.mp hpool with ⟨-, hp⟩
        simpa using hp
      obtain ⟨s₁, hret₁, hinv, -, hlock⟩ := h.portInit hdev' h0 hpool' hpos hn
      obtain rfl := congrArg Prod.snd (Option.some.inj (hret₁.symm.trans hret'))
      exact ⟨hinv, hlock⟩

/-- `port_close`, also of a port that is closed or gone. -/
theorem AppInv.portClose (h : AppInv dpdk s) :
    ∃ s', s.portClose dpdk = some s' ∧ AppInv dpdk s' ∧ s'.numQueues = 0 ∧
      s'.device = s.device ∧ s'.locked = s.locked ∧ s'.port.allocated = s.port.allocated := by
  unfold AppPort.portClose
  by_cases hdev : s.device = false
  · rw [if_pos hdev]
    exact ⟨s, rfl, h, h.closed_of_gone hdev, rfl, rfl, rfl⟩
  · rw [if_neg hdev]
    have hdev' : s.device = true := by simpa using hdev
    -- The function does not ask whether the port is open.
    have hstate : Closed s.port true ∨ SetUp s.port true s.numQueues fun _ => s.numQueues := by
      rcases h.state with ⟨hc, -, -⟩ | ⟨hs, -, -, -⟩
      · exact .inl (hdev' ▸ hc)
      · exact .inr hs
    obtain ⟨p', hexec, hok, hc, halloc⟩ := h.ok.close hstate
    rw [hexec]
    refine ⟨_, rfl, ⟨hok, .inl ⟨?_, rfl, rfl⟩⟩, rfl, rfl, rfl, halloc⟩
    show Closed p' s.device
    rw [hdev']
    exact hc

/-- `rte_pmd_xdma_dev_remove` of a port that is closed. -/
theorem AppInv.devRemove (h : AppInv dpdk s) (h0 : s.numQueues = 0) (hdev : s.device = true) :
    ∃ s', s.devRemove dpdk = some s' ∧ AppInv dpdk s' ∧ s'.numQueues = 0 ∧
      s'.device = false ∧ s'.locked = s.locked := by
  rcases h.state with ⟨hc, -, hmp⟩ | ⟨-, hpos, -, -⟩
  · rw [hdev] at hc
    obtain ⟨p', hexec, hok, hc'⟩ := h.ok.uninit hc
    unfold AppPort.devRemove
    rw [hexec]
    exact ⟨_, rfl, ⟨hok, .inl ⟨hc', h0, hmp⟩⟩, h0, rfl, rfl⟩
  · exact absurd h0 hpos.ne'

/-- `port_remove` returns, with the lock released. -/
theorem AppInv.portRemove (h : AppInv dpdk s) (hlock : s.locked = false) :
    ∃ s', s.portRemove dpdk = some (0, s') ∧ AppInv dpdk s' ∧ s'.device = false ∧
      s'.locked = false := by
  unfold AppPort.portRemove
  by_cases hdev : s.device = false
  · rw [if_pos hdev]
    exact ⟨s, rfl, h, hdev, hlock⟩
  · rw [if_neg hdev, if_neg (ne_true_of_eq_false hlock)]
    have hdev' : s.device = true := by simpa using hdev
    obtain ⟨s₁, hclose, hinv₁, h0, hdev₁, -⟩ := (h.locked true).portClose
    obtain ⟨s₂, hremove, hinv₂, -, hdev₂, -⟩ := hinv₁.devRemove h0 (hdev₁.trans hdev')
    refine ⟨{ s₂ with locked := false }, ?_, hinv₂.locked false, hdev₂, rfl⟩
    simp [hclose, hremove]

/-- `port_reset` gives up after it has closed the port: the driver's table has no `dev_reset`,
    so ethdev refuses. -/
theorem AppInv.portReset (h : AppInv dpdk s) (hlock : s.locked = false) (env : InitEnv)
    (n : Nat) :
    ∃ s', s.portReset dpdk env n = some (-1, s') ∧ AppInv dpdk s' ∧ s'.numQueues = 0 ∧
      s'.device = s.device ∧ s'.locked = false ∧ s'.port.allocated = s.port.allocated := by
  unfold AppPort.portReset
  by_cases hdev : s.device = false
  · rw [if_pos hdev]
    exact ⟨s, rfl, h, h.closed_of_gone hdev, rfl, hlock, rfl⟩
  · rw [if_neg hdev, if_neg (ne_true_of_eq_false hlock)]
    obtain ⟨s₁, hclose, hinv₁, h0, hdev₁, -, halloc⟩ := (h.locked true).portClose
    have hops : s₁.port.devOps = true := hinv₁.ops_of_device (hdev₁.trans (by simpa using hdev))
    -- The port is closed by now, and stays so: the reset is refused.
    have hreset : dpdk.ethDevReset (xdmaEthDevOps dpdk.virt2phy) s₁.port = (enotsup, s₁.port) :=
      dpdk.reset_of_none rfl s₁.port hops
    have hneg : enotsup < 0 := by decide
    refine ⟨{ s₁ with locked := false }, ?_, hinv₁.locked false, h0, hdev₁, rfl, halloc⟩
    simp [hclose, hreset, hneg]

/-- The clean-up leaves no device. -/
theorem AppInv.cleanUp (h : AppInv dpdk s) (hlock : s.locked = false) :
    ∃ s', s.cleanUp dpdk = some s' ∧ AppInv dpdk s' ∧ s'.device = false ∧
      s'.locked = false := by
  -- Open queues are closed before the device is removed.
  obtain ⟨s₁, hfirst, hinv₁, h0, hlock₁⟩ : ∃ s₁,
      (if s.numQueues ≠ 0 then s.portClose dpdk else some s) = some s₁ ∧ AppInv dpdk s₁ ∧
        s₁.numQueues = 0 ∧ s₁.locked = s.locked := by
    by_cases h0 : s.numQueues = 0
    · rw [if_neg (not_not_intro h0)]
      exact ⟨s, rfl, h, h0, rfl⟩
    · rw [if_pos h0]
      obtain ⟨s₁, hclose, hinv, h0', -, hlock', -⟩ := h.portClose
      exact ⟨s₁, hclose, hinv, h0', hlock'⟩
  unfold AppPort.cleanUp
  rw [hfirst, Option.bind_some]
  by_cases hdev : s₁.device = false
  · rw [if_pos hdev]
    exact ⟨s₁, rfl, hinv₁, hdev, hlock₁.trans hlock⟩
  · rw [if_neg hdev]
    obtain ⟨s₂, hremove, hinv₂, -, hdev₂, hlock₂⟩ := hinv₁.devRemove h0 (by simpa using hdev)
    exact ⟨s₂, hremove, hinv₂, hdev₂, hlock₂.trans (hlock₁.trans hlock)⟩

/-- **Step lemma.** -/
theorem AppInv.step {op : AppOp} (h : AppInv dpdk s) (hlock : s.locked = false)
    (hfits : op.Fits) (hexec : s.exec dpdk op = some (ret, s')) :
    AppInv dpdk s' ∧ s'.locked = false := by
  -- The call made is the one known to return.
  have hdone : ∀ {r : Option (Int × AppPort)} {ret₁ : Int} {s₁ : AppPort},
      r = some (ret, s') → r = some (ret₁, s₁) → AppInv dpdk s₁ → s₁.locked = false →
      AppInv dpdk s' ∧ s'.locked = false := by
    intro r ret₁ s₁ hr hr₁ hinv hl
    obtain rfl := congrArg Prod.snd (Option.some.inj (hr₁.symm.trans hr))
    exact ⟨hinv, hl⟩
  have hburst : ∀ {op : PortOp} {p' : Port}, op.bursts = true →
      s.port.exec dpdk op = some p' → AppInv dpdk { s with port := p' } := by
    intro op p' hop hp
    rcases h.state with ⟨hc, -⟩ | ⟨hs, hpos, hmp, hdev⟩
    · -- A closed port has no queue.
      cases (hc.no_burst hop).symm.trans hp
    · obtain ⟨hok, hs'⟩ := h.ok.burst hs hop hp
      exact ⟨hok, .inr ⟨hs', hpos, hmp, hdev⟩⟩
  cases op with
  | init env numQueues =>
    obtain ⟨hinv, hl⟩ := h.portInit_inv hfits hexec
    exact ⟨hinv, hl.trans hlock⟩
  | close =>
    obtain ⟨s₁, hclose, hinv, -, -, hl, -⟩ := h.portClose
    exact hdone hexec (congrArg (Option.map fun s => (0, s)) hclose) hinv (hl.trans hlock)
  | remove =>
    obtain ⟨s₁, hremove, hinv, -, hl⟩ := h.portRemove hlock
    exact hdone hexec hremove hinv hl
  | reset env numQueues =>
    obtain ⟨s₁, hreset, hinv, -, -, hl, -⟩ := h.portReset hlock env numQueues
    exact hdone hexec hreset hinv hl
  | removeEvent type =>
    obtain ⟨s₁, hremove, hinv, -, hl⟩ := h.portRemove hlock
    change s.devRemoveCallback dpdk type = _ at hexec
    unfold AppPort.devRemoveCallback at hexec
    by_cases htype : type ≠ .intrRmv
    · rw [if_pos htype] at hexec
      exact hdone hexec rfl h hlock
    · rw [if_neg htype, hremove] at hexec
      exact hdone hexec rfl hinv hl
  | resetEvent env type =>
    obtain ⟨s₁, hreset, hinv, -, -, hl, -⟩ := h.portReset hlock env s.numQueues
    change s.devResetCallback dpdk env type = _ at hexec
    unfold AppPort.devResetCallback at hexec
    by_cases htype : type ≠ .intrReset
    · rw [if_pos htype] at hexec
      exact hdone hexec rfl h hlock
    · rw [if_neg htype] at hexec
      exact hdone hexec hreset hinv hl
  | cleanUp =>
    obtain ⟨s₁, hclean, hinv, -, hl⟩ := h.cleanUp hlock
    exact hdone hexec (congrArg (Option.map fun s => (0, s)) hclean) hinv hl
  | recv queue m nbPkts dev =>
    obtain ⟨p', hp, heq⟩ := Option.map_eq_some_iff.mp hexec
    obtain rfl := congrArg Prod.snd heq
    exact ⟨hburst rfl hp, hlock⟩
  | xmit queue b reads =>
    obtain ⟨p', hp, heq⟩ := Option.map_eq_some_iff.mp hexec
    obtain rfl := congrArg Prod.snd heq
    exact ⟨hburst rfl hp, hlock⟩

/-- **Run lemma.** -/
theorem AppReach.inv (h : AppReach dpdk s) : AppInv dpdk s ∧ s.locked = false := by
  induction h with
  | probed =>
    have hfs : FreesStopped Port.probed.arena.env := fun _ hev => nomatch hev
    have hlife : LifeInv .probed := ⟨fun _ _ => rfl, nofun⟩
    refine ⟨⟨⟨.probed, hlife, rfl, hfs⟩, .inl ⟨?_, rfl, rfl⟩⟩, rfl⟩
    exact ⟨rfl, rfl, fun _ => rfl, fun _ _ => rfl, fun _ => rfl⟩
  | step op _ hfits hexec ih => exact ih.1.step ih.2 hfits hexec

/-! ### The result -/

/-- What the application keeps up. -/
structure AppSafe (s : AppPort) : Prop where
  noFault : s.port.arena.faulted = false
  freesStopped : FreesStopped s.port.arena.env
  once : ∀ b, freedCount s.port.arena b ≤ 1
  unlocked : s.locked = false
  opened : 0 < s.numQueues → s.device = true ∧ s.memPool = true ∧ s.port.devStarted = true ∧
    (∀ dir, s.port.nbQueues dir = s.numQueues) ∧ AllLive s.port
  closed : s.numQueues = 0 → s.memPool = false ∧ s.port.devStarted = false ∧
    ∀ b ∈ s.port.allocated, freedCount s.port.arena b = 1

/-- The calls that cannot but return: an initialisation of a port that is closed, of as many
    queues as there are channels at most and with memory for the pool, or of one that is gone;
    a receive burst on a queue that is open; and all but the transmit bursts, which wait for
    the device. -/
def Served (s : AppPort) : AppOp → Prop
  | .init env numQueues => s.device = true →
      s.numQueues = 0 ∧ env.hasPool = true ∧ numQueues ≤ xdmaChannelNumMax
  | .recv queue _ _ _ => queue < s.numQueues
  | .xmit _ _ _ => False
  | _ => True

theorem AppInv.safe (h : AppInv dpdk s) (hlock : s.locked = false) : AppSafe s where
  noFault := h.ok.noFault
  freesStopped := h.ok.freesStopped
  once := h.ok.reach.ledger.freedCount_le
  unlocked := hlock
  opened hpos := by
    rcases h.state with ⟨-, h0, -⟩ | ⟨hs, -, hmp, hdev⟩
    · exact absurd h0 hpos.ne'
    · exact ⟨hdev, hmp, hs.started, hs.nb, hs.allLive⟩
  closed h0 := by
    rcases h.state with ⟨hc, -, hmp⟩ | ⟨-, hpos, -, -⟩
    · exact ⟨hmp, hc.started, fun _ hb => h.ok.reach.ledger.freedCount_eq hc.dead hb⟩
    · exact absurd h0 hpos.ne'

theorem AppInv.served (h : AppInv dpdk s) (hlock : s.locked = false) {op : AppOp}
    (hfits : op.Fits) (hserved : Served s op) :
    ∃ ret s', s.exec dpdk op = some (ret, s') := by
  cases op with
  | init env numQueues =>
    cases hdev : s.device with
    | false =>
      refine ⟨-1, s, ?_⟩
      show s.portInit dpdk env numQueues = _
      unfold AppPort.portInit
      rw [if_pos hdev]
    | true =>
      obtain ⟨h0, hpool, hn⟩ := hserved hdev
      obtain ⟨s', hinit, -⟩ := h.portInit hdev h0 hpool hfits hn
      exact ⟨0, s', hinit⟩
  | close =>
    obtain ⟨s', hclose, -⟩ := h.portClose
    exact ⟨0, s', congrArg (Option.map fun s => (0, s)) hclose⟩
  | remove =>
    obtain ⟨s', hremove, -⟩ := h.portRemove hlock
    exact ⟨0, s', hremove⟩
  | reset env numQueues =>
    obtain ⟨s', hreset, -⟩ := h.portReset hlock env numQueues
    exact ⟨-1, s', hreset⟩
  | removeEvent type =>
    obtain ⟨s', hremove, -⟩ := h.portRemove hlock
    show ∃ ret s', s.devRemoveCallback dpdk type = some (ret, s')
    unfold AppPort.devRemoveCallback
    split
    · exact ⟨_, _, rfl⟩
    · exact ⟨0, s', congrArg (Option.map fun r => (0, r.2)) hremove⟩
  | resetEvent env type =>
    obtain ⟨s', hreset, -⟩ := h.portReset hlock env s.numQueues
    show ∃ ret s', s.devResetCallback dpdk env type = some (ret, s')
    unfold AppPort.devResetCallback
    split
    · exact ⟨_, _, rfl⟩
    · exact ⟨-1, s', hreset⟩
  | cleanUp =>
    obtain ⟨s', hclean, -⟩ := h.cleanUp hlock
    exact ⟨0, s', congrArg (Option.map fun s => (0, s)) hclean⟩
  | recv queue m nbPkts dev =>
    rcases h.state with ⟨-, h0, -⟩ | ⟨hs, -⟩
    · exact absurd hserved (by simp [Served, h0])
    · obtain ⟨j, e, hslot, hcell⟩ := hs.live .c2h queue hserved
      have hget : s.port.arena.get (s.port.queues .c2h queue) = some (j, e) :=
        Arena.get_eq_some.mpr ⟨hslot, hcell⟩
      obtain ⟨p', hp⟩ : ∃ p', s.port.exec dpdk (.recv queue m nbPkts dev) = some p' := by
        show ∃ p', burstOn s.port .c2h queue
          (fun e => some (xdmaRecvPkts e m nbPkts dev).engine) = some p'
        unfold burstOn
        rw [hget]
        exact ⟨_, rfl⟩
      have hexec : s.exec dpdk (.recv queue m nbPkts dev) = some (0, { s with port := p' }) := by
        simp only [AppPort.exec, hp, Option.map_some]
      exact ⟨0, _, hexec⟩
  | xmit queue b reads => exact hserved.elim

end

/-- **The life of a port.** However the application opens, closes, removes and resets a port,
    and whatever bursts come in between: no slot without engine is used, nothing is freed under
    a running engine, no block is freed twice and none is left once the port is closed; the
    lock is free between calls, and every call that can be served returns. -/
theorem app_lifecycle (dpdk : Dpdk) (s : AppPort) (h : AppReach dpdk s) :
    AppSafe s ∧ ∀ op : AppOp, op.Fits → Served s op →
      ∃ ret s', s.exec dpdk op = some (ret, s') := by
  obtain ⟨hinv, hlock⟩ := h.inv
  exact ⟨hinv.safe hlock, fun _ hfits hserved => hinv.served hlock hfits hserved⟩

/-- Memory for everything. -/
def InitEnv.plenty : InitEnv where
  alloc := fun _ _ => SetupAlloc.pages
  hasPool := true

/-- The port as `main` opens it. -/
theorem reach_four : ∃ s, AppReach Dpdk.plain s ∧ s.numQueues = 4 := by
  have hstart : AppReach Dpdk.plain .probed := .probed
  obtain ⟨s, hinit, -, h4, -⟩ : ∃ s,
      AppPort.probed.portInit Dpdk.plain InitEnv.plenty 4 = some (0, s) ∧
        AppInv Dpdk.plain s ∧ s.numQueues = 4 ∧ s.locked = false :=
    hstart.inv.1.portInit rfl rfl rfl (by decide) (by decide)
  have hfits : (AppOp.init InitEnv.plenty 4).Fits := Nat.succ_pos 3
  exact ⟨s, hstart.step (.init InitEnv.plenty 4) hfits hinit, h4⟩

/-- What holds of it. -/
theorem lifecycle_four :
    ∃ s, AppReach Dpdk.plain s ∧ s.numQueues = 4 ∧ AppSafe s ∧
      ∀ op : AppOp, op.Fits → Served s op → ∃ ret s', s.exec Dpdk.plain op = some (ret, s') := by
  obtain ⟨s, hreach, h4⟩ := reach_four
  exact ⟨s, hreach, h4, app_lifecycle Dpdk.plain s hreach⟩

/-- **Reset.** The reset event does not reset: the driver has no operation for it, so whatever
    the port was, it is left closed, with every block it had allocated freed, and the callback
    fails.  The port is not lost, for it can be opened again. -/
theorem resetEvent_closes (dpdk : Dpdk) (s : AppPort) (h : AppReach dpdk s)
    (hdev : s.device = true) (env : InitEnv) :
    ∃ s', s.devResetCallback dpdk env .intrReset = some (-1, s') ∧ AppReach dpdk s' ∧
      s'.numQueues = 0 ∧ s'.port.allocated = s.port.allocated ∧
      (∀ b ∈ s'.port.allocated, freedCount s'.port.arena b = 1) ∧
      ∀ n, 0 < n → n ≤ xdmaChannelNumMax → env.hasPool = true →
        ∃ s'', s'.portInit dpdk env n = some (0, s'') ∧ s''.numQueues = n := by
  obtain ⟨hinv, hlock⟩ := h.inv
  obtain ⟨s', hreset, hinv', h0, hdev', hlock', halloc⟩ := hinv.portReset hlock env s.numQueues
  refine ⟨s', hreset, h.step (.resetEvent env .intrReset) trivial hreset, h0, halloc,
    ((hinv'.safe hlock').closed h0).2.2, ?_⟩
  intro n hpos hn hpool
  obtain ⟨s'', hinit, -, hn'', -⟩ := hinv'.portInit (hdev'.trans hdev) h0 hpool hpos hn
  exact ⟨s'', hinit, hn''⟩

/-- The event on a port with four queues of each direction: their engines were live before and
    are freed. -/
theorem resetEvent_four :
    ∃ s s', AppReach Dpdk.plain s ∧ s.numQueues = 4 ∧
      s.devResetCallback Dpdk.plain InitEnv.plenty .intrReset = some (-1, s') ∧
      AppReach Dpdk.plain s' ∧ s'.numQueues = 0 ∧
      (∀ dir, ∀ i < 4, ∃ k, s.port.queues dir i = some k ∧
        freedCount s.port.arena (k, .engine) = 0 ∧ freedCount s'.port.arena (k, .engine) = 1) ∧
      ∀ n, 0 < n → n ≤ xdmaChannelNumMax →
        ∃ s'', s'.portInit Dpdk.plain InitEnv.plenty n = some (0, s'') ∧ s''.numQueues = n := by
  obtain ⟨s, hreach, h4⟩ := reach_four
  obtain ⟨hinv, hlock⟩ := hreach.inv
  obtain ⟨hdev, -, -, hnb, hlive⟩ := (hinv.safe hlock).opened (h4 ▸ Nat.succ_pos 3)
  obtain ⟨s', hreset, hreach', h0, halloc, hfreed, hagain⟩ :=
    resetEvent_closes Dpdk.plain s hreach hdev InitEnv.plenty
  refine ⟨s, s', hreach, h4, hreset, hreach', h0, ?_, fun n hpos hn => hagain n hpos hn rfl⟩
  intro dir i hi
  obtain ⟨k, e, hslot, hcell⟩ := hlive dir i (by rw [hnb, h4]; exact hi)
  obtain ⟨hmem, hnone⟩ := hinv.ok.reach.ledger.of_live hcell
  exact ⟨k, hslot, hnone, hfreed _ (halloc ▸ hmem)⟩

end XdmaDpdk
