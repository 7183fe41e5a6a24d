import XdmaDpdk.PortClose
import XdmaDpdk.PortLife

namespace XdmaDpdk

open Handles

/-!
# XDMA test application — opening and closing a port

The functions of the test application that open, close, remove and reset a port, and what
their calls do to it.

* `AppPort` — a port with its entry in `pinfo`;
* `portInit`, `portClose`, `portRemove`, `portReset`, the two event callbacks and the clean-up
  at the end of `main`;
* `PortOk` — what every call keeps of the port; `Closed`, `SetUp` — the states between them;
* `PortOk.open`, `PortOk.close`, `PortOk.uninit`, `PortOk.burst` — the sequences of calls the
  functions make go through, and where they lead.
-/

/-! ### The application's port -/

/-- A port, whether its device is there, and the parts of its `pinfo` entry that the functions
    test: `num_queues`, the pool of its name and `port_update_lock`. -/
structure AppPort where
  port : Port
  device : Bool
  numQueues : Nat
  memPool : Bool
  locked : Bool

/-- What an initialisation is given by its environment: the allocations of the queues, and
    whether there is memory for the pool. -/
structure InitEnv where
  alloc : DmaDataDirection → Nat → SetupAlloc
  hasPool : Bool

/-- The events of ethdev the callbacks tell apart. -/
inductive EthEvent
  | intrReset
  | intrRmv
  | other
deriving DecidableEq

/-- Calls on a port one after the other. -/
def Port.execs (dpdk : Dpdk) (p : Port) (ops : List PortOp) : Option Port :=
  ops.foldlM (Port.exec dpdk) p

/-- The two set-ups of a queue in the loop of `port_init`. -/
def setupCalls (env : InitEnv) (x : Nat) : List PortOp :=
  [.queueSetup .h2c (BitVec.ofNat 16 x) (env.alloc .h2c x),
    .queueSetup .c2h (BitVec.ofNat 16 x) (env.alloc .c2h x)]

/-- The calls of `port_init` on the port. -/
def initCalls (env : InitEnv) (numQueues : Nat) : List PortOp :=
  .configure numQueues numQueues :: (List.range numQueues).flatMap (setupCalls env) ++ [.ethStart]

/-- `-ENOMSG`. -/
def enomsg : Int := -42

namespace AppPort

/-- A port as the probe leaves it and `main` finds it. -/
def probed : AppPort where
  port := .probed
  device := true
  numQueues := 0
  memPool := false
  locked := false

variable (dpdk : Dpdk) (env : InitEnv) (s : AppPort)

/-- `port_init` and `port_init_xdma`; `none` at `rte_exit`, as a name of a pool that is in use
    is refused, and so is what ethdev refuses. -/
def portInit (numQueues : Nat) : Option (Int × AppPort) :=
  if s.device = false then some (-1, s)
  else if s.memPool = true ∨ env.hasPool = false then none
  else (s.port.execs dpdk (initCalls env numQueues)).map fun p =>
    (0, { s with port := p, numQueues := numQueues, memPool := true })

/-- `port_close`. -/
def portClose : Option AppPort :=
  if s.device = false then some s
  else (s.port.execs dpdk [.ethStop, .pmdClose]).map fun p =>
    { s with port := p, numQueues := 0, memPool := false }

/-- `rte_pmd_xdma_dev_remove`: the removal goes through `xdma_eth_dev_uninit`, which does not
    fail in the primary process, and ethdev releases the port. -/
def devRemove : Option AppPort :=
  (s.port.exec dpdk .devUninit).map fun p => { s with port := p, device := false }

/-- `port_remove`; a lock that is held is waited for forever. -/
def portRemove : Option (Int × AppPort) :=
  if s.device = false then some (0, s)
  else if s.locked then none
  else do
    let s ← portClose dpdk { s with locked := true }
    let s ← devRemove dpdk s
    some (0, { s with locked := false })

/-- `port_reset`. -/
def portReset (numQueues : Nat) : Option (Int × AppPort) :=
  if s.device = false then some (-1, s)
  else if s.locked then none
  else do
    let s ← portClose dpdk { s with locked := true }
    let (ret, port) := dpdk.ethDevReset (xdmaEthDevOps dpdk.virt2phy) s.port
    if ret < 0 then some (-1, { s with port := port, locked := false })
    else do
      let (ret, s) ← portInit dpdk env { s with port := port } numQueues
      some (ret, { s with locked := false })

/-- `dev_remove_callback`: what `port_remove` returns is not passed on. -/
def devRemoveCallback (type : EthEvent) : Option (Int × AppPort) :=
  if type ≠ .intrRmv then some (enomsg, s)
  else (portRemove dpdk s).map fun r => (0, r.2)

/-- `dev_reset_callback`. -/
def devResetCallback (type : EthEvent) : Option (Int × AppPort) :=
  if type ≠ .intrReset then some (enomsg, s)
  else portReset dpdk env s s.numQueues

/-- What `main` does with a port before it returns. -/
def cleanUp : Option AppPort :=
  (if s.numQueues ≠ 0 then portClose dpdk s else some s).bind fun s =>
    if s.device = false then some s else devRemove dpdk s

end AppPort

/-- What happens to a port of the application. -/
inductive AppOp
  | init (env : InitEnv) (numQueues : Nat)
  | close
  | remove
  | reset (env : InitEnv) (numQueues : Nat)
  | removeEvent (type : EthEvent)
  | resetEvent (env : InitEnv) (type : EthEvent)
  | cleanUp
  | recv (queue : Nat) (m : RxMem) (nbPkts : Nat) (dev : RxDevice)
  | xmit (queue : Nat) (b : TxBurst) (reads : List Nat)

/-- One call, with what it returns. -/
def AppPort.exec (dpdk : Dpdk) (s : AppPort) : AppOp → Option (Int × AppPort)
  | .init env numQueues => s.portInit dpdk env numQueues
  | .close => (s.portClose dpdk).map fun s => (0, s)
  | .remove => s.portRemove dpdk
  | .reset env numQueues => s.portReset dpdk env numQueues
  | .removeEvent type => s.devRemoveCallback dpdk type
  | .resetEvent env type => s.devResetCallback dpdk env type
  | .cleanUp => (s.cleanUp dpdk).map fun s => (0, s)
  | .recv queue m nbPkts dev =>
    (s.port.exec dpdk (.recv queue m nbPkts dev)).map fun p => (0, { s with port := p })
  | .xmit queue b reads =>
    (s.port.exec dpdk (.xmit queue b reads)).map fun p => (0, { s with port := p })

/-- A port is opened with at least one queue: given none, ethdev would configure one. -/
def AppOp.Fits : AppOp → Prop
  | .init _ numQueues => 0 < numQueues
  | _ => True

/-- The states calls in any order lead to. -/
inductive AppReach (dpdk : Dpdk) : AppPort → Prop
  | probed : AppReach dpdk .probed
  | step {s s' : AppPort} {ret : Int} (op : AppOp) : AppReach dpdk s → op.Fits →
      s.exec dpdk op = some (ret, s') → AppReach dpdk s'

/-! ### The port under the application -/

/-- What every call keeps of the port. -/
structure PortOk (dpdk : Dpdk) (p : Port) : Prop where
  reach : PortReach dpdk (fun _ _ => True) p
  life : LifeInv p
  noFault : p.arena.faulted = false
  freesStopped : FreesStopped p.arena.env

/-- No queue and no engine; `attached` when ethdev still has the port. -/
structure Closed (p : Port) (attached : Bool) : Prop where
  started : p.devStarted = false
  ops : p.devOps = attached
  nb : ∀ dir, p.nbQueues dir = 0
  queues : ∀ dir i, p.queues dir i = none
  dead : ∀ h, p.arena.cell h = none

/-- Configured for `n` queues of each direction, the first `k dir` of them set up. -/
structure SetUp (p : Port) (started : Bool) (n : Nat) (k : DmaDataDirection → Nat) : Prop where
  started : p.devStarted = started
  ops : p.devOps = true
  configured : p.devConfigured = true
  nb : ∀ dir, p.nbQueues dir = n
  live : ∀ dir, ∀ i < k dir, ∃ h e, p.queues dir i = some h ∧ p.arena.cell h = some e
  empty : ∀ dir i, k dir ≤ i → p.queues dir i = none

section
variable {dpdk : Dpdk} {p p' : Port} {op : PortOp} {started attached : Bool} {n : Nat}
  {k : DmaDataDirection → Nat}

@[simp] theorem execs_nil (p : Port) : p.execs dpdk [] = some p := rfl

theorem execs_cons (hexec : p.exec dpdk op = some p') (ops : List PortOp) :
    p.execs dpdk (op :: ops) = p'.execs dpdk ops := by
  show ((p.exec dpdk op).bind fun p => p.execs dpdk ops) = _
  rw [hexec, Option.bind_some]

theorem execs_append {ops : List PortOp} (hexec : p.execs dpdk ops = some p')
    (ops' : List PortOp) : p.execs dpdk (ops ++ ops') = p'.execs dpdk ops' := by
  have happ : p.execs dpdk (ops ++ ops')
      = (p.execs dpdk ops).bind fun p => p.execs dpdk ops' := List.foldlM_append
  rw [happ, hexec, Option.bind_some]

/-- A call that does not fault and frees nothing under a running engine. -/
theorem PortOk.step (h : PortOk dpdk p) (hexec : p.exec dpdk op = some p')
    (honce : ConfiguredOnce p op) (hlive : UsesQueues p op → AllLive p)
    (hsound : CloseSound p op) : PortOk dpdk p' where
  reach := h.reach.step op h.noFault trivial hexec
  life := h.life.step h.reach.inv h.noFault honce hexec
  noFault := (exec_faulted h.reach.inv h.noFault hexec).mpr hlive
  freesStopped := by
    have hT := h.reach.tracks h.freesStopped
    exact (freesStopped_step h.reach.inv hT h.freesStopped h.noFault hexec).mpr hsound

/-- Calls that do not go through the queues. -/
theorem PortOk.quiet (h : PortOk dpdk p) (hexec : p.exec dpdk op = some p')
    (honce : ConfiguredOnce p op) (huse : ¬ UsesQueues p op) (hop : op.closes = false) :
    PortOk dpdk p' :=
  h.step hexec honce (fun hu => absurd hu huse) (closeSound_of_open hop)

/-- Asked for queues, ethdev gives as many as it is asked for. -/
theorem queueCounts_self (hpos : 0 < n) (dir : DmaDataDirection) : queueCounts n n dir = n := by
  unfold queueCounts
  rw [if_neg (fun h => hpos.ne' h.1)]
  cases dir <;> rfl

/-- A port whose engines are all gone may be configured again. -/
theorem PortOk.configure (h : PortOk dpdk p) (hc : Closed p true) (hpos : 0 < n)
    (hn : n ≤ xdmaChannelNumMax) :
    ∃ p', p.exec dpdk (.configure n n) = some p' ∧ PortOk dpdk p' ∧
      SetUp p' false n fun _ => 0 := by
  have hexec : p.exec dpdk (.configure n n) = some (p.configured n n) := by
    rw [exec_configure, queueCounts_self hpos, queueCounts_self hpos]
    exact if_pos ⟨hc.ops, hc.started, hn, hn⟩
  refine ⟨_, hexec, ⟨h.reach.step _ h.noFault trivial hexec, ?_, h.noFault, h.freesStopped⟩,
    ⟨hc.started, hc.ops, rfl, queueCounts_self hpos, nofun, ?_⟩⟩
  · refine ⟨nofun, fun _ k e hk => ?_⟩
    have hk' : p.arena.cell k = some e := hk
    rw [hc.dead] at hk'
    cases hk'
  · intro dir i _
    show (if i < _ then p.queues dir i else none) = none
    rw [hc.queues, ite_self]

/-! ### Setting up the queues -/

theorem queueSetup_queues_self {virt2phy : Addr → Addr} (dir : DmaDataDirection) (c : BitVec 16)
    (a : SetupAlloc) :
    (queueSetup virt2phy p dir c a).queues dir c.toNat = some p.nextHandle := by
  show Function.update p.queues dir _ dir c.toNat = _
  rw [Function.update_self, Function.update_self]

theorem queueSetup_queues_of_ne {virt2phy : Addr → Addr} {dir dir' : DmaDataDirection}
    {c : BitVec 16} {i : Nat}
    (hne : ¬ (dir' = dir ∧ i = c.toNat)) (a : SetupAlloc) :
    (queueSetup virt2phy p dir c a).queues dir' i = p.queues dir' i := by
  show Function.update p.queues dir _ dir' i = _
  by_cases hdir : dir' = dir
  · subst hdir
    rw [Function.update_self, Function.update_of_ne fun hi => hne ⟨rfl, hi⟩]
  · rw [Function.update_of_ne hdir]

theorem queueSetup_cell_of_lt {virt2phy : Addr → Addr} {h : Nat} (hlt : h < p.nextHandle)
    (dir : DmaDataDirection) (c : BitVec 16) (a : SetupAlloc) :
    (queueSetup virt2phy p dir c a).arena.cell h = p.arena.cell h :=
  Function.update_of_ne hlt.ne _ _

/-- The name of the next queue is free: a live engine with it would be in its slot. -/
theorem SetUp.zoneFree (hok : PortOk dpdk p) (h : SetUp p started n k) {dir : DmaDataDirection}
    (hlt : k dir < n) : zoneTaken p dir (BitVec.ofNat 16 (k dir)) = false := by
  have hnb := hok.reach.inv.nb_le dir
  rw [h.nb] at hnb
  unfold xdmaChannelNumMax at hnb
  unfold zoneTaken
  rw [List.any_eq_false]
  intro j _
  cases hcell : p.arena.cell j with
  | none => exact Bool.false_ne_true
  | some e =>
    intro hname
    simp only [Bool.and_eq_true, beq_iff_eq] at hname
    -- A live engine is in the slot of its name, and that slot is still empty.
    obtain ⟨d, i, -, hslot⟩ := hok.life.noLeak hok.noFault j e hcell
    obtain ⟨hdir, hchan⟩ := hok.reach.inv.slot_engine hslot hcell
    have hi : i = k dir := by
      rw [← hchan, hname.2, BitVec.toNat_setWidth, BitVec.toNat_ofNat]
      omega
    rw [hi, ← hdir, hname.1, h.empty dir (k dir) (Nat.le_refl _)] at hslot
    cases hslot

/-- The next queue of a direction is set up. -/
theorem SetUp.queueSetup (hok : PortOk dpdk p) (h : SetUp p started n k)
    {dir : DmaDataDirection} (hlt : k dir < n) (a : SetupAlloc) :
    ∃ p', p.exec dpdk (.queueSetup dir (BitVec.ofNat 16 (k dir)) a) = some p' ∧
      PortOk dpdk p' ∧ SetUp p' started n (Function.update k dir (k dir + 1)) := by
  have hinv := hok.reach.inv
  have hnb := hinv.nb_le dir
  rw [h.nb] at hnb
  unfold xdmaChannelNumMax at hnb
  have hc : (BitVec.ofNat 16 (k dir)).toNat = k dir := by
    rw [BitVec.toNat_ofNat]
    omega
  have hlt' : (BitVec.ofNat 16 (k dir)).toNat < p.nbQueues dir := by
    rw [hc, h.nb]
    exact hlt
  have hexec : p.exec dpdk (.queueSetup dir (BitVec.ofNat 16 (k dir)) a)
      = some (XdmaDpdk.queueSetup dpdk.virt2phy p dir (BitVec.ofNat 16 (k dir)) a) :=
    (exec_queueSetup dpdk p dir _ a).trans (if_pos ⟨h.ops, hlt', h.zoneFree hok hlt⟩)
  refine ⟨_, hexec, hok.quiet hexec trivial id rfl,
    ⟨h.started, h.ops, h.configured, h.nb, ?_, ?_⟩⟩
  · intro d i hi
    by_cases hnew : d = dir ∧ i = k dir
    · obtain ⟨rfl, rfl⟩ := hnew
      refine ⟨p.nextHandle, _, ?_, Arena.put_cell_self ..⟩
      have hself : (XdmaDpdk.queueSetup dpdk.virt2phy p d (BitVec.ofNat 16 (k d)) a).queues d
          (BitVec.ofNat 16 (k d)).toNat = some p.nextHandle := queueSetup_queues_self d _ a
      rwa [hc] at hself
    · -- A queue set up before keeps its handle and its engine.
      have hi' : i < k d := by
        by_cases hd : d = dir
        · subst hd
          rw [Function.update_self] at hi
          have hne : i ≠ k d := fun heq => hnew ⟨rfl, heq⟩
          omega
        · rwa [Function.update_of_ne hd] at hi
      obtain ⟨j, e, hslot, hcell⟩ := h.live d i hi'
      refine ⟨j, e, ?_, ?_⟩
      · rw [queueSetup_queues_of_ne (by rwa [hc])]
        exact hslot
      · rw [queueSetup_cell_of_lt (hinv.cell_lt hcell)]
        exact hcell
  · intro d i hi
    have hne : ¬ (d = dir ∧ i = k dir) := by
      rintro ⟨rfl, rfl⟩
      rw [Function.update_self] at hi
      omega
    rw [queueSetup_queues_of_ne (by rwa [hc])]
    apply h.empty
    by_cases hd : d = dir
    · subst hd
      rw [Function.update_self] at hi
      omega
    · rwa [Function.update_of_ne hd] at hi

/-- The loop of `port_init`, from queue `x` on. -/
theorem SetUp.loop (env : InitEnv) (m x : Nat) (hok : PortOk dpdk p)
    (h : SetUp p started n fun _ => x) (hn : x + m = n) :
    ∃ p', p.execs dpdk ((List.range' x m).flatMap (setupCalls env)) = some p' ∧
      PortOk dpdk p' ∧ SetUp p' started n fun _ => n := by
  induction m generalizing x p with
  | zero =>
    obtain rfl : x = n := hn
    exact ⟨p, rfl, hok, h⟩
  | succ m ih =>
    have hlt : x < n := by omega
    -- Queue `x` of the transmit side first, then that of the receive side.
    have hlt₀ : (fun _ => x) DmaDataDirection.h2c < n := hlt
    obtain ⟨p₁, hexec₁, hok₁, h₁⟩ := h.queueSetup hok hlt₀ (env.alloc .h2c x)
    have hlt₁ : Function.update (fun _ => x) .h2c (x + 1) DmaDataDirection.c2h < n := hlt
    obtain ⟨p₂, hexec₂, hok₂, h₂⟩ := h₁.queueSetup hok₁ hlt₁ (env.alloc .c2h x)
    have hk : Function.update (Function.update (fun _ => x) .h2c (x + 1)) .c2h (x + 1)
        = fun _ : DmaDataDirection => x + 1 := by
      funext dir
      cases dir <;> rfl
    have h₂' : SetUp p₂ started n fun _ => x + 1 := hk ▸ h₂
    obtain ⟨p', hexec, hok', h'⟩ := ih (x + 1) hok₂ h₂' (by omega)
    refine ⟨p', ?_, hok', h'⟩
    rw [List.range'_succ, List.flatMap_cons]
    show p.execs dpdk (_ :: _ :: _) = _
    rw [execs_cons hexec₁]
    exact (execs_cons hexec₂ _).trans hexec

/-- **Open.** The calls of `port_init` on a closed port go through. -/
theorem PortOk.open (env : InitEnv) (hok : PortOk dpdk p) (hc : Closed p true) (hpos : 0 < n)
    (hn : n ≤ xdmaChannelNumMax) :
    ∃ p', p.execs dpdk (initCalls env n) = some p' ∧ PortOk dpdk p' ∧
      SetUp p' true n fun _ => n := by
  obtain ⟨p₁, hconf, hok₁, h₁⟩ := hok.configure hc hpos hn
  obtain ⟨p₂, hloop, hok₂, h₂⟩ := h₁.loop env n 0 hok₁ (Nat.zero_add n)
  have hstart : p₂.exec dpdk .ethStart = some p₂.started :=
    (exec_ethStart dpdk p₂).trans (if_pos ⟨h₂.ops, h₂.configured⟩)
  have hstart' : p₂.started = { xdmaDevStart p₂ with devStarted := true } :=
    if_neg (ne_true_of_eq_false h₂.started)
  refine ⟨_, ?_, hok₂.quiet hstart trivial id rfl, ?_⟩
  · unfold initCalls
    rw [List.cons_append, execs_cons hconf, List.range_eq_range', execs_append hloop,
      execs_cons hstart]
    rfl
  · rw [hstart']
    exact ⟨rfl, h₂.ops, h₂.configured, h₂.nb, h₂.live, h₂.empty⟩

/-! ### Closing -/

theorem SetUp.allLive (h : SetUp p started n fun _ => n) : AllLive p := by
  intro dir i hi
  rw [h.nb] at hi
  exact h.live dir i hi

theorem Closed.allLive (hc : Closed p attached) : AllLive p := by
  intro dir i hi
  rw [hc.nb] at hi
  cases hi

theorem Closed.queuesIdle (hc : Closed p attached) : QueuesIdle p := by
  intro r hr
  have hcell := (Arena.mem_reached hr).2
  rw [hc.dead] at hcell
  cases hcell

/-- `rte_pmd_xdma_dev_close` of a port that has stopped. -/
theorem PortOk.pmdClose (hok : PortOk dpdk p) (hops : p.devOps = true) (hlive : AllLive p)
    (hidle : QueuesIdle p) :
    ∃ p', p.exec dpdk .pmdClose = some p' ∧ PortOk dpdk p' ∧ Closed p' true ∧
      p'.allocated = p.allocated := by
  have hexec : p.exec dpdk .pmdClose = some (rtePmdXdmaDevClose p) := rfl
  have hok' := hok.step hexec trivial (fun _ => hlive) hidle
  have hdead := dead_close hok.reach.inv hok.life hok.noFault rfl hexec hok'.noFault
  exact ⟨_, hexec, hok', ⟨rfl, hops, fun _ => rfl, fun _ _ => rfl, hdead⟩,
    (Evolves.pmdClose hok.reach.inv).allocated⟩

/-- **Close.** The calls of `port_close` go through: an open port is stopped first, so that
    nothing is freed under a running engine. -/
theorem PortOk.close (hok : PortOk dpdk p)
    (h : Closed p true ∨ SetUp p true n fun _ => n) :
    ∃ p', p.execs dpdk [.ethStop, .pmdClose] = some p' ∧ PortOk dpdk p' ∧ Closed p' true ∧
      p'.allocated = p.allocated := by
  have hpair : ∀ {p₁ p'}, p.exec dpdk .ethStop = some p₁ →
      p₁.exec dpdk .pmdClose = some p' →
      p.execs dpdk [.ethStop, .pmdClose] = some p' := by
    intro p₁ p' h₁ h'
    rw [execs_cons h₁, execs_cons h', execs_nil]
  rcases h with hc | hs
  · -- Stopping a closed port does nothing.
    have hnoop : p.halted = p := if_neg (ne_true_of_eq_false hc.started)
    have hstop : p.exec dpdk .ethStop = some p.halted := (exec_ethStop dpdk p).trans (if_pos hc.ops)
    rw [hnoop] at hstop
    obtain ⟨p', hclose, hok', hc'⟩ := hok.pmdClose hc.ops hc.allLive hc.queuesIdle
    exact ⟨p', hpair hstop hclose, hok', hc'⟩
  · have hstop : p.exec dpdk .ethStop = some p.halted := (exec_ethStop dpdk p).trans (if_pos hs.ops)
    have hstop' : p.halted = xdmaDevStop { p with devStarted := false } :=
      if_pos hs.started
    have hok₁ := hok.step hstop trivial (fun _ => hs.allLive) trivial
    rw [hstop'] at hstop hok₁
    -- The stop leaves every engine idle and frees none.
    have hlive₁ : AllLive (xdmaDevStop { p with devStarted := false }) :=
      allLive_devStop (hok.reach.inv.started false) hok.noFault hs.allLive
    have hidle := idle_devStop (hok.reach.inv.started false) hok.noFault hok₁.noFault
    obtain ⟨p', hclose, hok', hc'⟩ := hok₁.pmdClose hs.ops hlive₁ hidle
    exact ⟨p', hpair hstop hclose, hok', hc'⟩

/-- **Remove.** The uninit of a closed port finds nothing to free. -/
theorem PortOk.uninit (hok : PortOk dpdk p) (hc : Closed p true) :
    ∃ p', p.exec dpdk .devUninit = some p' ∧ PortOk dpdk p' ∧ Closed p' false := by
  have hexec : p.exec dpdk .devUninit = some (xdmaEthDevUninit p) := rfl
  have hok' := hok.step hexec trivial (fun _ => hc.allLive) (.inr (.inr hc.queuesIdle))
  have hdead := dead_close hok.reach.inv hok.life hok.noFault rfl hexec hok'.noFault
  refine ⟨_, hexec, hok', ⟨?_, rfl, fun _ => rfl, ?_, hdead⟩⟩
  · show (if p.devConfigured then xdmaDevClose p else p).devStarted = false
    unfold xdmaDevClose
    rw [if_neg (ne_true_of_eq_false hc.started)]
    split <;> exact hc.started
  · intro dir i
    show (if p.devConfigured then xdmaDevClose p else p).queues dir i = none
    split
    · rw [(SameArrays.devClose p).queues]
      exact hc.queues dir i
    · exact hc.queues dir i

/-- The operations on the data path. -/
def PortOp.bursts : PortOp → Bool
  | .recv _ _ _ _ => true
  | .xmit _ _ _ => true
  | _ => false

/-- **Bursts** on an open port. -/
theorem PortOk.burst (hok : PortOk dpdk p) (h : SetUp p true n k) (hop : op.bursts = true)
    (hexec : p.exec dpdk op = some p') : PortOk dpdk p' ∧ SetUp p' true n k := by
  have hkept : ∀ dir queue burst, burstOn p dir queue burst = some p' → SetUp p' true n k := by
    intro dir queue burst hb
    obtain ⟨j, e, e', -, hcell, -, rfl⟩ := burstOn_cases hb
    refine ⟨h.started, h.ops, h.configured, h.nb, ?_, h.empty⟩
    intro d i hi
    obtain ⟨j', a, hslot, ha⟩ := h.live d i hi
    -- The burst puts its engine back where it was.
    by_cases hj : j' = j
    · exact ⟨j', e', hslot, hj ▸ Arena.put_cell_self ..⟩
    · exact ⟨j', a, hslot, (Arena.put_cell_of_ne _ hj _).trans ha⟩
  cases op with
  | recv queue m nbPkts dev =>
    have hb : burstOn p .c2h queue (fun e => some (xdmaRecvPkts e m nbPkts dev).engine)
        = some p' := hexec
    exact ⟨hok.quiet hexec trivial id rfl, hkept .c2h queue _ hb⟩
  | xmit queue b reads =>
    have hb : burstOn p .h2c queue (fun e => (xdmaXmitPkts e b reads).map XmitResult.engine)
        = some p' := hexec
    exact ⟨hok.quiet hexec trivial id rfl, hkept .h2c queue _ hb⟩
  | _ => cases hop

/-- Without queues there is nothing to burst on. -/
theorem Closed.no_burst (hc : Closed p attached) (hop : op.bursts = true) :
    p.exec dpdk op = none := by
  have hnone : ∀ dir queue burst, burstOn p dir queue burst = none := by
    intro dir queue burst
    unfold burstOn
    rw [hc.queues]
    rfl
  cases op with
  | recv queue m nbPkts dev =>
    exact hnone .c2h queue fun e => some (xdmaRecvPkts e m nbPkts dev).engine
  | xmit queue b reads =>
    exact hnone .h2c queue fun e => (xdmaXmitPkts e b reads).map XmitResult.engine
  | _ => cases hop

end

end XdmaDpdk
