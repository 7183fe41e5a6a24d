import XdmaDpdk.History
import XdmaDpdk.Lib.Arena

namespace XdmaDpdk

open Handles

/-!
# XDMA driver — the port and its close paths

The ethernet port around the engines: the queue arrays `rx_queues` / `tx_queues` with their
counts, the flags the close paths test, and the engines themselves behind handles.  A slot
holds the handle of an engine or none (`NULL`); freeing an engine takes the object away and
leaves the handle in its slot, as the source does.  All engines of a port write one set of
registers, so the register log is the arena's environment (`DevLog`), next to the record of
what was freed.

* `xdmaDevStop`, `xdmaDevClose`, `rtePmdXdmaDevClose`, `xdmaEthDevUninit` — the stop and the
  three close paths;
* `xdmaEthDevOps` — the driver's table of operations, and `Dpdk` — what the driver is linked
  against: the functions of ethdev that go through the table, with what they are documented
  to do, and the translation of addresses;
* `Port.exec` — one operation on the port;
* `PortReach` — the states a sequence of operations leads to, each step within a policy `ok`.
-/

/-- `XDMA_CHANNEL_NUM_MAX`. -/
def xdmaChannelNumMax : Nat := 4

def irqUserInterruptEnableMaskW1s : Nat := 0x2008
def irqChannelInterruptEnableMaskW1s : Nat := 0x2014

/-! ### The port -/

/-- What a queue owns: its software ring, its zone of descriptors, and the engine. -/
inductive Block
  | swRing
  | memzone
  | engine
deriving DecidableEq, Repr

/-- The blocks of a queue the driver frees: `sw_ring` only when it is not `NULL`. -/
def XdmaEngine.blocks (e : XdmaEngine) : List Block :=
  if e.swRing = 0 then [.memzone, .engine] else [.swRing, .memzone, .engine]

/-- `H2C_CHANNEL_CTRL` or `C2H_CHANNEL_CTRL`. -/
def channelCtrl : DmaDataDirection → Nat
  | .h2c => h2cChannelCtrl
  | .c2h => c2hChannelCtrl

/-- The last value written to a register. -/
def lastWrite (regs : List RegWrite) (offset : Nat) : Option (BitVec 32) :=
  (regs.reverse.find? (fun w => w.offset == offset)).map RegWrite.val

/-- `CTRL_RUN_STOP` in the last value written to a channel's control register; clear before
    the first write. -/
def runBit (regs : List RegWrite) (dir : DmaDataDirection) (channel : BitVec 2) : Bool :=
  ((lastWrite regs (channelCtrl dir + channel.toNat * 0x100)).getD 0 &&& ctrlRunStop) != 0

/-- One block freed: the engine it belonged to, and the run bit of its channel then. -/
structure FreeEvent where
  handle : Nat
  block : Block
  run : Bool
deriving DecidableEq, Repr

/-- The registers written on a port and the blocks freed, both in order. -/
structure DevLog where
  regs : List RegWrite
  freed : List FreeEvent

/-- The parts of `struct rte_eth_dev`, its data and `struct xdma_dev` the close paths work on.
    The queue arrays and counts are given by direction: `c2h` for the receive side.
    `devConfigured` is the flag of that name in both, which are set together.
    `nextHandle` and `allocated` belong to the allocator. -/
structure Port where
  devStarted : Bool
  devConfigured : Bool
  devOps : Bool
  nbQueues : DmaDataDirection → Nat
  queues : DmaDataDirection → Nat → Option Nat
  arena : Arena DevLog XdmaEngine
  nextHandle : Nat
  allocated : List (Nat × Block)

/-- A port as `xdma_eth_dev_init` leaves it. -/
def Port.probed : Port where
  devStarted := false
  devConfigured := false
  devOps := true
  nbQueues := fun _ => 0
  queues := fun _ _ => none
  arena := { env := { regs := [], freed := [] }, cell := fun _ => none, faulted := false }
  nextHandle := 0
  allocated := []

/-- The slots a loop over the queues of one direction goes through. -/
def Port.slots (p : Port) (dir : DmaDataDirection) : List (DmaDataDirection × Option Nat) :=
  (List.range (p.nbQueues dir)).map fun i => (dir, p.queues dir i)

/-! ### Stop and close -/

/-- The engine as it writes to the registers of its port. -/
def XdmaEngine.on (e : XdmaEngine) (log : DevLog) : XdmaEngine := { e with regWrites := log.regs }

/-- The registers an engine has written become those of the port. -/
def settle (log : DevLog) (e : XdmaEngine) : DevLog × Option XdmaEngine :=
  ({ log with regs := e.regWrites }, some e)

def engineStopOf : DmaDataDirection → XdmaEngine → XdmaEngine
  | .h2c => xdmaTxEngineStop
  | .c2h => xdmaRxEngineStop

/-- The body of the two loops of `xdma_dev_stop`. -/
def stopQueue (dir : DmaDataDirection) (log : DevLog) (_ : Nat) (e : XdmaEngine) :
    DevLog × Option XdmaEngine := settle log (engineStopOf dir (e.on log))

/-- The events of freeing a queue. -/
def freeEvents (regs : List RegWrite) (h : Nat) (e : XdmaEngine) : List FreeEvent :=
  e.blocks.map fun b => { handle := h, block := b, run := runBit regs e.dir e.channel }

/-- The body of the two loops of `xdma_dev_close`. -/
def freeQueue (dir : DmaDataDirection) (log : DevLog) (h : Nat) (e : XdmaEngine) :
    DevLog × Option XdmaEngine :=
  if e.dir = dir then ({ log with freed := log.freed ++ freeEvents log.regs h e }, none)
  else (log, some e)

/-- `xdma_dev_stop`: the transmit queues, then the receive queues. -/
def xdmaDevStop (p : Port) : Port :=
  { p with arena := (p.arena.sweep stopQueue (p.slots .h2c)).sweep stopQueue (p.slots .c2h) }

/-- The two loops of `xdma_dev_close`: the receive queues, then the transmit queues. -/
def freeQueues (p : Port) : Port :=
  { p with arena := (p.arena.sweep freeQueue (p.slots .c2h)).sweep freeQueue (p.slots .h2c) }

/-- `xdma_dev_close`. -/
def xdmaDevClose (p : Port) : Port := freeQueues (if p.devStarted then xdmaDevStop p else p)

/-- The arrays given back and the counts zeroed, at the end of `rte_pmd_xdma_dev_close`. -/
def releaseArrays (p : Port) : Port := { p with nbQueues := fun _ => 0, queues := fun _ _ => none }

/-- `rte_pmd_xdma_dev_close`; `dev_started` is cleared first. -/
def rtePmdXdmaDevClose (p : Port) : Port :=
  releaseArrays (xdmaDevClose { p with devStarted := false })

/-- `xdma_eth_dev_uninit`, in the primary process. -/
def xdmaEthDevUninit (p : Port) : Port :=
  let p := if p.devConfigured then xdmaDevClose p else p
  { p with devOps := false, nbQueues := fun _ => 0 }

/-! ### The other operations -/

/-- `xdma_dev_configure`, of which only the flag is left. -/
def xdmaDevConfigure (p : Port) : Port := { p with devConfigured := true }

/-- `xdma_dev_infos_get`: `max_rx_queues` and `max_tx_queues`, as the probe sets the private
    data they are copied from. -/
def xdmaDevInfosGet (_ : DmaDataDirection) : Nat := xdmaChannelNumMax

def engineSetupOf (virt2phy : Addr → Addr) :
    DmaDataDirection → BitVec 16 → SetupAlloc → XdmaEngine
  | .h2c => xdmaTxEngineSetup virt2phy
  | .c2h => xdmaRxEngineSetup virt2phy

/-- A queue set-up: a new engine, its blocks, and its handle in the slot of the channel. -/
def queueSetup (virt2phy : Addr → Addr) (p : Port) (dir : DmaDataDirection)
    (channelId : BitVec 16) (a : SetupAlloc) : Port :=
  let e := engineSetupOf virt2phy dir channelId a
  { p with
    queues := Function.update p.queues dir
      (Function.update (p.queues dir) channelId.toNat (some p.nextHandle))
    arena := p.arena.put p.nextHandle (p.arena.env, some e)
    nextHandle := p.nextHandle + 1
    allocated := p.allocated ++ e.blocks.map fun b => (p.nextHandle, b) }

/-- The name of the zone, built from direction and channel, is in use: reserving it again
    returns `NULL`, which the set-up dereferences. -/
def zoneTaken (p : Port) (dir : DmaDataDirection) (channelId : BitVec 16) : Bool :=
  (List.range p.nextHandle).any fun h => match p.arena.cell h with
    | some e => e.dir == dir && e.channel == channelId.setWidth 2
    | none => false

/-- `xdma_dev_start`: the user and the channel interrupts are enabled. -/
def xdmaDevStart (p : Port) : Port :=
  let regs := p.arena.env.regs ++
    [⟨irqUserInterruptEnableMaskW1s, ~~~0⟩, ⟨irqChannelInterruptEnableMaskW1s, ~~~0⟩]
  { p with arena := { p.arena with env := { p.arena.env with regs := regs } } }

/-- `xdma_rx_engine_setup` or `xdma_tx_engine_setup` on the port; `none` when it crashes. -/
def queueSetupOp (virt2phy : Addr → Addr) (dir : DmaDataDirection) (p : Port)
    (channelId : BitVec 16) (a : SetupAlloc) : Option Port :=
  if zoneTaken p dir channelId then none else some (queueSetup virt2phy p dir channelId a)

/-- A burst on the engine of a queue. -/
def burstOn (p : Port) (dir : DmaDataDirection) (queue : Nat)
    (burst : XdmaEngine → Option XdmaEngine) : Option Port :=
  match p.arena.get (p.queues dir queue) with
  | none => none
  | some (h, e) =>
    (burst (e.on p.arena.env)).map fun e' =>
      { p with arena := p.arena.put h (settle p.arena.env e') }

/-! ### The table of operations and ethdev -/

/-- The entries of `struct eth_dev_ops` that ethdev goes through here, `none` for `NULL`; the
    queue set-ups and the counts of `dev_infos_get` by direction. -/
structure EthDevOps where
  devConfigure : Option (Port → Port)
  devInfosGet : DmaDataDirection → Nat
  devStart : Option (Port → Port)
  devStop : Option (Port → Port)
  devReset : Option (Port → Int × Port)
  queueSetup : DmaDataDirection → Option (Port → BitVec 16 → SetupAlloc → Option Port)

/-- `xdma_eth_dev_ops`. -/
def xdmaEthDevOps (virt2phy : Addr → Addr) : EthDevOps where
  devConfigure := some xdmaDevConfigure
  devInfosGet := xdmaDevInfosGet
  devStart := some xdmaDevStart
  devStop := some xdmaDevStop
  -- The line of `.dev_reset` is commented out.
  devReset := none
  queueSetup dir := some (queueSetupOp virt2phy dir)

/-- `-ENOTSUP`. -/
def enotsup : Int := -95

/-- The counts `rte_eth_dev_configure` works with: one queue of each direction when it is asked
    for none. -/
def queueCounts (nbRx nbTx : Nat) : DmaDataDirection → Nat :=
  if nbRx = 0 ∧ nbTx = 0 then fun _ => 1
  else fun dir => match dir with
    | .c2h => nbRx
    | .h2c => nbTx

/-- The queue arrays for new counts: the slots beyond them are cleared. -/
def Port.withCounts (p : Port) (nb : DmaDataDirection → Nat) : Port :=
  { p with
    nbQueues := nb
    queues := fun dir i => if i < nb dir then p.queues dir i else none }

/-- The parts of DPDK the driver is called through and calls, with what the driver and the
    applications rely on: the functions of ethdev on a table of operations (`none` when they
    refuse or the operation crashes), and `rte_mem_virt2phy`.  The fields `*_eq` and
    `reset_of_none` are what ethdev documents of them. -/
structure Dpdk where
  virt2phy : Addr → Addr
  ethDevConfigure : EthDevOps → Port → Nat → Nat → Option Port
  ethDevStart : EthDevOps → Port → Option Port
  ethDevStop : EthDevOps → Port → Option Port
  ethDevReset : EthDevOps → Port → Int × Port
  ethQueueSetup : EthDevOps → Port → DmaDataDirection → BitVec 16 → SetupAlloc → Option Port
  /-- Refused on a started port and beyond the driver's maximum; the arrays first, then the
      driver. -/
  configure_eq : ∀ {ops : EthDevOps} {f : Port → Port}, ops.devConfigure = some f →
    ∀ (p : Port) (nbRx nbTx : Nat), ethDevConfigure ops p nbRx nbTx =
      if p.devOps = true ∧ p.devStarted = false ∧
          queueCounts nbRx nbTx .c2h ≤ ops.devInfosGet .c2h ∧
          queueCounts nbRx nbTx .h2c ≤ ops.devInfosGet .h2c then
        some (f (p.withCounts (queueCounts nbRx nbTx)))
      else none
  /-- Refused before the port is configured; a started port is left alone. -/
  start_eq : ∀ {ops : EthDevOps} {f : Port → Port}, ops.devStart = some f →
    ∀ p : Port, ethDevStart ops p =
      if p.devOps = true ∧ p.devConfigured = true then
        some (if p.devStarted then p else { f p with devStarted := true })
      else none
  /-- A stopped port is left alone. -/
  stop_eq : ∀ {ops : EthDevOps} {f : Port → Port}, ops.devStop = some f →
    ∀ p : Port, ethDevStop ops p =
      if p.devOps = true then some (if p.devStarted then { f p with devStarted := false } else p)
      else none
  /-- Without an operation to call, the port is left alone. -/
  reset_of_none : ∀ {ops : EthDevOps}, ops.devReset = none →
    ∀ p : Port, p.devOps = true → ethDevReset ops p = (enotsup, p)
  /-- Refused beyond the counts. -/
  queueSetup_eq : ∀ {ops : EthDevOps} {dir : DmaDataDirection}
      {f : Port → BitVec 16 → SetupAlloc → Option Port}, ops.queueSetup dir = some f →
    ∀ (p : Port) (channelId : BitVec 16) (a : SetupAlloc), ethQueueSetup ops p dir channelId a =
      if p.devOps = true ∧ channelId.toNat < p.nbQueues dir then f p channelId a else none

/-- `rte_eth_dev_stop` as documented. -/
def EthDevOps.stop (ops : EthDevOps) (p : Port) : Option Port := ops.devStop.bind fun f =>
  if p.devOps = true then some (if p.devStarted then { f p with devStarted := false } else p)
  else none

/-- ethdev to the letter. -/
def Dpdk.documented (virt2phy : Addr → Addr) : Dpdk where
  virt2phy := virt2phy
  ethDevConfigure ops p nbRx nbTx := ops.devConfigure.bind fun f =>
    if p.devOps = true ∧ p.devStarted = false ∧
        queueCounts nbRx nbTx .c2h ≤ ops.devInfosGet .c2h ∧
        queueCounts nbRx nbTx .h2c ≤ ops.devInfosGet .h2c then
      some (f (p.withCounts (queueCounts nbRx nbTx)))
    else none
  ethDevStart ops p := ops.devStart.bind fun f =>
    if p.devOps = true ∧ p.devConfigured = true then
      some (if p.devStarted then p else { f p with devStarted := true })
    else none
  ethDevStop := EthDevOps.stop
  ethDevReset ops p := match ops.devReset with
    | none => (enotsup, p)
    | some f => f ((ops.stop p).getD p)
  ethQueueSetup ops p dir channelId a := (ops.queueSetup dir).bind fun f =>
    if p.devOps = true ∧ channelId.toNat < p.nbQueues dir then f p channelId a else none
  configure_eq hops _ _ _ := by rw [hops, Option.bind_some]
  start_eq hops _ := by rw [hops, Option.bind_some]
  stop_eq hops _ := by rw [EthDevOps.stop, hops, Option.bind_some]
  reset_of_none hops _ _ := by rw [hops]
  queueSetup_eq hops _ _ _ := by rw [hops, Option.bind_some]

/-- ethdev on a host where all addresses are their own. -/
def Dpdk.plain : Dpdk := Dpdk.documented id

/-! ### Runs -/

/-- The public operations on a port.  `devStart` and `devStop` are the driver's functions
    called directly, `ethStart` and `ethStop` the same through ethdev, which keeps
    `dev_started`. -/
inductive PortOp
  | configure (nbRx nbTx : Nat)
  | queueSetup (dir : DmaDataDirection) (channelId : BitVec 16) (a : SetupAlloc)
  | devStart
  | ethStart
  | recv (queue : Nat) (m : RxMem) (nbPkts : Nat) (dev : RxDevice)
  | xmit (queue : Nat) (b : TxBurst) (reads : List Nat)
  | devStop
  | ethStop
  | pmdClose
  | devClose
  | devUninit

/-- One operation; `none` when ethdev refuses it, when it crashes before anything is freed
    (a set-up under a name in use, a burst on a queue without engine), or when a transmit
    burst does not return. -/
def Port.exec (dpdk : Dpdk) (p : Port) : PortOp → Option Port
  | .configure nbRx nbTx => dpdk.ethDevConfigure (xdmaEthDevOps dpdk.virt2phy) p nbRx nbTx
  | .queueSetup dir channelId a =>
    dpdk.ethQueueSetup (xdmaEthDevOps dpdk.virt2phy) p dir channelId a
  | .devStart => some (xdmaDevStart p)
  | .ethStart => dpdk.ethDevStart (xdmaEthDevOps dpdk.virt2phy) p
  | .recv queue m nbPkts dev =>
    burstOn p .c2h queue fun e => some (xdmaRecvPkts e m nbPkts dev).engine
  | .xmit queue b reads =>
    burstOn p .h2c queue fun e => (xdmaXmitPkts e b reads).map XmitResult.engine
  | .devStop => some (xdmaDevStop p)
  | .ethStop => dpdk.ethDevStop (xdmaEthDevOps dpdk.virt2phy) p
  | .pmdClose => some (rtePmdXdmaDevClose p)
  | .devClose => some (xdmaDevClose p)
  | .devUninit => some (xdmaEthDevUninit p)

/-- The states of the sequences of operations from a probed port in which every operation is
    one the policy `ok` allows where it is issued.  Nothing follows a fault. -/
inductive PortReach (dpdk : Dpdk) (ok : Port → PortOp → Prop) : Port → Prop
  | probed : PortReach dpdk ok .probed
  | step {p p' : Port} (op : PortOp) : PortReach dpdk ok p → p.arena.faulted = false →
      ok p op → p.exec dpdk op = some p' → PortReach dpdk ok p'

/-! ### The operations of ethdev over the driver's table -/

/-- A port configured anew: the driver releases nothing. -/
def Port.configured (p : Port) (nbRx nbTx : Nat) : Port :=
  xdmaDevConfigure (p.withCounts (queueCounts nbRx nbTx))

/-- A port that was started. -/
def Port.started (p : Port) : Port :=
  if p.devStarted then p else { xdmaDevStart p with devStarted := true }

/-- A port that was stopped. -/
def Port.halted (p : Port) : Port :=
  if p.devStarted then xdmaDevStop { p with devStarted := false } else p

section
variable (dpdk : Dpdk) (p : Port)

theorem exec_configure (nbRx nbTx : Nat) :
    p.exec dpdk (.configure nbRx nbTx) =
      if p.devOps = true ∧ p.devStarted = false ∧
          queueCounts nbRx nbTx .c2h ≤ xdmaChannelNumMax ∧
          queueCounts nbRx nbTx .h2c ≤ xdmaChannelNumMax then
        some (p.configured nbRx nbTx)
      else none := dpdk.configure_eq rfl p nbRx nbTx

theorem exec_ethStart :
    p.exec dpdk .ethStart =
      if p.devOps = true ∧ p.devConfigured = true then some p.started else none :=
  dpdk.start_eq rfl p

theorem exec_ethStop :
    p.exec dpdk .ethStop = if p.devOps = true then some p.halted else none := by
  have hops : (xdmaEthDevOps dpdk.virt2phy).devStop = some xdmaDevStop := rfl
  exact dpdk.stop_eq hops p

theorem exec_queueSetup (dir : DmaDataDirection) (channelId : BitVec 16) (a : SetupAlloc) :
    p.exec dpdk (.queueSetup dir channelId a) =
      if p.devOps = true ∧ channelId.toNat < p.nbQueues dir ∧
          zoneTaken p dir channelId = false then
        some (queueSetup dpdk.virt2phy p dir channelId a)
      else none := by
  show dpdk.ethQueueSetup _ p dir channelId a = _
  rw [dpdk.queueSetup_eq rfl p channelId a]
  unfold queueSetupOp
  by_cases hallowed : p.devOps = true ∧ channelId.toNat < p.nbQueues dir
  · rw [if_pos hallowed]
    cases htaken : zoneTaken p dir channelId with
    | true => rw [if_pos rfl, if_neg (fun hno => Bool.noConfusion hno.2.2)]
    | false => rw [if_neg Bool.false_ne_true, if_pos ⟨hallowed.1, hallowed.2, rfl⟩]
  · rw [if_neg hallowed, if_neg (fun h => hallowed ⟨h.1, h.2.1⟩)]

end

end XdmaDpdk
