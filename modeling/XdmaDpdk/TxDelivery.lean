import XdmaDpdk.TxEarly
import XdmaDpdk.TxEncode
import XdmaDpdk.Lib.WalkOutput

namespace XdmaDpdk

open ChainWalker

/-!
# XDMA driver — what a transmit queue delivers

The runs of `TxStep` with two ghost lists: the descriptors the device completed and the
bursts that were started.  Both are read off the states before and after each step
(`Walker.handed`, `TxSys.submitted`), so that every run of the system is such a run
(`TxReach.toRun`).

* `carried` — the segments a list of completed descriptors carried, terminators left out;
* `Delivery` — what each place of the thread knows of the two lists, kept by every step but
  an early exit (`Delivery.step`);
* `inOrder_iff` — the device delivers every staged segment exactly once and in the order of
  submission, in every interleaving, exactly when every call is sound.
-/

/-! ### The ghost lists -/

/-- A descriptor that ends a chain and carries nothing. -/
def XdmaDesc.terminator (d : XdmaDesc) : Bool := d.stopped && d.len == 0

/-- What completed descriptors carried: bus address, length and end of packet. -/
def carried (l : List XdmaDesc) : List ((Addr × BitVec 32) × Bool) :=
  (l.filter (fun d => !d.terminator)).map XdmaDesc.segment

/-- The segments of a burst, as the device sees them. -/
def TxBurst.segments (b : TxBurst) : List ((Addr × BitVec 32) × Bool) :=
  (b.writes xdmaDescMax).map (fun w => (w.1.segment, w.2))

/-- The burst a step starts. -/
def TxSys.submitted (s s' : TxSys) : List TxBurst :=
  match s.drv, s'.drv with
  | .idle, .polling b => [b]
  | _, _ => []

/-- A run from a queue just set up, with the descriptors completed and the bursts started
    along it. -/
inductive TxRun (virt2phy : Addr → Addr) (channelId : BitVec 16) (a : SetupAlloc)
    (ok : TxSys → TxBurst → Prop) : List XdmaDesc → List TxBurst → TxSys → Prop
  | init : TxRun virt2phy channelId a ok [] [] (TxSys.init virt2phy channelId a)
  | step {sent : List XdmaDesc} {calls : List TxBurst} {s s' : TxSys} :
      TxRun virt2phy channelId a ok sent calls s → TxStep virt2phy ok s s' →
      TxRun virt2phy channelId a ok (sent ++ s.hw.handed s'.hw) (calls ++ s.submitted s') s'

/-- The segments carried so far are those of the bursts started, in order; the burst that
    waits may be on its way. -/
def InOrder (sent : List XdmaDesc) (calls : List TxBurst) (s : TxSys) : Prop :=
  match s.drv with
  | .polling b => ∃ earlier part, calls = earlier ++ [b] ∧
      carried sent = earlier.flatMap TxBurst.segments ++ part ∧ part <+: b.segments
  | _ => carried sent = calls.flatMap TxBurst.segments

@[simp] theorem carried_nil : carried [] = [] := rfl

@[simp] theorem carried_append (l l' : List XdmaDesc) :
    carried (l ++ l') = carried l ++ carried l' := by
  simp [carried]

/-- A terminator carries nothing. -/
theorem carried_of_terminator {d : XdmaDesc} (h : d.terminator = true) : carried [d] = [] := by
  simp [carried, h]

theorem carried_of_not_terminator {d : XdmaDesc} (h : d.terminator = false) :
    carried [d] = [d.segment] := by
  simp [carried, h]

theorem length_carried_le (l : List XdmaDesc) : (carried l).length ≤ l.length := by
  unfold carried
  rw [List.length_map]
  exact List.length_filter_le _ l

section
variable {virt2phy : Addr → Addr} {channelId : BitVec 16} {a : SetupAlloc}
  {ok : TxSys → TxBurst → Prop} {sent : List XdmaDesc} {calls : List TxBurst} {s s' : TxSys}

/-- The ghost lists do not steer the run. -/
theorem TxRun.toReach (h : TxRun virt2phy channelId a ok sent calls s) :
    TxReach virt2phy channelId a ok s := by
  induction h with
  | init => exact Relation.ReflTransGen.refl
  | step _ hs ih => exact Relation.ReflTransGen.tail ih hs

theorem TxReach.toRun (h : TxReach virt2phy channelId a ok s) :
    ∃ sent calls, TxRun virt2phy channelId a ok sent calls s := by
  induction h with
  | refl => exact ⟨[], [], TxRun.init⟩
  | tail _ hs ih =>
    obtain ⟨sent, calls, hr⟩ := ih
    exact ⟨_, _, TxRun.step hr hs⟩

/-- A step that leaves the device's phase alone and is no call adds nothing to the lists. -/
theorem TxRun.quiet (h : TxRun virt2phy channelId a ok sent calls s)
    (hs : TxStep virt2phy ok s s') (hhand : s'.hw.hand = s.hw.hand)
    (hsub : s.submitted s' = []) : TxRun virt2phy channelId a ok sent calls s' := by
  have hr := TxRun.step h hs
  rwa [Walker.handed_of_hand_eq hhand, hsub, List.append_nil, List.append_nil] at hr

end

/-! ### The ring of a waiting burst -/

/-- The ring holds the segments of the burst, and past them an empty descriptor. -/
structure Loaded (e : XdmaEngine) (b : TxBurst) : Prop where
  segment : ∀ j, j + 1 < e.descMax → ∀ h : j < b.segments.length,
    (e.descRing j).segment = b.segments[j]
  empty : stagedCount e b < e.descMax → (e.descRing (stagedCount e b)).len = 0

theorem length_segments {e : XdmaEngine} {b : TxBurst} (hmax : e.descMax = xdmaDescMax) :
    b.segments.length = stagedCount e b := by
  unfold TxBurst.segments stagedCount
  rw [List.length_map, hmax]

/-- A staged descriptor that is not the last of the ring reads as its segment: no flag was
    left there. -/
theorem segment_stagedRing_inner {e : XdmaEngine} (hidle : RingIdle e) (hdir : e.dir = .h2c)
    (ws : List (RteMbuf × Bool)) (count j : Nat) (hj : j < ws.length) (hin : j + 1 < e.descMax) :
    (stagedRing e.descMax ws count e.descRing j).segment = (ws[j].1.segment, ws[j].2) := by
  have hget : ws[j]? = some ws[j] := List.getElem?_eq_getElem hj
  have heop : (e.descRing j).eop = false := by
    unfold XdmaDesc.eop
    rw [hidle.clear hdir j hin]
    decide
  unfold XdmaDesc.segment RteMbuf.segment
  rw [stagedRing_srcAddr, stagedRing_len, stagedRing_eop, hget, heop, Bool.false_or]
  rfl

theorem loaded_xmitStart {e : XdmaEngine} (b : TxBurst) (hidle : RingIdle e) (hdir : e.dir = .h2c)
    (hmax : e.descMax = xdmaDescMax) : Loaded (xmitStart e b).2 b := by
  have hpos : 0 < e.descMax := by
    rw [hmax]
    decide
  have hring := (descRing_xmitStart e b).trans (descRing_xmitStage b hidle hpos)
  have hmax' := (frame_xmitStart e b).descMax
  constructor
  · intro j hin hj
    rw [hmax'] at hin
    have hws : b.segments = (b.writes e.descMax).map (fun w => (w.1.segment, w.2)) := by
      rw [hmax]
      rfl
    have hjw : j < (b.writes e.descMax).length := by
      rwa [hws, List.length_map] at hj
    rw [hring, segment_stagedRing_inner hidle hdir _ _ j hjw hin]
    simp only [hws, List.getElem_map]
  · intro hroom
    rw [stagedCount_xmitStart, hmax'] at hroom
    rw [stagedCount_xmitStart, hring, stagedRing_len]
    have hnone : (b.writes e.descMax)[stagedCount e b]? = none :=
      List.getElem?_eq_none (Nat.le_refl _)
    rw [hnone]
    exact hidle.len _ hroom

section
variable {virt2phy : Addr → Addr} {e : XdmaEngine} {b : TxBurst}

theorem lastDesc_lt (hmax : e.descMax = xdmaDescMax) : lastDesc e b < e.descMax := by
  apply Nat.mod_lt
  rw [hmax]
  decide

/-- Where the burst leaves room, the terminator is past its last segment. -/
theorem Loaded.terminator (h : Loaded e b) (hst : Staged virt2phy e b)
    (hroom : stagedCount e b < e.descMax) :
    (e.descRing (stagedCount e b)).terminator = true := by
  have hstop := hst.chain.last
  rw [lastDesc_of_lt hroom] at hstop
  have hstop' : (e.descRing (stagedCount e b)).stopped = true := hstop
  unfold XdmaDesc.terminator
  rw [hstop', h.empty hroom]
  rfl

/-- The descriptors before the last of the chain carry the segments of the burst. -/
theorem Loaded.carried_range (h : Loaded e b) (hst : Staged virt2phy e b)
    (hmax : e.descMax = xdmaDescMax) (k : Nat) (hk : k ≤ lastDesc e b) :
    carried ((List.range k).map e.descRing) = b.segments.take k := by
  induction k with
  | zero => rfl
  | succ k ih =>
    have hlt := lastDesc_lt (b := b) hmax
    have hgo : (e.descRing k).stopped = false := (hst.chain.run k hk).1
    have hterm : (e.descRing k).terminator = false := by
      unfold XdmaDesc.terminator
      rw [hgo, Bool.false_and]
    have hlen : k < b.segments.length := by
      rw [length_segments hmax]
      exact Nat.lt_of_lt_of_le hk (Nat.mod_le _ _)
    rw [List.range_succ, List.map_append, carried_append, ih (by omega), List.map_singleton,
      carried_of_not_terminator hterm, h.segment k (by omega) hlen,
      List.take_succ_eq_append_getElem hlen]

/-- All of a chain that leaves room carries the burst. -/
theorem Loaded.carried_all (h : Loaded e b) (hst : Staged virt2phy e b)
    (hmax : e.descMax = xdmaDescMax) (hroom : stagedCount e b < e.descMax) {c : Nat}
    (hlo : stagedCount e b ≤ c) (hc : c ≤ lastDesc e b + 1) :
    carried ((List.range c).map e.descRing) = b.segments := by
  have hlast : lastDesc e b = stagedCount e b := lastDesc_of_lt hroom
  have hfront : carried ((List.range (stagedCount e b)).map e.descRing) = b.segments := by
    rw [h.carried_range hst hmax _ (Nat.le_of_eq hlast.symm), ← length_segments hmax,
      List.take_length]
  rcases Nat.lt_or_eq_of_le hlo with hgt | rfl
  · -- The terminator is completed too.
    have hc' : c = stagedCount e b + 1 := by omega
    rw [hc', List.range_succ, List.map_append, carried_append, hfront, List.map_singleton,
      carried_of_terminator (h.terminator hst hroom), List.append_nil]
  · exact hfront

/-- What part of the chain was completed carries a front part of the burst. -/
theorem Loaded.carried_isPrefix (h : Loaded e b) (hst : Staged virt2phy e b)
    (hmax : e.descMax = xdmaDescMax) {c : Nat} (hc : c ≤ lastDesc e b + 1) :
    carried ((List.range c).map e.descRing) <+: b.segments := by
  rcases Nat.lt_or_eq_of_le (stagedCount_le e b) with hroom | hfull
  · rcases Nat.lt_or_ge c (stagedCount e b) with hlt | hge
    · have hlast : lastDesc e b = stagedCount e b := lastDesc_of_lt hroom
      rw [h.carried_range hst hmax c (by omega)]
      exact List.take_prefix _ _
    · rw [h.carried_all hst hmax hroom hge hc]
  · -- The chain of a full ring is its first descriptor.
    rw [lastDesc_of_full hfull] at hc
    rcases Nat.lt_or_eq_of_le hc with hzero | rfl
    · have hc0 : c = 0 := by omega
      rw [hc0]
      exact List.nil_prefix
    · rw [List.range_one, List.map_singleton]
      cases hterm : (e.descRing 0).terminator with
      | true =>
        rw [carried_of_terminator hterm]
        exact List.nil_prefix
      | false =>
        have hlen : 0 < b.segments.length := by
          rw [length_segments hmax, hfull, hmax]
          decide
        have hin : 0 + 1 < e.descMax := by
          rw [hmax]
          decide
        have htake := List.take_succ_eq_append_getElem hlen
        rw [List.take_zero, List.nil_append] at htake
        rw [carried_of_not_terminator hterm, h.segment 0 hin hlen, ← htake]
        exact List.take_prefix _ _

end

/-! ### The invariant -/

/-- Whatever the device has in hand carries nothing. -/
def HandEmpty (w : Walker Nat XdmaDesc) : Prop := ∀ d, w.hand = some d → d.terminator = true

/-- A burst whose exit test was true is done but for its terminator. -/
structure Finished (virt2phy : Addr → Addr) (e : XdmaEngine) (w : Walker Nat XdmaDesc)
    (b : TxBurst) : Prop where
  staged : Staged virt2phy e b
  loaded : Loaded e b
  room : stagedCount e b < e.descMax
  before : w.kick = true → stagedCount e b = 0
  after : w.kick = false → OnChain e.descRing (lastDesc e b) w ∧ stagedCount e b ≤ w.count

/-- What each place of the thread knows of the ghost lists. -/
def Delivery (virt2phy : Addr → Addr) (sent : List XdmaDesc) (calls : List TxBurst) (s : TxSys) :
    Prop :=
  match s.drv with
  | .polling b => Loaded s.eng b ∧ ∃ earlier, calls = earlier ++ [b] ∧
      (s.hw.kick = true → carried sent = earlier.flatMap TxBurst.segments ∧ HandEmpty s.hw) ∧
      (s.hw.kick = false → carried sent = earlier.flatMap TxBurst.segments
        ++ carried ((List.range s.hw.count).map s.eng.descRing))
  | .exited => carried sent = calls.flatMap TxBurst.segments ∧ HandEmpty s.hw ∧
      ∃ b, Finished virt2phy s.eng s.hw b
  | _ => carried sent = calls.flatMap TxBurst.segments ∧ HandEmpty s.hw

section
variable {virt2phy : Addr → Addr} {channelId : BitVec 16} {a : SetupAlloc}
  {ok : TxSys → TxBurst → Prop} {sent : List XdmaDesc} {calls : List TxBurst} {s s' : TxSys}

/-- A device with nothing but terminators in hand puts out nothing. -/
theorem HandEmpty.handed {w w' : Walker Nat XdmaDesc} {mem : Nat → XdmaDesc} {x x' : Nat}
    {R : Rules Nat XdmaDesc} (h : HandEmpty w) (hs : Step R mem (w, x) (w', x')) :
    carried (w.handed w') = [] := by
  rcases hs.handed_eq with hnil | ⟨d, hd, hone⟩
  · rw [hnil]
    rfl
  · rw [hone, carried_of_terminator (h d hd)]

/-- It keeps so where every record it can fetch is one. -/
theorem HandEmpty.step {w w' : Walker Nat XdmaDesc} {mem : Nat → XdmaDesc} {x x' : Nat}
    {R : Rules Nat XdmaDesc} (h : HandEmpty w) (hs : Step R mem (w, x) (w', x'))
    (hfetch : ∀ i, w.run = true → w.kick = false → w.phase = .ready i →
      (mem i).terminator = true) : HandEmpty w' := by
  intro d hd
  rcases hs.hand_cases hd with hd' | ⟨i, hr, hk, hp, rfl⟩
  · exact h d hd'
  · exact hfetch i hr hk hp

/-- A device whose run control is off fetches nothing. -/
theorem HandEmpty.step_off {w w' : Walker Nat XdmaDesc} {mem : Nat → XdmaDesc} {x x' : Nat}
    {R : Rules Nat XdmaDesc} (h : HandEmpty w) (hs : Step R mem (w, x) (w', x'))
    (hoff : w.run = false) : HandEmpty w' :=
  h.step hs (fun _ hr _ _ => absurd (hoff.symm.trans hr) (by decide))

theorem Loaded.withWord {e : XdmaEngine} {b : TxBurst} (h : Loaded e b) (count : Nat) :
    Loaded (e.withWord count) b := ⟨h.segment, h.empty⟩

/-- After the exit test the device can only fetch the terminator. -/
theorem Finished.fetch {b : TxBurst} (h : Finished virt2phy s.eng s.hw b) {i : Nat}
    (hk : s.hw.kick = false) (hp : s.hw.phase = .ready i) :
    (s.eng.descRing i).terminator = true := by
  obtain ⟨hon, hcount⟩ := h.after hk
  have hph := hon.phase
  rw [hp, lastDesc_of_lt h.room] at hph
  have hi : i = stagedCount s.eng b := by omega
  rw [hi]
  exact h.loaded.terminator h.staged h.room

/-- A device step leaves a finished burst finished. -/
theorem Finished.device {b : TxBurst} (h : Finished virt2phy s.eng s.hw b)
    {hw' : Walker Nat XdmaDesc} {count' : Nat}
    (hs : Step (txRules virt2phy s.eng) s.eng.descRing (s.hw, s.eng.completedDescCount)
      (hw', count')) : Finished virt2phy (s.eng.withWord count') hw' b := by
  refine ⟨⟨h.staged.chain, h.staged.report, h.staged.reportLast⟩, h.loaded.withWord count', h.room,
    ?_, ?_⟩
  · intro hk'
    exact h.before (hs.kick_of_kick hk')
  · intro hk'
    cases hk : s.hw.kick with
    | true =>
      -- The start is taken up only now, for a burst that staged nothing.
      obtain ⟨rfl, -⟩ := hs.of_kick hk hk'
      exact ⟨OnChain.of_begin h.staged.chain s.hw, Nat.le_of_eq (h.before hk)⟩
    | false =>
      obtain ⟨hon, hcount⟩ := h.after hk
      obtain ⟨hon', hcases⟩ := hon.step h.staged.chain hs
      refine ⟨hon', hcount.trans ?_⟩
      show s.hw.count ≤ hw'.count
      rcases hcases with ⟨heq, -⟩ | ⟨-, heq, -⟩
      · exact Nat.le_of_eq heq.symm
      · omega

/-- **Device steps** keep what is known of the lists. -/
theorem Delivery.device (h : Delivery virt2phy sent calls s) (hinv : TxSysInv virt2phy s)
    {hw' : Walker Nat XdmaDesc} {count' : Nat}
    (hs : Step (txRules virt2phy s.eng) s.eng.descRing (s.hw, s.eng.completedDescCount)
      (hw', count')) :
    Delivery virt2phy (sent ++ s.hw.handed hw') calls
      { s with eng := s.eng.withWord count', hw := hw' } := by
  cases hd : s.drv with
  | idle =>
    simp only [Delivery, hd] at h ⊢
    rw [carried_append, h.2.handed hs, List.append_nil]
    exact ⟨h.1, h.2.step_off hs (hinv.idle hd).2.1⟩
  | polling b =>
    obtain ⟨-, hstaged, -, hon⟩ := hinv.polling hd
    simp only [Delivery, hd] at h ⊢
    obtain ⟨hload, earlier, hcalls, hbefore, hafter⟩ := h
    refine ⟨hload.withWord count', earlier, hcalls, ?_, ?_⟩
    · intro hk'
      have hk : s.hw.kick = true := hs.kick_of_kick hk'
      obtain ⟨hsent, hhand⟩ := hbefore hk
      rw [carried_append, hhand.handed hs, List.append_nil]
      exact ⟨hsent, hhand.step hs (fun i _ hno _ => absurd (hk.symm.trans hno) (by decide))⟩
    · intro hk'
      cases hk : s.hw.kick with
      | true =>
        -- The walk begins: nothing of the burst is completed.
        obtain ⟨hsent, hhand⟩ := hbefore hk
        have hout := hhand.handed hs
        obtain ⟨rfl, -⟩ := hs.of_kick hk hk'
        rw [carried_append, hout, hsent]
        rfl
      | false =>
        have hout := (hon hk).map_range_handed hs
        rw [carried_append, hafter hk, List.append_assoc, ← carried_append, hout]
        rfl
  | exited =>
    simp only [Delivery, hd] at h ⊢
    obtain ⟨hsent, hhand, b, hfin⟩ := h
    rw [carried_append, hhand.handed hs, List.append_nil]
    exact ⟨hsent, hhand.step hs (fun i _ hk hp => hfin.fetch hk hp), b, hfin.device hs⟩
  | stopping =>
    have hdrv := hinv.driver
    simp only [DriverInv, hd] at hdrv
    simp only [Delivery, hd] at h ⊢
    rw [carried_append, h.2.handed hs, List.append_nil]
    exact ⟨h.1, h.2.step_off hs hdrv.2.2.1⟩

/-- **Exit.** An exit test that is true with all staged descriptors completed finishes the
    burst. -/
theorem Delivery.exit (h : Delivery virt2phy sent calls s) (hinv : TxSysInv virt2phy s)
    {b : TxBurst} (hd : s.drv = .polling b)
    (hall : ∀ i < stagedCount s.eng b, i ∈ s.hw.completed) :
    Delivery virt2phy sent calls { s with drv := .exited } := by
  obtain ⟨-, hstaged, -, hon⟩ := hinv.polling hd
  have hmax := hinv.descMax
  simp only [Delivery, hd] at h
  obtain ⟨hload, earlier, rfl, hbefore, hafter⟩ := h
  show carried sent = (earlier ++ [b]).flatMap TxBurst.segments ∧ HandEmpty s.hw ∧ _
  rw [List.flatMap_append, List.flatMap_singleton]
  cases hk : s.hw.kick with
  | true =>
    -- The device has not begun: there was nothing to complete.
    have hzero : stagedCount s.eng b = 0 := by
      by_contra hne
      have hmem := hall 0 (Nat.pos_of_ne_zero hne)
      unfold Walker.completed at hmem
      rw [if_pos hk] at hmem
      exact absurd hmem List.not_mem_nil
    have hnil : b.segments = [] := by
      apply List.eq_nil_of_length_eq_zero
      rw [length_segments hmax, hzero]
    obtain ⟨hsent, hhand⟩ := hbefore hk
    rw [hnil, List.append_nil]
    refine ⟨hsent, hhand, b, hstaged, hload, ?_, fun _ => hzero, ?_⟩
    · rw [hzero]
      exact hinv.descMax_pos
    · intro hk'
      exact absurd (hk.symm.trans hk') (by decide)
  | false =>
    have hchain := hon hk
    have hcount : stagedCount s.eng b ≤ s.hw.count := by
      by_contra hlt
      have hmem := hall s.hw.count (by omega)
      unfold Walker.completed at hmem
      rw [hk, if_neg (by decide), hchain.done, List.mem_range] at hmem
      exact Nat.lt_irrefl _ hmem
    have hle := hchain.count_le
    have hroom : stagedCount s.eng b < s.eng.descMax := by
      apply Nat.lt_of_le_of_ne (stagedCount_le s.eng b)
      intro hfull
      -- The chain of a full ring has one descriptor.
      rw [lastDesc_of_full hfull] at hle
      rw [hfull, hmax] at hcount
      simp only [xdmaDescMax] at hcount
      omega
    have hlast : lastDesc s.eng b = stagedCount s.eng b := lastDesc_of_lt hroom
    refine ⟨?_, ?_, b, hstaged, hload, hroom, ?_, fun _ => ⟨hchain, hcount⟩⟩
    · rw [hafter hk, hload.carried_all hstaged hmax hroom hcount hle]
    · intro d hdh
      obtain ⟨hcm, rfl⟩ := hchain.hand_eq hdh
      have heq : s.hw.count = stagedCount s.eng b := by omega
      rw [heq]
      exact hload.terminator hstaged hroom
    · intro hk'
      exact absurd (hk'.symm.trans hk) (by decide)

/-- **Step lemma.** Every step but an exit from a state that ends early keeps it. -/
theorem Delivery.step (h : Delivery virt2phy sent calls s) (hinv : TxSysInv virt2phy s)
    (hs : TxStep virt2phy ok s s') (hno : ¬ EndsEarly s) :
    Delivery virt2phy (sent ++ s.hw.handed s'.hw) (calls ++ s.submitted s') s' := by
  cases hs with
  | call b hd hr hok =>
    have hquiet : s.hw.handed s.hw.start = [] := Walker.handed_of_hand_eq rfl
    simp only [Delivery, hd] at h
    simp only [Delivery, hquiet, TxSys.submitted, hd, List.append_nil]
    refine ⟨loaded_xmitStart b (hinv.engine.idle hr) hinv.dir hinv.descMax, calls, rfl,
      fun _ => h, fun hk => ?_⟩
    exact absurd hk (by simp [Walker.start])
  | busy b hr =>
    have hquiet : s.hw.handed s.hw = [] := Walker.handed_of_hand_eq rfl
    have hsub : s.submitted s = [] := by
      unfold TxSys.submitted
      cases s.drv <;> rfl
    rwa [hquiet, hsub, List.append_nil, List.append_nil]
  | exit b hd ht =>
    have hquiet : s.hw.handed s.hw = [] := Walker.handed_of_hand_eq rfl
    have hsub : s.submitted { s with drv := .exited } = [] := by
      unfold TxSys.submitted
      rw [hd]
    rw [show ({ s with drv := .exited } : TxSys).hw = s.hw from rfl, hquiet, hsub, List.append_nil,
      List.append_nil]
    apply h.exit hinv hd
    intro i hi
    by_contra hnot
    exact hno ⟨b, hd, ht, i, hi, hnot⟩
  | halt hd =>
    have hquiet : s.hw.handed s.hw.stop = [] := Walker.handed_of_hand_eq rfl
    simp only [Delivery, hd] at h
    simp only [Delivery, hquiet, TxSys.submitted, hd, List.append_nil]
    exact ⟨h.1, h.2.1⟩
  | reset hd =>
    have hquiet : s.hw.handed s.hw = [] := Walker.handed_of_hand_eq rfl
    simp only [Delivery, hd] at h
    simp only [Delivery, hquiet, TxSys.submitted, hd, List.append_nil]
    exact h
  | device hw' count' hs =>
    have hsub : s.submitted { s with eng := s.eng.withWord count', hw := hw' } = [] := by
      unfold TxSys.submitted
      cases s.drv <;> rfl
    rw [hsub, List.append_nil]
    exact h.device hinv hs

theorem delivery_init : Delivery virt2phy [] [] (TxSys.init virt2phy channelId a) :=
  ⟨rfl, fun d hd => absurd hd (by simp [TxSys.init, Walker.idle, Walker.hand])⟩

/-- **Run lemma.** Along a run either the invariant holds, or it held in a state that ends
    early. -/
theorem TxRun.delivery (hmap : MapsRing virt2phy (xdmaTxEngineSetup virt2phy channelId a))
    (h : TxRun virt2phy channelId a ok sent calls s) :
    Delivery virt2phy sent calls s ∨
      ∃ sent' calls' s', TxRun virt2phy channelId a ok sent' calls' s' ∧
      EndsEarly s' ∧ Delivery virt2phy sent' calls' s' := by
  induction h with
  | init => exact .inl delivery_init
  | @step sent calls s s' hr hs ih =>
    rcases ih with hdel | hbad
    · by_cases he : EndsEarly s
      · exact .inr ⟨sent, calls, s, hr, he, hdel⟩
      · exact .inl (hdel.step (hr.toReach.inv hmap) hs he)
    · exact .inr hbad

/-! ### Exactly once, in order -/

theorem Delivery.inOrder (h : Delivery virt2phy sent calls s) (hinv : TxSysInv virt2phy s) :
    InOrder sent calls s := by
  cases hd : s.drv with
  | idle =>
    simp only [Delivery, hd] at h
    simp only [InOrder, hd]
    exact h.1
  | polling b =>
    obtain ⟨-, hstaged, -, hon⟩ := hinv.polling hd
    simp only [Delivery, hd] at h
    simp only [InOrder, hd]
    obtain ⟨hload, earlier, hcalls, hbefore, hafter⟩ := h
    cases hk : s.hw.kick with
    | true => exact ⟨earlier, [], hcalls, by rw [(hbefore hk).1, List.append_nil], List.nil_prefix⟩
    | false =>
      exact ⟨earlier, _, hcalls, hafter hk,
        hload.carried_isPrefix hstaged hinv.descMax (hon hk).count_le⟩
  | exited =>
    simp only [Delivery, hd] at h
    simp only [InOrder, hd]
    exact h.1
  | stopping =>
    simp only [Delivery, hd] at h
    simp only [InOrder, hd]
    exact h.1

/-- A state that ends early leads to an idle one with segments missing. -/
theorem EndsEarly.not_inOrder (he : EndsEarly s) (hr : TxRun virt2phy channelId a ok sent calls s)
    (hdel : Delivery virt2phy sent calls s) (hinv : TxSysInv virt2phy s) :
    ∃ s', TxRun virt2phy channelId a ok sent calls s' ∧ ¬ InOrder sent calls s' := by
  obtain ⟨b, hd, ht, i, hi, hnot⟩ := he
  -- The thread leaves the wait and stops the engine; the device completes nothing more.
  have hexit := hr.quiet (TxStep.exit s b hd ht) rfl (by simp [TxSys.submitted])
  have hhalt := hexit.quiet (TxStep.halt _ rfl) rfl (by simp [TxSys.submitted])
  have hreset := hhalt.quiet (TxStep.reset _ rfl) rfl (by simp [TxSys.submitted])
  refine ⟨_, hreset, ?_⟩
  intro hord
  have hall : carried sent = calls.flatMap TxBurst.segments := hord
  obtain ⟨-, -, -, hon⟩ := hinv.polling hd
  simp only [Delivery, hd] at hdel
  obtain ⟨-, earlier, rfl, hbefore, hafter⟩ := hdel
  rw [List.flatMap_append, List.flatMap_singleton] at hall
  cases hk : s.hw.kick with
  | true =>
    rw [(hbefore hk).1] at hall
    have hlen := congrArg List.length hall
    rw [List.length_append, length_segments hinv.descMax] at hlen
    omega
  | false =>
    rw [hafter hk, List.append_cancel_left_eq] at hall
    have hlen := congrArg List.length hall
    have hle := length_carried_le ((List.range s.hw.count).map s.eng.descRing)
    rw [hlen, length_segments hinv.descMax, List.length_map, List.length_range] at hle
    -- Descriptor `i` is not completed, so fewer than it are.
    unfold Walker.completed at hnot
    rw [hk, if_neg (by decide), (hon hk).done, List.mem_range] at hnot
    omega

/-- Where no state ends early, everything is in order. -/
theorem TxRun.inOrder (hmap : MapsRing virt2phy (xdmaTxEngineSetup virt2phy channelId a))
    (hno : ∀ s, TxReach virt2phy channelId a ok s → ¬ EndsEarly s)
    (h : TxRun virt2phy channelId a ok sent calls s) : InOrder sent calls s := by
  rcases h.delivery hmap with hdel | ⟨_, _, s', hrun', he, -⟩
  · exact hdel.inOrder (h.toReach.inv hmap)
  · exact absurd he (hno s' hrun'.toReach)

/-- Where calls are sound, everything is in order. -/
theorem TxRun.inOrder_of_sound (hmap : MapsRing virt2phy (xdmaTxEngineSetup virt2phy channelId a))
    (hok : ∀ s b, TxReach virt2phy channelId a ok s → s.drv = .idle → ok s b →
      CallSound virt2phy s b)
    (h : TxRun virt2phy channelId a ok sent calls s) : InOrder sent calls s := by
  refine h.inOrder hmap ?_
  rintro s hr ⟨b, hd, ht, i, hi, hnot⟩
  have hwait := TxReach.waiting hmap hok hr hd (Nat.zero_lt_of_lt hi)
  exact hnot (hwait.complete (hr.inv hmap) hd ht i hi)

/-- What was carried is a front part of what was submitted. -/
theorem InOrder.carried_isPrefix (h : InOrder sent calls s) :
    carried sent <+: calls.flatMap TxBurst.segments := by
  cases hd : s.drv with
  | polling b =>
    simp only [InOrder, hd] at h
    obtain ⟨earlier, part, rfl, hsent, hpart⟩ := h
    rw [hsent, List.flatMap_append, List.flatMap_singleton, List.prefix_append_right_inj]
    exact hpart
  | idle | exited | stopping =>
    simp only [InOrder, hd] at h
    rw [h]

/-- Where everything is in order, calls are sound. -/
theorem callSound_of_inOrder (hmap : MapsRing virt2phy (xdmaTxEngineSetup virt2phy channelId a))
    (hord : ∀ sent calls s, TxRun virt2phy channelId a ok sent calls s → InOrder sent calls s)
    (hr : TxReach virt2phy channelId a ok s) (hd : s.drv = .idle) {b : TxBurst} (hok : ok s b) :
    CallSound virt2phy s b := by
  by_contra hbad
  obtain ⟨s', hr', he⟩ := endsEarly_of_not_callSound hmap hr hd hok hbad
  obtain ⟨sent, calls, hrun⟩ := hr'.toRun
  -- The first state of the run that ends early still has the invariant.
  obtain ⟨sent', calls', s'', hrun', he', hdel⟩ : ∃ sent' calls' s'',
      TxRun virt2phy channelId a ok sent' calls' s'' ∧ EndsEarly s'' ∧
        Delivery virt2phy sent' calls' s'' := by
    rcases hrun.delivery hmap with hdel | hfirst
    · exact ⟨sent, calls, s', hrun, he, hdel⟩
    · exact hfirst
  obtain ⟨t, ht, hno⟩ := he'.not_inOrder hrun' hdel (hrun'.toReach.inv hmap)
  exact hno (hord _ _ t ht)

/-- **Exactly once, in order.** Whatever bursts are submitted, in every interleaving of the
    thread and the device the segments carried are those of the bursts started, each once and
    in the order of submission, exactly when every call is sound. -/
theorem inOrder_iff (virt2phy : Addr → Addr) (channelId : BitVec 16) (a : SetupAlloc)
    (hmap : MapsRing virt2phy (xdmaTxEngineSetup virt2phy channelId a))
    (ok : TxSys → TxBurst → Prop) :
    (∀ sent calls s, TxRun virt2phy channelId a ok sent calls s → InOrder sent calls s)
      ↔ ∀ s b, TxReach virt2phy channelId a ok s → s.drv = .idle → ok s b →
          CallSound virt2phy s b := by
  constructor
  · intro hord s b hr hd hok
    exact callSound_of_inOrder hmap hord hr hd hok
  · intro hok sent calls s hrun
    exact hrun.inOrder_of_sound hmap hok

end

/-- On a fresh queue a burst of one packet is sound, and sound calls deliver in order. -/
theorem inOrder_callSound :
    CallSound id (TxSys.init id 0 SetupAlloc.pages) (TxBurst.plain 1 (by decide)) ∧
      ∀ sent calls s, TxRun id 0 SetupAlloc.pages (CallSound id) sent calls s →
        InOrder sent calls s := by
  refine ⟨.inr ⟨by decide, ?_, by decide, by decide⟩, ?_⟩
  · intro c hc
    exact absurd hc (by simp [TxSys.init, Walker.pending, Walker.idle])
  · apply (inOrder_iff id 0 SetupAlloc.pages freshTx_mapsRing (CallSound id)).mpr
    intro s b _ _ hok
    exact hok

end XdmaDpdk
