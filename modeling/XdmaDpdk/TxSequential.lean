import XdmaDpdk.TxSizes

namespace XdmaDpdk

open ChainWalker

/-!
# XDMA driver — transmit calls one after the other

The interleaved system `TxStep` and the function `xdmaXmitPkts` it was cut from.  `XmitSeq`
are calls of the function made one after the other on one engine, each of them returning.

* `xmitStart_withWord` — what a burst stages does not depend on the poll-mode word;
* `SequentialInv` — the engine at each place of the thread, as the sequential calls leave it
  or as the present one is about to, kept by every step;
* `txRun_sequential` — every run of the system, however its steps are interleaved with the
  device, is at each return the sequential calls of the bursts it started.
-/

/-- Calls of `xdma_xmit_pkts` from `e₀`, each returning `nb_pkts` before the next is made. -/
inductive XmitSeq (e₀ : XdmaEngine) : List TxBurst → XdmaEngine → Prop
  | nil : XmitSeq e₀ [] e₀
  | call {calls : List TxBurst} {e : XdmaEngine} {b : TxBurst} {reads : List Nat}
      {out : XmitResult} (h : XmitSeq e₀ calls e) (hx : xdmaXmitPkts e b reads = some out)
      (hret : out.ret = b.nbPkts) : XmitSeq e₀ (calls ++ [b]) out.engine

/-- `s` is `e` but for what the device has written to the poll-mode word. -/
def SameButWord (e' e : XdmaEngine) : Prop := e' = e.withWord e'.completedDescCount

theorem SameButWord.refl (e : XdmaEngine) : SameButWord e e := rfl

theorem sameButWord_withWord (e : XdmaEngine) (count : Nat) :
    SameButWord (e.withWord count) e := rfl

theorem SameButWord.withWord {e e' : XdmaEngine} (h : SameButWord e' e) (count : Nat) :
    SameButWord (e'.withWord count) e := by
  unfold SameButWord at h ⊢
  rw [h]
  rfl

/-- What a burst stages and starts does not depend on the word. -/
theorem xmitStart_withWord {e : XdmaEngine} (b : TxBurst) (hused : e.descUsed = 0)
    (hmax : 0 < e.descMax) (count : Nat) :
    (xmitStart (e.withWord count) b).2 = (xmitStart e b).2.withWord count := by
  rw [xmitStart_engine, xmitStart_engine, xmitStage_eq (e.withWord count) b hused hmax,
    xmitStage_eq e b hused hmax]
  rfl

/-- A return: the present call, after the earlier ones. -/
theorem XmitSeq.returns {e₀ e : XdmaEngine} {calls : List TxBurst} {b : TxBurst} {word : Nat}
    (h : XmitSeq e₀ calls e) (hrun : e.running = false)
    (ht : txExitTest word b.nbPkts = true) :
    XmitSeq e₀ (calls ++ [b]) (xdmaTxEngineStop (xmitStart e b).2) := by
  have hwait : txWaitLoop b.nbPkts [word] = true := by
    simp only [txWaitLoop, ht, if_true]
  have hx := xdmaXmitPkts_of_idle b [word] hrun
  rw [if_pos hwait] at hx
  exact XmitSeq.call h hx rfl

/-! ### The invariant -/

/-- The burst `b` is under way on an idle engine that the calls `earlier` left. -/
structure UnderWay (e₀ : XdmaEngine) (calls : List TxBurst) (b : TxBurst) (e : XdmaEngine) :
    Prop where
  split : ∃ earlier, calls = earlier ++ [b] ∧ XmitSeq e₀ earlier e
  idle : e.running = false

/-- The engine at each place of the thread. -/
def SequentialInv (e₀ : XdmaEngine) (calls : List TxBurst) (s : TxSys) : Prop :=
  match s.drv with
  | .idle => ∃ e, XmitSeq e₀ calls e ∧ SameButWord s.eng e
  | .polling b => ∃ e, UnderWay e₀ calls b e ∧ SameButWord s.eng (xmitStart e b).2
  | .exited => ∃ b e word, UnderWay e₀ calls b e ∧ txExitTest word b.nbPkts = true ∧
      SameButWord s.eng (xmitStart e b).2
  | .stopping => ∃ b e word, UnderWay e₀ calls b e ∧ txExitTest word b.nbPkts = true ∧
      SameButWord s.eng (engineHalt (xmitStart e b).2 h2cChannelCtrl)

section
variable {virt2phy : Addr → Addr} {channelId : BitVec 16} {a : SetupAlloc}
  {ok : TxSys → TxBurst → Prop} {e₀ : XdmaEngine} {sent : List XdmaDesc} {calls : List TxBurst}
  {s s' : TxSys}

/-- A call finds the engine of the earlier calls. -/
theorem SequentialInv.call (h : SequentialInv e₀ calls s) (hinv : TxSysInv virt2phy s)
    (hd : s.drv = .idle) (hr : s.eng.running = false) (b : TxBurst) :
    ∃ e, UnderWay e₀ (calls ++ [b]) b e ∧ SameButWord (xmitStart s.eng b).2 (xmitStart e b).2 := by
  simp only [SequentialInv, hd] at h
  obtain ⟨e, hseq, heq⟩ := h
  have hused : s.eng.descUsed = 0 := (hinv.engine.idle hr).used
  have hmax := hinv.descMax_pos
  unfold SameButWord at heq
  rw [heq] at hused hmax hr
  refine ⟨e, ⟨⟨calls, rfl, hseq⟩, hr⟩, ?_⟩
  rw [heq, xmitStart_withWord (e := e) b hused hmax]
  exact sameButWord_withWord _ _

/-- **Step lemma.** -/
theorem SequentialInv.step (h : SequentialInv e₀ calls s) (hinv : TxSysInv virt2phy s)
    (hs : TxStep virt2phy ok s s') : SequentialInv e₀ (calls ++ s.submitted s') s' := by
  cases hs with
  | call b hd hr hok =>
    have hsub : s.submitted
        { eng := (xmitStart s.eng b).2, hw := s.hw.start, drv := .polling b } = [b] := by
      simp only [TxSys.submitted, hd]
    rw [hsub]
    exact h.call hinv hd hr b
  | busy b hr =>
    have hsub : s.submitted s = [] := by
      unfold TxSys.submitted
      cases s.drv <;> rfl
    rwa [hsub, List.append_nil]
  | exit b hd ht =>
    simp only [SequentialInv, hd] at h
    simp only [SequentialInv, TxSys.submitted, hd, List.append_nil]
    obtain ⟨e, hway, heq⟩ := h
    exact ⟨b, e, s.eng.completedDescCount, hway, ht, heq⟩
  | halt hd =>
    simp only [SequentialInv, hd] at h
    simp only [SequentialInv, TxSys.submitted, hd, List.append_nil]
    obtain ⟨b, e, word, hway, ht, heq⟩ := h
    refine ⟨b, e, word, hway, ht, ?_⟩
    unfold SameButWord at heq
    rw [heq]
    exact sameButWord_withWord (engineHalt (xmitStart e b).2 h2cChannelCtrl) _
  | reset hd =>
    simp only [SequentialInv, hd] at h
    simp only [SequentialInv, TxSys.submitted, hd, List.append_nil]
    obtain ⟨b, e, word, ⟨⟨earlier, rfl, hseq⟩, hrun⟩, ht, heq⟩ := h
    -- The word is cleared, and nothing else differs.
    refine ⟨_, hseq.returns hrun ht, ?_⟩
    unfold SameButWord at heq
    rw [heq]
    exact SameButWord.refl _
  | device hw' count' hs =>
    have hsub : s.submitted { s with eng := s.eng.withWord count', hw := hw' } = [] := by
      unfold TxSys.submitted
      cases s.drv <;> rfl
    rw [hsub, List.append_nil]
    cases hd : s.drv with
    | idle =>
      simp only [SequentialInv, hd] at h ⊢
      obtain ⟨e, hseq, heq⟩ := h
      exact ⟨e, hseq, heq.withWord count'⟩
    | polling b =>
      simp only [SequentialInv, hd] at h ⊢
      obtain ⟨e, hway, heq⟩ := h
      exact ⟨e, hway, heq.withWord count'⟩
    | exited =>
      simp only [SequentialInv, hd] at h ⊢
      obtain ⟨b, e, word, hway, ht, heq⟩ := h
      exact ⟨b, e, word, hway, ht, heq.withWord count'⟩
    | stopping =>
      simp only [SequentialInv, hd] at h ⊢
      obtain ⟨b, e, word, hway, ht, heq⟩ := h
      exact ⟨b, e, word, hway, ht, heq.withWord count'⟩

/-- **Run lemma.** -/
theorem TxRun.sequentialInv (hmap : MapsRing virt2phy (xdmaTxEngineSetup virt2phy channelId a))
    (h : TxRun virt2phy channelId a ok sent calls s) :
    SequentialInv (xdmaTxEngineSetup virt2phy channelId a) calls s := by
  induction h with
  | init => exact ⟨_, XmitSeq.nil, SameButWord.refl _⟩
  | step hr hs ih => exact ih.step (hr.toReach.inv hmap) hs

end

/-- **Transmit calls are sequential.** Whatever bursts are submitted and however the thread and
    the device interleave, whenever no call is under way the engine — its ring, its index, the
    register writes it issued — is what `xdma_xmit_pkts` leaves when it is called for the same
    bursts one after the other, each call returning `nb_pkts`; only the poll-mode word may
    hold a late report. -/
theorem txRun_sequential (virt2phy : Addr → Addr) (channelId : BitVec 16) (a : SetupAlloc)
    (hmap : MapsRing virt2phy (xdmaTxEngineSetup virt2phy channelId a))
    (ok : TxSys → TxBurst → Prop) (sent : List XdmaDesc) (calls : List TxBurst) (s : TxSys)
    (h : TxRun virt2phy channelId a ok sent calls s) (hd : s.drv = .idle) :
    ∃ e, XmitSeq (xdmaTxEngineSetup virt2phy channelId a) calls e ∧ SameButWord s.eng e := by
  have hinv := h.sequentialInv hmap
  simp only [SequentialInv, hd] at hinv
  exact hinv

/-- After bursts of two packets, with the report of a terminator still to come. -/
theorem txRun_sequential_two :
    ∃ sent calls s, TxRun id 0 SetupAlloc.pages (OfSizes (fun n => n = 2)) sent calls s ∧
      s.hw.pending (txRules id s.eng) = some 3 ∧
      ∃ e, XmitSeq freshTx calls e ∧ SameButWord s.eng e := by
  obtain ⟨s, hr, hd, hpend⟩ : ∃ s, TxReach id 0 SetupAlloc.pages (OfSizes (fun n => n = 2)) s ∧
      s.drv = .idle ∧ s.hw.pending (txRules id s.eng) = some 3 :=
    TxReach.after_burst freshTx_mapsRing (by decide) rfl
  obtain ⟨sent, calls, hrun⟩ := hr.toRun
  exact ⟨sent, calls, s, hrun, hpend,
    txRun_sequential id 0 SetupAlloc.pages freshTx_mapsRing _ sent calls s hrun hd⟩

end XdmaDpdk
