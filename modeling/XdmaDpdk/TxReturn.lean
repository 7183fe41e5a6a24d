import XdmaDpdk.Tx

namespace XdmaDpdk

/-!
# XDMA driver — the result of a transmit burst

What the `uint16_t` result of `xdma_xmit_pkts` tells the caller.  The result names the staged
packets (`ReturnsStaged`) when a burst that fits is sent on an idle engine, and only then
(`returnsStaged_iff`): the busy exit returns 65535, and a burst of which a prefix is staged
returns `nb_pkts`.
-/

/-- The result is at most `nb_pkts` and counts the packets staged, from the first on. -/
def ReturnsStaged (b : TxBurst) (out : XmitResult) : Prop :=
  out.ret ≤ b.nbPkts ∧ out.staged = b.txPkts.take out.ret

/-- The segments of the whole burst. -/
def TxBurst.segs (b : TxBurst) : Nat := (b.txPkts.map (fun mb => (b.heap mb).nbSegs)).sum

section
variable {e : XdmaEngine} {b : TxBurst} {reads : List Nat} {out : XmitResult}

theorem xmitStart_staged (e : XdmaEngine) (b : TxBurst) :
    (xmitStart e b).1 = accepted b.heap b.txPkts e.descMax := by
  simp only [xmitStart, xmitStage, xmitLoop_eq]

/-- The busy exit: 65535 is no count of staged packets. -/
theorem not_returnsStaged_of_running (h : xdmaXmitPkts e b reads = some out)
    (hrun : e.running = true) : ¬ ReturnsStaged b out := by
  rintro ⟨hle, hstaged⟩
  rcases xdmaXmitPkts_cases h with ⟨-, rfl⟩ | ⟨hidle, -⟩
  · -- With 65535 packets the result is in range, and names them all.
    have hlen := congrArg List.length hstaged
    simp only [List.length_take, List.length_nil, TxBurst.nbPkts] at hlen hle
    omega
  · exact absurd (hrun.symm.trans hidle) (by decide)

/-- The other exit returns `nb_pkts`, whatever was staged. -/
theorem returnsStaged_iff_of_idle (h : xdmaXmitPkts e b reads = some out)
    (hrun : e.running = false) : ReturnsStaged b out ↔ b.segs ≤ e.descMax := by
  rcases xdmaXmitPkts_cases h with ⟨hbusy, -⟩ | ⟨-, -, rfl⟩
  · exact absurd (hrun.symm.trans hbusy) (by decide)
  · -- The whole array is named, so the whole array has to be accepted.
    simp only [ReturnsStaged, TxBurst.nbPkts, List.take_length, xmitStart_staged,
      accepted_eq_self_iff, Nat.le_refl, true_and]
    rfl

end

/-- **The return contract.** For every engine and every burst that returns, the result names
    the staged packets exactly when the engine was idle and the whole burst fits the ring. -/
theorem returnsStaged_iff (e : XdmaEngine) (b : TxBurst) (reads : List Nat) (out : XmitResult)
    (h : xdmaXmitPkts e b reads = some out) :
    ReturnsStaged b out ↔ e.running = false ∧ b.segs ≤ e.descMax := by
  cases hrun : e.running with
  | true =>
    apply iff_of_false (not_returnsStaged_of_running h hrun)
    rintro ⟨hidle, -⟩
    exact absurd hidle (by decide)
  | false => rw [returnsStaged_iff_of_idle h hrun, and_iff_right rfl]

/-- Three packets of six segments on a fresh engine, whose word reads 0, 2 and 3: the call names
    all three. -/
theorem returnsStaged_segmented :
    ∃ out, xdmaXmitPkts (xdmaTxEngineSetup id 0 SetupAlloc.pages) .segmented [0, 2, 3] = some out ∧
      out.ret = 3 ∧ ReturnsStaged .segmented out := by
  have hidle : (xdmaTxEngineSetup id 0 SetupAlloc.pages).running = false := rfl
  have hwait : txWaitLoop TxBurst.segmented.nbPkts [0, 2, 3] = true := by decide
  have hrun := (xdmaXmitPkts_of_idle .segmented [0, 2, 3] hidle).trans (if_pos hwait)
  have hfits : TxBurst.segmented.segs ≤ (xdmaTxEngineSetup id 0 SetupAlloc.pages).descMax := by
    decide
  exact ⟨_, hrun, rfl, (returnsStaged_iff _ _ [0, 2, 3] _ hrun).mpr ⟨hidle, hfits⟩⟩

/-- While an engine runs, a call with one packet returns 65535. -/
theorem returnsStaged_fails :
    ¬ ∀ (e : XdmaEngine) (b : TxBurst) (reads : List Nat) (out : XmitResult),
      xdmaXmitPkts e b reads = some out → ReturnsStaged b out := by
  intro h
  let busy : XdmaEngine := { xdmaTxEngineSetup id 0 SetupAlloc.pages with running := true }
  have hbusy : xdmaXmitPkts busy (TxBurst.plain 1 (by decide)) []
      = some { ret := 2 ^ 16 - 1, engine := busy, staged := [] } :=
    xdmaXmitPkts_of_running _ [] rfl
  exact not_returnsStaged_of_running hbusy rfl (h busy _ [] _ hbusy)

end XdmaDpdk
