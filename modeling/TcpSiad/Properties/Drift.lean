import TcpSiad.Model.Execution

/-! The drift detector's slots `prev_min_delay1..3` (lines 417-452). `GetSsThresh` fills them in
order, free (zero) slots last and each filled slot above the one before, in every reachable
state; so the drift correction never raises `min_delay`. -/
namespace TcpSiad

open TcpSocketState

variable {s s' : TcpSiad} {c : Call} {m p1 p2 p3 : BitVec 64}

/-! ### One drift detection -/

/-- The order of the prior-minimum slots: they fill from the first, and the filled ones
increase. -/
structure SlotsOrdered (p1 p2 p3 : BitVec 64) : Prop where
  free1 : p1 = 0 → p2 = 0 ∧ p3 = 0
  free2 : p2 = 0 → p3 = 0
  lt12 : p1 ≠ 0 → p2 ≠ 0 → p1 < p2
  lt23 : p2 ≠ 0 → p3 ≠ 0 → p2 < p3

/-- At most the first slot filled: the initial slots, and those every reset leaves. -/
theorem slotsOrdered_single (x : BitVec 64) : SlotsOrdered x 0 0 :=
  ⟨fun _ => ⟨rfl, rfl⟩, fun _ => rfl, fun _ h => absurd rfl h, fun h => absurd rfl h⟩

/-- A drift detection keeps the slots ordered, whatever `min_delay` it reads: a slot is filled
only after the one before it and only with a `min_delay` above it. -/
theorem driftDetection_slotsOrdered (h : SlotsOrdered p1 p2 p3) :
    SlotsOrdered (driftDetection m p1 p2 p3).2.1 (driftDetection m p1 p2 p3).2.2.1
      (driftDetection m p1 p2 p3).2.2.2 := by
  rcases @driftDetection_cases m p1 p2 p3 with
    ⟨-, hd⟩ | ⟨-, h1, hd⟩ | ⟨hLt, h1, h2, hd⟩ | ⟨hLt, h1, h2, h3, hd⟩ | ⟨-, hd⟩ | ⟨-, hd⟩ <;>
    rw [hd]
  case inl => exact slotsOrdered_single 0
  case inr.inl =>
    obtain ⟨rfl, rfl⟩ := h.free1 h1
    exact slotsOrdered_single m
  case inr.inr.inl =>
    rw [h.free2 h2]
    exact ⟨fun h0 => absurd h0 h1, fun _ => rfl, fun _ _ => hLt, fun _ h => absurd rfl h⟩
  case inr.inr.inr.inl =>
    exact ⟨fun h0 => absurd h0 h1, fun h0 => absurd h0 h2, h.lt12, fun _ _ => hLt⟩
  case inr.inr.inr.inr.inl => exact slotsOrdered_single p1
  case inr.inr.inr.inr.inr => exact h

/-- Over ordered slots, a firing drift correction installs the first slot, which lies below the
`min_delay` it replaces and below both other slots. -/
theorem driftFires_installs_least (h : SlotsOrdered p1 p2 p3) (hFire : DriftFires m p1 p2 p3) :
    (driftDetection m p1 p2 p3).1 = p1 ∧ p1 < m ∧ p1 < p2 ∧ p1 < p3 := by
  rw [driftDetection_of_driftFires hFire]
  obtain ⟨h1, h2, h3, hLt, -, -⟩ := hFire
  have h12 := h.lt12 h1 h2
  exact ⟨rfl, hLt, h12, BitVec.lt_trans h12 (h.lt23 h2 h3)⟩

/-! ### Over runs -/

theorem step_slotsOrdered
    (hSlots : SlotsOrdered s.prevMinDelay1 s.prevMinDelay2 s.prevMinDelay3)
    (h : s.step c = .ok s') : SlotsOrdered s'.prevMinDelay1 s'.prevMinDelay2 s'.prevMinDelay3 :=
  step_preserves (P := fun t => SlotsOrdered t.prevMinDelay1 t.prevMinDelay2 t.prevMinDelay3)
    (fun _ _ _ h => by simpa using h)
    (fun _ _ _ _ _ h hw => by rw [increaseWindow_frame _ hw]; exact h)
    (fun _ _ _ _ h hg => by rw [getSsThresh_frame _ hg]; exact driftDetection_slotsOrdered h)
    (fun _ _ h => by simpa using h) hSlots h

theorem slotsOrdered_of_reachable {start : TcpSiad}
    (h0 : SlotsOrdered start.prevMinDelay1 start.prevMinDelay2 start.prevMinDelay3)
    (hr : Reachable start s) : SlotsOrdered s.prevMinDelay1 s.prevMinDelay2 s.prevMinDelay3 :=
  hr.induct_inv (P := fun t => SlotsOrdered t.prevMinDelay1 t.prevMinDelay2 t.prevMinDelay3) h0
    fun _ _ _ => step_slotsOrdered

/-- From the constructor's state or the attribute defaults, the prior-minimum slots fill in
order and the filled ones increase; so a congestion event never raises `min_delay`, and one that
applies the drift correction installs the first slot, below the `min_delay` it replaces and
below both other slots. -/
theorem drift_slots_ordered_of_reachable {configNumRtt cwnd : BitVec 32}
    (hr : Reachable (init configNumRtt cwnd) s ∨ Reachable typeIdDefaults s) :
    (s.prevMinDelay1 = 0 → s.prevMinDelay2 = 0 ∧ s.prevMinDelay3 = 0) ∧
    (s.prevMinDelay2 = 0 → s.prevMinDelay3 = 0) ∧
    (s.prevMinDelay1 ≠ 0 → s.prevMinDelay2 ≠ 0 → s.prevMinDelay1 < s.prevMinDelay2) ∧
    (s.prevMinDelay2 ≠ 0 → s.prevMinDelay3 ≠ 0 → s.prevMinDelay2 < s.prevMinDelay3) ∧
    ∀ (tcb : TcpSocketState) (s' : TcpSiad) (v : BitVec 32),
      s.getSsThresh tcb = .ok (s', v) → s'.minDelay ≤ s.minDelay ∧
      (DriftFires s.minDelay s.prevMinDelay1 s.prevMinDelay2 s.prevMinDelay3 →
        s'.minDelay = s.prevMinDelay1 ∧ s'.minDelay < s.minDelay ∧
        s'.minDelay < s.prevMinDelay2 ∧ s'.minDelay < s.prevMinDelay3) := by
  have hSlots : SlotsOrdered s.prevMinDelay1 s.prevMinDelay2 s.prevMinDelay3 :=
    hr.elim (slotsOrdered_of_reachable (slotsOrdered_single 0))
      (slotsOrdered_of_reachable (slotsOrdered_single 0))
  refine ⟨hSlots.free1, hSlots.free2, hSlots.lt12, hSlots.lt23, fun tcb s' v h => ?_⟩
  have hMin : s'.minDelay = s.detectDrift.minDelay := by rw [getSsThresh_frame _ h]
  rw [hMin]
  refine ⟨driftDetection_minDelay_le, fun hFire => ?_⟩
  obtain ⟨hInstall, hLt⟩ := driftFires_installs_least hSlots hFire
  have hInstall : s.detectDrift.minDelay = s.prevMinDelay1 := hInstall
  rw [hInstall]
  exact ⟨rfl, hLt⟩

/-- Three congestion events, each after a sample promoted to a larger `min_delay` (10, 20 and
30 ms), fill the slots; a fourth sample of 40 ms makes the next congestion event fall back to
10 ms. -/
theorem drift_slots_ordered_of_reachable_run :
    ∃ s, Reachable (init 0 10) s ∧
      DriftFires s.minDelay s.prevMinDelay1 s.prevMinDelay2 s.prevMinDelay3 ∧
      (∃ s' v, s.getSsThresh (ofSegments 100 0) = .ok (s', v) ∧ s'.minDelay = 10) ∧
      ((s.prevMinDelay1 = 0 → s.prevMinDelay2 = 0 ∧ s.prevMinDelay3 = 0) ∧
      (s.prevMinDelay2 = 0 → s.prevMinDelay3 = 0) ∧
      (s.prevMinDelay1 ≠ 0 → s.prevMinDelay2 ≠ 0 → s.prevMinDelay1 < s.prevMinDelay2) ∧
      (s.prevMinDelay2 ≠ 0 → s.prevMinDelay3 ≠ 0 → s.prevMinDelay2 < s.prevMinDelay3) ∧
      ∀ (tcb : TcpSocketState) (s' : TcpSiad) (v : BitVec 32),
        s.getSsThresh tcb = .ok (s', v) → s'.minDelay ≤ s.minDelay ∧
        (DriftFires s.minDelay s.prevMinDelay1 s.prevMinDelay2 s.prevMinDelay3 →
          s'.minDelay = s.prevMinDelay1 ∧ s'.minDelay < s.minDelay ∧
          s'.minDelay < s.prevMinDelay2 ∧ s'.minDelay < s.prevMinDelay3)) := by
  have hr := @Reachable.run (init 0 10) _ _
    [.pktsAcked (ofSegments 0 0) 10, .getSsThresh (ofSegments 100 0), .cwndEvent .completeCwr,
      .pktsAcked (ofSegments 100000 0) 20, .getSsThresh (ofSegments 100 0),
      .cwndEvent .completeCwr, .pktsAcked (ofSegments 100000 0) 30,
      .getSsThresh (ofSegments 100 0), .cwndEvent .completeCwr,
      .pktsAcked (ofSegments 100000 0) 40] .refl rfl
  exact ⟨_, hr, by decide, ⟨_, _, rfl, rfl⟩, drift_slots_ordered_of_reachable (.inl hr)⟩

end TcpSiad
