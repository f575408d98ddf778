import TcpSiad.Properties.DelayRatio

/-! What the round-trip samples determine, whatever calls are interleaved: `prev_delay` and
`curr_delay` are the last sample and the smaller of the last two, and within an epoch
`curr_min_delay` is the smallest sample, by the invariant `min_delay ≤ curr_min_delay ≤ INT_MAX`. -/
namespace TcpSiad

open TcpSocketState

/-- The round-trip samples a sequence of calls passes to `PktsAcked`, in order. -/
def samples : List Call → List (BitVec 64)
  | [] => []
  | .pktsAcked _ rtt :: cs => rtt :: samples cs
  | .increaseWindow _ _ :: cs | .getSsThresh _ :: cs | .cwndEvent _ :: cs => samples cs

/-- Lines 146-148 over a sequence of samples: each sample becomes `prev_delay`, and `curr_delay`
the smaller of it and the one before. Returns `(prev_delay, curr_delay)`. -/
def filterDelays (prevDelay currDelay : BitVec 64) : List (BitVec 64) → BitVec 64 × BitVec 64
  | [] => (prevDelay, currDelay)
  | rtt :: rtts => filterDelays rtt (stdMin rtt prevDelay) rtts

/-- The smallest of `m` and the samples `rtts`, each compared as `std::min` compares. -/
def lowest (m : BitVec 64) (rtts : List (BitVec 64)) : BitVec 64 :=
  rtts.foldl (fun m rtt => stdMin rtt m) m

variable {s s' t : TcpSiad} {c : Call} {cs : List Call}

theorem samples_cons : samples (c :: cs) = samples [c] ++ samples cs := by
  cases c <;> rfl

theorem filterDelays_append (p q : BitVec 64) (xs ys : List (BitVec 64)) :
    filterDelays p q (xs ++ ys) =
      filterDelays (filterDelays p q xs).1 (filterDelays p q xs).2 ys := by
  induction xs generalizing p q with
  | nil => rfl
  | cons x xs ih => exact ih x (stdMin x p)

theorem lowest_append (m : BitVec 64) (xs ys : List (BitVec 64)) :
    lowest m (xs ++ ys) = lowest (lowest m xs) ys :=
  List.foldl_append _ _ _ _

/-! ### The delay filter -/

/-- One call moves the delay filter only if it passes a sample. -/
theorem step_delays (h : s.step c = .ok t) :
    (t.prevDelay, t.currDelay) = filterDelays s.prevDelay s.currDelay (samples [c]) := by
  cases c with
  | pktsAcked tcb rtt => cases h; simp [samples, filterDelays]
  | increaseWindow tcb k =>
      obtain ⟨⟨_, _⟩, hw, rfl⟩ := map_eq_ok.mp h
      obtain ⟨-, hPrev, hCurr⟩ := increaseWindow_delays hw
      rw [hPrev, hCurr]; rfl
  | getSsThresh tcb =>
      obtain ⟨⟨_, _⟩, hg, rfl⟩ := map_eq_ok.mp h
      obtain ⟨-, hPrev, hCurr⟩ := getSsThresh_delays hg
      rw [hPrev, hCurr]; rfl
  | cwndEvent e => cases h; simp [samples, filterDelays]

/-- Over a run the delay filter is the filter of its samples, whatever calls come between. -/
theorem run_delays (h : s.run cs = .ok s') :
    (s'.prevDelay, s'.currDelay) = filterDelays s.prevDelay s.currDelay (samples cs) := by
  induction cs generalizing s with
  | nil => cases h; rfl
  | cons c cs ih =>
      obtain ⟨t, hs, hRest⟩ := bind_eq_ok.mp h
      rw [ih hRest, samples_cons, filterDelays_append, ← step_delays hs]

/-- Whatever calls come between the samples, after a run `prev_delay` is its last sample and
`curr_delay` the smaller of its last two. -/
theorem delay_filter_of_run {earlier : List (BitVec 64)} {r1 r2 : BitVec 64}
    (h : s.run cs = .ok s') (hSamples : samples cs = earlier ++ [r1, r2]) :
    s'.prevDelay = r2 ∧ s'.currDelay = stdMin r2 r1 := by
  have hFilter := run_delays h
  rw [hSamples, filterDelays_append] at hFilter
  exact Prod.mk.inj hFilter

/-- Samples of 30 and 20 ms with a window update and an epoch's end between and after them. -/
theorem delay_filter_of_run_interleaved :
    ∃ s', (init 0 10).run [.pktsAcked (ofSegments 0 0) 30, .increaseWindow (ofSegments 5 0) 0,
        .pktsAcked (ofSegments 0 0) 20, .cwndEvent .completeCwr] = .ok s' ∧
      samples [.pktsAcked (ofSegments 0 0) 30, .increaseWindow (ofSegments 5 0) 0,
        .pktsAcked (ofSegments 0 0) 20, .cwndEvent .completeCwr] = [] ++ [30, 20] ∧
      (s'.prevDelay = 20 ∧ s'.currDelay = stdMin 20 30) := by
  obtain ⟨s', h⟩ : ∃ s', (init 0 10).run [.pktsAcked (ofSegments 0 0) 30,
      .increaseWindow (ofSegments 5 0) 0, .pktsAcked (ofSegments 0 0) 20,
      .cwndEvent .completeCwr] = .ok s' := ⟨_, rfl⟩
  exact ⟨s', h, rfl, @delay_filter_of_run _ _ _ [] 30 20 h rfl⟩

/-! ### The delay minima -/

/-- The delay minima of every reachable state: the all-time minimum is at most the epoch's, and
that at most the `INT_MAX` both start from. -/
structure MinimaOrdered (t : TcpSiad) : Prop where
  minDelay_le : t.minDelay ≤ t.currMinDelay
  currMinDelay_le : t.currMinDelay ≤ intMax

theorem MinimaOrdered.step (hInv : MinimaOrdered s) (h : s.step c = .ok s') :
    MinimaOrdered s' :=
  step_preserves (P := MinimaOrdered)
    (fun _ _ _ hInv => ⟨pktsAcked_minDelay_le_currMinDelay _ _ _ hInv.1, by
      rw [pktsAcked_currMinDelay _ _ _ hInv.1]
      exact BitVec.le_trans stdMin_le_right hInv.2⟩)
    (fun _ _ _ _ _ hInv hw => by rw [increaseWindow_frame _ hw]; exact ⟨hInv.1, hInv.2⟩)
    (fun _ _ _ _ hInv hg => by
      rw [getSsThresh_frame _ hg]
      exact ⟨BitVec.le_trans driftDetection_minDelay_le hInv.1, hInv.2⟩)
    (fun _ e hInv => by
      constructor <;> simp only [cwndEvent_minDelay, cwndEvent_currMinDelay] <;> split
      · exact BitVec.le_trans hInv.1 hInv.2
      · exact hInv.1
      · exact BitVec.le_refl intMax
      · exact hInv.2)
    hInv h

theorem minimaOrdered_of_reachable {configNumRtt cwnd : BitVec 32}
    (hr : Reachable (init configNumRtt cwnd) s ∨ Reachable typeIdDefaults s) :
    MinimaOrdered s :=
  hr.elim (·.induct_inv ⟨BitVec.le_refl _, BitVec.le_refl _⟩ fun _ _ _ => MinimaOrdered.step)
    (·.induct_inv ⟨BitVec.le_refl _, BitVec.le_refl _⟩ fun _ _ _ => MinimaOrdered.step)

/-- From the constructor's state or the attribute defaults, the all-time minimum delay never
exceeds the epoch's, nor the epoch's the `INT_MAX` both start from. -/
theorem minDelay_le_currMinDelay_of_reachable {configNumRtt cwnd : BitVec 32}
    (hr : Reachable (init configNumRtt cwnd) s ∨ Reachable typeIdDefaults s) :
    s.minDelay ≤ s.currMinDelay ∧ s.currMinDelay ≤ intMax :=
  ⟨(minimaOrdered_of_reachable hr).minDelay_le, (minimaOrdered_of_reachable hr).currMinDelay_le⟩

/-- A sample of 30 ms sets both minima; the epoch's end puts the epoch's back to `INT_MAX`. -/
theorem minDelay_le_currMinDelay_of_reachable_run :
    ∃ s, Reachable (init 0 10) s ∧ s.minDelay = 30 ∧ s.currMinDelay = intMax ∧
      (s.minDelay ≤ s.currMinDelay ∧ s.currMinDelay ≤ intMax) := by
  have hr := @Reachable.run (init 0 10) _ _
    [.pktsAcked (ofSegments 0 0) 30, .cwndEvent .completeCwr] .refl rfl
  exact ⟨_, hr, rfl, rfl, minDelay_le_currMinDelay_of_reachable (.inl hr)⟩

/-! ### The epoch minimum -/

/-- Within an epoch, a call lowers the epoch minimum to the sample it passes, if smaller. -/
theorem step_currMinDelay (hInv : MinimaOrdered s) (hc : c ≠ .cwndEvent .completeCwr)
    (h : s.step c = .ok s') : s'.currMinDelay = lowest s.currMinDelay (samples [c]) := by
  cases c with
  | pktsAcked tcb rtt => cases h; exact pktsAcked_currMinDelay _ _ _ hInv.minDelay_le
  | increaseWindow tcb k =>
      obtain ⟨⟨_, _⟩, hw, rfl⟩ := map_eq_ok.mp h
      rw [increaseWindow_frame _ hw]; rfl
  | getSsThresh tcb =>
      obtain ⟨⟨_, _⟩, hg, rfl⟩ := map_eq_ok.mp h
      rw [getSsThresh_frame _ hg]; rfl
  | cwndEvent e =>
      cases h
      have he : e ≠ .completeCwr := fun he => hc (he ▸ rfl)
      rw [cwndEvent_currMinDelay, if_neg he]; rfl

theorem run_currMinDelay (hInv : MinimaOrdered s)
    (hEpoch : ∀ c ∈ cs, c ≠ .cwndEvent .completeCwr) (h : s.run cs = .ok s') :
    s'.currMinDelay = lowest s.currMinDelay (samples cs) := by
  induction cs generalizing s with
  | nil => cases h; rfl
  | cons c cs ih =>
      obtain ⟨t, hs, hRest⟩ := bind_eq_ok.mp h
      rw [ih (hInv.step hs) (fun c' hc' => hEpoch c' (.tail c hc')) hRest, samples_cons,
        lowest_append, ← step_currMinDelay hInv (hEpoch c (.head cs)) hs]

/-- From the constructor's state or the attribute defaults, `curr_min_delay` is the smallest
sample of the epoch: a run without `CA_EVENT_COMPLETE_CWR` lowers it to exactly the smallest of
its samples, whatever calls come between them, or leaves it. -/
theorem currMinDelay_within_epoch {configNumRtt cwnd : BitVec 32}
    (hr : Reachable (init configNumRtt cwnd) s ∨ Reachable typeIdDefaults s)
    (hEpoch : ∀ c ∈ cs, c ≠ .cwndEvent .completeCwr) (h : s.run cs = .ok s') :
    s'.currMinDelay = lowest s.currMinDelay (samples cs) :=
  run_currMinDelay (minimaOrdered_of_reachable hr) hEpoch h

/-- After an epoch's end, samples of 30, 20 and 25 ms around a window update leave the epoch
minimum at 20 ms. -/
theorem currMinDelay_within_epoch_run :
    ∃ s s', Reachable (init 0 10) s ∧
      (∀ c ∈ [Call.pktsAcked (ofSegments 0 0) 30, .increaseWindow (ofSegments 5 0) 0,
        .pktsAcked (ofSegments 0 0) 20, .pktsAcked (ofSegments 0 0) 25],
        c ≠ .cwndEvent .completeCwr) ∧
      s.run [.pktsAcked (ofSegments 0 0) 30, .increaseWindow (ofSegments 5 0) 0,
        .pktsAcked (ofSegments 0 0) 20, .pktsAcked (ofSegments 0 0) 25] = .ok s' ∧
      s'.currMinDelay = 20 ∧
      s'.currMinDelay = lowest s.currMinDelay (samples [.pktsAcked (ofSegments 0 0) 30,
        .increaseWindow (ofSegments 5 0) 0, .pktsAcked (ofSegments 0 0) 20,
        .pktsAcked (ofSegments 0 0) 25]) := by
  have hr := @Reachable.run (init 0 10) _ _ [.cwndEvent .completeCwr] .refl rfl
  have hEpoch : ∀ c ∈ [Call.pktsAcked (ofSegments 0 0) 30, .increaseWindow (ofSegments 5 0) 0,
      .pktsAcked (ofSegments 0 0) 20, .pktsAcked (ofSegments 0 0) 25],
      c ≠ .cwndEvent .completeCwr := by simp
  exact ⟨_, _, hr, hEpoch, rfl, rfl, currMinDelay_within_epoch (.inl hr) hEpoch rfl⟩

end TcpSiad
