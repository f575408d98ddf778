import TcpSiad.Properties.IncreaseRate
import TcpSiad.Properties.Epoch

/-! Division safety. From the constructor's state the divisions by the epoch length are safe, but
not from the attribute defaults; three divisions can still fail, at line 194 and 511 on a zero
`curr_delay` and at line 200 on the epoch's last additional decrease. -/
namespace TcpSiad

open TcpSocketState

variable {s s' : TcpSiad} {tcb tcb' : TcpSocketState} {cwnd ssthresh k v : BitVec 32}
  {c : Call} {e : Fault}

/-! ### The epoch length -/

/-- From the constructor's state the epoch length is never zero. -/
theorem currNumRtt_ne_zero_of_reachable {configNumRtt cwnd : BitVec 32}
    (hr : Reachable (init configNumRtt cwnd) s) : s.currNumRtt ≠ 0 :=
  (epochInv_of_reachable hr).currNumRtt_ne_zero

/-- From the constructor's state no call divides by a zero epoch length: neither the rate update
of line 308 in `IncreaseWindow` nor the first backdating case of line 384 in `GetSsThresh`. -/
theorem epoch_divisions_safe_of_reachable {configNumRtt cwnd : BitVec 32}
    (hr : Reachable (init configNumRtt cwnd) s) :
    (∀ tcb k, s.increaseWindow tcb k ≠ .error (.divByZero 308)) ∧
    ∀ tcb, s.getSsThresh tcb ≠ .error (.divByZero 384) := by
  have h0 := currNumRtt_ne_zero_of_reachable hr
  refine ⟨fun tcb k h => ?_, fun tcb h => ?_⟩
  · rcases s.increaseWindow_error_cases h with h | h | ⟨-, h⟩ | ⟨hZero, -⟩
    · exact absurd h (by decide)
    · exact absurd h (by decide)
    · exact absurd h (by decide)
    · split at hZero <;> contradiction
  · rcases getSsThreshSegments_error _ (s.getSsThresh_error.mp h) with
      ⟨hZero, -⟩ | ⟨-, -, -, h⟩ | ⟨-, h⟩
    · exact h0 hZero
    all_goals exact absurd h (by decide)

/-- The calls that fault at line 308 from the attribute defaults pass it from the constructor's
state: after a first call in slow start, the second crosses the threshold below `incthresh`. -/
theorem epoch_divisions_safe_of_reachable_run :
    ∃ s, (init 0 10).run [.increaseWindow (ofSegments 1 0) 0] = .ok s ∧
      (∃ r, s.increaseWindow (ofSegments 4 5) 1 = .ok r) ∧
      (∀ tcb k, s.increaseWindow tcb k ≠ .error (.divByZero 308)) ∧
      ∀ tcb, s.getSsThresh tcb ≠ .error (.divByZero 384) :=
  ⟨_, rfl, ⟨_, rfl⟩, epoch_divisions_safe_of_reachable
    (@Reachable.run (init 0 10) _ _ [.increaseWindow (ofSegments 1 0) 0] .refl rfl)⟩

/-- From the attribute defaults, a first call in slow start and a second that leaves it with
`incthresh = 10` above the threshold of five segments reach line 308 with `curr_num_rtt = 0`. -/
theorem typeIdDefaults_run_faults_at_308 :
    typeIdDefaults.run [.increaseWindow (ofSegments 1 0) 0, .increaseWindow (ofSegments 4 5) 1] =
      .error (.divByZero 308) := by
  rfl

/-! ### Where a run from the constructor can still fail -/

/-- From the constructor's state with a window of at least one segment, a call can fail only by
dividing by zero at line 194 or 511, on a zero `curr_delay`, or at line 200, on the epoch's last
additional decrease: `alpha ≥ 1`, a nonzero `curr_num_rtt` and a zero `ConfigNumMs` rule out the
divisions of lines 287, 308, 384 and 485. -/
theorem step_error_of_reachable {configNumRtt cwnd : BitVec 32} (hCwnd : 1 ≤ cwnd)
    (hr : Reachable (init configNumRtt cwnd) s) (h : s.step c = .error e) :
    e = .divByZero 194 ∨ e = .divByZero 200 ∨ e = .divByZero 511 := by
  have h0 := currNumRtt_ne_zero_of_reachable hr
  cases c with
  | pktsAcked tcb rtt => cases h
  | cwndEvent event => cases h
  | increaseWindow tcb k =>
      have hAlpha : 1 ≤ s.alpha := hr.induct_inv hCwnd fun _ _ _ => step_alpha_pos
      rcases s.increaseWindow_error_cases (map_eq_error.mp h) with h | h | ⟨hZero, -⟩ | ⟨hZero, -⟩
      · exact .inl h
      · exact .inr (.inl h)
      · exact absurd hZero (by bv_omega)
      · split at hZero <;> contradiction
  | getSsThresh tcb =>
      rcases getSsThreshSegments_error _ (s.getSsThresh_error.mp (map_eq_error.mp h)) with
        ⟨hZero, -⟩ | ⟨hMs, -⟩ | ⟨-, h⟩
      · exact absurd hZero h0
      · exact absurd (epochInv_of_reachable hr).configNumMs_eq hMs
      · exact .inr (.inr h)

/-- Line 194 is reached too: a sample under one millisecond, an epoch reset, and an additional
decrease that scales by the zero `curr_delay`. -/
theorem step_error_of_reachable_194 :
    ∃ s, Reachable (init 0 10) s ∧
      s.step (.increaseWindow (ofSegments 1004 1000) 0) = .error (.divByZero 194) ∧
      (Fault.divByZero 194 = .divByZero 194 ∨ Fault.divByZero 194 = .divByZero 200 ∨
        Fault.divByZero 194 = .divByZero 511) := by
  have hr : Reachable (init 0 10) _ :=
    .step (.cwndEvent .completeCwr)
      (.step (.pktsAcked (ofSegments 0 0) 0)
        (.step (.getSsThresh (ofSegments 4000 0))
          (.step (.increaseWindow (ofSegments 5 0) 0) .refl rfl) rfl) rfl) rfl
  exact ⟨_, hr, rfl,
    @step_error_of_reachable _ (.increaseWindow (ofSegments 1004 1000) 0) _ 0 10 (by decide) hr rfl⟩

/-- With `ConfigNumRtt = 2` the first additional decrease is the epoch's last one: after a
congestion event at 1000 segments and the epoch's reset, a window of 100 segments above a
threshold of 10 reaches line 200 with `curr_num_rtt - dec_cnt - 1 = 0`. -/
theorem init_run_faults_at_200 :
    (init 2 10).run
        [.increaseWindow (ofSegments 1 0) 0, .getSsThresh (ofSegments 1000 0),
          .cwndEvent .completeCwr, .increaseWindow (ofSegments 100 10) 0] =
      .error (.divByZero 200) := by
  rfl

/-- A sample under one millisecond, `rtt.GetMilliSeconds () = 0`, zeroes `curr_delay`, and a
congestion event right after it divides by it at line 511, from every state with a nonzero
epoch length: every state reachable from the constructor's. -/
theorem getSsThresh_faults_after_zero_sample (h0 : s.currNumRtt ≠ 0) :
    (s.pktsAcked tcb 0).getSsThresh tcb' = .error (.divByZero 511) :=
  (getSsThresh_error _).mpr <| getSsThreshSegments_of_currDelay_eq_zero _ (by simpa using h0)
    (by simp [stdMin, BitVec.lt_def])

theorem init_zero_sample_faults_at_511 :
    (init 0 10).run [.pktsAcked (ofSegments 0 0) 0, .getSsThresh (ofSegments 10 10)] =
      .error (.divByZero 511) := by
  have hFault := @getSsThresh_faults_after_zero_sample (init 0 10) (ofSegments 0 0)
    (ofSegments 10 10) (by decide)
  simp only [run, step, pure_bind, hFault]
  rfl

end TcpSiad
