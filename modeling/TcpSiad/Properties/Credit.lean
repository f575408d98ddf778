import TcpSiad.Model.Execution

/-! The credit of the regular increase: acknowledged segments are paid into `snd_cwnd_cnt`, and
each segment of window costs `next = max (1, cwnd / alpha)` of them. Over any run the increases
spend no more than the starting credit plus what was paid in. -/
namespace TcpSiad

open TcpSocketState

/-- What a run pays into the regular increase's credit `snd_cwnd_cnt`, in acknowledged segments,
and what it spends of it, `inc * next` for `inc` segments of window at `next` each. -/
structure Credit where
  paid : Nat
  spent : Nat
  deriving DecidableEq, Repr

/-- The credit one call moves: an `IncreaseWindow` that takes the regular increase pays its
`segmentsAcked` and spends `inc * next`; any other call, or one that fails, moves nothing. -/
def regularIncreaseCredit (s : TcpSiad) : Call → Credit
  | .increaseWindow tcb k =>
    if s.TakesAdditionalDecrease tcb then ⟨0, 0⟩
    else
      match (s.prepare tcb).1.regularIncrease (s.prepare tcb).2.1 (s.prepare tcb).2.2 k with
      | .ok r => ⟨k.toNat, r.inc.toNat * r.next.toNat⟩
      | .error _ => ⟨0, 0⟩
  | _ => ⟨0, 0⟩

/-- The credit a run moves, call by call up to its first fault. -/
def creditLedger (s : TcpSiad) : List Call → Credit
  | [] => ⟨0, 0⟩
  | c :: cs =>
    match s.step c with
    | .ok s' =>
      ⟨(regularIncreaseCredit s c).paid + (creditLedger s' cs).paid,
        (regularIncreaseCredit s c).spent + (creditLedger s' cs).spent⟩
    | .error _ => ⟨0, 0⟩

variable {s s' : TcpSiad} {tcb tcb' : TcpSocketState} {k v : BitVec 32} {c : Call}

theorem getSsThresh_sndCwndCnt (h : s.getSsThresh tcb = .ok (s', v)) : s'.sndCwndCnt = 0 := by
  rw [getSsThresh_frame _ h]

/-- A regular increase keeps less credit than one increment costs and adds at most
`segmentsAcked` segments, each at the price `next = max (1, cwnd / alpha)`; the window written
back is the one read plus those segments, floored at `minCwnd`. -/
theorem increaseWindow_regular (h : s.increaseWindow tcb k = .ok (s', tcb'))
    (hRegular : ¬s.TakesAdditionalDecrease tcb) :
    ∃ r, (s.prepare tcb).1.regularIncrease (s.prepare tcb).2.1 (s.prepare tcb).2.2 k = .ok r ∧
      s' = r.siad ∧ s'.sndCwndCnt < r.next ∧ r.inc ≤ k ∧
      r.next = stdMax 1 ((s.prepare tcb).2.1 / s.alpha) ∧
      tcb'.cWnd = atLeast minCwnd ((s.prepare tcb).2.1 + r.inc) * tcb.segmentSize := by
  obtain ⟨_, _, hAdj, rfl⟩ := s.increaseWindow_ok h
  obtain ⟨seen, -, hPrep⟩ := @prepare_fst s tcb
  obtain ⟨-, r, hr, hEq⟩ := (adjustWindow_ok _ hAdj).resolve_left fun hDec => hRegular hDec.1
  simp only [Prod.mk.injEq] at hEq
  obtain ⟨rfl, rfl, -⟩ := hEq
  obtain ⟨-, -, -, hKept, hInc, -⟩ := regularIncrease_ok _ hr
  obtain ⟨hNext, hCwnd⟩ := regularIncrease_next_cwnd _ hr
  rw [hPrep] at hNext
  exact ⟨r, hr, rfl, hKept, hInc, hNext, by rw [hCwnd]⟩

/-- One call spends, and leaves in `snd_cwnd_cnt`, no more than it found there and was paid. -/
theorem step_credit (h : s.step c = .ok s') :
    (regularIncreaseCredit s c).spent + s'.sndCwndCnt.toNat ≤
      s.sndCwndCnt.toNat + (regularIncreaseCredit s c).paid := by
  cases c with
  | pktsAcked tcb rtt => cases h; simp [regularIncreaseCredit]
  | cwndEvent e => cases h; simp [regularIncreaseCredit]
  | getSsThresh tcb =>
      obtain ⟨⟨_, _⟩, hg, rfl⟩ := map_eq_ok.mp h
      simp [regularIncreaseCredit, getSsThresh_sndCwndCnt hg]
  | increaseWindow tcb k =>
      obtain ⟨⟨s', _⟩, hw, rfl⟩ := map_eq_ok.mp h
      obtain ⟨_, _, hAdj, -⟩ := s.increaseWindow_ok hw
      obtain ⟨seen, -, hPrep⟩ := @prepare_fst s tcb
      simp only [regularIncreaseCredit]
      rcases adjustWindow_ok _ hAdj with ⟨hEnter, hDec⟩ | ⟨hNot, r, hr, hEq⟩
      · rw [if_pos (show s.TakesAdditionalDecrease tcb from hEnter)]
        have hFrame : s' = _ := (additionalDecrease_ok _ hDec).1
        rw [hFrame]
        simp
      · rw [if_neg (show ¬s.TakesAdditionalDecrease tcb from hNot), hr]
        obtain ⟨rfl, -⟩ := Prod.mk.inj hEq
        have hCost := (regularIncrease_ok _ hr).2.2.2.2.2
        rw [hPrep] at hCost
        exact hCost

/-- Over any run, the regular increase spends no more credit than `snd_cwnd_cnt` held at the start
plus the acknowledged segments paid in. -/
theorem creditLedger_spent_le (s : TcpSiad) (cs : List Call) :
    (creditLedger s cs).spent ≤ s.sndCwndCnt.toNat + (creditLedger s cs).paid := by
  induction cs generalizing s with
  | nil => simp [creditLedger]
  | cons c cs ih =>
      rw [creditLedger]
      cases hs : s.step c with
      | error e => simp
      | ok s' =>
          have hStep := step_credit hs
          have hRest := ih s'
          dsimp only
          omega

example : creditLedger (init 0 10)
    [.increaseWindow (ofSegments 5 0) 1, .increaseWindow (ofSegments 6 0) 3] = ⟨4, 4⟩ := by
  rfl

/-- The regular increase adds no window the acknowledged segments have not paid for: over any run
from any state, `inc * next` summed over the calls that take it is at most the starting
`snd_cwnd_cnt` plus their `segmentsAcked`; and each such call keeps less credit than `next`,
buys at most `segmentsAcked` segments at `next = max (1, cwnd / alpha)` each, and writes back the
window it read plus what it bought. -/
theorem regular_increase_paid_for :
    (∀ (s : TcpSiad) (cs : List Call),
      (creditLedger s cs).spent ≤ s.sndCwndCnt.toNat + (creditLedger s cs).paid) ∧
    ∀ (s : TcpSiad) (tcb : TcpSocketState) (k : BitVec 32) (s' : TcpSiad) (tcb' : TcpSocketState),
      s.increaseWindow tcb k = .ok (s', tcb') → ¬s.TakesAdditionalDecrease tcb →
        ∃ r, (s.prepare tcb).1.regularIncrease (s.prepare tcb).2.1 (s.prepare tcb).2.2 k = .ok r ∧
          s' = r.siad ∧ s'.sndCwndCnt < r.next ∧ r.inc ≤ k ∧
          r.next = stdMax 1 ((s.prepare tcb).2.1 / s.alpha) ∧
          tcb'.cWnd = atLeast minCwnd ((s.prepare tcb).2.1 + r.inc) * tcb.segmentSize :=
  ⟨creditLedger_spent_le, fun _ _ _ _ _ => increaseWindow_regular⟩

/-- Two regular increases from the constructor's state pay in four segments and spend four; the
first grows the window from five segments to six. -/
theorem regular_increase_paid_for_init :
    (creditLedger (init 0 10)
        [.increaseWindow (ofSegments 5 0) 1, .increaseWindow (ofSegments 6 0) 3]).spent ≤
      (init 0 10).sndCwndCnt.toNat + (creditLedger (init 0 10)
        [.increaseWindow (ofSegments 5 0) 1, .increaseWindow (ofSegments 6 0) 3]).paid ∧
    ∃ s' tcb', (init 0 10).increaseWindow (ofSegments 5 0) 1 = .ok (s', tcb') ∧ tcb'.cWnd = 6 ∧
      ∃ r, ((init 0 10).prepare (ofSegments 5 0)).1.regularIncrease
          ((init 0 10).prepare (ofSegments 5 0)).2.1 ((init 0 10).prepare (ofSegments 5 0)).2.2 1 =
          .ok r ∧
        s' = r.siad ∧ s'.sndCwndCnt < r.next ∧ r.inc ≤ 1 ∧
        r.next = stdMax 1 (((init 0 10).prepare (ofSegments 5 0)).2.1 / (init 0 10).alpha) ∧
        tcb'.cWnd = atLeast minCwnd (((init 0 10).prepare (ofSegments 5 0)).2.1 + r.inc) *
          (ofSegments 5 0).segmentSize :=
  ⟨regular_increase_paid_for.1 _ _, _, _, rfl, rfl,
    regular_increase_paid_for.2 _ _ _ _ _ rfl (by decide)⟩

end TcpSiad
