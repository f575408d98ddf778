import TcpSiad.Model.DelayTracker
import TcpSiad.Model.WindowController
import TcpSiad.Model.ThresholdEstimator

/-! Runs of the algorithm. The transport stack drives one `TcpSiad` object through its four
entry points, in any order and with any arguments; a run stops at the first division by zero.
`Reachable start` is the set of states such runs lead to, the domain of every invariant. -/
namespace TcpSiad

/-- One call of the transport stack into the algorithm, with its arguments. -/
inductive Call where
  | pktsAcked (tcb : TcpSocketState) (rtt : BitVec 64)
  | increaseWindow (tcb : TcpSocketState) (segmentsAcked : BitVec 32)
  | getSsThresh (tcb : TcpSocketState)
  | cwndEvent (event : TcpCAEvent)

/-- The state after one call. -/
def step (s : TcpSiad) : Call → Except Fault TcpSiad
  | .pktsAcked tcb rtt => pure (s.pktsAcked tcb rtt)
  | .increaseWindow tcb segmentsAcked => Prod.fst <$> s.increaseWindow tcb segmentsAcked
  | .getSsThresh tcb => Prod.fst <$> s.getSsThresh tcb
  | .cwndEvent event => pure (s.cwndEvent event)

/-- The state after a sequence of calls, or the first fault. -/
def run (s : TcpSiad) : List Call → Except Fault TcpSiad
  | [] => pure s
  | c :: cs => do run (← s.step c) cs

/-- The states some run from `start` ends in. -/
inductive Reachable (start : TcpSiad) : TcpSiad → Prop where
  | refl : Reachable start start
  | step {s s' : TcpSiad} (c : Call) (prior : Reachable start s) (last : s.step c = .ok s') :
      Reachable start s'

/-- Extend a reachable state by a whole run. -/
theorem Reachable.run {start s s' : TcpSiad} {cs : List Call} (prior : Reachable start s)
    (h : s.run cs = .ok s') : Reachable start s' := by
  induction cs generalizing s with
  | nil => cases h; exact prior
  | cons c cs ih =>
      obtain ⟨mid, hStep, hRest⟩ := bind_eq_ok.mp h
      exact ih (prior.step c hStep) hRest

/-- A predicate that holds at `start` and survives every call holds on every reachable state. -/
theorem Reachable.induct_inv {start s : TcpSiad} {P : TcpSiad → Prop} (hr : Reachable start s)
    (h0 : P start) (hStep : ∀ s c s', P s → s.step c = .ok s' → P s') : P s := by
  induction hr with
  | refl => exact h0
  | step c _ last ih => exact hStep _ c _ ih last

/-- A property each entry point keeps is kept by every call: the step lemma of an invariant,
from one lemma per entry point. -/
theorem step_preserves {P : TcpSiad → Prop} {s s' : TcpSiad} {c : Call}
    (hAcked : ∀ s tcb rtt, P s → P (s.pktsAcked tcb rtt))
    (hIncrease : ∀ s tcb k s' tcb', P s → s.increaseWindow tcb k = .ok (s', tcb') → P s')
    (hThresh : ∀ s tcb s' v, P s → s.getSsThresh tcb = .ok (s', v) → P s')
    (hEvent : ∀ s e, P s → P (s.cwndEvent e)) (hP : P s) (h : s.step c = .ok s') : P s' := by
  cases c with
  | pktsAcked tcb rtt => cases h; exact hAcked s tcb rtt hP
  | increaseWindow tcb k =>
      obtain ⟨⟨_, _⟩, hw, rfl⟩ := map_eq_ok.mp h
      exact hIncrease _ _ _ _ _ hP hw
  | getSsThresh tcb =>
      obtain ⟨⟨_, _⟩, hg, rfl⟩ := map_eq_ok.mp h
      exact hThresh _ _ _ _ hP hg
  | cwndEvent e => cases h; exact hEvent s e hP

end TcpSiad
