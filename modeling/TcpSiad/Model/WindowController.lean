import TcpSiad.Model.State

/-! The window controller, `IncreaseWindow`. On each acknowledgment batch it takes either an
additional decrease, which scales the window by the delay ratio `min_delay / curr_delay` and
spreads the climb back to `incthresh` over what is left of the epoch, or a regular increase of
`alpha` segments per round trip, paid for by acknowledged segments. -/
namespace TcpSiad

variable (s : TcpSiad)

/-- Lines 173-184, before `IncreaseWindow` picks a branch: the first call forces the threshold
to twenty segments, window and threshold are read in segments, and slow start and fast increase
rule out an additional decrease. -/
def prepare (tcb : TcpSocketState) : TcpSiad × BitVec 32 × BitVec 32 :=
  let tcb := if s.isStart then { tcb with ssThresh := tcb.segmentSize * 20 } else tcb
  let started := { s with isStart := false }
  let cwnd := tcb.getCwndInSegments
  let ssthresh := tcb.getSsThreshInSegments
  if cwnd > started.incthresh ∨ cwnd < ssthresh then
    ({ started with minDelaySeen := true }, cwnd, ssthresh)
  else (started, cwnd, ssthresh)

/-- The condition of line 188 for an additional decrease. -/
def EntersAdditionalDecrease (cwnd ssthresh : BitVec 32) : Prop :=
  cwnd > ssthresh + s.alpha + 2 ∧ s.minDelaySeen = false ∧ s.decCnt < s.currNumRtt - 1

instance (cwnd ssthresh : BitVec 32) : Decidable (s.EntersAdditionalDecrease cwnd ssthresh) :=
  inferInstanceAs (Decidable (_ ∧ _ ∧ _))

/-- Lines 197-255: from the delay-scaled window `cwnd`, with `dec_cnt` already incremented to
`decCnt`, the new `alpha`, window and `min_delay_seen`. -/
def decrease (decCnt cwnd : BitVec 32) : Except Fault (BitVec 32 × BitVec 32 × Bool) :=
  if cwnd > minCwnd then do
    let q ← divide 200 (s.incthresh - cwnd) (s.currNumRtt - decCnt - 1)
    let alphaNew := stdMax 1 q
    let reduce ← divide 204 cwnd (s.currNumRtt - decCnt)
    if reduce ≥ alphaNew then do
      let q ← divide 210 (s.incthresh - cwnd) (s.currNumRtt - decCnt)
      let alpha := stdMax 1 q
      pure <| if cwnd > reduce + minCwnd then (alpha, cwnd - reduce, s.minDelaySeen)
        else (alpha, minCwnd, true)
    else
      pure <| if cwnd > alphaNew + minCwnd then (alphaNew, cwnd - alphaNew, s.minDelaySeen)
        else (alphaNew, minCwnd, true)
  else do
    let alpha ← divide 251 (s.incthresh - minCwnd) (s.currNumRtt - decCnt)
    pure (alpha, minCwnd, true)

/-- Lines 190-273, the additional decrease with threshold `ssthresh`: the window becomes
`min_delay * ssthresh / curr_delay` less one share of the epoch, `alpha` is capped at the window
and floored at one, and the threshold is set one below the window. The entry window is not read
again. Returns the state, window and threshold. -/
def additionalDecrease (ssthresh : BitVec 32) : Except Fault (TcpSiad × BitVec 32 × BitVec 32) := do
  let decCnt := s.decCnt + 1
  let scaled ← divide 194 (s.minDelay * ssthresh.setWidth 64) s.currDelay
  let (alpha, cwnd, seen) ← s.decrease decCnt (scaled.setWidth 32)
  let (alpha, seen) := if alpha > cwnd then (cwnd, true) else (alpha, seen)
  pure ({ s with decCnt, sndCwndCnt := 0, alpha := atLeast 1 alpha, minDelaySeen := seen }, cwnd,
    cwnd - 1)

/-- Lines 304-335: the increase rate after a regular increase by `inc` took the window to
`cwnd`, chosen by the phase boundary just crossed; `currNumRtt` is the epoch length of line 284.
The `int32_t inc` of the source only meets `uint32_t` operands, so its bits are all that count. -/
def phaseAlpha (currNumRtt cwnd ssthresh inc : BitVec 32) : Except Fault (BitVec 32) :=
  if cwnd ≥ ssthresh ∧ cwnd - inc < ssthresh ∧ s.incthresh > ssthresh then
    stdMax 1 <$> divide 308 (s.incthresh - ssthresh) currNumRtt
  else if cwnd ≥ ssthresh ∧ cwnd - inc < ssthresh ∧ s.incthresh ≤ ssthresh ∨
      cwnd ≥ s.incthresh ∧ cwnd - inc < s.incthresh then
    pure 1
  else if cwnd > s.incthresh ∧ s.alpha < cwnd / 2 then
    pure (s.alpha + inc)
  else if cwnd < ssthresh then
    pure cwnd
  else
    pure s.alpha

/-- What a regular increase computes: the state and window it leaves, and its locals `next`
(line 287) and `inc` (line 297; zero when the window does not grow). -/
structure RegularIncrease where
  siad : TcpSiad
  cwnd : BitVec 32
  next : BitVec 32
  inc : BitVec 32

/-- Lines 278-343, the regular increase: `segmentsAcked` is credited to `snd_cwnd_cnt`, and each
`next = max (1, cwnd / alpha)` credited segments buy one segment of window, at most
`segmentsAcked` of them and never past `snd_cwnd_clamp`. -/
def regularIncrease (cwnd ssthresh segmentsAcked : BitVec 32) : Except Fault RegularIncrease := do
  let sndCwndCnt := s.sndCwndCnt + segmentsAcked
  let currNumRtt := if s.configNumRtt ≠ 0 then s.configNumRtt else s.currNumRtt
  let q ← divide 287 cwnd s.alpha
  let next := stdMax 1 q
  if sndCwndCnt ≥ next then do
    let n ← divide 292 sndCwndCnt next
    let sndCwndCnt := sndCwndCnt - n * next
    if cwnd < s.sndCwndClamp then do
      let inc := stdMin segmentsAcked (stdMin n (s.sndCwndClamp - cwnd))
      let alpha ← s.phaseAlpha currNumRtt (cwnd + inc) ssthresh inc
      pure ⟨{ s with sndCwndCnt, currNumRtt, alpha := atLeast 1 alpha, increasePerformed := true },
        cwnd + inc, next, inc⟩
    else
      pure ⟨{ s with sndCwndCnt, currNumRtt }, cwnd, next, 0⟩
  else
    pure ⟨{ s with sndCwndCnt, currNumRtt }, cwnd, next, 0⟩

/-- Lines 188-344: the additional decrease when line 188 admits one, else the regular increase.
Returns the state, window and threshold. -/
def adjustWindow (cwnd ssthresh segmentsAcked : BitVec 32) :
    Except Fault (TcpSiad × BitVec 32 × BitVec 32) :=
  if s.EntersAdditionalDecrease cwnd ssthresh then s.additionalDecrease ssthresh
  else (fun r => (r.siad, r.cwnd, ssthresh)) <$> s.regularIncrease cwnd ssthresh segmentsAcked

/-- Lines 188-354 on window and threshold in segments: `adjustWindow`, then both floored at
`minCwnd`. Returns the state and the window and threshold written back. -/
def increaseWindowSegments (cwnd ssthresh segmentsAcked : BitVec 32) :
    Except Fault (TcpSiad × BitVec 32 × BitVec 32) := do
  let (s, cwnd, ssthresh) ← s.adjustWindow cwnd ssthresh segmentsAcked
  pure (s, atLeast minCwnd cwnd, atLeast minCwnd ssthresh)

/-- `IncreaseWindow`: the new state, and the socket state with window and threshold written back
in bytes. -/
def increaseWindow (tcb : TcpSocketState) (segmentsAcked : BitVec 32) :
    Except Fault (TcpSiad × TcpSocketState) := do
  let (s, cwnd, ssthresh) := s.prepare tcb
  let (s, cwnd, ssthresh) ← s.increaseWindowSegments cwnd ssthresh segmentsAcked
  pure (s, { tcb with cWnd := cwnd * tcb.segmentSize, ssThresh := ssthresh * tcb.segmentSize })

/-- The call `IncreaseWindow (tcb, ·)` takes the additional decrease. -/
def TakesAdditionalDecrease (tcb : TcpSocketState) : Prop :=
  (s.prepare tcb).1.EntersAdditionalDecrease (s.prepare tcb).2.1 (s.prepare tcb).2.2

instance (tcb : TcpSocketState) : Decidable (s.TakesAdditionalDecrease tcb) :=
  inferInstanceAs (Decidable (EntersAdditionalDecrease _ _ _))

/-! ### What each part of `IncreaseWindow` can do -/

variable {tcb : TcpSocketState} {cwnd ssthresh k : BitVec 32}

/-- Before its branch, `IncreaseWindow` clears `isStart` and can only set `min_delay_seen`. -/
theorem prepare_fst : ∃ seen, (seen = true ∨ seen = s.minDelaySeen) ∧
    (s.prepare tcb).1 = { s with isStart := false, minDelaySeen := seen } := by
  simp only [prepare]
  split_ifs <;> first | exact ⟨true, .inl rfl, rfl⟩ | exact ⟨s.minDelaySeen, .inr rfl, rfl⟩

theorem prepare_cwnd : (s.prepare tcb).2.1 = tcb.getCwndInSegments := by
  simp only [prepare]; split_ifs <;> rfl

theorem prepare_ssthresh (h : s.isStart = false) :
    (s.prepare tcb).2.2 = tcb.getSsThreshInSegments := by
  simp only [prepare, h]; split_ifs <;> simp_all

/-- A decrease never leaves a window more than two segments above the one it starts from: the
subtraction of `alphaNew` at line 234 can wrap, but only when `alphaNew + minCwnd` wrapped too. -/
theorem decrease_cwnd_le {decCnt alpha cwnd' : BitVec 32} {seen : Bool}
    (h : s.decrease decCnt cwnd = .ok (alpha, cwnd', seen)) : cwnd'.toNat ≤ cwnd.toNat + 2 := by
  unfold decrease at h
  split at h
  · simp only [bind_eq_ok, divide_eq_ok] at h
    obtain ⟨q, -, reduce, ⟨-, rfl⟩, h⟩ := h
    split at h
    · simp only [bind_eq_ok, divide_eq_ok, pure_eq_ok] at h
      obtain ⟨q', -, h⟩ := h
      have : (cwnd / (s.currNumRtt - decCnt)).toNat ≤ cwnd.toNat := by
        rw [BitVec.toNat_udiv]; exact Nat.div_le_self _ _
      split at h <;> (cases h; simp only [minCwnd] at *; bv_omega)
    · simp only [pure_eq_ok] at h
      split at h <;> (cases h; simp only [minCwnd] at *; bv_omega)
  · simp only [bind_eq_ok, pure_eq_ok] at h
    obtain ⟨q, -, h⟩ := h
    cases h; simp only [minCwnd]; bv_omega

/-- Everything an additional decrease that does not fail can have done: it counts the decrease,
clears `snd_cwnd_cnt` and sets `alpha` (at least one) and `min_delay_seen`; it needs a nonzero
`curr_delay`, and leaves a window at most two segments above `min_delay * ssthresh / curr_delay`
with the threshold one below it. -/
theorem additionalDecrease_ok {r : TcpSiad × BitVec 32 × BitVec 32}
    (h : s.additionalDecrease ssthresh = .ok r) :
    r.1 =
      { s with
        decCnt := s.decCnt + 1, sndCwndCnt := 0, alpha := r.1.alpha
        minDelaySeen := r.1.minDelaySeen } ∧
    1 ≤ r.1.alpha ∧ r.2.2 = r.2.1 - 1 ∧ s.currDelay ≠ 0 ∧
    r.2.1.toNat ≤ (((s.minDelay * ssthresh.setWidth 64) / s.currDelay).setWidth 32).toNat + 2 := by
  simp only [additionalDecrease, bind_eq_ok, divide_eq_ok] at h
  obtain ⟨scaled, ⟨hDelay, rfl⟩, ⟨alpha, cwnd, seen⟩, hDec, h⟩ := h
  simp only [pure_eq_ok] at h; subst h
  exact ⟨rfl, le_atLeast, rfl, hDelay, s.decrease_cwnd_le hDec⟩

/-- An additional decrease leaves `alpha` at most the window it leaves, or one. -/
theorem additionalDecrease_alpha_le {r : TcpSiad × BitVec 32 × BitVec 32}
    (h : s.additionalDecrease ssthresh = .ok r) : r.1.alpha.toNat ≤ max 1 r.2.1.toNat := by
  simp only [additionalDecrease, bind_eq_ok, divide_eq_ok] at h
  obtain ⟨scaled, -, ⟨alpha, cwnd, seen⟩, -, h⟩ := h
  simp only [pure_eq_ok] at h; subst h
  rw [toNat_atLeast]
  split
  · exact le_refl _
  · exact max_le_max (le_refl _) (BitVec.not_lt.mp ‹_›)

/-- The window and threshold an additional decrease writes back, floored at `minCwnd`, fail the
first test of line 188 from the state it leaves: the threshold is one below the window and
`alpha` at most the window, so nothing wraps below `2^31`. -/
theorem additionalDecrease_written_back {r : TcpSiad × BitVec 32 × BitVec 32}
    (h : s.additionalDecrease ssthresh = .ok r) (hFit : (atLeast minCwnd r.2.1).toNat < 2 ^ 31) :
    ¬atLeast minCwnd r.2.1 > atLeast minCwnd r.2.2 + r.1.alpha + 2 := by
  obtain ⟨-, hOne, hSt, -, -⟩ := s.additionalDecrease_ok h
  have hAlpha := s.additionalDecrease_alpha_le h
  rw [hSt, gt_iff_lt, BitVec.lt_def, BitVec.toNat_add, BitVec.toNat_add, toNat_atLeast,
    toNat_atLeast]
  rw [toNat_atLeast] at hFit
  simp only [minCwnd] at hFit ⊢
  generalize r.2.1 = c at *
  generalize r.1.alpha = a at *
  bv_omega

/-- The credit arithmetic of lines 289-342: of `cnt` credited segments, `cnt / next` increments
are affordable; buying `inc` of them and keeping `cnt - cnt / next * next` costs at most `cnt`,
and what is kept is less than one increment. -/
theorem credit_split {cnt next inc : BitVec 32} (hNext : 1 ≤ next)
    (hInc : inc.toNat ≤ (cnt / next).toNat) :
    cnt - cnt / next * next < next ∧
      inc.toNat * next.toNat + (cnt - cnt / next * next).toNat ≤ cnt.toNat := by
  rw [BitVec.le_def] at hNext
  rw [BitVec.toNat_udiv] at hInc
  have hMod := Nat.mod_lt cnt.toNat (show 0 < next.toNat by simpa using hNext)
  have hDiv := Nat.div_add_mod' cnt.toNat next.toNat
  have hMul := Nat.mul_le_mul_right next.toNat hInc
  rw [BitVec.lt_def, toNat_sub_udiv_mul]
  omega

/-- Everything a regular increase that does not fail can have done. It keeps every field but
`snd_cwnd_cnt`, `curr_num_rtt`, `alpha` and `increase_performed`; `alpha` stays at least one;
the window grows by `inc ≤ segmentsAcked`, never past `max (cwnd, snd_cwnd_clamp)`; the credit
kept is less than `next`, and `inc * next` spent plus the credit kept is at most what was paid. -/
theorem regularIncrease_ok {r : RegularIncrease} (h : s.regularIncrease cwnd ssthresh k = .ok r) :
    r.siad =
      { s with
        sndCwndCnt := r.siad.sndCwndCnt
        currNumRtt := if s.configNumRtt ≠ 0 then s.configNumRtt else s.currNumRtt
        alpha := r.siad.alpha
        increasePerformed := r.siad.increasePerformed } ∧
    1 ≤ r.siad.alpha ∧ r.cwnd.toNat ≤ max cwnd.toNat s.sndCwndClamp.toNat ∧
    r.siad.sndCwndCnt < r.next ∧ r.inc ≤ k ∧
    r.inc.toNat * r.next.toNat + r.siad.sndCwndCnt.toNat ≤ s.sndCwndCnt.toNat + k.toNat := by
  simp only [regularIncrease, bind_eq_ok, divide_eq_ok] at h
  obtain ⟨q, ⟨hAlpha, rfl⟩, h⟩ := h
  have hPos : 1 ≤ s.alpha := by bv_omega
  have hNext := one_le_stdMax_one (cwnd / s.alpha)
  have hSum := toNat_add_le s.sndCwndCnt k
  split at h
  · simp only [bind_eq_ok, divide_eq_ok] at h
    obtain ⟨n, ⟨-, rfl⟩, h⟩ := h
    split at h
    · simp only [bind_eq_ok, pure_eq_ok] at h
      obtain ⟨alpha, -, rfl⟩ := h
      rename_i hClamp
      set n := (s.sndCwndCnt + k) / stdMax 1 (cwnd / s.alpha)
      have hInc : (stdMin k (stdMin n (s.sndCwndClamp - cwnd))).toNat ≤
          min k.toNat (min n.toNat (s.sndCwndClamp - cwnd).toNat) := by
        simp only [toNat_stdMin]; omega
      obtain ⟨hKept, hCost⟩ :=
        credit_split hNext (hInc.trans ((min_le_right _ _).trans (min_le_left _ _)))
      refine ⟨rfl, le_atLeast, ?_, hKept, BitVec.le_def.mpr (hInc.trans (min_le_left _ _)),
        hCost.trans hSum⟩
      rw [BitVec.lt_def] at hClamp
      rw [BitVec.toNat_sub_of_le (by bv_omega)] at hInc
      rw [BitVec.toNat_add_of_lt (by omega)]
      omega
    · simp only [pure_eq_ok] at h; subst h
      have := @credit_split (s.sndCwndCnt + k) _ 0 hNext (Nat.zero_le _)
      exact ⟨rfl, hPos, le_max_left _ _, this.1, BitVec.le_def.mpr (Nat.zero_le _),
        this.2.trans hSum⟩
  · simp only [pure_eq_ok] at h; subst h
    rename_i hLt
    exact ⟨rfl, hPos, le_max_left _ _, BitVec.not_le.mp hLt, BitVec.le_def.mpr (Nat.zero_le _),
      by show 0 * _ + _ ≤ _; rw [Nat.zero_mul, Nat.zero_add]; exact hSum⟩

/-- The price and the purchase of a regular increase: each segment of window costs
`next = max (1, cwnd / alpha)` credited segments (line 287), and the window it leaves is the one
it read plus `inc` (line 299). -/
theorem regularIncrease_next_cwnd {r : RegularIncrease}
    (h : s.regularIncrease cwnd ssthresh k = .ok r) :
    r.next = stdMax 1 (cwnd / s.alpha) ∧ r.cwnd = cwnd + r.inc := by
  simp only [regularIncrease, bind_eq_ok, divide_eq_ok] at h
  obtain ⟨q, ⟨-, rfl⟩, h⟩ := h
  split at h
  · simp only [bind_eq_ok, divide_eq_ok] at h
    obtain ⟨n, -, h⟩ := h
    split at h
    · simp only [bind_eq_ok, pure_eq_ok] at h
      obtain ⟨alpha, -, rfl⟩ := h
      exact ⟨rfl, rfl⟩
    · simp only [pure_eq_ok] at h; subst h
      exact ⟨rfl, (BitVec.add_zero _).symm⟩
  · simp only [pure_eq_ok] at h; subst h
    exact ⟨rfl, (BitVec.add_zero _).symm⟩

/-- The phase update fails only on a zero epoch length at line 308. -/
theorem phaseAlpha_error {currNumRtt inc : BitVec 32} {e : Fault}
    (h : s.phaseAlpha currNumRtt cwnd ssthresh inc = .error e) :
    currNumRtt = 0 ∧ e = .divByZero 308 := by
  unfold phaseAlpha at h
  split at h
  · exact divide_eq_error.mp (map_eq_error.mp h)
  · split_ifs at h <;> exact absurd h pure_ne_error

/-- A regular increase fails only on a zero `alpha` at line 287, or on a zero epoch length, as
line 284 refreshes it, at line 308. -/
theorem regularIncrease_error {e : Fault} (h : s.regularIncrease cwnd ssthresh k = .error e) :
    (s.alpha = 0 ∧ e = .divByZero 287) ∨
    ((if s.configNumRtt ≠ 0 then s.configNumRtt else s.currNumRtt) = 0 ∧ e = .divByZero 308) := by
  simp only [regularIncrease] at h
  rcases bind_eq_error.mp h with h | ⟨q, -, h⟩
  · exact .inl (divide_eq_error.mp h)
  split at h
  · rcases bind_eq_error.mp h with h | ⟨n, -, h⟩
    · have hNext := one_le_stdMax_one q
      rw [(divide_eq_error.mp h).1] at hNext
      exact absurd hNext (by decide)
    split at h
    · rcases bind_eq_error.mp h with h | ⟨a, -, h⟩
      · exact .inr (s.phaseAlpha_error h)
      · exact absurd h pure_ne_error
    · exact absurd h pure_ne_error
  · exact absurd h pure_ne_error

theorem adjustWindow_ok {r : TcpSiad × BitVec 32 × BitVec 32}
    (h : s.adjustWindow cwnd ssthresh k = .ok r) :
    (s.EntersAdditionalDecrease cwnd ssthresh ∧ s.additionalDecrease ssthresh = .ok r) ∨
    (¬s.EntersAdditionalDecrease cwnd ssthresh ∧
      ∃ ri, s.regularIncrease cwnd ssthresh k = .ok ri ∧ r = (ri.siad, ri.cwnd, ssthresh)) := by
  unfold adjustWindow at h
  split at h
  · exact .inl ⟨‹_›, h⟩
  · obtain ⟨ri, hri, rfl⟩ := map_eq_ok.mp h
    exact .inr ⟨‹_›, ri, hri, rfl⟩

/-- `IncreaseWindow` is `prepare`, then `adjustWindow`, then both values floored and written
back in bytes. -/
theorem increaseWindow_ok {s' : TcpSiad} {tcb' : TcpSocketState}
    (h : s.increaseWindow tcb k = .ok (s', tcb')) :
    ∃ cwnd ssthresh,
      (s.prepare tcb).1.adjustWindow (s.prepare tcb).2.1 (s.prepare tcb).2.2 k =
        .ok (s', cwnd, ssthresh) ∧
      tcb' =
        { tcb with
          cWnd := atLeast minCwnd cwnd * tcb.segmentSize
          ssThresh := atLeast minCwnd ssthresh * tcb.segmentSize } := by
  simp only [increaseWindow, increaseWindowSegments, bind_eq_ok, pure_eq_ok] at h
  obtain ⟨⟨s₁, cwnd₁, ss₁⟩, ⟨⟨s₂, cwnd₂, ss₂⟩, hAdj, h₁⟩, h⟩ := h
  simp only [Prod.mk.injEq] at h h₁
  obtain ⟨rfl, rfl⟩ := h
  obtain ⟨rfl, rfl, rfl⟩ := h₁
  exact ⟨_, _, hAdj, rfl⟩

/-- The window and threshold `adjustWindow` leaves, floored, are what `increaseWindowSegments`
returns. -/
theorem increaseWindowSegments_of_adjustWindow {s' : TcpSiad} {c t : BitVec 32}
    (h : s.adjustWindow cwnd ssthresh k = .ok (s', c, t)) :
    s.increaseWindowSegments cwnd ssthresh k = .ok (s', atLeast minCwnd c, atLeast minCwnd t) := by
  rw [increaseWindowSegments, h]
  rfl

/-- A decrease fails only at line 200, on a zero `curr_num_rtt - dec_cnt - 1`, or at line 204 or
251, on a zero `curr_num_rtt - dec_cnt`; line 210 repeats line 204's divisor and never fails. -/
theorem decrease_error {decCnt : BitVec 32} {e : Fault} (h : s.decrease decCnt cwnd = .error e) :
    (s.currNumRtt - decCnt - 1 = 0 ∧ e = .divByZero 200) ∨
    (s.currNumRtt - decCnt = 0 ∧ (e = .divByZero 204 ∨ e = .divByZero 251)) := by
  unfold decrease at h
  split at h
  · rcases bind_eq_error.mp h with h | ⟨q, -, h⟩
    · exact .inl (divide_eq_error.mp h)
    rcases bind_eq_error.mp h with h | ⟨reduce, hReduce, h⟩
    · obtain ⟨h0, rfl⟩ := divide_eq_error.mp h
      exact .inr ⟨h0, .inl rfl⟩
    split at h
    · rcases bind_eq_error.mp h with h | ⟨_, -, h⟩
      · exact absurd (divide_eq_error.mp h).1 (divide_eq_ok.mp hReduce).1
      · exact absurd h pure_ne_error
    · exact absurd h pure_ne_error
  · rcases bind_eq_error.mp h with h | ⟨_, -, h⟩
    · obtain ⟨h0, rfl⟩ := divide_eq_error.mp h
      exact .inr ⟨h0, .inr rfl⟩
    · exact absurd h pure_ne_error

/-- An additional decrease fails only on a zero `curr_delay` at line 194, or where the decrease
does, with `dec_cnt` counted up. -/
theorem additionalDecrease_error {e : Fault} (h : s.additionalDecrease ssthresh = .error e) :
    (s.currDelay = 0 ∧ e = .divByZero 194) ∨
    (s.currNumRtt - (s.decCnt + 1) - 1 = 0 ∧ e = .divByZero 200) ∨
    (s.currNumRtt - (s.decCnt + 1) = 0 ∧ (e = .divByZero 204 ∨ e = .divByZero 251)) := by
  simp only [additionalDecrease] at h
  rcases bind_eq_error.mp h with h | ⟨_, -, h⟩
  · exact .inl (divide_eq_error.mp h)
  rcases bind_eq_error.mp h with h | ⟨_, -, h⟩
  · exact .inr (s.decrease_error h)
  · exact absurd h pure_ne_error

theorem adjustWindow_error {e : Fault} (h : s.adjustWindow cwnd ssthresh k = .error e) :
    (s.EntersAdditionalDecrease cwnd ssthresh ∧ s.additionalDecrease ssthresh = .error e) ∨
    (¬s.EntersAdditionalDecrease cwnd ssthresh ∧ s.regularIncrease cwnd ssthresh k = .error e) := by
  unfold adjustWindow at h
  split at h
  · exact .inl ⟨‹_›, h⟩
  · exact .inr ⟨‹_›, map_eq_error.mp h⟩

/-- `IncreaseWindow` fails exactly where its branch does. -/
theorem increaseWindow_error {e : Fault} (h : s.increaseWindow tcb k = .error e) :
    (s.prepare tcb).1.adjustWindow (s.prepare tcb).2.1 (s.prepare tcb).2.2 k = .error e := by
  simp only [increaseWindow, increaseWindowSegments] at h
  rcases bind_eq_error.mp h with h | ⟨_, -, h⟩
  · rcases bind_eq_error.mp h with h | ⟨_, -, h⟩
    · exact h
    · exact absurd h pure_ne_error
  · exact absurd h pure_ne_error

/-- An additional decrease that the entry condition of line 188 admits fails only on a zero
`curr_delay` at line 194, or at line 200 on the last decrease the epoch allows,
`dec_cnt + 2 = curr_num_rtt`: after `dec_cnt++` the divisor `curr_num_rtt - dec_cnt` of lines
204, 210 and 251 is never zero. -/
theorem additionalDecrease_error_of_enters {e : Fault}
    (hEnter : s.EntersAdditionalDecrease cwnd ssthresh)
    (h : s.additionalDecrease ssthresh = .error e) :
    (s.currDelay = 0 ∧ e = .divByZero 194) ∨
      (s.decCnt + 2 = s.currNumRtt ∧ e = .divByZero 200) := by
  obtain ⟨-, -, hDec⟩ := hEnter
  rcases s.additionalDecrease_error h with h | ⟨hZero, h⟩ | ⟨hZero, -⟩
  · exact .inl h
  · rw [sub_sub, sub_eq_zero] at hZero
    exact .inr ⟨by rw [hZero, add_assoc]; rfl, h⟩
  · rw [sub_eq_zero] at hZero
    rw [hZero, add_sub_cancel_right] at hDec
    exact absurd hDec (BitVec.lt_irrefl _)

/-- Every way `IncreaseWindow` can fail: at line 194 or 200 of an additional decrease, at line
287 on a zero `alpha`, or at line 308 on a zero epoch length as line 284 refreshes it. -/
theorem increaseWindow_error_cases {e : Fault} (h : s.increaseWindow tcb k = .error e) :
    e = .divByZero 194 ∨ e = .divByZero 200 ∨ (s.alpha = 0 ∧ e = .divByZero 287) ∨
    ((if s.configNumRtt ≠ 0 then s.configNumRtt else s.currNumRtt) = 0 ∧
      e = .divByZero 308) := by
  obtain ⟨seen, -, hPrep⟩ := @prepare_fst s tcb
  rcases adjustWindow_error _ (s.increaseWindow_error h) with ⟨hEnter, hDec⟩ | ⟨-, hInc⟩
  · rcases additionalDecrease_error_of_enters _ hEnter hDec with ⟨-, h⟩ | ⟨-, h⟩
    · exact .inl h
    · exact .inr (.inl h)
  · rw [hPrep] at hInc
    have hRegular := regularIncrease_error _ hInc
    exact .inr (.inr hRegular)

/-- `IncreaseWindow` writes only `isStart`, `min_delay_seen`, `dec_cnt`, `snd_cwnd_cnt`, `alpha`,
`curr_num_rtt` and `increase_performed`: the delays, the slots and the targets are kept. -/
theorem increaseWindow_frame {s' : TcpSiad} {tcb' : TcpSocketState}
    (h : s.increaseWindow tcb k = .ok (s', tcb')) :
    s' =
      { s with
        isStart := false, minDelaySeen := s'.minDelaySeen, decCnt := s'.decCnt
        sndCwndCnt := s'.sndCwndCnt, alpha := s'.alpha, currNumRtt := s'.currNumRtt
        increasePerformed := s'.increasePerformed } := by
  obtain ⟨cwnd, ssthresh, hAdj, -⟩ := s.increaseWindow_ok h
  obtain ⟨seen, -, hPrep⟩ := @prepare_fst s tcb
  rw [hPrep] at hAdj
  rcases adjustWindow_ok _ hAdj with ⟨-, hDec⟩ | ⟨-, r, hr, hEq⟩
  · have hFrame : s' = _ := (additionalDecrease_ok _ hDec).1
    rw [hFrame]
  · cases hEq
    rw [(regularIncrease_ok _ hr).1]

/-- `dec_cnt` counts the additional decreases: `IncreaseWindow` adds one exactly when it takes
the branch of line 188. -/
theorem increaseWindow_decCnt {s' : TcpSiad} {tcb' : TcpSocketState}
    (h : s.increaseWindow tcb k = .ok (s', tcb')) :
    s'.decCnt = if s.TakesAdditionalDecrease tcb then s.decCnt + 1 else s.decCnt := by
  obtain ⟨_, _, hAdj, -⟩ := s.increaseWindow_ok h
  obtain ⟨seen, -, hPrep⟩ := @prepare_fst s tcb
  rcases adjustWindow_ok _ hAdj with ⟨hEnter, hDec⟩ | ⟨hNot, r, hr, hEq⟩
  · have hFrame : s' = _ := (additionalDecrease_ok _ hDec).1
    rw [if_pos (show s.TakesAdditionalDecrease tcb from hEnter), hFrame, hPrep]
  · obtain ⟨rfl, -⟩ := Prod.mk.inj hEq
    rw [if_neg (show ¬s.TakesAdditionalDecrease tcb from hNot), (regularIncrease_ok _ hr).1, hPrep]

/-- Once `min_delay_seen` is set, `IncreaseWindow` keeps it and takes no additional decrease:
line 188 admits one only while it is clear. -/
theorem increaseWindow_minDelaySeen {s' : TcpSiad} {tcb' : TcpSocketState}
    (hSeen : s.minDelaySeen = true) (h : s.increaseWindow tcb k = .ok (s', tcb')) :
    s'.minDelaySeen = true ∧ ¬s.TakesAdditionalDecrease tcb := by
  obtain ⟨_, _, hAdj, -⟩ := s.increaseWindow_ok h
  obtain ⟨seen, hSeen', hPrep⟩ := @prepare_fst s tcb
  have hPrepSeen : (s.prepare tcb).1.minDelaySeen = true := by
    rw [hPrep]
    exact hSeen'.elim id (·.trans hSeen)
  have hNo : ¬s.TakesAdditionalDecrease tcb := fun hT => by
    have hClear := hT.2.1
    rw [hPrepSeen] at hClear
    cases hClear
  rcases adjustWindow_ok _ hAdj with ⟨hEnter, -⟩ | ⟨-, r, hr, hEq⟩
  · exact absurd hEnter hNo
  · obtain ⟨rfl, -⟩ := Prod.mk.inj hEq
    rw [(regularIncrease_ok _ hr).1]
    exact ⟨hPrepSeen, hNo⟩

end TcpSiad
