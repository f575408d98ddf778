import TcpSiad.Machine.Word

/-! The per-connection state of `TcpSiad` (`tcp-siad.h`) and what it reads from the transport
stack. Fields keep the header's names and widths: window quantities are `uint32_t` segment counts,
delays are `uint64_t` milliseconds. The caller's `TcpSocketState` is an input of every call and
not part of this state: each call may see any window and threshold. -/

/-- The fields of one `TcpSiad` object. -/
structure TcpSiad where
  configNumRtt : BitVec 32
  configNumMs : BitVec 32
  currNumRtt : BitVec 32
  alpha : BitVec 32
  incthresh : BitVec 32
  prevMaxCwnd : BitVec 32
  decCnt : BitVec 32
  minDelaySeen : Bool
  increasePerformed : Bool
  sndCwndCnt : BitVec 32
  sndCwndClamp : BitVec 32
  prevDelay : BitVec 64
  currDelay : BitVec 64
  minDelay : BitVec 64
  currMinDelay : BitVec 64
  prevMinDelay1 : BitVec 64
  prevMinDelay2 : BitVec 64
  prevMinDelay3 : BitVec 64
  isStart : Bool
  deriving DecidableEq, Repr

/-- The part of ns-3's `TcpSocketState` the algorithm touches, in bytes. ns-3 never runs a
connection with a zero segment size, and the record cannot hold one. -/
structure TcpSocketState where
  cWnd : BitVec 32
  ssThresh : BitVec 32
  segmentSize : BitVec 32
  segmentSize_pos : 0 < segmentSize
  deriving DecidableEq

/-- ns-3's `TcpSocketState::TcpCAEvent_t`. -/
inductive TcpCAEvent where
  | txStart
  | cwndRestart
  | completeCwr
  | loss
  | ecnNoCe
  | ecnIsCe
  | delayedAck
  | nonDelayedAck
  deriving DecidableEq, Repr

namespace TcpSocketState

/-- `GetCwndInSegments`: `m_cWnd / m_segmentSize`. -/
def getCwndInSegments (tcb : TcpSocketState) : BitVec 32 := tcb.cWnd / tcb.segmentSize

/-- `GetSsThreshInSegments`: `m_ssThresh / m_segmentSize`. -/
def getSsThreshInSegments (tcb : TcpSocketState) : BitVec 32 := tcb.ssThresh / tcb.segmentSize

/-- A socket whose segments are one byte each, so that bytes and segments coincide. -/
def ofSegments (cwnd ssthresh : BitVec 32) : TcpSocketState := ⟨cwnd, ssthresh, 1, by decide⟩

@[simp] theorem getCwndInSegments_ofSegments (cwnd ssthresh : BitVec 32) :
    (ofSegments cwnd ssthresh).getCwndInSegments = cwnd := by
  simp [getCwndInSegments, ofSegments]

@[simp] theorem getSsThreshInSegments_ofSegments (cwnd ssthresh : BitVec 32) :
    (ofSegments cwnd ssthresh).getSsThreshInSegments = ssthresh := by
  simp [getSsThreshInSegments, ofSegments]

end TcpSocketState

namespace TcpSiad

/-- `TcpSiad::default_num_rtt`. -/
def defaultNumRtt : BitVec 32 := 20

/-- `TcpSiad::minCwnd`, the floor of window and threshold in segments. -/
def minCwnd : BitVec 32 := 2

/-- `INT_MAX` stored in a `uint64_t` delay: "no delay measured yet". -/
def intMax : BitVec 64 := 2147483647

/-- The constructor `TcpSiad (configNumRtt, cwnd)`, body included: without a configured epoch
length `curr_num_rtt` is `default_num_rtt`. -/
def init (configNumRtt cwnd : BitVec 32) : TcpSiad where
  configNumRtt := configNumRtt
  configNumMs := 0
  currNumRtt := if configNumRtt = 0 then defaultNumRtt else configNumRtt
  alpha := cwnd
  incthresh := cwnd
  prevMaxCwnd := cwnd
  decCnt := 0
  minDelaySeen := true
  increasePerformed := false
  sndCwndCnt := 0
  sndCwndClamp := 666
  prevDelay := intMax
  currDelay := intMax
  minDelay := intMax
  currMinDelay := intMax
  prevMinDelay1 := 0
  prevMinDelay2 := 0
  prevMinDelay3 := 0
  isStart := true

/-- The object ns-3 builds through `GetTypeId`: every field registered as an attribute takes its
registered initial value, over what the constructor wrote. `isStart` is no attribute and keeps
the constructor's `true`. -/
def typeIdDefaults : TcpSiad where
  configNumRtt := 0
  configNumMs := 0
  currNumRtt := 0
  alpha := 10
  incthresh := 10
  prevMaxCwnd := 10
  decCnt := 0
  minDelaySeen := false
  increasePerformed := false
  sndCwndCnt := 0
  sndCwndClamp := 666
  prevDelay := intMax
  currDelay := intMax
  minDelay := intMax
  currMinDelay := intMax
  prevMinDelay1 := 0
  prevMinDelay2 := 0
  prevMinDelay3 := 0
  isStart := true

/-- The copy constructor `TcpSiad (const TcpSiad &)` behind `Fork`: a field-by-field copy. -/
def fork (sock : TcpSiad) : TcpSiad where
  configNumRtt := sock.configNumRtt
  configNumMs := sock.configNumMs
  currNumRtt := sock.currNumRtt
  alpha := sock.alpha
  incthresh := sock.incthresh
  prevMaxCwnd := sock.prevMaxCwnd
  decCnt := sock.decCnt
  minDelaySeen := sock.minDelaySeen
  increasePerformed := sock.increasePerformed
  sndCwndCnt := sock.sndCwndCnt
  sndCwndClamp := sock.sndCwndClamp
  prevDelay := sock.prevDelay
  currDelay := sock.currDelay
  minDelay := sock.minDelay
  currMinDelay := sock.currMinDelay
  prevMinDelay1 := sock.prevMinDelay1
  prevMinDelay2 := sock.prevMinDelay2
  prevMinDelay3 := sock.prevMinDelay3
  isStart := sock.isStart

/-- The copy constructor misses no field: a forked connection starts from an equal state. -/
@[simp] theorem fork_eq (sock : TcpSiad) : sock.fork = sock := rfl

end TcpSiad
