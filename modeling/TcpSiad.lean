import TcpSiad.Machine.Word
import TcpSiad.Model.State
import TcpSiad.Model.DelayTracker
import TcpSiad.Model.WindowController
import TcpSiad.Model.ThresholdEstimator
import TcpSiad.Model.Execution
import TcpSiad.Properties.IncreaseRate
import TcpSiad.Properties.Epoch
import TcpSiad.Properties.DivisionSafety
import TcpSiad.Properties.DelayRatio
import TcpSiad.Properties.Backdating
import TcpSiad.Properties.Credit
import TcpSiad.Properties.Drift
import TcpSiad.Properties.Decreases
import TcpSiad.Properties.DriftHistory
import TcpSiad.Properties.Samples
