import IntHpcc.Runs
import IntHpcc.Reflector
import IntHpcc.CumAck
import IntHpcc.AckSafety
import IntHpcc.V2Double
import IntHpcc.V2Epoch
import IntHpcc.DctcpRound
import IntHpcc.CInflight
import IntHpcc.LinearProbe
import IntHpcc.HpccCut
import IntHpcc.P4Frame
import IntHpcc.IntPath
import IntHpcc.CHopTable
import IntHpcc.AnyFrame
import IntHpcc.SwitchScope
import IntHpcc.PortMeter
import IntHpcc.EcnPath
import IntHpcc.Metering
import IntHpcc.WireFormat
import IntHpcc.AckFormat
import IntHpcc.DctcpP4
import IntHpcc.Utilisation
import IntHpcc.InflightTable
import IntHpcc.Journal
import IntHpcc.V2Feedback
import IntHpcc.CRefines
import IntHpcc.CLockstep
import IntHpcc.EventLog
import IntHpcc.RtoSpacing
import IntHpcc.Burst
import IntHpcc.Retransmit
import IntHpcc.GoBackN
import IntHpcc.ClampedAffine
import IntHpcc.WindowMap
import IntHpcc.DctcpMarks
import IntHpcc.HopOrder
import IntHpcc.BaseRtt
import IntHpcc.AddAt
import IntHpcc.ParseLogs
import IntHpcc.PlotE2
import IntHpcc.Mealy
import IntHpcc.QsnapP4
import IntHpcc.CHopMap
import IntHpcc.Completion
import IntHpcc.ClosedLoop
import IntHpcc.Checksum
import IntHpcc.OpenLoop
import IntHpcc.PlotE4
import IntHpcc.FeedbackLoop
