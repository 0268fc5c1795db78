import Nosh.Lib.Machine
import Nosh.Lib.Grid
import Nosh.Proto.Datagram
import Nosh.Server.Diff
import Nosh.Client.Pump
import Nosh.Server.Pump
import Nosh.Sync.Lossless
import Nosh.Sync.GridConvergence
import Nosh.Server.Terminal
import Nosh.Lib.Page
import Nosh.Server.CellEdits
import Nosh.Server.Shape
import Nosh.Server.WindowSize
import Nosh.Server.PlainTerminal
import Nosh.Server.History
import Nosh.Server.AltScreen
import Nosh.Sync.CursorConvergence
import Nosh.Server.Freshness
import Nosh.Sync.Burst
import Nosh.Sync.Lossy
import Nosh.Lib.Postcard
import Nosh.Proto.Codec
import Nosh.Proto.Framing
import Nosh.Proto.Unread
import Nosh.Proto.Payload
import Nosh.Server.BurstProgress
import Nosh.Proto.WideRow
import Nosh.Server.WidePairs
import Nosh.Lib.Consecutive
import Nosh.Server.OutputBuffer
import Nosh.Server.ReplayRing
import Nosh.Reattach.Accounting
import Nosh.Reattach.Teardown
import Nosh.Reattach.Token
import Nosh.Auth.Keys
import Nosh.Server.Registry
import Nosh.Server.RegistryRuns
import Nosh.Server.Connections
import Nosh.Server.Lifecycle
import Nosh.Server.PreAuth
import Nosh.Reattach.Rejection
import Nosh.Lib.Utf8
import Nosh.Lib.VtParser
import Nosh.Lib.Vt
import Nosh.Lib.WideVt
import Nosh.Lib.WideText
import Nosh.Server.OscFilter
import Nosh.Server.Representation
import Nosh.Server.Panic
import Nosh.Server.SgrItems
import Nosh.Server.OscPayload
import Nosh.Server.AltRestore
import Nosh.Server.Paper
import Nosh.Sync.RoundTrip
import Nosh.Sync.BurstOrder
import Nosh.Client.TerminalControl
import Nosh.Auth.Transcript
import Nosh.Auth.KnownHosts
import Nosh.Auth.InnerAuth
import Nosh.Auth.Agreement
import Nosh.Client.Predictor
import Nosh.Client.NoEcho
import Nosh.Client.Answers
import Nosh.Client.OverlayLife
import Nosh.Client.LatestPrediction
import Nosh.Client.Backspace
import Nosh.Client.BracketedPaste
import Nosh.Lib.KeyScan
import Nosh.Client.CsiAccumulator
import Nosh.Client.Render
import Nosh.Client.Display
import Nosh.Client.Painting
import Nosh.Client.Fidelity
import Nosh.Client.ViewSwitch
import Nosh.Client.WidePainting
import Nosh.Client.Framebuffer
import Nosh.Server.Channels
import Nosh.Server.ChannelMap
import Nosh.Server.AckHandling
import Nosh.Scrollback.Page
import Nosh.Scrollback.Seam
import Nosh.Scrollback.View
import Nosh.Scrollback.Credit
import Nosh.Scrollback.ControlStream
import Nosh.Scrollback.CreditBound
import Nosh.Scrollback.PageSize
import Nosh.Client.ScrollbackRows
import Nosh.Client.ScrollbackWindow
import Nosh.Lib.Leb128
import Nosh.Server.ChannelPrefix
import Nosh.Lib.Transducer
import Nosh.Client.EscapeState
import Nosh.Lib.Words
import Nosh.Auth.KnownHostsFile
import Nosh.Client.PageStrokes
import Nosh.Client.StdinArm
import Nosh.Client.Supervisor
import Nosh.Sync.UserView
