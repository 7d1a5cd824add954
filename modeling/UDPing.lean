import UDPing.Lib.EventMachine
import UDPing.Lib.Serial
import UDPing.Lib.GapWindow
import UDPing.Lib.Bytes
import UDPing.Protocol.Packet
import UDPing.Server.Session
import UDPing.Server.Manager
import UDPing.Server.Table
import UDPing.Server.Ledger
import UDPing.Server.Refinement
import UDPing.Server.Conservation
import UDPing.Server.Window
import UDPing.Server.SourceMap
import UDPing.Server.Successor
import UDPing.Client.Guid
import UDPing.Server.Attribution
import UDPing.Lib.Blocks
import UDPing.Server.Orderly
import UDPing.Server.Telescoping
import UDPing.Server.Renaming
import UDPing.Lib.Mem
import UDPing.Protocol.Layout
import UDPing.Client.Options
import UDPing.Client.Session
import UDPing.Server.Receive
import UDPing.Server.Delivery
import UDPing.Lib.OnesComplement
import UDPing.Protocol.Checksum
import UDPing.Protocol.Frame
import UDPing.Client.Frames
import UDPing.Lib.Strings
import UDPing.Otel.PingSender
import UDPing.Otel.PingRun
import UDPing.Protocol.ZeroCopy
import UDPing.Lib.RoundRobin
import UDPing.Client.SendLoop
import UDPing.Server.Interrupt
import UDPing.Server.Staleness
import UDPing.Server.Undisturbed
import UDPing.Controller.Database
import UDPing.Controller.Integrity
import UDPing.Agent.Synchronize
import UDPing.Agent.Children
import UDPing.Agent.Reconciliation
import UDPing.Agent.Servers
import UDPing.Otel.LinkSender
import UDPing.Otel.Aggregation
import UDPing.Lib.Json
import UDPing.Server.Console
import UDPing.Otel.ConsoleLine
import UDPing.Lib.Strtok
import UDPing.Protocol.Decode
import UDPing.Client.Ports
import UDPing.Server.GuidField
import UDPing.Otel.PingProgram
import UDPing.Otel.PingReader
import UDPing.Otel.PingLedger
import UDPing.Client.MacList
import UDPing.Agent.Family
import UDPing.Server.Destinations
import UDPing.Protocol.InternetChecksum
import UDPing.System.Losses
import UDPing.Otel.Decimal
import UDPing.Otel.Metrics
import UDPing.System.Export
import UDPing.Agent.Supervision
import UDPing.Agent.MainLoop
import UDPing.Agent.Processes
import UDPing.System.Deployment
