import TurnRelay.Main
import TurnRelay.Settings.Json
import TurnRelay.Turn.Supply
import TurnRelay.Proofs.Turn.Run
import TurnRelay.Proofs.Turn.Closing
import TurnRelay.Proofs.Json.Nesting
import TurnRelay.Proofs.Json.Balance
import TurnRelay.Proofs.Marker.Literal
import TurnRelay.Proofs.Marker.Verdict
import TurnRelay.Proofs.Marker.Chunks
import TurnRelay.Proofs.Marker.Composition
import TurnRelay.Proofs.Marker.Delimiter
import TurnRelay.Proofs.Marker.WellFormed
import TurnRelay.Proofs.Marker.Octets
import TurnRelay.Proofs.Marker.Offsets
import TurnRelay.Proofs.Table
import TurnRelay.Proofs.Gateway.Run
import TurnRelay.Proofs.Gateway.Supervision
import TurnRelay.Proofs.Gateway.Phase
import TurnRelay.Proofs.Gateway.Bookkeeping
import TurnRelay.Proofs.Gateway.Answers
import TurnRelay.Proofs.Gateway.Listening
import TurnRelay.Proofs.Gateway.Following
import TurnRelay.Proofs.Turn.Backpressure
import TurnRelay.Proofs.Gateway.Dialing
import TurnRelay.Proofs.Turn.Transcript
import TurnRelay.Proofs.Gateway.Handshake
import TurnRelay.Proofs.Gateway.Waiting
import TurnRelay.Proofs.Gateway.Staleness
import TurnRelay.Proofs.Gateway.Places
import TurnRelay.Proofs.Gateway.Shutdown
import TurnRelay.Proofs.Gateway.Strays
import TurnRelay.Proofs.Gateway.Party
import TurnRelay.Proofs.Gateway.Perspective
import TurnRelay.Proofs.Gateway.Independence
import TurnRelay.Proofs.Turn.Relayed
import TurnRelay.Proofs.Json.Spelling
import TurnRelay.Proofs.Json.Outline
import TurnRelay.Proofs.Json.Members
import TurnRelay.Proofs.Json.Reading
import TurnRelay.Proofs.Wire.FrameText
import TurnRelay.Proofs.Gateway.Agreement
import TurnRelay.Proofs.Gateway.Register
import TurnRelay.Proofs.Gateway.Attendance
import TurnRelay.Proofs.Gateway.Inbound
import TurnRelay.Proofs.Marker.Rounds
import TurnRelay.Proofs.Marker.Withheld
import TurnRelay.Proofs.Gateway.Courses
import TurnRelay.Proofs.Gateway.Schedule
import TurnRelay.Proofs.Turn.Departure
import TurnRelay.Proofs.Gateway.Ties
import TurnRelay.Proofs.Gateway.Leaving
import TurnRelay.Proofs.Gateway.Heartbeat
import TurnRelay.Proofs.Json.Compact
import TurnRelay.Proofs.Web.Framing
import TurnRelay.Proofs.Settings.Layering
import TurnRelay.Proofs.Settings.Document
import TurnRelay.Proofs.Settings.Leaves
import TurnRelay.Proofs.Settings.Precedence
import TurnRelay.Proofs.Json.Growth
import TurnRelay.Proofs.Wire.Payloads
import TurnRelay.Proofs.Web.Counting
import TurnRelay.Proofs.Settings.Literals
import TurnRelay.Proofs.Settings.Variables
import TurnRelay.Proofs.Settings.Asked
import TurnRelay.Proofs.Settings.Exchange
import TurnRelay.Proofs.Settings.Written
import TurnRelay.Proofs.Settings.Texts
import TurnRelay.Proofs.Marker.Finality
import TurnRelay.Proofs.Marker.Occurrence
import TurnRelay.Proofs.Turn.Suffix
