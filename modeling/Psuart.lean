import Psuart.Library.Cells
import Psuart.Library.Comparison
import Psuart.Library.Crc
import Psuart.Library.CrcPeriod
import Psuart.Library.Framing
import Psuart.Library.Machine
import Psuart.Library.Printf
import Psuart.Library.Queue
import Psuart.Library.Radix
import Psuart.Library.Replay
import Psuart.Library.Scan
import Psuart.Library.Settings
import Psuart.Library.Store
import Psuart.Library.Trace
import Psuart.Library.Trimming
import Psuart.Library.Verdict
import Psuart.Model.Address
import Psuart.Model.Arguments
import Psuart.Model.Basic
import Psuart.Model.ComPort
import Psuart.Model.Config
import Psuart.Model.Hex
import Psuart.Model.Ini
import Psuart.Model.IniAccess
import Psuart.Model.IniInt
import Psuart.Model.Inih
import Psuart.Model.LogMessage
import Psuart.Model.LogSink
import Psuart.Model.PacketAccess
import Psuart.Model.Process
import Psuart.Model.Rader
import Psuart.Model.RaderAccess
import Psuart.Model.RingAccess
import Psuart.Model.RingBuffer
import Psuart.Model.Service
import Psuart.Model.ServiceAccess
import Psuart.Model.Startup
import Psuart.Model.Strings
import Psuart.Model.Text
import Psuart.Model.Utils
import Psuart.Proof.Config.Items
import Psuart.Proof.Config.Loading
import Psuart.Proof.Config.Operator
import Psuart.Proof.Config.ReadBack
import Psuart.Proof.Config.ReadWeight
import Psuart.Proof.Config.Reading
import Psuart.Proof.Config.RoundTrip
import Psuart.Proof.Config.Saving
import Psuart.Proof.Config.Stored
import Psuart.Proof.Config.Updates
import Psuart.Proof.Config.Visits
import Psuart.Proof.Ini.Bounds
import Psuart.Proof.Ini.Entries
import Psuart.Proof.Ini.Frame
import Psuart.Proof.Ini.Lines
import Psuart.Proof.Ini.Locate
import Psuart.Proof.Ini.Parser
import Psuart.Proof.Ini.Places
import Psuart.Proof.Ini.Profile
import Psuart.Proof.Ini.ProfileInts
import Psuart.Proof.Ini.ProfileRuns
import Psuart.Proof.Ini.ReadAfterWrite
import Psuart.Proof.Ini.Reads
import Psuart.Proof.Ini.Sections
import Psuart.Proof.Ini.TextBounds
import Psuart.Proof.Ini.Weight
import Psuart.Proof.Ini.Write
import Psuart.Proof.Log.Accessors
import Psuart.Proof.Log.Dump
import Psuart.Proof.Log.Filter
import Psuart.Proof.Log.Sinks
import Psuart.Proof.Rader.Acceptance
import Psuart.Proof.Rader.Bounds
import Psuart.Proof.Rader.Capacity
import Psuart.Proof.Rader.Collector
import Psuart.Proof.Rader.Commands
import Psuart.Proof.Rader.DoubleErrors
import Psuart.Proof.Rader.ErrorDetection
import Psuart.Proof.Rader.Frame
import Psuart.Proof.Rader.FrameParser
import Psuart.Proof.Rader.Heartbeat
import Psuart.Proof.Rader.Packet
import Psuart.Proof.Rader.Resync
import Psuart.Proof.Rader.Segmentation
import Psuart.Proof.Rader.Stdin
import Psuart.Proof.RingBuffer.Bounds
import Psuart.Proof.RingBuffer.Bytes
import Psuart.Proof.RingBuffer.Conservation
import Psuart.Proof.RingBuffer.Fifo
import Psuart.Proof.RingBuffer.Layout
import Psuart.Proof.RingBuffer.Overfill
import Psuart.Proof.RingBuffer.Refinement
import Psuart.Proof.Service.Arming
import Psuart.Proof.Service.ComPort
import Psuart.Proof.Service.Delivery
import Psuart.Proof.Service.Descriptors
import Psuart.Proof.Service.Drops
import Psuart.Proof.Service.Exchanges
import Psuart.Proof.Service.Gateway
import Psuart.Proof.Service.Moves
import Psuart.Proof.Service.Ownership
import Psuart.Proof.Service.Rejection
import Psuart.Proof.Service.Requests
import Psuart.Proof.Service.Response
import Psuart.Proof.Service.Serving
import Psuart.Proof.Service.Startup
import Psuart.Proof.Service.Status
import Psuart.Proof.Service.Stream
import Psuart.Proof.Service.Teardown
import Psuart.Proof.Service.TestTrace
import Psuart.Proof.Service.Tests
import Psuart.Proof.Service.Waiting
import Psuart.Proof.Utils.Addresses
import Psuart.Proof.Utils.ComPort
import Psuart.Proof.Utils.CommandLine
import Psuart.Proof.Utils.Comparison
import Psuart.Proof.Utils.Hex
import Psuart.Proof.Utils.Numbers
import Psuart.Proof.Utils.Paths
import Psuart.Proof.Utils.Prefixes
import Psuart.Proof.Utils.Separators
import Psuart.Proof.Utils.Split
import Psuart.Proof.Utils.Strings
import Psuart.Proof.Utils.Trim
import Psuart.Spec.Arguments
import Psuart.Spec.Arming
import Psuart.Spec.Capacity
import Psuart.Spec.Collector
import Psuart.Spec.Drops
import Psuart.Spec.Frame
import Psuart.Spec.Gateway
import Psuart.Spec.Hex
import Psuart.Spec.IniFile
import Psuart.Spec.IniItems
import Psuart.Spec.IniSections
import Psuart.Spec.Inih
import Psuart.Spec.LineSettings
import Psuart.Spec.Literal
import Psuart.Spec.LogMessage
import Psuart.Spec.LogSink
import Psuart.Spec.Operator
import Psuart.Spec.Ownership
import Psuart.Spec.Profile
import Psuart.Spec.Response
import Psuart.Spec.Serving
import Psuart.Spec.Startup
import Psuart.Spec.Status
import Psuart.Spec.Stream
import Psuart.Spec.Teardown
import Psuart.Spec.Tests
import Psuart.Spec.Text
import Psuart.Spec.Updates
import Psuart.Spec.Visits
import Psuart.Spec.Waiting
