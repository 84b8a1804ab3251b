import Maxwell.Context
import Maxwell.Decimal.Binary32
import Maxwell.Decimal.Shortest
import Maxwell.Fault
import Maxwell.Host
import Maxwell.Ini.Document
import Maxwell.Ini.Reader
import Maxwell.Memory.AddressSpace
import Maxwell.Memory.Alignment
import Maxwell.Memory.Ram
import Maxwell.Mme.Alu
import Maxwell.Mme.Instruction
import Maxwell.Mme.Machine
import Maxwell.Mme.Store
import Maxwell.Proofs.Memory.AddressSpace
import Maxwell.Proofs.Memory.Bytewise
import Maxwell.Proofs.Memory.PageTable
import Maxwell.Proofs.Memory.Ram
import Maxwell.Proofs.Memory.Ranges
import Maxwell.Proofs.Memory.Translation
import Maxwell.Proofs.Mme.Addressing
import Maxwell.Proofs.Mme.Arguments
import Maxwell.Proofs.Mme.Carry
import Maxwell.Proofs.Mme.Displacement
import Maxwell.Proofs.Mme.Effect
import Maxwell.Proofs.Mme.Encoding
import Maxwell.Proofs.Mme.Extract
import Maxwell.Proofs.Mme.Flow
import Maxwell.Proofs.Mme.Limit
import Maxwell.Proofs.Mme.Lockstep
import Maxwell.Proofs.Mme.Record
import Maxwell.Proofs.Mme.Step
import Maxwell.Proofs.Mme.Transport
import Maxwell.Proofs.Mme.Upload
import Maxwell.Proofs.Outcome
import Maxwell.Proofs.Pushbuffer.Boundaries
import Maxwell.Proofs.Pushbuffer.Decode
import Maxwell.Proofs.Pushbuffer.Encode
import Maxwell.Proofs.Pushbuffer.Entries
import Maxwell.Proofs.Pushbuffer.Journal
import Maxwell.Proofs.Pushbuffer.Queue
import Maxwell.Proofs.Register.Elements
import Maxwell.Proofs.Register.Names
import Maxwell.Proofs.Register.Partition
import Maxwell.Proofs.Register.Writes
import Maxwell.Proofs.Replay.Cuts
import Maxwell.Proofs.Replay.Dump
import Maxwell.Proofs.Replay.Fetches
import Maxwell.Proofs.Replay.Frame
import Maxwell.Proofs.Replay.Observed
import Maxwell.Proofs.Replay.Placement
import Maxwell.Proofs.Replay.Segments
import Maxwell.Proofs.Replay.Trace
import Maxwell.Proofs.Settings
import Maxwell.Proofs.Syncpoint
import Maxwell.Proofs.Text.Numeral
import Maxwell.Proofs.Text.Runs
import Maxwell.Proofs.Threed.Act
import Maxwell.Proofs.Threed.Batches
import Maxwell.Proofs.Threed.Blind
import Maxwell.Proofs.Threed.Copies
import Maxwell.Proofs.Threed.Faults
import Maxwell.Proofs.Threed.Hidden
import Maxwell.Proofs.Threed.History
import Maxwell.Proofs.Threed.Install
import Maxwell.Proofs.Threed.Landing
import Maxwell.Proofs.Threed.Law
import Maxwell.Proofs.Threed.Mirror
import Maxwell.Proofs.Threed.Reset
import Maxwell.Proofs.Threed.Sealed
import Maxwell.Proofs.Threed.Semaphores
import Maxwell.Proofs.Threed.Sends
import Maxwell.Proofs.Threed.Staging
import Maxwell.Proofs.Threed.Syncpoints
import Maxwell.Proofs.Threed.Ticks
import Maxwell.Proofs.Threed.Timeline
import Maxwell.Proofs.Threed.Transport
import Maxwell.Proofs.Threed.Write
import Maxwell.Proofs.Timer
import Maxwell.Pushbuffer.Channel
import Maxwell.Pushbuffer.Entry
import Maxwell.Pushbuffer.Header
import Maxwell.Pushbuffer.Packet
import Maxwell.Register.Encoding
import Maxwell.Register.File
import Maxwell.Register.Layout
import Maxwell.Register.View
import Maxwell.Replay.Arguments
import Maxwell.Replay.Configuration
import Maxwell.Replay.Log
import Maxwell.Replay.Narrator
import Maxwell.Replay.Placement
import Maxwell.Replay.Run
import Maxwell.Settings
import Maxwell.Settings.Value
import Maxwell.Syncpoint
import Maxwell.Text.Blank
import Maxwell.Text.Numeral
import Maxwell.Text.Quoted
import Maxwell.Text.Terminal
import Maxwell.Text.Unprintable
import Maxwell.Threed.Core
import Maxwell.Threed.Engine
import Maxwell.Timer
import Maxwell.Word
import Maxwell.Main
