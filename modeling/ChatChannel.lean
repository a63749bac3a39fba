import ChatChannel.Conc.Errand
import ChatChannel.Conc.Exec
import ChatChannel.Conc.Flow
import ChatChannel.Conc.Ghost
import ChatChannel.Conc.Logic
import ChatChannel.Conc.Monitor
import ChatChannel.Conc.Path
import ChatChannel.Conc.Prog
import ChatChannel.Conc.Recall
import ChatChannel.Conc.Refine
import ChatChannel.Conc.Schedule
import ChatChannel.Conc.System
import ChatChannel.Conc.Thread
import ChatChannel.Conc.Waiting
import ChatChannel.Model.Action
import ChatChannel.Model.Channel
import ChatChannel.Model.ChannelServer
import ChatChannel.Model.Client
import ChatChannel.Model.Communication
import ChatChannel.Model.Display
import ChatChannel.Model.FlatJson
import ChatChannel.Model.Script
import ChatChannel.Model.Server
import ChatChannel.Model.Shared
import ChatChannel.Model.State
import ChatChannel.Model.Terminal
import ChatChannel.Model.Types
import ChatChannel.Proof.Acknowledgement
import ChatChannel.Proof.Admission
import ChatChannel.Proof.Alphabet
import ChatChannel.Proof.Atomicity
import ChatChannel.Proof.Authorship
import ChatChannel.Proof.Batches
import ChatChannel.Proof.Broadcast
import ChatChannel.Proof.Buffers
import ChatChannel.Proof.Cadence
import ChatChannel.Proof.Capacity
import ChatChannel.Proof.Casting
import ChatChannel.Proof.ClientFrames
import ChatChannel.Proof.Conduct
import ChatChannel.Proof.Custody
import ChatChannel.Proof.Deletion
import ChatChannel.Proof.Delivery
import ChatChannel.Proof.Discipline
import ChatChannel.Proof.Dispatch
import ChatChannel.Proof.Effect
import ChatChannel.Proof.Fields
import ChatChannel.Proof.Founding
import ChatChannel.Proof.Framing
import ChatChannel.Proof.Grammar
import ChatChannel.Proof.HandOver
import ChatChannel.Proof.Hello
import ChatChannel.Proof.Idling
import ChatChannel.Proof.Interference
import ChatChannel.Proof.Listening
import ChatChannel.Proof.Lobby
import ChatChannel.Proof.LobbyCalls
import ChatChannel.Proof.LobbyThread
import ChatChannel.Proof.Locks
import ChatChannel.Proof.Management
import ChatChannel.Proof.Membership
import ChatChannel.Proof.Moving
import ChatChannel.Proof.Numbers
import ChatChannel.Proof.Order
import ChatChannel.Proof.Ownership
import ChatChannel.Proof.Pending
import ChatChannel.Proof.Placement
import ChatChannel.Proof.Presence
import ChatChannel.Proof.Progress
import ChatChannel.Proof.Provenance
import ChatChannel.Proof.Reaping
import ChatChannel.Proof.Rendering
import ChatChannel.Proof.Reply
import ChatChannel.Proof.Requests
import ChatChannel.Proof.Restart
import ChatChannel.Proof.RoundTrip
import ChatChannel.Proof.Runs
import ChatChannel.Proof.Scanning
import ChatChannel.Proof.Session
import ChatChannel.Proof.Switching
import ChatChannel.Proof.Tasks
import ChatChannel.Proof.Termination
import ChatChannel.Proof.Timing
import ChatChannel.Proof.Tracker
import ChatChannel.Proof.Wakeup
import ChatChannel.Proof.Windows
import ChatChannel.Proof.Worker
import ChatChannel.Wire.Decoder
import ChatChannel.Wire.Frame
import ChatChannel.Wire.Incremental
import ChatChannel.Wire.Interleaving
import ChatChannel.Wire.Json
