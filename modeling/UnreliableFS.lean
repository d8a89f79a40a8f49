import UnreliableFS.Interaction.Reach
import UnreliableFS.Table
import UnreliableFS.Posix.Tree
import UnreliableFS.World
import UnreliableFS.Passthrough
import UnreliableFS.Posix.Calls
import UnreliableFS.Posix.Locks
import UnreliableFS.Posix.Kernel
import UnreliableFS.Session
import UnreliableFS.Posix.Laws
import UnreliableFS.Handles
import UnreliableFS.AllOrNothing
import UnreliableFS.Entries
import UnreliableFS.Probability
import UnreliableFS.Lexical.Walk
import UnreliableFS.Posix.Resolve
import UnreliableFS.AfsServer
import UnreliableFS.Locking
import UnreliableFS.Reload
import UnreliableFS.Main
import UnreliableFS.Contents
import UnreliableFS.Decision
import UnreliableFS.Options
import UnreliableFS.Selection
import UnreliableFS.Posix.Follow
import UnreliableFS.Interaction.Network
import UnreliableFS.Metadata
import UnreliableFS.AfsClient
import UnreliableFS.Interaction.Threads
import UnreliableFS.Slowdown
import UnreliableFS.Posix.Fallible
import UnreliableFS.Descriptors
import UnreliableFS.Failures
import UnreliableFS.Interaction.Wp
import UnreliableFS.Objects
import UnreliableFS.Duration
import UnreliableFS.Signals
import UnreliableFS.Listing
import UnreliableFS.Interaction.Lockstep
import UnreliableFS.Replies
import UnreliableFS.Interaction.Only
import UnreliableFS.Interaction.Simulation
import UnreliableFS.Serial
import UnreliableFS.Interaction.Release
import UnreliableFS.Memory.Heap
import UnreliableFS.Memory.Triple
import UnreliableFS.InMemory
import UnreliableFS.Document
import UnreliableFS.Written
import UnreliableFS.Fsx
import UnreliableFS.Verdict
import UnreliableFS.Flocks
import UnreliableFS.Interaction.Observed
import UnreliableFS.Replay
