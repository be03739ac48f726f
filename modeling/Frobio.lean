import Frobio.Lib.Run
import Frobio.Lib.Positional
import Frobio.Lib.SlashPath
import Frobio.Lib.Utf8
import Frobio.Lib.Disk
import Frobio.Lib.Transcript
import Frobio.Lib.Stream
import Frobio.Lib.Memory
import Frobio.Lib.Ring
import Frobio.Lib.Program
import Frobio.Lib.Loop
import Frobio.Coms.Quint
import Frobio.Mux.Command
import Frobio.Mux.Session
import Frobio.Mux.Fault
import Frobio.Mux.Written
import Frobio.Mux.Line
import Frobio.Mux.Protocol
import Frobio.Mux.Replies
import Frobio.Conduit.Transparency
import Frobio.Conduit.System
import Frobio.Conduit.Coherence
import Frobio.LemMan.Request
import Frobio.LemMan.Change
import Frobio.LemMan.File
import Frobio.LemMan.Confinement
import Frobio.LemMan.Twin
import Frobio.LemMan.Isolation
import Frobio.LemMan.Totality
import Frobio.Waiter.Connection
import Frobio.Waiter.Framing
import Frobio.Axcore.Chip
import Frobio.Axcore.Socket
import Frobio.Axcore.Rings
import Frobio.Axcore.Streams
import Frobio.Remote.Conversation
import Frobio.Remote.Frame
import Frobio.Remote.Steps
import Frobio.Remote.Agreement
import Frobio.Froblib.Buf
import Frobio.Ncl.Lists
import Frobio.Ncl.Parser
import Frobio.Ncl.Interp
import Frobio.Ncl.Eval
import Frobio.Ncl.Commands
import Frobio.Ncl.Frames
import Frobio.Ncl.Arity
import Frobio.HdbDos.Drives
import Frobio.HdbDos.Plain
import Frobio.HdbDos.Saves
import Frobio.HdbDos.Table
import Frobio.Pizga.Permissions
import Frobio.Pizga.Web
import Frobio.Pizga.Guard
import Frobio.Pizga.Anonymous
import Frobio.Strdy.Store
import Frobio.Strdy.RoundTrip
import Frobio.Wiz.Receive
import Frobio.Wiz.Udp
import Frobio.Burning.Segments
import Frobio.Axiom41.Rescue
import Frobio.Axiom41.Burn
import Frobio.Fuse.Module
import Frobio.Fuse.Atomicity
import Frobio.Fuse.Rendezvous
import Frobio.Waiter.Reconnect
import Frobio.Waiter.Screen
import Frobio.Waiter.Shared
import Frobio.Spacewar.Packets
import Frobio.Tftp.Download
import Frobio.Tftp.Paths
import Frobio.Tcp1.Rings
import Frobio.Tcp1.Routine
import Frobio.Boot.Delivery
import Frobio.Rblemma.Driver
import Frobio.Lemmanc.Bridge
import Frobio.Lemmanc.Replies
import Frobio.Lemmanc.Agreement
import Frobio.Lemmanc.Lifetime
import Frobio.Conduit.Prefetch
import Frobio.Strdy.LoadOrder
import Frobio.Pizga.Lattice
import Frobio.HdbDos.Injection
import Frobio.HdbDos.Trap
import Frobio.HdbDos.Wire
import Frobio.Froblib.Malloc
import Frobio.Froblib.Honesty
import Frobio.Rsdos.Disk
import Frobio.Rsdos.Chains
import Frobio.Rsdos.Safety
import Frobio.Rsdos.FreeSpace
import Frobio.LemMan.Cover
import Frobio.Lib.Turns
import Frobio.LemMan.Listing
import Frobio.Navigator.Focus
import Frobio.Ncl.ListLaws
import Frobio.Ncl.Scanning
import Frobio.Ncl.Tokens
import Frobio.Lib.TypeLengthValue
import Frobio.Axcore.Datagrams
import Frobio.Axcore.Discovery
import Frobio.NetCmds.FDhcp
import Frobio.Ncl.Ownership
import Frobio.Octet.Heap
import Frobio.Octet.Realloc
import Frobio.Lib.Arena
import Frobio.Octet.Chunks
import Frobio.Octet.Collector
import Frobio.Octet.History
import Frobio.Froblib.Blocks
import Frobio.Froblib.Lifetimes
import Frobio.Axcore.CheckSum
import Frobio.Axcore.PutChar
import Frobio.Wiz.Tcp
import Frobio.Lib.Delimited
import Frobio.Wiz.TcpRecv
import Frobio.NetCmds.FDig
import Frobio.RamFile.ReadBack
import Frobio.Froblib.Format
import Frobio.Lib.Cursor
import Frobio.Ncl.Explode
import Frobio.Axcore.Printing
import Frobio.Axcore.CommandLine
import Frobio.Navigator.Edits
import Frobio.Lib.Numeral
import Frobio.Froblib.Numerals
import Frobio.Froblib.Stdio
import Frobio.Burning.Pages
import Frobio.NetCmds.FNtp
import Frobio.NetCmds.FWget
import Frobio.Lemmings.Modules
import Frobio.Helper.SplitLemma
import Frobio.Navigator.LongLines
import Frobio.Spacewar.Tables
import Frobio.Spacewar.Drawing
import Frobio.NetCmds.FTelnetd
import Frobio.Helper.InsertGap
import Frobio.NetCmds.RCommand
import Frobio.NetCmds.RTransfer
import Frobio.NetCmds.RTurns
import Frobio.NetCmds.RPhases
import Frobio.NetCmds.RFiles
import Frobio.Lib.Tower
import Frobio.Lib.Rounding
import Frobio.Skiplist.SkipList
import Frobio.Skiplist.Search
import Frobio.Skiplist.Links
import Frobio.Skiplist.Rows
import Frobio.Skiplist.Table
import Frobio.Skiplist.Sound
import Frobio.Skiplist.Runs
import Frobio.Skiplist.Types
import Frobio.Strdy.Listed
import Frobio.Lib.Matching
import Frobio.Ncl.StringMatch
import Frobio.Ncl.Regexp
import Frobio.Ncl.Expression
