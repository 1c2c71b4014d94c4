import AndroidDemo.Interaction.Program
import AndroidDemo.Interaction.Calls
import AndroidDemo.Interaction.Safety
import AndroidDemo.Interaction.Simulation
import AndroidDemo.Interaction.History
import AndroidDemo.Interaction.Erasure
import AndroidDemo.Interaction.Replay
import AndroidDemo.Interaction.Steps
import AndroidDemo.Words.Prefixes
import AndroidDemo.Words.Segments
import AndroidDemo.Java.JString
import AndroidDemo.Java.Split
import AndroidDemo.Java.IgnoreCase
import AndroidDemo.Socket.Kernel
import AndroidDemo.Socket.Answers
import AndroidDemo.Socket.Tool
import AndroidDemo.Socket.AbstractSocketServer
import AndroidDemo.Socket.SelectSocketServer
import AndroidDemo.Socket.EPollSocketServer
import AndroidDemo.Socket.NativeLib
import AndroidDemo.Socket.Frame
import AndroidDemo.Socket.Connections
import AndroidDemo.Socket.SelectRules
import AndroidDemo.Socket.ServerParts
import AndroidDemo.Socket.SelectClients
import AndroidDemo.Socket.FdSets
import AndroidDemo.Socket.SelectExit
import AndroidDemo.Socket.EpollRules
import AndroidDemo.Socket.EpollOwnership
import AndroidDemo.Socket.EpollArmed
import AndroidDemo.Socket.Echo
import AndroidDemo.Socket.ReadSchedule
import AndroidDemo.Socket.ReadInterruptions
import AndroidDemo.Socket.ReadTermination
import AndroidDemo.Socket.MessageBuffer
import AndroidDemo.Socket.Servers
import AndroidDemo.Socket.ShortWrites
import AndroidDemo.Socket.Interruption
import AndroidDemo.Socket.Leaks
import AndroidDemo.Os.MockSocketIntentService
import AndroidDemo.Os.ByteOrder
import AndroidDemo.Os.RoundTrip
import AndroidDemo.Os.IOMultiplexingDemoActivity
import AndroidDemo.Os.PipeDemo
import AndroidDemo.Util.Trie
import AndroidDemo.Util.TriePaths
import AndroidDemo.Util.TrieInsertion
import AndroidDemo.Util.TrieListing
import AndroidDemo.Util.TrieDeletion
import AndroidDemo.Util.TrieLevels
import AndroidDemo.Launcher.MainActivity
import AndroidDemo.Launcher.Screen
import AndroidDemo.Launcher.Demos
import AndroidDemo.Launcher.Walk
import AndroidDemo.Launcher.EveryEntry
import AndroidDemo.Launcher.Children
import AndroidDemo.Launcher.QueryOrder
import AndroidDemo.Os.PipeDescriptors
import AndroidDemo.App.TrainingActivity
import AndroidDemo.Java.Shuffle
import AndroidDemo.SupportLibrary.RecyclerView
import AndroidDemo.SupportLibrary.RecyclerViewActivity
import AndroidDemo.SupportLibrary.ItemIdentity
import AndroidDemo.SupportLibrary.ClickedPosition
import AndroidDemo.Bytes.Base128
import AndroidDemo.Bytes.Readers
import AndroidDemo.Protobuf.CodedInputStream
import AndroidDemo.Protobuf.Varint
import AndroidDemo.Protobuf.CodedOutputStream
import AndroidDemo.Protobuf.WireFormatLite
import AndroidDemo.Protobuf.AddressBook
import AndroidDemo.Protobuf.FlatStream
import AndroidDemo.Protobuf.Wire
import AndroidDemo.Protobuf.Refinement
import AndroidDemo.Protobuf.Serialization
import AndroidDemo.Protobuf.UnknownFields
import AndroidDemo.Protobuf.RoundTrip
import AndroidDemo.Protobuf.Accessors
import AndroidDemo.Protobuf.Messages
import AndroidDemo.Protobuf.VarintPaths
import AndroidDemo.Library.NativeProtoActivity
import AndroidDemo.Os.PipeMessage
import AndroidDemo.Util.TrieCanonical
import AndroidDemo.Util.TrieCut
import AndroidDemo.Bytes.Blocks
import AndroidDemo.Protobuf.ZeroCopyStream
import AndroidDemo.Protobuf.BlockWrites
import AndroidDemo.Protobuf.UnknownStream
import AndroidDemo.Protobuf.KeptBytes
import AndroidDemo.Os.MaxFileDescriptorActivity
import AndroidDemo.SupportLibrary.GridSpacingItemDecoration
import AndroidDemo.Socket.ReportedClients
import AndroidDemo.Protobuf.TotalLimit
