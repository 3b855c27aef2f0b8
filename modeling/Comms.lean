import Comms.Lib.ArgList
import Comms.Lib.BackReference
import Comms.Lib.Circular
import Comms.Repl.Swal
import Comms.Repl.SwalRep
import Comms.Repl.SwalReplay
import Comms.Repl.SwalRestart
import Comms.Repl.SwalFaults
import Comms.Repl.SwalResize
import Comms.Codec.Buffer
import Comms.Codec.RedisCommand
import Comms.Codec.StackFrameDecoder
import Comms.Codec.RoundTrip
import Comms.Codec.RequestGrammar
import Comms.Codec.Peek
import Comms.Codec.RedisReply
import Comms.Codec.ReceivedBytes
import Comms.Codec.ReplyRoundTrip
import Comms.Codec.ReplyTree
import Comms.Codec.CommandStream
import Comms.Codec.FirstMatch
import Comms.Lib.Run
import Comms.Repl.SelectDb
import Comms.Lib.Footprint
import Comms.Repl.WorkerLog
import Comms.Repl.SnapshotTail
import Comms.Codec.Encoder
import Comms.Codec.HeapBuffer
import Comms.Command.Transaction
import Comms.Command.TransactionLog
import Comms.Command.ArgReads
import Comms.Command.ArgRefusals
import Comms.Command.ArgsInRange
import Comms.Command.Args
import Comms.Command.Numbers
import Comms.Command.NumberArgs
import Comms.Command.Kv
import Comms.Command.Handlers
import Comms.Command.Groups
import Comms.Command.Announce
import Comms.Command.Rewrite
import Comms.Command.Script
import Comms.Command.SlowLog
import Comms.Command.ScriptContext
import Comms.Command.ScriptLog
import Comms.Command.SlaveClients
import Comms.Command.ReadOnlySlave
import Comms.Repl.MasterStream
import Comms.Codec.DumpChunk
import Comms.Repl.SnapshotTransfer
import Comms.Repl.Handshake
import Comms.Repl.FullResync
import Comms.Repl.SnapshotMeta
import Comms.Repl.WaitingSlaves
import Comms.Repl.SlaveLink
import Comms.Repl.SlaveLag
import Comms.Repl.RoleChange
import Comms.Repl.LinkSteps
import Comms.Repl.SnapshotLoad
import Comms.Repl.InterruptedResync
import Comms.Lib.TableCrc
import Comms.Codec.Crc64
import Comms.Repl.OffsetCksm
import Comms.Repl.DataCksm
import Comms.Rdb.Store
import Comms.Rdb.Reader
import Comms.Rdb.Load
import Comms.Rdb.Format
import Comms.Lib.Registry
import Comms.Client.PubSub
import Comms.Client.SubscribedMode
import Comms.Command.Lists
import Comms.Command.BrpopLPush
import Comms.Lib.Prog
import Comms.Rdb.Save
import Comms.Rdb.Tokens
import Comms.Rdb.Resume
import Comms.Rdb.Records
import Comms.Rdb.Expiry
import Comms.Rdb.Written
import Comms.Rdb.SaveLoad
import Comms.Client.BlockedClients
import Comms.Client.Conservation
import Comms.Client.OneReply
import Comms.Client.WakeUps
import Comms.Client.WatchedKeys
import Comms.Client.OptimisticLock
import Comms.Client.Contexts
import Comms.Client.LiveContexts
import Comms.Lib.Locks
import Comms.Client.LockBlocks
import Comms.Client.LockOrder
import Comms.Lib.Cursor
import Comms.Client.IdleClients
import Comms.Client.ThreadPool
import Comms.Lib.Moves
import Comms.Command.RenameCommand
import Comms.Lib.Attempt
import Comms.Command.LuaCalls
import Comms.Command.ScriptReply
import Comms.Lib.Wildcard
import Comms.Command.StringMatch
import Comms.Lib.BinaryHeap
import Comms.Client.TimerQueue
import Comms.Client.Timer
import Comms.Client.TimerRuns
import Comms.Lib.Ledger
import Comms.Codec.BufferFifo
import Comms.Config.Properties
import Comms.Config.CommsConfig
import Comms.Config.ConfigCommand
import Comms.Client.TimerHeap
import Comms.Repl.SwalInvariant
import Comms.Lib.BinaryFormat
import Comms.Codec.BufferHelper
import Comms.Codec.BinaryRoundTrip
import Comms.Lib.Occurrence
import Comms.Config.SizedValues
import Comms.Config.Environment
import Comms.Config.ReplaceEnvVar
import Comms.Redis.LzfDecompress
import Comms.Redis.LzfCompress
import Comms.Rdb.LzfStrings
import Comms.Channel.MpscQueue
import Comms.Channel.SpscQueue
import Comms.Channel.AsyncIo
import Comms.Channel.WriteEvents
import Comms.Rdb.AnyBytes
import Comms.Channel.Pipeline
import Comms.Channel.PipelineEvents
import Comms.Rdb.PackedForms
