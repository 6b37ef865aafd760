import NetDisk.Lib.Prog
import NetDisk.Lib.Pool
import NetDisk.Lib.Along
import NetDisk.Lib.Ending
import NetDisk.Lib.Phases
import NetDisk.Lib.Mutex
import NetDisk.Lib.FileTree
import NetDisk.Lib.Walk
import NetDisk.Lib.Md5
import NetDisk.Lib.SqlText
import NetDisk.Lib.Base128
import NetDisk.Lib.Wire
import NetDisk.Text
import NetDisk.Code.Sys
import NetDisk.Code.FileSys
import NetDisk.Code.UploadRpc
import NetDisk.Code.Control
import NetDisk.Code.Md5
import NetDisk.Code.BrpcClient
import NetDisk.Machine
import NetDisk.MachineSpec
import NetDisk.FileSysSpec
import NetDisk.Statements
import NetDisk.Spec.Disk
import NetDisk.Layout
import NetDisk.UploadSpec
import NetDisk.Server
import NetDisk.Publish
import NetDisk.ContentAddress
import NetDisk.Reference
import NetDisk.Complete
import NetDisk.Named
import NetDisk.Confine
import NetDisk.Answer
import NetDisk.Order
import NetDisk.Linking
import NetDisk.Parallel.Steps
import NetDisk.Parallel.Together
import NetDisk.Parallel.Calls
import NetDisk.Parallel.Moving
import NetDisk.Parallel.Waiting
import NetDisk.Parallel.Upload
import NetDisk.Md5Spec
import NetDisk.Client
import NetDisk.Code.ShortMsg
import NetDisk.Dispatch
import NetDisk.Framing
import NetDisk.IndexSet
import NetDisk.Faults
import NetDisk.Register
import NetDisk.Registrants
import NetDisk.Shared
import NetDisk.Registered
import NetDisk.Stable
import NetDisk.Truthful
import NetDisk.Clear
import NetDisk.Independent
import NetDisk.Leftover
import NetDisk.Exact
import NetDisk.Retry
import NetDisk.Resume
import NetDisk.Writes
import NetDisk.Rejected
import NetDisk.Recover
import NetDisk.Atomic
import NetDisk.Code.Public
import NetDisk.Printed
import NetDisk.Outside
import NetDisk.Honest
import NetDisk.Lib.Shell
import NetDisk.Commands
import NetDisk.Shards
import NetDisk.Reports
import NetDisk.Code.LongConnection
import NetDisk.Responses
import NetDisk.Code.NetDiskPb
import NetDisk.Messages
import NetDisk.Rpc
import NetDisk.Delivery
import NetDisk.Code.LibCalls
import NetDisk.Handles
import NetDisk.Leaks
import NetDisk.Felt
import NetDisk.Spares
import NetDisk.Code.ShortConnection
import NetDisk.Descriptors
import NetDisk.Code.Startup
import NetDisk.Connections
import NetDisk.Lib.Istream
import NetDisk.Code.ClientMain
import NetDisk.Reading
import NetDisk.Separate
import NetDisk.Services.Effect
import NetDisk.Services.Calls
import NetDisk.Services.Run
import NetDisk.Services.Threads
import NetDisk.Services.Kept
import NetDisk.Services.Lock
