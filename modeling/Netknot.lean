import Netknot.Lib.Machine
import Netknot.RefCounted
import Netknot.Win32.Delivery
import Netknot.Win32.References
import Netknot.Win32.Handback
import Netknot.Win32.Lifetime
import Netknot.Win32.Unwind
import Netknot.Win32.Control
import Netknot.Win32.Failure
import Netknot.Win32.Wakeup
import Netknot.Shutdown
import Netknot.Http.Parser
import Netknot.Http.Response
import Netknot.Http.ReadCallback
import Netknot.Http.Fragmentation
import Netknot.Http.Body
import Netknot.Http.SharedBuffer
import Netknot.Win32.Report
import Netknot.Win32.Drain
import Netknot.Win32.Association
import Netknot.Win32.Outcome
import Netknot.Http.CompleteResponse
import Netknot.Http.EndOfStream
import Netknot.Http.Exchange
import Netknot.Http.Leaks
import Netknot.Http.Operations
import Netknot.Http.ConnectionTable
import Netknot.Lib.ByteOrder
import Netknot.Address
import Netknot.RcBuffer
import Netknot.Win32.Window
import Netknot.Lib.Narrowing
import Netknot.Transfer
import Netknot.Win32.CallerRef
import Netknot.Win32.Classify
import Netknot.WorkerThreads
import Netknot.Http.Routing
import Netknot.Http.HeaderLines
import Netknot.Http.Framing
import Netknot.Http.Head
import Netknot.Http.Registration
import Netknot.Http.StagedWriter
import Netknot.Http.ContentLength
import Netknot.Http.Target
import Netknot.Http.Views
import Netknot.Exceptions
import Netknot.Allocators
import Netknot.Unix.Blocking
import Netknot.Unix.Submit
import Netknot.Http.Request
import Netknot.Http.Serve
import Netknot.Win32.Progress
import Netknot.Http.Process
import Netknot.Http.Program
import Netknot.Http.Accepting
import Netknot.Win32.Transferred
import Netknot.Win32.Teardown
