import Mathlib.Data.Int.Notation
import Mathlib.Data.Nat.Basic
import Mathlib.Tactic.Common

/-!
# Exceptions and Asynchronous Tasks

The vocabulary the backends and the example server share: the exceptions of `except.h`
and the kinds and states of asynchronous tasks of `socket.h`.

An `ExceptionPointer` is modelled by what it points to: `none` is the null pointer, which
every function of the library returns for success. `Exception.user` stands for the
exceptions that callbacks and request handlers make up themselves.
-/

namespace Netknot

/-- `netknot::NetworkErrorCode`. -/
inductive NetworkErrorCode
  | unknown
  | addressInUse
  | networkIsDown
  | connectionTimedOut
  | socketIsNotConnected
  | accessDenied
  | tooManyOpenedFiles
  | messageSizeIsTooBig
  | protocolNotSupported
  | socketTypeNotSupported
  | addressNotAvailable
  | networkReseted
  | networkIsUnreachable
  | connectionReseted
  | shutdown
  | timedOut
  | connectionRefused
  | hostIsDown
  | hostIsUnreachable
  | resourceLimitExceeded
  | systemIsNotReady
  | unsupportedPlatform
  | errorInit
  deriving DecidableEq, Repr

/-- The exceptions of `except.h`, and those a callback returns of its own. -/
inductive Exception
  | outOfMemory
  | bufferIsTooBig
  | network (errorCode : NetworkErrorCode)
  | user (tag : ℕ)
  deriving DecidableEq, Repr

/-- `netknot::ExceptionPointer`, by what it points to; `none` is the null pointer. -/
abbrev ExceptionPointer := Option Exception

/-- `dealloc()` returns. The constructor of `NetworkError` leaves its `allocator` null, and
`NetworkError::dealloc` releases the exception through it, which ends the process. -/
def Exception.deallocReturns : Exception → Bool
  | .network _ => false
  | _ => true

/-- `~ExceptionPointer` returns: `unwrap()` asserts that the pointer is null, and `reset()` calls
`dealloc()` on what it points to. -/
def ExceptionPointer.destructorReturns (assertions : Bool) (e : ExceptionPointer) : Bool :=
  !(assertions && e.isSome) && e.all Exception.deallocReturns

/-- `netknot::AsyncTaskType`. -/
inductive AsyncTaskType
  | read
  | write
  | accept
  deriving DecidableEq, Repr

/-- `netknot::AsyncTaskStatus`. -/
inductive AsyncTaskStatus
  | ready
  | running
  | done
  | interrupted
  deriving DecidableEq, Repr

end Netknot
