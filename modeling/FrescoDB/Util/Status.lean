import Mathlib

/-! `Status` (`util/status.{h,cc}`): a code of `YB_STATUS_CODES` and a message. A status built
from two messages joins them with `": "`, and leaves the separator out when the second is empty;
`CloneAndPrepend` and `CloneAndAppend` build the message that way around the old one. The file
and line a status records are left out. -/
namespace FrescoDB.Util

inductive StatusCode where
  | kOk | kNotFound | kCorruption | kNotSupported | kInvalidArgument | kIOError | kAlreadyPresent
  | kRuntimeError | kNetworkError | kIllegalState | kNotAuthorized | kAborted | kRemoteError
  | kServiceUnavailable | kTimedOut | kUninitialized | kConfigurationError | kIncomplete
  | kEndOfFile | kInvalidCommand | kQLError | kInternalError | kExpired | kLeaderNotReadyToServe
  | kLeaderHasNoLease | kTryAgain | kBusy | kShutdownInProgress | kMergeInProgress | kCombined
  | kSnapshotTooOld
  deriving DecidableEq, Repr

namespace StatusCode

/-- `CodeAsString`: the last column of `YB_STATUS_CODES`. -/
def asString : StatusCode → String
  | kOk => "OK"
  | kNotFound => "Not found"
  | kCorruption => "Corruption"
  | kNotSupported => "Not implemented"
  | kInvalidArgument => "Invalid argument"
  | kIOError => "IO error"
  | kAlreadyPresent => "Already present"
  | kRuntimeError => "Runtime error"
  | kNetworkError => "Network error"
  | kIllegalState => "Illegal state"
  | kNotAuthorized => "Not authorized"
  | kAborted => "Aborted"
  | kRemoteError => "Remote error"
  | kServiceUnavailable => "Service unavailable"
  | kTimedOut => "Timed out"
  | kUninitialized => "Uninitialized"
  | kConfigurationError => "Configuration error"
  | kIncomplete => "Incomplete"
  | kEndOfFile => "End of file"
  | kInvalidCommand => "Invalid command"
  | kQLError => "Query error"
  | kInternalError => "Internal error"
  | kExpired => "Operation expired"
  | kLeaderNotReadyToServe => "Leader not ready to serve requests."
  | kLeaderHasNoLease => "Leader does not have a valid lease."
  | kTryAgain => "Operation failed. Try again."
  | kBusy => "Resource busy"
  | kShutdownInProgress => "Shutdown in progress"
  | kMergeInProgress => "Merge in progress"
  | kCombined => "Combined status representing multiple status failures."
  | kSnapshotTooOld => "Snapshot too old"

end StatusCode

structure Status where
  code : StatusCode
  message : String
  deriving DecidableEq, Repr

namespace Status

/-- `Status::OK()`. -/
def OK : Status := ⟨.kOk, ""⟩

def ok (s : Status) : Bool := s.code = .kOk

def isCorruption (s : Status) : Bool := s.code = .kCorruption

/-- The message of `Status(code, file, line, msg, msg2)`. -/
def joinMessages (msg msg2 : String) : String := if msg2.isEmpty then msg else msg ++ ": " ++ msg2

def cloneAndPrepend (s : Status) (msg : String) : Status := ⟨s.code, joinMessages msg s.message⟩

def cloneAndAppend (s : Status) (msg : String) : Status := ⟨s.code, joinMessages s.message msg⟩

/-- `ToString()` without the file and line: the code, then the message. -/
def toString (s : Status) : String := s.code.asString ++ ": " ++ s.message

/-- `RETURN_NOT_OK_PREPEND`. -/
def prepend {α : Type} (msg : String) (r : Except Status α) : Except Status α :=
  r.mapError (·.cloneAndPrepend msg)

@[simp] theorem prepend_ok {α : Type} (msg : String) (a : α) :
    prepend msg (.ok a : Except Status α) = .ok a := rfl

end Status

end FrescoDB.Util
