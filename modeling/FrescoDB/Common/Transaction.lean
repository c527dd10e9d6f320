import FrescoDB.Common.HybridTime

/-! The transaction types that status tablets, participants and clients exchange
(`common/common.proto`, `common/transaction.h`). -/
namespace FrescoDB.Common

inductive TransactionStatus where
  | CREATED
  | PENDING
  | COMMITTED
  | APPLIED_IN_ALL_INVOLVED_TABLETS
  | ABORTED
  | APPLYING
  | APPLIED_IN_ONE_OF_INVOLVED_TABLETS
  | CLEANUP
  deriving DecidableEq, Repr

/-- `TransactionStatus_Name`. -/
def TransactionStatus.name : TransactionStatus → String
  | .CREATED => "CREATED"
  | .PENDING => "PENDING"
  | .COMMITTED => "COMMITTED"
  | .APPLIED_IN_ALL_INVOLVED_TABLETS => "APPLIED_IN_ALL_INVOLVED_TABLETS"
  | .ABORTED => "ABORTED"
  | .APPLYING => "APPLYING"
  | .APPLIED_IN_ONE_OF_INVOLVED_TABLETS => "APPLIED_IN_ONE_OF_INVOLVED_TABLETS"
  | .CLEANUP => "CLEANUP"

/-- `TransactionStatusResult`: for `PENDING` the time up to which the transaction cannot have
committed, for `COMMITTED` the commit time. -/
structure TransactionStatusResult where
  status : TransactionStatus
  statusTime : HybridTime
  deriving DecidableEq, Repr

/-- `StatusRequest`, the fields a running transaction reads; `callback` names the waiter. -/
structure StatusRequest where
  readHt : HybridTime
  globalLimitHt : HybridTime
  serialNo : Int
  callback : Nat
  deriving DecidableEq, Repr

end FrescoDB.Common
