import Keyspace.Record.Layout

/-!
# Causes of failure

`Error` names every way in which a request can fail and `Error.message` words it. Failures to read
or write a record come in through `DecodeError.toError`, which depends on whether the record was
to be changed, and `EncodeError.toError`. A transaction that fails does so with the error that its
body gave or because the storage failed (`TransactionFailure`).
-/

namespace Keyspace

/-- Why a request failed. -/
inductive Error
  | emptyKey
  | keyTooLarge (length max : Nat)
  | invalidTtl (why : String)
  | invalidScore
  | valueTooLarge (length max : Nat)
  | invalidDatabase (id max : Nat)
  | keyNotFound
  | indexOutOfRange
  | wrongType
  | notInteger
  | overflow
  | corrupt (key reason : String)
  | canceled
  | deadlineExceeded
  | closed
  | config (why : String)
  | engine (why : String)
  | io (why : String)
  deriving DecidableEq, Repr

namespace Error

/-- The description of a failure. -/
def message : Error → String
  | emptyKey => "ERR empty key"
  | keyTooLarge length max => s!"ERR key too large: {length} bytes (max {max})"
  | invalidTtl why => s!"ERR invalid expire time: {why}"
  | invalidScore => "ERR score is not a valid float"
  | valueTooLarge length max => s!"ERR value too large: {length} bytes (max {max})"
  | invalidDatabase id max => s!"ERR invalid database id {id} (max {max})"
  | keyNotFound => "ERR key not found"
  | indexOutOfRange => "ERR index out of range"
  | wrongType => "WRONGTYPE Operation against a key holding the wrong kind of value"
  | notInteger => "ERR value is not an integer or out of range"
  | overflow => "ERR increment or decrement would overflow"
  | corrupt key reason => s!"ERR corrupt record for key {key}: {reason}"
  | canceled => "context canceled"
  | deadlineExceeded => "context deadline exceeded"
  | closed => "ERR store is closed"
  | config why => s!"configuration error: {why}"
  | engine why => s!"storage engine error: {why}"
  | io why => s!"IO error: {why}"

/-- A damaged record under `key`, which is shown in hexadecimal. -/
def damaged (key : Bytes) (reason : String) : Error := .corrupt key.hex reason

/-- Nothing is there: an outcome that callers expect. -/
def isNotFound : Error → Bool
  | keyNotFound | indexOutOfRange => true
  | _ => false

/-- The caller's context ended the request. -/
def isCancellation : Error → Bool
  | canceled | deadlineExceeded => true
  | _ => false

end Error

/-- What a command wants of the record that it reads. -/
inductive Access
  | read
  | write
  deriving DecidableEq, Repr

/-- A record that is cut short is damage when it is only read. Every other failure means that the
record is of another kind, and so does any failure of a command that writes. -/
def DecodeError.toError (key : Bytes) : Access → DecodeError → Error
  | .read, .truncated needed available =>
    .damaged key (DecodeError.truncated needed available).message
  | _, _ => .wrongType

/-- A member that is too long for a record is a value that is too large. -/
def EncodeError.toError : EncodeError → Error
  | .memberTooLarge length => .valueTooLarge length Layout.maxMember

/-- How a transaction ends without a commit. -/
inductive TransactionFailure
  /-- The body gave up. -/
  | abort (error : Error)
  /-- The storage does not support what was asked of it. -/
  | unsupported (what : String)
  deriving DecidableEq, Repr

/-- The body's own error passes unchanged. -/
def TransactionFailure.toError : TransactionFailure → Error
  | .abort error => error
  | .unsupported what => .engine s!"Unsupported: {what}"

end Keyspace
