/-!
Kinds of failure. Every failure of the program is of one kind, which fixes the exit status; each module
has its own failures and says of what kind they are.

* `TransportFailure` : how sending a request can fail.
* `Crash` : failures that nobody foresaw; they end in a crash log.
* `FaultKind` : the kinds, and `FaultKind.exitCode`.
-/

set_option autoImplicit false

namespace Restline

/-- How sending a request can fail. -/
inductive TransportFailure
  | connectError
  | readError
  | writeError
  | closeError
  | networkError
  | connectTimeout
  | readTimeout
  | writeTimeout
  | poolTimeout
  | timeout
  | localProtocol
  | remoteProtocol
  | protocol
  | proxy
  | unsupportedProtocol
  | decoding
  | tooManyRedirects
  | transport
  | request
  | http
  | invalidUrl
deriving DecidableEq, Repr

/-- The network itself failed: connecting, reading, writing or closing. -/
def TransportFailure.isNetwork : TransportFailure → Bool
  | .connectError | .readError | .writeError | .closeError | .networkError => true
  | _ => false

/-- The time ran out. -/
def TransportFailure.isTimeout : TransportFailure → Bool
  | .connectTimeout | .readTimeout | .writeTimeout | .poolTimeout | .timeout => true
  | _ => false

/-- A failure that nobody foresaw. -/
inductive Crash
  | badValue
  | badType
  | badAttribute
  | undecodable
  | unencodable
  | isDirectory
  | notDirectory
  | fileExists
  | fileMissing
  | badFileName
  | noHome
  | transport (failure : TransportFailure)
deriving DecidableEq, Repr

/-- The kinds of failure. -/
inductive FaultKind
  | invalidUsage
  | unknownSegment
  | incompleteCommand
  | versionNotFound
  | missingParameter
  | idMismatch
  | operationNotFound
  | unsupportedInput
  | auth
  | metadataNotFound
  | response (status : Int)
  | connection
  | integrity
  | config
  | crash (c : Crash)
deriving DecidableEq, Repr

/-- The exit status of a kind. -/
def FaultKind.exitCode : FaultKind → Nat
  | .invalidUsage | .unknownSegment | .incompleteCommand | .versionNotFound | .missingParameter
  | .idMismatch | .operationNotFound | .unsupportedInput => 2
  | .auth => 3
  | .metadataNotFound => 4
  | .response status =>
    if status = 401 ∨ status = 403 then 3 else if status = 404 then 4 else 5
  | .connection => 6
  | .integrity => 7
  | .config | .crash _ => 1

end Restline
