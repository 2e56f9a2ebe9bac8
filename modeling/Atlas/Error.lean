import Atlas.Text

/-!
# Errors

The engine's error type, the finer classification of transport failures that
decides whether a source is retried, failed over or banned, and the text an
error is shown and recorded as.

Two kinds of error mean that a source served bad bytes: a digest or size that
does not match (`Error.isIntegrity`), and a transport failure classified as
`TransportErrorKind.integrity`. Only the engine itself reports either; what a
transport adapter may report is an `AdapterError`, which is neither.
-/

namespace Atlas

/-- Fine-grained classification of transport failures; drives planner
retry/failover/ban decisions. -/
inductive TransportErrorKind where
  /-- Could not establish a connection / DNS / TLS handshake. -/
  | connect (message : Text)
  /-- Connected, but the request timed out. -/
  | timeout
  /-- Server returned a non-success HTTP status. -/
  | status (status : ℕ) (message : Text)
  /-- The source does not have the requested object. -/
  | notFound
  /-- The source does not support a capability we required. -/
  | unsupported (message : Text)
  /-- Source served bytes that failed integrity verification. -/
  | integrity (message : Text)
  /-- Authentication was rejected. -/
  | unauthorized
  /-- Catch-all transient error. -/
  | other (message : Text)
  deriving DecidableEq, Repr

namespace TransportErrorKind

/-- Whether retrying the *same* source could plausibly succeed: after a timeout, a broken
connection or a server error, but not after a refusal. -/
def isRetriable : TransportErrorKind → Bool
  | timeout => true
  | connect _ => true
  | other _ => true
  | status s _ => 500 ≤ s && s ≤ 599
  | _ => false

/-- Whether this failure should immediately *ban* the source; only wrong bytes do. -/
def isPoisoning : TransportErrorKind → Bool
  | integrity _ => true
  | _ => false

/-- A transport failure as text, in the words the source shows to the user. -/
def display : TransportErrorKind → Text
  | connect m => "connection failed: ".toList ++ m
  | timeout => "timed out".toList
  | status s m => "server status ".toList ++ (toString s).toList ++ ": ".toList ++ m
  | notFound => "not found".toList
  | unsupported m => "capability unsupported: ".toList ++ m
  | integrity m => "integrity failure: ".toList ++ m
  | unauthorized => "unauthorized".toList
  | other m => m

end TransportErrorKind

/-- The top-level error type for the engine, of which a transport failure is one case. -/
inductive Error where
  /-- A filesystem failure at a path. -/
  | fs (path source : Text)
  | db (message : Text)
  | json (message : Text)
  | signature (message : Text)
  | key (message : Text)
  /-- The manifest is not signed by any trusted key. -/
  | untrusted
  /-- A digest did not match what the manifest declared. -/
  | hashMismatch (what expected actual : Text)
  | sizeMismatch (what : Text) (expected actual : ℕ)
  | policyDenied (reason : Text)
  | unsafePath (path : Text)
  /-- A transport failure, with the source it came from. -/
  | transport (sourceId : Text) (kind : TransportErrorKind)
  | noEligibleSource (artifact : Text)
  | authRequired (sourceId : Text)
  | manifestNotFound (manifestId : Text)
  | artifactNotFound (path : Text)
  | invalidManifest (reason : Text)
  | unsupported (feature : Text)
  /-- The user paused the operation. -/
  | cancelled
  /-- The user stopped the download. -/
  | stopped
  | other (message : Text)
  deriving DecidableEq, Repr

namespace Error

/-- An error as text, the way it is recorded with a quarantined file. -/
def display : Error → Text
  | fs path source => "filesystem error at ".toList ++ path ++ ": ".toList ++ source
  | db m => "database error: ".toList ++ m
  | json m => "json error: ".toList ++ m
  | signature m => "signature error: ".toList ++ m
  | key m => "key error: ".toList ++ m
  | untrusted => "manifest is not signed by any trusted key".toList
  | hashMismatch what expected actual =>
    "hash mismatch for ".toList ++ what ++ ": expected ".toList ++ expected ++
      ", got ".toList ++ actual
  | sizeMismatch what expected actual =>
    "size mismatch for ".toList ++ what ++ ": expected ".toList ++
      (toString expected).toList ++ " bytes, got ".toList ++ (toString actual).toList ++
      " bytes".toList
  | policyDenied reason => "policy denied: ".toList ++ reason
  | unsafePath path => "path traversal or unsafe artifact path rejected: ".toList ++ path
  | transport sourceId kind =>
    "transport error from source `".toList ++ sourceId ++ "`: ".toList ++ kind.display
  | noEligibleSource artifact =>
    "no eligible source could supply artifact `".toList ++ artifact ++ "`".toList
  | authRequired sourceId =>
    "authentication required for source `".toList ++ sourceId ++
      "` but no credential is available".toList
  | manifestNotFound id => "manifest `".toList ++ id ++ "` not found".toList
  | artifactNotFound path =>
    "artifact `".toList ++ path ++ "` not found in manifest".toList
  | invalidManifest reason => "invalid manifest: ".toList ++ reason
  | unsupported feature => "unsupported feature: ".toList ++ feature
  | cancelled => "operation cancelled".toList
  | stopped => "download stopped".toList
  | other m => m

/-- The transport classification of an error, if it is a transport error. -/
def transportKind : Error → Option TransportErrorKind
  | transport _ kind => some kind
  | _ => none

/-- `HashMismatch` and `SizeMismatch` surfaced by the verifier are integrity failures. -/
def isIntegrity : Error → Bool
  | hashMismatch _ _ _ => true
  | sizeMismatch _ _ _ => true
  | _ => false

/-- Verifier failures and transport integrity errors both mean that the
source served bad bytes. -/
def blames (e : Error) : Bool :=
  e.isIntegrity || (e.transportKind.map TransportErrorKind.isPoisoning).getD false

/-- Whether trying the same source again could help: poisoned bytes are never retried. -/
def isRetriable (e : Error) : Bool :=
  !e.blames && (e.transportKind.map TransportErrorKind.isRetriable).getD false

end Error

/-- What a transport adapter can report: any error but one that says the
source served bad bytes. No adapter computes a digest of what it hands over,
and none builds an `integrity` transport error. -/
structure AdapterError where
  /-- The error. -/
  error : Error
  /-- It blames nobody. -/
  blameless : error.blames = false

end Atlas
