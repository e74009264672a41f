/-
`lib.rs` of the IMAP crate: the connection parameters and the errors every backend returns.
-/
namespace Thundercrab

/-- Errors returned by a backend. -/
inductive BackendError where
  | transport (msg : String)
  | auth (msg : String)
  | protocol (msg : String)
  | notImplemented (feature : String)
  deriving DecidableEq

/-- Server connection parameters. -/
structure AccountConfig where
  imapHost : String
  sievePort : UInt16
  username : String

/-- The defaults for a host. -/
def AccountConfig.plausiden (host username : String) : AccountConfig where
  imapHost := host
  sievePort := 4190
  username := username

end Thundercrab
