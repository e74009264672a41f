/-
`smtp.rs`: one message, from the strings of its addresses to the transport. Every address is parsed,
in the order From, To, Cc, and the message composed before anything is sent.
-/
import Thundercrab.Imap.Backend

namespace Thundercrab

namespace Smtp

inductive SmtpEncryption where
  | startTls
  | implicitTls
  deriving DecidableEq

structure OutboundMessage where
  «from» : String
  «to» : List String
  cc : List String
  subject : String
  body : String

/-- The mail library: addresses, messages and the transport, with the texts of its errors. -/
structure Lettre where
  Mailbox : Type
  Email : Type
  parse : String → Except String Mailbox
  /-- From, the subject, To, Cc, the body. -/
  compose : Mailbox → String → List Mailbox → List Mailbox → String → Except String Email
  relay : SmtpEncryption → String → Except String Unit
  /-- The host, its port, the username and the password. -/
  send : SmtpEncryption → String → UInt16 → String → String → Email → Except String Unit

/-- `smtp_port` as `AccountConfig::plausiden` sets it, which is also the one used with implicit TLS. -/
def smtpPort : UInt16 := 587

/-- `quoted` is `{:?}` of a string. -/
def parseMailbox (L : Lettre) (quoted : String → String) (s : String) : Except BackendError L.Mailbox :=
  (L.parse s).mapError fun e => .protocol s!"mailbox {quoted s}: {e}"

/-- Parse the addresses and compose the message. -/
def compose (L : Lettre) (quoted : String → String) (message : OutboundMessage) : Except BackendError L.Email := do
  let sender ← parseMailbox L quoted message.from
  let «to» ← message.«to».mapM (parseMailbox L quoted)
  let cc ← message.cc.mapM (parseMailbox L quoted)
  (L.compose sender message.subject «to» cc message.body).mapError fun e => .protocol s!"compose: {e}"

def sendMessage (L : Lettre) (quoted : String → String) (cfg : AccountConfig) (password : String)
    (encryption : SmtpEncryption) (message : OutboundMessage) : Except BackendError Unit := do
  let email ← compose L quoted message
  -- `smtp_host` is the host of the account
  (L.relay encryption cfg.imapHost).mapError fun e => .transport s!"smtp builder: {e}"
  (L.send encryption cfg.imapHost smtpPort cfg.username password email).mapError fun e => .transport s!"smtp send: {e}"

end Smtp

end Thundercrab
