/-
`rust_imap.rs`, `connect`: TCP to the IMAPS port, TLS for the host, LOGIN. Each step is taken only
once those before it have succeeded, so that the password goes out inside TLS or not at all.
-/
import Thundercrab.Lib.Traced
import Thundercrab.Imap.FetchHeaders
import Thundercrab.Imap.ListFolders

namespace Thundercrab

open Lib

/-- The text of a backend error. -/
def BackendError.display : BackendError → String
  | .transport msg => s!"transport: {msg}"
  | .auth msg => s!"auth: {msg}"
  | .protocol msg => s!"protocol: {msg}"
  | .notImplemented feature => s!"not implemented: {feature}"

namespace Imap

/-- What a connection does on the wire, its listing apart. -/
inductive Act where
  | tcp (host : String) (port : UInt16)
  | tls (host : String)
  | login (host username password : String)
  | logout (host : String)
  deriving DecidableEq

/-- What a server answers to who has logged in. -/
structure LoggedIn where
  listing : Listing
  mailboxes : Mailboxes

/-- The network and the servers as one attempt to connect finds them. -/
structure Net where
  tcpConnect : String → UInt16 → Except String Unit
  serverName : String → Except String Unit
  tlsHandshake : String → Except String Unit
  /-- The host, the username and the password. -/
  login : String → String → String → Except String LoggedIn

/-- `imap_port` as `AccountConfig::plausiden` sets it. -/
def imapPort : UInt16 := 993

/-- `RustImapBackend::connect` -/
def connect (net : Net) (config : AccountConfig) (password : String) : Traced BackendError Act LoggedIn :=
  let host := config.imapHost
  match net.tcpConnect host imapPort with
  | .error e => ⟨.error (.transport s!"tcp connect: {e}"), [.tcp host imapPort]⟩
  | .ok () =>
    match net.serverName host with
    | .error e => ⟨.error (.transport s!"server name: {e}"), [.tcp host imapPort]⟩
    | .ok () =>
      match net.tlsHandshake host with
      | .error e => ⟨.error (.transport s!"tls handshake: {e}"), [.tcp host imapPort, .tls host]⟩
      | .ok () =>
        ⟨(net.login host config.username password).mapError .auth,
          [.tcp host imapPort, .tls host, .login host config.username password]⟩

/-- TCP, the name of the host and TLS are in order. -/
structure Secured (net : Net) (host : String) : Prop where
  tcp : net.tcpConnect host imapPort = .ok ()
  name : net.serverName host = .ok ()
  tls : net.tlsHandshake host = .ok ()

variable {net : Net} {config : AccountConfig} (password : String)

theorem connect_secured (h : Secured net config.imapHost) : connect net config password =
    ⟨(net.login config.imapHost config.username password).mapError .auth,
      [.tcp config.imapHost imapPort, .tls config.imapHost, .login config.imapHost config.username password]⟩ := by
  unfold connect
  simp only [h.tcp, h.name, h.tls]

/-- Short of TLS there is no LOGIN, and the error is one of transport. -/
theorem connect_unsecured (h : ¬ Secured net config.imapHost) :
    (∃ msg, (connect net config password).result = .error (.transport msg)) ∧
      (connect net config password).trace <+: [.tcp config.imapHost imapPort, .tls config.imapHost] := by
  unfold connect
  cases htcp : net.tcpConnect config.imapHost imapPort with
  | error e =>
    simp only [htcp]
    exact ⟨⟨_, rfl⟩, [.tls config.imapHost], rfl⟩
  | ok _ =>
    cases hname : net.serverName config.imapHost with
    | error e =>
      simp only [htcp, hname]
      exact ⟨⟨_, rfl⟩, [.tls config.imapHost], rfl⟩
    | ok _ =>
      cases htls : net.tlsHandshake config.imapHost with
      | error e =>
        simp only [htcp, hname, htls]
        exact ⟨⟨_, rfl⟩, List.prefix_rfl⟩
      | ok _ => exact absurd ⟨htcp, hname, htls⟩ h

/-- Where the server answers two passwords alike, so does `connect`. -/
theorem connect_result_congr {password' : String}
    (h : net.login config.imapHost config.username password = net.login config.imapHost config.username password') :
    (connect net config password).result = (connect net config password').result := by
  by_cases hs : Secured net config.imapHost
  · rw [connect_secured password hs, connect_secured password' hs, h]
  · unfold connect
    cases htcp : net.tcpConnect config.imapHost imapPort with
    | error e => simp only [htcp]
    | ok _ =>
      cases hname : net.serverName config.imapHost with
      | error e => simp only [htcp, hname]
      | ok _ =>
        cases htls : net.tlsHandshake config.imapHost with
        | error e => simp only [htcp, hname, htls]
        | ok _ => exact absurd ⟨htcp, hname, htls⟩ hs

end Imap

end Thundercrab
