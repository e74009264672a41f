/-
`managesieve.rs`, `put_active_script`: connect, STARTTLS, AUTHENTICATE, PUTSCRIPT and SETACTIVE in
one session. Every run takes these steps in this order and stops at the first that fails, so the
password is written inside TLS only, each command after the one before it was answered OK, and what
was read before the upgrade has no part in what follows it.
-/
import Thundercrab.Lib.Traced
import Thundercrab.Imap.Response

namespace Thundercrab

open Lib Lib.BufReader

namespace Sieve

/-! ## What the server does -/

/-- A connection: what its reads deliver, what they say of a line that is not UTF-8, and what its writes
come to, one after another; those past the list succeed. -/
structure Link where
  incoming : List Chunk
  invalid : Bytes → String
  writes : List (Except String Unit)

/-- The other side: the TCP connection it accepts or refuses, the check of the host name for TLS, and
the TLS connection a handshake over the TCP connection leads to. -/
structure Peer where
  connect : String → UInt16 → Except String Link
  serverName : String → Except String Unit
  handshake : String → Link → Except String Link

inductive Channel where
  | plain
  | tls
  deriving DecidableEq

inductive Command where
  | starttls
  | authenticate
  | putscript
  | setactive
  | logout
  deriving DecidableEq

/-- What the client does, and what comes of it. -/
inductive Event where
  | connect (r : Except String Unit)
  | write (ch : Channel) (c : Command) (b : Bytes) (r : Except String Unit)
  | reply (ch : Channel) (r : Outcome Response)
  | upgrade (r : Except String Link)

abbrev Session := Traced Failure Event

/-- A `BufReader` over a connection, on TCP or inside TLS. -/
structure Stream (ch : Channel) where
  reader : BufReader
  writes : List (Except String Unit)

def Stream.new (ch : Channel) (l : Link) : Stream ch := ⟨⟨[], l.incoming, l.invalid⟩, l.writes⟩

variable {ch : Channel}

/-- What was read ahead into the buffer is dropped. -/
def Stream.intoInner (s : Stream ch) : Link := ⟨s.reader.source, s.reader.invalid, s.writes⟩

def transport (msg : String) : Failure := .err (.transport msg)

/-- `TcpStream::connect` -/
def connect (peer : Peer) (host : String) (port : UInt16) : Session Link :=
  match peer.connect host port with
  | .ok tcp => ⟨.ok tcp, [.connect (.ok ())]⟩
  | .error e => ⟨.error (transport s!"tcp connect: {e}"), [.connect (.error e)]⟩

/-- `write_all` on the connection under the reader; `context` begins the text of its error. Where it
fails some of the octets may be out. -/
def Stream.writeAll (s : Stream ch) (c : Command) (b : Bytes) (context : String) : Session (Stream ch) :=
  -- Nothing to write, no write.
  if b = [] then ⟨.ok s, [.write ch c b (.ok ())]⟩
  else
    match s.writes with
    | [] => ⟨.ok s, [.write ch c b (.ok ())]⟩
    | .ok () :: writes => ⟨.ok { s with writes }, [.write ch c b (.ok ())]⟩
    | .error e :: _ => ⟨.error (transport s!"{context}: {e}"), [.write ch c b (.error e)]⟩

/-- `TlsConnector::connect`, after the host name has been checked. -/
def upgrade (peer : Peer) (host : String) (tcp : Link) : Session Link :=
  match peer.serverName host with
  | .error e => ⟨.error (transport s!"server name: {e}"), [.upgrade (.error e)]⟩
  | .ok () =>
    match peer.handshake host tcp with
    | .error e => ⟨.error (transport s!"tls handshake: {e}"), [.upgrade (.error e)]⟩
    | .ok tls => ⟨.ok tls, [.upgrade (.ok tls)]⟩

/-- `read_response`, with an error for each answer that is not OK. -/
def Stream.expectOk (s : Stream ch) (no bye : String → BackendError) : Session (Stream ch) :=
  match readResponse s.reader with
  | (.ok .ok, reader) => ⟨.ok { s with reader }, [.reply ch (.ok .ok)]⟩
  | (.ok (.no reason), _) => ⟨.error (.err (no reason)), [.reply ch (.ok (.no reason))]⟩
  | (.ok (.bye reason), _) => ⟨.error (.err (bye reason)), [.reply ch (.ok (.bye reason))]⟩
  | (.error e, _) => ⟨.error e, [.reply ch (.error e)]⟩

/-! ## The session -/

def readUntilOk (s : Stream ch) : Session (Stream ch) :=
  s.expectOk (fun reason => .protocol s!"server NO: {reason}") (fun reason => .transport s!"server BYE: {reason}")

def writeCommand (s : Stream ch) (c : Command) (cmd : String) : Session (Stream ch) := do
  let s ← s.writeAll c (utf8 cmd) s!"write {cmd}"
  s.writeAll c (utf8 "\r\n") s!"write {cmd} trailer"

/-- Escape `"` in a quoted-string argument. -/
def escapeQuoted (s : String) : String :=
  String.ofList (s.toList.flatMap fun c =>
    match c with
    | '"' => ['\\', '"']
    | '\\' => ['\\', '\\']
    | other => [other])

def base64Chars : List Char := "ABCDEFGHIJKLMNOPQRSTUVWXYZabcdefghijklmnopqrstuvwxyz0123456789+/".toList

/-- `CHARS[i]`; six bits never reach past the end. -/
def base64Char (i : UInt8) : Char := base64Chars.getD i.toNat '='

def base64Chunks : Bytes → List Char
  | b0 :: b1 :: b2 :: rest =>
    base64Char (b0 >>> 2) :: base64Char (((b0 &&& 0x03) <<< 4) ||| (b1 >>> 4)) ::
      base64Char (((b1 &&& 0x0f) <<< 2) ||| (b2 >>> 6)) :: base64Char (b2 &&& 0x3f) :: base64Chunks rest
  | [b0, b1] =>
    [base64Char (b0 >>> 2), base64Char (((b0 &&& 0x03) <<< 4) ||| (b1 >>> 4)),
      base64Char ((b1 &&& 0x0f) <<< 2), '=']
  | [b0] => [base64Char (b0 >>> 2), base64Char ((b0 &&& 0x03) <<< 4), '=', '=']
  | [] => []

def base64Encode (input : Bytes) : String := String.ofList (base64Chunks input)

/-- An empty authorization-id, the authentication-id and the password, a NUL before each of the last two. -/
def authBlob (cfg : AccountConfig) (password : String) : String := "\x00" ++ cfg.username ++ "\x00" ++ password

def authenticateCommand (cfg : AccountConfig) (password : String) : String :=
  "AUTHENTICATE \"PLAIN\" \"" ++ base64Encode (utf8 (authBlob cfg password)) ++ "\""

def putscriptCommand (scriptName script : String) : String :=
  "PUTSCRIPT \"" ++ escapeQuoted scriptName ++ "\" \x7b" ++ toString (utf8 script).length ++ "+\x7d\r\n"

def setactiveCommand (scriptName : String) : String := "SETACTIVE \"" ++ escapeQuoted scriptName ++ "\""

/-- Up to the TLS connection. -/
def startTls (peer : Peer) (cfg : AccountConfig) : Session Link := do
  let tcp ← connect peer cfg.imapHost cfg.sievePort
  let stream ← readUntilOk (Stream.new .plain tcp)
  let stream ← stream.writeAll .starttls (utf8 "STARTTLS\r\n") "STARTTLS write"
  let stream ← readUntilOk stream
  upgrade peer cfg.imapHost stream.intoInner

/-- Inside TLS, up to the answer to SETACTIVE. -/
def installScript (cfg : AccountConfig) (password scriptName script : String) (tls : Link) :
    Session (Stream .tls) := do
  let tls ← readUntilOk (Stream.new .tls tls)
  let tls ← writeCommand tls .authenticate (authenticateCommand cfg password)
  let tls ← tls.expectOk .auth (fun reason => .auth s!"server BYE: {reason}")
  let tls ← tls.writeAll .putscript (utf8 (putscriptCommand scriptName script)) "PUTSCRIPT write"
  let tls ← tls.writeAll .putscript (utf8 script) "PUTSCRIPT body"
  let tls ← tls.writeAll .putscript (utf8 "\r\n") "PUTSCRIPT trailer"
  let tls ← tls.expectOk (fun reason => .protocol s!"PUTSCRIPT: {reason}")
    (fun reason => .protocol s!"server BYE: {reason}")
  let tls ← writeCommand tls .setactive (setactiveCommand scriptName)
  tls.expectOk (fun reason => .protocol s!"SETACTIVE: {reason}") (fun reason => .protocol s!"server BYE: {reason}")

/-- One-shot: connect, upgrade, authenticate, install the script, set it active, log out. -/
def putActiveScript (peer : Peer) (cfg : AccountConfig) (password scriptName script : String) : Session Unit := do
  let tls ← startTls peer cfg
  let tls ← installScript cfg password scriptName script tls
  (tls.writeAll .logout (utf8 "LOGOUT\r\n") "LOGOUT write").ignore

/-! ## The order of a session -/

/-- An event, whatever comes of it. -/
inductive Step where
  | connect
  | write (ch : Channel) (c : Command) (b : Bytes)
  | reply (ch : Channel)
  | upgrade
  deriving DecidableEq

def Event.step : Event → Step
  | .connect _ => .connect
  | .write ch c b _ => .write ch c b
  | .reply ch _ => .reply ch
  | .upgrade _ => .upgrade

/-- Done, or answered OK. -/
def Event.Good : Event → Prop
  | .connect r => r = .ok ()
  | .write _ _ _ r => r = .ok ()
  | .reply _ r => r = .ok .ok
  | .upgrade r => ∃ tls, r = .ok tls

/-- The steps of `startTls`. -/
def tlsOrder : List Step :=
  [.connect, .reply .plain, .write .plain .starttls (utf8 "STARTTLS\r\n"), .reply .plain, .upgrade]

/-- The steps of `installScript`. -/
def installOrder (cfg : AccountConfig) (password scriptName script : String) : List Step :=
  [.reply .tls,
    .write .tls .authenticate (utf8 (authenticateCommand cfg password)),
    .write .tls .authenticate (utf8 "\r\n"), .reply .tls,
    .write .tls .putscript (utf8 (putscriptCommand scriptName script)), .write .tls .putscript (utf8 script),
    .write .tls .putscript (utf8 "\r\n"), .reply .tls,
    .write .tls .setactive (utf8 (setactiveCommand scriptName)),
    .write .tls .setactive (utf8 "\r\n"), .reply .tls]

abbrev Follows {α : Type} (order : List Step) (m : Session α) : Prop := Traced.Follows Event.step Event.Good order m

theorem follows_connect (peer : Peer) (host : String) (port : UInt16) :
    Follows [.connect] (connect peer host port) := by
  unfold connect
  split
  · exact Traced.follows_done rfl rfl
  · exact Traced.follows_failed rfl (by simp [Event.Good])

theorem follows_writeAll (s : Stream ch) (c : Command) (b : Bytes) (context : String) :
    Follows [.write ch c b] (s.writeAll c b context) := by
  unfold Stream.writeAll
  split
  · exact Traced.follows_done rfl rfl
  · split
    · exact Traced.follows_done rfl rfl
    · exact Traced.follows_done rfl rfl
    · exact Traced.follows_failed rfl (by simp [Event.Good])

theorem follows_upgrade (peer : Peer) (host : String) (tcp : Link) : Follows [.upgrade] (upgrade peer host tcp) := by
  unfold upgrade
  split
  · exact Traced.follows_failed rfl (by simp [Event.Good])
  · split
    · exact Traced.follows_failed rfl (by simp [Event.Good])
    · exact Traced.follows_done rfl ⟨_, rfl⟩

theorem follows_expectOk (s : Stream ch) (no bye : String → BackendError) :
    Follows [.reply ch] (s.expectOk no bye) := by
  unfold Stream.expectOk
  split
  · exact Traced.follows_done rfl rfl
  · exact Traced.follows_failed rfl (by simp [Event.Good])
  · exact Traced.follows_failed rfl (by simp [Event.Good])
  · exact Traced.follows_failed rfl (by simp [Event.Good])

theorem follows_writeCommand (s : Stream ch) (c : Command) (cmd : String) :
    Follows [.write ch c (utf8 cmd), .write ch c (utf8 "\r\n")] (writeCommand s c cmd) :=
  (follows_writeAll ..).bind fun _ => follows_writeAll ..

theorem follows_startTls (peer : Peer) (cfg : AccountConfig) : Follows tlsOrder (startTls peer cfg) :=
  (follows_connect ..).bind fun _ =>
  (follows_expectOk ..).bind fun _ =>
  (follows_writeAll ..).bind fun _ =>
  (follows_expectOk ..).bind fun _ =>
  follows_upgrade ..

variable (cfg : AccountConfig) (password scriptName script : String)

theorem follows_installScript (tls : Link) :
    Follows (installOrder cfg password scriptName script) (installScript cfg password scriptName script tls) :=
  (follows_expectOk ..).bind fun _ =>
  (follows_writeCommand ..).bind fun _ =>
  (follows_expectOk ..).bind fun _ =>
  (follows_writeAll ..).bind fun _ =>
  (follows_writeAll ..).bind fun _ =>
  (follows_writeAll ..).bind fun _ =>
  (follows_expectOk ..).bind fun _ =>
  (follows_writeCommand ..).bind fun _ =>
  follows_expectOk ..

def sessionOrder : List Step :=
  tlsOrder ++ installOrder cfg password scriptName script ++ [.write .tls .logout (utf8 "LOGOUT\r\n")]

theorem putActiveScript_eq (peer : Peer) : putActiveScript peer cfg password scriptName script =
    ((startTls peer cfg >>= installScript cfg password scriptName script) >>= fun tls =>
      (tls.writeAll .logout (utf8 "LOGOUT\r\n") "LOGOUT write").ignore) :=
  (Traced.bind_assoc ..).symm

theorem follows_untilSetactive (peer : Peer) :
    Follows (tlsOrder ++ installOrder cfg password scriptName script)
      (startTls peer cfg >>= installScript cfg password scriptName script) :=
  (follows_startTls ..).bind fun _ => follows_installScript ..

theorem trace_logout (tls : Stream .tls) :
    ∃ e, (tls.writeAll .logout (utf8 "LOGOUT\r\n") "LOGOUT write").trace = [e] ∧
      e.step = .write .tls .logout (utf8 "LOGOUT\r\n") := by
  unfold Stream.writeAll
  split
  · exact ⟨_, rfl, rfl⟩
  · split <;> exact ⟨_, rfl, rfl⟩

theorem putActiveScript_ordered (peer : Peer) :
    Traced.Ordered Event.step Event.Good (sessionOrder cfg password scriptName script)
      (putActiveScript peer cfg password scriptName script).trace := by
  rw [putActiveScript_eq]
  exact (follows_untilSetactive cfg password scriptName script peer).ordered_ignore trace_logout

end Sieve

end Thundercrab
