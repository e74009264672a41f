/-
`main.rs` of the command line: `crab` with one command, from the environment and the disk to what it
prints and its exit code. The password comes from the environment; what is printed depends on it only
by what the servers answer, except where it is not Unicode, and where a push of a script breaks while
AUTHENTICATE is written. There it is printed.
-/
import Thundercrab.Imap.Connect
import Thundercrab.Imap.Secrecy
import Thundercrab.Imap.Smtp

namespace Thundercrab

open Lib Imap

namespace Cli

inductive Cmd where
  | list
  | fetch (folder : String) (limit : UInt32)
  | pushSieve (name path : String)
  | send («to» cc : List String) (subject body encryption : String)

/-- The environment, the disk, the servers; and `{:?}` of a string and of an environment value. -/
structure World where
  /-- The octets of a variable that is set. -/
  env : String → Option Bytes
  readToString : String → Except String String
  net : Net
  peer : Sieve.Peer
  lettre : Smtp.Lettre
  quoted : String → String
  quotedOs : Bytes → String

/-- Why a command prints no result: an error, with its context as `{:#}` prints it. -/
inductive Stop where
  | error (text : String)
  | panic
  deriving DecidableEq

variable {α : Type}

/-- `with_context` -/
def context (what : String) (r : Except String α) : Except Stop α := r.mapError fun e => .error s!"{what}: {e}"

/-- `map_err(|e| anyhow!("what: {e}"))` -/
def reported (what : String) (r : Except BackendError α) : Except Stop α :=
  r.mapError fun e => .error s!"{what}: {e.display}"

/-- `{:>n}` -/
def padLeft (n : Nat) (s : String) : String := String.ofList (s.toList.leftpad n ' ')

/-- `std::env::var` -/
def World.var (w : World) (key : String) : Except String String :=
  match w.env key with
  | none => .error "environment variable not found"
  | some value =>
    match ofUtf8? value with
    | some text => .ok text
    -- the error has the value in it
    | none => .error s!"environment variable was not valid unicode: {w.quotedOs value}"

def loadConfig (w : World) : Except Stop AccountConfig := do
  let host ← context "IMAP_HOST not set" (w.var "IMAP_HOST")
  let user ← context "IMAP_USER not set" (w.var "IMAP_USER")
  return AccountConfig.plausiden host user

def folderLine (unseen messages name : String) : String := s!"{padLeft 6 unseen}  {padLeft 6 messages}  {name}"

def cmdList (w : World) (cfg : AccountConfig) (password : String) : Except Stop (List String) := do
  let backend ← reported "connect" (connect w.net cfg password).result
  let folders ← reported "list_folders" (listFolders backend.listing)
  return folderLine "UNREAD" "TOTAL" "FOLDER" ::
    folders.map fun f => folderLine (toString f.unseen) (toString f.messages) f.name

def headerLines (h : MessageHeaders) : List String :=
  [s!"uid={h.uid}  from={h.from}", s!"    subject: {h.subject}"] ++
    (h.otherHeaders.filter fun x => x.1 ∈ ["list-id", "list-unsubscribe", "x-priority"]).map
      fun x => s!"    {x.1}: {x.2}"

def cmdFetch (w : World) (cfg : AccountConfig) (password folder : String) (limit : UInt32) :
    Except Stop (List String) := do
  let backend ← reported "connect" (connect w.net cfg password).result
  let headers ← reported "fetch_headers" (fetchHeaders backend.mailboxes folder (some limit)).2
  return if headers.isEmpty then [s!"(no messages in {folder})"] else headers.flatMap headerLines

/-- What is made of the result of `put_active_script`. -/
def pushed (name script : String) : Except Sieve.Failure Unit → Except Stop (List String)
  | .ok () => .ok [s!"ok: pushed {(utf8 script).length} bytes as `{name}`, set active"]
  | .error (.err e) => .error (.error s!"put_active_script: {e.display}")
  | .error .panic => .error .panic

def cmdPushSieve (w : World) (cfg : AccountConfig) (password name path : String) : Except Stop (List String) := do
  let script ← context s!"reading {path}" (w.readToString path)
  pushed name script (Sieve.putActiveScript w.peer cfg password name script).result

/-- `--body @file` -/
def bodyOf (w : World) (body : String) : Except Stop String :=
  match body.toList with
  | '@' :: file => context s!"reading body from {String.ofList file}" (w.readToString (String.ofList file))
  | _ => return body

def encryptionOf (w : World) (encryption : String) : Except Stop Smtp.SmtpEncryption :=
  if encryption = "starttls" then return .startTls
  else if encryption = "implicit" then return .implicitTls
  else throw (.error s!"unknown encryption {w.quoted encryption}, expected starttls|implicit")

def cmdSend (w : World) (cfg : AccountConfig) (password : String) («to» cc : List String)
    (subject body encryption : String) : Except Stop (List String) := do
  if «to» = [] then throw (.error "at least one --to recipient required")
  let body ← bodyOf w body
  let encryption ← encryptionOf w encryption
  reported "send_message"
    (Smtp.sendMessage w.lettre w.quoted cfg password encryption ⟨cfg.username, «to», cc, subject, body⟩)
  return ["ok: sent"]

def Cmd.run (w : World) (cfg : AccountConfig) (password : String) : Cmd → Except Stop (List String)
  | .list => cmdList w cfg password
  | .fetch folder limit => cmdFetch w cfg password folder limit
  | .pushSieve name path => cmdPushSieve w cfg password name path
  | .send «to» cc subject body encryption => cmdSend w cfg password «to» cc subject body encryption

def run (w : World) (cmd : Cmd) : Except Stop (List String) := do
  let cfg ← loadConfig w
  let password ← context "IMAP_PASSWORD env var must be set" (w.var "IMAP_PASSWORD")
  cmd.run w cfg password

/-- What `crab` comes to: its lines on the two outputs and its exit code, or a panic. -/
inductive Output where
  | exit (stdout stderr : List String) (code : UInt8)
  | panicked
  deriving DecidableEq

def main (w : World) (cmd : Cmd) : Output :=
  match run w cmd with
  | .ok lines => .exit lines [] 0
  | .error (.error text) => .exit [] [s!"crab: {text}"] 1
  | .error .panic => .panicked

/-! ## Two passwords -/

/-- The same with this password in the environment. -/
def World.withPassword (w : World) (password : Bytes) : World :=
  { w with env := Function.update w.env "IMAP_PASSWORD" (some password) }

/-- The servers answer the two passwords alike. -/
structure Alike (w : World) (p p' : String) : Prop where
  login : ∀ host username, w.net.login host username p = w.net.login host username p'
  send : ∀ encryption host port username email,
    w.lettre.send encryption host port username p email = w.lettre.send encryption host port username p' email

/-- A script is pushed, and the connection breaks while AUTHENTICATE is written. -/
def BreaksPush (w : World) (cmd : Cmd) : Prop :=
  ∃ cfg name path script, loadConfig w = .ok cfg ∧ cmd = .pushSieve name path ∧ w.readToString path = .ok script ∧
    Sieve.BreaksAuthenticate w.peer cfg

/-- The password is printed: it is not Unicode, or a push breaks while it is sent. -/
def Prints (w : World) (cmd : Cmd) (b : Bytes) : Prop :=
  ((∃ cfg, loadConfig w = .ok cfg) ∧ ofUtf8? b = none) ∨ BreaksPush w cmd

variable {w : World} {cmd : Cmd} {cfg : AccountConfig} {p p' : String} {b b' : Bytes}

theorem withPassword_env (w : World) (b : Bytes) (name : String) :
    (w.withPassword b).env name = if name = "IMAP_PASSWORD" then some b else w.env name :=
  Function.update_apply ..

theorem loadConfig_withPassword (w : World) (b : Bytes) : loadConfig (w.withPassword b) = loadConfig w := by
  have hother : ∀ key, key ≠ "IMAP_PASSWORD" → (w.withPassword b).var key = w.var key := by
    intro key hkey
    unfold World.var
    rw [withPassword_env, if_neg hkey]
    rfl
  unfold loadConfig
  rw [hother _ (by decide), hother _ (by decide)]

theorem run_unconfigured {e : Stop} (hcfg : loadConfig w = .error e) (cmd : Cmd) (b : Bytes) :
    run (w.withPassword b) cmd = .error e := by
  unfold run
  rw [loadConfig_withPassword, hcfg]
  rfl

theorem run_unicode (hcfg : loadConfig w = .ok cfg) (cmd : Cmd) (p : String) :
    run (w.withPassword (utf8 p)) cmd = cmd.run w cfg p := by
  have hvar : (w.withPassword (utf8 p)).var "IMAP_PASSWORD" = .ok p := by
    unfold World.var
    rw [withPassword_env, if_pos rfl]
    simp only [ofUtf8_utf8]
  unfold run
  rw [loadConfig_withPassword, hcfg, hvar]
  cases cmd <;> rfl

/-- What is said of a password that is not Unicode. -/
def notUnicode (w : World) (b : Bytes) : String :=
  "IMAP_PASSWORD env var must be set: environment variable was not valid unicode: " ++ w.quotedOs b

theorem run_notUnicode (hcfg : loadConfig w = .ok cfg) (cmd : Cmd) (hb : ofUtf8? b = none) :
    run (w.withPassword b) cmd = .error (.error (notUnicode w b)) := by
  have hvar : (w.withPassword b).var "IMAP_PASSWORD" =
      .error ("environment variable was not valid unicode: " ++ w.quotedOs b) := by
    unfold World.var
    rw [withPassword_env, if_pos rfl]
    simp only [hb]
    rfl
  unfold run
  rw [loadConfig_withPassword, hcfg, hvar]
  refine congrArg (fun text => Except.error (Stop.error text)) ?_
  show "IMAP_PASSWORD env var must be set" ++ (": " ++ ("environment variable was not valid unicode: " ++ _)) = _
  rw [← String.append_assoc, ← String.append_assoc]
  rfl

theorem sendMessage_alike (h : Alike w p p') (encryption : Smtp.SmtpEncryption) (message : Smtp.OutboundMessage) :
    Smtp.sendMessage w.lettre w.quoted cfg p encryption message =
      Smtp.sendMessage w.lettre w.quoted cfg p' encryption message := by
  unfold Smtp.sendMessage
  simp only [h.send]

theorem cmdPushSieve_read {name path script : String} (hread : w.readToString path = .ok script) :
    cmdPushSieve w cfg p name path = pushed name script (Sieve.putActiveScript w.peer cfg p name script).result := by
  unfold cmdPushSieve
  rw [hread]
  rfl

theorem cmdPushSieve_unread {name path e : String} (hread : w.readToString path = .error e) :
    cmdPushSieve w cfg p name path = .error (.error s!"reading {path}: {e}") := by
  unfold cmdPushSieve
  rw [hread]
  rfl

/-- A push says nothing of the password unless it breaks at AUTHENTICATE. -/
theorem cmdPushSieve_alike {name path : String} (h : ∀ script, w.readToString path = .ok script →
    ¬ Sieve.BreaksAuthenticate w.peer cfg) : cmdPushSieve w cfg p name path = cmdPushSieve w cfg p' name path := by
  cases hread : w.readToString path with
  | error e => rw [cmdPushSieve_unread hread, cmdPushSieve_unread hread]
  | ok script =>
    rw [cmdPushSieve_read hread, cmdPushSieve_read hread, Sieve.result_eq_of_not_breaks (h script hread) p']

/-- A command says nothing of the password but what the servers do, unless it is a push that breaks. -/
theorem Cmd.run_alike (h : Alike w p p') (hpush : ∀ name path script, cmd = .pushSieve name path →
    w.readToString path = .ok script → ¬ Sieve.BreaksAuthenticate w.peer cfg) :
    cmd.run w cfg p = cmd.run w cfg p' := by
  have hconnect : (connect w.net cfg p).result = (connect w.net cfg p').result :=
    connect_result_congr p (h.login cfg.imapHost cfg.username)
  cases cmd with
  | list =>
    unfold Cmd.run cmdList
    rw [hconnect]
  | fetch folder limit =>
    unfold Cmd.run cmdFetch
    rw [hconnect]
  | pushSieve name path => exact cmdPushSieve_alike fun script => hpush name path script rfl
  | send «to» cc subject body encryption =>
    unfold Cmd.run cmdSend
    simp only [sendMessage_alike h]

/-- Where it breaks there, the error it reports has the command in it. -/
theorem cmdPushSieve_breaks (name : String) {path script : String} (hread : w.readToString path = .ok script)
    (h : Sieve.BreaksAuthenticate w.peer cfg) : ∃ before rest, ∀ p, cmdPushSieve w cfg p name path =
      .error (.error (before ++ Sieve.authenticateCommand cfg p ++ rest)) := by
  have hresult : ∃ rest, ∀ p, (Sieve.putActiveScript w.peer cfg p name script).result =
      .error (Sieve.transport ("write " ++ Sieve.authenticateCommand cfg p ++ rest)) := Sieve.result_of_breaks h
  obtain ⟨rest, hrest⟩ := hresult
  refine ⟨"put_active_script: " ++ ("transport: " ++ "write "), rest, fun p => ?_⟩
  rw [cmdPushSieve_read hread, hrest]
  show Except.error (Stop.error ("put_active_script: " ++ ("transport: " ++ ("write " ++ _ ++ rest)))) = _
  simp only [String.append_assoc]

/-! ## What is said of the password only -/

/-- The text does not begin as the one about the password does. -/
def Apart (text : String) : Prop := ∃ c, text.toList.head? = some c ∧ c ≠ 'I'

theorem Apart.append {text : String} (h : Apart text) (rest : String) : Apart (text ++ rest) := by
  obtain ⟨c, hc, hne⟩ := h
  exact ⟨c, by rw [String.toList_append, List.head?_append, hc]; rfl, hne⟩

theorem Apart.ne_notUnicode {text : String} (h : Apart text) : text ≠ notUnicode w b := by
  rintro rfl
  obtain ⟨c, hc, hne⟩ := h
  unfold notUnicode at hc
  rw [String.toList_append, List.head?_append] at hc
  exact hne (Option.some.inj hc).symm

/-- The errors of a computation have texts of their own. -/
def ErrsApart (r : Except Stop α) : Prop := ∀ text, r = .error (.error text) → Apart text

theorem ErrsApart.bind {β : Type} {x : Except Stop α} {f : α → Except Stop β} (hx : ErrsApart x)
    (hf : ∀ a, ErrsApart (f a)) : ErrsApart (x >>= f) := by
  cases x with
  | error e =>
    rintro text h
    cases h
    exact hx text rfl
  | ok a => exact hf a

theorem errsApart_context {what : String} (hwhat : Apart what) (r : Except String α) : ErrsApart (context what r) := by
  cases r with
  | error e =>
    rintro text h
    cases h
    exact (hwhat.append _).append _
  | ok a => exact nofun

theorem errsApart_reported {what : String} (hwhat : Apart what) (r : Except BackendError α) :
    ErrsApart (reported what r) := by
  cases r with
  | error e =>
    rintro text h
    cases h
    exact (hwhat.append _).append _
  | ok a => exact nofun

theorem errsApart_pushed (name script : String) (r : Except Sieve.Failure Unit) : ErrsApart (pushed name script r) := by
  cases r with
  | ok u => exact nofun
  | error f =>
    cases f with
    | panic => exact nofun
    | err e =>
      rintro text h
      cases h
      exact Apart.append ⟨'p', rfl, by decide⟩ _

theorem errsApart_bodyOf (w : World) (body : String) : ErrsApart (bodyOf w body) := by
  unfold bodyOf
  split
  · exact errsApart_context (Apart.append ⟨'r', rfl, by decide⟩ _) _
  · exact nofun

theorem errsApart_encryptionOf (w : World) (encryption : String) : ErrsApart (encryptionOf w encryption) := by
  unfold encryptionOf
  split
  · exact nofun
  · split
    · exact nofun
    · rintro text h
      cases h
      exact (Apart.append ⟨'u', rfl, by decide⟩ _).append _

theorem Cmd.run_errsApart (w : World) (cfg : AccountConfig) (p : String) (cmd : Cmd) : ErrsApart (cmd.run w cfg p) := by
  cases cmd with
  | list =>
    refine (errsApart_reported ⟨'c', rfl, by decide⟩ _).bind fun backend => ?_
    exact (errsApart_reported ⟨'l', rfl, by decide⟩ _).bind fun folders => nofun
  | fetch folder limit =>
    refine (errsApart_reported ⟨'c', rfl, by decide⟩ _).bind fun backend => ?_
    exact (errsApart_reported ⟨'f', rfl, by decide⟩ _).bind fun headers => nofun
  | pushSieve name path =>
    exact (errsApart_context (Apart.append ⟨'r', rfl, by decide⟩ _) _).bind fun script => errsApart_pushed name script _
  | send «to» cc subject body encryption =>
    show ErrsApart (cmdSend w cfg p «to» cc subject body encryption)
    unfold cmdSend
    split
    · rintro text h
      cases h
      exact ⟨'a', rfl, by decide⟩
    · refine (errsApart_bodyOf w body).bind fun body => ?_
      refine (errsApart_encryptionOf w encryption).bind fun encryption => ?_
      exact (errsApart_reported ⟨'s', rfl, by decide⟩ _).bind fun u => nofun

/-! ## What is printed -/

theorem main_error {text : String} (h : run w cmd = .error (.error text)) :
    main w cmd = .exit [] ["crab: " ++ text] 1 := by
  unfold main
  rw [h]
  rfl

theorem run_error_of_main {text : String} (h : main w cmd = .exit [] ["crab: " ++ text] 1) :
    run w cmd = .error (.error text) := by
  unfold main at h
  split at h
  · cases h
  · rename_i text' hrun
    injection h with _ hline _
    rw [hrun, show text' = text from (String.append_right_inj _).1 (List.cons.inj hline).1]
  · cases h

/-- A push that breaks at AUTHENTICATE prints the command, whatever the password. -/
theorem main_breaks (h : BreaksPush w cmd) : ∃ cfg, loadConfig w = .ok cfg ∧ ∃ before rest, ∀ p,
    main (w.withPassword (utf8 p)) cmd =
      .exit [] ["crab: " ++ (before ++ Sieve.authenticateCommand cfg p ++ rest)] 1 := by
  obtain ⟨cfg, name, path, script, hcfg, rfl, hread, hbreaks⟩ := h
  obtain ⟨before, rest, hpush⟩ := cmdPushSieve_breaks name hread hbreaks
  refine ⟨cfg, hcfg, before, rest, fun p => main_error ?_⟩
  rw [run_unicode hcfg]
  exact hpush p

theorem main_notUnicode (hcfg : loadConfig w = .ok cfg) (cmd : Cmd) (hb : ofUtf8? b = none) :
    main (w.withPassword b) cmd = .exit [] ["crab: " ++ notUnicode w b] 1 := main_error (run_notUnicode hcfg cmd hb)

/-- A password that is not Unicode leads to another line than all others do. -/
theorem eq_of_main_notUnicode (hquoted : w.quotedOs b = w.quotedOs b' → b = b') (hcfg : loadConfig w = .ok cfg)
    (hb : ofUtf8? b = none) (h : main (w.withPassword b) cmd = main (w.withPassword b') cmd) : b = b' := by
  rw [main_notUnicode hcfg cmd hb] at h
  have hrun := run_error_of_main h.symm
  cases hb' : ofUtf8? b' with
  | none =>
    rw [run_notUnicode hcfg cmd hb', Except.error.injEq, Stop.error.injEq] at hrun
    exact hquoted ((String.append_right_inj _).1 hrun.symm)
  | some p' =>
    obtain rfl := ofUtf8_eq_some.1 hb'
    rw [run_unicode hcfg] at hrun
    exact absurd rfl (cmd.run_errsApart w cfg p' _ hrun).ne_notUnicode

/-- Passwords one of which is printed show in the output. -/
theorem eq_of_main (hquoted : w.quotedOs b = w.quotedOs b' → b = b') (hprints : Prints w cmd b ∨ Prints w cmd b')
    (hmain : main (w.withPassword b) cmd = main (w.withPassword b') cmd) : b = b' := by
  have hcfg : ∃ cfg, loadConfig w = .ok cfg := by
    rcases hprints with (⟨hcfg, -⟩ | hbreaks) | (⟨hcfg, -⟩ | hbreaks)
    · exact hcfg
    · exact hbreaks.imp fun _ ⟨_, _, _, hcfg, _⟩ => hcfg
    · exact hcfg
    · exact hbreaks.imp fun _ ⟨_, _, _, hcfg, _⟩ => hcfg
  obtain ⟨cfg, hcfg⟩ := hcfg
  cases hb : ofUtf8? b with
  | none => exact eq_of_main_notUnicode hquoted hcfg hb hmain
  | some p =>
    cases hb' : ofUtf8? b' with
    | none => exact (eq_of_main_notUnicode (fun he => (hquoted he.symm).symm) hcfg hb' hmain.symm).symm
    | some p' =>
      have hbreaks : BreaksPush w cmd := by
        rcases hprints with (⟨-, hno⟩ | hbreaks) | (⟨-, hno⟩ | hbreaks)
        · rw [hb] at hno; cases hno
        · exact hbreaks
        · rw [hb'] at hno; cases hno
        · exact hbreaks
      obtain rfl := ofUtf8_eq_some.1 hb
      obtain rfl := ofUtf8_eq_some.1 hb'
      obtain ⟨cfg, -, before, rest, hline⟩ := main_breaks hbreaks
      rw [hline, hline] at hmain
      injection hmain with _ hmain _
      have htext := (String.append_right_inj _).1 (List.cons.inj hmain).1
      rw [Sieve.authenticateCommand_inj (Sieve.string_append_inj htext)]

/-- Passwords that are not printed show only by what the servers answer. -/
theorem main_eq_of_not_prints (h : ∀ p p', b = utf8 p → b' = utf8 p' → Alike w p p')
    (hno : ¬ (Prints w cmd b ∨ Prints w cmd b')) :
    main (w.withPassword b) cmd = main (w.withPassword b') cmd := by
  have hrun : run (w.withPassword b) cmd = run (w.withPassword b') cmd := by
    cases hcfg : loadConfig w with
    | error e => rw [run_unconfigured hcfg, run_unconfigured hcfg]
    | ok cfg =>
      cases hb : ofUtf8? b with
      | none => exact absurd (.inl (.inl ⟨⟨cfg, hcfg⟩, hb⟩)) hno
      | some p =>
        cases hb' : ofUtf8? b' with
        | none => exact absurd (.inr (.inl ⟨⟨cfg, hcfg⟩, hb'⟩)) hno
        | some p' =>
          obtain rfl := ofUtf8_eq_some.1 hb
          obtain rfl := ofUtf8_eq_some.1 hb'
          rw [run_unicode hcfg, run_unicode hcfg]
          exact Cmd.run_alike (h p p' rfl rfl) fun name path script hcmd hread hbreaks =>
            hno (.inl (.inr ⟨cfg, name, path, script, hcfg, hcmd, hread, hbreaks⟩))
  unfold main
  rw [hrun]

/-- Whatever the environment, the disk, the servers and the command: two passwords that the servers
answer alike lead to the same output and the same exit code exactly when they are the same or neither
is printed. One that is not Unicode is printed by every command, once the rest of the environment is
read, and one that is by a push alone whose connection breaks while AUTHENTICATE is written, which
prints that command. -/
theorem main_eq_iff (w : World) (cmd : Cmd) (b b' : Bytes)
    (h : ∀ p p', b = utf8 p → b' = utf8 p' → Alike w p p') (hquoted : w.quotedOs b = w.quotedOs b' → b = b') :
    (main (w.withPassword b) cmd = main (w.withPassword b') cmd ↔ b = b' ∨ ¬ (Prints w cmd b ∨ Prints w cmd b')) ∧
    (ofUtf8? b = none → (∃ cfg, loadConfig w = .ok cfg) →
      main (w.withPassword b) cmd = .exit [] ["crab: " ++ notUnicode w b] 1) ∧
    (BreaksPush w cmd → ∃ cfg, loadConfig w = .ok cfg ∧ ∃ before rest, ∀ p,
      main (w.withPassword (utf8 p)) cmd =
        .exit [] ["crab: " ++ (before ++ Sieve.authenticateCommand cfg p ++ rest)] 1) := by
  refine ⟨⟨fun hmain => ?_, ?_⟩, fun hb ⟨cfg, hcfg⟩ => main_notUnicode hcfg cmd hb, main_breaks⟩
  · by_cases hprints : Prints w cmd b ∨ Prints w cmd b'
    · exact .inl (eq_of_main hquoted hprints hmain)
    · exact .inr hprints
  · rintro (rfl | hno)
    · rfl
    · exact main_eq_of_not_prints h hno

/-- `{:?}` of octets none of which needs an escape but those that are not Unicode. -/
def quotedOctets (b : Bytes) : String :=
  "\"" ++ String.join (b.map fun x =>
    if x < 128 then String.singleton (Char.ofNat x.toNat)
    else "\\x" ++ String.ofList ((Nat.toDigits 16 x.toNat).map Char.toUpper)) ++ "\""

/-- Nothing but the disk, and a server whose TLS connection is reset when AUTHENTICATE is written. -/
def resetWorld : World where
  env name :=
    if name = "IMAP_HOST" then some (utf8 "mail.example.org")
    else if name = "IMAP_USER" then some (utf8 "ops")
    else none
  readToString _ := .ok "keep;"
  net := ⟨fun _ _ => .error "refused", fun _ => .ok (), fun _ => .ok (), fun _ _ _ => .error "no"⟩
  peer := Sieve.resetPeer
  lettre := ⟨Unit, Unit, fun _ => .ok (), fun _ _ _ _ _ => .ok (), fun _ _ => .ok (), fun _ _ _ _ _ _ => .ok ()⟩
  quoted s := s!"\"{s}\""
  quotedOs := quotedOctets

theorem resetWorld_config : loadConfig resetWorld = .ok Sieve.resetAccount := by
  have hhost : resetWorld.var "IMAP_HOST" = .ok "mail.example.org" := by
    unfold World.var
    rw [show resetWorld.env "IMAP_HOST" = some (utf8 "mail.example.org") from rfl]
    simp only [ofUtf8_utf8]
  have huser : resetWorld.var "IMAP_USER" = .ok "ops" := by
    unfold World.var
    rw [show resetWorld.env "IMAP_USER" = some (utf8 "ops") from rfl]
    simp only [ofUtf8_utf8]
  unfold loadConfig
  rw [hhost, huser]
  rfl

/-- Two passwords show when the push breaks, and a third, in Latin-1, with any command. -/
theorem reset_push_tells : main (resetWorld.withPassword (utf8 "hunter2")) (.pushSieve "thundercrab" "rules.sieve") ≠
    main (resetWorld.withPassword (utf8 "hunter3")) (.pushSieve "thundercrab" "rules.sieve") ∧
    main (resetWorld.withPassword [104, 252]) .list =
      .exit []
        ["crab: IMAP_PASSWORD env var must be set: environment variable was not valid unicode: \"h\\xFC\""] 1 := by
  have halike : ∀ p p', Alike resetWorld p p' := fun _ _ => ⟨fun _ _ => rfl, fun _ _ _ _ _ => rfl⟩
  constructor
  · intro hmain
    have hiff := (main_eq_iff resetWorld (.pushSieve "thundercrab" "rules.sieve") (utf8 "hunter2") (utf8 "hunter3")
      (fun p p' _ _ => halike p p') fun hq => absurd hq (by decide)).1
    rcases hiff.1 hmain with h | h
    · exact absurd h (by decide)
    · exact h (.inl (.inr ⟨Sieve.resetAccount, "thundercrab", "rules.sieve", "keep;", resetWorld_config, rfl, rfl,
        Sieve.resetPeer_breaks⟩))
  · have hline := (main_eq_iff resetWorld .list [104, 252] [104, 252] (fun p p' _ _ => halike p p') fun _ => rfl).2.1
      (by decide) ⟨_, resetWorld_config⟩
    rw [hline]
    decide

end Cli

end Thundercrab
