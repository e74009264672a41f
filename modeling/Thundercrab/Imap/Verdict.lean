/-
`put_active_script` on connections that hold: the result is decided by the first answer that is not OK.
Which answer that is, and whether it is NO or BYE, decides the kind of the error; that the password was
refused is reported for AUTHENTICATE alone. The capabilities, the texts of the answers, the chunks they
arrive in, the name and the script have no part in it.
-/
import Thundercrab.Imap.Commands
import Thundercrab.Imap.CutShort

namespace Thundercrab

open Lib Lib.BufReader

namespace Sieve

/-! ## Kinds of errors -/

inductive ErrorKind where
  | transport
  | auth
  | protocol
  | notImplemented
  | panic
  deriving DecidableEq

def Failure.kind : Failure → ErrorKind
  | .err (.transport _) => .transport
  | .err (.auth _) => .auth
  | .err (.protocol _) => .protocol
  | .err (.notImplemented _) => .notImplemented
  | .panic => .panic

/-- The kind of the error that a computation returns. -/
def verdict {α : Type} (m : Session α) : Option ErrorKind :=
  match m.result with
  | .ok _ => none
  | .error e => some e.kind

/-- What NO and BYE come to where an answer is waited for. -/
structure Wait where
  no : ErrorKind
  bye : ErrorKind

/-- The first answer that is not OK decides; where the connection ends before it, that does. -/
def judge : List Wait → List Kind → Option ErrorKind
  | [], _ => none
  | _ :: _, [] => some .transport
  | w :: ws, k :: ks =>
    match k with
    | .ok => judge ws ks
    | .no => some w.no
    | .bye => some w.bye

variable {α : Type} {ch : Channel} {s : Stream ch} {Rs : List ServerResponse}

/-- The stream brings these responses, which are read as they are meant, and ends or fails after them, and
no write on it fails. -/
structure Ready (s : Stream ch) (Rs : List ServerResponse) : Prop where
  framed : ∀ R ∈ Rs, FramedAs R.enc R.final.kind
  pending : s.reader.pending = Responses Rs
  writes : ∀ e, .error e ∉ s.writes

theorem Ready.writeAll (h : Ready s Rs) (c : Command) (b : Bytes) (context : String) :
    ∃ s', (s.writeAll c b context).result = .ok s' ∧ Ready s' Rs := by
  unfold Stream.writeAll
  split
  · exact ⟨s, rfl, h⟩
  · split
    · exact ⟨s, rfl, h⟩
    · rename_i writes hw
      refine ⟨_, rfl, h.framed, h.pending, fun e he => h.writes e ?_⟩
      rw [hw]
      exact List.mem_cons_of_mem _ he
    · rename_i e writes hw
      exact absurd (by rw [hw]; exact List.mem_cons_self) (h.writes e)

theorem verdict_writeAll (h : Ready s Rs) {c : Command} {b : Bytes} {context : String} {f : Stream ch → Session α}
    {v : Option ErrorKind} (hf : ∀ s', Ready s' Rs → verdict (f s') = v) :
    verdict (s.writeAll c b context >>= f) = v := by
  obtain ⟨s', hs', hready⟩ := h.writeAll c b context
  rw [Traced.bind_ok hs']
  exact hf s' hready

/-- An answer is waited for, and then others; what follows them does not matter to it. -/
theorem verdict_expectOk (h : Ready s Rs) {no bye : String → BackendError} {w : Wait} {ws : List Wait}
    (hno : ∀ reason, (Failure.err (no reason)).kind = w.no) (hbye : ∀ reason, (Failure.err (bye reason)).kind = w.bye)
    {f : Stream ch → Session α} {v : Option ErrorKind}
    (hf : ∀ s', Ready s' Rs.tail → verdict (f s') = (judge ws (kinds Rs.tail)).or v) :
    verdict (s.expectOk no bye >>= f) = (judge (w :: ws) (kinds Rs)).or v := by
  cases Rs with
  | nil =>
    obtain ⟨msg, reader, hread⟩ := readResponse_nil h.pending
    have herr : (s.expectOk no bye).result = .error (.err (.transport msg)) := by
      unfold Stream.expectOk
      rw [hread]
    rw [Traced.bind_error herr]
    rfl
  | cons R Rs =>
    obtain ⟨⟨resp, hframed, hkind⟩, hRs⟩ := List.forall_mem_cons.1 h.framed
    have hpending : s.reader.pending = R.enc ++ Responses Rs := h.pending
    obtain ⟨reader, hread, hp⟩ := readResponse_framed hframed hpending
    rw [kinds, List.map_cons, ← hkind]
    cases resp with
    | ok =>
      have hok : (s.expectOk no bye).result = .ok { s with reader } := expectOk_eq_ok.2 ⟨reader, hread, rfl⟩
      rw [Traced.bind_ok hok]
      exact hf _ ⟨hRs, hp, h.writes⟩
    | no reason =>
      have herr : (s.expectOk no bye).result = .error (.err (no reason)) := by
        unfold Stream.expectOk
        rw [hread]
      rw [Traced.bind_error herr]
      exact congrArg some (hno reason)
    | bye reason =>
      have herr : (s.expectOk no bye).result = .error (.err (bye reason)) := by
        unfold Stream.expectOk
        rw [hread]
      rw [Traced.bind_error herr]
      exact congrArg some (hbye reason)

/-! ## The session -/

/-- A greeting or the reply to STARTTLS. -/
def waitUntilOk : Wait := ⟨.protocol, .transport⟩

def waitAuthenticate : Wait := ⟨.auth, .auth⟩

/-- The answer to PUTSCRIPT or SETACTIVE. -/
def waitCommand : Wait := ⟨.protocol, .protocol⟩

theorem verdict_readUntilOk (h : Ready s Rs) {ws : List Wait} {f : Stream ch → Session α} {v : Option ErrorKind}
    (hf : ∀ s', Ready s' Rs.tail → verdict (f s') = (judge ws (kinds Rs.tail)).or v) :
    verdict (readUntilOk s >>= f) = (judge (waitUntilOk :: ws) (kinds Rs)).or v :=
  verdict_expectOk h (fun _ => rfl) (fun _ => rfl) hf

theorem verdict_insideTls {cfg : AccountConfig} {password scriptName script : String} {tls : Link}
    (h : Ready (Stream.new .tls tls) Rs) : verdict (insideTls cfg password scriptName script tls) =
      (judge [waitUntilOk, waitAuthenticate, waitCommand, waitCommand] (kinds Rs)).or none := by
  unfold insideTls installScript writeCommand
  simp only [Traced.bind_assoc]
  refine verdict_readUntilOk h fun s h => ?_
  refine verdict_writeAll h fun s h => verdict_writeAll h fun s h => ?_
  refine verdict_expectOk h (fun _ => rfl) (fun _ => rfl) fun s h => ?_
  refine verdict_writeAll h fun s h => verdict_writeAll h fun s h => verdict_writeAll h fun s h => ?_
  refine verdict_expectOk h (fun _ => rfl) (fun _ => rfl) fun s h => ?_
  refine verdict_writeAll h fun s h => verdict_writeAll h fun s h => ?_
  exact verdict_expectOk h (fun _ => rfl) (fun _ => rfl) fun s h => rfl

/-- Where the writes go out and the server's responses are read as they are meant, until it ends the
connection, the result is decided by the first answer that is not OK: `Auth` where AUTHENTICATE is
refused and nowhere else, `Protocol` where PUTSCRIPT or SETACTIVE is, or one of the three answers before
AUTHENTICATE with NO, `Transport` where it is one of these three with BYE or the connection ends before
the answer, and success where all six are OK. -/
theorem putActiveScript_verdict (peer : Peer) (cfg : AccountConfig) (password scriptName script : String)
    (tcp tls : Link) (plain inside : List ServerResponse)
    (hconnect : peer.connect cfg.imapHost cfg.sievePort = .ok tcp) (hname : peer.serverName cfg.imapHost = .ok ())
    (hshake : ∀ link, peer.handshake cfg.imapHost link = .ok tls) (htcp : Ready (Stream.new .plain tcp) plain)
    (htls : Ready (Stream.new .tls tls) inside) :
    verdict (putActiveScript peer cfg password scriptName script) =
      (judge [waitUntilOk, waitUntilOk] (kinds plain)).or
        (judge [waitUntilOk, waitAuthenticate, waitCommand, waitCommand] (kinds inside)) := by
  have hrun : putActiveScript peer cfg password scriptName script =
    startTls peer cfg >>= insideTls cfg password scriptName script := rfl
  rw [hrun, startTls]
  simp only [Traced.bind_assoc]
  rw [Traced.bind_ok (connect_eq_ok.2 hconnect)]
  show verdict (readUntilOk (Stream.new .plain tcp) >>= _) = _
  refine verdict_readUntilOk htcp fun s h => ?_
  refine verdict_writeAll h fun s h => ?_
  refine verdict_readUntilOk h fun s h => ?_
  rw [Traced.bind_ok (upgrade_eq_ok.2 ⟨hname, hshake _⟩)]
  exact (verdict_insideTls htls).trans Option.or_none

/-- A server that refuses the password and hangs up. -/
def refusingPeer : Peer where
  connect _ _ := .ok acceptingTcp
  serverName _ := .ok ()
  handshake _ _ := .ok ⟨[.data 79 (utf8 "K\r\nNO \"no\"\r\n")], notUtf8, []⟩

theorem refusingPeer_verdict :
    verdict (putActiveScript refusingPeer sampleAccount "hunter3" "main" "keep;") = some .auth := by
  have hplain : ∀ R ∈ [plainOk, shortRefusal], FramedAs R.enc R.final.kind := by
    have hboth : ∀ R ∈ [plainOk, shortRefusal], Plain R := by decide
    exact fun R hR => (hboth R hR).framed
  refine putActiveScript_verdict refusingPeer sampleAccount "hunter3" "main" "keep;" _ _ [plainOk, plainOk]
    [plainOk, shortRefusal] rfl rfl (fun _ => rfl) ⟨fun R hR => ?_, by decide, nofun⟩ ⟨hplain, by decide, nofun⟩
  rw [List.mem_cons, List.mem_singleton, or_self] at hR
  exact hplain R (hR ▸ List.mem_cons_self)

end Sieve

end Thundercrab
