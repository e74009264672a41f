/-
What a session's result tells of the password. The text of a write error has the command in it, and
AUTHENTICATE has the password in Base64, from which it can be read back; every other text is made of
what the server sends and of what the session is given besides the password. So the result depends
on the password exactly when the connection breaks while AUTHENTICATE is written.
-/
import Thundercrab.Imap.Encoding
import Thundercrab.Imap.SessionOrder

namespace Thundercrab

open Lib Lib.BufReader

namespace Sieve

variable {ch : Channel} {cfg : AccountConfig} {password scriptName script : String} {peer : Peer}

/-! ## The password can be read back from the command -/

theorem string_append_inj {a a' b c : String} (h : c ++ a ++ b = c ++ a' ++ b) : a = a' := by
  have h := congrArg String.toList h
  simp only [String.toList_append, List.append_assoc] at h
  exact String.toList_injective (List.append_cancel_right (List.append_cancel_left h))

theorem authenticateCommand_inj {password' : String}
    (h : authenticateCommand cfg password = authenticateCommand cfg password') : password = password' := by
  have hblob := utf8_inj (base64Encode_inj (string_append_inj h))
  have := congrArg String.toList hblob
  simp only [authBlob, String.toList_append] at this
  exact String.toList_injective (List.append_cancel_left this)

/-! ## Up to AUTHENTICATE -/

/-- The session comes to AUTHENTICATE over this TLS connection: the greeting, the reply to STARTTLS and
the greeting inside TLS are OK and nothing fails before. -/
def ReachesAuthenticate (peer : Peer) (cfg : AccountConfig) (tls : Link) : Prop :=
  ∃ tcp greeted answered inside, peer.connect cfg.imapHost cfg.sievePort = .ok tcp ∧
    readResponse ⟨[], tcp.incoming, tcp.invalid⟩ = (.ok .ok, greeted) ∧ (∀ e, tcp.writes.head? ≠ some (.error e)) ∧
    readResponse greeted = (.ok .ok, answered) ∧ peer.serverName cfg.imapHost = .ok () ∧
    peer.handshake cfg.imapHost ⟨answered.source, answered.invalid, tcp.writes.tail⟩ = .ok tls ∧
    readResponse ⟨[], tls.incoming, tls.invalid⟩ = (.ok .ok, inside)

/-- The connection breaks at one of the two writes of AUTHENTICATE, the line and its CRLF. -/
def BreaksAuthenticate (peer : Peer) (cfg : AccountConfig) : Prop :=
  ∃ tls, ReachesAuthenticate peer cfg tls ∧ ∃ e, .error e ∈ tls.writes.take 2

/-- The part of the session before AUTHENTICATE. -/
def untilGreeted (peer : Peer) (cfg : AccountConfig) : Session (Stream .tls) := do
  let tls ← startTls peer cfg
  readUntilOk (Stream.new .tls tls)

theorem untilGreeted_eq_ok {s : Stream .tls} (h : (untilGreeted peer cfg).result = .ok s) :
    ∃ tls, ReachesAuthenticate peer cfg tls ∧ s.writes = tls.writes := by
  obtain ⟨tls, htls, hs⟩ := Traced.bind_ok_iff.1 h
  obtain ⟨tcp, hconnect, htls⟩ := Traced.bind_ok_iff.1 htls
  obtain ⟨s1, h1, htls⟩ := Traced.bind_ok_iff.1 htls
  obtain ⟨s2, h2, htls⟩ := Traced.bind_ok_iff.1 htls
  obtain ⟨s3, h3, htls⟩ := Traced.bind_ok_iff.1 htls
  obtain ⟨greeted, hgreeted, rfl⟩ := expectOk_eq_ok.1 h1
  obtain ⟨hwrite, rfl⟩ := (writeAll_eq_ok (by decide)).1 h2
  obtain ⟨answered, hanswered, rfl⟩ := expectOk_eq_ok.1 h3
  obtain ⟨hname, hhandshake⟩ := upgrade_eq_ok.1 htls
  obtain ⟨inside, hinside, rfl⟩ := expectOk_eq_ok.1 hs
  refine ⟨tls, ⟨tcp, greeted, answered, inside, ?_⟩, rfl⟩
  exact ⟨connect_eq_ok.1 hconnect, hgreeted, hwrite, hanswered, hname, hhandshake, hinside⟩

theorem untilGreeted_of_reaches {tls : Link} (h : ReachesAuthenticate peer cfg tls) :
    ∃ s, (untilGreeted peer cfg).result = .ok s ∧ s.writes = tls.writes := by
  obtain ⟨tcp, greeted, answered, inside, hconnect, hgreeted, hwrite, hanswered, hname, hhandshake, hinside⟩ := h
  refine ⟨⟨inside, tls.writes⟩, ?_, rfl⟩
  refine Traced.bind_ok_iff.2 ⟨tls, ?_, expectOk_eq_ok.2 ⟨inside, hinside, rfl⟩⟩
  refine Traced.bind_ok_iff.2 ⟨tcp, connect_eq_ok.2 hconnect, ?_⟩
  refine Traced.bind_ok_iff.2 ⟨⟨greeted, tcp.writes⟩, expectOk_eq_ok.2 ⟨greeted, hgreeted, rfl⟩, ?_⟩
  refine Traced.bind_ok_iff.2 ⟨⟨greeted, tcp.writes.tail⟩, (writeAll_eq_ok (by decide)).2 ⟨hwrite, rfl⟩, ?_⟩
  refine Traced.bind_ok_iff.2 ⟨⟨answered, tcp.writes.tail⟩, expectOk_eq_ok.2 ⟨answered, hanswered, rfl⟩, ?_⟩
  exact upgrade_eq_ok.2 ⟨hname, hhandshake⟩

theorem breaksAuthenticate_iff : BreaksAuthenticate peer cfg ↔
    ∃ s, (untilGreeted peer cfg).result = .ok s ∧ ∃ e, .error e ∈ s.writes.take 2 := by
  constructor
  · rintro ⟨tls, hreach, e, he⟩
    obtain ⟨s, hs, hw⟩ := untilGreeted_of_reaches hreach
    exact ⟨s, hs, e, hw ▸ he⟩
  · rintro ⟨s, hs, e, he⟩
    obtain ⟨tls, hreach, hw⟩ := untilGreeted_eq_ok hs
    exact ⟨tls, hreach, e, hw ▸ he⟩

/-! ## AUTHENTICATE -/

/-- The text of a failed write has the command in it. -/
theorem writeCommand_of_error {s : Stream ch} {e : String} (h : .error e ∈ s.writes.take 2) (c : Command) :
    ∃ rest, ∀ cmd, utf8 cmd ≠ [] →
      (writeCommand s c cmd).result = .error (transport ("write " ++ cmd ++ rest)) := by
  obtain ⟨reader, writes⟩ := s
  match writes with
  | .error e' :: writes =>
    refine ⟨": " ++ e', fun cmd hcmd => ?_⟩
    have hfirst : ((⟨reader, .error e' :: writes⟩ : Stream ch).writeAll c (utf8 cmd) s!"write {cmd}").result =
        .error (transport ("write " ++ cmd ++ (": " ++ e'))) := by
      unfold Stream.writeAll
      rw [if_neg hcmd, ← String.append_assoc]
      rfl
    unfold writeCommand
    rw [Traced.bind_error hfirst]
  | .ok () :: .error e' :: writes =>
    refine ⟨" trailer" ++ (": " ++ e'), fun cmd hcmd => ?_⟩
    have hfirst : ((⟨reader, .ok () :: .error e' :: writes⟩ : Stream ch).writeAll c (utf8 cmd)
        s!"write {cmd}").result = .ok ⟨reader, .error e' :: writes⟩ :=
      (writeAll_eq_ok hcmd).2 ⟨nofun, rfl⟩
    unfold writeCommand
    rw [Traced.bind_ok hfirst]
    unfold Stream.writeAll
    rw [if_neg (by decide), ← String.append_assoc, ← String.append_assoc]
    rfl
  | [] => cases h
  | [.ok ()] =>
    rcases List.mem_cons.1 h with h | h
    · cases h
    · cases h
  | .ok () :: .ok () :: writes =>
    rcases List.mem_cons.1 h with h | h
    · cases h
    · cases List.mem_singleton.1 h

theorem head?_ne_of_take {α : Type} {l : List α} {x : α} {n : Nat} (h : x ∉ l.take (n + 1)) : l.head? ≠ some x := by
  cases l with
  | nil => nofun
  | cons y l =>
    intro he
    cases he
    exact h (List.mem_cons_self ..)

/-- When neither write fails, it makes no difference what the command is. -/
theorem writeCommand_of_not_error {s : Stream ch} (h : ∀ e, .error e ∉ s.writes.take 2) {c : Command} {cmd : String}
    (hcmd : utf8 cmd ≠ []) : (writeCommand s c cmd).result = .ok { s with writes := s.writes.drop 2 } := by
  obtain ⟨reader, writes⟩ := s
  have hsecond : ∀ e, writes.tail.head? ≠ some (.error e) := by
    intro e
    cases writes with
    | nil => nofun
    | cons w writes => exact head?_ne_of_take fun hm => h e (List.mem_cons_of_mem _ hm)
  have hfirst : ∀ e, writes.head? ≠ some (.error e) := fun e => head?_ne_of_take (h e)
  refine Traced.bind_ok_iff.2 ⟨⟨reader, writes.tail⟩, (writeAll_eq_ok hcmd).2 ⟨hfirst, rfl⟩, ?_⟩
  rw [List.drop_add_one_eq_tail_drop, List.drop_one]
  exact (writeAll_eq_ok (by decide)).2 ⟨hsecond, rfl⟩

/-! ## After AUTHENTICATE -/

/-- The part of the session after AUTHENTICATE is out, which is not given the password. -/
def afterAuthenticate (scriptName script : String) (tls : Stream .tls) : Session Unit := do
  let tls ← tls.expectOk .auth (fun reason => .auth s!"server BYE: {reason}")
  let tls ← tls.writeAll .putscript (utf8 (putscriptCommand scriptName script)) "PUTSCRIPT write"
  let tls ← tls.writeAll .putscript (utf8 script) "PUTSCRIPT body"
  let tls ← tls.writeAll .putscript (utf8 "\r\n") "PUTSCRIPT trailer"
  let tls ← tls.expectOk (fun reason => .protocol s!"PUTSCRIPT: {reason}")
    (fun reason => .protocol s!"server BYE: {reason}")
  let tls ← writeCommand tls .setactive (setactiveCommand scriptName)
  let tls ← tls.expectOk (fun reason => .protocol s!"SETACTIVE: {reason}")
    (fun reason => .protocol s!"server BYE: {reason}")
  (tls.writeAll .logout (utf8 "LOGOUT\r\n") "LOGOUT write").ignore

theorem putActiveScript_split (peer : Peer) (cfg : AccountConfig) (password scriptName script : String) :
    putActiveScript peer cfg password scriptName script =
      untilGreeted peer cfg >>= fun s =>
        writeCommand s .authenticate (authenticateCommand cfg password) >>= afterAuthenticate scriptName script := by
  unfold putActiveScript untilGreeted installScript afterAuthenticate
  simp only [Traced.bind_assoc]

/-! ## Two passwords -/

/-- Without a break at AUTHENTICATE the results are equal. -/
theorem result_eq_of_not_breaks (h : ¬ BreaksAuthenticate peer cfg) (password' : String) :
    (putActiveScript peer cfg password scriptName script).result =
      (putActiveScript peer cfg password' scriptName script).result := by
  rw [putActiveScript_split, putActiveScript_split]
  cases hs : (untilGreeted peer cfg).result with
  | error x => rw [Traced.bind_error hs, Traced.bind_error hs]
  | ok s =>
    have hno : ∀ e, .error e ∉ s.writes.take 2 := fun e he => h (breaksAuthenticate_iff.2 ⟨s, hs, e, he⟩)
    have hwrite : ∀ password, (writeCommand s .authenticate (authenticateCommand cfg password)).result =
        .ok { s with writes := s.writes.drop 2 } :=
      fun password => writeCommand_of_not_error hno (authenticateCommand_ne_nil cfg password)
    rw [Traced.bind_ok hs, Traced.bind_ok hs, Traced.bind_ok (hwrite password), Traced.bind_ok (hwrite password')]

/-- With a break at AUTHENTICATE the text of the error tells the passwords apart. -/
theorem result_of_breaks (h : BreaksAuthenticate peer cfg) : ∃ rest, ∀ password,
    (putActiveScript peer cfg password scriptName script).result =
      .error (transport ("write " ++ authenticateCommand cfg password ++ rest)) := by
  obtain ⟨s, hs, e, he⟩ := breaksAuthenticate_iff.1 h
  obtain ⟨rest, hrest⟩ := writeCommand_of_error he .authenticate
  refine ⟨rest, fun password => ?_⟩
  rw [putActiveScript_split, Traced.bind_ok hs,
    Traced.bind_error (hrest _ (authenticateCommand_ne_nil cfg password))]

theorem password_eq_of_result {password' : String} (h : BreaksAuthenticate peer cfg)
    (hr : (putActiveScript peer cfg password scriptName script).result =
      (putActiveScript peer cfg password' scriptName script).result) : password = password' := by
  obtain ⟨rest, hrest⟩ := result_of_breaks h
  rw [hrest, hrest] at hr
  simp only [transport, Except.error.injEq, Failure.err.injEq, BackendError.transport.injEq] at hr
  exact authenticateCommand_inj (string_append_inj hr)

/-- Two sessions that differ in the password only return the same result exactly when the passwords are
the same or the connection does not break while AUTHENTICATE is written. -/
theorem result_eq_iff (peer : Peer) (cfg : AccountConfig) (scriptName script password password' : String) :
    (putActiveScript peer cfg password scriptName script).result =
      (putActiveScript peer cfg password' scriptName script).result ↔
    password = password' ∨ ¬ BreaksAuthenticate peer cfg := by
  constructor
  · intro hr
    by_cases h : BreaksAuthenticate peer cfg
    · exact .inl (password_eq_of_result h hr)
    · exact .inr h
  · rintro (rfl | h)
    · rfl
    · exact result_eq_of_not_breaks h password'

/-- A server whose TLS connection is reset when AUTHENTICATE is written. -/
def resetPeer : Peer where
  connect _ _ := .ok ⟨[.data 79 (utf8 "K\r\nOK\r\n")], notUtf8, []⟩
  serverName _ := .ok ()
  handshake _ _ := .ok ⟨[.data 79 (utf8 "K\r\n")], notUtf8, [.error "connection reset"]⟩

def resetAccount : AccountConfig := ⟨"mail.example.org", 4190, "ops"⟩

theorem resetPeer_breaks : BreaksAuthenticate resetPeer resetAccount := by
  refine ⟨⟨[.data 79 (utf8 "K\r\n")], notUtf8, [.error "connection reset"]⟩, ?_, _, List.mem_singleton_self _⟩
  have hgreeting : (⟨[], [.data 79 (utf8 "K\r\nOK\r\n")], notUtf8⟩ : BufReader).pending =
      utf8 "OK\r\n" ++ utf8 "OK\r\n" := by decide
  obtain ⟨greeted, hgreeted, hp⟩ := readResponse_framed framed_ok hgreeting
  have hreply : greeted.pending = utf8 "OK\r\n" ++ [] := by rw [hp, List.append_nil]
  obtain ⟨answered, hanswered, -⟩ := readResponse_framed framed_ok hreply
  have hinner : (⟨[], [.data 79 (utf8 "K\r\n")], notUtf8⟩ : BufReader).pending = utf8 "OK\r\n" ++ [] := by decide
  obtain ⟨inside, hinside, -⟩ := readResponse_framed framed_ok hinner
  exact ⟨_, greeted, answered, inside, rfl, hgreeted, nofun, hanswered, rfl, rfl, hinside⟩

/-- The two errors differ, so they tell which password it was. -/
theorem reset_reveals_password :
    (putActiveScript resetPeer resetAccount "hunter2" "thundercrab" "keep;").result ≠
      (putActiveScript resetPeer resetAccount "hunter3" "thundercrab" "keep;").result := by
  intro h
  exact absurd (password_eq_of_result resetPeer_breaks h) (by decide)

end Sieve

end Thundercrab
