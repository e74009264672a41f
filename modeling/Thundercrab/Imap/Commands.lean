/-
`managesieve.rs`, the writing half, as a server reads it by the grammar of RFC 5804: what a session
writes after AUTHENTICATE is read as PUTSCRIPT, SETACTIVE and LOGOUT with the name and the script it
was given, whatever the script is, unless the name has a line break or a NUL. `escape_quoted` leaves
these as they are, and no quoted string may have them.
-/
import Thundercrab.Imap.SessionOrder
import Thundercrab.Lib.WireString

namespace Thundercrab

open Lib Lib.BufReader

namespace Sieve

variable {ch : Channel} {cfg : AccountConfig} {password scriptName script : String} {peer : Peer}

/-! ## The server -/

inductive ClientCommand where
  | putscript (name : String) (script : Bytes)
  | setactive (name : String)
  | logout
  deriving DecidableEq

/-- A string whose octets are those of a text. -/
def readName (b : Bytes) : Option (String × Bytes) :=
  match readString b with
  | some (octets, b) => (ofUtf8? octets).map fun name => (name, b)
  | none => none

/-- What follows each command's word. -/
def readPutscript (b : Bytes) : Option (ClientCommand × Bytes) := do
  let b ← skip (utf8 " ") b
  let (name, b) ← readName b
  let b ← skip (utf8 " ") b
  let (script, b) ← readString b
  let b ← skip (utf8 "\r\n") b
  some (.putscript name script, b)

def readSetactive (b : Bytes) : Option (ClientCommand × Bytes) := do
  let b ← skip (utf8 " ") b
  let (name, b) ← readName b
  let b ← skip (utf8 "\r\n") b
  some (.setactive name, b)

def readLogout (b : Bytes) : Option (ClientCommand × Bytes) := do
  let b ← skip (utf8 "\r\n") b
  some (.logout, b)

/-- One command, by its word in either case. -/
def readCommand (b : Bytes) : Option (ClientCommand × Bytes) :=
  let (word, b) := readWhile Char.isAlpha b
  let word := String.ofList (word.map Char.toUpper)
  if word = "PUTSCRIPT" then readPutscript b
  else if word = "SETACTIVE" then readSetactive b
  else if word = "LOGOUT" then readLogout b
  else none

/-- The octets are these commands one after another, and nothing else. -/
inductive ReadAs : Bytes → List ClientCommand → Prop where
  | done : ReadAs [] []
  | command {b rest : Bytes} {c : ClientCommand} {cs : List ClientCommand} :
      readCommand b = some (c, rest) → ReadAs rest cs → ReadAs b (c :: cs)

/-! ## Reading what is written -/

theorem escapeQuoted_cons (c : Char) (cs : List Char) : escapeQuoted (String.ofList (c :: cs)) =
    escapeQuoted (String.ofList [c]) ++ escapeQuoted (String.ofList cs) := by
  unfold escapeQuoted
  rw [String.toList_ofList, String.toList_ofList, String.toList_ofList, ← String.ofList_append, ← List.flatMap_append]
  rfl

/-- `escape_quoted` puts a backslash before each octet that needs one. -/
theorem utf8_escapeQuoted (s : String) : utf8 (escapeQuoted s) = quoteOctets (utf8 s) := by
  have hchar : ∀ c : Char, utf8 (escapeQuoted (String.ofList [c])) = quoteOctets (utf8 (String.ofList [c])) := by
    intro c
    rw [utf8_ofList, List.flatMap_singleton]
    unfold escapeQuoted
    rw [String.toList_ofList, List.flatMap_singleton]
    split
    · decide
    · decide
    · rename_i hquote hback
      -- No octet of another character is a quote or a backslash.
      rw [utf8_ofList, List.flatMap_singleton]
      refine ((List.flatMap_congr fun n hn => if_neg ?_).trans (List.flatMap_singleton' _)).symm
      rintro (rfl | rfl)
      · exact hquote (Char.toNat_inj.1 (toNat_of_mem_utf8EncodeChar (by decide) hn))
      · exact hback (Char.toNat_inj.1 (toNat_of_mem_utf8EncodeChar (by decide) hn))
  have hall : ∀ cs : List Char, utf8 (escapeQuoted (String.ofList cs)) = quoteOctets (utf8 (String.ofList cs)) := by
    intro cs
    induction cs with
    | nil => rfl
    | cons c cs ih =>
      have hcons : utf8 (String.ofList (c :: cs)) = utf8 (String.ofList [c]) ++ utf8 (String.ofList cs) := by
        rw [← utf8_append, ← String.ofList_append, List.singleton_append]
      rw [escapeQuoted_cons, utf8_append, hchar, ih, hcons]
      exact List.flatMap_append.symm
  have := hall s.toList
  rwa [String.ofList_toList] at this

theorem quotable_utf8 {s : String} : Quotable (utf8 s) ↔ ∀ c ∈ s.toList, c ∉ ['\r', '\n', '\x00'] := by
  have hmem : ∀ c : Char, c.toNat < 128 → (UInt8.ofNat c.toNat ∈ utf8 s ↔ c ∈ s.toList) := by
    intro c hc
    constructor
    · intro h
      rw [← String.ofList_toList (s := s)] at h
      exact mem_of_mem_utf8 hc h
    · intro h
      rw [← String.ofList_toList (s := s), utf8_ofList]
      exact List.mem_flatMap.2 ⟨c, h, by rw [utf8EncodeChar_ascii hc]; exact List.mem_singleton_self _⟩
  have hr := hmem '\r' (by decide)
  have hn := hmem '\n' (by decide)
  have hz := hmem '\x00' (by decide)
  constructor
  · intro h c hc hbad
    simp only [List.mem_cons, List.not_mem_nil, or_false] at hbad
    rcases hbad with rfl | rfl | rfl
    · exact h 13 (hr.2 hc) (.inl rfl)
    · exact h 10 (hn.2 hc) (.inr (.inl rfl))
    · exact h 0 (hz.2 hc) (.inr (.inr rfl))
  · rintro h n hmem (rfl | rfl | rfl)
    · exact h '\r' (hr.1 hmem) (by decide)
    · exact h '\n' (hn.1 hmem) (by decide)
    · exact h '\x00' (hz.1 hmem) (by decide)

/-- A name in quotes is read as itself, or not at all. -/
theorem readName_quoted (name : String) (rest : Bytes) :
    readName (utf8 ("\"" ++ escapeQuoted name ++ "\"") ++ rest) =
      if Quotable (utf8 name) then some (name, rest) else none := by
  have hoctets : utf8 ("\"" ++ escapeQuoted name ++ "\"") ++ rest = 34 :: (quoteOctets (utf8 name) ++ 34 :: rest) := by
    rw [utf8_append, utf8_append, utf8_escapeQuoted, List.append_assoc, List.append_assoc]
    rfl
  unfold readName
  rw [hoctets, readString_quote]
  by_cases h : Quotable (utf8 name)
  · rw [readQuoted_quoteOctets rest h, if_pos h]
    simp only [ofUtf8_utf8, Option.map_some]
  · rw [readQuoted_of_not_quotable rest h, if_neg h]

/-- Past a word of letters. -/
theorem readCommand_word {word : String} (hword : ∀ c ∈ word.toList, c.toNat < 128 ∧ c.isAlpha = true) {n : UInt8}
    (hn : (asciiChar n).isAlpha = false) (rest : Bytes) : readCommand (utf8 word ++ n :: rest) =
      let word := String.ofList (word.toList.map Char.toUpper)
      if word = "PUTSCRIPT" then readPutscript (n :: rest)
      else if word = "SETACTIVE" then readSetactive (n :: rest)
      else if word = "LOGOUT" then readLogout (n :: rest)
      else none := by
  have hread := readWhile_append hword hn rest
  rw [String.ofList_toList] at hread
  unfold readCommand
  rw [hread]

theorem readCommand_putscript (name script : String) (rest : Bytes) :
    readCommand (utf8 (putscriptCommand name script) ++ (utf8 script ++ (utf8 "\r\n" ++ rest))) =
      if Quotable (utf8 name) then some (.putscript name (utf8 script), rest) else none := by
  have hsplit : putscriptCommand name script = "PUTSCRIPT" ++ (" " ++ (("\"" ++ escapeQuoted name ++ "\"") ++
      (" " ++ ("\x7b" ++ (toString (utf8 script).length ++ "+\x7d\r\n"))))) := by
    unfold putscriptCommand
    simp only [String.append_assoc]
    rfl
  have hoctets : utf8 (putscriptCommand name script) ++ (utf8 script ++ (utf8 "\r\n" ++ rest)) =
      utf8 "PUTSCRIPT" ++ (utf8 " " ++ (utf8 ("\"" ++ escapeQuoted name ++ "\"") ++ (utf8 " " ++ (utf8 "\x7b" ++
        (utf8 (toString (utf8 script).length) ++ (utf8 "+\x7d\r\n" ++ (utf8 script ++ (utf8 "\r\n" ++ rest)))))))) := by
    rw [hsplit]
    generalize "\"" ++ escapeQuoted name ++ "\"" = quoted
    simp only [utf8_append, List.append_assoc]
  have hbrace : ∀ b, utf8 "\x7b" ++ b = 123 :: b := fun _ => rfl
  rw [hoctets]
  refine (readCommand_word (by simp) (n := 32) (by decide) _).trans ?_
  refine (if_pos (by decide)).trans ?_
  unfold readPutscript
  rw [show ∀ b : Bytes, 32 :: b = utf8 " " ++ b from fun _ => rfl]
  simp only [Option.bind_eq_bind, skip_append, Option.bind_some, List.append_eq, List.nil_append, readName_quoted]
  by_cases h : Quotable (utf8 name)
  · rw [if_pos h, if_pos h]
    simp only [Option.bind_some, skip_append, hbrace, readString_brace, readLiteral_octets]
  · rw [if_neg h, if_neg h, Option.bind_none]

theorem readCommand_setactive (name : String) (rest : Bytes) :
    readCommand (utf8 (setactiveCommand name) ++ (utf8 "\r\n" ++ rest)) =
      if Quotable (utf8 name) then some (.setactive name, rest) else none := by
  have hsplit : setactiveCommand name = "SETACTIVE" ++ (" " ++ ("\"" ++ escapeQuoted name ++ "\"")) := by
    unfold setactiveCommand
    simp only [String.append_assoc]
    rfl
  have hoctets : utf8 (setactiveCommand name) ++ (utf8 "\r\n" ++ rest) =
      utf8 "SETACTIVE" ++ (utf8 " " ++ (utf8 ("\"" ++ escapeQuoted name ++ "\"") ++ (utf8 "\r\n" ++ rest))) := by
    rw [hsplit]
    generalize "\"" ++ escapeQuoted name ++ "\"" = quoted
    simp only [utf8_append, List.append_assoc]
  rw [hoctets]
  refine (readCommand_word (by simp) (n := 32) (by decide) _).trans ?_
  refine (if_neg (by decide)).trans ((if_pos (by decide)).trans ?_)
  unfold readSetactive
  rw [show ∀ b : Bytes, 32 :: b = utf8 " " ++ b from fun _ => rfl]
  simp only [Option.bind_eq_bind, skip_append, Option.bind_some, List.append_eq, List.nil_append, readName_quoted]
  by_cases h : Quotable (utf8 name)
  · rw [if_pos h, if_pos h]
    simp only [Option.bind_some, skip_append]
  · rw [if_neg h, if_neg h, Option.bind_none]

theorem readCommand_logout (rest : Bytes) : readCommand (utf8 "LOGOUT\r\n" ++ rest) = some (.logout, rest) := by
  have hoctets : utf8 "LOGOUT\r\n" ++ rest = utf8 "LOGOUT" ++ (utf8 "\r\n" ++ rest) := rfl
  rw [hoctets]
  refine (readCommand_word (by simp) (n := 13) (by decide) (10 :: rest)).trans ?_
  refine (if_neg (by decide)).trans ((if_neg (by decide)).trans ((if_pos (by decide)).trans ?_))
  unfold readLogout
  rw [show (13 :: 10 :: rest : Bytes) = utf8 "\r\n" ++ rest from rfl, skip_append]
  rfl

/-! ## What a session writes -/

/-- Every step is done or answered OK, up to LOGOUT. -/
def Completed (peer : Peer) (cfg : AccountConfig) (password scriptName script : String) : Prop :=
  ∀ e ∈ trace peer cfg password scriptName script, e.Good

/-- The octets of a write that is done. -/
def Event.written : Event → Bytes
  | .write _ _ b (.ok ()) => b
  | _ => []

def Event.isAuthenticate : Event → Bool
  | .write _ .authenticate _ _ => true
  | _ => false

/-- What is written after the last octet of AUTHENTICATE. -/
def writtenAfterAuthenticate (t : List Event) : Bytes :=
  (t.rtakeWhile fun e => !e.isAuthenticate).flatMap Event.written

/-- The same of steps that are all done. -/
def Step.written : Step → Bytes
  | .write _ _ b => b
  | _ => []

def Step.isAuthenticate : Step → Bool
  | .write _ .authenticate _ => true
  | _ => false

theorem Event.Good.written {e : Event} (h : e.Good) : e.written = e.step.written := by
  cases e with
  | write ch c b r =>
    cases h
    rfl
  | _ => rfl

theorem isAuthenticate_step (e : Event) : e.step.isAuthenticate = e.isAuthenticate := by
  cases e with
  | write ch c b r => cases c <;> rfl
  | _ => rfl

/-- A session whose every step is done takes all of them. -/
theorem Completed.steps (h : Completed peer cfg password scriptName script) :
    (trace peer cfg password scriptName script).map Event.step = sessionOrder cfg password scriptName script := by
  have hf := follows_untilSetactive cfg password scriptName script peer
  unfold Completed at h
  rw [trace, putActiveScript_eq] at h ⊢
  cases hr : (startTls peer cfg >>= installScript cfg password scriptName script).result with
  | error x =>
    rw [Traced.bind_error hr] at h
    obtain ⟨p, e, ht, -, -, hbad⟩ := hf.error x hr
    exact absurd (h e (by simp [ht])) hbad
  | ok tls =>
    obtain ⟨hs, -⟩ := hf.ok tls hr
    obtain ⟨e, he, hstep⟩ := trace_logout tls
    rw [Traced.bind_ok hr]
    simp only [Traced.ignore, he, List.map_append, List.map_singleton, hs, hstep]
    rfl

theorem Completed.written (h : Completed peer cfg password scriptName script) :
    writtenAfterAuthenticate (trace peer cfg password scriptName script) =
      utf8 (putscriptCommand scriptName script) ++ (utf8 script ++ (utf8 "\r\n" ++
        (utf8 (setactiveCommand scriptName) ++ (utf8 "\r\n" ++ utf8 "LOGOUT\r\n")))) := by
  have hsteps : ∀ t : List Event, (∀ e ∈ t, e.Good) → writtenAfterAuthenticate t =
      ((t.map Event.step).rtakeWhile fun s => !s.isAuthenticate).flatMap Step.written := by
    intro t ht
    have hmap : (t.map Event.step).rtakeWhile (fun s => !s.isAuthenticate) =
        (t.rtakeWhile fun e => !e.isAuthenticate).map Event.step := by
      unfold List.rtakeWhile
      rw [← List.map_reverse, List.takeWhile_map, List.map_reverse]
      congr 3
      funext e
      exact congrArg (!·) (isAuthenticate_step e)
    rw [hmap, List.flatMap_map]
    refine List.flatMap_congr fun e he => (ht e ?_).written
    exact List.mem_reverse.1 ((List.takeWhile_sublist _).subset (List.mem_reverse.1 he))
  rw [hsteps _ h, h.steps]
  simp [sessionOrder, tlsOrder, installOrder, List.rtakeWhile, Step.isAuthenticate, Step.written]

/-- What a session of these steps writes is read as its commands exactly when the name can be quoted. -/
theorem readAs_iff (name script : String) :
    ReadAs (utf8 (putscriptCommand name script) ++ (utf8 script ++ (utf8 "\r\n" ++
        (utf8 (setactiveCommand name) ++ (utf8 "\r\n" ++ utf8 "LOGOUT\r\n")))))
      [.putscript name (utf8 script), .setactive name, .logout] ↔ ∀ c ∈ name.toList, c ∉ ['\r', '\n', '\x00'] := by
  rw [← quotable_utf8]
  constructor
  · intro h
    by_contra hno
    cases h with
    | command hread =>
      rw [readCommand_putscript, if_neg hno] at hread
      cases hread
  · intro h
    have hlogout := readCommand_logout []
    rw [List.append_nil] at hlogout
    have hputscript := readCommand_putscript name script (utf8 (setactiveCommand name) ++
      (utf8 "\r\n" ++ utf8 "LOGOUT\r\n"))
    have hsetactive := readCommand_setactive name (utf8 "LOGOUT\r\n")
    rw [if_pos h] at hputscript hsetactive
    exact .command hputscript (.command hsetactive (.command hlogout .done))

/-- What a completed session writes after AUTHENTICATE is read as PUTSCRIPT, SETACTIVE and LOGOUT, with
the name and the script as they were given, exactly when the name has no line break and no NUL. -/
theorem putActiveScript_read_iff (peer : Peer) (cfg : AccountConfig) (password scriptName script : String)
    (h : Completed peer cfg password scriptName script) :
    ReadAs (writtenAfterAuthenticate (trace peer cfg password scriptName script))
        [.putscript scriptName (utf8 script), .setactive scriptName, .logout] ↔
      ∀ c ∈ scriptName.toList, c ∉ ['\r', '\n', '\x00'] := by
  rw [h.written]
  exact readAs_iff scriptName script

/-! ### A server that accepts everything -/

def acceptingTcp : Link := ⟨[.data 79 (utf8 "K\r\nOK\r\n")], notUtf8, []⟩

def acceptingTls : Link := ⟨[.data 79 (utf8 "K\r\nOK\r\nOK\r\nOK\r\n")], notUtf8, []⟩

def acceptingPeer : Peer where
  connect _ _ := .ok acceptingTcp
  serverName _ := .ok ()
  handshake _ _ := .ok acceptingTls

def sampleAccount : AccountConfig := ⟨"mail.example.org", 4190, "ops"⟩

/-- So many more replies are OK, and no write fails. -/
def Accepting (n : Nat) (s : Stream ch) : Prop :=
  s.reader.pending = (List.replicate n (utf8 "OK\r\n")).flatten ∧ s.writes = []

theorem Accepting.expectOk {n : Nat} {s : Stream ch} (h : Accepting (n + 1) s) :
    ∃ s', Accepting n s' ∧ ∀ no bye, (s.expectOk no bye).result = .ok s' := by
  obtain ⟨hp, hw⟩ := h
  rw [List.replicate_succ, List.flatten_cons] at hp
  obtain ⟨reader, hread, hp'⟩ := readResponse_framed framed_ok hp
  exact ⟨{ s with reader }, ⟨hp', hw⟩, fun no bye => expectOk_eq_ok.2 ⟨reader, hread, rfl⟩⟩

theorem Accepting.writeAll {n : Nat} {s : Stream ch} (h : Accepting n s) (c : Command) (b : Bytes) (context : String) :
    s.writeAll c b context = ⟨.ok s, [.write ch c b (.ok ())]⟩ := by
  unfold Stream.writeAll
  rw [h.2]
  split <;> rfl

theorem Accepting.writeAll_ok {n : Nat} {s : Stream ch} (h : Accepting n s) (c : Command) (b : Bytes)
    (context : String) : (s.writeAll c b context).result = .ok s := by rw [h.writeAll]

theorem Accepting.writeCommand_ok {n : Nat} {s : Stream ch} (h : Accepting n s) (c : Command) (cmd : String) :
    (writeCommand s c cmd).result = .ok s :=
  Traced.bind_ok_iff.2 ⟨s, h.writeAll_ok .., h.writeAll_ok ..⟩

theorem acceptingPeer_installs (scriptName script : String) :
    ∃ s, Accepting 0 s ∧ (startTls acceptingPeer sampleAccount >>=
      installScript sampleAccount "hunter2" scriptName script).result = .ok s := by
  have hplain : Accepting 2 (Stream.new .plain acceptingTcp) := ⟨by decide, rfl⟩
  have htls : Accepting 4 (Stream.new .tls acceptingTls) := ⟨by decide, rfl⟩
  obtain ⟨p1, a1, greeted⟩ := hplain.expectOk
  obtain ⟨p2, -, answered⟩ := a1.expectOk
  obtain ⟨s1, b1, inside⟩ := htls.expectOk
  obtain ⟨s2, b2, authenticated⟩ := b1.expectOk
  obtain ⟨s3, b3, stored⟩ := b2.expectOk
  obtain ⟨s4, b4, active⟩ := b3.expectOk
  refine ⟨s4, b4, Traced.bind_ok_iff.2 ⟨acceptingTls, ?_, ?_⟩⟩
  · refine Traced.bind_ok_iff.2 ⟨acceptingTcp, connect_eq_ok.2 rfl, ?_⟩
    refine Traced.bind_ok_iff.2 ⟨p1, greeted _ _, ?_⟩
    refine Traced.bind_ok_iff.2 ⟨p1, a1.writeAll_ok .., ?_⟩
    refine Traced.bind_ok_iff.2 ⟨p2, answered _ _, ?_⟩
    exact upgrade_eq_ok.2 ⟨rfl, rfl⟩
  · refine Traced.bind_ok_iff.2 ⟨s1, inside _ _, ?_⟩
    refine Traced.bind_ok_iff.2 ⟨s1, b1.writeCommand_ok .., ?_⟩
    refine Traced.bind_ok_iff.2 ⟨s2, authenticated _ _, ?_⟩
    refine Traced.bind_ok_iff.2 ⟨s2, b2.writeAll_ok .., ?_⟩
    refine Traced.bind_ok_iff.2 ⟨s2, b2.writeAll_ok .., ?_⟩
    refine Traced.bind_ok_iff.2 ⟨s2, b2.writeAll_ok .., ?_⟩
    refine Traced.bind_ok_iff.2 ⟨s3, stored _ _, ?_⟩
    refine Traced.bind_ok_iff.2 ⟨s3, b3.writeCommand_ok .., ?_⟩
    exact active _ _

theorem acceptingPeer_completed (scriptName script : String) :
    Completed acceptingPeer sampleAccount "hunter2" scriptName script := by
  obtain ⟨s, hs, hok⟩ := acceptingPeer_installs scriptName script
  obtain ⟨-, hgood⟩ := (follows_untilSetactive sampleAccount "hunter2" scriptName script acceptingPeer).ok s hok
  unfold Completed
  rw [trace, putActiveScript_eq, Traced.bind_ok hok, hs.writeAll]
  intro e he
  rcases List.mem_append.1 he with he | he
  · exact hgood e he
  · cases List.mem_singleton.1 he
    rfl

/-- A name with a quote and a backslash, and a script with a line that looks like a command. -/
theorem quotedName_read : ReadAs (writtenAfterAuthenticate
      (trace acceptingPeer sampleAccount "hunter2" "é\\\"" "keep;\r\nLOGOUT\r\n"))
    [.putscript "é\\\"" (utf8 "keep;\r\nLOGOUT\r\n"), .setactive "é\\\"", .logout] :=
  (putActiveScript_read_iff acceptingPeer sampleAccount "hunter2" "é\\\"" "keep;\r\nLOGOUT\r\n"
    (acceptingPeer_completed _ _)).2 (by simp)

/-- A line break in the name ends the command. -/
theorem brokenName_not_read : Completed acceptingPeer sampleAccount "hunter2" "a\r\nb" "keep;" ∧
    ¬ ReadAs (writtenAfterAuthenticate (trace acceptingPeer sampleAccount "hunter2" "a\r\nb" "keep;"))
      [.putscript "a\r\nb" (utf8 "keep;"), .setactive "a\r\nb", .logout] := by
  have h := acceptingPeer_completed "a\r\nb" "keep;"
  refine ⟨h, ?_⟩
  rw [h.written, readAs_iff]
  simp

end Sieve

end Thundercrab
