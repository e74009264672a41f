/-
`put_active_script` against a server that keeps scripts. The octets a session writes after AUTHENTICATE
may be cut anywhere, in the middle of a command or of the script, and so may the answers; each command
may be refused. The server reads the commands that have reached it whole and carries them out in turn.
Whatever fails, mail is then filtered by the script that was in force before or by the new one, all of
it, and the session reports success only where it is the new one.
-/
import Mathlib.Data.List.Infix
import Thundercrab.Imap.Commands
import Thundercrab.Imap.CutShort

namespace Thundercrab

open Lib Lib.BufReader

namespace Sieve

/-! ## The server's scripts -/

/-- The scripts kept for an account, by their names, and the name of the active one. -/
structure Scripts where
  bodies : String → Option Bytes
  active : Option String

/-- The script that mail is filtered by. -/
def Scripts.inForce (s : Scripts) : Option Bytes := s.active.bind s.bodies

/-- What a command does, where it can be carried out: no script is stored without a name, and SETACTIVE
without a name leaves no script active. -/
def Scripts.exec (s : Scripts) : ClientCommand → Option Scripts
  | .putscript name script =>
    if name = "" then none else some { s with bodies := Function.update s.bodies name (some script) }
  | .setactive name =>
    if name = "" then some { s with active := none }
    else if (s.bodies name).isSome then some { s with active := some name }
    else none
  | .logout => some s

/-- Each command that has arrived whole is carried out and answered OK, or it is refused, for a reason of
the server's own or because it cannot be carried out. Nothing is done about the front of a command. -/
inductive Serves : Scripts → Bytes → Scripts → List Kind → Prop where
  | waits {s : Scripts} {b : Bytes} : readCommand b = none → Serves s b s []
  | carriesOut {s s₁ s' : Scripts} {b rest : Bytes} {c : ClientCommand} {ks : List Kind} :
      readCommand b = some (c, rest) → s.exec c = some s₁ → Serves s₁ rest s' ks → Serves s b s' (.ok :: ks)
  | refuses {s s' : Scripts} {b rest : Bytes} {c : ClientCommand} {k : Kind} {ks : List Kind} :
      readCommand b = some (c, rest) → k ≠ .ok → Serves s rest s' ks → Serves s b s' (k :: ks)

/-! ## The front of a command -/

theorem readName_more (more : Bytes) {b rest : Bytes} {name : String} (h : readName b = some (name, rest)) :
    readName (b ++ more) = some (name, rest ++ more) := by
  unfold readName at h ⊢
  cases hs : readString b with
  | none =>
    rw [hs] at h
    cases h
  | some r =>
    obtain ⟨octets, b'⟩ := r
    rw [hs] at h
    obtain ⟨n, hn, h⟩ := Option.map_eq_some_iff.1 h
    cases h
    simp only [readString_more more hs, hn, Option.map_some]

variable {c : ClientCommand} {b rest : Bytes}

theorem readPutscript_more (more : Bytes) (h : readPutscript b = some (c, rest)) :
    readPutscript (b ++ more) = some (c, rest ++ more) := by
  unfold readPutscript at h ⊢
  simp only [Option.bind_eq_bind, Option.bind_eq_some_iff] at h
  obtain ⟨b₁, h₁, ⟨name, b₂⟩, h₂, b₃, h₃, ⟨script, b₄⟩, h₄, b₅, h₅, h⟩ := h
  cases h
  simp only [Option.bind_eq_bind, Option.bind_some, skip_more more h₁, readName_more more h₂, skip_more more h₃,
    readString_more more h₄, skip_more more h₅]

theorem readSetactive_more (more : Bytes) (h : readSetactive b = some (c, rest)) :
    readSetactive (b ++ more) = some (c, rest ++ more) := by
  unfold readSetactive at h ⊢
  simp only [Option.bind_eq_bind, Option.bind_eq_some_iff] at h
  obtain ⟨b₁, h₁, ⟨name, b₂⟩, h₂, b₃, h₃, h⟩ := h
  cases h
  simp only [Option.bind_eq_bind, Option.bind_some, skip_more more h₁, readName_more more h₂, skip_more more h₃]

theorem readLogout_more (more : Bytes) (h : readLogout b = some (c, rest)) :
    readLogout (b ++ more) = some (c, rest ++ more) := by
  unfold readLogout at h ⊢
  simp only [Option.bind_eq_bind, Option.bind_eq_some_iff] at h
  obtain ⟨b₁, h₁, h⟩ := h
  cases h
  simp only [Option.bind_eq_bind, Option.bind_some, skip_more more h₁]

/-- A command that was read is read the same with more octets after it. -/
theorem readCommand_more (more : Bytes) (h : readCommand b = some (c, rest)) :
    readCommand (b ++ more) = some (c, rest ++ more) := by
  unfold readCommand at h ⊢
  simp only at h ⊢
  have hne : (readWhile Char.isAlpha b).2 ≠ [] := by
    intro hnil
    rw [hnil] at h
    split at h
    · cases h
    · split at h
      · cases h
      · split at h <;> cases h
  rw [readWhile_more more hne]
  simp only
  split at h
  · rename_i hw
    rw [if_pos hw]
    exact readPutscript_more more h
  · rename_i hw
    rw [if_neg hw]
    split at h
    · rename_i hw
      rw [if_pos hw]
      exact readSetactive_more more h
    · rename_i hw
      rw [if_neg hw]
      split at h
      · rename_i hw
        rw [if_pos hw]
        exact readLogout_more more h
      · cases h

/-- The front of a command is no command. -/
theorem readCommand_cut {more : Bytes} (h : readCommand (b ++ more) = some (c, [])) (hmore : more ≠ []) :
    readCommand b = none := by
  cases hb : readCommand b with
  | none => rfl
  | some r =>
    obtain ⟨c', rest⟩ := r
    rw [readCommand_more more hb] at h
    exact absurd (List.append_eq_nil_iff.1 (Prod.mk.inj (Option.some.inj h)).2).2 hmore

/-! ## What reaches the server -/

/-- What a step puts out after AUTHENTICATE when it is done. -/
def Step.puts : Step → Bytes
  | .write .tls .authenticate _ => []
  | .write .tls _ b => b
  | _ => []

/-- What an event puts out: of a write that failed, some of its octets. -/
inductive Event.Puts : Event → Bytes → Prop where
  | done {e : Event} : e.Good → Puts e e.step.puts
  | failed {e : Event} {x : Bytes} : ¬ e.Good → x <+: e.step.puts → Puts e x

/-- Octets that have reached the server after AUTHENTICATE: what the session put out, or the front of it. -/
def Reaches (t : List Event) (received : Bytes) : Prop :=
  ∃ parts, List.Forall₂ Event.Puts t parts ∧ received <+: parts.flatten

theorem Event.Puts.of_good {e : Event} {x : Bytes} (h : e.Puts x) (hgood : e.Good) : x = e.step.puts := by
  cases h with
  | done _ => rfl
  | failed hbad _ => exact absurd hgood hbad

theorem Event.Puts.le {e : Event} {x : Bytes} (h : e.Puts x) : x <+: e.step.puts := by
  cases h with
  | done _ => exact List.prefix_refl _
  | failed _ hx => exact hx

theorem flatten_le_of_puts {t : List Event} {parts : List Bytes} (h : List.Forall₂ Event.Puts t parts)
    (hgood : ∀ p e q, t = p ++ e :: q → ∀ x ∈ p, x.Good) : parts.flatten <+: (t.map Event.step).flatMap Step.puts := by
  induction h with
  | nil => exact List.nil_prefix
  | @cons e x t parts hx h ih =>
    rw [List.flatten_cons, List.map_cons, List.flatMap_cons]
    cases h with
    | nil =>
      -- The last one may have failed.
      rw [List.flatten_nil, List.append_nil]
      exact hx.le.trans (List.prefix_append _ _)
    | @cons e' x' t parts hx' h =>
      rw [hx.of_good (hgood [e] e' t rfl e (List.mem_singleton_self e)), List.prefix_append_right_inj]
      refine ih fun p e₁ q ht y hy => ?_
      exact hgood (e :: p) e₁ q (by rw [ht, List.cons_append]) y (List.mem_cons_of_mem _ hy)

/-- What reaches the server of steps taken in order is the front of what they put out. -/
theorem Reaches.le {t : List Event} {received : Bytes} {order : List Step} (h : Reaches t received)
    (hsteps : t.map Event.step <+: order) (hgood : ∀ p e q, t = p ++ e :: q → ∀ x ∈ p, x.Good) :
    received <+: order.flatMap Step.puts := by
  obtain ⟨parts, hparts, hreceived⟩ := h
  exact hreceived.trans ((flatten_le_of_puts hparts hgood).trans (hsteps.flatMap Step.puts))

/-- PUTSCRIPT as it is written. -/
def putscriptOctets (scriptName script : String) : Bytes :=
  utf8 (putscriptCommand scriptName script) ++ (utf8 script ++ utf8 "\r\n")

/-- SETACTIVE as it is written. -/
def setactiveOctets (scriptName : String) : Bytes := utf8 (setactiveCommand scriptName) ++ utf8 "\r\n"

variable {cfg : AccountConfig} {password scriptName script : String} {peer : Peer} {received : Bytes}

theorem sessionOrder_puts (cfg : AccountConfig) (password scriptName script : String) :
    (sessionOrder cfg password scriptName script).flatMap Step.puts =
      putscriptOctets scriptName script ++ (setactiveOctets scriptName ++ utf8 "LOGOUT\r\n") := by
  simp [sessionOrder, tlsOrder, installOrder, Step.puts, putscriptOctets, setactiveOctets]

theorem ordered_steps {t : List Event} {order : List Step} (h : Traced.Ordered Event.step Event.Good order t) :
    t.map Event.step <+: order := by
  rcases List.eq_nil_or_concat t with rfl | ⟨p, e, rfl⟩
  · exact List.nil_prefix
  · rw [List.concat_eq_append] at h ⊢
    rw [List.map_append, List.map_singleton]
    exact (h p e [] rfl).1

/-- The steps up to the first write of SETACTIVE. -/
def untilActivation (cfg : AccountConfig) (password scriptName script : String) : List Step :=
  tlsOrder ++ (installOrder cfg password scriptName script).take 8

theorem untilActivation_puts (cfg : AccountConfig) (password scriptName script : String) :
    (untilActivation cfg password scriptName script).flatMap Step.puts = putscriptOctets scriptName script := by
  simp [untilActivation, tlsOrder, installOrder, Step.puts, putscriptOctets]

theorem reaches_le (h : Reaches (trace peer cfg password scriptName script) received) :
    received <+: putscriptOctets scriptName script ++ (setactiveOctets scriptName ++ utf8 "LOGOUT\r\n") := by
  have hordered := putActiveScript_ordered cfg password scriptName script peer
  rw [← sessionOrder_puts cfg password]
  exact h.le (ordered_steps hordered) fun p e q ht => (hordered p e q ht).2

/-- Some of SETACTIVE has been written. -/
def Activates (t : List Event) : Prop := ∃ b r, .write .tls .setactive b r ∈ t

theorem reaches_le_of_not_activates (h : Reaches (trace peer cfg password scriptName script) received)
    (hno : ¬ Activates (trace peer cfg password scriptName script)) :
    received <+: putscriptOctets scriptName script := by
  have hordered := putActiveScript_ordered cfg password scriptName script peer
  have hsteps : (trace peer cfg password scriptName script).map Event.step <+:
      untilActivation cfg password scriptName script := by
    obtain ⟨z, hz⟩ := ordered_steps hordered
    have hsplit : untilActivation cfg password scriptName script ++
        .write .tls .setactive (utf8 (setactiveCommand scriptName)) ::
          [.write .tls .setactive (utf8 "\r\n"), .reply .tls, .write .tls .logout (utf8 "LOGOUT\r\n")] =
        (trace peer cfg password scriptName script).map Event.step ++ z := hz.symm
    refine prefix_of_not_mem hsplit fun hm => hno ?_
    obtain ⟨e, he, hs⟩ := List.mem_map.1 hm
    cases e with
    | write ch c b r =>
      cases hs
      exact ⟨_, r, he⟩
    | _ => cases hs
  rw [← untilActivation_puts cfg password]
  exact h.le hsteps fun p e q ht => (hordered p e q ht).2

/-! ## What the client hears -/

/-- The kind of an answer read inside TLS. -/
def Event.heard : Event → Option Kind
  | .reply .tls (.ok resp) => some resp.kind
  | _ => none

/-- The stream brings these responses, or the front of them. -/
structure Brings (s : Stream .tls) (Rs : List ServerResponse) : Prop where
  plain : ∀ R ∈ Rs, Plain R
  pending : s.reader.pending <+: Responses Rs

/-- The answers heard are the first of these responses, and the stream that is left brings the others. -/
structure Hears (Rs : List ServerResponse) (m : Session (Stream .tls)) : Prop where
  ok : ∀ s, m.result = .ok s →
    ∃ first rest, Rs = first ++ rest ∧ m.trace.filterMap Event.heard = kinds first ∧ Brings s rest
  le : m.trace.filterMap Event.heard <+: kinds Rs

variable {Rs : List ServerResponse}

theorem Hears.bind {m : Session (Stream .tls)} {f : Stream .tls → Session (Stream .tls)} (hm : Hears Rs m)
    (hf : ∀ s Rs, Brings s Rs → Hears Rs (f s)) : Hears Rs (m >>= f) := by
  cases hr : m.result with
  | error x =>
    rw [Traced.bind_error hr]
    exact ⟨nofun, hm.le⟩
  | ok s =>
    rw [Traced.bind_ok hr]
    obtain ⟨first, rest, rfl, hfirst, hs⟩ := hm.ok s hr
    have hnext := hf s rest hs
    constructor
    · intro s' hr'
      obtain ⟨first', rest', rfl, hfirst', hs'⟩ := hnext.ok s' hr'
      refine ⟨first ++ first', rest', by rw [List.append_assoc], ?_, hs'⟩
      rw [List.filterMap_append, hfirst, hfirst', kinds, kinds, kinds, List.map_append]
    · rw [List.filterMap_append, hfirst, kinds, kinds, List.map_append, List.prefix_append_right_inj]
      exact hnext.le

theorem hears_writeAll {s : Stream .tls} (h : Brings s Rs) (c : Command) (b : Bytes) (context : String) :
    Hears Rs (s.writeAll c b context) := by
  have hsilent : ∀ r, [Event.write .tls c b r].filterMap Event.heard = [] := fun _ => rfl
  unfold Stream.writeAll
  split
  · exact ⟨fun s' hs' => ⟨[], Rs, rfl, rfl, Except.ok.inj hs' ▸ h⟩, List.nil_prefix⟩
  · split
    · exact ⟨fun s' hs' => ⟨[], Rs, rfl, rfl, Except.ok.inj hs' ▸ h⟩, List.nil_prefix⟩
    · exact ⟨fun s' hs' => ⟨[], Rs, rfl, rfl, Except.ok.inj hs' ▸ ⟨h.plain, h.pending⟩⟩, List.nil_prefix⟩
    · exact ⟨nofun, List.nil_prefix⟩

theorem hears_expectOk {s : Stream .tls} (h : Brings s Rs) (no bye : String → BackendError) :
    Hears Rs (s.expectOk no bye) := by
  have hread : ∀ resp reader, readResponse s.reader = (.ok resp, reader) →
      ∃ R rest, Rs = R :: rest ∧ resp.kind = R.final.kind ∧ Brings { s with reader } rest := by
    intro resp reader hread
    obtain ⟨hplain, hpending⟩ := h
    cases Rs with
    | nil => exact absurd hread (not_read_of_nil (List.prefix_nil.1 hpending))
    | cons R rest =>
      obtain ⟨hR, hrest⟩ := List.forall_mem_cons.1 hplain
      obtain ⟨hkind, hp⟩ := readResponse_cut hR hpending hread
      exact ⟨R, rest, rfl, hkind, hrest, hp⟩
  unfold Stream.expectOk
  split
  · rename_i reader hr
    obtain ⟨R, rest, rfl, hkind, hs⟩ := hread _ _ hr
    have hheard : [Event.reply .tls (.ok .ok)].filterMap Event.heard = kinds [R] := congrArg (fun k => [k]) hkind
    refine ⟨fun s' hs' => ⟨[R], rest, rfl, hheard, Except.ok.inj hs' ▸ hs⟩, ?_⟩
    rw [hheard]
    exact ⟨kinds rest, rfl⟩
  · rename_i reason reader hr
    obtain ⟨R, rest, rfl, hkind, -⟩ := hread _ _ hr
    exact ⟨nofun, kinds rest, congrArg (fun k => k :: kinds rest) hkind⟩
  · rename_i reason reader hr
    obtain ⟨R, rest, rfl, hkind, -⟩ := hread _ _ hr
    exact ⟨nofun, kinds rest, congrArg (fun k => k :: kinds rest) hkind⟩
  · exact ⟨nofun, List.nil_prefix⟩

theorem hears_writeCommand {s : Stream .tls} (h : Brings s Rs) (c : Command) (cmd : String) :
    Hears Rs (writeCommand s c cmd) :=
  (hears_writeAll h ..).bind fun _ _ h => hears_writeAll h ..

theorem hears_installScript {tls : Link} (h : Brings (Stream.new .tls tls) Rs) :
    Hears Rs (installScript cfg password scriptName script tls) :=
  (hears_expectOk h ..).bind fun _ _ h =>
  (hears_writeCommand h ..).bind fun _ _ h =>
  (hears_expectOk h ..).bind fun _ _ h =>
  (hears_writeAll h ..).bind fun _ _ h =>
  (hears_writeAll h ..).bind fun _ _ h =>
  (hears_writeAll h ..).bind fun _ _ h =>
  (hears_expectOk h ..).bind fun _ _ h =>
  (hears_writeCommand h ..).bind fun _ _ h =>
  hears_expectOk h ..

/-- The answer that a step in order waits for. -/
def Step.heard : Step → Option Kind
  | .reply .tls => some .ok
  | _ => none

theorem Event.Good.heard {e : Event} (h : e.Good) : e.heard = e.step.heard := by
  cases e with
  | reply ch r =>
    cases h
    cases ch <;> rfl
  | _ => rfl

theorem heard_of_steps {p t : List Event} {a : List Step} (hp : p <+: t) (hsteps : a <+: p.map Event.step)
    (hgood : ∀ e ∈ p, e.Good) : a.filterMap Step.heard <+: t.filterMap Event.heard := by
  have heq : p.filterMap Event.heard = (p.map Event.step).filterMap Step.heard := by
    rw [List.filterMap_map]
    exact List.filterMap_congr fun e he => (hgood e he).heard
  exact (hsteps.filterMap Step.heard).trans (heq ▸ hp.filterMap Event.heard)

theorem heard_of_activates (h : Activates (trace peer cfg password scriptName script)) :
    (∃ tls, .upgrade (.ok tls) ∈ trace peer cfg password scriptName script) ∧
      [.ok, .ok, .ok] <+: (trace peer cfg password scriptName script).filterMap Event.heard := by
  obtain ⟨b, r, hm⟩ := h
  obtain ⟨p, q, ht⟩ := List.append_of_mem hm
  obtain ⟨hsteps, hgood⟩ := before_step (a := untilActivation cfg password scriptName script) rfl ht
    (by simp [Event.step, untilActivation, tlsOrder, installOrder])
  have hprefix : p <+: trace peer cfg password scriptName script := ⟨_, ht.symm⟩
  have hgreeted : tlsOrder ++ [.reply .tls] <+: untilActivation cfg password scriptName script := ⟨_, rfl⟩
  obtain ⟨tls, hgreeted⟩ := greeted_of_steps (hgreeted.trans hsteps) hgood
  exact ⟨⟨tls, (hgreeted.trans hprefix).subset (by simp)⟩, heard_of_steps hprefix hsteps hgood⟩

theorem heard_of_ok (h : (putActiveScript peer cfg password scriptName script).result = .ok ()) :
    Activates (trace peer cfg password scriptName script) ∧
      [.ok, .ok, .ok, .ok] <+: (trace peer cfg password scriptName script).filterMap Event.heard := by
  have hf := follows_untilSetactive cfg password scriptName script peer
  rw [trace, putActiveScript_eq] at *
  cases hr : (startTls peer cfg >>= installScript cfg password scriptName script).result with
  | error x =>
    rw [Traced.bind_error hr] at h
    cases h
  | ok tls =>
    obtain ⟨hsteps, hgood⟩ := hf.ok tls hr
    rw [Traced.bind_ok hr]
    have hprefix := List.prefix_append (startTls peer cfg >>= installScript cfg password scriptName script).trace
      (tls.writeAll .logout (utf8 "LOGOUT\r\n") "LOGOUT write").ignore.trace
    have hall : tlsOrder ++ installOrder cfg password scriptName script <+:
        (startTls peer cfg >>= installScript cfg password scriptName script).trace.map Event.step := by
      rw [hsteps]
    refine ⟨?_, heard_of_steps hprefix hall hgood⟩
    have hm : .write .tls .setactive (utf8 "\r\n") ∈
        (startTls peer cfg >>= installScript cfg password scriptName script).trace.map Event.step := by
      rw [hsteps]
      simp [installOrder]
    obtain ⟨e, he, hs⟩ := List.mem_map.1 hm
    exact ⟨_, _, hprefix.subset (Event.eq_write hs (hgood e he) ▸ he)⟩

/-- The octets inside TLS are those of a greeting, a reply to AUTHENTICATE and answers of these kinds, or
the front of them. -/
def Answered (t : List Event) (ks : List Kind) : Prop := ∀ tls, .upgrade (.ok tls) ∈ t →
  ∃ greeting login answers, (∀ R ∈ greeting :: login :: answers, Plain R) ∧ kinds answers = ks ∧
    delivered tls.incoming <+: Responses (greeting :: login :: answers)

theorem heard_after_upgrade {tls : Link} (h : .upgrade (.ok tls) ∈ trace peer cfg password scriptName script) :
    (trace peer cfg password scriptName script).filterMap Event.heard =
      (installScript cfg password scriptName script tls).trace.filterMap Event.heard := by
  obtain ⟨p, q, ht⟩ := List.append_of_mem h
  have hbefore : p.filterMap Event.heard = [] := by
    obtain ⟨⟨z, hz⟩, -⟩ := putActiveScript_ordered cfg password scriptName script peer p _ q ht
    have hsplit : tlsOrder.dropLast ++ .upgrade :: (installOrder cfg password scriptName script ++
        [.write .tls .logout (utf8 "LOGOUT\r\n")]) = p.map Event.step ++ .upgrade :: z := by
      rw [List.append_assoc] at hz
      exact hz.symm
    obtain ⟨hsteps, -⟩ := (List.append_cons_inj_of_notMem (by decide) (by simp [installOrder])).1 hsplit
    refine List.filterMap_eq_nil_iff.2 fun e he => ?_
    have hm := List.mem_map_of_mem (f := Event.step) he
    rw [← hsteps] at hm
    cases e with
    | reply ch r =>
      cases ch with
      | plain => rfl
      | tls => exact absurd hm (by simp [Event.step, tlsOrder])
    | _ => rfl
  obtain ⟨hq, -⟩ := after_upgrade ht
  have hinside : (insideTls cfg password scriptName script tls).trace.filterMap Event.heard =
      (installScript cfg password scriptName script tls).trace.filterMap Event.heard := by
    unfold insideTls
    cases hr : (installScript cfg password scriptName script tls).result with
    | error x => rw [Traced.bind_error hr]
    | ok s =>
      obtain ⟨e, he, hs⟩ := trace_logout s
      have hsilent : e.heard = none := by
        cases e with
        | reply ch r => cases hs
        | _ => rfl
      rw [Traced.bind_ok hr, List.filterMap_append, Traced.ignore, he, List.filterMap_cons_none hsilent,
        List.filterMap_nil, List.append_nil]
  rw [ht, List.filterMap_append, hbefore, List.nil_append, List.filterMap_cons_none rfl, hq, hinside]

/-- The answers heard after the greeting and the reply to AUTHENTICATE are the server's. -/
theorem Answered.heard {ks first : List Kind} {k k' : Kind}
    (h : Answered (trace peer cfg password scriptName script) ks)
    {tls : Link} (hup : .upgrade (.ok tls) ∈ trace peer cfg password scriptName script)
    (hheard : k :: k' :: first <+: (trace peer cfg password scriptName script).filterMap Event.heard) :
    first <+: ks := by
  obtain ⟨greeting, login, answers, hplain, rfl, hcut⟩ := h tls hup
  have hbrings : Brings (Stream.new .tls tls) (greeting :: login :: answers) := ⟨hplain, hcut⟩
  rw [heard_after_upgrade hup] at hheard
  have hle := hheard.trans (hears_installScript hbrings).le
  rw [kinds, List.map_cons, List.map_cons, List.cons_prefix_cons, List.cons_prefix_cons] at hle
  exact hle.2.2

/-! ## What the server is left with -/

/-- The script is stored. -/
def Scripts.stored (s : Scripts) (name : String) (script : Bytes) : Scripts :=
  { s with bodies := Function.update s.bodies name (some script) }

/-- The script is stored and active. -/
def Scripts.installed (s : Scripts) (name : String) (script : Bytes) : Scripts :=
  { s.stored name script with active := some name }

theorem Scripts.stored_self (s : Scripts) (name : String) (script : Bytes) :
    (s.stored name script).bodies name = some script := Function.update_self ..

theorem Scripts.stored_of_ne (s : Scripts) {name other : String} (script : Bytes) (h : other ≠ name) :
    (s.stored name script).bodies other = s.bodies other := Function.update_of_ne h ..

variable {s s' : Scripts} {ks : List Kind}

theorem Serves.of_none (h : Serves s b s' ks) (hb : readCommand b = none) : s' = s ∧ ks = [] := by
  cases h with
  | waits _ => exact ⟨rfl, rfl⟩
  | carriesOut hc _ _ =>
    rw [hb] at hc
    cases hc
  | refuses hc _ _ =>
    rw [hb] at hc
    cases hc

theorem Serves.command (h : Serves s b s' ks) (hb : readCommand b = some (c, rest)) :
    (∃ s₁ ks', s.exec c = some s₁ ∧ ks = .ok :: ks' ∧ Serves s₁ rest s' ks') ∨
      ∃ k ks', k ≠ .ok ∧ ks = k :: ks' ∧ Serves s rest s' ks' := by
  cases h with
  | waits hnone =>
    rw [hb] at hnone
    cases hnone
  | carriesOut hc hexec hnext =>
    rw [hb] at hc
    cases hc
    exact .inl ⟨_, _, hexec, rfl, hnext⟩
  | refuses hc hk hnext =>
    rw [hb] at hc
    cases hc
    exact .inr ⟨_, _, hk, rfl, hnext⟩

/-- Of a command either some octets are missing, or it is there and others may follow. -/
theorem cut_or_whole {octets after : Bytes} (hread : ∀ rest, readCommand (octets ++ rest) = some (c, rest))
    (h : b <+: octets ++ after) : readCommand b = none ∨ ∃ rest, b = octets ++ rest ∧ rest <+: after := by
  rcases List.prefix_or_prefix_of_prefix h (List.prefix_append octets after) with ⟨more, hmore⟩ | ⟨rest, rfl⟩
  · rcases List.eq_nil_or_concat more with rfl | ⟨_, _, hne⟩
    · rw [List.append_nil] at hmore
      exact .inr ⟨[], by rw [hmore, List.append_nil], List.nil_prefix⟩
    · have hwhole := hread []
      rw [List.append_nil, ← hmore] at hwhole
      exact .inl (readCommand_cut hwhole (by rw [hne]; simp))
  · exact .inr ⟨rest, rfl, (List.prefix_append_right_inj _).1 h⟩

theorem readCommand_putscriptOctets (h : Quotable (utf8 scriptName)) (script : String) (rest : Bytes) :
    readCommand (putscriptOctets scriptName script ++ rest) = some (.putscript scriptName (utf8 script), rest) := by
  have hread := readCommand_putscript scriptName script rest
  rw [if_pos h] at hread
  rw [← hread, putscriptOctets, List.append_assoc, List.append_assoc]

theorem readCommand_setactiveOctets (h : Quotable (utf8 scriptName)) (rest : Bytes) :
    readCommand (setactiveOctets scriptName ++ rest) = some (.setactive scriptName, rest) := by
  have hread := readCommand_setactive scriptName rest
  rw [if_pos h] at hread
  rw [← hread, setactiveOctets, List.append_assoc]

/-- LOGOUT, or the front of it, changes nothing. -/
theorem Serves.logout (h : Serves s b s' ks) (hb : b <+: utf8 "LOGOUT\r\n") : s' = s := by
  have hfront : b <+: utf8 "LOGOUT\r\n" ++ [] := by rwa [List.append_nil]
  rcases cut_or_whole readCommand_logout hfront with hnone | ⟨rest, rfl, hrest⟩
  · exact (h.of_none hnone).1
  · cases List.prefix_nil.1 hrest
    have hend : readCommand [] = none := rfl
    rcases h.command (readCommand_logout []) with ⟨s₁, ks', hexec, -, hnext⟩ | ⟨k, ks', -, -, hnext⟩
    · rw [(hnext.of_none hend).1, Option.some.inj hexec]
    · exact (hnext.of_none hend).1

/-- SETACTIVE for a script that is stored, or the front of it, and what comes after. -/
theorem Serves.setactive (h : Serves s b s' ks) (hname : Quotable (utf8 scriptName)) (hne : scriptName ≠ "")
    (hstored : (s.bodies scriptName).isSome) (hb : b <+: setactiveOctets scriptName ++ utf8 "LOGOUT\r\n") :
    (s' = s ∧ ks.head? ≠ some .ok) ∨ s' = { s with active := some scriptName } := by
  rcases cut_or_whole (readCommand_setactiveOctets hname) hb with hnone | ⟨rest, rfl, hrest⟩
  · obtain ⟨rfl, rfl⟩ := h.of_none hnone
    exact .inl ⟨rfl, nofun⟩
  · rcases h.command (readCommand_setactiveOctets hname rest) with
      ⟨s₁, ks', hexec, rfl, hnext⟩ | ⟨k, ks', hk, rfl, hnext⟩
    · have hs₁ : s.exec (.setactive scriptName) = some { s with active := some scriptName } :=
        (if_neg hne).trans (if_pos hstored)
      rw [hs₁] at hexec
      cases hexec
      exact .inr (hnext.logout hrest)
    · exact .inl ⟨hnext.logout hrest, fun hk' => hk (Option.some.inj hk')⟩

/-- What the server is left with, when SETACTIVE is not begun before PUTSCRIPT has been answered OK. -/
theorem Serves.cases (h : Serves s received s' ks) (hname : Quotable (utf8 scriptName))
    (hreceived : received <+: putscriptOctets scriptName script ++ (setactiveOctets scriptName ++ utf8 "LOGOUT\r\n"))
    (hwait : received <+: putscriptOctets scriptName script ∨ ks.head? = some .ok) :
    (s' = s ∧ ks.head? ≠ some .ok) ∨ (s' = s.stored scriptName (utf8 script) ∧ ¬ [.ok, .ok] <+: ks) ∨
      s' = s.installed scriptName (utf8 script) := by
  have hread := readCommand_putscriptOctets hname script
  rcases cut_or_whole hread hreceived with hnone | ⟨rest, rfl, hrest⟩
  · obtain ⟨rfl, rfl⟩ := h.of_none hnone
    exact .inl ⟨rfl, nofun⟩
  · rcases h.command (hread rest) with ⟨s₁, ks', hexec, rfl, hnext⟩ | ⟨k, ks', hk, rfl, hnext⟩
    · have hne : scriptName ≠ "" := by
        rintro rfl
        cases hexec
      cases Option.some.inj ((if_neg hne).symm.trans hexec : some (s.stored scriptName (utf8 script)) = some s₁)
      have hstored : ((s.stored scriptName (utf8 script)).bodies scriptName).isSome := by
        rw [Scripts.stored_self]
        rfl
      rcases hnext.setactive hname hne hstored hrest with ⟨hs', hno⟩ | hs'
      · refine .inr (.inl ⟨hs', fun hks => hno ?_⟩)
        rw [List.cons_prefix_cons] at hks
        obtain ⟨z, hz⟩ := hks.2
        rw [← hz]
        rfl
      · exact .inr (.inr hs')
    · -- It was refused, so SETACTIVE was not begun.
      have hno : (k :: ks').head? ≠ some .ok := fun hk' => hk (Option.some.inj hk')
      have hend : rest = [] := by
        have hcut := hwait.resolve_right hno
        have hlen := hcut.length_le
        rw [List.length_append] at hlen
        exact List.length_eq_zero_iff.1 (by omega)
      subst hend
      exact .inl ⟨(hnext.of_none rfl).1, hno⟩

theorem Scripts.inForce_stored (s : Scripts) (name : String) (script : Bytes) :
    (s.stored name script).inForce = s.inForce ∨
      (s.active = some name ∧ (s.stored name script).inForce = some script) := by
  unfold Scripts.inForce
  show s.active.bind (s.stored name script).bodies = _ ∨ _
  cases hactive : s.active with
  | none => exact .inl rfl
  | some other =>
    by_cases h : other = name
    · subst h
      refine .inr ⟨rfl, ?_⟩
      show s.active.bind (s.stored other script).bodies = some script
      rw [hactive]
      exact s.stored_self other script
    · exact .inl (s.stored_of_ne script h)

theorem Scripts.inForce_installed (s : Scripts) (name : String) (script : Bytes) :
    (s.installed name script).inForce = some script := s.stored_self name script

/-- The server's scripts are replaced as a whole or not at all. Whatever fails and wherever the connection
is cut, both ways, and whichever commands the server refuses: it is left with its scripts as they were,
or with the new script stored beside them, or with it stored and active; so mail is filtered by what was
in force before or by the whole new script. The session succeeds only if it is stored and active. -/
theorem putActiveScript_atomic (peer : Peer) (cfg : AccountConfig) (password scriptName script : String)
    (hname : ∀ c ∈ scriptName.toList, c ∉ ['\r', '\n', '\x00']) (s s' : Scripts) (received : Bytes) (ks : List Kind)
    (hreaches : Reaches (trace peer cfg password scriptName script) received) (hserves : Serves s received s' ks)
    (hanswered : Answered (trace peer cfg password scriptName script) ks) :
    (s' = s ∨ s' = s.stored scriptName (utf8 script) ∨ s' = s.installed scriptName (utf8 script)) ∧
      (s'.inForce = s.inForce ∨ s'.inForce = some (utf8 script)) ∧
      ((putActiveScript peer cfg password scriptName script).result = .ok () →
        s' = s.installed scriptName (utf8 script)) := by
  have hquotable := quotable_utf8.2 hname
  have hwait : received <+: putscriptOctets scriptName script ∨ ks.head? = some .ok := by
    by_cases hact : Activates (trace peer cfg password scriptName script)
    · obtain ⟨⟨tls, hup⟩, hoks⟩ := heard_of_activates hact
      obtain ⟨z, hz⟩ := (hanswered.heard hup hoks)
      exact .inr (by rw [← hz]; rfl)
    · exact .inl (reaches_le_of_not_activates hreaches hact)
  have hcases := hserves.cases hquotable (reaches_le hreaches) hwait
  refine ⟨?_, ?_, fun hok => ?_⟩
  · exact hcases.imp And.left (Or.imp And.left id)
  · rcases hcases with ⟨rfl, -⟩ | ⟨rfl, -⟩ | rfl
    · exact .inl rfl
    · exact (s.inForce_stored scriptName (utf8 script)).imp id And.right
    · exact .inr (s.inForce_installed scriptName (utf8 script))
  · obtain ⟨hact, hoks⟩ := heard_of_ok hok
    obtain ⟨⟨tls, hup⟩, -⟩ := heard_of_activates hact
    rcases hcases with ⟨-, hno⟩ | ⟨-, hno⟩ | hs'
    · obtain ⟨z, hz⟩ := hanswered.heard hup hoks
      exact absurd (by rw [← hz]; rfl) hno
    · exact absurd (hanswered.heard hup hoks) hno
    · exact hs'

/-! ### A server that has no script yet -/

theorem handshake_of_upgrade {tls : Link} (h : .upgrade (.ok tls) ∈ trace peer cfg password scriptName script) :
    ∃ tcp, peer.handshake cfg.imapHost tcp = .ok tls := by
  have hno : ∀ {α : Type} {order : List Step} {m : Session α}, Follows order m → .upgrade ∉ order →
      .upgrade (.ok tls) ∉ m.trace := fun hf hout hm => hout (hf.ordered.mem hm)
  obtain hm | ⟨tls', -, hm⟩ := Traced.mem_bind h
  · obtain hm | ⟨tcp, -, hm⟩ := Traced.mem_bind hm
    · exact absurd hm (hno (follows_connect ..) (by simp))
    obtain hm | ⟨s₁, -, hm⟩ := Traced.mem_bind hm
    · exact absurd hm (hno (follows_expectOk ..) (by simp))
    obtain hm | ⟨s₂, -, hm⟩ := Traced.mem_bind hm
    · exact absurd hm (hno (follows_writeAll ..) (by simp))
    obtain hm | ⟨s₃, -, hm⟩ := Traced.mem_bind hm
    · exact absurd hm (hno (follows_expectOk ..) (by simp))
    refine ⟨s₃.intoInner, ?_⟩
    unfold upgrade at hm
    split at hm
    · cases List.mem_singleton.1 hm
    · split at hm
      · cases List.mem_singleton.1 hm
      · rename_i hok
        cases List.mem_singleton.1 hm
        exact hok
  · have hf := follows_installScript cfg password scriptName script tls'
    have hm' := (hf.ordered_ignore trace_logout).mem hm
    simp [Event.step, installOrder] at hm'

def noScripts : Scripts := ⟨fun _ => none, none⟩

theorem reaches_of_completed (h : Completed peer cfg password scriptName script) :
    Reaches (trace peer cfg password scriptName script)
      (putscriptOctets scriptName script ++ (setactiveOctets scriptName ++ utf8 "LOGOUT\r\n")) := by
  refine ⟨(trace peer cfg password scriptName script).map fun e => e.step.puts, ?_, ?_⟩
  · rw [List.forall₂_map_right_iff]
    exact List.forall₂_same.2 fun e he => .done (h e he)
  · rw [← sessionOrder_puts cfg password, ← h.steps, List.flatMap_map]
    exact List.prefix_refl _

theorem putActiveScript_atomic_keep : ∃ s', Serves noScripts (putscriptOctets "main" "keep;" ++
      (setactiveOctets "main" ++ utf8 "LOGOUT\r\n")) s' [.ok, .ok, .ok] ∧
    (s'.inForce = noScripts.inForce ∨ s'.inForce = some (utf8 "keep;")) := by
  have hname : Quotable (utf8 "main") := by decide
  have hserves : Serves noScripts (putscriptOctets "main" "keep;" ++ (setactiveOctets "main" ++ utf8 "LOGOUT\r\n"))
      (noScripts.installed "main" (utf8 "keep;")) [.ok, .ok, .ok] := by
    have hput : noScripts.exec (.putscript "main" (utf8 "keep;")) = some (noScripts.stored "main" (utf8 "keep;")) := rfl
    have hset : (noScripts.stored "main" (utf8 "keep;")).exec (.setactive "main") =
      some (noScripts.installed "main" (utf8 "keep;")) := rfl
    refine .carriesOut (readCommand_putscriptOctets hname _ _) hput ?_
    refine .carriesOut (readCommand_setactiveOctets hname _) hset ?_
    exact .carriesOut (readCommand_logout []) rfl (.waits rfl)
  refine ⟨_, hserves, ?_⟩
  refine (putActiveScript_atomic acceptingPeer sampleAccount "hunter2" "main" "keep;" (by simp) noScripts _ _ _
    (reaches_of_completed (acceptingPeer_completed "main" "keep;")) hserves ?_).2.1
  intro tls htls
  obtain ⟨tcp, hshake⟩ := handshake_of_upgrade htls
  cases hshake
  exact ⟨plainOk, plainOk, [plainOk, plainOk, plainOk], by decide, rfl, by decide⟩

end Sieve

end Thundercrab
