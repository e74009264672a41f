/-
What the order of a ManageSieve session comes to: where the password goes, which answers stand
before each command, that nothing is done after a failure, and that the session inside TLS depends on
the TLS connection alone.
-/
import Thundercrab.Imap.ManageSieve

namespace Thundercrab

open Lib Lib.BufReader

namespace Sieve

variable {ch : Channel} {cfg : AccountConfig} {password scriptName script : String} {peer : Peer}

/-! ## What a call comes to -/

theorem connect_eq_ok {host : String} {port : UInt16} {tcp : Link} :
    (connect peer host port).result = .ok tcp ↔ peer.connect host port = .ok tcp := by
  unfold connect
  cases h : peer.connect host port with
  | error e => exact ⟨nofun, nofun⟩
  | ok tcp' => simp

theorem expectOk_eq_ok {s s' : Stream ch} {no bye : String → BackendError} :
    (s.expectOk no bye).result = .ok s' ↔
      ∃ reader, readResponse s.reader = (.ok .ok, reader) ∧ s' = { s with reader } := by
  unfold Stream.expectOk
  split
  · rename_i reader h
    rw [h]
    constructor
    · intro h'
      cases h'
      exact ⟨reader, rfl, rfl⟩
    · rintro ⟨_, h', rfl⟩
      cases h'
      rfl
  · rename_i h
    rw [h]
    exact ⟨nofun, fun ⟨_, h', _⟩ => nomatch h'⟩
  · rename_i h
    rw [h]
    exact ⟨nofun, fun ⟨_, h', _⟩ => nomatch h'⟩
  · rename_i h
    rw [h]
    exact ⟨nofun, fun ⟨_, h', _⟩ => nomatch h'⟩

theorem writeAll_eq_ok {s s' : Stream ch} {c : Command} {b : Bytes} {context : String} (hb : b ≠ []) :
    (s.writeAll c b context).result = .ok s' ↔
      (∀ e, s.writes.head? ≠ some (.error e)) ∧ s' = { s with writes := s.writes.tail } := by
  obtain ⟨reader, writes⟩ := s
  unfold Stream.writeAll
  rw [if_neg hb]
  match writes with
  | [] => exact ⟨fun h => ⟨nofun, (Except.ok.inj h).symm⟩, fun h => congrArg _ h.2.symm⟩
  | .ok () :: writes => exact ⟨fun h => ⟨nofun, (Except.ok.inj h).symm⟩, fun h => congrArg _ h.2.symm⟩
  | .error e :: writes => exact ⟨nofun, fun h => absurd rfl (h.1 e)⟩

theorem upgrade_eq_ok {host : String} {tcp tls : Link} :
    (upgrade peer host tcp).result = .ok tls ↔ peer.serverName host = .ok () ∧ peer.handshake host tcp = .ok tls := by
  unfold upgrade
  cases hn : peer.serverName host with
  | error e => exact ⟨nofun, nofun⟩
  | ok u =>
    cases hh : peer.handshake host tcp with
    | error e => exact ⟨nofun, nofun⟩
    | ok tls' => simp

theorem framed_ok : Framed (utf8 "OK\r\n") .ok :=
  .last ⟨⟨"OK\r\n", rfl, by decide, by decide⟩, utf8 "OK\r", by decide, by decide⟩

/-! ## What has happened before a step -/

/-- The greeting, the reply to STARTTLS and the greeting inside TLS were OK. -/
def Greeted (t : List Event) : Prop :=
  ∃ tls, [.connect (.ok ()), .reply .plain (.ok .ok), .write .plain .starttls (utf8 "STARTTLS\r\n") (.ok ()),
    .reply .plain (.ok .ok), .upgrade (.ok tls), .reply .tls (.ok .ok)] <+: t

/-- The last octets of the command were written inside TLS, and the reply to it was OK. -/
def AnsweredOk (c : Command) (t : List Event) : Prop :=
  ∃ p b q, t = p ++ .write .tls c b (.ok ()) :: .reply .tls (.ok .ok) :: q

theorem prefix_of_not_mem {α : Type} {a b p q : List α} {x : α} (h : p ++ x :: q = a ++ b) (hx : x ∉ a) :
    a <+: p := by
  rcases List.append_eq_append_iff.1 h with ⟨c, rfl, hc⟩ | ⟨c, rfl, -⟩
  · cases c with
    | nil => simp
    | cons y c =>
      rw [List.cons_append, List.cons.injEq] at hc
      exact absurd (by simp [hc.1]) hx
  · exact List.prefix_append _ _

theorem Event.eq_write {e : Event} {c : Command} {b : Bytes} (hs : e.step = .write ch c b) (hg : e.Good) :
    e = .write ch c b (.ok ()) := by
  cases e with
  | write ch' c' b' r => cases hs; cases hg; rfl
  | _ => cases hs

theorem Event.eq_reply {e : Event} (hs : e.step = .reply ch) (hg : e.Good) : e = .reply ch (.ok .ok) := by
  cases e with
  | reply ch' r => cases hs; cases hg; rfl
  | _ => cases hs

theorem Event.eq_upgrade {e : Event} (hs : e.step = .upgrade) (hg : e.Good) : ∃ tls, e = .upgrade (.ok tls) := by
  cases e with
  | upgrade r =>
    obtain ⟨tls, rfl⟩ := hg
    exact ⟨tls, rfl⟩
  | _ => cases hs

theorem Event.eq_connect {e : Event} (hs : e.step = .connect) (hg : e.Good) : e = .connect (.ok ()) := by
  cases e with
  | connect r => cases hg; rfl
  | _ => cases hs

theorem greeted_of_steps {p : List Event} (h : tlsOrder ++ [.reply .tls] <+: p.map Event.step)
    (hg : ∀ e ∈ p, e.Good) : Greeted p := by
  obtain ⟨z, h⟩ := h
  obtain ⟨p1, p2, rfl, h1, -⟩ := List.map_eq_append_iff.1 h.symm
  simp only [tlsOrder, List.cons_append, List.nil_append, List.map_eq_cons_iff, List.map_eq_nil_iff] at h1
  obtain ⟨e0, _, rfl, h0, e1, _, rfl, h1, e2, _, rfl, h2, e3, _, rfl, h3, e4, _, rfl, h4, e5, _, rfl, h5, rfl⟩ := h1
  obtain ⟨tls, h4⟩ := Event.eq_upgrade h4 (hg _ (by simp))
  refine ⟨tls, p2, ?_⟩
  rw [Event.eq_connect h0 (hg _ (by simp)), Event.eq_reply h1 (hg _ (by simp)), Event.eq_write h2 (hg _ (by simp)),
    Event.eq_reply h3 (hg _ (by simp)), h4, Event.eq_reply h5 (hg _ (by simp))]

theorem answered_of_steps {p : List Event} {a : List Step} {c : Command} {b : Bytes}
    (h : a ++ [.write .tls c b, .reply .tls] <+: p.map Event.step) (hg : ∀ e ∈ p, e.Good) : AnsweredOk c p := by
  obtain ⟨z, h⟩ := h
  obtain ⟨p1, p2, rfl, h1, -⟩ := List.map_eq_append_iff.1 h.symm
  obtain ⟨p3, p4, rfl, -, h2⟩ := List.map_eq_append_iff.1 h1
  simp only [List.map_eq_cons_iff, List.map_eq_nil_iff] at h2
  obtain ⟨e, _, rfl, he, e', _, rfl, he', rfl⟩ := h2
  refine ⟨p3, b, p2, ?_⟩
  rw [Event.eq_write he (hg _ (by simp)), Event.eq_reply he' (hg _ (by simp))]
  simp

/-- The trace of a session. -/
abbrev trace (peer : Peer) (cfg : AccountConfig) (password scriptName script : String) : List Event :=
  (putActiveScript peer cfg password scriptName script).trace

/-- A step that stands only after these has them before it. -/
theorem before_step {a b : List Step} {p q : List Event} {e : Event}
    (ho : sessionOrder cfg password scriptName script = a ++ b)
    (ht : trace peer cfg password scriptName script = p ++ e :: q) (hs : e.step ∉ a) :
    a <+: p.map Event.step ∧ ∀ x ∈ p, x.Good := by
  obtain ⟨⟨z, h⟩, hg⟩ := putActiveScript_ordered cfg password scriptName script peer p e q ht
  rw [ho, List.append_assoc] at h
  exact ⟨prefix_of_not_mem h hs, hg⟩

theorem authenticate_after_greeting {p q : List Event} {b : Bytes} {r : Except String Unit}
    (ht : trace peer cfg password scriptName script = p ++ .write ch .authenticate b r :: q) :
    ch = .tls ∧ Greeted p := by
  constructor
  · have hm : .write ch .authenticate b r ∈ trace peer cfg password scriptName script := by
      rw [ht]
      simp
    have := (putActiveScript_ordered cfg password scriptName script peer).mem hm
    simp only [Event.step, sessionOrder, tlsOrder, installOrder, List.mem_append, List.mem_cons, reduceCtorEq,
      Step.write.injEq, List.not_mem_nil, false_and, and_false, or_false, false_or, true_and] at this
    exact this.elim (·.1) (·.1)
  · obtain ⟨h, hg⟩ := before_step (a := tlsOrder ++ [.reply .tls]) rfl ht (by simp [Event.step, tlsOrder])
    exact greeted_of_steps h hg

theorem putscript_after_authenticate {p q : List Event} {b : Bytes} {r : Except String Unit}
    (ht : trace peer cfg password scriptName script = p ++ .write ch .putscript b r :: q) :
    AnsweredOk .authenticate p := by
  obtain ⟨h, hg⟩ := before_step (a := (tlsOrder ++ (installOrder cfg password scriptName script).take 2) ++
    [.write .tls .authenticate (utf8 "\r\n"), .reply .tls]) rfl ht (by simp [Event.step, tlsOrder, installOrder])
  exact answered_of_steps h hg

theorem setactive_after_putscript {p q : List Event} {b : Bytes} {r : Except String Unit}
    (ht : trace peer cfg password scriptName script = p ++ .write ch .setactive b r :: q) :
    AnsweredOk .putscript p := by
  obtain ⟨h, hg⟩ := before_step (a := (tlsOrder ++ (installOrder cfg password scriptName script).take 6) ++
    [.write .tls .putscript (utf8 "\r\n"), .reply .tls]) rfl ht (by simp [Event.step, tlsOrder, installOrder])
  exact answered_of_steps h hg

/-! ## The outcome -/

theorem last_of_last_two {α : Type} {a x z : List α} {u v w s r : α} (h : a ++ [u, v, w] = x ++ s :: r :: z)
    (hs : s ∉ a) (hr : r ≠ v) : z = [] := by
  obtain ⟨y, rfl⟩ := prefix_of_not_mem h.symm hs
  rw [List.append_assoc] at h
  have h := List.append_cancel_left h
  match y, h with
  | [], h =>
    simp only [List.nil_append, List.cons.injEq] at h
    exact absurd h.2.1.symm hr
  | [_], h =>
    simp only [List.cons_append, List.nil_append, List.cons.injEq] at h
    exact h.2.2.2.symm
  -- More than three elements cannot stand at the end.
  | _ :: _ :: _, h =>
    have := congrArg List.length h
    simp only [List.length_append, List.length_cons, List.length_nil] at this
    omega

/-- A reply right after a write of SETACTIVE is the last of the steps up to it. -/
theorem eq_nil_of_setactive {x z : List Step} {b : Bytes}
    (h : tlsOrder ++ installOrder cfg password scriptName script =
      x ++ .write .tls .setactive b :: .reply .tls :: z) : z = [] :=
  last_of_last_two (a := tlsOrder ++ (installOrder cfg password scriptName script).take 8) h
    (by simp [tlsOrder, installOrder]) (by simp)

theorem AnsweredOk.append {c : Command} {t : List Event} (h : AnsweredOk c t) (u : List Event) :
    AnsweredOk c (t ++ u) := by
  obtain ⟨p, b, q, rfl⟩ := h
  exact ⟨p, b, q ++ u, by simp⟩

theorem result_ok_iff : (putActiveScript peer cfg password scriptName script).result = .ok () ↔
    AnsweredOk .setactive (trace peer cfg password scriptName script) := by
  have hf := follows_untilSetactive cfg password scriptName script peer
  rw [trace, putActiveScript_eq]
  cases h : (startTls peer cfg >>= installScript cfg password scriptName script).result with
  | ok tls =>
    rw [Traced.bind_ok h]
    obtain ⟨hs, hg⟩ := hf.ok tls h
    have hlast : (tlsOrder ++ (installOrder cfg password scriptName script).take 9) ++
        [.write .tls .setactive (utf8 "\r\n"), .reply .tls] <+:
        tlsOrder ++ installOrder cfg password scriptName script :=
      List.prefix_refl _
    rw [← hs] at hlast
    exact ⟨fun _ => AnsweredOk.append (answered_of_steps hlast hg) _, fun _ => rfl⟩
  | error x =>
    rw [Traced.bind_error h]
    constructor
    · intro h
      cases h
    · -- The OK to SETACTIVE would be the last event, which is not good when the session has failed.
      rintro ⟨p, b, q, ht⟩
      obtain ⟨p', e, ht', ⟨z, hpre⟩, -, hbad⟩ := hf.error x h
      simp only at ht
      rw [ht, List.map_append, List.append_assoc] at hpre
      obtain ⟨hq, -⟩ := List.append_eq_nil_iff.1 (eq_nil_of_setactive hpre.symm)
      rw [List.map_eq_nil_iff.1 hq, ht', List.append_cons p] at ht
      rw [List.singleton_inj.1 (List.append_inj' ht rfl).2] at hbad
      exact absurd rfl hbad

/-! ## Two passwords -/

/-- The same event, or one write of AUTHENTICATE inside TLS each. -/
def SameButAuthenticate (e e' : Event) : Prop :=
  e = e' ∨ ∃ b b' r, e = .write .tls .authenticate b r ∧ e' = .write .tls .authenticate b' r

theorem alike_refl {α : Type} (m : Session α) : Traced.Alike SameButAuthenticate m m :=
  Traced.Alike.refl (R := SameButAuthenticate) (fun _ => Or.inl rfl) m

theorem alike_writeAll (s : Stream .tls) {b b' : Bytes} (hb : b ≠ []) (hb' : b' ≠ []) (context context' : String) :
    Traced.Alike SameButAuthenticate (s.writeAll .authenticate b context)
      (s.writeAll .authenticate b' context') := by
  have hone : ∀ r, List.Forall₂ SameButAuthenticate [.write .tls .authenticate b r]
      [.write .tls .authenticate b' r] :=
    fun r => .cons (Or.inr ⟨b, b', r, rfl, rfl⟩) .nil
  unfold Stream.writeAll
  rw [if_neg hb, if_neg hb']
  split
  · exact ⟨hone _, Or.inl ⟨_, rfl, rfl⟩⟩
  · exact ⟨hone _, Or.inl ⟨_, rfl, rfl⟩⟩
  · exact ⟨hone _, Or.inr ⟨_, _, rfl, rfl⟩⟩

theorem authenticateCommand_ne_nil (cfg : AccountConfig) (password : String) :
    utf8 (authenticateCommand cfg password) ≠ [] := by
  have h : ∀ blob quote, "AUTHENTICATE \"PLAIN\" \"" ++ blob ++ quote ≠ "" := by
    intro blob quote h
    simp at h
  exact utf8_ne_nil (h _ _)

theorem alike_installScript (password' : String) (tls : Link) :
    Traced.Alike SameButAuthenticate (installScript cfg password scriptName script tls)
      (installScript cfg password' scriptName script tls) := by
  refine (alike_refl _).bind fun s => ?_
  refine Traced.Alike.bind ?_ fun s => alike_refl _
  refine Traced.Alike.bind (alike_writeAll s (authenticateCommand_ne_nil _ _) (authenticateCommand_ne_nil _ _) _ _) ?_
  intro s
  exact alike_writeAll s (by decide) (by decide) _ _

theorem alike_putActiveScript (password' : String) :
    Traced.Alike SameButAuthenticate (putActiveScript peer cfg password scriptName script)
      (putActiveScript peer cfg password' scriptName script) :=
  (alike_refl _).bind fun tls => (alike_installScript password' tls).bind fun _ => alike_refl _

/-! ## Two plaintext phases -/

theorem startTls_ok {tls : Link} (h : (startTls peer cfg).result = .ok tls) :
    ∃ p, (startTls peer cfg).trace = p ++ [.upgrade (.ok tls)] ∧ p.map Event.step = tlsOrder.dropLast := by
  have hlast : ∃ p, (startTls peer cfg).trace = p ++ [.upgrade (.ok tls)] := by
    unfold startTls at h ⊢
    obtain ⟨tcp, -, h, ht⟩ := Traced.bind_eq_ok h
    rw [ht]
    obtain ⟨s1, -, h, ht⟩ := Traced.bind_eq_ok h
    rw [ht]
    obtain ⟨s2, -, h, ht⟩ := Traced.bind_eq_ok h
    rw [ht]
    obtain ⟨s3, -, h, ht⟩ := Traced.bind_eq_ok h
    rw [ht, ← List.append_assoc, ← List.append_assoc, ← List.append_assoc]
    refine ⟨_, congrArg _ ?_⟩
    unfold upgrade at h ⊢
    split at h
    · cases h
    · split at h
      · cases h
      · cases h
        rfl
  obtain ⟨p, hp⟩ := hlast
  refine ⟨p, hp, ?_⟩
  have := ((follows_startTls peer cfg).ok tls h).1
  rw [hp, List.map_append] at this
  rw [← this]
  exact (List.dropLast_concat).symm

/-- The session inside TLS, LOGOUT with it. -/
def insideTls (cfg : AccountConfig) (password scriptName script : String) (tls : Link) : Session Unit := do
  let tls ← installScript cfg password scriptName script tls
  (tls.writeAll .logout (utf8 "LOGOUT\r\n") "LOGOUT write").ignore

/-- After the upgrade the session goes on as its TLS connection has it. -/
theorem after_upgrade {p q : List Event} {tls : Link}
    (ht : trace peer cfg password scriptName script = p ++ .upgrade (.ok tls) :: q) :
    q = (insideTls cfg password scriptName script tls).trace ∧
      (putActiveScript peer cfg password scriptName script).result =
        (insideTls cfg password scriptName script tls).result := by
  have hrun : putActiveScript peer cfg password scriptName script =
    startTls peer cfg >>= insideTls cfg password scriptName script := rfl
  rw [trace, hrun] at ht
  rw [hrun]
  cases h : (startTls peer cfg).result with
  | error x =>
    -- The upgrade would be the last event, which is not good when the session has failed.
    rw [Traced.bind_error h] at ht
    obtain ⟨p', e, ht', ⟨z, hpre⟩, -, hbad⟩ := (follows_startTls peer cfg).error x h
    simp only at ht
    rw [ht, List.map_append, List.append_assoc] at hpre
    have hsplit : tlsOrder.dropLast ++ .upgrade :: [] = p.map Event.step ++ .upgrade :: (q.map Event.step ++ z) :=
      hpre.symm
    obtain ⟨-, -, hq⟩ := (List.append_cons_inj_of_notMem (by decide) List.not_mem_nil).1 hsplit
    rw [List.map_eq_nil_iff.1 (List.append_eq_nil_iff.1 hq.symm).1, ht'] at ht
    rw [List.singleton_inj.1 (List.append_inj' ht rfl).2] at hbad
    exact absurd ⟨tls, rfl⟩ hbad
  | ok tls' =>
    rw [Traced.bind_ok h] at ht ⊢
    obtain ⟨p', hp', hs⟩ := startTls_ok h
    simp only [hp', List.append_assoc, List.singleton_append] at ht
    have hout : .upgrade (.ok tls) ∉ p' := by
      intro hm
      have hm := List.mem_map_of_mem (f := Event.step) hm
      rw [hs] at hm
      exact absurd hm (by simp [Event.step, tlsOrder])
    have hin : .upgrade (.ok tls) ∉ (insideTls cfg password scriptName script tls').trace := by
      intro hm
      have ho := (follows_installScript cfg password scriptName script tls').ordered_ignore trace_logout
      have hm := ho.mem hm
      simp [Event.step, installOrder] at hm
    obtain ⟨-, he, hq⟩ := (List.append_cons_inj_of_notMem hout hin).1 ht
    cases he
    exact ⟨hq.symm, rfl⟩

/-! ## The session as a whole -/

/-- In every session AUTHENTICATE is written inside TLS and after three OKs, PUTSCRIPT after the OK to
AUTHENTICATE and SETACTIVE after the OK to PUTSCRIPT; the session succeeds exactly when SETACTIVE was
answered OK; nothing is done after an answer that is not OK or after a failure; another password makes
no difference but in what AUTHENTICATE writes; and two sessions with one TLS connection agree from
the upgrade on, whatever came before it. -/
theorem putActiveScript_order (peer : Peer) (cfg : AccountConfig) (password scriptName script : String) :
    (∀ p q ch b r, trace peer cfg password scriptName script = p ++ .write ch .authenticate b r :: q →
      ch = .tls ∧ Greeted p) ∧
    (∀ password', List.Forall₂ SameButAuthenticate (trace peer cfg password scriptName script)
      (trace peer cfg password' scriptName script)) ∧
    (∀ p q ch b r, trace peer cfg password scriptName script = p ++ .write ch .putscript b r :: q →
      AnsweredOk .authenticate p) ∧
    (∀ p q ch b r, trace peer cfg password scriptName script = p ++ .write ch .setactive b r :: q →
      AnsweredOk .putscript p) ∧
    ((putActiveScript peer cfg password scriptName script).result = .ok () ↔
      AnsweredOk .setactive (trace peer cfg password scriptName script)) ∧
    (∀ p q e, trace peer cfg password scriptName script = p ++ e :: q → ¬ e.Good → q = []) ∧
    ∀ peer' tls p q p' q', trace peer cfg password scriptName script = p ++ .upgrade (.ok tls) :: q →
      trace peer' cfg password scriptName script = p' ++ .upgrade (.ok tls) :: q' →
      q = q' ∧ (putActiveScript peer cfg password scriptName script).result =
        (putActiveScript peer' cfg password scriptName script).result := by
  refine ⟨fun _ _ _ _ _ h => authenticate_after_greeting h, fun password' => (alike_putActiveScript password').trace,
    fun _ _ _ _ _ h => putscript_after_authenticate h, fun _ _ _ _ _ h => setactive_after_putscript h,
    result_ok_iff, fun p q e h hbad =>
      (putActiveScript_ordered cfg password scriptName script peer).stops h hbad, ?_⟩
  intro peer' tls p q p' q' h h'
  obtain ⟨hq, hr⟩ := after_upgrade h
  obtain ⟨hq', hr'⟩ := after_upgrade h'
  exact ⟨hq.trans hq'.symm, hr.trans hr'.symm⟩

end Sieve

end Thundercrab
