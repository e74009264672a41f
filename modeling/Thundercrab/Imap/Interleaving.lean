/-
`rust_imap.rs` with several connections to one account. Each runs its calls of `move_message` command
by command, between the commands of the others, and any of its commands may be refused or lost and any
connection given up for a new one. Mail that is not flagged `\Deleted` survives every such run: before a
call flags a message it has made a copy of its own, and what another call may flag in the meantime was
copied by that call before.
-/
import Thundercrab.Imap.SetFlag

namespace Thundercrab

open Lib

namespace Imap

variable {β : Type}

/-! ## One call, command by command -/

/-- A `move_message` under way, at the command that goes out next. After SELECT it is about a message of
the selected folder. -/
inductive MoveCall where
  | select (fromFolder toFolder : String) (uid : UInt32)
  | mv (toFolder : String) (uid : UInt32)
  | copy (toFolder : String) (uid : UInt32)
  | store (uid : UInt32)
  | expunge

/-- The next command, and what comes after it: another one, or the result of the call. -/
def MoveCall.step (s : Session β) (r : Reply) : MoveCall → Session β × (MoveCall ⊕ Except BackendError Unit)
  | .select fromFolder toFolder uid =>
    match s.select fromFolder r with
    | (.ok, s) => (s, .inl (.mv toFolder uid))
    | (seen, s) => (s, .inr (.error (.protocol s!"select {fromFolder}: {seen.text}")))
  | .mv toFolder uid =>
    match s.uidMv uid toFolder r with
    | (.ok, s) => (s, .inr (.ok ()))
    | (_, s) => (s, .inl (.copy toFolder uid))
  | .copy toFolder uid =>
    match s.uidCopy uid toFolder r with
    | (.ok, s) => (s, .inl (.store uid))
    | (seen, s) => (s, .inr (.error (.protocol s!"uid_copy: {seen.text}")))
  | .store uid =>
    match s.uidStore uid r with
    | (.unsent e, s) => (s, .inr (.error (.protocol s!"uid_store: {e}")))
    | (_, s) => (s, .inl .expunge)
  | .expunge =>
    match s.expunge r with
    | (.unsent e, s) => (s, .inr (.error (.protocol s!"expunge: {e}")))
    | (_, s) => (s, .inr (.ok ()))

/-- The reply to a command of the call. -/
def MoveReplies.to (r : MoveReplies) : MoveCall → Reply
  | .select _ _ _ => r.select
  | .mv _ _ => r.mv
  | .copy _ _ => r.copy
  | .store _ => r.store
  | .expunge => r.expunge

/-- The commands of a call one after another with nothing in between, as many as there may be. -/
def MoveCall.alone (r : MoveReplies) : Nat → Session β → MoveCall → Session β × (MoveCall ⊕ Except BackendError Unit)
  | 0, s, c => (s, .inl c)
  | n + 1, s, c =>
    match c.step s (r.to c) with
    | (s, .inl c) => MoveCall.alone r n s c
    | (s, .inr result) => (s, .inr result)

/-- A call that nothing comes between is `move_message`. -/
theorem moveMessage_eq_alone (s : Session β) (r : MoveReplies) (fromFolder toFolder : String) (uid : UInt32) :
    MoveCall.alone r 5 s (.select fromFolder toFolder uid) =
      ((moveMessage s r fromFolder toFolder uid).2, .inr (moveMessage s r fromFolder toFolder uid).1) := by
  unfold moveMessage
  rw [MoveCall.alone, MoveCall.step, MoveReplies.to]
  rcases s.select fromFolder r.select with ⟨_ | _ | _ | _, s⟩
  · simp only
    rw [MoveCall.alone, MoveCall.step, MoveReplies.to]
    rcases s.uidMv uid toFolder r.mv with ⟨_ | _ | _ | _, s⟩
    · rfl
    -- whatever came of MOVE, the fallback is the same
    all_goals
      simp only
      rw [MoveCall.alone, MoveCall.step, MoveReplies.to]
      rcases s.uidCopy uid toFolder r.copy with ⟨_ | _ | _ | _, s⟩
      · simp only
        rw [MoveCall.alone, MoveCall.step, MoveReplies.to]
        rcases s.uidStore uid r.store with ⟨_ | _ | _ | _, s⟩
        case unsent => rfl
        all_goals
          simp only
          rw [MoveCall.alone, MoveCall.step, MoveReplies.to]
          rcases s.expunge r.expunge with ⟨_ | _ | _ | _, s⟩ <;> rfl
      all_goals rfl
  all_goals rfl

/-! ## Several connections -/

/-- A connection, and the call that is under way on it, if any. -/
structure Connection where
  selected : String
  connected : Bool
  call : Option MoveCall

/-- The mailboxes of the server and the connections to it. -/
structure Account (β : Type) where
  boxes : Boxes β
  connections : Nat → Connection

/-- The mailboxes as one connection has them. -/
def Account.session (a : Account β) (i : Nat) : Session β :=
  ⟨a.boxes, (a.connections i).selected, (a.connections i).connected⟩

/-- After a command of one connection. -/
def Account.after (a : Account β) (i : Nat) (s : Session β) (call : Option MoveCall) : Account β :=
  { boxes := s.boxes, connections := Function.update a.connections i ⟨s.selected, s.connected, call⟩ }

@[simp] theorem Account.after_boxes (a : Account β) (i : Nat) (s : Session β) (call : Option MoveCall) :
    (a.after i s call).boxes = s.boxes := rfl

@[simp] theorem Account.after_self (a : Account β) (i : Nat) (s : Session β) (call : Option MoveCall) :
    (a.after i s call).connections i = ⟨s.selected, s.connected, call⟩ := Function.update_self ..

theorem Account.after_of_ne (a : Account β) {i j : Nat} (h : j ≠ i) (s : Session β) (call : Option MoveCall) :
    (a.after i s call).connections j = a.connections j := Function.update_of_ne h ..

inductive Event (β : Type) where
  /-- A new connection in place of an old one, whatever was under way. -/
  | connect (i : Nat)
  | move (i : Nat) (fromFolder toFolder : String) (uid : UInt32)
  /-- The next command of the call under way, and what becomes of it. -/
  | command (i : Nat) (reply : Reply)
  /-- A `set_flag`, which acts on the mailboxes once. -/
  | flag (i : Nat) (replies : SetFlagReplies) (folder : String) (uid : UInt32) (flag : String) (set : Bool)
  /-- A message arrives. -/
  | deliver (folder : String) (flags : List String) (body : β)
  /-- Another client's EXPUNGE. -/
  | expunge (folder : String)

/-- A connection has one call at a time. -/
def Account.step (a : Account β) : Event β → Account β
  | .connect i => a.after i ⟨a.boxes, "", true⟩ none
  | .move i fromFolder toFolder uid =>
    match (a.connections i).call with
    | some _ => a
    | none => a.after i (a.session i) (some (.select fromFolder toFolder uid))
  | .command i reply =>
    match (a.connections i).call with
    | none => a
    | some c =>
      let (s, next) := c.step (a.session i) reply
      a.after i s next.getLeft?
  | .flag i replies folder uid flag set =>
    match (a.connections i).call with
    | some _ => a
    | none => a.after i (setFlag (a.session i) replies folder uid flag set).2 none
  | .deliver folder flags body =>
    { a with boxes := Function.update a.boxes folder ((a.boxes folder).append flags body) }
  | .expunge folder => { a with boxes := a.boxes.expunge folder }

def Account.run (a : Account β) (evs : List (Event β)) : Account β := evs.foldl Account.step a

/-- What the callers see to: a move is of a UID that has been handed out, and no flag that is set is
`\Deleted`. -/
def Event.Allowed (a : Account β) : Event β → Prop
  | .move _ fromFolder _ uid => uid.toNat < (a.boxes fromFolder).uidNext
  | .flag _ _ _ _ text set => set = true → ¬ Names [deletedFlag] text
  | _ => True

/-- Every event of a run is allowed when it happens. -/
def Account.Allowed : Account β → List (Event β) → Prop
  | _, [] => True
  | a, ev :: evs => ev.Allowed a ∧ (a.step ev).Allowed evs

/-! ## What a command does -/

/-- What a command does to the mailboxes when the server carries it out. -/
def MoveCall.effect (selected : String) : MoveCall → Boxes β → Boxes β
  | .select _ _ _, b => b
  | .mv toFolder uid, b => b.move selected toFolder uid.toNat
  | .copy toFolder uid, b => b.copy selected toFolder uid.toNat
  | .store uid, b => b.store selected uid.toNat deletedFlag
  | .expunge, b => b.expunge selected

theorem exec_selected (s : Session β) (op : Boxes β → Boxes β) (r : Reply) : (s.exec op r).2.selected = s.selected := by
  unfold Session.exec
  by_cases hc : s.connected
  · rw [if_pos hc]
    cases r <;> rfl
  · rw [if_neg hc]
    cases r <;> rfl

theorem exec_ok {s : Session β} {op : Boxes β → Boxes β} {r : Reply} (h : (s.exec op r).1 = .ok) :
    (s.exec op r).2.boxes = op s.boxes := by
  unfold Session.exec at h ⊢
  by_cases hc : s.connected
  · rw [if_pos hc] at h ⊢
    cases r with
    | ok => rfl
    | no e => cases h
    | unsent e => cases h
    | lost executed e => cases h
  · rw [if_neg hc] at h
    cases r <;> cases h

/-- What comes of the next command: the call goes on after it, or it ends. A COPY that the call goes on
after has been carried out. -/
inductive MoveCall.Outcome (s : Session β) : MoveCall → Session β × (MoveCall ⊕ Except BackendError Unit) → Prop where
  | selected {fromFolder toFolder : String} {uid : UInt32} {s' : Session β} : s'.boxes = s.boxes →
      s'.selected = fromFolder → Outcome s (.select fromFolder toFolder uid) (s', .inl (.mv toFolder uid))
  | unmoved {toFolder : String} {uid : UInt32} {s' : Session β} :
      (s'.boxes = s.boxes ∨ s'.boxes = s.boxes.move s.selected toFolder uid.toNat) → s'.selected = s.selected →
      Outcome s (.mv toFolder uid) (s', .inl (.copy toFolder uid))
  | copied {toFolder : String} {uid : UInt32} {s' : Session β} :
      s'.boxes = s.boxes.copy s.selected toFolder uid.toNat → s'.selected = s.selected →
      Outcome s (.copy toFolder uid) (s', .inl (.store uid))
  | flagged {uid : UInt32} {s' : Session β} :
      (s'.boxes = s.boxes ∨ s'.boxes = s.boxes.store s.selected uid.toNat deletedFlag) → s'.selected = s.selected →
      Outcome s (.store uid) (s', .inl .expunge)
  | ends {c : MoveCall} {s' : Session β} (result : Except BackendError Unit) :
      (s'.boxes = s.boxes ∨ s'.boxes = c.effect s.selected s.boxes) → Outcome s c (s', .inr result)

theorem MoveCall.step_outcome (s : Session β) (r : Reply) (c : MoveCall) : c.Outcome s (c.step s r) := by
  cases c with
  | select fromFolder toFolder uid =>
    obtain ⟨hboxes, hselected⟩ := select_boxes s fromFolder r
    simp only [MoveCall.step]
    rcases hs : s.select fromFolder r with ⟨_ | _ | _ | _, s'⟩ <;> rw [hs] at hboxes hselected
    · exact .selected hboxes (hselected rfl)
    all_goals exact .ends _ (.inl hboxes)
  | mv toFolder uid =>
    have hboxes := exec_boxes s (fun b => b.move s.selected toFolder uid.toNat) r
    have hselected := exec_selected s (fun b => b.move s.selected toFolder uid.toNat) r
    simp only [MoveCall.step, Session.uidMv]
    rcases hs : s.exec (fun b => b.move s.selected toFolder uid.toNat) r with ⟨_ | _ | _ | _, s'⟩ <;>
      rw [hs] at hboxes hselected
    · exact .ends _ hboxes
    all_goals exact .unmoved hboxes hselected
  | copy toFolder uid =>
    have hboxes := exec_boxes s (fun b => b.copy s.selected toFolder uid.toNat) r
    have hselected := exec_selected s (fun b => b.copy s.selected toFolder uid.toNat) r
    have hok : (s.exec (fun b => b.copy s.selected toFolder uid.toNat) r).1 = .ok → _ := exec_ok
    simp only [MoveCall.step, Session.uidCopy]
    rcases hs : s.exec (fun b => b.copy s.selected toFolder uid.toNat) r with ⟨_ | _ | _ | _, s'⟩ <;>
      rw [hs] at hboxes hselected hok
    · exact .copied (hok rfl) hselected
    all_goals exact .ends _ hboxes
  | store uid =>
    have hboxes := exec_boxes s (fun b => b.store s.selected uid.toNat deletedFlag) r
    have hselected := exec_selected s (fun b => b.store s.selected uid.toNat deletedFlag) r
    simp only [MoveCall.step, Session.uidStore]
    rcases hs : s.exec (fun b => b.store s.selected uid.toNat deletedFlag) r with ⟨_ | _ | _ | _, s'⟩ <;>
      rw [hs] at hboxes hselected
    case unsent => exact .ends _ hboxes
    all_goals exact .flagged hboxes hselected
  | expunge =>
    have hboxes := exec_boxes s (fun b => b.expunge s.selected) r
    simp only [MoveCall.step, Session.expunge]
    rcases hs : s.exec (fun b => b.expunge s.selected) r with ⟨_ | _ | _ | _, s'⟩ <;> rw [hs] at hboxes <;>
      exact .ends _ hboxes

/-! ## Mail is kept -/

/-- The message that a call is about. -/
def Connection.source (c : Connection) : Option (String × Nat) :=
  match c.call with
  | some (.select fromFolder _ uid) => some (fromFolder, uid.toNat)
  | some (.mv _ uid) => some (c.selected, uid.toNat)
  | some (.copy _ uid) => some (c.selected, uid.toNat)
  | some (.store uid) => some (c.selected, uid.toNat)
  | _ => none

/-- The call flags a message next. -/
def Connection.Flags (c : Connection) (f : String) (uid : Nat) : Prop :=
  ∃ u : UInt32, c.call = some (.store u) ∧ c.selected = f ∧ u.toNat = uid

theorem Connection.Flags.source {c : Connection} {f : String} {uid : Nat} (h : c.Flags f uid) :
    c.source = some (f, uid) := by
  obtain ⟨u, hcall, rfl, rfl⟩ := h
  unfold Connection.source
  rw [hcall]

/-- A message with the body is there, not flagged `\Deleted`, and no call is about to flag it. -/
def Account.Has (a : Account β) (body : β) : Prop :=
  ∃ f, ∃ m ∈ (a.boxes f).messages, m.body = body ∧ ¬ m.Deleted ∧ ∀ i, ¬ (a.connections i).Flags f m.uid

/-- The calls are about messages whose UIDs have been handed out. -/
def Account.Known (a : Account β) : Prop :=
  ∀ i f uid, (a.connections i).source = some (f, uid) → uid < (a.boxes f).uidNext

variable {a : Account β} {body : β}

theorem Account.Known.after (h : a.Known) {i : Nat} {s : Session β} {call : Option MoveCall}
    (hlater : Boxes.Later a.boxes s.boxes)
    (hsource : ∀ f uid, (Connection.mk s.selected s.connected call).source = some (f, uid) →
      (a.connections i).source = some (f, uid) ∨ uid < (s.boxes f).uidNext) : (a.after i s call).Known := by
  intro j f uid hj
  by_cases hji : j = i
  · subst hji
    rw [Account.after_self] at hj
    rcases hsource f uid hj with hold | hnew
    · exact Nat.lt_of_lt_of_le (h j f uid hold) (hlater f)
    · exact hnew
  · rw [Account.after_of_ne a hji] at hj
    exact Nat.lt_of_lt_of_le (h j f uid hj) (hlater f)

/-- It is enough to follow a message that no call is about to flag: to itself, or to a new one. -/
theorem Account.Has.after (h : a.Has body) (hknown : a.Known) {i : Nat} {s : Session β} {call : Option MoveCall}
    (hkeep : ∀ f, ∀ m ∈ (a.boxes f).messages, ¬ m.Deleted → ¬ (a.connections i).Flags f m.uid →
      ∃ f', ∃ m' ∈ (s.boxes f').messages, m'.body = m.body ∧ ¬ m'.Deleted ∧
        ¬ (Connection.mk s.selected s.connected call).Flags f' m'.uid ∧
        ((f' = f ∧ m'.uid = m.uid) ∨ (a.boxes f').uidNext ≤ m'.uid)) : (a.after i s call).Has body := by
  obtain ⟨f, m, hm, hbody, hdel, hflags⟩ := h
  obtain ⟨f', m', hm', hbody', hdel', hnew, hsame⟩ := hkeep f m hm hdel (hflags i)
  refine ⟨f', m', hm', hbody'.trans hbody, hdel', fun j hj => ?_⟩
  by_cases hji : j = i
  · subst hji
    rw [Account.after_self] at hj
    exact hnew hj
  · rw [Account.after_of_ne a hji] at hj
    rcases hsame with ⟨rfl, hu⟩ | hfresh
    · rw [hu] at hj
      exact hflags j hj
    · exact absurd (hknown j f' m'.uid hj.source) (Nat.not_lt.2 hfresh)

/-- What keeps the connection from flagging keeps the message. -/
theorem not_flags_of_call {c : Connection} (h : ∀ u, c.call ≠ some (.store u)) (f : String) (uid : Nat) :
    ¬ c.Flags f uid := fun ⟨u, hu, _⟩ => h u hu

section Command

variable {s s' : Session β} {f : String} {m : Message β}

/-- The message a COPY is made of is followed to the copy, and any other stays. -/
theorem follow_copy {b : Boxes β} (fromFolder toFolder : String) (uid : Nat) (hm : m ∈ (b f).messages)
    (hdel : ¬ m.Deleted) :
    ∃ f', ∃ m' ∈ (b.copy fromFolder toFolder uid f').messages, m'.body = m.body ∧ ¬ m'.Deleted ∧
      ((f' = f ∧ m'.uid = m.uid ∧ ¬ (f = fromFolder ∧ m.uid = uid)) ∨
        (f' = toFolder ∧ m'.uid = (b toFolder).uidNext)) := by
  by_cases hsource : f = fromFolder ∧ m.uid = uid
  · obtain ⟨rfl, rfl⟩ := hsource
    exact ⟨toFolder, _, (Boxes.mem_copy (Folder.find?_eq_some.2 ⟨hm, rfl⟩)).2 (.inr ⟨rfl, rfl⟩), rfl, hdel,
      .inr ⟨rfl, rfl⟩⟩
  · exact ⟨f, m, Boxes.mem_copy_of_mem hm, rfl, hdel, .inl ⟨rfl, rfl, hsource⟩⟩

theorem follow_move {b : Boxes β} {fromFolder toFolder : String} {uid : Nat} (hm : m ∈ (b f).messages)
    (hdel : ¬ m.Deleted) :
    ∃ f', ∃ m' ∈ (b.move fromFolder toFolder uid f').messages, m'.body = m.body ∧ ¬ m'.Deleted ∧
      ((f' = f ∧ m'.uid = m.uid) ∨ (b f').uidNext ≤ m'.uid) := by
  by_cases hsource : f = fromFolder ∧ m.uid = uid
  · obtain ⟨rfl, rfl⟩ := hsource
    have hcopy : ⟨(b toFolder).uidNext, m.flags, m.body⟩ ∈ (b.copy f toFolder m.uid toFolder).messages :=
      (Boxes.mem_copy (Folder.find?_eq_some.2 ⟨hm, rfl⟩)).2 (.inr ⟨rfl, rfl⟩)
    exact ⟨toFolder, _, Boxes.mem_move.2 ⟨hcopy, copy_ne hm⟩, rfl, hdel, .inr (Nat.le_refl _)⟩
  · exact ⟨f, m, Boxes.mem_move.2 ⟨Boxes.mem_copy_of_mem hm, hsource⟩, rfl, hdel, .inl ⟨rfl, rfl⟩⟩

/-- What a command leaves of a message that the call is not about to flag. -/
theorem follow_effect {b : Boxes β} {c : Connection} {call : MoveCall} (hcall : c.call = some call)
    (hm : m ∈ (b f).messages) (hdel : ¬ m.Deleted) (hflags : ¬ c.Flags f m.uid) :
    ∃ f', ∃ m' ∈ (call.effect c.selected b f').messages, m'.body = m.body ∧ ¬ m'.Deleted ∧
      ((f' = f ∧ m'.uid = m.uid) ∨ (b f').uidNext ≤ m'.uid) := by
  cases call with
  | select fromFolder toFolder uid => exact ⟨f, m, hm, rfl, hdel, .inl ⟨rfl, rfl⟩⟩
  | mv toFolder uid => exact follow_move hm hdel
  | copy toFolder uid =>
    obtain ⟨f', m', hm', hbody, hdel', ⟨hf, hu, -⟩ | ⟨rfl, hu⟩⟩ := follow_copy c.selected toFolder uid.toNat hm hdel
    · exact ⟨f', m', hm', hbody, hdel', .inl ⟨hf, hu⟩⟩
    · exact ⟨f', m', hm', hbody, hdel', .inr (Nat.le_of_eq hu.symm)⟩
  | store uid =>
    have hne : ¬ (f = c.selected ∧ m.uid = uid.toNat) := fun he => hflags ⟨uid, hcall, he.1.symm, he.2.symm⟩
    exact ⟨f, m, (Boxes.mem_store_of_ne hne).2 hm, rfl, hdel, .inl ⟨rfl, rfl⟩⟩
  | expunge => exact ⟨f, m, Boxes.mem_expunge.2 ⟨hm, fun _ => hdel⟩, rfl, hdel, .inl ⟨rfl, rfl⟩⟩

theorem later_effect (b : Boxes β) (selected : String) (call : MoveCall) : Boxes.Later b (call.effect selected b) := by
  cases call with
  | select fromFolder toFolder uid => exact .refl b
  | mv toFolder uid => exact Boxes.later_move b selected toFolder uid.toNat
  | copy toFolder uid => exact Boxes.later_copy b selected toFolder uid.toNat
  | store uid => exact Boxes.later_setFlags b selected uid.toNat _
  | expunge => exact Boxes.later_expunge b selected

end Command

/-- What a command does is no more than its effect. -/
theorem MoveCall.Outcome.boxes {s : Session β} {c : MoveCall} {out : Session β × (MoveCall ⊕ Except BackendError Unit)}
    (h : c.Outcome s out) : out.1.boxes = s.boxes ∨ out.1.boxes = c.effect s.selected s.boxes := by
  cases h with
  | selected hb _ => exact .inl hb
  | unmoved hb _ => exact hb
  | copied hb _ => exact .inr hb
  | flagged hb _ => exact hb
  | ends _ hb => exact hb

/-- A call that is about to flag a message has had it copied. -/
theorem MoveCall.Outcome.next {s s' : Session β} {c : MoveCall} {next : MoveCall ⊕ Except BackendError Unit}
    (h : c.Outcome s (s', next)) :
    (∀ u, next.getLeft? ≠ some (.store u)) ∨
      ∃ toFolder uid, c = .copy toFolder uid ∧ next = .inl (.store uid) ∧ s'.selected = s.selected ∧
        s'.boxes = s.boxes.copy s.selected toFolder uid.toNat := by
  cases h with
  | selected _ _ => exact .inl nofun
  | unmoved _ _ => exact .inl nofun
  | copied hb hsel => exact .inr ⟨_, _, rfl, rfl, hsel, hb⟩
  | flagged _ _ => exact .inl nofun
  | ends _ _ => exact .inl nofun

/-- The call that goes on is about the same message or, at its EXPUNGE, about none. -/
theorem MoveCall.Outcome.source {a : Account β} {i : Nat} {c : MoveCall} (hcall : (a.connections i).call = some c)
    {out : Session β × (MoveCall ⊕ Except BackendError Unit)} (h : c.Outcome (a.session i) out) {f : String} {uid : Nat}
    (hs : (Connection.mk out.1.selected out.1.connected out.2.getLeft?).source = some (f, uid)) :
    (a.connections i).source = some (f, uid) := by
  unfold Connection.source at hs ⊢
  rw [hcall]
  cases h with
  | selected _ hsel =>
    rw [← hs, ← hsel]
    rfl
  | unmoved _ hsel =>
    rw [← hs]
    exact congrArg (fun selected => some (selected, _)) hsel.symm
  | copied _ hsel =>
    rw [← hs]
    exact congrArg (fun selected => some (selected, _)) hsel.symm
  | flagged _ hsel => cases hs
  | ends _ _ => cases hs

/-- What a STORE of the caller's item leaves of a message, when it does not set `\\Deleted`. -/
theorem follow_storeItem {b : Boxes β} {folder text : String} {uid : Nat} {set : Bool} {f : String} {m : Message β}
    (hno : set = true → ¬ Names [deletedFlag] text) (hm : m ∈ (b f).messages) (hdel : ¬ m.Deleted) :
    ∃ m' ∈ (storeItem b folder uid (itemText text set) f).messages, m'.body = m.body ∧ ¬ m'.Deleted ∧
      m'.uid = m.uid := by
  rw [storeItem_itemText]
  by_cases hsource : f = folder ∧ m.uid = uid
  · refine ⟨_, Boxes.mem_setFlags.2 (.inr ⟨hsource.1, m, hm, hsource.2, rfl⟩), rfl, fun hdel' => hdel ?_, rfl⟩
    cases set with
    | true =>
      rcases mem_of_mem_addFlags hdel' with hold | hnew
      · exact hold
      · exact absurd ⟨deletedFlag, hnew, deletedFlag, List.mem_singleton_self _, rfl⟩ (hno rfl)
    | false => exact (List.mem_filter.1 hdel').1
  · exact ⟨m, Boxes.mem_setFlags.2 (.inl ⟨hm, hsource⟩), rfl, hdel, rfl⟩

theorem Account.step_command (a : Account β) {i : Nat} {c : MoveCall} (hcall : (a.connections i).call = some c)
    (r : Reply) : ∃ out, c.Outcome (a.session i) out ∧ a.step (.command i r) = a.after i out.1 out.2.getLeft? := by
  refine ⟨c.step (a.session i) r, c.step_outcome (a.session i) r, ?_⟩
  simp only [Account.step]
  rw [hcall]

theorem later_storeItem (b : Boxes β) (folder text : String) (uid : Nat) (set : Bool) :
    Boxes.Later b (storeItem b folder uid (itemText text set)) := by
  rw [storeItem_itemText]
  exact Boxes.later_setFlags _ _ _ _

theorem Account.step_known (hknown : a.Known) {ev : Event β} (hallowed : ev.Allowed a) : (a.step ev).Known := by
  cases ev with
  | connect i => exact hknown.after (.refl _) fun f uid hs => (by cases hs)
  | move i fromFolder toFolder uid =>
    simp only [Account.step]
    cases hcall : (a.connections i).call with
    | some c => exact hknown
    | none =>
      refine hknown.after (.refl _) fun f u hs => .inr ?_
      cases hs
      exact hallowed
  | command i r =>
    cases hcall : (a.connections i).call with
    | none =>
      simp only [Account.step]
      rw [hcall]
      exact hknown
    | some c =>
      obtain ⟨⟨s, next⟩, hout, hstep⟩ := a.step_command hcall r
      rw [hstep]
      refine hknown.after ?_ fun f u hs => .inl (hout.source hcall hs)
      rcases hout.boxes with hb | hb
      · rw [show s.boxes = a.boxes from hb]
        exact .refl _
      · rw [show s.boxes = c.effect (a.connections i).selected a.boxes from hb]
        exact later_effect _ _ _
  | flag i replies folder uid text set =>
    simp only [Account.step]
    cases hcall : (a.connections i).call with
    | some c => exact hknown
    | none =>
      refine hknown.after ?_ fun f u hs => (by cases hs)
      rcases setFlag_boxes (a.session i) replies folder uid text set with hb | hb
      · rw [hb]
        exact .refl _
      · rw [hb]
        exact later_storeItem _ _ _ _ _
  | deliver folder flags new =>
    exact fun j f u hj => Nat.lt_of_lt_of_le (hknown j f u hj) (Boxes.later_append _ _ _ _ f)
  | expunge folder => exact fun j f u hj => Nat.lt_of_lt_of_le (hknown j f u hj) (Boxes.later_expunge _ _ f)

theorem mem_deliver {b : Boxes β} {folder f : String} {flags : List String} {new : β} {m : Message β}
    (hm : m ∈ (b f).messages) : m ∈ (Function.update b folder ((b folder).append flags new) f).messages := by
  by_cases hf : f = folder
  · subst hf
    rw [Function.update_self]
    exact Folder.mem_append.2 (.inl hm)
  · rw [Function.update_of_ne hf]
    exact hm

theorem Account.step_has (hknown : a.Known) (hhas : a.Has body) {ev : Event β} (hallowed : ev.Allowed a) :
    (a.step ev).Has body := by
  have hstays : ∀ {i : Nat} {s : Session β} {call : Option MoveCall}, s.boxes = a.boxes →
      (∀ u, call ≠ some (.store u)) → (a.after i s call).Has body := by
    intro i s call hboxes hcall
    refine hhas.after hknown fun f m hm hdel _ => ⟨f, m, hboxes ▸ hm, rfl, hdel, ?_, .inl ⟨rfl, rfl⟩⟩
    exact not_flags_of_call hcall f m.uid
  cases ev with
  | connect i => exact hstays rfl nofun
  | move i fromFolder toFolder uid =>
    simp only [Account.step]
    cases hcall : (a.connections i).call with
    | some c => exact hhas
    | none => exact hstays rfl nofun
  | command i r =>
    cases hcall : (a.connections i).call with
    | none =>
      simp only [Account.step]
      rw [hcall]
      exact hhas
    | some c =>
      obtain ⟨⟨s, next⟩, hout, hstep⟩ := a.step_command hcall r
      rw [hstep]
      rcases hout.next with hcalm | ⟨toFolder, uid, rfl, rfl, hsel, hb⟩
      · refine hhas.after hknown fun f m hm hdel hflags => ?_
        rcases hout.boxes with hb | hb
        · exact ⟨f, m, hb ▸ hm, rfl, hdel, not_flags_of_call hcalm f m.uid, .inl ⟨rfl, rfl⟩⟩
        · obtain ⟨f', m', hm', hbody, hdel', hsame⟩ := follow_effect hcall hm hdel hflags
          exact ⟨f', m', hb ▸ hm', hbody, hdel', not_flags_of_call hcalm f' m'.uid, hsame⟩
      -- the copy is new, and what the call flags next is the message that it copied
      · refine hhas.after hknown fun f m hm hdel _ => ?_
        obtain ⟨f', m', hm', hbody, hdel', hsame⟩ :=
          follow_copy (a.connections i).selected toFolder uid.toNat hm hdel
        refine ⟨f', m', hb ▸ hm', hbody, hdel', ?_, hsame.imp (fun h => ⟨h.1, h.2.1⟩) fun h => ?_⟩
        · rintro ⟨u, hu, hf, huid⟩
          cases hu
          have hf : (a.connections i).selected = f' := hsel.symm.trans hf
          rcases hsame with ⟨rfl, hu', hne⟩ | ⟨rfl, hu'⟩
          · exact hne ⟨hf.symm, hu'.symm.trans huid.symm⟩
          · have hlt := hknown i (a.connections i).selected uid.toNat (by unfold Connection.source; rw [hcall])
            rw [hf] at hlt
            omega
        · exact Nat.le_of_eq (by rw [h.1, h.2])
  | flag i replies folder uid text set =>
    simp only [Account.step]
    cases hcall : (a.connections i).call with
    | some c => exact hhas
    | none =>
      rcases setFlag_boxes (a.session i) replies folder uid text set with hb | hb
      · exact hstays hb nofun
      · refine hhas.after hknown fun f m hm hdel _ => ?_
        obtain ⟨m', hm', hbody, hdel', hu⟩ := follow_storeItem hallowed hm hdel
        refine ⟨f, m', by rw [hb]; exact hm', hbody, hdel', not_flags_of_call ?_ f m'.uid, .inl ⟨rfl, hu⟩⟩
        intro u hu
        cases hu
  | deliver folder flags new =>
    obtain ⟨f, m, hm, hbody, hdel, hflags⟩ := hhas
    exact ⟨f, m, mem_deliver hm, hbody, hdel, hflags⟩
  | expunge folder =>
    obtain ⟨f, m, hm, hbody, hdel, hflags⟩ := hhas
    exact ⟨f, m, Boxes.mem_expunge.2 ⟨hm, fun _ => hdel⟩, hbody, hdel, hflags⟩

/-- New mail is there, and no call is about it. -/
theorem Account.Known.deliver (hknown : a.Known) {folder : String} {flags : List String} (h : deletedFlag ∉ flags)
    (body : β) : (a.step (.deliver folder flags body)).Has body := by
  refine ⟨folder, ⟨(a.boxes folder).uidNext, flags, body⟩, ?_, rfl, h, fun i hi => ?_⟩
  · show _ ∈ (Function.update a.boxes folder ((a.boxes folder).append flags body) folder).messages
    rw [Function.update_self]
    exact Folder.mem_append.2 (.inr rfl)
  · exact absurd (hknown i folder _ hi.source) (Nat.lt_irrefl _)

theorem Account.run_has (body : β) : ∀ {a : Account β} {evs : List (Event β)}, a.Known → a.Allowed evs →
    (a.Has body ∨ ∃ folder flags, .deliver folder flags body ∈ evs ∧ deletedFlag ∉ flags) → (a.run evs).Has body
  | a, [], _, _, h => h.resolve_right fun ⟨_, _, hmem, _⟩ => (by cases hmem)
  | a, ev :: evs, hknown, hallowed, h => by
    have hnext := Account.step_known hknown hallowed.1
    show ((a.step ev).run evs).Has body
    refine run_has body hnext hallowed.2 ?_
    rcases h with h | ⟨folder, flags, hmem, hnot⟩
    · exact .inl (Account.step_has hknown h hallowed.1)
    · rcases List.mem_cons.1 hmem with rfl | hmem
      · exact .inl (hknown.deliver hnot body)
      · exact .inr ⟨folder, flags, hmem, hnot⟩

/-! ## Other mail is not touched -/

/-- The event is a call about this message. -/
def Event.About (f : String) (uid : Nat) : Event β → Prop
  | .move _ fromFolder _ u => fromFolder = f ∧ u.toNat = uid
  | .flag _ _ folder u _ _ => folder = f ∧ u.toNat = uid
  | _ => False

/-- No call under way is about the message. -/
def Account.Free (a : Account β) (f : String) (uid : Nat) : Prop := ∀ i, (a.connections i).source ≠ some (f, uid)

theorem Account.Free.after {f : String} {uid : Nat} (h : a.Free f uid) {i : Nat} {s : Session β}
    {call : Option MoveCall}
    (hnew : (Connection.mk s.selected s.connected call).source ≠ some (f, uid)) : (a.after i s call).Free f uid := by
  intro j
  by_cases hji : j = i
  · subst hji
    rw [Account.after_self]
    exact hnew
  · rw [Account.after_of_ne a hji]
    exact h j

theorem mem_effect {b : Boxes β} {c : Connection} {call : MoveCall} (hcall : c.call = some call) {f : String}
    {m : Message β} (hfree : c.source ≠ some (f, m.uid)) (hm : m ∈ (b f).messages) (hdel : ¬ m.Deleted) :
    m ∈ (call.effect c.selected b f).messages := by
  unfold Connection.source at hfree
  rw [hcall] at hfree
  cases call with
  | select fromFolder toFolder uid => exact hm
  | mv toFolder uid =>
    exact Boxes.mem_move.2 ⟨Boxes.mem_copy_of_mem hm, fun he => hfree (by rw [he.1, he.2])⟩
  | copy toFolder uid => exact Boxes.mem_copy_of_mem hm
  | store uid => exact (Boxes.mem_store_of_ne fun he => hfree (by rw [he.1, he.2])).2 hm
  | expunge => exact Boxes.mem_expunge.2 ⟨hm, fun _ => hdel⟩

theorem Account.step_free {ev : Event β} {f : String} {m : Message β} (hfree : a.Free f m.uid)
    (hm : m ∈ (a.boxes f).messages) (hdel : ¬ m.Deleted) (hev : ¬ ev.About f m.uid) :
    (a.step ev).Free f m.uid ∧ m ∈ ((a.step ev).boxes f).messages := by
  cases ev with
  | connect i => exact ⟨hfree.after nofun, hm⟩
  | move i fromFolder toFolder uid =>
    simp only [Account.step]
    cases hcall : (a.connections i).call with
    | some c => exact ⟨hfree, hm⟩
    | none =>
      refine ⟨hfree.after fun h => hev ?_, hm⟩
      exact Prod.mk.inj (Option.some.inj h)
  | command i r =>
    cases hcall : (a.connections i).call with
    | none =>
      simp only [Account.step]
      rw [hcall]
      exact ⟨hfree, hm⟩
    | some c =>
      obtain ⟨⟨s, next⟩, hout, hstep⟩ := a.step_command hcall r
      rw [hstep]
      refine ⟨hfree.after fun h => hfree i (hout.source hcall h), ?_⟩
      rw [Account.after_boxes]
      rcases hout.boxes with hb | hb
      · exact hb ▸ hm
      · exact hb ▸ mem_effect hcall (hfree i) hm hdel
  | flag i replies folder uid text set =>
    simp only [Account.step]
    cases hcall : (a.connections i).call with
    | some c => exact ⟨hfree, hm⟩
    | none =>
      refine ⟨hfree.after nofun, ?_⟩
      rw [Account.after_boxes]
      rcases setFlag_boxes (a.session i) replies folder uid text set with hb | hb
      · rw [hb]
        exact hm
      · rw [hb, storeItem_itemText]
        exact Boxes.mem_setFlags.2 (.inl ⟨hm, fun he => hev ⟨he.1.symm, he.2.symm⟩⟩)
  | deliver folder flags new => exact ⟨hfree, mem_deliver hm⟩
  | expunge folder => exact ⟨hfree, Boxes.mem_expunge.2 ⟨hm, fun _ => hdel⟩⟩

theorem Account.run_free {f : String} {m : Message β} (hdel : ¬ m.Deleted) : ∀ {a : Account β} {evs : List (Event β)},
    a.Free f m.uid → m ∈ (a.boxes f).messages → (∀ ev ∈ evs, ¬ ev.About f m.uid) → m ∈ ((a.run evs).boxes f).messages
  | a, [], _, hm, _ => hm
  | a, ev :: evs, hfree, hm, hevs => by
    obtain ⟨hfree', hm'⟩ := Account.step_free hfree hm hdel (hevs ev (List.mem_cons_self ..))
    show m ∈ (((a.step ev).run evs).boxes f).messages
    exact run_free hdel hfree' hm' fun ev' h => hevs ev' (List.mem_cons_of_mem _ h)

/-- Mail survives connections that work on one account at once. In every run of them, with their
commands interleaved in any order, refused, lost before or after they were carried out, and connections
given up in the middle of a call, and with other clients that deliver, expunge, and set and clear flags
other than `\\Deleted`: what is there at the start or delivered and is not flagged `\\Deleted` is always
there under some UID and not flagged; and a message that no call is about stays where it is, as it is. -/
theorem mail_survives (a : Account β) (hidle : ∀ i, (a.connections i).call = none) (evs : List (Event β))
    (hallowed : a.Allowed evs) :
    (∀ body, ((∃ f, ∃ m ∈ (a.boxes f).messages, m.body = body ∧ ¬ m.Deleted) ∨
        ∃ folder flags, .deliver folder flags body ∈ evs ∧ deletedFlag ∉ flags) →
      ∃ f, ∃ m ∈ ((a.run evs).boxes f).messages, m.body = body ∧ ¬ m.Deleted) ∧
    ∀ f, ∀ m ∈ (a.boxes f).messages, ¬ m.Deleted → (∀ ev ∈ evs, ¬ ev.About f m.uid) →
      m ∈ ((a.run evs).boxes f).messages := by
  have hsource : ∀ i, (a.connections i).source = none := by
    intro i
    unfold Connection.source
    rw [hidle i]
  have hknown : a.Known := fun i f uid hi => (by rw [hsource i] at hi; cases hi)
  have hcalm : ∀ i f uid, ¬ (a.connections i).Flags f uid := fun i => not_flags_of_call fun u hu => by
    rw [hidle i] at hu
    cases hu
  refine ⟨fun body h => ?_, fun f m hm hdel hevs => ?_⟩
  · have hstart : a.Has body ∨ ∃ folder flags, .deliver folder flags body ∈ evs ∧ deletedFlag ∉ flags := by
      refine h.imp ?_ id
      rintro ⟨f, m, hm, hbody, hdel⟩
      exact ⟨f, m, hm, hbody, hdel, fun i => hcalm i f m.uid⟩
    obtain ⟨f, m, hm, hbody, hdel, -⟩ := Account.run_has body hknown hallowed hstart
    exact ⟨f, m, hm, hbody, hdel⟩
  · exact Account.run_free hdel (fun i hi => (by rw [hsource i] at hi; cases hi)) hm hevs

/-! ## Two connections that move one message -/

def idleConnection : Connection := ⟨"", true, none⟩

/-- The mailboxes of the sample, and connections with nothing under way. -/
def racingAccount : Account String := ⟨sampleSession.boxes, fun _ => idleConnection⟩

/-- Both copy the message, to different folders, before either flags it. -/
def racingMoves : List (Event String) :=
  [.move 0 "INBOX" "Promotions" 2, .move 1 "INBOX" "Updates" 2, .command 0 .ok, .command 1 .ok,
    .command 0 (.no "BAD"), .command 1 (.no "BAD"), .command 0 .ok, .command 1 .ok, .command 0 .ok, .command 0 .ok,
    .command 1 .ok, .command 1 (.lost true "reset")]

theorem mail_survives_race : ∃ f, ∃ m ∈ ((racingAccount.run racingMoves).boxes f).messages,
    m.body = "newsletter" ∧ ¬ m.Deleted := by
  have hallowed : racingAccount.Allowed racingMoves := by
    refine ⟨?_, ?_, trivial, trivial, trivial, trivial, trivial, trivial, trivial, trivial, trivial, trivial, trivial⟩
    · show (2 : UInt32).toNat < sampleInbox.uidNext
      decide
    · show (2 : UInt32).toNat < sampleInbox.uidNext
      decide
  exact (mail_survives racingAccount (fun _ => rfl) racingMoves hallowed).1 "newsletter"
    (.inl ⟨"INBOX", toMove, by decide, rfl, by decide⟩)

end Imap

end Thundercrab
