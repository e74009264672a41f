/-
`rust_imap.rs`, `move_message`: SELECT, then UID MOVE, and when that fails for whatever reason UID
COPY, UID STORE `\Deleted` and EXPUNGE, each acting on the mailboxes of the server when the server
carries it out. A message is never lost and no other touched as long as EXPUNGE is not carried out;
when it is, it removes what other clients have flagged `\Deleted` in the folder.
-/
import Thundercrab.Lib.Mailbox
import Thundercrab.Imap.Backend

namespace Thundercrab

open Lib

namespace Imap

/-- What becomes of a command. -/
inductive Reply where
  | ok
  /-- The server refuses it. -/
  | no (text : String)
  /-- The connection is lost before the command is out. -/
  | unsent (text : String)
  /-- The connection is lost before the reply; the server may have carried the command out. -/
  | lost (executed : Bool) (text : String)
  deriving DecidableEq

/-- What the client sees of a command. -/
inductive Seen where
  | ok
  | no (text : String)
  | unsent (text : String)
  | lost (text : String)

/-- The text of an `async_imap` error. -/
def Seen.text : Seen → String
  | .ok => ""
  | .no text => text
  | .unsent text => text
  | .lost text => text

/-- The session: the server's mailboxes, the selected folder, and whether the connection stands. -/
structure Session (β : Type) where
  boxes : Boxes β
  selected : String
  connected : Bool

variable {β : Type}

/-- A command with its effect on the mailboxes. On a lost connection nothing reaches the server. -/
def Session.exec (s : Session β) (op : Boxes β → Boxes β) (r : Reply) : Seen × Session β :=
  if s.connected then
    match r with
    | .ok => (.ok, { s with boxes := op s.boxes })
    | .no e => (.no e, s)
    | .unsent e => (.unsent e, { s with connected := false })
    | .lost executed e => (.lost e, { s with boxes := if executed then op s.boxes else s.boxes, connected := false })
  else
    match r with
    | .unsent e => (.unsent e, s)
    | .lost _ e => (.lost e, s)
    | .no e => (.lost e, s)
    | .ok => (.lost "connection lost", s)

def Session.select (s : Session β) (folder : String) (r : Reply) : Seen × Session β :=
  match s.exec id r with
  | (.ok, s) => (.ok, { s with selected := folder })
  | (seen, s) => (seen, s)

def Session.uidMv (s : Session β) (uid : UInt32) (toFolder : String) (r : Reply) : Seen × Session β :=
  s.exec (fun b => b.move s.selected toFolder uid.toNat) r

def Session.uidCopy (s : Session β) (uid : UInt32) (toFolder : String) (r : Reply) : Seen × Session β :=
  s.exec (fun b => b.copy s.selected toFolder uid.toNat) r

/-- `uid_store(uid, "+FLAGS (\\Deleted)")` -/
def Session.uidStore (s : Session β) (uid : UInt32) (r : Reply) : Seen × Session β :=
  s.exec (fun b => b.store s.selected uid.toNat deletedFlag) r

def Session.expunge (s : Session β) (r : Reply) : Seen × Session β := s.exec (fun b => b.expunge s.selected) r

/-- The replies to the commands of one `move_message`. -/
structure MoveReplies where
  select : Reply
  mv : Reply
  copy : Reply
  store : Reply
  expunge : Reply

def moveMessage (s : Session β) (r : MoveReplies) (fromFolder toFolder : String) (uid : UInt32) :
    Except BackendError Unit × Session β :=
  match s.select fromFolder r.select with
  | (.ok, s) =>
    match s.uidMv uid toFolder r.mv with
    | (.ok, s) => (.ok (), s)
    | (_, s) =>
      match s.uidCopy uid toFolder r.copy with
      | (.ok, s) =>
        match s.uidStore uid r.store with
        | (.unsent e, s) => (.error (.protocol s!"uid_store: {e}"), s)
        | (_, s) =>
          -- the items of the stream are dropped, errors among them
          match s.expunge r.expunge with
          | (.unsent e, s) => (.error (.protocol s!"expunge: {e}"), s)
          | (_, s) => (.ok (), s)
      | (seen, s) => (.error (.protocol s!"uid_copy: {seen.text}"), s)
  | (seen, s) => (.error (.protocol s!"select {fromFolder}: {seen.text}"), s)

/-! ## What a call does to the mailboxes -/

/-- The server carries out the EXPUNGE of the fallback: MOVE is refused, COPY accepted, STORE
answered either way, and EXPUNGE accepted or lost only after it was carried out. -/
structure Expunges (s : Session β) (r : MoveReplies) : Prop where
  connected : s.connected = true
  select : r.select = .ok
  mv : ∃ e, r.mv = .no e
  copy : r.copy = .ok
  store : r.store = .ok ∨ ∃ e, r.store = .no e
  expunge : r.expunge = .ok ∨ ∃ e, r.expunge = .lost true e

/-- The mailboxes after the fallback has copied the message and tried to flag it. -/
def copiedAndFlagged (b : Boxes β) (fromFolder toFolder : String) (uid : Nat) (stored : Bool) : Boxes β :=
  if stored then (b.copy fromFolder toFolder uid).store fromFolder uid deletedFlag
  else b.copy fromFolder toFolder uid

theorem expunge_boxes (b : Boxes β) (folder : String) (r : Reply) :
    ((r = .ok ∨ ∃ e, r = .lost true e) ∧
      ((⟨b, folder, true⟩ : Session β).expunge r).2.boxes = b.expunge folder) ∨
    (¬ (r = .ok ∨ ∃ e, r = .lost true e) ∧ ((⟨b, folder, true⟩ : Session β).expunge r).2.boxes = b) := by
  cases r with
  | ok => exact .inl ⟨.inl rfl, rfl⟩
  | no e => exact .inr ⟨by simp, rfl⟩
  | unsent e => exact .inr ⟨by simp, rfl⟩
  | lost executed e =>
    cases executed with
    | true => exact .inl ⟨.inr ⟨e, rfl⟩, rfl⟩
    | false => exact .inr ⟨by simp, rfl⟩

/-- What a call may leave in the mailboxes: without the EXPUNGE they are as before, or as after the
MOVE, or as after the COPY with or without the flag; with it, the last two expunged. -/
def Leaves (s : Session β) (r : MoveReplies) (fromFolder toFolder : String) (uid : UInt32) (b : Boxes β) : Prop :=
  (¬ Expunges s r ∧ (b = s.boxes ∨ b = s.boxes.move fromFolder toFolder uid.toNat ∨
    ∃ stored, b = copiedAndFlagged s.boxes fromFolder toFolder uid.toNat stored)) ∨
  (Expunges s r ∧ ∃ stored, b = (copiedAndFlagged s.boxes fromFolder toFolder uid.toNat stored).expunge fromFolder)

/-- The fallback after MOVE is refused, COPY accepted and STORE answered. -/
theorem fallback_expunge {b : Boxes β} {selected fromFolder toFolder e : String} {uid : UInt32}
    {rstore rexpunge : Reply}
    (stored : Bool) (hstore : rstore = .ok ∨ ∃ e, rstore = .no e)
    (h : (moveMessage ⟨b, selected, true⟩ ⟨.ok, .no e, .ok, rstore, rexpunge⟩ fromFolder toFolder uid).2.boxes =
      ((⟨copiedAndFlagged b fromFolder toFolder uid.toNat stored, fromFolder, true⟩ : Session β).expunge
        rexpunge).2.boxes) :
    (Expunges (⟨b, selected, true⟩ : Session β) ⟨.ok, .no e, .ok, rstore, rexpunge⟩ ∧
      (moveMessage ⟨b, selected, true⟩ ⟨.ok, .no e, .ok, rstore, rexpunge⟩ fromFolder toFolder uid).2.boxes =
        (copiedAndFlagged b fromFolder toFolder uid.toNat stored).expunge fromFolder) ∨
    (¬ Expunges (⟨b, selected, true⟩ : Session β) ⟨.ok, .no e, .ok, rstore, rexpunge⟩ ∧
      (moveMessage ⟨b, selected, true⟩ ⟨.ok, .no e, .ok, rstore, rexpunge⟩ fromFolder toFolder uid).2.boxes =
        copiedAndFlagged b fromFolder toFolder uid.toNat stored) := by
  rw [h]
  rcases expunge_boxes (copiedAndFlagged b fromFolder toFolder uid.toNat stored) fromFolder rexpunge with
    ⟨hex, he⟩ | ⟨hno, he⟩
  · exact .inl ⟨⟨rfl, rfl, ⟨e, rfl⟩, rfl, hstore, hex⟩, he⟩
  · exact .inr ⟨fun h => hno h.expunge, he⟩

theorem fallback_leaves {b : Boxes β} {selected fromFolder toFolder e : String} {uid : UInt32}
    {rstore rexpunge : Reply}
    (stored : Bool) (hstore : rstore = .ok ∨ ∃ e, rstore = .no e)
    (h : (moveMessage ⟨b, selected, true⟩ ⟨.ok, .no e, .ok, rstore, rexpunge⟩ fromFolder toFolder uid).2.boxes =
      ((⟨copiedAndFlagged b fromFolder toFolder uid.toNat stored, fromFolder, true⟩ : Session β).expunge
        rexpunge).2.boxes) :
    Leaves ⟨b, selected, true⟩ ⟨.ok, .no e, .ok, rstore, rexpunge⟩ fromFolder toFolder uid
      (moveMessage ⟨b, selected, true⟩ ⟨.ok, .no e, .ok, rstore, rexpunge⟩ fromFolder toFolder uid).2.boxes := by
  rcases fallback_expunge stored hstore h with ⟨hex, he⟩ | ⟨hno, he⟩
  · exact .inr ⟨hex, stored, he⟩
  · exact .inl ⟨hno, .inr (.inr ⟨stored, he⟩)⟩

theorem moveMessage_leaves (s : Session β) (r : MoveReplies) (fromFolder toFolder : String) (uid : UInt32) :
    Leaves s r fromFolder toFolder uid (moveMessage s r fromFolder toFolder uid).2.boxes := by
  obtain ⟨b, selected, connected⟩ := s
  obtain ⟨rselect, rmv, rcopy, rstore, rexpunge⟩ := r
  cases connected with
  | false =>
    -- Without a connection no command is carried out.
    refine .inl ⟨fun h => (by cases h.connected), .inl ?_⟩
    cases rselect <;> rfl
  | true =>
    cases rselect with
    | no e => exact .inl ⟨fun h => (by cases h.select), .inl rfl⟩
    | unsent e => exact .inl ⟨fun h => (by cases h.select), .inl rfl⟩
    | lost executed e =>
      refine .inl ⟨fun h => (by cases h.select), .inl ?_⟩
      cases executed <;> rfl
    | ok =>
      cases rmv with
      | ok => exact .inl ⟨fun h => (by obtain ⟨e, he⟩ := h.mv; cases he), .inr (.inl rfl)⟩
      | unsent e =>
        refine .inl ⟨fun h => (by obtain ⟨e, he⟩ := h.mv; cases he), .inl ?_⟩
        cases rcopy <;> rfl
      -- The connection went with the reply, so the fallback's COPY is not carried out.
      | lost executed e =>
        refine .inl ⟨fun h => (by obtain ⟨e, he⟩ := h.mv; cases he), ?_⟩
        cases executed with
        | true => exact .inr (.inl (by cases rcopy <;> rfl))
        | false => exact .inl (by cases rcopy <;> rfl)
      | no e =>
        cases rcopy with
        | no e => exact .inl ⟨fun h => (by cases h.copy), .inl rfl⟩
        | unsent e => exact .inl ⟨fun h => (by cases h.copy), .inl rfl⟩
        | lost executed e =>
          refine .inl ⟨fun h => (by cases h.copy), ?_⟩
          cases executed with
          | true => exact .inr (.inr ⟨false, rfl⟩)
          | false => exact .inl rfl
        | ok =>
          cases rstore with
          | unsent e =>
            exact .inl ⟨fun h => (by rcases h.store with h | ⟨_, h⟩ <;> cases h), .inr (.inr ⟨false, rfl⟩)⟩
          | lost executed e =>
            refine .inl ⟨fun h => (by rcases h.store with h | ⟨_, h⟩ <;> cases h), .inr (.inr ⟨executed, ?_⟩)⟩
            cases executed <;> cases rexpunge <;> rfl
          | ok => exact fallback_leaves true (.inl rfl) (by cases rexpunge <;> rfl)
          | no e' => exact fallback_leaves false (.inr ⟨e', rfl⟩) (by cases rexpunge <;> rfl)

/-! ## What is kept -/

/-- No message is lost and no other touched: every message but the moved one is where it was with
its flags and body, and the moved one is still in its folder or new in the target. -/
structure NothingLost (b b' : Boxes β) (fromFolder toFolder : String) (m₀ : Message β) : Prop where
  others : ∀ f, ∀ m ∈ (b f).messages, ¬ (f = fromFolder ∧ m.uid = m₀.uid) → m ∈ (b' f).messages
  kept : (∃ m ∈ (b' fromFolder).messages, m.uid = m₀.uid ∧ m.body = m₀.body) ∨
    ∃ m ∈ (b' toFolder).messages, (b toFolder).uidNext ≤ m.uid ∧ m.body = m₀.body

section Kept

variable {b : Boxes β} {fromFolder toFolder : String} {m₀ : Message β}

theorem nothingLost_refl (h : m₀ ∈ (b fromFolder).messages) : NothingLost b b fromFolder toFolder m₀ :=
  ⟨fun _ _ hm _ => hm, .inl ⟨m₀, h, rfl, rfl⟩⟩

/-- The messages after the fallback's first two steps: another message is there exactly when it was
there or is the copy. -/
theorem mem_copiedAndFlagged (h : m₀ ∈ (b fromFolder).messages) {stored : Bool} {f : String} {m : Message β}
    (hne : ¬ (f = fromFolder ∧ m.uid = m₀.uid)) :
    m ∈ (copiedAndFlagged b fromFolder toFolder m₀.uid stored f).messages ↔
      m ∈ (b f).messages ∨ (f = toFolder ∧ m = ⟨(b toFolder).uidNext, m₀.flags, m₀.body⟩) := by
  unfold copiedAndFlagged
  cases stored with
  | true => exact (Boxes.mem_store_of_ne hne).trans (Boxes.mem_copy (Folder.find?_eq_some.2 ⟨h, rfl⟩))
  | false => exact Boxes.mem_copy (Folder.find?_eq_some.2 ⟨h, rfl⟩)

/-- The copy is not the message it was made from. -/
theorem copy_ne (h : m₀ ∈ (b fromFolder).messages) :
    ¬ (toFolder = fromFolder ∧ (b toFolder).uidNext = m₀.uid) := by
  rintro ⟨rfl, hu⟩
  exact absurd ((b toFolder).uid_lt m₀ h) (by omega)

theorem copy_mem_copiedAndFlagged (h : m₀ ∈ (b fromFolder).messages) (stored : Bool) :
    ⟨(b toFolder).uidNext, m₀.flags, m₀.body⟩ ∈
      (copiedAndFlagged b fromFolder toFolder m₀.uid stored toFolder).messages :=
  (mem_copiedAndFlagged h (copy_ne h)).2 (.inr ⟨rfl, rfl⟩)

theorem nothingLost_copied (h : m₀ ∈ (b fromFolder).messages) (stored : Bool) :
    NothingLost b (copiedAndFlagged b fromFolder toFolder m₀.uid stored) fromFolder toFolder m₀ :=
  ⟨fun _ _ hm hne => (mem_copiedAndFlagged h hne).2 (.inl hm),
    .inr ⟨_, copy_mem_copiedAndFlagged h stored, Nat.le_refl _, rfl⟩⟩

theorem nothingLost_move (h : m₀ ∈ (b fromFolder).messages) :
    NothingLost b (b.move fromFolder toFolder m₀.uid) fromFolder toFolder m₀ := by
  have hmem : ∀ f m, ¬ (f = fromFolder ∧ m.uid = m₀.uid) →
      m ∈ (b.copy fromFolder toFolder m₀.uid f).messages → m ∈ (b.move fromFolder toFolder m₀.uid f).messages := by
    intro f m hne hm
    unfold Boxes.move
    by_cases hf : f = fromFolder
    · subst hf
      rw [Function.update_self, Folder.mem_keep]
      exact ⟨hm, decide_eq_true fun hu => hne ⟨rfl, hu⟩⟩
    · rw [Function.update_of_ne hf]; exact hm
  have hcopy := Folder.find?_eq_some.2 ⟨h, rfl⟩
  refine ⟨fun f m hm hne => hmem f m hne ((Boxes.mem_copy hcopy).2 (.inl hm)),
    .inr ⟨⟨(b toFolder).uidNext, m₀.flags, m₀.body⟩, ?_, Nat.le_refl _, rfl⟩⟩
  exact hmem _ _ (copy_ne h) ((Boxes.mem_copy hcopy).2 (.inr ⟨rfl, rfl⟩))

/-- Within one folder and with the moved message flagged, so are all that stand for it. -/
theorem deleted_of_copiedAndFlagged (h : m₀ ∈ (b fromFolder).messages) (hdel : m₀.Deleted) {stored : Bool}
    {m : Message β} (hm : m ∈ (copiedAndFlagged b fromFolder fromFolder m₀.uid stored fromFolder).messages)
    (hu : m.uid = m₀.uid ∨ (b fromFolder).uidNext ≤ m.uid) : m.Deleted := by
  have hlt := (b fromFolder).uid_lt m₀ h
  by_cases hu₀ : m.uid = m₀.uid
  · cases stored with
    | true => exact Boxes.flag_mem_of_store hm hu₀
    | false =>
      rcases (Boxes.mem_copy (Folder.find?_eq_some.2 ⟨h, rfl⟩)).1 hm with hm | ⟨-, rfl⟩
      · rw [Folder.eq_of_uid hm h hu₀]; exact hdel
      · exact hdel
  · rcases (mem_copiedAndFlagged h fun he => hu₀ he.2).1 hm with hm | ⟨-, rfl⟩
    · have := (b fromFolder).uid_lt m hm
      rcases hu with hu | hu <;> omega
    · exact hdel

/-- EXPUNGE after the fallback's first two steps loses nothing exactly when no other message of the
folder was flagged and, within one folder, the moved message was not flagged itself. -/
theorem nothingLost_expunged_iff (h : m₀ ∈ (b fromFolder).messages) (stored : Bool) :
    NothingLost b ((copiedAndFlagged b fromFolder toFolder m₀.uid stored).expunge fromFolder) fromFolder toFolder m₀ ↔
      (∀ m ∈ (b fromFolder).messages, m.uid ≠ m₀.uid → ¬ m.Deleted) ∧ (fromFolder = toFolder → ¬ m₀.Deleted) := by
  constructor
  · intro hsafe
    refine ⟨fun m hm hu hdel => ?_, fun hft hdel => ?_⟩
    · have := hsafe.others fromFolder m hm (fun he => hu he.2)
      exact (Boxes.mem_expunge.1 this).2 rfl hdel
    · subst hft
      rcases hsafe.kept with ⟨m, hm, hu, -⟩ | ⟨m, hm, hu, -⟩
      · obtain ⟨hm, hnot⟩ := Boxes.mem_expunge.1 hm
        exact hnot rfl (deleted_of_copiedAndFlagged h hdel hm (.inl hu))
      · obtain ⟨hm, hnot⟩ := Boxes.mem_expunge.1 hm
        exact hnot rfl (deleted_of_copiedAndFlagged h hdel hm (.inr hu))
  · rintro ⟨hothers, hsame⟩
    refine ⟨fun f m hm hne => ?_, .inr ⟨_, Boxes.mem_expunge.2 ⟨copy_mem_copiedAndFlagged h stored, ?_⟩,
      Nat.le_refl _, rfl⟩⟩
    · refine Boxes.mem_expunge.2 ⟨(mem_copiedAndFlagged h hne).2 (.inl hm), fun hf => ?_⟩
      subst hf
      exact hothers m hm fun hu => hne ⟨rfl, hu⟩
    · exact fun hft => hsame hft.symm

end Kept

/-- `move_message` loses no message and touches no other exactly when it is not the case that the
EXPUNGE of its fallback is carried out while another message of the folder carries `\Deleted`, or
while source and target are one folder and the message itself carries it. -/
theorem moveMessage_nothingLost_iff (s : Session β) (r : MoveReplies) (fromFolder toFolder : String) (uid : UInt32)
    (m₀ : Message β) (h : (s.boxes fromFolder).find? uid.toNat = some m₀) :
    NothingLost s.boxes (moveMessage s r fromFolder toFolder uid).2.boxes fromFolder toFolder m₀ ↔
      ¬ (Expunges s r ∧ ((∃ m ∈ (s.boxes fromFolder).messages, m.uid ≠ uid.toNat ∧ m.Deleted) ∨
        (fromFolder = toFolder ∧ m₀.Deleted))) := by
  obtain ⟨hm, hu⟩ := Folder.find?_eq_some.1 h
  have hcond : (∀ m ∈ (s.boxes fromFolder).messages, m.uid ≠ m₀.uid → ¬ m.Deleted) ∧
      (fromFolder = toFolder → ¬ m₀.Deleted) ↔
      ¬ ((∃ m ∈ (s.boxes fromFolder).messages, m.uid ≠ m₀.uid ∧ m.Deleted) ∨
        (fromFolder = toFolder ∧ m₀.Deleted)) := by
    rw [not_or, not_and]
    refine and_congr_left fun _ => ?_
    constructor
    · rintro hall ⟨m, hm, hne, hdel⟩; exact hall m hm hne hdel
    · intro hno m hm hne hdel; exact hno ⟨m, hm, hne, hdel⟩
  rcases moveMessage_leaves s r fromFolder toFolder uid with ⟨hno, hboxes⟩ | ⟨hex, stored, hboxes⟩
  · refine ⟨fun _ he => hno he.1, fun _ => ?_⟩
    rcases hboxes with hboxes | hboxes | ⟨stored, hboxes⟩
    · rw [hboxes]; exact nothingLost_refl hm
    · rw [hboxes, ← hu]; exact nothingLost_move hm
    · rw [hboxes, ← hu]; exact nothingLost_copied hm stored
  · rw [hboxes, ← hu, nothingLost_expunged_iff hm stored, hcond]
    exact ⟨fun hnot he => hnot he.2, fun hnot he => hnot ⟨hex, he⟩⟩

/-! ## A folder with a message another client has deleted -/

def deletedElsewhere : Message String := ⟨1, ["\\Seen", "\\Deleted"], "kept for undo"⟩

def toMove : Message String := ⟨2, ["\\Seen"], "newsletter"⟩

def sampleInbox : Folder String := ⟨[deletedElsewhere, toMove], 3, by decide, by decide⟩

def sampleSession : Session String :=
  { boxes := Function.update (fun _ => ⟨[], 1, by decide, by decide⟩) "INBOX" sampleInbox
    selected := ""
    connected := true }

/-- A server without MOVE that accepts everything else. -/
def withoutMove : MoveReplies :=
  { select := .ok, mv := .no "BAD unknown command", copy := .ok, store := .ok, expunge := .ok }

theorem nothingLost_with_move :
    NothingLost sampleSession.boxes
      (moveMessage sampleSession { withoutMove with mv := .ok } "INBOX" "Promotions" 2).2.boxes
      "INBOX" "Promotions" toMove := by
  refine (moveMessage_nothingLost_iff sampleSession { withoutMove with mv := .ok } "INBOX" "Promotions" 2 toMove
    (by decide)).2 ?_
  rintro ⟨h, -⟩
  obtain ⟨e, he⟩ := h.mv
  cases he

/-- Without MOVE the message another client had flagged is gone after the move of message 2. -/
theorem fallback_removes_other_message :
    ¬ NothingLost sampleSession.boxes
      (moveMessage sampleSession withoutMove "INBOX" "Promotions" 2).2.boxes "INBOX" "Promotions" toMove := by
  intro h
  have hkept := h.others "INBOX" deletedElsewhere (by decide) (by decide)
  exact absurd hkept (by decide)

end Imap

end Thundercrab
