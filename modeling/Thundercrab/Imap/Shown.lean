/-
`rust_imap.rs`, from `fetch_headers` to `move_message` and `set_flag`. The messages are fetched by their
numbers in the folder, which change whenever another client removes one, but what is shown of them
carries their UIDs, and the calls that act on them name these. So however long ago the headers were
fetched and whatever has happened to the account since, the message acted on is the one that was shown.
-/
import Thundercrab.Lib.Traverse
import Thundercrab.Imap.FetchHeaders
import Thundercrab.Imap.Interleaving

namespace Thundercrab

open Lib

namespace Imap

variable {β : Type}

/-! ## What is shown -/

/-- What a server answers to FETCH about a message: its UID, and what it reads off the body. -/
def fetchOf (render : β → Option Envelope × Option Bytes) (m : Message β) : Fetch where
  uid := some (UInt32.ofNat m.uid)
  envelope := (render m.body).1
  header := (render m.body).2

/-- The headers that are shown of a message. -/
def shown (render : β → Option Envelope × Option Bytes) (folder : String) (m : Message β) : MessageHeaders :=
  messageHeaders folder (fetchOf render m)

/-- What the server answers to FETCH are messages of the folder. -/
def Answers (server : Mailboxes) (render : β → Option Envelope × Option Bytes) (b : Boxes β) (folder : String) : Prop :=
  ∀ range items, server.fetch range fetchArgs = .ok items →
    ∀ f, .ok f ∈ items → ∃ m ∈ (b folder).messages, f = fetchOf render m

theorem mem_collect {folder : String} {items : List (Except String Fetch)} {headers : List MessageHeaders}
    (h : collect folder items = .ok headers) {header : MessageHeaders} (hmem : header ∈ headers) :
    ∃ f, .ok f ∈ items ∧ header = messageHeaders folder f := by
  obtain ⟨item, hitem, hf⟩ := mem_of_mapM_ok h hmem
  cases item with
  | error e => cases hf
  | ok f =>
    cases hf
    exact ⟨f, hitem, rfl⟩

/-- Each header returned is of a message of the folder. -/
theorem exists_of_fetchHeaders {server : Mailboxes} {render : β → Option Envelope × Option Bytes} {b : Boxes β}
    {folder : String} {limit : Option UInt32} {headers : List MessageHeaders} (hserver : Answers server render b folder)
    (h : (fetchHeaders server folder limit).2 = .ok headers) {header : MessageHeaders} (hmem : header ∈ headers) :
    ∃ m ∈ (b folder).messages, header = shown render folder m := by
  unfold fetchHeaders at h
  cases hexamine : server.examine folder with
  | error e =>
    rw [hexamine] at h
    cases h
  | ok total =>
    rw [hexamine] at h
    simp only at h
    split at h
    · cases h
      cases hmem
    · cases hfetch : server.fetch (fetchRange total limit) fetchArgs with
      | error e =>
        rw [hfetch] at h
        cases h
      | ok items =>
        rw [hfetch] at h
        obtain ⟨f, hf, rfl⟩ := mem_collect h hmem
        obtain ⟨m, hm, rfl⟩ := hserver _ _ hfetch f hf
        exact ⟨m, hm, rfl⟩

/-! ## The account goes on -/

theorem continues_effect (b : Boxes β) (selected : String) (call : MoveCall) :
    Boxes.Continues b (call.effect selected b) := by
  cases call with
  | select fromFolder toFolder uid => exact .refl b
  | mv toFolder uid => exact Boxes.continues_move b selected toFolder uid.toNat
  | copy toFolder uid => exact Boxes.continues_copy b selected toFolder uid.toNat
  | store uid => exact Boxes.continues_setFlags b selected uid.toNat _
  | expunge => exact Boxes.continues_expunge b selected

theorem Account.step_continues (a : Account β) (ev : Event β) : Boxes.Continues a.boxes (a.step ev).boxes := by
  cases ev with
  | connect i => exact .refl _
  | move i fromFolder toFolder uid =>
    simp only [Account.step]
    cases (a.connections i).call with
    | some c => exact .refl _
    | none => exact .refl _
  | command i r =>
    cases hcall : (a.connections i).call with
    | none =>
      simp only [Account.step]
      rw [hcall]
      exact .refl _
    | some c =>
      obtain ⟨⟨s, next⟩, hout, hstep⟩ := a.step_command hcall r
      rw [hstep, Account.after_boxes]
      rcases hout.boxes with hb | hb
      · rw [hb]
        exact .refl _
      · rw [hb]
        exact continues_effect _ _ _
  | flag i replies folder uid text set =>
    simp only [Account.step]
    cases (a.connections i).call with
    | some c => exact .refl _
    | none =>
      rw [Account.after_boxes]
      rcases setFlag_boxes (a.session i) replies folder uid text set with hb | hb
      · rw [hb]
        exact .refl _
      · rw [hb, storeItem_itemText]
        exact Boxes.continues_setFlags _ _ _ _
  | deliver folder flags body => exact Boxes.continues_append _ _ _ _
  | expunge folder => exact Boxes.continues_expunge _ _

theorem Account.run_continues : ∀ (a : Account β) (evs : List (Event β)), Boxes.Continues a.boxes (a.run evs).boxes
  | _, [] => .refl _
  | a, ev :: evs => (a.step_continues ev).trans (run_continues (a.step ev) evs)

/-! ## What the calls act on -/

/-- What a `move_message` adds to the target is the message of the UID. -/
theorem moveMessage_new (s : Session β) (r : MoveReplies) (fromFolder toFolder : String) (uid : UInt32) {m : Message β}
    (hm : m ∈ ((moveMessage s r fromFolder toFolder uid).2.boxes toFolder).messages)
    (hnew : (s.boxes toFolder).uidNext ≤ m.uid) :
    ∃ m₀ ∈ (s.boxes fromFolder).messages, m₀.uid = uid.toNat ∧ m₀.body = m.body := by
  have hcopied : ∀ {stored : Bool},
      m ∈ (copiedAndFlagged s.boxes fromFolder toFolder uid.toNat stored toFolder).messages →
      ∃ m₀ ∈ (s.boxes fromFolder).messages, m₀.uid = uid.toNat ∧ m₀.body = m.body := by
    intro stored hm
    cases stored with
    | false => exact Boxes.mem_copy_new hm hnew
    | true =>
      -- The flag changes neither its UID nor its body.
      have hflagged :
          m ∈ ((s.boxes.copy fromFolder toFolder uid.toNat).setFlags fromFolder uid.toNat _ toFolder).messages := hm
      rcases Boxes.mem_setFlags.1 hflagged with ⟨hm, -⟩ | ⟨-, x, hx, hu, rfl⟩
      · exact Boxes.mem_copy_new hm hnew
      · obtain ⟨m₀, hm₀, hu₀, hb₀⟩ := Boxes.mem_copy_new hx hnew
        exact ⟨m₀, hm₀, hu₀, hb₀⟩
  rcases moveMessage_leaves s r fromFolder toFolder uid with ⟨-, hb | hb | ⟨stored, hb⟩⟩ | ⟨-, stored, hb⟩
  · rw [hb] at hm
    exact absurd ((s.boxes toFolder).uid_lt m hm) (Nat.not_lt.2 hnew)
  · rw [hb] at hm
    exact Boxes.mem_copy_new (Boxes.mem_move.1 hm).1 hnew
  · rw [hb] at hm
    exact hcopied hm
  · rw [hb] at hm
    exact hcopied (Boxes.mem_expunge.1 hm).1

/-- A message that `set_flag` changes is the one of the UID. -/
theorem setFlag_changed (s : Session β) (r : SetFlagReplies) (folder : String) (uid : UInt32) (flag : String)
    (set : Bool) {f : String} {m : Message β} (hm : m ∈ (s.boxes f).messages)
    (hchanged : m ∉ ((setFlag s r folder uid flag set).2.boxes f).messages) : f = folder ∧ m.uid = uid.toNat := by
  rcases setFlag_boxes s r folder uid flag set with hb | hb
  · rw [hb] at hchanged
    exact absurd hm hchanged
  · by_contra hne
    rw [hb, storeItem_itemText] at hchanged
    exact hchanged (Boxes.mem_setFlags.2 (.inl ⟨hm, hne⟩))

/-- The message acted on is the one that was shown. Headers are fetched from a folder; then calls on any
connections are made in any interleaving, with any replies, and other clients deliver, flag and expunge;
then one of the headers is chosen, and the message with its UID is moved or flagged. What the move adds
to the target, and whatever `set_flag` changes, has the body of the message fetched, and is shown by
these headers. -/
theorem acts_on_message_shown (render : β → Option Envelope × Option Bytes) (a : Account β) (server : Mailboxes)
    (folder : String) (limit : Option UInt32) (headers : List MessageHeaders) (evs : List (Event β)) (s : Session β)
    (huid : (a.boxes folder).uidNext ≤ 4294967296) (hserver : Answers server render a.boxes folder)
    (hfetch : (fetchHeaders server folder limit).2 = .ok headers) (hs : s.boxes = (a.run evs).boxes) :
    ∀ header ∈ headers, ∃ m₀ ∈ (a.boxes folder).messages,
      header = shown render folder m₀ ∧ header.uid.toNat = m₀.uid ∧
      (∀ r toFolder, ∀ m ∈ ((moveMessage s r folder toFolder header.uid).2.boxes toFolder).messages,
        (s.boxes toFolder).uidNext ≤ m.uid →
          m.body = m₀.body ∧ shown render folder ⟨header.uid.toNat, m.flags, m.body⟩ = header) ∧
      ∀ r flag set f, ∀ m ∈ (s.boxes f).messages, m ∉ ((setFlag s r folder header.uid flag set).2.boxes f).messages →
        (f = folder ∧ m.uid = m₀.uid ∧ m.body = m₀.body) ∧ shown render folder m = header := by
  intro header hmem
  obtain ⟨m₀, hm₀, rfl⟩ := exists_of_fetchHeaders hserver hfetch hmem
  have hlt : m₀.uid < (a.boxes folder).uidNext := (a.boxes folder).uid_lt m₀ hm₀
  have huid₀ : (shown render folder m₀).uid.toNat = m₀.uid :=
    UInt32.toNat_ofNat_of_lt' (Nat.lt_of_lt_of_le hlt huid)
  -- Whatever has the UID now has the body that was shown.
  have hsame : ∀ m ∈ (s.boxes folder).messages, m.uid = m₀.uid → m.body = m₀.body := by
    intro m hm hu
    rw [hs] at hm
    obtain ⟨m₁, hm₁, hu₁, hb₁⟩ := (a.run_continues evs).same folder m hm (hu ▸ hlt)
    rw [← hb₁, (a.boxes folder).eq_of_uid hm₁ hm₀ (hu₁.trans hu)]
  have hshown : ∀ m : Message β, m.uid = m₀.uid → m.body = m₀.body →
      shown render folder m = shown render folder m₀ := by
    intro m hu hb
    unfold shown fetchOf
    rw [hu, hb]
  refine ⟨m₀, hm₀, rfl, huid₀, fun r toFolder m hm hnew => ?_, fun r flag set f m hm hchanged => ?_⟩
  · obtain ⟨m₁, hm₁, hu₁, hb₁⟩ := moveMessage_new s r folder toFolder _ hm hnew
    have hbody : m.body = m₀.body := hb₁.symm.trans (hsame m₁ hm₁ (hu₁.trans huid₀))
    exact ⟨hbody, hshown _ huid₀ hbody⟩
  · obtain ⟨rfl, hu⟩ := setFlag_changed s r folder _ flag set hm hchanged
    have hbody := hsame m hm (hu.trans huid₀)
    exact ⟨⟨rfl, hu.trans huid₀, hbody⟩, hshown m (hu.trans huid₀) hbody⟩

/-- The subject of a message is its text. -/
def subjectOnly (body : String) : Option Envelope × Option Bytes := (some ⟨none, some (utf8 body)⟩, none)

/-- Both messages are fetched, and then another client removes the first. -/
def inboxServer : Mailboxes where
  examine _ := .ok 2
  fetch _ _ := .ok (sampleInbox.messages.map fun m => .ok (fetchOf subjectOnly m))

def afterExpunge : Session String := ⟨(racingAccount.run [.expunge "INBOX"]).boxes, "", true⟩

/-- What the move adds to the target. -/
def movedMessage : Message String := ⟨1, ["\\Seen"], "newsletter"⟩

theorem second_message_moved : ∃ m₀ ∈ (racingAccount.boxes "INBOX").messages,
    shown subjectOnly "INBOX" toMove = shown subjectOnly "INBOX" m₀ ∧ movedMessage.body = m₀.body := by
  have hserver : Answers inboxServer subjectOnly racingAccount.boxes "INBOX" := by
    intro range items hitems f hf
    cases hitems
    obtain ⟨m, hm, he⟩ := List.mem_map.1 hf
    cases he
    exact ⟨m, hm, rfl⟩
  obtain ⟨m₀, hm₀, hheader, -, hmoved, -⟩ := acts_on_message_shown subjectOnly racingAccount inboxServer "INBOX" none
    (sampleInbox.messages.map (shown subjectOnly "INBOX")) [.expunge "INBOX"] afterExpunge (by decide) hserver rfl rfl
    (shown subjectOnly "INBOX" toMove) (List.mem_map_of_mem (by decide))
  exact ⟨m₀, hm₀, hheader, (hmoved withoutMove "Promotions" movedMessage (by decide) (by decide)).1⟩

end Imap

end Thundercrab
