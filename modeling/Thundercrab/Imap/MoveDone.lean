/-
`rust_imap.rs`, `move_message`: what its `Ok` stands for. A MOVE that the server accepts has moved
the message. The fallback drops the items of the streams of STORE and EXPUNGE, so that it returns
`Ok` whatever the server answers to the two, and a refusal of either leaves the message in both
folders.
-/
import Thundercrab.Imap.Move
import Mathlib.Data.List.Count

namespace Thundercrab

open Lib

namespace Imap

variable {β : Type}

/-! ## When a call returns `Ok` -/

/-- The call comes to its end by the fallback: MOVE is refused, COPY accepted, and STORE and EXPUNGE
are sent, whatever becomes of them. -/
structure FallsThrough (s : Session β) (r : MoveReplies) : Prop where
  connected : s.connected = true
  select : r.select = .ok
  mv : ∃ e, r.mv = .no e
  copy : r.copy = .ok
  store : ∀ e, r.store ≠ .unsent e
  expunge : ∀ e, r.expunge ≠ .unsent e

/-- A call that returns `Ok` has had its MOVE carried out, or has come to the end of the fallback. -/
theorem moveMessage_ok_cases {s : Session β} {r : MoveReplies} {fromFolder toFolder : String} {uid : UInt32}
    (h : (moveMessage s r fromFolder toFolder uid).1 = .ok ()) :
    (moveMessage s r fromFolder toFolder uid).2.boxes = s.boxes.move fromFolder toFolder uid.toNat ∨
      FallsThrough s r := by
  obtain ⟨b, selected, connected⟩ := s
  obtain ⟨rselect, rmv, rcopy, rstore, rexpunge⟩ := r
  cases connected with
  | false => cases rselect <;> cases h
  | true =>
    cases rselect with
    | no e => cases h
    | unsent e => cases h
    | lost executed e => cases h
    | ok =>
      cases rmv with
      | ok => exact .inl rfl
      | unsent e => cases rcopy <;> cases h
      | lost executed e => cases rcopy <;> cases h
      | no e =>
        cases rcopy with
        | no e => cases h
        | unsent e => cases h
        | lost executed e => cases h
        | ok =>
          have hstore : ∀ e, rstore ≠ .unsent e := by rintro e rfl; cases h
          have hexpunge : ∀ e, rexpunge ≠ .unsent e := by rintro e rfl; cases rstore <;> cases h
          exact .inr ⟨rfl, rfl, ⟨e, rfl⟩, rfl, hstore, hexpunge⟩

/-- What the end of the fallback leaves: the message copied and, where the server carried out the
STORE, flagged; and where it carried out the EXPUNGE, the flagged messages of the folder gone. -/
theorem moveMessage_of_fallsThrough {s : Session β} {r : MoveReplies} (fromFolder toFolder : String) (uid : UInt32)
    (h : FallsThrough s r) :
    (moveMessage s r fromFolder toFolder uid).1 = .ok () ∧
      ((Expunges s r ∧ (moveMessage s r fromFolder toFolder uid).2.boxes =
          (copiedAndFlagged s.boxes fromFolder toFolder uid.toNat (r.store = .ok)).expunge fromFolder) ∨
        (¬ Expunges s r ∧ ∃ stored, (moveMessage s r fromFolder toFolder uid).2.boxes =
          copiedAndFlagged s.boxes fromFolder toFolder uid.toNat stored)) := by
  obtain ⟨b, selected, connected⟩ := s
  obtain ⟨rselect, rmv, rcopy, rstore, rexpunge⟩ := r
  obtain ⟨rfl, rfl, ⟨e, rfl⟩, rfl, hstore, hexpunge⟩ := h
  simp only at hstore hexpunge
  cases rstore with
  | unsent e => exact absurd rfl (hstore e)
  | lost executed e' =>
    -- The EXPUNGE finds the connection gone.
    have hno : ¬ Expunges (⟨b, selected, true⟩ : Session β) ⟨.ok, .no e, .ok, .lost executed e', rexpunge⟩ := by
      intro h
      rcases h.store with h | ⟨_, h⟩ <;> cases h
    cases rexpunge with
    | unsent e => exact absurd rfl (hexpunge e)
    | ok => exact ⟨rfl, .inr ⟨hno, executed, by cases executed <;> rfl⟩⟩
    | no e => exact ⟨rfl, .inr ⟨hno, executed, by cases executed <;> rfl⟩⟩
    | lost _ e => exact ⟨rfl, .inr ⟨hno, executed, by cases executed <;> rfl⟩⟩
  | ok =>
    refine ⟨?_, (fallback_expunge true (.inl rfl) (by cases rexpunge <;> rfl)).imp id fun h => ⟨h.1, true, h.2⟩⟩
    cases rexpunge with
    | unsent e => exact absurd rfl (hexpunge e)
    | _ => rfl
  | no e' =>
    refine ⟨?_, (fallback_expunge false (.inr ⟨e', rfl⟩) (by cases rexpunge <;> rfl)).imp id
      fun h => ⟨h.1, false, h.2⟩⟩
    cases rexpunge with
    | unsent e => exact absurd rfl (hexpunge e)
    | _ => rfl

/-! ## What a move is -/

section Moved

/-- How often a folder has a body. -/
def copies [DecidableEq β] (f : Folder β) (body : β) : Nat := (f.messages.map Message.body).count body

theorem copies_append [DecidableEq β] (f : Folder β) (flags : List String) (body : β) :
    copies (f.append flags body) body = copies f body + 1 := by
  unfold copies Folder.append
  rw [List.map_append, List.count_append]
  simp

/-- The message is in the target once more than before and no longer in its folder. -/
structure Moved [DecidableEq β] (b b' : Boxes β) (fromFolder toFolder : String) (m₀ : Message β) : Prop where
  arrived : copies (b' toFolder) m₀.body = copies (b toFolder) m₀.body + 1
  gone : ∀ m ∈ (b' fromFolder).messages, m.uid ≠ m₀.uid

variable {b : Boxes β} {fromFolder toFolder : String} {m₀ : Message β}

theorem copy_target (h : m₀ ∈ (b fromFolder).messages) :
    b.copy fromFolder toFolder m₀.uid toFolder = (b toFolder).append m₀.flags m₀.body := by
  unfold Boxes.copy
  rw [Folder.find?_eq_some.2 ⟨h, rfl⟩]
  exact Function.update_self ..

theorem copiedAndFlagged_target (h : m₀ ∈ (b fromFolder).messages) (hne : fromFolder ≠ toFolder) (stored : Bool) :
    copiedAndFlagged b fromFolder toFolder m₀.uid stored toFolder = (b toFolder).append m₀.flags m₀.body := by
  unfold copiedAndFlagged
  cases stored with
  | true =>
    rw [if_pos rfl]
    unfold Boxes.store
    rw [Function.update_of_ne hne.symm]
    exact copy_target h
  | false => exact copy_target h

/-- MOVE moves the message. -/
theorem moved_move [DecidableEq β] (h : m₀ ∈ (b fromFolder).messages) (hne : fromFolder ≠ toFolder) :
    Moved b (b.move fromFolder toFolder m₀.uid) fromFolder toFolder m₀ := by
  unfold Boxes.move
  refine ⟨?_, fun m hm => ?_⟩
  · rw [Function.update_of_ne hne.symm, copy_target h]
    exact copies_append ..
  · rw [Function.update_self, Folder.mem_keep] at hm
    exact of_decide_eq_true hm.2

/-- After the fallback's first two steps the message is still in its folder, and it is flagged when
it was before or the STORE was carried out. -/
theorem exists_mem_copiedAndFlagged (h : m₀ ∈ (b fromFolder).messages) (stored : Bool) :
    ∃ m ∈ (copiedAndFlagged b fromFolder toFolder m₀.uid stored fromFolder).messages, m.uid = m₀.uid ∧
      (m.Deleted ↔ stored = true ∨ m₀.Deleted) := by
  have hcopy : m₀ ∈ (b.copy fromFolder toFolder m₀.uid fromFolder).messages :=
    (Boxes.mem_copy (Folder.find?_eq_some.2 ⟨h, rfl⟩)).2 (.inl h)
  unfold copiedAndFlagged
  cases stored with
  | false => exact ⟨m₀, hcopy, rfl, by simp⟩
  | true =>
    rw [if_pos rfl]
    obtain ⟨m, hm, hu⟩ := Boxes.exists_mem_store deletedFlag hcopy
    exact ⟨m, hm, hu, iff_of_true (Boxes.flag_mem_of_store hm hu) (.inl rfl)⟩

/-- The fallback without its EXPUNGE leaves the message where it was. -/
theorem not_moved_copied [DecidableEq β] (h : m₀ ∈ (b fromFolder).messages) (stored : Bool) :
    ¬ Moved b (copiedAndFlagged b fromFolder toFolder m₀.uid stored) fromFolder toFolder m₀ := by
  intro hmoved
  obtain ⟨m, hm, hu, -⟩ := exists_mem_copiedAndFlagged h stored
  exact hmoved.gone m hm hu

/-- The fallback with its EXPUNGE moves the message exactly when it was flagged. -/
theorem moved_expunged_iff [DecidableEq β] (h : m₀ ∈ (b fromFolder).messages) (hne : fromFolder ≠ toFolder)
    (stored : Bool) :
    Moved b ((copiedAndFlagged b fromFolder toFolder m₀.uid stored).expunge fromFolder) fromFolder toFolder m₀ ↔
      stored = true ∨ m₀.Deleted := by
  obtain ⟨m, hm, hu, hdel⟩ := exists_mem_copiedAndFlagged h stored
  constructor
  · intro hmoved
    by_contra hnot
    exact hmoved.gone m (Boxes.mem_expunge.2 ⟨hm, fun _ => mt hdel.1 hnot⟩) hu
  · intro hflagged
    refine ⟨?_, fun m' hm' hu' => ?_⟩
    · unfold Boxes.expunge
      rw [Function.update_of_ne hne.symm, copiedAndFlagged_target h hne]
      exact copies_append ..
    · obtain ⟨hm', hnot⟩ := Boxes.mem_expunge.1 hm'
      have hsame : m' = m := Folder.eq_of_uid hm' hm (hu'.trans hu.symm)
      exact hnot rfl (hsame ▸ hdel.2 hflagged)

end Moved

/-- When `move_message` returns `Ok` the message has moved, exactly when the fallback does not come
to its end without the server having expunged the message: EXPUNGE was not carried out, or STORE was
refused and the message was not flagged before. -/
theorem moveMessage_ok_moved_iff [DecidableEq β] (s : Session β) (r : MoveReplies) (fromFolder toFolder : String)
    (uid : UInt32) (m₀ : Message β) (h : (s.boxes fromFolder).find? uid.toNat = some m₀)
    (hne : fromFolder ≠ toFolder) :
    ((moveMessage s r fromFolder toFolder uid).1 = .ok () →
        Moved s.boxes (moveMessage s r fromFolder toFolder uid).2.boxes fromFolder toFolder m₀) ↔
      (FallsThrough s r → Expunges s r ∧ (r.store = .ok ∨ m₀.Deleted)) := by
  obtain ⟨hm, hu⟩ := Folder.find?_eq_some.1 h
  constructor
  · intro hmoved hfalls
    obtain ⟨hok, ⟨hex, hboxes⟩ | ⟨-, stored, hboxes⟩⟩ := moveMessage_of_fallsThrough fromFolder toFolder uid hfalls
    · have := hmoved hok
      rw [hboxes, ← hu, moved_expunged_iff hm hne, decide_eq_true_eq] at this
      exact ⟨hex, this⟩
    · have := hmoved hok
      rw [hboxes, ← hu] at this
      exact absurd this (not_moved_copied hm stored)
  · intro hfalls hok
    rcases moveMessage_ok_cases hok with hboxes | hthrough
    · rw [hboxes, ← hu]
      exact moved_move hm hne
    · obtain ⟨hex, hflagged⟩ := hfalls hthrough
      obtain ⟨-, ⟨-, hboxes⟩ | ⟨hno, -⟩⟩ := moveMessage_of_fallsThrough fromFolder toFolder uid hthrough
      · rw [hboxes, ← hu, moved_expunged_iff hm hne, decide_eq_true_eq]
        exact hflagged
      · exact absurd hex hno

theorem withoutMove_moved :
    Moved sampleSession.boxes (moveMessage sampleSession withoutMove "INBOX" "Promotions" 2).2.boxes
      "INBOX" "Promotions" toMove :=
  (moveMessage_ok_moved_iff sampleSession withoutMove "INBOX" "Promotions" 2 toMove (by decide) (by decide)).2
    (fun _ => ⟨⟨rfl, rfl, ⟨_, rfl⟩, rfl, .inl rfl, .inl rfl⟩, .inl rfl⟩) rfl

/-- A server that refuses the STORE: the call returns `Ok` and message 2 is still in INBOX. -/
theorem refusedStore_not_moved :
    (moveMessage sampleSession { withoutMove with store := .no "NO read-only folder" } "INBOX" "Promotions" 2).1 =
        .ok () ∧
      ¬ Moved sampleSession.boxes
        (moveMessage sampleSession { withoutMove with store := .no "NO read-only folder" }
          "INBOX" "Promotions" 2).2.boxes "INBOX" "Promotions" toMove :=
  ⟨rfl, fun h => h.gone toMove (by decide) rfl⟩

end Imap

end Thundercrab
