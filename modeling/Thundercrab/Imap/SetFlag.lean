/-
`rust_imap.rs`, `set_flag`: SELECT, then UID STORE of an item that carries the caller's flag between
parentheses as it is. The server reads what stands between them as a list of names separated by
spaces, and takes names that differ by ASCII case only for one flag, so a flag comes to be set
exactly when one of the names in the caller's text is such a name for it.
-/
import Thundercrab.Imap.Move
import Mathlib.Data.List.Basic

namespace Thundercrab

open Lib

namespace Imap

/-! ## The server's reading of a STORE -/

/-- What names of one flag have in common: they may differ by ASCII case. -/
def flagKey (flag : String) : List Char := flag.toList.map Char.toLower

/-- The names of a flag list, separated by spaces. -/
def flagList (text : List Char) : List String := ((text.splitOn ' ').filter fun w => w ≠ []).map String.ofList

/-- The text between the item's parentheses. -/
def listText (rest : List Char) : Option (List Char) :=
  match rest.dropPrefix? "FLAGS (".toList with
  | some text => text.dropSuffix? [')']
  | none => none

/-- STORE of an item: `+FLAGS (list)` or `-FLAGS (list)`. -/
def storeItem {β : Type} (b : Boxes β) (source : String) (uid : Nat) (item : String) : Boxes β :=
  match item.toList with
  | '+' :: rest =>
    match listText rest with
    | some text => b.setFlags source uid fun flags => addFlags flagKey flags (flagList text)
    | none => b
  | '-' :: rest =>
    match listText rest with
    | some text => b.setFlags source uid fun flags => dropFlags flagKey flags (flagList text)
    | none => b
  | _ => b

/-! ## The client -/

variable {β : Type}

/-- `uid_store(uid, item)` -/
def Session.uidStoreItem (s : Session β) (uid : UInt32) (item : String) (r : Reply) : Seen × Session β :=
  s.exec (fun b => storeItem b s.selected uid.toNat item) r

/-- The replies to the commands of one `set_flag`, and the items of the stream that `uid_store` returns. -/
structure SetFlagReplies where
  select : Reply
  store : Reply
  items : List (Except String Unit)

/-- The loop over the items of the stream. -/
def drainItems : List (Except String Unit) → Except BackendError Unit
  | [] => .ok ()
  | .error e :: _ => .error (.protocol s!"store item: {e}")
  | .ok () :: rest => drainItems rest

/-- The item of the STORE, with the flag as it is. -/
def itemText (flag : String) (set : Bool) : String :=
  let op := if set then "+FLAGS" else "-FLAGS"
  s!"{op} ({flag})"

def setFlag (s : Session β) (r : SetFlagReplies) (folder : String) (uid : UInt32) (flag : String) (set : Bool) :
    Except BackendError Unit × Session β :=
  match s.select folder r.select with
  | (.ok, s) =>
    match s.uidStoreItem uid (itemText flag set) r.store with
    | (.unsent e, s) => (.error (.protocol s!"uid_store: {e}"), s)
    | (_, s) => (drainItems r.items, s)
  | (seen, s) => (.error (.protocol s!"select {folder}: {seen.text}"), s)

/-! ## What comes to be set -/

theorem listText_append (text : List Char) : listText ("FLAGS (".toList ++ text ++ [')']) = some text := by
  have hpre : ("FLAGS (".toList ++ (text ++ [')'])).dropPrefix? "FLAGS (".toList = some (text ++ [')']) :=
    List.dropPrefix?_append_of_beq _ (beq_self_eq_true _)
  unfold listText
  rw [List.append_assoc, hpre]
  exact List.dropSuffix?_eq_some_iff.2 ⟨[')'], rfl, beq_self_eq_true _⟩

theorem itemText_toList (flag : String) (set : Bool) :
    (itemText flag set).toList = (if set then '+' else '-') :: ("FLAGS (".toList ++ flag.toList ++ [')']) := by
  cases set with
  | true =>
    simp only [itemText, if_true, String.toList_append]
    rfl
  | false =>
    simp only [itemText, Bool.false_eq_true, if_false, String.toList_append]
    rfl

/-- The item is read as the names in the flag's text. -/
theorem storeItem_itemText (b : Boxes β) (source : String) (uid : Nat) (flag : String) (set : Bool) :
    storeItem b source uid (itemText flag set) = b.setFlags source uid fun flags =>
      if set then addFlags flagKey flags (flagList flag.toList)
      else dropFlags flagKey flags (flagList flag.toList) := by
  unfold storeItem
  rw [itemText_toList]
  cases set with
  | true => simp only [if_true, listText_append]
  | false => simp only [Bool.false_eq_true, if_false, listText_append]

/-- A command is carried out once or not at all. -/
theorem exec_boxes (s : Session β) (op : Boxes β → Boxes β) (r : Reply) :
    (s.exec op r).2.boxes = s.boxes ∨ (s.exec op r).2.boxes = op s.boxes := by
  unfold Session.exec
  by_cases hc : s.connected
  · rw [if_pos hc]
    cases r with
    | ok => exact .inr rfl
    | no e => exact .inl rfl
    | unsent e => exact .inl rfl
    | lost executed e =>
      cases executed with
      | true => exact .inr rfl
      | false => exact .inl rfl
  · rw [if_neg hc]
    cases r <;> exact .inl rfl

theorem select_boxes (s : Session β) (folder : String) (r : Reply) :
    (s.select folder r).2.boxes = s.boxes ∧
      ((s.select folder r).1 = .ok → (s.select folder r).2.selected = folder) := by
  have hexec : (s.exec id r).2.boxes = s.boxes := (exec_boxes s id r).elim id id
  unfold Session.select
  cases h : s.exec id r with
  | mk seen t =>
    rw [h] at hexec
    cases seen with
    | ok => exact ⟨hexec, fun _ => rfl⟩
    | no e => exact ⟨hexec, nofun⟩
    | unsent e => exact ⟨hexec, nofun⟩
    | lost e => exact ⟨hexec, nofun⟩

/-- `set_flag` leaves the mailboxes as they were, or with the STORE carried out in its folder. -/
theorem setFlag_boxes (s : Session β) (r : SetFlagReplies) (folder : String) (uid : UInt32) (flag : String)
    (set : Bool) :
    (setFlag s r folder uid flag set).2.boxes = s.boxes ∨
      (setFlag s r folder uid flag set).2.boxes = storeItem s.boxes folder uid.toNat (itemText flag set) := by
  obtain ⟨hboxes, hselected⟩ := select_boxes s folder r.select
  unfold setFlag
  cases hs : s.select folder r.select with
  | mk seen t =>
    rw [hs] at hboxes hselected
    cases seen with
    | no e => exact .inl hboxes
    | unsent e => exact .inl hboxes
    | lost e => exact .inl hboxes
    | ok =>
      have hstore := exec_boxes t (fun b => storeItem b t.selected uid.toNat (itemText flag set)) r.store
      rw [hboxes, hselected rfl] at hstore
      simp only [Session.uidStoreItem]
      rw [hselected rfl]
      cases hu : t.exec (fun b => storeItem b folder uid.toNat (itemText flag set)) r.store with
      | mk seen u =>
        rw [hu] at hstore
        cases seen <;> exact hstore

/-- The message carries the flag, under whatever name. -/
def Carries (m : Message β) (flag : String) : Prop := flagKey flag ∈ m.flags.map flagKey

instance (m : Message β) (flag : String) : Decidable (Carries m flag) :=
  inferInstanceAs (Decidable (_ ∈ _))

/-- No message carries one of the flags that it did not carry before. -/
def SetsNone (flags : List String) (b b' : Boxes β) : Prop :=
  ∀ f, ∀ m ∈ (b' f).messages, ∀ flag ∈ flags, Carries m flag →
    ∃ m₀ ∈ (b f).messages, m₀.uid = m.uid ∧ Carries m₀ flag

/-- The text names one of the flags. -/
def Names (flags : List String) (text : String) : Prop :=
  ∃ name ∈ flagList text.toList, ∃ flag ∈ flags, flagKey name = flagKey flag

theorem setsNone_refl (flags : List String) (b : Boxes β) : SetsNone flags b b :=
  fun _ m hm _ _ hc => ⟨m, hm, rfl, hc⟩

/-- A STORE that gives no message a flag of the list sets none of the list. -/
theorem setsNone_setFlags {flags : List String} {g : List String → List String}
    (h : ∀ fs, ∀ p ∈ flags, flagKey p ∈ (g fs).map flagKey → flagKey p ∈ fs.map flagKey) (b : Boxes β)
    (folder : String) (uid : Nat) : SetsNone flags b (b.setFlags folder uid g) := by
  intro f m hm p hp hcarries
  rcases Boxes.mem_setFlags.1 hm with ⟨hm, -⟩ | ⟨-, x, hx, -, rfl⟩
  · exact ⟨m, hm, rfl, hcarries⟩
  · exact ⟨x, hx, rfl, h x.flags p hp hcarries⟩

/-- `set_flag` sets no flag of the list when it clears a flag or its text names none of them. -/
theorem setFlag_setsNone {flags : List String} {flag : String} {set : Bool} (h : set = true → ¬ Names flags flag)
    (s : Session β) (r : SetFlagReplies) (folder : String) (uid : UInt32) :
    SetsNone flags s.boxes (setFlag s r folder uid flag set).2.boxes := by
  rcases setFlag_boxes s r folder uid flag set with hb | hb
  · rw [hb]
    exact setsNone_refl flags s.boxes
  · rw [hb, storeItem_itemText]
    refine setsNone_setFlags (fun fs p hp hcarries => ?_) s.boxes folder uid.toNat
    cases set with
    | true =>
      rcases mem_addFlags.1 hcarries with hold | hnew
      · exact hold
      · obtain ⟨name, hname, hkey⟩ := List.mem_map.1 hnew
        exact absurd ⟨name, hname, p, hp, hkey⟩ (h rfl)
    | false => exact (mem_dropFlags.1 hcarries).1

/-- A server that carries out both commands. -/
def accepting : SetFlagReplies := { select := .ok, store := .ok, items := [] }

/-- One message without flags. -/
def unflagged : Session String :=
  { sampleSession with
    boxes := Function.update sampleSession.boxes "INBOX" ⟨[⟨1, [], "newsletter"⟩], 2, by decide, by decide⟩ }

/-- Over all sessions `set_flag` sets no flag of the list exactly when its text names none. -/
theorem setFlag_setsNone_iff (flags : List String) (flag : String) :
    (∀ (β : Type) (s : Session β) (r : SetFlagReplies) (folder : String) (uid : UInt32),
      SetsNone flags s.boxes (setFlag s r folder uid flag true).2.boxes) ↔ ¬ Names flags flag := by
  constructor
  · rintro h ⟨name, hname, p, hp, hkey⟩
    let flagged : Message String := ⟨1, addFlags flagKey [] (flagList flag.toList), "newsletter"⟩
    have hnone := h String unflagged accepting "INBOX" 1 "INBOX" flagged
    have hmem : flagged ∈ ((setFlag unflagged accepting "INBOX" 1 flag true).2.boxes "INBOX").messages := by
      show _ ∈ (storeItem unflagged.boxes "INBOX" 1 (itemText flag true) "INBOX").messages
      rw [storeItem_itemText]
      exact Boxes.mem_setFlags.2 (.inr ⟨rfl, ⟨1, [], "newsletter"⟩, List.mem_singleton_self _, rfl, rfl⟩)
    obtain ⟨m, hm, -, hcarries⟩ := hnone hmem p hp (mem_addFlags.2 (.inr (hkey ▸ List.mem_map_of_mem hname)))
    cases List.mem_singleton.1 hm
    cases hcarries
  · intro h β s r folder uid
    exact setFlag_setsNone (fun _ => h) s r folder uid

end Imap

end Thundercrab
