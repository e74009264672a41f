/-
`rust_imap.rs`, `list_folders`: LIST, and STATUS for each name it returns. Each loop stops at the
first error, and the attributes of a name are not looked at: one mailbox that cannot be selected is
enough for no folder to be listed.
-/
import Thundercrab.Lib.Traverse
import Thundercrab.Imap.Backend

namespace Thundercrab

open Lib

namespace Imap

/-- What is read of the answer to STATUS. -/
structure Status where
  «exists» : UInt32
  unseen : Option UInt32

/-- A folder summary as returned by `list_folders`. -/
structure FolderSummary where
  name : String
  specialUse : Option String
  messages : UInt64
  unseen : UInt64
  deriving DecidableEq

/-- What a server answers to `LIST "" "*"`, name by name, and to STATUS for a name. -/
structure Listing where
  list : Except String (List (Except String String))
  status : String → String → Except String Status

def statusItems : String := "(MESSAGES UNSEEN)"

def folderSummary (server : Listing) (name : String) : Except BackendError FolderSummary := do
  let status ← (server.status name statusItems).mapError fun e => .protocol s!"status {name}: {e}"
  return {
    name := name
    specialUse := none
    messages := status.«exists».toUInt64
    unseen := (status.unseen.getD 0).toUInt64
  }

/-- `LIST "" "*"` -/
def listNames (server : Listing) : Except BackendError (List String) := do
  let stream ← server.list.mapError fun e => .protocol s!"list: {e}"
  stream.mapM fun item => item.mapError fun e => .protocol s!"list item: {e}"

def listFolders (server : Listing) : Except BackendError (List FolderSummary) := do
  let names ← listNames server
  names.mapM (folderSummary server)

/-! ## Mailboxes -/

/-- The counts of a mailbox. -/
structure Counts where
  messages : UInt32
  unseen : UInt32

/-- A mailbox that the server lists, with its counts if it can be selected. -/
structure ListedBox where
  name : String
  counts : Option Counts

def ListedBox.Selectable (box : ListedBox) : Prop := box.counts.isSome

instance (box : ListedBox) : Decidable box.Selectable := inferInstanceAs (Decidable (_ = true))

/-- The summary of a mailbox that can be selected, with its own counts. -/
def ListedBox.summary (box : ListedBox) : Option FolderSummary :=
  box.counts.map fun c => ⟨box.name, none, c.messages.toUInt64, c.unseen.toUInt64⟩

/-- The server lists these mailboxes, and answers STATUS with the counts of those that can be
selected. -/
structure Lists (server : Listing) (boxes : List ListedBox) : Prop where
  list : server.list = .ok (boxes.map fun box => .ok box.name)
  status : ∀ box ∈ boxes, ∀ c, box.counts = some c →
    server.status box.name statusItems = .ok ⟨c.messages, some c.unseen⟩

variable {server : Listing} {boxes : List ListedBox}

theorem Lists.listNames (h : Lists server boxes) : listNames server = .ok (boxes.map ListedBox.name) := by
  unfold Imap.listNames
  rw [h.list]
  exact mapM_map_ok fun _ _ => rfl

/-- One STATUS is asked for after the other. -/
theorem Lists.listFolders (h : Lists server boxes) :
    listFolders server = (boxes.map ListedBox.name).mapM (folderSummary server) := by
  unfold Imap.listFolders
  rw [h.listNames]
  rfl

theorem Lists.folderSummary {box : ListedBox} (h : Lists server boxes) (hbox : box ∈ boxes)
    (hsel : box.Selectable) : ∃ s, box.summary = some s ∧ folderSummary server box.name = .ok s := by
  obtain ⟨c, hc⟩ := Option.isSome_iff_exists.1 hsel
  refine ⟨⟨box.name, none, c.messages.toUInt64, c.unseen.toUInt64⟩, ?_, ?_⟩
  · rw [ListedBox.summary, hc]
    rfl
  · unfold Imap.folderSummary
    rw [h.status box hbox c hc]
    rfl

/-- Exactly the mailboxes that can be selected are returned, in the order of LIST and with their own
counts, if every mailbox can be selected, and never otherwise, whatever STATUS comes to for the rest. -/
theorem listFolders_iff (server : Listing) (boxes : List ListedBox) (h : Lists server boxes) :
    listFolders server = .ok (boxes.filterMap ListedBox.summary) ↔ ∀ box ∈ boxes, box.Selectable := by
  rw [h.listFolders]
  constructor
  · intro hok
    -- one summary for each mailbox
    have hlen := mapM_ok_length hok
    rw [List.length_map, List.length_filterMap_eq_countP, List.countP_eq_length] at hlen
    intro box hbox
    have hsome := hlen box hbox
    rwa [ListedBox.summary, Option.isSome_map] at hsome
  · intro hsel
    exact mapM_filterMap_ok fun box hbox => h.folderSummary hbox (hsel box hbox)

/-- A server with an inbox of three messages, and a parent of folders that is no folder itself. -/
def sampleListing (names : List String) : Listing where
  list := .ok (names.map .ok)
  status := fun name _ => if name = "INBOX" then .ok ⟨3, some 1⟩ else .error "NO Mailbox is not selectable"

theorem inbox_listed : listFolders (sampleListing ["INBOX"]) = .ok [⟨"INBOX", none, 3, 1⟩] := by
  refine (listFolders_iff (sampleListing ["INBOX"]) [⟨"INBOX", some ⟨3, 1⟩⟩] ⟨rfl, ?_⟩).2 ?_
  · simp [sampleListing]
  · simp [ListedBox.Selectable]

theorem inbox_hidden : ¬ ∀ (server : Listing) (boxes : List ListedBox), Lists server boxes →
    listFolders server = .ok (boxes.filterMap ListedBox.summary) := by
  intro hall
  have hlists : Lists (sampleListing ["INBOX", "Archive"]) [⟨"INBOX", some ⟨3, 1⟩⟩, ⟨"Archive", none⟩] := by
    refine ⟨rfl, ?_⟩
    simp [sampleListing]
  have hok := hall _ _ hlists
  have hno : listFolders (sampleListing ["INBOX", "Archive"]) =
      .error (.protocol "status Archive: NO Mailbox is not selectable") := rfl
  rw [hno] at hok
  cases hok

end Imap

end Thundercrab
