/-
`rust_imap.rs`, `fetch_headers`: EXAMINE, and unless the folder is empty one FETCH, of a range of
sequence numbers. The range names the most recent messages, as many as the limit says, unless the
limit is zero: its ends then stand in the wrong order, and the range names the last message.
-/
import Thundercrab.Lib.SequenceSet
import Thundercrab.Imap.Headers

namespace Thundercrab

open Lib

namespace Imap

structure Address where
  mailbox : Option Bytes
  host : Option Bytes

structure Envelope where
  «from» : Option (List Address)
  subject : Option Bytes

/-- What is read of an answer to FETCH. -/
structure Fetch where
  uid : Option UInt32
  envelope : Option Envelope
  header : Option Bytes

/-- A message header summary. -/
structure MessageHeaders where
  uid : UInt32
  folder : String
  «from» : String
  subject : String
  otherHeaders : List Header

/-- `map(String::from_utf8_lossy).unwrap_or_default()` -/
def lossyOrEmpty (b : Option Bytes) : String := String.ofList ((b.map fromUtf8Lossy).getD [])

def Address.text (addr : Address) : String := s!"{lossyOrEmpty addr.mailbox}@{lossyOrEmpty addr.host}"

def messageHeaders (folder : String) (f : Fetch) : MessageHeaders where
  uid := f.uid.getD 0
  folder := folder
  «from» := (((f.envelope.bind Envelope.from).bind List.head?).map Address.text).getD ""
  subject := lossyOrEmpty (f.envelope.bind Envelope.subject)
  otherHeaders := parseHeaders (f.header.getD [])

/-- The items of the stream, up to the first that is an error. -/
def collect (folder : String) (items : List (Except String Fetch)) : Except BackendError (List MessageHeaders) :=
  items.mapM fun item => do
    let f ← item.mapError fun e => .protocol s!"fetch item: {e}"
    return messageHeaders folder f

/-! ## The call -/

inductive Command where
  | examine (folder : String)
  | fetch (range args : String)
  deriving DecidableEq

/-- What a server answers: how many messages exist in a folder, and the items for a FETCH. -/
structure Mailboxes where
  examine : String → Except String UInt32
  fetch : String → String → Except String (List (Except String Fetch))

/-- `total - n + 1`, which wraps. -/
def rangeStart (total n : UInt32) : UInt32 := total - n + 1

def fetchRange (total : UInt32) (limit : Option UInt32) : String :=
  match limit with
  | some n => if n < total then s!"{rangeStart total n}:{total}" else "1:*"
  | none => "1:*"

def fetchArgs : String := "(UID ENVELOPE BODY.PEEK[HEADER])"

/-- The commands it sends, and what it returns. -/
def fetchHeaders (server : Mailboxes) (folder : String) (limit : Option UInt32) :
    List Command × Except BackendError (List MessageHeaders) :=
  match server.examine folder with
  | .error e => ([.examine folder], .error (.protocol s!"examine {folder}: {e}"))
  | .ok total =>
    if total = 0 then ([.examine folder], .ok [])
    else
      let range := fetchRange total limit
      match server.fetch range fetchArgs with
      | .error e => ([.examine folder, .fetch range fetchArgs], .error (.protocol s!"fetch {folder} {range}: {e}"))
      | .ok items => ([.examine folder, .fetch range fetchArgs], collect folder items)

/-! ## What is asked for -/

variable {β : Type}

/-- The messages of a mailbox that the commands ask for. -/
def asked (box : List β) (commands : List Command) : List β :=
  commands.flatMap fun
    | .examine _ => []
    | .fetch range _ =>
      match SequenceSet.parse range.toList with
      | some S => S.select box
      | none => []

/-- The most recent messages: as many as the limit says, or all. -/
def recent (limit : Option UInt32) (box : List β) : List β :=
  match limit with
  | some n => box.rtake n.toNat
  | none => box

/-- The start of the range is computed without overflow. -/
def Fits (total : UInt32) (limit : Option UInt32) : Prop :=
  ∀ n, limit = some n → n < total → (rangeStart total n).toNat = total.toNat - n.toNat + 1

variable {server : Mailboxes} {folder : String} {limit : Option UInt32} {total n : UInt32} {box : List β}

theorem toNat_pos (h : n ≠ 0) : 0 < n.toNat := Nat.pos_of_ne_zero fun h0 => h (UInt32.toNat_inj.1 h0)

theorem rangeStart_toNat (h : n < total) (hn : n ≠ 0) :
    (rangeStart total n).toNat = total.toNat - n.toNat + 1 := by
  have hlt : n.toNat < total.toNat := UInt32.lt_iff_toNat_lt.1 h
  have hpos := toNat_pos hn
  have htotal : total.toNat < 4294967296 := total.toNat_lt
  rw [rangeStart, UInt32.toNat_add, UInt32.toNat_sub_of_le _ _ (UInt32.le_of_lt h)]
  exact Nat.mod_eq_of_lt (by show _ + 1 < _; omega)

/-! ### The text of the range -/

theorem render_range (a b : SeqNumber) :
    SequenceSet.render [.range a b] = a.render ++ ':' :: b.render := by
  simp [SequenceSet.render, SeqRange.render]

theorem toList_range (a b : UInt32) :
    (s!"{a}:{b}").toList = SequenceSet.render [.range (.num a.toNat) (.num b.toNat)] := by
  have hnum : ∀ c : UInt32, (toString c).toList = Nat.toDigits 10 c.toNat := fun c => Nat.toList_repr
  have hcolon : (toString ":").toList = [':'] := rfl
  rw [render_range]
  simp [hnum, hcolon, SeqNumber.render]

theorem fetchRange_of_lt (h : n < total) : (fetchRange total (some n)).toList =
    SequenceSet.render [.range (.num (rangeStart total n).toNat) (.num total.toNat)] := by
  simp only [fetchRange, if_pos h]
  exact toList_range _ _

/-- Without a limit, or with one that the folder does not reach. -/
theorem fetchRange_all (h : ∀ n, limit = some n → total ≤ n) :
    (fetchRange total limit).toList = SequenceSet.render [.range (.num 1) .last] := by
  have hstar : "1:*".toList = SequenceSet.render [.range (.num 1) .last] := by decide
  cases limit with
  | none => exact hstar
  | some n =>
    simp only [fetchRange, if_neg (UInt32.not_lt.2 (h n rfl))]
    exact hstar

/-! ### The messages of the range -/

/-- The range is read as one of the most recent messages. -/
theorem fetchRange_names (γ : Type) (htotal : total ≠ 0) (hlimit : limit ≠ some 0) :
    ∃ a b : SeqNumber, a.Valid ∧ b.Valid ∧ (fetchRange total limit).toList = SequenceSet.render [.range a b] ∧
      ∀ box : List γ, box.length = total.toNat → SequenceSet.select [.range a b] box = recent limit box := by
  by_cases hcut : ∃ n, limit = some n ∧ n < total
  · obtain ⟨n, rfl, hlt⟩ := hcut
    have hn : n ≠ 0 := fun h0 => hlimit (congrArg some h0)
    have hpos := toNat_pos hn
    have hltn : n.toNat < total.toNat := UInt32.lt_iff_toNat_lt.1 hlt
    have hstart := rangeStart_toNat hlt hn
    refine ⟨.num (rangeStart total n).toNat, .num total.toNat, ⟨?_, (rangeStart total n).toNat_lt⟩,
      ⟨toNat_pos htotal, total.toNat_lt⟩, fetchRange_of_lt hlt, ?_⟩
    · omega
    · intro box hbox
      have hlast : SeqNumber.value box.length (.num total.toNat) = box.length := hbox.symm
      have hle : (rangeStart total n).toNat ≤ box.length := by omega
      rw [SequenceSet.select_suffix hlast hle, hstart, Nat.add_sub_cancel, ← hbox]
      rfl
  · have hall : ∀ n, limit = some n → total ≤ n := fun n hn => UInt32.not_lt.1 fun hlt => hcut ⟨n, hn, hlt⟩
    refine ⟨.num 1, .last, ⟨by decide, by decide⟩, trivial, fetchRange_all hall, ?_⟩
    intro box hbox
    rw [SequenceSet.select_all]
    cases limit with
    | none => rfl
    | some n =>
      have hle : box.length ≤ n.toNat := hbox ▸ UInt32.le_iff_toNat_le.1 (hall n rfl)
      rw [recent, List.rtake, Nat.sub_eq_zero_of_le hle, List.drop_zero]

/-- A range that begins one past the last message still has the last message. -/
theorem select_past_last (box : List β) (hbox : box ≠ []) :
    SequenceSet.select [.range (.num (box.length + 1)) (.num box.length)] box ≠ [] := by
  have hpos := List.length_pos_iff.2 hbox
  rw [SequenceSet.select_range]
  show (box.take (max (box.length + 1) box.length)).drop (min (box.length + 1) box.length - 1) ≠ []
  intro hnil
  have hlen := congrArg List.length hnil
  rw [List.length_drop, List.length_take, List.length_nil] at hlen
  omega

theorem asked_fetch {S : SequenceSet} {range args : String} (hne : S ≠ []) (hvalid : ∀ r ∈ S, r.Valid)
    (h : range.toList = S.render) : asked box [.examine folder, .fetch range args] = S.select box := by
  have hparse := SequenceSet.parse_render hne hvalid
  rw [← h] at hparse
  simp only [asked, List.flatMap_cons, List.flatMap_nil, hparse, List.nil_append, List.append_nil]

/-- The limit zero asks for a message, if its range is computed without overflow. -/
theorem asked_zero {args : String} (htotal : total ≠ 0) (hfits : Fits total (some 0))
    (hbox : box.length = total.toNat) :
    asked box [.examine folder, .fetch (fetchRange total (some 0)) args] ≠ [] := by
  have hpos := toNat_pos htotal
  have hlt : 0 < total := UInt32.lt_iff_toNat_lt.2 hpos
  have hstart : (rangeStart total 0).toNat = box.length + 1 := by
    rw [hfits 0 rfl hlt, hbox]
    rfl
  have hvalid : ∀ r ∈ [SeqRange.range (.num (rangeStart total 0).toNat) (.num total.toNat)], r.Valid := by
    intro r hr
    rw [List.mem_singleton.1 hr]
    exact ⟨⟨by omega, (rangeStart total 0).toNat_lt⟩, hpos, total.toNat_lt⟩
  rw [asked_fetch (List.cons_ne_nil _ _) hvalid (fetchRange_of_lt hlt), hstart, ← hbox]
  exact select_past_last box (List.ne_nil_of_length_pos (hbox ▸ hpos))

theorem eq_nil_of_total (hbox : box.length = total.toNat) (htotal : total = 0) : box = [] :=
  List.eq_nil_of_length_eq_zero (hbox.trans (congrArg UInt32.toNat htotal))

theorem recent_nil (limit : Option UInt32) : recent limit ([] : List β) = [] := by
  cases limit with
  | none => rfl
  | some n => exact List.rtake_nil n.toNat

/-- On a folder with messages the commands are EXAMINE and FETCH, whatever the server answers to the second. -/
theorem fetchHeaders_commands (hexamine : server.examine folder = .ok total) : (fetchHeaders server folder limit).1 =
    if total = 0 then [.examine folder] else [.examine folder, .fetch (fetchRange total limit) fetchArgs] := by
  unfold fetchHeaders
  rw [hexamine]
  by_cases htotal : total = 0
  · simp only [htotal, if_true]
  · simp only [htotal, if_false]
    cases server.fetch (fetchRange total limit) fetchArgs <;> rfl

/-- The messages asked for are the most recent ones, as many as the limit says, or all without a
limit, unless the limit is zero and the folder has messages. -/
theorem fetchHeaders_recent_iff (server : Mailboxes) (folder : String) (limit : Option UInt32) (total : UInt32)
    (box : List β) (hexamine : server.examine folder = .ok total) (hbox : box.length = total.toNat) :
    (asked box (fetchHeaders server folder limit).1 = recent limit box ∧ Fits total limit) ↔
      (limit = some 0 → total = 0) := by
  rw [fetchHeaders_commands hexamine]
  by_cases htotal : total = 0
  · have hfits : Fits total limit := fun n _ hn => absurd (htotal ▸ hn) (UInt32.not_lt.2 UInt32.zero_le)
    rw [if_pos htotal, eq_nil_of_total hbox htotal, recent_nil]
    exact ⟨fun _ _ => htotal, fun _ => ⟨rfl, hfits⟩⟩
  · rw [if_neg htotal]
    constructor
    · rintro ⟨hasked, hfits⟩ rfl
      exact absurd (hasked.trans (List.rtake_zero box)) (asked_zero htotal hfits hbox)
    · intro hlimit
      have hne : limit ≠ some 0 := fun h0 => htotal (hlimit h0)
      obtain ⟨a, b, ha, hb, htext, hselect⟩ := fetchRange_names β htotal hne
      refine ⟨?_, fun n hn hlt => rangeStart_toNat hlt fun h0 => hne (hn.trans (congrArg some h0))⟩
      rw [asked_fetch (List.cons_ne_nil _ _) (by simpa using ⟨ha, hb⟩) htext, hselect box hbox]

theorem two_of_three :
    asked [1, 2, 3] (fetchHeaders ⟨fun _ => .ok 3, fun _ _ => .ok []⟩ "INBOX" (some 2)).1 = [2, 3] :=
  ((fetchHeaders_recent_iff ⟨fun _ => .ok 3, fun _ _ => .ok []⟩ "INBOX" (some 2) 3 [1, 2, 3] rfl rfl).2
    (by decide)).1

/-- `4:3` is `3:4`. -/
theorem none_of_three : ¬ ∀ (server : Mailboxes) (folder : String) (limit : Option UInt32) (total : UInt32)
    (box : List Nat), server.examine folder = .ok total → box.length = total.toNat →
    asked box (fetchHeaders server folder limit).1 = recent limit box := by
  intro hall
  exact absurd (hall ⟨fun _ => .ok 3, fun _ _ => .ok []⟩ "INBOX" (some 0) 3 [1, 2, 3] rfl rfl) (by decide)

end Imap

end Thundercrab
