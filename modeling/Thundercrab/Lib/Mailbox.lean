/-
Mailboxes of an IMAP server: folders whose messages carry a UID, flags and a body, with UIDs that
are distinct and handed out in increasing order, and what COPY, MOVE, STORE and EXPUNGE do to them.
Each command is described by the messages it leaves behind.
-/
import Mathlib.Data.List.Nodup
import Mathlib.Logic.Function.Basic

namespace Lib

/-- A message: its UID in its folder, its flags, and everything else. -/
structure Message (β : Type) where
  uid : Nat
  flags : List String
  body : β
  deriving DecidableEq

def deletedFlag : String := "\\Deleted"

def Message.Deleted {β : Type} (m : Message β) : Prop := deletedFlag ∈ m.flags

instance {β : Type} (m : Message β) : Decidable m.Deleted := inferInstanceAs (Decidable (deletedFlag ∈ m.flags))

/-- A folder: distinct UIDs, all below the next one to be handed out. -/
structure Folder (β : Type) where
  messages : List (Message β)
  uidNext : Nat
  nodup : (messages.map Message.uid).Nodup
  uid_lt : ∀ m ∈ messages, m.uid < uidNext

namespace Folder

variable {β : Type}

def find? (f : Folder β) (uid : Nat) : Option (Message β) := f.messages.find? fun m => m.uid = uid

theorem find?_eq_some {f : Folder β} {uid : Nat} {m : Message β} :
    f.find? uid = some m ↔ m ∈ f.messages ∧ m.uid = uid := by
  constructor
  · intro h
    exact ⟨List.mem_of_find?_eq_some h, by simpa using List.find?_some h⟩
  · rintro ⟨hm, rfl⟩
    unfold find?
    cases h : f.messages.find? fun x => x.uid = m.uid with
    | none =>
      rw [List.find?_eq_none] at h
      exact absurd (decide_eq_true rfl) (h m hm)
    | some x =>
      have hx : x.uid = m.uid := by simpa using List.find?_some h
      rw [List.inj_on_of_nodup_map f.nodup (List.mem_of_find?_eq_some h) hm hx]

/-- A message of a folder is determined by its UID. -/
theorem eq_of_uid {f : Folder β} {m m' : Message β} (hm : m ∈ f.messages) (hm' : m' ∈ f.messages)
    (h : m.uid = m'.uid) : m = m' :=
  List.inj_on_of_nodup_map f.nodup hm hm' h

/-- A new message under the next UID. -/
def append (f : Folder β) (flags : List String) (body : β) : Folder β where
  messages := f.messages ++ [⟨f.uidNext, flags, body⟩]
  uidNext := f.uidNext + 1
  nodup := by
    rw [List.map_append, List.nodup_append]
    refine ⟨f.nodup, List.nodup_singleton _, fun u hu v hv => ?_⟩
    obtain ⟨m, hm, rfl⟩ := List.mem_map.1 hu
    rw [List.map_singleton, List.mem_singleton] at hv
    rw [hv]
    exact Nat.ne_of_lt (f.uid_lt m hm)
  uid_lt m hm := by
    rcases List.mem_append.1 hm with hm | hm
    · exact Nat.lt_succ_of_lt (f.uid_lt m hm)
    · rw [List.mem_singleton.1 hm]; exact Nat.lt_succ_self _

/-- The messages that satisfy `p`. -/
def keep (f : Folder β) (p : Message β → Bool) : Folder β where
  messages := f.messages.filter p
  uidNext := f.uidNext
  nodup := f.nodup.sublist (List.filter_sublist.map Message.uid)
  uid_lt m hm := f.uid_lt m (List.mem_filter.1 hm).1

/-- The messages with the flags of one of them changed. -/
def setFlags (f : Folder β) (uid : Nat) (g : List String → List String) : Folder β where
  messages := f.messages.map fun m => if m.uid = uid then { m with flags := g m.flags } else m
  uidNext := f.uidNext
  nodup := by
    rw [List.map_map, List.map_congr_left (g := Message.uid)]
    · exact f.nodup
    · intro m _
      simp only [Function.comp]
      split <;> rfl
  uid_lt m hm := by
    obtain ⟨x, hx, rfl⟩ := List.mem_map.1 hm
    split
    · exact f.uid_lt x hx
    · exact f.uid_lt x hx

theorem mem_append {f : Folder β} {flags : List String} {body : β} {m : Message β} :
    m ∈ (f.append flags body).messages ↔ m ∈ f.messages ∨ m = ⟨f.uidNext, flags, body⟩ := by
  unfold append; rw [List.mem_append, List.mem_singleton]

theorem mem_keep {f : Folder β} {p : Message β → Bool} {m : Message β} :
    m ∈ (f.keep p).messages ↔ m ∈ f.messages ∧ p m = true :=
  List.mem_filter

theorem mem_setFlags {f : Folder β} {uid : Nat} {g : List String → List String} {m : Message β} :
    m ∈ (f.setFlags uid g).messages ↔
      (m ∈ f.messages ∧ m.uid ≠ uid) ∨ ∃ x ∈ f.messages, x.uid = uid ∧ m = { x with flags := g x.flags } := by
  unfold setFlags
  rw [List.mem_map]
  constructor
  · rintro ⟨x, hx, rfl⟩
    by_cases hu : x.uid = uid
    · rw [if_pos hu]; exact .inr ⟨x, hx, hu, rfl⟩
    · rw [if_neg hu]; exact .inl ⟨hx, hu⟩
  · rintro (⟨hm, hu⟩ | ⟨x, hx, hu, rfl⟩)
    · exact ⟨m, hm, if_neg hu⟩
    · exact ⟨x, hx, if_pos hu⟩

end Folder

/-! ## Flags -/

section Flags

variable {κ : Type} [DecidableEq κ] (key : String → κ)

/-- The flags with more added. Names with one key name one flag. -/
def addFlags (flags new : List String) : List String :=
  new.foldl (fun fs flag => if key flag ∈ fs.map key then fs else fs ++ [flag]) flags

/-- The flags with some taken off. -/
def dropFlags (flags old : List String) : List String := flags.filter fun flag => key flag ∉ old.map key

variable {key}

/-- A flag that was not there is one of the new ones. -/
theorem mem_of_mem_addFlags {flags new : List String} {flag : String} (h : flag ∈ addFlags key flags new) :
    flag ∈ flags ∨ flag ∈ new := by
  unfold addFlags at h
  induction new generalizing flags with
  | nil => exact .inl h
  | cons added new ih =>
    rw [List.foldl_cons] at h
    rcases ih h with hold | hnew
    · split at hold
      · exact .inl hold
      · rcases List.mem_append.1 hold with hold | hadded
        · exact .inl hold
        · exact .inr (List.mem_cons.2 (.inl (List.mem_singleton.1 hadded)))
    · exact .inr (List.mem_cons_of_mem _ hnew)

theorem mem_addFlags {flags new : List String} {k : κ} :
    k ∈ (addFlags key flags new).map key ↔ k ∈ flags.map key ∨ k ∈ new.map key := by
  unfold addFlags
  induction new generalizing flags with
  | nil => rw [List.foldl_nil, List.map_nil]; exact ⟨.inl, fun h => h.elim id nofun⟩
  | cons flag new ih =>
    rw [List.foldl_cons, ih, List.map_cons, List.mem_cons, ← or_assoc]
    refine or_congr_left ?_
    by_cases hmem : key flag ∈ flags.map key
    · rw [if_pos hmem]
      exact ⟨.inl, fun h => h.elim id fun h => h ▸ hmem⟩
    · rw [if_neg hmem, List.map_append, List.mem_append, List.map_singleton, List.mem_singleton]

theorem mem_dropFlags {flags old : List String} {k : κ} :
    k ∈ (dropFlags key flags old).map key ↔ k ∈ flags.map key ∧ k ∉ old.map key := by
  unfold dropFlags
  constructor
  · intro h
    obtain ⟨flag, hflag, rfl⟩ := List.mem_map.1 h
    obtain ⟨hmem, hold⟩ := List.mem_filter.1 hflag
    exact ⟨List.mem_map_of_mem hmem, of_decide_eq_true hold⟩
  · rintro ⟨h, hold⟩
    obtain ⟨flag, hflag, rfl⟩ := List.mem_map.1 h
    exact List.mem_map_of_mem (List.mem_filter.2 ⟨hflag, decide_eq_true hold⟩)

end Flags

/-! ## Commands -/

/-- The folders of an account by name. -/
abbrev Boxes (β : Type) := String → Folder β

namespace Boxes

variable {β : Type}

/-- COPY of one UID: the message with its flags under a new UID of the target, or nothing when there
is no such message. -/
def copy (b : Boxes β) (source target : String) (uid : Nat) : Boxes β :=
  match (b source).find? uid with
  | none => b
  | some m => Function.update b target ((b target).append m.flags m.body)

/-- MOVE of one UID: COPY and removal in one step. -/
def move (b : Boxes β) (source target : String) (uid : Nat) : Boxes β :=
  let b := b.copy source target uid
  Function.update b source ((b source).keep fun m => m.uid ≠ uid)

/-- STORE `+FLAGS` of one UID. -/
def store (b : Boxes β) (source : String) (uid : Nat) (flag : String) : Boxes β :=
  Function.update b source ((b source).setFlags uid fun flags => if flag ∈ flags then flags else flags ++ [flag])

/-- STORE of one UID, whatever it does to the flags. -/
def setFlags (b : Boxes β) (source : String) (uid : Nat) (g : List String → List String) : Boxes β :=
  Function.update b source ((b source).setFlags uid g)

/-- EXPUNGE: every message flagged `\Deleted` is removed. -/
def expunge (b : Boxes β) (source : String) : Boxes β :=
  Function.update b source ((b source).keep fun m => ¬ m.Deleted)

variable {b : Boxes β} {source target : String} {uid : Nat}

/-- After COPY of a message every message is where it was, and the target has one more. -/
theorem mem_copy {m₀ : Message β} (h : (b source).find? uid = some m₀) {f : String} {m : Message β} :
    m ∈ (b.copy source target uid f).messages ↔
      m ∈ (b f).messages ∨ (f = target ∧ m = ⟨(b target).uidNext, m₀.flags, m₀.body⟩) := by
  unfold copy
  rw [h]
  by_cases hf : f = target
  · subst hf
    simp only [Function.update_self, Folder.mem_append, true_and]
  · simp only [Function.update_of_ne hf, hf, false_and, or_false]

theorem mem_expunge {f : String} {m : Message β} :
    m ∈ (b.expunge source f).messages ↔ m ∈ (b f).messages ∧ (f = source → ¬ m.Deleted) := by
  unfold expunge
  by_cases hf : f = source
  · subst hf
    rw [Function.update_self, Folder.mem_keep, decide_eq_true_eq]
    exact and_congr_right fun _ => ⟨fun h _ => h, fun h => h rfl⟩
  · rw [Function.update_of_ne hf]
    exact ⟨fun h => ⟨h, fun he => absurd he hf⟩, fun h => h.1⟩

/-- After STORE the message of the UID has new flags and the others are as they were. -/
theorem mem_setFlags {g : List String → List String} {f : String} {m : Message β} :
    m ∈ (b.setFlags source uid g f).messages ↔
      (m ∈ (b f).messages ∧ ¬ (f = source ∧ m.uid = uid)) ∨
        (f = source ∧ ∃ x ∈ (b f).messages, x.uid = uid ∧ m = { x with flags := g x.flags }) := by
  unfold setFlags
  by_cases hf : f = source
  · subst hf
    rw [Function.update_self, Folder.mem_setFlags]
    simp only [true_and]
  · rw [Function.update_of_ne hf]
    simp only [hf, false_and, not_false_eq_true, and_true, or_false]

/-- After STORE every other message is as it was. -/
theorem mem_store_of_ne {flag : String} {f : String} {m : Message β} (hne : ¬ (f = source ∧ m.uid = uid)) :
    m ∈ (b.store source uid flag f).messages ↔ m ∈ (b f).messages := by
  unfold store
  by_cases hf : f = source
  · subst hf
    have hu : m.uid ≠ uid := fun hu => hne ⟨rfl, hu⟩
    rw [Function.update_self, Folder.mem_setFlags]
    constructor
    · rintro (h | ⟨x, -, hx, rfl⟩)
      · exact h.1
      · exact absurd hx hu
    · intro h; exact .inl ⟨h, hu⟩
  · rw [Function.update_of_ne hf]

/-- After STORE the message is still there. -/
theorem exists_mem_store (flag : String) {m₀ : Message β} (h : m₀ ∈ (b source).messages) :
    ∃ m ∈ (b.store source m₀.uid flag source).messages, m.uid = m₀.uid := by
  unfold store
  rw [Function.update_self]
  exact ⟨_, Folder.mem_setFlags.2 (.inr ⟨m₀, h, rfl, rfl⟩), rfl⟩

/-- After STORE the message carries the flag. -/
theorem flag_mem_of_store {flag : String} {m : Message β} (h : m ∈ (b.store source uid flag source).messages)
    (hu : m.uid = uid) : flag ∈ m.flags := by
  unfold store at h
  rw [Function.update_self, Folder.mem_setFlags] at h
  rcases h with ⟨-, hne⟩ | ⟨x, -, -, rfl⟩
  · exact absurd hu hne
  · simp only
    split
    · assumption
    · exact List.mem_append_right _ (List.mem_singleton_self _)

/-- COPY leaves every message where it is. -/
theorem mem_copy_of_mem {f : String} {m : Message β} (h : m ∈ (b f).messages) :
    m ∈ (b.copy source target uid f).messages := by
  cases hfind : (b source).find? uid with
  | none =>
    unfold copy
    rw [hfind]
    exact h
  | some m₀ => exact (mem_copy hfind).2 (.inl h)

/-- MOVE is COPY without the message it was made of. -/
theorem mem_move {f : String} {m : Message β} : m ∈ (b.move source target uid f).messages ↔
    m ∈ (b.copy source target uid f).messages ∧ ¬ (f = source ∧ m.uid = uid) := by
  unfold move
  by_cases hf : f = source
  · subst hf
    rw [Function.update_self, Folder.mem_keep, decide_eq_true_eq]
    exact and_congr_right fun _ => ⟨fun h he => h he.2, fun h he => h ⟨rfl, he⟩⟩
  · rw [Function.update_of_ne hf]
    exact ⟨fun h => ⟨h, fun he => hf he.1⟩, fun h => h.1⟩

/-! ## UIDs are not handed out again -/

/-- No folder goes back with its UIDs. -/
def Later (b b' : Boxes β) : Prop := ∀ f, (b f).uidNext ≤ (b' f).uidNext

theorem Later.refl (b : Boxes β) : Later b b := fun _ => Nat.le_refl _

theorem Later.update {source : String} {f : Folder β} (h : (b source).uidNext ≤ f.uidNext) :
    Later b (Function.update b source f) := by
  intro name
  by_cases hn : name = source
  · subst hn
    rw [Function.update_self]
    exact h
  · exact Nat.le_of_eq (by rw [Function.update_of_ne hn])

theorem later_append (b : Boxes β) (target : String) (flags : List String) (body : β) :
    Later b (Function.update b target ((b target).append flags body)) :=
  .update (Nat.le_succ _)

theorem later_copy (b : Boxes β) (source target : String) (uid : Nat) : Later b (b.copy source target uid) := by
  unfold copy
  cases (b source).find? uid with
  | none => exact .refl b
  | some m => exact later_append b target m.flags m.body

theorem later_move (b : Boxes β) (source target : String) (uid : Nat) : Later b (b.move source target uid) := by
  intro f
  have hcopy := later_copy b source target uid f
  have hkeep : Later (b.copy source target uid) (b.move source target uid) := .update (Nat.le_refl _)
  exact Nat.le_trans hcopy (hkeep f)

theorem later_setFlags (b : Boxes β) (source : String) (uid : Nat) (g : List String → List String) :
    Later b (b.setFlags source uid g) :=
  .update (Nat.le_refl _)

theorem later_expunge (b : Boxes β) (source : String) : Later b (b.expunge source) := .update (Nat.le_refl _)

/-! ## UIDs name the same message -/

/-- From one state of the folders to a later one: a message with a UID that had been handed out is the one
that had it, whatever its flags. -/
structure Continues (b b' : Boxes β) : Prop where
  later : Later b b'
  same : ∀ f, ∀ m' ∈ (b' f).messages, m'.uid < (b f).uidNext → ∃ m ∈ (b f).messages, m.uid = m'.uid ∧ m.body = m'.body

theorem Continues.refl (b : Boxes β) : Continues b b := ⟨.refl b, fun _ m' hm' _ => ⟨m', hm', rfl, rfl⟩⟩

theorem Continues.trans {b b' b'' : Boxes β} (h : Continues b b') (h' : Continues b' b'') : Continues b b'' := by
  refine ⟨fun f => Nat.le_trans (h.later f) (h'.later f), fun f m'' hm'' hold => ?_⟩
  obtain ⟨m', hm', hu', hb'⟩ := h'.same f m'' hm'' (Nat.lt_of_lt_of_le hold (h.later f))
  obtain ⟨m, hm, hu, hb⟩ := h.same f m' hm' (hu' ▸ hold)
  exact ⟨m, hm, hu.trans hu', hb.trans hb'⟩

theorem Continues.update {source : String} {f : Folder β} (hlater : (b source).uidNext ≤ f.uidNext)
    (hsame : ∀ m' ∈ f.messages, m'.uid < (b source).uidNext →
      ∃ m ∈ (b source).messages, m.uid = m'.uid ∧ m.body = m'.body) :
    Continues b (Function.update b source f) := by
  refine ⟨.update hlater, fun name m' hm' hold => ?_⟩
  by_cases hn : name = source
  · subst hn
    rw [Function.update_self] at hm'
    exact hsame m' hm' hold
  · rw [Function.update_of_ne hn] at hm'
    exact ⟨m', hm', rfl, rfl⟩

theorem continues_append (b : Boxes β) (target : String) (flags : List String) (body : β) :
    Continues b (Function.update b target ((b target).append flags body)) := by
  refine .update (Nat.le_succ _) fun m' hm' hold => ?_
  rcases Folder.mem_append.1 hm' with hm' | rfl
  · exact ⟨m', hm', rfl, rfl⟩
  · exact absurd hold (Nat.lt_irrefl _)

theorem continues_keep (b : Boxes β) (source : String) (p : Message β → Bool) :
    Continues b (Function.update b source ((b source).keep p)) :=
  .update (Nat.le_refl _) fun m' hm' _ => ⟨m', (Folder.mem_keep.1 hm').1, rfl, rfl⟩

theorem continues_copy (b : Boxes β) (source target : String) (uid : Nat) : Continues b (b.copy source target uid) := by
  unfold copy
  cases (b source).find? uid with
  | none => exact .refl b
  | some m => exact continues_append b target m.flags m.body

theorem continues_move (b : Boxes β) (source target : String) (uid : Nat) : Continues b (b.move source target uid) :=
  (continues_copy b source target uid).trans (continues_keep _ source _)

theorem continues_setFlags (b : Boxes β) (source : String) (uid : Nat) (g : List String → List String) :
    Continues b (b.setFlags source uid g) := by
  refine .update (Nat.le_refl _) fun m' hm' _ => ?_
  rcases Folder.mem_setFlags.1 hm' with ⟨hm', -⟩ | ⟨m, hm, -, rfl⟩
  · exact ⟨m', hm', rfl, rfl⟩
  · exact ⟨m, hm, rfl, rfl⟩

theorem continues_expunge (b : Boxes β) (source : String) : Continues b (b.expunge source) := continues_keep b source _

/-- What COPY adds to a folder has the body of the message it names. -/
theorem mem_copy_new {f : String} {m : Message β} (h : m ∈ (b.copy source target uid f).messages)
    (hnew : (b f).uidNext ≤ m.uid) : ∃ m₀ ∈ (b source).messages, m₀.uid = uid ∧ m₀.body = m.body := by
  have hold : m ∉ (b f).messages := fun hm => absurd ((b f).uid_lt m hm) (Nat.not_lt.2 hnew)
  cases hfind : (b source).find? uid with
  | none =>
    unfold copy at h
    rw [hfind] at h
    exact absurd h hold
  | some m₀ =>
    obtain ⟨hm₀, hu⟩ := Folder.find?_eq_some.1 hfind
    rcases (mem_copy hfind).1 h with hm | ⟨-, rfl⟩
    · exact absurd hm hold
    · exact ⟨m₀, hm₀, hu, rfl⟩

end Boxes

end Lib
