/-
Buffered reading of a source that delivers octets in chunks of any size and may fail between any
two of them: a line is read up to its line feed, a block by its length, and whatever was fetched
beyond either stays in the buffer. What a read returns depends on the octets that are still to
come, never on where the chunks begin.
-/
import Thundercrab.Lib.Bytes

namespace Lib

/-- What one read of the source comes to: some octets, or an error. The source has ended where there
are no more chunks. -/
inductive Chunk where
  | data (b : UInt8) (bs : Bytes)
  | fail (e : String)

structure BufReader where
  buffer : Bytes
  source : List Chunk
  /-- The error for a line that is not UTF-8. -/
  invalid : Bytes → String

namespace BufReader

/-- The octets the source delivers before it fails or ends. -/
def delivered : List Chunk → Bytes
  | [] => []
  | .fail _ :: _ => []
  | .data b bs :: cs => b :: bs ++ delivered cs

/-- The source comes to its end without an error. -/
def Ended : List Chunk → Prop
  | [] => True
  | .fail _ :: _ => False
  | .data _ _ :: cs => Ended cs

/-- The octets still to be read. -/
def pending (r : BufReader) : Bytes := r.buffer ++ delivered r.source

/-! ## Lines -/

def lf : UInt8 := 10

/-- The octets up to and with the first line feed, and those after it. -/
def splitLf : Bytes → Option (Bytes × Bytes)
  | [] => none
  | b :: bs =>
    if b = lf then some ([b], bs)
    else match splitLf bs with
      | some (line, rest) => some (b :: line, rest)
      | none => none

/-- Octets that end with their only line feed. -/
def IsLine (l : Bytes) : Prop := ∃ w, l = w ++ [lf] ∧ lf ∉ w

theorem splitLf_eq_some : ∀ {b line rest : Bytes},
    splitLf b = some (line, rest) ↔ b = line ++ rest ∧ IsLine line
  | [], line, rest => by
    constructor
    · intro h; cases h
    · rintro ⟨h, w, rfl, -⟩
      simp at h
  | b :: bs, line, rest => by
    unfold splitLf
    split
    · rename_i hb
      constructor
      · intro h
        cases h
        exact ⟨rfl, [], by rw [hb]; rfl, by simp⟩
      · rintro ⟨h, w, rfl, hw⟩
        cases w with
        | nil => simp at h; rw [h.1, h.2]; rfl
        | cons x w =>
          simp only [List.cons_append, List.cons.injEq] at h
          exact absurd (by rw [← h.1, hb]; exact List.mem_cons_self) hw
    · rename_i hb
      constructor
      · intro h
        split at h
        · rename_i l r hs
          cases h
          obtain ⟨rfl, w, rfl, hw⟩ := splitLf_eq_some.1 hs
          refine ⟨rfl, b :: w, rfl, ?_⟩
          intro hm
          rcases List.mem_cons.1 hm with h | h
          · exact hb h.symm
          · exact hw h
        · cases h
      · rintro ⟨h, w, rfl, hw⟩
        cases w with
        | nil => simp at h; exact absurd h.1 hb
        | cons x w =>
          simp only [List.cons_append, List.cons.injEq] at h
          obtain ⟨rfl, rfl⟩ := h
          have hw' : lf ∉ w := fun hm => hw (List.mem_cons_of_mem _ hm)
          rw [splitLf_eq_some.2 ⟨rfl, w, rfl, hw'⟩]
          rfl

theorem splitLf_eq_none : ∀ {b : Bytes}, splitLf b = none ↔ lf ∉ b
  | [] => by simp [splitLf]
  | b :: bs => by
    have ih := splitLf_eq_none (b := bs)
    unfold splitLf
    split
    · rename_i hb
      simp [hb]
    · rename_i hb
      split
      · rename_i hs
        rw [hs] at ih
        simp at ih
        simp [ih]
      · rename_i hs
        simp [ih.1 hs, Ne.symm hb]

/-- Octets up to and with the next line feed; at the end of the source, whatever there is. -/
def readUntilLf (invalid : Bytes → String) : Bytes → List Chunk → Except String Bytes × BufReader
  | buffer, [] =>
    match splitLf buffer with
    | some (line, rest) => (.ok line, ⟨rest, [], invalid⟩)
    -- the end of the source ends the line
    | none => (.ok buffer, ⟨[], [], invalid⟩)
  | buffer, c :: cs =>
    match splitLf buffer with
    | some (line, rest) => (.ok line, ⟨rest, c :: cs, invalid⟩)
    | none =>
      match c with
      | .fail e => (.error e, ⟨[], cs, invalid⟩)
      | .data b bs =>
        match readUntilLf invalid (b :: bs) cs with
        | (.ok line, r) => (.ok (buffer ++ line), r)
        | (.error e, r) => (.error e, r)

theorem isLine_lf_mem {line : Bytes} (h : IsLine line) : lf ∈ line := by
  obtain ⟨w, rfl, -⟩ := h
  simp

theorem IsLine.ne_nil {line : Bytes} (h : IsLine line) : line ≠ [] := List.ne_nil_of_mem (isLine_lf_mem h)

/-- What is read before a line is complete is the front of the line. -/
theorem IsLine.split {line a b rest : Bytes} (h : IsLine line) (ha : lf ∉ a) (he : a ++ b = line ++ rest) :
    ∃ line', IsLine line' ∧ line = a ++ line' ∧ b = line' ++ rest := by
  obtain ⟨w, rfl, hw⟩ := h
  induction a generalizing w with
  | nil => exact ⟨_, ⟨w, rfl, hw⟩, rfl, he⟩
  | cons x a ih =>
    cases w with
    | nil =>
      simp only [List.nil_append, List.cons_append, List.cons.injEq] at he
      exact absurd (by rw [he.1]; exact List.mem_cons_self) ha
    | cons y w =>
      simp only [List.cons_append, List.cons.injEq] at he
      obtain ⟨rfl, he⟩ := he
      obtain ⟨line', h1, h2, h3⟩ := ih (fun hm => ha (List.mem_cons_of_mem _ hm)) w
        (fun hm => hw (List.mem_cons_of_mem _ hm)) he
      exact ⟨line', h1, by rw [List.cons_append, h2]; rfl, h3⟩

variable {invalid : Bytes → String}

theorem readUntilLf_line : ∀ {source : List Chunk} {buffer line rest : Bytes}, IsLine line →
    buffer ++ delivered source = line ++ rest →
    ∃ r, readUntilLf invalid buffer source = (.ok line, r) ∧ r.pending = rest := by
  intro source
  induction source with
  | nil =>
    intro buffer line rest hl he
    rw [delivered, List.append_nil] at he
    exact ⟨⟨rest, [], invalid⟩, by rw [readUntilLf, splitLf_eq_some.2 ⟨he, hl⟩], by simp [pending, delivered]⟩
  | cons c cs ih =>
    intro buffer line rest hl he
    unfold readUntilLf
    split
    · rename_i line' rest' hs
      obtain ⟨rfl, hl'⟩ := splitLf_eq_some.1 hs
      rw [List.append_assoc] at he
      have : splitLf (line' ++ (rest' ++ delivered (c :: cs))) = some (line, rest) :=
        splitLf_eq_some.2 ⟨he, hl⟩
      rw [splitLf_eq_some.2 ⟨rfl, hl'⟩] at this
      cases this
      exact ⟨_, rfl, rfl⟩
    · rename_i hs
      -- The buffer is the front of the line, and the chunks bring the rest of it.
      obtain ⟨line', hl', rfl, hd⟩ := hl.split (splitLf_eq_none.1 hs) he
      cases c with
      | fail e =>
        rw [delivered] at hd
        exact absurd (List.append_eq_nil_iff.1 hd.symm).1 hl'.ne_nil
      | data b bs =>
        obtain ⟨r, hr, hp⟩ := ih hl' hd
        exact ⟨r, by simp only [hr], hp⟩

/-- A line that is returned has been taken off what was to be read, without an error on the way, and
only the end of the source leaves it without a line feed. -/
theorem readUntilLf_ok : ∀ {source : List Chunk} {buffer line : Bytes} {r : BufReader},
    readUntilLf invalid buffer source = (.ok line, r) →
    buffer ++ delivered source = line ++ r.pending ∧ (Ended r.source ↔ Ended source) ∧
      (IsLine line ∨ (lf ∉ line ∧ r.pending = []) ∧ Ended source) := by
  intro source
  induction source with
  | nil =>
    intro buffer line r h
    unfold readUntilLf at h
    split at h
    · rename_i hs
      cases h
      obtain ⟨rfl, hl⟩ := splitLf_eq_some.1 hs
      exact ⟨by simp [pending, delivered], Iff.rfl, Or.inl hl⟩
    · rename_i hs
      cases h
      exact ⟨by simp [pending, delivered], Iff.rfl, Or.inr ⟨⟨splitLf_eq_none.1 hs, rfl⟩, trivial⟩⟩
  | cons c cs ih =>
    intro buffer line r h
    unfold readUntilLf at h
    split at h
    · rename_i hs
      cases h
      obtain ⟨rfl, hl⟩ := splitLf_eq_some.1 hs
      exact ⟨by simp [pending], Iff.rfl, Or.inl hl⟩
    · rename_i hs
      have hb := splitLf_eq_none.1 hs
      cases c with
      | fail e => cases h
      | data b bs =>
        simp only at h
        split at h
        · rename_i line' r' hr
          cases h
          obtain ⟨he, hends, hl⟩ := ih hr
          refine ⟨by rw [delivered, he, List.append_assoc], hends, ?_⟩
          rcases hl with ⟨w, rfl, hw⟩ | ⟨⟨hn, hp⟩, hend⟩
          · exact Or.inl ⟨buffer ++ w, by rw [List.append_assoc], by simp [hb, hw]⟩
          · exact Or.inr ⟨⟨by simp [hb, hn], hp⟩, hend⟩
        · cases h

theorem readUntilLf_last : ∀ {source : List Chunk} {buffer : Bytes}, Ended source →
    lf ∉ buffer ++ delivered source →
    readUntilLf invalid buffer source = (.ok (buffer ++ delivered source), ⟨[], [], invalid⟩) := by
  intro source
  induction source with
  | nil =>
    intro buffer _ h
    rw [delivered, List.append_nil] at h ⊢
    rw [readUntilLf, splitLf_eq_none.2 h]
  | cons c cs ih =>
    intro buffer hs h
    cases c with
    | fail e => exact hs.elim
    | data b bs =>
      have hb : lf ∉ buffer := fun hm => h (List.mem_append_left _ hm)
      rw [readUntilLf, splitLf_eq_none.2 hb]
      simp only [ih hs fun hm => h (List.mem_append_right _ hm)]
      rfl

/-- `read_line`: a line has to be UTF-8. -/
def readLine (r : BufReader) : Except String String × BufReader :=
  match readUntilLf r.invalid r.buffer r.source with
  | (.error e, r) => (.error e, r)
  | (.ok line, r) =>
    match ofUtf8? line with
    | some text => (.ok text, r)
    | none => (.error (r.invalid line), r)

variable {r r' : BufReader} {text : String} {rest : Bytes}

theorem readLine_line (h : IsLine (utf8 text)) (hp : r.pending = utf8 text ++ rest) :
    ∃ r', r.readLine = (.ok text, r') ∧ r'.pending = rest := by
  obtain ⟨r', hr, hrest⟩ := readUntilLf_line h hp
  exact ⟨r', by rw [readLine, hr]; simp only [ofUtf8_utf8], hrest⟩

theorem readLine_eq_ok (h : r.readLine = (.ok text, r')) :
    readUntilLf r.invalid r.buffer r.source = (.ok (utf8 text), r') := by
  unfold readLine at h
  split at h
  · cases h
  · rename_i line r1 hr
    split at h
    · rename_i t ht
      cases h
      rw [ofUtf8_eq_some.1 ht] at hr
      exact hr
    · cases h

theorem readLine_ok (h : r.readLine = (.ok text, r')) : r.pending = utf8 text ++ r'.pending ∧
    (IsLine (utf8 text) ∨ lf ∉ utf8 text ∧ r'.pending = []) := by
  obtain ⟨hp, -, hl⟩ := readUntilLf_ok (readLine_eq_ok h)
  exact ⟨hp, hl.imp_right And.left⟩

theorem readLine_ended (h : r.readLine = (.ok text, r')) :
    (Ended r'.source ↔ Ended r.source) ∧ (lf ∉ utf8 text → Ended r.source) := by
  obtain ⟨-, hends, hl⟩ := readUntilLf_ok (readLine_eq_ok h)
  exact ⟨hends, fun hn => (hl.resolve_left fun hline => hn (isLine_lf_mem hline)).2⟩

theorem readLine_last (hs : Ended r.source) (hn : lf ∉ utf8 text) (hp : r.pending = utf8 text) :
    r.readLine = (.ok text, ⟨[], [], r.invalid⟩) := by
  have h : readUntilLf r.invalid r.buffer r.source = (.ok r.pending, ⟨[], [], r.invalid⟩) :=
    readUntilLf_last hs (by rwa [← hp] at hn)
  rw [readLine, h]
  simp only [hp, ofUtf8_utf8]

/-! ## Blocks -/

/-- As many octets as asked for, or none. -/
def readBlock (invalid : Bytes → String) (n : Nat) : Bytes → List Chunk → Except String Bytes × BufReader
  | buffer, [] =>
    if n ≤ buffer.length then (.ok (buffer.take n), ⟨buffer.drop n, [], invalid⟩)
    else (.error "early eof", ⟨[], [], invalid⟩)
  | buffer, c :: cs =>
    if n ≤ buffer.length then (.ok (buffer.take n), ⟨buffer.drop n, c :: cs, invalid⟩)
    else
      match c with
      | .fail e => (.error e, ⟨[], cs, invalid⟩)
      | .data b bs => readBlock invalid n (buffer ++ b :: bs) cs

theorem readBlock_ok {n : Nat} : ∀ {source : List Chunk} {buffer block : Bytes} {r : BufReader},
    readBlock invalid n buffer source = (.ok block, r) →
    (buffer ++ delivered source = block ++ r.pending ∧ block.length = n) ∧ (Ended r.source ↔ Ended source) := by
  intro source
  induction source with
  | nil =>
    intro buffer block r h
    unfold readBlock at h
    split at h
    · rename_i hn
      cases h
      exact ⟨⟨by simp [pending, delivered], by simp [hn]⟩, Iff.rfl⟩
    · cases h
  | cons c cs ih =>
    intro buffer block r h
    unfold readBlock at h
    split at h
    · rename_i hn
      cases h
      exact ⟨⟨by simp [pending, ← List.append_assoc], by simp [hn]⟩, Iff.rfl⟩
    · cases c with
      | fail e => cases h
      | data b bs =>
        obtain ⟨⟨he, hl⟩, hends⟩ := ih h
        exact ⟨⟨by rw [← he, delivered, List.append_assoc], hl⟩, hends⟩

theorem readBlock_block : ∀ {source : List Chunk} {buffer block rest : Bytes},
    buffer ++ delivered source = block ++ rest →
    ∃ r, readBlock invalid block.length buffer source = (.ok block, r) ∧ r.pending = rest := by
  intro source
  induction source with
  | nil =>
    intro buffer block rest he
    rw [delivered, List.append_nil] at he
    subst he
    exact ⟨⟨rest, [], invalid⟩, by simp [readBlock], by simp [pending, delivered]⟩
  | cons c cs ih =>
    intro buffer block rest he
    unfold readBlock
    split
    · rename_i hn
      have ht := congrArg (List.take block.length) he
      have hd := congrArg (List.drop block.length) he
      rw [List.take_append_of_le_length hn, List.take_left] at ht
      rw [List.drop_append_of_le_length hn, List.drop_left] at hd
      exact ⟨⟨buffer.drop block.length, c :: cs, invalid⟩, by rw [ht], hd⟩
    · rename_i hn
      cases c with
      | fail e =>
        rw [delivered, List.append_nil] at he
        exact absurd (by rw [he]; simp) hn
      | data b bs => exact ih (by rw [List.append_assoc]; exact he)

/-- `read_exact` -/
def readExact (r : BufReader) (n : Nat) : Except String Bytes × BufReader :=
  readBlock r.invalid n r.buffer r.source

theorem readExact_block {block : Bytes} (hp : r.pending = block ++ rest) :
    ∃ r', r.readExact block.length = (.ok block, r') ∧ r'.pending = rest := readBlock_block hp

theorem readExact_ok {n : Nat} {block : Bytes} (h : r.readExact n = (.ok block, r')) :
    r.pending = block ++ r'.pending ∧ block.length = n := (readBlock_ok h).1

theorem readExact_ended {n : Nat} {block : Bytes} (h : r.readExact n = (.ok block, r')) :
    Ended r'.source ↔ Ended r.source := (readBlock_ok h).2

end BufReader

end Lib
