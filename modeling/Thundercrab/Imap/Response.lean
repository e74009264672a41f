/-
`managesieve.rs`, the reading half: the loop that reads one response of the server line by line,
passing over a literal wherever a line ends in what looks like its marker. The octets it consumes
are exactly those that split, line by line and literal by literal, into lines it passes over and
a last line it takes for the end of the response.
-/
import Mathlib.Data.List.DropRight
import Thundercrab.Lib.BufReader
import Thundercrab.Imap.Backend

namespace Thundercrab

open Lib Lib.BufReader

namespace Sieve

/-- Why a call returns no value. -/
inductive Failure where
  | err (e : BackendError)
  | panic
  deriving DecidableEq

abbrev Outcome (α : Type) := Except Failure α

inductive Response where
  | ok
  | no (reason : String)
  | bye (reason : String)
  deriving DecidableEq

/-! ## Lines -/

/-- The text before the last `c` and the text after it (`rfind`). -/
def splitLast (c : Char) : List Char → Option (List Char × List Char)
  | [] => none
  | x :: xs =>
    match splitLast c xs with
    | some (before, after) => some (x :: before, after)
    | none => if x = c then some ([], xs) else none

def usizeMax : Nat := 18446744073709551615

def isizeMax : Nat := 9223372036854775807

def stripPlus : List Char → List Char
  | '+' :: digits => digits
  | digits => digits

/-- `str::parse::<usize>`: digits, which one plus sign may precede. -/
def parseUsize (s : List Char) : Option Nat :=
  let digits := stripPlus s
  let n := Nat.ofDigitChars 10 digits 0
  if digits ≠ [] ∧ digits.all Char.isDigit ∧ n ≤ usizeMax then some n else none

/-- Detect a trailing `{N}` or `{N+}` literal marker on a line. -/
def parseLiteralMarker (line : List Char) : Option Nat :=
  match splitLast '}' line with
  | none => none
  | some (before, _) =>
    match splitLast '{' before with
    | none => none
    | some (_, inner) => parseUsize (inner.rdropWhile (· = '+'))

/-- `trim_end_matches(['\r', '\n'])` -/
def trimEndCrLf (line : List Char) : List Char := line.rdropWhile fun c => c = '\r' ∨ c = '\n'

/-- The Unicode property `White_Space`. -/
def isWhitespace (c : Char) : Bool :=
  (9 ≤ c.toNat ∧ c.toNat ≤ 13) ∨ (0x2000 ≤ c.toNat ∧ c.toNat ≤ 0x200a) ∨
    c.toNat ∈ [0x20, 0x85, 0xa0, 0x1680, 0x2028, 0x2029, 0x202f, 0x205f, 0x3000]

/-- `str::trim` -/
def trim (s : List Char) : String := String.ofList ((s.dropWhile isWhitespace).rdropWhile isWhitespace)

/-- Terminators are unquoted at column 0. -/
def terminator : List Char → Option Response
  | 'O' :: 'K' :: _ => some .ok
  | 'N' :: 'O' :: rest => some (.no (trim rest))
  | 'B' :: 'Y' :: 'E' :: rest => some (.bye (trim rest))
  | _ => none

/-! ## The loop -/

/-- One turn of the loop: what `read_response` returns, or `none` where it goes round again. -/
def readTurn (stream : BufReader) : Option (Outcome Response) × BufReader :=
  match stream.readLine with
  | (.error e, stream) => (some (.error (.err (.transport s!"read: {e}"))), stream)
  | (.ok line, stream) =>
    if line = "" then (some (.error (.err (.transport "eof"))), stream)
    else
      let trimmed := trimEndCrLf line.toList
      match parseLiteralMarker trimmed with
      | some literalLen =>
        -- `vec![0u8; n]` panics when no allocation can be that long.
        if isizeMax < literalLen then (some (.error .panic), stream)
        else
          match stream.readExact literalLen with
          | (.error e, stream) => (some (.error (.err (.transport s!"literal body: {e}"))), stream)
          | (.ok _, stream) =>
            match stream.readLine with
            | (.error e, stream) => (some (.error (.err (.transport s!"literal trailer: {e}"))), stream)
            | (.ok _, stream) => (none, stream)
      | none => ((terminator trimmed).map .ok, stream)

/-- A line passed over, with the literal after it and the rest of its line where it shows a marker. -/
inductive Passed : Bytes → Prop where
  | line {text : String} : IsLine (utf8 text) → parseLiteralMarker (trimEndCrLf text.toList) = none →
      terminator (trimEndCrLf text.toList) = none → Passed (utf8 text)
  | literal {text trailer : String} {octets : Bytes} : IsLine (utf8 text) →
      parseLiteralMarker (trimEndCrLf text.toList) = some octets.length → octets.length ≤ isizeMax →
      IsLine (utf8 trailer) → Passed (utf8 text ++ (octets ++ utf8 trailer))

/-- A line that ends the response. -/
structure Ends (line : Bytes) (resp : Response) : Prop where
  text : ∃ text : String, line = utf8 text ∧ parseLiteralMarker (trimEndCrLf text.toList) = none ∧
    terminator (trimEndCrLf text.toList) = some resp
  isLine : IsLine line

theorem ne_empty_of_isLine {text : String} (h : IsLine (utf8 text)) : text ≠ "" := by
  rintro rfl
  exact h.ne_nil rfl

theorem utf8_ne_nil {text : String} (h : text ≠ "") : utf8 text ≠ [] := fun he => h (utf8_inj (t := "") he)

variable {stream stream' : BufReader} {u rest : Bytes} {resp : Response}

theorem readTurn_passed (h : Passed u) (hp : stream.pending = u ++ rest) :
    ∃ stream', readTurn stream = (none, stream') ∧ stream'.pending = rest := by
  cases h with
  | line hl hm ht =>
    obtain ⟨s1, h1, hp1⟩ := readLine_line hl hp
    refine ⟨s1, ?_, hp1⟩
    simp only [readTurn, h1, ne_empty_of_isLine hl, if_false, hm, ht, Option.map_none]
  | literal hl hm hn htr =>
    simp only [List.append_assoc] at hp
    obtain ⟨s1, h1, hp1⟩ := readLine_line hl hp
    obtain ⟨s2, h2, hp2⟩ := readExact_block hp1
    obtain ⟨s3, h3, hp3⟩ := readLine_line htr hp2
    refine ⟨s3, ?_, hp3⟩
    simp only [readTurn, h1, ne_empty_of_isLine hl, if_false, hm, Nat.not_lt.2 hn, h2, h3]

theorem readTurn_ends (h : Ends u resp) (hp : stream.pending = u ++ rest) :
    ∃ stream', readTurn stream = (some (.ok resp), stream') ∧ stream'.pending = rest := by
  obtain ⟨⟨text, rfl, hm, ht⟩, hl⟩ := h
  obtain ⟨s1, h1, hp1⟩ := readLine_line hl hp
  refine ⟨s1, ?_, hp1⟩
  simp only [readTurn, h1, ne_empty_of_isLine hl, if_false, hm, ht, Option.map_some]

/-- What a turn comes to, by what it reads. -/
inductive Turn (stream : BufReader) : Option (Outcome Response) × BufReader → Prop where
  | failed (e : BackendError) (s : BufReader) : Turn stream (some (.error (.err e)), s)
  | oversized {line : String} {n : Nat} {s1 : BufReader} : stream.readLine = (.ok line, s1) →
      parseLiteralMarker (trimEndCrLf line.toList) = some n → isizeMax < n →
      Turn stream (some (.error .panic), s1)
  | literal {line trailer : String} {octets : Bytes} {s1 s2 s3 : BufReader} : line ≠ "" →
      stream.readLine = (.ok line, s1) →
      parseLiteralMarker (trimEndCrLf line.toList) = some octets.length → octets.length ≤ isizeMax →
      s1.readExact octets.length = (.ok octets, s2) → s2.readLine = (.ok trailer, s3) → Turn stream (none, s3)
  | line {line : String} {s1 : BufReader} : line ≠ "" → stream.readLine = (.ok line, s1) →
      parseLiteralMarker (trimEndCrLf line.toList) = none →
      terminator (trimEndCrLf line.toList) = none → Turn stream (none, s1)
  | ends {line : String} {resp : Response} {s1 : BufReader} : line ≠ "" → stream.readLine = (.ok line, s1) →
      parseLiteralMarker (trimEndCrLf line.toList) = none →
      terminator (trimEndCrLf line.toList) = some resp → Turn stream (some (.ok resp), s1)

theorem readTurn_turn (stream : BufReader) : Turn stream (readTurn stream) := by
  unfold readTurn
  split
  · exact .failed _ _
  · rename_i line s1 h1
    split
    · exact .failed _ _
    · rename_i hne
      -- A line is not empty: the stream had not ended.
      simp only
      split
      · rename_i n hm
        split
        · rename_i hn
          exact .oversized h1 hm hn
        · rename_i hn
          split
          · exact .failed _ _
          · rename_i octets s2 h2
            obtain ⟨-, rfl⟩ := readExact_ok h2
            split
            · exact .failed _ _
            · rename_i trailer s3 h3
              exact .literal hne h1 hm (Nat.not_lt.1 hn) h2 h3
      · rename_i hm
        cases ht : terminator (trimEndCrLf line.toList) with
        | none => exact .line hne h1 hm ht
        | some resp => exact .ends hne h1 hm ht

/-- A turn that goes on has passed over some octets, and came to the end of the stream if these are
no whole lines. -/
theorem readTurn_none (h : readTurn stream = (none, stream')) :
    ∃ u, stream.pending = u ++ stream'.pending ∧ u ≠ [] ∧ (Passed u ∨ stream'.pending = []) := by
  have hturn := readTurn_turn stream
  rw [h] at hturn
  cases hturn with
  | @literal line trailer octets s1 s2 _ hne h1 hm hn h2 h3 =>
    obtain ⟨hp1, hl⟩ := readLine_ok h1
    obtain ⟨hp2, -⟩ := readExact_ok h2
    obtain ⟨hp3, htr⟩ := readLine_ok h3
    refine ⟨utf8 line ++ (octets ++ utf8 trailer), ?_, ?_, ?_⟩
    · rw [hp1, hp2, hp3]
      simp only [List.append_assoc]
    · exact List.append_ne_nil_of_left_ne_nil (utf8_ne_nil hne) _
    -- Only the trailer can be cut short: the line before the literal had octets after it.
    · rcases hl with hl | ⟨-, hl⟩
      · exact htr.imp (fun htr => .literal hl hm hn htr) (fun h => h.2)
      · rw [hp2, hp3] at hl
        simp only [List.append_eq_nil_iff] at hl
        exact Or.inr hl.2.2
  | @line line _ hne h1 hm ht =>
    obtain ⟨hp1, hl⟩ := readLine_ok h1
    exact ⟨utf8 line, hp1, utf8_ne_nil hne, hl.imp (fun hl => .line hl hm ht) (fun h => h.2)⟩

/-- A turn that returns a response has read the line that ends it, and came to the end of the stream
if that is no whole line. -/
theorem readTurn_ok (h : readTurn stream = (some (.ok resp), stream')) :
    ∃ u, stream.pending = u ++ stream'.pending ∧ u ≠ [] ∧ (Ends u resp ∨ lf ∉ u) := by
  have hturn := readTurn_turn stream
  rw [h] at hturn
  cases hturn with
  | @ends line _ _ hne h1 hm ht =>
    obtain ⟨hp1, hl⟩ := readLine_ok h1
    exact ⟨utf8 line, hp1, utf8_ne_nil hne, hl.imp (fun hl => ⟨⟨line, rfl, hm, ht⟩, hl⟩) (fun h => h.1)⟩

theorem readTurn_pending_lt (h : readTurn stream = (none, stream')) :
    stream'.pending.length < stream.pending.length := by
  obtain ⟨u, hp, hu, -⟩ := readTurn_none h
  have := List.length_pos_iff.2 hu
  rw [hp, List.length_append]
  omega

/-- Read exactly one response (capability lines and the final terminator). -/
def readResponse (stream : BufReader) : Outcome Response × BufReader :=
  match _h : readTurn stream with
  | (some outcome, stream') => (outcome, stream')
  | (none, stream') => readResponse stream'
termination_by stream.pending.length
decreasing_by exact readTurn_pending_lt _h

/-! ## What it consumes -/

/-- The octets split into some that are passed over and a last line that ends the response. -/
inductive Framed : Bytes → Response → Prop where
  | last {u : Bytes} {resp : Response} : Ends u resp → Framed u resp
  | pass {u b : Bytes} {resp : Response} : Passed u → Framed b resp → Framed (u ++ b) resp

theorem readResponse_framed {c : Bytes} (hf : Framed c resp) : ∀ {stream : BufReader},
    stream.pending = c ++ rest → ∃ stream', readResponse stream = (.ok resp, stream') ∧ stream'.pending = rest := by
  induction hf with
  | last he =>
    intro stream hp
    obtain ⟨s1, h1, hp1⟩ := readTurn_ends he hp
    refine ⟨s1, ?_, hp1⟩
    rw [readResponse.eq_def, h1]
  | pass hu _ ih =>
    intro stream hp
    rw [List.append_assoc] at hp
    obtain ⟨s1, h1, hp1⟩ := readTurn_passed hu hp
    obtain ⟨s2, h2, hp2⟩ := ih hp1
    refine ⟨s2, ?_, hp2⟩
    rw [readResponse.eq_def, h1]
    exact h2

/-- What is returned was framed, unless the stream ended within the last line. -/
theorem readResponse_ok (h : readResponse stream = (.ok resp, stream')) :
    ∃ c, stream.pending = c ++ stream'.pending ∧ c ≠ [] ∧ (Framed c resp ∨ c.getLast? ≠ some lf) := by
  fun_induction readResponse stream with
  | case1 stream outcome s1 h1 =>
    cases h
    obtain ⟨u, hp, hu, he⟩ := readTurn_ok h1
    exact ⟨u, hp, hu, he.imp .last (fun hn h => hn (List.mem_of_getLast? h))⟩
  | case2 stream s1 h1 ih =>
    obtain ⟨u, hp, hu, hpass⟩ := readTurn_none h1
    obtain ⟨c, hc, hne, hf⟩ := ih h
    refine ⟨u ++ c, by rw [hp, hc, List.append_assoc], List.append_ne_nil_of_left_ne_nil hu _, ?_⟩
    rcases hpass with hpass | hend
    · refine hf.imp (.pass hpass) ?_
      rw [List.getLast?_append_of_ne_nil _ hne]
      exact id
    · rw [hend] at hc
      exact absurd (List.append_eq_nil_iff.1 hc.symm).1 hne

/-- The octets that a whole response takes up are framed. -/
theorem readResponse_eq_ok_iff {c : Bytes} (hp : stream.pending = c ++ rest) (hc : c.getLast? = some lf) :
    (∃ stream', readResponse stream = (.ok resp, stream') ∧ stream'.pending = rest) ↔ Framed c resp := by
  constructor
  · rintro ⟨s1, h1, rfl⟩
    obtain ⟨c', hc', -, hf⟩ := readResponse_ok h1
    rw [hp] at hc'
    rw [← List.append_cancel_right hc'] at hf
    exact hf.resolve_right fun h => h hc
  · intro hf
    exact readResponse_framed hf hp

/-- An error for the lines that are not UTF-8, whichever line it is. -/
def notUtf8 (_ : Bytes) : String := "stream did not contain valid UTF-8"

end Sieve

end Thundercrab
