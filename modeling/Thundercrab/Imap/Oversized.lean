/-
The buffer for a literal. `read_response` allocates as many octets as a line announces before it
reads any of them, and no `Vec` holds more than `isize::MAX`: of all the octets a server can send,
those that announce more on a line the loop comes to make it panic, and no others.
-/
import Thundercrab.Imap.Response

namespace Thundercrab

open Lib Lib.BufReader

namespace Sieve

/-- The line announces a literal that no `Vec` can hold. -/
def Oversized (text : String) : Prop :=
  ∃ n, parseLiteralMarker (trimEndCrLf text.toList) = some n ∧ isizeMax < n

/-- The octets come to such a line once those before it are passed over. The line may lack its line
feed where the stream ends after it. -/
inductive Announced (ended : Prop) : Bytes → Prop where
  | line {text : String} {rest : Bytes} : IsLine (utf8 text) → Oversized text → Announced ended (utf8 text ++ rest)
  | last {text : String} : ended → lf ∉ utf8 text → Oversized text → Announced ended (utf8 text)
  | pass {u b : Bytes} : Passed u → Announced ended b → Announced ended (u ++ b)

theorem not_oversized_empty : ¬ Oversized "" := by
  rintro ⟨n, hm, -⟩
  cases hm

theorem Oversized.ne_empty {text : String} (h : Oversized text) : text ≠ "" := fun he => not_oversized_empty (he ▸ h)

theorem Passed.ne_nil {u : Bytes} (h : Passed u) : u ≠ [] := by
  cases h with
  | line hl _ _ => exact hl.ne_nil
  | literal hl _ _ _ => exact List.append_ne_nil_of_left_ne_nil hl.ne_nil _

theorem Announced.ne_nil {ended : Prop} {b : Bytes} (h : Announced ended b) : b ≠ [] := by
  cases h with
  | line hl _ => exact List.append_ne_nil_of_left_ne_nil hl.ne_nil _
  | last _ _ ho => exact utf8_ne_nil ho.ne_empty
  | pass hu _ => exact List.append_ne_nil_of_left_ne_nil hu.ne_nil _

variable {stream stream' : BufReader}

/-! ## One turn -/

theorem readTurn_ended (h : readTurn stream = (none, stream')) : Ended stream'.source ↔ Ended stream.source := by
  have hturn := readTurn_turn stream
  rw [h] at hturn
  cases hturn with
  | literal _ h1 _ _ h2 h3 =>
    exact (readLine_ended h3).1.trans ((readExact_ended h2).trans (readLine_ended h1).1)
  | line _ h1 _ _ => exact (readLine_ended h1).1

theorem readTurn_oversized {text : String} {s1 : BufReader} (h : stream.readLine = (.ok text, s1))
    (ho : Oversized text) : readTurn stream = (some (.error .panic), s1) := by
  have hne := ho.ne_empty
  obtain ⟨n, hm, hn⟩ := ho
  simp only [readTurn, h, hne, if_false, hm, hn, if_true]

theorem readTurn_panic (h : readTurn stream = (some (.error .panic), stream')) :
    Announced (Ended stream.source) stream.pending := by
  have hturn := readTurn_turn stream
  rw [h] at hturn
  cases hturn with
  | oversized h1 hm hn =>
    obtain ⟨hp, hl⟩ := readLine_ok h1
    rcases hl with hl | ⟨hl, hend⟩
    · rw [hp]
      exact .line hl ⟨_, hm, hn⟩
    · rw [hp, hend, List.append_nil]
      exact .last ((readLine_ended h1).2 hl) hl ⟨_, hm, hn⟩

/-! ## The loop -/

theorem readResponse_announced {ended : Prop} {b : Bytes} (h : Announced ended b) : ∀ {stream : BufReader},
    stream.pending = b → (ended → Ended stream.source) → ∃ stream', readResponse stream = (.error .panic, stream') := by
  induction h with
  | line hl ho =>
    intro stream hp _
    obtain ⟨s1, h1, -⟩ := readLine_line hl hp
    refine ⟨s1, ?_⟩
    rw [readResponse.eq_def, readTurn_oversized h1 ho]
  | last he hl ho =>
    intro stream hp hs
    refine ⟨⟨[], [], stream.invalid⟩, ?_⟩
    rw [readResponse.eq_def, readTurn_oversized (readLine_last (hs he) hl hp) ho]
  | pass hu _ ih =>
    intro stream hp hs
    obtain ⟨s1, h1, hp1⟩ := readTurn_passed hu hp
    obtain ⟨s2, h2⟩ := ih hp1 fun he => (readTurn_ended h1).2 (hs he)
    refine ⟨s2, ?_⟩
    rw [readResponse.eq_def, h1]
    exact h2

theorem announced_of_panic (h : readResponse stream = (.error .panic, stream')) :
    Announced (Ended stream.source) stream.pending := by
  fun_induction readResponse stream with
  | case1 stream outcome s1 h1 =>
    cases h
    exact readTurn_panic h1
  | case2 stream s1 h1 ih =>
    obtain ⟨u, hp, -, hpass⟩ := readTurn_none h1
    have hrest := ih h
    rcases hpass with hpass | hend
    · rw [hp]
      rw [readTurn_ended h1] at hrest
      exact .pass hpass hrest
    · exact absurd hend hrest.ne_nil

/-- The call returns a response or an error. -/
def Returns (stream : BufReader) : Prop :=
  ∃ result : Except BackendError Response, (readResponse stream).1 = result.mapError .err

theorem returns_iff : Returns stream ↔ ¬ ∃ stream', readResponse stream = (.error .panic, stream') := by
  unfold Returns
  generalize readResponse stream = r
  obtain ⟨outcome, s1⟩ := r
  constructor
  · rintro ⟨result, hr⟩ ⟨s2, hpanic⟩
    cases hpanic
    cases result with
    | error e => cases hr
    | ok resp => cases hr
  · intro hno
    cases outcome with
    | ok resp => exact ⟨.ok resp, rfl⟩
    | error f =>
      cases f with
      | err e => exact ⟨.error e, rfl⟩
      | panic => exact absurd ⟨s1, rfl⟩ hno

/-- The loop ends on every stream, with a response or an error unless a line it comes to announces a
literal that no `Vec` can hold. -/
theorem readResponse_returns_iff (stream : BufReader) :
    Returns stream ↔ ¬ Announced (Ended stream.source) stream.pending := by
  rw [returns_iff]
  refine not_congr ⟨?_, ?_⟩
  · rintro ⟨s1, h⟩
    exact announced_of_panic h
  · intro h
    exact readResponse_announced h rfl id

/-- One line of a greeting, with `isize::MAX` and one more. -/
theorem announced_too_much : ¬ ∀ stream : BufReader, Returns stream := by
  intro hall
  have hline : IsLine (utf8 "\x7b9223372036854775808\x7d\r\n") := by
    refine ⟨utf8 "\x7b9223372036854775808\x7d\r", ?_, ?_⟩
    · decide
    · decide
  have hover : Oversized "\x7b9223372036854775808\x7d\r\n" := ⟨9223372036854775808, by decide, by decide⟩
  have hann : Announced True (utf8 "\x7b9223372036854775808\x7d\r\n" ++ []) := .line hline hover
  refine returns_iff.1 (hall ⟨utf8 "\x7b9223372036854775808\x7d\r\n", [], notUtf8⟩) ?_
  refine readResponse_announced hann ?_ ?_
  · rw [pending, delivered]
  · exact fun _ => trivial

end Sieve

end Thundercrab
