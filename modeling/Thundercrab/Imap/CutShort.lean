/-
`managesieve.rs`, `read_response`, on answers that the connection may cut short at any octet. Where a
response that is read as it is meant is cut off, what is left of it is never taken for a response of
another kind: the loop fails, or the word that ends the response was whole. And what is left of an
answer is never read as part of the next one.
-/
import Thundercrab.Imap.Framing
import Thundercrab.Lib.Text

namespace Thundercrab

open Lib Lib.BufReader

namespace Sieve

/-! ## Answers -/

/-- The octets of an answer of this kind: lines passed over that begin with a quote or a brace, and the
line that ends it. -/
inductive Answer : Bytes → Kind → Prop where
  | last {u : Bytes} {resp : Response} : Ends u resp → Answer u resp.kind
  | pass {u b : Bytes} {k : Kind} : Passed u → u.head? = some 34 ∨ u.head? = some 123 → Answer b k → Answer (u ++ b) k

/-- The octet its word begins with. -/
def Kind.letter : Kind → UInt8
  | .ok => 79
  | .no => 78
  | .bye => 66

theorem Kind.letter_inj {k k' : Kind} (h : k.letter = k'.letter) : k = k' := by
  cases k <;> cases k' <;> first | rfl | exact absurd h (by decide)

/-- No word begins like a string. -/
theorem Kind.letter_ne (k : Kind) : ¬ (some k.letter = some 34 ∨ some k.letter = some 123) := by
  cases k <;> decide

theorem head?_chars {c : Char} (hc : c.toNat < 128) (cs : List Char) :
    (chars (c :: cs)).head? = some (UInt8.ofNat c.toNat) := by
  unfold chars
  rw [utf8_ofList_cons, utf8EncodeChar_ascii hc]
  rfl

theorem Kind.exists_word (k : Kind) : ∃ c cs, k.word = c :: cs ∧ c.toNat < 128 ∧ UInt8.ofNat c.toNat = k.letter := by
  cases k <;> exact ⟨_, _, rfl, by decide, by decide⟩

theorem head?_of_terminator {text : String} {resp : Response}
    (h : terminator (trimEndCrLf text.toList) = some resp) : (utf8 text).head? = some resp.kind.letter := by
  obtain ⟨r, hr⟩ := List.rdropWhile_prefix (fun c => decide (c = '\r' ∨ c = '\n')) text.toList
  have hword : ∃ cs, trimEndCrLf text.toList = resp.kind.word ++ cs := by
    unfold terminator at h
    split at h
    · rename_i cs hcs
      cases h
      exact ⟨cs, hcs⟩
    · rename_i cs hcs
      cases h
      exact ⟨cs, hcs⟩
    · rename_i cs hcs
      cases h
      exact ⟨cs, hcs⟩
    · cases h
  obtain ⟨cs, hcs⟩ := hword
  obtain ⟨c, w, hw, hc, hletter⟩ := resp.kind.exists_word
  have htext : text.toList = c :: (w ++ (cs ++ r)) := by
    rw [← hr]
    show trimEndCrLf text.toList ++ r = _
    rw [hcs, hw, List.append_assoc, List.cons_append]
  have hhead := head?_chars hc (w ++ (cs ++ r))
  unfold chars at hhead
  rwa [← htext, String.ofList_toList, hletter] at hhead

variable {stream stream' : BufReader} {u rest : Bytes} {resp : Response} {resps : List Response}

/-- A connection that has ended or failed is a failure of the transport. -/
theorem readResponse_nil (hp : stream.pending = []) :
    ∃ msg stream', readResponse stream = (.error (.err (.transport msg)), stream') := by
  rw [readResponse.eq_def]
  cases h : stream.readLine with
  | mk r s =>
    have hturn : ∃ msg, readTurn stream = (some (.error (.err (.transport msg))), s) := by
      unfold readTurn
      rw [h]
      cases r with
      | error e => exact ⟨_, rfl⟩
      | ok line =>
        have hline := (readLine_ok h).1
        rw [hp] at hline
        have hempty : line = "" := utf8_inj (t := "") (List.append_eq_nil_iff.1 hline.symm).1
        exact ⟨"eof", by simp only [hempty, if_true]⟩
    obtain ⟨msg, hturn⟩ := hturn
    exact ⟨msg, s, by rw [hturn]⟩

theorem not_read_of_nil (hp : stream.pending = []) : readResponse stream ≠ (.ok resp, stream') := by
  obtain ⟨msg, s, h⟩ := readResponse_nil hp
  rw [h]
  exact nofun

/-- A turn on the front of a line that goes on comes to the end of the stream. -/
theorem nil_of_readTurn_none (hcut : stream.pending <+: u) (hu : Passed u ∨ ∃ resp, Ends u resp)
    (h : readTurn stream = (none, stream')) : stream'.pending = [] := by
  obtain ⟨v, hv, -, hpass⟩ := readTurn_none h
  rcases hpass with hpass | hnil
  · rw [hv] at hcut
    obtain ⟨q, rfl⟩ := hcut
    obtain ⟨s1, h1, hp1⟩ : ∃ s1, readTurn ⟨v ++ (stream'.pending ++ q), [], stream.invalid⟩ = (none, s1) ∧
      s1.pending = stream'.pending ++ q := readTurn_passed hpass (by rw [pending, delivered, List.append_nil])
    rw [List.append_assoc] at hu
    rcases hu with hu | ⟨resp, hu⟩
    · obtain ⟨s2, h2, hp2⟩ : ∃ s2, readTurn ⟨v ++ (stream'.pending ++ q), [], stream.invalid⟩ = (none, s2) ∧
        s2.pending = [] := readTurn_passed hu (by rw [pending, delivered])
      rw [h1] at h2
      cases h2
      rw [hp1] at hp2
      exact (List.append_eq_nil_iff.1 hp2).1
    · obtain ⟨s2, h2, -⟩ : ∃ s2, readTurn ⟨v ++ (stream'.pending ++ q), [], stream.invalid⟩ = (some (.ok resp), s2) ∧
        s2.pending = [] := readTurn_ends hu (by rw [pending, delivered])
      rw [h1] at h2
      cases h2
  · exact hnil

/-- What a turn returns on the front of a line is told by the first octet of the line. -/
theorem letter_of_readTurn_ok (hcut : stream.pending <+: u) (h : readTurn stream = (some (.ok resp), stream')) :
    u.head? = some resp.kind.letter ∧ (IsLine u → stream'.pending = []) := by
  have hturn := readTurn_turn stream
  rw [h] at hturn
  cases hturn with
  | @ends line _ _ hne h1 hm ht =>
    obtain ⟨hp1, hl⟩ := readLine_ok h1
    rw [hp1] at hcut
    obtain ⟨q, rfl⟩ := hcut
    refine ⟨?_, fun hline => ?_⟩
    · rw [List.append_assoc, List.head?_append, head?_of_terminator ht]
      rfl
    · rcases hl with hl | ⟨-, hnil⟩
      · -- Both begin the octets, and both end at their first line feed.
        have hfirst : splitLf (utf8 line ++ stream'.pending ++ q) = some (utf8 line, stream'.pending ++ q) :=
          splitLf_eq_some.2 ⟨List.append_assoc .., hl⟩
        rw [splitLf_eq_some.2 ⟨(List.append_nil _).symm, hline⟩] at hfirst
        exact (List.append_eq_nil_iff.1 (Prod.mk.inj (Option.some.inj hfirst)).2.symm).1
      · exact hnil

theorem readResponse_ok_cases (h : readResponse stream = (.ok resp, stream')) :
    readTurn stream = (some (.ok resp), stream') ∨
      ∃ s, readTurn stream = (none, s) ∧ readResponse s = (.ok resp, stream') := by
  rw [readResponse.eq_def] at h
  split at h
  · rename_i outcome s h1
    cases h
    exact .inl h1
  · rename_i s h1
    exact .inr ⟨s, h1, h⟩

/-- What is read of an answer, or of the front of one, is of its kind, and nothing beyond it is read. -/
theorem Answer.read {c : Bytes} {k : Kind} (h : Answer c k) : ∀ {stream stream' : BufReader} {resp : Response},
    stream.pending <+: c ++ rest → readResponse stream = (.ok resp, stream') →
    resp.kind = k ∧ stream'.pending <+: rest := by
  induction h with
  | @last u resp' hends =>
    intro stream stream' resp hp hr
    rcases List.prefix_or_prefix_of_prefix hp (List.prefix_append u rest) with hcut | ⟨p, hp'⟩
    · rcases readResponse_ok_cases hr with h1 | ⟨s, h1, hr'⟩
      · obtain ⟨hletter, hnil⟩ := letter_of_readTurn_ok hcut h1
        obtain ⟨⟨text, rfl, -, ht⟩, hline⟩ := hends
        rw [head?_of_terminator ht] at hletter
        refine ⟨Kind.letter_inj (Option.some.inj hletter).symm, ?_⟩
        rw [hnil hline]
        exact List.nil_prefix
      · exact absurd hr' (not_read_of_nil (nil_of_readTurn_none hcut (.inr ⟨resp', hends⟩) h1))
    · obtain ⟨s, h1, hp1⟩ := readTurn_ends hends hp'.symm
      rw [readResponse.eq_def, h1] at hr
      cases hr
      rw [← hp', List.prefix_append_right_inj] at hp
      exact ⟨rfl, hp1 ▸ hp⟩
  | @pass u b k hpass hhead _ ih =>
    intro stream stream' resp hp hr
    rw [List.append_assoc] at hp
    rcases List.prefix_or_prefix_of_prefix hp (List.prefix_append u (b ++ rest)) with hcut | ⟨p, hp'⟩
    · rcases readResponse_ok_cases hr with h1 | ⟨s, h1, hr'⟩
      · obtain ⟨hletter, -⟩ := letter_of_readTurn_ok hcut h1
        rw [hletter] at hhead
        exact absurd hhead resp.kind.letter_ne
      · exact absurd hr' (not_read_of_nil (nil_of_readTurn_none hcut (.inl hpass) h1))
    · obtain ⟨s, h1, hp1⟩ := readTurn_passed hpass hp'.symm
      rw [readResponse.eq_def, h1] at hr
      rw [← hp', List.prefix_append_right_inj] at hp
      exact ih (hp1 ▸ hp) hr

/-! ## Responses of the grammar -/

theorem head?_append_of_some {a b : Bytes} {n : UInt8} (h : a.head? = some n) : (a ++ b).head? = some n := by
  rw [List.head?_append, h]
  rfl

theorem Capability.head?_enc (c : Capability) :
    (encLine c.pieces).head? = some 34 ∨ (encLine c.pieces).head? = some 123 := by
  have hfirst : (Piece.enc (.str c.name)).head? = some 34 ∨ (Piece.enc (.str c.name)).head? = some 123 := by
    cases c.name with
    | quoted text clean => exact .inl (head?_chars (by decide) _)
    | literal octets short => exact .inr (head?_append_of_some (head?_chars (by decide) _))
  unfold encLine Capability.pieces
  rw [List.flatMap_cons, List.append_assoc]
  exact hfirst.imp head?_append_of_some head?_append_of_some

theorem Plain.answer {R : ServerResponse} (h : Plain R) : Answer R.enc R.final.kind := by
  obtain ⟨resp, hends, hkind⟩ := ends_final h.final h.word
  have hcap := h.capabilities
  unfold ServerResponse.enc
  generalize R.capabilities = caps at hcap
  induction caps with
  | nil => exact hkind ▸ Answer.last hends
  | cons c caps ih =>
    rw [List.flatMap_cons, List.append_assoc]
    exact .pass (passed_capability (hcap c List.mem_cons_self)) c.head?_enc
      (ih fun c' hc' => hcap c' (List.mem_cons_of_mem _ hc'))

/-- Responses that are read as they are meant, one after another. -/
def Responses (Rs : List ServerResponse) : Bytes := Rs.flatMap ServerResponse.enc

def kinds (Rs : List ServerResponse) : List Kind := Rs.map fun R => R.final.kind

theorem readResponse_cut {R : ServerResponse} {Rs : List ServerResponse} (hplain : Plain R)
    (hcut : stream.pending <+: Responses (R :: Rs)) (hread : readResponse stream = (.ok resp, stream')) :
    resp.kind = R.final.kind ∧ stream'.pending <+: Responses Rs :=
  hplain.answer.read (by rwa [Responses, List.flatMap_cons] at hcut) hread

/-- These are the responses that calls of `read_response` return, one after another. -/
inductive Reads : BufReader → List Response → Prop where
  | done {stream : BufReader} : Reads stream []
  | read {stream stream' : BufReader} {resp : Response} {resps : List Response} :
      readResponse stream = (.ok resp, stream') → Reads stream' resps → Reads stream (resp :: resps)

theorem Reads.kinds_le (h : Reads stream resps) : ∀ {Rs : List ServerResponse}, (∀ R ∈ Rs, Plain R) →
    stream.pending <+: Responses Rs → resps.map Response.kind <+: kinds Rs := by
  induction h with
  | done => exact fun _ _ => List.nil_prefix
  | read hread _ ih =>
    intro Rs hplain hcut
    cases Rs with
    | nil => exact absurd hread (not_read_of_nil (List.prefix_nil.1 hcut))
    | cons R Rs =>
      obtain ⟨hR, hRs⟩ := List.forall_mem_cons.1 hplain
      obtain ⟨hkind, hrest⟩ := readResponse_cut hR hcut hread
      rw [kinds, List.map_cons, List.map_cons, List.cons_prefix_cons]
      exact ⟨hkind, ih hRs hrest⟩

/-- Where a connection that carries responses is cut, at any octet of any of them, whatever calls of
`read_response` return are the kinds of these responses, in their order, from the first on. -/
theorem reads_cut_short (Rs : List ServerResponse) (hplain : ∀ R ∈ Rs, Plain R) (stream : BufReader)
    (hcut : stream.pending <+: Responses Rs) (resps : List Response) (hreads : Reads stream resps) :
    resps.map Response.kind <+: kinds Rs :=
  hreads.kinds_le hplain hcut

/-- `OK` -/
def plainOk : ServerResponse where
  capabilities := []
  final := sampleGreeting.final

/-- `NO "no"` -/
def shortRefusal : ServerResponse where
  capabilities := []
  final := { sampleRefusal.final with text := some (.quoted ['n', 'o'] (by simp)) }

/-- Of the greeting everything arrived, and of the refusal its word only. -/
def cutStream : BufReader := ⟨sampleGreeting.enc ++ utf8 "NO", [], notUtf8⟩

theorem cutStream_reads : Reads cutStream [.ok, .no ""] := by
  have hcapability : readTurn cutStream = (none, ⟨utf8 "OK\r\nNO", [], notUtf8⟩) := rfl
  have hok : readTurn ⟨utf8 "OK\r\nNO", [], notUtf8⟩ = (some (.ok .ok), ⟨utf8 "NO", [], notUtf8⟩) := rfl
  have hno : readTurn ⟨utf8 "NO", [], notUtf8⟩ = (some (.ok (.no "")), ⟨[], [], notUtf8⟩) := rfl
  have hgreeting : readResponse cutStream = (.ok .ok, ⟨utf8 "NO", [], notUtf8⟩) := by
    rw [readResponse.eq_def, hcapability]
    show readResponse ⟨utf8 "OK\r\nNO", [], notUtf8⟩ = _
    rw [readResponse.eq_def, hok]
  have hrefusal : readResponse ⟨utf8 "NO", [], notUtf8⟩ = (.ok (.no ""), ⟨[], [], notUtf8⟩) := by
    rw [readResponse.eq_def, hno]
  exact .read hgreeting (.read hrefusal .done)

theorem cutStream_kinds : [Kind.ok, .no] <+: kinds [sampleGreeting, shortRefusal] :=
  reads_cut_short [sampleGreeting, shortRefusal] (by decide) cutStream (by decide) _ cutStream_reads

end Sieve

end Thundercrab
