/-
The compact text of a JSON value and a reader of it: `readText` of the printed text of a value is
the value, so printing is injective. The reader descends with the length of its input as fuel;
every printed part is shorter than the text it stands in, which is the whole fuel argument.
-/
import Thundercrab.Lib.Json

namespace Lib.Json

/-! ## Printing -/

/-- The two hexadecimal digits of a control character. -/
def hexPair (n : Nat) : List Char := [Nat.digitChar (n / 16), Nat.digitChar (n % 16)]

/-- A character inside a quoted string. -/
def escChar (c : Char) : List Char :=
  if c = '"' then ['\\', '"']
  else if c = '\\' then ['\\', '\\']
  else if c = '\n' then ['\\', 'n']
  else if c = '\r' then ['\\', 'r']
  else if c = '\t' then ['\\', 't']
  else if c = '\x08' then ['\\', 'b']
  else if c = '\x0c' then ['\\', 'f']
  else if c.toNat < 32 then ['\\', 'u', '0', '0'] ++ hexPair c.toNat
  else [c]

def printString (s : String) : List Char := '"' :: (s.toList.flatMap escChar ++ ['"'])

def printInt (n : Int) : List Char :=
  if n < 0 then '-' :: Nat.toDigits 10 n.natAbs else Nat.toDigits 10 n.natAbs

mutual
def Value.print : Value → List Char
  | .null => ['n', 'u', 'l', 'l']
  | .bool true => ['t', 'r', 'u', 'e']
  | .bool false => ['f', 'a', 'l', 's', 'e']
  | .num n => printInt n
  | .str s => printString s
  | .arr [] => ['[', ']']
  | .arr (v :: vs) => '[' :: (v.print ++ printItems vs)
  | .obj [] => ['{', '}']
  | .obj ((k, v) :: m) => '{' :: (printString k ++ ':' :: (v.print ++ printMembers m))
/-- The items after the first one, and the closing bracket. -/
def printItems : List Value → List Char
  | [] => [']']
  | v :: vs => ',' :: (v.print ++ printItems vs)
/-- The members after the first one, and the closing brace. -/
def printMembers : List (String × Value) → List Char
  | [] => ['}']
  | (k, v) :: m => ',' :: (printString k ++ ':' :: (v.print ++ printMembers m))
end

/-- The compact text of a value. -/
def Value.text (v : Value) : String := String.ofList v.print

/-! ## Reading -/

def hexVal (c : Char) : Nat := if c.isDigit then c.toNat - 48 else c.toNat - 87

/-- The rest of a quoted string, and what follows its closing quote. -/
def readChars : List Char → Option (List Char × List Char)
  | '"' :: r => some ([], r)
  | '\\' :: 'u' :: '0' :: '0' :: a :: b :: r =>
    (readChars r).map fun p => (Char.ofNat (16 * hexVal a + hexVal b) :: p.1, p.2)
  | '\\' :: c :: r =>
    let d := if c = 'n' then '\n' else if c = 'r' then '\r' else if c = 't' then '\t'
      else if c = 'b' then '\x08' else if c = 'f' then '\x0c' else c
    (readChars r).map fun p => (d :: p.1, p.2)
  | c :: r => (readChars r).map fun p => (c :: p.1, p.2)
  | [] => none

/-- A run of digits as a number. -/
def readNat (cs : List Char) : Option (Nat × List Char) :=
  if (cs.takeWhile Char.isDigit) = [] then none
  else some (Nat.ofDigitChars 10 (cs.takeWhile Char.isDigit) 0, cs.dropWhile Char.isDigit)

mutual
def readValue : Nat → List Char → Option (Value × List Char)
  | 0, _ => none
  | fuel + 1, cs =>
    match cs with
    | 'n' :: 'u' :: 'l' :: 'l' :: r => some (.null, r)
    | 't' :: 'r' :: 'u' :: 'e' :: r => some (.bool true, r)
    | 'f' :: 'a' :: 'l' :: 's' :: 'e' :: r => some (.bool false, r)
    | '"' :: r => (readChars r).map fun p => (.str (String.ofList p.1), p.2)
    | '[' :: ']' :: r => some (.arr [], r)
    | '[' :: r =>
      (readValue fuel r).bind fun p => (readItems fuel p.2).map fun q => (.arr (p.1 :: q.1), q.2)
    | '{' :: '}' :: r => some (.obj [], r)
    | '{' :: r =>
      (readMember fuel r).bind fun p => (readMembers fuel p.2).map fun q => (.obj (p.1 :: q.1), q.2)
    | '-' :: r => (readNat r).map fun p => (.num (-(p.1 : Int)), p.2)
    | r => (readNat r).map fun p => (.num p.1, p.2)
def readItems : Nat → List Char → Option (List Value × List Char)
  | 0, _ => none
  | fuel + 1, cs =>
    match cs with
    | ']' :: r => some ([], r)
    | ',' :: r =>
      (readValue fuel r).bind fun p => (readItems fuel p.2).map fun q => (p.1 :: q.1, q.2)
    | _ => none
def readMember : Nat → List Char → Option ((String × Value) × List Char)
  | 0, _ => none
  | fuel + 1, cs =>
    match cs with
    | '"' :: r =>
      (readChars r).bind fun p =>
        match p.2 with
        | ':' :: r => (readValue fuel r).map fun q => ((String.ofList p.1, q.1), q.2)
        | _ => none
    | _ => none
def readMembers : Nat → List Char → Option (List (String × Value) × List Char)
  | 0, _ => none
  | fuel + 1, cs =>
    match cs with
    | '}' :: r => some ([], r)
    | ',' :: r =>
      (readMember fuel r).bind fun p => (readMembers fuel p.2).map fun q => (p.1 :: q.1, q.2)
    | _ => none
end

/-- The value a whole text denotes. -/
def readText (s : String) : Option Value :=
  match readValue (s.toList.length + 1) s.toList with
  | some (v, []) => some v
  | _ => none

/-! ## Round trip of the parts -/

theorem hexVal_digitChar : ∀ n < 16, hexVal (Nat.digitChar n) = n := by decide

theorem readChars_plain {c : Char} (h1 : c ≠ '"') (h2 : c ≠ '\\') (r : List Char) :
    readChars (c :: r) = (readChars r).map fun p => (c :: p.1, p.2) := by
  rw [readChars.eq_def]
  split <;> simp_all

theorem readChars_escChar (c : Char) (r : List Char) :
    readChars (escChar c ++ r) = (readChars r).map fun p => (c :: p.1, p.2) := by
  unfold escChar
  split_ifs with h1 h2 h3 h4 h5 h6 h7 h8
  · subst h1; rfl
  · subst h2; rfl
  · subst h3; rfl
  · subst h4; rfl
  · subst h5; rfl
  · subst h6; rfl
  · subst h7; rfl
  · -- a control character is read back from its two hexadecimal digits
    have hc : Char.ofNat (16 * hexVal (Nat.digitChar (c.toNat / 16)) +
        hexVal (Nat.digitChar (c.toNat % 16))) = c := by
      rw [hexVal_digitChar _ (by omega), hexVal_digitChar _ (by omega),
        show 16 * (c.toNat / 16) + c.toNat % 16 = c.toNat by omega]
      exact Char.ofNat_toNat c
    simp only [hexPair, List.cons_append, List.nil_append]
    rw [readChars, hc]
  · exact readChars_plain h1 h2 r

theorem readChars_flatMap : ∀ (cs r : List Char), readChars (cs.flatMap escChar ++ '"' :: r) = some (cs, r)
  | [], r => rfl
  | c :: cs, r => by
    rw [List.flatMap_cons, List.append_assoc, readChars_escChar, readChars_flatMap cs r]
    rfl

/-- A text that does not go on with a digit. -/
def NoDigit (r : List Char) : Prop := ∀ c ∈ r.head?, c.isDigit = false

theorem noDigit_cons {c : Char} {r : List Char} (h : c.isDigit = false) : NoDigit (c :: r) := by
  intro c' hc'; simp at hc'; rw [← hc']; exact h

theorem span_digits (ds : List Char) {r : List Char} (hd : ∀ c ∈ ds, c.isDigit = true) (hr : NoDigit r) :
    (ds ++ r).takeWhile Char.isDigit = ds ∧ (ds ++ r).dropWhile Char.isDigit = r := by
  induction ds with
  | nil =>
    cases r with
    | nil => exact ⟨rfl, rfl⟩
    | cons c r =>
      have hc := hr c rfl
      simp [hc]
  | cons d ds ih =>
    obtain ⟨ih1, ih2⟩ := ih fun c hc => hd c (List.mem_cons_of_mem _ hc)
    have hd0 := hd d (List.mem_cons_self ..)
    rw [List.cons_append, List.takeWhile_cons, List.dropWhile_cons, hd0]
    exact ⟨by simp only [if_true, ih1], by simp only [if_true, ih2]⟩

theorem readNat_toDigits (n : Nat) {r : List Char} (hr : NoDigit r) :
    readNat (Nat.toDigits 10 n ++ r) = some (n, r) := by
  obtain ⟨h1, h2⟩ := span_digits (Nat.toDigits 10 n)
    (fun c hc => Nat.isDigit_of_mem_toDigits (by decide) (by decide) hc) hr
  unfold readNat
  rw [h1, h2, if_neg Nat.toDigits_ne_nil, Nat.ofDigitChars_ten_toDigits]

/-- A number is read by the last alternative: none of the others starts with a digit. -/
theorem readValue_digits {fuel n : Nat} {r : List Char} (hr : NoDigit r) :
    readValue (fuel + 1) (Nat.toDigits 10 n ++ r) = some (.num n, r) := by
  have hread := readNat_toDigits n hr
  have hdig : ∀ c ∈ Nat.toDigits 10 n, c.isDigit = true :=
    fun c hc => Nat.isDigit_of_mem_toDigits (by decide) (by decide) hc
  cases hds : Nat.toDigits 10 n with
  | nil => exact absurd hds Nat.toDigits_ne_nil
  | cons d ds =>
    have hd := hdig d (by rw [hds]; exact List.mem_cons_self ..)
    rw [hds] at hread
    rw [List.cons_append] at hread ⊢
    rw [readValue.eq_def]
    dsimp only
    split <;> first
      | (rename_i heq; simp only [List.cons.injEq] at heq; obtain ⟨rfl, -⟩ := heq; exact absurd hd (by decide))
      | (rw [hread]; rfl)

theorem readValue_printInt {fuel : Nat} (n : Int) {r : List Char} (hr : NoDigit r) :
    readValue (fuel + 1) (printInt n ++ r) = some (.num n, r) := by
  unfold printInt
  split
  · rename_i hn
    rw [List.cons_append, readValue, readNat_toDigits _ hr]
    simp only [Option.map_some]
    rw [show -((n.natAbs : Nat) : Int) = n by omega]
  · rename_i hn
    rw [readValue_digits hr, show ((n.natAbs : Nat) : Int) = n by omega]

/-! ## Round trip -/

theorem noDigit_printItems (vs : List Value) (r : List Char) : NoDigit (printItems vs ++ r) := by
  cases vs <;> exact noDigit_cons (by decide)

theorem noDigit_printMembers (m : List (String × Value)) (r : List Char) : NoDigit (printMembers m ++ r) := by
  rcases m with _ | ⟨⟨k, v⟩, m⟩ <;> exact noDigit_cons (by decide)

theorem readMember_print {fuel : Nat} {k : String} {v : Value} {t : List Char}
    (hv : ∀ r, NoDigit r → readValue fuel (v.print ++ r) = some (v, r)) (ht : NoDigit t) :
    readMember (fuel + 1) (printString k ++ ':' :: (v.print ++ t)) = some ((k, v), t) := by
  unfold printString
  rw [List.cons_append, readMember, List.append_assoc, List.singleton_append, readChars_flatMap]
  simp only [Option.bind_some]
  rw [hv t ht]
  simp

/-- A nonempty array does not start with its closing bracket. -/
theorem print_ne_bracket (v : Value) (t r : List Char) : v.print ++ t ≠ ']' :: r := by
  intro h
  have hr := congrArg (readValue 1) h
  -- No value is read where a closing bracket stands.
  have hn : readValue 1 (']' :: r) = none := by
    simp [readValue, readNat]
  rw [hn] at hr
  cases v with
  | num n =>
    have hhead := congrArg List.head? h
    unfold Value.print printInt at hhead
    split at hhead
    · simp at hhead
    · cases hd : Nat.toDigits 10 n.natAbs with
      | nil => exact Nat.toDigits_ne_nil hd
      | cons d ds =>
        have hdig : d.isDigit = true :=
          Nat.isDigit_of_mem_toDigits (b := 10) (by decide) (by decide) (by rw [hd]; exact List.mem_cons_self ..)
        rw [hd] at hhead
        simp only [List.cons_append, List.head?_cons, Option.some.injEq] at hhead
        rw [hhead] at hdig
        exact absurd hdig (by decide)
  | null => simp [Value.print] at h
  | bool b => cases b <;> simp [Value.print] at h
  | str s => simp [Value.print, printString] at h
  | arr vs => cases vs <;> simp [Value.print] at h
  | obj m => rcases m with _ | ⟨⟨k, v⟩, m⟩ <;> simp [Value.print] at h

mutual
/-- With at least the length of the printed text as fuel, the value is read back. -/
theorem readValue_print : ∀ (v : Value) (fuel : Nat) (r : List Char), v.print.length ≤ fuel → NoDigit r →
    readValue fuel (v.print ++ r) = some (v, r)
  | .null, fuel + 1, r, _, _ => by simp [Value.print, readValue]
  | .bool true, fuel + 1, r, _, _ => by simp [Value.print, readValue]
  | .bool false, fuel + 1, r, _, _ => by simp [Value.print, readValue]
  | .num n, 0, r, h, _ => by
    unfold Value.print printInt at h
    split at h
    · simp at h
    · exact absurd (List.length_eq_zero_iff.1 (Nat.le_zero.1 h)) Nat.toDigits_ne_nil
  | .num n, fuel + 1, r, _, hr => by
    rw [Value.print]; exact readValue_printInt n hr
  | .str s, fuel + 1, r, _, _ => by
    simp only [Value.print, printString, List.cons_append, List.append_assoc, List.nil_append]
    rw [readValue, readChars_flatMap]
    simp
  | .arr [], fuel + 1, r, _, _ => by simp [Value.print, readValue]
  | .arr (v :: vs), fuel + 1, r, h, _ => by
    simp only [Value.print, List.length_cons, List.length_append] at h
    simp only [Value.print, List.cons_append, List.append_assoc]
    have hv := readValue_print v fuel (printItems vs ++ r) (by omega) (noDigit_printItems vs r)
    have hvs := readItems_print vs fuel r (by omega)
    -- rules out the alternative of the empty array
    have hne := print_ne_bracket v (printItems vs ++ r)
    rw [readValue.eq_def]
    simp only [hv, hvs, Option.bind_some, Option.map_some]
  | .obj [], fuel + 1, r, _, _ => by simp [Value.print, readValue]
  | .obj ((k, v) :: m), fuel + 2, r, h, _ => by
    simp only [Value.print, List.length_cons, List.length_append] at h
    simp only [Value.print, List.cons_append, List.append_assoc]
    have hv := readMember_print (k := k) (fun r hr => readValue_print v fuel r (by omega) hr)
      (noDigit_printMembers m r)
    have hm := readMembers_print m (fuel + 1) r (by omega)
    rw [printString] at hv ⊢
    rw [List.cons_append] at hv ⊢
    rw [readValue]
    · simp only [hv, hm, Option.bind_some, Option.map_some]
    · intro r' h'; cases h'
  | .null, 0, _, h, _ => by simp [Value.print] at h
  | .bool true, 0, _, h, _ => by simp [Value.print] at h
  | .bool false, 0, _, h, _ => by simp [Value.print] at h
  | .str _, 0, _, h, _ => by simp [Value.print, printString] at h
  | .arr [], 0, _, h, _ => by simp [Value.print] at h
  | .arr (_ :: _), 0, _, h, _ => by simp [Value.print] at h
  | .obj [], 0, _, h, _ => by simp [Value.print] at h
  | .obj ((_, _) :: _), 0, _, h, _ => by simp [Value.print] at h
  | .obj ((_, _) :: _), 1, _, h, _ => by simp [Value.print, printString] at h
theorem readItems_print : ∀ (vs : List Value) (fuel : Nat) (r : List Char), (printItems vs).length ≤ fuel →
    readItems fuel (printItems vs ++ r) = some (vs, r)
  | [], fuel + 1, r, _ => by simp [printItems, readItems]
  | v :: vs, fuel + 1, r, h => by
    simp only [printItems, List.length_cons, List.length_append] at h
    simp only [printItems, List.cons_append, List.append_assoc]
    rw [readItems, readValue_print v fuel _ (by omega) (noDigit_printItems vs r)]
    simp only [Option.bind_some]
    rw [readItems_print vs fuel r (by omega)]
    rfl
  | [], 0, _, h => by simp [printItems] at h
  | _ :: _, 0, _, h => by simp [printItems] at h
theorem readMembers_print : ∀ (m : List (String × Value)) (fuel : Nat) (r : List Char),
    (printMembers m).length ≤ fuel → readMembers fuel (printMembers m ++ r) = some (m, r)
  | [], fuel + 1, r, _ => by simp [printMembers, readMembers]
  | (k, v) :: m, fuel + 2, r, h => by
    simp only [printMembers, List.length_cons, List.length_append] at h
    simp only [printMembers, List.cons_append, List.append_assoc]
    rw [readMembers, readMember_print (fun r hr => readValue_print v fuel r (by omega) hr)
      (noDigit_printMembers m r)]
    simp only [Option.bind_some]
    rw [readMembers_print m (fuel + 1) r (by omega)]
    rfl
  | [], 0, _, h => by simp [printMembers] at h
  | (_, _) :: _, 0, _, h => by simp [printMembers] at h
  | (_, _) :: _, 1, _, h => by simp [printMembers, printString] at h
end

/-- Reading the compact text of a value gives the value. -/
theorem readText_text (v : Value) : readText v.text = some v := by
  unfold readText Value.text
  have h := readValue_print v (v.print.length + 1) [] (by omega) (by intro c hc; cases hc)
  rw [List.append_nil] at h
  rw [String.toList_ofList, h]

end Lib.Json
