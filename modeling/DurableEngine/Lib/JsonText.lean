/-
  DurableEngine.Lib.JsonText

  JSON documents read from their text.

  A recursive-descent reader of the grammar `encoding/json` accepts: a reader
  takes the characters that are left and gives back a value with the
  characters after it.  Numbers keep their literal, escapes are decoded, and
  half of a surrogate pair reads as the replacement character.

  The lemmas say what each reader makes of a text that starts with the
  characters it is for; what follows them is a parameter.
-/

import DurableEngine.Lib.Json

namespace DurableEngine.Lib

-- ============================================================================
-- Strings
-- ============================================================================

def isJsonSpace (c : Char) : Bool := c = ' ' || c = '\t' || c = '\n' || c = '\r'

/-- The characters after the white space. -/
def skipSpace (cs : List Char) : List Char := cs.dropWhile isJsonSpace

/-- The characters after `c`, which may follow white space. -/
def expect (c : Char) (cs : List Char) : Option (List Char) :=
  match skipSpace cs with
  | [] => none
  | d :: rest => if d = c then some rest else none

def hexDigit? (c : Char) : Option Nat :=
  let n := c.toNat
  if 48 ≤ n ∧ n ≤ 57 then some (n - 48)
  else if 97 ≤ n ∧ n ≤ 102 then some (n - 87)
  else if 65 ≤ n ∧ n ≤ 70 then some (n - 55)
  else none

/-- Four hexadecimal digits. -/
def readHex4 : List Char → Option (Nat × List Char)
  | a :: b :: c :: d :: rest => do
      let a ← hexDigit? a
      let b ← hexDigit? b
      let c ← hexDigit? c
      let d ← hexDigit? d
      some (((a * 16 + b) * 16 + c) * 16 + d, rest)
  | _ => none

/-- The second half of a surrogate pair whose first half is `high`, with what follows it. -/
def lowSurrogate? (high : Nat) : List Char → Option (Char × List Char)
  | '\\' :: 'u' :: rest =>
      match readHex4 rest with
      | some (low, rest) =>
          if high < 0xdc00 ∧ 0xdc00 ≤ low ∧ low < 0xe000 then
            some (Char.ofNat (0x10000 + (high - 0xd800) * 1024 + (low - 0xdc00)), rest)
          else none
      | none => none
  | _ => none

/-- The character of a `\u` escape. -/
def readUnicode (cs : List Char) : Option (Char × List Char) := do
  let (u, rest) ← readHex4 cs
  if 0xd800 ≤ u ∧ u < 0xe000 then some ((lowSurrogate? u rest).getD ('\uFFFD', rest))
  else some (Char.ofNat u, rest)

/-- One character of a string, escaped or plain. -/
def readChar : List Char → Option (Char × List Char)
  | [] => none
  | c :: rest =>
      if c = '\\' then
        match rest with
        | [] => none
        | e :: rest =>
            if e = '"' ∨ e = '\\' ∨ e = '/' then some (e, rest)
            else if e = 'b' then some ('\x08', rest)
            else if e = 'f' then some ('\x0c', rest)
            else if e = 'n' then some ('\n', rest)
            else if e = 'r' then some ('\r', rest)
            else if e = 't' then some ('\t', rest)
            else if e = 'u' then readUnicode rest
            else none
      else if c.toNat < 32 then none
      else some (c, rest)

/-- The characters of a string up to its closing quote; each takes one of `fuel`. -/
def readChars : Nat → List Char → Option (List Char × List Char)
  | 0, _ => none
  | fuel + 1, cs =>
      if cs.head? = some '"' then some ([], cs.tail)
      else do
        let (c, rest) ← readChar cs
        let (s, rest) ← readChars fuel rest
        some (c :: s, rest)

/-- A string after its opening quote. -/
def readString (cs : List Char) : Option (String × List Char) :=
  (readChars cs.length cs).map (fun r => (String.ofList r.1, r.2))

-- ============================================================================
-- Numbers
-- ============================================================================

/-- A run of digits, at least one. -/
def readDigits (cs : List Char) : Option (List Char × List Char) :=
  if (cs.takeWhile Char.isDigit).isEmpty then none
  else some (cs.takeWhile Char.isDigit, cs.dropWhile Char.isDigit)

/-- The digits before the point: `0`, or a run that does not start with it. -/
def readInteger (cs : List Char) : Option (List Char × List Char) :=
  if cs.head? = some '0' then some (['0'], cs.tail) else readDigits cs

/-- The digits after the point, if there is one. -/
def readFraction (cs : List Char) : Option (List Char × List Char) :=
  if cs.head? = some '.' then readDigits cs.tail else some ([], cs)

def digitsValue (ds : List Char) : Nat := Nat.ofDigitChars 10 ds 0

/-- The sign of an exponent; a minus is `true`. -/
def readSign (cs : List Char) : Option Bool × List Char :=
  if cs.head? = some '-' then (some true, cs.tail)
  else if cs.head? = some '+' then (some false, cs.tail)
  else (none, cs)

/-- The exponent, if there is one. -/
def readExponent (cs : List Char) : Option (Option Exponent × List Char) :=
  if cs.head? = some 'e' ∨ cs.head? = some 'E' then do
    let (sign, rest) := readSign cs.tail
    let (ds, rest) ← readDigits rest
    let abs := digitsValue ds
    some (some ⟨decide (cs.head? = some 'E'), sign, ds.length - (toString abs).length, abs⟩, rest)
  else some (none, cs)

def readNumber (cs : List Char) : Option (JsonNumber × List Char) := do
  let neg := decide (cs.head? = some '-')
  let (int, rest) ← readInteger (if neg then cs.tail else cs)
  let (frac, rest) ← readFraction rest
  let (exponent, rest) ← readExponent rest
  some (⟨neg, digitsValue (int ++ frac), frac.length, exponent⟩, rest)

-- ============================================================================
-- Values
-- ============================================================================

/-- The characters after a word. -/
def dropWord (word : String) (cs : List Char) : Option (List Char) :=
  if word.toList <+: cs then some (cs.drop word.toList.length) else none

/-- A value that is neither an object, an array nor a string. -/
def readScalar (cs : List Char) : Option (Json × List Char) :=
  match dropWord "null" cs with
  | some rest => some (.null, rest)
  | none =>
      match dropWord "true" cs with
      | some rest => some (.bool true, rest)
      | none =>
          match dropWord "false" cs with
          | some rest => some (.bool false, rest)
          | none => (readNumber cs).map (fun r => (.num r.1, r.2))

mutual

/-- A value; each value, element and member takes one of `fuel`. -/
def readValue : Nat → List Char → Option (Json × List Char)
  | 0, _ => none
  | fuel + 1, cs =>
      match expect '"' cs with
      | some rest => (readString rest).map (fun r => (.str r.1, r.2))
      | none =>
          match expect '[' cs with
          | some rest =>
              match expect ']' rest with
              | some rest => some (.arr [], rest)
              | none => (readElements fuel rest).map (fun r => (.arr r.1, r.2))
          | none =>
              match expect '\x7b' cs with
              | some rest =>
                  match expect '\x7d' rest with
                  | some rest => some (.obj [], rest)
                  | none => (readMembers fuel rest).map (fun r => (.obj r.1, r.2))
              | none => readScalar (skipSpace cs)

/-- The elements of an array up to its closing bracket. -/
def readElements : Nat → List Char → Option (List Json × List Char)
  | 0, _ => none
  | fuel + 1, cs => do
      let (x, rest) ← readValue fuel cs
      match expect ',' rest with
      | some rest => (readElements fuel rest).map (fun r => (x :: r.1, r.2))
      | none => (expect ']' rest).map (fun rest => ([x], rest))

/-- The members of an object up to its closing brace. -/
def readMembers : Nat → List Char → Option (List (String × Json) × List Char)
  | 0, _ => none
  | fuel + 1, cs => do
      let rest ← expect '"' cs
      let (k, rest) ← readString rest
      let rest ← expect ':' rest
      let (x, rest) ← readValue fuel rest
      match expect ',' rest with
      | some rest => (readMembers fuel rest).map (fun r => ((k, x) :: r.1, r.2))
      | none => (expect '\x7d' rest).map (fun rest => ([(k, x)], rest))

end

/-- The document that a text is, when it is one value. -/
def readDocument (cs : List Char) : Option Json :=
  match readValue (cs.length + 1) cs with
  | some (v, rest) => if (skipSpace rest).isEmpty then some v else none
  | none => none

example : readDocument " \x7b\"a\" : [1.50e+02, \"\\u00e9\\ud83d\\ude00\"], \"a\":null\x7d".toList =
    some (.obj [("a", .arr [.num ⟨false, 150, 2, some ⟨false, some false, 1, 2⟩⟩, .str "é😀"]),
      ("a", .null)]) := by decide +kernel

-- ============================================================================
-- What the readers read
-- ============================================================================

theorem skipSpace_cons {c : Char} (hc : isJsonSpace c = false) (rest : List Char) :
    skipSpace (c :: rest) = c :: rest := by
  rw [skipSpace, List.dropWhile_cons_of_neg (by rw [hc]; decide)]

theorem expect_self {c : Char} (hc : isJsonSpace c = false) (rest : List Char) :
    expect c (c :: rest) = some rest := by
  rw [expect, skipSpace_cons hc]
  exact if_pos rfl

theorem expect_ne {c d : Char} (hd : isJsonSpace d = false) (hne : d ≠ c) (rest : List Char) :
    expect c (d :: rest) = none := by
  rw [expect, skipSpace_cons hd]
  exact if_neg hne

/-- A string whose characters are written by `e` is read back. -/
theorem readChars_encoded {e : Char → List Char} {s : List Char}
    (hread : ∀ c ∈ s, ∀ rest, readChar (e c ++ rest) = some (c, rest))
    (hquote : ∀ c ∈ s, ∀ rest, (e c ++ rest).head? ≠ some '"') {fuel : Nat} (hfuel : s.length < fuel)
    (rest : List Char) : readChars fuel (s.flatMap e ++ '"' :: rest) = some (s, rest) := by
  induction s generalizing fuel with
  | nil =>
      obtain ⟨n, rfl⟩ := Nat.exists_eq_add_of_lt hfuel
      rfl
  | cons c s ih =>
      cases fuel with
      | zero => exact absurd hfuel (Nat.not_lt_zero _)
      | succ fuel =>
          rw [List.flatMap_cons, List.append_assoc, readChars, if_neg (hquote c List.mem_cons_self _),
            hread c List.mem_cons_self]
          simp only [Option.bind_eq_bind, Option.bind_some]
          rw [ih (fun d hd => hread d (List.mem_cons_of_mem _ hd))
            (fun d hd => hquote d (List.mem_cons_of_mem _ hd)) (Nat.lt_of_succ_lt_succ hfuel)]
          rfl

theorem length_le_flatMap {α β : Type} {e : α → List β} {l : List α} (h : ∀ x ∈ l, e x ≠ []) :
    l.length ≤ (l.flatMap e).length := by
  induction l with
  | nil => exact Nat.le_refl 0
  | cons x l ih =>
      have hx := List.length_pos_iff.mpr (h x List.mem_cons_self)
      have hl := ih (fun y hy => h y (List.mem_cons_of_mem _ hy))
      rw [List.flatMap_cons, List.length_append, List.length_cons]
      omega

theorem readString_encoded {e : Char → List Char} {s : String}
    (hread : ∀ c ∈ s.toList, ∀ rest, readChar (e c ++ rest) = some (c, rest))
    (hquote : ∀ c ∈ s.toList, ∀ rest, (e c ++ rest).head? ≠ some '"') (rest : List Char) :
    readString (s.toList.flatMap e ++ '"' :: rest) = some (s, rest) := by
  have hne : ∀ c ∈ s.toList, e c ≠ [] := by
    intro c hc hnil
    have hnothing := hread c hc []
    rw [hnil] at hnothing
    cases hnothing
  have hlength := length_le_flatMap hne
  have hfuel : s.toList.length < (s.toList.flatMap e ++ '"' :: rest).length := by
    rw [List.length_append, List.length_cons]
    omega
  rw [readString, readChars_encoded hread hquote hfuel, Option.map_some, String.ofList_toList]

/-- A run of digits ends where the rest does not go on with one. -/
theorem readDigits_append {ds rest : List Char} (hds : ∀ c ∈ ds, c.isDigit = true) (hne : ds ≠ [])
    (hrest : ∀ c ∈ rest.head?, c.isDigit = false) : readDigits (ds ++ rest) = some (ds, rest) := by
  have htake : (ds ++ rest).takeWhile Char.isDigit = ds := by
    rw [List.takeWhile_append_of_pos hds]
    cases rest with
    | nil => simp
    | cons c rest => rw [List.takeWhile_cons_of_neg (by rw [hrest c rfl]; decide), List.append_nil]
  have hdrop : (ds ++ rest).dropWhile Char.isDigit = rest := by
    rw [List.dropWhile_append_of_pos hds]
    cases rest with
    | nil => rfl
    | cons c rest => rw [List.dropWhile_cons_of_neg (by rw [hrest c rfl]; decide)]
  rw [readDigits, htake, hdrop, if_neg (by simpa using hne)]

theorem dropWord_append (word : String) (rest : List Char) :
    dropWord word (word.toList ++ rest) = some rest := by
  rw [dropWord, if_pos (List.prefix_append _ _), List.drop_left]

theorem dropWord_of_head {word : String} {c d : Char} (hword : word.toList.head? = some d) (hne : c ≠ d)
    (rest : List Char) : dropWord word (c :: rest) = none := by
  rw [dropWord, if_neg]
  rintro ⟨t, ht⟩
  cases hw : word.toList with
  | nil => rw [hw] at hword; cases hword
  | cons x xs =>
      rw [hw] at hword ht
      cases hword
      cases ht
      exact hne rfl

end DurableEngine.Lib
