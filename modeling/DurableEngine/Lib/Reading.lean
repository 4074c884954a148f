/-
  DurableEngine.Lib.Reading

  The readers of JSON texts without their fuel.

  A reader that succeeds has consumed at least one character for each unit of
  fuel it needs, so it succeeds with any fuel that covers what it consumes
  (`readValue_enough`), and `Reads` forgets the fuel.  The rules put readings
  together the way the grammar does.
-/

import DurableEngine.Lib.JsonText

namespace DurableEngine.Lib

-- ============================================================================
-- Progress
-- ============================================================================

theorem length_skipSpace_le (cs : List Char) : (skipSpace cs).length ≤ cs.length :=
  (List.dropWhile_suffix _).length_le

theorem expect_length {c : Char} {cs rest : List Char} (h : expect c cs = some rest) :
    rest.length < cs.length := by
  have hle := length_skipSpace_le cs
  unfold expect at h
  split at h
  · cases h
  · rename_i d tail heq
    obtain ⟨-, htail⟩ := Option.ite_none_right_eq_some.mp h
    cases htail
    rw [heq, List.length_cons] at hle
    omega

theorem readHex4_length {cs rest : List Char} {n : Nat} (h : readHex4 cs = some (n, rest)) :
    rest.length < cs.length := by
  unfold readHex4 at h
  split at h
  · simp only [Option.bind_eq_bind, Option.bind_eq_some_iff, Option.some.injEq, Prod.mk.injEq] at h
    obtain ⟨a, -, b, -, c, -, d, -, -, rfl⟩ := h
    simp only [List.length_cons]
    omega
  · cases h

theorem lowSurrogate?_length {high : Nat} {cs rest : List Char} {c : Char}
    (h : lowSurrogate? high cs = some (c, rest)) : rest.length < cs.length := by
  unfold lowSurrogate? at h
  split at h
  · split at h
    · rename_i low rest' hhex
      obtain ⟨-, heq⟩ := Option.ite_none_right_eq_some.mp h
      have hrest : rest' = rest := congrArg Prod.snd (Option.some.inj heq)
      have hlength := readHex4_length hhex
      rw [← hrest]
      simp only [List.length_cons]
      omega
    · cases h
  · cases h

theorem readUnicode_length {cs rest : List Char} {c : Char} (h : readUnicode cs = some (c, rest)) :
    rest.length < cs.length := by
  simp only [readUnicode, Option.bind_eq_bind, Option.bind_eq_some_iff] at h
  obtain ⟨⟨u, rest'⟩, hhex, h⟩ := h
  have hlength := readHex4_length hhex
  simp only at h
  split at h
  · have hrest := congrArg Prod.snd (Option.some.inj h)
    cases hlow : lowSurrogate? u rest' with
    | none =>
        rw [hlow] at hrest
        rw [show rest = rest' from hrest.symm]
        exact hlength
    | some r =>
        rw [hlow] at hrest
        rw [show rest = r.2 from hrest.symm]
        exact Nat.lt_trans (lowSurrogate?_length (c := r.1) hlow) hlength
  · cases h
    exact hlength

theorem readChar_length {cs rest : List Char} {c : Char} (h : readChar cs = some (c, rest)) :
    rest.length < cs.length := by
  unfold readChar at h
  cases cs with
  | nil => cases h
  | cons d cs =>
      simp only at h
      split at h
      · cases cs with
        | nil => cases h
        | cons e cs =>
            simp only at h
            have hplain : ∀ {x : Char}, some (x, cs) = some (c, rest) → rest.length < (d :: e :: cs).length := by
              intro x heq
              cases heq
              simp only [List.length_cons]
              omega
            split at h
            · exact hplain h
            split at h
            · exact hplain h
            split at h
            · exact hplain h
            split at h
            · exact hplain h
            split at h
            · exact hplain h
            split at h
            · exact hplain h
            split at h
            · have hlength := readUnicode_length h
              simp only [List.length_cons]
              omega
            · cases h
      · obtain ⟨-, heq⟩ := Option.ite_none_left_eq_some.mp h
        cases heq
        exact Nat.lt_succ_self _

theorem readChars_length {n : Nat} {cs s rest : List Char} (h : readChars n cs = some (s, rest)) :
    rest.length < cs.length := by
  induction n generalizing cs s with
  | zero => cases h
  | succ n ih =>
      rw [readChars] at h
      split at h
      · rename_i hquote
        obtain ⟨tail, rfl⟩ := List.head?_eq_some_iff.mp hquote
        cases h
        exact Nat.lt_succ_self _
      · simp only [Option.bind_eq_bind, Option.bind_eq_some_iff, Option.some.injEq, Prod.mk.injEq] at h
        obtain ⟨⟨c, rest₁⟩, hchar, ⟨s', rest₂⟩, hchars, -, rfl⟩ := h
        exact Nat.lt_trans (ih hchars) (readChar_length hchar)

theorem readString_length {cs rest : List Char} {s : String} (h : readString cs = some (s, rest)) :
    rest.length < cs.length := by
  obtain ⟨⟨chars, rest'⟩, hchars, heq⟩ := Option.map_eq_some_iff.mp h
  cases heq
  exact readChars_length hchars

theorem readDigits_length {cs ds rest : List Char} (h : readDigits cs = some (ds, rest)) :
    rest.length < cs.length := by
  obtain ⟨hne, heq⟩ := Option.ite_none_left_eq_some.mp h
  cases heq
  have htotal := congrArg List.length (List.takeWhile_append_dropWhile (p := Char.isDigit) (l := cs))
  rw [List.length_append] at htotal
  have hpos : 0 < (cs.takeWhile Char.isDigit).length := List.length_pos_iff.mpr (by simpa using hne)
  omega

theorem readInteger_length {cs ds rest : List Char} (h : readInteger cs = some (ds, rest)) :
    rest.length < cs.length := by
  unfold readInteger at h
  split at h
  · rename_i hzero
    obtain ⟨tail, rfl⟩ := List.head?_eq_some_iff.mp hzero
    cases h
    exact Nat.lt_succ_self _
  · exact readDigits_length h

theorem readFraction_length {cs ds rest : List Char} (h : readFraction cs = some (ds, rest)) :
    rest.length ≤ cs.length := by
  unfold readFraction at h
  split at h
  · have hlength := readDigits_length h
    rw [List.length_tail] at hlength
    omega
  · cases h
    exact Nat.le_refl _

theorem readSign_length (cs : List Char) : (readSign cs).2.length ≤ cs.length := by
  unfold readSign
  split
  · exact (List.tail_sublist cs).length_le
  · split
    · exact (List.tail_sublist cs).length_le
    · exact Nat.le_refl _

theorem readExponent_length {cs rest : List Char} {e : Option Exponent}
    (h : readExponent cs = some (e, rest)) : rest.length ≤ cs.length := by
  unfold readExponent at h
  split at h
  · simp only [Option.bind_eq_bind, Option.bind_eq_some_iff, Option.some.injEq, Prod.mk.injEq] at h
    obtain ⟨⟨ds, rest'⟩, hdigits, -, rfl⟩ := h
    have hlength : rest'.length < (readSign cs.tail).2.length := readDigits_length hdigits
    have hsign := readSign_length cs.tail
    rw [List.length_tail] at hsign
    simp only
    omega
  · cases h
    exact Nat.le_refl _

theorem readNumber_length {cs rest : List Char} {n : JsonNumber} (h : readNumber cs = some (n, rest)) :
    rest.length < cs.length := by
  simp only [readNumber, Option.bind_eq_bind, Option.bind_eq_some_iff, Option.some.injEq,
    Prod.mk.injEq] at h
  obtain ⟨⟨int, rest₁⟩, hint, ⟨frac, rest₂⟩, hfrac, ⟨e, rest₃⟩, hexp, -, rfl⟩ := h
  have h₁ : rest₁.length < _ := readInteger_length hint
  have h₂ : rest₂.length ≤ rest₁.length := readFraction_length hfrac
  have h₃ : rest₃.length ≤ rest₂.length := readExponent_length hexp
  have hsign : (if decide (cs.head? = some '-') = true then cs.tail else cs).length ≤ cs.length := by
    split
    · exact (List.tail_sublist cs).length_le
    · exact Nat.le_refl _
  simp only
  omega

theorem dropWord_length {word : String} {cs rest : List Char} (hword : word.toList ≠ [])
    (h : dropWord word cs = some rest) : rest.length < cs.length := by
  obtain ⟨hstart, heq⟩ := Option.ite_none_right_eq_some.mp h
  cases heq
  have hle := hstart.length_le
  have hpos := List.length_pos_iff.mpr hword
  rw [List.length_drop]
  omega

theorem readScalar_length {cs rest : List Char} {v : Json} (h : readScalar cs = some (v, rest)) :
    rest.length < cs.length := by
  unfold readScalar at h
  split at h
  · rename_i hnull
    cases h
    exact dropWord_length (by decide) hnull
  · split at h
    · rename_i htrue
      cases h
      exact dropWord_length (by decide) htrue
    · split at h
      · rename_i hfalse
        cases h
        exact dropWord_length (by decide) hfalse
      · obtain ⟨⟨n, rest'⟩, hnumber, heq⟩ := Option.map_eq_some_iff.mp h
        cases heq
        exact readNumber_length hnumber

-- ============================================================================
-- Forms
-- ============================================================================

/-- A text that starts with one character starts with no other. -/
theorem expect_unique {c d : Char} {cs rest : List Char} (h : expect c cs = some rest) (hne : d ≠ c) :
    expect d cs = none := by
  unfold expect at h ⊢
  split
  · rfl
  · rename_i x tail heq
    rw [heq] at h
    obtain ⟨rfl, -⟩ := Option.ite_none_right_eq_some.mp h
    exact if_neg (Ne.symm hne)

/-- The forms of a value, over what its elements and its members are read as. -/
inductive ValueForm (elements : List Char → List Json → List Char → Prop)
    (members : List Char → List (String × Json) → List Char → Prop) (cs : List Char) :
    Json → List Char → Prop where
  | str {r rest : List Char} {s : String} (opens : expect '"' cs = some r)
      (read : readString r = some (s, rest)) : ValueForm elements members cs (.str s) rest
  | emptyArr {r rest : List Char} (opens : expect '[' cs = some r) (closes : expect ']' r = some rest) :
      ValueForm elements members cs (.arr []) rest
  | arr {r rest : List Char} {xs : List Json} (opens : expect '[' cs = some r)
      (more : expect ']' r = none) (read : elements r xs rest) : ValueForm elements members cs (.arr xs) rest
  | emptyObj {r rest : List Char} (opens : expect '\x7b' cs = some r)
      (closes : expect '\x7d' r = some rest) : ValueForm elements members cs (.obj []) rest
  | obj {r rest : List Char} {ms : List (String × Json)} (opens : expect '\x7b' cs = some r)
      (more : expect '\x7d' r = none) (read : members r ms rest) : ValueForm elements members cs (.obj ms) rest
  | scalar {v : Json} {rest : List Char} (str : expect '"' cs = none) (arr : expect '[' cs = none)
      (obj : expect '\x7b' cs = none) (read : readScalar (skipSpace cs) = some (v, rest)) :
      ValueForm elements members cs v rest

theorem ValueForm.imp {E E' : List Char → List Json → List Char → Prop}
    {M M' : List Char → List (String × Json) → List Char → Prop} {cs rest : List Char} {v : Json}
    (h : ValueForm E M cs v rest) (hE : ∀ r xs, r.length < cs.length → E r xs rest → E' r xs rest)
    (hM : ∀ r ms, r.length < cs.length → M r ms rest → M' r ms rest) : ValueForm E' M' cs v rest := by
  cases h with
  | str opens read => exact .str opens read
  | emptyArr opens closes => exact .emptyArr opens closes
  | arr opens more read => exact .arr opens more (hE _ _ (expect_length opens) read)
  | emptyObj opens closes => exact .emptyObj opens closes
  | obj opens more read => exact .obj opens more (hM _ _ (expect_length opens) read)
  | scalar str arr obj read => exact .scalar str arr obj read

/-- An element, and the elements after it or the end of the array. -/
inductive ElementsForm (value : List Char → Json → List Char → Prop)
    (elements : List Char → List Json → List Char → Prop) (cs : List Char) : List Json → List Char → Prop where
  | cons {r r' rest : List Char} {x : Json} {xs : List Json} (head : value cs x r)
      (comma : expect ',' r = some r') (tail : elements r' xs rest) :
      ElementsForm value elements cs (x :: xs) rest
  | last {r rest : List Char} {x : Json} (head : value cs x r) (closes : expect ']' r = some rest) :
      ElementsForm value elements cs [x] rest

/-- A member, and the members after it or the end of the object. -/
inductive MembersForm (value : List Char → Json → List Char → Prop)
    (members : List Char → List (String × Json) → List Char → Prop) (cs : List Char) :
    List (String × Json) → List Char → Prop where
  | cons {r₁ r₂ r₃ r₄ r₅ rest : List Char} {k : String} {x : Json} {ms : List (String × Json)}
      (quote : expect '"' cs = some r₁) (name : readString r₁ = some (k, r₂))
      (colon : expect ':' r₂ = some r₃) (head : value r₃ x r₄) (comma : expect ',' r₄ = some r₅)
      (tail : members r₅ ms rest) : MembersForm value members cs ((k, x) :: ms) rest
  | last {r₁ r₂ r₃ r₄ rest : List Char} {k : String} {x : Json} (quote : expect '"' cs = some r₁)
      (name : readString r₁ = some (k, r₂)) (colon : expect ':' r₂ = some r₃) (head : value r₃ x r₄)
      (closes : expect '\x7d' r₄ = some rest) : MembersForm value members cs [(k, x)] rest

theorem readValue_iff {n : Nat} {cs rest : List Char} {v : Json} :
    readValue (n + 1) cs = some (v, rest) ↔
      ValueForm (fun r xs rest => readElements n r = some (xs, rest))
        (fun r ms rest => readMembers n r = some (ms, rest)) cs v rest := by
  constructor
  · intro h
    rw [readValue] at h
    split at h
    · rename_i hquote
      obtain ⟨⟨s, rest'⟩, hread, heq⟩ := Option.map_eq_some_iff.mp h
      cases heq
      exact .str hquote hread
    · rename_i hquote
      split at h
      · rename_i hbracket
        split at h
        · rename_i hclose
          cases h
          exact .emptyArr hbracket hclose
        · rename_i hmore
          obtain ⟨⟨xs, rest'⟩, hread, heq⟩ := Option.map_eq_some_iff.mp h
          cases heq
          exact .arr hbracket hmore hread
      · rename_i hbracket
        split at h
        · rename_i hbrace
          split at h
          · rename_i hclose
            cases h
            exact .emptyObj hbrace hclose
          · rename_i hmore
            obtain ⟨⟨ms, rest'⟩, hread, heq⟩ := Option.map_eq_some_iff.mp h
            cases heq
            exact .obj hbrace hmore hread
        · rename_i hbrace
          exact .scalar hquote hbracket hbrace h
  · intro h
    cases h with
    | str opens read => simp only [readValue, opens, read, Option.map_some]
    | emptyArr opens closes =>
        simp only [readValue, expect_unique opens (d := '"') (by decide), opens, closes]
    | arr opens more read =>
        simp only [readValue, expect_unique opens (d := '"') (by decide), opens, more, read,
          Option.map_some]
    | emptyObj opens closes =>
        simp only [readValue, expect_unique opens (d := '"') (by decide),
          expect_unique opens (d := '[') (by decide), opens, closes]
    | obj opens more read =>
        simp only [readValue, expect_unique opens (d := '"') (by decide),
          expect_unique opens (d := '[') (by decide), opens, more, read, Option.map_some]
    | scalar str arr obj read => simp only [readValue, str, arr, obj, read]

theorem readElements_iff {n : Nat} {cs rest : List Char} {xs : List Json} :
    readElements (n + 1) cs = some (xs, rest) ↔
      ElementsForm (fun cs x rest => readValue n cs = some (x, rest))
        (fun r xs rest => readElements n r = some (xs, rest)) cs xs rest := by
  constructor
  · intro h
    simp only [readElements, Option.bind_eq_bind, Option.bind_eq_some_iff] at h
    obtain ⟨⟨x, r⟩, hhead, h⟩ := h
    simp only at h
    split at h
    · rename_i hcomma
      obtain ⟨⟨xs', rest'⟩, htail, heq⟩ := Option.map_eq_some_iff.mp h
      cases heq
      exact .cons hhead hcomma htail
    · obtain ⟨rest', hclose, heq⟩ := Option.map_eq_some_iff.mp h
      cases heq
      exact .last hhead hclose
  · intro h
    cases h with
    | cons head comma tail =>
        simp only [readElements, head, comma, tail, Option.bind_eq_bind, Option.bind_some, Option.map_some]
    | last head closes =>
        simp only [readElements, head, expect_unique closes (d := ',') (by decide), closes,
          Option.bind_eq_bind, Option.bind_some, Option.map_some]

theorem readMembers_iff {n : Nat} {cs rest : List Char} {ms : List (String × Json)} :
    readMembers (n + 1) cs = some (ms, rest) ↔
      MembersForm (fun cs x rest => readValue n cs = some (x, rest))
        (fun r ms rest => readMembers n r = some (ms, rest)) cs ms rest := by
  constructor
  · intro h
    simp only [readMembers, Option.bind_eq_bind, Option.bind_eq_some_iff] at h
    obtain ⟨r₁, hquote, ⟨k, r₂⟩, hname, r₃, hcolon, ⟨x, r₄⟩, hhead, h⟩ := h
    simp only at h
    split at h
    · rename_i hcomma
      obtain ⟨⟨ms', rest'⟩, htail, heq⟩ := Option.map_eq_some_iff.mp h
      cases heq
      exact .cons hquote hname hcolon hhead hcomma htail
    · obtain ⟨rest', hclose, heq⟩ := Option.map_eq_some_iff.mp h
      cases heq
      exact .last hquote hname hcolon hhead hclose
  · intro h
    cases h with
    | cons quote name colon head comma tail =>
        simp only [readMembers, quote, name, colon, head, comma, tail, Option.bind_eq_bind,
          Option.bind_some, Option.map_some]
    | last quote name colon head closes =>
        simp only [readMembers, quote, name, colon, head, expect_unique closes (d := ',') (by decide),
          closes, Option.bind_eq_bind, Option.bind_some, Option.map_some]

-- ============================================================================
-- Readings without fuel
-- ============================================================================

/-- What a reader with some fuel reads, it reads with any that covers what it consumes. -/
def Enough {α : Type} (read : Nat → List Char → Option (α × List Char)) (n : Nat) : Prop :=
  ∀ cs a rest, read n cs = some (a, rest) → rest.length < cs.length ∧
    ∀ m, cs.length ≤ m + rest.length → read m cs = some (a, rest)

/-- A reader that succeeds has fuel left for one more step. -/
theorem succ_of_enough {cs rest : List Char} {m : Nat} (hlt : rest.length < cs.length)
    (hm : cs.length ≤ m + rest.length) : ∃ k, m = k + 1 :=
  ⟨m - 1, by omega⟩

theorem enough (n : Nat) : Enough readValue n ∧ Enough readElements n ∧ Enough readMembers n := by
  induction n with
  | zero => exact ⟨fun _ _ _ h => (nomatch h), fun _ _ _ h => (nomatch h), fun _ _ _ h => (nomatch h)⟩
  | succ n ih =>
      obtain ⟨hvalue, helements, hmembers⟩ := ih
      refine ⟨fun cs v rest h => ?_, fun cs xs rest h => ?_, fun cs ms rest h => ?_⟩
      · have hform := readValue_iff.mp h
        have hlt : rest.length < cs.length := by
          cases hform with
          | str opens read => exact Nat.lt_trans (readString_length read) (expect_length opens)
          | emptyArr opens closes | emptyObj opens closes =>
              exact Nat.lt_trans (expect_length closes) (expect_length opens)
          | arr opens _ read => exact Nat.lt_trans (helements _ _ _ read).1 (expect_length opens)
          | obj opens _ read => exact Nat.lt_trans (hmembers _ _ _ read).1 (expect_length opens)
          | scalar _ _ _ read =>
              exact Nat.lt_of_lt_of_le (readScalar_length read) (length_skipSpace_le cs)
        refine ⟨hlt, fun m hm => ?_⟩
        obtain ⟨m, rfl⟩ := succ_of_enough hlt hm
        refine readValue_iff.mpr (hform.imp (fun r xs hr read => ?_) (fun r ms hr read => ?_))
        · exact (helements _ _ _ read).2 m (by omega)
        · exact (hmembers _ _ _ read).2 m (by omega)
      · have hform := readElements_iff.mp h
        cases hform with
        | cons head comma tail =>
            have hhead := hvalue _ _ _ head
            have hcomma := expect_length comma
            have htail := helements _ _ _ tail
            refine ⟨by omega, fun m hm => ?_⟩
            obtain ⟨m, rfl⟩ := succ_of_enough (by omega) hm
            exact readElements_iff.mpr (.cons (hhead.2 m (by omega)) comma (htail.2 m (by omega)))
        | last head closes =>
            have hhead := hvalue _ _ _ head
            have hcloses := expect_length closes
            refine ⟨by omega, fun m hm => ?_⟩
            obtain ⟨m, rfl⟩ := succ_of_enough (by omega) hm
            exact readElements_iff.mpr (.last (hhead.2 m (by omega)) closes)
      · have hform := readMembers_iff.mp h
        cases hform with
        | cons quote name colon head comma tail =>
            have hquote := expect_length quote
            have hname := readString_length name
            have hcolon := expect_length colon
            have hhead := hvalue _ _ _ head
            have hcomma := expect_length comma
            have htail := hmembers _ _ _ tail
            refine ⟨by omega, fun m hm => ?_⟩
            obtain ⟨m, rfl⟩ := succ_of_enough (by omega) hm
            exact readMembers_iff.mpr
              (.cons quote name colon (hhead.2 m (by omega)) comma (htail.2 m (by omega)))
        | last quote name colon head closes =>
            have hquote := expect_length quote
            have hname := readString_length name
            have hcolon := expect_length colon
            have hhead := hvalue _ _ _ head
            have hcloses := expect_length closes
            refine ⟨by omega, fun m hm => ?_⟩
            obtain ⟨m, rfl⟩ := succ_of_enough (by omega) hm
            exact readMembers_iff.mpr (.last quote name colon (hhead.2 m (by omega)) closes)

/-- The text starts with the value, and `rest` follows it. -/
def Reads (cs : List Char) (v : Json) (rest : List Char) : Prop := ∃ n, readValue n cs = some (v, rest)

def ReadsElements (cs : List Char) (xs : List Json) (rest : List Char) : Prop :=
  ∃ n, readElements n cs = some (xs, rest)

def ReadsMembers (cs : List Char) (ms : List (String × Json)) (rest : List Char) : Prop :=
  ∃ n, readMembers n cs = some (ms, rest)

theorem Reads.length {cs rest : List Char} {v : Json} (h : Reads cs v rest) : rest.length < cs.length := by
  obtain ⟨n, hn⟩ := h
  exact ((enough n).1 _ _ _ hn).1

theorem ReadsElements.length {cs rest : List Char} {xs : List Json} (h : ReadsElements cs xs rest) :
    rest.length < cs.length := by
  obtain ⟨n, hn⟩ := h
  exact ((enough n).2.1 _ _ _ hn).1

theorem ReadsMembers.length {cs rest : List Char} {ms : List (String × Json)}
    (h : ReadsMembers cs ms rest) : rest.length < cs.length := by
  obtain ⟨n, hn⟩ := h
  exact ((enough n).2.2 _ _ _ hn).1

theorem Reads.at {cs rest : List Char} {v : Json} (h : Reads cs v rest) {m : Nat}
    (hm : cs.length ≤ m + rest.length) : readValue m cs = some (v, rest) := by
  obtain ⟨n, hn⟩ := h
  exact ((enough n).1 _ _ _ hn).2 m hm

theorem ReadsElements.at {cs rest : List Char} {xs : List Json} (h : ReadsElements cs xs rest) {m : Nat}
    (hm : cs.length ≤ m + rest.length) : readElements m cs = some (xs, rest) := by
  obtain ⟨n, hn⟩ := h
  exact ((enough n).2.1 _ _ _ hn).2 m hm

theorem ReadsMembers.at {cs rest : List Char} {ms : List (String × Json)} (h : ReadsMembers cs ms rest)
    {m : Nat} (hm : cs.length ≤ m + rest.length) : readMembers m cs = some (ms, rest) := by
  obtain ⟨n, hn⟩ := h
  exact ((enough n).2.2 _ _ _ hn).2 m hm

/-- A value is read as one of the forms. -/
theorem reads_iff {cs rest : List Char} {v : Json} :
    Reads cs v rest ↔ ValueForm ReadsElements ReadsMembers cs v rest := by
  constructor
  · rintro ⟨n, hn⟩
    cases n with
    | zero => cases hn
    | succ n => exact (readValue_iff.mp hn).imp (fun _ _ _ h => ⟨n, h⟩) (fun _ _ _ h => ⟨n, h⟩)
  · intro h
    refine ⟨cs.length + 1, readValue_iff.mpr (h.imp (fun r _ hr h => h.at ?_) (fun r _ hr h => h.at ?_))⟩
    · omega
    · omega

theorem readsElements_iff {cs rest : List Char} {xs : List Json} :
    ReadsElements cs xs rest ↔ ElementsForm Reads ReadsElements cs xs rest := by
  constructor
  · rintro ⟨n, hn⟩
    cases n with
    | zero => cases hn
    | succ n =>
        cases readElements_iff.mp hn with
        | cons head comma tail => exact .cons ⟨n, head⟩ comma ⟨n, tail⟩
        | last head closes => exact .last ⟨n, head⟩ closes
  · intro h
    refine ⟨cs.length + 1, readElements_iff.mpr ?_⟩
    cases h with
    | cons head comma tail =>
        have hlength := head.length
        have hcomma := expect_length comma
        exact .cons (head.at (by omega)) comma (tail.at (by omega))
    | last head closes => exact .last (head.at (by omega)) closes

theorem readsMembers_iff {cs rest : List Char} {ms : List (String × Json)} :
    ReadsMembers cs ms rest ↔ MembersForm Reads ReadsMembers cs ms rest := by
  constructor
  · rintro ⟨n, hn⟩
    cases n with
    | zero => cases hn
    | succ n =>
        cases readMembers_iff.mp hn with
        | cons quote name colon head comma tail =>
            exact .cons quote name colon ⟨n, head⟩ comma ⟨n, tail⟩
        | last quote name colon head closes => exact .last quote name colon ⟨n, head⟩ closes
  · intro h
    refine ⟨cs.length + 1, readMembers_iff.mpr ?_⟩
    cases h with
    | cons quote name colon head comma tail =>
        have hquote := expect_length quote
        have hname := readString_length name
        have hcolon := expect_length colon
        have hlength := head.length
        have hcomma := expect_length comma
        exact .cons quote name colon (head.at (by omega)) comma (tail.at (by omega))
    | last quote name colon head closes =>
        have hquote := expect_length quote
        have hname := readString_length name
        have hcolon := expect_length colon
        exact .last quote name colon (head.at (by omega)) closes

/-- A document is one value with white space around it. -/
theorem readDocument_eq_some_iff {cs : List Char} {v : Json} :
    readDocument cs = some v ↔ ∃ rest, Reads cs v rest ∧ skipSpace rest = [] := by
  unfold readDocument
  constructor
  · intro h
    split at h
    · rename_i w rest hread
      obtain ⟨hspace, heq⟩ := Option.ite_none_right_eq_some.mp h
      cases heq
      exact ⟨rest, ⟨_, hread⟩, List.isEmpty_iff.mp hspace⟩
    · cases h
  · rintro ⟨rest, hreads, hspace⟩
    rw [hreads.at (by omega)]
    exact if_pos (List.isEmpty_iff.mpr hspace)

end DurableEngine.Lib
