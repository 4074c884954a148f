/-
  DurableEngine.Lib.RoundTrip

  The text `json.Marshal` writes for a value reads back as that value, with
  the members of every object in the order they were written in
  (`readDocument_marshal`).
-/

import DurableEngine.Lib.JsonText
import DurableEngine.Lib.Marshal
import DurableEngine.Lib.Text

namespace DurableEngine.Lib

-- ============================================================================
-- Strings
-- ============================================================================

theorem hexDigit?_digit : ∀ d < 16,
    hexDigit? ("0123456789abcdef".toList.getD d '0') = some d := by decide

theorem readHex4_hex4 {n : Nat} (hn : n < 65536) (rest : List Char) :
    readHex4 (hex4 n ++ rest) = some (n, rest) := by
  simp only [hex4, List.cons_append, List.nil_append, readHex4,
    hexDigit?_digit _ (Nat.mod_lt _ (by decide : 0 < 16)), Option.bind_eq_bind, Option.bind_some,
    Option.some.injEq, Prod.mk.injEq, and_true]
  omega

/-- A `\u` escape of a character outside the surrogates. -/
theorem readChar_unicode {c : Char} (hc : c.toNat < 65536) (rest : List Char) :
    readChar ('\\' :: 'u' :: hex4 c.toNat ++ rest) = some (c, rest) := by
  have hvalid : ¬ (0xd800 ≤ c.toNat ∧ c.toNat < 0xe000) := by
    have hval : c.toNat.isValidChar := c.valid
    unfold Nat.isValidChar at hval
    omega
  have hread : readUnicode (hex4 c.toNat ++ rest) = some (c, rest) := by
    simp only [readUnicode, readHex4_hex4 hc, Option.bind_eq_bind, Option.bind_some, if_neg hvalid,
      Char.ofNat_toNat]
  exact hread

theorem readChar_plain {c : Char} (hslash : c ≠ '\\') (hcontrol : 32 ≤ c.toNat) (rest : List Char) :
    readChar (c :: rest) = some (c, rest) := by
  unfold readChar
  dsimp only
  rw [if_neg hslash, if_neg (Nat.not_lt.mpr hcontrol)]

theorem readChar_escapeChar (c : Char) (rest : List Char) :
    readChar (escapeChar c ++ rest) = some (c, rest) := by
  have hnamed : ∀ {n : Nat} {d : Char}, c.toNat = n → d.toNat = n → c = d := fun hc hd =>
    Char.toNat_inj.mp (hc.trans hd.symm)
  unfold escapeChar
  by_cases hquote : c = '"'
  · rw [if_pos hquote, hquote]
    rfl
  by_cases hslash : c = '\\'
  · rw [if_neg hquote, if_pos hslash, hslash]
    rfl
  rw [if_neg hquote, if_neg hslash]
  by_cases h8 : c.toNat = 8
  · obtain rfl : c = '\x08' := hnamed h8 rfl
    rfl
  by_cases h9 : c.toNat = 9
  · obtain rfl : c = '\t' := hnamed h9 rfl
    rfl
  by_cases h10 : c.toNat = 10
  · obtain rfl : c = '\n' := hnamed h10 rfl
    rfl
  by_cases h12 : c.toNat = 12
  · obtain rfl : c = '\x0c' := hnamed h12 rfl
    rfl
  by_cases h13 : c.toNat = 13
  · obtain rfl : c = '\r' := hnamed h13 rfl
    rfl
  rw [if_neg h8, if_neg h9, if_neg h10, if_neg h12, if_neg h13]
  split
  · rename_i hescaped
    refine readChar_unicode ?_ rest
    rcases hescaped with h | rfl | rfl | rfl | h | h
    · omega
    · decide
    · decide
    · decide
    · omega
    · omega
  · rename_i hplain
    exact readChar_plain hslash (by omega) rest

theorem escapeChar_head (c : Char) (rest : List Char) : (escapeChar c ++ rest).head? ≠ some '"' := by
  unfold escapeChar
  by_cases hquote : c = '"'
  · rw [if_pos hquote]
    simp
  · rw [if_neg hquote]
    repeat' split
    all_goals simp [hquote]

theorem readString_marshal (s : String) (rest : List Char) :
    readString (s.toList.flatMap escapeChar ++ '"' :: rest) = some (s, rest) :=
  readString_encoded (fun c _ => readChar_escapeChar c) (fun c _ => escapeChar_head c) rest

-- ============================================================================
-- Numbers
-- ============================================================================

/-- What follows a number does not go on with it. -/
def EndsNumber (rest : List Char) : Prop :=
  ∀ c ∈ rest.head?, c.isDigit = false ∧ c ≠ '.' ∧ c ≠ 'e' ∧ c ≠ 'E'

theorem toString_toList (n : Nat) : (toString n).toList = Nat.toDigits 10 n := Nat.toList_repr

theorem isDigit_of_mem_toString {n : Nat} {c : Char} (h : c ∈ (toString n).toList) : c.isDigit = true :=
  Nat.isDigit_of_mem_toDigits (b := 10) (by decide) (by decide) (toString_toList n ▸ h)

/-- Only zero is written with a leading zero. -/
theorem head_toString {n : Nat} (h : (toString n).toList.head? = some '0') : n = 0 := by
  rw [toString_toList] at h
  induction n using Nat.strong_induction_on with
  | _ n ih =>
      by_cases hn : n < 10
      · rw [Nat.toDigits_of_lt_base hn] at h
        exact (by decide : ∀ n < 10, some n.digitChar = some '0' → n = 0) n hn h
      · rw [Nat.toDigits_of_base_le (by decide) (Nat.not_lt.mp hn),
          List.head?_append_of_ne_nil _ Nat.toDigits_ne_nil] at h
        have := ih (n / 10) (by omega) h
        omega

/-- Zeros in front do not count. -/
theorem digitsValue_padded (k n : Nat) :
    digitsValue (List.replicate k '0' ++ (toString n).toList) = n := by
  rw [digitsValue, Nat.ofDigitChars_append, Nat.ofDigitChars_replicate_zero, Nat.mul_zero, toString_toList,
    Nat.ofDigitChars_ten_toDigits]

theorem isDigit_of_mem_padded {k n : Nat} {c : Char}
    (h : c ∈ List.replicate k '0' ++ (toString n).toList) : c.isDigit = true := by
  obtain hzero | hdigit := List.mem_append.mp h
  · rw [List.eq_of_mem_replicate hzero]
    decide
  · exact isDigit_of_mem_toString hdigit

theorem EndsNumber.digit {rest : List Char} (h : EndsNumber rest) : ∀ c ∈ rest.head?, c.isDigit = false :=
  fun c hc => (h c hc).1

/-- How the sign of an exponent is written. -/
def signChars : Option Bool → List Char
  | none => []
  | some true => ['-']
  | some false => ['+']

theorem literal_eq (e : Exponent) : e.literal = (if e.upper then 'E' else 'e') ::
    (signChars e.sign ++ (List.replicate e.zeros '0' ++ (toString e.abs).toList)) := by
  obtain ⟨upper, sign, zeros, abs⟩ := e
  rcases sign with _ | b
  · rfl
  · cases b <;> rfl

theorem readSign_signChars (sign : Option Bool) {ds : List Char} (hds : ∀ c ∈ ds.head?, c.isDigit = true) :
    readSign (signChars sign ++ ds) = (sign, ds) := by
  rcases sign with _ | b
  · have hminus : ds.head? ≠ some '-' := fun he => absurd (hds _ he) (by decide)
    have hplus : ds.head? ≠ some '+' := fun he => absurd (hds _ he) (by decide)
    simp [signChars, readSign, hminus, hplus]
  · cases b <;> rfl

theorem readExponent_literal (e : Exponent) {rest : List Char} (hrest : EndsNumber rest) :
    readExponent (e.literal ++ rest) = some (some e, rest) := by
  have hne : List.replicate e.zeros '0' ++ (toString e.abs).toList ≠ [] := by
    rw [toString_toList]
    exact List.append_ne_nil_of_right_ne_nil _ Nat.toDigits_ne_nil
  have hzeros : (List.replicate e.zeros '0' ++ (toString e.abs).toList).length - (toString e.abs).length =
      e.zeros := by
    rw [List.length_append, List.length_replicate, String.length_toList, Nat.add_sub_cancel]
  have hread := readDigits_append (fun c hc => isDigit_of_mem_padded hc) hne hrest.digit
  have hvalue := digitsValue_padded e.zeros e.abs
  have hdigits : ∀ c ∈ List.replicate e.zeros '0' ++ (toString e.abs).toList, c.isDigit = true :=
    fun c hc => isDigit_of_mem_padded hc
  rw [literal_eq]
  generalize List.replicate e.zeros '0' ++ (toString e.abs).toList = ds at hne hzeros hread hvalue hdigits
  have hhead : ∀ c ∈ (ds ++ rest).head?, c.isDigit = true := by
    intro c hc
    rw [List.head?_append_of_ne_nil _ hne] at hc
    exact hdigits c (List.mem_of_mem_head? hc)
  rw [List.cons_append, List.append_assoc, readExponent, if_pos (by cases e.upper <;> simp), List.tail_cons,
    readSign_signChars e.sign hhead]
  simp only [hread, Option.bind_eq_bind, Option.bind_some, hvalue, hzeros, List.head?_cons]
  obtain ⟨upper, sign, zeros, abs⟩ := e
  cases upper <;> rfl

/-- The digits of a literal before and after the point. -/
theorem literal_digits (n : JsonNumber) : ∃ int frac : List Char,
    n.literal = (if n.neg then ['-'] else []) ++ int ++ (if n.scale = 0 then [] else '.' :: frac) ++
      (n.exponent.map Exponent.literal).getD [] ∧
    digitsValue (int ++ frac) = n.coeff ∧ frac.length = n.scale ∧
    (∀ c ∈ int ++ frac, c.isDigit = true) ∧ (int = ['0'] ∨ int ≠ [] ∧ int.head? ≠ some '0') := by
  let ds := paddedDigits n.coeff (n.scale + 1)
  have hds : ds = List.replicate (n.scale + 1 - (toString n.coeff).toList.length) '0' ++
    (toString n.coeff).toList := rfl
  have hlength : ds.length = max (n.scale + 1) (toString n.coeff).toList.length := by
    rw [hds, List.length_append, List.length_replicate]
    omega
  have hpos : 0 < (toString n.coeff).toList.length := by
    rw [toString_toList]
    exact Nat.length_toDigits_pos
  refine ⟨ds.take (ds.length - n.scale), ds.drop (ds.length - n.scale), rfl, ?_, ?_, ?_, ?_⟩
  · rw [List.take_append_drop, hds, digitsValue_padded]
  · rw [List.length_drop]
    omega
  · rw [List.take_append_drop, hds]
    exact fun c hc => isDigit_of_mem_padded hc
  · by_cases hpadded : (toString n.coeff).toList.length ≤ n.scale
    · -- the only digit before the point is a zero
      left
      have hone : ds.length - n.scale = 1 := by omega
      obtain ⟨k, hk⟩ : ∃ k, n.scale + 1 - (toString n.coeff).toList.length = k + 1 :=
        ⟨n.scale - (toString n.coeff).toList.length, by omega⟩
      rw [hone, hds, hk, List.replicate_succ]
      rfl
    · have hplain : ds = (toString n.coeff).toList := by
        rw [hds, show n.scale + 1 - (toString n.coeff).toList.length = 0 by omega]
        rfl
      have hsome : 0 < ds.length - n.scale := by omega
      by_cases hzero : ds.head? = some '0'
      · left
        have hcoeff : n.coeff = 0 := head_toString (hplain ▸ hzero)
        have hdigits : ds = ['0'] := by
          rw [hplain, hcoeff]
          rfl
        rw [hdigits] at hsome ⊢
        simp only [List.length_singleton] at hsome ⊢
        rw [show 1 - n.scale = 1 by omega]
        rfl
      · right
        constructor
        · intro hnil
          have := congrArg List.length hnil
          rw [List.length_take, List.length_nil] at this
          omega
        · rw [List.head?_take, if_neg (by omega)]
          exact hzero

theorem readInteger_append {int rest : List Char} (hdigits : ∀ c ∈ int, c.isDigit = true)
    (hint : int = ['0'] ∨ int ≠ [] ∧ int.head? ≠ some '0') (hrest : ∀ c ∈ rest.head?, c.isDigit = false) :
    readInteger (int ++ rest) = some (int, rest) := by
  obtain rfl | ⟨hne, hzero⟩ := hint
  · rfl
  · rw [readInteger, if_neg (by rw [List.head?_append_of_ne_nil _ hne]; exact hzero)]
    exact readDigits_append hdigits hne hrest

theorem readFraction_append {frac rest : List Char} (hdigits : ∀ c ∈ frac, c.isDigit = true)
    (hrest : ∀ c ∈ rest.head?, c.isDigit = false ∧ c ≠ '.') :
    readFraction ((if frac.length = 0 then [] else '.' :: frac) ++ rest) = some (frac, rest) := by
  by_cases hnil : frac = []
  · subst hnil
    have hpoint : rest.head? ≠ some '.' := fun he => (hrest _ he).2 rfl
    simp [readFraction, hpoint]
  · rw [if_neg (by simpa using hnil), readFraction, List.cons_append, List.head?_cons, if_pos rfl, List.tail_cons]
    exact readDigits_append hdigits hnil (fun c hc => (hrest c hc).1)

theorem readNumber_literal (n : JsonNumber) {rest : List Char} (hrest : EndsNumber rest) :
    readNumber (n.literal ++ rest) = some (n, rest) := by
  obtain ⟨int, frac, hliteral, hvalue, hscale, hdigits, hint⟩ := literal_digits n
  have hintDigits : ∀ c ∈ int, c.isDigit = true := fun c hc => hdigits c (List.mem_append_left _ hc)
  have hintHead : ∃ c, int.head? = some c ∧ c.isDigit = true := by
    obtain rfl | ⟨hne, -⟩ := hint
    · exact ⟨'0', rfl, rfl⟩
    · exact ⟨int.head hne, List.head?_eq_some_head hne, hintDigits _ (List.head_mem hne)⟩
  -- what follows the fraction, and what follows the digits before it
  have hexponent : readExponent ((n.exponent.map Exponent.literal).getD [] ++ rest) =
      some (n.exponent, rest) := by
    cases n.exponent with
    | none =>
        have he : rest.head? ≠ some 'e' := fun h => (hrest _ h).2.2.1 rfl
        have hE : rest.head? ≠ some 'E' := fun h => (hrest _ h).2.2.2 rfl
        simp [readExponent, he, hE]
    | some e => exact readExponent_literal e hrest
  have hafter : ∀ c ∈ ((n.exponent.map Exponent.literal).getD [] ++ rest).head?,
      c.isDigit = false ∧ c ≠ '.' := by
    intro c hc
    cases hexp : n.exponent with
    | none =>
        rw [hexp] at hc
        exact ⟨(hrest c hc).1, (hrest c hc).2.1⟩
    | some e =>
        rw [hexp, Option.map_some, Option.getD_some, literal_eq] at hc
        cases hupper : e.upper <;> rw [hupper] at hc <;> cases hc <;> decide
  have hpoint : ∀ c ∈ ((if n.scale = 0 then [] else '.' :: frac) ++
      ((n.exponent.map Exponent.literal).getD [] ++ rest)).head?, c.isDigit = false := by
    intro c hc
    split at hc
    · exact (hafter c hc).1
    · cases hc
      rfl
  have hfraction := readFraction_append (fun c hc => hdigits c (List.mem_append_right _ hc)) hafter
  rw [hscale] at hfraction
  have hinteger := readInteger_append hintDigits hint hpoint
  rw [hliteral]
  obtain ⟨c, hc, hcdigit⟩ := hintHead
  have hsign : ∀ tail, (((if n.neg then ['-'] else []) ++ int ++ tail).head? = some '-') = (n.neg = true) := by
    intro tail
    cases n.neg
    · obtain ⟨int', rfl⟩ : ∃ int', int = c :: int' := List.head?_eq_some_iff.mp hc
      have : c ≠ '-' := fun h => absurd hcdigit (by rw [h]; decide)
      simp [this]
    · simp
  simp only [List.append_assoc] at hsign ⊢
  simp only [readNumber, hsign, Bool.decide_eq_true]
  have hbody : ∀ tail, (if n.neg = true then ((if n.neg then ['-'] else []) ++ tail).tail
      else (if n.neg then ['-'] else []) ++ tail) = (tail : List Char) := by
    intro tail
    cases n.neg <;> rfl
  simp only [hbody, hinteger, hfraction, hexponent, Option.bind_eq_bind, Option.bind_some, hvalue, hscale]

-- ============================================================================
-- Values
-- ============================================================================

mutual

/-- The value with the members of its objects in the order they are marshalled in. -/
def ordered : Json → Json
  | .null => .null
  | .bool b => .bool b
  | .num n => .num n
  | .str s => .str s
  | .arr xs => .arr (orderedList xs)
  | .obj ms => .obj ((dedupLast (orderedMembers ms)).insertionSort nameLe)

def orderedList : List Json → List Json
  | [] => []
  | x :: xs => ordered x :: orderedList xs

def orderedMembers : List (String × Json) → List (String × Json)
  | [] => []
  | (k, x) :: ms => (k, ordered x) :: orderedMembers ms

end

/-- A member of an object with its text. -/
def memberText (m : String × Json) : String × List Char :=
  (m.1, marshalString m.1 ++ ':' :: marshalTree m.2)

theorem marshalMembers_eq_map (ms : List (String × Json)) : marshalMembers ms = ms.map memberText := by
  induction ms with
  | nil => rfl
  | cons m ms ih =>
      obtain ⟨k, x⟩ := m
      rw [marshalMembers, ih]
      rfl

theorem orderedMembers_eq_map (ms : List (String × Json)) :
    orderedMembers ms = ms.map (Prod.map id ordered) := by
  induction ms with
  | nil => rfl
  | cons m ms ih =>
      obtain ⟨k, x⟩ := m
      rw [orderedMembers, ih]
      rfl

/-- Keeping the last bindings and sorting see the names alone. -/
theorem sorted_map {α β : Type} (g : String → α → β) (ms : List (String × α)) :
    (dedupLast (ms.map (fun m => (m.1, g m.1 m.2)))).insertionSort nameLe =
      ((dedupLast ms).insertionSort nameLe).map (fun m => (m.1, g m.1 m.2)) := by
  have hdedup : dedupLast (ms.map (fun m => (m.1, g m.1 m.2))) =
      (dedupLast ms).map (fun m => (m.1, g m.1 m.2)) := by
    induction ms with
    | nil => rfl
    | cons m ms ih =>
        obtain ⟨k, v⟩ := m
        have hnames : (ms.map (fun m => (m.1, g m.1 m.2))).map Prod.fst = ms.map Prod.fst := by
          rw [List.map_map]
          rfl
        rw [List.map_cons, dedupLast, hnames, ih, dedupLast]
        split <;> rfl
  rw [hdedup]
  exact (List.map_insertionSort nameLe nameLe (fun m => (m.1, g m.1 m.2)) (dedupLast ms)
    (fun _ _ _ _ => Iff.rfl)).symm

/-- The members of an object as they are written. -/
def writtenMembers (ms : List (String × Json)) : List (String × Json) :=
  (dedupLast ms).insertionSort nameLe

theorem ordered_obj (ms : List (String × Json)) :
    ordered (.obj ms) = .obj ((writtenMembers ms).map (Prod.map id ordered)) := by
  rw [ordered, orderedMembers_eq_map]
  exact congrArg JsonTree.obj (sorted_map (fun _ x => ordered x) ms)

/-- The texts of members, separated by commas and closed. -/
def joinMembers : List (String × Json) → List Char
  | [] => ['\x7d']
  | [m] => (memberText m).2 ++ ['\x7d']
  | m :: ms => (memberText m).2 ++ ',' :: joinMembers ms

theorem joinMembers_ne_close {m : String × Json} (ms : List (String × Json)) :
    joinMembers (m :: ms) ≠ ['\x7d'] := by
  cases ms <;> simp [joinMembers, memberText, marshalString]

theorem marshalTree_obj (ms : List (String × Json)) :
    marshalTree (.obj ms) = '\x7b' :: joinMembers (writtenMembers ms) := by
  rw [marshalTree, marshalMembers_eq_map]
  have hsorted := sorted_map (fun k x => marshalString k ++ ':' :: marshalTree x) ms
  rw [show ms.map memberText = ms.map (fun m => (m.1, marshalString m.1 ++ ':' :: marshalTree m.2)) from rfl,
    hsorted, List.map_map, ← writtenMembers]
  refine congrArg _ ?_
  induction writtenMembers ms with
  | nil => rfl
  | cons m l ih =>
      rw [List.map_cons, List.foldr_cons, ih]
      cases l with
      | nil => rfl
      | cons m' l => rw [if_neg (joinMembers_ne_close l)]; rfl

/-- The value's text reads back as the value, whatever follows it that does not go on with a number. -/
def ReadsBack (v : Json) : Prop :=
  ∀ fuel rest, (marshalTree v).length ≤ fuel → EndsNumber rest →
    readValue fuel (marshalTree v ++ rest) = some (ordered v, rest)

/-- A text that starts with no quote, bracket, brace or space is read as a scalar. -/
theorem readValue_scalar {c : Char} {cs : List Char} (fuel : Nat) (hspace : isJsonSpace c = false)
    (h : c ≠ '"' ∧ c ≠ '[' ∧ c ≠ '\x7b') : readValue (fuel + 1) (c :: cs) = readScalar (c :: cs) := by
  rw [readValue, expect_ne hspace h.1, expect_ne hspace h.2.1, expect_ne hspace h.2.2, skipSpace_cons hspace]

/-- A character that a value's text may start with. -/
structure Opens (c : Char) : Prop where
  space : isJsonSpace c = false
  bracket : c ≠ ']'
  brace : c ≠ '\x7d'

theorem Opens.of_word {c : Char} (h : c = 'n' ∨ c = 't' ∨ c = 'f' ∨ c = '"' ∨ c = '[' ∨ c = '\x7b') : Opens c := by
  rcases h with rfl | rfl | rfl | rfl | rfl | rfl <;> exact ⟨by decide, by decide, by decide⟩

/-- A number starts with a digit or a minus. -/
theorem literal_head (n : JsonNumber) :
    ∃ c cs, n.literal = c :: cs ∧ ∀ d, (d ≠ '-' ∧ d.isDigit = false) → c ≠ d := by
  obtain ⟨int, frac, hliteral, -, -, hdigits, hint⟩ := literal_digits n
  have hstart : ∃ c cs, int = c :: cs ∧ c.isDigit = true := by
    obtain rfl | ⟨hne, -⟩ := hint
    · exact ⟨'0', [], rfl, rfl⟩
    · obtain ⟨c, cs, rfl⟩ := List.exists_cons_of_ne_nil hne
      exact ⟨c, cs, rfl, hdigits c List.mem_cons_self⟩
  obtain ⟨c, cs, rfl, hc⟩ := hstart
  cases hneg : n.neg with
  | true =>
      rw [hneg] at hliteral
      exact ⟨'-', _, hliteral, fun d hd he => hd.1 he.symm⟩
  | false =>
      rw [hneg] at hliteral
      refine ⟨c, _, hliteral, fun d hd he => ?_⟩
      rw [he, hd.2] at hc
      cases hc

theorem marshalTree_head (v : Json) : ∃ c cs, marshalTree v = c :: cs ∧ Opens c := by
  cases v with
  | null => exact ⟨'n', _, rfl, .of_word (by decide)⟩
  | bool b =>
      cases b
      · exact ⟨'f', _, rfl, .of_word (by decide)⟩
      · exact ⟨'t', _, rfl, .of_word (by decide)⟩
  | num n =>
      obtain ⟨c, cs, hliteral, hc⟩ := literal_head n
      refine ⟨c, cs, hliteral, ?_, hc _ (by decide), hc _ (by decide)⟩
      simp only [isJsonSpace, Bool.or_eq_false_iff, decide_eq_false_iff_not]
      exact ⟨⟨⟨hc _ (by decide), hc _ (by decide)⟩, hc _ (by decide)⟩, hc _ (by decide)⟩
  | str s => exact ⟨'"', _, rfl, .of_word (by decide)⟩
  | arr xs => exact ⟨'[', _, rfl, .of_word (by decide)⟩
  | obj ms => exact ⟨'\x7b', _, rfl, .of_word (by decide)⟩

theorem endsNumber_cons {c : Char} (h : c.isDigit = false ∧ c ≠ '.' ∧ c ≠ 'e' ∧ c ≠ 'E') (rest : List Char) :
    EndsNumber (c :: rest) := by
  intro d hd
  cases hd
  exact h

theorem succ_of_length {v : Json} {fuel : Nat} (h : (marshalTree v).length ≤ fuel) : ∃ n, fuel = n + 1 := by
  obtain ⟨c, cs, hhead, -⟩ := marshalTree_head v
  rw [hhead, List.length_cons] at h
  exact ⟨fuel - 1, by omega⟩

theorem readsBack_word {v : Json} {w : String} {c : Char} {cs : List Char} (hword : w.toList = c :: cs)
    (htext : marshalTree v = w.toList) (hordered : ordered v = v)
    (hc : isJsonSpace c = false ∧ c ≠ '"' ∧ c ≠ '[' ∧ c ≠ '\x7b')
    (hread : ∀ rest, readScalar (w.toList ++ rest) = some (v, rest)) : ReadsBack v := by
  intro fuel rest hfuel _
  obtain ⟨n, rfl⟩ := succ_of_length hfuel
  have hscalar := hread rest
  rw [htext, hordered]
  rw [hword, List.cons_append] at hscalar ⊢
  rw [readValue_scalar n hc.1 hc.2, hscalar]

theorem readsBack_null : ReadsBack .null :=
  readsBack_word (w := "null") rfl rfl rfl (by decide) (fun rest => by
    rw [readScalar, dropWord_append])

theorem readsBack_bool (b : Bool) : ReadsBack (.bool b) := by
  cases b with
  | true =>
      refine readsBack_word (w := "true") rfl rfl rfl (by decide) (fun rest => ?_)
      have hnull : dropWord "null" ("true".toList ++ rest) = none :=
        dropWord_of_head (d := 'n') rfl (by decide) _
      rw [readScalar, hnull, dropWord_append]
  | false =>
      refine readsBack_word (w := "false") rfl rfl rfl (by decide) (fun rest => ?_)
      have hnull : dropWord "null" ("false".toList ++ rest) = none :=
        dropWord_of_head (d := 'n') rfl (by decide) _
      have htrue : dropWord "true" ("false".toList ++ rest) = none :=
        dropWord_of_head (d := 't') rfl (by decide) _
      rw [readScalar, hnull, htrue, dropWord_append]

theorem readsBack_num (n : JsonNumber) : ReadsBack (.num n) := by
  intro fuel rest hfuel hrest
  obtain ⟨c, cs, hliteral, hc⟩ := literal_head n
  obtain ⟨_, _, hhead, hopens⟩ := marshalTree_head (.num n)
  have htext : marshalTree (.num n) = n.literal := rfl
  rw [htext, hliteral] at hhead
  cases hhead
  obtain ⟨fuel, rfl⟩ := succ_of_length hfuel
  have hnumber := readNumber_literal n hrest
  rw [htext]
  rw [hliteral, List.cons_append] at hnumber ⊢
  rw [readValue_scalar fuel hopens.space ⟨hc _ (by decide), hc _ (by decide), hc _ (by decide)⟩, readScalar,
    dropWord_of_head (d := 'n') rfl (hc _ (by decide)), dropWord_of_head (d := 't') rfl (hc _ (by decide)),
    dropWord_of_head (d := 'f') rfl (hc _ (by decide)), hnumber]
  rfl

theorem readValue_string {fuel : Nat} {cs rest : List Char} (h : expect '"' cs = some rest) :
    readValue (fuel + 1) cs = (readString rest).map (fun r => (.str r.1, r.2)) := by
  simp only [readValue, h]

theorem readsBack_str (s : String) : ReadsBack (.str s) := by
  intro fuel rest hfuel _
  obtain ⟨fuel, rfl⟩ := succ_of_length hfuel
  have htext : marshalTree (.str s) ++ rest = '"' :: (s.toList.flatMap escapeChar ++ '"' :: rest) := by
    simp only [marshalTree, marshalString, List.cons_append, List.append_assoc, List.nil_append]
  rw [htext, readValue_string (expect_self (by decide) _), readString_marshal]
  rfl

/-- Elements separated by commas read back up to the bracket. -/
theorem readElements_marshal {xs : List Json} (h : ∀ x ∈ xs, ReadsBack x) (hne : xs ≠ []) (rest : List Char)
    {n : Nat} (hfuel : (marshalList xs).length < n) :
    readElements n (marshalList xs ++ ']' :: rest) = some (orderedList xs, rest) := by
  induction xs generalizing n with
  | nil => exact absurd rfl hne
  | cons x xs ih =>
      obtain ⟨fuel, rfl⟩ : ∃ m, n = m + 1 := ⟨n - 1, by omega⟩
      have hx := h x List.mem_cons_self
      cases xs with
      | nil =>
          rw [marshalList] at hfuel ⊢
          rw [readElements, hx fuel _ (Nat.le_of_lt_succ hfuel) (endsNumber_cons (by decide) rest)]
          simp only [Option.bind_eq_bind, Option.bind_some, expect_ne (c := ',') (d := ']') (by decide) (by decide),
            expect_self (c := ']') (by decide)]
          rfl
      | cons y ys =>
          have htext : marshalList (x :: y :: ys) = marshalTree x ++ ',' :: marshalList (y :: ys) := rfl
          rw [htext, List.length_append, List.length_cons] at hfuel
          have hrest := ih (fun z hz => h z (List.mem_cons_of_mem _ hz)) (List.cons_ne_nil _ _)
            (n := fuel) (by omega)
          rw [htext, List.append_assoc, List.cons_append, readElements,
            hx fuel _ (by omega) (endsNumber_cons (by decide) _)]
          simp only [Option.bind_eq_bind, Option.bind_some, expect_self (c := ',') (by decide), hrest]
          rfl

theorem readsBack_arr {xs : List Json} (h : ∀ x ∈ xs, ReadsBack x) : ReadsBack (.arr xs) := by
  intro fuel rest hfuel _
  obtain ⟨fuel, rfl⟩ := succ_of_length hfuel
  have htext : marshalTree (.arr xs) ++ rest = '[' :: (marshalList xs ++ ']' :: rest) := by
    simp only [marshalTree, List.cons_append, List.append_assoc, List.nil_append]
  have hlength : (marshalList xs).length + 2 ≤ fuel + 1 := by
    rw [marshalTree, List.length_append, List.length_cons, List.length_singleton] at hfuel
    exact hfuel
  rw [htext]
  cases xs with
  | nil =>
      simp only [readValue, expect_ne (c := '"') (d := '[') (by decide) (by decide),
        expect_self (c := '[') (by decide), marshalList, List.nil_append, expect_self (c := ']') (by decide)]
      rfl
  | cons x xs =>
      obtain ⟨c, cs, hhead, hopens⟩ := marshalTree_head x
      have hclose : expect ']' (marshalList (x :: xs) ++ ']' :: rest) = none := by
        obtain ⟨cs', hcs'⟩ : ∃ cs', marshalList (x :: xs) = c :: cs' := by
          cases xs with
          | nil => exact ⟨cs, hhead⟩
          | cons y ys =>
              refine ⟨cs ++ ',' :: marshalList (y :: ys), ?_⟩
              rw [show marshalList (x :: y :: ys) = marshalTree x ++ ',' :: marshalList (y :: ys) from rfl, hhead]
              rfl
        rw [hcs']
        exact expect_ne hopens.space hopens.bracket _
      simp only [readValue, expect_ne (c := '"') (d := '[') (by decide) (by decide),
        expect_self (c := '[') (by decide), hclose,
        readElements_marshal h (List.cons_ne_nil x xs) rest (n := fuel) (by omega)]
      rfl

/-- Members separated by commas read back up to the brace. -/
theorem readMembers_join {ms : List (String × Json)} (h : ∀ m ∈ ms, ReadsBack m.2) (hne : ms ≠ [])
    (rest : List Char) {n : Nat} (hfuel : (joinMembers ms).length ≤ n) :
    readMembers n (joinMembers ms ++ rest) = some (ms.map (Prod.map id ordered), rest) := by
  induction ms generalizing n with
  | nil => exact absurd rfl hne
  | cons m ms ih =>
      obtain ⟨k, x⟩ := m
      have hx : ReadsBack x := h (k, x) List.mem_cons_self
      -- the member up to its value, which is followed by `tail`
      have hmember : ∀ (fuel : Nat) (tail : List Char), (marshalTree x).length ≤ fuel → EndsNumber tail →
          readMembers (fuel + 1) ((memberText (k, x)).2 ++ tail) =
            (expect ',' tail).elim ((expect '\x7d' tail).map (fun rest => ([(k, ordered x)], rest)))
              (fun rest => (readMembers fuel rest).map (fun r => ((k, ordered x) :: r.1, r.2))) := by
        intro fuel tail hle hends
        have htext : (memberText (k, x)).2 ++ tail =
            '"' :: (k.toList.flatMap escapeChar ++ '"' :: ':' :: (marshalTree x ++ tail)) := by
          simp only [memberText, marshalString, List.cons_append, List.append_assoc, List.nil_append]
        rw [htext, readMembers, expect_self (by decide)]
        simp only [Option.bind_eq_bind, Option.bind_some, readString_marshal, expect_self (c := ':') (by decide),
          hx fuel tail hle hends]
        cases expect ',' tail <;> rfl
      obtain ⟨fuel, rfl⟩ : ∃ m, n = m + 1 := by
        refine ⟨n - 1, ?_⟩
        have hpos : joinMembers ((k, x) :: ms) ≠ [] := by cases ms <;> simp [joinMembers, memberText, marshalString]
        have := List.length_pos_iff.mpr hpos
        omega
      have hsize : (marshalTree x).length < (memberText (k, x)).2.length := by
        rw [show (memberText (k, x)).2 = marshalString k ++ ':' :: marshalTree x from rfl, List.length_append,
          List.length_cons]
        omega
      cases ms with
      | nil =>
          rw [joinMembers, List.length_append, List.length_singleton] at hfuel
          rw [joinMembers, List.append_assoc, List.singleton_append,
            hmember fuel _ (by omega) (endsNumber_cons (by decide) rest)]
          simp only [expect_ne (c := ',') (d := '\x7d') (by decide) (by decide),
            expect_self (c := '\x7d') (by decide)]
          rfl
      | cons m ms =>
          have htext : joinMembers ((k, x) :: m :: ms) = (memberText (k, x)).2 ++ ',' :: joinMembers (m :: ms) := rfl
          rw [htext, List.length_append, List.length_cons] at hfuel
          have hrest := ih (fun m hm => h m (List.mem_cons_of_mem _ hm)) (List.cons_ne_nil _ _)
            (n := fuel) (by omega)
          rw [htext, List.append_assoc, List.cons_append, hmember fuel _ (by omega) (endsNumber_cons (by decide) _)]
          simp only [expect_self (c := ',') (by decide), Option.elim_some, hrest]
          rfl

theorem readsBack_obj {ms : List (String × Json)} (h : ∀ m ∈ ms, ReadsBack m.2) : ReadsBack (.obj ms) := by
  intro fuel rest hfuel _
  obtain ⟨fuel, rfl⟩ := succ_of_length hfuel
  have hwritten : ∀ m ∈ writtenMembers ms, ReadsBack m.2 := fun m hm =>
    h m (mem_dedupLast ((List.mem_insertionSort nameLe).mp hm))
  rw [ordered_obj]
  rw [marshalTree_obj] at hfuel ⊢
  rw [List.length_cons] at hfuel
  rw [List.cons_append]
  cases hm : writtenMembers ms with
  | nil =>
      simp only [readValue, expect_ne (c := '"') (d := '\x7b') (by decide) (by decide),
        expect_ne (c := '[') (d := '\x7b') (by decide) (by decide), expect_self (c := '\x7b') (by decide),
        joinMembers, List.singleton_append, expect_self (c := '\x7d') (by decide)]
      rfl
  | cons m l =>
      have hclose : expect '\x7d' (joinMembers (m :: l) ++ rest) = none := by
        obtain ⟨cs, hcs⟩ : ∃ cs, joinMembers (m :: l) = '"' :: cs := by
          cases l <;> exact ⟨_, rfl⟩
        rw [hcs]
        exact expect_ne (by decide) (by decide) _
      rw [hm] at hwritten hfuel
      simp only [readValue, expect_ne (c := '"') (d := '\x7b') (by decide) (by decide),
        expect_ne (c := '[') (d := '\x7b') (by decide) (by decide), expect_self (c := '\x7b') (by decide),
        hclose, readMembers_join hwritten (List.cons_ne_nil m l) rest (n := fuel) (by omega)]
      rfl

mutual

theorem readsBack : ∀ v : Json, ReadsBack v
  | .null => readsBack_null
  | .bool b => readsBack_bool b
  | .num n => readsBack_num n
  | .str s => readsBack_str s
  | .arr xs => readsBack_arr (readsBack_list xs)
  | .obj ms => readsBack_obj (readsBack_members ms)

theorem readsBack_list : ∀ xs : List Json, ∀ x ∈ xs, ReadsBack x
  | [], _, hx => nomatch hx
  | y :: ys, x, hx => by
      obtain heq | hx := List.mem_cons.mp hx
      · rw [heq]
        exact readsBack y
      · exact readsBack_list ys x hx

theorem readsBack_members : ∀ ms : List (String × Json), ∀ m ∈ ms, ReadsBack m.2
  | [], _, hm => nomatch hm
  | (k, y) :: ms, m, hm => by
      obtain heq | hm := List.mem_cons.mp hm
      · rw [heq]
        exact readsBack y
      · exact readsBack_members ms m hm

end

/-- What `json.Marshal` writes is a document, and reads as the value. -/
theorem readDocument_marshal (v : Json) : readDocument (marshalTree v) = some (ordered v) := by
  have hread := readsBack v ((marshalTree v).length + 1) [] (Nat.le_succ _) (fun _ hc => nomatch hc)
  rw [List.append_nil] at hread
  simp only [readDocument, hread]
  rfl

end DurableEngine.Lib
