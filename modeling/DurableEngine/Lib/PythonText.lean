/-
  DurableEngine.Lib.PythonText

  Python strings in JSON texts.

  A Python string is a sequence of code points, surrogates included.
  `json.dumps` writes it in ASCII, a code point beyond the basic plane as two
  escapes.  A decoder of UTF-8 text reads the escapes of a surrogate pair as
  one character and any other surrogate as the replacement character.
-/

import DurableEngine.Lib.RoundTrip

namespace DurableEngine.Lib

/-- A code point of a Python string. -/
abbrev CodePoint := Fin 0x110000

abbrev PyStr := List CodePoint

instance CodePoint.neZero : NeZero 0x110000 := ⟨by decide⟩

instance PyStr.lawfulBEq : LawfulBEq PyStr := inferInstance

namespace CodePoint

def isSurrogate (p : CodePoint) : Bool := decide (0xd800 ≤ p.val ∧ p.val < 0xe000)

def isHigh (p : CodePoint) : Bool := decide (0xd800 ≤ p.val ∧ p.val < 0xdc00)

def isLow (p : CodePoint) : Bool := decide (0xdc00 ≤ p.val ∧ p.val < 0xe000)

/-- `ESCAPE_ASCII`: a code point inside a string. -/
def escape (p : CodePoint) : List Char :=
  if p.val = 34 then ['\\', '"']
  else if p.val = 92 then ['\\', '\\']
  else if p.val = 8 then ['\\', 'b']
  else if p.val = 12 then ['\\', 'f']
  else if p.val = 10 then ['\\', 'n']
  else if p.val = 13 then ['\\', 'r']
  else if p.val = 9 then ['\\', 't']
  else if 32 ≤ p.val ∧ p.val < 127 then [Char.ofNat p.val]
  else if p.val < 0x10000 then '\\' :: 'u' :: hex4 p.val
  else '\\' :: 'u' :: (hex4 (0xd800 + (p.val - 0x10000) / 1024) ++
    '\\' :: 'u' :: hex4 (0xdc00 + (p.val - 0x10000) % 1024))

/-- The character a code point is read as by itself. -/
def char (p : CodePoint) : Char := if p.isSurrogate then '\uFFFD' else Char.ofNat p.val

/-- The character of a surrogate pair. -/
def pairChar (p q : CodePoint) : Char := Char.ofNat (0x10000 + (p.val - 0xd800) * 1024 + (q.val - 0xdc00))

def pairPoint (p q : CodePoint) : CodePoint :=
  Fin.ofNat 0x110000 (0x10000 + (p.val - 0xd800) * 1024 + (q.val - 0xdc00))

end CodePoint

namespace PyStr

/-- The characters a string is read as. -/
def chars : PyStr → List Char
  | [] => []
  | [p] => [p.char]
  | p :: q :: s => if p.isHigh && q.isLow then p.pairChar q :: chars s else p.char :: chars (q :: s)

def read (s : PyStr) : String := String.ofList s.chars

/-- `encode("utf-8")` accepts the string. -/
def encodable (s : PyStr) : Bool := s.all (fun p => !p.isSurrogate)

def ofString (s : String) : PyStr :=
  s.toList.map (fun c => ⟨c.toNat, by
    have hvalid : c.toNat.isValidChar := c.valid
    unfold Nat.isValidChar at hvalid
    omega⟩)

/-- The string that `json.loads` makes of the escapes of `s`: a surrogate pair becomes one code point. -/
def joined : PyStr → PyStr
  | [] => []
  | [p] => [p]
  | p :: q :: s => if p.isHigh && q.isLow then p.pairPoint q :: joined s else p :: joined (q :: s)

/-- A string between quotes. -/
def quoted (s : PyStr) : List Char := '"' :: s.flatMap CodePoint.escape ++ ['"']

end PyStr

-- ============================================================================
-- One code point
-- ============================================================================

theorem toNat_ofNat {n : Nat} (h : n.isValidChar) : (Char.ofNat n).toNat = n := by
  rw [Char.ofNat, dif_pos h]
  rfl

/-- The escapes of a surrogate pair are read as one character. -/
theorem readUnicode_pair {high low : Nat} (hhigh : 0xd800 ≤ high ∧ high < 0xdc00)
    (hlow : 0xdc00 ≤ low ∧ low < 0xe000) (rest : List Char) :
    readUnicode (hex4 high ++ '\\' :: 'u' :: (hex4 low ++ rest)) =
      some (Char.ofNat (0x10000 + (high - 0xd800) * 1024 + (low - 0xdc00)), rest) := by
  have hpair : lowSurrogate? high ('\\' :: 'u' :: (hex4 low ++ rest)) =
      some (Char.ofNat (0x10000 + (high - 0xd800) * 1024 + (low - 0xdc00)), rest) := by
    simp only [lowSurrogate?, readHex4_hex4 (show low < 65536 by omega)]
    rw [if_pos ⟨hhigh.2, hlow⟩]
  simp only [readUnicode, readHex4_hex4 (show high < 65536 by omega), Option.bind_eq_bind, Option.bind_some,
    hpair, Option.getD_some]
  rw [if_pos ⟨hhigh.1, by omega⟩]

namespace CodePoint

variable {p q : CodePoint}

theorem isHigh_iff : p.isHigh = true ↔ 0xd800 ≤ p.val ∧ p.val < 0xdc00 := decide_eq_true_iff

theorem isLow_iff : p.isLow = true ↔ 0xdc00 ≤ p.val ∧ p.val < 0xe000 := decide_eq_true_iff

theorem isSurrogate_iff : p.isSurrogate = true ↔ 0xd800 ≤ p.val ∧ p.val < 0xe000 := decide_eq_true_iff

theorem escape_of_surrogate (h : p.isSurrogate = true) : p.escape = '\\' :: 'u' :: hex4 p.val := by
  rw [isSurrogate_iff] at h
  unfold escape
  rw [if_neg (by omega), if_neg (by omega), if_neg (by omega), if_neg (by omega), if_neg (by omega),
    if_neg (by omega), if_neg (by omega), if_neg (by omega), if_pos (by omega)]

theorem escape_head (p : CodePoint) (rest : List Char) : (p.escape ++ rest).head? ≠ some '"' := by
  unfold escape
  by_cases hplain : 32 ≤ p.val ∧ p.val < 127
  · by_cases hquote : p.val = 34
    · rw [if_pos hquote]
      simp
    · have hne : Char.ofNat p.val ≠ '"' := by
        intro h
        have hval := congrArg Char.toNat h
        rw [toNat_ofNat (.inl (by omega))] at hval
        exact hquote hval
      repeat' split
      all_goals simp [hne]
  · rw [if_neg hplain]
    repeat' split
    all_goals simp

/-- A code point that is no surrogate is read as its character. -/
theorem readChar_escape (h : p.isSurrogate = false) (rest : List Char) :
    readChar (p.escape ++ rest) = some (Char.ofNat p.val, rest) := by
  have hrange : ¬ (0xd800 ≤ p.val ∧ p.val < 0xe000) := of_decide_eq_false h
  have hlt := p.isLt
  have hnat : (Char.ofNat p.val).toNat = p.val := toNat_ofNat (by unfold Nat.isValidChar; omega)
  have hnamed : ∀ {n : Nat} {rest' : List Char}, p.val = n →
      readChar rest' = some (Char.ofNat n, rest) → readChar rest' = some (Char.ofNat p.val, rest) :=
    fun hn hread => hn ▸ hread
  unfold escape
  by_cases h34 : p.val = 34
  · rw [if_pos h34]
    exact hnamed h34 rfl
  by_cases h92 : p.val = 92
  · rw [if_neg h34, if_pos h92]
    exact hnamed h92 rfl
  by_cases h8 : p.val = 8
  · rw [if_neg h34, if_neg h92, if_pos h8]
    exact hnamed h8 rfl
  by_cases h12 : p.val = 12
  · rw [if_neg h34, if_neg h92, if_neg h8, if_pos h12]
    exact hnamed h12 rfl
  by_cases h10 : p.val = 10
  · rw [if_neg h34, if_neg h92, if_neg h8, if_neg h12, if_pos h10]
    exact hnamed h10 rfl
  by_cases h13 : p.val = 13
  · rw [if_neg h34, if_neg h92, if_neg h8, if_neg h12, if_neg h10, if_pos h13]
    exact hnamed h13 rfl
  by_cases h9 : p.val = 9
  · rw [if_neg h34, if_neg h92, if_neg h8, if_neg h12, if_neg h10, if_neg h13, if_pos h9]
    exact hnamed h9 rfl
  rw [if_neg h34, if_neg h92, if_neg h8, if_neg h12, if_neg h10, if_neg h13, if_neg h9]
  by_cases hplain : 32 ≤ p.val ∧ p.val < 127
  · rw [if_pos hplain]
    refine readChar_plain (fun he => h92 ?_) (hnat.symm ▸ hplain.1) rest
    have hval := congrArg Char.toNat he
    rw [hnat] at hval
    exact hval
  rw [if_neg hplain]
  by_cases hbasic : p.val < 0x10000
  · rw [if_pos hbasic]
    have hread := readChar_unicode (c := Char.ofNat p.val) (hnat.symm ▸ hbasic) rest
    rw [hnat] at hread
    exact hread
  -- two escapes that the reader puts together again
  rw [if_neg hbasic]
  have hsum : 0x10000 + (0xd800 + (p.val - 0x10000) / 1024 - 0xd800) * 1024 +
      (0xdc00 + (p.val - 0x10000) % 1024 - 0xdc00) = p.val := by omega
  have hhigh : 0xd800 ≤ 0xd800 + (p.val - 0x10000) / 1024 ∧ 0xd800 + (p.val - 0x10000) / 1024 < 0xdc00 :=
    ⟨by omega, by omega⟩
  have hlow : 0xdc00 ≤ 0xdc00 + (p.val - 0x10000) % 1024 ∧ 0xdc00 + (p.val - 0x10000) % 1024 < 0xe000 :=
    ⟨by omega, by omega⟩
  have hread := readUnicode_pair hhigh hlow rest
  rw [hsum] at hread
  simp only [List.cons_append, List.append_assoc]
  exact hread

/-- A surrogate that no second half follows is read as the replacement character. -/
theorem readChar_surrogate (h : p.isSurrogate = true) {rest : List Char}
    (hrest : lowSurrogate? p.val rest = none) : readChar (p.escape ++ rest) = some ('\uFFFD', rest) := by
  have hrange := isSurrogate_iff.mp h
  have hread : readUnicode (hex4 p.val ++ rest) = some ('\uFFFD', rest) := by
    simp only [readUnicode, readHex4_hex4 (show p.val < 65536 by omega), Option.bind_eq_bind, Option.bind_some,
      if_pos hrange, hrest]
    rfl
  rw [escape_of_surrogate h]
  exact hread

/-- A pair is read as one character. -/
theorem readChar_pair (hp : p.isHigh = true) (hq : q.isLow = true) (rest : List Char) :
    readChar (p.escape ++ (q.escape ++ rest)) = some (p.pairChar q, rest) := by
  rw [isHigh_iff] at hp
  rw [isLow_iff] at hq
  have hread : readUnicode (hex4 p.val ++ '\\' :: 'u' :: (hex4 q.val ++ rest)) = some (p.pairChar q, rest) :=
    readUnicode_pair hp hq rest
  rw [escape_of_surrogate (isSurrogate_iff.mpr ⟨by omega, by omega⟩),
    escape_of_surrogate (isSurrogate_iff.mpr ⟨by omega, by omega⟩)]
  exact hread

theorem lowSurrogate?_of_not_high {n : Nat} (h : ¬ n < 0xdc00) (rest : List Char) :
    lowSurrogate? n rest = none := by
  unfold lowSurrogate?
  split
  · split
    · rw [if_neg (fun hc => h hc.1)]
    · rfl
  · rfl

/-- Only the escape of a second half completes a pair. -/
theorem lowSurrogate?_escape (n : Nat) (hq : q.isLow = false) (rest : List Char) :
    lowSurrogate? n (q.escape ++ rest) = none := by
  have hrange : ¬ (0xdc00 ≤ q.val ∧ q.val < 0xe000) := of_decide_eq_false hq
  have hlt := q.isLt
  have hescape : ∀ (m : Nat) (tail : List Char), m < 65536 → ¬ (0xdc00 ≤ m ∧ m < 0xe000) →
      lowSurrogate? n ('\\' :: 'u' :: (hex4 m ++ tail)) = none := by
    intro m tail hm hnot
    simp only [lowSurrogate?, readHex4_hex4 hm]
    rw [if_neg (fun hc => hnot hc.2)]
  unfold escape
  split
  · rfl
  split
  · rfl
  split
  · rfl
  split
  · rfl
  split
  · rfl
  split
  · rfl
  split
  · rfl
  split
  · rename_i hslash _ _ _ _ _ hplain
    have hne : Char.ofNat q.val ≠ '\\' := by
      intro he
      have hval := congrArg Char.toNat he
      rw [toNat_ofNat (.inl (by omega))] at hval
      exact hslash hval
    unfold lowSurrogate?
    split
    · rename_i heq
      exact absurd (List.cons.inj heq).1 hne
    · rfl
  split
  · rename_i hbasic
    exact hescape q.val rest hbasic hrange
  · have htext := hescape (0xd800 + (q.val - 0x10000) / 1024)
      ('\\' :: 'u' :: (hex4 (0xdc00 + (q.val - 0x10000) % 1024) ++ rest)) (by omega) (by omega)
    simpa only [List.cons_append, List.append_assoc] using htext

end CodePoint

-- ============================================================================
-- Strings
-- ============================================================================

namespace PyStr

/-- A written string is read as its characters. -/
theorem readChars_escaped (s : PyStr) {fuel : Nat} (hfuel : s.length < fuel) (rest : List Char) :
    readChars fuel (s.flatMap CodePoint.escape ++ '"' :: rest) = some (s.chars, rest) := by
  -- one character, and the string after it
  have hstep : ∀ {n : Nat} {c : Char} {cs tail cs' : List Char}, cs.head? ≠ some '"' →
      readChar cs = some (c, tail) → readChars n tail = some (cs', rest) →
      readChars (n + 1) cs = some (c :: cs', rest) := by
    intro n c cs tail cs' hhead hchar hchars
    rw [readChars, if_neg hhead, hchar]
    simp only [Option.bind_eq_bind, Option.bind_some, hchars]
  fun_induction chars s generalizing fuel with
  | case1 =>
      obtain ⟨n, rfl⟩ := Nat.exists_eq_add_of_lt hfuel
      rfl
  | case2 p =>
      obtain ⟨n, rfl⟩ : ∃ n, fuel = n + 1 + 1 := ⟨fuel - 2, by simp only [List.length_singleton] at hfuel; omega⟩
      rw [List.flatMap_cons, List.flatMap_nil, List.append_nil]
      refine @hstep _ _ _ ('"' :: rest) _ (p.escape_head _) ?_ rfl
      unfold CodePoint.char
      split
      · rename_i hsurrogate
        exact CodePoint.readChar_surrogate hsurrogate rfl
      · rename_i hsurrogate
        exact CodePoint.readChar_escape (Bool.eq_false_iff.mpr hsurrogate) _
  | case3 p q s hpair ih =>
      simp only [List.length_cons] at hfuel
      obtain ⟨n, rfl⟩ : ∃ n, fuel = n + 1 := ⟨fuel - 1, by omega⟩
      rw [Bool.and_eq_true] at hpair
      rw [List.flatMap_cons, List.flatMap_cons, List.append_assoc, List.append_assoc]
      exact hstep (p.escape_head _) (CodePoint.readChar_pair hpair.1 hpair.2 _) (ih (by omega))
  | case4 p q s hpair ih =>
      simp only [List.length_cons] at hfuel
      obtain ⟨n, rfl⟩ : ∃ n, fuel = n + 1 := ⟨fuel - 1, by omega⟩
      rw [List.flatMap_cons, List.append_assoc]
      refine hstep (p.escape_head _) ?_ (ih (by simp only [List.length_cons]; omega))
      unfold CodePoint.char
      split
      · rename_i hsurrogate
        refine CodePoint.readChar_surrogate hsurrogate ?_
        by_cases hhigh : p.val < 0xdc00
        · have hlow : q.isLow = false := by
            refine Bool.eq_false_iff.mpr (fun hq => hpair ?_)
            rw [Bool.and_eq_true]
            exact ⟨CodePoint.isHigh_iff.mpr ⟨(CodePoint.isSurrogate_iff.mp hsurrogate).1, hhigh⟩, hq⟩
          rw [List.flatMap_cons, List.append_assoc]
          exact CodePoint.lowSurrogate?_escape _ hlow _
        · exact CodePoint.lowSurrogate?_of_not_high hhigh _
      · rename_i hsurrogate
        exact CodePoint.readChar_escape (Bool.eq_false_iff.mpr hsurrogate) _

theorem length_le_escaped (s : PyStr) : s.length ≤ (s.flatMap CodePoint.escape).length := by
  refine length_le_flatMap (fun p _ hnil => ?_)
  unfold CodePoint.escape at hnil
  repeat' split at hnil
  all_goals cases hnil

theorem readString_escaped (s : PyStr) (rest : List Char) :
    readString (s.flatMap CodePoint.escape ++ '"' :: rest) = some (s.read, rest) := by
  have hlength := s.length_le_escaped
  rw [readString, readChars_escaped s (by rw [List.length_append, List.length_cons]; omega), Option.map_some]
  rfl

theorem quoted_append (s : PyStr) (rest : List Char) :
    s.quoted ++ rest = '"' :: (s.flatMap CodePoint.escape ++ '"' :: rest) := by
  simp only [quoted, List.cons_append, List.append_assoc, List.nil_append]

/-- Text without surrogates reads back as it was. -/
theorem chars_of_encodable {s : PyStr} (h : s.encodable = true) :
    s.chars = s.map (fun p => Char.ofNat p.val) := by
  fun_induction chars s with
  | case1 => rfl
  | case2 p =>
      have hp : p.isSurrogate = false := by simpa [encodable] using h
      rw [List.map_singleton, CodePoint.char, hp]
      rfl
  | case3 p q s hpair ih =>
      rw [Bool.and_eq_true, CodePoint.isHigh_iff] at hpair
      have hp : p.isSurrogate = true := CodePoint.isSurrogate_iff.mpr ⟨hpair.1.1, by omega⟩
      simp [encodable, hp] at h
  | case4 p q s hpair ih =>
      rw [encodable, List.all_cons, Bool.and_eq_true] at h
      have hp : p.isSurrogate = false := by simpa using h.1
      rw [List.map_cons, ih h.2, CodePoint.char, hp]
      rfl

theorem encodable_ofString (s : String) : (ofString s).encodable = true := by
  refine List.all_eq_true.mpr (fun p hp => ?_)
  obtain ⟨c, -, rfl⟩ := List.mem_map.mp hp
  have hvalid : c.toNat.isValidChar := c.valid
  unfold Nat.isValidChar at hvalid
  rw [Bool.not_eq_true', ← Bool.not_eq_true, CodePoint.isSurrogate_iff]
  dsimp only
  omega

@[simp] theorem read_ofString (s : String) : (ofString s).read = s := by
  have hchars : (ofString s).map (fun p : CodePoint => Char.ofNat p.val) = s.toList := by
    rw [ofString, List.map_map]
    exact (List.map_congr_left (fun c _ => Char.ofNat_toNat c)).trans (List.map_id _)
  rw [read, chars_of_encodable (encodable_ofString s), hchars, String.ofList_toList]

end PyStr

end DurableEngine.Lib
