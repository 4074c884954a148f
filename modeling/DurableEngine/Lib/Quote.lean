/-
  DurableEngine.Lib.Quote

  Texts quoted by `strconv.Quote` (`%q`) and read as JSON.

  The two notations agree on printable text and on a few escapes.  A Go
  escape that JSON lacks (`\a`, `\v`, `\x` and `\U`) makes the string, and any
  object it stands in, unreadable (`readDocument_objectText`).
-/

import DurableEngine.Lib.RoundTrip

namespace DurableEngine.Lib

-- ============================================================================
-- Quoting
-- ============================================================================

/-- `strconv.IsPrint`: the printable ASCII characters, and what `isPrint` says of the others. -/
def printable (isPrint : Char → Bool) (c : Char) : Bool :=
  if c.toNat < 128 then decide (32 ≤ c.toNat ∧ c.toNat ≠ 127) else isPrint c

/-- A character inside a Go string literal. -/
def quoteChar (isPrint : Char → Bool) (c : Char) : List Char :=
  let n := c.toNat
  if c = '"' ∨ c = '\\' then ['\\', c]
  else if printable isPrint c then [c]
  else if n = 7 then ['\\', 'a']
  else if n = 8 then ['\\', 'b']
  else if n = 12 then ['\\', 'f']
  else if n = 10 then ['\\', 'n']
  else if n = 13 then ['\\', 'r']
  else if n = 9 then ['\\', 't']
  else if n = 11 then ['\\', 'v']
  else if n < 32 ∨ n = 127 then '\\' :: 'x' :: (hex4 n).drop 2
  else if n < 0x10000 then '\\' :: 'u' :: hex4 n
  else '\\' :: 'U' :: (hex4 (n / 0x10000) ++ hex4 (n % 0x10000))

/-- `strconv.Quote`. -/
def quoteText (isPrint : Char → Bool) (s : String) : List Char :=
  '"' :: s.toList.flatMap (quoteChar isPrint) ++ ['"']

/-- JSON writes the character as Go does, or knows the escape. -/
def sharedSpelling (isPrint : Char → Bool) (c : Char) : Bool :=
  let n := c.toNat
  (n = 8 || n = 9 || n = 10 || n = 12 || n = 13) ||
    (32 ≤ n && n ≠ 127 && (n < 0x10000 || isPrint c))

-- ============================================================================
-- Characters
-- ============================================================================

section Characters

variable {isPrint : Char → Bool} {c : Char}

theorem quoteChar_head (rest : List Char) : (quoteChar isPrint c ++ rest).head? ≠ some '"' := by
  unfold quoteChar
  by_cases hquote : c = '"' ∨ c = '\\'
  · rw [if_pos hquote]
    simp
  · rw [if_neg hquote]
    have hne : c ≠ '"' := fun he => hquote (.inl he)
    repeat' split
    all_goals simp [hne]

/-- A shared spelling reads as the character. -/
theorem readChar_quoteChar (h : sharedSpelling isPrint c = true) (rest : List Char) :
    readChar (quoteChar isPrint c ++ rest) = some (c, rest) := by
  have hnamed : ∀ {n : Nat} {d : Char}, c.toNat = n → d.toNat = n → c = d := fun hc hd =>
    Char.toNat_inj.mp (hc.trans hd.symm)
  simp only [sharedSpelling, Bool.or_eq_true, Bool.and_eq_true, decide_eq_true_eq] at h
  unfold quoteChar
  by_cases hquote : c = '"' ∨ c = '\\'
  · rw [if_pos hquote]
    rcases hquote with rfl | rfl <;> rfl
  rw [if_neg hquote]
  by_cases hprint : printable isPrint c = true
  · rw [if_pos hprint]
    refine readChar_plain (fun he => hquote (.inr he)) ?_ rest
    simp only [printable] at hprint
    split at hprint
    · exact (of_decide_eq_true hprint).1
    · omega
  rw [if_neg hprint]
  by_cases h8 : c.toNat = 8
  · obtain rfl : c = '\x08' := hnamed h8 rfl
    rfl
  by_cases h12 : c.toNat = 12
  · obtain rfl : c = '\x0c' := hnamed h12 rfl
    rfl
  by_cases h10 : c.toNat = 10
  · obtain rfl : c = '\n' := hnamed h10 rfl
    rfl
  by_cases h13 : c.toNat = 13
  · obtain rfl : c = '\r' := hnamed h13 rfl
    rfl
  by_cases h9 : c.toNat = 9
  · obtain rfl : c = '\t' := hnamed h9 rfl
    rfl
  -- what is left is not printable, and lies below the supplementary planes
  obtain hcontrol | ⟨⟨hlow, hdel⟩, hplane⟩ := h
  · omega
  have hbasic : c.toNat < 0x10000 := by
    refine hplane.resolve_right (fun hp => hprint ?_)
    unfold printable
    split
    · exact decide_eq_true ⟨hlow, hdel⟩
    · exact hp
  simp only [show c.toNat ≠ 7 by omega, show c.toNat ≠ 11 by omega, h8, h9, h10, h12, h13, if_false,
    show ¬ (c.toNat < 32 ∨ c.toNat = 127) by omega, if_pos hbasic]
  exact readChar_unicode hbasic rest

/-- Any other spelling is an escape that JSON lacks. -/
theorem readChar_quoteChar_none (h : sharedSpelling isPrint c = false) (rest : List Char) :
    readChar (quoteChar isPrint c ++ rest) = none := by
  have hnot : ¬ (sharedSpelling isPrint c = true) := by rw [h]; decide
  simp only [sharedSpelling, Bool.or_eq_true, Bool.and_eq_true, decide_eq_true_eq, not_or, not_and] at hnot
  obtain ⟨hcontrol, hplane⟩ := hnot
  have hquote : ¬ (c = '"' ∨ c = '\\') := by
    rintro (rfl | rfl)
    · exact (hplane ⟨by decide, by decide⟩).1 (by decide)
    · exact (hplane ⟨by decide, by decide⟩).1 (by decide)
  have hprint : ¬ (printable isPrint c = true) := by
    unfold printable
    split
    · intro hp
      exact (hplane (of_decide_eq_true hp)).1 (by omega)
    · rename_i hlarge
      intro hp
      exact (hplane ⟨by omega, by omega⟩).2 hp
  unfold quoteChar
  simp only [if_neg hquote, if_neg hprint, show c.toNat ≠ 8 by omega, show c.toNat ≠ 12 by omega,
    show c.toNat ≠ 10 by omega, show c.toNat ≠ 13 by omega, show c.toNat ≠ 9 by omega, if_false]
  by_cases h7 : c.toNat = 7
  · rw [if_pos h7]
    rfl
  by_cases h11 : c.toNat = 11
  · rw [if_neg h7, if_pos h11]
    rfl
  rw [if_neg h7, if_neg h11]
  by_cases hx : c.toNat < 32 ∨ c.toNat = 127
  · rw [if_pos hx]
    rfl
  · have hlarge : ¬ c.toNat < 0x10000 := fun hlt => (hplane ⟨by omega, by omega⟩).1 hlt
    rw [if_neg hx, if_neg hlarge]
    rfl

end Characters

-- ============================================================================
-- Strings
-- ============================================================================

/-- A string with a character that does not read is not read. -/
theorem readChars_blocked {e : Char → List Char} {ok : Char → Bool} {s : List Char}
    (hread : ∀ c, ok c = true → ∀ rest, readChar (e c ++ rest) = some (c, rest))
    (hblocked : ∀ c, ok c = false → ∀ rest, readChar (e c ++ rest) = none)
    (hquote : ∀ c rest, (e c ++ rest).head? ≠ some '"') (h : s.all ok = false) (fuel : Nat)
    (rest : List Char) : readChars fuel (s.flatMap e ++ '"' :: rest) = none := by
  induction s generalizing fuel with
  | nil => cases h
  | cons c s ih =>
      cases fuel with
      | zero => rfl
      | succ fuel =>
          rw [List.flatMap_cons, List.append_assoc, readChars, if_neg (hquote c _)]
          cases hc : ok c with
          | true =>
              rw [List.all_cons, hc, Bool.true_and] at h
              rw [hread c hc, Option.bind_eq_bind, Option.bind_some]
              simp only [ih h]
              rfl
          | false =>
              rw [hblocked c hc]
              rfl

/-- A quoted string reads back when all its spellings are shared. -/
theorem readString_quoted (isPrint : Char → Bool) (s : String) (rest : List Char) :
    readString (s.toList.flatMap (quoteChar isPrint) ++ '"' :: rest) =
      if s.toList.all (sharedSpelling isPrint) then some (s, rest) else none := by
  cases h : s.toList.all (sharedSpelling isPrint) with
  | true =>
      exact readString_encoded (fun c hc => readChar_quoteChar (List.all_eq_true.mp h c hc))
        (fun c _ => quoteChar_head) rest
  | false =>
      rw [readString, readChars_blocked (fun c => readChar_quoteChar) (fun c => readChar_quoteChar_none)
        (fun c => quoteChar_head) h]
      rfl

-- ============================================================================
-- Objects
-- ============================================================================

/-- The name can be written between quotes as it is. -/
def PlainName (k : String) : Prop := ∀ c ∈ k.toList, c ≠ '"' ∧ c ≠ '\\' ∧ 32 ≤ c.toNat

instance (k : String) : Decidable (PlainName k) :=
  List.decidableBAll (fun c => c ≠ '"' ∧ c ≠ '\\' ∧ 32 ≤ c.toNat) k.toList

theorem readString_plain {k : String} (h : PlainName k) (rest : List Char) :
    readString (k.toList ++ '"' :: rest) = some (k, rest) := by
  have hread := readString_encoded (e := fun c => [c]) (s := k)
    (fun c hc => readChar_plain (h c hc).2.1 (h c hc).2.2)
    (fun c hc rest hhead => (h c hc).1 (Option.some.inj hhead)) rest
  rwa [List.flatMap_singleton'] at hread

/-- The members of an object from the texts of their values, up to the closing brace. -/
def membersText : List (String × List Char) → List Char
  | [] => ['\x7d']
  | [m] => '"' :: m.1.toList ++ '"' :: ':' :: m.2 ++ ['\x7d']
  | m :: ms => '"' :: m.1.toList ++ '"' :: ':' :: m.2 ++ ',' :: membersText ms

def objectText (ms : List (String × List Char)) : List Char := '\x7b' :: membersText ms

/-- Wherever a value may end, the text reads as `o`. -/
def ReadsAs (text : List Char) (o : Option Json) : Prop :=
  ∀ fuel rest, EndsNumber rest → readValue (fuel + 1) (text ++ rest) = o.map (fun v => (v, rest))

theorem readsAs_quoteText (isPrint : Char → Bool) (s : String) : ReadsAs (quoteText isPrint s)
    (if s.toList.all (sharedSpelling isPrint) then some (.str s) else none) := by
  intro fuel rest _
  have htext : quoteText isPrint s ++ rest =
      '"' :: (s.toList.flatMap (quoteChar isPrint) ++ '"' :: rest) := by
    simp only [quoteText, List.cons_append, List.append_assoc, List.nil_append]
  rw [htext, readValue_string (expect_self (by decide) _), readString_quoted]
  split <;> rfl

theorem readsAs_literal (n : JsonNumber) : ReadsAs n.literal (some (.num n)) := by
  intro fuel rest hrest
  obtain ⟨c, cs, hliteral, hc⟩ := literal_head n
  obtain ⟨_, _, hhead, hopens⟩ := marshalTree_head (.num n)
  rw [show marshalTree (.num n) = n.literal from rfl, hliteral] at hhead
  cases hhead
  have hnumber := readNumber_literal n hrest
  rw [hliteral, List.cons_append] at hnumber ⊢
  rw [readValue_scalar fuel hopens.space ⟨hc _ (by decide), hc _ (by decide), hc _ (by decide)⟩, readScalar,
    dropWord_of_head (d := 'n') rfl (hc _ (by decide)), dropWord_of_head (d := 't') rfl (hc _ (by decide)),
    dropWord_of_head (d := 'f') rfl (hc _ (by decide)), hnumber]
  rfl

section Members

variable {σ : Type} {text : σ → List Char} {value : σ → Option Json}

/-- The value of a member under its name. -/
def memberValue (value : σ → Option Json) (f : String × σ) : Option (String × Json) :=
  (value f.2).map (Prod.mk f.1)

theorem readMembers_texts (hvalue : ∀ x, ReadsAs (text x) (value x)) {fields : List (String × σ)}
    (hnames : ∀ f ∈ fields, PlainName f.1) (hne : fields ≠ []) (rest : List Char) {n : Nat}
    (hfuel : fields.length < n) :
    readMembers n (membersText (fields.map (Prod.map id text)) ++ rest) =
      (fields.mapM (memberValue value)).map (fun ms => (ms, rest)) := by
  induction fields generalizing n with
  | nil => exact absurd rfl hne
  | cons f fields ih =>
      obtain ⟨k, x⟩ := f
      -- the member up to its value, which is followed by `tail`
      have hmember : ∀ (fuel : Nat) (tail : List Char), EndsNumber tail →
          readMembers (fuel + 2) ('"' :: k.toList ++ '"' :: ':' :: text x ++ tail) =
            (value x).bind (fun v =>
              (expect ',' tail).elim ((expect '\x7d' tail).map (fun rest => ([(k, v)], rest)))
                (fun rest => (readMembers (fuel + 1) rest).map (fun r => ((k, v) :: r.1, r.2)))) := by
        intro fuel tail hends
        have htext : '"' :: k.toList ++ '"' :: ':' :: text x ++ tail =
            '"' :: (k.toList ++ '"' :: ':' :: (text x ++ tail)) := by
          simp only [List.cons_append, List.append_assoc]
        rw [htext, readMembers, expect_self (by decide)]
        simp only [Option.bind_eq_bind, Option.bind_some,
          readString_plain (hnames (k, x) List.mem_cons_self), expect_self (c := ':') (by decide),
          hvalue x fuel tail hends]
        cases value x with
        | none => rfl
        | some v =>
            simp only [Option.map_some, Option.bind_some]
            cases expect ',' tail <;> rfl
      obtain ⟨fuel, rfl⟩ : ∃ m, n = m + 2 := ⟨n - 2, by rw [List.length_cons] at hfuel; omega⟩
      cases fields with
      | nil =>
          have htext : membersText ([(k, x)].map (Prod.map id text)) ++ rest =
              '"' :: k.toList ++ '"' :: ':' :: text x ++ '\x7d' :: rest := by
            simp only [List.map_cons, List.map_nil, Prod.map_apply, id_eq, membersText, List.append_assoc,
              List.cons_append, List.nil_append]
          rw [htext, hmember fuel _ (endsNumber_cons (by decide) rest)]
          simp only [expect_ne (c := ',') (d := '\x7d') (by decide) (by decide),
            expect_self (c := '\x7d') (by decide), List.mapM_cons, List.mapM_nil, memberValue]
          cases value x <;> rfl
      | cons g fields =>
          have htext : membersText (((k, x) :: g :: fields).map (Prod.map id text)) ++ rest =
              '"' :: k.toList ++ '"' :: ':' :: text x ++
                ',' :: (membersText ((g :: fields).map (Prod.map id text)) ++ rest) := by
            simp only [List.map_cons, Prod.map_apply, id_eq, membersText, List.append_assoc,
              List.cons_append]
          have hrest := ih (fun f hf => hnames f (List.mem_cons_of_mem _ hf)) (List.cons_ne_nil _ _)
            (n := fuel + 1) (by rw [List.length_cons] at hfuel; omega)
          rw [htext, hmember fuel _ (endsNumber_cons (by decide) _), List.mapM_cons]
          simp only [expect_self (c := ',') (by decide), Option.elim_some, hrest, memberValue]
          cases value x with
          | none => rfl
          | some v => cases (g :: fields).mapM (memberValue value) <;> rfl

theorem membersText_head (m : String × List Char) (ms : List (String × List Char)) :
    ∃ cs, membersText (m :: ms) = '"' :: cs := by
  cases ms <;> exact ⟨_, rfl⟩

theorem length_le_membersText (ms : List (String × List Char)) : ms.length ≤ (membersText ms).length := by
  induction ms with
  | nil => exact Nat.zero_le _
  | cons m ms ih =>
      cases ms with
      | nil =>
          obtain ⟨cs, hcs⟩ := membersText_head m []
          rw [hcs, List.length_singleton, List.length_cons]
          omega
      | cons g ms =>
          rw [show membersText (m :: g :: ms) =
            '"' :: m.1.toList ++ '"' :: ':' :: m.2 ++ ',' :: membersText (g :: ms) from rfl,
            List.length_append, List.length_cons (a := ','), List.length_cons (a := m)]
          omega

/-- An object put together from texts is a document when all of them are. -/
theorem readDocument_objectText (hvalue : ∀ x, ReadsAs (text x) (value x)) {fields : List (String × σ)}
    (hnames : ∀ f ∈ fields, PlainName f.1) (hne : fields ≠ []) :
    readDocument (objectText (fields.map (Prod.map id text))) =
      (fields.mapM (memberValue value)).map JsonTree.obj := by
  obtain ⟨f, l, rfl⟩ := List.exists_cons_of_ne_nil hne
  have hclose : expect '\x7d' (membersText ((f :: l).map (Prod.map id text))) = none := by
    obtain ⟨cs, hcs⟩ := membersText_head (Prod.map id text f) (l.map (Prod.map id text))
    rw [List.map_cons, hcs]
    exact expect_ne (by decide) (by decide) cs
  have hlength := length_le_membersText ((f :: l).map (Prod.map id text))
  rw [List.length_map] at hlength
  have hmembers := readMembers_texts hvalue hnames hne [] (Nat.lt_succ_of_le hlength)
  rw [List.append_nil] at hmembers
  simp only [readDocument, objectText, List.length_cons, readValue,
    expect_ne (c := '"') (d := '\x7b') (by decide) (by decide),
    expect_ne (c := '[') (d := '\x7b') (by decide) (by decide), expect_self (c := '\x7b') (by decide), hclose,
    hmembers, Option.map_map]
  cases (f :: l).mapM (memberValue value) <;> rfl

end Members

end DurableEngine.Lib
