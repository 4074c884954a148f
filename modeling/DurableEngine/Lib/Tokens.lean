/-
  DurableEngine.Lib.Tokens

  A decoder that hands out a JSON text token by token, as the `Token` and
  `More` methods of `json.Decoder` do.

  The decoder keeps what may come next and a stack of what the open arrays and
  objects are part of.  Separators are consumed on the way to the next token;
  a string, a number or a word is one token, and so is the name of a member.
  `Yields` lists what `token` can hand out (`token_eq_ok_iff`).
-/

import DurableEngine.Lib.Reading

namespace DurableEngine.Lib

-- ============================================================================
-- The decoder
-- ============================================================================

/-- What may come next. -/
inductive TokenState where
  | topValue | arrayStart | arrayValue | arrayComma
  | objectStart | objectKey | objectColon | objectValue | objectComma
deriving DecidableEq, Repr

/-- `tokenValueAllowed`. -/
def TokenState.valueAllowed : TokenState → Bool
  | .topValue | .arrayStart | .arrayValue | .objectValue => true
  | _ => false

/-- `tokenValueEnd`. -/
def TokenState.valueEnd : TokenState → TokenState
  | .arrayStart | .arrayValue => .arrayComma
  | .objectValue => .objectComma
  | s => s

/-- A delimiter, or a value that is neither an array nor an object. -/
inductive Token where
  | delim (c : Char)
  | value (v : Json)
deriving Repr

/-- The characters that are left, what may come next, and where the open arrays and objects stand. -/
structure Decoder where
  rest : List Char
  state : TokenState
  stack : List TokenState
deriving Repr

inductive TokenError where
  | eof
  | malformed
deriving DecidableEq, Repr

namespace Decoder

/-- A decoder of the whole text. -/
def new (cs : List Char) : Decoder := ⟨cs, .topValue, []⟩

/-- The end of an array or an object; `rest` follows it. -/
def close (d : Decoder) (c : Char) (rest : List Char) : Except TokenError (Token × Decoder) :=
  match d.stack with
  | [] => .error .malformed
  | top :: stack => .ok (.delim c, ⟨rest, top.valueEnd, stack⟩)

/-- A value that is one token, at `cs`. -/
def scalar (d : Decoder) (cs : List Char) : Except TokenError (Token × Decoder) :=
  if d.state.valueAllowed then
    match readValue (cs.length + 1) cs with
    | some (v, rest) => .ok (.value v, ⟨rest, d.state.valueEnd, d.stack⟩)
    | none => .error .malformed
  else .error .malformed

/-- `Decoder.Token`. -/
def token (d : Decoder) : Except TokenError (Token × Decoder) :=
  match _h : skipSpace d.rest with
  | [] => .error .eof
  | c :: rest =>
      if c = '[' then
        if d.state.valueAllowed then .ok (.delim '[', ⟨rest, .arrayStart, d.state :: d.stack⟩)
        else .error .malformed
      else if c = ']' then
        if d.state = .arrayStart ∨ d.state = .arrayComma then d.close ']' rest else .error .malformed
      else if c = '\x7b' then
        if d.state.valueAllowed then .ok (.delim '\x7b', ⟨rest, .objectStart, d.state :: d.stack⟩)
        else .error .malformed
      else if c = '\x7d' then
        if d.state = .objectStart ∨ d.state = .objectComma then d.close '\x7d' rest
        else .error .malformed
      else if c = ':' then
        if d.state = .objectColon then token ⟨rest, .objectValue, d.stack⟩ else .error .malformed
      else if c = ',' then
        if d.state = .arrayComma then token ⟨rest, .arrayValue, d.stack⟩
        else if d.state = .objectComma then token ⟨rest, .objectKey, d.stack⟩
        else .error .malformed
      else if c = '"' ∧ (d.state = .objectStart ∨ d.state = .objectKey) then
        match readString rest with
        | some (k, rest) => .ok (.value (.str k), ⟨rest, .objectColon, d.stack⟩)
        | none => .error .malformed
      else d.scalar (c :: rest)
termination_by d.rest.length
decreasing_by
  all_goals
    have hlength := length_skipSpace_le d.rest
    rw [_h, List.length_cons] at hlength
    exact hlength

/-- `Decoder.More`. -/
def more (d : Decoder) : Bool :=
  match skipSpace d.rest with
  | [] => false
  | c :: _ => c ≠ ']' && c ≠ '\x7d'

end Decoder

-- ============================================================================
-- What a decoder hands out
-- ============================================================================

theorem expect_eq_some_iff {c : Char} {cs rest : List Char} :
    expect c cs = some rest ↔ skipSpace cs = c :: rest := by
  unfold expect
  split
  · rename_i heq
    rw [heq]
    exact ⟨fun h => (nomatch h), fun h => (nomatch h)⟩
  · rename_i d tail heq
    rw [heq, Option.ite_none_right_eq_some, Option.some.injEq, List.cons.injEq]

namespace Decoder

/-- What `token` can hand out, and the decoder after it. -/
inductive Yields : Decoder → Token → Decoder → Prop where
  | openArray {d : Decoder} {r : List Char} (allowed : d.state.valueAllowed = true)
      (h : expect '[' d.rest = some r) : Yields d (.delim '[') ⟨r, .arrayStart, d.state :: d.stack⟩
  | closeArray {d : Decoder} {r : List Char} {top : TokenState} {stack : List TokenState}
      (state : d.state = .arrayStart ∨ d.state = .arrayComma) (open_ : d.stack = top :: stack)
      (h : expect ']' d.rest = some r) : Yields d (.delim ']') ⟨r, top.valueEnd, stack⟩
  | openObject {d : Decoder} {r : List Char} (allowed : d.state.valueAllowed = true)
      (h : expect '\x7b' d.rest = some r) :
      Yields d (.delim '\x7b') ⟨r, .objectStart, d.state :: d.stack⟩
  | closeObject {d : Decoder} {r : List Char} {top : TokenState} {stack : List TokenState}
      (state : d.state = .objectStart ∨ d.state = .objectComma) (open_ : d.stack = top :: stack)
      (h : expect '\x7d' d.rest = some r) : Yields d (.delim '\x7d') ⟨r, top.valueEnd, stack⟩
  | colon {d d' : Decoder} {r : List Char} {t : Token} (state : d.state = .objectColon)
      (h : expect ':' d.rest = some r) (next : Yields ⟨r, .objectValue, d.stack⟩ t d') : Yields d t d'
  | arrayComma {d d' : Decoder} {r : List Char} {t : Token} (state : d.state = .arrayComma)
      (h : expect ',' d.rest = some r) (next : Yields ⟨r, .arrayValue, d.stack⟩ t d') : Yields d t d'
  | objectComma {d d' : Decoder} {r : List Char} {t : Token} (state : d.state = .objectComma)
      (h : expect ',' d.rest = some r) (next : Yields ⟨r, .objectKey, d.stack⟩ t d') : Yields d t d'
  | key {d : Decoder} {r rest : List Char} {k : String}
      (state : d.state = .objectStart ∨ d.state = .objectKey) (h : expect '"' d.rest = some r)
      (name : readString r = some (k, rest)) : Yields d (.value (.str k)) ⟨rest, .objectColon, d.stack⟩
  | scalar {d : Decoder} {rest : List Char} {v : Json} (allowed : d.state.valueAllowed = true)
      (arr : expect '[' d.rest = none) (obj : expect '\x7b' d.rest = none) (h : Reads d.rest v rest) :
      Yields d (.value v) ⟨rest, d.state.valueEnd, d.stack⟩

theorem readScalar_other {c : Char} (hc : c = ']' ∨ c = '\x7d' ∨ c = ':' ∨ c = ',') (rest : List Char) :
    readScalar (c :: rest) = none := by
  have hword : c ≠ 'n' ∧ c ≠ 't' ∧ c ≠ 'f' ∧ c ≠ '-' ∧ c ≠ '0' ∧ c.isDigit = false := by
    rcases hc with rfl | rfl | rfl | rfl <;> decide
  obtain ⟨hn, ht, hf, hminus, hzero, hdigit⟩ := hword
  have hdigits : readDigits (c :: rest) = none := by
    rw [readDigits, List.takeWhile_cons_of_neg (by rw [hdigit]; decide)]
    rfl
  have hnumber : readNumber (c :: rest) = none := by
    simp only [readNumber, List.head?_cons, Option.some.injEq, hminus, decide_false,
      Bool.false_eq_true, if_false, readInteger, hzero, hdigits, Option.bind_eq_bind, Option.bind_none]
  rw [readScalar, dropWord_of_head (d := 'n') rfl hn, dropWord_of_head (d := 't') rfl ht,
    dropWord_of_head (d := 'f') rfl hf, hnumber]
  rfl

theorem skipSpace_skipSpace (cs : List Char) : skipSpace (skipSpace cs) = skipSpace cs := by
  cases h : skipSpace cs with
  | nil => rfl
  | cons c rest =>
      have hdrop : cs.dropWhile isJsonSpace = c :: rest := h
      have hhead := List.head_dropWhile_not isJsonSpace (hdrop ▸ List.cons_ne_nil c rest)
      refine skipSpace_cons ?_ rest
      simpa only [hdrop, List.head_cons] using hhead

/-- White space before a value is skipped. -/
theorem reads_skipSpace {cs rest : List Char} {v : Json} : Reads (skipSpace cs) v rest ↔ Reads cs v rest := by
  have hexpect : ∀ c, expect c (skipSpace cs) = expect c cs := by
    intro c
    rw [expect, expect, skipSpace_skipSpace]
  rw [reads_iff, reads_iff]
  constructor
  · intro h
    cases h with
    | str opens read => exact .str (hexpect _ ▸ opens) read
    | emptyArr opens closes => exact .emptyArr (hexpect _ ▸ opens) closes
    | arr opens more read => exact .arr (hexpect _ ▸ opens) more read
    | emptyObj opens closes => exact .emptyObj (hexpect _ ▸ opens) closes
    | obj opens more read => exact .obj (hexpect _ ▸ opens) more read
    | scalar str arr obj read =>
        exact .scalar (hexpect _ ▸ str) (hexpect _ ▸ arr) (hexpect _ ▸ obj) (skipSpace_skipSpace cs ▸ read)
  · intro h
    cases h with
    | str opens read => exact .str ((hexpect _).trans opens) read
    | emptyArr opens closes => exact .emptyArr ((hexpect _).trans opens) closes
    | arr opens more read => exact .arr ((hexpect _).trans opens) more read
    | emptyObj opens closes => exact .emptyObj ((hexpect _).trans opens) closes
    | obj opens more read => exact .obj ((hexpect _).trans opens) more read
    | scalar str arr obj read =>
        refine .scalar ((hexpect _).trans str) ((hexpect _).trans arr) ((hexpect _).trans obj) ?_
        rw [skipSpace_skipSpace]
        exact read

/-- No value starts with a closing bracket or a separator. -/
theorem reads_other {c : Char} (hc : c = ']' ∨ c = '\x7d' ∨ c = ':' ∨ c = ',') {cs r rest : List Char}
    {v : Json} (h : expect c cs = some r) : ¬ Reads cs v rest := by
  intro hreads
  have hne : ∀ d : Char, d = '"' ∨ d = '[' ∨ d = '\x7b' → d ≠ c := by
    rintro d (rfl | rfl | rfl) <;> rcases hc with rfl | rfl | rfl | rfl <;> decide
  have hnone : ∀ d : Char, d = '"' ∨ d = '[' ∨ d = '\x7b' → expect d cs = none :=
    fun d hd => expect_unique h (hne d hd)
  have hstart : skipSpace cs = c :: r := expect_eq_some_iff.mp h
  cases reads_iff.mp hreads with
  | str opens read => exact nomatch (hnone '"' (by decide)).symm.trans opens
  | emptyArr opens closes => exact nomatch (hnone '[' (by decide)).symm.trans opens
  | arr opens more read => exact nomatch (hnone '[' (by decide)).symm.trans opens
  | emptyObj opens closes => exact nomatch (hnone '\x7b' (by decide)).symm.trans opens
  | obj opens more read => exact nomatch (hnone '\x7b' (by decide)).symm.trans opens
  | scalar str arr obj read =>
      rw [hstart, readScalar_other hc] at read
      cases read

theorem reads_ne_nil {cs rest : List Char} {v : Json} (h : Reads cs v rest) : skipSpace cs ≠ [] := by
  intro hnil
  have hlength := (reads_skipSpace.mpr h).length
  rw [hnil] at hlength
  exact absurd hlength (Nat.not_lt_zero _)

theorem scalar_eq_ok_iff {d d' : Decoder} {cs : List Char} {t : Token} :
    d.scalar cs = .ok (t, d') ↔ d.state.valueAllowed = true ∧
      ∃ v rest, Reads cs v rest ∧ t = .value v ∧ d' = ⟨rest, d.state.valueEnd, d.stack⟩ := by
  unfold scalar
  constructor
  · intro h
    split at h
    · rename_i hallowed
      split at h
      · rename_i v rest hread
        cases h
        exact ⟨hallowed, v, rest, ⟨_, hread⟩, rfl, rfl⟩
      · cases h
    · cases h
  · rintro ⟨hallowed, v, rest, hreads, rfl, rfl⟩
    rw [if_pos hallowed, hreads.at (by omega)]

theorem close_eq_ok_iff {d d' : Decoder} {c : Char} {rest : List Char} {t : Token} :
    d.close c rest = .ok (t, d') ↔ ∃ top stack, d.stack = top :: stack ∧ t = .delim c ∧
      d' = ⟨rest, top.valueEnd, stack⟩ := by
  unfold close
  cases d.stack with
  | nil => exact ⟨fun h => (nomatch h), fun ⟨_, _, h, _⟩ => (nomatch h)⟩
  | cons top stack =>
      simp only [Except.ok.injEq, Prod.mk.injEq, List.cons.injEq]
      constructor
      · rintro ⟨rfl, rfl⟩
        exact ⟨top, stack, ⟨rfl, rfl⟩, rfl, rfl⟩
      · rintro ⟨_, _, ⟨rfl, rfl⟩, rfl, rfl⟩
        exact ⟨rfl, rfl⟩

/-- `token` by the character it starts at. -/
theorem token_cons {d : Decoder} {c : Char} {rest : List Char} (h : skipSpace d.rest = c :: rest) :
    d.token =
      if c = '[' then
        if d.state.valueAllowed then .ok (.delim '[', ⟨rest, .arrayStart, d.state :: d.stack⟩)
        else .error .malformed
      else if c = ']' then
        if d.state = .arrayStart ∨ d.state = .arrayComma then d.close ']' rest else .error .malformed
      else if c = '\x7b' then
        if d.state.valueAllowed then .ok (.delim '\x7b', ⟨rest, .objectStart, d.state :: d.stack⟩)
        else .error .malformed
      else if c = '\x7d' then
        if d.state = .objectStart ∨ d.state = .objectComma then d.close '\x7d' rest
        else .error .malformed
      else if c = ':' then
        if d.state = .objectColon then token ⟨rest, .objectValue, d.stack⟩ else .error .malformed
      else if c = ',' then
        if d.state = .arrayComma then token ⟨rest, .arrayValue, d.stack⟩
        else if d.state = .objectComma then token ⟨rest, .objectKey, d.stack⟩
        else .error .malformed
      else if c = '"' ∧ (d.state = .objectStart ∨ d.state = .objectKey) then
        match readString rest with
        | some (k, rest) => .ok (.value (.str k), ⟨rest, .objectColon, d.stack⟩)
        | none => .error .malformed
      else d.scalar (c :: rest) := by
  rw [token]
  split
  · rename_i heq
    rw [h] at heq
    cases heq
  · rename_i c' rest' heq
    rw [h] at heq
    cases heq
    rfl

theorem token_nil {d : Decoder} (h : skipSpace d.rest = []) : d.token = .error .eof := by
  rw [token]
  split
  · rfl
  · rename_i heq
    rw [h] at heq
    cases heq

/-- What is handed out is one of the forms. -/
theorem yields_of_token {n : Nat} {d d' : Decoder} {t : Token} (hn : d.rest.length < n)
    (h : d.token = .ok (t, d')) : Yields d t d' := by
  induction n generalizing d with
  | zero => exact absurd hn (Nat.not_lt_zero _)
  | succ n ih =>
      cases hskip : skipSpace d.rest with
      | nil =>
          rw [token_nil hskip] at h
          cases h
      | cons c rest =>
          have hexpect : expect c d.rest = some rest := expect_eq_some_iff.mpr hskip
          have hlength := expect_length hexpect
          rw [token_cons hskip] at h
          by_cases hopen : c = '['
          · subst hopen
            rw [if_pos rfl] at h
            split at h
            · rename_i hallowed
              cases h
              exact .openArray hallowed hexpect
            · cases h
          rw [if_neg hopen] at h
          by_cases hclose : c = ']'
          · subst hclose
            rw [if_pos rfl] at h
            split at h
            · rename_i hstate
              obtain ⟨top, stack, hstack, rfl, rfl⟩ := close_eq_ok_iff.mp h
              exact .closeArray hstate hstack hexpect
            · cases h
          rw [if_neg hclose] at h
          by_cases hbrace : c = '\x7b'
          · subst hbrace
            rw [if_pos rfl] at h
            split at h
            · rename_i hallowed
              cases h
              exact .openObject hallowed hexpect
            · cases h
          rw [if_neg hbrace] at h
          by_cases hend : c = '\x7d'
          · subst hend
            rw [if_pos rfl] at h
            split at h
            · rename_i hstate
              obtain ⟨top, stack, hstack, rfl, rfl⟩ := close_eq_ok_iff.mp h
              exact .closeObject hstate hstack hexpect
            · cases h
          rw [if_neg hend] at h
          by_cases hcolon : c = ':'
          · subst hcolon
            rw [if_pos rfl] at h
            split at h
            · rename_i hstate
              exact .colon hstate hexpect (ih (by simp only; omega) h)
            · cases h
          rw [if_neg hcolon] at h
          by_cases hcomma : c = ','
          · subst hcomma
            rw [if_pos rfl] at h
            split at h
            · rename_i hstate
              exact .arrayComma hstate hexpect (ih (by simp only; omega) h)
            · split at h
              · rename_i hstate
                exact .objectComma hstate hexpect (ih (by simp only; omega) h)
              · cases h
          rw [if_neg hcomma] at h
          by_cases hkey : c = '"' ∧ (d.state = .objectStart ∨ d.state = .objectKey)
          · rw [if_pos hkey] at h
            obtain ⟨rfl, hstate⟩ := hkey
            split at h
            · rename_i hread
              cases h
              exact .key hstate hexpect hread
            · cases h
          rw [if_neg hkey] at h
          obtain ⟨hallowed, v, rest', hreads, rfl, rfl⟩ := scalar_eq_ok_iff.mp h
          rw [← hskip, reads_skipSpace] at hreads
          exact .scalar hallowed (expect_unique hexpect (Ne.symm hopen))
            (expect_unique hexpect (Ne.symm hbrace)) hreads

/-- The decoder hands out each of the forms. -/
theorem token_of_yields {d d' : Decoder} {t : Token} (h : Yields d t d') : d.token = .ok (t, d') := by
  induction h with
  | openArray allowed h => rw [token_cons (expect_eq_some_iff.mp h), if_pos rfl, if_pos allowed]
  | closeArray state open_ h =>
      rw [token_cons (expect_eq_some_iff.mp h), if_neg (by decide), if_pos rfl, if_pos state]
      exact close_eq_ok_iff.mpr ⟨_, _, open_, rfl, rfl⟩
  | openObject allowed h =>
      rw [token_cons (expect_eq_some_iff.mp h), if_neg (by decide), if_neg (by decide), if_pos rfl,
        if_pos allowed]
  | closeObject state open_ h =>
      rw [token_cons (expect_eq_some_iff.mp h), if_neg (by decide), if_neg (by decide), if_neg (by decide),
        if_pos rfl, if_pos state]
      exact close_eq_ok_iff.mpr ⟨_, _, open_, rfl, rfl⟩
  | colon state h next ih =>
      rw [token_cons (expect_eq_some_iff.mp h), if_neg (by decide), if_neg (by decide), if_neg (by decide),
        if_neg (by decide), if_pos rfl, if_pos state]
      exact ih
  | arrayComma state h next ih =>
      rw [token_cons (expect_eq_some_iff.mp h), if_neg (by decide), if_neg (by decide), if_neg (by decide),
        if_neg (by decide), if_neg (by decide), if_pos rfl, if_pos state]
      exact ih
  | objectComma state h next ih =>
      rw [token_cons (expect_eq_some_iff.mp h), if_neg (by decide), if_neg (by decide), if_neg (by decide),
        if_neg (by decide), if_neg (by decide), if_pos rfl, if_neg (by rw [state]; decide), if_pos state]
      exact ih
  | key state h name =>
      rw [token_cons (expect_eq_some_iff.mp h), if_neg (by decide), if_neg (by decide), if_neg (by decide),
        if_neg (by decide), if_neg (by decide), if_neg (by decide), if_pos ⟨rfl, state⟩, name]
  | @scalar d rest v allowed arr obj h =>
      cases hskip : skipSpace d.rest with
      | nil => exact absurd hskip (reads_ne_nil h)
      | cons c cs =>
          have hexpect : expect c d.rest = some cs := expect_eq_some_iff.mpr hskip
          have hnot : ∀ x : Char, (x = ']' ∨ x = '\x7d' ∨ x = ':' ∨ x = ',') → c ≠ x := by
            rintro x hx rfl
            exact reads_other hx hexpect h
          have hother : ∀ x : Char, expect x d.rest = none → c ≠ x := by
            rintro x hx rfl
            rw [hexpect] at hx
            cases hx
          have hkey : ¬ (d.state = .objectStart ∨ d.state = .objectKey) := by
            rintro (hs | hs) <;> rw [hs] at allowed <;> cases allowed
          rw [token_cons hskip, if_neg (hother _ arr), if_neg (hnot ']' (by decide)), if_neg (hother _ obj),
            if_neg (hnot '\x7d' (by decide)), if_neg (hnot ':' (by decide)), if_neg (hnot ',' (by decide)),
            if_neg (fun hc => hkey hc.2)]
          rw [← reads_skipSpace, hskip] at h
          exact scalar_eq_ok_iff.mpr ⟨allowed, v, rest, h, rfl, rfl⟩

theorem token_eq_ok_iff {d d' : Decoder} {t : Token} : d.token = .ok (t, d') ↔ Yields d t d' :=
  ⟨yields_of_token (Nat.lt_succ_self _), token_of_yields⟩

/-- A token is consumed. -/
theorem Yields.length {d d' : Decoder} {t : Token} (h : Yields d t d') : d'.rest.length < d.rest.length := by
  induction h with
  | openArray _ h => exact expect_length h
  | closeArray _ _ h => exact expect_length h
  | openObject _ h => exact expect_length h
  | closeObject _ _ h => exact expect_length h
  | colon _ h _ ih => exact Nat.lt_trans ih (expect_length h)
  | arrayComma _ h _ ih => exact Nat.lt_trans ih (expect_length h)
  | objectComma _ h _ ih => exact Nat.lt_trans ih (expect_length h)
  | key _ h name => exact Nat.lt_trans (readString_length name) (expect_length h)
  | scalar _ _ _ h => exact h.length

/-- The text is at its end exactly when only white space is left. -/
theorem token_eq_eof_iff {d : Decoder} (hstate : d.state = .topValue) :
    d.token = .error .eof ↔ skipSpace d.rest = [] := by
  constructor
  · intro h
    cases hskip : skipSpace d.rest with
    | nil => rfl
    | cons c rest =>
        exfalso
        rw [token_cons hskip, hstate] at h
        simp only [TokenState.valueAllowed, reduceCtorEq, or_self, if_false, and_false, if_true] at h
        repeat' split at h
        all_goals first
          | cases h
          | skip
        unfold scalar at h
        repeat' split at h
        all_goals cases h
  · exact token_nil

theorem more_eq_true_iff {d : Decoder} :
    d.more = true ↔ skipSpace d.rest ≠ [] ∧ expect ']' d.rest = none ∧ expect '\x7d' d.rest = none := by
  unfold more expect
  cases skipSpace d.rest with
  | nil => simp
  | cons c rest => simp

-- ============================================================================
-- What a token is part of
-- ============================================================================

/-- The decoder past the separator that stands before a value. -/
inductive Past : Decoder → Decoder → Prop where
  | here {d : Decoder} (allowed : d.state.valueAllowed = true) : Past d d
  | colon {d : Decoder} {r : List Char} (state : d.state = .objectColon) (h : expect ':' d.rest = some r) :
      Past d ⟨r, .objectValue, d.stack⟩
  | comma {d : Decoder} {r : List Char} (state : d.state = .arrayComma) (h : expect ',' d.rest = some r) :
      Past d ⟨r, .arrayValue, d.stack⟩

/-- The token starts a value. -/
inductive Begins (d : Decoder) : Token → Decoder → Prop where
  | array {r : List Char} (h : expect '[' d.rest = some r) :
      Begins d (.delim '[') ⟨r, .arrayStart, d.state :: d.stack⟩
  | object {r : List Char} (h : expect '\x7b' d.rest = some r) :
      Begins d (.delim '\x7b') ⟨r, .objectStart, d.state :: d.stack⟩
  | scalar {rest : List Char} {v : Json} (arr : expect '[' d.rest = none) (obj : expect '\x7b' d.rest = none)
      (h : Reads d.rest v rest) : Begins d (.value v) ⟨rest, d.state.valueEnd, d.stack⟩

/-- The token ends an array or an object. -/
inductive Ends (d : Decoder) : Token → Decoder → Prop where
  | array {r : List Char} {top : TokenState} {stack : List TokenState}
      (state : d.state = .arrayStart ∨ d.state = .arrayComma) (open_ : d.stack = top :: stack)
      (h : expect ']' d.rest = some r) : Ends d (.delim ']') ⟨r, top.valueEnd, stack⟩
  | object {r : List Char} {top : TokenState} {stack : List TokenState}
      (state : d.state = .objectStart ∨ d.state = .objectComma) (open_ : d.stack = top :: stack)
      (h : expect '\x7d' d.rest = some r) : Ends d (.delim '\x7d') ⟨r, top.valueEnd, stack⟩

/-- The token names a member, after a comma or not. -/
inductive Names (d : Decoder) : Token → Decoder → Prop where
  | first {r rest : List Char} {k : String} (state : d.state = .objectStart ∨ d.state = .objectKey)
      (quote : expect '"' d.rest = some r) (name : readString r = some (k, rest)) :
      Names d (.value (.str k)) ⟨rest, .objectColon, d.stack⟩
  | next {r r' rest : List Char} {k : String} (state : d.state = .objectComma)
      (comma : expect ',' d.rest = some r) (quote : expect '"' r = some r')
      (name : readString r' = some (k, rest)) : Names d (.value (.str k)) ⟨rest, .objectColon, d.stack⟩

theorem yields_cases {d d' : Decoder} {t : Token} (h : Yields d t d') :
    (∃ d₀, Past d d₀ ∧ Begins d₀ t d') ∨ Ends d t d' ∨ Names d t d' := by
  cases h with
  | openArray allowed h => exact .inl ⟨d, .here allowed, .array h⟩
  | closeArray state open_ h => exact .inr (.inl (.array state open_ h))
  | openObject allowed h => exact .inl ⟨d, .here allowed, .object h⟩
  | closeObject state open_ h => exact .inr (.inl (.object state open_ h))
  | key state h name => exact .inr (.inr (.first state h name))
  | scalar allowed arr obj h => exact .inl ⟨d, .here allowed, .scalar arr obj h⟩
  | @colon _ _ r _ state h next =>
      refine .inl ⟨⟨r, .objectValue, d.stack⟩, .colon state h, ?_⟩
      cases next with
      | openArray _ h => exact .array h
      | openObject _ h => exact .object h
      | scalar _ arr obj h => exact .scalar arr obj h
      | closeArray state => exact absurd state (by simp only; decide)
      | closeObject state => exact absurd state (by simp only; decide)
      | colon state => exact absurd state (by simp only; decide)
      | arrayComma state => exact absurd state (by simp only; decide)
      | objectComma state => exact absurd state (by simp only; decide)
      | key state => exact absurd state (by simp only; decide)
  | @arrayComma _ _ r _ state h next =>
      refine .inl ⟨⟨r, .arrayValue, d.stack⟩, .comma state h, ?_⟩
      cases next with
      | openArray _ h => exact .array h
      | openObject _ h => exact .object h
      | scalar _ arr obj h => exact .scalar arr obj h
      | closeArray state => exact absurd state (by simp only; decide)
      | closeObject state => exact absurd state (by simp only; decide)
      | colon state => exact absurd state (by simp only; decide)
      | arrayComma state => exact absurd state (by simp only; decide)
      | objectComma state => exact absurd state (by simp only; decide)
      | key state => exact absurd state (by simp only; decide)
  | objectComma state h next =>
      refine .inr (.inr ?_)
      cases next with
      | key _ quote name => exact .next state h quote name
      | openArray allowed => exact absurd allowed (by simp only; decide)
      | openObject allowed => exact absurd allowed (by simp only; decide)
      | scalar allowed => exact absurd allowed (by simp only; decide)
      | closeArray state => exact absurd state (by simp only; decide)
      | closeObject state => exact absurd state (by simp only; decide)
      | colon state => exact absurd state (by simp only; decide)
      | arrayComma state => exact absurd state (by simp only; decide)
      | objectComma state => exact absurd state (by simp only; decide)

/-- A token that starts a value is handed out past the separator. -/
theorem Past.yields {d d₀ d' : Decoder} {t : Token} (h : Past d d₀) (hb : Begins d₀ t d') : Yields d t d' := by
  have hdirect : d₀.state.valueAllowed = true → Yields d₀ t d' := by
    intro hallowed
    cases hb with
    | array h => exact .openArray hallowed h
    | object h => exact .openObject hallowed h
    | scalar arr obj h => exact .scalar hallowed arr obj h
  cases h with
  | here allowed => exact hdirect allowed
  | colon state h => exact .colon state h (hdirect rfl)
  | comma state h => exact .arrayComma state h (hdirect rfl)

theorem Ends.yields {d d' : Decoder} {t : Token} (h : Ends d t d') : Yields d t d' := by
  cases h with
  | array state open_ h => exact .closeArray state open_ h
  | object state open_ h => exact .closeObject state open_ h

theorem Names.yields {d d' : Decoder} {t : Token} (h : Names d t d') : Yields d t d' := by
  cases h with
  | first state quote name => exact .key state quote name
  | next state comma quote name => exact .objectComma state comma (.key (.inr rfl) quote name)

end Decoder

end DurableEngine.Lib
