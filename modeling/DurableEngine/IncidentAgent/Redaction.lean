/-
  DurableEngine.IncidentAgent.Redaction

  The redaction of incident texts (`incident_agent/redaction.py`).

  The patterns are applied one after another, each to what the last one left.
  Every match of a pattern holds one of the marks `_`, `@` and `.`, and no
  replacement does, so a replaced text is clear of every pattern the old one
  was clear of.
-/

import DurableEngine.Lib.PythonText
import DurableEngine.Lib.Regex

namespace DurableEngine.IncidentAgent

open Lib Regex

-- ============================================================================
-- The patterns
-- ============================================================================

/-- The code point of an ASCII character. -/
def ascii (c : Char) : CodePoint := Fin.ofNat 0x110000 c.toNat

/-- `[a-b]` -/
def between (a b : Char) (p : CodePoint) : Bool := decide (a.toNat ≤ p.val ∧ p.val ≤ b.toNat)

def isUpper (p : CodePoint) : Bool := between 'A' 'Z' p

def isLetter (p : CodePoint) : Bool := isUpper p || between 'a' 'z' p

def isDigit (p : CodePoint) : Bool := between '0' '9' p

/-- One of these characters. -/
def isOneOf (cs : List Char) (p : CodePoint) : Bool := cs.any (fun c => decide (c.toNat = p.val))

/-- What `re` takes from the Unicode tables of Python. -/
structure UnicodeTables where
  isalnum : CodePoint → Bool
  isdecimal : CodePoint → Bool
  isalnum_ascii : ∀ p : CodePoint, p.val < 128 → isalnum p = (isLetter p || isDigit p)
  isdecimal_ascii : ∀ p : CodePoint, p.val < 128 → isdecimal p = isDigit p

/-- `\w` -/
def UnicodeTables.word (u : UnicodeTables) (p : CodePoint) : Bool := u.isalnum p || isOneOf ['_'] p

/-- An entry of `_PATTERNS`; the pattern is `\b body \b`. -/
structure Redactor where
  category : String
  body : Regex CodePoint
  replacement : PyStr

def Redactor.pattern (r : Redactor) : Regex CodePoint := whole r.body

def fixed (w : String) : Regex CodePoint := literal (PyStr.ofString w)

/-- `\b(?:sk|pk|token|secret)_[A-Za-z0-9_-]{8,}\b` -/
def secretRedactor : Redactor where
  category := "secret"
  body := .seq (.alt (fixed "sk") (.alt (fixed "pk") (.alt (fixed "token") (fixed "secret"))))
    (.seq (one (isOneOf ['_'])) (.run (fun p => isLetter p || isDigit p || isOneOf ['_', '-'] p) 8 none))
  replacement := PyStr.ofString "[REDACTED:SECRET]"

/-- `\b[A-Za-z0-9._%+-]+@[A-Za-z0-9.-]+\.[A-Za-z]{2,}\b` -/
def emailRedactor : Redactor where
  category := "email"
  body := .seq (.run (fun p => isLetter p || isDigit p || isOneOf ['.', '_', '%', '+', '-'] p) 1 none)
    (.seq (one (isOneOf ['@']))
      (.seq (.run (fun p => isLetter p || isDigit p || isOneOf ['.', '-'] p) 1 none)
        (.seq (one (isOneOf ['.'])) (.run isLetter 2 none))))
  replacement := PyStr.ofString "[REDACTED:EMAIL]"

/-- `\b(?:\d{1,3}\.){3}\d{1,3}\b` -/
def ipRedactor (u : UnicodeTables) : Redactor where
  category := "ip"
  body := .seq (times 3 (.seq (.run u.isdecimal 1 (some 3)) (one (isOneOf ['.'])))) (.run u.isdecimal 1 (some 3))
  replacement := PyStr.ofString "[REDACTED:IP]"

/-- `\bCANARY_(?:SECRET|PII)_[A-Z0-9_-]+\b` -/
def canaryRedactor : Redactor where
  category := "canary"
  body := .seq (fixed "CANARY_") (.seq (.alt (fixed "SECRET") (fixed "PII"))
    (.seq (one (isOneOf ['_'])) (.run (fun p => isUpper p || isDigit p || isOneOf ['_', '-'] p) 1 none)))
  replacement := PyStr.ofString "[REDACTED:CANARY]"

/-- `_PATTERNS` -/
def redactors (u : UnicodeTables) : List Redactor :=
  [secretRedactor, emailRedactor, ipRedactor u, canaryRedactor]

-- ============================================================================
-- Redaction
-- ============================================================================

structure RedactionResult where
  text : PyStr
  count : Nat
  categories : List String
deriving DecidableEq

/-- One pass of the loop of `redact`. -/
def RedactionResult.apply (u : UnicodeTables) (result : RedactionResult) (r : Redactor) : RedactionResult :=
  let found := findAll u.word r.pattern 0 none result.text
  if found.isEmpty then result
  else
    { text := sub u.word r.pattern r.replacement 0 none result.text
      count := result.count + found.length
      categories := result.categories ++ List.replicate found.length r.category }

def redact (u : UnicodeTables) (text : PyStr) : RedactionResult :=
  (redactors u).foldl (RedactionResult.apply u) ⟨text, 0, []⟩

structure Leak where
  surface : PyStr
  categories : String
deriving DecidableEq

/-- The surfaces are the items of a dict. -/
def scanDownstream (u : UnicodeTables) (surfaces : List (PyStr × PyStr)) : List Leak :=
  surfaces.filterMap fun (surface, text) =>
    let result := redact u text
    if result.count = 0 then none else some ⟨surface, String.intercalate "," result.categories⟩

/-- Tables that know ASCII only. -/
def asciiTables : UnicodeTables where
  isalnum p := isLetter p || isDigit p
  isdecimal := isDigit
  isalnum_ascii _ _ := rfl
  isdecimal_ascii _ _ := rfl

example : redact asciiTables (PyStr.ofString "at 10.0.0.1.") = ⟨PyStr.ofString "at [REDACTED:IP].", 1, ["ip"]⟩ := by
  decide +kernel

-- ============================================================================
-- What the patterns have in common
-- ============================================================================

/-- The marks that every match holds one of. -/
def IsMark (p : CodePoint) : Prop := isOneOf ['_', '@', '.'] p = true

/-- A pattern no replacement of the table can be part of, and a replacement that
    breaks no match of another pattern in two. -/
structure Redactor.Sound (r : Redactor) : Prop where
  positive : 0 < r.body.fewest
  opening : ¬ r.pattern.Uses (ascii '[')
  closing : ¬ r.pattern.Uses (ascii ']')
  marked : r.pattern.Needs IsMark
  replacement : ∃ middle, r.replacement = ascii '[' :: (middle ++ [ascii ']']) ∧ ∀ p ∈ middle, ¬ IsMark p

theorem not_uses_fixed {w : String} {c : Char} (h : (PyStr.ofString w).contains (ascii c) = false) :
    ¬ (fixed w).Uses (ascii c) := by
  intro huses
  have hmem := uses_literal huses
  rw [← List.contains_iff_mem, h] at hmem
  cases hmem

/-- The replacement of the table for a category. -/
theorem replacement_of_middle {replacement : PyStr} (middle : PyStr)
    (h : replacement = ascii '[' :: (middle ++ [ascii ']']))
    (hmiddle : middle.all (fun p => !isOneOf ['_', '@', '.'] p) = true) :
    ∃ middle, replacement = ascii '[' :: (middle ++ [ascii ']']) ∧ ∀ p ∈ middle, ¬ IsMark p := by
  refine ⟨middle, h, fun p hp hmark => ?_⟩
  have hplain := List.all_eq_true.mp hmiddle p hp
  rw [hmark] at hplain
  cases hplain

theorem isMark_of_isOneOf {c : Char} (h : isOneOf ['_', '@', '.'] (ascii c) = true) (p : CodePoint)
    (hp : isOneOf [c] p = true) (hc : c.toNat < 0x110000) : IsMark p := by
  have hval : c.toNat = p.val := by simpa [isOneOf] using hp
  have heq : ascii c = p := by
    apply Fin.ext
    show c.toNat % 0x110000 = p.val
    omega
  rwa [heq] at h

theorem secretRedactor_sound : secretRedactor.Sound where
  positive := by decide +kernel
  opening := by
    simp only [Redactor.pattern, secretRedactor, whole, Uses, one, false_or, or_false, not_or]
    refine ⟨⟨?_, ?_, ?_, ?_⟩, by decide, by decide⟩ <;> exact not_uses_fixed (by decide +kernel)
  closing := by
    simp only [Redactor.pattern, secretRedactor, whole, Uses, one, false_or, or_false, not_or]
    refine ⟨⟨?_, ?_, ?_, ?_⟩, by decide, by decide⟩ <;> exact not_uses_fixed (by decide +kernel)
  marked := by
    show False ∨ ((_ ∨ (_ ∨ _)) ∨ False)
    refine .inr (.inl (.inr (.inl (needs_one fun p hp => ?_))))
    exact isMark_of_isOneOf (by decide) p hp (by decide)
  replacement := replacement_of_middle (PyStr.ofString "REDACTED:SECRET") (by decide +kernel) (by decide +kernel)

theorem emailRedactor_sound : emailRedactor.Sound where
  positive := by decide +kernel
  opening := by
    simp only [Redactor.pattern, emailRedactor, whole, Uses, one, false_or, or_false, not_or]
    decide
  closing := by
    simp only [Redactor.pattern, emailRedactor, whole, Uses, one, false_or, or_false, not_or]
    decide
  marked := by
    show False ∨ ((_ ∨ (_ ∨ _)) ∨ False)
    refine .inr (.inl (.inr (.inl (needs_one fun p hp => ?_))))
    exact isMark_of_isOneOf (by decide) p hp (by decide)
  replacement := replacement_of_middle (PyStr.ofString "REDACTED:EMAIL") (by decide +kernel) (by decide +kernel)

/-- A bracket is no decimal digit. -/
theorem not_uses_ip (u : UnicodeTables) {c : Char} (hascii : (ascii c).val < 128) (hdigit : isDigit (ascii c) = false)
    (hdot : isOneOf ['.'] (ascii c) = false) : ¬ (ipRedactor u).pattern.Uses (ascii c) := by
  have hdecimal : ¬ u.isdecimal (ascii c) = true := by
    rw [u.isdecimal_ascii _ hascii, hdigit]
    exact Bool.false_ne_true
  rintro (h | (h | h) | h)
  · exact h
  · rcases uses_times h with h | h
    · exact hdecimal h
    · change isOneOf ['.'] (ascii c) = true at h
      rw [hdot] at h
      cases h
  · exact hdecimal h
  · exact h

theorem ipRedactor_sound (u : UnicodeTables) : (ipRedactor u).Sound where
  positive := by
    show 0 < (1 + 1 + (1 + 1 + (1 + 1 + 0))) + 1
    decide
  opening := not_uses_ip u (by decide) (by decide) (by decide)
  closing := not_uses_ip u (by decide) (by decide) (by decide)
  marked := by
    show False ∨ (((_ ∨ _) ∨ _) ∨ _) ∨ False
    refine .inr (.inl (.inl (.inl (.inr (needs_one fun p hp => ?_)))))
    exact isMark_of_isOneOf (by decide) p hp (by decide)
  replacement := by
    show ∃ middle, PyStr.ofString "[REDACTED:IP]" = _ ∧ _
    exact replacement_of_middle (PyStr.ofString "REDACTED:IP") (by decide +kernel) (by decide +kernel)

theorem canaryRedactor_sound : canaryRedactor.Sound where
  positive := by decide +kernel
  opening := by
    simp only [Redactor.pattern, canaryRedactor, whole, Uses, one, false_or, or_false, not_or]
    refine ⟨?_, ⟨?_, ?_⟩, by decide, by decide⟩ <;> exact not_uses_fixed (by decide +kernel)
  closing := by
    simp only [Redactor.pattern, canaryRedactor, whole, Uses, one, false_or, or_false, not_or]
    refine ⟨?_, ⟨?_, ?_⟩, by decide, by decide⟩ <;> exact not_uses_fixed (by decide +kernel)
  marked := by
    show False ∨ ((_ ∨ (_ ∨ (_ ∨ _))) ∨ False)
    refine .inr (.inl (.inr (.inr (.inl (needs_one fun p hp => ?_)))))
    exact isMark_of_isOneOf (by decide) p hp (by decide)
  replacement := replacement_of_middle (PyStr.ofString "REDACTED:CANARY") (by decide +kernel) (by decide +kernel)

theorem redactors_sound (u : UnicodeTables) : ∀ r ∈ redactors u, r.Sound := by
  intro r hr
  simp only [redactors, List.mem_cons, List.not_mem_nil, or_false] at hr
  rcases hr with rfl | rfl | rfl | rfl
  · exact secretRedactor_sound
  · exact emailRedactor_sound
  · exact ipRedactor_sound u
  · exact canaryRedactor_sound

-- ============================================================================
-- The claim
-- ============================================================================

/-- The text holds no match of the pattern. -/
def Redactor.Absent (u : UnicodeTables) (r : Redactor) (text : PyStr) : Prop := Clear u.word r.pattern none text

theorem Redactor.Sound.pattern_positive {r : Redactor} (h : r.Sound) : 0 < r.pattern.fewest := by
  show 0 < 0 + (r.body.fewest + 0)
  have hpositive := h.positive
  omega

/-- A pass clears the text of its own pattern. -/
theorem apply_absent {u : UnicodeTables} {r : Redactor} (hr : r.Sound) (result : RedactionResult) :
    r.Absent u (result.apply u r).text := by
  unfold RedactionResult.apply
  by_cases hfound : findAll u.word r.pattern 0 none result.text = []
  · rw [hfound]
    exact clear_of_findAll hr.pattern_positive hfound
  · obtain ⟨middle, hreplacement, hplain⟩ := hr.replacement
    dsimp only
    rw [if_neg (by simpa using hfound), hreplacement]
    apply clear_sub hr.positive ⟨hr.opening, hr.closing, IsMark, hr.marked, hplain⟩
    · exact fun _ h => h
    · exact .inl rfl

/-- A pass brings no match of another pattern about. -/
theorem apply_keeps_absent {u : UnicodeTables} {r q : Redactor} (hr : r.Sound) (hq : q.Sound)
    {result : RedactionResult} (h : q.Absent u result.text) : q.Absent u (result.apply u r).text := by
  unfold RedactionResult.apply
  by_cases hfound : findAll u.word r.pattern 0 none result.text = []
  · rw [hfound]
    exact h
  · obtain ⟨middle, hreplacement, hplain⟩ := hr.replacement
    dsimp only
    rw [if_neg (by simpa using hfound), hreplacement]
    apply clear_sub hr.positive ⟨hq.opening, hq.closing, IsMark, hq.marked, hplain⟩
    · exact fun k _ => h k
    · exact .inl rfl

/-- The passes clear the text of every pattern, each keeping what the earlier ones reached. -/
theorem foldl_apply_absent {u : UnicodeTables} {rs : List Redactor} (hrs : ∀ r ∈ rs, r.Sound)
    (result : RedactionResult) : ∀ q : Redactor, q.Sound → q ∈ rs ∨ q.Absent u result.text →
      q.Absent u (rs.foldl (RedactionResult.apply u) result).text := by
  induction rs generalizing result with
  | nil =>
      intro q _ hq
      rcases hq with hq | hq
      · cases hq
      · exact hq
  | cons r rs ih =>
      intro q hsound hq
      have hr : r.Sound := hrs r List.mem_cons_self
      apply ih (fun x hx => hrs x (List.mem_cons_of_mem r hx)) _ q hsound
      rcases hq with hq | hq
      · rcases List.mem_cons.mp hq with rfl | hq
        · exact .inr (apply_absent hr result)
        · exact .inl hq
      · exact .inr (apply_keeps_absent hr hsound hq)

theorem redact_absent (u : UnicodeTables) (text : PyStr) : ∀ r ∈ redactors u, r.Absent u (redact u text).text :=
  fun r hr => foldl_apply_absent (redactors_sound u) _ r (redactors_sound u r hr) (.inl hr)

/-- A text without matches is returned as it is. -/
theorem redact_of_absent {u : UnicodeTables} {text : PyStr} (h : ∀ r ∈ redactors u, r.Absent u text) :
    redact u text = ⟨text, 0, []⟩ := by
  unfold redact
  generalize redactors u = rs at h
  induction rs with
  | nil => rfl
  | cons r rs ih =>
      have happly : RedactionResult.apply u ⟨text, 0, []⟩ r = ⟨text, 0, []⟩ := by
        unfold RedactionResult.apply
        rw [findAll_of_clear (h r List.mem_cons_self)]
        rfl
      rw [List.foldl_cons, happly]
      exact ih fun q hq => h q (List.mem_cons_of_mem r hq)

/-- Texts without matches leak nothing. -/
theorem scanDownstream_of_absent {u : UnicodeTables} {surfaces : List (PyStr × PyStr)}
    (h : ∀ surface ∈ surfaces, ∀ r ∈ redactors u, r.Absent u surface.2) : scanDownstream u surfaces = [] := by
  unfold scanDownstream
  apply List.filterMap_eq_nil_iff.mpr
  intro surface hsurface
  dsimp only
  rw [redact_of_absent (h surface hsurface)]
  exact if_pos rfl

/-- What is redacted holds no match of any pattern, is redacted to itself, and is no leak on a surface. -/
theorem redaction_complete (u : UnicodeTables) (text : PyStr) :
    (∀ r ∈ redactors u, r.Absent u (redact u text).text) ∧
      redact u (redact u text).text = ⟨(redact u text).text, 0, []⟩ ∧
      ∀ surfaces : List (PyStr × PyStr),
        scanDownstream u (surfaces.map fun surface => (surface.1, (redact u surface.2).text)) = [] := by
  refine ⟨redact_absent u text, redact_of_absent (redact_absent u text), fun surfaces => ?_⟩
  apply scanDownstream_of_absent
  intro surface hsurface
  obtain ⟨raw, -, rfl⟩ := List.mem_map.mp hsurface
  exact redact_absent u raw.2

end DurableEngine.IncidentAgent
