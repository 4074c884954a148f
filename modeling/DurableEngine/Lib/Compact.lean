/-
  DurableEngine.Lib.Compact

  A JSON text without the white space between its tokens, as `json.Marshal`
  copies a `json.RawMessage` into what it writes.  What `json.Marshal` itself
  wrote is copied unchanged.
-/

import DurableEngine.Lib.RoundTrip

namespace DurableEngine.Lib

/-- A character that HTML gives a meaning to is escaped, inside strings and outside. -/
def escapeHTML (c : Char) : List Char :=
  if c = '<' ∨ c = '>' ∨ c = '&' ∨ c.toNat = 0x2028 ∨ c.toNat = 0x2029 then '\\' :: 'u' :: hex4 c.toNat
  else [c]

/-- `appendCompact` with `escape`, inside a string or outside of one. -/
def compactText : Bool → List Char → List Char
  | _, [] => []
  | true, '\\' :: c :: cs => '\\' :: c :: compactText true cs
  | true, c :: cs => escapeHTML c ++ compactText (c ≠ '"') cs
  | false, c :: cs =>
      if isJsonSpace c then compactText false cs else escapeHTML c ++ compactText (c = '"') cs

example : compactText false " [ 1, \"a <\\\" b\" ]".toList = "[1,\"a \\u003c\\\" b\"]".toList := by decide

-- ============================================================================
-- Texts that are kept
-- ============================================================================

/-- The text is copied as it is when it stands outside of a string. -/
def Kept (cs : List Char) : Prop := ∀ rest, compactText false (cs ++ rest) = cs ++ compactText false rest

theorem Kept.nil : Kept [] := fun _ => rfl

theorem Kept.append {cs ds : List Char} (hc : Kept cs) (hd : Kept ds) : Kept (cs ++ ds) := by
  intro rest
  rw [List.append_assoc, hc, hd, List.append_assoc]

/-- A character that is neither white space, a quote nor escaped for HTML. -/
def plainChar (c : Char) : Bool := !isJsonSpace c && c ≠ '"' && escapeHTML c = [c]

theorem Kept.cons {c : Char} {cs : List Char} (hc : plainChar c = true) (h : Kept cs) : Kept (c :: cs) := by
  intro rest
  simp only [plainChar, Bool.and_eq_true, Bool.not_eq_true', decide_eq_true_eq] at hc
  obtain ⟨⟨hspace, hquote⟩, hhtml⟩ := hc
  rw [List.cons_append, compactText, hspace, if_neg (by decide), hhtml, decide_eq_false hquote, h]
  rfl

theorem Kept.of_plain {cs : List Char} (h : ∀ c ∈ cs, plainChar c = true) : Kept cs := by
  induction cs with
  | nil => exact .nil
  | cons c cs ih =>
      exact .cons (h c List.mem_cons_self) (ih (fun d hd => h d (List.mem_cons_of_mem _ hd)))

theorem plainChar_of_isDigit {c : Char} (h : c.isDigit = true) : plainChar c = true := by
  have hne : ∀ d : Char, d.isDigit = false → c ≠ d := by
    rintro d hd rfl
    rw [h] at hd
    cases hd
  have hsmall : c.toNat < 0x2028 := by
    simp only [Char.isDigit, Bool.and_eq_true, decide_eq_true_eq] at h
    have hle : c.toNat ≤ 57 := h.2
    omega
  have hspace : isJsonSpace c = false := by
    simp only [isJsonSpace, hne ' ' (by decide), hne '\t' (by decide), hne '\n' (by decide),
      hne '\r' (by decide), decide_false, Bool.or_self]
  have hhtml : escapeHTML c = [c] := by
    unfold escapeHTML
    rw [if_neg]
    rintro (h | h | h | h | h)
    · exact hne '<' (by decide) h
    · exact hne '>' (by decide) h
    · exact hne '&' (by decide) h
    · omega
    · omega
  simp [plainChar, hspace, hhtml, hne '"' (by decide)]

theorem kept_exponent (e : Exponent) : Kept e.literal := by
  rw [literal_eq]
  refine .cons (by cases e.upper <;> decide) (.append ?_ (.of_plain ?_))
  · cases e.sign with
    | none => exact .nil
    | some b => cases b <;> exact .cons (by decide) .nil
  · exact fun c hc => plainChar_of_isDigit (isDigit_of_mem_padded hc)

theorem kept_literal (n : JsonNumber) : Kept n.literal := by
  obtain ⟨int, frac, hliteral, -, -, hdigits, -⟩ := literal_digits n
  rw [hliteral]
  have hint : Kept int :=
    .of_plain (fun c hc => plainChar_of_isDigit (hdigits c (List.mem_append_left _ hc)))
  have hfrac : Kept frac :=
    .of_plain (fun c hc => plainChar_of_isDigit (hdigits c (List.mem_append_right _ hc)))
  refine .append (.append (.append ?_ hint) ?_) ?_
  · split
    · exact .cons (by decide) .nil
    · exact .nil
  · split
    · exact .nil
    · exact .cons (by decide) hfrac
  · cases n.exponent with
    | none => exact .nil
    | some e => exact kept_exponent e

/-- Inside a string, a plain character is copied. -/
theorem compactText_inside {c : Char} (hslash : c ≠ '\\') (hquote : c ≠ '"') (hhtml : escapeHTML c = [c])
    (rest : List Char) : compactText true (c :: rest) = c :: compactText true rest := by
  rw [compactText, hhtml, decide_eq_true hquote]
  · rfl
  · exact fun _ _ h _ => hslash h

theorem compactText_escaped (c : Char) (rest : List Char) :
    compactText true ('\\' :: c :: rest) = '\\' :: c :: compactText true rest := by
  rw [compactText]

/-- The hexadecimal digits of an escape are copied. -/
theorem compactText_hex4 (n : Nat) (rest : List Char) :
    compactText true (hex4 n ++ rest) = hex4 n ++ compactText true rest := by
  have hdigit : ∀ d < 16, let c := "0123456789abcdef".toList.getD d '0'
      c ≠ '\\' ∧ c ≠ '"' ∧ escapeHTML c = [c] := by decide
  have hone : ∀ (d : Nat) (cs : List Char), compactText true ("0123456789abcdef".toList.getD (d % 16) '0' :: cs) =
      "0123456789abcdef".toList.getD (d % 16) '0' :: compactText true cs := by
    intro d cs
    obtain ⟨hslash, hquote, hhtml⟩ := hdigit (d % 16) (Nat.mod_lt _ (by decide))
    exact compactText_inside hslash hquote hhtml cs
  simp only [hex4, List.cons_append, List.nil_append, hone]

theorem compactText_escapeChar (c : Char) (rest : List Char) :
    compactText true (escapeChar c ++ rest) = escapeChar c ++ compactText true rest := by
  unfold escapeChar
  by_cases hquote : c = '"'
  · rw [if_pos hquote]
    exact compactText_escaped '"' rest
  rw [if_neg hquote]
  by_cases hslash : c = '\\'
  · rw [if_pos hslash]
    exact compactText_escaped '\\' rest
  rw [if_neg hslash]
  split
  · exact compactText_escaped 'b' rest
  split
  · exact compactText_escaped 't' rest
  split
  · exact compactText_escaped 'n' rest
  split
  · exact compactText_escaped 'f' rest
  split
  · exact compactText_escaped 'r' rest
  split
  · rw [List.cons_append, List.cons_append, compactText_escaped, compactText_hex4]
    rfl
  · rename_i hhtml
    refine compactText_inside hslash hquote ?_ rest
    unfold escapeHTML
    rw [if_neg (fun h => hhtml (.inr h))]

theorem kept_string (s : String) : Kept (marshalString s) := by
  intro rest
  have hinside : ∀ (cs : List Char) (rest : List Char), compactText true (cs.flatMap escapeChar ++ '"' :: rest) =
      cs.flatMap escapeChar ++ '"' :: compactText false rest := by
    intro cs rest
    induction cs with
    | nil =>
        rw [List.flatMap_nil, List.nil_append, List.nil_append]
        exact rfl
    | cons c cs ih =>
        rw [List.flatMap_cons, List.append_assoc, compactText_escapeChar, ih, List.append_assoc]
  have htext : marshalString s ++ rest = '"' :: (s.toList.flatMap escapeChar ++ '"' :: rest) := by
    simp only [marshalString, List.cons_append, List.append_assoc, List.nil_append]
  have hresult : marshalString s ++ compactText false rest =
      '"' :: (s.toList.flatMap escapeChar ++ '"' :: compactText false rest) := by
    simp only [marshalString, List.cons_append, List.append_assoc, List.nil_append]
  rw [htext, hresult, ← hinside]
  rfl

theorem kept_members {ms : List (String × Json)} (h : ∀ m ∈ ms, Kept (marshalTree m.2)) :
    Kept (joinMembers ms) := by
  have hmember : ∀ m : String × Json, Kept (marshalTree m.2) → Kept (memberText m).2 := fun m hm =>
    (kept_string m.1).append (.cons (by decide) hm)
  induction ms with
  | nil => exact .cons (by decide) .nil
  | cons m ms ih =>
      have hhead := hmember m (h m List.mem_cons_self)
      cases ms with
      | nil => exact hhead.append (.cons (by decide) .nil)
      | cons m' ms =>
          exact hhead.append (.cons (by decide) (ih (fun l hl => h l (List.mem_cons_of_mem _ hl))))

theorem kept_list {xs : List Json} (h : ∀ x ∈ xs, Kept (marshalTree x)) : Kept (marshalList xs) := by
  induction xs with
  | nil => exact .nil
  | cons x xs ih =>
      have hhead := h x List.mem_cons_self
      cases xs with
      | nil => exact hhead
      | cons y ys =>
          exact hhead.append (.cons (by decide) (ih (fun z hz => h z (List.mem_cons_of_mem _ hz))))

mutual

/-- What `json.Marshal` wrote is kept. -/
theorem kept_marshalTree : ∀ v : Json, Kept (marshalTree v)
  | .null => .of_plain (List.all_eq_true.mp (by decide))
  | .bool true => .of_plain (List.all_eq_true.mp (by decide))
  | .bool false => .of_plain (List.all_eq_true.mp (by decide))
  | .num n => kept_literal n
  | .str s => kept_string s
  | .arr xs => .cons (by decide) ((kept_list (kept_marshalList xs)).append (.cons (by decide) .nil))
  | .obj ms => by
      rw [marshalTree_obj]
      refine .cons (by decide) (kept_members (fun m hm => kept_marshalMembers ms m ?_))
      exact mem_dedupLast ((List.mem_insertionSort nameLe).mp hm)

theorem kept_marshalList : ∀ xs : List Json, ∀ x ∈ xs, Kept (marshalTree x)
  | [], _, hx => nomatch hx
  | y :: ys, x, hx => by
      obtain heq | hx := List.mem_cons.mp hx
      · rw [heq]
        exact kept_marshalTree y
      · exact kept_marshalList ys x hx

theorem kept_marshalMembers : ∀ ms : List (String × Json), ∀ m ∈ ms, Kept (marshalTree m.2)
  | [], _, hm => nomatch hm
  | (k, y) :: ms, m, hm => by
      obtain heq | hm := List.mem_cons.mp hm
      · rw [heq]
        exact kept_marshalTree y
      · exact kept_marshalMembers ms m hm

end

theorem compactText_marshalTree (v : Json) : compactText false (marshalTree v) = marshalTree v := by
  have h := kept_marshalTree v []
  rwa [List.append_nil, compactText, List.append_nil] at h

end DurableEngine.Lib
