/-
  DurableEngine.Lib.Regex

  Regular expressions as a backtracking matcher reads them.

  An expression answers, at a place of a text, with the lengths of its matches
  in order of preference.  `sub` replaces the first preferred match at each
  place the scan stops at, `findAll` collects the same matches.

  `sub_clear` says when a replaced text holds no match: a match can neither
  enter a replacement nor lie inside of one, so it lies between two of them,
  where the text is the old one and every boundary of the new text is a
  boundary of the old.
-/

import Mathlib

namespace DurableEngine.Lib

/-- A regular expression; `run` is a greedy repetition of one symbol class. -/
inductive Regex (α : Type) where
  | run (p : α → Bool) (least : Nat) (most : Option Nat)
  | seq (r s : Regex α)
  | alt (r s : Regex α)
  | boundary

namespace Regex

variable {α : Type}

/-- One symbol of a class. -/
def one (p : α → Bool) : Regex α := .run p 1 (some 1)

def empty : Regex α := .run (fun _ => false) 0 (some 0)

/-- A fixed text. -/
def literal [DecidableEq α] : List α → Regex α
  | [] => empty
  | c :: w => .seq (one (fun x => decide (x = c))) (literal w)

/-- `(?:r){n}` -/
def times : Nat → Regex α → Regex α
  | 0, _ => empty
  | n + 1, r => .seq r (times n r)

/-- `\b r \b` -/
def whole (r : Regex α) : Regex α := .seq .boundary (.seq r .boundary)

-- ============================================================================
-- Matching at a place
-- ============================================================================

/-- The symbol before the place `n` symbols further. -/
def before (prev : Option α) (cs : List α) (n : Nat) : Option α := (cs.take n).getLast?.or prev

/-- Exactly one of the two neighbours of the place is a word symbol. -/
def isBoundary (word : α → Bool) (prev next : Option α) : Bool := prev.any word != next.any word

/-- The lengths of the matches at a place, the preferred one first. -/
def ends (word : α → Bool) : Regex α → Option α → List α → List Nat
  | .run p least most, _, cs =>
      let longest := (cs.takeWhile p).length
      let longest := match most with
        | some most => min most longest
        | none => longest
      (List.range' least (longest + 1 - least)).reverse
  | .seq r s, prev, cs =>
      (ends word r prev cs).flatMap fun n => (ends word s (before prev cs n) (cs.drop n)).map (n + ·)
  | .alt r s, prev, cs => ends word r prev cs ++ ends word s prev cs
  | .boundary, prev, cs => if isBoundary word prev cs.head? then [0] else []

/-- The fewest symbols a match has. -/
def fewest : Regex α → Nat
  | .run _ least _ => least
  | .seq r s => r.fewest + s.fewest
  | .alt r s => min r.fewest s.fewest
  | .boundary => 0

/-- The symbols a match is made of. -/
def Uses : Regex α → α → Prop
  | .run p _ _, c => p c = true
  | .seq r s, c => r.Uses c ∨ s.Uses c
  | .alt r s, c => r.Uses c ∨ s.Uses c
  | .boundary, _ => False

/-- Every match holds a symbol of the class. -/
def Needs (m : α → Prop) : Regex α → Prop
  | .run p least _ => 0 < least ∧ ∀ c, p c = true → m c
  | .seq r s => r.Needs m ∨ s.Needs m
  | .alt r s => r.Needs m ∧ s.Needs m
  | .boundary => False

variable {word : α → Bool} {r s : Regex α} {prev : Option α} {cs : List α} {n : Nat}

theorem uses_literal [DecidableEq α] {w : List α} {c : α} (h : (literal w).Uses c) : c ∈ w := by
  induction w with
  | nil => exact absurd h (by simp [literal, empty, Uses])
  | cons d w ih =>
      apply h.elim
      · intro hd
        rw [of_decide_eq_true hd]
        exact List.mem_cons_self
      · exact fun hw => List.mem_cons_of_mem d (ih hw)

theorem uses_times {c : α} {n : Nat} (h : (times n r).Uses c) : r.Uses c := by
  induction n with
  | zero => exact absurd h (by simp [times, empty, Uses])
  | succ n ih =>
      apply h.elim
      · exact id
      · exact ih

theorem needs_one {m : α → Prop} {p : α → Bool} (h : ∀ c, p c = true → m c) : (one p).Needs m :=
  ⟨Nat.one_pos, h⟩

theorem before_zero : before prev cs 0 = prev := by simp [before]

theorem before_cons (c : α) (n : Nat) : before prev (c :: cs) (n + 1) = before (some c) cs n := by
  cases cs with
  | nil => simp [before]
  | cons d cs =>
      cases n with
      | zero => simp [before]
      | succ n =>
          simp only [before, List.take_succ_cons, List.getLast?_cons_cons]
          cases h : (d :: cs.take n).getLast? with
          | none => simp at h
          | some x => rfl

theorem before_add (n k : Nat) : before (before prev cs n) (cs.drop n) k = before prev cs (n + k) := by
  simp only [before, List.take_add, List.getLast?_append, Option.or_assoc]

theorem mem_ends_run {p : α → Bool} {least : Nat} {most : Option Nat} :
    n ∈ ends word (.run p least most) prev cs ↔
      least ≤ n ∧ (∀ m ∈ most, n ≤ m) ∧ n ≤ (cs.takeWhile p).length := by
  cases most with
  | none =>
      change n ∈ (List.range' least ((cs.takeWhile p).length + 1 - least)).reverse ↔ _
      simp only [List.mem_reverse, List.mem_range'_1, Option.mem_def, reduceCtorEq, false_implies,
        implies_true, true_and]
      omega
  | some m =>
      change n ∈ (List.range' least (min m (cs.takeWhile p).length + 1 - least)).reverse ↔ _
      simp only [List.mem_reverse, List.mem_range'_1, Option.mem_def, Option.some.injEq, forall_eq']
      omega

theorem le_takeWhile_iff {p : α → Bool} :
    n ≤ (cs.takeWhile p).length ↔ (cs.take n).length = n ∧ ∀ c ∈ cs.take n, p c = true := by
  induction cs generalizing n with
  | nil =>
      simp only [List.takeWhile_nil, List.length_nil, List.take_nil, List.not_mem_nil, false_implies,
        implies_true, and_true]
      omega
  | cons c cs ih =>
      cases n with
      | zero => simp
      | succ n =>
          simp only [List.take_succ_cons, List.length_cons, List.mem_cons, forall_eq_or_imp]
          by_cases hc : p c = true
          · simp only [List.takeWhile_cons_of_pos hc, List.length_cons, Nat.add_le_add_iff_right, ih, hc, true_and,
              Nat.add_right_cancel_iff]
          · simp only [List.takeWhile_cons_of_neg hc, List.length_nil, hc]
            simp

theorem mem_ends_seq :
    n ∈ ends word (.seq r s) prev cs ↔
      ∃ k ∈ ends word r prev cs, ∃ l ∈ ends word s (before prev cs k) (cs.drop k), k + l = n := by
  change n ∈ (ends word r prev cs).flatMap
    (fun k => (ends word s (before prev cs k) (cs.drop k)).map (k + ·)) ↔ _
  simp only [List.mem_flatMap, List.mem_map]

theorem mem_ends_alt :
    n ∈ ends word (.alt r s) prev cs ↔ n ∈ ends word r prev cs ∨ n ∈ ends word s prev cs :=
  List.mem_append

theorem mem_ends_boundary :
    n ∈ ends word .boundary prev cs ↔ isBoundary word prev cs.head? = true ∧ n = 0 := by
  change n ∈ (if isBoundary word prev cs.head? then [0] else []) ↔ _
  split <;> simp_all

theorem le_of_mem_ends (h : n ∈ ends word r prev cs) : n ≤ cs.length := by
  induction r generalizing prev cs n with
  | run p least most =>
      have hn := (mem_ends_run.mp h).2.2
      have hlen := (List.takeWhile_sublist p (l := cs)).length_le
      omega
  | seq r s ihr ihs =>
      obtain ⟨k, hk, l, hl, rfl⟩ := mem_ends_seq.mp h
      have hr := ihr hk
      have hs := ihs hl
      simp only [List.length_drop] at hs
      omega
  | alt r s ihr ihs =>
      apply (mem_ends_alt.mp h).elim
      · exact ihr
      · exact ihs
  | boundary =>
      have hn := (mem_ends_boundary.mp h).2
      omega

theorem fewest_le (h : n ∈ ends word r prev cs) : r.fewest ≤ n := by
  induction r generalizing prev cs n with
  | run p least most => exact (mem_ends_run.mp h).1
  | seq r s ihr ihs =>
      obtain ⟨k, hk, l, hl, rfl⟩ := mem_ends_seq.mp h
      have hr := ihr hk
      have hs := ihs hl
      show r.fewest + s.fewest ≤ k + l
      omega
  | alt r s ihr ihs =>
      show min r.fewest s.fewest ≤ n
      apply (mem_ends_alt.mp h).elim
      · intro h
        have hr := ihr h
        omega
      · intro h
        have hs := ihs h
        omega
  | boundary => exact Nat.zero_le n

/-- A match is made of the symbols of its classes. -/
theorem uses_of_mem (h : n ∈ ends word r prev cs) : ∀ c ∈ cs.take n, r.Uses c := by
  induction r generalizing prev cs n with
  | run p least most =>
      exact (le_takeWhile_iff.mp (mem_ends_run.mp h).2.2).2
  | seq r s ihr ihs =>
      obtain ⟨k, hk, l, hl, rfl⟩ := mem_ends_seq.mp h
      intro c hc
      rw [List.take_add] at hc
      apply (List.mem_append.mp hc).elim
      · exact fun hc => Or.inl (ihr hk c hc)
      · exact fun hc => Or.inr (ihs hl c hc)
  | alt r s ihr ihs =>
      intro c hc
      apply (mem_ends_alt.mp h).elim
      · exact fun h => Or.inl (ihr h c hc)
      · exact fun h => Or.inr (ihs h c hc)
  | boundary =>
      intro c hc
      rw [(mem_ends_boundary.mp h).2] at hc
      simp at hc

/-- A match of an expression that needs a class holds a symbol of it. -/
theorem exists_of_needs {m : α → Prop} (hr : r.Needs m) (h : n ∈ ends word r prev cs) :
    ∃ c ∈ cs.take n, m c := by
  induction r generalizing prev cs n with
  | run p least most =>
      have hpos : 0 < n := Nat.lt_of_lt_of_le hr.1 (mem_ends_run.mp h).1
      have hlen := le_of_mem_ends h
      have hmem : cs[0] ∈ cs.take n := by
        rw [List.mem_take_iff_getElem]
        exact ⟨0, by omega, rfl⟩
      exact ⟨cs[0], hmem, hr.2 _ (uses_of_mem h _ hmem)⟩
  | seq r s ihr ihs =>
      obtain ⟨k, hk, l, hl, rfl⟩ := mem_ends_seq.mp h
      rw [List.take_add]
      apply hr.elim
      · intro hr
        obtain ⟨c, hc, hm⟩ := ihr hr hk
        exact ⟨c, List.mem_append.mpr (Or.inl hc), hm⟩
      · intro hs
        obtain ⟨c, hc, hm⟩ := ihs hs hl
        exact ⟨c, List.mem_append.mpr (Or.inr hc), hm⟩
  | alt r s ihr ihs =>
      apply (mem_ends_alt.mp h).elim
      · exact ihr hr.1
      · exact ihs hr.2
  | boundary => exact hr.elim

theorem mem_ends_whole :
    n ∈ ends word (whole r) prev cs ↔
      isBoundary word prev cs.head? = true ∧ n ∈ ends word r prev cs ∧
        isBoundary word (before prev cs n) (cs.drop n).head? = true := by
  constructor
  · intro h
    obtain ⟨k, hk, l, hl, rfl⟩ := mem_ends_seq.mp h
    obtain ⟨hb, rfl⟩ := mem_ends_boundary.mp hk
    rw [before_zero, List.drop_zero] at hl
    obtain ⟨i, hi, j, hj, rfl⟩ := mem_ends_seq.mp hl
    obtain ⟨he, rfl⟩ := mem_ends_boundary.mp hj
    simp only [Nat.zero_add, Nat.add_zero]
    exact ⟨hb, hi, he⟩
  · rintro ⟨hb, hr, he⟩
    refine mem_ends_seq.mpr ⟨0, mem_ends_boundary.mpr ⟨hb, rfl⟩, n, ?_, Nat.zero_add n⟩
    rw [before_zero, List.drop_zero]
    exact mem_ends_seq.mpr ⟨n, hr, 0, mem_ends_boundary.mpr ⟨he, rfl⟩, rfl⟩

-- ============================================================================
-- A match is read again where the text and the boundaries are the same
-- ============================================================================

theorem mem_ends_of_agrees {prev' : Option α} {cs' : List α} {m : Nat} (h : n ∈ ends word r prev' cs')
    (hn : n ≤ m) (htake : cs'.take m = cs.take m)
    (hbound : ∀ k ≤ m, isBoundary word (before prev' cs' k) (cs'.drop k).head? = true →
      isBoundary word (before prev cs k) (cs.drop k).head? = true) :
    n ∈ ends word r prev cs := by
  induction r generalizing prev' cs' prev cs n m with
  | run p least most =>
      obtain ⟨hleast, hmost, hlen⟩ := mem_ends_run.mp h
      have heq : cs'.take n = cs.take n := by
        have htake := congrArg (List.take n) htake
        rwa [List.take_take, List.take_take, Nat.min_eq_left hn] at htake
      refine mem_ends_run.mpr ⟨hleast, hmost, ?_⟩
      rw [le_takeWhile_iff, ← heq]
      exact le_takeWhile_iff.mp hlen
  | seq r s ihr ihs =>
      obtain ⟨k, hk, l, hl, rfl⟩ := mem_ends_seq.mp h
      refine mem_ends_seq.mpr ⟨k, ihr hk (by omega) htake hbound, l, ?_, rfl⟩
      apply ihs hl (m := m - k) (by omega)
      · rw [List.take_drop, List.take_drop, show k + (m - k) = m by omega, htake]
      · intro i hi
        simp only [before_add, List.drop_drop]
        exact hbound (k + i) (by omega)
  | alt r s ihr ihs =>
      apply (mem_ends_alt.mp h).elim
      · exact fun h => mem_ends_alt.mpr (Or.inl (ihr h hn htake hbound))
      · exact fun h => mem_ends_alt.mpr (Or.inr (ihs h hn htake hbound))
  | boundary =>
      obtain ⟨hb, rfl⟩ := mem_ends_boundary.mp h
      have hzero := hbound 0 (Nat.zero_le m)
      simp only [before_zero, List.drop_zero] at hzero
      exact mem_ends_boundary.mpr ⟨hzero hb, rfl⟩

-- ============================================================================
-- Scanning a text
-- ============================================================================

/-- `re.sub`, for an expression without empty matches; `skip` symbols are still
    part of the last match. -/
def sub (word : α → Bool) (r : Regex α) (rep : List α) : Nat → Option α → List α → List α
  | _, _, [] => []
  | skip + 1, _, c :: cs => sub word r rep skip (some c) cs
  | 0, prev, c :: cs =>
      match ends word r prev (c :: cs) with
      | [] => c :: sub word r rep 0 (some c) cs
      | n :: _ => rep ++ sub word r rep (n - 1) (some c) cs

/-- `re.findall`, for an expression without empty matches. -/
def findAll (word : α → Bool) (r : Regex α) : Nat → Option α → List α → List (List α)
  | _, _, [] => []
  | skip + 1, _, c :: cs => findAll word r skip (some c) cs
  | 0, prev, c :: cs =>
      match ends word r prev (c :: cs) with
      | [] => findAll word r 0 (some c) cs
      | n :: _ => (c :: cs).take n :: findAll word r (n - 1) (some c) cs

/-- No match begins at any place from here on. -/
def Clear (word : α → Bool) (r : Regex α) (prev : Option α) (cs : List α) : Prop :=
  ∀ k, ends word r (before prev cs k) (cs.drop k) = []

theorem clear_cons {c : α} (h : ends word r prev (c :: cs) = []) (hcs : Clear word r (some c) cs) :
    Clear word r prev (c :: cs) := by
  intro k
  cases k with
  | zero => rwa [before_zero, List.drop_zero]
  | succ k => rw [before_cons, List.drop_succ_cons]; exact hcs k

theorem Clear.here {c : α} (h : Clear word r prev (c :: cs)) : ends word r prev (c :: cs) = [] := by
  have h0 := h 0
  rwa [before_zero, List.drop_zero] at h0

theorem Clear.tail {c : α} (h : Clear word r prev (c :: cs)) : Clear word r (some c) cs := by
  intro k
  have hk := h (k + 1)
  rwa [before_cons, List.drop_succ_cons] at hk

theorem findAll_of_clear (h : Clear word r prev cs) : findAll word r 0 prev cs = [] := by
  induction cs generalizing prev with
  | nil => rfl
  | cons c cs ih =>
      unfold findAll
      rw [h.here]
      exact ih h.tail

/-- The scan finds a match if the text holds one. -/
theorem clear_of_findAll (hr : 0 < r.fewest) (h : findAll word r 0 prev cs = []) : Clear word r prev cs := by
  induction cs generalizing prev with
  | nil =>
      intro k
      apply List.eq_nil_iff_forall_not_mem.mpr
      intro n hn
      have hle := le_of_mem_ends hn
      have hpos := fewest_le hn
      simp only [List.drop_nil, List.length_nil] at hle
      omega
  | cons c cs ih =>
      unfold findAll at h
      cases hends : ends word r prev (c :: cs) with
      | nil =>
          rw [hends] at h
          exact clear_cons hends (ih h)
      | cons n ns =>
          rw [hends] at h
          exact absurd h (by simp)

theorem sub_skip {rep : List α} (k : Nat) (prev : Option α) (cs : List α) :
    sub word r rep k prev cs = sub word r rep 0 (before prev cs k) (cs.drop k) := by
  induction cs generalizing prev k with
  | nil => rw [List.drop_nil]; unfold sub; rfl
  | cons c cs ih =>
      cases k with
      | zero => rw [before_zero, List.drop_zero]
      | succ k =>
          rw [before_cons, List.drop_succ_cons, ← ih k (some c)]
          rfl

theorem sub_of_match {rep ns} (h : ends word r prev cs = n :: ns) (hn : 0 < n) :
    sub word r rep 0 prev cs = rep ++ sub word r rep 0 (before prev cs n) (cs.drop n) := by
  have hle : n ≤ cs.length := le_of_mem_ends (h ▸ List.mem_cons_self)
  cases cs with
  | nil => simp only [List.length_nil] at hle; omega
  | cons c cs =>
      obtain ⟨n, rfl⟩ : ∃ m, n = m + 1 := ⟨n - 1, by omega⟩
      conv_lhs => unfold sub
      rw [h, before_cons, List.drop_succ_cons]
      show rep ++ sub word r rep n (some c) cs = _
      rw [sub_skip n]

variable (word prev cs) in
/-- The replaced text goes on as the old one up to the next match. -/
theorem sub_stretch (rep : List α) (hr : 0 < r.fewest) :
    ∃ kept rest rest', cs = kept ++ rest ∧ sub word r rep 0 prev cs = kept ++ rest' ∧
      ((rest = [] ∧ rest' = []) ∨
        ∃ n ∈ ends word r (before prev cs kept.length) rest, ∃ out, rest' = rep ++ out) := by
  induction cs generalizing prev with
  | nil => exact ⟨[], [], [], rfl, rfl, Or.inl ⟨rfl, rfl⟩⟩
  | cons c cs ih =>
      cases h : ends word r prev (c :: cs) with
      | nil =>
          obtain ⟨kept, rest, rest', hcs, hout, hrest⟩ := ih (some c)
          refine ⟨c :: kept, rest, rest', by rw [hcs]; rfl, ?_, ?_⟩
          · unfold sub
            rw [h]
            show c :: _ = c :: _
            rw [hout]
            rfl
          · rw [List.length_cons, before_cons]
            exact hrest
      | cons n ns =>
          have hmem : n ∈ ends word r prev (c :: cs) := h ▸ List.mem_cons_self
          have hn : 0 < n := Nat.lt_of_lt_of_le hr (fewest_le hmem)
          refine ⟨[], c :: cs, _, rfl, sub_of_match h hn, Or.inr ⟨n, ?_, _, rfl⟩⟩
          rw [List.length_nil, before_zero]
          exact hmem

-- ============================================================================
-- A replaced text without a match
-- ============================================================================

/-- No match enters a replacement of these parts or lies between its ends. -/
structure Bars (opening : α) (middle : List α) (closing : α) (q : Regex α) : Prop where
  opening : ¬ q.Uses opening
  closing : ¬ q.Uses closing
  middle : ∃ m : α → Prop, q.Needs m ∧ ∀ c ∈ middle, ¬ m c

/-- No match begins before a symbol it does not use when the symbols up to there
    lack what it needs. -/
theorem no_match_before {m : α → Prop} {w rest : List α} {e : α} (hm : r.Needs m) (hw : ∀ c ∈ w, ¬ m c)
    (he : ¬ r.Uses e) : ends word r prev (w ++ e :: rest) = [] := by
  apply List.eq_nil_iff_forall_not_mem.mpr
  intro n hn
  obtain ⟨c, hc, hmc⟩ := exists_of_needs hm hn
  by_cases hle : n ≤ w.length
  · rw [List.take_append_of_le_length hle] at hc
    exact hw c (List.mem_of_mem_take hc) hmc
  · apply he
    apply uses_of_mem hn
    rw [List.take_append, List.mem_append]
    right
    obtain ⟨k, hk⟩ : ∃ k, n - w.length = k + 1 := ⟨n - w.length - 1, by omega⟩
    rw [hk, List.take_succ_cons]
    exact List.mem_cons_self

theorem clear_replacement {o e : α} {mid rest : List α} (hbars : Bars o mid e r)
    (hrest : Clear word r (some e) rest) : Clear word r prev (o :: (mid ++ [e]) ++ rest) := by
  obtain ⟨m, hm, hmid⟩ := hbars.middle
  have hinner : ∀ (w : List α) (prev : Option α), (∀ c ∈ w, ¬ m c) → Clear word r prev (w ++ e :: rest) := by
    intro w
    induction w with
    | nil =>
        intro prev hw
        exact clear_cons (no_match_before (w := []) hm hw hbars.closing) hrest
    | cons c w ih =>
        intro prev hw
        apply clear_cons (no_match_before (w := c :: w) hm hw hbars.closing)
        exact ih (some c) fun x hx => hw x (List.mem_cons_of_mem _ hx)
  rw [List.cons_append, List.append_assoc]
  apply clear_cons (no_match_before (w := []) hm (by simp) hbars.opening)
  exact hinner mid (some o) hmid

theorem before_append {w a : List α} {prev' : Option α} (prev : Option α) (b : List α) (hn : 0 < n)
    (hw : n ≤ w.length) :
    before prev' (w ++ a) n = before prev (w ++ b) n := by
  simp only [before, List.take_append_of_le_length hw]
  cases h : (w.take n).getLast? with
  | some x => rfl
  | none =>
      have hnil := congrArg List.length (List.getLast?_eq_none_iff.mp h)
      rw [List.length_take, List.length_nil] at hnil
      omega

theorem head_drop_append {w a b : List α} (hn : n < w.length) :
    ((w ++ a).drop n).head? = ((w ++ b).drop n).head? := by
  rw [List.head?_drop, List.head?_drop, List.getElem?_append_left hn, List.getElem?_append_left hn]

/-- Where no match of `body` begins, the replaced text holds a match of `q` only
    if the old text does. -/
theorem mem_ends_of_sub {body q : Regex α} {o e c : α} {mid : List α} {prev' : Option α} (hbody : 0 < body.fewest)
    (hopening : ¬ q.Uses o)
    (hprev : prev' = prev ∨ isBoundary word prev (some c) = true)
    (hn : n ∈ ends word q prev' (c :: sub word (whole body) (o :: (mid ++ [e])) 0 (some c) cs)) :
    n ∈ ends word q prev (c :: cs) := by
  have hfew : 0 < (whole body).fewest := by
    show 0 < 0 + (body.fewest + 0)
    omega
  obtain ⟨kept, rest, rest', hcs, hout, hrest⟩ := sub_stretch word (some c) cs (o :: (mid ++ [e])) hfew
  rw [hout] at hn
  have hlast : n ≤ (c :: kept).length := by
    rcases hrest with ⟨-, rfl⟩ | ⟨-, -, out, rfl⟩
    · simpa using le_of_mem_ends hn
    · -- a longer match would use the opening of the replacement
      by_contra hlong
      apply hopening
      apply uses_of_mem hn
      obtain ⟨k, hk⟩ : ∃ k, n - (c :: kept).length = k + 1 := ⟨n - (c :: kept).length - 1, by omega⟩
      rw [← List.cons_append, List.take_append, List.mem_append, hk]
      right
      exact List.mem_cons_self
  rw [hcs]
  apply mem_ends_of_agrees hn hlast
  · rw [← List.cons_append, ← List.cons_append, List.take_left, List.take_left]
  · intro k hk hb
    rw [← List.cons_append] at hb ⊢
    by_cases hzero : k = 0
    · subst hzero
      rw [before_zero, List.drop_zero] at hb ⊢
      rcases hprev with rfl | hprev
      · exact hb
      · exact hprev
    by_cases hlt : k < (c :: kept).length
    · rwa [before_append prev rest (by omega) hk, head_drop_append (b := rest) hlt] at hb
    -- the kept text ends where the old text does or where a match of `body` begins
    obtain rfl : k = (c :: kept).length := by omega
    rcases hrest with ⟨rfl, rfl⟩ | ⟨l, hl, -⟩
    · rwa [before_append prev [] (by omega) hk] at hb
    · rw [List.drop_left, List.cons_append, List.length_cons, before_cons]
      have hbefore : before (some c) (kept ++ rest) kept.length = before (some c) cs kept.length := by rw [hcs]
      have hkept : before (some c) cs kept.length = before (some c) kept kept.length := by
        rw [hcs]
        cases kept with
        | nil => simp [before]
        | cons d kept => simp [before]
      rw [hbefore]
      have hwhole := (mem_ends_whole.mp hl).1
      exact hwhole

/-- A text in which the whole matches of `body` are replaced holds no match of
    `q`, if the old text held one at most where a match of `body` begins. -/
theorem clear_sub {body q : Regex α} {o e : α} {mid : List α} (hbody : 0 < body.fewest)
    (hbars : Bars o mid e q) (prev prev' : Option α) (cs : List α)
    (hold : ∀ k, ends word (whole body) (before prev cs k) (cs.drop k) = [] →
      ends word q (before prev cs k) (cs.drop k) = [])
    (hprev : prev' = prev ∨ isBoundary word prev cs.head? = true) :
    Clear word q prev' (sub word (whole body) (o :: (mid ++ [e])) 0 prev cs) := by
  have hfew : 0 < (whole body).fewest := by
    show 0 < 0 + (body.fewest + 0)
    omega
  induction hlen : cs.length using Nat.strongRecOn generalizing prev prev' cs with
  | ind len ih =>
      cases hends : ends word (whole body) prev cs with
      | cons n ns =>
          -- a match: the replacement, then the text behind the match
          have hmem : n ∈ ends word (whole body) prev cs := hends ▸ List.mem_cons_self
          have hn : 0 < n := Nat.lt_of_lt_of_le hfew (fewest_le hmem)
          have hle := le_of_mem_ends hmem
          rw [sub_of_match hends hn]
          apply clear_replacement hbars
          apply ih (cs.drop n).length
          · rw [List.length_drop]
            omega
          · intro k
            simp only [before_add, List.drop_drop]
            exact hold (n + k)
          · exact Or.inr (mem_ends_whole.mp hmem).2.2
          · rfl
      | nil =>
          obtain ⟨m, hm, hmid⟩ := hbars.middle
          cases cs with
          | nil =>
              intro k
              apply List.eq_nil_iff_forall_not_mem.mpr
              intro n hn
              obtain ⟨c, hc, -⟩ := exists_of_needs hm hn
              simp [sub] at hc
          | cons c cs =>
              have hsub : sub word (whole body) (o :: (mid ++ [e])) 0 prev (c :: cs) =
                  c :: sub word (whole body) (o :: (mid ++ [e])) 0 (some c) cs := by
                conv_lhs => unfold sub
                rw [hends]
              -- the old text holds no match here, and the new one reads as the old one
              have hhere : ends word q prev (c :: cs) = [] := by
                have h0 := hold 0
                rw [before_zero, List.drop_zero] at h0
                exact h0 hends
              rw [hsub]
              apply clear_cons
              · apply List.eq_nil_iff_forall_not_mem.mpr
                intro n hn
                have hold := mem_ends_of_sub hbody hbars.opening hprev hn
                rw [hhere] at hold
                exact absurd hold (by simp)
              · apply ih cs.length
                · rw [← hlen, List.length_cons]
                  omega
                · intro k
                  have hk := hold (k + 1)
                  rwa [before_cons, List.drop_succ_cons] at hk
                · exact Or.inl rfl
                · rfl

end Regex

end DurableEngine.Lib
