/-
  DurableEngine.Lib.Source

  JSON documents as their texts spell them.

  A string of a text may hold half of a surrogate pair, written as an escape.
  `encoding/json` reads it as the replacement character, so documents of
  different values can be read alike, and two names of one object can become
  one.  The value of a source keeps the halves; what `encoding/json` reads of
  it is a `Json`.
-/

import DurableEngine.Lib.Decimal
import DurableEngine.Lib.PythonText

namespace DurableEngine.Lib

/-- A document whose strings are the code points of their characters and escapes. -/
inductive SourceTree where
  | null
  | bool (b : Bool)
  | num (n : JsonNumber)
  | str (s : PyStr)
  | arr (xs : List SourceTree)
  | obj (ms : List (PyStr × SourceTree))

-- ============================================================================
-- Strings
-- ============================================================================

namespace PyStr

/-- A character is read for each code point, those of a surrogate pair counted as one. -/
theorem chars_eq_map_joined (s : PyStr) : s.chars = s.joined.map CodePoint.char := by
  fun_induction joined s with
  | case1 => rfl
  | case2 p => rfl
  | case3 p q s hpair ih =>
      have hvals := hpair
      rw [Bool.and_eq_true, CodePoint.isHigh_iff, CodePoint.isLow_iff] at hvals
      have hval : (p.pairPoint q).val = 0x10000 + (p.val - 0xd800) * 1024 + (q.val - 0xdc00) :=
        Nat.mod_eq_of_lt (by omega)
      have hplain : (p.pairPoint q).isSurrogate = false :=
        Bool.eq_false_iff.mpr (fun h => by rw [CodePoint.isSurrogate_iff, hval] at h; omega)
      have hchar : (p.pairPoint q).char = p.pairChar q := by
        rw [CodePoint.char, if_neg (by rw [hplain]; exact Bool.false_ne_true), hval, CodePoint.pairChar]
      rw [chars, if_pos hpair, List.map_cons, ih, hchar]
  | case4 p q s hpair ih => rw [chars, if_neg hpair, List.map_cons, ih]

/-- A string without half a pair is read as it is. -/
theorem ofString_read {s : PyStr} (h : s.joined.encodable = true) : ofString s.read = s.joined := by
  refine List.map_injective_iff.mpr Fin.val_injective ?_
  rw [ofString, read, String.toList_ofList, chars_eq_map_joined, List.map_map, List.map_map]
  refine List.map_congr_left (fun p hp => ?_)
  have hplain : p.isSurrogate = false := by simpa using List.all_eq_true.mp h p hp
  have hvalid : p.val.isValidChar := by
    have hlt := p.isLt
    have hnot : ¬ (0xd800 ≤ p.val ∧ p.val < 0xe000) := fun hs =>
      Bool.eq_false_iff.mp hplain (CodePoint.isSurrogate_iff.mpr hs)
    unfold Nat.isValidChar
    omega
  simp only [Function.comp_apply, CodePoint.char, hplain, Bool.false_eq_true, if_false]
  exact toNat_ofNat hvalid

theorem read_eq_iff {s : PyStr} (h : s.joined.encodable = true) {t : String} :
    s.read = t ↔ s.joined = ofString t := by
  constructor
  · rintro rfl
    exact (ofString_read h).symm
  · intro heq
    rw [← read_ofString t, ← heq, ← ofString_read h, read_ofString]

end PyStr

-- ============================================================================
-- Documents
-- ============================================================================

namespace SourceTree

mutual

/-- What `encoding/json` reads. -/
def read : SourceTree → Json
  | .null => .null
  | .bool b => .bool b
  | .num n => .num n
  | .str s => .str s.read
  | .arr xs => .arr (readList xs)
  | .obj ms => .obj (readMembers ms)

def readList : List SourceTree → List Json
  | [] => []
  | x :: xs => read x :: readList xs

def readMembers : List (PyStr × SourceTree) → List (String × Json)
  | [] => []
  | (k, x) :: ms => (k.read, read x) :: readMembers ms

end

mutual

/-- What the document means: numbers count exactly, members as a map. -/
def value : SourceTree → JsonValue PyStr ℚ
  | .null => .null
  | .bool b => .bool b
  | .num n => .num n.value
  | .str s => .str s.joined
  | .arr xs => .arr (valueList xs)
  | .obj ms => .obj (lastBinding (valueMembers ms))

def valueList : List SourceTree → List (JsonValue PyStr ℚ)
  | [] => []
  | x :: xs => value x :: valueList xs

def valueMembers : List (PyStr × SourceTree) → List (PyStr × JsonValue PyStr ℚ)
  | [] => []
  | (k, x) :: ms => (k.joined, value x) :: valueMembers ms

end

mutual

/-- No string, member names included, holds half a surrogate pair. -/
def paired : SourceTree → Bool
  | .null | .bool _ | .num _ => true
  | .str s => s.joined.encodable
  | .arr xs => pairedList xs
  | .obj ms => pairedMembers ms

def pairedList : List SourceTree → Bool
  | [] => true
  | x :: xs => paired x && pairedList xs

def pairedMembers : List (PyStr × SourceTree) → Bool
  | [] => true
  | (k, x) :: ms => k.joined.encodable && paired x && pairedMembers ms

end

mutual

/-- The spelling of a document that is stored. -/
def ofJson : Json → SourceTree
  | .null => .null
  | .bool b => .bool b
  | .num n => .num n
  | .str s => .str (PyStr.ofString s)
  | .arr xs => .arr (ofJsonList xs)
  | .obj ms => .obj (ofJsonMembers ms)

def ofJsonList : List Json → List SourceTree
  | [] => []
  | x :: xs => ofJson x :: ofJsonList xs

def ofJsonMembers : List (String × Json) → List (PyStr × SourceTree)
  | [] => []
  | (k, x) :: ms => (PyStr.ofString k, ofJson x) :: ofJsonMembers ms

end

mutual

@[simp] theorem read_ofJson : ∀ v : Json, read (ofJson v) = v
  | .null => rfl
  | .bool _ => rfl
  | .num _ => rfl
  | .str s => congrArg JsonTree.str (PyStr.read_ofString s)
  | .arr xs => congrArg JsonTree.arr (readList_ofJsonList xs)
  | .obj ms => congrArg JsonTree.obj (readMembers_ofJsonMembers ms)

theorem readList_ofJsonList : ∀ xs : List Json, readList (ofJsonList xs) = xs
  | [] => rfl
  | x :: xs => by rw [ofJsonList, readList, read_ofJson x, readList_ofJsonList xs]

theorem readMembers_ofJsonMembers : ∀ ms : List (String × Json), readMembers (ofJsonMembers ms) = ms
  | [] => rfl
  | (k, x) :: ms => by
      rw [ofJsonMembers, readMembers, read_ofJson x, readMembers_ofJsonMembers ms, PyStr.read_ofString]

end

/-- The documents mean the same. -/
def SameValue (x y : SourceTree) : Prop := x.value = y.value

/-- The documents become the same when their numbers are rounded to `float64` and half a surrogate pair
    is read as the replacement character. -/
def Alike (x y : SourceTree) : Prop := Json.RoundsAlike x.read y.read

/-- The comparison goes wrong.  The documents have one value, but one of them cannot be unmarshalled or
    they are read differently; or they can be unmarshalled, and what tells them apart is lost. -/
def Confused (x y : SourceTree) : Prop :=
  SameValue x y ∧ (Json.Unreadable x.read ∨ Json.Unreadable y.read ∨ ¬ Alike x y) ∨
    ¬ SameValue x y ∧ Alike x y ∧ ¬ Json.Unreadable x.read ∧ ¬ Json.Unreadable y.read

/-- `jsonEqual` compares the values unless reading confuses them. -/
theorem jsonEqual_exact_iff (x y : SourceTree) :
    (Json.jsonEqual x.read y.read = true ↔ SameValue x y) ↔ ¬ Confused x y := by
  rw [Json.jsonEqual_eq_true_iff, Confused, Alike]
  tauto

-- ============================================================================
-- Documents without half a pair
-- ============================================================================

/-- Without half a pair, a name is bound as it is read. -/
theorem lastBinding_readMembers {ms : List (PyStr × SourceTree)} (h : pairedMembers ms = true) (k : String) :
    (lastBinding (readMembers ms) k = none ∧ lastBinding (valueMembers ms) (PyStr.ofString k) = none) ∨
      ∃ m ∈ ms, lastBinding (readMembers ms) k = some m.2.read ∧
        lastBinding (valueMembers ms) (PyStr.ofString k) = some m.2.value ∧ m.2.paired = true := by
  induction ms with
  | nil => exact .inl ⟨rfl, rfl⟩
  | cons m ms ih =>
      obtain ⟨l, x⟩ := m
      simp only [pairedMembers, Bool.and_eq_true] at h
      obtain ⟨⟨hl, hx⟩, hms⟩ := h
      simp only [readMembers, valueMembers, lastBinding, PyStr.read_eq_iff hl]
      obtain ⟨hread, hvalue⟩ | ⟨m, hm, hread, hvalue, hpaired⟩ := ih hms
      · rw [hread, hvalue, Option.none_or, Option.none_or]
        split
        · exact .inr ⟨(l, x), List.mem_cons_self, rfl, rfl, hx⟩
        · exact .inl ⟨rfl, rfl⟩
      · rw [hread, hvalue]
        exact .inr ⟨m, List.mem_cons_of_mem _ hm, rfl, rfl, hpaired⟩

mutual

/-- Documents without half a pair that mean the same are read as documents that mean the same. -/
theorem denote_read_eq : ∀ x y : SourceTree, x.paired = true → y.paired = true → x.value = y.value →
    x.read.denote JsonNumber.value = y.read.denote JsonNumber.value
  | .null, y, _, _, h => by cases y <;> simp_all [value, read]
  | .bool b, y, _, _, h => by cases y <;> simp_all [value, read]
  | .num n, y, _, _, h => by cases y <;> simp_all [value, read, JsonTree.denote]
  | .str s, y, hx, hy, h => by
      cases y with
      | str t =>
          have hread : s.read = t.read := by
            rw [PyStr.read_eq_iff hx, PyStr.ofString_read hy]
            exact JsonValue.str.inj h
          rw [read, read, hread]
      | null | bool | num | arr | obj => simp [value] at h
  | .arr xs, y, hx, hy, h => by
      cases y with
      | arr ys => exact congrArg JsonValue.arr (denoteList_read_eq xs ys hx hy (JsonValue.arr.inj h))
      | null | bool | num | str | obj => simp [value] at h
  | .obj ms, y, hx, hy, h => by
      cases y with
      | obj ns =>
          refine JsonTree.denote_obj_eq_iff.mpr (fun k => ?_)
          have hk := congrFun (JsonValue.obj.inj h) (PyStr.ofString k)
          obtain ⟨hread, hvalue⟩ | ⟨m, hm, hread, hvalue, hpaired⟩ := lastBinding_readMembers hx k
          · obtain ⟨hread', -⟩ | ⟨n, -, -, hvalue', -⟩ := lastBinding_readMembers hy k
            · rw [hread, hread']
            · rw [hvalue, hvalue'] at hk
              cases hk
          · obtain ⟨-, hvalue'⟩ | ⟨n, -, hread', hvalue', hpaired'⟩ := lastBinding_readMembers hy k
            · rw [hvalue, hvalue'] at hk
              cases hk
            · rw [hvalue, hvalue'] at hk
              rw [hread, hread']
              exact congrArg some (denoteMembers_read_eq ms m hm n.2 hpaired hpaired' (Option.some.inj hk))
      | null | bool | num | str | arr => simp [value] at h

theorem denoteList_read_eq : ∀ xs ys : List SourceTree, pairedList xs = true → pairedList ys = true →
    valueList xs = valueList ys →
    JsonTree.denoteList JsonNumber.value (readList xs) = JsonTree.denoteList JsonNumber.value (readList ys)
  | [], [], _, _, _ => rfl
  | x :: xs, y :: ys, hx, hy, h => by
      simp only [pairedList, Bool.and_eq_true] at hx hy
      simp only [valueList, List.cons.injEq] at h
      simp only [readList, JsonTree.denoteList, denote_read_eq x y hx.1 hy.1 h.1,
        denoteList_read_eq xs ys hx.2 hy.2 h.2]
  | [], _ :: _, _, _, h => by simp [valueList] at h
  | _ :: _, [], _, _, h => by simp [valueList] at h

theorem denoteMembers_read_eq : ∀ ms : List (PyStr × SourceTree), ∀ m ∈ ms, ∀ y : SourceTree,
    m.2.paired = true → y.paired = true → m.2.value = y.value →
    m.2.read.denote JsonNumber.value = y.read.denote JsonNumber.value
  | [], _, hm => absurd hm List.not_mem_nil
  | (k, x) :: ms, m, hm => by
      obtain rfl | hm := List.mem_cons.mp hm
      · exact denote_read_eq x
      · exact denoteMembers_read_eq ms m hm

end

/-- Only half a pair makes documents of one value be read differently. -/
theorem SameValue.alike {x y : SourceTree} (hx : x.paired = true) (hy : y.paired = true)
    (h : SameValue x y) : Alike x y :=
  Json.SameValue.roundsAlike (denote_read_eq x y hx hy h)

end SourceTree

end DurableEngine.Lib
