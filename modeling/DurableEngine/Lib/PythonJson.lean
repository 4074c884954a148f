/-
  DurableEngine.Lib.PythonJson

  `json.dumps` of a Python value, and what a decoder of standard JSON reads.

  The encoder writes `NaN` and `Infinity` for the floats that are not finite,
  names for the keys of a dict that are no strings, and raises for the rest.
  What it wrote is read as the value's document, and is not read at all when
  a float in it is not finite (`spells`).
-/

import DurableEngine.Lib.PythonText
import DurableEngine.Lib.Shape
import Mathlib

namespace DurableEngine.Lib

-- ============================================================================
-- Values
-- ============================================================================

/-- A float: finite with its `repr`, or not. -/
inductive PyFloat where
  | finite (literal : JsonNumber)
  | infinite (neg : Bool)
  | nan
deriving DecidableEq, Repr

/-- A key of a dict; `opaque` is one that the encoder has no name for. -/
inductive PyKey where
  | none
  | bool (b : Bool)
  | int (i : Int)
  | float (x : PyFloat)
  | str (s : PyStr)
  | other
deriving DecidableEq, Repr

/-- A value; `other` is an object that the encoder has no spelling for, or a container within itself. -/
inductive PyValue where
  | none
  | bool (b : Bool)
  | int (i : Int)
  | float (x : PyFloat)
  | str (s : PyStr)
  | list (xs : List PyValue)
  | dict (items : List (PyKey × PyValue))
  | other
deriving Repr

/-- The literal an integer prints as. -/
def JsonNumber.ofInt (i : Int) : JsonNumber := ⟨decide (i < 0), i.natAbs, 0, none⟩

/-- `float.__repr__`, with the encoder's names for the rest. -/
def PyFloat.text : PyFloat → List Char
  | .finite n => n.literal
  | .infinite neg => if neg then "-Infinity".toList else "Infinity".toList
  | .nan => "NaN".toList

/-- The name a key is written as. -/
def PyKey.name : PyKey → PyStr
  | .none => .ofString "null"
  | .bool b => .ofString (if b then "true" else "false")
  | .int i => .ofString (String.ofList (JsonNumber.ofInt i).literal)
  | .float x => .ofString (String.ofList x.text)
  | .str s => s
  | .other => []

-- ============================================================================
-- Order of keys
-- ============================================================================

/-- The number that a finite float is. -/
def Float64.rat (x : Float64) : ℚ := (if x.neg then -(x.mant : ℚ) else x.mant) * (2 : ℚ) ^ x.exp

/-- The place of a number among the numbers and the two infinities. -/
def PyKey.rank : PyKey → Option (ℤ ×ₗ ℚ)
  | .bool b => some (toLex (0, if b then 1 else 0))
  | .int i => some (toLex (0, i))
  | .float (.finite n) => some (toLex (0, n.toFloat.rat))
  | .float (.infinite neg) => some (toLex (if neg then -1 else 1, 0))
  | _ => Option.none

/-- Keys may stand in this order when a dict is sorted. -/
def PyKey.le (a b : PyKey) : Bool :=
  match a, b with
  | .str s, .str t => decide (s ≤ t)
  | a, b =>
      match a.rank, b.rank with
      | some x, some y => decide (x ≤ y)
      | _, _ => true

/-- `<` is defined between the keys: all of them strings, or all of them numbers. -/
def sortable (ks : List PyKey) : Bool :=
  decide (ks.length ≤ 1) || ks.all (fun k => match k with | .str _ => true | _ => false) ||
    ks.all (fun k => match k with | .bool _ | .int _ | .float _ => true | _ => false)

-- ============================================================================
-- The encoder
-- ============================================================================

/-- The arguments of `json.dumps`: whether it sorts keys, and what it puts after a comma and a colon. -/
structure Layout where
  sortKeys : Bool
  gap : List Char
  blank : gap.all isJsonSpace = true

/-- `separators=(",", ":")`. -/
def Layout.compact (sortKeys : Bool) : Layout := ⟨sortKeys, [], rfl⟩

/-- The default separators. -/
def Layout.spaced (sortKeys : Bool) : Layout := ⟨sortKeys, [' '], rfl⟩

/-- The items of a dict in the order they are written. -/
def Layout.arrange {α : Type} (L : Layout) (items : List (PyKey × α)) : List (PyKey × α) :=
  if L.sortKeys then items.insertionSort (fun a b => a.1.le b.1 = true) else items

/-- Texts with commas between them. -/
def Layout.join (L : Layout) : List (List Char) → List Char
  | [] => []
  | [t] => t
  | t :: u :: ts => t ++ ',' :: (L.gap ++ L.join (u :: ts))

def Layout.item (L : Layout) (m : PyKey × List Char) : List Char := m.1.name.quoted ++ ':' :: (L.gap ++ m.2)

namespace PyValue

mutual

/-- The text of a value that the encoder has a spelling for. -/
def text (L : Layout) : PyValue → List Char
  | .none => "null".toList
  | .bool b => if b then "true".toList else "false".toList
  | .int i => (JsonNumber.ofInt i).literal
  | .float x => x.text
  | .str s => s.quoted
  | .list xs => '[' :: (L.join (textList L xs) ++ [']'])
  | .dict items => '\x7b' :: (L.join ((L.arrange (textItems L items)).map L.item) ++ ['\x7d'])
  | .other => []

def textList (L : Layout) : List PyValue → List (List Char)
  | [] => []
  | x :: xs => text L x :: textList L xs

def textItems (L : Layout) : List (PyKey × PyValue) → List (PyKey × List Char)
  | [] => []
  | (k, x) :: items => (k, text L x) :: textItems L items

end

/-- `sys.int_info.default_max_str_digits`. -/
def maxStrDigits : Nat := 4300

/-- `int.__repr__` raises nothing. -/
def printable (i : Int) : Bool := decide ((Nat.toDigits 10 i.natAbs).length ≤ maxStrDigits)

def namable : PyKey → Bool
  | .int i => printable i
  | .other => false
  | _ => true

mutual

/-- The encoder raises nothing, but for the depth of the value. -/
def encodes (sortKeys : Bool) : PyValue → Bool
  | .none | .bool _ | .float _ | .str _ => true
  | .int i => printable i
  | .list xs => encodesList sortKeys xs
  | .dict items => (!sortKeys || sortable (items.map Prod.fst)) && encodesItems sortKeys items
  | .other => false

def encodesList (sortKeys : Bool) : List PyValue → Bool
  | [] => true
  | x :: xs => encodes sortKeys x && encodesList sortKeys xs

def encodesItems (sortKeys : Bool) : List (PyKey × PyValue) → Bool
  | [] => true
  | (k, x) :: items => namable k && encodes sortKeys x && encodesItems sortKeys items

end

mutual

/-- How many lists and dicts are open at the deepest point. -/
def depth : PyValue → Nat
  | .list xs => depthList xs + 1
  | .dict items => depthItems items + 1
  | _ => 0

def depthList : List PyValue → Nat
  | [] => 0
  | x :: xs => max (depth x) (depthList xs)

def depthItems : List (PyKey × PyValue) → Nat
  | [] => 0
  | (_, x) :: items => max (depth x) (depthItems items)

end

/-- `json.dumps` where the interpreter allows `limit` containers within each other. -/
def dumps (L : Layout) (limit : Nat) (v : PyValue) : Option (List Char) :=
  if v.encodes L.sortKeys = true ∧ v.depth ≤ limit then some (v.text L) else Option.none

mutual

/-- `encode("utf-8")` accepts the text that is written with `ensure_ascii=False`. -/
def encodable : PyValue → Bool
  | .str s => s.encodable
  | .list xs => encodableList xs
  | .dict items => encodableItems items
  | _ => true

def encodableList : List PyValue → Bool
  | [] => true
  | x :: xs => encodable x && encodableList xs

def encodableItems : List (PyKey × PyValue) → Bool
  | [] => true
  | (k, x) :: items => k.name.encodable && encodable x && encodableItems items

end

-- ============================================================================
-- The document of a value
-- ============================================================================

mutual

/-- Every float is finite. -/
def finite : PyValue → Bool
  | .float (.finite _) => true
  | .float _ => false
  | .list xs => finiteList xs
  | .dict items => finiteItems items
  | _ => true

def finiteList : List PyValue → Bool
  | [] => true
  | x :: xs => finite x && finiteList xs

def finiteItems : List (PyKey × PyValue) → Bool
  | [] => true
  | (_, x) :: items => finite x && finiteItems items

end

def member (m : PyKey × Json) : String × Json := (m.1.name.read, m.2)

mutual

/-- The document that a value without other floats denotes. -/
def json (L : Layout) : PyValue → Json
  | .bool b => .bool b
  | .int i => .num (.ofInt i)
  | .float (.finite n) => .num n
  | .str s => .str s.read
  | .list xs => .arr (jsonList L xs)
  | .dict items => .obj ((L.arrange (jsonItems L items)).map member)
  | _ => .null

def jsonList (L : Layout) : List PyValue → List Json
  | [] => []
  | x :: xs => json L x :: jsonList L xs

def jsonItems (L : Layout) : List (PyKey × PyValue) → List (PyKey × Json)
  | [] => []
  | (k, x) :: items => (k, json L x) :: jsonItems L items

end

/-- `items[key] = value` on a dict: a key that is there keeps its place. -/
def assign {α : Type} (items : List (PyKey × α)) (key : PyKey) (value : α) : List (PyKey × α) :=
  if key ∈ items.map Prod.fst then items.map (fun m => if m.1 = key then (key, value) else m)
  else items ++ [(key, value)]

/-- A dict out of a list of items. -/
def dictOf {α : Type} (items : List (PyKey × α)) : List (PyKey × α) :=
  items.foldl (fun d m => assign d m.1 m.2) []

mutual

/-- `json.loads(json.dumps(v))`: the keys are strings, and the last item of a key counts. -/
def reread : PyValue → PyValue
  | .str s => .str s.joined
  | .list xs => .list (rereadList xs)
  | .dict items => .dict (dictOf (rereadItems items))
  | v => v

def rereadList : List PyValue → List PyValue
  | [] => []
  | x :: xs => reread x :: rereadList xs

def rereadItems : List (PyKey × PyValue) → List (PyKey × PyValue)
  | [] => []
  | (k, x) :: items => (.str k.name.joined, reread x) :: rereadItems items

end

/-- `value.get(key)` of a dict with these items, for a key that is a string. -/
def get {α : Type} (items : List (PyKey × α)) (key : String) : Option α :=
  (items.find? (fun m => m.1 = .str (.ofString key))).map Prod.snd

/-- `bool(v)` -/
def truthy : PyValue → Bool
  | .none => false
  | .bool b => b
  | .int i => decide (i ≠ 0)
  | .float (.finite n) => decide (n.toFloat.mant ≠ 0)
  | .float _ => true
  | .str s => !s.isEmpty
  | .list xs => !xs.isEmpty
  | .dict items => !items.isEmpty
  | .other => true

/-- What a decoder reads of the value's text. -/
def document (L : Layout) (v : PyValue) : Option Json := if v.finite then some (v.json L) else Option.none

end PyValue

example : (PyValue.dict [(.str (.ofString "b"), .float .nan), (.str (.ofString "a"), .list [.int (-7), .none])]).text
    (.spaced true) = "\x7b\"a\": [-7, null], \"b\": NaN\x7d".toList := by decide +kernel

-- ============================================================================
-- White space
-- ============================================================================

namespace Layout

variable (L : Layout)

theorem skipSpace_gap (cs : List Char) : skipSpace (L.gap ++ cs) = skipSpace cs :=
  List.dropWhile_append_of_pos (List.all_eq_true.mp L.blank)

theorem expect_gap (c : Char) (cs : List Char) : expect c (L.gap ++ cs) = expect c cs := by
  rw [expect, skipSpace_gap]
  rfl

theorem readValue_gap (n : Nat) (cs : List Char) : readValue n (L.gap ++ cs) = readValue n cs := by
  cases n with
  | zero => rfl
  | succ n => simp only [readValue, expect_gap, skipSpace_gap]

theorem readElements_gap (n : Nat) (cs : List Char) : readElements n (L.gap ++ cs) = readElements n cs := by
  cases n with
  | zero => rfl
  | succ n => simp only [readElements, readValue_gap]

theorem readMembers_gap (n : Nat) (cs : List Char) : readMembers n (L.gap ++ cs) = readMembers n cs := by
  cases n with
  | zero => rfl
  | succ n => simp only [readMembers, expect_gap]

theorem arrange_map {α β : Type} (f : α → β) (items : List (PyKey × α)) :
    L.arrange (items.map (Prod.map id f)) = (L.arrange items).map (Prod.map id f) := by
  unfold arrange
  split
  · exact (List.map_insertionSort _ _ (Prod.map id f) items (fun _ _ _ _ => Iff.rfl)).symm
  · rfl

theorem arrange_perm {α : Type} (items : List (PyKey × α)) : (L.arrange items).Perm items := by
  unfold arrange
  split
  · exact List.perm_insertionSort _ _
  · exact .refl _

end Layout

-- ============================================================================
-- What the texts are read as
-- ============================================================================

/-- The text is read as the document, whatever follows that does not go on with a number. -/
structure Spells (t : List Char) (d : Option Json) : Prop where
  opens : ∃ c cs, t = c :: cs ∧ Opens c
  reads : ∀ fuel rest, t.length ≤ fuel → EndsNumber rest →
    readValue fuel (t ++ rest) = d.map (fun v => (v, rest))

/-- A text that starts with no quote, bracket, brace or space spells what it is read as. -/
theorem Spells.of_scalar {t : List Char} {c : Char} {cs : List Char} {d : Option Json} (ht : t = c :: cs)
    (hopens : Opens c) (hc : c ≠ '"' ∧ c ≠ '[' ∧ c ≠ '\x7b')
    (hread : ∀ rest, EndsNumber rest → readScalar (t ++ rest) = d.map (fun v => (v, rest))) : Spells t d := by
  refine ⟨⟨c, cs, ht, hopens⟩, fun fuel rest hfuel hrest => ?_⟩
  obtain ⟨n, rfl⟩ : ∃ n, fuel = n + 1 := by
    rw [ht, List.length_cons] at hfuel
    exact ⟨fuel - 1, by omega⟩
  have hscalar := hread rest hrest
  rw [ht, List.cons_append] at hscalar ⊢
  rw [readValue_scalar n hopens.space hc, hscalar]

/-- What `json.Marshal` writes of a scalar is read as the scalar. -/
theorem Spells.of_readsBack {v : Json} (hordered : ordered v = v) : Spells (marshalTree v) (some v) :=
  ⟨marshalTree_head v, fun fuel rest hfuel hrest => by
    rw [readsBack v fuel rest hfuel hrest, hordered]
    rfl⟩

theorem Spells.literal (n : JsonNumber) : Spells n.literal (some (.num n)) :=
  .of_readsBack (v := .num n) rfl

/-- A word that starts like no value is not read. -/
theorem Spells.word {c : Char} {cs : List Char} (hopens : Opens c) (hc : c ≠ '"' ∧ c ≠ '[' ∧ c ≠ '\x7b')
    (hwords : c ≠ 'n' ∧ c ≠ 't' ∧ c ≠ 'f') (hnumber : ∀ rest, readNumber (c :: cs ++ rest) = none) :
    Spells (c :: cs) none := by
  refine .of_scalar rfl hopens hc (fun rest _ => ?_)
  have hnone := hnumber rest
  rw [List.cons_append] at hnone ⊢
  rw [readScalar, dropWord_of_head (d := 'n') rfl hwords.1, dropWord_of_head (d := 't') rfl hwords.2.1,
    dropWord_of_head (d := 'f') rfl hwords.2.2, hnone]
  rfl

theorem spells_float (x : PyFloat) :
    Spells x.text (match x with | .finite n => some (.num n) | _ => none) := by
  cases x with
  | finite n => exact .literal n
  | infinite neg =>
      cases neg with
      | true => exact .word ⟨by decide, by decide, by decide⟩ (by decide) (by decide) (fun _ => rfl)
      | false => exact .word ⟨by decide, by decide, by decide⟩ (by decide) (by decide) (fun _ => rfl)
  | nan => exact .word ⟨by decide, by decide, by decide⟩ (by decide) (by decide) (fun _ => rfl)

theorem spells_str (s : PyStr) : Spells s.quoted (some (.str s.read)) := by
  refine ⟨⟨'"', _, rfl, .of_word (by decide)⟩, fun fuel rest hfuel _ => ?_⟩
  obtain ⟨n, rfl⟩ : ∃ n, fuel = n + 1 := by
    rw [PyStr.quoted, List.cons_append, List.length_cons] at hfuel
    exact ⟨fuel - 1, by omega⟩
  rw [s.quoted_append, readValue_string (expect_self (by decide) _), s.readString_escaped]
  rfl

-- ============================================================================
-- Lists and dicts
-- ============================================================================

section Containers

variable (L : Layout)

/-- Elements with commas between them are read up to the bracket. -/
theorem readElements_join {ps : List (List Char × Option Json)} (h : ∀ p ∈ ps, Spells p.1 p.2) (hne : ps ≠ [])
    (rest : List Char) {n : Nat} (hfuel : (L.join (ps.map Prod.fst)).length < n) :
    readElements n (L.join (ps.map Prod.fst) ++ ']' :: rest) =
      (ps.mapM Prod.snd).map (fun xs => (xs, rest)) := by
  induction ps generalizing n with
  | nil => exact absurd rfl hne
  | cons p ps ih =>
      obtain ⟨t, d⟩ := p
      obtain ⟨fuel, rfl⟩ : ∃ m, n = m + 1 := ⟨n - 1, by omega⟩
      have hhead : Spells t d := h (t, d) List.mem_cons_self
      cases ps with
      | nil =>
          simp only [List.map_cons, List.map_nil, Layout.join] at hfuel ⊢
          rw [readElements, hhead.reads fuel _ (by omega) (endsNumber_cons (by decide) rest)]
          cases d with
          | none => rfl
          | some v =>
              simp only [Option.map_some, Option.bind_eq_bind, Option.bind_some,
                expect_ne (c := ',') (d := ']') (by decide) (by decide), expect_self (c := ']') (by decide)]
              rfl
      | cons q ps =>
          have htext : L.join (((t, d) :: q :: ps).map Prod.fst) =
              t ++ ',' :: (L.gap ++ L.join ((q :: ps).map Prod.fst)) := rfl
          rw [htext, List.length_append, List.length_cons, List.length_append] at hfuel
          have htail := ih (fun r hr => h r (List.mem_cons_of_mem _ hr)) (List.cons_ne_nil _ _) (n := fuel) (by omega)
          rw [htext, List.append_assoc, List.cons_append, List.append_assoc, readElements,
            hhead.reads fuel _ (by omega) (endsNumber_cons (by decide) _), List.mapM_cons]
          cases d with
          | none => rfl
          | some v =>
              simp only [Option.map_some, Option.bind_eq_bind, Option.bind_some, expect_self (c := ',') (by decide),
                L.readElements_gap, htail]
              cases (q :: ps).mapM Prod.snd <;> rfl

theorem spells_list {ps : List (List Char × Option Json)} (h : ∀ p ∈ ps, Spells p.1 p.2) :
    Spells ('[' :: (L.join (ps.map Prod.fst) ++ [']'])) ((ps.mapM Prod.snd).map .arr) := by
  refine ⟨⟨'[', _, rfl, .of_word (by decide)⟩, fun fuel rest hfuel _ => ?_⟩
  rw [List.length_cons, List.length_append, List.length_singleton] at hfuel
  obtain ⟨n, rfl⟩ : ∃ n, fuel = n + 1 := ⟨fuel - 1, by omega⟩
  rw [List.cons_append, List.append_assoc, List.singleton_append]
  cases ps with
  | nil =>
      simp only [readValue, expect_ne (c := '"') (d := '[') (by decide) (by decide),
        expect_self (c := '[') (by decide), List.map_nil, Layout.join, List.nil_append,
        expect_self (c := ']') (by decide)]
      rfl
  | cons p ps =>
      obtain ⟨c, cs, hhead, hopens⟩ := (h p List.mem_cons_self).opens
      have hclose : expect ']' (L.join ((p :: ps).map Prod.fst) ++ ']' :: rest) = none := by
        obtain ⟨cs', hcs'⟩ : ∃ cs', L.join ((p :: ps).map Prod.fst) = c :: cs' := by
          cases ps with
          | nil => exact ⟨cs, hhead⟩
          | cons q ps =>
              refine ⟨cs ++ ',' :: (L.gap ++ L.join ((q :: ps).map Prod.fst)), ?_⟩
              rw [← List.cons_append, ← hhead]
              rfl
        rw [hcs']
        exact expect_ne hopens.space hopens.bracket _
      simp only [readValue, expect_ne (c := '"') (d := '[') (by decide) (by decide),
        expect_self (c := '[') (by decide), hclose,
        readElements_join L h (List.cons_ne_nil p ps) rest (n := n) (by omega)]
      cases (p :: ps).mapM Prod.snd <;> rfl

/-- A key with the text of its value, and what that is read as. -/
abbrev SpelledItem := PyKey × List Char × Option Json

def SpelledItem.text (m : SpelledItem) : List Char := L.item (m.1, m.2.1)

def SpelledItem.member (m : SpelledItem) : Option (String × Json) := m.2.2.map (fun v => (m.1.name.read, v))

/-- Members with commas between them are read up to the brace. -/
theorem readMembers_items {ms : List SpelledItem} (h : ∀ m ∈ ms, Spells m.2.1 m.2.2) (hne : ms ≠ [])
    (rest : List Char) {n : Nat} (hfuel : (L.join (ms.map (SpelledItem.text L))).length < n) :
    readMembers n (L.join (ms.map (SpelledItem.text L)) ++ '\x7d' :: rest) =
      (ms.mapM SpelledItem.member).map (fun ns => (ns, rest)) := by
  induction ms generalizing n with
  | nil => exact absurd rfl hne
  | cons m ms ih =>
      obtain ⟨k, t, d⟩ := m
      obtain ⟨fuel, rfl⟩ : ∃ m, n = m + 1 := ⟨n - 1, by omega⟩
      have hhead : Spells t d := h (k, t, d) List.mem_cons_self
      -- the member up to its value, which is followed by `tail`
      have hmember : ∀ tail : List Char, t.length ≤ fuel → EndsNumber tail →
          readMembers (fuel + 1) (SpelledItem.text L (k, t, d) ++ tail) = d.bind (fun v =>
            (expect ',' tail).elim ((expect '\x7d' tail).map (fun rest => ([(k.name.read, v)], rest)))
              (fun rest => (readMembers fuel rest).map (fun r => ((k.name.read, v) :: r.1, r.2)))) := by
        intro tail hle hends
        have htext : SpelledItem.text L (k, t, d) ++ tail =
            '"' :: (k.name.flatMap CodePoint.escape ++ '"' :: ':' :: (L.gap ++ (t ++ tail))) := by
          simp only [SpelledItem.text, Layout.item, List.append_assoc, PyStr.quoted_append, List.cons_append]
        rw [htext, readMembers, expect_self (by decide)]
        simp only [Option.bind_eq_bind, Option.bind_some, PyStr.readString_escaped,
          expect_self (c := ':') (by decide), L.readValue_gap, hhead.reads fuel tail hle hends]
        cases d with
        | none => rfl
        | some v => cases hcomma : expect ',' tail <;> simp only [Option.map_some, Option.bind_some, hcomma] <;> rfl
      have hsize : t.length < (SpelledItem.text L (k, t, d)).length := by
        simp only [SpelledItem.text, Layout.item, List.length_append, List.length_cons]
        omega
      cases ms with
      | nil =>
          simp only [List.map_cons, List.map_nil, Layout.join] at hfuel ⊢
          rw [hmember _ (by omega) (endsNumber_cons (by decide) rest)]
          cases d with
          | none => rfl
          | some v =>
              simp only [Option.bind_some, expect_ne (c := ',') (d := '\x7d') (by decide) (by decide),
                expect_self (c := '\x7d') (by decide)]
              rfl
      | cons m ms =>
          have htext : L.join (((k, t, d) :: m :: ms).map (SpelledItem.text L)) =
              SpelledItem.text L (k, t, d) ++ ',' :: (L.gap ++ L.join ((m :: ms).map (SpelledItem.text L))) := rfl
          rw [htext, List.length_append, List.length_cons, List.length_append] at hfuel
          have htail := ih (fun r hr => h r (List.mem_cons_of_mem _ hr)) (List.cons_ne_nil _ _) (n := fuel) (by omega)
          rw [htext, List.append_assoc, List.cons_append, List.append_assoc,
            hmember _ (by omega) (endsNumber_cons (by decide) _), List.mapM_cons]
          cases d with
          | none => rfl
          | some v =>
              simp only [Option.bind_some, expect_self (c := ',') (by decide), Option.elim_some, L.readMembers_gap,
                htail, SpelledItem.member, Option.map_some, Option.bind_eq_bind]
              cases (m :: ms).mapM SpelledItem.member <;> rfl

theorem spells_dict {ms : List SpelledItem} (h : ∀ m ∈ ms, Spells m.2.1 m.2.2) :
    Spells ('\x7b' :: (L.join (ms.map (SpelledItem.text L)) ++ ['\x7d']))
      ((ms.mapM SpelledItem.member).map .obj) := by
  refine ⟨⟨'\x7b', _, rfl, .of_word (by decide)⟩, fun fuel rest hfuel _ => ?_⟩
  rw [List.length_cons, List.length_append, List.length_singleton] at hfuel
  obtain ⟨n, rfl⟩ : ∃ n, fuel = n + 1 := ⟨fuel - 1, by omega⟩
  rw [List.cons_append, List.append_assoc, List.singleton_append]
  cases ms with
  | nil =>
      simp only [readValue, expect_ne (c := '"') (d := '\x7b') (by decide) (by decide),
        expect_ne (c := '[') (d := '\x7b') (by decide) (by decide), expect_self (c := '\x7b') (by decide),
        List.map_nil, Layout.join, List.nil_append, expect_self (c := '\x7d') (by decide)]
      rfl
  | cons m ms =>
      have hclose : expect '\x7d' (L.join ((m :: ms).map (SpelledItem.text L)) ++ '\x7d' :: rest) = none := by
        obtain ⟨cs, hcs⟩ : ∃ cs, L.join ((m :: ms).map (SpelledItem.text L)) = '"' :: cs := by
          cases ms <;> exact ⟨_, rfl⟩
        rw [hcs]
        exact expect_ne (by decide) (by decide) _
      simp only [readValue, expect_ne (c := '"') (d := '\x7b') (by decide) (by decide),
        expect_ne (c := '[') (d := '\x7b') (by decide) (by decide), expect_self (c := '\x7b') (by decide),
        hclose, readMembers_items L h (List.cons_ne_nil m ms) rest (n := n) (by omega)]
      cases (m :: ms).mapM SpelledItem.member <;> rfl

end Containers

-- ============================================================================
-- Values
-- ============================================================================

namespace PyValue

variable (L : Layout)

theorem textList_eq_map (xs : List PyValue) : textList L xs = xs.map (text L) := by
  induction xs with
  | nil => rfl
  | cons x xs ih => rw [textList, ih, List.map_cons]

theorem textItems_eq_map (items : List (PyKey × PyValue)) :
    textItems L items = items.map (Prod.map id (text L)) := by
  induction items with
  | nil => rfl
  | cons m items ih =>
      obtain ⟨k, x⟩ := m
      rw [textItems, ih, List.map_cons]
      rfl

theorem jsonList_eq_map (xs : List PyValue) : jsonList L xs = xs.map (json L) := by
  induction xs with
  | nil => rfl
  | cons x xs ih => rw [jsonList, ih, List.map_cons]

theorem jsonItems_eq_map (items : List (PyKey × PyValue)) :
    jsonItems L items = items.map (Prod.map id (json L)) := by
  induction items with
  | nil => rfl
  | cons m items ih =>
      obtain ⟨k, x⟩ := m
      rw [jsonItems, ih, List.map_cons]
      rfl

theorem finiteList_eq_all (xs : List PyValue) : finiteList xs = xs.all finite := by
  induction xs with
  | nil => rfl
  | cons x xs ih => rw [finiteList, ih, List.all_cons]

theorem finiteItems_eq_all (items : List (PyKey × PyValue)) : finiteItems items = items.all (fun m => finite m.2) := by
  induction items with
  | nil => rfl
  | cons m items ih =>
      obtain ⟨k, x⟩ := m
      rw [finiteItems, ih, List.all_cons]

/-- Documents of all the elements, or of none. -/
theorem mapM_document {α β : Type} (fin : α → Bool) (f : α → β) (l : List α) :
    l.mapM (fun x => if fin x then some (f x) else Option.none) =
      if l.all fin then some (l.map f) else Option.none := by
  induction l with
  | nil => rfl
  | cons x l ih =>
      rw [List.mapM_cons, List.all_cons, ih]
      cases fin x with
      | false => rfl
      | true =>
          simp only [if_true, Option.bind_eq_bind, Option.bind_some, Bool.true_and]
          cases l.all fin <;> rfl

theorem document_list (xs : List PyValue) :
    document L (.list xs) = ((xs.map (fun x => (text L x, document L x))).mapM Prod.snd).map .arr := by
  have hdocs : (xs.map (fun x => (text L x, document L x))).mapM Prod.snd = xs.mapM (document L) := by
    rw [List.mapM_map]
    rfl
  rw [hdocs, show document L = fun x => if x.finite then some (x.json L) else Option.none from rfl,
    mapM_document]
  simp only [finite, finiteList_eq_all, json, jsonList_eq_map]
  split <;> rfl

/-- The items of a dict in the order they are written, with what each is read as. -/
def spelledItems (items : List (PyKey × PyValue)) : List SpelledItem :=
  (L.arrange items).map (fun m => (m.1, text L m.2, document L m.2))

theorem document_dict (items : List (PyKey × PyValue)) :
    document L (.dict items) = ((spelledItems L items).mapM SpelledItem.member).map .obj := by
  have hdocs : (spelledItems L items).mapM SpelledItem.member =
      (L.arrange items).mapM (fun m => if finite m.2 then some (member (Prod.map id (json L) m)) else Option.none) := by
    rw [spelledItems, List.mapM_map]
    congr 1
    funext m
    simp only [Function.comp, SpelledItem.member, document]
    cases finite m.2 <;> rfl
  rw [hdocs, mapM_document, (L.arrange_perm items).all_eq]
  simp only [document, finite, finiteItems_eq_all, json, jsonItems_eq_map, L.arrange_map, List.map_map]
  split <;> rfl

mutual

/-- The text of a value is read as its document. -/
theorem spells : ∀ v : PyValue, v.encodes L.sortKeys = true → Spells (v.text L) (v.document L)
  | .none, _ => .of_readsBack (v := .null) rfl
  | .bool b, _ => by
      cases b with
      | true => exact .of_readsBack (v := .bool true) rfl
      | false => exact .of_readsBack (v := .bool false) rfl
  | .int i, _ => .literal (.ofInt i)
  | .float x, _ => by
      have hfloat := spells_float x
      cases x with
      | finite n => exact hfloat
      | infinite neg => exact hfloat
      | nan => exact hfloat
  | .str s, _ => spells_str s
  | .list xs, h => by
      rw [document_list, text, textList_eq_map]
      have helements : ∀ p ∈ xs.map (fun x => (text L x, document L x)), Spells p.1 p.2 := by
        intro p hp
        obtain ⟨x, hx, rfl⟩ := List.mem_map.mp hp
        exact spells_elements xs h x hx
      have hlist := spells_list L helements
      rw [List.map_map] at hlist
      exact hlist
  | .dict items, h => by
      rw [encodes, Bool.and_eq_true] at h
      rw [document_dict, text, textItems_eq_map, L.arrange_map]
      have hitems : ∀ m ∈ spelledItems L items, Spells m.2.1 m.2.2 := by
        intro m hm
        obtain ⟨m', hm', rfl⟩ := List.mem_map.mp hm
        exact spells_items items h.2 m' ((L.arrange_perm items).mem_iff.mp hm')
      have hdict := spells_dict L hitems
      rw [spelledItems, List.map_map] at hdict
      rw [List.map_map, spelledItems]
      exact hdict

theorem spells_elements : ∀ xs : List PyValue, encodesList L.sortKeys xs = true →
    ∀ x ∈ xs, Spells (x.text L) (x.document L)
  | [], _, _, hx => nomatch hx
  | y :: ys, h, x, hx => by
      rw [encodesList, Bool.and_eq_true] at h
      obtain heq | hx := List.mem_cons.mp hx
      · rw [heq]
        exact spells y h.1
      · exact spells_elements ys h.2 x hx

theorem spells_items : ∀ items : List (PyKey × PyValue), encodesItems L.sortKeys items = true →
    ∀ m ∈ items, Spells (m.2.text L) (m.2.document L)
  | [], _, _, hm => nomatch hm
  | (k, y) :: items, h, m, hm => by
      rw [encodesItems, Bool.and_eq_true, Bool.and_eq_true] at h
      obtain heq | hm := List.mem_cons.mp hm
      · rw [heq]
        exact spells y h.1.2
      · exact spells_items items h.2 m hm

end

mutual

/-- What is written with sorted keys is written in any order. -/
theorem encodes_of_sorted : ∀ v : PyValue, v.encodes true = true → v.encodes false = true
  | .none, _ | .bool _, _ | .float _, _ | .str _, _ => rfl
  | .int _, h => h
  | .list xs, h => encodesList_of_sorted xs h
  | .dict items, h => by
      rw [encodes, Bool.and_eq_true] at h
      rw [encodes, Bool.not_false, Bool.true_or, Bool.true_and]
      exact encodesItems_of_sorted items h.2

theorem encodesList_of_sorted : ∀ xs : List PyValue, encodesList true xs = true → encodesList false xs = true
  | [], _ => rfl
  | x :: xs, h => by
      rw [encodesList, Bool.and_eq_true] at h ⊢
      exact ⟨encodes_of_sorted x h.1, encodesList_of_sorted xs h.2⟩

theorem encodesItems_of_sorted : ∀ items : List (PyKey × PyValue),
    encodesItems true items = true → encodesItems false items = true
  | [], _ => rfl
  | (k, x) :: items, h => by
      rw [encodesItems, Bool.and_eq_true, Bool.and_eq_true] at h ⊢
      exact ⟨⟨h.1.1, encodes_of_sorted x h.1.2⟩, encodesItems_of_sorted items h.2⟩

end

theorem depthMembers_eq_of_perm {ms ns : List (String × Json)} (h : ms.Perm ns) :
    JsonTree.depthMembers ms = JsonTree.depthMembers ns := by
  have hle : ∀ {ms ns : List (String × Json)}, ms.Perm ns → JsonTree.depthMembers ms ≤ JsonTree.depthMembers ns :=
    fun hperm => JsonTree.depthMembers_le_iff.mpr (fun m hm =>
      JsonTree.depthMembers_le_iff.mp (Nat.le_refl _) m (hperm.mem_iff.mp hm))
  exact Nat.le_antisymm (hle h) (hle h.symm)

mutual

/-- A document is nested as deep as the value. -/
theorem depth_json : ∀ v : PyValue, (v.json L).depth = v.depth
  | .none | .bool _ | .int _ | .str _ | .other => rfl
  | .float x => by cases x <;> rfl
  | .list xs => by rw [json, JsonTree.depth, depth, depthList_json xs]
  | .dict items => by
      rw [json, JsonTree.depth, depth, depthMembers_eq_of_perm ((L.arrange_perm _).map member),
        depthItems_json items]

theorem depthList_json : ∀ xs : List PyValue, JsonTree.depthList (jsonList L xs) = depthList xs
  | [] => rfl
  | x :: xs => by rw [jsonList, JsonTree.depthList, depthList, depth_json x, depthList_json xs]

theorem depthItems_json : ∀ items : List (PyKey × PyValue),
    JsonTree.depthMembers ((jsonItems L items).map member) = depthItems items
  | [] => rfl
  | (k, x) :: items => by
      rw [jsonItems, List.map_cons, member, JsonTree.depthMembers, depthItems, depth_json x, depthItems_json items]

end

/-- A text that was written is a document exactly when every float of the value is finite. -/
theorem readDocument_text {v : PyValue} (h : v.encodes L.sortKeys = true) :
    readDocument (v.text L) = v.document L := by
  have hread := (spells L v h).reads ((v.text L).length + 1) [] (Nat.le_succ _) (fun _ hc => nomatch hc)
  rw [List.append_nil] at hread
  rw [readDocument, hread]
  cases v.document L <;> rfl

end PyValue

end DurableEngine.Lib
