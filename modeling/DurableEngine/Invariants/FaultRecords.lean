/-
  DurableEngine.Invariants.FaultRecords

  The records of a fault trace, after `ParseFaultTrace` of
  `internal/invariants/m5.go`.

  `TextHolds` says which records a text holds in the words of the format and not
  of the scanner or the decoder: its lines, the value a line begins with, and
  what the members of an object give each field.  The scanner and the decoder
  read exactly these records, apart from a line that is `null`, which the
  decoder makes an empty record of (`scan_decodes_iff`).
-/

import DurableEngine.Lib.Reading
import DurableEngine.Lib.Tx
import DurableEngine.Lib.Unmarshal

namespace DurableEngine.Invariants

open Lib

-- ============================================================================
-- Records
-- ============================================================================

/-- `faultTraceRecord`. -/
structure FaultTraceRecord where
  schemaVersion : String
  runID : String
  sequence : Int
  seed : Int
  event : String
  boundary : String
  command : Option Json
  action : String
  returnCode : Option Int
  cleanupBounded : Option Bool
  fields : List (String × Json)
deriving Repr

/-- Store a value into a `*int`. -/
def storeIntPtr (_old : Option Int) : Json → Option (Option Int)
  | .num n => n.toInt?.map some
  | .null => some none
  | _ => none

/-- Store a value into a `*bool`. -/
def storeBoolPtr (_old : Option Bool) : Json → Option (Option Bool)
  | .bool b => some (some b)
  | .null => some none
  | _ => none

/-- Store a value into a `map[string]any`, which keeps the entries it has. -/
def storeMap (old : List (String × Json)) : Json → Option (List (String × Json))
  | .obj ms => some (old ++ ms)
  | .null => some []
  | _ => none

/-- `Decode` into a `faultTraceRecord`. -/
def unmarshalRecord (v : Json) : Option FaultTraceRecord := do
  let ms ← structMembers v
  let schemaVersion ← field storeString "" "schema_version" ms
  let runID ← field storeString "" "run_id" ms
  let sequence ← field storeInt 0 "sequence" ms
  let seed ← field storeInt 0 "seed" ms
  let event ← field storeString "" "event" ms
  let boundary ← field storeString "" "boundary" ms
  let action ← field storeString "" "action" ms
  let returnCode ← field storeIntPtr none "return_code" ms
  let cleanupBounded ← field storeBoolPtr none "bounded" ms
  let fields ← field storeMap [] "fields" ms
  some { schemaVersion, runID, sequence, seed, event, boundary, command := rawField "command" ms, action,
         returnCode, cleanupBounded, fields }

/-- The size of the scanner's buffer. -/
def maxLineBytes : Nat := 4 * 2 ^ 20

/-- `dropCR` of `bufio.ScanLines`. -/
def dropCR (line : List Char) : List Char := if line.getLast? = some '\r' then line.dropLast else line

/-- The record of a line: the first value of its token, which is not nested too deep.  The buffer holds
    the line with its carriage return. -/
def decodeRecord (line : List Char) : Except String FaultTraceRecord :=
  if maxLineBytes ≤ (String.ofList line).utf8ByteSize then .error "bufio.Scanner: token too long"
  else
    match readValue ((dropCR line).length + 1) (dropCR line) with
    | some (v, _) =>
        if v.shallow then getOr (unmarshalRecord v) "decode fault trace record"
        else .error "decode fault trace record: exceeded max depth"
    | none => .error "decode fault trace record"

/-- The lines `bufio.ScanLines` finds: what stands before each line feed, and what is left at the end. -/
def scanLines : List Char → List (List Char)
  | [] => []
  | c :: cs =>
      if c = '\n' then [] :: scanLines cs
      else
        match scanLines cs with
        | [] => [[c]]
        | line :: lines => (c :: line) :: lines

-- ============================================================================
-- The format
-- ============================================================================

/-- The lines of a text: each ends in a line feed, which the last may leave out. -/
inductive Lines : List Char → List (List Char) → Prop where
  | nil : Lines [] []
  | last {line : List Char} (some : line ≠ []) (whole : '\n' ∉ line) : Lines line [line]
  | cons {line text : List Char} {lines : List (List Char)} (whole : '\n' ∉ line) (rest : Lines text lines) :
      Lines (line ++ '\n' :: text) (line :: lines)

def textOf : Json → Option String
  | .str s => some s
  | _ => none

def integerOf : Json → Option Int
  | .num n => n.toInt?
  | _ => none

def flagOf : Json → Option Bool
  | .bool b => some b
  | _ => none

def membersOf : Json → Option (List (String × Json))
  | .obj ms => some ms
  | _ => none

/-- Every value given to a field is null or of its type. -/
def Typed {α : Type} (read : Json → Option α) (values : List Json) : Prop :=
  ∀ v ∈ values, v = .null ∨ (read v).isSome

/-- A field keeps the last of its values that is not null. -/
def FieldHolds {α : Type} (read : Json → Option α) (zero : α) (values : List Json) (x : α) : Prop :=
  Typed read values ∧ x = (values.filterMap read).getLast?.getD zero

/-- A pointer points to the last of its values, and nowhere when that is null. -/
def PointerHolds {α : Type} (read : Json → Option α) (values : List Json) (x : Option α) : Prop :=
  Typed read values ∧ x = values.getLast?.bind read

/-- A map has the members of all its values since the last null. -/
def MapHolds (values : List Json) (entries : List (String × Json)) : Prop :=
  Typed membersOf values ∧
    entries = values.foldl (fun old v => (membersOf v).elim [] (fun ms => old ++ ms)) []

/-- The record an object with the members `ms` gives. -/
structure RecordOf (ms : List (String × Json)) (record : FaultTraceRecord) : Prop where
  schemaVersion : FieldHolds textOf "" (fieldValues "schema_version" ms) record.schemaVersion
  runID : FieldHolds textOf "" (fieldValues "run_id" ms) record.runID
  sequence : FieldHolds integerOf 0 (fieldValues "sequence" ms) record.sequence
  seed : FieldHolds integerOf 0 (fieldValues "seed" ms) record.seed
  event : FieldHolds textOf "" (fieldValues "event" ms) record.event
  boundary : FieldHolds textOf "" (fieldValues "boundary" ms) record.boundary
  command : record.command = (fieldValues "command" ms).getLast?
  action : FieldHolds textOf "" (fieldValues "action" ms) record.action
  returnCode : PointerHolds integerOf (fieldValues "return_code" ms) record.returnCode
  cleanupBounded : PointerHolds flagOf (fieldValues "bounded" ms) record.cleanupBounded
  fields : MapHolds (fieldValues "fields" ms) record.fields

/-- A line holds a record: it fits into the scanner's buffer, and it begins with an object that is not
    nested too deep and gives the record. -/
structure LineHolds (line : List Char) (record : FaultTraceRecord) : Prop where
  fits : (String.ofList line).utf8ByteSize < maxLineBytes
  object : ∃ ms rest, Reads (dropCR line) (.obj ms) rest ∧ (JsonTree.obj ms).depth ≤ maxNestingDepth ∧
    RecordOf ms record

/-- A text holds records, one on each line. -/
def TextHolds (text : List Char) (records : List FaultTraceRecord) : Prop :=
  ∃ lines, Lines text lines ∧ List.Forall₂ LineHolds lines records

-- ============================================================================
-- Lines
-- ============================================================================

theorem scanLines_append {line : List Char} (hline : '\n' ∉ line) (text : List Char) :
    scanLines (line ++ '\n' :: text) = line :: scanLines text := by
  induction line with
  | nil => rw [List.nil_append, scanLines, if_pos rfl]
  | cons c line ih =>
      obtain ⟨hc, hline⟩ := not_or.mp (fun h => hline (List.mem_cons.mpr h))
      rw [List.cons_append, scanLines, if_neg (Ne.symm hc), ih hline]

theorem scanLines_line {line : List Char} (hsome : line ≠ []) (hline : '\n' ∉ line) :
    scanLines line = [line] := by
  induction line with
  | nil => exact absurd rfl hsome
  | cons c line ih =>
      obtain ⟨hc, hline⟩ := not_or.mp (fun h => hline (List.mem_cons.mpr h))
      rw [scanLines, if_neg (Ne.symm hc)]
      by_cases hrest : line = []
      · rw [hrest, scanLines]
      · rw [ih hrest hline]

theorem lines_scanLines (text : List Char) : Lines text (scanLines text) := by
  induction text with
  | nil => exact .nil
  | cons c text ih =>
      by_cases hc : c = '\n'
      · subst hc
        rw [scanLines, if_pos rfl]
        exact .cons (show '\n' ∉ [] from List.not_mem_nil) ih
      · rw [scanLines, if_neg hc]
        have hfirst : ∀ {line : List Char}, '\n' ∉ line → '\n' ∉ c :: line := fun hline hmem =>
          (List.mem_cons.mp hmem).elim (fun h => hc h.symm) hline
        generalize scanLines text = lines at ih ⊢
        cases ih with
        | nil => exact .last (List.cons_ne_nil _ _) (hfirst List.not_mem_nil)
        | last hsome hwhole => exact .last (List.cons_ne_nil _ _) (hfirst hwhole)
        | cons hwhole hrest => exact .cons (hfirst hwhole) hrest

/-- The scanner finds the lines of the text. -/
theorem lines_iff {text : List Char} {lines : List (List Char)} : Lines text lines ↔ scanLines text = lines := by
  constructor
  · intro h
    induction h with
    | nil => rfl
    | last hsome hwhole => exact scanLines_line hsome hwhole
    | cons hwhole _ ih => rw [scanLines_append hwhole, ih]
  · rintro rfl
    exact lines_scanLines text

-- ============================================================================
-- Fields
-- ============================================================================

section Fields

variable {α : Type} {store : α → Json → Option α} {read : Json → Option α}

theorem typed_cons {v : Json} {values : List Json} :
    Typed read (v :: values) ↔ (v = .null ∨ (read v).isSome) ∧ Typed read values :=
  List.forall_mem_cons

/-- Storing the values one after the other, where null changes nothing. -/
theorem foldlM_store_iff (hnull : ∀ old, store old .null = some old)
    (hread : ∀ old v, v ≠ .null → store old v = read v) (hnone : read .null = none)
    {values : List Json} {zero x : α} :
    values.foldlM store zero = some x ↔ FieldHolds read zero values x := by
  induction values generalizing zero with
  | nil =>
      rw [List.foldlM_nil]
      constructor
      · intro h
        exact ⟨fun v hv => absurd hv List.not_mem_nil, (Option.some.inj h).symm⟩
      · rintro ⟨-, rfl⟩
        rfl
  | cons v values ih =>
      rw [List.foldlM_cons, FieldHolds, typed_cons]
      by_cases hv : v = .null
      · subst hv
        rw [hnull, Option.bind_eq_bind, Option.bind_some, ih, FieldHolds, List.filterMap_cons, hnone]
        simp only [true_or, true_and]
      · rw [hread zero v hv, List.filterMap_cons]
        cases hx : read v with
        | none => simp [hv]
        | some y =>
            rw [Option.bind_eq_bind, Option.bind_some, ih, FieldHolds, List.getLast?_cons]
            simp only [Option.isSome_some, or_true, true_and, Option.getD_some]

/-- Storing the values one after the other, where each replaces what was there. -/
theorem foldlM_replace_iff {store : Option α → Json → Option (Option α)}
    (hnull : ∀ old, store old .null = some none)
    (hread : ∀ old v, v ≠ .null → store old v = (read v).map some) (hnone : read .null = none)
    {values : List Json} {x : Option α} :
    values.foldlM store none = some x ↔ PointerHolds read values x := by
  have hfold : ∀ old, values.foldlM store old = some x ↔
      Typed read values ∧ x = values.getLast?.elim old read := by
    induction values with
    | nil =>
        intro old
        rw [List.foldlM_nil]
        constructor
        · intro h
          exact ⟨fun v hv => absurd hv List.not_mem_nil, (Option.some.inj h).symm⟩
        · rintro ⟨-, rfl⟩
          rfl
    | cons v values ih =>
        intro old
        have hlast : ∀ old', (v :: values).getLast?.elim old' read = values.getLast?.elim (read v) read := by
          intro old'
          rw [List.getLast?_cons]
          cases values.getLast? <;> rfl
        rw [List.foldlM_cons, typed_cons, hlast]
        by_cases hv : v = .null
        · subst hv
          rw [hnull, Option.bind_eq_bind, Option.bind_some, ih, hnone]
          simp only [true_or, true_and]
        · rw [hread old v hv]
          cases hx : read v with
          | none => simp [hv]
          | some y =>
              rw [Option.map_some, Option.bind_eq_bind, Option.bind_some, ih]
              simp only [Option.isSome_some, or_true, true_and]
  rw [hfold none, PointerHolds]
  cases values.getLast? <;> rfl

end Fields

theorem storeMap_eq_some_iff {old entries : List (String × Json)} {v : Json} :
    storeMap old v = some entries ↔ (v = .null ∨ (membersOf v).isSome) ∧
      entries = (membersOf v).elim [] (fun ms => old ++ ms) := by
  cases v <;> simp [storeMap, membersOf, eq_comm]

theorem foldlM_storeMap_iff {values : List Json} {entries : List (String × Json)} :
    values.foldlM storeMap [] = some entries ↔ MapHolds values entries := by
  have hfold : ∀ old, values.foldlM storeMap old = some entries ↔ Typed membersOf values ∧
      entries = values.foldl (fun old v => (membersOf v).elim [] (fun ms => old ++ ms)) old := by
    induction values with
    | nil =>
        intro old
        rw [List.foldlM_nil]
        constructor
        · intro h
          exact ⟨fun v hv => absurd hv List.not_mem_nil, (Option.some.inj h).symm⟩
        · rintro ⟨-, rfl⟩
          rfl
    | cons v values ih =>
        intro old
        rw [List.foldlM_cons, typed_cons, List.foldl_cons, Option.bind_eq_bind, Option.bind_eq_some_iff]
        constructor
        · rintro ⟨stored, hstored, hrest⟩
          obtain ⟨hv, rfl⟩ := storeMap_eq_some_iff.mp hstored
          obtain ⟨htyped, hentries⟩ := (ih _).mp hrest
          exact ⟨⟨hv, htyped⟩, hentries⟩
        · rintro ⟨⟨hv, htyped⟩, hentries⟩
          exact ⟨_, storeMap_eq_some_iff.mpr ⟨hv, rfl⟩, (ih _).mpr ⟨htyped, hentries⟩⟩
  exact hfold []

theorem field_text_iff {name x : String} {ms : List (String × Json)} :
    field storeString "" name ms = some x ↔ FieldHolds textOf "" (fieldValues name ms) x :=
  foldlM_store_iff (fun _ => rfl) (fun _ v hv => by cases v <;> first | rfl | exact absurd rfl hv) rfl

theorem field_integer_iff {name : String} {x : Int} {ms : List (String × Json)} :
    field storeInt 0 name ms = some x ↔ FieldHolds integerOf 0 (fieldValues name ms) x :=
  foldlM_store_iff (fun _ => rfl) (fun _ v hv => by cases v <;> first | rfl | exact absurd rfl hv) rfl

theorem field_integerPtr_iff {name : String} {x : Option Int} {ms : List (String × Json)} :
    field storeIntPtr none name ms = some x ↔ PointerHolds integerOf (fieldValues name ms) x :=
  foldlM_replace_iff (fun _ => rfl) (fun _ v hv => by cases v <;> first | rfl | exact absurd rfl hv) rfl

theorem field_flagPtr_iff {name : String} {x : Option Bool} {ms : List (String × Json)} :
    field storeBoolPtr none name ms = some x ↔ PointerHolds flagOf (fieldValues name ms) x :=
  foldlM_replace_iff (fun _ => rfl) (fun _ v hv => by cases v <;> first | rfl | exact absurd rfl hv) rfl

-- ============================================================================
-- Records of lines
-- ============================================================================

theorem unmarshalRecord_obj_iff {ms : List (String × Json)} {record : FaultTraceRecord} :
    unmarshalRecord (.obj ms) = some record ↔ RecordOf ms record := by
  simp only [unmarshalRecord, structMembers, Option.bind_eq_bind, Option.bind_some, Option.bind_eq_some_iff,
    field_text_iff, field_integer_iff, field_integerPtr_iff, field_flagPtr_iff, Option.some.injEq]
  constructor
  · rintro ⟨_, hschema, _, hrun, _, hsequence, _, hseed, _, hevent, _, hboundary, _, haction, _, hcode, _,
      hbounded, _, hfields, rfl⟩
    exact ⟨hschema, hrun, hsequence, hseed, hevent, hboundary, rfl, haction, hcode, hbounded,
      foldlM_storeMap_iff.mp hfields⟩
  · intro h
    refine ⟨_, h.schemaVersion, _, h.runID, _, h.sequence, _, h.seed, _, h.event, _, h.boundary, _, h.action,
      _, h.returnCode, _, h.cleanupBounded, _, foldlM_storeMap_iff.mpr h.fields, ?_⟩
    rw [rawField, ← h.command]

/-- What is not an object gives no record, or the empty one. -/
theorem unmarshalRecord_eq_some {v : Json} {record : FaultTraceRecord} (h : unmarshalRecord v = some record)
    (hschema : record.schemaVersion ≠ "") : ∃ ms, v = .obj ms := by
  cases v with
  | obj ms => exact ⟨ms, rfl⟩
  | null =>
      cases Option.some.inj h
      exact absurd rfl hschema
  | bool b => cases h
  | num n => cases h
  | str s => cases h
  | arr xs => cases h

theorem decodeRecord_eq_ok_iff {line : List Char} {record : FaultTraceRecord} :
    decodeRecord line = .ok record ↔ (String.ofList line).utf8ByteSize < maxLineBytes ∧
      ∃ v rest, Reads (dropCR line) v rest ∧ v.depth ≤ maxNestingDepth ∧ unmarshalRecord v = some record := by
  rw [decodeRecord]
  split
  case isTrue hlong => exact ⟨fun h => (by cases h), fun h => absurd hlong (not_le.mpr h.1)⟩
  case isFalse hshort =>
    rw [not_le] at hshort
    have hreads : ∀ v rest, Reads (dropCR line) v rest ↔
        readValue ((dropCR line).length + 1) (dropCR line) = some (v, rest) :=
      fun v rest => ⟨fun h => h.at (Nat.le_add_right_of_le (Nat.le_succ _)), fun h => ⟨_, h⟩⟩
    simp only [hshort, true_and, hreads]
    cases hread : readValue ((dropCR line).length + 1) (dropCR line) with
    | none => exact ⟨fun h => (by cases h), fun ⟨_, _, h, _⟩ => (by cases h)⟩
    | some r =>
        obtain ⟨v, rest⟩ := r
        simp only [Option.some.injEq, Prod.mk.injEq]
        constructor
        · intro h
          split at h
          case isTrue hshallow =>
            exact ⟨v, rest, ⟨rfl, rfl⟩, of_decide_eq_true hshallow, getOr_eq_ok.mp h⟩
          case isFalse => cases h
        · rintro ⟨_, _, ⟨rfl, rfl⟩, hdepth, h⟩
          split
          case isTrue => exact getOr_eq_ok.mpr h
          case isFalse hdeep => exact absurd (decide_eq_true hdepth) hdeep

theorem decodeRecord_iff {line : List Char} {record : FaultTraceRecord} (hschema : record.schemaVersion ≠ "") :
    decodeRecord line = .ok record ↔ LineHolds line record := by
  rw [decodeRecord_eq_ok_iff]
  constructor
  · rintro ⟨hfits, v, rest, hreads, hdepth, h⟩
    obtain ⟨ms, rfl⟩ := unmarshalRecord_eq_some h hschema
    exact ⟨hfits, ms, rest, hreads, hdepth, unmarshalRecord_obj_iff.mp h⟩
  · rintro ⟨hfits, ms, rest, hreads, hdepth, h⟩
    exact ⟨hfits, _, rest, hreads, hdepth, unmarshalRecord_obj_iff.mpr h⟩

/-- The records that name a schema are decoded from a text exactly when it holds them. -/
theorem scan_decodes_iff {text : List Char} {records : List FaultTraceRecord}
    (hschema : ∀ r ∈ records, r.schemaVersion ≠ "") :
    (scanLines text).mapM decodeRecord = .ok records ↔ TextHolds text records := by
  have hlines : ∀ lines : List (List Char), lines.mapM decodeRecord = .ok records ↔
      List.Forall₂ LineHolds lines records := by
    intro lines
    induction lines generalizing records with
    | nil =>
        rw [List.mapM_nil, List.forall₂_nil_left_iff]
        exact ⟨fun h => (pure_eq_ok.mp h).symm, fun h => h ▸ rfl⟩
    | cons line lines ih =>
        rw [List.mapM_cons, bind_eq_ok]
        constructor
        · rintro ⟨record, hrecord, h⟩
          obtain ⟨rest, hrest, h⟩ := bind_eq_ok.mp h
          cases pure_eq_ok.mp h
          obtain ⟨hfirst, hall⟩ := List.forall_mem_cons.mp hschema
          exact .cons ((decodeRecord_iff hfirst).mp hrecord) ((ih hall).mp hrest)
        · intro h
          cases h with
          | cons hline hrest =>
              obtain ⟨hfirst, hall⟩ := List.forall_mem_cons.mp hschema
              exact ⟨_, (decodeRecord_iff hfirst).mpr hline, bind_eq_ok.mpr ⟨_, (ih hall).mpr hrest, rfl⟩⟩
  rw [hlines, TextHolds]
  constructor
  · intro h
    exact ⟨_, lines_scanLines text, h⟩
  · rintro ⟨lines, htext, h⟩
    rwa [lines_iff.mp htext]

end DurableEngine.Invariants
