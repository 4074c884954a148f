/-
  DurableEngine.Lib.Unmarshal

  `json.Unmarshal` into structs with string, integer, string-slice and raw
  fields.  Every member whose name folds to the field's name is stored into
  the field in document order, `null` leaves the field as it is, and one value
  of the wrong type fails the whole call.
-/

import DurableEngine.Lib.Json

namespace DurableEngine.Lib

/-- The representative of a character's case orbit, for the orbits of letters
    that occur in field names. -/
def foldChar (c : Char) : Char :=
  if c.toNat = 0x17f then 's' else if c.toNat = 0x212a then 'k' else c.toLower

def foldName (s : String) : List Char := s.toList.map foldChar

/-- The members of a value unmarshalled into a struct. -/
def structMembers : Json → Option (List (String × Json))
  | .obj ms => some ms
  | .null => some []
  | _ => none

/-- The values stored into the field `name`, in order. -/
def fieldValues (name : String) (ms : List (String × Json)) : List Json :=
  (ms.filter (fun m => foldName m.1 = foldName name)).map Prod.snd

/-- Store a value into a `string`. -/
def storeString (old : String) : Json → Option String
  | .str s => some s
  | .null => some old
  | _ => none

/-- Store a value into an `int`. -/
def storeInt (old : Int) : Json → Option Int
  | .num n => n.toInt?
  | .null => some old
  | _ => none

/-- A `[]string`, and what its backing array holds after its end. -/
structure StringSlice where
  elems : List String
  spare : List String
deriving DecidableEq

def StringSlice.zero : StringSlice := ⟨[], []⟩

/-- Store the elements of an array over the strings of a backing array. -/
def storeElements : List String → List Json → Option (List String)
  | _, [] => some []
  | old, x :: xs => do
      let s ← storeString (old.headD "") x
      let rest ← storeElements old.tail xs
      some (s :: rest)

/-- Store a value into a `[]string`: the elements go into the backing array there is, except that an
    empty array gets one of its own. -/
def storeStrings (old : StringSlice) : Json → Option StringSlice
  | .arr [] => some .zero
  | .arr xs =>
      (storeElements (old.elems ++ old.spare) xs).map
        (fun elems => ⟨elems, (old.elems ++ old.spare).drop xs.length⟩)
  | .null => some .zero
  | _ => none

/-- A value unmarshalled into a `[]string`. -/
def unmarshalStrings (v : Json) : Option (List String) := (storeStrings .zero v).map StringSlice.elems

theorem unmarshalStrings_arr (xs : List Json) : unmarshalStrings (.arr xs) = storeElements [] xs := by
  cases xs with
  | nil => rfl
  | cons x xs =>
      simp only [unmarshalStrings, storeStrings, StringSlice.zero, List.append_nil]
      cases storeElements [] (x :: xs) <;> rfl

/-- Store a value into a `[]json.RawMessage`. -/
def storeRaws (_old : List Json) : Json → Option (List Json)
  | .arr xs => some xs
  | .null => some []
  | _ => none

/-- A field of a struct after all members were stored. -/
def field {α : Type} (store : α → Json → Option α) (zero : α) (name : String)
    (ms : List (String × Json)) : Option α :=
  (fieldValues name ms).foldlM store zero

example : field storeStrings .zero "branches" [("branches", .arr [.str "a", .str "b", .str "c"]),
    ("branches", .arr [.str "x"]), ("branches", .arr [.null, .null])] = some ⟨["x", "b"], ["c"]⟩ := by decide

/-- A `json.RawMessage` field: the last value, if any. -/
def rawField (name : String) (ms : List (String × Json)) : Option Json :=
  (fieldValues name ms).getLast?

/-- A value unmarshalled into a `string`. -/
def unmarshalString (v : Json) : Option String := storeString "" v

/-- A value unmarshalled into a map from strings to strings. -/
def unmarshalStringMap (v : Json) : Option (List (String × String)) := do
  let ms ← structMembers v
  let kvs ← ms.mapM (fun m => (unmarshalString m.2).map (fun s => (m.1, s)))
  some (dedupLast kvs)

end DurableEngine.Lib
