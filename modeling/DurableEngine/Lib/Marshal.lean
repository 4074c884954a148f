/-
  DurableEngine.Lib.Marshal

  The text `json.Marshal` writes for a value decoded with `UseNumber`: number
  literals as they were spelled, map members in byte order of their names,
  strings with HTML-safe escapes.
-/

import DurableEngine.Lib.Json

namespace DurableEngine.Lib

/-- The decimal digits of `n`, padded with zeros to `width`. -/
def paddedDigits (n width : Nat) : List Char :=
  let ds := (toString n).toList
  List.replicate (width - ds.length) '0' ++ ds

def Exponent.literal (e : Exponent) : List Char :=
  (if e.upper then 'E' else 'e') ::
    (match e.sign with
      | none => []
      | some true => ['-']
      | some false => ['+']) ++
    List.replicate e.zeros '0' ++ (toString e.abs).toList

/-- The literal of a number. -/
def JsonNumber.literal (n : JsonNumber) : List Char :=
  let ds := paddedDigits n.coeff (n.scale + 1)
  let int := ds.take (ds.length - n.scale)
  let frac := ds.drop (ds.length - n.scale)
  (if n.neg then ['-'] else []) ++ int ++ (if n.scale = 0 then [] else '.' :: frac) ++
    (n.exponent.map Exponent.literal).getD []

def hex4 (n : Nat) : List Char :=
  let digit (d : Nat) := "0123456789abcdef".toList.getD d '0'
  [digit (n / 4096 % 16), digit (n / 256 % 16), digit (n / 16 % 16), digit (n % 16)]

/-- A character inside a JSON string. -/
def escapeChar (c : Char) : List Char :=
  let n := c.toNat
  if c = '"' then ['\\', '"']
  else if c = '\\' then ['\\', '\\']
  else if n = 8 then ['\\', 'b']
  else if n = 9 then ['\\', 't']
  else if n = 10 then ['\\', 'n']
  else if n = 12 then ['\\', 'f']
  else if n = 13 then ['\\', 'r']
  else if n < 32 ∨ c = '<' ∨ c = '>' ∨ c = '&' ∨ n = 0x2028 ∨ n = 0x2029 then '\\' :: 'u' :: hex4 n
  else [c]

def marshalString (s : String) : List Char := '"' :: s.toList.flatMap escapeChar ++ ['"']

def nameLe {α : Type} (a b : String × α) : Prop := a.1 ≤ b.1

instance {α : Type} : DecidableRel (nameLe (α := α)) := fun a b =>
  inferInstanceAs (Decidable (a.1 ≤ b.1))

mutual

/-- `json.Marshal` of a decoded value. -/
def marshalTree : Json → List Char
  | .null => "null".toList
  | .bool b => (if b then "true" else "false").toList
  | .num n => n.literal
  | .str s => marshalString s
  | .arr xs => '[' :: marshalList xs ++ [']']
  | .obj ms => '\x7b' ::
      (((dedupLast (marshalMembers ms)).insertionSort nameLe).map Prod.snd).foldr
        (fun m acc => if acc = ['\x7d'] then m ++ acc else m ++ ',' :: acc) ['\x7d']

def marshalList : List Json → List Char
  | [] => []
  | [x] => marshalTree x
  | x :: xs => marshalTree x ++ ',' :: marshalList xs

/-- The members of an object, each with its text. -/
def marshalMembers : List (String × Json) → List (String × List Char)
  | [] => []
  | (k, x) :: xs => (k, marshalString k ++ ':' :: marshalTree x) :: marshalMembers xs

end

def marshal (v : Json) : String := String.ofList (marshalTree v)

example : marshal (.obj [("b", .num ⟨true, 105, 1, some ⟨true, some false, 1, 2⟩⟩),
    ("a", .arr [.bool true, .str "x<"])]) =
    "\x7b\"a\":[true,\"x\\u003c\"],\"b\":-10.5E+02\x7d" := by decide +kernel

end DurableEngine.Lib
