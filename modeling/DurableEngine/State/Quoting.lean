/-
  DurableEngine.State.Quoting

  The payload formats as texts: what `fmt.Sprintf` writes for an object, read
  as JSON, is what `sprintfJson` takes it for.
-/

import DurableEngine.Lib.Quote
import DurableEngine.State.Statements

namespace DurableEngine.State

open Lib

/-- The text of an argument: `%q`, or `%d` of a 64-bit integer. -/
def Field.text (env : Env) : Field → List Char
  | .quoted s => quoteText env.isPrint s
  | .int n => (JsonNumber.ofInt64 n).literal

/-- The object text `fmt.Sprintf` writes. -/
def sprintfText (env : Env) (fields : List (String × Field)) : List Char :=
  objectText (fields.map (Prod.map id (Field.text env)))

example : sprintfText ⟨⟨0, 0⟩, false, false, fun _ => true, fun _ _ => true⟩
    [("node_id", .quoted "a\x07\n"), ("iteration", .int (-3))] =
    "\x7b\"node_id\":\"a\\a\\n\",\"iteration\":-3\x7d".toList := by decide +kernel

/-- The argument as a document, when JSON shares its spelling. -/
def Field.read (env : Env) (f : Field) : Option Json := if f.quotable env then some f.json else none

theorem Field.readsAs (env : Env) (f : Field) : ReadsAs (f.text env) (f.read env) := by
  cases f with
  | quoted s => exact readsAs_quoteText env.isPrint s
  | int n => exact readsAs_literal (JsonNumber.ofInt64 n)

theorem mapM_memberValue (env : Env) (fields : List (String × Field)) :
    fields.mapM (memberValue (Field.read env)) =
      if fields.all (fun f => f.2.quotable env) then some (fields.map (fun f => (f.1, f.2.json)))
      else none := by
  induction fields with
  | nil => rfl
  | cons f fields ih =>
      rw [List.mapM_cons, ih, List.all_cons, memberValue, Field.read]
      cases f.2.quotable env with
      | false => rfl
      | true => cases fields.all (fun f => f.2.quotable env) <;> rfl

/-- The text is a document exactly when JSON shares the spelling of every argument. -/
theorem readDocument_sprintfText (env : Env) {fields : List (String × Field)}
    (hnames : ∀ f ∈ fields, PlainName f.1) (hne : fields ≠ []) :
    readDocument (sprintfText env fields) =
      if fields.all (fun f => f.2.quotable env) then some (.obj (fields.map (fun f => (f.1, f.2.json))))
      else none := by
  rw [sprintfText, readDocument_objectText (Field.readsAs env) hnames hne, mapM_memberValue]
  split <;> rfl

end DurableEngine.State
