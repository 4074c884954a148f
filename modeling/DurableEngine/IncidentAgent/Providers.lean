/-
  DurableEngine.IncidentAgent.Providers

  The paid requests of `OpenAIResponsesDecisionProvider.diagnose` of
  `dur056_agent.py` and `Dur056OpenAIEmbeddingProvider.embed` of
  `dur056_retrieval.py`.

  Both reserve before they send, and close the reservation when the answer is
  read: it settles, or the handler of the errors of reading fails it.  The
  handler names five exceptions.  A body can raise others, and what it raises
  then leaves the reservation open.
-/

import DurableEngine.IncidentAgent.SpendLedger
import DurableEngine.Lib.PythonJson

namespace DurableEngine.IncidentAgent.Provider

open Lib

-- ============================================================================
-- Accesses
-- ============================================================================

/-- What reading a body may raise. -/
inductive PyError where
  /-- `KeyError` -/
  | key
  /-- `TypeError` -/
  | type
  /-- `ValueError`, `json.JSONDecodeError` among them -/
  | value
  /-- `AttributeError` -/
  | attribute
  /-- `OverflowError` -/
  | overflow
  /-- `RecursionError` -/
  | recursion
deriving DecidableEq, Repr

/-- The handler of the errors of reading names the exception. -/
def PyError.caught : PyError → Bool
  | .key | .type | .value => true
  | .attribute | .overflow | .recursion => false

/-- What `json.loads` makes of a text. -/
inductive Loaded where
  | value (v : PyValue)
  | invalid
  /-- Nested deeper than the stack. -/
  | tooDeep

/-- What `sorted` makes of values with their keys. -/
inductive Arranged where
  | values (vs : List PyValue)
  /-- `<` is not defined between two keys. -/
  | incomparable
  | tooDeep

/-- What the calls take from the interpreter; `prints` tells the values that `str` has stack for. -/
structure Interpreter where
  loads : PyStr → Loaded
  intOfStr : PyStr → Option ℤ
  prints : PyValue → Bool
  sorted : List (PyValue × PyValue) → Arranged

/-- `v[key]` -/
def subscript (v : PyValue) (key : String) : Except PyError PyValue :=
  match v with
  | .dict items => getOr (PyValue.get items key) .key
  | _ => .error .type

/-- `v.get(key)` -/
def getMember (v : PyValue) (key : String) : Except PyError (Option PyValue) :=
  match v with
  | .dict items => .ok (PyValue.get items key)
  | _ => .error .attribute

/-- `int(v)` -/
def toInt (py : Interpreter) : PyValue → Except PyError ℤ
  | .bool b => .ok (if b then 1 else 0)
  | .int i => .ok i
  | .float (.finite n) => .ok (n.toFloat.rat.num.tdiv n.toFloat.rat.den)
  | .float (.infinite _) => .error .overflow
  | .float .nan => .error .value
  | .str s => getOr (py.intOfStr s) .value
  | _ => .error .type

/-- `int(v[key])` -/
def tokensAt (py : Interpreter) (v : PyValue) (key : String) : Except PyError ℤ := do
  toInt py (← subscript v key)

/-- `str(v) if v else None`, of `response.get("id")`; the text itself is only stored. -/
def readIdentifier (py : Interpreter) (response : PyValue) : Except PyError Unit := do
  match ← getMember response "id" with
  | some v => rejectIf (v.truthy = true ∧ py.prints v = false) .recursion
  | none => pure ()

/-- `v == text`, for a member that may be missing. -/
def isText (v : Option PyValue) (text : String) : Bool :=
  match v with
  | some (.str s) => decide (s = .ofString text)
  | _ => false

/-- `set(items) == {..}` -/
def hasKeys (items : List (PyKey × PyValue)) (keys : List String) : Bool :=
  items.all (fun m => keys.any (fun key => decide (m.1 = .str (.ofString key)))) &&
    keys.all (fun key => (PyValue.get items key).isSome)

def isStr : Option PyValue → Bool
  | some (.str _) => true
  | _ => false

def isBool : Option PyValue → Bool
  | some (.bool _) => true
  | _ => false

-- ============================================================================
-- The decision
-- ============================================================================

def partText : PyValue → Option PyStr
  | .dict items =>
      if isText (PyValue.get items "type") "output_text" then
        match PyValue.get items "text" with
        | some (.str text) => some text
        | _ => none
      else none
  | _ => none

def itemText : PyValue → Option PyStr
  | .dict items =>
      if isText (PyValue.get items "type") "message" then
        match PyValue.get items "content" with
        | some (.list parts) => parts.findSome? partText
        | _ => none
      else none
  | _ => none

/-- `_output_text` -/
def outputText (response : PyValue) : Except PyError PyStr := do
  match ← getMember response "output" with
  | some (.list output) => getOr (output.findSome? itemText) .value
  | _ => .error .value

/-- `ACTION_PARAMETERS` over the values of `FAMILY_ACTIONS`. -/
def actionParameters : List (String × List String) :=
  [("rollback", ["revision"]), ("scale_pool", ["replicas"]), ("set_timeout", ["timeout_ms"]),
    ("compact_volume", ["retention_days"])]

def validParameters (action : Option PyValue) : Option PyValue → Bool
  | some (.dict parameters) =>
      actionParameters.any (fun entry => isText action entry.1 && hasKeys parameters entry.2)
  | _ => false

def validProposal : Option PyValue → Bool
  | some .none => true
  | some (.dict items) =>
      hasKeys items ["action", "service", "parameters"] && isStr (PyValue.get items "action") &&
        isStr (PyValue.get items "service") &&
        validParameters (PyValue.get items "action") (PyValue.get items "parameters")
  | _ => false

/-- `isinstance(confidence, (int, float)) and 0 <= confidence <= 1` -/
def validConfidence : Option PyValue → Bool
  | some (.bool _) => true
  | some (.int i) => decide (0 ≤ i ∧ i ≤ 1)
  | some (.float (.finite n)) => decide (0 ≤ n.toFloat.rat ∧ n.toFloat.rat ≤ 1)
  | _ => false

inductive SchemaID where
  | structuredV1
  | structuredV2
deriving DecidableEq, Repr

def SchemaID.required : SchemaID → List String
  | .structuredV1 => ["diagnosis", "citations", "proposal", "uncertainty"]
  | .structuredV2 => ["diagnosis", "citations", "proposal", "uncertainty", "confidence", "evidence_summary"]

/-- `_validate_decision` does not raise; all it raises is `ValueError`. -/
def validDecision (schema : SchemaID) : PyValue → Bool
  | .dict items =>
      hasKeys items schema.required && isStr (PyValue.get items "diagnosis") &&
        (match PyValue.get items "citations" with
          | some (.list citations) => citations.all (fun c => isStr (some c))
          | _ => false) &&
        isBool (PyValue.get items "uncertainty") && validProposal (PyValue.get items "proposal") &&
        (match schema with
          | .structuredV1 => true
          | .structuredV2 =>
              validConfidence (PyValue.get items "confidence") && isStr (PyValue.get items "evidence_summary"))
  | _ => false

def loads (py : Interpreter) (text : PyStr) : Except PyError PyValue :=
  match py.loads text with
  | .value v => .ok v
  | .invalid => .error .value
  | .tooDeep => .error .recursion

/-- The tokens that a body reports. -/
structure Usage where
  inputTokens : ℤ
  outputTokens : ℤ
  reasoningTokens : ℤ
deriving DecidableEq

/-- `usage.get("output_tokens_details") or {}` -/
def detailsOf (details : Option PyValue) : PyValue :=
  match details with
  | some v => if v.truthy then v else .dict []
  | none => .dict []

/-- The decision of a body. -/
def readDecision (py : Interpreter) (schema : SchemaID) (response : PyValue) : Except PyError PyValue := do
  let text ← outputText response
  let decision ← loads py text
  rejectIf (validDecision schema decision = false) .value
  pure decision

/-- What is read of a body before `settle` is called. -/
def readResponse (py : Interpreter) (schema : SchemaID) (response : PyValue) :
    Except PyError (PyValue × Usage) := do
  let decision ← readDecision py schema response
  let usage ← subscript response "usage"
  let inputTokens ← tokensAt py usage "input_tokens"
  let outputTokens ← tokensAt py usage "output_tokens"
  let details ← getMember usage "output_tokens_details"
  let reasoning ← getMember (detailsOf details) "reasoning_tokens"
  let reasoningTokens ← toInt py (reasoning.getD (.int 0))
  readIdentifier py response
  pure (decision, ⟨inputTokens, outputTokens, reasoningTokens⟩)

-- ============================================================================
-- The vectors
-- ============================================================================

/-- `EMBEDDING_DIMENSION` -/
def embeddingDimension : ℕ := 1536

/-- `EMBEDDING_BATCH_SIZE` -/
def embeddingBatchSize : ℕ := 48

/-- A key as an element of `iter(d)`. -/
def keyValue : PyKey → PyValue
  | .none => .none
  | .bool b => .bool b
  | .int i => .int i
  | .float x => .float x
  | .str s => .str s
  | .other => .other

/-- The elements that `for .. in v` runs over. -/
def elements : PyValue → Except PyError (List PyValue)
  | .list xs => .ok xs
  | .str s => .ok (s.map (fun p => .str [p]))
  | .dict items => .ok (items.map (fun m => keyValue m.1))
  | _ => .error .type

/-- `len(v)` -/
def len : PyValue → Except PyError ℕ
  | .str s => .ok s.length
  | .list xs => .ok xs.length
  | .dict items => .ok items.length
  | _ => .error .type

/-- `any(len(vector) != EMBEDDING_DIMENSION for vector in vectors)` -/
def anyMisfit : List PyValue → Except PyError Bool
  | [] => .ok false
  | v :: vs => do
      let n ← len v
      if n ≠ embeddingDimension then pure true else anyMisfit vs

def sorted (py : Interpreter) (keyed : List (PyValue × PyValue)) : Except PyError (List PyValue) :=
  match py.sorted keyed with
  | .values vs => .ok vs
  | .incomparable => .error .type
  | .tooDeep => .error .recursion

/-- The rows of a body with the keys they are sorted by. -/
def readRows (response : PyValue) : Except PyError (List (PyValue × PyValue)) := do
  let rows ← elements (← subscript response "data")
  rows.mapM (fun row => do pure (← subscript row "index", row))

/-- The vectors of a body, as many as there were inputs. -/
def readVectors (py : Interpreter) (count : ℕ) (response : PyValue) : Except PyError (List PyValue) := do
  let rows ← sorted py (← readRows response)
  let vectors ← rows.mapM (fun row => subscript row "embedding")
  rejectIf (vectors.length ≠ count) .value
  let misfit ← anyMisfit vectors
  rejectIf (misfit = true) .value
  pure vectors

def readEmbeddings (py : Interpreter) (count : ℕ) (response : PyValue) :
    Except PyError (List PyValue × Usage) := do
  let vectors ← readVectors py count response
  let usage ← subscript response "usage"
  let tokens ← tokensAt py usage "prompt_tokens"
  readIdentifier py response
  pure (vectors, ⟨tokens, 0, 0⟩)

-- ============================================================================
-- The requests
-- ============================================================================

/-- How a request ends: with a body that `json` parses, or without one. -/
inductive Answer where
  | httpError
  /-- `URLError` or `TimeoutError` -/
  | unreachable
  /-- Any other `Exception`, a body that is no JSON among them. -/
  | failed
  | body (v : PyValue)

/-- What a call raises. -/
inductive Raised where
  /-- `Dur056ProviderError` or `Dur056RetrievalError`, or an exception before the first reservation. -/
  | provider
  | ledger (e : LedgerError)
  /-- An exception of reading that no handler names. -/
  | escaped (e : PyError)
deriving DecidableEq

/-- The file when a call is over, and what it returns or raises. -/
structure Finished (α : Type) where
  file : Ledger
  result : Except Raised α

/-- A handler that fails the reservation and raises the provider's error. -/
def failing {α : Type} (l : Ledger) (callID : String) (outcomeUncertain : Bool) : Finished α :=
  match l.fail callID outcomeUncertain with
  | .ok l' => ⟨l', .error .provider⟩
  | .error e => ⟨l, .error (.ledger e)⟩

/-- The `try` block around a body: it is read and the reservation is settled. -/
def concluding {α : Type} (l : Ledger) (callID : String) (read : Except PyError (α × Usage)) :
    Finished α :=
  match read with
  | .error e => if e.caught then failing l callID true else ⟨l, .error (.escaped e)⟩
  | .ok (a, usage) =>
      match l.settle callID usage.inputTokens usage.outputTokens usage.reasoningTokens with
      | .error _ => failing l callID true
      | .ok (l', .error _) => failing l' callID true
      | .ok (l', .ok _) => ⟨l', .ok a⟩

/-- A call of `diagnose`.  `requestBytes` is the length of the request's text, when there is one: the tool's
    text has to be JSON and the request to be encoded. -/
structure Diagnosis where
  schema : SchemaID
  heldoutAuthorized : Bool
  transportRetries : ℕ
  maxOutputTokens : ℤ
  candidate : String
  arm : String
  caseID : String
  requestBytes : Option ℤ

/-- `MODEL_ID` -/
def modelID : String := "gpt-6-luna"

/-- `EMBEDDING_MODEL` -/
def embeddingModel : String := "text-embedding-3-small"

/-- How an attempt ends: the call is over, or the transport failed and the loop goes on. -/
inductive Attempted where
  | finished (f : Finished PyValue)
  | unreached (l : Ledger)

namespace Diagnosis

variable (d : Diagnosis) (py : Interpreter) (answer : ℕ → Answer) (drawn : ℕ → String)

def reserve (l : Ledger) (requestBytes : ℤ) (attempt : ℕ) : Except LedgerError (Ledger × String) :=
  l.reserve modelID s!"dur056-agent-{d.candidate}-{d.arm}-{d.caseID}-attempt-{attempt}" requestBytes
    d.maxOutputTokens (drawn attempt)

/-- One pass through the loop of attempts. -/
def attempt (requestBytes : ℤ) (attempt : ℕ) (l : Ledger) : Attempted :=
  match d.reserve drawn l requestBytes attempt with
  | .error e => .finished ⟨l, .error (.ledger e)⟩
  | .ok (l', callID) =>
      match answer attempt with
      | .httpError => .finished (failing l' callID false)
      | .unreachable =>
          match l'.fail callID true with
          | .error e => .finished ⟨l', .error (.ledger e)⟩
          | .ok l'' => .unreached l''
      | .failed => .finished (failing l' callID true)
      | .body v => .finished (concluding l' callID (readResponse py d.schema v))

/-- The attempts from `attempt` on, with `retries` left after it. -/
def attempts (requestBytes : ℤ) : (retries attempt : ℕ) → Ledger → Finished PyValue
  | 0, attempt, l =>
      match d.attempt py answer drawn requestBytes attempt l with
      | .finished f => f
      | .unreached l' => ⟨l', .error .provider⟩
  | retries + 1, attempt, l =>
      match d.attempt py answer drawn requestBytes attempt l with
      | .finished f => f
      | .unreached l' => attempts requestBytes retries (attempt + 1) l'

section Attempts

variable {d py answer drawn} {requestBytes : ℤ} {retries attempt : ℕ} {l l' : Ledger}

-- an equation of `attempts` is compared without looking into the attempt
attribute [local irreducible] Diagnosis.attempt

theorem attempts_finished {f : Finished PyValue}
    (h : d.attempt py answer drawn requestBytes attempt l = .finished f) :
    d.attempts py answer drawn requestBytes retries attempt l = f := by
  cases retries with
  | zero =>
      change (match d.attempt py answer drawn requestBytes attempt l with
        | .finished f => f
        | .unreached l' => ⟨l', .error .provider⟩) = f
      rw [h]
  | succ retries =>
      change (match d.attempt py answer drawn requestBytes attempt l with
        | .finished f => f
        | .unreached l' => d.attempts py answer drawn requestBytes retries (attempt + 1) l') = f
      rw [h]

theorem attempts_zero (h : d.attempt py answer drawn requestBytes attempt l = .unreached l') :
    d.attempts py answer drawn requestBytes 0 attempt l = ⟨l', .error .provider⟩ := by
  change (match d.attempt py answer drawn requestBytes attempt l with
    | .finished f => f
    | .unreached l' => ⟨l', .error .provider⟩) = _
  rw [h]

theorem attempts_succ (h : d.attempt py answer drawn requestBytes attempt l = .unreached l') :
    d.attempts py answer drawn requestBytes (retries + 1) attempt l =
      d.attempts py answer drawn requestBytes retries (attempt + 1) l' := by
  change (match d.attempt py answer drawn requestBytes attempt l with
    | .finished f => f
    | .unreached l' => d.attempts py answer drawn requestBytes retries (attempt + 1) l') = _
  rw [h]

end Attempts

/-- `diagnose` -/
def diagnose (l : Ledger) : Finished PyValue :=
  if "hel-".isPrefixOf d.caseID ∧ d.heldoutAuthorized = false then ⟨l, .error .provider⟩
  else
    match d.requestBytes with
    | none => ⟨l, .error .provider⟩
    | some requestBytes => d.attempts py answer drawn requestBytes d.transportRetries 1 l

end Diagnosis

/-- A call of `embed`. -/
structure Embedding where
  refusedSplit : Bool
  inputs : List String
  ids : List String
  operation : String
  requestBytes : Option ℤ

namespace Embedding

def reserve (e : Embedding) (l : Ledger) (requestBytes : ℤ) (drawn : String) :
    Except LedgerError (Ledger × String) :=
  l.reserve embeddingModel e.operation requestBytes 0 drawn

/-- `embed` -/
def embed (e : Embedding) (py : Interpreter) (answer : Answer) (drawn : String) (l : Ledger) :
    Finished (List PyValue) :=
  if e.refusedSplit = true ∨ e.inputs = [] ∨ e.inputs.length ≠ e.ids.length ∨
      embeddingBatchSize < e.inputs.length ∨ e.inputs.any isBlank = true then
    ⟨l, .error .provider⟩
  else
    match e.requestBytes with
    | none => ⟨l, .error .provider⟩
    | some requestBytes =>
        match e.reserve l requestBytes drawn with
        | .error err => ⟨l, .error (.ledger err)⟩
        | .ok (l', callID) =>
            match answer with
            | .httpError => failing l' callID false
            | .unreachable | .failed => failing l' callID true
            | .body v => concluding l' callID (readEmbeddings py e.inputs.length v)

end Embedding

end DurableEngine.IncidentAgent.Provider
