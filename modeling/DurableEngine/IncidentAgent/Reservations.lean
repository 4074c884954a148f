/-
  DurableEngine.IncidentAgent.Reservations

  When a paid request leaves its reservation open.

  Every exit but one closes what was reserved: a refused reservation adds no
  entry, a handler fails it, a settlement that raises has written it.  The one
  exit is a body that raises what no handler names.  The shapes of such a body
  are `Leaks` and `EmbeddingLeaks`.
-/

import DurableEngine.IncidentAgent.Providers

namespace DurableEngine.IncidentAgent.Provider

open Lib

-- ============================================================================
-- Bodies that no handler is for
-- ============================================================================

def isInfinite : PyValue → Bool
  | .float (.infinite _) => true
  | _ => false

/-- The body names a response that `str` has no stack for. -/
def Unprintable (py : Interpreter) (response : PyValue) : Prop :=
  ∃ items v, response = .dict items ∧ PyValue.get items "id" = some v ∧ v.truthy = true ∧ py.prints v = false

/-- The body holds a decision, and these tokens at the head of its usage. -/
structure Counted (py : Interpreter) (schema : SchemaID) (response usage : PyValue) (input output : ℤ) :
    Prop where
  decision : ∃ decision, readDecision py schema response = .ok decision
  member : subscript response "usage" = .ok usage
  input : tokensAt py usage "input_tokens" = .ok input
  output : tokensAt py usage "output_tokens" = .ok output

/-- The body of a decision raises what the handler does not name. -/
inductive Leaks (py : Interpreter) (schema : SchemaID) (response : PyValue) : Prop where
  /-- An array, a string, a number or a constant. -/
  | notDict (h : ∀ items, response ≠ .dict items)
  /-- The text of the decision nests too deep. -/
  | deepDecision {text : PyStr} (htext : outputText response = .ok text) (hdeep : py.loads text = .tooDeep)
  | infiniteInput {decision usage v : PyValue} (hdecision : readDecision py schema response = .ok decision)
      (husage : subscript response "usage" = .ok usage) (hmember : subscript usage "input_tokens" = .ok v)
      (hinfinite : isInfinite v = true)
  | infiniteOutput {decision usage v : PyValue} {input : ℤ}
      (hdecision : readDecision py schema response = .ok decision)
      (husage : subscript response "usage" = .ok usage)
      (hinput : tokensAt py usage "input_tokens" = .ok input)
      (hmember : subscript usage "output_tokens" = .ok v) (hinfinite : isInfinite v = true)
  /-- The details of the tokens are no object, and not empty. -/
  | details {usage : PyValue} {input output : ℤ} {details : Option PyValue}
      (hcounted : Counted py schema response usage input output)
      (hdetails : getMember usage "output_tokens_details" = .ok details)
      (h : ∀ items, detailsOf details ≠ .dict items)
  | infiniteReasoning {usage v : PyValue} {input output : ℤ} {details : Option PyValue}
      (hcounted : Counted py schema response usage input output)
      (hdetails : getMember usage "output_tokens_details" = .ok details)
      (hmember : getMember (detailsOf details) "reasoning_tokens" = .ok (some v))
      (hinfinite : isInfinite v = true)
  | identifier {usage : PyValue} {input output tokens : ℤ} {details reasoning : Option PyValue}
      (hcounted : Counted py schema response usage input output)
      (hdetails : getMember usage "output_tokens_details" = .ok details)
      (hmember : getMember (detailsOf details) "reasoning_tokens" = .ok reasoning)
      (htokens : toInt py (reasoning.getD (.int 0)) = .ok tokens) (hid : Unprintable py response)

/-- The body of `count` vectors raises what the handler does not name. -/
inductive EmbeddingLeaks (py : Interpreter) (count : ℕ) (response : PyValue) : Prop where
  /-- The keys of the rows nest too deep to be compared. -/
  | deepIndices {rows : List (PyValue × PyValue)} (hrows : readRows response = .ok rows)
      (hdeep : py.sorted rows = .tooDeep)
  | infiniteTokens {vectors : List PyValue} {usage v : PyValue}
      (hvectors : readVectors py count response = .ok vectors)
      (husage : subscript response "usage" = .ok usage) (hmember : subscript usage "prompt_tokens" = .ok v)
      (hinfinite : isInfinite v = true)
  | identifier {vectors : List PyValue} {usage : PyValue} {tokens : ℤ}
      (hvectors : readVectors py count response = .ok vectors)
      (husage : subscript response "usage" = .ok usage)
      (htokens : tokensAt py usage "prompt_tokens" = .ok tokens) (hid : Unprintable py response)

-- ============================================================================
-- What a reading raises
-- ============================================================================

/-- A reading raises an exception that the handler does not name. -/
def Escapes {α : Type} (x : Except PyError α) : Prop := ∃ e, x = .error e ∧ e.caught = false

section Escapes

variable {α β : Type} {x : Except PyError α} {f : α → Except PyError β} {py : Interpreter} {v response : PyValue}
  {key : String}

theorem not_escapes_ok (a : α) : ¬ Escapes (.ok a) := by
  rintro ⟨e, h, -⟩
  cases h

theorem escapes_error {e : PyError} : Escapes (.error e : Except PyError α) ↔ e.caught = false :=
  ⟨fun ⟨_, h, hcaught⟩ => by cases h; exact hcaught, fun h => ⟨e, rfl, h⟩⟩

theorem escapes_bind : Escapes (x >>= f) ↔ Escapes x ∨ ∃ a, x = .ok a ∧ Escapes (f a) := by
  cases x with
  | error e =>
      rw [error_bind, escapes_error, escapes_error]
      exact ⟨.inl, fun h => h.elim id (fun ⟨_, h, _⟩ => nomatch h)⟩
  | ok a =>
      rw [ok_bind]
      exact ⟨fun h => .inr ⟨a, rfl, h⟩,
        fun h => h.elim (absurd · (not_escapes_ok a)) (fun ⟨_, h, hf⟩ => by cases h; exact hf)⟩

theorem escapes_rejectIf {c : Prop} [Decidable c] {e : PyError} :
    Escapes (rejectIf c e) ↔ c ∧ e.caught = false := by
  by_cases hc : c
  · rw [rejectIf_of e hc, escapes_error]
    exact ⟨fun h => ⟨hc, h⟩, And.right⟩
  · rw [rejectIf_of_not e hc]
    exact ⟨fun h => absurd h (not_escapes_ok _), fun h => absurd h.1 hc⟩

theorem escapes_getOr {o : Option α} {e : PyError} : Escapes (getOr o e) ↔ o = none ∧ e.caught = false := by
  cases o with
  | none => exact escapes_error.trans ⟨fun h => ⟨rfl, h⟩, And.right⟩
  | some a => exact ⟨fun h => absurd h (not_escapes_ok a), fun h => nomatch h.1⟩

theorem not_escapes_subscript : ¬ Escapes (subscript v key) := by
  unfold subscript
  split
  · exact fun h => nomatch (escapes_getOr.mp h).2
  · exact fun h => nomatch escapes_error.mp h

theorem escapes_getMember : Escapes (getMember v key) ↔ ∀ items, v ≠ .dict items := by
  unfold getMember
  split
  · exact ⟨fun h => absurd h (not_escapes_ok _), fun h => absurd rfl (h _)⟩
  · rename_i hother
    exact ⟨fun _ => hother, fun _ => escapes_error.mpr rfl⟩

theorem escapes_toInt : Escapes (toInt py v) ↔ isInfinite v = true := by
  cases v with
  | float x =>
      cases x with
      | finite n => exact ⟨fun h => absurd h (not_escapes_ok _), fun h => nomatch h⟩
      | infinite neg => exact ⟨fun _ => rfl, fun _ => escapes_error.mpr rfl⟩
      | nan => exact ⟨fun h => (nomatch escapes_error.mp h), fun h => nomatch h⟩
  | str s => exact ⟨fun h => (nomatch (escapes_getOr.mp h).2), fun h => nomatch h⟩
  | bool b => exact ⟨fun h => absurd h (not_escapes_ok _), fun h => nomatch h⟩
  | int i => exact ⟨fun h => absurd h (not_escapes_ok _), fun h => nomatch h⟩
  | none => exact ⟨fun h => (nomatch escapes_error.mp h), fun h => nomatch h⟩
  | list xs => exact ⟨fun h => (nomatch escapes_error.mp h), fun h => nomatch h⟩
  | dict items => exact ⟨fun h => (nomatch escapes_error.mp h), fun h => nomatch h⟩
  | other => exact ⟨fun h => (nomatch escapes_error.mp h), fun h => nomatch h⟩

theorem escapes_tokensAt :
    Escapes (tokensAt py v key) ↔ ∃ a, subscript v key = .ok a ∧ isInfinite a = true := by
  simp only [tokensAt, escapes_bind, not_escapes_subscript, false_or, escapes_toInt]

theorem escapes_readIdentifier :
    Escapes (readIdentifier py response) ↔ (∀ items, response ≠ .dict items) ∨ Unprintable py response := by
  unfold readIdentifier
  rw [escapes_bind, escapes_getMember]
  refine or_congr_right ⟨?_, ?_⟩
  · rintro ⟨member, hmember, hescapes⟩
    cases response with
    | dict items =>
        cases hmember
        cases hget : PyValue.get items "id" with
        | none => rw [hget] at hescapes; exact absurd hescapes (not_escapes_ok ())
        | some v =>
            rw [hget] at hescapes
            obtain ⟨⟨htruthy, hprints⟩, -⟩ := escapes_rejectIf.mp hescapes
            exact ⟨items, v, rfl, hget, htruthy, hprints⟩
    | _ => cases hmember
  · rintro ⟨items, v, rfl, hget, htruthy, hprints⟩
    refine ⟨some v, by rw [getMember, hget], escapes_rejectIf.mpr ⟨⟨htruthy, hprints⟩, rfl⟩⟩

theorem escapes_outputText : Escapes (outputText response) ↔ ∀ items, response ≠ .dict items := by
  unfold outputText
  rw [escapes_bind, escapes_getMember]
  refine or_iff_left ?_
  rintro ⟨member, -, hescapes⟩
  split at hescapes
  · exact nomatch (escapes_getOr.mp hescapes).2
  · exact nomatch escapes_error.mp hescapes

theorem escapes_loads {text : PyStr} : Escapes (loads py text) ↔ py.loads text = .tooDeep := by
  unfold loads
  cases py.loads text with
  | value v => exact ⟨fun h => absurd h (not_escapes_ok v), fun h => nomatch h⟩
  | invalid => exact ⟨fun h => (nomatch escapes_error.mp h), fun h => nomatch h⟩
  | tooDeep => exact ⟨fun _ => rfl, fun _ => escapes_error.mpr rfl⟩

theorem escapes_readDecision {schema : SchemaID} : Escapes (readDecision py schema response) ↔
    (∀ items, response ≠ .dict items) ∨ ∃ text, outputText response = .ok text ∧ py.loads text = .tooDeep := by
  simp only [readDecision, escapes_bind, escapes_outputText, escapes_loads, escapes_rejectIf, PyError.caught,
    Bool.true_eq_false, and_false, exists_false, or_false, pure, Except.pure, not_escapes_ok]

theorem escapes_readResponse {schema : SchemaID} :
    Escapes (readResponse py schema response) ↔ Leaks py schema response := by
  simp only [readResponse, escapes_bind, escapes_readDecision, not_escapes_subscript, escapes_tokensAt,
    escapes_getMember, escapes_toInt, escapes_readIdentifier, pure, Except.pure, not_escapes_ok, false_or,
    and_false, exists_false, or_false]
  constructor
  · rintro ((hdict | ⟨text, htext, hdeep⟩) | ⟨decision, hdecision, usage, husage, hrest⟩)
    · exact .notDict hdict
    · exact .deepDecision htext hdeep
    obtain ⟨v, hmember, hinfinite⟩ | ⟨input, hinput, hrest⟩ := hrest
    · exact .infiniteInput hdecision husage hmember hinfinite
    obtain ⟨v, hmember, hinfinite⟩ | ⟨output, houtput, hrest⟩ := hrest
    · exact .infiniteOutput hdecision husage hinput hmember hinfinite
    have hcounted : Counted py schema response usage input output :=
      ⟨⟨decision, hdecision⟩, husage, hinput, houtput⟩
    have hdict : ∃ items, usage = .dict items := by
      obtain ⟨v, hv, -⟩ := bind_eq_ok.mp hinput
      unfold subscript at hv
      split at hv
      · exact ⟨_, rfl⟩
      · cases hv
    obtain hnotDict | ⟨details, hdetails, hrest⟩ := hrest
    · obtain ⟨items, rfl⟩ := hdict
      exact absurd rfl (hnotDict items)
    obtain hnotDict | ⟨reasoning, hmember, hrest⟩ := hrest
    · exact .details hcounted hdetails hnotDict
    obtain hinfinite | ⟨tokens, htokens, hrest⟩ := hrest
    · cases reasoning with
      | none => cases hinfinite
      | some v => exact .infiniteReasoning hcounted hdetails hmember hinfinite
    obtain hnotDict | hid := hrest
    · exact .notDict hnotDict
    · exact .identifier hcounted hdetails hmember htokens hid
  · intro h
    cases h with
    | notDict h => exact .inl (.inl h)
    | deepDecision htext hdeep => exact .inl (.inr ⟨_, htext, hdeep⟩)
    | infiniteInput hdecision husage hmember hinfinite =>
        exact .inr ⟨_, hdecision, _, husage, .inl ⟨_, hmember, hinfinite⟩⟩
    | infiniteOutput hdecision husage hinput hmember hinfinite =>
        exact .inr ⟨_, hdecision, _, husage, .inr ⟨_, hinput, .inl ⟨_, hmember, hinfinite⟩⟩⟩
    | details hcounted hdetails h =>
        obtain ⟨⟨_, hdecision⟩, husage, hinput, houtput⟩ := hcounted
        exact .inr ⟨_, hdecision, _, husage, .inr ⟨_, hinput, .inr ⟨_, houtput, .inr ⟨_, hdetails, .inl h⟩⟩⟩⟩
    | infiniteReasoning hcounted hdetails hmember hinfinite =>
        obtain ⟨⟨_, hdecision⟩, husage, hinput, houtput⟩ := hcounted
        exact .inr ⟨_, hdecision, _, husage, .inr ⟨_, hinput, .inr ⟨_, houtput,
          .inr ⟨_, hdetails, .inr ⟨_, hmember, .inl hinfinite⟩⟩⟩⟩⟩
    | identifier hcounted hdetails hmember htokens hid =>
        obtain ⟨⟨_, hdecision⟩, husage, hinput, houtput⟩ := hcounted
        exact .inr ⟨_, hdecision, _, husage, .inr ⟨_, hinput, .inr ⟨_, houtput,
          .inr ⟨_, hdetails, .inr ⟨_, hmember, .inr ⟨_, htokens, .inr hid⟩⟩⟩⟩⟩⟩

theorem not_escapes_elements : ¬ Escapes (elements v) := by
  cases v with
  | list xs => exact not_escapes_ok _
  | str s => exact not_escapes_ok _
  | dict items => exact not_escapes_ok _
  | _ => exact fun h => nomatch escapes_error.mp h

theorem not_escapes_len : ¬ Escapes (len v) := by
  cases v with
  | list xs => exact not_escapes_ok _
  | str s => exact not_escapes_ok _
  | dict items => exact not_escapes_ok _
  | _ => exact fun h => nomatch escapes_error.mp h

theorem not_escapes_anyMisfit (vs : List PyValue) : ¬ Escapes (anyMisfit vs) := by
  induction vs with
  | nil => exact not_escapes_ok _
  | cons v vs ih =>
      rw [anyMisfit, escapes_bind]
      rintro (h | ⟨n, -, h⟩)
      · exact not_escapes_len h
      · split at h
        · exact not_escapes_ok _ h
        · exact ih h

theorem not_escapes_mapM {f : PyValue → Except PyError α} (hf : ∀ v, ¬ Escapes (f v)) (vs : List PyValue) :
    ¬ Escapes (vs.mapM f) := by
  induction vs with
  | nil => exact not_escapes_ok _
  | cons v vs ih =>
      rw [List.mapM_cons, escapes_bind]
      rintro (h | ⟨a, -, h⟩)
      · exact hf v h
      · rw [escapes_bind] at h
        exact h.elim ih (fun ⟨_, _, h⟩ => not_escapes_ok _ h)

theorem escapes_sorted {keyed : List (PyValue × PyValue)} :
    Escapes (sorted py keyed) ↔ py.sorted keyed = .tooDeep := by
  unfold sorted
  cases py.sorted keyed with
  | values vs => exact ⟨fun h => absurd h (not_escapes_ok vs), fun h => nomatch h⟩
  | incomparable => exact ⟨fun h => (nomatch escapes_error.mp h), fun h => nomatch h⟩
  | tooDeep => exact ⟨fun _ => rfl, fun _ => escapes_error.mpr rfl⟩

theorem not_escapes_readRows : ¬ Escapes (readRows response) := by
  simp only [readRows, escapes_bind, not_escapes_subscript, not_escapes_elements, false_or, not_exists, not_and]
  rintro data - rows -
  refine not_escapes_mapM (fun row => ?_) rows
  rw [escapes_bind]
  rintro (h | ⟨a, -, h⟩)
  · exact not_escapes_subscript h
  · exact not_escapes_ok _ h

theorem escapes_readVectors {count : ℕ} : Escapes (readVectors py count response) ↔
    ∃ rows, readRows response = .ok rows ∧ py.sorted rows = .tooDeep := by
  have hembedding : ∀ rows : List PyValue, ¬ Escapes (rows.mapM (fun row => subscript row "embedding")) :=
    not_escapes_mapM (fun _ => not_escapes_subscript)
  simp only [readVectors, escapes_bind, not_escapes_readRows, escapes_sorted, hembedding, escapes_rejectIf,
    not_escapes_anyMisfit, PyError.caught, Bool.true_eq_false, and_false, exists_false, false_or, or_false,
    pure, Except.pure, not_escapes_ok]

theorem escapes_readEmbeddings {count : ℕ} :
    Escapes (readEmbeddings py count response) ↔ EmbeddingLeaks py count response := by
  simp only [readEmbeddings, escapes_bind, escapes_readVectors, not_escapes_subscript, escapes_tokensAt,
    escapes_readIdentifier, pure, Except.pure, not_escapes_ok, false_or, and_false, exists_false, or_false]
  constructor
  · rintro (⟨rows, hrows, hdeep⟩ | ⟨vectors, hvectors, usage, husage, hrest⟩)
    · exact .deepIndices hrows hdeep
    obtain ⟨v, hmember, hinfinite⟩ | ⟨tokens, htokens, hnotDict | hid⟩ := hrest
    · exact .infiniteTokens hvectors husage hmember hinfinite
    · cases response with
      | dict items => exact absurd rfl (hnotDict items)
      | _ => cases husage
    · exact .identifier hvectors husage htokens hid
  · intro h
    cases h with
    | deepIndices hrows hdeep => exact .inl ⟨_, hrows, hdeep⟩
    | infiniteTokens hvectors husage hmember hinfinite =>
        exact .inr ⟨_, hvectors, _, husage, .inl ⟨_, hmember, hinfinite⟩⟩
    | identifier hvectors husage htokens hid =>
        exact .inr ⟨_, hvectors, _, husage, .inr ⟨_, htokens, .inr hid⟩⟩

end Escapes

-- ============================================================================
-- One reservation
-- ============================================================================

/-- The state of a request. -/
def entryState : Entry → Option RequestState
  | .request e => some e.state
  | .reconciliation _ => none

/-- The file `l'` has one entry more than `l`, the request `e` of an unused call id. -/
structure Appended (l l' : Ledger) (callID : String) (e : RequestEntry) : Prop where
  entries : l'.entries = l.entries ++ [Entry.request e]
  unused : ∀ x ∈ l.entries, x.requestOf callID = none
  callID : e.callID = callID

theorem appended_of_reserve {l l' : Ledger} {model operation drawn callID : String}
    {requestBytes maxOutputTokens : ℤ}
    (h : l.reserve model operation requestBytes maxOutputTokens drawn = .ok (l', callID))
    (hunused : ∀ x ∈ l.entries, x.requestOf drawn = none) :
    callID = drawn ∧ ∃ e, Appended l l' drawn e ∧ e.state = .reserved := by
  obtain ⟨amount, -, rfl, rfl⟩ := reserve_eq_ok_iff.mp h
  exact ⟨rfl, _, ⟨rfl, hunused, rfl⟩, rfl⟩

namespace Appended

variable {l l' : Ledger} {callID : String} {e : RequestEntry}

theorem requestOf (h : Appended l l' callID e) : Entry.requestOf callID (.request e) = some e :=
  requestOf_eq_some.mpr ⟨rfl, h.callID⟩

theorem entry (h : Appended l l' callID e) : l'.entry callID = .ok e := by
  rw [Ledger.entry, h.entries, List.findSome?_append, List.findSome?_eq_none_iff.mpr h.unused]
  simp only [List.findSome?_cons, h.requestOf]
  rfl

theorem updateEntry (h : Appended l l' callID e) (f : RequestEntry → RequestEntry) :
    l'.updateEntry callID f = l.entries ++ [Entry.request (f e)] := by
  have hreplace : ∀ xs : List Entry, (∀ x ∈ xs, x.requestOf callID = none) →
      (xs ++ [Entry.request e]).replaceF (fun x => (x.requestOf callID).map (fun e => .request (f e))) =
        xs ++ [Entry.request (f e)] := by
    intro xs hxs
    induction xs with
    | nil => simp only [List.nil_append, List.replaceF, h.requestOf, Option.map_some]
    | cons x xs ih =>
        simp only [List.cons_append, List.replaceF, hxs x List.mem_cons_self, Option.map_none]
        rw [ih (fun y hy => hxs y (List.mem_cons_of_mem _ hy))]
  rw [Ledger.updateEntry, h.entries, hreplace _ h.unused]

/-- `fail` closes an open reservation. -/
theorem fail (h : Appended l l' callID e) (hopen : e.state = .reserved) (outcomeUncertain : Bool) :
    ∃ l'', l'.fail callID outcomeUncertain = .ok l'' ∧
      l''.entries = l.entries ++
        [.request { e with state := if outcomeUncertain then .uncertain else .rejected }] := by
  refine ⟨l'.withFailure callID e outcomeUncertain, ?_, h.updateEntry _⟩
  rw [Ledger.fail, h.entry, ok_bind, if_neg (not_not.mpr hopen)]
  rfl

/-- `fail` leaves a closed one. -/
theorem fail_of_closed (h : Appended l l' callID e) (hclosed : e.state ≠ .reserved) (outcomeUncertain : Bool) :
    l'.fail callID outcomeUncertain = .ok l' := by
  rw [Ledger.fail, h.entry, ok_bind, if_pos hclosed]
  rfl

end Appended

-- ============================================================================
-- Closed reservations
-- ============================================================================

/-- The entries behind the first `n` of the file are closed, and one of them has settled if the call
    returned. -/
structure Closed {α : Type} (n : ℕ) (f : Finished α) : Prop where
  notOpen : ∀ x ∈ f.file.entries.drop n, entryState x ≠ some .reserved
  settled : (∃ a, f.result = .ok a) →
    (f.file.entries.drop n).countP (fun x => entryState x = some .settled) = 1

/-- The attempts so far are uncertain. -/
structure Unanswered (n : ℕ) (l : Ledger) : Prop where
  length : n ≤ l.entries.length
  uncertain : ∀ x ∈ l.entries.drop n, entryState x = some .uncertain

section Closed

variable {α : Type} {n : ℕ} {l l' : Ledger} {callID : String} {e : RequestEntry} {f : Finished α}

/-- What a call leaves open or settles is its last entry. -/
theorem closed_iff (hpast : Unanswered n l) (hentries : f.file.entries = l.entries ++ [Entry.request e]) :
    Closed n f ↔ e.state ≠ .reserved ∧ ((∃ a, f.result = .ok a) → e.state = .settled) := by
  have hdrop : f.file.entries.drop n = l.entries.drop n ++ [Entry.request e] := by
    rw [hentries, List.drop_append_of_le_length hpast.length]
  have hcount : (l.entries.drop n).countP (fun x => entryState x = some .settled) = 0 := by
    refine List.countP_eq_zero.mpr (fun x hx => ?_)
    rw [hpast.uncertain x hx]
    decide
  constructor
  · intro h
    refine ⟨fun hopen => h.notOpen (.request e) (by simp [hdrop]) (congrArg some hopen), fun hok => ?_⟩
    have hone := h.settled hok
    rw [hdrop, List.countP_append, hcount, List.countP_singleton] at hone
    by_contra hstate
    simp [entryState, hstate] at hone
  · rintro ⟨hopen, hsettled⟩
    refine ⟨fun x hx => ?_, fun hok => ?_⟩
    · rw [hdrop] at hx
      rcases List.mem_append.mp hx with hx | hx
      · rw [hpast.uncertain x hx]
        decide
      · cases List.mem_singleton.mp hx
        exact fun heq => hopen (Option.some.inj heq)
    · rw [hdrop, List.countP_append, hcount, List.countP_singleton]
      simp [entryState, hsettled hok]

/-- Nothing was reserved last. -/
theorem closed_of_raised (hpast : Unanswered n l) (hfile : f.file = l) {e : Raised} (hresult : f.result = .error e) :
    Closed n f := by
  subst hfile
  refine ⟨fun x hx => ?_, fun ⟨a, ha⟩ => ?_⟩
  · rw [hpast.uncertain x hx]
    decide
  · rw [hresult] at ha
    cases ha

theorem closed_failing (hpast : Unanswered n l) (h : Appended l l' callID e) (hopen : e.state = .reserved)
    (outcomeUncertain : Bool) : Closed n (failing l' callID outcomeUncertain : Finished α) := by
  obtain ⟨l'', hfail, hentries⟩ := h.fail hopen outcomeUncertain
  rw [failing, hfail]
  refine (closed_iff hpast hentries).mpr ⟨?_, fun ⟨a, ha⟩ => nomatch ha⟩
  cases outcomeUncertain <;> exact fun heq => nomatch heq

/-- A reading closes the reservation unless it raises what the handler does not name. -/
theorem closed_concluding_iff (hpast : Unanswered n l) (h : Appended l l' callID e) (hopen : e.state = .reserved)
    {read : Except PyError (α × Usage)} : Closed n (concluding l' callID read) ↔ ¬ Escapes read := by
  cases read with
  | error err =>
      rw [escapes_error, concluding]
      cases hcaught : err.caught with
      | true => exact ⟨fun _ h => (nomatch h), fun _ => closed_failing hpast h hopen true⟩
      | false =>
          exact ⟨fun hclosed => absurd hopen ((closed_iff hpast h.entries).mp hclosed).1,
            fun hne => absurd rfl hne⟩
  | ok r =>
      obtain ⟨a, usage⟩ := r
      refine ⟨fun _ => not_escapes_ok _, fun _ => ?_⟩
      rw [concluding]
      cases hsettle : l'.settle callID usage.inputTokens usage.outputTokens usage.reasoningTokens with
      | error err => exact closed_failing hpast h hopen true
      | ok written =>
          obtain ⟨l'', returned⟩ := written
          obtain ⟨e', inputRate, outputRate, -, hopen', -, hfile, -⟩ := settle_eq_ok_iff.mp hsettle
          cases Except.ok.inj (hopen'.1.symm.trans h.entry)
          have hentries := congrArg Ledger.entries hfile
          rw [Ledger.withSettlement, h.updateEntry] at hentries
          cases returned with
          | ok cost => exact (closed_iff hpast hentries).mpr ⟨fun heq => (nomatch heq), fun _ => rfl⟩
          | error err =>
              -- The settlement is written before it raises, and `fail` finds nothing open.
              have hsettled : Appended l l'' callID _ := ⟨hentries, h.unused, h.callID⟩
              simp only [failing, hsettled.fail_of_closed (fun heq => (nomatch heq))]
              exact (closed_iff hpast hentries).mpr ⟨fun heq => (nomatch heq), fun ⟨a, ha⟩ => nomatch ha⟩

end Closed

-- ============================================================================
-- Calls
-- ============================================================================

/-- A request with `retries` attempts left after `attempt` is sent and answered with the body `v`. -/
inductive Diagnosis.Answered (d : Diagnosis) (answer : ℕ → Answer) (drawn : ℕ → String) (requestBytes : ℤ)
    (v : PyValue) : (retries attempt : ℕ) → Ledger → Prop where
  | body {retries attempt l l' callID} (hreserve : d.reserve drawn l requestBytes attempt = .ok (l', callID))
      (hanswer : answer attempt = .body v) : d.Answered answer drawn requestBytes v retries attempt l
  | later {retries attempt l l' callID l''}
      (hreserve : d.reserve drawn l requestBytes attempt = .ok (l', callID))
      (hanswer : answer attempt = .unreachable) (hfail : l'.fail callID true = .ok l'')
      (h : d.Answered answer drawn requestBytes v retries (attempt + 1) l'') :
      d.Answered answer drawn requestBytes v (retries + 1) attempt l

/-- A request of `diagnose` is sent and answered with the body `v`. -/
def Diagnosis.AnsweredWith (d : Diagnosis) (answer : ℕ → Answer) (drawn : ℕ → String) (l : Ledger)
    (v : PyValue) : Prop :=
  ¬ ("hel-".isPrefixOf d.caseID ∧ d.heldoutAuthorized = false) ∧
    ∃ requestBytes, d.requestBytes = some requestBytes ∧
      d.Answered answer drawn requestBytes v d.transportRetries 1 l

/-- The request of `embed` is sent and answered with the body `v`. -/
def Embedding.AnsweredWith (e : Embedding) (answer : Answer) (drawn : String) (l : Ledger) (v : PyValue) : Prop :=
  ¬ (e.refusedSplit = true ∨ e.inputs = [] ∨ e.inputs.length ≠ e.ids.length ∨
    embeddingBatchSize < e.inputs.length ∨ e.inputs.any isBlank = true) ∧
    (∃ requestBytes l' callID, e.requestBytes = some requestBytes ∧
      e.reserve l requestBytes drawn = .ok (l', callID)) ∧ answer = .body v

theorem Unanswered.self (l : Ledger) : Unanswered l.entries.length l where
  length := Nat.le_refl _
  uncertain x hx := by rw [List.drop_length] at hx; cases hx

theorem Unanswered.append {n : ℕ} {l l' : Ledger} {e : RequestEntry} (h : Unanswered n l)
    (hentries : l'.entries = l.entries ++ [Entry.request e]) (he : e.state = .uncertain) : Unanswered n l' where
  length := by rw [hentries, List.length_append]; exact Nat.le_add_right_of_le h.length
  uncertain x hx := by
    rw [hentries, List.drop_append_of_le_length h.length] at hx
    rcases List.mem_append.mp hx with hx | hx
    · exact h.uncertain x hx
    · cases List.mem_singleton.mp hx
      exact congrArg some he

section Calls

variable {d : Diagnosis} {py : Interpreter} {answer : ℕ → Answer} {drawn : ℕ → String} {requestBytes : ℤ}
  {n retries attempt : ℕ} {l l' : Ledger} {callID : String} {e : RequestEntry} {v : PyValue}

theorem Diagnosis.appended_of_reserve (h : d.reserve drawn l requestBytes attempt = .ok (l', callID))
    (hunused : ∀ x ∈ l.entries, x.requestOf (drawn attempt) = none) :
    callID = drawn attempt ∧ ∃ e, Appended l l' (drawn attempt) e ∧ e.state = .reserved := by
  unfold Diagnosis.reserve at h
  exact Provider.appended_of_reserve h hunused

/-- An attempt that ends the call closes its reservation unless a body leaks, and one that does not leaves
    an uncertain request. -/
theorem attempt_cases (d : Diagnosis) (py : Interpreter) (answer : ℕ → Answer) (requestBytes : ℤ)
    (hpast : Unanswered n l) (hunused : ∀ x ∈ l.entries, x.requestOf (drawn attempt) = none) :
    (∃ f, d.attempt py answer drawn requestBytes attempt l = .finished f ∧ answer attempt ≠ .unreachable ∧
      (Closed n f ↔ ∀ l' callID v, d.reserve drawn l requestBytes attempt = .ok (l', callID) →
        answer attempt = .body v → ¬ Leaks py d.schema v)) ∨
    (∃ f, d.attempt py answer drawn requestBytes attempt l = .finished f ∧ Closed n f ∧
      ∀ r, d.reserve drawn l requestBytes attempt ≠ .ok r) ∨
    ∃ l' l'' e, d.attempt py answer drawn requestBytes attempt l = .unreached l'' ∧
      d.reserve drawn l requestBytes attempt = .ok (l', drawn attempt) ∧ answer attempt = .unreachable ∧
      l'.fail (drawn attempt) true = .ok l'' ∧ l''.entries = l.entries ++ [Entry.request e] ∧
      e.callID = drawn attempt ∧ e.state = .uncertain := by
  unfold Diagnosis.attempt
  cases hreserve : d.reserve drawn l requestBytes attempt with
  | error err => exact .inr (.inl ⟨_, rfl, closed_of_raised hpast rfl rfl, fun _ h => nomatch h⟩)
  | ok reserved =>
      obtain ⟨l', callID⟩ := reserved
      obtain ⟨rfl, e, happended, hopen⟩ := Diagnosis.appended_of_reserve hreserve hunused
      have hfailing : ∀ outcomeUncertain, Closed n (failing l' (drawn attempt) outcomeUncertain : Finished PyValue) :=
        closed_failing hpast happended hopen
      cases hanswer : answer attempt with
      | httpError =>
          exact .inl ⟨_, rfl, fun h => (nomatch h), fun _ _ _ _ _ h => (nomatch h), fun _ => hfailing false⟩
      | failed =>
          exact .inl ⟨_, rfl, fun h => (nomatch h), fun _ _ _ _ _ h => (nomatch h), fun _ => hfailing true⟩
      | body v =>
          refine .inl ⟨_, rfl, fun h => (nomatch h), ?_⟩
          rw [closed_concluding_iff hpast happended hopen, escapes_readResponse]
          exact ⟨fun h _ _ w _ hw => by cases hw; exact h, fun h => h l' _ v rfl rfl⟩
      | unreachable =>
          obtain ⟨l'', hfail, hentries⟩ := happended.fail hopen true
          refine .inr (.inr ⟨l', l'', _, ?_, rfl, rfl, hfail, hentries, happended.callID, rfl⟩)
          simp only [hfail]

/-- The attempts close what they reserve unless a body leaks; by induction on the attempts left. -/
theorem closed_attempts_iff (hdrawn : drawn.Injective) (hpast : Unanswered n l)
    (hunused : ∀ k, attempt ≤ k → ∀ x ∈ l.entries, x.requestOf (drawn k) = none) :
    Closed n (d.attempts py answer drawn requestBytes retries attempt l) ↔
      ∀ v, d.Answered answer drawn requestBytes v retries attempt l → ¬ Leaks py d.schema v := by
  induction retries using Nat.strong_induction_on generalizing attempt l with | _ retries ih
  obtain ⟨f, hf, hanswer, hclosed⟩ | ⟨f, hf, hclosed, hreserve⟩ |
      ⟨l', l'', e, hf, hreserve, hanswer, hfail, hentries, hid, he⟩ :=
    attempt_cases d py answer requestBytes hpast (hunused attempt (Nat.le_refl _))
  · rw [Diagnosis.attempts_finished hf, hclosed]
    constructor
    · intro h v hanswered
      cases hanswered with
      | body hreserve hbody => exact h _ _ v hreserve hbody
      | later _ hunreachable => exact absurd hunreachable hanswer
    · exact fun h l' callID v hreserve hbody => h v (.body hreserve hbody)
  · rw [Diagnosis.attempts_finished hf]
    refine ⟨fun _ v hanswered => ?_, fun _ => hclosed⟩
    cases hanswered with
    | body hok => exact absurd hok (hreserve _)
    | later hok => exact absurd hok (hreserve _)
  · have hpast' := hpast.append hentries he
    cases retries with
    | zero =>
        rw [Diagnosis.attempts_zero hf]
        refine ⟨fun _ v hanswered => ?_, fun _ => closed_of_raised hpast' rfl rfl⟩
        cases hanswered with
        | body _ hbody => rw [hanswer] at hbody; cases hbody
    | succ retries =>
        have hunused' : ∀ k, attempt + 1 ≤ k → ∀ x ∈ l''.entries, x.requestOf (drawn k) = none := by
          intro k hk x hx
          rw [hentries] at hx
          rcases List.mem_append.mp hx with hx | hx
          · exact hunused k (Nat.le_of_succ_le hk) x hx
          · cases List.mem_singleton.mp hx
            refine if_neg (fun heq => ?_)
            have hdrawn' := hdrawn (hid.symm.trans heq)
            omega
        have hrest := ih retries (Nat.lt_succ_self _) hpast' hunused'
        rw [Diagnosis.attempts_succ hf]
        refine hrest.trans (forall_congr' (fun v => imp_congr_left ⟨.later hreserve hanswer hfail, fun h => ?_⟩))
        cases h with
        | body _ hbody => rw [hanswer] at hbody; cases hbody
        | later hreserve' _ hfail' h =>
            cases hreserve.symm.trans hreserve'
            cases hfail.symm.trans hfail'
            exact h

/-- From fresh call ids, a call of `diagnose` or `embed` closes everything it reserved, and settles one
    request if it returns, exactly when no request of it is answered with a body that leaks. -/
theorem reservations_closed_iff (py : Interpreter) (l : Ledger) (drawn : ℕ → String) (hdrawn : drawn.Injective)
    (hunused : ∀ k, ∀ x ∈ l.entries, x.requestOf (drawn k) = none) :
    (∀ (d : Diagnosis) (answer : ℕ → Answer),
      Closed l.entries.length (d.diagnose py answer drawn l) ↔
        ∀ v, d.AnsweredWith answer drawn l v → ¬ Leaks py d.schema v) ∧
    (∀ (e : Embedding) (answer : Answer),
      Closed l.entries.length (e.embed py answer (drawn 0) l) ↔
        ∀ v, e.AnsweredWith answer (drawn 0) l v → ¬ EmbeddingLeaks py e.inputs.length v) := by
  have hpast := Unanswered.self l
  refine ⟨fun d answer => ?_, fun e answer => ?_⟩
  · unfold Diagnosis.diagnose Diagnosis.AnsweredWith
    split
    case isTrue hheldout =>
      exact ⟨fun _ v h => absurd hheldout h.1, fun _ => closed_of_raised hpast rfl rfl⟩
    case isFalse hheldout =>
      cases hbytes : d.requestBytes with
      | none => exact ⟨fun _ v ⟨_, _, h, _⟩ => (nomatch h), fun _ => closed_of_raised hpast rfl rfl⟩
      | some requestBytes =>
          refine (closed_attempts_iff hdrawn hpast (fun k _ => hunused k)).trans
            (forall_congr' (fun v => imp_congr_left ⟨fun h => ⟨hheldout, _, rfl, h⟩, ?_⟩))
          rintro ⟨-, _, heq, h⟩
          cases heq
          exact h
  · unfold Embedding.embed Embedding.AnsweredWith
    split
    case isTrue hrefused =>
      exact ⟨fun _ v h => absurd hrefused h.1, fun _ => closed_of_raised hpast rfl rfl⟩
    case isFalse hrefused =>
      cases hbytes : e.requestBytes with
      | none => exact ⟨fun _ v ⟨_, ⟨_, _, _, h, _⟩, _⟩ => (nomatch h), fun _ => closed_of_raised hpast rfl rfl⟩
      | some requestBytes =>
          dsimp only
          cases hreserve : e.reserve l requestBytes (drawn 0) with
          | error err =>
              refine ⟨fun _ v ⟨_, ⟨_, _, _, h, hok⟩, _⟩ => ?_, fun _ => closed_of_raised hpast rfl rfl⟩
              cases h
              rw [hreserve] at hok
              cases hok
          | ok reserved =>
              obtain ⟨l', callID⟩ := reserved
              unfold Embedding.reserve at hreserve
              obtain ⟨rfl, entry, happended, hopen⟩ := appended_of_reserve hreserve (hunused 0)
              cases answer with
              | httpError =>
                  exact ⟨fun _ v h => (nomatch h.2.2), fun _ => closed_failing hpast happended hopen false⟩
              | unreachable =>
                  exact ⟨fun _ v h => (nomatch h.2.2), fun _ => closed_failing hpast happended hopen true⟩
              | failed =>
                  exact ⟨fun _ v h => (nomatch h.2.2), fun _ => closed_failing hpast happended hopen true⟩
              | body v =>
                  refine (closed_concluding_iff hpast happended hopen).trans ?_
                  rw [escapes_readEmbeddings]
                  exact ⟨fun h w hw => by cases hw.2.2; exact h,
                    fun h => h v ⟨hrefused, ⟨requestBytes, l', _, rfl, hreserve⟩, rfl⟩⟩

/-- Call ids that differ in length. -/
def plainDrawn (k : ℕ) : String := String.ofList (List.replicate k 'a')

theorem plainDrawn_injective : plainDrawn.Injective := by
  intro j k h
  have hlist := congrArg String.toList h
  rw [plainDrawn, plainDrawn, String.toList_ofList, String.toList_ofList] at hlist
  simpa using congrArg List.length hlist

/-- An interpreter for bodies without a decision. -/
def plainInterpreter : Interpreter where
  loads _ := .invalid
  intOfStr _ := none
  prints _ := true
  sorted keyed := .values (keyed.map Prod.snd)

/-- A call on the first development case. -/
def plainDiagnosis : Diagnosis where
  schema := .structuredV1
  heldoutAuthorized := false
  transportRetries := 2
  maxOutputTokens := 1200
  candidate := "candidate-v1"
  arm := "plain"
  caseID := "dev-001"
  requestBytes := some 5000

/-- A request that times out, and one that this body answers. -/
def answerAfterTimeout (body : PyValue) (k : ℕ) : Answer := if k = 1 then .unreachable else .body body

theorem answered_afterTimeout {body v : PyValue} {retries attempt : ℕ} {l : Ledger}
    (h : plainDiagnosis.Answered (answerAfterTimeout body) plainDrawn 5000 v retries attempt l) : v = body := by
  induction h with
  | body _ hanswer =>
      unfold answerAfterTimeout at hanswer
      split at hanswer <;> cases hanswer
      rfl
  | later _ _ _ _ ih => exact ih

def member (key : String) (v : PyValue) : PyKey × PyValue := (.str (.ofString key), v)

def decisionText : String :=
  "\x7b\"diagnosis\":\"pool\",\"citations\":[\"log\"],\"proposal\":null,\"uncertainty\":true\x7d"

/-- The value of that text. -/
def decisionValue : PyValue := .dict [member "diagnosis" (.str (.ofString "pool")),
  member "citations" (.list [.str (.ofString "log")]), member "proposal" .none, member "uncertainty" (.bool true)]

/-- An interpreter for the text of one decision. -/
def decidingInterpreter : Interpreter := { plainInterpreter with
  loads := fun text => if text = .ofString decisionText then .value decisionValue else .invalid }

/-- A body with the decision. -/
def decisionBody : PyValue := .dict [member "id" (.str (.ofString "resp")),
  member "output" (.list [.dict [member "type" (.str (.ofString "message")),
    member "content" (.list [.dict [member "type" (.str (.ofString "output_text")),
      member "text" (.str (.ofString decisionText))]])]]),
  member "usage" (.dict [member "input_tokens" (.int 900), member "output_tokens" (.int 120),
    member "output_tokens_details" (.dict [member "reasoning_tokens" (.int 40)])])]

/-- A call whose second request is answered. -/
def retried (py : Interpreter) (body : PyValue) : Finished PyValue :=
  plainDiagnosis.diagnose py (answerAfterTimeout body) plainDrawn (emptyLedger committedPrices .inProgress)

/-- After a timeout the answer `{}` is refused, and both requests are uncertain; a decision is returned, and
    settles the second request. -/
theorem reservations_closed_iff_answered :
    (Closed 0 (retried plainInterpreter (.dict [])) ∧
      (retried plainInterpreter (.dict [])).file.entries.map entryState = [some .uncertain, some .uncertain]) ∧
    Closed 0 (retried decidingInterpreter decisionBody) ∧
      (retried decidingInterpreter decisionBody).file.entries.map entryState = [some .uncertain, some .settled] ∧
      (retried decidingInterpreter decisionBody).result.toOption.isSome = true := by
  have hclosed : ∀ (py : Interpreter) (body : PyValue), ¬ Escapes (readResponse py .structuredV1 body) →
      Closed 0 (retried py body) := by
    intro py body hread
    refine ((reservations_closed_iff py (emptyLedger committedPrices .inProgress) plainDrawn
      plainDrawn_injective (fun _ _ h => nomatch h)).1 plainDiagnosis _).mpr ?_
    rintro v ⟨-, _, hbytes, h⟩ hleaks
    cases hbytes
    rw [answered_afterTimeout h] at hleaks
    exact hread (escapes_readResponse.mpr hleaks)
  have hshown : (retried plainInterpreter (.dict [])).file.entries.map entryState =
        [some .uncertain, some .uncertain] ∧
      (retried decidingInterpreter decisionBody).file.entries.map entryState = [some .uncertain, some .settled] ∧
      (retried decidingInterpreter decisionBody).result.toOption.isSome = true ∧
      (readResponse decidingInterpreter .structuredV1 decisionBody).toOption.isSome = true := by
    decide +kernel
  obtain ⟨hrefused, hsettled, hreturned, hread⟩ := hshown
  refine ⟨⟨hclosed _ _ ?_, hrefused⟩, hclosed _ _ ?_, hsettled, hreturned⟩
  · have hempty : outputText (.dict []) = .error .value := rfl
    rw [readResponse, readDecision, hempty]
    exact fun h => nomatch escapes_error.mp h
  · cases hbody : readResponse decidingInterpreter .structuredV1 decisionBody with
    | error e =>
        rw [hbody] at hread
        cases hread
    | ok r => exact not_escapes_ok r

/-- An array as the body leaves the reservation open. -/
theorem array_body_leaks :
    plainDrawn.Injective ∧
      (plainDiagnosis.diagnose plainInterpreter (fun _ => .body (.list [])) plainDrawn
        (emptyLedger committedPrices .inProgress)).file.entries.map entryState = [some .reserved] ∧
      (plainDiagnosis.diagnose plainInterpreter (fun _ => .body (.list [])) plainDrawn
        (emptyLedger committedPrices .inProgress)).result matches .error (.escaped .attribute) ∧
      ¬ Closed 0 (plainDiagnosis.diagnose plainInterpreter (fun _ => .body (.list [])) plainDrawn
        (emptyLedger committedPrices .inProgress)) := by
  have hentries : (plainDiagnosis.diagnose plainInterpreter (fun _ => .body (.list [])) plainDrawn
      (emptyLedger committedPrices .inProgress)).file.entries.map entryState = [some .reserved] := by
    decide +kernel
  refine ⟨plainDrawn_injective, hentries, by decide +kernel, fun h => ?_⟩
  have hmem : some RequestState.reserved ∈ (plainDiagnosis.diagnose plainInterpreter
      (fun _ => .body (.list [])) plainDrawn (emptyLedger committedPrices .inProgress)).file.entries.map
        entryState := by
    rw [hentries]
    exact List.mem_singleton.mpr rfl
  obtain ⟨x, hx, hstate⟩ := List.mem_map.mp hmem
  exact h.notOpen x hx hstate

end Calls

end DurableEngine.IncidentAgent.Provider
