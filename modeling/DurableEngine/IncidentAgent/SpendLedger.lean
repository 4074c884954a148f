/-
  DurableEngine.IncidentAgent.SpendLedger

  The write-ahead spend ledger of `dur056_budget.py`.

  The file is re-read by every call, so a call is a function of the file and
  of its arguments.  An amount in the file is the number its text denotes;
  arithmetic on amounts is that of decimals of 28 digits, and what is written
  is rounded to eight places.
-/

import DurableEngine.Lib.Rounding
import DurableEngine.Lib.Tx
import Mathlib

namespace DurableEngine.IncidentAgent

open Lib

-- ============================================================================
-- Amounts
-- ============================================================================

/-- `CAP_USD`. -/
def capUsd : ℚ := 25

/-- `MILLION`. -/
def million : ℚ := 1000000

/-- The result of a decimal operation: 28 significant digits. -/
def decimal (q : ℚ) : ℚ := roundDigits 10 28 q

/-- The last place of a written amount. -/
def place : ℚ := 1 / 100000000

/-- The amount that `f"{q:.8f}"` writes. -/
def eightPlaces (q : ℚ) : ℚ := roundTo place q

/-- The text of `f"{q:.8f}"`. -/
def formatEightPlaces (q : ℚ) : String :=
  let units := (rint (q / place)).natAbs
  let fraction := toString (units % 100000000)
  (if q < 0 then "-" else "") ++ toString (units / 100000000) ++ "." ++
    String.ofList (List.replicate (8 - fraction.length) '0') ++ fraction

-- ============================================================================
-- The file
-- ============================================================================

/-- A model's rates in `price_sources`. -/
structure Price where
  inputUsdPerMillionTokens : Option ℚ
  outputUsdPerMillionTokens : Option ℚ
deriving DecidableEq

inductive LedgerStatus where
  | inProgress
  | capBreachRecorded
  | reconciliationRequired
  | other (text : String)
deriving DecidableEq, Repr

inductive RequestState where
  | reserved
  | settled
  | uncertain
  | rejected
deriving DecidableEq, Repr

/-- What `settle` adds to an entry. -/
structure Settlement where
  inputTokens : ℤ
  outputTokens : ℤ
  reasoningTokens : ℤ
  costUsd : ℚ
deriving DecidableEq

/-- The entry of a paid request. -/
structure RequestEntry where
  callID : String
  model : String
  operation : String
  state : RequestState
  requestBytes : ℤ
  inputTokenReservation : ℤ
  outputTokenReservation : ℤ
  reservedUsd : ℚ
  settlement : Option Settlement
deriving DecidableEq

/-- The `NOT_SENT` event of a request. -/
structure ReconciliationEntry where
  reconcilesCallID : String
  amountUsd : ℚ
deriving DecidableEq

inductive Entry where
  | request (e : RequestEntry)
  | reconciliation (r : ReconciliationEntry)
deriving DecidableEq

/-- The ledger file. -/
structure Ledger where
  priceSources : List (String × Price)
  spentUsd : ℚ
  reservedUsd : ℚ
  uncertainUsd : ℚ
  status : LedgerStatus
  entries : List Entry
deriving DecidableEq

/-- What a call raises. -/
inductive LedgerError where
  | spend (message : String)
  | key (name : String)
deriving DecidableEq, Repr

/-- `_price`. -/
def Ledger.price (l : Ledger) (model : String) : Except LedgerError Price :=
  getOr (l.priceSources.lookup model) (.spend ("no authorized price is recorded for model " ++ model))

/-- What tokens cost at a model's rates, per million. -/
def tokensCost (inputRate outputRate : ℚ) (inputTokens outputTokens : ℤ) : ℚ :=
  decimal (decimal (decimal (inputTokens * inputRate) + decimal (outputTokens * outputRate)) / million)

/-- `price.get("output_usd_per_million_tokens", "0")`. -/
def Price.outputRate (p : Price) : ℚ := p.outputUsdPerMillionTokens.getD 0

/-- The entry's request, when it is that of `callID`. -/
def Entry.requestOf (callID : String) : Entry → Option RequestEntry
  | .request e => if e.callID = callID then some e else none
  | .reconciliation _ => none

/-- `_entry`: the first entry of `callID`. -/
def Ledger.entry (l : Ledger) (callID : String) : Except LedgerError RequestEntry :=
  getOr (l.entries.findSome? (Entry.requestOf callID)) (.spend "DUR-056 reservation does not exist")

/-- `entry.update` on the entry that `_entry` finds. -/
def Ledger.updateEntry (l : Ledger) (callID : String) (f : RequestEntry → RequestEntry) : List Entry :=
  l.entries.replaceF (fun x => (x.requestOf callID).map (fun e => .request (f e)))

-- ============================================================================
-- The calls
-- ============================================================================

/-- `reserve`, with the call id drawn. -/
def Ledger.reserve (l : Ledger) (model operation : String) (requestBytes maxOutputTokens : ℤ)
    (drawn : String) : Except LedgerError (Ledger × String) := do
  rejectIf (operation.length = 0 ∨ 160 < operation.length) (.spend "DUR-056 operation label is invalid")
  rejectIf (requestBytes ≤ 0 ∨ 100000 < requestBytes)
    (.spend "DUR-056 request must be between 1 and 100000 bytes")
  rejectIf (maxOutputTokens < 0 ∨ 2000 < maxOutputTokens)
    (.spend "DUR-056 max_output_tokens is outside the reserved bound")
  let price ← l.price model
  let inputRate ← getOr price.inputUsdPerMillionTokens
    (.spend ("DUR-056 price for " ++ model ++ " is malformed"))
  let amount := tokensCost inputRate price.outputRate requestBytes maxOutputTokens
  let committed := decimal (decimal (l.spentUsd + l.reservedUsd) + l.uncertainUsd)
  rejectIf (capUsd < decimal (committed + amount))
    (.spend ("DUR-056 $25 cap rejected reservation ($" ++
      formatEightPlaces (decimal (committed + amount)) ++ ")"))
  pure ({ l with
    reservedUsd := eightPlaces (decimal (l.reservedUsd + amount))
    status := .inProgress
    entries := l.entries ++ [.request
      { callID := drawn, model, operation, state := .reserved, requestBytes
        inputTokenReservation := requestBytes, outputTokenReservation := maxOutputTokens
        reservedUsd := eightPlaces amount, settlement := none }] }, drawn)

/-- `settle`: the file it writes, and what it then returns or raises. -/
def Ledger.settle (l : Ledger) (callID : String) (inputTokens outputTokens reasoningTokens : ℤ) :
    Except LedgerError (Ledger × Except LedgerError ℚ) := do
  rejectIf (inputTokens < 0 ∨ outputTokens < 0 ∨ reasoningTokens < 0)
    (.spend "DUR-056 provider usage cannot be negative")
  let e ← l.entry callID
  rejectIf (e.state ≠ .reserved) (.spend "only an open DUR-056 reservation can be settled")
  let price ← l.price e.model
  let inputRate ← getOr price.inputUsdPerMillionTokens (.key "input_usd_per_million_tokens")
  let cost := tokensCost inputRate price.outputRate inputTokens outputTokens
  let reserved := eightPlaces (decimal (l.reservedUsd - e.reservedUsd))
  let newSpent := decimal (l.spentUsd + cost)
  let status :=
    if capUsd < decimal (decimal (newSpent + reserved) + l.uncertainUsd) then .capBreachRecorded
    else l.status
  pure ({ l with
    spentUsd := eightPlaces newSpent
    reservedUsd := reserved
    status := status
    entries := l.updateEntry callID (fun e => { e with
      state := .settled
      settlement := some ⟨inputTokens, outputTokens, reasoningTokens, eightPlaces cost⟩ }) },
    if status = .capBreachRecorded then
      .error (.spend "provider usage exceeded the DUR-056 cap reservation")
    else .ok cost)

/-- `fail`: nothing to do when the reservation is not open. -/
def Ledger.fail (l : Ledger) (callID : String) (outcomeUncertain : Bool) : Except LedgerError Ledger := do
  let e ← l.entry callID
  if e.state ≠ .reserved then pure l
  else
    pure { l with
      reservedUsd := eightPlaces (decimal (l.reservedUsd - e.reservedUsd))
      uncertainUsd :=
        if outcomeUncertain then eightPlaces (decimal (l.uncertainUsd + e.reservedUsd)) else l.uncertainUsd
      status := if outcomeUncertain then .reconciliationRequired else .inProgress
      entries := l.updateEntry callID (fun e => { e with
        state := if outcomeUncertain then .uncertain else .rejected }) }

/-- The requests of the file, by call id: a later entry replaces an earlier one. -/
def Ledger.requestOf (l : Ledger) (callID : String) : Option RequestEntry :=
  if callID = "" then none else l.entries.reverse.findSome? (Entry.requestOf callID)

/-- The call ids of the file's reconciliation events. -/
def Ledger.reconciled (l : Ledger) : List String :=
  l.entries.filterMap (fun
    | .request _ => none
    | .reconciliation r => if r.reconcilesCallID = "" then none else some r.reconcilesCallID)

/-- The amount of a request that can be reconciled. -/
def Ledger.reconcilableAmount (l : Ledger) (callID : String) : Except LedgerError ℚ := do
  let e ← getOr (l.requestOf callID) (.spend "NOT_SENT reconciliation requires UNCERTAIN requests")
  rejectIf (e.state ≠ .uncertain) (.spend "NOT_SENT reconciliation requires UNCERTAIN requests")
  rejectIf (e.reservedUsd ≤ 0) (.spend "NOT_SENT reconciliation amount must be positive")
  pure e.reservedUsd

/-- `str.strip` leaves nothing of the text. -/
def isBlank (s : String) : Bool :=
  s.toList.all (fun c => 0x9 ≤ c.val && c.val ≤ 0xd || 0x1c ≤ c.val && c.val ≤ 0x20 || c.val = 0x85 ||
    c.val = 0xa0 || c.val = 0x1680 || 0x2000 ≤ c.val && c.val ≤ 0x200a || c.val = 0x2028 ||
    c.val = 0x2029 || c.val = 0x202f || c.val = 0x205f || c.val = 0x3000)

/-- What `reconcile_not_sent` returns. -/
structure ReconciliationReport where
  requestsReconciled : ℕ
  amountReconciledUsd : String
  uncertainUsdRemaining : String
  status : LedgerStatus
deriving DecidableEq, Repr

/-- `reconcile_not_sent`. -/
def Ledger.reconcileNotSent (l : Ledger) (callIDs : List String) (reason evidence : String) :
    Except LedgerError (Ledger × ReconciliationReport) := do
  rejectIf (callIDs = [] ∨ ¬ callIDs.Nodup) (.spend "NOT_SENT reconciliation requires unique request IDs")
  rejectIf (isBlank reason ∨ isBlank evidence)
    (.spend "NOT_SENT reconciliation requires reason and evidence")
  rejectIf (∃ callID ∈ callIDs, callID ∈ l.reconciled)
    (.spend "request already has a ledger reconciliation")
  let amounts ← callIDs.mapM l.reconcilableAmount
  let amountTotal := amounts.foldl (fun total amount => decimal (total + amount)) 0
  rejectIf (l.uncertainUsd < amountTotal) (.spend "NOT_SENT reconciliation exceeds uncertain ledger amount")
  let remaining := decimal (l.uncertainUsd - amountTotal)
  let status := if 0 < remaining then .reconciliationRequired else .inProgress
  pure ({ l with
    uncertainUsd := eightPlaces remaining
    status := status
    entries := l.entries ++ (callIDs.zip amounts).map (fun target =>
      .reconciliation ⟨target.1, eightPlaces target.2⟩) },
    ⟨callIDs.length, formatEightPlaces amountTotal, formatEightPlaces remaining, status⟩)

-- ============================================================================
-- Calls on the file
-- ============================================================================

inductive LedgerCall where
  | reserve (model operation : String) (requestBytes maxOutputTokens : ℤ)
  | settle (callID : String) (inputTokens outputTokens reasoningTokens : ℤ)
  | fail (callID : String) (outcomeUncertain : Bool)
  | reconcileNotSent (callIDs : List String) (reason evidence : String)
deriving DecidableEq, Repr

/-- The file after a call, and what the call raises. -/
structure Outcome where
  file : Ledger
  raised : Option LedgerError
deriving DecidableEq

/-- A call with the call id it may draw; a call that raises before it writes leaves the file. -/
def Ledger.perform (l : Ledger) (drawn : String) : LedgerCall → Outcome
  | .reserve model operation requestBytes maxOutputTokens =>
      match l.reserve model operation requestBytes maxOutputTokens drawn with
      | .ok (l', _) => ⟨l', none⟩
      | .error e => ⟨l, some e⟩
  | .settle callID inputTokens outputTokens reasoningTokens =>
      match l.settle callID inputTokens outputTokens reasoningTokens with
      | .ok (l', .ok _) => ⟨l', none⟩
      | .ok (l', .error e) => ⟨l', some e⟩
      | .error e => ⟨l, some e⟩
  | .fail callID outcomeUncertain =>
      match l.fail callID outcomeUncertain with
      | .ok l' => ⟨l', none⟩
      | .error e => ⟨l, some e⟩
  | .reconcileNotSent callIDs reason evidence =>
      match l.reconcileNotSent callIDs reason evidence with
      | .ok (l', _) => ⟨l', none⟩
      | .error e => ⟨l, some e⟩

-- ============================================================================
-- What a call writes
-- ============================================================================

/-- The rates of `model` are `inputRate` and `outputRate`. -/
def Ledger.Rates (l : Ledger) (model : String) (inputRate outputRate : ℚ) : Prop :=
  ∃ price, l.priceSources.lookup model = some price ∧ price.inputUsdPerMillionTokens = some inputRate ∧
    price.outputRate = outputRate

/-- `e` is the entry of `callID` and an open reservation. -/
def Ledger.Open (l : Ledger) (callID : String) (e : RequestEntry) : Prop :=
  l.entry callID = .ok e ∧ e.state = .reserved

/-- `reserve` admits a request of the price `amount`. -/
structure Ledger.Admits (l : Ledger) (model operation : String) (requestBytes maxOutputTokens : ℤ)
    (amount : ℚ) : Prop where
  label : 0 < operation.length ∧ operation.length ≤ 160
  request : 0 < requestBytes ∧ requestBytes ≤ 100000
  output : 0 ≤ maxOutputTokens ∧ maxOutputTokens ≤ 2000
  priced : ∃ inputRate outputRate, l.Rates model inputRate outputRate ∧
    amount = tokensCost inputRate outputRate requestBytes maxOutputTokens
  cap : decimal (decimal (decimal (l.spentUsd + l.reservedUsd) + l.uncertainUsd) + amount) ≤ capUsd

/-- The file after an admitted reservation. -/
def Ledger.withReservation (l : Ledger) (drawn model operation : String)
    (requestBytes maxOutputTokens : ℤ) (amount : ℚ) : Ledger :=
  { l with
    reservedUsd := eightPlaces (decimal (l.reservedUsd + amount))
    status := .inProgress
    entries := l.entries ++ [.request
      { callID := drawn, model, operation, state := .reserved, requestBytes
        inputTokenReservation := requestBytes, outputTokenReservation := maxOutputTokens
        reservedUsd := eightPlaces amount, settlement := none }] }

theorem reserve_eq_ok_iff {l l' : Ledger} {model operation drawn callID : String}
    {requestBytes maxOutputTokens : ℤ} :
    l.reserve model operation requestBytes maxOutputTokens drawn = .ok (l', callID) ↔
      ∃ amount, l.Admits model operation requestBytes maxOutputTokens amount ∧
        l' = l.withReservation drawn model operation requestBytes maxOutputTokens amount ∧
        callID = drawn := by
  simp only [Ledger.reserve, Ledger.price, bind_eq_ok, rejectIf_eq_ok, getOr_eq_ok, pure_eq_ok,
    not_or, not_le, not_lt, Prod.mk.injEq]
  constructor
  · rintro ⟨_, hlabel, _, hrequest, _, houtput, price, hprice, inputRate, hrate, _, hcap, rfl, rfl⟩
    exact ⟨_, ⟨⟨Nat.pos_of_ne_zero hlabel.1, hlabel.2⟩, hrequest, houtput,
      ⟨inputRate, _, ⟨price, hprice, hrate, rfl⟩, rfl⟩, hcap⟩, rfl, rfl⟩
  · rintro ⟨amount, ⟨hlabel, hrequest, houtput, ⟨_, _, ⟨price, hprice, hrate, rfl⟩, rfl⟩, hcap⟩, rfl, rfl⟩
    exact ⟨(), ⟨hlabel.1.ne', hlabel.2⟩, (), hrequest, (), houtput, price, hprice, _, hrate, (), hcap,
      rfl, rfl⟩

/-- The file after an open reservation settles at `cost`. -/
def Ledger.withSettlement (l : Ledger) (callID : String) (e : RequestEntry)
    (inputTokens outputTokens reasoningTokens : ℤ) (cost : ℚ) : Ledger :=
  { l with
    spentUsd := eightPlaces (decimal (l.spentUsd + cost))
    reservedUsd := eightPlaces (decimal (l.reservedUsd - e.reservedUsd))
    status :=
      if capUsd < decimal (decimal (decimal (l.spentUsd + cost) +
          eightPlaces (decimal (l.reservedUsd - e.reservedUsd))) + l.uncertainUsd) then .capBreachRecorded
      else l.status
    entries := l.updateEntry callID (fun e => { e with
      state := .settled
      settlement := some ⟨inputTokens, outputTokens, reasoningTokens, eightPlaces cost⟩ }) }

theorem settle_eq_ok_iff {l l' : Ledger} {callID : String} {inputTokens outputTokens reasoningTokens : ℤ}
    {returned : Except LedgerError ℚ} :
    l.settle callID inputTokens outputTokens reasoningTokens = .ok (l', returned) ↔
      ∃ e inputRate outputRate, (0 ≤ inputTokens ∧ 0 ≤ outputTokens ∧ 0 ≤ reasoningTokens) ∧
        l.Open callID e ∧ l.Rates e.model inputRate outputRate ∧
        l' = l.withSettlement callID e inputTokens outputTokens reasoningTokens
          (tokensCost inputRate outputRate inputTokens outputTokens) ∧
        returned = if l'.status = .capBreachRecorded then
            .error (.spend "provider usage exceeded the DUR-056 cap reservation")
          else .ok (tokensCost inputRate outputRate inputTokens outputTokens) := by
  simp only [Ledger.settle, Ledger.price, bind_eq_ok, rejectIf_eq_ok, getOr_eq_ok, pure_eq_ok,
    not_or, not_lt, not_not, Prod.mk.injEq]
  constructor
  · rintro ⟨_, htokens, e, he, _, hstate, price, hprice, inputRate, hrate, rfl, rfl⟩
    exact ⟨e, inputRate, _, htokens, ⟨he, hstate⟩, ⟨price, hprice, hrate, rfl⟩, rfl, rfl⟩
  · rintro ⟨e, inputRate, _, htokens, ⟨he, hstate⟩, ⟨price, hprice, hrate, rfl⟩, rfl, rfl⟩
    exact ⟨(), htokens, e, he, (), hstate, price, hprice, inputRate, hrate, rfl, rfl⟩

/-- The file after an open reservation fails. -/
def Ledger.withFailure (l : Ledger) (callID : String) (e : RequestEntry) (outcomeUncertain : Bool) :
    Ledger :=
  { l with
    reservedUsd := eightPlaces (decimal (l.reservedUsd - e.reservedUsd))
    uncertainUsd :=
      if outcomeUncertain then eightPlaces (decimal (l.uncertainUsd + e.reservedUsd)) else l.uncertainUsd
    status := if outcomeUncertain then .reconciliationRequired else .inProgress
    entries := l.updateEntry callID (fun e => { e with
      state := if outcomeUncertain then .uncertain else .rejected }) }

theorem fail_eq_ok {l l' : Ledger} {callID : String} {outcomeUncertain : Bool}
    (h : l.fail callID outcomeUncertain = .ok l') :
    l' = l ∨ ∃ e, l.Open callID e ∧ l' = l.withFailure callID e outcomeUncertain := by
  obtain ⟨e, he, h⟩ := bind_eq_ok.mp h
  split at h
  case isTrue hstate => exact .inl (pure_eq_ok.mp h).symm
  case isFalse hstate => exact .inr ⟨e, ⟨he, not_not.mp hstate⟩, (pure_eq_ok.mp h).symm⟩

/-- The request of `callID` can be reconciled for `amount`. -/
def Ledger.Reconcilable (l : Ledger) (callID : String) (amount : ℚ) : Prop :=
  ∃ e, l.requestOf callID = some e ∧ e.state = .uncertain ∧ 0 < e.reservedUsd ∧ amount = e.reservedUsd

theorem reconcilableAmount_eq_ok_iff {l : Ledger} {callID : String} {amount : ℚ} :
    l.reconcilableAmount callID = .ok amount ↔ l.Reconcilable callID amount := by
  simp only [Ledger.reconcilableAmount, Ledger.Reconcilable, bind_eq_ok, rejectIf_eq_ok, getOr_eq_ok,
    pure_eq_ok, not_not, not_le]
  constructor
  · rintro ⟨e, he, _, hstate, _, hpos, rfl⟩
    exact ⟨e, he, hstate, hpos, rfl⟩
  · rintro ⟨e, he, hstate, hpos, rfl⟩
    exact ⟨e, he, (), hstate, (), hpos, rfl⟩

/-- The running total of decimal additions. -/
def decimalSum (amounts : List ℚ) : ℚ :=
  amounts.foldl (fun total amount => decimal (total + amount)) 0

/-- `reconcile_not_sent` admits the requests `callIDs`, whose amounts are `amounts`. -/
structure Ledger.AdmitsReconciliation (l : Ledger) (callIDs : List String) (reason evidence : String)
    (amounts : List ℚ) : Prop where
  nonempty : callIDs ≠ []
  explained : ¬ isBlank reason ∧ ¬ isBlank evidence
  nodup : callIDs.Nodup
  fresh : ∀ callID ∈ callIDs, callID ∉ l.reconciled
  reconcilable : List.Forall₂ l.Reconcilable callIDs amounts
  covered : decimalSum amounts ≤ l.uncertainUsd

/-- The file after a reconciliation. -/
def Ledger.withReconciliation (l : Ledger) (callIDs : List String) (amounts : List ℚ) : Ledger :=
  { l with
    uncertainUsd := eightPlaces (decimal (l.uncertainUsd - decimalSum amounts))
    status :=
      if 0 < decimal (l.uncertainUsd - decimalSum amounts) then .reconciliationRequired else .inProgress
    entries := l.entries ++ (callIDs.zip amounts).map (fun target =>
      .reconciliation ⟨target.1, eightPlaces target.2⟩) }

theorem mapM_eq_ok {ε α β : Type} {f : α → Except ε β} {xs : List α} {ys : List β}
    (h : xs.mapM f = .ok ys) : List.Forall₂ (fun x y => f x = .ok y) xs ys := by
  induction xs generalizing ys with
  | nil =>
      rw [List.mapM_nil] at h
      cases pure_eq_ok.mp h
      exact .nil
  | cons x xs ih =>
      rw [List.mapM_cons] at h
      obtain ⟨y, hy, h⟩ := bind_eq_ok.mp h
      obtain ⟨ys, hys, h⟩ := bind_eq_ok.mp h
      cases pure_eq_ok.mp h
      exact .cons hy (ih hys)

theorem reconcileNotSent_eq_ok {l l' : Ledger} {callIDs : List String} {reason evidence : String}
    {report : ReconciliationReport} (h : l.reconcileNotSent callIDs reason evidence = .ok (l', report)) :
    ∃ amounts, l.AdmitsReconciliation callIDs reason evidence amounts ∧
      l' = l.withReconciliation callIDs amounts := by
  simp only [Ledger.reconcileNotSent, bind_eq_ok, rejectIf_eq_ok, pure_eq_ok, not_or, not_not,
    not_exists, not_and, not_lt, Prod.mk.injEq] at h
  obtain ⟨_, ⟨hnonempty, hnodup⟩, _, hexplained, _, hfresh, amounts, hamounts, _, hcovered, rfl, -⟩ := h
  refine ⟨amounts, ⟨hnonempty, hexplained, hnodup, hfresh, ?_, hcovered⟩, rfl⟩
  exact (mapM_eq_ok hamounts).imp (fun _ _ h => reconcilableAmount_eq_ok_iff.mp h)

/-- A call writes the file. -/
inductive Ledger.Writes (l : Ledger) (drawn : String) : LedgerCall → Ledger → Prop where
  | reserve {model operation : String} {requestBytes maxOutputTokens : ℤ} {amount : ℚ}
      (h : l.Admits model operation requestBytes maxOutputTokens amount) :
      l.Writes drawn (.reserve model operation requestBytes maxOutputTokens)
        (l.withReservation drawn model operation requestBytes maxOutputTokens amount)
  | settle {callID : String} {inputTokens outputTokens reasoningTokens : ℤ} {e : RequestEntry}
      {inputRate outputRate : ℚ} (htokens : 0 ≤ inputTokens ∧ 0 ≤ outputTokens ∧ 0 ≤ reasoningTokens)
      (hopen : l.Open callID e) (hrates : l.Rates e.model inputRate outputRate) :
      l.Writes drawn (.settle callID inputTokens outputTokens reasoningTokens)
        (l.withSettlement callID e inputTokens outputTokens reasoningTokens
          (tokensCost inputRate outputRate inputTokens outputTokens))
  | fail {callID : String} {outcomeUncertain : Bool} {e : RequestEntry} (hopen : l.Open callID e) :
      l.Writes drawn (.fail callID outcomeUncertain) (l.withFailure callID e outcomeUncertain)
  | reconcileNotSent {callIDs : List String} {reason evidence : String} {amounts : List ℚ}
      (h : l.AdmitsReconciliation callIDs reason evidence amounts) :
      l.Writes drawn (.reconcileNotSent callIDs reason evidence) (l.withReconciliation callIDs amounts)

/-- A call leaves the file as it is, or writes it; when it also raises, the file records a breach. -/
theorem perform_cases (l : Ledger) (drawn : String) (call : LedgerCall) :
    (l.perform drawn call).file = l ∨
      l.Writes drawn call (l.perform drawn call).file ∧
        ((l.perform drawn call).raised = none ∨
          (l.perform drawn call).file.status = .capBreachRecorded) := by
  cases call with
  | reserve model operation requestBytes maxOutputTokens =>
      rw [Ledger.perform]
      cases h : l.reserve model operation requestBytes maxOutputTokens drawn with
      | error e => exact .inl rfl
      | ok written =>
          obtain ⟨file, callID⟩ := written
          obtain ⟨amount, hadmits, hfile, -⟩ := reserve_eq_ok_iff.mp h
          exact .inr ⟨hfile ▸ .reserve hadmits, .inl rfl⟩
  | settle callID inputTokens outputTokens reasoningTokens =>
      rw [Ledger.perform]
      cases h : l.settle callID inputTokens outputTokens reasoningTokens with
      | error e => exact .inl rfl
      | ok written =>
          obtain ⟨file, returned⟩ := written
          obtain ⟨e, inputRate, outputRate, htokens, hopen, hrates, hfile, hreturned⟩ :=
            settle_eq_ok_iff.mp h
          cases returned with
          | ok cost => exact .inr ⟨hfile ▸ .settle htokens hopen hrates, .inl rfl⟩
          | error e =>
              refine .inr ⟨hfile ▸ .settle htokens hopen hrates, .inr ?_⟩
              by_contra hstatus
              rw [if_neg hstatus] at hreturned
              exact nomatch hreturned
  | fail callID outcomeUncertain =>
      rw [Ledger.perform]
      cases h : l.fail callID outcomeUncertain with
      | error e => exact .inl rfl
      | ok file =>
          rcases fail_eq_ok h with hsame | ⟨e, hopen, hfile⟩
          · exact .inl hsame
          · exact .inr ⟨hfile ▸ .fail hopen, .inl rfl⟩
  | reconcileNotSent callIDs reason evidence =>
      rw [Ledger.perform]
      cases h : l.reconcileNotSent callIDs reason evidence with
      | error e => exact .inl rfl
      | ok written =>
          obtain ⟨file, report⟩ := written
          obtain ⟨amounts, hadmits, hfile⟩ := reconcileNotSent_eq_ok h
          exact .inr ⟨hfile ▸ .reconcileNotSent hadmits, .inl rfl⟩

/-- An open reservation with its rates settles, and raises only when the file records a breach. -/
theorem perform_settle {l : Ledger} {drawn callID : String} {e : RequestEntry}
    {inputTokens outputTokens reasoningTokens : ℤ} {inputRate outputRate : ℚ}
    (htokens : 0 ≤ inputTokens ∧ 0 ≤ outputTokens ∧ 0 ≤ reasoningTokens)
    (hopen : l.Open callID e) (hrates : l.Rates e.model inputRate outputRate)
    (hstatus : (l.withSettlement callID e inputTokens outputTokens reasoningTokens
      (tokensCost inputRate outputRate inputTokens outputTokens)).status ≠ .capBreachRecorded) :
    (l.perform drawn (.settle callID inputTokens outputTokens reasoningTokens)).raised = none := by
  rw [Ledger.perform, settle_eq_ok_iff.mpr ⟨e, _, _, htokens, hopen, hrates, rfl, rfl⟩, if_neg hstatus]

-- ============================================================================
-- Sums over the entries
-- ============================================================================

theorem requestOf_eq_some {callID : String} {x : Entry} {e : RequestEntry} :
    x.requestOf callID = some e ↔ x = .request e ∧ e.callID = callID := by
  cases x with
  | reconciliation r => exact ⟨fun h => (nomatch h), fun h => (nomatch h.1)⟩
  | request e' =>
      rw [Entry.requestOf]
      split
      case isTrue hid =>
          rw [Option.some.injEq, Entry.request.injEq]
          exact ⟨fun h => ⟨h, h ▸ hid⟩, fun h => h.1⟩
      case isFalse hid => exact ⟨fun h => (nomatch h), fun ⟨h, hid'⟩ => absurd (Entry.request.inj h ▸ hid') hid⟩

/-- The entry that `_entry` finds, in its place. -/
theorem Ledger.Open.split {l : Ledger} {callID : String} {e : RequestEntry} (h : l.Open callID e) :
    e.callID = callID ∧ ∃ before after, l.entries = before ++ .request e :: after ∧
      ∀ f, l.updateEntry callID f = before ++ .request (f e) :: after := by
  obtain ⟨before, x, after, hsplit, hx, hbefore⟩ :=
    List.findSome?_eq_some_iff.mp (getOr_eq_ok.mp h.1)
  obtain ⟨rfl, hid⟩ := requestOf_eq_some.mp hx
  refine ⟨hid, before, after, hsplit, fun f => ?_⟩
  rw [Ledger.updateEntry, hsplit]
  clear hsplit
  induction before with
  | nil => simp only [List.nil_append, List.replaceF, hx, Option.map_some]
  | cons y before ih =>
      have hy : y.requestOf callID = none := hbefore y (List.mem_cons_self ..)
      simp only [List.cons_append, List.replaceF, hy, Option.map_none]
      rw [ih (fun z hz => hbefore z (List.mem_cons_of_mem _ hz))]

theorem Ledger.Open.mem {l : Ledger} {callID : String} {e : RequestEntry} (h : l.Open callID e) :
    .request e ∈ l.entries := by
  obtain ⟨-, before, after, hsplit, -⟩ := h.split
  rw [hsplit]
  exact List.mem_append_right _ (List.mem_cons_self ..)

/-- Updating an entry changes a sum over the entries by the change of its term. -/
theorem Ledger.Open.sum_updateEntry {l : Ledger} {callID : String} {e : RequestEntry}
    (h : l.Open callID e) (weight : Entry → ℚ) (f : RequestEntry → RequestEntry) :
    ((l.updateEntry callID f).map weight).sum =
      (l.entries.map weight).sum - weight (.request e) + weight (.request (f e)) := by
  obtain ⟨-, before, after, hsplit, hupdate⟩ := h.split
  rw [hupdate f, hsplit]
  simp only [List.map_append, List.map_cons, List.sum_append, List.sum_cons]
  ring

theorem Ledger.Open.mem_updateEntry {l : Ledger} {callID : String} {e : RequestEntry}
    (h : l.Open callID e) {f : RequestEntry → RequestEntry} {x : Entry}
    (hx : x ∈ l.updateEntry callID f) : x ∈ l.entries ∨ x = .request (f e) := by
  obtain ⟨-, before, after, hsplit, hupdate⟩ := h.split
  rw [hupdate f] at hx
  rw [hsplit]
  rcases List.mem_append.mp hx with hx | hx
  · exact .inl (List.mem_append_left _ hx)
  · rcases List.mem_cons.mp hx with rfl | hx
    · exact .inr rfl
    · exact .inl (List.mem_append_right _ (List.mem_cons_of_mem _ hx))

/-- What an open reservation holds. -/
def Entry.openAmount : Entry → ℚ
  | .request e => if e.state = .reserved then e.reservedUsd else 0
  | .reconciliation _ => 0

def Ledger.openTotal (l : Ledger) : ℚ := (l.entries.map Entry.openAmount).sum

theorem openTotal_withReservation {l : Ledger} {drawn model operation : String}
    {requestBytes maxOutputTokens : ℤ} {amount : ℚ} :
    (l.withReservation drawn model operation requestBytes maxOutputTokens amount).openTotal =
      l.openTotal + eightPlaces amount := by
  simp only [Ledger.openTotal, Ledger.withReservation, List.map_append, List.map_cons, List.map_nil,
    List.sum_append, List.sum_cons, List.sum_nil, add_zero, Entry.openAmount, if_true]

theorem Ledger.Open.openTotal_update {l l' : Ledger} {callID : String} {e : RequestEntry}
    {f : RequestEntry → RequestEntry} (h : l.Open callID e)
    (hentries : l'.entries = l.updateEntry callID f) (hf : (f e).state ≠ .reserved) :
    l'.openTotal = l.openTotal - e.reservedUsd := by
  rw [Ledger.openTotal, hentries, h.sum_updateEntry, Ledger.openTotal]
  simp only [Entry.openAmount, if_pos h.2, if_neg hf, add_zero]

/-- What an uncertain request without a reconciliation event holds. -/
def Entry.uncertainAmount (reconciled : List String) : Entry → ℚ
  | .request e => if e.state = .uncertain ∧ e.callID ∉ reconciled then e.reservedUsd else 0
  | .reconciliation _ => 0

def Ledger.uncertainTotal (l : Ledger) : ℚ := (l.entries.map (Entry.uncertainAmount l.reconciled)).sum

/-- What a settled request cost. -/
def Entry.settledCost : Entry → ℚ
  | .request e => if e.state = .settled then (e.settlement.map (·.costUsd)).getD 0 else 0
  | .reconciliation _ => 0

def Ledger.settledTotal (l : Ledger) : ℚ := (l.entries.map Entry.settledCost).sum

/-- The totals are the sums over the entries. -/
def Ledger.Balanced (l : Ledger) : Prop :=
  l.reservedUsd = l.openTotal ∧ l.uncertainUsd = l.uncertainTotal ∧ l.spentUsd = l.settledTotal

instance (l : Ledger) : Decidable l.Balanced := inferInstanceAs (Decidable (_ ∧ _ ∧ _))

/-- The models of the committed ledger. -/
def committedPrices : List (String × Price) :=
  [("gpt-6-luna", ⟨some (1 / 10), some (1 / 2)⟩), ("text-embedding-3-small", ⟨some (1 / 50), none⟩)]

/-- A ledger without entries. -/
def emptyLedger (priceSources : List (String × Price)) (status : LedgerStatus) : Ledger where
  priceSources
  spentUsd := 0
  reservedUsd := 0
  uncertainUsd := 0
  status
  entries := []

/-- The file after a reservation of 100 bytes and 100 tokens of output. -/
def reservedLedger : Ledger :=
  ((emptyLedger committedPrices .inProgress).perform "7a" (.reserve "gpt-6-luna" "unit-test" 100 100)).file

end DurableEngine.IncidentAgent
