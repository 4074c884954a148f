/-
  DurableEngine.IncidentAgent.Books

  The books of the ledger.

  Totals and entries are rounded on their own, and every call writes the one
  status field.  A call that writes keeps the books when each price it adds to
  a total rounds there as it does in its entry (`Carries`), when 28 digits hold
  the amounts it moves (`Held`), and when no status is overwritten that still
  has to stand (`KeepsBooks`).  Runs of such calls keep every total equal to
  the sum over the entries.
-/

import DurableEngine.IncidentAgent.SpendLedger

namespace DurableEngine.IncidentAgent

open Lib

-- ============================================================================
-- Rounding a running total
-- ============================================================================

/-- An amount of eight places. -/
def Places (q : ℚ) : Prop := ∃ k : ℤ, q = k * place

theorem place_ne_zero : place ≠ 0 := by
  norm_num [place]

theorem Places.zero : Places 0 := ⟨0, by rw [Int.cast_zero, zero_mul]⟩

theorem Places.add {q r : ℚ} (hq : Places q) (hr : Places r) : Places (q + r) := by
  obtain ⟨m, rfl⟩ := hq
  obtain ⟨n, rfl⟩ := hr
  exact ⟨m + n, by push_cast; ring⟩

theorem Places.neg {q : ℚ} (hq : Places q) : Places (-q) := by
  obtain ⟨m, rfl⟩ := hq
  exact ⟨-m, by push_cast; ring⟩

theorem Places.sub {q r : ℚ} (hq : Places q) (hr : Places r) : Places (q - r) :=
  sub_eq_add_neg q r ▸ hq.add hr.neg

theorem places_eightPlaces (q : ℚ) : Places (eightPlaces q) := ⟨_, rfl⟩

theorem Places.eightPlaces_eq {q : ℚ} (h : Places q) : eightPlaces q = q := by
  obtain ⟨k, rfl⟩ := h
  exact roundTo_intCast_mul (by norm_num [place]) k

/-- `q` is closer to `target` than to any other amount of eight places, or halfway from it and the
    last digit of `target` is even. -/
def NearestPlace (q target : ℚ) : Prop :=
  |q - target| < place / 2 ∨ |q - target| = place / 2 ∧ rint (target / place) % 2 = 0

instance (q target : ℚ) : Decidable (NearestPlace q target) :=
  inferInstanceAs (Decidable (_ ∨ _))

theorem nearestPlace_iff {q : ℚ} {k : ℤ} : NearestPlace q (k * place) ↔ Nearest (q / place) k := by
  have hpos : 0 < place := by norm_num [place]
  have hdist : |q / place - k| = |q - k * place| / place := by
    rw [div_sub' place_ne_zero, abs_div, abs_of_pos hpos, mul_comm]
  have hdigit : rint (k * place / place) = k := by
    rw [mul_div_cancel_right₀ _ place_ne_zero, rint_intCast]
  rw [NearestPlace, Nearest, hdist, hdigit, div_lt_iff₀ hpos, div_eq_iff place_ne_zero]
  have hhalf : place / 2 = 1 / 2 * place := by ring
  rw [hhalf]

theorem eightPlaces_eq_iff {q target : ℚ} (htarget : Places target) :
    eightPlaces q = target ↔ NearestPlace q target := by
  obtain ⟨k, rfl⟩ := htarget
  rw [nearestPlace_iff, ← rint_eq_iff, eightPlaces, roundTo]
  constructor
  · intro h
    exact_mod_cast mul_right_cancel₀ place_ne_zero h
  · rintro rfl
    rfl

/-- 28 digits hold the amount. -/
def Held (q : ℚ) : Prop := decimal q = q

instance (q : ℚ) : Decidable (Held q) := inferInstanceAs (Decidable (decimal q = q))

/-- Where 28 digits hold the sum, the amount is not halfway between two amounts of eight places, or
    the last digit of the total is even.  Elsewhere the 28-digit sum, already rounded once, is nearest
    to the total with the rounded amount. -/
def Carries (total amount : ℚ) : Prop :=
  if Held (total + amount) then
    |amount - eightPlaces amount| = place / 2 → rint (total / place) % 2 = 0
  else NearestPlace (decimal (total + amount)) (total + eightPlaces amount)

instance (total amount : ℚ) : Decidable (Carries total amount) :=
  inferInstanceAs (Decidable (if Held (total + amount) then
    |amount - eightPlaces amount| = place / 2 → rint (total / place) % 2 = 0
  else NearestPlace (decimal (total + amount)) (total + eightPlaces amount)))

/-- Adding an amount to a total of eight places: only an amount halfway between two amounts of eight
    places is rounded differently, and only onto a total whose last digit is odd. -/
theorem nearestPlace_add_iff {total amount : ℚ} (htotal : Places total) :
    NearestPlace (total + amount) (total + eightPlaces amount) ↔
      (|amount - eightPlaces amount| = place / 2 → rint (total / place) % 2 = 0) := by
  obtain ⟨k, rfl⟩ := htotal
  have hpos : 0 < place := by norm_num [place]
  have hdigit : rint (k * place / place) = k := by
    rw [mul_div_cancel_right₀ _ place_ne_zero, rint_intCast]
  have htarget : k * place + eightPlaces amount = ((k + rint (amount / place) : ℤ) : ℚ) * place := by
    rw [eightPlaces, roundTo]
    push_cast
    ring
  have hquotient : (k * place + amount) / place = k + amount / place := by
    rw [add_div, mul_div_cancel_right₀ _ place_ne_zero]
  have hdist : |amount - eightPlaces amount| = |amount / place - rint (amount / place)| * place := by
    rw [eightPlaces, roundTo, ← abs_of_pos hpos, ← abs_mul, abs_of_pos hpos, sub_mul,
      div_mul_cancel₀ _ place_ne_zero]
  have hhalf : |amount / place - rint (amount / place)| * place = place / 2 ↔
      |amount / place - rint (amount / place)| = 1 / 2 := by
    rw [← eq_div_iff place_ne_zero]
    have hdiv : place / 2 / place = 1 / 2 := by
      field_simp [place_ne_zero]
    rw [hdiv]
  rw [htarget, nearestPlace_iff, hquotient, nearest_add_iff (nearest_rint _), hdist, hhalf, hdigit,
    not_and, not_not]

/-- A total and an amount carry exactly when rounding the sum adds the rounded amount. -/
theorem carries_iff {total amount : ℚ} (htotal : Places total) :
    Carries total amount ↔ eightPlaces (decimal (total + amount)) = total + eightPlaces amount := by
  rw [eightPlaces_eq_iff (htotal.add (places_eightPlaces amount)), Carries]
  split
  case isTrue hheld =>
    rw [Held] at hheld
    rw [hheld, nearestPlace_add_iff htotal]
  case isFalse => exact Iff.rfl

/-- An amount of eight places that 28 digits hold is written as it is. -/
theorem Held.eightPlaces_eq {q : ℚ} (h : Held q) (hplaces : Places q) : eightPlaces (decimal q) = q := by
  rw [show decimal q = q from h, hplaces.eightPlaces_eq]

-- ============================================================================
-- Calls that keep the books
-- ============================================================================

/-- Of the calls that write: each price a call adds to a total rounds there as in its entry, and 28
    digits hold the amounts it moves; no call says that nothing is uncertain while something is, and
    none replaces a recorded breach. -/
def Ledger.KeepsBooks (l : Ledger) : LedgerCall → Prop
  | .reserve model operation requestBytes maxOutputTokens =>
      ∀ amount, l.Admits model operation requestBytes maxOutputTokens amount →
        Carries l.reservedUsd amount ∧ l.uncertainUsd ≤ 0 ∧ l.status ≠ .capBreachRecorded
  | .settle callID inputTokens outputTokens reasoningTokens =>
      ∀ e inputRate outputRate, 0 ≤ inputTokens ∧ 0 ≤ outputTokens ∧ 0 ≤ reasoningTokens →
        l.Open callID e → l.Rates e.model inputRate outputRate →
        Held (l.reservedUsd - e.reservedUsd) ∧
        Carries l.spentUsd (tokensCost inputRate outputRate inputTokens outputTokens) ∧
        (0 < l.uncertainUsd →
          decimal (decimal (decimal (l.spentUsd + tokensCost inputRate outputRate inputTokens outputTokens) +
            (l.reservedUsd - e.reservedUsd)) + l.uncertainUsd) ≤ capUsd)
  | .fail callID outcomeUncertain =>
      ∀ e, l.Open callID e →
        Held (l.reservedUsd - e.reservedUsd) ∧
        (if outcomeUncertain then Held (l.uncertainUsd + e.reservedUsd) else l.uncertainUsd ≤ 0) ∧
        l.status ≠ .capBreachRecorded
  | .reconcileNotSent callIDs reason evidence =>
      ∀ amounts, l.AdmitsReconciliation callIDs reason evidence amounts →
        decimal (l.uncertainUsd - decimalSum amounts) = l.uncertainUsd - amounts.sum ∧
        l.status ≠ .capBreachRecorded

/-- The call ids of the requests. -/
def Ledger.callIDs (l : Ledger) : List String :=
  l.entries.filterMap (fun
    | .request e => some e.callID
    | .reconciliation _ => none)

/-- A drawn call id is a text not in the file. -/
def Ledger.Unused (l : Ledger) (drawn : String) : Prop :=
  drawn ≠ "" ∧ drawn ∉ l.callIDs

/-- A ledger that its calls have kept since it was empty. -/
structure Ledger.Books (l : Ledger) : Prop where
  balanced : l.Balanced
  reservedPlaces : Places l.reservedUsd
  uncertainPlaces : Places l.uncertainUsd
  spentPlaces : Places l.spentUsd
  entryPlaces : ∀ e, .request e ∈ l.entries → Places e.reservedUsd
  distinct : l.callIDs.Nodup
  nonempty : "" ∉ l.callIDs
  reconciledUncertain : ∀ callID ∈ l.reconciled, ∃ e, .request e ∈ l.entries ∧ e.callID = callID ∧
    e.state = .uncertain
  status : 0 < l.uncertainUsd → l.status = .reconciliationRequired

theorem emptyLedger_books (priceSources : List (String × Price)) (status : LedgerStatus) :
    (emptyLedger priceSources status).Books where
  balanced := ⟨rfl, rfl, rfl⟩
  reservedPlaces := .zero
  uncertainPlaces := .zero
  spentPlaces := .zero
  entryPlaces := fun _ h => (nomatch h)
  distinct := List.nodup_nil
  nonempty := fun h => (nomatch h)
  reconciledUncertain := fun _ h => (nomatch h)
  status := fun h => absurd h (lt_irrefl 0)

section Books

variable {l : Ledger}

/-- No other request has the call id of a request. -/
theorem Ledger.Books.split (hl : l.Books) {e : RequestEntry} (he : .request e ∈ l.entries) :
    ∃ before after, l.entries = before ++ .request e :: after ∧
      ∀ e', .request e' ∈ before ++ after → e'.callID ≠ e.callID := by
  obtain ⟨before, after, hsplit⟩ := List.append_of_mem he
  have hdistinct := hl.distinct
  rw [Ledger.callIDs, hsplit, List.filterMap_append] at hdistinct
  change (List.filterMap _ before ++ e.callID :: List.filterMap _ after).Nodup at hdistinct
  rw [List.nodup_middle, ← List.filterMap_append, List.nodup_cons] at hdistinct
  refine ⟨before, after, hsplit, fun e' he' hid => hdistinct.1 ?_⟩
  exact List.mem_filterMap.mpr ⟨_, he', congrArg some hid⟩

theorem Ledger.Books.request_unique (hl : l.Books) {e e' : RequestEntry} (he : .request e ∈ l.entries)
    (he' : .request e' ∈ l.entries) (hid : e'.callID = e.callID) : e' = e := by
  obtain ⟨before, after, hsplit, hothers⟩ := hl.split he
  rw [hsplit] at he'
  rcases List.mem_append.mp he' with hmem | hmem
  · exact absurd hid (hothers e' (List.mem_append_left _ hmem))
  · rcases List.mem_cons.mp hmem with hsame | hmem
    · exact Entry.request.inj hsame
    · exact absurd hid (hothers e' (List.mem_append_right _ hmem))

-- ============================================================================
-- An updated entry
-- ============================================================================

/-- What an update leaves of the file: the same events, call ids and other requests. -/
theorem Ledger.Open.callIDs_update {l' : Ledger} {callID : String} {e : RequestEntry}
    {f : RequestEntry → RequestEntry} (h : l.Open callID e)
    (hentries : l'.entries = l.updateEntry callID f) (hid : (f e).callID = e.callID) :
    l'.callIDs = l.callIDs ∧ l'.reconciled = l.reconciled := by
  obtain ⟨-, before, after, hsplit, hupdate⟩ := h.split
  simp only [Ledger.callIDs, Ledger.reconciled, hentries, hupdate f, hsplit, List.filterMap_append,
    List.filterMap_cons, hid, and_self]

theorem Ledger.Books.not_reconciled (hl : l.Books) {callID : String} {e : RequestEntry}
    (h : l.Open callID e) : e.callID ∉ l.reconciled := by
  intro hmem
  obtain ⟨e', he', hid, hstate⟩ := hl.reconciledUncertain _ hmem
  rw [hl.request_unique h.mem he' hid] at hstate
  exact nomatch h.2.symm.trans hstate

/-- The part of the books that an update of an open reservation keeps. -/
structure Ledger.KeepsEntries (l l' : Ledger) : Prop where
  entryPlaces : ∀ e, .request e ∈ l'.entries → Places e.reservedUsd
  distinct : l'.callIDs.Nodup
  nonempty : "" ∉ l'.callIDs
  reconciledUncertain : ∀ callID ∈ l'.reconciled, ∃ e, .request e ∈ l'.entries ∧ e.callID = callID ∧
    e.state = .uncertain

theorem Ledger.Books.keepsEntries (hl : l.Books) {l' : Ledger} {callID : String} {e : RequestEntry}
    {f : RequestEntry → RequestEntry} (h : l.Open callID e)
    (hentries : l'.entries = l.updateEntry callID f) (hid : (f e).callID = e.callID)
    (hamount : (f e).reservedUsd = e.reservedUsd) : l.KeepsEntries l' := by
  obtain ⟨hids, hreconciled⟩ := h.callIDs_update hentries hid
  refine ⟨?_, hids ▸ hl.distinct, hids ▸ hl.nonempty, ?_⟩
  case refine_1 =>
    intro e' he'
    rcases h.mem_updateEntry (hentries ▸ he') with hold | hnew
    · exact hl.entryPlaces e' hold
    · cases hnew
      exact hamount ▸ hl.entryPlaces e h.mem
  case refine_2 =>
    intro id hid'
    obtain ⟨e', he', hsame, hstate⟩ := hl.reconciledUncertain id (hreconciled ▸ hid')
    -- the updated entry was open, so it is another one
    refine ⟨e', ?_, hsame, hstate⟩
    obtain ⟨-, before, after, hsplit, hupdate⟩ := h.split
    rw [hsplit] at he'
    rw [hentries, hupdate f]
    rcases List.mem_append.mp he' with hmem | hmem
    · exact List.mem_append_left _ hmem
    · rcases List.mem_cons.mp hmem with heq | hmem
      · cases heq
        exact nomatch h.2.symm.trans hstate
      · exact List.mem_append_right _ (List.mem_cons_of_mem _ hmem)

theorem Ledger.Open.settledTotal_update {l' : Ledger} {callID : String} {e : RequestEntry}
    {f : RequestEntry → RequestEntry} (h : l.Open callID e)
    (hentries : l'.entries = l.updateEntry callID f) :
    l'.settledTotal = l.settledTotal + Entry.settledCost (.request (f e)) := by
  have hopen : Entry.settledCost (.request e) = 0 := if_neg (by rw [h.2]; exact fun h => (nomatch h))
  rw [Ledger.settledTotal, hentries, h.sum_updateEntry, hopen, sub_zero, Ledger.settledTotal]

theorem Ledger.Open.uncertainTotal_update {l' : Ledger} {callID : String} {e : RequestEntry}
    {f : RequestEntry → RequestEntry} (h : l.Open callID e)
    (hentries : l'.entries = l.updateEntry callID f) (hid : (f e).callID = e.callID) :
    l'.uncertainTotal = l.uncertainTotal + Entry.uncertainAmount l.reconciled (.request (f e)) := by
  have hstate : e.state ≠ .uncertain := by
    rw [h.2]
    exact fun h => (nomatch h)
  have hopen : Entry.uncertainAmount l.reconciled (.request e) = 0 := if_neg (fun hu => hstate hu.1)
  rw [Ledger.uncertainTotal, (h.callIDs_update hentries hid).2, hentries, h.sum_updateEntry, hopen, sub_zero,
    Ledger.uncertainTotal]

-- ============================================================================
-- What each call keeps
-- ============================================================================

theorem Ledger.Books.withReservation (hl : l.Books) {drawn model operation : String}
    {requestBytes maxOutputTokens : ℤ} {amount : ℚ} (hdrawn : l.Unused drawn)
    (hcarries : Carries l.reservedUsd amount) (hcertain : l.uncertainUsd ≤ 0) :
    (l.withReservation drawn model operation requestBytes maxOutputTokens amount).Books := by
  set l' := l.withReservation drawn model operation requestBytes maxOutputTokens amount with hl'
  have hids : l'.callIDs = l.callIDs ++ [drawn] := by
    simp only [hl', Ledger.callIDs, Ledger.withReservation, List.filterMap_append, List.filterMap_cons,
      List.filterMap_nil]
  have hreconciled : l'.reconciled = l.reconciled := by
    simp only [hl', Ledger.reconciled, Ledger.withReservation, List.filterMap_append, List.filterMap_cons,
      List.filterMap_nil, List.append_nil]
  obtain ⟨hreserved, huncertain, hspent⟩ := hl.balanced
  refine ⟨⟨?_, ?_, ?_⟩, places_eightPlaces _, hl.uncertainPlaces, hl.spentPlaces, ?_, ?_, ?_, ?_, ?_⟩
  case refine_1 =>
    rw [hl', openTotal_withReservation, ← hreserved]
    exact (carries_iff hl.reservedPlaces).mp hcarries
  case refine_2 =>
    rw [Ledger.uncertainTotal, hreconciled]
    simp only [hl', Ledger.withReservation, List.map_append, List.map_cons, List.map_nil, List.sum_append,
      List.sum_cons, List.sum_nil, Entry.uncertainAmount]
    rw [if_neg (fun h => nomatch h.1), add_zero, add_zero]
    exact huncertain
  case refine_3 =>
    simp only [hl', Ledger.settledTotal, Ledger.withReservation, List.map_append, List.map_cons,
      List.map_nil, List.sum_append, List.sum_cons, List.sum_nil, Entry.settledCost]
    rw [if_neg (fun h => nomatch h), add_zero, add_zero]
    exact hspent
  case refine_4 =>
    intro e he
    rcases List.mem_append.mp he with hold | hnew
    · exact hl.entryPlaces e hold
    · cases List.mem_singleton.mp hnew
      exact places_eightPlaces amount
  case refine_5 =>
    rw [hids]
    exact hl.distinct.append (List.nodup_singleton _)
      (List.disjoint_singleton.mpr hdrawn.2)
  case refine_6 =>
    rw [hids]
    exact fun h => (List.mem_append.mp h).elim hl.nonempty
      (fun h => hdrawn.1 (List.mem_singleton.mp h).symm)
  case refine_7 =>
    intro id hid
    obtain ⟨e, he, hsame⟩ := hl.reconciledUncertain id (hreconciled ▸ hid)
    exact ⟨e, List.mem_append_left _ he, hsame⟩
  case refine_8 => exact fun h => absurd h (not_lt.mpr hcertain)

/-- The reserved total gives back what an open reservation holds. -/
theorem Ledger.Books.released (hl : l.Books) {callID : String} {e : RequestEntry} (h : l.Open callID e)
    (hheld : Held (l.reservedUsd - e.reservedUsd)) :
    eightPlaces (decimal (l.reservedUsd - e.reservedUsd)) = l.reservedUsd - e.reservedUsd :=
  hheld.eightPlaces_eq (hl.reservedPlaces.sub (hl.entryPlaces e h.mem))

theorem Ledger.Books.withSettlement (hl : l.Books) {callID : String} {e : RequestEntry}
    {inputTokens outputTokens reasoningTokens : ℤ} {cost : ℚ} (h : l.Open callID e)
    (hreleased : Held (l.reservedUsd - e.reservedUsd)) (hspent : Carries l.spentUsd cost)
    (hcap : 0 < l.uncertainUsd →
      decimal (decimal (decimal (l.spentUsd + cost) + (l.reservedUsd - e.reservedUsd)) +
        l.uncertainUsd) ≤ capUsd) :
    (l.withSettlement callID e inputTokens outputTokens reasoningTokens cost).Books := by
  set l' := l.withSettlement callID e inputTokens outputTokens reasoningTokens cost with hl'
  obtain ⟨hreservedTotal, huncertainTotal, hspentTotal⟩ := hl.balanced
  have hreleased' := hl.released h hreleased
  have hkeeps : l.KeepsEntries l' := hl.keepsEntries h rfl rfl rfl
  have hstate : RequestState.settled ≠ .reserved := fun h => (nomatch h)
  refine ⟨⟨?_, ?_, ?_⟩, places_eightPlaces _, hl.uncertainPlaces, places_eightPlaces _,
    hkeeps.entryPlaces, hkeeps.distinct, hkeeps.nonempty, hkeeps.reconciledUncertain, ?_⟩
  case refine_1 =>
    rw [h.openTotal_update rfl hstate, ← hreservedTotal]
    exact hreleased'
  case refine_2 =>
    rw [h.uncertainTotal_update rfl rfl]
    exact huncertainTotal.trans (add_zero _).symm
  case refine_3 =>
    rw [h.settledTotal_update rfl, ← hspentTotal]
    exact (carries_iff hl.spentPlaces).mp hspent
  case refine_4 =>
    intro huncertain
    have hchecked := hcap huncertain
    rw [← hreleased'] at hchecked
    change (if capUsd < decimal (decimal (decimal (l.spentUsd + cost) +
      eightPlaces (decimal (l.reservedUsd - e.reservedUsd))) + l.uncertainUsd) then _ else _) = _
    rw [if_neg (not_lt.mpr hchecked)]
    exact hl.status huncertain

theorem Ledger.Books.withFailure (hl : l.Books) {callID : String} {e : RequestEntry}
    (h : l.Open callID e) {outcomeUncertain : Bool} (hreleased : Held (l.reservedUsd - e.reservedUsd))
    (hmoved : if outcomeUncertain then Held (l.uncertainUsd + e.reservedUsd) else l.uncertainUsd ≤ 0) :
    (l.withFailure callID e outcomeUncertain).Books := by
  set l' := l.withFailure callID e outcomeUncertain with hl'
  obtain ⟨hreservedTotal, huncertainTotal, hspentTotal⟩ := hl.balanced
  have hreleased' := hl.released h hreleased
  have hkeeps : l.KeepsEntries l' := hl.keepsEntries h rfl rfl rfl
  have hstate : (if outcomeUncertain then RequestState.uncertain else .rejected) ≠ .reserved := by
    cases outcomeUncertain <;> exact fun h => (nomatch h)
  have hnotSettled : (if outcomeUncertain then RequestState.uncertain else .rejected) ≠ .settled := by
    cases outcomeUncertain <;> exact fun h => (nomatch h)
  refine ⟨⟨?_, ?_, ?_⟩, places_eightPlaces _, ?_, hl.spentPlaces, hkeeps.entryPlaces, hkeeps.distinct,
    hkeeps.nonempty, hkeeps.reconciledUncertain, ?_⟩
  case refine_1 =>
    rw [h.openTotal_update rfl hstate, ← hreservedTotal]
    exact hreleased'
  case refine_2 =>
    rw [h.uncertainTotal_update rfl rfl, ← huncertainTotal]
    cases outcomeUncertain with
    | false => exact (add_zero _).symm
    | true =>
        have hnot := hl.not_reconciled h
        rw [Entry.uncertainAmount, if_pos ⟨rfl, hnot⟩]
        exact Held.eightPlaces_eq hmoved (hl.uncertainPlaces.add (hl.entryPlaces e h.mem))
  case refine_3 =>
    rw [h.settledTotal_update rfl, Entry.settledCost, if_neg hnotSettled, add_zero]
    exact hspentTotal
  case refine_4 =>
    cases outcomeUncertain with
    | false => exact hl.uncertainPlaces
    | true => exact places_eightPlaces _
  case refine_5 =>
    cases outcomeUncertain with
    | false => exact fun huncertain => absurd huncertain (not_lt.mpr hmoved)
    | true => exact fun _ => rfl

-- ============================================================================
-- Reconciliations
-- ============================================================================

theorem requestOf_findSome {entries : List Entry} {callID : String} {e : RequestEntry}
    (h : entries.findSome? (Entry.requestOf callID) = some e) :
    .request e ∈ entries ∧ e.callID = callID := by
  obtain ⟨x, hx, hrequest⟩ := List.exists_of_findSome?_eq_some h
  obtain ⟨rfl, hid⟩ := requestOf_eq_some.mp hrequest
  exact ⟨hx, hid⟩

theorem Ledger.Reconcilable.request {callID : String} {amount : ℚ} (h : l.Reconcilable callID amount) :
    ∃ e, .request e ∈ l.entries ∧ e.callID = callID ∧ e.state = .uncertain ∧ amount = e.reservedUsd := by
  obtain ⟨e, he, hstate, -, hamount⟩ := h
  rw [Ledger.requestOf] at he
  split at he
  case isTrue => exact nomatch he
  case isFalse =>
      obtain ⟨hmem, hid⟩ := requestOf_findSome he
      exact ⟨e, List.mem_reverse.mp hmem, hid, hstate, hamount⟩

/-- The uncertain amounts without the requests in `ids`. -/
def Ledger.uncertainWithout (l : Ledger) (ids : List String) : ℚ :=
  (l.entries.map (Entry.uncertainAmount ids)).sum

/-- Reconciling one more request takes its amount out of the sum. -/
theorem Ledger.Books.uncertainWithout_cons (hl : l.Books) {ids : List String} {callID : String}
    {amount : ℚ} (h : l.Reconcilable callID amount) (hfresh : callID ∉ ids) :
    l.uncertainWithout (callID :: ids) = l.uncertainWithout ids - amount := by
  obtain ⟨e, he, rfl, hstate, rfl⟩ := h.request
  obtain ⟨before, after, hsplit, hothers⟩ := hl.split he
  have hsame : ∀ x ∈ before ++ after,
      Entry.uncertainAmount (e.callID :: ids) x = Entry.uncertainAmount ids x := by
    intro x hx
    cases x with
    | reconciliation r => rfl
    | request e' =>
        have hne := hothers e' hx
        simp only [Entry.uncertainAmount, List.mem_cons, hne, false_or]
  have hbefore := List.map_congr_left (fun x hx => hsame x (List.mem_append_left after hx))
  have hafter := List.map_congr_left (fun x hx => hsame x (List.mem_append_right before hx))
  have hgone : Entry.uncertainAmount (e.callID :: ids) (.request e) = 0 :=
    if_neg (fun h => h.2 (List.mem_cons_self ..))
  have hcounted : Entry.uncertainAmount ids (.request e) = e.reservedUsd := if_pos ⟨hstate, hfresh⟩
  simp only [Ledger.uncertainWithout, hsplit, List.map_append, List.map_cons, List.sum_append,
    List.sum_cons, hbefore, hafter, hgone, hcounted]
  ring

theorem Ledger.Books.uncertainWithout_append (hl : l.Books) {callIDs ids : List String}
    {amounts : List ℚ} (h : List.Forall₂ l.Reconcilable callIDs amounts) (hnodup : callIDs.Nodup)
    (hfresh : ∀ callID ∈ callIDs, callID ∉ ids) :
    l.uncertainWithout (callIDs ++ ids) = l.uncertainWithout ids - amounts.sum := by
  induction h with
  | nil => rw [List.nil_append, List.sum_nil, sub_zero]
  | @cons callID amount callIDs amounts hone _ ih =>
      obtain ⟨hnot, hnodup⟩ := List.nodup_cons.mp hnodup
      have hrest := ih hnodup (fun id hid => hfresh id (List.mem_cons_of_mem _ hid))
      have hid : callID ∉ callIDs ++ ids := fun hmem =>
        (List.mem_append.mp hmem).elim hnot (hfresh callID (List.mem_cons_self ..))
      rw [List.cons_append, hl.uncertainWithout_cons hone hid, hrest, List.sum_cons]
      ring

theorem places_sum {amounts : List ℚ} (h : ∀ amount ∈ amounts, Places amount) : Places amounts.sum := by
  induction amounts with
  | nil => exact .zero
  | cons amount amounts ih =>
      rw [List.sum_cons]
      exact (h amount (List.mem_cons_self ..)).add
        (ih (fun amount hmem => h amount (List.mem_cons_of_mem _ hmem)))

theorem Ledger.AdmitsReconciliation.request_of_mem {callIDs : List String} {reason evidence : String}
    {amounts : List ℚ} (h : l.AdmitsReconciliation callIDs reason evidence amounts) {callID : String}
    (hmem : callID ∈ callIDs) :
    ∃ e, .request e ∈ l.entries ∧ e.callID = callID ∧ e.state = .uncertain := by
  obtain ⟨i, hi, rfl⟩ := List.mem_iff_getElem.mp hmem
  have hlen := h.reconcilable.length_eq
  obtain ⟨e, he, hid, hstate, -⟩ :=
    ((List.forall₂_iff_get.mp h.reconcilable).2 i hi (by omega)).request
  exact ⟨e, he, hid, hstate⟩

/-- The events of a reconciliation. -/
def reconciliationEvents (callIDs : List String) (amounts : List ℚ) : List Entry :=
  (callIDs.zip amounts).map (fun target => .reconciliation ⟨target.1, eightPlaces target.2⟩)

theorem sum_events {callIDs : List String} {amounts : List ℚ} {weight : Entry → ℚ}
    (hweight : ∀ r, weight (.reconciliation r) = 0) :
    ((reconciliationEvents callIDs amounts).map weight).sum = 0 := by
  refine List.sum_eq_zero (fun x hx => ?_)
  rw [reconciliationEvents, List.map_map] at hx
  obtain ⟨target, -, rfl⟩ := List.mem_map.mp hx
  exact hweight _

theorem callIDs_withReconciliation {callIDs : List String} {amounts : List ℚ} :
    (l.withReconciliation callIDs amounts).callIDs = l.callIDs := by
  have hevents : ∀ targets : List (String × ℚ), (targets.map (fun target =>
      Entry.reconciliation ⟨target.1, eightPlaces target.2⟩)).filterMap (fun
        | .request e => some e.callID
        | .reconciliation _ => none) = [] := by
    intro targets
    induction targets with
    | nil => rfl
    | cons target targets ih => exact ih
  rw [Ledger.callIDs, Ledger.withReconciliation, List.filterMap_append, hevents, List.append_nil]
  rfl

theorem Ledger.Reconcilable.ne_empty {callID : String} {amount : ℚ} (h : l.Reconcilable callID amount) :
    callID ≠ "" := by
  rintro rfl
  obtain ⟨e, he, -⟩ := h
  rw [Ledger.requestOf, if_pos rfl] at he
  exact nomatch he

theorem Ledger.AdmitsReconciliation.reconciled_eq {callIDs : List String} {reason evidence : String}
    {amounts : List ℚ} (h : l.AdmitsReconciliation callIDs reason evidence amounts) :
    (l.withReconciliation callIDs amounts).reconciled = l.reconciled ++ callIDs := by
  rw [Ledger.reconciled, Ledger.withReconciliation, List.filterMap_append]
  congr 1
  have hrequests := h.reconcilable
  clear h
  induction hrequests with
  | nil => rfl
  | cons hone _ ih =>
      rw [List.zip_cons_cons, List.map_cons, List.filterMap_cons, ih]
      simp only [if_neg hone.ne_empty]

theorem Ledger.Books.withReconciliation (hl : l.Books) {callIDs : List String} {reason evidence : String}
    {amounts : List ℚ} (h : l.AdmitsReconciliation callIDs reason evidence amounts)
    (hremaining : decimal (l.uncertainUsd - decimalSum amounts) = l.uncertainUsd - amounts.sum) :
    (l.withReconciliation callIDs amounts).Books := by
  obtain ⟨hreservedTotal, huncertainTotal, hspentTotal⟩ := hl.balanced
  have hreconciled := h.reconciled_eq
  have hamounts : ∀ amount ∈ amounts, Places amount := by
    intro amount hmem
    obtain ⟨i, hi, rfl⟩ := List.mem_iff_getElem.mp hmem
    have hlen := h.reconcilable.length_eq
    obtain ⟨e, he, -, -, hamount⟩ :=
      ((List.forall₂_iff_get.mp h.reconcilable).2 i (by omega) hi).request
    have hget : amounts[i] = e.reservedUsd := hamount
    rw [hget]
    exact hl.entryPlaces e he
  refine ⟨⟨?_, ?_, ?_⟩, hl.reservedPlaces, places_eightPlaces _, hl.spentPlaces, ?_, ?_, ?_, ?_, ?_⟩
  case refine_1 =>
    rw [Ledger.openTotal]
    change _ = ((l.entries ++ reconciliationEvents callIDs amounts).map Entry.openAmount).sum
    rw [List.map_append, List.sum_append, sum_events (fun _ => rfl), add_zero]
    exact hreservedTotal
  case refine_2 =>
    have hmembers : Entry.uncertainAmount (l.reconciled ++ callIDs) =
        Entry.uncertainAmount (callIDs ++ l.reconciled) := by
      funext x
      cases x with
      | reconciliation r => rfl
      | request e => simp only [Entry.uncertainAmount, List.mem_append, or_comm]
    have hgone := hl.uncertainWithout_append h.reconcilable h.nodup h.fresh
    have hwritten := (hl.uncertainPlaces.sub (places_sum hamounts)).eightPlaces_eq
    rw [← hremaining] at hwritten
    rw [Ledger.uncertainTotal, hreconciled, hmembers]
    change eightPlaces _ = ((l.entries ++ reconciliationEvents callIDs amounts).map _).sum
    rw [List.map_append, List.sum_append, sum_events (fun _ => rfl), add_zero, hwritten, hremaining]
    change _ = l.uncertainWithout (callIDs ++ l.reconciled)
    rw [hgone, huncertainTotal]
    rfl
  case refine_3 =>
    rw [Ledger.settledTotal]
    change _ = ((l.entries ++ reconciliationEvents callIDs amounts).map Entry.settledCost).sum
    rw [List.map_append, List.sum_append, sum_events (fun _ => rfl), add_zero]
    exact hspentTotal
  case refine_4 =>
    intro e he
    rcases List.mem_append.mp he with hold | hnew
    · exact hl.entryPlaces e hold
    · obtain ⟨target, -, htarget⟩ := List.mem_map.mp hnew
      cases htarget
  case refine_5 =>
    rw [callIDs_withReconciliation]
    exact hl.distinct
  case refine_6 =>
    rw [callIDs_withReconciliation]
    exact hl.nonempty
  case refine_7 =>
    intro callID hmem
    rw [hreconciled] at hmem
    have hrequest : ∃ e, .request e ∈ l.entries ∧ e.callID = callID ∧ e.state = .uncertain :=
      (List.mem_append.mp hmem).elim (hl.reconciledUncertain callID) h.request_of_mem
    obtain ⟨e, he, hsame⟩ := hrequest
    exact ⟨e, List.mem_append_left _ he, hsame⟩
  case refine_8 =>
    intro hpos
    rw [Ledger.withReconciliation]
    split
    case isTrue => rfl
    case isFalse hnot =>
      have hzero : eightPlaces 0 = 0 := roundTo_zero
      have hround : eightPlaces (decimal (l.uncertainUsd - decimalSum amounts)) ≤ eightPlaces 0 :=
        roundTo_mono (by norm_num [place]) (not_lt.mp hnot)
      exact absurd (hpos.trans_le (hround.trans_eq hzero)) (lt_irrefl 0)

theorem Ledger.Books.writes (hl : l.Books) {drawn : String} {call : LedgerCall} {l' : Ledger}
    (hdrawn : l.Unused drawn) (h : l.Writes drawn call l') (hkeeps : l.KeepsBooks call) : l'.Books := by
  cases h with
  | reserve h =>
      obtain ⟨hcarries, hcertain, -⟩ := hkeeps _ h
      exact hl.withReservation hdrawn hcarries hcertain
  | settle htokens hopen hrates =>
      obtain ⟨hreleased, hspent, hcap⟩ := hkeeps _ _ _ htokens hopen hrates
      exact hl.withSettlement hopen hreleased hspent hcap
  | fail hopen =>
      obtain ⟨hreleased, hmoved, -⟩ := hkeeps _ hopen
      exact hl.withFailure hopen hreleased hmoved
  | reconcileNotSent h => exact hl.withReconciliation h (hkeeps _ h).1

/-- A recorded breach stays. -/
theorem breach_writes {drawn : String} {call : LedgerCall} {l' : Ledger} (h : l.Writes drawn call l')
    (hkeeps : l.KeepsBooks call) (hbreach : l.status = .capBreachRecorded) :
    l'.status = .capBreachRecorded := by
  cases h with
  | reserve h => exact absurd hbreach (hkeeps _ h).2.2
  | settle htokens hopen hrates =>
      rw [Ledger.withSettlement]
      split
      · rfl
      · exact hbreach
  | fail hopen => exact absurd hbreach (hkeeps _ hopen).2.2
  | reconcileNotSent h => exact absurd hbreach (hkeeps _ h).2

end Books

-- ============================================================================
-- Runs
-- ============================================================================

/-- One call that keeps the books, with a drawn id that is not in use. -/
def Ledger.Keeps (l l' : Ledger) : Prop :=
  ∃ drawn call, l.Unused drawn ∧ l.KeepsBooks call ∧ l' = (l.perform drawn call).file

theorem Ledger.Books.keeps {l l' : Ledger} (hl : l.Books) (h : l.Keeps l') : l'.Books := by
  obtain ⟨drawn, call, hdrawn, hkeeps, rfl⟩ := h
  rcases perform_cases l drawn call with hsame | ⟨hwrites, -⟩
  · rwa [hsame]
  · exact hl.writes hdrawn hwrites hkeeps

theorem breach_keeps {l l' : Ledger} (h : l.Keeps l') (hbreach : l.status = .capBreachRecorded) :
    l'.status = .capBreachRecorded := by
  obtain ⟨drawn, call, hdrawn, hkeeps, rfl⟩ := h
  rcases perform_cases l drawn call with hsame | ⟨hwrites, -⟩
  · rwa [hsame]
  · exact breach_writes hwrites hkeeps hbreach

/-- From an empty ledger, calls that keep the books keep every total equal to the sum over its entries
    and the status true to them. -/
theorem books_balance {priceSources : List (String × Price)} {status : LedgerStatus} {file : Ledger}
    (hrun : Relation.ReflTransGen Ledger.Keeps (emptyLedger priceSources status) file) :
    file.Balanced ∧ (0 < file.uncertainUsd → file.status = .reconciliationRequired) ∧
      ∀ later, Relation.ReflTransGen Ledger.Keeps file later → file.status = .capBreachRecorded →
        later.status = .capBreachRecorded := by
  have hbooks : file.Books :=
    invariant_of_step hrun (emptyLedger_books priceSources status) (fun _ _ hl h => hl.keeps h)
  refine ⟨hbooks.balanced, hbooks.status, fun later hlater hbreach => ?_⟩
  exact invariant_of_step (I := fun l => l.status = .capBreachRecorded) hlater hbreach (fun _ _ hl h => breach_keeps h hl)

/-- The file after the reservation settles. -/
def settledLedger : Ledger :=
  (reservedLedger.perform "8b" (.settle "7a" 50 20 3)).file

theorem keeps_reservedLedger : (emptyLedger committedPrices .inProgress).Keeps reservedLedger := by
  refine ⟨"7a", .reserve "gpt-6-luna" "unit-test" 100 100, ⟨by decide, by decide⟩, ?_, rfl⟩
  intro amount h
  obtain ⟨_, _, ⟨price, hprice, hinput, rfl⟩, rfl⟩ := h.priced
  cases Option.some.inj hprice
  cases Option.some.inj hinput
  decide +kernel

theorem keeps_settledLedger : reservedLedger.Keeps settledLedger := by
  refine ⟨"8b", .settle "7a" 50 20 3, ⟨by decide, by decide +kernel⟩, ?_, rfl⟩
  rintro e _ _ - hopen ⟨price, hprice, hinput, rfl⟩
  have hentry : reservedLedger.entry "7a" =
      .ok ⟨"7a", "gpt-6-luna", "unit-test", .reserved, 100, 100, 100, 3 / 50000, none⟩ := by
    decide +kernel
  have hlookup : reservedLedger.priceSources.lookup "gpt-6-luna" = some ⟨some (1 / 10), some (1 / 2)⟩ := by
    decide +kernel
  cases Except.ok.inj (hentry.symm.trans hopen.1)
  cases Option.some.inj (hlookup.symm.trans hprice)
  cases Option.some.inj hinput
  decide +kernel

theorem books_balance_settled : settledLedger.Balanced :=
  (books_balance ((Relation.ReflTransGen.single keeps_reservedLedger).tail keeps_settledLedger)).1

/-- A model whose bytes cost one eighth place each, and one whose bytes cost half of it. -/
def halfPlacePrices : List (String × Price) :=
  [("whole", ⟨some (1 / 100), none⟩), ("half", ⟨some (1 / 200), none⟩)]

/-- A reservation hides an uncertain request, a failure a breach, and a half place is rounded up onto
    an odd total while its entry holds nothing. -/
theorem books_overwritten :
    (let file := ((reservedLedger.perform "8b" (.fail "7a" true)).file.perform "9c"
        (.reserve "gpt-6-luna" "unit-test" 100 100)).file
     0 < file.uncertainUsd ∧ file.status = .inProgress) ∧
    (let reserved := (reservedLedger.perform "8b" (.reserve "gpt-6-luna" "unit-test" 100 100)).file
     let breached := (reserved.perform "9c" (.settle "7a" 300000000 0 0)).file
     breached.status = .capBreachRecorded ∧
        (breached.perform "9c" (.fail "8b" false)).file.status = .inProgress) ∧
    (let reserved := ((emptyLedger halfPlacePrices .inProgress).perform "7a"
        (.reserve "whole" "unit-test" 1 0)).file
     let file := (reserved.perform "8b" (.reserve "half" "unit-test" 1 0)).file
     file.reservedUsd = 2 / 100000000 ∧ file.openTotal = 1 / 100000000) := by
  decide +kernel

end DurableEngine.IncidentAgent
