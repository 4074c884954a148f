/-
  DurableEngine.IncidentAgent.SpendCap

  The spend cap of the ledger.

  With rates of at most two decimals per million tokens a price is a whole
  number of the eighth place, so no sum on the way to a written amount is
  rounded (`Units.stored`, `tokensCost_exact`).  What is left is plain
  arithmetic: `reserve` checks the cap, `settle` spends no more than was
  reserved, the other calls only move amounts.
-/

import DurableEngine.IncidentAgent.SpendLedger

namespace DurableEngine.IncidentAgent

open Lib

-- ============================================================================
-- Decimal arithmetic on whole units
-- ============================================================================

theorem representable_digits {q : ℚ} (n : ℕ) (e : ℤ) (hn : n ≤ 10 ^ 28) (hq : q = n * (10 : ℚ) ^ e) :
    Representable 10 28 q := by
  refine ⟨n, e, ?_, ?_⟩
  · rw [Nat.abs_cast]
    exact_mod_cast hn
  · rw [hq]
    norm_num

theorem decimal_exact {q : ℚ} (n : ℕ) (e : ℤ) (hn : n ≤ 10 ^ 28) (hq : q = n * (10 : ℚ) ^ e) :
    decimal q = q :=
  (representable_digits n e hn hq).roundDigits_eq (by decide) (by decide)

theorem decimal_nonneg {q : ℚ} (hq : 0 ≤ q) : 0 ≤ decimal q :=
  roundDigits_nonneg (by decide) (by decide) hq

/-- A power of ten below a value is below what the value rounds to. -/
theorem zpow_le_decimal {q : ℚ} {e : ℤ} (h : (10 : ℚ) ^ e ≤ q) : (10 : ℚ) ^ e ≤ decimal q := by
  have hpos : 0 < q := (zpow_pos (by norm_num) e).trans_le h
  refine Representable.le_roundDigits (by decide) (by decide) ⟨1, e, by norm_num, ?_⟩ hpos h
  norm_num

/-- A whole number of the eighth place. -/
def Units (q : ℚ) : Prop := ∃ n : ℕ, q = n * place

theorem place_pos : 0 < place := by
  norm_num [place]

theorem Units.nonneg {q : ℚ} (h : Units q) : 0 ≤ q := by
  obtain ⟨n, rfl⟩ := h
  exact mul_nonneg n.cast_nonneg place_pos.le

theorem Units.zero : Units 0 := ⟨0, by rw [Nat.cast_zero, zero_mul]⟩

theorem Units.add {q r : ℚ} (hq : Units q) (hr : Units r) : Units (q + r) := by
  obtain ⟨m, rfl⟩ := hq
  obtain ⟨n, rfl⟩ := hr
  exact ⟨m + n, by push_cast; ring⟩

theorem Units.sub {q r : ℚ} (hq : Units q) (hr : Units r) (h : r ≤ q) : Units (q - r) := by
  obtain ⟨m, rfl⟩ := hq
  obtain ⟨n, rfl⟩ := hr
  have hle : n ≤ m := by exact_mod_cast le_of_mul_le_mul_right h place_pos
  exact ⟨m - n, by rw [Nat.cast_sub hle]; ring⟩

theorem Units.eightPlaces_eq {q : ℚ} (h : Units q) : eightPlaces q = q := by
  obtain ⟨n, rfl⟩ := h
  exact_mod_cast roundTo_intCast_mul place_pos n

theorem Units.representable {q : ℚ} (h : Units q) (hle : q ≤ 10 ^ 20) : Representable 10 28 q := by
  obtain ⟨n, rfl⟩ := h
  refine representable_digits n (-8) ?_ ?_
  · have hcast : (n : ℚ) ≤ 10 ^ 28 := by
      have hplace : (n : ℚ) = n * place * 100000000 := by
        rw [place]
        ring
      linarith
    exact_mod_cast hcast
  · rw [place]
    norm_num

theorem Units.decimal_eq {q : ℚ} (h : Units q) (hle : q ≤ 10 ^ 20) : decimal q = q :=
  (h.representable hle).roundDigits_eq (by decide) (by decide)

theorem Units.decimal_le {q r : ℚ} (hr : Units r) (hle : r ≤ 10 ^ 20) (h : q ≤ r) : decimal q ≤ r :=
  (hr.representable hle).roundDigits_le_of_nonneg (by decide) (by decide) hr.nonneg h

theorem cap_lt_pow : capUsd ≤ 10 ^ 20 := by
  norm_num [capUsd]

/-- A whole number of units within the cap is written as it is. -/
theorem Units.stored {q : ℚ} (h : Units q) (hle : q ≤ capUsd) : eightPlaces (decimal q) = q := by
  rw [h.decimal_eq (hle.trans cap_lt_pow), h.eightPlaces_eq]

theorem units_eightPlaces {q : ℚ} (hq : 0 ≤ q) : Units (eightPlaces q) := by
  have hround : 0 ≤ rint (q / place) := by
    have hzero : rint 0 = 0 := rint_intCast 0
    exact hzero ▸ rint_mono (div_nonneg hq place_pos.le)
  refine ⟨(rint (q / place)).toNat, ?_⟩
  rw [eightPlaces, roundTo]
  congr 1
  exact_mod_cast (Int.toNat_of_nonneg hround).symm

-- ============================================================================
-- Prices
-- ============================================================================

/-- A non-negative rate of at most two decimals. -/
def TwoPlaces (rate : ℚ) : Prop := ∃ n : ℕ, rate = n / 100

/-- What tokens cost at a model's rates. -/
def exactCost (inputRate outputRate : ℚ) (inputTokens outputTokens : ℤ) : ℚ :=
  (inputTokens * inputRate + outputTokens * outputRate) / million

section Cost

variable {inputRate outputRate : ℚ} {inputTokens outputTokens : ℤ}

theorem units_exactCost (hinput : TwoPlaces inputRate) (houtput : TwoPlaces outputRate)
    (hi : 0 ≤ inputTokens) (ho : 0 ≤ outputTokens) :
    Units (exactCost inputRate outputRate inputTokens outputTokens) := by
  obtain ⟨a, rfl⟩ := hinput
  obtain ⟨b, rfl⟩ := houtput
  lift inputTokens to ℕ using hi
  lift outputTokens to ℕ using ho
  refine ⟨inputTokens * a + outputTokens * b, ?_⟩
  simp only [exactCost, million, place]
  push_cast
  ring

/-- The products of tokens and rates are exact below `10 ^ 26`. -/
theorem decimal_tokens_eq {rate : ℚ} {tokens : ℤ} (hrate : TwoPlaces rate) (ht : 0 ≤ tokens)
    (hle : tokens * rate ≤ (10 : ℚ) ^ 26) : decimal (tokens * rate) = tokens * rate := by
  obtain ⟨a, rfl⟩ := hrate
  lift tokens to ℕ using ht
  refine decimal_exact (tokens * a) (-2) ?_ ?_
  · have hcast : ((tokens * a : ℕ) : ℚ) ≤ 10 ^ 28 := by
      push_cast at hle ⊢
      linarith
    exact_mod_cast hcast
  · push_cast
    norm_num
    ring

theorem decimal_sum_eq (hinput : TwoPlaces inputRate) (houtput : TwoPlaces outputRate)
    (hi : 0 ≤ inputTokens) (ho : 0 ≤ outputTokens)
    (hle : inputTokens * inputRate + outputTokens * outputRate ≤ (10 : ℚ) ^ 26) :
    decimal (inputTokens * inputRate + outputTokens * outputRate) =
      inputTokens * inputRate + outputTokens * outputRate := by
  obtain ⟨a, rfl⟩ := hinput
  obtain ⟨b, rfl⟩ := houtput
  lift inputTokens to ℕ using hi
  lift outputTokens to ℕ using ho
  refine decimal_exact (inputTokens * a + outputTokens * b) (-2) ?_ ?_
  · have hcast : ((inputTokens * a + outputTokens * b : ℕ) : ℚ) ≤ 10 ^ 28 := by
      push_cast at hle ⊢
      linarith
    exact_mod_cast hcast
  · push_cast
    norm_num
    ring

theorem TwoPlaces.mul_nonneg {rate : ℚ} {tokens : ℤ} (hrate : TwoPlaces rate) (ht : 0 ≤ tokens) :
    0 ≤ tokens * rate := by
  obtain ⟨a, rfl⟩ := hrate
  have hcast : (0 : ℚ) ≤ tokens := by exact_mod_cast ht
  positivity

/-- A price below `10 ^ 20` is computed without rounding. -/
theorem tokensCost_exact (hinput : TwoPlaces inputRate) (houtput : TwoPlaces outputRate)
    (hi : 0 ≤ inputTokens) (ho : 0 ≤ outputTokens)
    (hle : exactCost inputRate outputRate inputTokens outputTokens ≤ 10 ^ 20) :
    tokensCost inputRate outputRate inputTokens outputTokens =
      exactCost inputRate outputRate inputTokens outputTokens := by
  have hi' := hinput.mul_nonneg hi
  have ho' := houtput.mul_nonneg ho
  have hsum : inputTokens * inputRate + outputTokens * outputRate ≤ (10 : ℚ) ^ 26 := by
    rw [exactCost, million, div_le_iff₀ (by norm_num)] at hle
    exact hle.trans (by norm_num)
  rw [tokensCost, decimal_tokens_eq hinput hi (by linarith), decimal_tokens_eq houtput ho (by linarith),
    decimal_sum_eq hinput houtput hi ho hsum]
  exact (units_exactCost hinput houtput hi ho).decimal_eq hle

/-- A larger price stays above `10 ^ 20`, whatever is rounded on the way. -/
theorem le_tokensCost (hinput : TwoPlaces inputRate) (houtput : TwoPlaces outputRate)
    (hi : 0 ≤ inputTokens) (ho : 0 ≤ outputTokens)
    (hlt : (10 : ℚ) ^ 20 < exactCost inputRate outputRate inputTokens outputTokens) :
    (10 : ℚ) ^ 20 ≤ tokensCost inputRate outputRate inputTokens outputTokens := by
  have hi' := hinput.mul_nonneg hi
  have ho' := houtput.mul_nonneg ho
  have hsum : (10 : ℚ) ^ 26 ≤ decimal (inputTokens * inputRate) + decimal (outputTokens * outputRate) := by
    rcases le_total ((10 : ℚ) ^ 26) (inputTokens * inputRate) with hlarge | hsmall
    · have hproduct := zpow_le_decimal (e := 26) (by exact_mod_cast hlarge)
      have hother := decimal_nonneg ho'
      have hproduct' : (10 : ℚ) ^ 26 ≤ decimal (inputTokens * inputRate) := by exact_mod_cast hproduct
      linarith
    · rcases le_total ((10 : ℚ) ^ 26) (outputTokens * outputRate) with hlarge | hsmall'
      · have hproduct := zpow_le_decimal (e := 26) (by exact_mod_cast hlarge)
        have hother := decimal_nonneg hi'
        have hproduct' : (10 : ℚ) ^ 26 ≤ decimal (outputTokens * outputRate) := by exact_mod_cast hproduct
        linarith
      · rw [decimal_tokens_eq hinput hi hsmall, decimal_tokens_eq houtput ho hsmall']
        rw [exactCost, million, lt_div_iff₀ (by norm_num)] at hlt
        linarith
  have hround : (10 : ℚ) ^ 26 ≤
      decimal (decimal (inputTokens * inputRate) + decimal (outputTokens * outputRate)) := by
    exact_mod_cast zpow_le_decimal (e := 26) (by exact_mod_cast hsum)
  have hquotient : (10 : ℚ) ^ (20 : ℤ) ≤
      decimal (decimal (inputTokens * inputRate) + decimal (outputTokens * outputRate)) / million := by
    rw [million, le_div_iff₀ (by norm_num)]
    exact le_trans (by norm_num) hround
  exact_mod_cast zpow_le_decimal hquotient

end Cost

-- ============================================================================
-- Well-kept ledgers
-- ============================================================================

/-- The rates of a model have at most two decimals. -/
def Price.HasTwoPlaces (price : Price) : Prop :=
  (∀ rate ∈ price.inputUsdPerMillionTokens, TwoPlaces rate) ∧
    (∀ rate ∈ price.outputUsdPerMillionTokens, TwoPlaces rate)

/-- An open reservation records what its tokens cost. -/
def Ledger.PricesReservation (l : Ledger) (e : RequestEntry) : Prop :=
  ∃ inputRate outputRate, l.Rates e.model inputRate outputRate ∧
    0 ≤ e.inputTokenReservation ∧ 0 ≤ e.outputTokenReservation ∧
    e.reservedUsd = eightPlaces
      (tokensCost inputRate outputRate e.inputTokenReservation e.outputTokenReservation)

/-- A ledger within its cap, kept as its calls keep it. -/
structure Ledger.WellKept (l : Ledger) : Prop where
  rates : ∀ entry ∈ l.priceSources, entry.2.HasTwoPlaces
  spent : Units l.spentUsd
  reserved : Units l.reservedUsd
  uncertain : Units l.uncertainUsd
  total : l.spentUsd + l.reservedUsd + l.uncertainUsd ≤ capUsd
  books : l.reservedUsd = l.openTotal
  priced : ∀ e, .request e ∈ l.entries → e.state = .reserved → l.PricesReservation e
  noBreach : l.status ≠ .capBreachRecorded

/-- A settled call reports at most the tokens it reserved. -/
def Ledger.SettlesWithin (l : Ledger) : LedgerCall → Prop
  | .settle callID inputTokens outputTokens _ =>
      ∀ e, l.Open callID e →
        inputTokens ≤ e.inputTokenReservation ∧ outputTokens ≤ e.outputTokenReservation
  | _ => True

theorem twoPlaces_zero : TwoPlaces 0 := ⟨0, by norm_num⟩

section WellKept

variable {l : Ledger}

theorem Ledger.WellKept.twoPlaces (hl : l.WellKept) {model : String} {inputRate outputRate : ℚ}
    (h : l.Rates model inputRate outputRate) : TwoPlaces inputRate ∧ TwoPlaces outputRate := by
  obtain ⟨price, hprice, hinput, rfl⟩ := h
  have hmem : (model, price) ∈ l.priceSources := by
    obtain ⟨before, after, hsplit, -⟩ := List.lookup_eq_some_iff.mp hprice
    rw [hsplit]
    exact List.mem_append_right _ (List.mem_cons_self ..)
  obtain ⟨hi, ho⟩ := hl.rates _ hmem
  refine ⟨hi inputRate hinput, ?_⟩
  rw [Price.outputRate]
  cases hout : price.outputUsdPerMillionTokens with
  | none => exact twoPlaces_zero
  | some rate => exact ho rate hout

theorem Units.le_cap {q : ℚ} (h : Units q) (hle : decimal q ≤ capUsd) : q ≤ capUsd := by
  rcases le_total q (10 ^ 20) with hsmall | hlarge
  · rwa [h.decimal_eq hsmall] at hle
  · have hround : (10 : ℚ) ^ 20 ≤ decimal q := by
      exact_mod_cast zpow_le_decimal (e := 20) (by exact_mod_cast hlarge)
    exact absurd (hround.trans hle) (by norm_num [capUsd])

theorem Ledger.WellKept.committed_eq (hl : l.WellKept) :
    decimal (decimal (l.spentUsd + l.reservedUsd) + l.uncertainUsd) =
      l.spentUsd + l.reservedUsd + l.uncertainUsd := by
  have htotal := hl.total
  have huncertain := hl.uncertain.nonneg
  have hcap := cap_lt_pow
  rw [(hl.spent.add hl.reserved).decimal_eq (by linarith),
    ((hl.spent.add hl.reserved).add hl.uncertain).decimal_eq (by linarith)]

/-- What `reserve` admits is a whole number of units and keeps within the cap. -/
theorem Ledger.WellKept.admitted (hl : l.WellKept) {model operation : String}
    {requestBytes maxOutputTokens : ℤ} {amount : ℚ}
    (h : l.Admits model operation requestBytes maxOutputTokens amount) :
    Units amount ∧ l.spentUsd + l.reservedUsd + l.uncertainUsd + amount ≤ capUsd := by
  obtain ⟨inputRate, outputRate, hrates, hamount⟩ := h.priced
  obtain ⟨hinput, houtput⟩ := hl.twoPlaces hrates
  have hcap := h.cap
  rw [hl.committed_eq] at hcap
  have hcommitted := (hl.spent.add hl.reserved).add hl.uncertain
  rcases le_or_gt (exactCost inputRate outputRate requestBytes maxOutputTokens) (10 ^ 20) with hle | hlt
  · have hexact := tokensCost_exact hinput houtput h.request.1.le h.output.1 hle
    have hunits : Units amount := by
      rw [hamount, hexact]
      exact units_exactCost hinput houtput h.request.1.le h.output.1
    exact ⟨hunits, (hcommitted.add hunits).le_cap hcap⟩
  · -- such a price alone is over the cap
    have hlarge := le_tokensCost hinput houtput h.request.1.le h.output.1 hlt
    rw [← hamount] at hlarge
    have hsum : (10 : ℚ) ^ 20 ≤ decimal (l.spentUsd + l.reservedUsd + l.uncertainUsd + amount) := by
      have hle : (10 : ℚ) ^ (20 : ℤ) ≤ l.spentUsd + l.reservedUsd + l.uncertainUsd + amount := by
        have hnonneg := hcommitted.nonneg
        exact_mod_cast (by linarith : (10 : ℚ) ^ 20 ≤ l.spentUsd + l.reservedUsd + l.uncertainUsd + amount)
      exact_mod_cast zpow_le_decimal hle
    exact absurd (hsum.trans hcap) (by norm_num [capUsd])

/-- An open reservation is part of the reserved total. -/
theorem Ledger.WellKept.reserved_entry (hl : l.WellKept) {callID : String} {e : RequestEntry}
    (h : l.Open callID e) : Units e.reservedUsd ∧ e.reservedUsd ≤ l.reservedUsd := by
  have hunits : ∀ e', .request e' ∈ l.entries → e'.state = .reserved → Units e'.reservedUsd := by
    intro e' hmem hstate
    obtain ⟨inputRate, outputRate, hrates, hi, ho, hamount⟩ := hl.priced e' hmem hstate
    obtain ⟨hinput, houtput⟩ := hl.twoPlaces hrates
    rw [hamount]
    refine units_eightPlaces (decimal_nonneg (div_nonneg (decimal_nonneg (add_nonneg ?_ ?_)) ?_))
    · exact decimal_nonneg (hinput.mul_nonneg hi)
    · exact decimal_nonneg (houtput.mul_nonneg ho)
    · norm_num [million]
  refine ⟨hunits e h.mem h.2, ?_⟩
  have hmem : e.reservedUsd ∈ l.entries.map Entry.openAmount := by
    refine List.mem_map.mpr ⟨_, h.mem, ?_⟩
    rw [Entry.openAmount, if_pos h.2]
  rw [hl.books, Ledger.openTotal]
  refine List.single_le_sum (fun x hx => ?_) _ hmem
  obtain ⟨entry, hentry, rfl⟩ := List.mem_map.mp hx
  cases entry with
  | reconciliation r => exact le_rfl
  | request e' =>
      rw [Entry.openAmount]
      split
      case isTrue hstate => exact (hunits e' hentry hstate).nonneg
      case isFalse => exact le_rfl

/-- A settlement within its reservation costs no more than was reserved. -/
theorem Ledger.WellKept.settled (hl : l.WellKept) {callID : String} {e : RequestEntry}
    {inputRate outputRate : ℚ} {inputTokens outputTokens : ℤ} (h : l.Open callID e)
    (hrates : l.Rates e.model inputRate outputRate) (hi : 0 ≤ inputTokens) (ho : 0 ≤ outputTokens)
    (hwithin : inputTokens ≤ e.inputTokenReservation ∧ outputTokens ≤ e.outputTokenReservation) :
    Units (tokensCost inputRate outputRate inputTokens outputTokens) ∧
      tokensCost inputRate outputRate inputTokens outputTokens ≤ e.reservedUsd := by
  obtain ⟨inputRate', outputRate', ⟨price, hprice, hin, rfl⟩, hi', ho', hamount⟩ := hl.priced e h.mem h.2
  obtain ⟨price', hprice', hin', rfl⟩ := hrates
  cases Option.some.inj (hprice.symm.trans hprice')
  cases Option.some.inj (hin.symm.trans hin')
  obtain ⟨hinput, houtput⟩ := hl.twoPlaces ⟨price, hprice, hin, rfl⟩
  have hreserved := (hl.reserved_entry h).2
  have hspent := hl.spent.nonneg
  have huncertain := hl.uncertain.nonneg
  have htotal := hl.total
  have hcap := cap_lt_pow
  have hmono : exactCost inputRate price.outputRate inputTokens outputTokens ≤
      exactCost inputRate price.outputRate e.inputTokenReservation e.outputTokenReservation := by
    obtain ⟨a, rfl⟩ := hinput
    obtain ⟨b, hb⟩ := houtput
    have hin : (inputTokens : ℚ) ≤ e.inputTokenReservation := by exact_mod_cast hwithin.1
    have hout : (outputTokens : ℚ) ≤ e.outputTokenReservation := by exact_mod_cast hwithin.2
    rw [exactCost, exactCost, hb]
    have hmillion : 0 ≤ million := by norm_num [million]
    gcongr
  have hlarge : exactCost inputRate price.outputRate e.inputTokenReservation e.outputTokenReservation ≤
      10 ^ 20 := by
    by_contra hlt
    have hcost := le_tokensCost hinput houtput hi' ho' (not_le.mp hlt)
    have hround : eightPlaces ((10 : ℚ) ^ 20) ≤ e.reservedUsd := by
      rw [hamount]
      exact roundTo_mono place_pos hcost
    have hpow : Units ((10 : ℚ) ^ 20) := ⟨10 ^ 28, by norm_num [place]⟩
    rw [hpow.eightPlaces_eq] at hround
    have hover : (10 : ℚ) ^ 20 ≤ capUsd := by linarith
    norm_num [capUsd] at hover
  have hexact := tokensCost_exact hinput houtput hi ho (hmono.trans hlarge)
  have hexact' := tokensCost_exact hinput houtput hi' ho' hlarge
  rw [hexact]
  refine ⟨units_exactCost hinput houtput hi ho, ?_⟩
  rwa [hamount, hexact', (units_exactCost hinput houtput hi' ho').eightPlaces_eq]

/-- An entry that is not an open reservation needs no price. -/
theorem Ledger.WellKept.priced_update (hl : l.WellKept) {l' : Ledger} {callID : String} {e : RequestEntry}
    {f : RequestEntry → RequestEntry} (h : l.Open callID e)
    (hentries : l'.entries = l.updateEntry callID f) (hsources : l'.priceSources = l.priceSources)
    (hf : (f e).state ≠ .reserved) :
    ∀ e', .request e' ∈ l'.entries → e'.state = .reserved → l'.PricesReservation e' := by
  intro e' hmem hstate
  rw [hentries] at hmem
  rcases h.mem_updateEntry hmem with hold | hnew
  · simp only [Ledger.PricesReservation, Ledger.Rates, hsources]
    exact hl.priced e' hold hstate
  · cases hnew
    exact absurd hstate hf

theorem Ledger.WellKept.withReservation (hl : l.WellKept) {drawn model operation : String}
    {requestBytes maxOutputTokens : ℤ} {amount : ℚ}
    (h : l.Admits model operation requestBytes maxOutputTokens amount) :
    (l.withReservation drawn model operation requestBytes maxOutputTokens amount).WellKept := by
  obtain ⟨hamount, hcap⟩ := hl.admitted h
  have hspent := hl.spent.nonneg
  have huncertain := hl.uncertain.nonneg
  have hreserved : (l.withReservation drawn model operation requestBytes maxOutputTokens
      amount).reservedUsd = l.reservedUsd + amount :=
    (hl.reserved.add hamount).stored (by linarith)
  refine ⟨hl.rates, hl.spent, ?_, hl.uncertain, ?_, ?_, ?_, fun h => (nomatch h)⟩
  case refine_1 => exact hreserved ▸ hl.reserved.add hamount
  case refine_2 =>
    rw [hreserved]
    change l.spentUsd + _ + l.uncertainUsd ≤ capUsd
    linarith
  case refine_3 => rw [hreserved, openTotal_withReservation, hamount.eightPlaces_eq, hl.books]
  case refine_4 =>
    intro e hmem hstate
    rcases List.mem_append.mp hmem with hold | hnew
    · exact hl.priced e hold hstate
    · cases List.mem_singleton.mp hnew
      obtain ⟨inputRate, outputRate, hrates, hprice⟩ := h.priced
      exact ⟨inputRate, outputRate, hrates, h.request.1.le, h.output.1, congrArg eightPlaces hprice⟩

theorem Ledger.WellKept.withSettlement (hl : l.WellKept) {callID : String} {e : RequestEntry}
    {inputTokens outputTokens reasoningTokens : ℤ} {cost : ℚ} (h : l.Open callID e) (hcost : Units cost)
    (hle : cost ≤ e.reservedUsd) :
    (l.withSettlement callID e inputTokens outputTokens reasoningTokens cost).WellKept := by
  obtain ⟨hentry, hopen⟩ := hl.reserved_entry h
  have htotal := hl.total
  have hspent := hl.spent.nonneg
  have huncertain := hl.uncertain.nonneg
  have hentry' := hentry.nonneg
  have hcost' := hcost.nonneg
  have hcap := cap_lt_pow
  have hdecimal : decimal (l.spentUsd + cost) = l.spentUsd + cost :=
    (hl.spent.add hcost).decimal_eq (by linarith)
  have hstored : eightPlaces (decimal (l.reservedUsd - e.reservedUsd)) = l.reservedUsd - e.reservedUsd :=
    (hl.reserved.sub hentry hopen).stored (by linarith)
  have hspent' : eightPlaces (decimal (l.spentUsd + cost)) = l.spentUsd + cost :=
    (hl.spent.add hcost).stored (by linarith)
  -- the check against the cap sees the exact sum
  have hsum := (hl.spent.add hcost).add (hl.reserved.sub hentry hopen)
  have hchecked : ¬ capUsd < decimal (decimal (decimal (l.spentUsd + cost) +
      eightPlaces (decimal (l.reservedUsd - e.reservedUsd))) + l.uncertainUsd) := by
    rw [hdecimal, hstored, hsum.decimal_eq (by linarith),
      (hsum.add hl.uncertain).decimal_eq (by linarith)]
    linarith
  have hstate : RequestState.settled ≠ .reserved := fun h => (nomatch h)
  refine ⟨hl.rates, ?_, ?_, hl.uncertain, ?_, ?_, ?_, ?_⟩
  case refine_1 =>
    change Units (eightPlaces (decimal (l.spentUsd + cost)))
    exact hspent'.symm ▸ hl.spent.add hcost
  case refine_2 =>
    change Units (eightPlaces (decimal (l.reservedUsd - e.reservedUsd)))
    exact hstored.symm ▸ hl.reserved.sub hentry hopen
  case refine_3 =>
    change eightPlaces _ + eightPlaces _ + l.uncertainUsd ≤ capUsd
    rw [hspent', hstored]
    linarith
  case refine_4 =>
    rw [h.openTotal_update rfl hstate, ← hl.books]
    exact hstored
  case refine_5 => exact hl.priced_update h rfl rfl hstate
  case refine_6 =>
    rw [Ledger.withSettlement, if_neg hchecked]
    exact hl.noBreach

theorem Ledger.WellKept.withFailure (hl : l.WellKept) {callID : String} {e : RequestEntry}
    (h : l.Open callID e) (outcomeUncertain : Bool) :
    (l.withFailure callID e outcomeUncertain).WellKept := by
  obtain ⟨hentry, hopen⟩ := hl.reserved_entry h
  have htotal := hl.total
  have hspent := hl.spent.nonneg
  have huncertain := hl.uncertain.nonneg
  have hentry' := hentry.nonneg
  have hstored : eightPlaces (decimal (l.reservedUsd - e.reservedUsd)) = l.reservedUsd - e.reservedUsd :=
    (hl.reserved.sub hentry hopen).stored (by linarith)
  have hmoved : eightPlaces (decimal (l.uncertainUsd + e.reservedUsd)) = l.uncertainUsd + e.reservedUsd :=
    (hl.uncertain.add hentry).stored (by linarith)
  have hstate : (if outcomeUncertain then RequestState.uncertain else .rejected) ≠ .reserved := by
    cases outcomeUncertain <;> exact fun h => (nomatch h)
  refine ⟨hl.rates, hl.spent, ?_, ?_, ?_, ?_, ?_, ?_⟩
  case refine_1 =>
    change Units (eightPlaces (decimal (l.reservedUsd - e.reservedUsd)))
    exact hstored.symm ▸ hl.reserved.sub hentry hopen
  case refine_2 =>
    cases outcomeUncertain with
    | false => exact hl.uncertain
    | true =>
        change Units (eightPlaces (decimal (l.uncertainUsd + e.reservedUsd)))
        exact hmoved.symm ▸ hl.uncertain.add hentry
  case refine_3 =>
    cases outcomeUncertain with
    | false =>
        change l.spentUsd + eightPlaces _ + l.uncertainUsd ≤ capUsd
        rw [hstored]
        linarith
    | true =>
        change l.spentUsd + eightPlaces _ + eightPlaces _ ≤ capUsd
        rw [hstored, hmoved]
        linarith
  case refine_4 =>
    rw [h.openTotal_update rfl hstate, ← hl.books]
    exact hstored
  case refine_5 => exact hl.priced_update h rfl rfl hstate
  case refine_6 => cases outcomeUncertain <;> exact fun h => (nomatch h)

theorem decimalSum_nonneg {amounts : List ℚ} (h : ∀ amount ∈ amounts, 0 ≤ amount) :
    0 ≤ decimalSum amounts := by
  have hfold : ∀ total, 0 ≤ total →
      0 ≤ amounts.foldl (fun total amount => decimal (total + amount)) total := by
    induction amounts with
    | nil => exact fun total htotal => htotal
    | cons amount amounts ih =>
        intro total htotal
        exact ih (fun amount hmem => h amount (List.mem_cons_of_mem _ hmem)) _
          (decimal_nonneg (add_nonneg htotal (h amount (List.mem_cons_self ..))))
  exact hfold 0 le_rfl

theorem Ledger.WellKept.withReconciliation (hl : l.WellKept) {callIDs : List String}
    {reason evidence : String} {amounts : List ℚ}
    (h : l.AdmitsReconciliation callIDs reason evidence amounts) :
    (l.withReconciliation callIDs amounts).WellKept := by
  have hamounts : ∀ amount ∈ amounts, 0 ≤ amount := by
    intro amount hmem
    obtain ⟨i, hi, rfl⟩ := List.mem_iff_getElem.mp hmem
    have hlen := h.reconcilable.length_eq
    obtain ⟨e, -, -, hpos, hamount⟩ := (List.forall₂_iff_get.mp h.reconcilable).2 i (by omega) hi
    exact (hpos.trans_eq hamount.symm).le
  have htotal := decimalSum_nonneg hamounts
  have hremaining : 0 ≤ l.uncertainUsd - decimalSum amounts := sub_nonneg.mpr h.covered
  have hspent := hl.spent.nonneg
  have hreserved := hl.reserved.nonneg
  have hbound := hl.total
  have hsmall : l.uncertainUsd ≤ 10 ^ 20 := by
    have hcap := cap_lt_pow
    linarith
  have hle : eightPlaces (decimal (l.uncertainUsd - decimalSum amounts)) ≤ l.uncertainUsd :=
    (roundTo_mono place_pos (hl.uncertain.decimal_le hsmall (by linarith))).trans_eq
      hl.uncertain.eightPlaces_eq
  refine ⟨hl.rates, hl.spent, hl.reserved, units_eightPlaces (decimal_nonneg hremaining), ?_, ?_, ?_, ?_⟩
  case refine_1 =>
    change l.spentUsd + l.reservedUsd + eightPlaces _ ≤ capUsd
    linarith
  case refine_2 =>
    have hnone : ((callIDs.zip amounts).map (fun target =>
        (Entry.reconciliation ⟨target.1, eightPlaces target.2⟩).openAmount)).sum = 0 :=
      List.sum_eq_zero (fun x hx => by
        obtain ⟨target, -, rfl⟩ := List.mem_map.mp hx
        rfl)
    have hsum : (l.withReconciliation callIDs amounts).openTotal = l.openTotal := by
      simp only [Ledger.openTotal, Ledger.withReconciliation, List.map_append, List.map_map,
        List.sum_append]
      exact (congrArg _ hnone).trans (add_zero _)
    exact hl.books.trans hsum.symm
  case refine_3 =>
    intro e hmem hstate
    rcases List.mem_append.mp hmem with hold | hnew
    · exact hl.priced e hold hstate
    · obtain ⟨target, -, htarget⟩ := List.mem_map.mp hnew
      cases htarget
  case refine_4 =>
    rw [Ledger.withReconciliation]
    split
    all_goals
      intro h
      cases h

theorem Ledger.WellKept.writes (hl : l.WellKept) {drawn : String} {call : LedgerCall} {l' : Ledger}
    (h : l.Writes drawn call l') (hwithin : l.SettlesWithin call) : l'.WellKept := by
  cases h with
  | reserve h => exact hl.withReservation h
  | settle htokens hopen hrates =>
      obtain ⟨hcost, hle⟩ := hl.settled hopen hrates htokens.1 htokens.2.1 (hwithin _ hopen)
      exact hl.withSettlement hopen hcost hle
  | fail hopen => exact hl.withFailure hopen _
  | reconcileNotSent h => exact hl.withReconciliation h

theorem Ledger.WellKept.perform (hl : l.WellKept) (drawn : String) {call : LedgerCall}
    (hwithin : l.SettlesWithin call) : (l.perform drawn call).file.WellKept := by
  rcases perform_cases l drawn call with hsame | ⟨hwrites, -⟩
  · rwa [hsame]
  · exact hl.writes hwrites hwithin

end WellKept

-- ============================================================================
-- Runs
-- ============================================================================

/-- One call, which settles at most what it reserved. -/
def Ledger.Performs (l l' : Ledger) : Prop :=
  ∃ drawn call, l.SettlesWithin call ∧ l' = (l.perform drawn call).file

theorem WellKept.of_performs {start file : Ledger} (hstart : start.WellKept)
    (hrun : Relation.ReflTransGen Ledger.Performs start file) : file.WellKept :=
  invariant_of_step hrun hstart (fun l l' hl hstep => by
    obtain ⟨drawn, call, hwithin, rfl⟩ := hstep
    exact hl.perform drawn hwithin)

/-- The spend stays within the cap: no total is negative, no breach is recorded, a call that raises
    leaves the file, and a reservation settles. -/
theorem spend_stays_within_cap {start file : Ledger} (hstart : start.WellKept)
    (hrun : Relation.ReflTransGen Ledger.Performs start file) :
    (file.spentUsd + file.reservedUsd + file.uncertainUsd ≤ capUsd ∧
      0 ≤ file.spentUsd ∧ 0 ≤ file.reservedUsd ∧ 0 ≤ file.uncertainUsd ∧
      file.status ≠ .capBreachRecorded) ∧
    ∀ drawn call, file.SettlesWithin call →
      ((file.perform drawn call).raised ≠ none → (file.perform drawn call).file = file) ∧
      ∀ callID inputTokens outputTokens reasoningTokens e,
        call = .settle callID inputTokens outputTokens reasoningTokens → file.Open callID e →
        0 ≤ inputTokens → 0 ≤ outputTokens → 0 ≤ reasoningTokens →
        (file.perform drawn call).raised = none := by
  have hfile := WellKept.of_performs hstart hrun
  refine ⟨⟨hfile.total, hfile.spent.nonneg, hfile.reserved.nonneg, hfile.uncertain.nonneg,
    hfile.noBreach⟩, fun drawn call hwithin => ⟨fun hraised => ?_, ?_⟩⟩
  · rcases perform_cases file drawn call with hsame | ⟨-, hnone | hbreach⟩
    · exact hsame
    · exact absurd hnone hraised
    · exact absurd hbreach (hfile.perform drawn hwithin).noBreach
  · rintro callID inputTokens outputTokens reasoningTokens e rfl hopen hi ho hr
    obtain ⟨inputRate, outputRate, hrates, -⟩ := hfile.priced e hopen.mem hopen.2
    obtain ⟨hcost, hle⟩ := hfile.settled hopen hrates hi ho (hwithin e hopen)
    exact perform_settle ⟨hi, ho, hr⟩ hopen hrates (hfile.withSettlement hopen hcost hle).noBreach

theorem emptyLedger_wellKept {priceSources : List (String × Price)}
    (h : ∀ entry ∈ priceSources, entry.2.HasTwoPlaces) : (emptyLedger priceSources .inProgress).WellKept where
  rates := h
  spent := .zero
  reserved := .zero
  uncertain := .zero
  total := by norm_num [emptyLedger, capUsd]
  books := rfl
  priced := fun _ hmem => (nomatch hmem)
  noBreach := fun h => (nomatch h)

theorem committedPrices_twoPlaces : ∀ entry ∈ committedPrices, entry.2.HasTwoPlaces := by
  intro entry hmem
  rcases List.mem_cons.mp hmem with rfl | hmem
  · refine ⟨fun rate hrate => ?_, fun rate hrate => ?_⟩
    · cases hrate
      exact ⟨10, by norm_num⟩
    · cases hrate
      exact ⟨50, by norm_num⟩
  · cases List.mem_singleton.mp hmem
    refine ⟨fun rate hrate => ?_, fun rate hrate => (nomatch hrate)⟩
    cases hrate
    exact ⟨2, by norm_num⟩

theorem reservedLedger_open : ∃ e, reservedLedger.Open "7a" e ∧ e.inputTokenReservation = 100 ∧
    e.outputTokenReservation = 100 :=
  ⟨⟨"7a", "gpt-6-luna", "unit-test", .reserved, 100, 100, 100, 3 / 50000, none⟩,
    ⟨by decide +kernel, rfl⟩, rfl, rfl⟩

theorem spend_stays_within_cap_reserved :
    reservedLedger.spentUsd + reservedLedger.reservedUsd + reservedLedger.uncertainUsd ≤ capUsd ∧
      (reservedLedger.perform "" (.settle "7a" 50 20 3)).raised = none := by
  obtain ⟨e, hopen, hinput, houtput⟩ := reservedLedger_open
  have hrun : Relation.ReflTransGen Ledger.Performs (emptyLedger committedPrices .inProgress) reservedLedger :=
    .single ⟨"7a", .reserve "gpt-6-luna" "unit-test" 100 100, trivial, rfl⟩
  obtain ⟨hcap, hcalls⟩ :=
    spend_stays_within_cap (emptyLedger_wellKept committedPrices_twoPlaces) hrun
  refine ⟨hcap.1, (hcalls "" (.settle "7a" 50 20 3) ?_).2 _ _ _ _ e rfl hopen (by decide) (by decide)
    (by decide)⟩
  intro e' hopen'
  cases Except.ok.inj (hopen.1.symm.trans hopen'.1)
  rw [hinput, houtput]
  decide

/-- A ledger with nothing left below the cap, one settled request and an open reservation that holds
    nothing for its 100 tokens. -/
def underpricedLedger : Ledger where
  priceSources := committedPrices
  spentUsd := 25
  reservedUsd := 0
  uncertainUsd := 0
  status := .inProgress
  entries := [
    .request ⟨"1b", "gpt-6-luna", "agent", .settled, 1, 1, 0, 25, some ⟨1, 0, 0, 25⟩⟩,
    .request ⟨"7a", "gpt-6-luna", "agent", .reserved, 100, 100, 0, 0, none⟩]

/-- A ledger whose amounts have nine places, with an open reservation of a free model. -/
def ninePlaceLedger : Ledger where
  priceSources := ("free", ⟨some 0, none⟩) :: committedPrices
  spentUsd := 24999999995 / 1000000000
  reservedUsd := 0
  uncertainUsd := 5 / 1000000000
  status := .inProgress
  entries := [
    .request ⟨"1b", "gpt-6-luna", "agent", .settled, 1, 1, 0, 25, some ⟨1, 0, 0, 24999999995 / 1000000000⟩⟩,
    .request ⟨"2c", "gpt-6-luna", "agent", .uncertain, 1, 1, 0, 5 / 1000000000, none⟩,
    .request ⟨"7a", "free", "agent", .reserved, 1, 1, 0, 0, none⟩]

/-- A second settlement raises; and from books that merely balance, a settlement within its tokens
    records a breach and raises after its write, or writes totals over the cap. -/
theorem settlement_raises_or_passes_cap :
    ((reservedLedger.perform "" (.settle "7a" 50 20 3)).file.perform "" (.settle "7a" 50 20 3)).raised =
        some (.spend "only an open DUR-056 reservation can be settled") ∧
    (underpricedLedger.Balanced ∧
      underpricedLedger.spentUsd + underpricedLedger.reservedUsd + underpricedLedger.uncertainUsd ≤ capUsd ∧
      (underpricedLedger.perform "" (.settle "7a" 100 0 0)).raised =
        some (.spend "provider usage exceeded the DUR-056 cap reservation") ∧
      (underpricedLedger.perform "" (.settle "7a" 100 0 0)).file.status = .capBreachRecorded ∧
      (underpricedLedger.perform "" (.settle "7a" 100 0 0)).file ≠ underpricedLedger) ∧
    ninePlaceLedger.Balanced ∧
      ninePlaceLedger.spentUsd + ninePlaceLedger.reservedUsd + ninePlaceLedger.uncertainUsd ≤ capUsd ∧
      capUsd < (ninePlaceLedger.perform "" (.settle "7a" 1 0 0)).file.spentUsd +
        (ninePlaceLedger.perform "" (.settle "7a" 1 0 0)).file.reservedUsd +
        (ninePlaceLedger.perform "" (.settle "7a" 1 0 0)).file.uncertainUsd := by
  decide +kernel

end DurableEngine.IncidentAgent
