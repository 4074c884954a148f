/-
  DurableEngine.Engine.Serve

  The repair scan of a scheduler (`ServeWithOptions` in
  `internal/engine/service.go`, `RuntimeWork` in `internal/state/runtime.go`).

  A scan reads one page behind the cursor from whatever the database holds at
  that moment; a page that is not full sets the cursor back.  Between two such
  resets no workflow is passed twice, and none that needs a pass in every scan
  is left out.
-/

import DurableEngine.Lib.Trace
import DurableEngine.State.Types
import Mathlib

namespace DurableEngine.Engine

open Lib State

-- ============================================================================
-- The scan
-- ============================================================================

/-- The order of the database's `text`. -/
structure Collation where
  lt : String → String → Bool
  irrefl : ∀ a, lt a a = false
  trans : ∀ a b c, lt a b = true → lt b c = true → lt a c = true
  total : ∀ a b, lt a b = true ∨ a = b ∨ lt b a = true
  empty : ∀ a, a ≠ "" → lt "" a = true

/-- The order by code points. -/
def Collation.codePoints : Collation where
  lt a b := decide (a.toList < b.toList)
  irrefl a := decide_eq_false (lt_irrefl a.toList)
  trans _ _ _ hab hbc := decide_eq_true ((of_decide_eq_true hab).trans (of_decide_eq_true hbc))
  total a b := by
    rcases lt_trichotomy a.toList b.toList with h | h | h
    · exact .inl (decide_eq_true h)
    · exact .inr (.inl (String.toList_inj.mp h))
    · exact .inr (.inr (decide_eq_true h))
  empty a ha := by
    apply decide_eq_true
    cases h : a.toList with
    | nil => exact absurd (String.toList_eq_nil_iff.mp h) ha
    | cons c cs => exact List.nil_lt_cons c cs

/-- A database that keeps the check `workflow_id <> ''`. -/
structure NamedDB where
  db : DB
  named : ∀ w ∈ db.workflows.rows, w.workflowID ≠ ""

/-- The condition on the state, the wake-ups and the cancellation requests. -/
def needsPass (db : DB) (w : Workflow) : Bool :=
  decide (w.state = .runnable ∨ w.state = .waitingActivity ∨ w.state = .waitingTimer) ||
    db.wakeups.rows.any (fun sw => sw.workflowID = w.workflowID && sw.state ≠ .consumed) ||
    db.cancellations.rows.any (fun cr => cr.workflowID = w.workflowID && cr.status = .pending)

/-- `RuntimeWork` -/
def runtimeWork (c : Collation) (db : DB) (namespace_ after : String) (limit : Nat) : List String :=
  let rows := db.workflows.rows.filter fun w =>
    w.namespace_ = namespace_ && c.lt after w.workflowID && needsPass db w
  ((rows.map Workflow.workflowID).insertionSort (fun a b => c.lt b a = false)).take limit

/-- A workflow of the namespace satisfies the condition of the scan. -/
def NeedsPass (db : DB) (namespace_ id : String) : Prop :=
  ∃ w ∈ db.workflows.rows, w.workflowID = id ∧ w.namespace_ = namespace_ ∧ needsPass db w = true

-- ============================================================================
-- The loop
-- ============================================================================

/-- What a run of the loop shows: a scan that succeeded, an id passed to
    `Engine.Run`, and the cursor set back. -/
inductive Served where
  | scanned (db : NamedDB)
  | passed (id : String)
  | reset

/-- The loop with its cursor, or after it has returned. -/
inductive Serving where
  | running (cursor : String)
  | returned

/-- `const`: the page size of the loop. -/
def pageSize : Nat := 100

/-- The passes over a whole page, whatever they return, and the cursor behind it. -/
def servePage (cursor : String) (ids : List String) : List Served × String :=
  if ids.length < pageSize then (ids.map .passed ++ [.reset], "")
  else (ids.map .passed, ids.getLast?.getD cursor)

/-- An iteration of the loop: the database it scans is any. -/
inductive Serving.Step (c : Collation) (namespace_ : String) : Serving → List Served → Serving → Prop where
  | scanFailed (cursor : String) : Step c namespace_ (.running cursor) [] (.running cursor)
  | page (cursor : String) (db : NamedDB) (ids : List String)
      (scan : ids = runtimeWork c db.db namespace_ cursor pageSize) :
      Step c namespace_ (.running cursor) (.scanned db :: (servePage cursor ids).1)
        (.running (servePage cursor ids).2)
  | drained (cursor : String) (db : NamedDB) (ids : List String) (n : Nat)
      (scan : ids = runtimeWork c db.db namespace_ cursor pageSize) (drain : n < ids.length) :
      Step c namespace_ (.running cursor) (.scanned db :: (ids.take n).map .passed) .returned
  | returned (cursor : String) : Step c namespace_ (.running cursor) [] .returned

/-- The events between resets of the cursor, and those after the last one. -/
structure Cycles where
  closed : List (List Served)
  current : List Served

def Cycles.add (cycles : Cycles) : Served → Cycles
  | .reset => ⟨cycles.closed ++ [cycles.current], []⟩
  | e => ⟨cycles.closed, cycles.current ++ [e]⟩

def cyclesOf (trace : List Served) : Cycles := trace.foldl Cycles.add ⟨[], []⟩

def passes : List Served → List String
  | [] => []
  | .passed id :: es => id :: passes es
  | .scanned _ :: es => passes es
  | .reset :: es => passes es

-- ============================================================================
-- A page
-- ============================================================================

/-- A page holds, in their order, the first ids behind the cursor that need a pass. -/
structure Page (c : Collation) (db : DB) (namespace_ after : String) (limit : Nat) (ids : List String) : Prop where
  sorted : ids.Pairwise (fun a b => c.lt a b = true)
  behind : ∀ id ∈ ids, c.lt after id = true
  bounded : ids.length ≤ limit
  covers : ∀ id, NeedsPass db namespace_ id → c.lt after id = true →
    id ∈ ids ∨ limit ≤ ids.length ∧ ∀ i ∈ ids, c.lt i id = true

theorem Collation.asymm (c : Collation) {a b : String} (h : c.lt a b = true) : c.lt b a = false := by
  apply Bool.eq_false_iff.mpr
  intro hba
  have hself := c.trans a b a h hba
  rw [c.irrefl a] at hself
  cases hself

theorem Collation.lt_of_le (c : Collation) {a b : String} (hle : c.lt b a = false) (hne : a ≠ b) :
    c.lt a b = true := by
  rcases c.total a b with h | h | h
  · exact h
  · exact absurd h hne
  · rw [hle] at h
    cases h

/-- The ids of the rows of a scan, sorted. -/
def scanIDs (c : Collation) (rows : List Workflow) : List String :=
  (rows.map Workflow.workflowID).insertionSort (fun a b => c.lt b a = false)

theorem scanIDs_sorted (c : Collation) {rows : List Workflow} (h : (rows.map Workflow.workflowID).Nodup) :
    (scanIDs c rows).Pairwise (fun a b => c.lt a b = true) := by
  have htotal : Std.Total (fun a b => c.lt b a = false) := ⟨fun a b => by
    by_cases hba : c.lt b a = true
    · exact .inr (c.asymm hba)
    · exact .inl (Bool.eq_false_iff.mpr hba)⟩
  have htrans : IsTrans String (fun a b => c.lt b a = false) := ⟨fun a b d hab hbd => by
    apply Bool.eq_false_iff.mpr
    intro hda
    rcases c.total a b with h | rfl | h
    · rw [c.trans d a b hda h] at hbd
      cases hbd
    · rw [hda] at hbd
      cases hbd
    · rw [h] at hab
      cases hab⟩
  have hle := List.pairwise_insertionSort (fun a b => c.lt b a = false) (rows.map Workflow.workflowID)
  have hnodup : (scanIDs c rows).Nodup := (List.perm_insertionSort _ _).nodup_iff.mpr h
  exact (hle.and hnodup).imp fun {a b} h => c.lt_of_le h.1 h.2

theorem runtimeWork_page (c : Collation) (db : DB) (namespace_ after : String) (limit : Nat) :
    Page c db namespace_ after limit (runtimeWork c db namespace_ after limit) := by
  unfold runtimeWork
  generalize hrows : db.workflows.rows.filter (fun w =>
    w.namespace_ = namespace_ && c.lt after w.workflowID && needsPass db w) = rows
  have hsorted : (scanIDs c rows).Pairwise (fun a b => c.lt a b = true) := by
    apply scanIDs_sorted
    rw [← hrows]
    exact db.workflows.nodup.sublist (List.filter_sublist.map _)
  have hmem : ∀ id, id ∈ scanIDs c rows ↔ NeedsPass db namespace_ id ∧ c.lt after id = true := by
    intro id
    rw [scanIDs, List.mem_insertionSort, List.mem_map, ← hrows]
    constructor
    · rintro ⟨w, hw, rfl⟩
      obtain ⟨hmem, hcond⟩ := List.mem_filter.mp hw
      simp only [Bool.and_eq_true, decide_eq_true_eq] at hcond
      exact ⟨⟨w, hmem, rfl, hcond.1.1, hcond.2⟩, hcond.1.2⟩
    · rintro ⟨⟨w, hmem, rfl, hnamespace, hneeds⟩, hafter⟩
      refine ⟨w, List.mem_filter.mpr ⟨hmem, ?_⟩, rfl⟩
      simp only [Bool.and_eq_true, decide_eq_true_eq]
      exact ⟨⟨hnamespace, hafter⟩, hneeds⟩
  show Page c db namespace_ after limit ((scanIDs c rows).take limit)
  refine ⟨hsorted.sublist (List.take_sublist _ _), ?_, List.length_take_le _ _, ?_⟩
  · intro id hid
    exact ((hmem id).mp (List.mem_of_mem_take hid)).2
  · intro id hneeds hafter
    have hid := (hmem id).mpr ⟨hneeds, hafter⟩
    rw [← List.take_append_drop limit (scanIDs c rows)] at hid hsorted
    rcases List.mem_append.mp hid with hid | hid
    · exact .inl hid
    · -- what the limit cuts off comes behind the page
      refine .inr ⟨?_, fun i hi => (List.pairwise_append.mp hsorted).2.2 i hi id hid⟩
      have hpos := List.length_pos_of_mem hid
      rw [List.length_drop] at hpos
      rw [List.length_take]
      omega

-- ============================================================================
-- The cycles of the cursor
-- ============================================================================

theorem passes_append (es fs : List Served) : passes (es ++ fs) = passes es ++ passes fs := by
  induction es with
  | nil => rfl
  | cons e es ih =>
      cases e with
      | passed id => exact congrArg (id :: ·) ih
      | scanned db => exact ih
      | reset => exact ih

theorem passes_map_passed (ids : List String) : passes (ids.map .passed) = ids := by
  induction ids with
  | nil => rfl
  | cons id ids ih => exact congrArg (id :: ·) ih

theorem cyclesOf_append_of_no_reset {trace es : List Served} (h : ∀ e ∈ es, e ≠ .reset) :
    cyclesOf (trace ++ es) = ⟨(cyclesOf trace).closed, (cyclesOf trace).current ++ es⟩ := by
  rw [cyclesOf, List.foldl_append]
  show es.foldl Cycles.add (cyclesOf trace) = _
  generalize cyclesOf trace = cycles
  induction es generalizing cycles with
  | nil => rw [List.append_nil]; rfl
  | cons e es ih =>
      have hadd : cycles.add e = ⟨cycles.closed, cycles.current ++ [e]⟩ := by
        cases e with
        | reset => exact absurd rfl (h .reset List.mem_cons_self)
        | passed id => rfl
        | scanned db => rfl
      rw [List.foldl_cons, hadd, ih (fun x hx => h x (List.mem_cons_of_mem e hx)), List.append_assoc]
      rfl

theorem cyclesOf_append_reset {trace es : List Served} (h : ∀ e ∈ es, e ≠ .reset) :
    cyclesOf (trace ++ (es ++ [.reset])) =
      ⟨(cyclesOf trace).closed ++ [(cyclesOf trace).current ++ es], []⟩ := by
  rw [← List.append_assoc, cyclesOf, List.foldl_append]
  show Cycles.add (cyclesOf (trace ++ es)) .reset = _
  rw [cyclesOf_append_of_no_reset h]
  rfl

/-- No workflow is passed twice, and each that needs a pass in every scan is passed. -/
def Covers (c : Collation) (namespace_ : String) (es : List Served) : Prop :=
  (passes es).Pairwise (fun a b => c.lt a b = true) ∧
    ∀ id, (∀ db, .scanned db ∈ es → NeedsPass db.db namespace_ id) → id ∈ passes es

/-- The passes since the last reset, in order and without a gap up to the cursor. -/
structure Swept (c : Collation) (namespace_ : String) (cursor : String) (es : List Served) : Prop where
  sorted : (passes es).Pairwise (fun a b => c.lt a b = true)
  upTo : ∀ id ∈ passes es, c.lt cursor id = false
  covers : ∀ id, id ≠ "" → c.lt cursor id = false →
    (∀ db, .scanned db ∈ es → NeedsPass db.db namespace_ id) → id ∈ passes es

theorem swept_nil (c : Collation) (namespace_ : String) : Swept c namespace_ "" [] := by
  refine ⟨.nil, fun id hid => (nomatch hid), fun id hid hcursor => ?_⟩
  rw [c.empty id hid] at hcursor
  cases hcursor

theorem NeedsPass.named {db : NamedDB} {namespace_ id : String} (h : NeedsPass db.db namespace_ id) : id ≠ "" := by
  obtain ⟨w, hw, rfl, -⟩ := h
  exact db.named w hw

section

variable {c : Collation} {namespace_ cursor : String} {es : List Served} {db : NamedDB} {ids : List String}

/-- The passes before a page are not behind the cursor, those of the page are. -/
theorem Swept.append_sorted (h : Swept c namespace_ cursor es)
    (hpage : Page c db.db namespace_ cursor pageSize ids) :
    (passes (es ++ .scanned db :: ids.map .passed)).Pairwise (fun a b => c.lt a b = true) := by
  rw [passes_append]
  show (passes es ++ passes (ids.map .passed)).Pairwise _
  rw [passes_map_passed]
  refine List.pairwise_append.mpr ⟨h.sorted, hpage.sorted, fun a ha b hb => ?_⟩
  have hbehind := hpage.behind b hb
  rcases c.total a b with hab | rfl | hba
  · exact hab
  · rw [h.upTo a ha] at hbehind
    cases hbehind
  · have hcursor := c.trans _ _ _ hbehind hba
    rw [h.upTo a ha] at hcursor
    cases hcursor

theorem mem_scanned {ids : List String} {x : NamedDB} :
    Served.scanned x ∈ es ++ .scanned db :: ids.map .passed ↔ .scanned x ∈ es ∨ x = db := by
  simp

/-- A page that is not full ends a cycle that covers. -/
theorem Swept.covers_of_short (h : Swept c namespace_ cursor es)
    (hpage : Page c db.db namespace_ cursor pageSize ids) (hshort : ids.length < pageSize) :
    Covers c namespace_ (es ++ .scanned db :: ids.map .passed) := by
  refine ⟨h.append_sorted hpage, fun id hneeds => ?_⟩
  rw [passes_append]
  show id ∈ passes es ++ passes (ids.map .passed)
  rw [passes_map_passed]
  have hhere : NeedsPass db.db namespace_ id := hneeds db (mem_scanned.mpr (.inr rfl))
  apply List.mem_append.mpr
  by_cases hcursor : c.lt cursor id = true
  · rcases hpage.covers id hhere hcursor with hid | ⟨hfull, -⟩
    · exact .inr hid
    · omega
  · left
    apply h.covers id hhere.named (Bool.eq_false_iff.mpr hcursor)
    exact fun x hx => hneeds x (mem_scanned.mpr (.inl hx))

/-- A full page moves the cursor to its last id. -/
theorem Swept.of_full (h : Swept c namespace_ cursor es)
    (hpage : Page c db.db namespace_ cursor pageSize ids) (hfull : ¬ ids.length < pageSize) :
    Swept c namespace_ (ids.getLast?.getD cursor) (es ++ .scanned db :: ids.map .passed) := by
  have hne : ids ≠ [] := by
    rintro rfl
    exact hfull (by decide)
  rw [List.getLast?_eq_some_getLast hne, Option.getD_some]
  have hlast : ids.getLast hne ∈ ids := List.getLast_mem hne
  have hle : ∀ i ∈ ids, c.lt (ids.getLast hne) i = false := by
    intro i hi
    rw [← List.dropLast_append_getLast hne] at hi
    rcases List.mem_append.mp hi with hi | hi
    · have hsorted := hpage.sorted
      rw [← List.dropLast_append_getLast hne] at hsorted
      exact c.asymm ((List.pairwise_append.mp hsorted).2.2 i hi _ (List.mem_singleton.mpr rfl))
    · rw [List.mem_singleton.mp hi]
      exact c.irrefl _
  refine ⟨h.append_sorted hpage, fun id hid => ?_, fun id hnamed hcursor hneeds => ?_⟩
  · rw [passes_append] at hid
    change id ∈ passes es ++ passes (ids.map .passed) at hid
    rw [passes_map_passed] at hid
    rcases List.mem_append.mp hid with hid | hid
    · apply Bool.eq_false_iff.mpr
      intro hlt
      have hbehind := c.trans _ _ _ (hpage.behind _ hlast) hlt
      rw [h.upTo id hid] at hbehind
      cases hbehind
    · exact hle id hid
  · rw [passes_append]
    show id ∈ passes es ++ passes (ids.map .passed)
    rw [passes_map_passed]
    have hhere : NeedsPass db.db namespace_ id := hneeds db (mem_scanned.mpr (.inr rfl))
    apply List.mem_append.mpr
    by_cases hbehind : c.lt cursor id = true
    · rcases hpage.covers id hhere hbehind with hid | ⟨-, hcut⟩
      · exact .inr hid
      · rw [hcut _ hlast] at hcursor
        cases hcursor
    · left
      apply h.covers id hnamed (Bool.eq_false_iff.mpr hbehind)
      exact fun x hx => hneeds x (mem_scanned.mpr (.inl hx))

end

-- ============================================================================
-- The claim
-- ============================================================================

/-- What a run has shown: the closed cycles cover, and the current one is swept up to the cursor. -/
structure Serving.Sweeps (c : Collation) (namespace_ : String) (trace : List Served) (s : Serving) : Prop where
  closed : ∀ cycle ∈ (cyclesOf trace).closed, Covers c namespace_ cycle
  current : ∀ cursor, s = .running cursor → Swept c namespace_ cursor (cyclesOf trace).current

theorem no_reset_page (db : NamedDB) (ids : List String) :
    ∀ e ∈ Served.scanned db :: ids.map .passed, e ≠ .reset := by
  intro e he
  rcases List.mem_cons.mp he with rfl | he
  · exact fun h => nomatch h
  · obtain ⟨id, -, rfl⟩ := List.mem_map.mp he
    exact fun h => nomatch h

theorem Serving.Sweeps.step {c : Collation} {namespace_ : String} {trace events : List Served} {s s' : Serving}
    (h : s.Sweeps c namespace_ trace) (hs : Serving.Step c namespace_ s events s') :
    s'.Sweeps c namespace_ (trace ++ events) := by
  cases hs with
  | scanFailed cursor =>
      rw [List.append_nil]
      exact h
  | returned cursor =>
      rw [List.append_nil]
      exact ⟨h.closed, fun _ hs => nomatch hs⟩
  | page cursor db ids scan =>
      have hpage := scan ▸ runtimeWork_page c db.db namespace_ cursor pageSize
      have hswept := h.current cursor rfl
      unfold servePage
      by_cases hshort : ids.length < pageSize
      · rw [if_pos hshort]
        show Serving.Sweeps c namespace_ (trace ++ ((.scanned db :: ids.map .passed) ++ [.reset])) (.running "")
        refine ⟨?_, ?_⟩ <;> rw [cyclesOf_append_reset (no_reset_page db ids)]
        · intro cycle hcycle
          rcases List.mem_append.mp hcycle with hcycle | hcycle
          · exact h.closed cycle hcycle
          · rw [List.mem_singleton.mp hcycle]
            exact hswept.covers_of_short hpage hshort
        · rintro _ ⟨⟩
          exact swept_nil c namespace_
      · rw [if_neg hshort]
        refine ⟨?_, ?_⟩ <;> rw [cyclesOf_append_of_no_reset (no_reset_page db ids)]
        · exact h.closed
        · rintro _ ⟨⟩
          exact hswept.of_full hpage hshort
  | drained cursor db ids n scan drain =>
      refine ⟨?_, fun _ hs => nomatch hs⟩
      rw [cyclesOf_append_of_no_reset (no_reset_page db (ids.take n))]
      exact h.closed

/-- Between two resets of the cursor the scheduler passes ids in strictly increasing order, and passes
    every workflow that needs it in each scan, whatever the scans find and whichever of them fail. -/
theorem repair_scan_covers (c : Collation) (namespace_ : String) {trace : List Served} {s : Serving}
    (h : Trace (Serving.Step c namespace_) (.running "") trace s) :
    ∀ cycle ∈ (cyclesOf trace).closed, Covers c namespace_ cycle := by
  have hsweeps : s.Sweeps c namespace_ trace := by
    apply h.invariant (I := fun trace s => Serving.Sweeps c namespace_ trace s)
    · show Serving.Sweeps c namespace_ [] (.running "")
      refine ⟨fun cycle hcycle => (nomatch hcycle), ?_⟩
      rintro _ ⟨⟩
      exact swept_nil c namespace_
    · exact fun trace events s s' hs hstep => hs.step hstep
  exact hsweeps.closed

/-- The names are in order. -/
abbrev Ordered (ids : List String) : Prop := ids.IsChain (fun a b => Collation.codePoints.lt a b = true)

theorem Ordered.pairwise {ids : List String} (h : Ordered ids) :
    ids.Pairwise (fun a b => Collation.codePoints.lt a b = true) :=
  haveI : Trans (fun a b => Collation.codePoints.lt a b = true) (fun a b => Collation.codePoints.lt a b = true)
      (fun a b => Collation.codePoints.lt a b = true) := ⟨Collation.codePoints.trans _ _ _⟩
  List.IsChain.pairwise h

/-- Workflows of these names, each of which needs a pass. -/
def crowd (ids : List String) (ordered : Ordered ids) (named : "" ∉ ids) : NamedDB where
  db := { DB.init 0 with workflows := ⟨ids.map (fun id => ⟨id, "n", id, "", "d", 1, 0, .runnable, 1⟩), by
    rw [List.map_map]
    refine (List.map_id ids).symm ▸ ordered.pairwise.imp (fun {a b} hlt heq => ?_)
    rw [heq, Collation.irrefl] at hlt
    cases hlt⟩ }
  named := by
    intro w hw hempty
    obtain ⟨id, hid, rfl⟩ := List.mem_map.mp hw
    exact named (hempty ▸ hid)

theorem runtimeWork_crowd {ids : List String} (ordered : Ordered ids) (named : "" ∉ ids) (after : String)
    (limit : Nat) :
    runtimeWork .codePoints (crowd ids ordered named).db "n" after limit =
      (ids.filter (Collation.codePoints.lt after)).take limit := by
  have hrows : ((crowd ids ordered named).db.workflows.rows.filter (fun w => w.namespace_ = "n" &&
      Collation.codePoints.lt after w.workflowID && needsPass (crowd ids ordered named).db w)).map
        Workflow.workflowID = ids.filter (Collation.codePoints.lt after) := by
    have hneeds : ∀ id, needsPass (crowd ids ordered named).db ⟨id, "n", id, "", "d", 1, 0, .runnable, 1⟩ = true :=
      fun id => rfl
    simp only [crowd, List.filter_map, List.map_map] at hneeds ⊢
    simp [Function.comp_def, hneeds]
  have hsorted : (ids.filter (Collation.codePoints.lt after)).Pairwise
      (fun a b => Collation.codePoints.lt b a = false) :=
    (ordered.pairwise.imp Collation.codePoints.asymm).filter _
  simp only [runtimeWork, hrows]
  rw [hsorted.insertionSort_eq]

/-- The names `w100`, `w101` and so on. -/
def crowdIDs (n : Nat) : List String := (List.range n).map (fun k => "w" ++ toString (100 + k))

def crowdedDB : NamedDB := crowd (crowdIDs 101) (by decide +kernel) (by decide +kernel)

/-- A workflow comes to it before the cursor. -/
def joinedDB : NamedDB := crowd ("v" :: crowdIDs 101) (by decide +kernel) (by decide +kernel)

/-- A full page, a scan that fails, and the rest on a second page. -/
theorem crowd_served : ∃ trace, Trace (Serving.Step .codePoints "n") (.running "") trace (.running "") ∧
    (cyclesOf trace).closed.map passes = [crowdIDs 101] := by
  have hpages : (crowdIDs 101).filter (Collation.codePoints.lt "") = crowdIDs 101 ∧
      ("v" :: crowdIDs 101).filter (Collation.codePoints.lt "w199") = ["w200"] ∧
      (crowdIDs 101).take pageSize = crowdIDs 100 ∧ (servePage "" (crowdIDs 100)).2 = "w199" := by
    decide +kernel
  obtain ⟨hall, hrest, htake, hcursor⟩ := hpages
  have hfirst : crowdIDs 100 = runtimeWork .codePoints crowdedDB.db "n" "" pageSize := by
    rw [crowdedDB, runtimeWork_crowd, hall, htake]
  have hsecond : ["w200"] = runtimeWork .codePoints joinedDB.db "n" "w199" pageSize := by
    rw [joinedDB, runtimeWork_crowd, hrest]
    rfl
  have hfull := Trace.refl.tail (@Serving.Step.page .codePoints "n" "" crowdedDB _ hfirst)
  rw [hcursor] at hfull
  have hdone := (hfull.tail (.scanFailed "w199")).tail (.page "w199" joinedDB _ hsecond)
  exact ⟨_, hdone, by decide +kernel⟩

theorem repair_scan_covers_runnable :
    ∃ trace s, Trace (Serving.Step .codePoints "n") (.running "") trace s ∧
      (cyclesOf trace).closed.map passes = [crowdIDs 101] ∧ pageSize < (crowdIDs 101).length ∧
      ∀ cycle ∈ (cyclesOf trace).closed, Covers .codePoints "n" cycle := by
  obtain ⟨trace, hrun, hpasses⟩ := crowd_served
  exact ⟨trace, _, hrun, hpasses, by decide, repair_scan_covers .codePoints "n" hrun⟩

end DurableEngine.Engine
