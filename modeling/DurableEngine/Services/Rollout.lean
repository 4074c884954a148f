/-
  DurableEngine.Services.Rollout

  A rollout of the runtime and its workers (`internal/state/registry.go`,
  `cmd/runtime/registry.go`, `workers/registry.py`).

  The candidates are compared with each other and with the definitions of the
  workflows that have not ended.  A definition is immutable and an ended
  workflow stays ended, so the check goes on holding while no workflow is
  submitted: the new runtime serves what the old one serves, and a worker
  resolves it.
-/

import DurableEngine.Services.Demand
import DurableEngine.Services.Placement
import DurableEngine.Workers.Runner

namespace DurableEngine.Services

open Lib State Engine

-- ============================================================================
-- The check
-- ============================================================================

/-- Entries of a registry are compared as pairs of texts. -/
local instance registryEntryBEq : LawfulBEq (String × String) := inferInstance

/-- One round of the loop of `registrySet`. -/
def registerEntry (result : List (String × String)) (entry : String × String) :
    Except Err (List (String × String)) := do
  rejectIf (entry.1 = "" ∨ entry.2 = "" ∨ entry ∈ result) (.text "invalid or duplicate activity registry entry")
  return entry :: result

/-- `registrySet` -/
def registrySet (entries : List (String × String)) : Except Err (List (String × String)) := do
  rejectIf (entries = []) (.text "empty activity registry")
  entries.foldlM registerEntry []

/-- `CheckRegistryParity` -/
def checkRegistryParity (runtime worker : List (String × String)) : Except Err Unit := do
  let left ← registrySet runtime
  let right ← registrySet worker
  rejectIf (left.length ≠ right.length) (.text "runtime/worker registry mismatch")
  match left.find? (fun entry => entry ∉ right) with
  | some entry => .error (.text ("runtime/worker registry mismatch: " ++ entry.1 ++ "/" ++ entry.2))
  | none => return ()

/-- A workflow of the namespace that has not ended runs the definition. -/
def live (db : DB) (ns : String) (d : Definition) : Bool :=
  db.workflows.rows.any (fun wf => wf.namespace_ = ns && wf.definitionID = d.definitionID &&
    wf.definitionVersion = d.version && !wf.state.isTerminal)

/-- The versions of one definition against the supported ones. -/
def checkVersions (supported : List (String × String)) (d : Definition) : Except Err Unit := do
  let versions ← getOr (unmarshalStringMap d.activityVersions.doc)
    (.text "invalid referenced activity versions: ")
  rejectIf (d.activityVersions.doc = .null) (.text "invalid referenced activity versions")
  match versions.find? (fun version => version ∉ supported) with
  | some version => .error (.text ("referenced activity unsupported: " ++ version.1 ++ "/" ++ version.2))
  | none => return ()

/-- `CheckActivityCompatibility` -/
def checkActivityCompatibility (ns : String) (candidate : List (String × String)) (db : DB) : Except Err Unit := do
  let supported ← registrySet candidate
  rejectIf (ns = "") (.text "compatibility namespace required")
  (db.definitions.rows.filter (live db ns)).forM (checkVersions supported)

/-- The `compatibility-check` command of the candidate runtime, given the worker's manifest. -/
def compatibilityCheck (env : Env) (ns : String) (worker : List (String × String)) (db : DB) : Except Err Unit := do
  checkRegistryParity (runtimeRegistry env) worker
  checkActivityCompatibility ns (runtimeRegistry env) db

-- ============================================================================
-- The worker's manifest
-- ============================================================================

/-- `cs.rsplit("@", 1)` -/
def splitLast : List Char → Option (List Char × List Char)
  | [] => none
  | c :: cs =>
      match splitLast cs with
      | some (front, back) => some (c :: front, back)
      | none => if c = '@' then some ([], cs) else none

theorem eq_of_splitLast {cs front back : List Char} (h : splitLast cs = some (front, back)) :
    cs = front ++ '@' :: back := by
  induction cs generalizing front with
  | nil => cases h
  | cons c cs ih =>
      unfold splitLast at h
      split at h
      next front' back' hsplit =>
        cases h
        rw [ih hsplit, List.cons_append]
      next =>
        split at h
        next hat =>
          cases h
          rw [hat]
          rfl
        next => cases h

/-- The order of `sorted` on the pairs. -/
def manifestLE (a b : String × String) : Prop := a.1 < b.1 ∨ (a.1 = b.1 ∧ a.2 ≤ b.2)

instance : DecidableRel manifestLE := fun _ _ => inferInstanceAs (Decidable (_ ∨ (_ ∧ _)))

/-- `ActivityRegistry.manifest` -/
def manifest (registry : Workers.ActivityRegistry) : List (String × String) :=
  (registry.filterMap (fun entry => (splitLast entry.1.toList).map
    (fun parts => (String.ofList parts.1, String.ofList parts.2)))).insertionSort manifestLE

/-- What a worker lists, it resolves. -/
theorem resolve_of_mem_manifest {registry : Workers.ActivityRegistry} {name version : String}
    (h : (name, version) ∈ manifest registry) : (registry.resolve name version).isSome = true := by
  rw [manifest, List.mem_insertionSort] at h
  obtain ⟨⟨key, activity⟩, hentry, hsplit⟩ := List.mem_filterMap.mp h
  obtain ⟨⟨front, back⟩, hparts, heq⟩ := Option.map_eq_some_iff.mp hsplit
  obtain ⟨rfl, rfl⟩ := Prod.mk.inj heq
  have hkey : key = Workers.ActivityRegistry.key (String.ofList front) (String.ofList back) := by
    rw [Workers.ActivityRegistry.key, ← String.toList_inj]
    simp [eq_of_splitLast hparts]
  rw [Workers.ActivityRegistry.resolve, Option.isSome_map, List.find?_isSome]
  exact ⟨_, hentry, by simp [hkey]⟩

-- ============================================================================
-- What the check says
-- ============================================================================

theorem foldlM_registerEntry {entries acc set : List (String × String)}
    (h : entries.foldlM registerEntry acc = .ok set) (hacc : acc.Nodup) :
    set.Nodup ∧ ∀ e, e ∈ set ↔ e ∈ entries ∨ e ∈ acc := by
  induction entries generalizing acc with
  | nil =>
      cases h
      exact ⟨hacc, fun e => by simp⟩
  | cons entry entries ih =>
      simp only [List.foldlM_cons, registerEntry, bind_eq_ok, rejectIf_eq_ok, exists_const, pure_eq_ok] at h
      obtain ⟨_, ⟨hvalid, rfl⟩, h⟩ := h
      simp only [not_or] at hvalid
      obtain ⟨hnodup, hmem⟩ := ih h (List.nodup_cons.mpr ⟨hvalid.2.2, hacc⟩)
      refine ⟨hnodup, fun e => (hmem e).trans ?_⟩
      simp only [List.mem_cons]
      tauto

/-- An accepted registry names every entry once. -/
theorem registrySet_eq_ok {entries set : List (String × String)} (h : registrySet entries = .ok set) :
    set.Nodup ∧ ∀ e, e ∈ set ↔ e ∈ entries := by
  simp only [registrySet, bind_eq_ok, rejectIf_eq_ok, exists_const] at h
  obtain ⟨hnodup, hmem⟩ := foldlM_registerEntry h.2 List.nodup_nil
  exact ⟨hnodup, fun e => (hmem e).trans (by simp)⟩

/-- Registries in parity have the same entries. -/
theorem mem_of_parity {runtime worker : List (String × String)}
    (h : checkRegistryParity runtime worker = .ok ()) {e : String × String} (he : e ∈ runtime) : e ∈ worker := by
  simp only [checkRegistryParity, bind_eq_ok, rejectIf_eq_ok, exists_const] at h
  obtain ⟨left, hleft, right, hright, -, h⟩ := h
  split at h
  next => cases h
  next hnone =>
    have hmem := List.find?_eq_none.mp hnone e (((registrySet_eq_ok hleft).2 e).mpr he)
    exact ((registrySet_eq_ok hright).2 e).mp (by simpa using hmem)

/-- The candidate supports every version that the definition names. -/
structure Supports (candidate : List (String × String)) (d : Definition) : Prop where
  named : d.activityVersions.doc ≠ .null
  versions : ∃ versions, unmarshalStringMap d.activityVersions.doc = some versions ∧
    ∀ version ∈ versions, version ∈ candidate

theorem checkVersions_ok_iff {supported : List (String × String)} {d : Definition} :
    checkVersions supported d = .ok () ↔ Supports supported d := by
  simp only [checkVersions, bind_eq_ok, getOr_eq_ok, rejectIf_eq_ok, exists_const]
  constructor
  · rintro ⟨versions, hversions, hnull, h⟩
    refine ⟨hnull, versions, hversions, fun version hversion => ?_⟩
    split at h
    next => cases h
    next hnone => simpa using List.find?_eq_none.mp hnone version hversion
  · rintro ⟨hnull, versions, hversions, hall⟩
    refine ⟨versions, hversions, hnull, ?_⟩
    have hnone : versions.find? (fun version => version ∉ supported) = none :=
      List.find?_eq_none.mpr (fun version hversion => by simpa using hall version hversion)
    rw [hnone]
    rfl

theorem forM_ok_iff {α : Type} {l : List α} {f : α → Except Err Unit} :
    l.forM f = .ok () ↔ ∀ x ∈ l, f x = .ok () := by
  induction l with
  | nil => exact ⟨fun _ _ h => (nomatch h), fun _ => rfl⟩
  | cons x l ih =>
      rw [List.forall_mem_cons, ← ih]
      change (f x >>= fun _ => l.forM f) = .ok () ↔ _
      rw [bind_eq_ok]
      exact ⟨fun ⟨_, hx, hl⟩ => ⟨hx, hl⟩, fun ⟨hx, hl⟩ => ⟨(), hx, hl⟩⟩

theorem compatibility_ok_iff {ns : String} {candidate : List (String × String)} {db : DB} :
    checkActivityCompatibility ns candidate db = .ok () ↔
      (∃ set, registrySet candidate = .ok set) ∧ ns ≠ "" ∧
        ∀ d ∈ db.definitions.rows, live db ns d = true → Supports candidate d := by
  simp only [checkActivityCompatibility, bind_eq_ok, rejectIf_eq_ok, exists_const, forM_ok_iff, List.mem_filter,
    checkVersions_ok_iff]
  have hset : ∀ {set}, registrySet candidate = .ok set → ∀ d, Supports set d ↔ Supports candidate d := by
    intro set hset d
    have hmem := (registrySet_eq_ok hset).2
    exact ⟨fun h => ⟨h.named, h.versions.imp (fun _ hv => ⟨hv.1, fun v hv' => (hmem v).mp (hv.2 v hv')⟩)⟩,
      fun h => ⟨h.named, h.versions.imp (fun _ hv => ⟨hv.1, fun v hv' => (hmem v).mpr (hv.2 v hv')⟩)⟩⟩
  constructor
  · rintro ⟨set, hok, hns, hall⟩
    exact ⟨⟨set, hok⟩, hns, fun d hd hlive => (hset hok d).mp (hall d ⟨hd, hlive⟩)⟩
  · rintro ⟨⟨set, hok⟩, hns, hall⟩
    exact ⟨set, hok, hns, fun d hd => (hset hok d).mpr (hall d hd.1 hd.2)⟩

-- ============================================================================
-- Rollouts
-- ============================================================================

/-- A step of the deployment under some environment: the old and the new processes run side by side. -/
def World.AnyStep (w : World) (events : List Event) (w' : World) : Prop := ∃ env, World.Step env w events w'

section Rollouts

variable {old new : Env} {ns : String} {registry : Workers.ActivityRegistry} {w w' : World}
  {trace₀ trace : List Event}

theorem live_iff {db : DB} {d : Definition} : live db ns d = true ↔ ∃ id wf, db.workflows.get id = some wf ∧
    wf.namespace_ = ns ∧ (⟨wf.definitionID, wf.definitionVersion⟩ : DefinitionKey) = d.key ∧
    wf.state.isTerminal = false := by
  simp only [live, List.any_eq_true, Bool.and_eq_true, decide_eq_true_eq, Bool.not_eq_true', Definition.key,
    DefinitionKey.mk.injEq]
  constructor
  · rintro ⟨wf, hmem, ⟨⟨hns, hid⟩, hversion⟩, hlive⟩
    exact ⟨_, wf, Table.get_of_mem hmem, hns, ⟨hid, hversion⟩, hlive⟩
  · rintro ⟨id, wf, hget, hns, ⟨hid, hversion⟩, hlive⟩
    exact ⟨wf, Table.mem_of_get hget, ⟨⟨hns, hid⟩, hversion⟩, hlive⟩

/-- The definition of a workflow that has not ended was one when the workflows were the same. -/
theorem live_before {now : Int} (hstart : Trace World.AnyStep (World.start now) trace₀ w)
    (hrun : Trace World.AnyStep w trace w')
    (hfrozen : ∀ id wf, w'.db.workflows.get id = some wf → wf.namespace_ = ns →
      ∃ wf, w.db.workflows.get id = some wf) {d : Definition} (hd : d ∈ w'.db.definitions.rows)
    (hlive : live w'.db ns d = true) : d ∈ w.db.definitions.rows ∧ live w.db ns d = true := by
  have hplaced : Placed w.db := hstart.keeps (I := fun w => Placed w.db) (fun _ _ hwf => nomatch hwf)
    (fun _ _ _ hplaced hs => hs.elim (fun _ hs => hs.placed hplaced))
  have hkept : Kept w.db w'.db := hrun.relates (R := fun w w' => Kept w.db w'.db) (fun _ => .of_eq rfl rfl)
    (fun _ _ _ => Kept.trans) (fun _ _ _ hs => hs.elim (fun _ hs => hs.kept))
  obtain ⟨id, wf', hget', hns, hkey, hgoing⟩ := live_iff.mp hlive
  obtain ⟨wf, hget⟩ := hfrozen id wf' hget' hns
  obtain ⟨wf'', hget'', hns', hid, hversion, -, hend⟩ := hkept.workflows id wf hget
  rw [hget', Option.some.injEq] at hget''
  subst hget''
  have hgoing' : wf.state.isTerminal = false := by
    rw [← Bool.not_eq_true]
    intro hterminal
    rw [hend hterminal, hterminal] at hgoing
    cases hgoing
  rw [hid, hversion] at hkey
  obtain ⟨-, d₀, hd₀⟩ := hplaced id wf hget
  have hd₀' := hkept.definitions _ d₀ hd₀
  rw [hkey, Table.get_of_mem hd, Option.some.injEq] at hd₀'
  subst hd₀'
  exact ⟨Table.mem_of_get hd₀, live_iff.mpr ⟨id, wf, hget, hns'.symm.trans hns, hkey, hgoing'⟩⟩

/-- What the old runtime supports of a checked definition, the new one supports, in the same version. -/
theorem supports_of_checked {definition : DefinitionView} {nodeID : String}
    (hchecked : Supports (runtimeRegistry new) definition.row)
    (hold : runtimeSupports old definition nodeID = true) : runtimeSupports new definition nodeID = true ∧
      (nodeID, declaredVersion definition nodeID) ∈ runtimeRegistry new := by
  obtain ⟨-, versions, hversions, hall⟩ := hchecked
  simp only [runtimeSupports, hversions, Bool.and_eq_true, decide_eq_true_eq] at hold ⊢
  have hdeclared : (nodeID, (versions.lookup nodeID).getD "") ∈ runtimeRegistry new := by
    cases hlookup : versions.lookup nodeID with
    | some version =>
        obtain ⟨before, after, hsplit, -⟩ := List.lookup_eq_some_iff.mp hlookup
        exact hall _ (by simp [hsplit])
    | none =>
        -- no registry has an empty version
        have hnone : (nodeID, "") ∈ runtimeRegistry old := by simpa [hlookup] using hold.1
        simp [runtimeRegistry] at hnone
  refine ⟨⟨hdeclared, hold.2⟩, ?_⟩
  rw [declaredVersion, hversions]
  exact hdeclared

/-- A definition that a live workflow of a checked state runs is supported. -/
theorem supports_of_live {db : DB} (hcheck : checkActivityCompatibility ns (runtimeRegistry new) db = .ok ())
    {id : String} {wf : Workflow} {definition : DefinitionView} (hwf : db.workflows.get id = some wf)
    (hns : wf.namespace_ = ns) (hgoing : wf.state.isTerminal = false)
    (hdefinition : getDefinition wf.definitionID wf.definitionVersion db = .ok definition) :
    Supports (runtimeRegistry new) definition.row := by
  simp only [getDefinition, bind_eq_ok, getOr_eq_ok, pure_eq_ok] at hdefinition
  obtain ⟨row, hrow, _, -, rfl⟩ := hdefinition
  have hkey := Table.key_of_get hrow
  exact (compatibility_ok_iff.mp hcheck).2.2 row (Table.mem_of_get hrow)
    (live_iff.mpr ⟨id, wf, hwf, hns, hkey.symm, hgoing⟩)

/-- A task that the old runtime hands out is the new one's too, under a version of its registry. -/
theorem runtimeActivity_of_checked {db : DB} {payload : RawMessage} {task : RuntimeActivity}
    (hcheck : checkActivityCompatibility ns (runtimeRegistry new) db = .ok ())
    (h : runtimeActivity old ns payload db = .ok (some task)) :
    runtimeActivity new ns payload db = .ok (some task) ∧
      (task.activityName, task.activityVersion) ∈ runtimeRegistry new := by
  simp only [runtimeActivity, bind_eq_ok, getOr_eq_ok, getWorkflow] at h ⊢
  obtain ⟨t, ht, wf, hwf, h⟩ := h
  split at h
  next => cases h
  next hplace =>
    simp only [not_or, not_not] at hplace
    simp only [bind_eq_ok] at h
    obtain ⟨node, hnode, h⟩ := h
    split at h
    next => cases h
    next hcurrent =>
      simp only [bind_eq_ok] at h
      obtain ⟨attempt, hattempt, h⟩ := h
      split at h
      next => cases h
      next hdispatched =>
        simp only [bind_eq_ok, rejectIf_eq_ok, exists_const, pure_eq_ok] at h
        obtain ⟨definition, hdefinition, hold, h⟩ := h
        obtain rfl := Option.some.inj h
        have hsupports := supports_of_live hcheck hwf hplace.1 (by rw [hplace.2]; rfl) hdefinition
        obtain ⟨hnew, hmem⟩ := supports_of_checked hsupports (by simpa using hold)
        refine ⟨⟨t, ht, wf, hwf, ?_⟩, hmem⟩
        rw [if_neg (by simpa using hplace)]
        simp only [bind_eq_ok]
        refine ⟨node, hnode, ?_⟩
        rw [if_neg hcurrent]
        simp only [bind_eq_ok]
        refine ⟨attempt, hattempt, ?_⟩
        rw [if_neg hdispatched]
        simp only [bind_eq_ok, rejectIf_eq_ok, exists_const]
        exact ⟨definition, hdefinition, by simpa using hnew, rfl⟩

/-- While no workflow of the namespace is submitted, a rollout that passed the check goes on passing it:
every task that the old runtime would hand out is the new one's too, a worker of the checked manifest
resolves it, and no live workflow has a node that only the old runtime supports. -/
theorem rollout_serves {now : Int} (hstart : Trace World.AnyStep (World.start now) trace₀ w)
    (hcheck : compatibilityCheck new ns (manifest registry) w.db = .ok ())
    (hrun : Trace World.AnyStep w trace w')
    (hfrozen : ∀ id wf, w'.db.workflows.get id = some wf → wf.namespace_ = ns →
      ∃ wf, w.db.workflows.get id = some wf) :
    compatibilityCheck new ns (manifest registry) w'.db = .ok () ∧
      (∀ payload task, runtimeActivity old ns payload w'.db = .ok (some task) →
        runtimeActivity new ns payload w'.db = .ok (some task) ∧
          (registry.resolve task.activityName task.activityVersion).isSome = true) ∧
      ∀ id wf definition nodeID, w'.db.workflows.get id = some wf → wf.namespace_ = ns →
        wf.state.isTerminal = false → getDefinition wf.definitionID wf.definitionVersion w'.db = .ok definition →
        runtimeSupports old definition nodeID = true → runtimeSupports new definition nodeID = true := by
  simp only [compatibilityCheck, bind_eq_ok] at hcheck ⊢
  obtain ⟨_, hparity, hcheck⟩ := hcheck
  have hcheck' : checkActivityCompatibility ns (runtimeRegistry new) w'.db = .ok () := by
    obtain ⟨hset, hns, hall⟩ := compatibility_ok_iff.mp hcheck
    refine compatibility_ok_iff.mpr ⟨hset, hns, fun d hd hlive => ?_⟩
    obtain ⟨hbefore, hlive'⟩ := live_before hstart hrun hfrozen hd hlive
    exact hall d hbefore hlive'
  refine ⟨⟨(), hparity, hcheck'⟩, fun payload task htask => ?_, fun id wf definition nodeID hwf hns hgoing hdef hold => ?_⟩
  · obtain ⟨hnew, hmem⟩ := runtimeActivity_of_checked hcheck' htask
    exact ⟨hnew, resolve_of_mem_manifest (mem_of_parity hparity hmem)⟩
  · exact (supports_of_checked (supports_of_live hcheck' hwf hns hgoing hdef) hold).1

theorem World.Run.anyStep {env : Env} (h : World.Run env w trace w') : Trace World.AnyStep w trace w' := by
  induction h with
  | refl => exact .refl
  | tail _ hlast ih => exact ih.tail ⟨env, hlast⟩

end Rollouts

-- ============================================================================
-- A rollout beside a workflow with two branches
-- ============================================================================

def forkRegistry : Workers.ActivityRegistry := [("pure.echo@v1", Workers.pureEcho), ("pure.add@v1", Workers.pureEcho)]

theorem rollout_serves_fork : ∃ trace w w', Trace World.AnyStep w trace w' ∧
    w.db.workflows.rows.length = 1 ∧ w.db.leases ≠ w'.db.leases ∧
    compatibilityCheck .plain "ns" (manifest forkRegistry) w'.db = .ok () := by
  have hscript : (World.moves? .plain 0 [.call (.createDefinition forkDefinition),
      .call (.createWorkflow forkWorkflow)] (World.start 0)).any (fun r =>
        r.2.db.workflows.rows.length = 1 &&
        (compatibilityCheck .plain "ns" (manifest forkRegistry) r.2.db).toOption.isSome &&
        (World.moves? .plain 2 [.call (.acquireLease 0 (uuidOf 8 0) 1000)] r.2).any (fun r' =>
          r.2.db.leases ≠ r'.2.db.leases &&
          r'.2.db.workflows.rows.all (fun wf => (r.2.db.workflows.get wf.workflowID).isSome))) = true := by
    decide +kernel
  obtain ⟨⟨trace₀, w⟩, hfirst, hshown⟩ := (Option.any_eq_true _ _).mp hscript
  simp only [Bool.and_eq_true, decide_eq_true_eq] at hshown
  obtain ⟨⟨hone, hcheck⟩, hnext⟩ := hshown
  obtain ⟨⟨trace, w'⟩, hsecond, hshown⟩ := (Option.any_eq_true _ _).mp hnext
  simp only [Bool.and_eq_true, decide_eq_true_eq, List.all_eq_true] at hshown
  obtain ⟨⟨⟩, hok⟩ := Option.isSome_iff_exists.mp hcheck
  have hrun := (World.run_of_moves? hsecond).anyStep
  refine ⟨trace, w, w', hrun, hone, hshown.1, (@rollout_serves .plain .plain "ns" forkRegistry w w' trace₀ trace 0
    (World.run_of_moves? hfirst).anyStep (toOption_eq_some hok) hrun (fun id wf hwf _ => ?_)).1⟩
  have hkept := hshown.2 wf (Table.mem_of_get hwf)
  have hkey : wf.workflowID = id := Table.key_of_get hwf
  rw [hkey] at hkept
  exact Option.isSome_iff_exists.mp hkept

end DurableEngine.Services
