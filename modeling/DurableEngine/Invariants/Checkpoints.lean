/-
  DurableEngine.Invariants.Checkpoints

  The checker's rule for checkpoints (the first part of `checkM4`), and when
  the store keeps to it.

  The sequences of a reachable state never have a gap, so the checker finds
  something exactly when two rows of a node differ in their schema version.
  `RecordCheckpoint` compares a call with the node's policy, not with the
  rows, so that happens when the version of a policy moves between two saves.
-/

import DurableEngine.Invariants.Attempts
import DurableEngine.State.Checkpoints

namespace DurableEngine.Invariants

open Lib State

-- ============================================================================
-- Records
-- ============================================================================

structure CheckpointRecord where
  workflowID : String
  nodeID : String
  iteration : Int
  sequence : Int
  schemaVersion : Int
  sourceAttempt : Int
  payloadValid : Bool
  payloadHash : String
deriving DecidableEq, Repr

/-- `ORDER BY workflow_id, node_id, iteration, sequence`. -/
def checkpointBefore (env : Env) (a b : Checkpoint) : Prop :=
  if a.key.node.workflowID ≠ b.key.node.workflowID then
    env.collation a.key.node.workflowID b.key.node.workflowID = true
  else if a.key.node.nodeID ≠ b.key.node.nodeID then
    env.collation a.key.node.nodeID b.key.node.nodeID = true
  else a.key.node.iteration < b.key.node.iteration ∨
    (a.key.node.iteration = b.key.node.iteration ∧ a.key.sequence ≤ b.key.sequence)

instance (env : Env) : DecidableRel (checkpointBefore env) := fun _ _ =>
  inferInstanceAs (Decidable (ite _ _ _))

/-- The record of a checkpoint; the payload column is never null. -/
def checkpointRecord (c : Checkpoint) : CheckpointRecord where
  workflowID := c.key.node.workflowID
  nodeID := c.key.node.nodeID
  iteration := c.key.node.iteration
  sequence := c.key.sequence
  schemaVersion := c.schemaVersion
  sourceAttempt := c.sourceAttempt
  payloadValid := true
  payloadHash := c.payloadHash

/-- The checkpoints `Load` selects for the workflows `ids`. -/
def loadCheckpoints (env : Env) (ids : List String) (db : DB) : List CheckpointRecord :=
  ((db.checkpoints.select (fun c => decide (c.key.node.workflowID ∈ ids))).insertionSort
    (checkpointBefore env)).map checkpointRecord

-- ============================================================================
-- The rule
-- ============================================================================

namespace CheckpointRecord

/-- `"%s\x00%s\x00%d"` of the node. -/
def nodeKey (c : CheckpointRecord) : String :=
  c.workflowID ++ "\x00" ++ c.nodeID ++ "\x00" ++ toString c.iteration

/-- The rule for a single checkpoint. -/
def violations (c : CheckpointRecord) : List String :=
  if c.workflowID = "" ∨ c.nodeID = "" ∨ c.iteration < 0 ∨ c.sequence < 0 ∨ c.schemaVersion ≤ 0 ∨
      c.sourceAttempt ≤ 0 ∨ c.payloadValid = false ∨ c.payloadHash = "" then
    ["checkpoint evidence is incomplete"]
  else []

end CheckpointRecord

/-- The checkpoints of one node, from the sequence `index` on; `previous` is the schema version
    before it. The scan stops at a gap. -/
def scanCheckpoints (key : String) : Int → Option Int → List CheckpointRecord → List String
  | _, _, [] => []
  | index, previous, checkpoint :: checkpoints =>
      if checkpoint.sequence ≠ index then ["checkpoint sequence is not contiguous: " ++ key]
      else
        (if previous.any (fun version => checkpoint.schemaVersion ≠ version) then
          ["checkpoint schema changed within an activity: " ++ key] else []) ++
        scanCheckpoints key (index + 1) (some checkpoint.schemaVersion) checkpoints

/-- `checkM4` up to the effects. -/
def checkCheckpoints (checkpoints : List CheckpointRecord) : List String :=
  checkpoints.flatMap CheckpointRecord.violations ++
    (grouped CheckpointRecord.nodeKey checkpoints).flatMap (fun group =>
      scanCheckpoints group.1 0 none (group.2.insertionSort (fun a b => a.sequence ≤ b.sequence)))

-- ============================================================================
-- What the checker finds
-- ============================================================================

/-- The checkpoints of the node carry one schema version. -/
def OneSchema (db : DB) (k : NodeKey) : Prop :=
  ∀ s s' c c', db.checkpoints.get ⟨k, s⟩ = some c → db.checkpoints.get ⟨k, s'⟩ = some c' →
    c.schemaVersion = c'.schemaVersion

/-- On records that are numbered without a gap, the scan compares schema versions only. -/
theorem scanCheckpoints_eq_nil {key : String} {index : Int} {previous : Option Int}
    {records : List CheckpointRecord} (h : Numbered CheckpointRecord.sequence index records) :
    scanCheckpoints key index previous records = [] ↔
      (∀ version, previous = some version → ∀ r ∈ records, r.schemaVersion = version) ∧
        ∀ r ∈ records, ∀ s ∈ records, r.schemaVersion = s.schemaVersion := by
  induction h generalizing previous with
  | nil index =>
      exact ⟨fun _ => ⟨fun _ _ r hr => (nomatch hr), fun r hr => (nomatch hr)⟩, fun _ => rfl⟩
  | @cons index r records head tail ih =>
      rw [scanCheckpoints, if_neg (not_not.mpr head), List.append_eq_nil_iff, ih]
      simp only [ite_eq_right_iff, reduceCtorEq, imp_false, Bool.not_eq_true, Option.any_eq_false,
        decide_eq_false_iff_not, not_not, List.forall_mem_cons, Option.some.injEq, forall_eq']
      constructor
      · rintro ⟨hprevious, hrest, hall⟩
        refine ⟨fun version hversion => ⟨hprevious version hversion, fun s hs => ?_⟩,
          ⟨trivial, fun s hs => (hrest s hs).symm⟩, fun s hs => ⟨hrest s hs, fun t ht => hall s hs t ht⟩⟩
        rw [hrest s hs, hprevious version hversion]
      · rintro ⟨hprevious, ⟨-, hfirst⟩, hall⟩
        exact ⟨fun version hversion => (hprevious version hversion).1,
          fun s hs => (hfirst s hs).symm, fun s hs => (hall s hs).2⟩

variable {env : Env} {ids : List String} {db db' : DB}

theorem mem_loadCheckpoints {r : CheckpointRecord} : r ∈ loadCheckpoints env ids db ↔
    ∃ c, db.checkpoints.get c.key = some c ∧ c.key.node.workflowID ∈ ids ∧ checkpointRecord c = r := by
  simp [loadCheckpoints, List.mem_insertionSort, Table.mem_select, Table.mem_rows_iff, and_assoc]

/-- Two records of a trace differ in their node or their sequence. -/
theorem pairwise_loadCheckpoints (env : Env) (ids : List String) (db : DB) :
    (loadCheckpoints env ids db).Pairwise (fun r s => ¬ (r.workflowID = s.workflowID ∧
      r.nodeID = s.nodeID ∧ r.iteration = s.iteration ∧ r.sequence = s.sequence)) := by
  have hkeys : (db.checkpoints.select (fun c => decide (c.key.node.workflowID ∈ ids))).Pairwise
      (fun a b => a.key ≠ b.key) :=
    (List.pairwise_map.mp db.checkpoints.nodup).sublist List.filter_sublist
  have hsorted := ((List.perm_insertionSort (checkpointBefore env) _).pairwise_iff
    (fun h => Ne.symm h)).mpr hkeys
  refine List.pairwise_map.mpr (hsorted.imp (fun {a b} hne hsame => hne ?_))
  obtain ⟨⟨⟨w, n, i⟩, s⟩, _⟩ := a
  obtain ⟨⟨⟨w', n', i'⟩, s'⟩, _⟩ := b
  simpa [checkpointRecord, and_assoc] using hsame

/-- What a stored checkpoint says is complete. -/
structure CompleteCheckpoint (c : Checkpoint) : Prop where
  node : c.key.node.workflowID ≠ "" ∧ c.key.node.nodeID ≠ "" ∧ Separable c.key.node
  numbers : 0 ≤ c.key.sequence ∧ 0 < c.schemaVersion ∧ 0 < c.sourceAttempt
  hash : c.payloadHash ≠ ""

theorem hexSum_ne (s : String) : Sha256.hexSum s ≠ "" := by
  intro h
  have hchars := congrArg String.toList h
  simp [Sha256.hexSum, Sha256.hexString, Sha256.sum256, Sha256.beBytes] at hchars

theorem completeCheckpoint (h : Reachable env db) {key : CheckpointKey} {c : Checkpoint}
    (hc : db.checkpoints.get key = some c) : CompleteCheckpoint c := by
  obtain ⟨now, hrun⟩ := h
  obtain ⟨input, db₁, db₂, hfirst, hholds, hsave, -, hkey, hsource, hhash, -⟩ :=
    savedByHolder (fun _ => rfl) hrun hc
  obtain ⟨hworkflowID, hnodeID, -, hnumber, hsequence, hpositive⟩ :=
    (permitted_of_recordCheckpoint hsave).complete
  obtain ⟨n, a, token, -, -, ha, -⟩ := hholds
  have hversion : c.schemaVersion = input.schemaVersion := by
    obtain happ | ⟨-, -, -, hversion⟩ := (recordCheckpoint_eq_ok hsave).cases
    · exact happ.schemaVersion
    · exact hversion
  refine ⟨?_, ?_, ?_⟩
  · rw [hkey]
    exact ⟨hworkflowID, hnodeID, separable ⟨now, hfirst⟩ ha⟩
  · rw [hkey, hsource, hversion]
    exact ⟨hsequence, hpositive, hnumber⟩
  · obtain ⟨v, -, -, hsum⟩ := canonicalPayloadHash_eq_ok.mp hhash
    rw [hsum]
    exact hexSum_ne _

theorem violations_checkpointRecord {c : Checkpoint} (h : CompleteCheckpoint c) :
    (checkpointRecord c).violations = [] := by
  obtain ⟨hworkflowID, hnodeID, hseparable⟩ := h.node
  obtain ⟨hsequence, hversion, hsource⟩ := h.numbers
  have hiteration := hseparable.iteration
  refine if_neg ?_
  simp only [checkpointRecord, hworkflowID, hnodeID, h.hash, false_or, or_false, not_or,
    Bool.true_eq_false]
  omega

/-- The checker finds nothing in the checkpoints of a stored node exactly when they carry one
    schema version. -/
theorem scanCheckpoints_loadCheckpoints (h : Reachable env db) {c : Checkpoint}
    (hc : db.checkpoints.get c.key = some c) (hids : c.key.node.workflowID ∈ ids) :
    scanCheckpoints (checkpointRecord c).nodeKey 0 none (((loadCheckpoints env ids db).filter
      (fun r => decide (r.nodeKey = (checkpointRecord c).nodeKey))).insertionSort
        (fun a b => a.sequence ≤ b.sequence)) = [] ↔ OneSchema db c.key.node := by
  set group := (loadCheckpoints env ids db).filter
    (fun r => decide (r.nodeKey = (checkpointRecord c).nodeKey)) with hgroup
  have hmem : ∀ r, r ∈ group ↔
      ∃ b, db.checkpoints.get ⟨c.key.node, r.sequence⟩ = some b ∧ checkpointRecord b = r := by
    intro r
    simp only [hgroup, List.mem_filter, mem_loadCheckpoints, decide_eq_true_eq]
    constructor
    · rintro ⟨⟨b, hb, -, rfl⟩, hkey⟩
      have hnode := (completeCheckpoint h hb).node.2.2.inj (completeCheckpoint h hc).node.2.2 hkey
      exact ⟨b, by rw [← hnode]; exact hb, rfl⟩
    · rintro ⟨b, hb, rfl⟩
      have hkey : b.key = ⟨c.key.node, b.key.sequence⟩ := Table.key_of_get hb
      have hnode : b.key.node = c.key.node := by rw [hkey]
      refine ⟨⟨b, by rw [hkey]; exact hb, by rw [hnode]; exact hids, rfl⟩, ?_⟩
      simp only [CheckpointRecord.nodeKey, checkpointRecord, hnode]
  obtain ⟨n, hn⟩ := (h.checkpointChain c.key.node).sequences
  have hnumbered : Numbered CheckpointRecord.sequence 0
      (group.insertionSort (fun a b => a.sequence ≤ b.sequence)) := by
    refine Numbered.insertionSort (N := n - 1) ?_ (fun m => ?_)
    · refine ((pairwise_loadCheckpoints env ids db).sublist
        List.filter_sublist).imp_of_mem (fun {r s} hr hs hne heq => ?_)
      obtain ⟨b, hb, rfl⟩ := (hmem r).mp hr
      obtain ⟨d, hd, rfl⟩ := (hmem s).mp hs
      have hnode : b.key.node = d.key.node := by rw [Table.key_of_get hb, Table.key_of_get hd]
      exact hne ⟨congrArg NodeKey.workflowID hnode, congrArg NodeKey.nodeID hnode,
        congrArg NodeKey.iteration hnode, heq⟩
    · have hm := hn m
      constructor
      · rintro ⟨r, hr, rfl⟩
        obtain ⟨b, hb, -⟩ := (hmem r).mp hr
        have := hm.mp ⟨b, hb⟩
        omega
      · intro hrange
        obtain ⟨b, hb⟩ := hm.mpr (by omega)
        have hseq : (checkpointRecord b).sequence = m := by
          rw [checkpointRecord, Table.key_of_get hb]
        exact ⟨checkpointRecord b, (hmem _).mpr ⟨b, by rw [hseq]; exact hb, rfl⟩, hseq⟩
  rw [scanCheckpoints_eq_nil hnumbered]
  simp only [List.mem_insertionSort, reduceCtorEq, false_implies, implies_true, true_and]
  constructor
  · intro hall s s' b d hb hd
    have hrecord : ∀ s b, db.checkpoints.get ⟨c.key.node, s⟩ = some b → checkpointRecord b ∈ group := by
      intro s b hb
      refine (hmem _).mpr ⟨b, ?_, rfl⟩
      rw [show (checkpointRecord b).sequence = s by rw [checkpointRecord, Table.key_of_get hb]]
      exact hb
    exact hall _ (hrecord s b hb) _ (hrecord s' d hd)
  · intro hone r hr s hs
    obtain ⟨b, hb, rfl⟩ := (hmem r).mp hr
    obtain ⟨d, hd, rfl⟩ := (hmem s).mp hs
    exact hone _ _ b d hb hd

/-- Of a reachable state the checker accepts the checkpoints exactly when every node's carry one
    schema version. -/
theorem checkCheckpoints_eq_nil (h : Reachable env db) :
    checkCheckpoints (loadCheckpoints env ids db) = [] ↔
      ∀ k, k.workflowID ∈ ids → OneSchema db k := by
  have hsingle : (loadCheckpoints env ids db).flatMap CheckpointRecord.violations = [] := by
    refine List.flatMap_eq_nil_iff.mpr (fun r hr => ?_)
    obtain ⟨c, hc, -, rfl⟩ := mem_loadCheckpoints.mp hr
    exact violations_checkpointRecord (completeCheckpoint h hc)
  rw [checkCheckpoints, hsingle, List.nil_append, List.flatMap_eq_nil_iff]
  constructor
  · intro hall k hk s s' c c' hc hc'
    have hkey : c.key = ⟨k, s⟩ := Table.key_of_get hc
    have hnode : c.key.node = k := by rw [hkey]
    have hget : db.checkpoints.get c.key = some c := by rw [hkey]; exact hc
    have hids : c.key.node.workflowID ∈ ids := by rw [hnode]; exact hk
    have hscan := hall ((checkpointRecord c).nodeKey, _) (List.mem_map.mpr ⟨_, List.mem_dedup.mpr
      (List.mem_map.mpr ⟨_, mem_loadCheckpoints.mpr ⟨c, hget, hids, rfl⟩, rfl⟩), rfl⟩)
    have hone := (scanCheckpoints_loadCheckpoints h hget hids).mp hscan
    rw [hnode] at hone
    exact hone s s' c c' hc hc'
  · intro hall group hgroup
    obtain ⟨key, hkey, rfl⟩ := List.mem_map.mp hgroup
    obtain ⟨r, hr, rfl⟩ := List.mem_map.mp (List.mem_dedup.mp hkey)
    obtain ⟨c, hc, hids, rfl⟩ := mem_loadCheckpoints.mp hr
    exact (scanCheckpoints_loadCheckpoints h hc hids).mpr (hall _ hids)

-- ============================================================================
-- Runs that keep to the rule
-- ============================================================================

/-- A call of `RecordCheckpoint` finds the policy of the node at the schema version of its latest
    checkpoint. -/
def SavesVersion (α : Type) (op : Op α) (db : DB) : Prop :=
  match op with
  | .recordCheckpoint input => ∀ c, db.latestCheckpoint input.key.node = some c →
      (db.retryPolicyOf input.key.node).checkpointSchemaVersion = c.schemaVersion
  | _ => True

/-- A committed save keeps to the rule exactly when it finds the version of the latest row. -/
theorem oneSchema_recordCheckpoint (hone : ∀ k, OneSchema db k)
    {input : CheckpointInput} {row : Checkpoint} (hrun : recordCheckpoint input db = .ok (row, db')) :
    (∀ k, OneSchema db' k) ↔ SavesVersion Checkpoint (.recordCheckpoint input) db := by
  have hsaved := recordCheckpoint_eq_ok hrun
  obtain happ | ⟨hsame, hlatest, -, hversion⟩ := hsaved.cases
  · have hrow := Table.get_insert_self happ.inserted
    rw [happ.key] at hrow
    have hnew : row.schemaVersion = (db.retryPolicyOf input.key.node).checkpointSchemaVersion :=
      happ.schemaVersion.trans hsaved.version
    constructor
    · intro hall c hc
      have hold := Table.get_insert_of_get happ.inserted (latestCheckpoint_eq_some hc).1
      exact hnew.symm.trans (hall _ _ _ _ _ hrow hold)
    · intro hsaves
      -- every row of the node has the version of its latest one
      have hrows : ∀ s c, db'.checkpoints.get ⟨input.key.node, s⟩ = some c →
          c.schemaVersion = row.schemaVersion := by
        intro s c hc
        rw [Table.get_insert happ.inserted] at hc
        split at hc
        · rw [Option.some.inj hc]
        · cases hlatest : db.latestCheckpoint input.key.node with
          | none =>
              rw [latestCheckpoint_eq_none hlatest s] at hc
              cases hc
          | some d =>
              rw [hnew, hsaves d hlatest]
              exact hone _ _ _ _ _ hc (latestCheckpoint_eq_some hlatest).1
      intro k s s' c c' hc hc'
      by_cases hk : k = input.key.node
      · subst hk
        exact (hrows s c hc).trans (hrows s' c' hc').symm
      · have hne : ∀ s, (⟨k, s⟩ : CheckpointKey) ≠ row.key := fun s heq => by
          rw [happ.key] at heq
          exact hk (CheckpointKey.mk.inj heq).1
        rw [Table.get_insert_ne happ.inserted (hne _)] at hc hc'
        exact hone k s s' c c' hc hc'
  · refine ⟨fun _ c hc => ?_, fun _ k s s' c c' hc hc' => ?_⟩
    · rw [hlatest, Option.some.injEq] at hc
      rw [← hsaved.version, ← hversion, hc]
    · rw [hsame] at hc hc'
      exact hone k s s' c c' hc hc'

/-- One step from a state that keeps to the rule. -/
theorem oneSchema_step (hone : ∀ k, OneSchema db k) {α : Type} {amb : Ambient}
    {op : Op α} {a : α} (hrun : op.run env amb db = .ok (a, db')) :
    (∀ k, OneSchema db' k) ↔ SavesVersion α op db := by
  have hother : db'.checkpoints = db.checkpoints → ∀ k, OneSchema db' k := by
    intro hsame k s s' c c' hc hc'
    rw [hsame] at hc hc'
    exact hone k s s' c c' hc hc'
  have hframe := (Op.run_commit hrun).frame
  cases op with
  | recordCheckpoint input => exact oneSchema_recordCheckpoint hone hrun
  | _ => exact ⟨fun _ => trivial, fun _ => hother (by rw [hframe]; rfl)⟩

theorem oneSchema (h : ReachableIf env SavesVersion db) : ∀ k, OneSchema db k := by
  refine h.induction (I := fun db => ∀ k, OneSchema db k) (fun _ _ _ _ _ _ hc => (nomatch hc))
    (fun db db' _ hone hs => ?_)
  cases hs with
  | tick _ d => exact hone
  | commit amb op a hop hsaves => exact (oneSchema_step hone hop).mpr hsaves

/-- As long as every save finds the policy of its node at the schema version of the latest
    checkpoint, the checkpoints of a node carry one schema version and the checker accepts them; the
    first committed call that does not ends that. -/
theorem checkpoint_schema (h : ReachableIf env SavesVersion db) : (∀ k, OneSchema db k) ∧
    (∀ ids, checkCheckpoints (loadCheckpoints env ids db) = []) ∧
    ∀ α (op : Op α) amb a db', op.run env amb db = .ok (a, db') →
      ((∀ k, OneSchema db' k) ↔ SavesVersion α op db) :=
  ⟨oneSchema h, fun _ => (checkCheckpoints_eq_nil h.reachable).mpr (fun k _ => oneSchema h k),
    fun _ _ _ _ _ hrun => oneSchema_step (oneSchema h) hrun⟩

/-- The worker saves a checkpoint, the scheduler raises the schema version, the worker follows. -/
def migratedScript : List Action := soloScript.take 6 ++ ([
  .call (.recordCheckpoint ⟨"w", "a", 0, 1, uuidOf 3 5, 0, 1, .json (.str "half")⟩),
  .call (.setRetryPolicy ⟨soloLease, "w", "a", 0, 3, 3, none, 2, "scheduler"⟩),
  .call (.recordCheckpoint ⟨"w", "a", 0, 1, uuidOf 3 5, 1, 2, .json (.str "most")⟩)] : List Action)

/-- The checkpoints of the node then carry two schema versions, and the checker says so. -/
theorem checkpoint_schema_changes : ∃ db, Reachable .plain db ∧ ¬ OneSchema db ⟨"w", "a", 0⟩ ∧
    checkCheckpoints (loadCheckpoints .plain ["w"] db) =
      ["checkpoint schema changed within an activity: w\x00a\x000"] := by
  have hrun : (runScript? .plain 0 migratedScript (DB.init 0)).any (fun db =>
      decide (checkCheckpoints (loadCheckpoints .plain ["w"] db) =
        ["checkpoint schema changed within an activity: w\x00a\x000"]) &&
      ((db.checkpoints.get ⟨⟨"w", "a", 0⟩, 0⟩).map (·.schemaVersion) = some 1) &&
      ((db.checkpoints.get ⟨⟨"w", "a", 0⟩, 1⟩).map (·.schemaVersion) = some 2)) = true := by
    decide +kernel
  obtain ⟨db, hdb, hcheck⟩ := (Option.any_eq_true _ _).mp hrun
  simp only [Bool.and_eq_true, decide_eq_true_eq, Option.map_eq_some_iff] at hcheck
  obtain ⟨⟨hfound, c, hc, hone⟩, d, hd, htwo⟩ := hcheck
  refine ⟨db, reachable_of_runScript? hdb, fun hsame => ?_, hfound⟩
  have heq := hsame _ _ c d hc hd
  omega

def savesVersion (α : Type) (op : Op α) (db : DB) : Bool :=
  match op with
  | .recordCheckpoint input => (db.latestCheckpoint input.key.node).all (fun c =>
      (db.retryPolicyOf input.key.node).checkpointSchemaVersion = c.schemaVersion)
  | _ => true

theorem savesVersion_spec (α : Type) (op : Op α) (db : DB) (h : savesVersion α op db = true) :
    SavesVersion α op db := by
  cases op with
  | recordCheckpoint input =>
      intro c hc
      simp only [savesVersion, hc, Option.all_some, decide_eq_true_eq] at h
      exact h
  | _ => trivial

/-- Two saves under one version. -/
theorem checkpoint_schema_saved : ∃ db c, ReachableIf .plain SavesVersion db ∧
    db.checkpoints.get ⟨⟨"w", "a", 0⟩, 1⟩ = some c ∧ (∀ k, OneSchema db k) ∧
    checkCheckpoints (loadCheckpoints .plain ["w"] db) = [] := by
  have hrun : (runScriptIf? .plain savesVersion 0 savedScript (DB.init 0)).any (fun db =>
      (db.checkpoints.get ⟨⟨"w", "a", 0⟩, 1⟩).isSome) = true := by
    decide +kernel
  obtain ⟨db, hdb, hcheck⟩ := (Option.any_eq_true _ _).mp hrun
  obtain ⟨c, hc⟩ := Option.isSome_iff_exists.mp hcheck
  have hreach : ReachableIf .plain SavesVersion db := ⟨0, run_of_runScriptIf? savesVersion_spec hdb⟩
  obtain ⟨hone, hchecked, -⟩ := checkpoint_schema hreach
  exact ⟨db, c, hreach, hc, hone, hchecked _⟩

end DurableEngine.Invariants
