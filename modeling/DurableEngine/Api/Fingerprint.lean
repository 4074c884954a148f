/-
  DurableEngine.Api.Fingerprint

  The hash a submission is compared by, after `canonicalSubmissionHash`.

  The two documents of a request are written canonically and copied into a
  third text together with the fields that choose the workflow's start.  Equal
  hashes mean equal texts, and a text reads back as the fields it was put
  together from.
-/

import DurableEngine.Api.Documents
import DurableEngine.Lib.Compact
import DurableEngine.Lib.Quote
import DurableEngine.Lib.Sha256

namespace DurableEngine.Api

open Lib JsonTree

-- ============================================================================
-- The hash
-- ============================================================================

/-- `submitWorkflowRequest`; the documents are the texts they were sent as. -/
structure SubmitWorkflowRequest where
  workflowID : String
  «namespace» : String
  submissionKey : String
  payload : List Char
  definitionID : String
  definitionVersion : Int
  initialNodeID : String
  initialInput : List Char
  actorID : String
deriving DecidableEq, Repr

/-- `submissionHashV1`. -/
def submissionHashV1 : String := "sub-v1:"

/-- How an integer is written. -/
def intNumber (i : Int) : JsonNumber := ⟨decide (i < 0), i.natAbs, 0, none⟩

/-- A `json.RawMessage` inside a value that is written: checked, and without white space. -/
def marshalRaw (raw : List Char) : Except ValueError (List Char) :=
  match readDocument raw with
  | none => .error (.decoder .malformed)
  | some v => if v.depth ≤ maxNestingDepth then .ok (compactText false raw) else .error (.text "exceeded max depth")

/-- What is hashed: the fields with the texts of their values. -/
def fingerprint (request : SubmitWorkflowRequest) (initialInput payload : List Char) : List Char :=
  objectText [
    ("definition_id", marshalString request.definitionID),
    ("definition_version", (intNumber request.definitionVersion).literal),
    ("initial_node_id", marshalString request.initialNodeID),
    ("initial_input", initialInput),
    ("payload", payload)]

/-- The text that `canonicalSubmissionHash` hashes. -/
def submissionText (request : SubmitWorkflowRequest) (initialInput : List Char) :
    Except DocumentError (List Char) := do
  let canonicalInitialInput ← canonicalJSON initialInput "initial_input"
  let canonicalPayload ← canonicalJSON request.payload "payload"
  let initialInput ← (marshalRaw canonicalInitialInput).mapError .value
  let payload ← (marshalRaw canonicalPayload).mapError .value
  pure (fingerprint request initialInput payload)

/-- `canonicalSubmissionHash`. -/
def canonicalSubmissionHash (request : SubmitWorkflowRequest) (initialInput : List Char) :
    Except DocumentError String := do
  let canonical ← submissionText request initialInput
  pure (submissionHashV1 ++ Sha256.hexSum (String.ofList canonical))

-- ============================================================================
-- The text
-- ============================================================================

/-- The fields as the members of a document. -/
def fingerprintMembers (request : SubmitWorkflowRequest) (initialInput payload : Json) :
    List (String × Json) := [
  ("definition_id", .str request.definitionID),
  ("definition_version", .num (intNumber request.definitionVersion)),
  ("initial_node_id", .str request.initialNodeID),
  ("initial_input", initialInput),
  ("payload", payload)]

/-- Names that need no escape are written as they are. -/
theorem membersText_eq_join {ms : List (String × Json)}
    (h : ∀ m ∈ ms, marshalString m.1 = '"' :: m.1.toList ++ ['"']) :
    membersText (ms.map (Prod.map id marshalTree)) = joinMembers ms := by
  have hmember : ∀ m : String × Json, marshalString m.1 = '"' :: m.1.toList ++ ['"'] →
      (memberText m).2 = '"' :: m.1.toList ++ '"' :: ':' :: marshalTree m.2 := by
    intro m hm
    rw [memberText, hm]
    simp only [List.cons_append, List.append_assoc, List.nil_append]
  induction ms with
  | nil => rfl
  | cons m ms ih =>
      have hhead := hmember m (h m List.mem_cons_self)
      cases ms with
      | nil => rw [joinMembers, hhead]; rfl
      | cons m' ms =>
          rw [joinMembers, hhead, ← ih (fun l hl => h l (List.mem_cons_of_mem _ hl))]
          · rfl
          · exact List.cons_ne_nil _ _

theorem fingerprint_eq (request : SubmitWorkflowRequest) (v w : Json) :
    fingerprint request (marshalTree v) (marshalTree w) =
      '\x7b' :: joinMembers (fingerprintMembers request v w) := by
  have hnames : ∀ k ∈ ["definition_id", "definition_version", "initial_node_id", "initial_input", "payload"],
      marshalString k = '"' :: k.toList ++ ['"'] := by decide
  have hplain : ∀ m ∈ fingerprintMembers request v w, marshalString m.1 = '"' :: m.1.toList ++ ['"'] :=
    fun m hm => hnames m.1 (List.mem_map_of_mem (f := Prod.fst) hm)
  have hjoin := membersText_eq_join hplain
  rw [← hjoin]
  rfl

theorem intNumber_injective : Function.Injective intNumber := by
  intro i j h
  simp only [intNumber, JsonNumber.mk.injEq, decide_eq_decide, and_true] at h
  obtain ⟨hneg, habs⟩ := h
  omega

/-- The text reads back as the fields and the ordered documents. -/
theorem fingerprint_eq_iff {p q : SubmitWorkflowRequest} {v w v' w' : Json} :
    fingerprint p (marshalTree v) (marshalTree w) = fingerprint q (marshalTree v') (marshalTree w') ↔
      p.definitionID = q.definitionID ∧ p.definitionVersion = q.definitionVersion ∧
      p.initialNodeID = q.initialNodeID ∧ marshalTree v = marshalTree v' ∧ marshalTree w = marshalTree w' := by
  constructor
  · intro h
    rw [fingerprint_eq, fingerprint_eq, List.cons.injEq] at h
    have hread : ∀ (r : SubmitWorkflowRequest) (v w : Json),
        readMembers (joinMembers (fingerprintMembers r v w)).length (joinMembers (fingerprintMembers r v w)) =
          some ((fingerprintMembers r v w).map (Prod.map id ordered), []) := by
      intro r v w
      have hreads : ∀ m ∈ fingerprintMembers r v w, ReadsBack m.2 := fun m _ => readsBack m.2
      have hjoin := readMembers_join hreads (List.cons_ne_nil _ _) [] (Nat.le_refl _)
      rwa [List.append_nil] at hjoin
    have hmembers := (hread p v w).symm.trans (h.2 ▸ hread q v' w')
    simp only [fingerprintMembers, List.map_cons, List.map_nil, Prod.map_apply, id_eq, ordered,
      Option.some.injEq, Prod.mk.injEq, List.cons.injEq, JsonTree.str.injEq, JsonTree.num.injEq, true_and,
      and_true] at hmembers
    obtain ⟨hid, hversion, hnode, hinput, hpayload⟩ := hmembers
    refine ⟨hid, intNumber_injective hversion, hnode, ?_, ?_⟩
    · rw [← marshalTree_ordered v, hinput, marshalTree_ordered]
    · rw [← marshalTree_ordered w, hpayload, marshalTree_ordered]
  · rintro ⟨hid, hversion, hnode, hinput, hpayload⟩
    rw [fingerprint, fingerprint, hid, hversion, hnode, hinput, hpayload]

/-- Copying a canonical text into another one changes nothing. -/
theorem marshalRaw_marshalTree {v : Json} (hdepth : v.depth ≤ maxNestingDepth) :
    marshalRaw (marshalTree v) = .ok (marshalTree v) := by
  simp only [marshalRaw, readDocument_marshal]
  rw [if_pos (Nat.le_trans (depth_ordered v) hdepth), compactText_marshalTree]

/-- The text of a submission is put together from the values of its two documents. -/
theorem submissionText_eq_ok_iff {request : SubmitWorkflowRequest} {initialInput text : List Char} :
    submissionText request initialInput = .ok text ↔ ∃ v w,
      canonicalJSON initialInput "initial_input" = .ok (marshalTree v) ∧
      canonicalJSON request.payload "payload" = .ok (marshalTree w) ∧
      readDocument initialInput = some v ∧ readDocument request.payload = some w ∧
      text = fingerprint request (marshalTree v) (marshalTree w) := by
  constructor
  · intro h
    obtain ⟨input, hinput, h⟩ := bind_eq_ok.mp h
    obtain ⟨payload, hpayload, h⟩ := bind_eq_ok.mp h
    obtain ⟨v, hv, -, hvdepth, rfl⟩ := canonicalJSON_eq_ok_iff.mp hinput
    obtain ⟨w, hw, -, hwdepth, rfl⟩ := canonicalJSON_eq_ok_iff.mp hpayload
    rw [marshalRaw_marshalTree hvdepth, marshalRaw_marshalTree hwdepth] at h
    exact ⟨v, w, hinput, hpayload, hv, hw, (pure_eq_ok.mp h).symm⟩
  · rintro ⟨v, w, hinput, hpayload, hv, hw, rfl⟩
    obtain ⟨v', hv', -, hvdepth, -⟩ := canonicalJSON_eq_ok_iff.mp hinput
    obtain ⟨w', hw', -, hwdepth, -⟩ := canonicalJSON_eq_ok_iff.mp hpayload
    cases hv.symm.trans hv'
    cases hw.symm.trans hw'
    simp only [submissionText, hinput, hpayload, ok_bind, marshalRaw_marshalTree hvdepth,
      marshalRaw_marshalTree hwdepth]
    rfl

-- ============================================================================
-- Fingerprints
-- ============================================================================

/-- The texts are documents with the same value: the order of members and white space aside, numbers
    by their literals. -/
def SameDocument (s t : List Char) : Prop :=
  ∃ v w, readDocument s = some v ∧ readDocument t = some w ∧ v.denote id = w.denote id

/-- The submissions start the same workflow with the same documents. -/
structure SameSubmission (p q : SubmitWorkflowRequest) (input input' : List Char) : Prop where
  definitionID : p.definitionID = q.definitionID
  definitionVersion : p.definitionVersion = q.definitionVersion
  initialNodeID : p.initialNodeID = q.initialNodeID
  initialInput : SameDocument input input'
  payload : SameDocument p.payload q.payload

/-- The hash is the same for the two texts only if they are one text. -/
def Separates (s t : List Char) : Prop :=
  Sha256.hexSum (String.ofList s) = Sha256.hexSum (String.ofList t) → s = t

theorem submissionText_eq_iff {p q : SubmitWorkflowRequest} {input input' s t : List Char}
    (hp : submissionText p input = .ok s) (hq : submissionText q input' = .ok t) :
    s = t ↔ SameSubmission p q input input' := by
  obtain ⟨v, w, -, -, hv, hw, rfl⟩ := submissionText_eq_ok_iff.mp hp
  obtain ⟨v', w', -, -, hv', hw', rfl⟩ := submissionText_eq_ok_iff.mp hq
  rw [fingerprint_eq_iff, marshalTree_eq_iff, marshalTree_eq_iff]
  constructor
  · rintro ⟨hid, hversion, hnode, hinput, hpayload⟩
    exact ⟨hid, hversion, hnode, ⟨v, v', hv, hv', hinput⟩, ⟨w, w', hw, hw', hpayload⟩⟩
  · rintro ⟨hid, hversion, hnode, ⟨a, b, ha, hb, hinput⟩, ⟨c, d, hc, hd, hpayload⟩⟩
    cases hv.symm.trans ha
    cases hv'.symm.trans hb
    cases hw.symm.trans hc
    cases hw'.symm.trans hd
    exact ⟨hid, hversion, hnode, hinput, hpayload⟩

theorem canonicalSubmissionHash_eq_ok_iff {request : SubmitWorkflowRequest} {initialInput : List Char}
    {hash : String} : canonicalSubmissionHash request initialInput = .ok hash ↔
      ∃ text, submissionText request initialInput = .ok text ∧
        hash = submissionHashV1 ++ Sha256.hexSum (String.ofList text) := by
  rw [canonicalSubmissionHash, bind_eq_ok]
  constructor
  · rintro ⟨text, htext, h⟩
    exact ⟨text, htext, (pure_eq_ok.mp h).symm⟩
  · rintro ⟨text, htext, rfl⟩
    exact ⟨text, htext, rfl⟩

/-- A submission whose payload is `payload`. -/
def submissionOf (payload : String) : SubmitWorkflowRequest where
  workflowID := "w"
  «namespace» := "default"
  submissionKey := "k"
  payload := payload.toList
  definitionID := "d"
  definitionVersion := 1
  initialNodeID := "n"
  initialInput := "\x7b\x7d".toList
  actorID := "client"

/-- A submission with its members in one order, and in another with white space. -/
def submissionBA : SubmitWorkflowRequest := submissionOf "\x7b\"b\":1.0,\"a\":[]\x7d"
def submissionAB : SubmitWorkflowRequest := submissionOf "\x7b\"a\": [], \"b\": 1.0\x7d"

/-- Arrays inside one another. -/
def nestedArrays : Nat → Json
  | 0 => .arr []
  | n + 1 => .arr [nestedArrays n]

theorem nestedArrays_shape (n : Nat) : ordered (nestedArrays n) = nestedArrays n ∧
    uniqueNames (nestedArrays n) = true ∧ (nestedArrays n).depth = n + 1 := by
  induction n with
  | zero => exact ⟨rfl, rfl, rfl⟩
  | succ n ih =>
      obtain ⟨hordered, hunique, hdepth⟩ := ih
      simp only [nestedArrays, ordered, orderedList, uniqueNames, uniqueNamesList, depth, depthList, hordered,
        hunique, hdepth, Bool.and_true, Nat.max_zero, and_self]

end DurableEngine.Api
