/-
  DurableEngine.Api.Requests

  Request bodies, after `decodeJSON` of `internal/api/server.go`.

  A body is walked for repeated member names and then decoded into the fields
  of a request.  The walk compares names as they are spelled; the decoder
  takes a name for a field when the two agree up to letter case, and a later
  member overwrites an earlier one.
-/

import DurableEngine.Api.Documents
import DurableEngine.Lib.Unmarshal
import DurableEngine.State.Statements

namespace DurableEngine.Api

open Lib JsonTree State

-- ============================================================================
-- Requests
-- ============================================================================

/-- The type of a field; an integer has `bits` bits. -/
inductive FieldKind where
  | string
  | int (bits : Nat)
  | raw
  | time
  | bytes
deriving DecidableEq, Repr

structure Field where
  name : String
  kind : FieldKind
deriving DecidableEq, Repr

/-- A request struct: no two fields have the same name up to case. -/
structure RequestType where
  fields : List Field
  distinct : (fields.map (fun f => foldName f.name)).Nodup

/-- `leaseRequest`, embedded in the requests of a partition's owner. -/
def leaseRequest : List Field := [⟨"partition_id", .int 16⟩, ⟨"owner_id", .string⟩, ⟨"epoch", .int 64⟩]

def submitWorkflowRequest : RequestType where
  fields := [⟨"workflow_id", .string⟩, ⟨"namespace", .string⟩, ⟨"submission_key", .string⟩,
    ⟨"payload", .raw⟩, ⟨"definition_id", .string⟩, ⟨"definition_version", .int 64⟩,
    ⟨"initial_node_id", .string⟩, ⟨"initial_input", .raw⟩, ⟨"actor_id", .string⟩]
  distinct := by decide +kernel

def claimAttemptRequest : RequestType where
  fields := [⟨"expected_attempt", .int 64⟩, ⟨"worker_id", .string⟩, ⟨"request_id", .string⟩,
    ⟨"attempt_lease_ms", .int 64⟩]
  distinct := by decide +kernel

def heartbeatRequest : RequestType where
  fields := [⟨"attempt_number", .int 64⟩, ⟨"claim_token", .string⟩, ⟨"extension_ms", .int 64⟩]
  distinct := by decide +kernel

def resultRequest : RequestType where
  fields := [⟨"attempt_number", .int 64⟩, ⟨"claim_token", .string⟩, ⟨"attempt_state", .string⟩,
    ⟨"payload", .raw⟩, ⟨"event_type", .string⟩, ⟨"reconciliation_ref", .string⟩]
  distinct := by decide +kernel

def approvalRequest : RequestType where
  fields := leaseRequest ++ [⟨"expected_revision", .int 64⟩, ⟨"target", .string⟩,
    ⟨"canonical_arguments", .raw⟩, ⟨"expected_resource_revision", .string⟩, ⟨"valid_until", .time⟩,
    ⟨"actor_id", .string⟩]
  distinct := by decide +kernel

def approvalDecisionRequest : RequestType where
  fields := [⟨"approver_id", .string⟩, ⟨"proposal_hash", .string⟩, ⟨"decision", .string⟩,
    ⟨"decision_reason", .string⟩]
  distinct := by decide +kernel

def applyApprovalRequest : RequestType where
  fields := leaseRequest ++ [⟨"workflow_id", .string⟩, ⟨"node_id", .string⟩, ⟨"iteration", .int 64⟩,
    ⟨"expected_revision", .int 64⟩, ⟨"intent_id", .string⟩, ⟨"logical_effect_key", .string⟩,
    ⟨"actor_id", .string⟩]
  distinct := by decide +kernel

def cancellationRequest : RequestType where
  fields := [⟨"client_key", .string⟩, ⟨"observed_revision", .int 64⟩]
  distinct := by decide +kernel

def applyCancellationRequest : RequestType where
  fields := leaseRequest ++ [⟨"actor_id", .string⟩]
  distinct := by decide +kernel

/-- The request of `workerDelivery`. -/
def workerDeliveryRequest : RequestType where
  fields := [⟨"event_id", .string⟩, ⟨"topic", .string⟩, ⟨"partition", .int 64⟩, ⟨"offset", .int 64⟩,
    ⟨"event_type", .string⟩, ⟨"schema_version", .int 64⟩, ⟨"payload", .bytes⟩]
  distinct := by decide +kernel

-- ============================================================================
-- Decoding
-- ============================================================================

/-- The value of a field. -/
inductive FieldValue where
  | string (s : String)
  | int (i : Int)
  | raw (document : Option Json)
  | time (t : Int)
  | bytes (bs : List Nat)
deriving Repr

def FieldKind.zero : FieldKind → FieldValue
  | .string => .string ""
  | .int _ => .int 0
  | .raw => .raw none
  | .time => .time 0
  | .bytes => .bytes []

/-- What `encoding/json` makes of a timestamp and of base64 text. -/
structure Codec where
  time : Json → Option Int
  bytes : Json → Option (List Nat)

/-- Store a value into a field that holds `old`; `null` leaves all but a document and bytes. -/
def FieldKind.store (codec : Codec) (kind : FieldKind) (old : FieldValue) (v : Json) : Option FieldValue :=
  match kind, v with
  | .raw, v => some (.raw (some v))
  | .bytes, .null => some (.bytes [])
  | .bytes, v => (codec.bytes v).map .bytes
  | _, .null => some old
  | .string, .str s => some (.string s)
  | .int bits, .num n =>
      match n.toInt? with
      | some i => if -(2 ^ (bits - 1)) ≤ i ∧ i < 2 ^ (bits - 1) then some (.int i) else none
      | none => none
  | .time, v => (codec.time v).map .time
  | _, _ => none

/-- The field a member is decoded into: of the name itself, or else of its name up to case. -/
def RequestType.lookup (T : RequestType) (name : String) : Option Field :=
  (T.fields.find? (fun f => f.name = name)).or
    (T.fields.find? (fun f => foldName f.name = foldName name))

/-- The fields of a request by their names. -/
abbrev Target := String → FieldValue

/-- The request before anything was decoded into it. -/
def RequestType.zero (T : RequestType) : Target := fun name =>
  match T.fields.find? (fun f => f.name = name) with
  | some f => f.kind.zero
  | none => .raw none

/-- Decode one member, with `DisallowUnknownFields`. -/
def RequestType.storeMember (codec : Codec) (T : RequestType) (target : Target) (m : String × Json) :
    Except ValueError Target :=
  match T.lookup m.1 with
  | none => .error (.text ("json: unknown field " ++ quote m.1))
  | some f =>
      match f.kind.store codec (target f.name) m.2 with
      | none => .error (.text ("json: cannot unmarshal into Go struct field " ++ f.name))
      | some x => .ok (Function.update target f.name x)

/-- `Decode` into a request. -/
def RequestType.decode (codec : Codec) (T : RequestType) (v : Json) : Except ValueError Target :=
  match structMembers v with
  | none => .error (.text "json: cannot unmarshal into Go value")
  | some ms => ms.foldlM (T.storeMember codec) T.zero

/-- `Decode`: the next value of a text, and what follows it. -/
def decodeNext (raw : List Char) : Except ValueError (Json × List Char) :=
  if skipSpace raw = [] then .error (.decoder .eof)
  else
    match readValue (raw.length + 1) raw with
    | some (v, rest) =>
        if v.depth ≤ maxNestingDepth then .ok (v, rest) else .error (.text "exceeded max depth")
    | none => .error (.decoder .malformed)

def maxRequestBytes : Nat := 2 * 2 ^ 20

/-- Why a request body is refused. -/
inductive BodyError where
  | message (text : String)
  | document (text : String) (cause : DocumentError)
  | value (text : String) (cause : ValueError)
deriving DecidableEq, Repr

/-- `decodeJSON`. -/
def decodeJSON (codec : Codec) (T : RequestType) (body : List Char) : Except BodyError Target := do
  rejectIf (maxRequestBytes < (String.ofList body).utf8ByteSize)
    (.message "invalid request body: http: request body too large")
  rejectIf (body.all isSpace = true) (.message "request body is required")
  (validateJSONDocument body).mapError (.document "invalid JSON")
  let (v, rest) ← (decodeNext body).mapError (.value "invalid JSON")
  let target ← (T.decode codec v).mapError (.value "invalid JSON")
  match decodeNext rest with
  | .error (.decoder .eof) => pure target
  | .ok _ => throw (.message "request body must contain one JSON value")
  | .error e => throw (.value "invalid trailing JSON" e)

-- ============================================================================
-- Fields
-- ============================================================================

/-- The members of a body. -/
def bodyMembers (v : Json) : List (String × Json) := (structMembers v).getD []

/-- A name is decoded into a field when the two agree up to case. -/
theorem RequestType.lookup_eq_some_iff {T : RequestType} {name : String} {f : Field} :
    T.lookup name = some f ↔ f ∈ T.fields ∧ foldName name = foldName f.name := by
  have hinj : ∀ g ∈ T.fields, ∀ h ∈ T.fields, foldName g.name = foldName h.name → g = h :=
    fun g hg h hh heq => List.inj_on_of_nodup_map T.distinct hg hh heq
  unfold RequestType.lookup
  rw [Option.or_eq_some_iff]
  constructor
  · rintro (h | ⟨-, h⟩)
    · have hname := List.find?_some h
      exact ⟨List.mem_of_find?_eq_some h, congrArg foldName (of_decide_eq_true hname).symm⟩
    · have hname := List.find?_some h
      exact ⟨List.mem_of_find?_eq_some h, (of_decide_eq_true hname).symm⟩
  · rintro ⟨hmem, hname⟩
    have hunique : ∀ (p : Field → Bool) (g : Field), (∀ h, p h = true → foldName h.name = foldName name) →
        T.fields.find? p = some g → g = f := by
      intro p g hp hfind
      exact hinj g (List.mem_of_find?_eq_some hfind) f hmem ((hp g (List.find?_some hfind)).trans hname)
    cases hexact : T.fields.find? (fun g => g.name = name) with
    | some g =>
        left
        rw [hunique _ g (fun h hh => congrArg foldName (of_decide_eq_true hh)) hexact]
    | none =>
        refine .inr ⟨rfl, ?_⟩
        cases hfold : T.fields.find? (fun g => foldName g.name = foldName name) with
        | some g => rw [hunique _ g (fun h hh => of_decide_eq_true hh) hfold]
        | none =>
            have hnone := List.find?_eq_none.mp hfold f hmem
            exact absurd (decide_eq_true hname.symm) hnone

theorem foldlM_storeMember_known {codec : Codec} {T : RequestType} {ms : List (String × Json)}
    {target target' : Target} (h : ms.foldlM (T.storeMember codec) target = .ok target') :
    ∀ m ∈ ms, ∃ f, T.lookup m.1 = some f := by
  induction ms generalizing target with
  | nil => exact fun _ hm => absurd hm List.not_mem_nil
  | cons m ms ih =>
      rw [List.foldlM_cons] at h
      obtain ⟨next, hstore, h⟩ := bind_eq_ok.mp h
      intro m' hm'
      obtain rfl | hm' := List.mem_cons.mp hm'
      · unfold RequestType.storeMember at hstore
        split at hstore
        · cases hstore
        · rename_i f hf
          exact ⟨f, hf⟩
      · exact ih h m' hm'

theorem RequestType.name_inj {T : RequestType} {f g : Field} (hf : f ∈ T.fields) (hg : g ∈ T.fields)
    (h : f.name = g.name) : f = g :=
  List.inj_on_of_nodup_map T.distinct hf hg (congrArg foldName h)

theorem RequestType.zero_field {T : RequestType} {f : Field} (hf : f ∈ T.fields) : T.zero f.name = f.kind.zero := by
  unfold RequestType.zero
  cases hfind : T.fields.find? (fun g => g.name = f.name) with
  | none => exact absurd (decide_eq_true rfl) (List.find?_eq_none.mp hfind f hf)
  | some g =>
      have hname := List.find?_some hfind
      rw [T.name_inj (List.mem_of_find?_eq_some hfind) hf (of_decide_eq_true hname)]

/-- A member is stored into its field, and no other field changes. -/
theorem RequestType.storeMember_eq_ok {codec : Codec} {T : RequestType} {target target' : Target}
    {m : String × Json} (h : T.storeMember codec target m = .ok target') :
    ∃ f, T.lookup m.1 = some f ∧ f.kind.store codec (target f.name) m.2 = some (target' f.name) ∧
      ∀ g ∈ T.fields, g ≠ f → target' g.name = target g.name := by
  unfold RequestType.storeMember at h
  split at h
  · cases h
  · rename_i f hf
    split at h
    · cases h
    · rename_i x hx
      cases h
      refine ⟨f, hf, by rw [Function.update_self]; exact hx, fun g hg hne => ?_⟩
      refine Function.update_of_ne (fun hname => hne ?_) _ _
      exact T.name_inj hg (T.lookup_eq_some_iff.mp hf).1 hname

/-- A field keeps its value when no member is decoded into it. -/
theorem RequestType.foldlM_other {codec : Codec} {T : RequestType} {ms : List (String × Json)}
    {target target' : Target} (h : ms.foldlM (T.storeMember codec) target = .ok target') {f : Field}
    (hf : f ∈ T.fields) (hnone : ∀ m ∈ ms, foldName m.1 ≠ foldName f.name) : target' f.name = target f.name := by
  induction ms generalizing target with
  | nil =>
      cases pure_eq_ok.mp h
      rfl
  | cons m ms ih =>
      rw [List.foldlM_cons] at h
      obtain ⟨next, hstore, h⟩ := bind_eq_ok.mp h
      obtain ⟨g, hg, -, hothers⟩ := T.storeMember_eq_ok hstore
      rw [ih h (fun l hl => hnone l (List.mem_cons_of_mem _ hl))]
      refine hothers f hf ?_
      rintro rfl
      exact hnone m List.mem_cons_self (T.lookup_eq_some_iff.mp hg).2

/-- The only member for a field gives it its value. -/
theorem RequestType.foldlM_single {codec : Codec} {T : RequestType} {ms : List (String × Json)}
    {target target' : Target} (h : ms.foldlM (T.storeMember codec) target = .ok target')
    (hnodup : (ms.map (fun m => foldName m.1)).Nodup) {m : String × Json} (hm : m ∈ ms) {f : Field}
    (hf : T.lookup m.1 = some f) : f.kind.store codec (target f.name) m.2 = some (target' f.name) := by
  obtain ⟨hmem, hname⟩ := T.lookup_eq_some_iff.mp hf
  induction ms generalizing target with
  | nil => cases hm
  | cons l ms ih =>
      rw [List.foldlM_cons] at h
      obtain ⟨next, hstore, hrest⟩ := bind_eq_ok.mp h
      obtain ⟨g, hg, hvalue, hothers⟩ := T.storeMember_eq_ok hstore
      rw [List.map_cons, List.nodup_cons] at hnodup
      obtain rfl | hm := List.mem_cons.mp hm
      · cases hf.symm.trans hg
        have hlater : target' f.name = next f.name := by
          refine T.foldlM_other hrest hmem (fun k hk hsame => hnodup.1 ?_)
          rw [hname, ← hsame]
          exact List.mem_map_of_mem (f := fun m => foldName m.1) hk
        rw [hvalue, hlater]
      · have hother : f ≠ g := by
          rintro rfl
          have hfold := (T.lookup_eq_some_iff.mp hg).2
          refine hnodup.1 ?_
          rw [hfold, ← hname]
          exact List.mem_map_of_mem (f := fun m => foldName m.1) hm
        rw [← hothers f hmem hother]
        exact ih hrest hnodup.2 hm

-- ============================================================================
-- One member per field
-- ============================================================================

/-- Each field is set by at most one member. -/
def OneMemberPerField (T : RequestType) (ms : List (String × Json)) : Prop :=
  ∀ f ∈ T.fields, ms.countP (fun m => T.lookup m.1 = some f) ≤ 1

/-- The value under the name of a field is the value that is used. -/
def ReadAsNamed (codec : Codec) (T : RequestType) (ms : List (String × Json)) (target : Target) : Prop :=
  ∀ f ∈ T.fields, ∀ x, (f.name, x) ∈ ms → f.kind.store codec f.kind.zero x = some (target f.name)

theorem decodeJSON_eq_ok {codec : Codec} {T : RequestType} {body : List Char} {target : Target}
    (h : decodeJSON codec T body = .ok target) :
    ∃ v, readDocument body = some v ∧ uniqueNames v = true ∧ T.decode codec v = .ok target := by
  obtain ⟨-, -, h⟩ := bind_eq_ok.mp h
  obtain ⟨-, -, h⟩ := bind_eq_ok.mp h
  obtain ⟨u, hvalid, h⟩ := bind_eq_ok.mp h
  obtain ⟨⟨w, rest⟩, hnext, h⟩ := bind_eq_ok.mp h
  obtain ⟨target', hdecode, h⟩ := bind_eq_ok.mp h
  obtain ⟨v, hdoc, hv⟩ := validateDocument_eq_ok_iff.mp (mapError_eq_ok.mp hvalid)
  have htarget : target' = target := by
    split at h
    · exact pure_eq_ok.mp h
    · cases h
    · cases h
  obtain ⟨rest', hreads, -⟩ := readDocument_eq_some_iff.mp hdoc
  have hvalue : w = v := by
    have hnext := mapError_eq_ok.mp hnext
    rw [decodeNext, if_neg (Decoder.reads_ne_nil hreads), hreads.at (by omega)] at hnext
    dsimp only at hnext
    split at hnext
    · cases hnext
      rfl
    · cases hnext
  rw [← hvalue] at hdoc hv
  exact ⟨w, hdoc, hv, htarget ▸ mapError_eq_ok.mp hdecode⟩

/-- A body is accepted when it is one document, not too large nor too deep, whose members fit the request. -/
theorem decodeJSON_eq_ok_iff {codec : Codec} {T : RequestType} {body : List Char} {target : Target} :
    decodeJSON codec T body = .ok target ↔ (String.ofList body).utf8ByteSize ≤ maxRequestBytes ∧
      body.all isSpace = false ∧ ∃ v, readDocument body = some v ∧ uniqueNames v = true ∧
        v.depth ≤ maxNestingDepth ∧ T.decode codec v = .ok target := by
  constructor
  · intro h
    obtain ⟨v, hdoc, hv, hdecode⟩ := decodeJSON_eq_ok h
    obtain ⟨_, hsize, h⟩ := bind_eq_ok.mp h
    obtain ⟨_, hblank, h⟩ := bind_eq_ok.mp h
    obtain ⟨_, -, h⟩ := bind_eq_ok.mp h
    obtain ⟨⟨w, rest⟩, hnext, -⟩ := bind_eq_ok.mp h
    refine ⟨Nat.not_lt.mp (rejectIf_eq_ok.mp hsize), Bool.eq_false_iff.mpr (rejectIf_eq_ok.mp hblank), v, hdoc, hv,
      ?_, hdecode⟩
    obtain ⟨rest', hreads, -⟩ := readDocument_eq_some_iff.mp hdoc
    have hnext := mapError_eq_ok.mp hnext
    rw [decodeNext, if_neg (Decoder.reads_ne_nil hreads), hreads.at (by omega)] at hnext
    dsimp only at hnext
    split at hnext
    · rename_i hdepth
      exact hdepth
    · cases hnext
  · rintro ⟨hsize, hblank, v, hdoc, hv, hdepth, hdecode⟩
    obtain ⟨rest, hreads, hspace⟩ := readDocument_eq_some_iff.mp hdoc
    have hvalid : validateJSONDocument body = .ok () := validateDocument_eq_ok_iff.mpr ⟨v, hdoc, hv⟩
    have hnext : decodeNext body = .ok (v, rest) := by
      rw [decodeNext, if_neg (Decoder.reads_ne_nil hreads), hreads.at (by omega)]
      exact if_pos hdepth
    have hend : decodeNext rest = .error (.decoder .eof) := if_pos hspace
    rw [decodeJSON, rejectIf_of_not _ (Nat.not_lt.mpr hsize), ok_bind,
      rejectIf_of_not _ (by rw [hblank]; decide), ok_bind, hvalid, hnext]
    simp only [Except.mapError, ok_bind, hdecode, hend]
    rfl

/-- In an accepted body each field is set by at most one member, and the value under a field's name is
    the one that is used, exactly when no two names of the body agree up to letter case. -/
theorem one_member_per_field {codec : Codec} {T : RequestType} {body : List Char} {target : Target}
    (h : decodeJSON codec T body = .ok target) :
    ∃ v, readDocument body = some v ∧
      ((OneMemberPerField T (bodyMembers v) ∧ ReadAsNamed codec T (bodyMembers v) target) ↔
        ((bodyMembers v).map (fun m => foldName m.1)).Nodup) := by
  obtain ⟨v, hdoc, -, hdecode⟩ := decodeJSON_eq_ok h
  refine ⟨v, hdoc, ?_⟩
  have hfold : (bodyMembers v).foldlM (T.storeMember codec) T.zero = .ok target := by
    unfold RequestType.decode at hdecode
    split at hdecode
    · cases hdecode
    · rename_i ms hms
      rw [bodyMembers, hms]
      exact hdecode
  have hknown := foldlM_storeMember_known hfold
  -- the members of a field are those whose names agree with it up to case
  have hcount : ∀ f ∈ T.fields, (bodyMembers v).countP (fun m => T.lookup m.1 = some f) =
      ((bodyMembers v).map (fun m => foldName m.1)).count (foldName f.name) := by
    intro f hf
    rw [List.count, List.countP_map]
    refine List.countP_congr (fun m _ => ?_)
    simp only [Function.comp_apply, decide_eq_true_eq, beq_iff_eq, T.lookup_eq_some_iff, hf, true_and]
  constructor
  · rintro ⟨hone, -⟩
    refine List.nodup_iff_count_le_one.mpr (fun name => ?_)
    by_cases hmem : name ∈ (bodyMembers v).map (fun m => foldName m.1)
    · obtain ⟨m, hm, rfl⟩ := List.mem_map.mp hmem
      obtain ⟨f, hf⟩ := hknown m hm
      obtain ⟨hmem, hname⟩ := T.lookup_eq_some_iff.mp hf
      rw [hname, ← hcount f hmem]
      exact hone f hmem
    · rw [List.count_eq_zero.mpr hmem]
      exact Nat.zero_le 1
  · intro hnodup
    refine ⟨fun f hf => ?_, fun f hf x hx => ?_⟩
    · rw [hcount f hf]
      exact List.nodup_iff_count_le_one.mp hnodup _
    · rw [← T.zero_field hf]
      exact T.foldlM_single hfold hnodup hx (T.lookup_eq_some_iff.mpr ⟨hf, rfl⟩)

/-- A codec that reads neither timestamps nor bytes. -/
def plainCodec : Codec := ⟨fun _ => none, fun _ => none⟩

theorem one_member_per_field_claim :
    ∃ target, decodeJSON plainCodec claimAttemptRequest
        "\x7b\"worker_id\":\"w\",\"request_id\":\"r\"\x7d".toList = .ok target ∧
      ∃ v, readDocument "\x7b\"worker_id\":\"w\",\"request_id\":\"r\"\x7d".toList = some v ∧
        ((OneMemberPerField claimAttemptRequest (bodyMembers v) ∧
          ReadAsNamed plainCodec claimAttemptRequest (bodyMembers v) target) ↔
            ((bodyMembers v).map (fun m => foldName m.1)).Nodup) := by
  have hok : (decodeJSON plainCodec claimAttemptRequest
      "\x7b\"worker_id\":\"w\",\"request_id\":\"r\"\x7d".toList).toBool = true := by decide +kernel
  cases h : decodeJSON plainCodec claimAttemptRequest
      "\x7b\"worker_id\":\"w\",\"request_id\":\"r\"\x7d".toList with
  | error e =>
      rw [h] at hok
      cases hok
  | ok target => exact ⟨target, rfl, one_member_per_field h⟩

/-- The identity under the documented name is not the one that is used. -/
theorem cased_member_overwrites :
    (decodeJSON plainCodec claimAttemptRequest
        "\x7b\"worker_id\":\"a\",\"Worker_ID\":\"b\",\"request_id\":\"r\"\x7d".toList).map
          (fun target => match target "worker_id" with | .string s => s | _ => "") = .ok "b" ∧
    ∃ v, readDocument "\x7b\"worker_id\":\"a\",\"Worker_ID\":\"b\",\"request_id\":\"r\"\x7d".toList = some v ∧
      ("worker_id", .str "a") ∈ bodyMembers v ∧ ¬ OneMemberPerField claimAttemptRequest (bodyMembers v) := by
  refine ⟨by decide +kernel, .obj [("worker_id", .str "a"), ("Worker_ID", .str "b"), ("request_id", .str "r")],
    by decide +kernel, List.mem_cons_self, fun hone => ?_⟩
  exact absurd (hone ⟨"worker_id", .string⟩ (by decide)) (by decide +kernel)

end DurableEngine.Api
