import Attest.Archive.Verification

/-! The causal proofs of release evidence, as `evidence/proofs.rs` assesses them.

Unlike an archive's linkage this reads each listed event by its path, refuses fields that
nothing authenticates, and holds every event to the id it is listed under, to ids listed once
and to parents that are listed. -/
namespace Attest.Evidence
open Library Library.Fallible Storage Verify Archive
open Trust (Bytes Crates)

/-- `fields`: an object with no other keys. -/
def fields (value : EventValue) (allowed : List String) : Except String Unit :=
  match value.keys with
  | none => .error "proof must be an object"
  | some keys =>
    refuseIf (¬ ∀ key ∈ keys, key ∈ allowed) "proof contains an unauthenticated unknown field"

def eventKeys : List String :=
  ["event_id", "step_name", "causal_parents", "input_hash", "output_hash", "timestamp", "exit_code",
    "pipeline_hash", "environment_hash", "signer_public_key", "signature", "metadata"]

def eventPath (id : String) : String := "events/" ++ id ++ ".json"

section Assess
variable (c : Crates) (codec : ArchiveCodec)

def event (bytes : Bytes) : Except String CausalEvent := do
  let value ← codec.value bytes
  fields value eventKeys
  value.event.mapError fun err => s!"invalid causal event: {err}"

def digest (value : String) : Except String Unit :=
  refuseIf (isDigest value = false) "invalid proof reference digest"

/-- What one event in the files is held to. -/
def examine (expected : List String) (id : String) (bytes : Bytes) : Except String CausalEvent := do
  let event ← event codec bytes
  refuseIf (event.metadata ≠ []) "causal proof contains unauthenticated metadata"
  refuseIf (event.eventId ≠ id) "causal entry name differs from event identity"
  refuseIf (eventIdIsAuthentic c event = false) "causal event content differs from its identity"
  refuseIf (eventSignatureHolds c event = some false) "invalid causal event signature"
  refuseIf (¬ ∀ parent ∈ event.causalParents, parent ∈ expected)
    "causal event refers to an unrecorded parent"
  return event

/-- The loop over the listed ids: those without a file, and the events of the others. -/
def assessEvents (files : String → Option Bytes) (expected : List String) (missing : List String)
    (events : List (String × CausalEvent)) :
    List String → Except String (List String × List (String × CausalEvent))
  | [] => .ok (missing, events)
  | id :: rest => do
    digest id
    match files (eventPath id) with
    | none => assessEvents files expected (missing ++ [id]) events rest
    | some bytes =>
      let event ← examine c codec expected id bytes
      assessEvents files expected missing (events ++ [(id, event)]) rest

/-- The causal part of `assess`: nothing, what is missing, or why it is refused. -/
def assessCausal (receipt : Receipt) (files : String → Option Bytes) :
    Except String (Option String) := do
  refuseIf (¬ receipt.causalEvents.Nodup) "duplicate causal references"
  if receipt.causalEvents = [] then
    refuseIf (receipt.causalChainHash ≠ none) "causal chain root has no event references"
    return none
  else
    let (missing, events) ←
      assessEvents c codec files receipt.causalEvents [] [] receipt.causalEvents
    if missing ≠ [] then
      return some ("incomplete causal evidence; missing events: " ++ ", ".intercalate missing)
    else
      refuseIf ((chainLinkage c receipt (lookupLast events) false).status ≠ .pass)
        (chainLinkage c receipt (lookupLast events) false).detail
      return none

def result (name : String) : Except String (Option String) → Check
  | .ok none =>
    ⟨name, .pass, "all referenced proofs are present and bound to the signed receipt"⟩
  | .ok (some detail) => ⟨name, .skipped, detail⟩
  | .error err => ⟨name, .fail, err⟩

/-- The second check of `assess`. -/
def causalCheck (receipt : Receipt) (files : String → Option Bytes) : Check :=
  result "chain-linkage" (assessCausal c codec receipt files)

end Assess

end Attest.Evidence
