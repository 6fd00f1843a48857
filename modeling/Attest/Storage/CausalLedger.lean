import Attest.Library.SelfDelimiting
import Attest.Library.Text
import Attest.Verify.Checks

/-! Causal events, as `storage/causal_ledger.rs` has them.

An event commits to what happened in a step and to the events it depended on: its content is
a digest over labelled fields, its id is the digest of that content, and the root of a chain
is the digest of the contents one after the other. So the root fixes the contents in their
order, and the contents fix the ids. The ledger's own directory and its queries are left
out. -/
namespace Attest.Storage
open Library
open Trust (Bytes Crates DateTime utf8 hexEncode)

structure CausalEvent where
  eventId : String
  stepName : String
  causalParents : List String
  inputHash : String
  outputHash : String
  timestamp : DateTime
  exitCode : Int
  pipelineHash : String
  environmentHash : String
  signerPublicKey : Option String
  signature : Option String
  metadata : List (String × String)
deriving DecidableEq

/-- `hashing::hash_field`: what one labelled field feeds to the hasher. -/
def hashField (label : String) (value : Bytes) : Bytes :=
  utf8 (toString label.utf8ByteSize) ++ utf8 ":" ++ utf8 label ++ utf8 ":" ++
    utf8 (toString value.length) ++ utf8 ":" ++ value ++ utf8 "\n"

/-- The fields an event's identity commits to, in order. -/
def eventFields (event : CausalEvent) : List (String × Bytes) :=
  [("domain", utf8 "attest-causal-event/v2"),
    ("step", utf8 event.stepName),
    ("input", utf8 event.inputHash),
    ("output", utf8 event.outputHash),
    ("pipeline", utf8 event.pipelineHash),
    ("environment", utf8 event.environmentHash),
    ("exit", utf8 (toString event.exitCode)),
    ("timestamp", utf8 event.timestamp.toRfc3339),
    ("parents", utf8 (toString event.causalParents.length))] ++
  event.causalParents.map fun parent => ("parent", utf8 parent)

section Hashing
variable (c : Crates)

def eventContent (event : CausalEvent) : Bytes :=
  (c.blake3 ((eventFields event).flatMap fun field => hashField field.1 field.2)).toList

/-- The id an event's content implies, whatever id it carries. -/
def eventIdOf (event : CausalEvent) : String :=
  hexEncode (c.blake3 (eventContent c event)).toList

def eventIdIsAuthentic (event : CausalEvent) : Bool :=
  event.eventId == eventIdOf c event

/-- A compact JSON object of fields whose values are written already. -/
def objectText (fields : List (String × String)) : String :=
  "\x7b" ++ ",".intercalate (fields.map fun field => Json.quote field.1 ++ ":" ++ field.2) ++ "\x7d"

/-- The text an event's signature covers; `json!` sorts the fields. -/
def eventSigningData (event : CausalEvent) : String :=
  objectText
    [("causal_parents", Json.compact (.array (event.causalParents.map .text))),
      ("environment_hash", Json.quote event.environmentHash),
      ("event_id", Json.quote event.eventId),
      ("exit_code", toString event.exitCode),
      ("input_hash", Json.quote event.inputHash),
      ("output_hash", Json.quote event.outputHash),
      ("pipeline_hash", Json.quote event.pipelineHash),
      ("step_name", Json.quote event.stepName),
      ("timestamp", Json.quote event.timestamp.toRfc3339)]

/-- Whether a signature that is there holds. One without a key does not. -/
def eventSignatureHolds (event : CausalEvent) : Option Bool :=
  match event.signature with
  | none => none
  | some signature =>
    match event.signerPublicKey with
    | none => some false
    | some publicKey =>
      match Verify.verifyWithPublicKey c publicKey (utf8 (eventSigningData event)) signature with
      | .ok holds => some holds
      | .error _ => some false

/-- What the root of a chain is the digest of. -/
def chainBytes (events : List CausalEvent) : Bytes := events.flatMap (eventContent c)

def chainHash (events : List CausalEvent) : String :=
  hexEncode (c.blake3 (chainBytes c events)).toList

end Hashing

section Facts
variable {c : Crates} {events events' : List CausalEvent} {event : CausalEvent}

theorem eventSignatureHolds_of_verifies {signature publicKey : String}
    (hsignature : event.signature = some signature) (hkey : event.signerPublicKey = some publicKey)
    (h : Verify.verifyWithPublicKey c publicKey (utf8 (eventSigningData event)) signature = .ok true) :
    eventSignatureHolds c event = some true := by
  simp only [eventSignatureHolds, hsignature, hkey, h]

theorem length_eventContent : (eventContent c event).length = 32 := by
  rw [eventContent, Vector.length_toList]

theorem eventIdIsAuthentic_iff :
    eventIdIsAuthentic c event = true ↔ event.eventId = eventIdOf c event := by
  rw [eventIdIsAuthentic, beq_iff_eq]

/-- Equally many contents in a row are told apart: each has 32 bytes. -/
theorem map_eventContent_of_chainBytes (hlength : events.length = events'.length)
    (h : chainBytes c events = chainBytes c events') :
    events.map (eventContent c) = events'.map (eventContent c) := by
  induction events generalizing events' with
  | nil =>
    rw [List.length_nil, eq_comm, List.length_eq_zero_iff] at hlength
    rw [hlength]
  | cons event rest ih =>
    cases events' with
    | nil => cases hlength
    | cons event' rest' =>
      simp only [chainBytes, List.flatMap_cons] at h ih
      have hsplit := List.append_inj h (length_eventContent.trans length_eventContent.symm)
      rw [List.map_cons, List.map_cons, hsplit.1, ih (Nat.succ.inj hlength) hsplit.2]

/-- The contents give the ids. -/
theorem map_eventIdOf_of_chainBytes (hlength : events.length = events'.length)
    (h : chainBytes c events = chainBytes c events') :
    events.map (eventIdOf c) = events'.map (eventIdOf c) := by
  have hcontent := map_eventContent_of_chainBytes hlength h
  have hid : ∀ events : List CausalEvent, events.map (eventIdOf c) =
      (events.map (eventContent c)).map fun content => hexEncode (c.blake3 content).toList := by
    intro events
    rw [List.map_map]
    rfl
  rw [hid, hid, hcontent]

/-- A root names one digest. -/
theorem chainBytes_of_chainHash
    (hcollision : Set.InjOn c.blake3 {chainBytes c events, chainBytes c events'})
    (h : chainHash c events = chainHash c events') :
    chainBytes c events = chainBytes c events' := by
  refine hcollision (Set.mem_insert _ _) (Set.mem_insert_of_mem _ (Set.mem_singleton _)) ?_
  exact Vector.toList_inj.mp (Trust.hexEncode_injective h)

end Facts

/-! ### Fields are told apart -/

/-- No digit is a colon. -/
theorem colon_notMem_digits (n : Nat) : (58 : UInt8) ∉ utf8 (toString n) :=
  Trust.notMem_utf8_toString (by decide) n

/-- A field is read off the front of what follows its label. -/
theorem hashField_append_inj {label : String} {value value' rest rest' : Bytes}
    (h : hashField label value ++ rest = hashField label value' ++ rest') :
    value = value' ∧ rest = rest' := by
  have hcolon : ∀ bytes, utf8 ":" ++ bytes = 58 :: bytes := by
    have hbyte : utf8 ":" = [58] := by decide +kernel
    intro bytes
    rw [hbyte]
    rfl
  simp only [hashField, List.append_assoc, List.append_cancel_left_eq] at h
  rw [hcolon, hcolon] at h
  obtain ⟨hlength, h⟩ := append_cons_inj (colon_notMem_digits _) (colon_notMem_digits _) h
  obtain ⟨hvalue, h⟩ := List.append_inj h (Text.toString_nat_inj (Trust.utf8_injective hlength))
  exact ⟨hvalue, List.append_cancel_left h⟩

end Attest.Storage
