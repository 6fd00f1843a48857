import Attest.Archive.Verification

/-! Exporting a receipt as an archive, as `export_archive` does.

The events a receipt lists are read from the ledger beside it, by their ids. A listed id with
no file is a gap, and a gap stops the export unless a partial archive was asked for. -/
namespace Attest.Archive
open Library.Fallible Storage
open Trust (Bytes)

inductive ExportOutcome where
  | written (isPartial : Bool)
  | incompleteChain (missing : List String)
deriving DecidableEq

/-- What an export takes from `serde`, from the key format and from `tar`. -/
structure Exporter where
  /-- `serde_yaml::from_slice::<Receipt>`. -/
  readReceipt : Bytes → Except String Receipt
  /-- `public_key_pem_from_hex`: the id of a key and its text. -/
  publicKeyPem : String → Except String (String × Bytes)
  /-- The manifest of a receipt, partial or not. -/
  manifestBytes : Receipt → Bool → Bytes
  writeArchive : List ArchiveEntry → Except String Unit

section Export
variable (x : Exporter) (files : String → Option Bytes)

/-- The files of the listed events. -/
def eventEntries (receipt : Receipt) : List ArchiveEntry :=
  receipt.causalEvents.filterMap fun id =>
    (files id).map fun bytes => ⟨"events/" ++ id ++ ".json", bytes⟩

def missingFiles (receipt : Receipt) : List String :=
  receipt.causalEvents.filter fun id => (files id).isNone

/-- The keys of the receipt and of what in the events reads as one, each once. -/
def signerKeys (receipt : Receipt) (events : List ArchiveEntry) : List String :=
  (receipt.signerPublicKey.toList ++ events.filterMap fun entry =>
    match x.readReceipt entry.bytes with
    | .ok chained => chained.signerPublicKey
    | .error _ => none).dedup

def keyEntries (keys : List String) : List ArchiveEntry :=
  keys.filterMap fun key =>
    match x.publicKeyPem key with
    | .ok (id, pem) => some ⟨"pubkeys/" ++ id ++ ".pub", pem⟩
    | .error _ => none

/-- The entries of an archive; they are sorted by their paths when it is written. -/
def exportEntries (receipt : Receipt) (receiptBytes : Bytes) (isPartial : Bool) : List ArchiveEntry :=
  eventEntries files receipt ++
  keyEntries x (signerKeys x receipt (eventEntries files receipt)) ++
  [⟨"manifest.json", x.manifestBytes receipt isPartial⟩, ⟨"receipt.yaml", receiptBytes⟩]

def exportArchive (receiptBytes : Bytes) (allowPartial : Bool) : Except String ExportOutcome := do
  let receipt ← x.readReceipt receiptBytes
  if missingFiles files receipt ≠ [] ∧ allowPartial = false then
    return .incompleteChain (missingFiles files receipt)
  else do
    let isPartial := decide (missingFiles files receipt ≠ [])
    x.writeArchive (exportEntries x files receipt receiptBytes isPartial)
    return .written isPartial

end Export

section Outcome
variable {x : Exporter} {files : String → Option Bytes} {receipt : Receipt} {receiptBytes : Bytes}

/-- A receipt whose events are all there is written, unless the writing fails. -/
theorem exportArchive_of_stored (hread : x.readReceipt receiptBytes = .ok receipt)
    (h : ∀ id ∈ receipt.causalEvents, files id ≠ none) :
    exportArchive x files receiptBytes false =
      (x.writeArchive (exportEntries x files receipt receiptBytes false)).map
        fun _ => .written false := by
  have hmissing : missingFiles files receipt = [] := by
    apply List.filter_eq_nil_iff.mpr
    intro id hid hnone
    exact h id hid (Option.isNone_iff_eq_none.mp hnone)
  unfold exportArchive
  rw [hread]
  simp only [bind, Except.bind, hmissing, ne_eq, not_true_eq_false, false_and, if_false, decide_false]
  cases x.writeArchive (exportEntries x files receipt receiptBytes false) with
  | error e => rfl
  | ok _ => rfl

/-- One listed event without its file stops the export. -/
theorem exportArchive_of_missing (hread : x.readReceipt receiptBytes = .ok receipt)
    (h : ∃ id ∈ receipt.causalEvents, files id = none) :
    exportArchive x files receiptBytes false = .ok (.incompleteChain (missingFiles files receipt)) := by
  have hmissing : missingFiles files receipt ≠ [] := by
    obtain ⟨id, hid, hnone⟩ := h
    apply List.ne_nil_of_mem
    exact List.mem_filter.mpr ⟨hid, Option.isNone_iff_eq_none.mpr hnone⟩
  unfold exportArchive
  rw [hread]
  simp only [bind, Except.bind]
  rw [if_pos ⟨hmissing, trivial⟩]
  rfl

end Outcome

end Attest.Archive
