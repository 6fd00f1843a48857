import Attest.Storage.CausalLedger
import Attest.Library.Fallible

/-! Verifying an archive offline, as `archive.rs` does.

The entries are what the reader gives: it refuses an archive that lists a path twice, so an
entry is known by its path. Events are keyed by the names of their files. What `serde_json`
reads is a parameter. -/
namespace Attest.Archive
open Library Library.Fallible Storage Verify
open Trust (Bytes Crates DateTime)

def archiveFormat : String := "attest-archive/v1"

structure ArchiveManifest where
  format : String
  isPartial : Bool

structure ArchiveEntry where
  path : String
  bytes : Bytes
deriving DecidableEq

/-- What `read_archive` returns: no path twice. -/
structure ReadArchive where
  entries : List ArchiveEntry
  distinct : (entries.map ArchiveEntry.path).Nodup

/-- A JSON value that may be an event: its keys when it is an object, and `from_value` of it. -/
structure EventValue where
  keys : Option (List String)
  event : Except String CausalEvent

structure ArchiveCodec where
  /-- `serde_json::from_slice::<ArchiveManifest>`. -/
  manifest : Bytes → Except String ArchiveManifest
  /-- `serde_json::from_slice::<CausalEvent>`, where it is no error. -/
  event : Bytes → Option CausalEvent
  /-- `serde_json::from_slice::<Value>`. -/
  value : Bytes → Except String EventValue

/-! ### Linkage -/

def linkageCheck (status : CheckStatus) (detail : String) : Check := ⟨"chain-linkage", status, detail⟩

section Linkage
variable (c : Crates) (receipt : Receipt) (events : String → Option CausalEvent)

/-- The listed ids without an event. -/
def missingEvents : List String := receipt.causalEvents.filter fun id => (events id).isNone

/-- The events in the order the receipt lists them. -/
def orderedEvents : List CausalEvent := receipt.causalEvents.filterMap events

def idsOf (events : List CausalEvent) : String :=
  ", ".intercalate (events.map CausalEvent.eventId)

/-- The checks once every listed id has an event. -/
def linkOrdered (ordered : List CausalEvent) : Check :=
  if ordered.filter (fun event => !eventIdIsAuthentic c event) ≠ [] then
    linkageCheck .fail ("causal event contents do not match their recorded ids: " ++
      idsOf (ordered.filter fun event => !eventIdIsAuthentic c event))
  else if ordered.filter (fun event => eventSignatureHolds c event == some false) ≠ [] then
    linkageCheck .fail ("causal events carry signatures that do not verify: " ++
      idsOf (ordered.filter fun event => eventSignatureHolds c event == some false))
  else
    match receipt.causalChainHash with
    | some expected =>
      if expected = chainHash c ordered then
        linkageCheck .pass s!"{ordered.length} events recompute to the signed chain root"
      else linkageCheck .fail s!"events recompute to {chainHash c ordered}, receipt claims {expected}"
    | none => linkageCheck .fail "receipt lists causal events but records no chain root"

def chainLinkage (isPartial : Bool) : Check :=
  if receipt.causalEvents = [] then linkageCheck .skipped "receipt references no causal events"
  else if missingEvents receipt events ≠ [] then
    if isPartial then
      linkageCheck .skipped ("partial archive: unresolved causal references: " ++
        ", ".intercalate (missingEvents receipt events))
    else linkageCheck .fail ("unresolved causal references: " ++
      ", ".intercalate (missingEvents receipt events))
  else linkOrdered c receipt (orderedEvents receipt events)

end Linkage

/-! ### The archive -/

/-- `events/<id>.json`, without what is around the id. -/
def eventName (path : String) : Option String := do
  let rest ← path.toList.dropPrefix? "events/".toList
  let name ← rest.dropSuffix? ".json".toList
  return String.ofList name

/-- The last of the pairs with a key, as a `HashMap` holds it. -/
def lookupLast (events : List (String × CausalEvent)) (id : String) : Option CausalEvent :=
  (events.reverse.find? fun entry => entry.1 == id).map Prod.snd

section Archive
variable (b : Backend) (files : Files) (codec : ArchiveCodec)

def namedEvents (entries : List ArchiveEntry) : List (String × CausalEvent) :=
  entries.filterMap fun entry => do
    let id ← eventName entry.path
    let event ← codec.event entry.bytes
    return (id, event)

/-- `serde_yaml::from_slice::<Receipt>`. -/
def readReceipt (bytes : Bytes) : Except String Receipt := do
  let document ← b.readYaml bytes
  document.receipt

/-- The check of linkage that a verdict gets. -/
def linkageOf (entries : List ArchiveEntry) (isPartial : Bool) (bytes : Bytes) : Check :=
  match readReceipt b bytes with
  | .ok receipt => chainLinkage b.crates receipt (lookupLast (namedEvents codec entries)) isPartial
  | .error err => linkageCheck .fail s!"receipt is unreadable: {err}"

def verifyEntry (path : String) (opts : VerifyOptions) (now : DateTime) (entries : List ArchiveEntry)
    (isPartial : Bool) (entry : ArchiveEntry) : Except String ReceiptVerdict := do
  let verdict ← verifyReceiptBytes b files entry.bytes s!"{path}:{entry.path}" opts now
  -- The policy is applied again now that linkage is known.
  return applyPolicy
    { verdict with checks := verdict.checks ++ [linkageOf b codec entries isPartial entry.bytes] }
    opts.required

structure ArchiveVerdict where
  receipts : List ReceiptVerdict
  isPartial : Bool

def verifyArchive (path : String) (opts : VerifyOptions) (now : DateTime)
    (entries : List ArchiveEntry) : Except String ArchiveVerdict := do
  match entries.find? fun entry => entry.path == "manifest.json" with
  | none => throw s!"{path}: archive has no manifest.json"
  | some entry =>
    let manifest ← (codec.manifest entry.bytes).mapError fun _ => "invalid manifest.json"
    refuseIf (manifest.format ≠ archiveFormat)
      s!"unsupported archive format '{manifest.format}' (expected {archiveFormat})"
    let receipts ← (entries.filter fun entry => entry.path == "receipt.yaml").mapM
      (verifyEntry b files codec path opts now entries manifest.isPartial)
    refuseIf (receipts.isEmpty = true) s!"{path}: archive contains no receipt.yaml"
    return ⟨receipts, manifest.isPartial⟩

end Archive

end Attest.Archive
