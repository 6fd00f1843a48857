import Attest.Trust.Examine

/-! Importing a bundle, as `trust.rs` has it.

An import first decides, reading only: the bundle passes its checks, its issuer is
not revoked here, it is the issuer the recipient named, and it is either the first
one from that issuer, on one of two grounds, or not older than the one accepted
before. Then it writes, in this order: the key files, the merged policy, and the
copy that later imports are compared against. -/
namespace Attest.Trust
open Library.Fallible

structure ImportReport where
  issuer : String
  sequence : UInt64
  validUntil : Option DateTime
  added : List (String × String × KeyStatus) := []
  revoked : List (String × String × DateTime) := []
  keptRevoked : List (String × String) := []
  revocationMovedEarlier : List (String × String × DateTime) := []
  unchanged : Nat := 0
  alreadyCurrent : Bool := false
  handoverFrom : Option (String × UInt64) := none
deriving DecidableEq

section Accepted
variable (c : Crates)

/-! ### Accepted bundles -/

def copyPath (ws : Workspace) (issuer : String) : String :=
  joinPath (joinPath ws.trustPath "bundles") (issuer ++ ".json")

/-- `accepted_bundle`. -/
def acceptedBundle (ws : Workspace) (issuer : String) : Except String (Option TrustBundle) :=
  let node := ws.trustDir.bundles.lookup issuer
  if isFile node then (readBundle c (copyPath ws issuer) node).map some else .ok none

/-- The loop of `accepted_bundles`, over the `.json` files of the directory. -/
def readAll (ws : Workspace) :
    List (Sigma fun _ : String => Node Bytes) → Except String (List TrustBundle)
  | [] => .ok []
  | ⟨name, node⟩ :: rest => do
    let bundle ← readBundle c (copyPath ws name) (some node)
    let bundles ← readAll ws rest
    return bundle :: bundles

/-- `accepted_bundles`; a directory that is not there has none. -/
def acceptedBundles (ws : Workspace) : Except String (List TrustBundle) :=
  readAll c ws ws.trustDir.bundles.entries

/-! ### The decision -/

/-- Whether an accepted bundle names this issuer, id and public key, as its successor. -/
def namesSuccessor (issuer : Issuer) (accepted : TrustBundle) : Bool :=
  match accepted.successor with
  | some s => s.keyId == issuer.keyId && s.publicKey == issuer.publicKey
  | none => false

/-- The grounds for a first bundle, or the place of a later one in the issuer's order. The
result is the handover, when there was one. -/
def grounds (ws : Workspace) (bundle : TrustBundle) (expectedIssuer : Option String)
    (previous : Option TrustBundle) : Except String (Option (String × UInt64)) :=
  let issuer := bundle.issuer.keyId
  match previous, expectedIssuer with
  | none, none => do
    let accepted ← acceptedBundles c ws
    match accepted.find? (namesSuccessor bundle.issuer) with
    | some predecessor => return some (predecessor.issuer.keyId, predecessor.sequence)
    | none =>
      .error (s!"first bundle from issuer {issuer}: name the issuer you expect with --issuer " ++
        "<KEY_ID>, obtained from the producer through a channel other than this file")
  | none, some _ => .ok none
  | some previous, _ =>
    if bundle.sequence < previous.sequence then
      .error (s!"bundle sequence {bundle.sequence} is older than the one already accepted from " ++
        s!"{issuer} (sequence {previous.sequence}); a bundle cannot go backwards")
    else if bundle.sequence = previous.sequence ∧ bundle.signature ≠ previous.signature then
      .error (s!"a different bundle with sequence {bundle.sequence} was already accepted from " ++
        s!"{issuer}; two bundles cannot share a sequence")
    else .ok none

/-- `local_policy.entry(&issuer).is_some_and(..)`. -/
def isRevoked (policy : TrustPolicy) (id : String) : Bool :=
  (policy.entry id).any fun entry => decide (entry.status = .revoked)

/-- What the code decides about a bundle it has read and found in order: the bundle accepted
before, and the handover. -/
def admission (ws : Workspace) (bundle : TrustBundle) (expectedIssuer : Option String) :
    Except String (Option TrustBundle × Option (String × UInt64)) := do
  let issuer := bundle.issuer.keyId
  let localPolicy ← loadPolicy c ws
  refuseIf (isRevoked localPolicy issuer)
    (s!"bundle is issued by {issuer}, which this store has revoked; " ++
      "a revoked authority cannot update it")
  refuseIf (∃ expected ∈ expectedIssuer, expected ≠ issuer)
    (s!"bundle is issued by {issuer} but you expected " ++ expectedIssuer.getD "" ++
      "; refusing it whatever it contains")
  let previous ← acceptedBundle c ws issuer
  let handoverFrom ← grounds c ws bundle expectedIssuer previous
  return (previous, handoverFrom)

/-- The part of `import` that only reads. -/
def judge (ws : Workspace) (path : String) (file : Option (Node Bytes))
    (expectedIssuer : Option String) (now : DateTime) :
    Except String (TrustBundle × Option TrustBundle × Option (String × UInt64)) := do
  let bundle ← readBundle c path file
  let failed := failedChecks c bundle now
  refuseIf (failed ≠ []) (s!"refusing {path}: " ++ String.intercalate "; " failed)
  let (previous, handoverFrom) ← admission c ws bundle expectedIssuer
  return (bundle, previous, handoverFrom)

/-- Whether the bundle is the one accepted before. -/
def isCurrent (previous : Option TrustBundle) (bundle : TrustBundle) : Bool :=
  previous.any fun p => decide (p.signature = bundle.signature)

end Accepted

/-! ### The merge -/

/-- One key of the bundle against the entry of that id. -/
def mergeKey (state : List TrustEntry × ImportReport) (key : BundledKey) :
    List TrustEntry × ImportReport :=
  let (entries, report) := state
  match entries.find? (fun k => k.id == key.id) with
  | none =>
    (entries ++ [⟨key.id, key.name, key.status, key.revokedAt⟩],
      { report with added := report.added ++ [(key.id, key.name, key.status)] })
  | some entry =>
    match entry.status, key.status with
    | .trusted, .revoked =>
      (updateEntry key.id (fun e => { e with status := .revoked, revokedAt := key.revokedAt })
          entries,
        { report with
          revoked := report.revoked ++ [(key.id, entry.name, key.revokedAt.getD .minUtc)] })
    | .revoked, .trusted =>
      (entries, { report with keptRevoked := report.keptRevoked ++ [(key.id, entry.name)] })
    | .revoked, .revoked =>
      -- the earlier date wins, and no local date is stricter than every dated revocation
      if key.revokedAt.any fun at_ => entry.revokedAt.any fun known => decide (at_ < known) then
        (updateEntry key.id (fun e => { e with revokedAt := key.revokedAt }) entries,
          { report with
            revocationMovedEarlier := report.revocationMovedEarlier ++
              [(key.id, entry.name, key.revokedAt.getD .minUtc)] })
      else (entries, { report with unchanged := report.unchanged + 1 })
    | .trusted, .trusted => (entries, { report with unchanged := report.unchanged + 1 })

def mergeKeys (entries : List TrustEntry) (report : ImportReport) (keys : List BundledKey) :
    List TrustEntry × ImportReport :=
  keys.foldl mergeKey (entries, report)

/-! ### The writes -/

section Writes
variable (c : Crates)

/-- The key of a bundle, decoded again for its file. -/
def bundledKeyFromHex (publicKeyHex : String) : Except String VerifyingKey :=
  match hexDecode publicKeyHex with
  | none => .error "public key hex"
  | some bytes =>
    match toVector 32 bytes with
    | none => .error "public key length"
    | some array => (fromBytes c array).mapError fun _ => "public key"

/-- One turn of the loop over the key files: one that exists is left alone. -/
def writeKeyFile (key : BundledKey) : Program Unit := do
  let path ← reading fun w => .ok (joinPath w.fs.trustPath (key.id ++ ".pub"))
  let present ← reading fun w => .ok (w.fs.trustDir.pubs.lookup key.id).isSome
  if present then pure ()
  else
    let verifyingKey ← reading fun _ => bundledKeyFromHex c key.publicKey
    writePub (some s!"cannot write {path}") key.id verifyingKey

def writeKeyFiles : List BundledKey → Program Unit
  | [] => pure ()
  | key :: rest => do
    writeKeyFile c key
    writeKeyFiles rest

def putCopy (issuer : String) (bytes : Bytes) (ws : Workspace) : Workspace :=
  ws.setTrust { ws.trustDir with bundles := ws.trustDir.bundles.insert issuer (.file bytes) }

/-- `write(&bundle, bundles/<issuer>.json)`. -/
def writeCopy (bundle : TrustBundle) : Program Unit := do
  let path ← reading fun w => .ok (copyPath w.fs bundle.issuer.keyId)
  syscall (some s!"cannot write {path}")
    (fun ws => canWrite (ws.trustDir.bundles.lookup bundle.issuer.keyId))
    (putCopy bundle.issuer.keyId bundle.written)
    (fun n => putCopy bundle.issuer.keyId (bundle.written.take n))

/-- The part of `import` that writes. -/
def record (bundle : TrustBundle) (report : ImportReport) : Program ImportReport := do
  createTrustDir
  writeKeyFiles c bundle.keys
  let policy ← reading fun w => loadPolicy c w.fs
  let (entries, report) := mergeKeys policy.keys report bundle.keys
  (policy.withKeys entries).save
  -- only once the store holds the keys: a copy beside a policy that failed to write would
  -- refuse the retry as a replay
  touch
  writeCopy bundle
  return report

/-- The report an import starts from. -/
def emptyReport (bundle : TrustBundle) (handoverFrom : Option (String × UInt64)) : ImportReport :=
  { issuer := bundle.issuer.keyId
    sequence := bundle.sequence
    validUntil := some bundle.validUntil
    handoverFrom := handoverFrom }

/-- `import`, of the file at `path`, at the clock reading `now`. -/
def importBundle (path : String) (file : Option (Node Bytes)) (expectedIssuer : Option String)
    (now : DateTime) : Program ImportReport := do
  let (bundle, previous, handoverFrom) ←
    reading fun w => judge c w.fs path file expectedIssuer now
  let report := emptyReport bundle handoverFrom
  if isCurrent previous bundle then
    return { report with alreadyCurrent := true, unchanged := bundle.keys.length }
  record c bundle report

end Writes

end Attest.Trust
