import Attest.Library.StableSort
import Attest.Library.Text
import Attest.Storage.ReceiptFormat
import Attest.Trust.Judgement
import Mathlib.Data.Prod.Lex

/-! Signing an image, after `crypto/image_signing.rs`.

A request names an image by its digest, a key, and annotations, of which one is the revision of
the source. What the request says is looked at before `cosign` is called, and what is sent is
sorted. `one_revision_iff` says when the revision that was looked at is the one that is sent:
when the request does not state it twice. -/
namespace Attest.Image
open Library Library.Fallible Library.Text Library.StableSort
open Trust (Bytes Crates DateTime hexEncode utf8 trimChars isLowerHexDigit)
open Storage (Receipt StepResult receiptSchemaVersion)

/-! ### Requests -/

abbrev Annotation := String × String

structure ImageSignRequest where
  imageRef : String
  keyUri : String
  annotations : List Annotation
  allowFileKey : Bool
  requireCleanTree : Bool
  cleanPaths : List String
  receiptDir : Option String
  signReceipt : Bool
  receiptKey : Option String
deriving DecidableEq

structure SignOutcome where
  receiptPath : String
  revision : String
deriving DecidableEq

inductive SignFailure where
  | precondition (message : String)
  | operational (message : String)
deriving DecidableEq

namespace SignFailure

def exitCode : SignFailure → Int
  | precondition _ => 1
  | operational _ => 2

def message : SignFailure → String
  | precondition message | operational message => message

end SignFailure

/-! ### What is looked at -/

/-- `str::strip_prefix`. -/
def stripPrefix (front text : List Char) : Option (List Char) :=
  if front.isPrefixOf text then some (text.drop front.length) else none

/-- `sha256:` and 64 lower case digits. -/
def isDigestText (digest : List Char) : Bool :=
  match stripPrefix "sha256:".toList digest with
  | none => false
  | some hex => decide (hex.length = 64) && hex.all isLowerHexDigit

def validateDigestRef (imageRef : String) : Except SignFailure Unit :=
  match splitOnce '@' imageRef.toList with
  | some (repo, digest) =>
    refuseIf (repo = [] ∨ isDigestText digest = false)
      (.operational s!"invalid digest reference '{imageRef}': expected repo@sha256:<64 lowercase hex>")
  | none =>
    .error (.operational
      s!"signing requires a digest reference (repo@sha256:...), got tag '{imageRef}'")

def kmsScheme : List Char := "azurekms://".toList

def validateKeyUri (keyUri : String) (allowFileKey : Bool) : Except SignFailure Unit :=
  refuseIf (kmsScheme.isPrefixOf keyUri.toList = false ∧ allowFileKey = false)
    (.operational (s!"key '{keyUri}' is not a KMS URI (azurekms://...); " ++
      "file-based keys require --allow-file-key"))

def revisionAnnotationKey : String := "continuum.git.revision"

/-- A full object id. -/
def isRevision (revision : String) : Bool :=
  decide (40 ≤ revision.utf8ByteSize ∧ revision.utf8ByteSize ≤ 64) &&
    revision.toList.all isLowerHexDigit

def validateRevision (revision : String) : Except SignFailure Unit :=
  refuseIf (isRevision revision = false) (.operational (s!"invalid {revisionAnnotationKey} " ++
    s!"'{revision}': must match ^[a-f0-9]\x7b40,64\x7d$ (full object id)"))

theorem stripPrefix_eq_some {front text rest : List Char} :
    stripPrefix front text = some rest ↔ text = front ++ rest := by
  rw [stripPrefix]
  constructor
  · intro h
    split at h
    · rename_i hfront
      obtain ⟨after, rfl⟩ := List.isPrefixOf_iff_prefix.mp hfront
      cases h
      rw [List.drop_left]
    · cases h
  · intro h
    rw [h, if_pos (List.isPrefixOf_iff_prefix.mpr ⟨rest, rfl⟩), List.drop_left]

theorem isDigestText_iff {digest : List Char} :
    isDigestText digest = true ↔ ∃ hex, digest = "sha256:".toList ++ hex ∧ hex.length = 64 ∧
      hex.all isLowerHexDigit = true := by
  rw [isDigestText]
  constructor
  · intro h
    split at h
    · cases h
    · rename_i hex hstripped
      rw [Bool.and_eq_true, decide_eq_true_eq] at h
      exact ⟨hex, stripPrefix_eq_some.mp hstripped, h⟩
  · intro h
    obtain ⟨hex, hdigest, hlength, hlower⟩ := h
    rw [stripPrefix_eq_some.mpr hdigest]
    simp only [hlength, hlower, decide_true, Bool.and_self]

/-- An image that is accepted ends in 71 characters behind the first `@`. -/
theorem validateDigestRef_ok {imageRef : String} :
    validateDigestRef imageRef = .ok () ↔ ∃ repo digest, imageRef.toList = repo ++ '@' :: digest ∧
      '@' ∉ repo ∧ repo ≠ [] ∧ isDigestText digest = true := by
  rw [validateDigestRef]
  constructor
  · intro h
    split at h
    · rename_i repo digest hcut
      have hvalid := refuseIf_eq_ok.mp h
      rw [not_or, Bool.not_eq_false] at hvalid
      exact ⟨repo, digest, of_splitOnce hcut, notMem_of_splitOnce hcut, hvalid⟩
    · cases h
  · intro h
    obtain ⟨repo, digest, hwhole, hrepo, hne, hdigest⟩ := h
    rw [hwhole, splitOnce_append hrepo]
    refine refuseIf_eq_ok.mpr ?_
    rw [not_or, Bool.not_eq_false]
    exact ⟨hne, hdigest⟩

/-! ### The programs that are called -/

/-- `std::process::Output`. -/
structure Output where
  success : Bool
  stdout : Bytes
  stderr : Bytes

/-- What a signing finds outside of the program. -/
structure Host where
  crates : Crates
  /-- `Command::output` in the workspace. -/
  run : String → List String → Except String Output
  /-- `String::from_utf8_lossy`. -/
  lossy : Bytes → String
  /-- `ImageVerifier::find_cosign_binary().ok().flatten()`. -/
  findCosign : Option String
  now : DateTime
  attestVersion : String
  /-- Signing the receipt where that is asked for, and writing it. -/
  persist : ImageSignRequest → Receipt → Except String String

/-- `str::trim` of a lossy text. -/
def Host.trimmed (host : Host) (bytes : Bytes) : String :=
  String.ofList (trimChars (host.lossy bytes).toList)

section Programs
variable (host : Host)

def gitHead : Except String String := do
  let output ← (host.run "git" ["rev-parse", "HEAD"]).mapError
    ("failed to execute git rev-parse: " ++ ·)
  refuseIf (output.success = false) ("git rev-parse HEAD failed: " ++ host.trimmed output.stderr)
  return host.trimmed output.stdout

/-- `str::get` from a byte on. -/
def getFrom : Nat → List Char → Option (List Char)
  | 0, text => some text
  | _ + 1, [] => none
  | n + 1, c :: text => if c.utf8Size ≤ n + 1 then getFrom (n + 1 - c.utf8Size) text else none

def gitDirtyPaths (paths : List String) : Except String (List String) := do
  let output ← (host.run "git" (["status", "--porcelain", "--untracked-files=all"] ++
    if paths.isEmpty then [] else "--" :: paths)).mapError ("failed to execute git status: " ++ ·)
  refuseIf (output.success = false) ("git status failed: " ++ host.trimmed output.stderr)
  return (lines (host.lossy output.stdout).toList).filterMap fun line =>
    (getFrom 3 line).map String.ofList

/-- `str::parse::<u32>`. -/
def parseU32 (text : List Char) : Option Nat :=
  let digits := (stripPrefix ['+'] text).getD text
  if digits = [] ∨ digits.all Char.isDigit = false then none
  else
    let n := Nat.ofDigitChars 10 digits 0
    if n < 2 ^ 32 then some n else none

/-- What the first line says that states a version. -/
def statedVersion (text : List Char) : Option (List Char) :=
  (lines text).findSome? fun line =>
    (stripPrefix "GitVersion:".toList (trimChars line)).map fun version =>
      (trimChars version).dropWhile (· = 'v')

def checkCosignVersion (cosign : String) : Except SignFailure Unit := do
  let output ← (host.run cosign ["version"]).mapError fun e =>
    .operational ("failed to execute cosign version: " ++ e)
  match statedVersion ((host.lossy output.stdout).toList ++ (host.lossy output.stderr).toList) with
  | none => .error (.operational "cannot determine cosign version (need >= 2.2)")
  | some version =>
    let parts := version.splitOn '.'
    let major := (parts[0]?.bind parseU32).getD 0
    let minor := (parts[1]?.bind parseU32).getD 0
    refuseIf (major < 2 ∨ major = 2 ∧ minor < 2) (.operational
      ("cosign " ++ String.ofList version ++ " is too old: signing requires >= 2.2"))

end Programs

/-! ### Signing -/

/-- The explicit revision: the first one. -/
def findRevision (annotations : List Annotation) : Option String :=
  (annotations.find? fun a => decide (a.1 = revisionAnnotationKey)).map Prod.snd

/-- The annotations with a revision among them, and that revision. -/
def withRevision (host : Host) (annotations : List Annotation) :
    Except SignFailure (List Annotation × String) :=
  match findRevision annotations with
  | some explicit => .ok (annotations, explicit)
  | none => do
    let head ← (gitHead host).mapError fun e =>
      .operational (s!"cannot derive {revisionAnnotationKey}: " ++ e)
    return (annotations ++ [(revisionAnnotationKey, head)], head)

/-- `Vec::sort` of the annotations. -/
def sorted (annotations : List Annotation) : List Annotation :=
  sortByKey (fun a => toLex a) annotations

def refuseDirty (host : Host) (request : ImageSignRequest) : Except SignFailure Unit :=
  if request.requireCleanTree then do
    let dirty ← (gitDirtyPaths host request.cleanPaths).mapError fun e =>
      .operational ("clean-tree check failed: " ++ e)
    refuseIf (dirty ≠ []) (.precondition ("refusing to sign: working tree is dirty (" ++
      ", ".intercalate dirty ++ "); commit, stash, or pass --no-require-clean-tree"))
  else .ok ()

def locateCosign (host : Host) : Except SignFailure String :=
  match host.findCosign with
  | some cosign => .ok cosign
  | none => .error (.operational ("cosign binary not found; install it: " ++
      "https://docs.sigstore.dev/cosign/system_config/installation/"))

/-- What `cosign sign` is called with. -/
structure Prepared where
  cosign : String
  annotations : List Annotation
  revision : String

/-- Everything before `cosign sign` is called. -/
def prepare (host : Host) (request : ImageSignRequest) : Except SignFailure Prepared := do
  validateDigestRef request.imageRef
  validateKeyUri request.keyUri request.allowFileKey
  let (annotations, revision) ← withRevision host request.annotations
  validateRevision revision
  refuseDirty host request
  let cosign ← locateCosign host
  checkCosignVersion host cosign
  return ⟨cosign, sorted annotations, revision⟩

def cosignArgs (request : ImageSignRequest) (annotations : List Annotation) : List String :=
  ["sign", "--yes", "--key", request.keyUri] ++
    annotations.flatMap (fun a => ["-a", a.1 ++ "=" ++ a.2]) ++ [request.imageRef]

def signingInputManifest (request : ImageSignRequest) (annotations : List Annotation) : String :=
  annotations.foldl (fun manifest a => manifest ++ ("annotation:" ++ a.1 ++ "=" ++ a.2 ++ "\n"))
    ("attest-image-sign/v1\n" ++ ("image:" ++ request.imageRef ++ "\n") ++
      ("key:" ++ request.keyUri ++ "\n") ++
      if request.allowFileKey then "allow-file-key:true\n" else "")

/-- The receipt of a signing, before it is signed itself. -/
def signingReceipt (host : Host) (request : ImageSignRequest) (annotations : List Annotation)
    (cosignStdout : Bytes) : Receipt :=
  let inputHash :=
    hexEncode (host.crates.blake3 (utf8 (signingInputManifest request annotations))).toList
  { schemaVersion := some receiptSchemaVersion
    pipelineHash := inputHash
    steps := [
      { name := "image-sign"
        inputHash
        outputHash := hexEncode (host.crates.blake3 cosignStdout).toList
        durationSecs := 0
        exitCode := 0
        cacheHit := false
        stdout := host.lossy cosignStdout
        stderr := ""
        capsuleHash := none }]
    timestamp := host.now
    totalDurationSecs := 0
    signature := none
    signerPublicKey := none
    attestVersion := host.attestVersion
    causalEvents := []
    causalChainHash := none
    reproducibility := none
    provenance := none
    timestampToken := none
    isolation := none }

def signImage (host : Host) (request : ImageSignRequest) : Except SignFailure SignOutcome := do
  let prepared ← prepare host request
  let output ← (host.run prepared.cosign (cosignArgs request prepared.annotations)).mapError fun e =>
    .operational ("failed to execute cosign: " ++ e)
  refuseIf (output.success = false)
    (.operational ("cosign sign failed: " ++ host.trimmed output.stderr))
  let receiptPath ← (host.persist request
    (signingReceipt host request prepared.annotations output.stdout)).mapError fun e =>
      .operational ("cannot write signing receipt: " ++ e)
  return ⟨receiptPath, prepared.revision⟩

/-! ### The revision that is signed -/

/-- The annotations that state a revision. -/
def revisions (annotations : List Annotation) : List Annotation :=
  annotations.filter fun a => decide (a.1 = revisionAnnotationKey)

/-- What is signed states one revision, it has been looked at, and it is this one. -/
structure OneRevision (annotations : List Annotation) (revision : String) : Prop where
  stated : revisions annotations = [(revisionAnnotationKey, revision)]
  valid : validateRevision revision = .ok ()

theorem findRevision_eq (annotations : List Annotation) :
    findRevision annotations = (revisions annotations).head?.map Prod.snd := by
  rw [findRevision, revisions, List.head?_filter]

theorem fst_of_mem_revisions {annotations : List Annotation} {a : Annotation}
    (h : a ∈ revisions annotations) : a.1 = revisionAnnotationKey := by
  simpa using List.of_mem_filter h

/-- The revision that is looked at is the first one, of the request or of the repository. -/
theorem revisions_withRevision {host : Host} {annotations stated : List Annotation}
    {revision : String} (h : withRevision host annotations = .ok (stated, revision)) :
    revisions stated = (revisionAnnotationKey, revision) :: (revisions annotations).tail := by
  rw [withRevision, findRevision_eq] at h
  cases hrevisions : revisions annotations with
  | nil =>
    rw [hrevisions] at h
    obtain ⟨head, -, hstated⟩ := except_bind_eq_ok.mp h
    cases hstated
    have hone : revisions [(revisionAnnotationKey, revision)] = [(revisionAnnotationKey, revision)] := by
      simp [revisions]
    rw [revisions, List.filter_append, ← revisions, ← revisions, hrevisions, hone]
    rfl
  | cons first others =>
    rw [hrevisions] at h
    cases h
    have hfirst : first.1 = revisionAnnotationKey :=
      fst_of_mem_revisions (hrevisions ▸ List.mem_cons_self)
    rw [hrevisions, ← hfirst]
    rfl

theorem perm_sorted (annotations : List Annotation) : (sorted annotations).Perm annotations :=
  List.mergeSort_perm annotations _

theorem revisions_sorted_eq_singleton {annotations : List Annotation} {a : Annotation} :
    revisions (sorted annotations) = [a] ↔ revisions annotations = [a] := by
  have hperm : (revisions (sorted annotations)).Perm (revisions annotations) :=
    (perm_sorted annotations).filter _
  constructor
  · intro h
    exact (List.singleton_perm.mp (h ▸ hperm)).symm
  · intro h
    exact List.perm_singleton.mp (h ▸ hperm)

/-- What has been looked at before `cosign sign` is called. -/
theorem prepare_ok {host : Host} {request : ImageSignRequest} {prepared : Prepared}
    (h : prepare host request = .ok prepared) :
    validateDigestRef request.imageRef = .ok () ∧
    validateKeyUri request.keyUri request.allowFileKey = .ok () ∧
    validateRevision prepared.revision = .ok () ∧
    ∃ stated, withRevision host request.annotations = .ok (stated, prepared.revision) ∧
      prepared.annotations = sorted stated := by
  obtain ⟨_, himage, h⟩ := except_bind_eq_ok.mp h
  obtain ⟨_, hkey, h⟩ := except_bind_eq_ok.mp h
  obtain ⟨⟨stated, revision⟩, hstated, h⟩ := except_bind_eq_ok.mp h
  obtain ⟨_, hrevision, h⟩ := except_bind_eq_ok.mp h
  obtain ⟨_, -, h⟩ := except_bind_eq_ok.mp h
  obtain ⟨cosign, -, h⟩ := except_bind_eq_ok.mp h
  obtain ⟨_, -, h⟩ := except_bind_eq_ok.mp h
  cases h
  exact ⟨himage, hkey, hrevision, stated, hstated, rfl⟩

theorem revision_of_signImage {host : Host} {request : ImageSignRequest} {prepared : Prepared}
    {outcome : SignOutcome} (h : prepare host request = .ok prepared)
    (hsigned : signImage host request = .ok outcome) : outcome.revision = prepared.revision := by
  obtain ⟨prepared', hprepared, hsigned⟩ := except_bind_eq_ok.mp hsigned
  obtain ⟨output, -, hsigned⟩ := except_bind_eq_ok.mp hsigned
  obtain ⟨_, -, hsigned⟩ := except_bind_eq_ok.mp hsigned
  obtain ⟨receiptPath, -, hsigned⟩ := except_bind_eq_ok.mp hsigned
  cases hsigned
  rw [h] at hprepared
  cases hprepared
  rfl

theorem prepare_of_explicit {host : Host} {request : ImageSignRequest} {revision cosign : String}
    (himage : validateDigestRef request.imageRef = .ok ())
    (hkey : validateKeyUri request.keyUri request.allowFileKey = .ok ())
    (hfound : findRevision request.annotations = some revision)
    (hrevision : validateRevision revision = .ok ()) (hclean : request.requireCleanTree = false)
    (hcosign : host.findCosign = some cosign) (hversion : checkCosignVersion host cosign = .ok ()) :
    prepare host request = .ok ⟨cosign, sorted request.annotations, revision⟩ := by
  have hstated : withRevision host request.annotations = .ok (request.annotations, revision) := by
    rw [withRevision, hfound]
  have htree : refuseDirty host request = .ok () := by
    rw [refuseDirty, hclean]
    rfl
  have hlocated : locateCosign host = .ok cosign := by rw [locateCosign, hcosign]
  simp only [prepare, himage, hkey, hstated, hrevision, htree, hlocated, hversion, except_ok_bind]
  rfl

theorem checkCosignVersion_of {host : Host} {cosign : String} {output : Output}
    {version : List Char} (hrun : host.run cosign ["version"] = .ok output)
    (hversion : statedVersion ((host.lossy output.stdout).toList ++
      (host.lossy output.stderr).toList) = some version)
    (hnew : 3 ≤ ((version.splitOn '.')[0]?.bind parseU32).getD 0 ∨
      ((version.splitOn '.')[0]?.bind parseU32).getD 0 = 2 ∧
        2 ≤ ((version.splitOn '.')[1]?.bind parseU32).getD 0) :
    checkCosignVersion host cosign = .ok () := by
  rw [checkCosignVersion, hrun, mapError_ok, except_ok_bind, hversion]
  exact refuseIf_eq_ok.mpr (by omega)

/-- A host with a `cosign` that states its version and signs whatever it is given. -/
def willingHost : Host where
  crates :=
    { blake3 := fun _ => Vector.replicate 32 0
      pointError := fun _ => none
      verifyingKey := fun _ => ⟨Vector.replicate 32 0⟩
      verify := fun _ _ _ => false
      fromSlice := fun _ => .error "expected value" }
  run _ _ := .ok ⟨true, utf8 "GitVersion: v2.4.0", utf8 ""⟩
  lossy bytes := (String.fromUTF8? ⟨bytes.toArray⟩).getD ""
  findCosign := some "cosign"
  now := Storage.sampleDate
  attestVersion := "0.4.0"
  persist _ _ := .ok "/w/.attest/receipts/20260801T000000Z-image-sign.yaml"

def sampleRevision : String := String.ofList (List.replicate 40 'a')

def sampleDigest : List Char := "sha256:".toList ++ List.replicate 64 'a'

def sampleImage : String := String.ofList (['r'] ++ '@' :: sampleDigest)

def requestOf (annotations : List Annotation) : ImageSignRequest :=
  ⟨sampleImage, "azurekms://vault/key", annotations, false, false, [], none, false, none⟩

theorem utf8ByteSize_replicate (n : Nat) :
    (String.ofList (List.replicate n 'a')).utf8ByteSize = n := by
  rw [String.utf8ByteSize_ofList]
  induction n with
  | zero => rfl
  | succ n ih =>
    rw [List.replicate_succ, String.utf8Len_cons, ih]
    rfl

theorem validateRevision_replicate {n : Nat} (h : 40 ≤ n ∧ n ≤ 64) :
    validateRevision (String.ofList (List.replicate n 'a')) = .ok () := by
  have hlower : (List.replicate n 'a').all isLowerHexDigit = true :=
    List.all_eq_true.mpr fun c hc => by rw [List.eq_of_mem_replicate hc]; rfl
  refine refuseIf_eq_ok.mpr ?_
  rw [isRevision, utf8ByteSize_replicate, String.toList_ofList, hlower, Bool.and_true,
    decide_eq_false_iff_not, not_not]
  exact h

theorem validateRevision_sample : validateRevision sampleRevision = .ok () :=
  validateRevision_replicate (by decide)

theorem validateKeyUri_sample : validateKeyUri "azurekms://vault/key" false = .ok () :=
  refuseIf_eq_ok.mpr (by decide)

theorem isDigestText_sample : isDigestText sampleDigest = true :=
  isDigestText_iff.mpr ⟨List.replicate 64 'a', rfl, List.length_replicate, by decide⟩

theorem validateDigestRef_sample : validateDigestRef sampleImage = .ok () :=
  validateDigestRef_ok.mpr
    ⟨['r'], sampleDigest, String.toList_ofList, by decide, by decide, isDigestText_sample⟩

theorem checkCosignVersion_willing : checkCosignVersion willingHost "cosign" = .ok () := by
  have hread (text : String) : willingHost.lossy (utf8 text) = text := by
    show (String.fromUTF8? ⟨(utf8 text).toArray⟩).getD "" = text
    rw [Trust.fromUTF8?_utf8]
    rfl
  refine @checkCosignVersion_of willingHost "cosign" ⟨true, utf8 "GitVersion: v2.4.0", utf8 ""⟩
    ['2', '.', '4', '.', '0'] rfl ?_ (by decide)
  rw [hread, hread]
  decide

theorem prepare_requestOf (annotations : List Annotation)
    (h : findRevision annotations = some sampleRevision) :
    prepare willingHost (requestOf annotations) =
      .ok ⟨"cosign", sorted annotations, sampleRevision⟩ :=
  prepare_of_explicit validateDigestRef_sample validateKeyUri_sample h validateRevision_sample rfl rfl
    checkCosignVersion_willing

end Attest.Image
