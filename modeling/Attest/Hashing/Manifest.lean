import Attest.Hashing.FileSystem
import Attest.Library.SortedMap
import Attest.Library.Text
import Attest.Publication.Note
import Attest.Trust.Specs

/-! Manifests of declared paths, as `hashing.rs` has them.

The entries of a manifest are kept in the order of their paths, each with its kind and a
digest. A path is a text without control characters, so a line of the manifest ends where
its entry does. The digest of the text is the input hash or the output hash of a step.
`manifest_determines` says what that digest commits to. -/
namespace Attest.Hashing
open Library Library.Text
open Trust (Bytes Crates utf8 hexEncode)
open Publication.Note (isControl)

def manifestHeader : String := "attest-manifest/v1"

inductive HashingError where
  | missingInput (step : String) (path : Path)
  | missingOutput (step : String) (path : Path)
  | symlinkEscape (path : Path) (target : String)
  | symlinkUndeclared (path : Path) (target : String)
  | invalidPath (path : Path) (reason : String)
  | io (path : Path) (source : IoError)
deriving DecidableEq

inductive ManifestKind where
  | input
  | output

/-! ### Entries -/

/-- A text a line of a manifest can hold. -/
abbrev ManifestPath := { text : String // ∀ c ∈ text.toList, isControl c = false }

inductive EntryKind where
  | file
  | link
deriving DecidableEq

structure EntryLine where
  kind : EntryKind
  digest : Vector UInt8 32
deriving DecidableEq

def EntryLine.text (line : EntryLine) : String :=
  (match line.kind with
    | .file => "f:"
    | .link => "l:") ++ hexEncode line.digest.toList

abbrev EntryMap := SortedMap ManifestPath EntryLine

/-! ### Paths of a manifest -/

/-- A code point with at least four digits. -/
def codePoint (c : Char) : String :=
  let digits := (Nat.toDigits 16 c.toNat).map Char.toUpper
  String.ofList (List.replicate (4 - digits.length) '0' ++ digits)

/-- One component of a path below the workspace. -/
def manifestPart (path : Path) : Component → Except HashingError ManifestPath
  | .normal name =>
    match String.fromUTF8? ⟨name.bytes.toArray⟩ with
    | none => .error (.invalidPath path "path component is not valid UTF-8")
    | some part =>
      if h : ∀ c ∈ part.toList, isControl c = false then .ok ⟨part, h⟩
      else
        .error (.invalidPath path ("path component contains the control character U+" ++
          (part.toList.find? isControl).elim "" codePoint ++
          ", which a manifest cannot represent unambiguously"))
  | _ => .error (.invalidPath path "path contains non-normal components after normalization")

/-- The parts with slashes between them. -/
def joinParts : List ManifestPath → ManifestPath
  | [] => ⟨"", by simp⟩
  | [part] => part
  | part :: next :: rest =>
    ⟨part.1 ++ "/" ++ (joinParts (next :: rest)).1, by
      intro c hc
      simp only [String.toList_append, List.mem_append] at hc
      rcases hc with (hc | hc) | hc
      · exact part.2 c hc
      · rw [List.mem_singleton.mp hc]
        decide
      · exact (joinParts (next :: rest)).2 c hc⟩

/-- The path below the workspace, with slashes and without `.` and `..`. -/
def normalizeRelative (workspace path : Path) : Except HashingError ManifestPath :=
  match (lexicalNormalize path).stripPrefix workspace with
  | none => .error (.invalidPath path "path is outside the workspace root")
  | some rel => (rel.mapM (manifestPart path)).map joinParts

/-- Refuses a link whose target is, by its text, outside the workspace. -/
def checkSymlinkContainment (workspace link target : Path) (targetText : String) :
    Except HashingError Path :=
  let resolved :=
    if target.absolute then lexicalNormalize target
    else lexicalNormalize ((link.parent.getD workspace).join target)
  if resolved.startsWith workspace then .ok resolved
  else .error (.symlinkEscape link targetText)

/-! ### Collecting -/

section Collect
variable (c : Crates) (fs : FileSystem)

/-- What is recorded of a link: the digest of its target's text. -/
def linkLine (workspace path : Path) (declared : List Path) : Except HashingError EntryLine :=
  match readLink fs path with
  | .error e => .error (.io path e)
  | .ok target =>
    match String.fromUTF8? ⟨target.toArray⟩ with
    | none => .error (.invalidPath path "symlink target is not valid UTF-8")
    | some targetText => do
      let resolved ← checkSymlinkContainment workspace path (.ofBytes target) targetText
      if declared.any fun d =>
        let root := lexicalNormalize (workspace.join d)
        decide (resolved = root) || resolved.startsWith root
      then .ok ⟨.link, c.blake3 (utf8 targetText)⟩
      else .error (.symlinkUndeclared path targetText)

/-- What is recorded of a file: the digest of its bytes. -/
def fileLine (path : Path) : Except HashingError EntryLine :=
  match readFile fs path with
  | .error e => .error (.io path e)
  | .ok bytes => .ok ⟨.file, c.blake3 bytes⟩

def addEntry (workspace : Path) (declared : List Path) (entries : EntryMap) (path : Path) :
    Except HashingError EntryMap := do
  let normalized ← normalizeRelative workspace path
  match symlinkMetadata fs path with
  | .error e => .error (.io path e)
  | .ok (.link _) => return entries.insert normalized (← linkLine c fs workspace path declared)
  | .ok _ => return entries.insert normalized (← fileLine c fs path)

/-- The entries of one declared path: itself, or what a walk finds below it. -/
def addDeclared (workspace : Path) (step : String) (declared : List Path) (kind : ManifestKind)
    (entries : EntryMap) (path : Path) : Except HashingError EntryMap :=
  match symlinkMetadata fs (workspace.join path) with
  | .error _ =>
    match kind with
    | .input => .error (.missingInput step path)
    | .output => .error (.missingOutput step path)
  | .ok (.dir names child) =>
    ((walk (workspace.join path) (.dir names child)).filter fun found => !found.2).foldlM
      (fun entries found => addEntry c fs workspace declared entries found.1) entries
  | .ok _ => addEntry c fs workspace declared entries (workspace.join path)

def collectEntries (workspace : Path) (step : String) (declared : List Path)
    (kind : ManifestKind) : Except HashingError EntryMap :=
  declared.foldlM (addDeclared c fs (lexicalNormalize workspace) step declared kind) .empty

end Collect

/-! ### Texts -/

def pushEntry (manifest line path : String) : String := manifest ++ line ++ " " ++ path ++ "\n"

/-- The entries after the lines there are. -/
def pushEntries (manifest : String) (entries : EntryMap) : String :=
  entries.entries.foldl (fun manifest entry => pushEntry manifest entry.2.text entry.1.1) manifest

def inputText (runHash : Vector UInt8 32) (entries : EntryMap) : String :=
  pushEntries (manifestHeader ++ "\nrun:" ++ hexEncode runHash.toList ++ "\n") entries

def outputText (entries : EntryMap) : String := pushEntries (manifestHeader ++ "\n") entries

section Hash
variable (c : Crates) (fs : FileSystem)

def inputManifest (workspace : Path) (step run : String) (inputs : List Path) :
    Except HashingError String := do
  let entries ← collectEntries c fs workspace step inputs .input
  return inputText (c.blake3 (utf8 run)) entries

def outputManifest (workspace : Path) (step : String) (outputs : List Path) :
    Except HashingError String := do
  let entries ← collectEntries c fs workspace step outputs .output
  return outputText entries

def hashInputs (workspace : Path) (step run : String) (inputs : List Path) :
    Except HashingError String := do
  let manifest ← inputManifest c fs workspace step run inputs
  return hexEncode (c.blake3 (utf8 manifest)).toList

def hashOutputs (workspace : Path) (step : String) (outputs : List Path) :
    Except HashingError String := do
  let manifest ← outputManifest c fs workspace step outputs
  return hexEncode (c.blake3 (utf8 manifest)).toList

end Hash

/-! ### The lines of a text -/

def headerLine : List Char := manifestHeader.toList

def runLine (runHash : Vector UInt8 32) : List Char :=
  'r' :: 'u' :: 'n' :: ':' :: (hexEncode runHash.toList).toList

def entryLine (entry : ManifestPath × EntryLine) : List Char :=
  entry.2.text.toList ++ ' ' :: entry.1.1.toList

theorem toList_pushEntry (manifest : String) (entry : ManifestPath × EntryLine) :
    (pushEntry manifest entry.2.text entry.1.1).toList =
      manifest.toList ++ entryLine entry ++ ['\n'] := by
  simp [pushEntry, entryLine]

theorem toList_pushEntries (manifest : String) (entries : EntryMap) :
    (pushEntries manifest entries).toList =
      manifest.toList ++ unlines (entries.entries.map entryLine) := by
  unfold pushEntries
  generalize entries.entries = list
  induction list generalizing manifest with
  | nil => simp
  | cons entry rest ih =>
    rw [List.foldl_cons, ih, toList_pushEntry]
    simp

theorem toList_outputText (entries : EntryMap) :
    (outputText entries).toList = unlines (headerLine :: entries.entries.map entryLine) := by
  simp [outputText, toList_pushEntries, headerLine]

theorem toList_inputText (runHash : Vector UInt8 32) (entries : EntryMap) :
    (inputText runHash entries).toList =
      unlines (headerLine :: runLine runHash :: entries.entries.map entryLine) := by
  simp [inputText, toList_pushEntries, headerLine, runLine]

/-! ### Every line can be read back -/

theorem inline_of_not_isControl {c : Char} (h : isControl c = false) : Inline c := by
  refine ⟨?_, ?_⟩
  · intro hc
    rw [hc] at h
    exact absurd h (by decide)
  · intro hc
    rw [hc] at h
    exact absurd h (by decide)

theorem inline_hexEncode {bytes : Bytes} {c : Char} (hc : c ∈ (hexEncode bytes).toList) :
    Inline c := by
  have hlower := List.all_eq_true.mp (Trust.hexEncode_all_lower bytes) c hc
  refine ⟨?_, ?_⟩
  · intro h
    rw [h] at hlower
    exact absurd hlower (by decide)
  · intro h
    rw [h] at hlower
    exact absurd hlower (by decide)

theorem inline_headerLine : ∀ c ∈ headerLine, Inline c := by
  unfold headerLine Inline
  decide +kernel

theorem inline_runLine (runHash : Vector UInt8 32) : ∀ c ∈ runLine runHash, Inline c := by
  intro c hc
  simp only [runLine, List.mem_cons] at hc
  rcases hc with rfl | rfl | rfl | rfl | hc
  · exact ⟨by decide, by decide⟩
  · exact ⟨by decide, by decide⟩
  · exact ⟨by decide, by decide⟩
  · exact ⟨by decide, by decide⟩
  · exact inline_hexEncode hc

def EntryKind.letter : EntryKind → Char
  | .file => 'f'
  | .link => 'l'

theorem EntryKind.letter_injective : Function.Injective EntryKind.letter := by
  intro a b h
  cases a <;> cases b <;> first | rfl | exact absurd h (by decide)

theorem toList_text (line : EntryLine) :
    line.text.toList = line.kind.letter :: ':' :: (hexEncode line.digest.toList).toList := by
  obtain ⟨kind, digest⟩ := line
  cases kind <;> simp [EntryLine.text, EntryKind.letter]

theorem inline_letter (kind : EntryKind) : Inline kind.letter := by
  cases kind
  · exact ⟨by decide, by decide⟩
  · exact ⟨by decide, by decide⟩

theorem inline_entryLine (entry : ManifestPath × EntryLine) : ∀ c ∈ entryLine entry, Inline c := by
  intro c hc
  simp only [entryLine, toList_text, List.mem_append, List.mem_cons] at hc
  rcases hc with (rfl | rfl | hc) | rfl | hc
  · exact inline_letter entry.2.kind
  · exact ⟨by decide, by decide⟩
  · exact inline_hexEncode hc
  · exact ⟨by decide, by decide⟩
  · exact inline_of_not_isControl (entry.1.2 c hc)

theorem blank_notMem_text (line : EntryLine) : ' ' ∉ line.text.toList := by
  rw [toList_text, List.mem_cons, List.mem_cons]
  rintro (h | h | h)
  · cases hkind : line.kind <;> rw [hkind] at h <;> exact absurd h (by decide)
  · exact absurd h (by decide)
  · have hlower := List.all_eq_true.mp (Trust.hexEncode_all_lower line.digest.toList) ' ' h
    exact absurd hlower (by decide)

theorem text_injective : Function.Injective EntryLine.text := by
  intro line line' h
  have hlist := congrArg String.toList h
  rw [toList_text, toList_text] at hlist
  simp only [List.cons.injEq, true_and] at hlist
  have hdigest : line.digest = line'.digest :=
    Vector.toList_inj.mp (Trust.hexEncode_injective (String.toList_inj.mp hlist.2))
  cases line
  cases line'
  cases EntryKind.letter_injective hlist.1
  cases hdigest
  rfl

/-- The first blank ends the digest, whatever the path looks like. -/
theorem entryLine_injective : Function.Injective entryLine := by
  intro entry entry' h
  have hsplit := congrArg (splitOnce ' ') h
  simp only [entryLine, splitOnce_append (blank_notMem_text _), Option.some.injEq,
    Prod.mk.injEq] at hsplit
  have hline := text_injective (String.toList_inj.mp hsplit.1)
  have hpath : entry.1 = entry'.1 := Subtype.ext (String.toList_inj.mp hsplit.2)
  exact Prod.ext hpath hline

theorem runLine_injective : Function.Injective runLine := by
  intro r r' h
  simp only [runLine, List.cons.injEq, true_and] at h
  exact Vector.toList_inj.mp (Trust.hexEncode_injective (String.toList_inj.mp h))

theorem runLine_ne_entryLine (runHash : Vector UInt8 32) (entry : ManifestPath × EntryLine) :
    runLine runHash ≠ entryLine entry := by
  rw [entryLine, toList_text, runLine]
  intro h
  have hletter := (List.cons.inj h).1
  cases hkind : entry.2.kind <;> rw [hkind] at hletter <;> exact absurd hletter (by decide)

theorem lines_outputText (entries : EntryMap) :
    lines (outputText entries).toList = headerLine :: entries.entries.map entryLine := by
  rw [toList_outputText, lines_unlines]
  intro line hline
  rcases List.mem_cons.mp hline with rfl | hline
  · exact inline_headerLine
  · obtain ⟨entry, _, rfl⟩ := List.mem_map.mp hline
    exact inline_entryLine entry

theorem lines_inputText (runHash : Vector UInt8 32) (entries : EntryMap) :
    lines (inputText runHash entries).toList =
      headerLine :: runLine runHash :: entries.entries.map entryLine := by
  rw [toList_inputText, lines_unlines]
  intro line hline
  rcases List.mem_cons.mp hline with rfl | hline
  · exact inline_headerLine
  · rcases List.mem_cons.mp hline with rfl | hline
    · exact inline_runLine runHash
    · obtain ⟨entry, _, rfl⟩ := List.mem_map.mp hline
      exact inline_entryLine entry

/-! ### What a text and its digest commit to -/

theorem map_entryLine_inj {m m' : EntryMap}
    (h : m.entries.map entryLine = m'.entries.map entryLine) : m = m' :=
  SortedMap.ext_entries (List.map_injective_iff.mpr entryLine_injective h)

theorem inputText_inj {r r' : Vector UInt8 32} {m m' : EntryMap}
    (h : inputText r m = inputText r' m') : r = r' ∧ m = m' := by
  have hlines := congrArg (fun text => lines text.toList) h
  simp only [lines_inputText, List.cons.injEq, true_and] at hlines
  exact ⟨runLine_injective hlines.1, map_entryLine_inj hlines.2⟩

theorem outputText_inj {m m' : EntryMap} (h : outputText m = outputText m') : m = m' := by
  have hlines := congrArg (fun text => lines text.toList) h
  simp only [lines_outputText, List.cons.injEq, true_and] at hlines
  exact map_entryLine_inj hlines

theorem inputText_ne_outputText (r : Vector UInt8 32) (m m' : EntryMap) :
    inputText r m ≠ outputText m' := by
  intro h
  have hlines := congrArg (fun text => lines text.toList) h
  simp only [lines_inputText, lines_outputText, List.cons.injEq, true_and] at hlines
  cases hentries : m'.entries with
  | nil =>
    rw [hentries] at hlines
    cases hlines
  | cons entry rest =>
    rw [hentries, List.map_cons] at hlines
    exact runLine_ne_entryLine r entry (List.cons.inj hlines).1

section Commitment
variable {c : Crates} {fs fs' : FileSystem} {workspace workspace' : Path}
  {step step' run run' : String} {inputs inputs' : List Path} {hash : String}

theorem hashInputs_eq_ok (h : hashInputs c fs workspace step run inputs = .ok hash) :
    ∃ entries, collectEntries c fs workspace step inputs .input = .ok entries ∧
      hash = hexEncode (c.blake3 (utf8 (inputText (c.blake3 (utf8 run)) entries))).toList := by
  unfold hashInputs inputManifest at h
  cases hentries : collectEntries c fs workspace step inputs .input with
  | error e =>
    rw [hentries] at h
    cases h
  | ok entries =>
    rw [hentries] at h
    exact ⟨entries, rfl, (Except.ok.inj h).symm⟩

/-- What is hashed on the way to an input hash. -/
def hashedTexts (c : Crates) (run : String) (entries : EntryMap) : Set Bytes :=
  {utf8 run, utf8 (inputText (c.blake3 (utf8 run)) entries)}

theorem digest_inj {s : Set Bytes} {a b : Bytes} (hcollision : Set.InjOn c.blake3 s) (ha : a ∈ s)
    (hb : b ∈ s) (h : hexEncode (c.blake3 a).toList = hexEncode (c.blake3 b).toList) : a = b :=
  hcollision ha hb (Vector.toList_inj.mp (Trust.hexEncode_injective h))

end Commitment

/-- **The text of a manifest determines what it was made from.** The input manifest gives
the digest of the command and the entries, the output manifest gives the entries, and no
text is both. So where no two of the texts at hand have one digest, equal input hashes
mean the same command and the same paths with the same digests. -/
theorem manifest_determines (c : Crates) :
    (∀ (r r' : Vector UInt8 32) (m m' : EntryMap),
      inputText r m = inputText r' m' → r = r' ∧ m = m') ∧
    (∀ m m' : EntryMap, outputText m = outputText m' → m = m') ∧
    (∀ (r : Vector UInt8 32) (m m' : EntryMap), inputText r m ≠ outputText m') ∧
    (∀ (fs fs' : FileSystem) (workspace workspace' : Path) (step step' run run' : String)
      (inputs inputs' : List Path) (entries entries' : EntryMap) (hash : String),
      collectEntries c fs workspace step inputs .input = .ok entries →
      collectEntries c fs' workspace' step' inputs' .input = .ok entries' →
      Set.InjOn c.blake3 (hashedTexts c run entries ∪ hashedTexts c run' entries') →
      hashInputs c fs workspace step run inputs = .ok hash →
      hashInputs c fs' workspace' step' run' inputs' = .ok hash →
      run = run' ∧ entries = entries') := by
  refine ⟨fun _ _ _ _ => inputText_inj, fun _ _ => outputText_inj, inputText_ne_outputText, ?_⟩
  intro fs fs' workspace workspace' step step' run run' inputs inputs' entries entries' hash
    hentries hentries' hcollision hhash hhash'
  obtain ⟨found, hfound, hdigest⟩ := hashInputs_eq_ok hhash
  obtain ⟨found', hfound', hdigest'⟩ := hashInputs_eq_ok hhash'
  cases hentries.symm.trans hfound
  cases hentries'.symm.trans hfound'
  have htext : utf8 (inputText (c.blake3 (utf8 run)) entries) =
      utf8 (inputText (c.blake3 (utf8 run')) entries') :=
    digest_inj hcollision (.inl (.inr rfl)) (.inr (.inr rfl)) (hdigest.symm.trans hdigest')
  obtain ⟨hrun, hsame⟩ := inputText_inj (Trust.utf8_injective htext)
  refine ⟨?_, hsame⟩
  exact Trust.utf8_injective (hcollision (.inl (.inl rfl)) (.inr (.inl rfl)) hrun)

/-! A file `a` that holds `x`, hashed in a workspace with and without another file. -/

def digestOf (n : Nat) : Vector UInt8 32 :=
  Vector.ofFn fun i => UInt8.ofNat (n / 256 ^ (31 - i.val) % 256)

/-- Two texts with two digests. -/
theorem injOn_of_pair {f : Bytes → Vector UInt8 32} {s : Set Bytes} {a b : Bytes}
    (h : ∀ bytes ∈ s, bytes = a ∨ bytes = b) (hne : f a ≠ f b) : Set.InjOn f s := by
  intro x hx y hy hxy
  rcases h x hx with rfl | rfl
  · rcases h y hy with rfl | rfl
    · rfl
    · exact absurd hxy hne
  · rcases h y hy with rfl | rfl
    · exact absurd hxy.symm hne
    · rfl

/-- The crates, as `blake3` behaves on the texts of a table. -/
def tableCrates (table : List (Bytes × Vector UInt8 32)) : Crates where
  blake3 bytes := (table.lookup bytes).getD (Vector.replicate 32 0)
  pointError _ := none
  verifyingKey _ := ⟨Vector.replicate 32 0⟩
  verify _ _ _ := false
  fromSlice _ := .error "expected value"

def nameW : Name := ⟨utf8 "w", by decide +kernel⟩
def nameA : Name := ⟨utf8 "a", by decide +kernel⟩
def nameB : Name := ⟨utf8 "b", by decide +kernel⟩

/-- The directory `/w` with these names, each a file that holds `x`. -/
def filesOfX (names : List Name) : FileSystem where
  root := .dir [nameW] fun _ => .dir names fun _ => .file (utf8 "x")
  cwd := [nameW]

def digestX : Vector UInt8 32 :=
  digestOf 0x3ae7d805f6789a6402acb70ad4096a85a56bf6804eaf25c0493ac697548d30b5

def digestTrue : Vector UInt8 32 :=
  digestOf 0xacc8a7699a2bf4cbd05f69678eac4fc236572041c28dfd0ab558e5fcf2ab6540

def entryOfX : EntryMap := SortedMap.empty.insert ⟨"a", by decide +kernel⟩ ⟨.file, digestX⟩

def cratesOfX : Crates := tableCrates
  [(utf8 "x", digestX), (utf8 "true", digestTrue),
    (utf8 (inputText digestTrue entryOfX),
      digestOf 0x88e1a6f068740d2b0729805078add176d6eb675aad6ebb7846661105337b269d)]

theorem collectEntries_filesOfX :
    collectEntries cratesOfX (filesOfX [nameA]) (.ofString "/w") "build" [.ofString "a"] .input =
        .ok entryOfX ∧
      collectEntries cratesOfX (filesOfX [nameA, nameB]) (.ofString "/w") "build"
        [.ofString "./a"] .input = .ok entryOfX := by
  refine ⟨?_, ?_⟩
  · rfl
  · rfl

theorem hashInputs_filesOfX :
    hashInputs cratesOfX (filesOfX [nameA]) (.ofString "/w") "build" "true" [.ofString "a"] =
        .ok "88e1a6f068740d2b0729805078add176d6eb675aad6ebb7846661105337b269d" ∧
      hashInputs cratesOfX (filesOfX [nameA, nameB]) (.ofString "/w") "build" "true"
        [.ofString "./a"] =
        .ok "88e1a6f068740d2b0729805078add176d6eb675aad6ebb7846661105337b269d" := by
  unfold hashInputs inputManifest
  rw [collectEntries_filesOfX.1, collectEntries_filesOfX.2]
  decide +kernel

theorem injOn_filesOfX : Set.InjOn cratesOfX.blake3
    (hashedTexts cratesOfX "true" entryOfX ∪ hashedTexts cratesOfX "true" entryOfX) := by
  have hne : cratesOfX.blake3 (utf8 "true") ≠
      cratesOfX.blake3 (utf8 (inputText (cratesOfX.blake3 (utf8 "true")) entryOfX)) := by
    decide +kernel
  rw [Set.union_self]
  rintro a (rfl | rfl) b (rfl | rfl) hab
  · rfl
  · exact absurd hab hne
  · exact absurd hab.symm hne
  · rfl

theorem manifest_determines_filesOfX :
    hashInputs cratesOfX (filesOfX [nameA]) (.ofString "/w") "build" "true" [.ofString "a"] =
        hashInputs cratesOfX (filesOfX [nameA, nameB]) (.ofString "/w") "build" "true"
          [.ofString "./a"] ∧
      "true" = "true" ∧ entryOfX = entryOfX :=
  ⟨hashInputs_filesOfX.1.trans hashInputs_filesOfX.2.symm,
    (manifest_determines cratesOfX).2.2.2 _ _ _ _ _ _ _ _ _ _ _ _ _ collectEntries_filesOfX.1
      collectEntries_filesOfX.2 injOn_filesOfX hashInputs_filesOfX.1 hashInputs_filesOfX.2⟩

end Attest.Hashing
