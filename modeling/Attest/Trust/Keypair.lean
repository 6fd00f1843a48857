import Attest.Library.RelyGuarantee
import Attest.Trust.Runs

/-! The raw keypair under `.attest/keys`, as `crypto/sign.rs` loads or generates it.

Any number of calls work on one directory at once, each with a key of its own to generate, and each
can fail or die between any two of its calls to the system. A file that is written is seen at every
length on its way. Who made `private.key` is a field of the world that the program never reads: it
says whose writes the file has. `keypairs_agree` says what holds in every state of every such run. -/
namespace Attest.Trust.Keypair
open Library Library.Process Library.Fallible

/-! ### The program -/

structure AttestKeypair where
  signingKey : SigningKey
  verifyingKey : VerifyingKey
deriving DecidableEq

/-- `AttestKeypair::from_signing_key`. -/
def fromSigningKey (c : Crates) (key : SigningKey) : AttestKeypair := ⟨key, c.verifyingKey key⟩

/-- What stands at a path. -/
inductive Entry
  | absent
  | link
  | file (content : Bytes)
deriving DecidableEq

inductive KeyFile
  | privateKey
  | publicKey
deriving DecidableEq

inductive Call
  /-- `symlink_metadata`, and whether it is a symbolic link. -/
  | isLink (file : KeyFile)
  /-- `Path::exists`. -/
  | exists (file : KeyFile)
  /-- `fs::set_permissions` of the private key. -/
  | restrict
  | read (file : KeyFile)
  | createDir
  /-- `open` of the private key with `create_new`. -/
  | createNew
  /-- `open` of a file with `create` and `truncate`. -/
  | create (file : KeyFile)
  /-- One `write` on an open file, where the last one ended. -/
  | write (file : KeyFile) (offset : Nat) (bytes : Bytes)
  | sync

def Reply : Call → Type
  | .isLink _ => Bool
  | .exists _ => Bool
  | .restrict => Except String Unit
  | .read _ => Except String Bytes
  | .createDir => Except String Unit
  | .createNew => Except String Unit
  | .create _ => Except String Unit
  | .write _ _ _ => Except String Nat
  | .sync => Except String Unit

abbrev Keying := ExceptT String (Process Call Reply)

def request (c : Call) : Keying (Reply c) := ExceptT.lift (Process.ask c)

/-- `?` on a result. -/
def orFail {α : Type} (x : Except String α) : Keying α :=
  match x with
  | .ok a => pure a
  | .error e => throw e

/-- `Write::write_all`. -/
def writeAll (file : KeyFile) (offset : Nat) (bytes : Bytes) : Keying Unit :=
  if _hbytes : bytes = [] then pure ()
  else do
    let written : Except String Nat ← request (Call.write file offset bytes)
    let n ← orFail written
    if _hzero : n = 0 then throw "failed to write whole buffer"
    else writeAll file (offset + n) (bytes.drop n)
termination_by bytes.length
decreasing_by
  have hlength := List.length_pos_iff.mpr _hbytes
  simp only [List.length_drop]
  omega

/-- `fs::write`. -/
def writeFile (file : KeyFile) (bytes : Bytes) : Keying Unit := do
  let opened : Except String Unit ← request (Call.create file)
  orFail opened
  writeAll file 0 bytes

def refuseLink (file : KeyFile) : Keying Unit := do
  let linked : Bool ← request (Call.isLink file)
  if linked then throw "refusing symbolic link for key material"

section LoadOrGenerate
variable (c : Crates)

/-- Where there is a private key. -/
def load : Keying AttestKeypair := do
  let restricted : Except String Unit ← request Call.restrict
  orFail restricted
  let found : Except String Bytes ← request (Call.read .privateKey)
  let bytes ← orFail found
  match toVector 32 bytes with
  | none => throw "Invalid private key length"
  | some seed =>
    let keypair := fromSigningKey c ⟨seed⟩
    let published : Bool ← request (Call.exists .publicKey)
    if published then
      let found : Except String Bytes ← request (Call.read .publicKey)
      let stored ← orFail found
      if stored ≠ keypair.verifyingKey.bytes.toList then
        throw "public key does not match the stored private key"
    else writeFile .publicKey keypair.verifyingKey.bytes.toList
    return keypair

/-- Where there is none. -/
def generate (key : SigningKey) : Keying AttestKeypair := do
  let published : Bool ← request (Call.exists .publicKey)
  if published then
    throw "private key is missing; refusing to replace the existing signing identity"
  let made : Except String Unit ← request Call.createDir
  orFail made
  let keypair := fromSigningKey c key
  let opened : Except String Unit ← request Call.createNew
  orFail opened
  writeAll .privateKey 0 key.seed.toList
  let synced : Except String Unit ← request Call.sync
  orFail synced
  writeFile .publicKey keypair.verifyingKey.bytes.toList
  return keypair

/-- `AttestKeypair::load_or_generate`, with the key it would generate. -/
def loadOrGenerate (key : SigningKey) : Keying AttestKeypair := do
  refuseLink .privateKey
  refuseLink .publicKey
  let stored : Bool ← request (Call.exists .privateKey)
  if stored then load c else generate c key

end LoadOrGenerate

/-! ### The directory -/

/-- The two files, and who has made the private key since the start. -/
structure KeysDir (ι : Type) where
  privateKey : Entry
  publicKey : Entry
  creator : Option ι

section Directory
variable {ι : Type}

def KeysDir.at (w : KeysDir ι) : KeyFile → Entry
  | .privateKey => w.privateKey
  | .publicKey => w.publicKey

def KeysDir.put (w : KeysDir ι) (file : KeyFile) (entry : Entry) : KeysDir ι :=
  match file with
  | .privateKey => { w with privateKey := entry }
  | .publicKey => { w with publicKey := entry }

/-- Bytes written over a content, which is filled up to where they start. -/
def overwrite (content : Bytes) (offset : Nat) (bytes : Bytes) : Bytes :=
  content.take offset ++ List.replicate (offset - content.length) 0 ++ bytes ++
    content.drop (offset + bytes.length)

/-- What a call of one of them can be answered, and what becomes of the directory. -/
def Answers (i : ι) (w : KeysDir ι) : (e : Call) → Reply e → KeysDir ι → Prop
  | .isLink file, r, w' => w' = w ∧ (r = true ↔ w.at file = .link)
  | .exists file, r, w' => w' = w ∧ (w.at file ≠ .link → (r = true ↔ w.at file ≠ .absent))
  | .read file, r, w' => w' = w ∧ ∀ bytes, r = .ok bytes → w.at file ≠ .link → w.at file = .file bytes
  | .createNew, r, w' =>
    match r with
    | .ok () => w.privateKey = .absent ∧ w' = { w with privateKey := .file [], creator := some i }
    | .error _ => w' = w
  | .create file, r, w' =>
    match r with
    -- A link would have it made elsewhere.
    | .ok () => w' = if w.at file = .link then w else w.put file (.file [])
    | .error _ => w' = w
  | .write file offset bytes, r, w' =>
    match r with
    | .ok n => n ≤ bytes.length ∧ ∃ content, w.at file = .file content ∧
        w' = w.put file (.file (overwrite content offset (bytes.take n)))
    | .error _ => w' = w
  | _, _, w' => w' = w

/-! ### What each leaves the others -/

variable (privateStart publicStart : Entry) (keys : ι → SigningKey)

/-- What all of them keep: a private key that was there at the start stays, one that is made since is
as far as it has been written, and none is made beside a public key. -/
structure Sound (w : KeysDir ι) : Prop where
  kept : privateStart ≠ .absent → w.privateKey = privateStart ∧ w.creator = none
  made : privateStart = .absent → (w.privateKey = .absent ∧ w.creator = none) ∨
    ∃ i n, w.creator = some i ∧ w.privateKey = .file ((keys i).seed.toList.take n)
  published : publicStart ≠ .absent →
    w.publicKey = publicStart ∧ (privateStart = .absent → w.privateKey = .absent)

/-- Nothing is taken away. -/
structure Grows (w w' : KeysDir ι) : Prop where
  content : ∀ content, w.privateKey = .file content →
    ∃ content', w'.privateKey = .file content' ∧ content <+: content'
  privateLink : w.privateKey ≠ .link → w'.privateKey ≠ .link
  publicLink : w.publicKey ≠ .link → w'.publicKey ≠ .link

/-- What one relies on: the private key that it has made is its own to write. -/
structure Rely (i : ι) (w w' : KeysDir ι) : Prop where
  sound : Sound privateStart publicStart keys w → Sound privateStart publicStart keys w'
  grows : Grows w w'
  own : w.creator = some i → w'.creator = some i ∧ w'.privateKey = w.privateKey

/-- What one guarantees. -/
structure Guar (i : ι) (w w' : KeysDir ι) : Prop where
  sound : Sound privateStart publicStart keys w → Sound privateStart publicStart keys w'
  grows : Grows w w'
  others : ∀ j, j ≠ i → w.creator = some j → w'.creator = some j ∧ w'.privateKey = w.privateKey

end Directory

section Relations
variable {ι : Type} {privateStart publicStart : Entry} {keys : ι → SigningKey} {i : ι}
  {w w' w'' : KeysDir ι}

theorem Grows.refl (w : KeysDir ι) : Grows w w where
  content content h := ⟨content, h, List.prefix_refl _⟩
  privateLink h := h
  publicLink h := h

theorem Grows.trans (h : Grows w w') (h' : Grows w' w'') : Grows w w'' where
  content content hcontent := by
    obtain ⟨content', hcontent', hprefix⟩ := h.content content hcontent
    obtain ⟨content'', hcontent'', hprefix'⟩ := h'.content content' hcontent'
    exact ⟨content'', hcontent'', hprefix.trans hprefix'⟩
  privateLink hlink := h'.privateLink (h.privateLink hlink)
  publicLink hlink := h'.publicLink (h.publicLink hlink)

theorem Rely.refl (i : ι) (w : KeysDir ι) : Rely privateStart publicStart keys i w w :=
  ⟨fun h => h, .refl w, fun h => ⟨h, rfl⟩⟩

theorem Rely.trans (h : Rely privateStart publicStart keys i w w')
    (h' : Rely privateStart publicStart keys i w' w'') :
    Rely privateStart publicStart keys i w w'' where
  sound hsound := h'.sound (h.sound hsound)
  grows := h.grows.trans h'.grows
  own hown := by
    obtain ⟨hcreator, hkey⟩ := h.own hown
    obtain ⟨hcreator', hkey'⟩ := h'.own hcreator
    exact ⟨hcreator', hkey'.trans hkey⟩

theorem Guar.refl (i : ι) (w : KeysDir ι) : Guar privateStart publicStart keys i w w :=
  ⟨fun h => h, .refl w, fun _ _ h => ⟨h, rfl⟩⟩

/-- What one guarantees is what the others rely on. -/
theorem Guar.rely {j : ι} (h : Guar privateStart publicStart keys i w w') (hne : i ≠ j) :
    Rely privateStart publicStart keys j w w' :=
  ⟨h.sound, h.grows, fun hown => h.others j (Ne.symm hne) hown⟩

end Relations

/-! ### One of them -/

section One
variable {ι : Type} {privateStart publicStart : Entry} {keys : ι → SigningKey} {i : ι}
  {w w' : KeysDir ι} {α β : Type}

/-- What holds of a result, whatever the others do. -/
def Does (privateStart publicStart : Entry) (keys : ι → SigningKey) (i : ι) (x : Keying α)
    (w : KeysDir ι) (good : α → KeysDir ι → Prop) : Prop :=
  Guarded (Answers i) (Rely privateStart publicStart keys i) (Guar privateStart publicStart keys i)
    (fun r w => ∀ a, r = .ok a → good a w) x.run w

theorem does_pure {a : α} {good : α → KeysDir ι → Prop}
    (h : ∀ w', Rely privateStart publicStart keys i w w' → good a w') :
    Does privateStart publicStart keys i (pure a) w good := by
  intro w' hrely b hb
  obtain rfl := Except.ok.inj hb
  exact h w' hrely

theorem does_throw {e : String} {good : α → KeysDir ι → Prop} :
    Does privateStart publicStart keys i (throw e) w good := by
  intro w' _ a ha
  cases ha

theorem does_bind {x : Keying α} {f : α → Keying β} {good : β → KeysDir ι → Prop}
    (h : Does privateStart publicStart keys i x w fun a w =>
      Does privateStart publicStart keys i (f a) w good) :
    Does privateStart publicStart keys i (x >>= f) w good := by
  refine guarded_bind (Rely.refl i) (Guarded.mono h ?_)
  intro r w hr
  cases r with
  | ok a => exact hr a rfl
  | error e =>
    intro w' _ b hb
    cases hb

theorem Does.mono {x : Keying α} {good good' : α → KeysDir ι → Prop}
    (h : Does privateStart publicStart keys i x w good) (hgood : ∀ a w, good a w → good' a w) :
    Does privateStart publicStart keys i x w good' :=
  Guarded.mono h fun _ w hr a ha => hgood a w (hr a ha)

theorem does_question {x : Except String α} {f : α → Keying β} {good : β → KeysDir ι → Prop}
    (h : ∀ a, x = .ok a → Does privateStart publicStart keys i (f a) w good) :
    Does privateStart publicStart keys i (orFail x >>= f) w good := by
  cases x with
  | ok a => exact h a rfl
  | error e => exact does_throw

theorem does_request {e : Call} {f : Reply e → Keying β} {good : β → KeysDir ι → Prop}
    (h : ∀ w', Rely privateStart publicStart keys i w w' → ∀ r w'', Answers i w' e r w'' →
      Guar privateStart publicStart keys i w' w'' ∧
        Does privateStart publicStart keys i (f r) w'' good) :
    Does privateStart publicStart keys i (request e >>= f) w good := h

/-- A call that leaves the directory alone. -/
theorem does_quiet {e : Call} {f : Reply e → Keying β} {good : β → KeysDir ι → Prop}
    (hquiet : ∀ w r w', Answers i w e r w' → w' = w)
    (h : ∀ w', Rely privateStart publicStart keys i w w' → ∀ r, Answers i w' e r w' →
      Does privateStart publicStart keys i (f r) w' good) :
    Does privateStart publicStart keys i (request e >>= f) w good := by
  refine does_request ?_
  intro w' hrely r w'' hanswers
  obtain rfl := hquiet w' r w'' hanswers
  exact ⟨.refl i _, h _ hrely r hanswers⟩

/-! ### The files -/

/-- The directory is sound and has no links. -/
structure Ready (privateStart publicStart : Entry) (keys : ι → SigningKey) (w : KeysDir ι) : Prop where
  sound : Sound privateStart publicStart keys w
  privateLink : w.privateKey ≠ .link
  publicLink : w.publicKey ≠ .link

theorem Ready.later (h : Ready privateStart publicStart keys w)
    (hrely : Rely privateStart publicStart keys i w w') : Ready privateStart publicStart keys w' :=
  ⟨hrely.sound h.sound, hrely.grows.privateLink h.privateLink, hrely.grows.publicLink h.publicLink⟩

/-- The private key is there, all of it. -/
def Stored (key : SigningKey) (w : KeysDir ι) : Prop := w.privateKey = .file key.seed.toList

/-- A whole private key stays as it is. -/
theorem Stored.later {key : SigningKey} (h : Stored key w)
    (hsound : Sound privateStart publicStart keys w)
    (hrely : Rely privateStart publicStart keys i w w') : Stored key w' := by
  have hsound' := hrely.sound hsound
  by_cases hstart : privateStart = .absent
  · obtain ⟨content, hcontent, hprefix⟩ := hrely.grows.content _ h
    rcases hsound'.made hstart with ⟨habsent, _⟩ | ⟨j, n, _, hmade⟩
    · rw [hcontent] at habsent
      cases habsent
    · obtain rfl := Entry.file.inj (hcontent.symm.trans hmade)
      have hlength : ((keys j).seed.toList.take n).length ≤ key.seed.toList.length := by
        simp
      rw [Stored, hcontent, hprefix.eq_of_length_le hlength]
  · rw [Stored, (hsound'.kept hstart).1, ← (hsound.kept hstart).1, h]

/-- Writing the public key leaves the private one alone. -/
theorem put_public {entry : Entry} (hpublic : publicStart = .absent) (hentry : entry ≠ .link) :
    Rely privateStart publicStart keys i w (w.put .publicKey entry) ∧
      Guar privateStart publicStart keys i w (w.put .publicKey entry) := by
  have hsound : Sound privateStart publicStart keys w →
      Sound privateStart publicStart keys (w.put .publicKey entry) :=
    fun h => ⟨h.kept, h.made, fun hne => absurd hpublic hne⟩
  have hgrows : Grows w (w.put .publicKey entry) :=
    ⟨fun content h => ⟨content, h, List.prefix_refl _⟩, fun h => h, fun _ => hentry⟩
  exact ⟨⟨hsound, hgrows, fun h => ⟨h, rfl⟩⟩, hsound, hgrows, fun _ _ h => ⟨h, rfl⟩⟩

theorem does_writeAll_public (hpublic : publicStart = .absent) (bytes : Bytes) :
    ∀ (offset : Nat) (w : KeysDir ι), Does privateStart publicStart keys i
      (writeAll .publicKey offset bytes) w fun _ w' => Rely privateStart publicStart keys i w w' := by
  induction hn : bytes.length using Nat.strong_induction_on generalizing bytes with
  | _ n ih =>
    intro offset w
    unfold writeAll
    split
    next => exact does_pure fun w' hrely => hrely
    next hbytes =>
      refine does_request ?_
      intro w₁ hrely₁ written w₂ hanswers
      cases written with
      | error e =>
        obtain rfl : w₂ = w₁ := hanswers
        exact ⟨.refl i _, does_throw⟩
      | ok count =>
        obtain ⟨_, content, _, rfl⟩ := hanswers
        obtain ⟨hrely₂, hguar⟩ := @put_public ι privateStart publicStart keys i w₁
          (.file (overwrite content offset (bytes.take count))) hpublic (fun h => nomatch h)
        refine ⟨hguar, does_question fun count' hcount => ?_⟩
        obtain rfl := Except.ok.inj hcount
        split
        next => exact does_throw
        next hzero =>
          have hlength := List.length_pos_iff.mpr hbytes
          have hless : (bytes.drop count).length < n := by
            rw [List.length_drop]
            omega
          refine (ih _ hless _ rfl (offset + count) _).mono ?_
          intro _ w₃ hrely₃
          exact (hrely₁.trans hrely₂).trans hrely₃

theorem does_writeFile_public (hpublic : publicStart = .absent) {bytes : Bytes}
    (hready : Ready privateStart publicStart keys w) :
    Does privateStart publicStart keys i (writeFile .publicKey bytes) w
      fun _ w' => Rely privateStart publicStart keys i w w' := by
  unfold writeFile
  refine does_request ?_
  intro w₁ hrely₁ opened w₂ hanswers
  cases opened with
  | error e =>
    obtain rfl : w₂ = w₁ := hanswers
    exact ⟨.refl i _, does_throw⟩
  | ok u =>
    have hcreated : w₂ = if w₁.publicKey = .link then w₁ else w₁.put .publicKey (.file []) := hanswers
    rw [if_neg (hready.later hrely₁).publicLink] at hcreated
    obtain ⟨hrely₂, hguar⟩ :=
      @put_public ι privateStart publicStart keys i w₁ (.file []) hpublic (fun h => nomatch h)
    rw [← hcreated] at hrely₂ hguar
    refine ⟨hguar, does_question fun _ _ => ?_⟩
    refine (does_writeAll_public hpublic bytes 0 w₂).mono ?_
    intro _ w₃ hrely₃
    exact (hrely₁.trans hrely₂).trans hrely₃

/-- The private key, as far as its creator has written it. -/
structure Writing (keys : ι → SigningKey) (i : ι) (count : Nat) (w : KeysDir ι) : Prop where
  creator : w.creator = some i
  content : w.privateKey = .file ((keys i).seed.toList.take count)

theorem Writing.later {count : Nat} (h : Writing keys i count w)
    (hrely : Rely privateStart publicStart keys i w w') : Writing keys i count w' := by
  obtain ⟨hcreator, hkey⟩ := hrely.own h.creator
  exact ⟨hcreator, hkey.trans h.content⟩

theorem overwrite_take {bytes : Bytes} {count n : Nat} (h : count ≤ bytes.length) :
    overwrite (bytes.take count) count ((bytes.drop count).take n) = bytes.take (count + n) := by
  have hlength : (bytes.take count).length = count := List.length_take_of_le h
  have hend : (bytes.take count).drop (count + ((bytes.drop count).take n).length) = [] :=
    List.drop_eq_nil_of_le (hlength.trans_le (Nat.le_add_right _ _))
  rw [overwrite, hend, hlength, Nat.sub_self, List.replicate_zero, List.append_nil, List.append_nil,
    List.take_take, Nat.min_self, List.take_add]

/-- The creator writes on. -/
theorem guar_writing (hprivate : privateStart = .absent) (hpublic : publicStart = .absent)
    {count n : Nat} (h : Writing keys i count w) :
    Guar privateStart publicStart keys i w
      (w.put .privateKey (.file ((keys i).seed.toList.take (count + n)))) where
  sound _ :=
    ⟨fun hne => absurd hprivate hne, fun _ => .inr ⟨i, count + n, h.creator, rfl⟩,
      fun hne => absurd hpublic hne⟩
  grows := by
    refine ⟨?_, fun _ => (fun hlink => nomatch hlink), fun hlink => hlink⟩
    intro content hcontent
    obtain rfl := Entry.file.inj (h.content.symm.trans hcontent)
    exact ⟨_, rfl, List.take_prefix_take_left (Nat.le_add_right _ _)⟩
  others j hj hcreator := absurd (Option.some.inj (hcreator.symm.trans h.creator)) hj

theorem does_writeAll_private (hprivate : privateStart = .absent) (hpublic : publicStart = .absent) :
    ∀ (left count : Nat) (w : KeysDir ι), left + count = 32 → Ready privateStart publicStart keys w →
      Writing keys i count w →
      Does privateStart publicStart keys i
        (writeAll .privateKey count ((keys i).seed.toList.drop count)) w fun _ w' =>
          Ready privateStart publicStart keys w' ∧ Writing keys i 32 w' := by
  intro left
  induction left using Nat.strong_induction_on with
  | _ left ih =>
    intro count w hcount hready hwriting
    have hlength : (keys i).seed.toList.length = 32 := by simp
    unfold writeAll
    split
    next hend =>
      have hall := List.drop_eq_nil_iff.mp hend
      obtain rfl : count = 32 := by omega
      exact does_pure fun w' hrely => ⟨hready.later hrely, hwriting.later hrely⟩
    next hbytes =>
      refine does_request ?_
      intro w₁ hrely₁ written w₂ hanswers
      have hready₁ := hready.later hrely₁
      have hwriting₁ := hwriting.later hrely₁
      cases written with
      | error e =>
        obtain rfl : w₂ = w₁ := hanswers
        exact ⟨.refl i _, does_throw⟩
      | ok n =>
        obtain ⟨hn, content, hcontent, rfl⟩ := hanswers
        rw [List.length_drop, hlength] at hn
        obtain rfl := Entry.file.inj (hwriting₁.content.symm.trans hcontent)
        rw [overwrite_take (by omega)]
        have hguar := guar_writing hprivate hpublic hwriting₁ (n := n)
        refine ⟨hguar, does_question fun n' hn' => ?_⟩
        obtain rfl := Except.ok.inj hn'
        split
        next => exact does_throw
        next hzero =>
          rw [List.drop_drop]
          have hready₂ := hguar.sound hready₁.sound
          refine ih (left - n) (by omega) (count + n) _ (by omega) ?_ ⟨hwriting₁.creator, rfl⟩
          exact ⟨hready₂, (fun hlink => nomatch hlink), hready₁.publicLink⟩

/-! ### The calls -/

section Calls
variable {c : Crates}

/-- What a call that returns says: its key is the stored one, and one of those that were there or
were generated. -/
def Promise (c : Crates) (privateStart : Entry) (keys : ι → SigningKey) (keypair : AttestKeypair)
    (w : KeysDir ι) : Prop :=
  ∃ key, keypair = fromSigningKey c key ∧ Stored key w ∧
    (privateStart = .absent → ∃ j, key = keys j)

theorem Promise.of_stored {key : SigningKey} (hready : Ready privateStart publicStart keys w)
    (hstored : Stored key w) (hsource : privateStart = .absent → ∃ j, key = keys j)
    (hrely : Rely privateStart publicStart keys i w w') :
    Promise c privateStart keys (fromSigningKey c key) w' :=
  ⟨key, rfl, hstored.later hready.sound hrely, hsource⟩

/-- Thirty-two bytes that are read are a whole key. -/
theorem source_of_stored {key : SigningKey} (hsound : Sound privateStart publicStart keys w)
    (hstored : Stored key w) (hstart : privateStart = .absent) : ∃ j, key = keys j := by
  rcases hsound.made hstart with ⟨habsent, _⟩ | ⟨j, n, _, hmade⟩
  · rw [hstored] at habsent
    cases habsent
  · have htake := Entry.file.inj (hstored.symm.trans hmade)
    have hlength := congrArg List.length htake
    simp only [Vector.length_toList, List.length_take] at hlength
    have hall : (keys j).seed.toList.take n = (keys j).seed.toList := by
      apply List.take_of_length_le
      simp only [Vector.length_toList]
      omega
    rw [hall] at htake
    refine ⟨j, ?_⟩
    have hseed := Vector.toList_inj.mp htake
    obtain ⟨seed⟩ := key
    exact congrArg SigningKey.mk hseed

theorem does_load (hready : Ready privateStart publicStart keys w) :
    Does privateStart publicStart keys i (load c) w (Promise c privateStart keys) := by
  unfold load
  refine does_quiet (fun _ _ _ h => h) fun w₁ hrely₁ restricted _ => ?_
  refine does_question fun _ _ => ?_
  refine does_quiet (fun _ _ _ h => h.1) fun w₂ hrely₂ found hfound => ?_
  refine does_question fun bytes hbytes => ?_
  have hready₂ := (hready.later hrely₁).later hrely₂
  have hcontent := hfound.2 bytes hbytes hready₂.privateLink
  split
  next => exact does_throw
  next seed hseed =>
    have hstored : Stored ⟨seed⟩ w₂ := by
      unfold toVector at hseed
      split at hseed
      next =>
        obtain rfl := Option.some.inj hseed
        exact hcontent
      next => cases hseed
    have hsource := source_of_stored hready₂.sound hstored
    refine does_quiet (fun _ _ _ h => h.1) fun w₃ hrely₃ published hpublished => ?_
    have hready₃ := hready₂.later hrely₃
    have hstored₃ := hstored.later hready₂.sound hrely₃
    dsimp only
    split
    next =>
      refine does_quiet (fun _ _ _ h => h.1) fun w₄ hrely₄ other _ => ?_
      refine does_question fun stored _ => ?_
      have hready₄ := hready₃.later hrely₄
      have hstored₄ := hstored₃.later hready₃.sound hrely₄
      split
      next => exact does_bind (does_throw)
      next => exact does_pure fun w' hrely => .of_stored hready₄ hstored₄ hsource hrely
    next hnot =>
      have habsent : w₃.publicKey = .absent := by
        by_contra hne
        exact hnot ((hpublished.2 hready₃.publicLink).mpr hne)
      have hpublic : publicStart = .absent := by
        by_contra hne
        exact hne ((hready₃.sound.published hne).1.symm.trans habsent)
      refine does_bind ((does_writeFile_public hpublic hready₃).mono ?_)
      intro _ w₄ hrely₄
      have hready₄ := hready₃.later hrely₄
      have hstored₄ := hstored₃.later hready₃.sound hrely₄
      exact does_pure fun w' hrely => .of_stored hready₄ hstored₄ hsource hrely

theorem guar_created (hprivate : privateStart = .absent) (hpublic : publicStart = .absent)
    (hsound : Sound privateStart publicStart keys w) (hnone : w.privateKey = .absent) :
    Guar privateStart publicStart keys i w { w with privateKey := .file [], creator := some i } where
  sound _ :=
    ⟨fun hne => absurd hprivate hne, fun _ => .inr ⟨i, 0, rfl, rfl⟩, fun hne => absurd hpublic hne⟩
  grows := by
    refine ⟨?_, fun _ => (fun hlink => nomatch hlink), fun hlink => hlink⟩
    intro content hcontent
    rw [hnone] at hcontent
    cases hcontent
  others := by
    intro j _ hcreator
    rcases hsound.made hprivate with ⟨_, hnobody⟩ | ⟨_, _, _, hmade⟩
    · rw [hnobody] at hcreator
      cases hcreator
    · rw [hnone] at hmade
      cases hmade

theorem does_generate (hprivate : privateStart = .absent)
    (hready : Ready privateStart publicStart keys w) :
    Does privateStart publicStart keys i (generate c (keys i)) w (Promise c privateStart keys) := by
  unfold generate
  refine does_quiet (fun _ _ _ h => h.1) fun w₁ hrely₁ published hpublished => ?_
  have hready₁ := hready.later hrely₁
  split
  next => exact does_bind does_throw
  next hnot =>
    have habsent : w₁.publicKey = .absent := by
      by_contra hne
      exact hnot ((hpublished.2 hready₁.publicLink).mpr hne)
    have hpublic : publicStart = .absent := by
      by_contra hne
      exact hne ((hready₁.sound.published hne).1.symm.trans habsent)
    refine does_quiet (fun _ _ _ h => h) fun w₂ hrely₂ made _ => ?_
    refine does_question fun _ _ => ?_
    refine does_request ?_
    intro w₃ hrely₃ opened w₄ hanswers
    have hready₃ := (hready₁.later hrely₂).later hrely₃
    cases opened with
    | error e =>
      obtain rfl : w₄ = w₃ := hanswers
      exact ⟨.refl i _, does_throw⟩
    | ok u =>
      obtain ⟨hnone, rfl⟩ := hanswers
      have hguar : Guar privateStart publicStart keys i w₃ _ :=
        guar_created hprivate hpublic hready₃.sound hnone
      have hready₄ : Ready privateStart publicStart keys
          { w₃ with privateKey := .file [], creator := some i } :=
        ⟨hguar.sound hready₃.sound, (fun hlink => nomatch hlink), hready₃.publicLink⟩
      refine ⟨hguar, does_question fun _ _ => ?_⟩
      refine does_bind ((does_writeAll_private hprivate hpublic 32 0 _ rfl hready₄ ⟨rfl, rfl⟩).mono ?_)
      intro _ w₅ hwritten
      obtain ⟨hready₅, hwriting₅⟩ := hwritten
      refine does_quiet (fun _ _ _ h => h) fun w₆ hrely₆ synced _ => ?_
      refine does_question fun _ _ => ?_
      have hready₆ := hready₅.later hrely₆
      have hstored₆ : Stored (keys i) w₆ := by
        rw [Stored, (hwriting₅.later hrely₆).content, List.take_of_length_le]
        simp
      refine does_bind ((does_writeFile_public hpublic hready₆).mono ?_)
      intro _ w₇ hrely₇
      have hready₇ := hready₆.later hrely₇
      have hstored₇ := hstored₆.later hready₆.sound hrely₇
      exact does_pure fun w' hrely => .of_stored hready₇ hstored₇ (fun _ => ⟨i, rfl⟩) hrely

theorem does_refuseLink {file : KeyFile} :
    Does privateStart publicStart keys i (refuseLink file) w fun _ w' =>
      Rely privateStart publicStart keys i w w' ∧ w'.at file ≠ .link := by
  unfold refuseLink
  refine does_quiet (fun _ _ _ h => h.1) fun w₁ hrely₁ linked hlinked => ?_
  split
  next => exact does_throw
  next hnot =>
    have hne : w₁.at file ≠ .link := fun hlink => hnot (hlinked.2.mpr hlink)
    refine does_pure fun w' hrely => ⟨hrely₁.trans hrely, ?_⟩
    cases file with
    | privateKey => exact hrely.grows.privateLink hne
    | publicKey => exact hrely.grows.publicLink hne

theorem does_loadOrGenerate (hsound : Sound privateStart publicStart keys w) :
    Does privateStart publicStart keys i (loadOrGenerate c (keys i)) w
      (Promise c privateStart keys) := by
  unfold loadOrGenerate
  refine does_bind (does_refuseLink.mono ?_)
  intro _ w₁ hfirst
  refine does_bind (does_refuseLink.mono ?_)
  intro _ w₂ hsecond
  refine does_quiet (fun _ _ _ h => h.1) fun w₃ hrely₃ stored hstored => ?_
  have hready₂ : Ready privateStart publicStart keys w₂ :=
    ⟨hsecond.1.sound (hfirst.1.sound hsound), hsecond.1.grows.privateLink hfirst.2, hsecond.2⟩
  have hready₃ := hready₂.later hrely₃
  split
  next => exact does_load hready₃
  next hnot =>
    have habsent : w₃.privateKey = .absent := by
      by_contra hne
      exact hnot ((hstored.2 hready₃.privateLink).mpr hne)
    have hprivate : privateStart = .absent := by
      by_contra hne
      exact hne ((hready₃.sound.kept hne).1.symm.trans habsent)
    exact does_generate hprivate hready₃

end Calls

end One

/-! ### All of them -/

section All
variable {ι : Type} [DecidableEq ι] {c : Crates} {privateStart publicStart : Entry}
  {keys : ι → SigningKey} {pool : Pool ι Call Reply (KeysDir ι) (Except String AttestKeypair)}

/-- Calls that have not begun, on a directory as it stands. -/
def begin (c : Crates) (privateStart publicStart : Entry) (keys : ι → SigningKey) :
    Pool ι Call Reply (KeysDir ι) (Except String AttestKeypair) :=
  ⟨fun i => (loadOrGenerate c (keys i)).run, ⟨privateStart, publicStart, none⟩⟩

/-- What all calls on one directory agree on. -/
structure Agreement (c : Crates) (privateStart publicStart : Entry) (keys : ι → SigningKey)
    (pool : Pool ι Call Reply (KeysDir ι) (Except String AttestKeypair)) : Prop where
  /-- Whoever returns has the one key that is stored. -/
  one : ∃ key, ∀ i keypair, pool.parties i = .done (.ok keypair) →
    keypair = fromSigningKey c key ∧ pool.world.privateKey = .file key.seed.toList
  /-- A private key that was there is never replaced. -/
  kept : privateStart ≠ .absent → pool.world.privateKey = privateStart
  /-- One that was not there is one that a call has generated. -/
  generated : privateStart = .absent → ∀ i keypair, pool.parties i = .done (.ok keypair) →
    ∃ j, keypair = fromSigningKey c (keys j)
  /-- A public key that was there is never replaced, and without its private key it keeps
  everybody from making another. -/
  published : publicStart ≠ .absent → pool.world.publicKey = publicStart ∧
    (privateStart = .absent → pool.world.privateKey = .absent ∧
      ∀ i keypair, pool.parties i ≠ .done (.ok keypair))

/-- **One identity.** Whatever calls work on one directory at once, in whatever order and however
they fail or die, those that return have one key between them. -/
theorem keypairs_agree
    (h : Relation.ReflTransGen (Pool.Goes Answers) (begin c privateStart publicStart keys) pool) :
    Agreement c privateStart publicStart keys pool := by
  have hsound : Sound privateStart publicStart keys ⟨privateStart, publicStart, none⟩ :=
    ⟨fun _ => ⟨rfl, rfl⟩, fun hstart => .inl ⟨hstart, rfl⟩, fun _ => ⟨rfl, fun hstart => hstart⟩⟩
  have hstart : Pool.AllGuarded Answers (Rely privateStart publicStart keys)
      (Guar privateStart publicStart keys)
      (fun _ r w => ∀ keypair, r = .ok keypair → Promise c privateStart keys keypair w)
      (Sound privateStart publicStart keys) (begin c privateStart publicStart keys) :=
    ⟨fun _ => does_loadOrGenerate hsound, hsound⟩
  have hguarded := Pool.guarded_of_goes (fun i w => Rely.refl i w)
    (fun _ _ _ _ h h' => Rely.trans h h') (fun _ _ _ _ hne h => Guar.rely h hne)
    (fun _ _ _ h hw => h.sound hw) hstart h
  have hpromise : ∀ i keypair, pool.parties i = .done (.ok keypair) →
      Promise c privateStart keys keypair pool.world := by
    intro i keypair hdone
    exact hguarded.done (fun i w => Rely.refl i w) hdone keypair rfl
  constructor
  · by_cases hany : ∃ key, pool.world.privateKey = .file (SigningKey.seed key).toList
    · obtain ⟨key, hkey⟩ := hany
      refine ⟨key, ?_⟩
      intro i keypair hdone
      obtain ⟨key', rfl, hstored, _⟩ := hpromise i keypair hdone
      have hseed := Vector.toList_inj.mp (Entry.file.inj (hstored.symm.trans hkey))
      obtain ⟨seed⟩ := key
      obtain ⟨seed'⟩ := key'
      obtain rfl : seed' = seed := hseed
      exact ⟨rfl, hkey⟩
    · refine ⟨⟨Vector.replicate 32 0⟩, ?_⟩
      intro i keypair hdone
      obtain ⟨key', _, hstored, _⟩ := hpromise i keypair hdone
      exact absurd ⟨key', hstored⟩ hany
  · intro hstart
    exact (hguarded.world.kept hstart).1
  · intro hstart i keypair hdone
    obtain ⟨key, rfl, _, hsource⟩ := hpromise i keypair hdone
    obtain ⟨j, rfl⟩ := hsource hstart
    exact ⟨j, rfl⟩
  · intro hstart
    obtain ⟨hpublic, habsent⟩ := hguarded.world.published hstart
    refine ⟨hpublic, fun hprivate => ⟨habsent hprivate, ?_⟩⟩
    intro i keypair hdone
    obtain ⟨key, _, hstored, _⟩ := hpromise i keypair hdone
    rw [Stored, habsent hprivate] at hstored
    cases hstored

end All

/-! ### Two calls -/

/-- A directory that answers, and writes whole. -/
def perform (i : Bool) (w : KeysDir Bool) : (e : Call) → Reply e × KeysDir Bool
  | .isLink file => (decide (w.at file = .link), w)
  | .exists file => (decide (w.at file ≠ .absent), w)
  | .restrict => (.ok (), w)
  | .read file =>
    match w.at file with
    | .file content => (.ok content, w)
    | _ => (.error "No such file or directory (os error 2)", w)
  | .createDir => (.ok (), w)
  | .createNew =>
    if w.privateKey = .absent then (.ok (), { w with privateKey := .file [], creator := some i })
    else (.error "File exists (os error 17)", w)
  | .create file => (.ok (), if w.at file = .link then w else w.put file (.file []))
  | .write file offset bytes =>
    match w.at file with
    | .file content => (.ok bytes.length, w.put file (.file (overwrite content offset bytes)))
    | _ => (.error "Bad file descriptor (os error 9)", w)
  | .sync => (.ok (), w)

theorem answers_perform (i : Bool) (w : KeysDir Bool) (e : Call) :
    Answers i w e (perform i w e).1 (perform i w e).2 := by
  cases e with
  | isLink file => exact ⟨rfl, decide_eq_true_iff⟩
  | «exists» file => exact ⟨rfl, fun _ => decide_eq_true_iff⟩
  | restrict => rfl
  | read file =>
    cases hentry : w.at file with
    | file content =>
      simp only [perform, hentry]
      refine ⟨rfl, fun bytes hbytes _ => ?_⟩
      obtain rfl := Except.ok.inj hbytes
      exact hentry
    | absent =>
      simp only [perform, hentry]
      exact ⟨rfl, fun bytes hbytes => nomatch hbytes⟩
    | link =>
      simp only [perform, hentry]
      exact ⟨rfl, fun bytes hbytes => nomatch hbytes⟩
  | createDir => rfl
  | createNew =>
    by_cases habsent : w.privateKey = .absent
    · simp only [perform, habsent, if_true]
      exact ⟨habsent, rfl⟩
    · simp only [perform, habsent, if_false]
      rfl
  | create file => rfl
  | write file offset bytes =>
    cases hentry : w.at file with
    | file content =>
      simp only [perform, hentry]
      refine ⟨le_refl _, content, hentry, ?_⟩
      rw [List.take_length]
    | absent =>
      simp only [perform, hentry]
      rfl
    | link =>
      simp only [perform, hentry]
      rfl
  | sync => rfl

section Alone
variable {i : Bool} {w w' : KeysDir Bool} {α β : Type} {x : Keying α} {f : α → Keying β} {a : α}

theorem run_onward (h : x.run.run (perform i) w = (.ok a, w')) :
    (x >>= f).run.run (perform i) w = (f a).run.run (perform i) w' := by
  show (x.run >>= ExceptT.bindCont f).run (perform i) w = _
  rw [run_bind, h]
  rfl

theorem run_writeAll {file : KeyFile} {content bytes : Bytes} {offset : Nat} (hbytes : bytes ≠ [])
    (hentry : w.at file = .file content) :
    (writeAll file offset bytes).run.run (perform i) w =
      (.ok (), w.put file (.file (overwrite content offset bytes))) := by
  have hlength : bytes.length ≠ 0 := fun hzero => hbytes (List.length_eq_zero_iff.mp hzero)
  have hwrite : perform i w (.write file offset bytes) =
      (.ok bytes.length, w.put file (.file (overwrite content offset bytes))) := by
    simp only [perform, hentry]
  rw [writeAll, dif_neg hbytes]
  show (orFail (perform i w (.write file offset bytes)).1 >>= fun n => if _hzero : n = 0 then _
    else writeAll file (offset + n) (bytes.drop n)).run.run (perform i)
      (perform i w (.write file offset bytes)).2 = _
  rw [hwrite]
  show (if _hzero : bytes.length = 0 then (throw _ : Keying Unit)
    else writeAll file (offset + bytes.length) (bytes.drop bytes.length)).run.run _ _ = _
  rw [dif_neg hlength, List.drop_length, writeAll, dif_pos rfl]
  rfl

theorem overwrite_nil {bytes : Bytes} : overwrite [] 0 bytes = bytes := by simp [overwrite]

/-- Alone in a directory without keys, one generates its own. -/
theorem run_absent {c : Crates} {key : SigningKey} :
    (loadOrGenerate c key).run.run (perform i) ⟨.absent, .absent, none⟩ =
      (.ok (fromSigningKey c key), ⟨.file key.seed.toList,
        .file (c.verifyingKey key).bytes.toList, some i⟩) := by
  have hseed : key.seed.toList ≠ [] := by
    intro hnil
    have hlength := congrArg List.length hnil
    simp at hlength
  have hpublic : (c.verifyingKey key).bytes.toList ≠ [] := by
    intro hnil
    have hlength := congrArg List.length hnil
    simp at hlength
  show (writeAll .privateKey 0 key.seed.toList >>= _).run.run (perform i)
    ⟨.file [], .absent, some i⟩ = _
  rw [run_onward (run_writeAll hseed rfl), overwrite_nil]
  show (writeAll .publicKey 0 (c.verifyingKey key).bytes.toList >>= _).run.run (perform i)
    ⟨.file key.seed.toList, .file [], some i⟩ = _
  rw [run_onward (run_writeAll hpublic rfl), overwrite_nil]
  rfl

/-- With both keys there, one loads them. -/
theorem run_present {c : Crates} {key other : SigningKey} {creator : Option Bool} :
    (loadOrGenerate c other).run.run (perform i) ⟨.file key.seed.toList,
        .file (c.verifyingKey key).bytes.toList, creator⟩ =
      (.ok (fromSigningKey c key), ⟨.file key.seed.toList,
        .file (c.verifyingKey key).bytes.toList, creator⟩) := by
  let w : KeysDir Bool :=
    ⟨.file key.seed.toList, .file (c.verifyingKey key).bytes.toList, creator⟩
  have hread : ∀ f : Bytes → Keying AttestKeypair,
      (do
        let restricted : Except String Unit ← request Call.restrict
        orFail restricted
        let found : Except String Bytes ← request (Call.read .privateKey)
        let bytes ← orFail found
        f bytes : Keying AttestKeypair).run.run (perform i) w =
      (f key.seed.toList).run.run (perform i) w := fun _ => rfl
  show (load c).run.run (perform i) w = _
  rw [load, hread]
  simp only [toVector_toList]
  show (if (c.verifyingKey key).bytes.toList ≠ (c.verifyingKey key).bytes.toList then _
    else (pure (fromSigningKey c key) : Keying AttestKeypair)).run.run (perform i) w = _
  rw [if_neg (not_not.mpr rfl)]
  rfl

theorem goes_alone {c : Crates} {key : SigningKey}
    {pool : Pool Bool Call Reply (KeysDir Bool) (Except String AttestKeypair)}
    {r : Except String AttestKeypair} (hparty : pool.parties i = (loadOrGenerate c key).run)
    (hrun : (loadOrGenerate c key).run.run (perform i) pool.world = (r, w')) :
    Relation.ReflTransGen (Pool.Goes Answers) pool
      ⟨Function.update pool.parties i (.done r), w'⟩ := by
  have hgoes := Pool.goes_run (answers_perform i) _ pool hparty
  rw [hrun] at hgoes
  exact hgoes

end Alone

/-- What the two of them would generate. -/
def twoKeys : Bool → SigningKey
  | true => sampleSeedA
  | false => sampleSeedB

/-- The key of the first. -/
def sharedKeypair : AttestKeypair := fromSigningKey (sampleCrates []) sampleSeedA

def storedKeys : KeysDir Bool where
  privateKey := .file sampleSeedA.seed.toList
  publicKey := .file ((sampleCrates []).verifyingKey sampleSeedA).bytes.toList
  creator := some true

def afterFirst : Pool Bool Call Reply (KeysDir Bool) (Except String AttestKeypair) where
  parties := Function.update (begin (sampleCrates []) .absent .absent twoKeys).parties true
    (.done (.ok sharedKeypair))
  world := storedKeys

def afterBoth : Pool Bool Call Reply (KeysDir Bool) (Except String AttestKeypair) where
  parties := Function.update afterFirst.parties false (.done (.ok sharedKeypair))
  world := storedKeys

theorem afterFirst_false :
    afterFirst.parties false = (loadOrGenerate (sampleCrates []) sampleSeedB).run :=
  Function.update_of_ne Bool.false_ne_true (Process.done (Except.ok sharedKeypair)) _

theorem afterBoth_done (i : Bool) : afterBoth.parties i = .done (.ok sharedKeypair) := by
  cases i with
  | true => simp [afterBoth, afterFirst]
  | false => simp [afterBoth]

/-- The first makes the key of the directory, and the second has it too. -/
theorem keypairs_agree_two :
    Relation.ReflTransGen (Pool.Goes Answers)
      (begin (sampleCrates []) .absent .absent twoKeys) afterBoth ∧
    (∀ i, afterBoth.parties i = .done (.ok sharedKeypair)) ∧
    Agreement (sampleCrates []) .absent .absent twoKeys afterBoth := by
  have hfirst : Relation.ReflTransGen (Pool.Goes Answers)
      (begin (sampleCrates []) .absent .absent twoKeys) afterFirst := goes_alone rfl run_absent
  have hsecond : Relation.ReflTransGen (Pool.Goes Answers) afterFirst afterBoth :=
    goes_alone afterFirst_false run_present
  have hrun := hfirst.trans hsecond
  exact ⟨hrun, afterBoth_done, keypairs_agree hrun⟩

end Attest.Trust.Keypair
