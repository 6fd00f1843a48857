import Attest.Trust.Acceptance

/-! A store does not go back.

One import puts one copy under `bundles/`, after the decision and as the last thing
it does; nothing else ever writes there. So what a whole history does to the copies
is told by its imports, whichever of its calls fail and however: a copy is replaced
by one that is not older, and a first copy has its grounds in the copies before it.
A write that is torn can leave a file that is not a bundle, and no import gets past
that file again. -/
namespace Attest.Trust
open Library.Fallible

/-! ### What a call leaves alone -/

/-- What `f` looks at is as it was, and only the outcomes to come are left. -/
structure Kept {α : Type} (f : Workspace → α) (w w' : World) : Prop where
  outcomes : w'.outcomes ⊆ w.outcomes
  same : f w'.fs = f w.fs

section Kept
variable {α β γ : Type} {f : Workspace → α}

theorem Kept.refl (w : World) : Kept f w w := ⟨List.Subset.refl _, rfl⟩

theorem Kept.trans {w₁ w₂ w₃ : World} (h₁ : Kept f w₁ w₂) (h₂ : Kept f w₂ w₃) : Kept f w₁ w₃ :=
  ⟨List.Subset.trans h₂.outcomes h₁.outcomes, h₂.same.trans h₁.same⟩

theorem kept_bind {x : Program β} {g : β → Program γ} (hx : Within (Kept f) x)
    (hg : ∀ b, Within (Kept f) (g b)) : Within (Kept f) (x >>= g) :=
  within_bind hx hg fun _ _ _ => Kept.trans

theorem kept_pure (b : β) : Within (Kept f) (pure b : Program β) := within_pure Kept.refl b

theorem kept_reading (g : World → Except String β) : Within (Kept f) (reading g) :=
  within_reading Kept.refl g

theorem kept_syscall {context : Option String} {possible : Workspace → Bool}
    {effect : Workspace → Workspace} {torn : Nat → Workspace → Workspace}
    (heffect : ∀ ws, f (effect ws) = f ws) (htorn : ∀ n ws, f (torn n ws) = f ws) :
    Within (Kept f) (syscall context possible effect torn) := by
  apply within_syscall
  · intro w w' hout hfs
    exact ⟨hout, by rw [hfs]⟩
  · intro w w' hout _ hfs
    exact ⟨hout, by rw [hfs, heffect]⟩
  · intro w w' n e hout _ _ hfs
    exact ⟨hout, by rw [hfs, htorn]⟩

theorem kept_touch : Within (Kept f) touch := kept_syscall (fun _ => rfl) (fun _ _ => rfl)

theorem kept_createTrustDir (h : ∀ ws, f (created ws) = f ws) : Within (Kept f) createTrustDir :=
  kept_syscall h (fun _ _ => rfl)

theorem kept_writePub (h : ∀ id content ws, f (putPub id content ws) = f ws)
    (context : Option String) (id : String) (key : VerifyingKey) :
    Within (Kept f) (writePub context id key) :=
  kept_syscall (h id _) (fun _ => h id _)

theorem kept_writeKeyFiles {c : Crates} (h : ∀ id content ws, f (putPub id content ws) = f ws)
    (keys : List BundledKey) : Within (Kept f) (writeKeyFiles c keys) := by
  induction keys with
  | nil => exact kept_pure _
  | cons key rest ih =>
    have hfile : Within (Kept f) (writeKeyFile c key) := by
      unfold writeKeyFile
      refine kept_bind (kept_reading _) fun path => ?_
      refine kept_bind (kept_reading _) fun present => ?_
      cases present with
      | true => exact kept_pure _
      | false =>
        refine kept_bind (kept_reading _) fun verifyingKey => ?_
        exact kept_writePub h _ _ _
    exact kept_bind hfile fun _ => ih

end Kept

/-! ### Calls that leave the copies alone -/

/-- The copies are as they were. -/
abbrev SameCopies : World → World → Prop := Kept fun ws => ws.trustDir.bundles

section SameCopies
variable {c : Crates}

theorem sameCopies_save (policy : TrustPolicy) : Within SameCopies policy.save := by
  unfold TrustPolicy.save
  refine kept_bind (kept_createTrustDir fun _ => rfl) fun _ => ?_
  refine kept_bind (kept_reading _) fun _ => ?_
  exact kept_syscall (fun _ => rfl) (fun _ _ => rfl)

theorem sameCopies_createPrivate (id : String) (key : SigningKey) :
    Within SameCopies (createPrivate id key) := by
  unfold createPrivate
  refine kept_bind (kept_reading _) fun _ => ?_
  refine kept_bind ?_ fun _ => kept_bind ?_ fun _ => kept_touch
  · exact kept_syscall (fun _ => rfl) (fun _ _ => rfl)
  · exact kept_syscall (fun _ => rfl) (fun _ _ => rfl)

theorem sameCopies_generate (key : SigningKey) (name : String) :
    Within SameCopies (KeyStore.generate c key name) := by
  unfold KeyStore.generate
  refine kept_bind (kept_reading _) fun _ => ?_
  refine kept_bind kept_touch fun _ => ?_
  refine kept_bind (kept_createTrustDir fun _ => rfl) fun _ => ?_
  refine kept_bind (sameCopies_createPrivate _ _) fun _ => ?_
  refine kept_bind (kept_writePub (fun _ _ _ => rfl) _ _ _) fun _ => ?_
  refine kept_bind kept_touch fun _ => ?_
  refine kept_bind (kept_reading _) fun policy => ?_
  refine kept_bind (sameCopies_save _) fun _ => ?_
  exact kept_pure _

theorem sameCopies_importKey (path name : String) (pem : Option (Node PemText)) :
    Within SameCopies (KeyStore.importKey c path pem name) := by
  unfold KeyStore.importKey
  refine kept_bind (kept_reading _) fun key => ?_
  refine kept_bind (kept_createTrustDir fun _ => rfl) fun _ => ?_
  have hplace : Within SameCopies (KeyStore.placePub (keyId c key) key) := by
    unfold KeyStore.placePub
    refine kept_bind (kept_reading _) fun present => ?_
    cases present with
    | true => exact kept_pure _
    | false =>
      refine kept_bind (kept_writePub (fun _ _ _ => rfl) _ _ _) fun _ => ?_
      exact kept_touch
  refine kept_bind hplace fun _ => ?_
  refine kept_bind (kept_reading _) fun policy => ?_
  have hadd : Within SameCopies (KeyStore.addEntry policy (keyId c key) name) := by
    unfold KeyStore.addEntry
    split
    · exact sameCopies_save _
    · exact kept_pure _
  refine kept_bind hadd fun _ => ?_
  exact kept_pure _

theorem sameCopies_revoke (id : String) (now : DateTime) :
    Within SameCopies (KeyStore.revoke c id now) := by
  unfold KeyStore.revoke
  refine kept_bind (kept_reading _) fun policy => ?_
  cases policy.entry id with
  | none => exact kept_pure _
  | some entry =>
    refine kept_bind (sameCopies_save _) fun _ => ?_
    exact kept_pure _

end SameCopies

/-! ### The copy an import places -/

/-- The copies are as they were, but for one of this bundle: whole, or cut short by a torn
write. -/
structure Placed (bundle : TrustBundle) (w w' : World) : Prop where
  outcomes : w'.outcomes ⊆ w.outcomes
  bundles : w'.fs.trustDir.bundles = w.fs.trustDir.bundles ∨
    canWrite (w.fs.trustDir.bundles.lookup bundle.issuer.keyId) = true ∧
      ∃ n, w'.fs.trustDir.bundles = w.fs.trustDir.bundles.insert bundle.issuer.keyId
          (.file (bundle.written.take n)) ∧
        (bundle.written.length ≤ n ∨ ∃ e, .torn n e ∈ w.outcomes)

section Placed
variable {c : Crates} {bundle : TrustBundle}

theorem placed_of_kept {w w' : World} (h : SameCopies w w') : Placed bundle w w' :=
  ⟨h.outcomes, .inl h.same⟩

theorem Placed.trans {a b d : World} (hab : Placed bundle a b) (hbd : Placed bundle b d) :
    Placed bundle a d := by
  refine ⟨List.Subset.trans hbd.outcomes hab.outcomes, ?_⟩
  rcases hbd.bundles with hsame | ⟨hcan, n, hput, hcut⟩
  · rw [hsame]
    exact hab.bundles
  · have hcut : bundle.written.length ≤ n ∨ ∃ e, .torn n e ∈ a.outcomes := by
      rcases hcut with hlong | ⟨e, he⟩
      · exact .inl hlong
      · exact .inr ⟨e, hab.outcomes he⟩
    rcases hab.bundles with hsame' | ⟨hcan', n', hput', -⟩
    · rw [hsame'] at hcan hput
      exact .inr ⟨hcan, n, hput, hcut⟩
    · rw [hput', AList.insert_insert] at hput
      exact .inr ⟨hcan', n, hput, hcut⟩

theorem placed_of_same {α : Type} {x : Program α} (h : Within SameCopies x) :
    Within (Placed bundle) x := within_mono h fun _ _ => placed_of_kept

theorem placed_bind {α β : Type} {x : Program α} {f : α → Program β}
    (hx : Within (Placed bundle) x) (hf : ∀ a, Within (Placed bundle) (f a)) :
    Within (Placed bundle) (x >>= f) := within_bind hx hf fun _ _ _ => Placed.trans

theorem placed_writeCopy : Within (Placed bundle) (writeCopy bundle) := by
  unfold writeCopy
  refine placed_bind (placed_of_same (kept_reading _)) fun path => ?_
  apply within_syscall
  · intro w w' hout hfs
    exact ⟨hout, .inl (by rw [hfs])⟩
  · intro w w' hout hcan hfs
    refine ⟨hout, .inr ⟨hcan, bundle.written.length, ?_, .inl (Nat.le_refl _)⟩⟩
    rw [hfs, List.take_length]
    rfl
  · intro w w' n e hout htorn hcan hfs
    refine ⟨hout, .inr ⟨hcan, n, ?_, .inr ⟨e, htorn⟩⟩⟩
    rw [hfs]
    rfl

theorem placed_record (report : ImportReport) : Within (Placed bundle) (record c bundle report) := by
  unfold record
  refine placed_bind (placed_of_same (kept_createTrustDir fun _ => rfl)) fun _ => ?_
  refine placed_bind (placed_of_same (kept_writeKeyFiles (fun _ _ _ => rfl) _)) fun _ => ?_
  refine placed_bind (placed_of_same (kept_reading _)) fun policy => ?_
  refine placed_bind (placed_of_same (sameCopies_save _)) fun _ => ?_
  refine placed_bind (placed_of_same kept_touch) fun _ => ?_
  refine placed_bind placed_writeCopy fun _ => ?_
  exact placed_of_same (kept_pure _)

/-- What any call does to the copies, however it ends: nothing, or it is an import that was let
through and placed its copy. -/
theorem exec_copies (c : Crates) (op : Op) (w : World) :
    SameCopies w (final (op.exec c) w) ∨
      ∃ path file expectedIssuer now bundle previous handoverFrom,
        op = .importBundle path file expectedIssuer now ∧
        Judged c w.fs path file expectedIssuer now bundle previous handoverFrom ∧
        Placed bundle w (final (op.exec c) w) := by
  cases op with
  | generate key name =>
    left
    rw [Op.exec, final_bind_pure]
    exact sameCopies_generate key name w
  | importKey path pem name =>
    left
    rw [Op.exec, final_bind_pure]
    exact sameCopies_importKey path name pem w
  | revoke id now =>
    left
    rw [Op.exec, final_bind_pure]
    exact sameCopies_revoke id now w
  | importBundle path file expectedIssuer now =>
    rw [Op.exec, final_bind_pure, importBundle, final_reading_bind]
    cases hjudge : judge c w.fs path file expectedIssuer now with
    | error e => exact .inl (Kept.refl w)
    | ok result =>
      obtain ⟨bundle, previous, handoverFrom⟩ := result
      simp only
      split
      next => exact .inl (Kept.refl w)
      next =>
        exact .inr ⟨path, file, expectedIssuer, now, bundle, previous, handoverFrom, rfl,
          judge_ok_iff.mp hjudge, placed_record _ w⟩

end Placed

/-! ### One issuer's copy -/

/-- What is relied on of `serde_json`: a bundle it has read is read back from the text the code
writes of it, and that text cut short is not read as another bundle. -/
structure Rereads (c : Crates) : Prop where
  whole : ∀ {bytes : Bytes} {bundle : TrustBundle}, c.fromSlice bytes = .ok bundle →
    c.fromSlice bundle.written = .ok bundle
  torn : ∀ {bytes : Bytes} {bundle found : TrustBundle} {n : Nat}, c.fromSlice bytes = .ok bundle →
    c.fromSlice (bundle.written.take n) = .ok found → found = bundle

/-- No write to come is torn. -/
def Untorn (w : World) : Prop := ∀ n e, .torn n e ∉ w.outcomes

/-- What becomes of an issuer's copy: a file stays a file, what can be read of it is not older than
before, and only a torn write makes it one that cannot be read. -/
structure Advanced (c : Crates) (issuer : String) (w w' : World) : Prop where
  outcomes : w'.outcomes ⊆ w.outcomes
  taken : isFile (w.fs.trustDir.bundles.lookup issuer) = true →
    isFile (w'.fs.trustDir.bundles.lookup issuer) = true
  newer : isFile (w.fs.trustDir.bundles.lookup issuer) = true → ∀ next,
    onDisk c w'.fs issuer = some next →
      ∃ accepted, onDisk c w.fs issuer = some accepted ∧ accepted.sequence ≤ next.sequence
  kept : Untorn w → ∀ accepted, onDisk c w.fs issuer = some accepted →
    ∃ next, onDisk c w'.fs issuer = some next

section Advanced
variable {c : Crates} {issuer : String}

theorem onDisk_eq_some {ws : Workspace} {bundle : TrustBundle} :
    onDisk c ws issuer = some bundle ↔ ∃ bytes,
      ws.trustDir.bundles.lookup issuer = some (.file bytes) ∧ c.fromSlice bytes = .ok bundle := by
  unfold onDisk
  split
  next bytes hnode =>
    rw [hnode]
    cases hparse : c.fromSlice bytes with
    | error e => simp [Except.toOption, hparse]
    | ok found => simp [Except.toOption, hparse]
  next hnone =>
    simp only [reduceCtorEq, false_iff]
    intro h
    obtain ⟨bytes, hnode, -⟩ := h
    exact hnone bytes hnode

theorem onDisk_of_copy {ws : Workspace} {bundle : TrustBundle} (h : Copy c ws issuer bundle) :
    onDisk c ws issuer = some bundle := by
  obtain ⟨bytes, hnode, -, hparse⟩ := copy_iff.mp h
  exact onDisk_eq_some.mpr ⟨bytes, hnode, hparse⟩

theorem isFile_of_onDisk {ws : Workspace} {bundle : TrustBundle}
    (h : onDisk c ws issuer = some bundle) :
    isFile (ws.trustDir.bundles.lookup issuer) = true := by
  obtain ⟨bytes, hnode, -⟩ := onDisk_eq_some.mp h
  rw [hnode]
  rfl

/-- An import that was let through past a file has read it, and is not older. -/
theorem Judged.previous {ws : Workspace} {path : String} {file : Option (Node Bytes)}
    {expectedIssuer : Option String} {now : DateTime} {bundle : TrustBundle}
    {previous : Option TrustBundle} {handoverFrom : Option (String × UInt64)}
    (h : Judged c ws path file expectedIssuer now bundle previous handoverFrom)
    (hfile : isFile (ws.trustDir.bundles.lookup bundle.issuer.keyId) = true) :
    ∃ accepted, onDisk c ws bundle.issuer.keyId = some accepted ∧
      accepted.sequence ≤ bundle.sequence ∧
      ¬ (bundle.sequence = accepted.sequence ∧ bundle.signature ≠ accepted.signature) := by
  have haccepted := h.accepted
  have hground := h.ground
  cases previous with
  | none =>
    rw [acceptedBundle_none_iff, hfile] at haccepted
    cases haccepted
  | some accepted =>
    exact ⟨accepted, onDisk_of_copy (acceptedBundle_some_iff.mp haccepted),
      grounds_later_iff.mp ⟨handoverFrom, hground⟩⟩

theorem Advanced.refl (w : World) : Advanced c issuer w w :=
  ⟨List.Subset.refl _, id, fun _ next h => ⟨next, h, UInt64.le_refl _⟩, fun _ accepted h =>
    ⟨accepted, h⟩⟩

theorem Advanced.trans {w₁ w₂ w₃ : World} (h₁ : Advanced c issuer w₁ w₂)
    (h₂ : Advanced c issuer w₂ w₃) : Advanced c issuer w₁ w₃ := by
  refine ⟨List.Subset.trans h₂.outcomes h₁.outcomes, fun h => h₂.taken (h₁.taken h), ?_, ?_⟩
  · intro hfile last hlast
    obtain ⟨next, hnext, hle⟩ := h₂.newer (h₁.taken hfile) last hlast
    obtain ⟨accepted, haccepted, hle'⟩ := h₁.newer hfile next hnext
    exact ⟨accepted, haccepted, UInt64.le_trans hle' hle⟩
  · intro huntorn accepted haccepted
    obtain ⟨next, hnext⟩ := h₁.kept huntorn accepted haccepted
    exact h₂.kept (fun n e h => huntorn n e (h₁.outcomes h)) next hnext

theorem advanced_of_lookup {w w' : World} (hout : w'.outcomes ⊆ w.outcomes)
    (h : w'.fs.trustDir.bundles.lookup issuer = w.fs.trustDir.bundles.lookup issuer) :
    Advanced c issuer w w' := by
  have hsame : onDisk c w'.fs issuer = onDisk c w.fs issuer := by rw [onDisk, onDisk, h]
  refine ⟨hout, ?_, ?_, ?_⟩
  · rw [h]
    exact id
  · intro _ next hnext
    exact ⟨next, hsame ▸ hnext, UInt64.le_refl _⟩
  · intro _ accepted haccepted
    exact ⟨accepted, hsame.trans haccepted⟩

/-- What a placed copy leaves under an issuer: what was there, or the bundle's text. -/
theorem Placed.lookup {bundle : TrustBundle} {w w' : World} (h : Placed bundle w w')
    (issuer : String) :
    w'.fs.trustDir.bundles.lookup issuer = w.fs.trustDir.bundles.lookup issuer ∨
      issuer = bundle.issuer.keyId ∧
        ∃ n, w'.fs.trustDir.bundles.lookup issuer = some (.file (bundle.written.take n)) ∧
          (Untorn w → bundle.written.length ≤ n) := by
  rcases h.bundles with hsame | ⟨-, n, hput, hcut⟩
  · left
    rw [hsame]
  · by_cases hissuer : issuer = bundle.issuer.keyId
    · refine .inr ⟨hissuer, n, ?_, ?_⟩
      · rw [hput, hissuer, AList.lookup_insert]
      · intro huntorn
        rcases hcut with hlong | ⟨e, htorn⟩
        · exact hlong
        · exact absurd htorn (huntorn n e)
    · left
      rw [hput, AList.lookup_insert_ne hissuer]

theorem exec_advanced (hc : Rereads c) (op : Op) (w : World) :
    Advanced c issuer w (final (op.exec c) w) := by
  rcases exec_copies c op w with hsame | ⟨path, file, expectedIssuer, now, bundle, previous,
    handoverFrom, -, hjudged, hplaced⟩
  · exact advanced_of_lookup hsame.outcomes (by rw [hsame.same])
  rcases hplaced.lookup issuer with hsame | ⟨rfl, n, hput, hwhole⟩
  · exact advanced_of_lookup hplaced.outcomes hsame
  obtain ⟨bytes, -, -, hparse⟩ := readBundle_ok_iff.mp hjudged.read
  refine ⟨hplaced.outcomes, ?_, ?_, ?_⟩
  · intro _
    rw [hput]
    rfl
  · intro hfile next hnext
    obtain ⟨written, hwritten, hreread⟩ := onDisk_eq_some.mp hnext
    rw [hput] at hwritten
    cases hwritten
    rw [hc.torn hparse hreread]
    obtain ⟨accepted, haccepted, hle, -⟩ := hjudged.previous hfile
    exact ⟨accepted, haccepted, hle⟩
  · intro huntorn accepted _
    refine ⟨bundle, onDisk_eq_some.mpr ⟨_, hput, ?_⟩⟩
    rw [List.take_of_length_le (hwhole huntorn)]
    exact hc.whole hparse

end Advanced

/-! ### Refusals -/

/-- What an import has to refuse, as the files stand: a bundle older than the copy of its issuer,
another one of the same sequence, one by an issuer that is revoked, and one that fails a check. -/
def MustRefuse (c : Crates) (ws : Workspace) (bundle : TrustBundle) (now : DateTime) : Prop :=
  (∃ accepted, onDisk c ws bundle.issuer.keyId = some accepted ∧
    (bundle.sequence < accepted.sequence ∨
      bundle.sequence = accepted.sequence ∧ bundle.signature ≠ accepted.signature)) ∨
  (∃ policy, storedPolicy ws = some policy ∧ isRevoked policy bundle.issuer.keyId = true) ∨
  ∃ check ∈ examine c bundle now, check.passed = false

section Refusals
variable {c : Crates}

theorem Judged.not_mustRefuse {ws : Workspace} {path : String} {file : Option (Node Bytes)}
    {expectedIssuer : Option String} {now : DateTime} {bundle : TrustBundle}
    {previous : Option TrustBundle} {handoverFrom : Option (String × UInt64)}
    (h : Judged c ws path file expectedIssuer now bundle previous handoverFrom) :
    ¬ MustRefuse c ws bundle now := by
  intro hrefuse
  rcases hrefuse with ⟨accepted, haccepted, horder⟩ | ⟨policy, hstored, hrevoked⟩ |
    ⟨check, hcheck, hfailed⟩
  · obtain ⟨found, hfound, hle, hfork⟩ := h.previous (isFile_of_onDisk haccepted)
    rw [haccepted] at hfound
    cases hfound
    rcases horder with hlt | hother
    · exact absurd hlt (UInt64.not_lt.mpr hle)
    · exact hfork hother
  · obtain ⟨loaded, hload, htrusted⟩ := h.loads
    rw [(loadPolicy_ok_iff.mp hload).1] at hstored
    cases hstored
    rw [hrevoked] at htrusted
    cases htrusted
  · have hpassed := failedChecks_eq_nil.mp h.passes check hcheck
    rw [hfailed] at hpassed
    cases hpassed

/-- A refused import has touched nothing, and no call that could fail was made. -/
theorem importBundle_refused {path : String} {file : Option (Node Bytes)} {bundle : TrustBundle}
    (hread : readBundle c path file = .ok bundle) (expectedIssuer : Option String) {now : DateTime}
    {w : World} (h : MustRefuse c w.fs bundle now) :
    ∃ e, importBundle c path file expectedIssuer now w = .error e w := by
  cases hjudge : judge c w.fs path file expectedIssuer now with
  | error e => exact ⟨e, reading_bind_of_error hjudge⟩
  | ok result =>
    obtain ⟨found, previous, handoverFrom⟩ := result
    have hjudged := judge_ok_iff.mp hjudge
    obtain rfl := hjudged.bundle_eq hread
    exact absurd h hjudged.not_mustRefuse

end Refusals

/-! ### Histories -/

/-- The world after some calls, whichever of them fail. -/
def reach (c : Crates) (w : World) (ops : List Op) : World :=
  ops.foldl (fun w op => final (op.exec c) w) w

theorem reach_append (c : Crates) (w : World) (ops later : List Op) :
    reach c w (ops ++ later) = reach c (reach c w ops) later := by
  rw [reach, List.foldl_append]
  rfl

theorem reach_singleton (c : Crates) (w : World) (op : Op) :
    reach c w [op] = final (op.exec c) w := rfl

/-- The grounds on which a first bundle is let through: the recipient named its issuer, or a copy
names it as successor, with id and public key. -/
def OnGrounds (c : Crates) (ws : Workspace) (bundle : TrustBundle)
    (expectedIssuer : Option String) : Prop :=
  expectedIssuer = some bundle.issuer.keyId ∨
    ∃ name accepted, Copy c ws name accepted ∧ accepted.successor = some bundle.issuer

/-- The call puts the first file under the issuer: it imports a bundle of that issuer, on grounds
that hold before it, and what can be read of the file is that bundle. -/
def FirstImport (c : Crates) (issuer : String) (w : World) (op : Op) : Prop :=
  isFile (w.fs.trustDir.bundles.lookup issuer) = false ∧
    ∃ path file expectedIssuer now bundle,
      op = .importBundle path file expectedIssuer now ∧ readBundle c path file = .ok bundle ∧
      bundle.issuer.keyId = issuer ∧ OnGrounds c w.fs bundle expectedIssuer ∧
      ∀ found, onDisk c (final (op.exec c) w).fs issuer = some found → found = bundle

section Histories
variable {c : Crates} {issuer : String}

theorem reach_advanced (hc : Rereads c) (w : World) (ops : List Op) (issuer : String) :
    Advanced c issuer w (reach c w ops) := by
  induction ops generalizing w with
  | nil => exact Advanced.refl w
  | cons op rest ih => exact (exec_advanced hc op w).trans (ih _)

theorem Judged.onGrounds {ws : Workspace} {path : String} {file : Option (Node Bytes)}
    {expectedIssuer : Option String} {now : DateTime} {bundle : TrustBundle}
    {previous : Option TrustBundle} {handoverFrom : Option (String × UInt64)}
    (h : Judged c ws path file expectedIssuer now bundle previous handoverFrom)
    (hfile : isFile (ws.trustDir.bundles.lookup bundle.issuer.keyId) = false) :
    OnGrounds c ws bundle expectedIssuer := by
  have hnone := h.accepted.symm.trans (acceptedBundle_none_iff.mpr hfile)
  cases hnone
  cases expectedIssuer with
  | some expected => exact .inl (by rw [h.expected expected rfl])
  | none =>
    obtain ⟨bundles, hbundles, accepted, hmem, hnames⟩ := grounds_first_iff.mp ⟨_, h.ground⟩
    obtain ⟨name, hcopy⟩ := ((acceptedBundles_ok hbundles).2 accepted).mp hmem
    exact .inr ⟨name, accepted, hcopy, hnames⟩

theorem exec_first (hc : Rereads c) {op : Op} {w : World}
    (hfree : isFile (w.fs.trustDir.bundles.lookup issuer) = false)
    (htaken : isFile ((final (op.exec c) w).fs.trustDir.bundles.lookup issuer) = true) :
    FirstImport c issuer w op := by
  refine ⟨hfree, ?_⟩
  rcases exec_copies c op w with hsame | ⟨path, file, expectedIssuer, now, bundle, previous,
    handoverFrom, hop, hjudged, hplaced⟩
  · rw [hsame.same, hfree] at htaken
    cases htaken
  rcases hplaced.lookup issuer with hsame | ⟨rfl, n, hput, -⟩
  · rw [hsame, hfree] at htaken
    cases htaken
  refine ⟨path, file, expectedIssuer, now, bundle, hop, hjudged.read, rfl, hjudged.onGrounds hfree,
    ?_⟩
  intro found hfound
  obtain ⟨bytes, -, -, hparse⟩ := readBundle_ok_iff.mp hjudged.read
  obtain ⟨written, hwritten, hreread⟩ := onDisk_eq_some.mp hfound
  rw [hput] at hwritten
  cases hwritten
  exact hc.torn hparse hreread

/-- A file that was not there at first was put there by one call of the history. -/
theorem reach_first (hc : Rereads c) {ops : List Op} {w : World}
    (hfree : isFile (w.fs.trustDir.bundles.lookup issuer) = false)
    (htaken : isFile ((reach c w ops).fs.trustDir.bundles.lookup issuer) = true) :
    ∃ before op after, ops = before ++ op :: after ∧
      FirstImport c issuer (reach c w before) op := by
  induction ops generalizing w with
  | nil =>
    rw [reach, List.foldl_nil, hfree] at htaken
    cases htaken
  | cons op rest ih =>
    cases hnext : isFile ((final (op.exec c) w).fs.trustDir.bundles.lookup issuer) with
    | true => exact ⟨[], op, rest, rfl, exec_first hc hfree hnext⟩
    | false =>
      obtain ⟨before, first, after, hops, hfirst⟩ := ih hnext htaken
      exact ⟨op :: before, first, after, by rw [hops]; rfl, hfirst⟩

/-- **Imports never roll a store back.** In every history, from any store and whichever calls fail
and however, the copy of an issuer that can be read is never older than one before it, and it stays
readable unless a write is torn; an import that must be refused fails and leaves everything as it
was; and a first copy was placed by an import of that issuer, on one of the two grounds. -/
theorem imports_never_roll_back (hc : Rereads c) (w : World) (ops : List Op) :
    (∀ later issuer accepted, onDisk c (reach c w ops).fs issuer = some accepted →
      (∀ next, onDisk c (reach c w (ops ++ later)).fs issuer = some next →
        accepted.sequence ≤ next.sequence) ∧
      (Untorn w → ∃ next, onDisk c (reach c w (ops ++ later)).fs issuer = some next)) ∧
    (∀ path file expectedIssuer now bundle, readBundle c path file = .ok bundle →
      MustRefuse c (reach c w ops).fs bundle now →
      ∃ e, importBundle c path file expectedIssuer now (reach c w ops) =
        .error e (reach c w ops)) ∧
    (∀ issuer, isFile (w.fs.trustDir.bundles.lookup issuer) = false →
      isFile ((reach c w ops).fs.trustDir.bundles.lookup issuer) = true →
      ∃ before op after, ops = before ++ op :: after ∧
        FirstImport c issuer (reach c w before) op) := by
  refine ⟨?_, ?_, ?_⟩
  · intro later issuer accepted haccepted
    have hlater := reach_advanced hc (reach c w ops) later issuer
    rw [reach_append]
    refine ⟨?_, ?_⟩
    · intro next hnext
      obtain ⟨found, hfound, hle⟩ := hlater.newer (isFile_of_onDisk haccepted) next hnext
      rw [haccepted] at hfound
      cases hfound
      exact hle
    · intro huntorn
      have hstart := reach_advanced hc w ops issuer
      exact hlater.kept (fun n e h => huntorn n e (hstart.outcomes h)) accepted haccepted
  · intro path file expectedIssuer now bundle hread hrefuse
    exact importBundle_refused hread expectedIssuer hrefuse
  · intro issuer hfree htaken
    exact reach_first hc hfree htaken

end Histories

/-- A table of one bundle reads its two texts and no other. -/
theorem rereads_sample (bundle : TrustBundle) : Rereads (sampleCrates [bundle]) := by
  have honly : ∀ {bytes found}, (sampleCrates [bundle]).fromSlice bytes = .ok found →
      found = bundle := by
    intro bytes found h
    simp only [sampleCrates, List.find?_cons, List.find?_nil] at h
    split at h
    next b hfind =>
      cases h
      split at hfind
      · exact (Option.some.inj hfind).symm
      · cases hfind
    next => cases h
  refine ⟨?_, ?_⟩
  · intro bytes found h
    rw [honly h]
    exact fromSlice_sample_written bundle
  · intro bytes found found' n h h'
    rw [honly h, honly h']

/-- The first sample bundle, imported by name a month after its issue. -/
def sampleImportA : Op :=
  .importBundle "a.json" (some (.file sampleBundleA.written)) (some sampleIdA)
    (sampleDay 1775001600 april_inRange)

theorem imports_never_roll_back_sample :
    Rereads (sampleCrates [sampleBundleA]) ∧ ∀ later issuer accepted,
      onDisk (sampleCrates [sampleBundleA])
        (reach (sampleCrates [sampleBundleA]) sampleWorld [sampleImportA]).fs issuer =
          some accepted →
      (∀ next, onDisk (sampleCrates [sampleBundleA])
        (reach (sampleCrates [sampleBundleA]) sampleWorld ([sampleImportA] ++ later)).fs issuer =
          some next → accepted.sequence ≤ next.sequence) ∧
      (Untorn sampleWorld → ∃ next, onDisk (sampleCrates [sampleBundleA])
        (reach (sampleCrates [sampleBundleA]) sampleWorld ([sampleImportA] ++ later)).fs issuer =
          some next) :=
  ⟨rereads_sample _,
    (imports_never_roll_back (rereads_sample sampleBundleA) sampleWorld [sampleImportA]).1⟩

end Attest.Trust
