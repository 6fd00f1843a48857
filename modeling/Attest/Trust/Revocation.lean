import Attest.Trust.Judgement
import Attest.Trust.Runs

/-! Revocations over the life of a store.

Every operation but one can only hold more against a key: it adds an entry, or
merges a bundle, and the standing of no id goes down. `revoke` writes the clock
reading over whatever date the entry had. That is a revocation moved later, and a
window reopened, exactly when the entry is revoked already, with no date or an
earlier one. -/
namespace Attest.Trust
open Library.Fallible

section Managed
variable {c : Crates}

/-! ### Managed keys -/

/-- Every managed key is there under its own id. -/
theorem managedKeys_derive {entries : List (Sigma fun _ : String => Node (Option VerifyingKey))}
    {keys managed : AList (fun _ : String => String)} (h : managedKeys c keys entries = .ok managed)
    (hkeys : ∀ e ∈ keys.entries, ∃ key : VerifyingKey,
      e = ⟨keyId c key, hexEncode key.bytes.toList⟩) :
    ∀ e ∈ managed.entries, ∃ key : VerifyingKey, e = ⟨keyId c key, hexEncode key.bytes.toList⟩ := by
  induction keys, entries using managedKeys.induct (c := c) with
  | case1 keys =>
    cases h
    exact hkeys
  | case2 keys stem rest ih => exact ih h hkeys
  | case3 keys stem rest => cases h
  | case4 keys stem rest ih => exact ih h hkeys
  | case5 keys stem key rest ih =>
    apply ih h
    intro e he
    rw [AList.entries_insert, List.mem_cons] at he
    rcases he with rfl | he
    · exact ⟨key, rfl⟩
    · exact hkeys e ((List.kerase_sublist _ _).subset he)

/-- What comes before the key files does not matter to an id they give a key. -/
theorem managedKeys_lookup {entries : List (Sigma fun _ : String => Node (Option VerifyingKey))}
    {keys keys' managed managed' : AList (fun _ : String => String)}
    (h : managedKeys c keys entries = .ok managed)
    (h' : managedKeys c keys' entries = .ok managed') {id hex : String}
    (hstart : keys.lookup id = none ∨ keys.lookup id = keys'.lookup id)
    (hid : managed.lookup id = some hex) : managed'.lookup id = some hex := by
  induction keys, entries using managedKeys.induct (c := c) generalizing keys' with
  | case1 keys =>
    cases h
    cases h'
    rcases hstart with hnone | hsame
    · rw [hnone] at hid
      cases hid
    · rw [← hsame, hid]
  | case2 keys stem rest ih => exact ih h h' hstart
  | case3 keys stem rest => cases h
  | case4 keys stem rest ih => exact ih h h' hstart
  | case5 keys stem key rest ih =>
    apply ih h h'
    by_cases hkey : id = keyId c key
    · right
      rw [hkey, AList.lookup_insert, AList.lookup_insert]
    · rw [AList.lookup_insert_ne hkey, AList.lookup_insert_ne hkey]
      exact hstart

/-- Key files that hold a key each only add to the managed keys. -/
theorem managedKeys_append {new entries : List (Sigma fun _ : String => Node (Option VerifyingKey))}
    (hnew : ∀ e ∈ new, ∃ key, e = ⟨keyId c key, .file (some key)⟩)
    (keys : AList (fun _ : String => String)) :
    ∃ keys', managedKeys c keys (new ++ entries) = managedKeys c keys' entries := by
  induction new generalizing keys with
  | nil => exact ⟨keys, rfl⟩
  | cons e new ih =>
    obtain ⟨key, rfl⟩ := hnew e List.mem_cons_self
    obtain ⟨keys', h⟩ := ih (fun e he => hnew e (List.mem_cons_of_mem _ he))
      (keys.insert (keyId c key) (hexEncode key.bytes.toList))
    exact ⟨keys', h⟩

/-- The entry found for a hex key is the one of the key's id. -/
theorem find_managed {managed : AList (fun _ : String => String)} {id hex : String}
    (hderive : ∀ e ∈ managed.entries, ∃ key : VerifyingKey,
      e = ⟨keyId c key, hexEncode key.bytes.toList⟩) :
    managed.entries.find? (fun e => e.2 == hex) = some ⟨id, hex⟩ ↔
      managed.lookup id = some hex := by
  constructor
  · intro h
    exact AList.mem_lookup_iff.mpr (List.mem_of_find?_eq_some h)
  · intro h
    have hmem : (⟨id, hex⟩ : Sigma fun _ : String => String) ∈ managed.entries :=
      AList.mem_lookup_iff.mp h
    cases hfind : managed.entries.find? (fun e => e.2 == hex) with
    | none =>
      have := List.find?_eq_none.mp hfind _ hmem
      simp at this
    | some e =>
      obtain ⟨key, hkey⟩ := hderive _ hmem
      obtain ⟨key', rfl⟩ := hderive e (List.mem_of_find?_eq_some hfind)
      have hhex' : hexEncode key'.bytes.toList = hex := by
        simpa using List.find?_some hfind
      obtain ⟨hid, hhex⟩ : id = keyId c key ∧ hex = hexEncode key.bytes.toList := by
        simpa using hkey
      have hbytes : key'.bytes.toList = key.bytes.toList :=
        hexEncode_injective (hhex'.trans hhex)
      have hsame : key' = key := by
        cases key'
        cases key
        simpa [Vector.toList_inj] using hbytes
      rw [hsame, ← hid, ← hhex]

theorem trustDirPublicKeys_derive {dir : TrustDir} {managed : AList (fun _ : String => String)}
    (h : trustDirPublicKeys c dir = .ok managed) :
    ∀ e ∈ managed.entries, ∃ key : VerifyingKey, e = ⟨keyId c key, hexEncode key.bytes.toList⟩ :=
  managedKeys_derive h (by simp)

/-- A managed key is still managed, under the same id, when key files are added. -/
theorem managed_of_grown {ws ws' : Workspace} (hgrown : Grown c ws ws')
    {managed managed' : AList (fun _ : String => String)}
    (h : trustDirPublicKeys c ws.trustDir = .ok managed)
    (h' : trustDirPublicKeys c ws'.trustDir = .ok managed') {id hex : String}
    (hid : managed.lookup id = some hex) : managed'.lookup id = some hex := by
  obtain ⟨new, hentries, hnew⟩ := hgrown.pubs
  unfold trustDirPublicKeys at h h'
  rw [hentries] at h'
  obtain ⟨keys', hkeys'⟩ := @managedKeys_append c new ws.trustDir.pubs.entries hnew ∅
  rw [hkeys'] at h'
  exact managedKeys_lookup h h' (.inl (AList.lookup_empty id)) hid

end Managed

/-! ### Judging by a standing -/

theorem entryTrust_eq (policy : TrustPolicy) (id : String) :
    entryTrust policy id = match standingIn policy.keys id with
      | .absent => .unknown
      | .trusted => .trusted
      | .revoked m => .revoked (m.unbotD .minUtc) := by
  unfold entryTrust standingIn TrustPolicy.entry
  cases policy.keys.find? (fun e => e.id == id) with
  | none => rfl
  | some entry =>
    simp only [TrustEntry.standing, standingOf]
    cases entry.status with
    | trusted => rfl
    | revoked =>
      cases entry.revokedAt with
      | none => rfl
      | some t => rfl

theorem unbotD_mono {m m' : WithBot DateTime} (h : m' ≤ m) :
    m'.unbotD .minUtc ≤ m.unbotD .minUtc := by
  cases m' with
  | bot => exact bot_le
  | coe t' =>
    cases m with
    | bot => exact absurd h (by simp)
    | coe t => exact WithBot.coe_le_coe.mp h

/-- A signature that a revocation rules out is ruled out by an earlier one. -/
theorem judgeRevoked_of_le {s : Signed} {t t' : DateTime} (hle : t' ≤ t)
    (h : (judgeRevoked s t).passed = false) : (judgeRevoked s t').passed = false := by
  unfold judgeRevoked at h ⊢
  cases hat : s.signedAt with
  | none => rfl
  | some signedAt =>
    rw [hat] at h
    simp only at h ⊢
    split at h
    next hlate => rw [if_pos (lt_of_le_of_lt hle hlate)]
    next => cases h

/-- The signature is by a revoked key, and that is why it does not count. -/
def RejectedByRevocation (c : Crates) (ws : Workspace) (s : Signed) : Prop :=
  ∃ revokedAt, keyTrustStatus c ws s.publicKeyHex = .ok (.revoked revokedAt) ∧
    (judgeRevoked s revokedAt).passed = false

/-- Whether the signature counts. -/
def accepted (c : Crates) (ws : Workspace) (s : Signed) : Bool :=
  (judgeSigned c (keyTrustStatus c ws s.publicKeyHex) s).passed

/-! ### One step -/

/-- Nothing held against a key is dropped, and no key file. -/
structure Tightened (c : Crates) (ws ws' : Workspace) : Prop where
  standing : ∀ id, standing ws id ≤ standing ws' id
  grown : Grown c ws ws'

section Tightened
variable {c : Crates}

theorem Tightened.refl (ws : Workspace) : Tightened c ws ws := ⟨fun _ => le_rfl, Grown.refl ws⟩

theorem Tightened.trans {a b d : Workspace} (hab : Tightened c a b) (hbd : Tightened c b d) :
    Tightened c a d :=
  ⟨fun id => (hab.standing id).trans (hbd.standing id), hab.grown.trans hbd.grown⟩

theorem storeTrustStatus_revoked {path hex : String} {dir : TrustDir} {revokedAt : DateTime}
    (h : storeTrustStatus c path dir hex = .ok (.revoked revokedAt)) :
    ∃ policy managed id, TrustPolicy.load c path dir = .ok policy ∧
      trustDirPublicKeys c dir = .ok managed ∧ managed.lookup id = some hex ∧
      entryTrust policy id = .revoked revokedAt := by
  simp only [storeTrustStatus, except_bind_eq_ok] at h
  obtain ⟨policy, hload, managed, hmanaged, h⟩ := h
  refine ⟨policy, managed, ?_⟩
  cases hfind : managed.entries.find? (fun entry => entry.2 == hex) with
  | some entry =>
    rw [hfind] at h
    obtain ⟨id, found⟩ := entry
    have hfound : found = hex := by simpa using List.find?_some hfind
    subst hfound
    exact ⟨id, hload, hmanaged, (find_managed (trustDirPublicKeys_derive hmanaged)).mp hfind,
      Except.ok.inj h⟩
  | none =>
    rw [hfind] at h
    simp only [except_bind_eq_ok] at h
    obtain ⟨holds, -, h⟩ := h
    cases holds with
    | true => cases h
    | false => cases h

/-- **In a store that has only been tightened, a signature ruled out by a revocation stays ruled
out.** -/
theorem rejected_of_tightened {ws ws' : Workspace} (htight : Tightened c ws ws') {s : Signed}
    (h : RejectedByRevocation c ws s) : accepted c ws' s = false := by
  obtain ⟨revokedAt, hstatus, hreject⟩ := h
  unfold keyTrustStatus at hstatus
  cases htrust : ws.trust with
  | none =>
    -- without a trust directory no key is revoked
    rw [htrust] at hstatus
    simp only at hstatus
    split at hstatus
    · split at hstatus
      · cases hstatus
      · split at hstatus
        · cases hstatus
        · cases hstatus
    · cases hstatus
  | some dir =>
    rw [htrust] at hstatus
    have hdir : ws.trustDir = dir := by rw [Workspace.trustDir, htrust, Option.getD_some]
    obtain ⟨policy, managed, id, hload, hmanaged, hid, htrusted⟩ := storeTrustStatus_revoked hstatus
    rw [← hdir] at hload hmanaged
    have hpresent := htight.grown.present (by rw [htrust]; rfl)
    obtain ⟨dir', htrust'⟩ := Option.isSome_iff_exists.mp hpresent
    have hdir' : ws'.trustDir = dir' := by rw [Workspace.trustDir, htrust', Option.getD_some]
    unfold accepted keyTrustStatus
    rw [htrust', ← hdir']
    simp only
    cases hstatus' : storeTrustStatus c ws'.trustPath ws'.trustDir s.publicKeyHex with
    | error e => rfl
    | ok status =>
      simp only [storeTrustStatus, except_bind_eq_ok] at hstatus'
      obtain ⟨policy', hload', managed', hmanaged', hstatus'⟩ := hstatus'
      have hid' := managed_of_grown htight.grown hmanaged hmanaged' hid
      rw [(find_managed (trustDirPublicKeys_derive hmanaged')).mpr hid'] at hstatus'
      have hstatus' : entryTrust policy' id = status := Except.ok.inj hstatus'
      -- the standing of the key has not gone down
      have hle := htight.standing id
      rw [standing_of_load hload, standing_of_load hload'] at hle
      rw [entryTrust_eq] at htrusted hstatus'
      cases hstanding : standingIn policy.keys id with
      | absent =>
        rw [hstanding] at htrusted
        cases htrusted
      | trusted =>
        rw [hstanding] at htrusted
        cases htrusted
      | revoked m =>
        rw [hstanding] at htrusted hle
        obtain ⟨m', hm', hmle⟩ := Standing.revoked_le_iff.mp hle
        rw [hm'] at hstatus'
        rw [← hstatus']
        cases htrusted
        exact judgeRevoked_of_le (unbotD_mono hmle) hreject

theorem generate_tightened {key : SigningKey} {name id : String} {w w' : World}
    (h : KeyStore.generate c key name w = .ok id w') : Tightened c w.fs w'.fs := by
  obtain ⟨rfl, -, hfresh, policy, hload, hfs⟩ := generate_ok h
  have hsame := standing_of_load hload
  simp only [standing_putPub, standing_putKey] at hsame
  refine ⟨?_, ?_⟩
  · intro id
    rw [hfs, standing_putPolicy, hsame id]
    exact standingIn_le_append _ _ id
  · rw [hfs]
    exact ((grown_putKey _ _ w.fs).trans (grown_putPub hfresh)).trans (grown_putPolicy _ _)

theorem importKey_tightened {path name id : String} {pem : Option (Node PemText)} {w w' : World}
    (h : KeyStore.importKey c path pem name w = .ok id w') : Tightened c w.fs w'.fs := by
  obtain ⟨_, key, -, -, -, rfl, policy, hload, hfs⟩ := importKey_ok h
  have hsame := standing_of_load hload
  simp only [standing_ensurePub, standing_created] at hsame
  have hgrown : Grown c w.fs (ensurePub (keyId c key) key (created w.fs)) :=
    (grown_created w.fs).trans (grown_ensurePub _ key)
  rcases hfs with ⟨-, -, hfs⟩ | ⟨-, hfs⟩
  · rw [hfs]
    refine ⟨?_, hgrown.trans (grown_putPolicy _ _)⟩
    intro id
    rw [standing_putPolicy, hsame id]
    exact standingIn_le_append _ _ id
  · rw [hfs]
    refine ⟨?_, hgrown⟩
    intro id
    rw [standing_ensurePub, standing_created]

theorem importBundle_tightened {path : String} {file : Option (Node Bytes)}
    {expectedIssuer : Option String} {now : DateTime} {report : ImportReport} {w w' : World}
    (h : importBundle c path file expectedIssuer now w = .ok report w') :
    Tightened c w.fs w'.fs := by
  obtain ⟨bundle, previous, handoverFrom, hjudged, hcase⟩ := importBundle_ok h
  have hkeys := (passes_of_failedChecks hjudged.passes).keys
  rcases hcase with ⟨-, rfl, -⟩ | ⟨-, hrecord⟩
  · exact Tightened.refl w'.fs
  · obtain ⟨policy, hload, -, hfs, -⟩ := record_ok hrecord
    rw [hfs]
    refine ⟨?_, grown_recorded hkeys⟩
    intro id
    rw [standing_recorded hkeys hload]
    exact le_max_left _ _

/-- What `revoke` does to the standings: the id named goes to the clock reading, from wherever it
was. -/
theorem revoke_standing {id : String} {now : DateTime} {found : Bool} {w w' : World}
    (h : KeyStore.revoke c id now w = .ok found w') :
    w' = w ∧ standing w.fs id = .absent ∨
      Grown c w.fs w'.fs ∧ standing w.fs id ≠ .absent ∧ standing w'.fs id = .revoked now ∧
        ∀ id' ≠ id, standing w'.fs id' = standing w.fs id' := by
  obtain ⟨policy, hload, ⟨hnone, -, rfl⟩ | ⟨entry, hentry, -, hfs⟩⟩ := revoke_ok h
  · left
    rw [standing_of_load hload, standingIn_of_find_none hnone]
    exact ⟨rfl, rfl⟩
  · right
    have hkeep : ∀ e, (TrustEntry.revokeAt now e).id = e.id := fun _ => rfl
    rw [hfs]
    refine ⟨grown_putPolicy _ _, ?_, ?_, ?_⟩
    · rw [standing_of_load hload, Ne, standingIn_eq_absent]
      intro hnone
      rw [TrustPolicy.entry, hnone] at hentry
      cases hentry
    · rw [standing_putPolicy]
      exact standingIn_updateEntry_self hkeep hentry
    · intro id' hne
      rw [standing_putPolicy, standing_of_load hload]
      exact standingIn_updateEntry_of_ne hne hkeep policy.keys

/-! ### The condition -/

/-- A `revoke` meets it when the id is not revoked yet, or is revoked with a date that is not
before the clock reading; the other operations always do. -/
def Op.KeepsDate (ws : Workspace) : Op → Prop
  | .revoke id now => ∀ m, standing ws id = .revoked m → (now : WithBot DateTime) ≤ m
  | _ => True

theorem exec_tightened {op : Op} {w w' : World} (h : op.exec c w = .ok () w')
    (hkeeps : op.KeepsDate w.fs) : Tightened c w.fs w'.fs := by
  cases op with
  | generate key name =>
    obtain ⟨_, _, h, ⟨⟩⟩ := bind_eq_ok.mp h
    exact generate_tightened h
  | importKey path pem name =>
    obtain ⟨_, _, h, ⟨⟩⟩ := bind_eq_ok.mp h
    exact importKey_tightened h
  | importBundle path file expectedIssuer now =>
    obtain ⟨_, _, h, ⟨⟩⟩ := bind_eq_ok.mp h
    exact importBundle_tightened h
  | revoke id now =>
    obtain ⟨_, _, h, ⟨⟩⟩ := bind_eq_ok.mp h
    rcases revoke_standing h with ⟨rfl, -⟩ | ⟨hgrown, -, hid, hother⟩
    · exact Tightened.refl _
    · refine ⟨?_, hgrown⟩
      intro id'
      by_cases hne : id' = id
      · subst hne
        rw [hid]
        cases hold : standing w.fs id' with
        | absent => exact Standing.absent_le _
        | trusted => exact Standing.trusted_le_revoked _
        | revoked m => exact Standing.revoked_le_revoked.mpr (hkeeps m hold)
      · rw [hother id' hne]

/-- A revocation stands: the entry stays revoked, at a moment no later, and no signature it ruled
out counts. -/
structure RevocationsStand (c : Crates) (ws ws' : Workspace) : Prop where
  stays : ∀ id m, standing ws id = .revoked m → ∃ m', standing ws' id = .revoked m' ∧ m' ≤ m
  rejected : ∀ s, RejectedByRevocation c ws s → accepted c ws' s = false

theorem revocationsStand_of_tightened {ws ws' : Workspace} (h : Tightened c ws ws') :
    RevocationsStand c ws ws' := by
  refine ⟨?_, fun s hs => rejected_of_tightened h hs⟩
  intro id m hm
  exact Standing.revoked_le_iff.mp (hm ▸ h.standing id)

theorem keepsDate_of_stands {op : Op} {w w' : World} (h : op.exec c w = .ok () w')
    (hstands : RevocationsStand c w.fs w'.fs) : op.KeepsDate w.fs := by
  cases op with
  | generate key name => trivial
  | importKey path pem name => trivial
  | importBundle path file expectedIssuer now => trivial
  | revoke id now =>
    intro m hm
    obtain ⟨_, _, h, ⟨⟩⟩ := bind_eq_ok.mp h
    rcases revoke_standing h with ⟨-, habsent⟩ | ⟨-, -, hid, -⟩
    · rw [hm] at habsent
      cases habsent
    · obtain ⟨m', hm', hle⟩ := hstands.stays id m hm
      rw [hid] at hm'
      cases hm'
      exact hle

/-! ### Histories -/

/-- Every `revoke` of the history meets the condition in the store it finds. -/
def DatesKept (w : World) : List (Op × World) → Prop
  | [] => True
  | (op, w') :: rest => op.KeepsDate w.fs ∧ DatesKept w' rest

theorem trace_tightened {w : World} {trace : List (Op × World)} (h : Trace c w trace)
    (hkept : DatesKept w trace) : (states w trace).Pairwise (Tightened c) := by
  induction trace generalizing w with
  | nil => exact List.pairwise_singleton _ _
  | cons step rest ih =>
    obtain ⟨op, w'⟩ := step
    have hstep := exec_tightened h.1 hkept.1
    have hrest := ih h.2 hkept.2
    refine List.pairwise_cons.mpr ⟨?_, hrest⟩
    intro ws hws
    rcases List.mem_cons.mp hws with rfl | hws
    · exact hstep
    · exact hstep.trans ((List.pairwise_cons.mp hrest).1 ws hws)

/-- **Revocations stand over a whole history exactly when every `revoke` in it meets the
condition.** The history starts in any store, with any outcomes and clock readings. -/
theorem revocations_stand_iff (w : World) (trace : List (Op × World)) (h : Trace c w trace) :
    (states w trace).Pairwise (RevocationsStand c) ↔ DatesKept w trace := by
  constructor
  · intro hstand
    induction trace generalizing w with
    | nil => trivial
    | cons step rest ih =>
      obtain ⟨op, w'⟩ := step
      obtain ⟨hfirst, hrest⟩ := List.pairwise_cons.mp hstand
      exact ⟨keepsDate_of_stands h.1 (hfirst w'.fs List.mem_cons_self), ih w' h.2 hrest⟩
  · intro hkept
    exact (trace_tightened h hkept).imp revocationsStand_of_tightened

end Tightened

/-! ### A key revoked twice -/

/-- Midnight of the first of May 2026. -/
def sampleMay : DateTime := sampleDay 1777593600

/-- Midnight of the first of June 2026. -/
def sampleJune : DateTime := sampleDay 1780272000

/-- A signature of the middle of May, by the time of a token. -/
def sampleSigned : Signed :=
  ⟨hexEncode samplePublicA.bytes.toList, some (sampleDay 1778803200), sampleDay 1778803200, false⟩

/-- A key is generated and revoked. -/
def sampleOps : List Op :=
  [.generate sampleSeedA "authority", .revoke sampleIdA sampleMay]

theorem revocations_stand_sample :
    (states sampleWorld (play (sampleCrates []) sampleWorld sampleOps)).Pairwise
      (RevocationsStand (sampleCrates [])) := by
  have hruns : succeeds (sampleCrates []) sampleWorld sampleOps = true := by decide +kernel
  apply (revocations_stand_iff sampleWorld _ (trace_play hruns)).mpr
  refine ⟨trivial, ?_, trivial⟩
  intro m hm
  have htrusted : standing (final (Op.exec (sampleCrates [])
      (.generate sampleSeedA "authority")) sampleWorld).fs sampleIdA = .trusted := by
    decide +kernel
  rw [htrusted] at hm
  cases hm

/-- A key is generated, revoked, and revoked again a month later. -/
def sampleOpsAgain : List Op := sampleOps ++ [.revoke sampleIdA sampleJune]

/-- The store after the first `revoke`. -/
def sampleOnce : World :=
  final (Op.exec (sampleCrates []) (.revoke sampleIdA sampleMay))
    (final (Op.exec (sampleCrates []) (.generate sampleSeedA "authority")) sampleWorld)

/-- The store after the second. -/
def sampleTwice : World :=
  final (Op.exec (sampleCrates []) (.revoke sampleIdA sampleJune)) sampleOnce

/-- The second `revoke` dates the key a month later, and a signature made in between, ruled out
before, counts again. -/
theorem revoke_again_moves_later :
    succeeds (sampleCrates []) sampleWorld sampleOpsAgain = true ∧ sampleMay ≤ sampleJune ∧
      RejectedByRevocation (sampleCrates []) sampleOnce.fs sampleSigned ∧
      accepted (sampleCrates []) sampleTwice.fs sampleSigned = true ∧
      ¬ (states sampleWorld (play (sampleCrates []) sampleWorld sampleOpsAgain)).Pairwise
        (RevocationsStand (sampleCrates [])) := by
  refine ⟨by decide +kernel, by decide +kernel, ⟨sampleMay, by decide +kernel, by decide +kernel⟩,
    by decide +kernel, ?_⟩
  intro hstand
  have hbefore : standing sampleOnce.fs sampleIdA = .revoked sampleMay := by decide +kernel
  have hafter : standing sampleTwice.fs sampleIdA = .revoked sampleJune := by decide +kernel
  -- the two last stores of the history
  have hpair : RevocationsStand (sampleCrates []) sampleOnce.fs sampleTwice.fs :=
    (List.pairwise_cons.mp (List.pairwise_cons.mp (List.pairwise_cons.mp hstand).2).2).1 _
      List.mem_cons_self
  obtain ⟨m, hm, hle⟩ := hpair.stays sampleIdA sampleMay hbefore
  rw [hafter] at hm
  cases hm
  exact absurd hle (by decide +kernel)

end Attest.Trust
