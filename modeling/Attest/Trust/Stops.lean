import Attest.Trust.News

/-! How far a call comes that fails.

An operation is a line of calls that change files, and the first that fails ends it
with what the ones before it have done. `revoke` has one such call and leaves nothing.
The others write key files first: a directory, a private key, public keys, and only
then the policy; an import still has its copy to write when the policy is saved. -/
namespace Attest.Trust
open Library.Fallible

/-! ### How far a program comes -/

/-- None of the first `n` calls fails by what is to come. -/
def Reached (outcomes : List Outcome) (n : Nat) : Prop := ∀ o ∈ outcomes.take n, o = .done

instance (outcomes : List Outcome) (n : Nat) : Decidable (Reached outcomes n) :=
  inferInstanceAs (Decidable (∀ o ∈ outcomes.take n, o = .done))

theorem reached_add {outcomes : List Outcome} {m n : Nat} :
    Reached outcomes (m + n) ↔ Reached outcomes m ∧ Reached (outcomes.drop m) n := by
  unfold Reached
  rw [List.take_add]
  simp only [List.mem_append]
  refine ⟨?_, ?_⟩
  · intro h
    exact ⟨fun o ho => h o (.inl ho), fun o ho => h o (.inr ho)⟩
  · rintro ⟨hm, hn⟩ o (ho | ho)
    · exact hm o ho
    · exact hn o ho

theorem Reached.of_le {outcomes : List Outcome} {m n : Nat} (hle : m ≤ n)
    (h : Reached outcomes n) : Reached outcomes m := by
  obtain ⟨k, rfl⟩ := Nat.exists_eq_add_of_le hle
  exact (reached_add.mp h).1

section Syscall
variable {context : Option String} {possible : Workspace → Bool} {effect : Workspace → Workspace}
  {torn : Nat → Workspace → Workspace} {w w' : World}

theorem syscall_done {u : Unit} (h : syscall context possible effect torn w = .ok u w') :
    possible w.fs = true ∧ w'.fs = effect w.fs ∧ Reached w.outcomes 1 ∧
      w'.outcomes = w.outcomes.drop 1 := by
  unfold syscall at h
  split at h
  next hp =>
    split at h
    next hnil =>
      cases h
      refine ⟨hp, rfl, ?_, ?_⟩
      · rw [hnil]
        simp [Reached]
      · rw [hnil]
        rfl
    next rest hdone =>
      cases h
      refine ⟨hp, rfl, ?_, ?_⟩
      · rw [hdone]
        simp [Reached]
      · rw [hdone]
        rfl
    next => cases h
    next => cases h
  next => cases h

/-- A call that fails was not possible, or was not let through: it had no effect, or a torn one. -/
theorem syscall_stopped {e : String} (h : syscall context possible effect torn w = .error e w') :
    possible w.fs = false ∧ w'.fs = w.fs ∨
      possible w.fs = true ∧ ¬ Reached w.outcomes 1 ∧
        ((∃ e rest, w.outcomes = .failed e :: rest ∧ w'.fs = w.fs) ∨
          ∃ n e rest, w.outcomes = .torn n e :: rest ∧ w'.fs = torn n w.fs) := by
  unfold syscall at h
  split at h
  next hp =>
    refine .inr ⟨hp, ?_⟩
    split at h
    next => cases h
    next => cases h
    next e rest hfailed =>
      cases h
      refine ⟨?_, .inl ⟨e, rest, hfailed, rfl⟩⟩
      rw [hfailed]
      simp [Reached]
    next n e rest htorn =>
      cases h
      refine ⟨?_, .inr ⟨n, e, rest, htorn, rfl⟩⟩
      rw [htorn]
      simp [Reached]
  next hp =>
    cases h
    exact .inl ⟨by simpa using hp, rfl⟩

end Syscall

section Touch
variable {w w' : World}

theorem touch_done {u : Unit} (h : touch w = .ok u w') :
    w'.fs = w.fs ∧ Reached w.outcomes 1 ∧ w'.outcomes = w.outcomes.drop 1 :=
  (syscall_done h).2

theorem touch_stopped {e : String} (h : touch w = .error e w') :
    w'.fs = w.fs ∧ ¬ Reached w.outcomes 1 := by
  rcases syscall_stopped h with ⟨⟨⟩, -⟩ | ⟨-, hnot, ⟨_, _, -, hfs⟩ | ⟨_, _, _, -, hfs⟩⟩
  · exact ⟨hfs, hnot⟩
  · exact ⟨hfs, hnot⟩

theorem createTrustDir_done {u : Unit} (h : createTrustDir w = .ok u w') :
    w'.fs = created w.fs ∧ Reached w.outcomes 1 ∧ w'.outcomes = w.outcomes.drop 1 :=
  (syscall_done h).2

theorem createTrustDir_stopped {e : String} (h : createTrustDir w = .error e w') :
    w'.fs = w.fs ∧ ¬ Reached w.outcomes 1 := by
  rcases syscall_stopped h with ⟨⟨⟩, -⟩ | ⟨-, hnot, ⟨_, _, -, hfs⟩ | ⟨_, _, _, -, hfs⟩⟩
  · exact ⟨hfs, hnot⟩
  · exact ⟨hfs, hnot⟩

/-- A policy that cannot be saved leaves a directory as it is. -/
theorem save_stopped {policy : TrustPolicy} {e : String} (hpresent : w.fs.trust = some w.fs.trustDir)
    (h : policy.save w = .error e w') :
    w'.fs = w.fs ∧ ¬ (Reached w.outcomes 2 ∧ canWrite w.fs.trustDir.trustToml = true) := by
  have hcreated : created w.fs = w.fs := by rw [created, Workspace.setTrust, ← hpresent]
  simp only [TrustPolicy.save, bind_eq_error, reading_eq_error, reading_eq_ok] at h
  rcases h with hdir | ⟨_, w₁, hdir, ⟨⟨⟩, -⟩ | ⟨_, _, ⟨-, rfl⟩, hwrite⟩⟩
  · obtain ⟨hfs, hnot⟩ := createTrustDir_stopped hdir
    exact ⟨hfs, fun hboth => hnot (hboth.1.of_le (by decide))⟩
  · obtain ⟨hfs, hreached, hout⟩ := createTrustDir_done hdir
    rw [hcreated] at hfs
    rcases syscall_stopped hwrite with ⟨hcan, hsame⟩ | ⟨-, hnot, ⟨_, _, -, hsame⟩ | ⟨_, _, _, -, hsame⟩⟩
    · refine ⟨hsame.trans hfs, ?_⟩
      rintro ⟨-, hcan'⟩
      rw [hfs, hcan'] at hcan
      cases hcan
    · refine ⟨hsame.trans hfs, ?_⟩
      rintro ⟨htwo, -⟩
      rw [hout] at hnot
      exact hnot (reached_add.mp htwo).2
    · refine ⟨hsame.trans hfs, ?_⟩
      rintro ⟨htwo, -⟩
      rw [hout] at hnot
      exact hnot (reached_add.mp htwo).2

theorem save_done {policy : TrustPolicy} {u : Unit} (h : policy.save w = .ok u w') :
    w'.fs = putPolicy policy w.fs ∧ canWrite w.fs.trustDir.trustToml = true ∧
      Reached w.outcomes 2 ∧ w'.outcomes = w.outcomes.drop 2 := by
  obtain ⟨hcan, hfs⟩ := save_ok h
  simp only [TrustPolicy.save, bind_eq_ok, reading_eq_ok] at h
  obtain ⟨_, w₁, hdir, _, _, ⟨-, rfl⟩, hwrite⟩ := h
  obtain ⟨-, hone, hout⟩ := createTrustDir_done hdir
  obtain ⟨-, -, htwo, hout'⟩ := syscall_done hwrite
  rw [hout] at htwo hout'
  refine ⟨hfs, hcan, reached_add.mpr ⟨hone, htwo⟩, ?_⟩
  rw [hout', List.drop_drop]

end Touch

/-! ### Key files -/

/-- Of the keys that calls to come write in turn, the ones that are there whole when they end. -/
def writtenKeys : List Outcome → List VerifyingKey → List VerifyingKey
  | _, [] => []
  | [], key :: rest => key :: writtenKeys [] rest
  | .done :: outcomes, key :: rest => key :: writtenKeys outcomes rest
  | .failed _ :: _, _ :: _ => []
  | .torn written _ :: _, key :: _ => if publicPemSize ≤ written + 1 then [key] else []

theorem writtenKeys_cons_of_reached {outcomes : List Outcome} (h : Reached outcomes 1)
    (key : VerifyingKey) (keys : List VerifyingKey) :
    writtenKeys outcomes (key :: keys) = key :: writtenKeys (outcomes.drop 1) keys := by
  cases outcomes with
  | nil => rfl
  | cons outcome rest =>
    have hdone : outcome = .done := h outcome (by simp)
    rw [hdone]
    rfl

theorem writtenKeys_of_reached {outcomes : List Outcome} {keys : List VerifyingKey}
    (h : Reached outcomes keys.length) : writtenKeys outcomes keys = keys := by
  induction keys generalizing outcomes with
  | nil => cases outcomes <;> rfl
  | cons key rest ih =>
    rw [List.length_cons, Nat.add_comm] at h
    obtain ⟨hone, hrest⟩ := reached_add.mp h
    rw [writtenKeys_cons_of_reached hone, ih hrest]

section Keys
variable {c : Crates} {w w' : World} {key : VerifyingKey}

theorem writePub_done {context : Option String} {id : String} {u : Unit}
    (h : writePub context id key w = .ok u w') :
    w'.fs = putPub id (some key) w.fs ∧ Reached w.outcomes 1 ∧
      w'.outcomes = w.outcomes.drop 1 :=
  (syscall_done h).2

/-- A public key that could not be written is there or not as the torn call left it. -/
theorem writePub_stopped {context : Option String} {id e : String}
    (hfresh : w.fs.trustDir.pubs.lookup id = none) (h : writePub context id key w = .error e w')
    (keys : List VerifyingKey) :
    ¬ Reached w.outcomes 1 ∧
      (writtenKeys w.outcomes (key :: keys) = [] ∧ (w'.fs = w.fs ∨ w'.fs = putPub id none w.fs) ∨
        writtenKeys w.outcomes (key :: keys) = [key] ∧ w'.fs = putPub id (some key) w.fs) := by
  rcases syscall_stopped h with ⟨hcan, -⟩ | ⟨-, hnot, ⟨_, _, hout, hfs⟩ | ⟨n, _, _, hout, hfs⟩⟩
  · rw [hfresh] at hcan
    cases hcan
  · exact ⟨hnot, .inl ⟨by rw [hout]; rfl, .inl hfs⟩⟩
  · refine ⟨hnot, ?_⟩
    rw [hout, hfs]
    by_cases hwhole : publicPemSize ≤ n + 1
    · right
      simp [writtenKeys, hwhole]
    · left
      rw [if_neg hwhole]
      exact ⟨by simp [writtenKeys, hwhole], .inr rfl⟩

theorem adds_of_torn {ws ws' : Workspace} {id : String} (hpresent : ws.trust = some ws.trustDir)
    (hfresh : ws.trustDir.pubs.lookup id = none) (h : ws' = ws ∨ ws' = putPub id none ws) :
    Adds c ws ws' [] := by
  rcases h with rfl | rfl
  · exact adds_refl hpresent
  · exact adds_putPub_none hfresh

/-- What is left of one new public key. -/
def LeftKey (c : Crates) (key : VerifyingKey) (written : List VerifyingKey) (ws ws' : Workspace) :
    Prop :=
  written = [] ∧ Adds c ws ws' [] ∨
    written = [key] ∧ ws.trustDir.pubs.lookup (keyId c key) = none ∧
      ws' = putPub (keyId c key) (some key) (created ws)

theorem adds_of_leftKey {written : List VerifyingKey} {ws ws' : Workspace}
    (h : LeftKey c key written ws ws') : Adds c ws ws' written := by
  rcases h with ⟨rfl, hadds⟩ | ⟨rfl, hfresh, rfl⟩
  · exact hadds
  · exact (adds_created ws).trans (@adds_putPub c (created ws) key hfresh)

theorem LeftKey.status_iff {written : List VerifyingKey} {ws ws' : Workspace}
    (h : LeftKey c key written ws ws') :
    (∀ hex, keyTrustStatus c ws' hex = keyTrustStatus c ws hex) ↔
      QuietDir ws ∧ ∀ k ∈ written, QuietKey c ws k := by
  rw [(adds_of_leftKey h).status_iff]
  rcases h with ⟨rfl, hadds⟩ | ⟨rfl, hfresh, rfl⟩
  · simp only [List.not_mem_nil, false_implies, implies_true, and_true, and_iff_left_iff_imp]
    intro _ e he
    exact ⟨e, by rw [hadds.loadPolicy_nil, he]⟩
  · simp only [List.mem_singleton, forall_eq, and_congr_right_iff]
    intro _
    refine ⟨?_, ?_⟩
    · rintro ⟨hunrepaired, hunhidden⟩
      exact ⟨hunrepaired, hunhidden⟩
    · rintro ⟨hunrepaired, hunhidden⟩
      exact ⟨hunrepaired, hunhidden⟩

end Keys

/-! ### Revoking -/

section Operations
variable {c : Crates} {w w' : World} {e : String}

/-- A revocation that fails leaves the store as it was. -/
theorem revoke_stopped {id : String} {now : DateTime}
    (h : KeyStore.revoke c id now w = .error e w') : w'.fs = w.fs := by
  simp only [KeyStore.revoke, bind_eq_error, reading_eq_error, reading_eq_ok] at h
  rcases h with ⟨-, rfl⟩ | ⟨policy, _, ⟨hload, rfl⟩, h⟩
  · rfl
  cases hentry : policy.entry id with
  | none =>
    simp only [hentry] at h
    exact absurd h pure_ne_error
  | some entry =>
    simp only [hentry, bind_eq_error] at h
    rcases h with hsave | ⟨_, _, -, hpure⟩
    · -- a store without a directory has no entry
      have hpresent : w.fs.trust = some w.fs.trustDir := by
        cases htrust : w.fs.trust with
        | some dir =>
          rw [Workspace.trustDir, htrust]
          rfl
        | none =>
          have hstored := (loadPolicy_ok_iff.mp hload).1
          rw [storedPolicy, trustDir_of_none htrust] at hstored
          cases hstored
          cases hentry
      exact (save_stopped hpresent hsave).1
    · exact absurd hpure pure_ne_error

/-! ### Importing a key -/

/-- The public key an import writes, if any. -/
def importedKeys (c : Crates) (ws : Workspace) (outcomes : List Outcome) (key : VerifyingKey) :
    List VerifyingKey :=
  if (ws.trustDir.pubs.lookup (keyId c key)).isNone then writtenKeys outcomes [key] else []

/-- However the writing of a public key ends, it leaves the key or nothing. -/
theorem leftKey_placePub {ws : Workspace} (key : VerifyingKey) (outcomes : List Outcome) :
    LeftKey c key (importedKeys c ws outcomes key) ws
      (final (KeyStore.placePub (keyId c key) key) ⟨created ws, outcomes⟩).fs := by
  have hlookup : (created ws).trustDir.pubs = ws.trustDir.pubs := rfl
  unfold KeyStore.placePub importedKeys
  rw [final_reading_bind]
  simp only [hlookup]
  cases hnode : ws.trustDir.pubs.lookup (keyId c key) with
  | some node => exact .inl ⟨rfl, adds_created ws⟩
  | none =>
    simp only [Option.isSome_none, Option.isNone_none, Bool.false_eq_true, if_false, if_true]
    rw [final_bind]
    cases hwrite : writePub none (keyId c key) key ⟨created ws, outcomes⟩ with
    | error e w₁ =>
      obtain ⟨-, ⟨hwritten, htorn⟩ | ⟨hwritten, hfs⟩⟩ := writePub_stopped hnode hwrite []
      · exact .inl ⟨hwritten, (adds_created ws).trans (@adds_of_torn c _ _ _ rfl hnode htorn)⟩
      · exact .inr ⟨hwritten, hnode, hfs⟩
    | ok u w₁ =>
      obtain ⟨hfs, hone, -⟩ := writePub_done hwrite
      have hwritten := @writtenKeys_of_reached outcomes [key] hone
      have hmode : (final touch w₁).fs = w₁.fs := by
        cases htouch : touch w₁ with
        | ok u w₂ => rw [final_of_ok htouch, (touch_done htouch).1]
        | error e w₂ => rw [final, htouch, (touch_stopped htouch).1]
      exact .inr ⟨hwritten, hnode, hmode.trans hfs⟩

theorem addEntry_stopped {policy : TrustPolicy} {id name : String}
    (hpresent : w.fs.trust = some w.fs.trustDir)
    (h : KeyStore.addEntry policy id name w = .error e w') : w'.fs = w.fs := by
  unfold KeyStore.addEntry at h
  split at h
  · exact (save_stopped hpresent h).1
  · exact absurd h pure_ne_error

/-- An import of a key that fails had no key to import, or came to the directory or not. -/
theorem importKey_stopped {path name : String} {pem : Option (Node PemText)}
    (h : KeyStore.importKey c path pem name w = .error e w') :
    (∀ key, contentOf pem ≠ some ⟨false, .ok key⟩) ∧ w'.fs = w.fs ∨
      ∃ key, contentOf pem = some ⟨false, .ok key⟩ ∧
        (¬ Reached w.outcomes 1 ∧ w'.fs = w.fs ∨ Reached w.outcomes 1 ∧
          LeftKey c key (importedKeys c w.fs (w.outcomes.drop 1) key) w.fs w'.fs) := by
  simp only [KeyStore.importKey, bind_eq_error, reading_eq_error, reading_eq_ok] at h
  rcases h with ⟨hpem, rfl⟩ | ⟨key, _, ⟨hpem, rfl⟩, h⟩
  · refine .inl ⟨?_, rfl⟩
    intro key hkey
    rw [hkey] at hpem
    cases hpem
  have hcontent : contentOf pem = some ⟨false, .ok key⟩ := by
    split at hpem
    next => cases hpem
    next text htext =>
      rw [htext]
      obtain ⟨mentionsPrivate, found⟩ := text
      split at hpem
      next => cases hpem
      next hprivate =>
        simp only [mapError_eq_ok] at hpem
        simp only [Bool.not_eq_true] at hprivate
        rw [hprivate, hpem]
  refine .inr ⟨key, hcontent, ?_⟩
  rcases h with hdir | ⟨_, w₁, hdir, h⟩
  · obtain ⟨hfs, hnot⟩ := createTrustDir_stopped hdir
    exact .inl ⟨hnot, hfs⟩
  obtain ⟨hfs₁, hone, hout₁⟩ := createTrustDir_done hdir
  refine .inr ⟨hone, ?_⟩
  have hleft := @leftKey_placePub c w.fs key (w.outcomes.drop 1)
  have hw₁ : w₁ = ⟨created w.fs, w.outcomes.drop 1⟩ := by
    cases w₁
    simp only [World.mk.injEq]
    exact ⟨hfs₁, hout₁⟩
  rw [← hw₁] at hleft
  rcases h with hplace | ⟨_, w₂, hplace, h⟩
  · rw [final, hplace] at hleft
    exact hleft
  rw [final_of_ok hplace] at hleft
  rcases h with ⟨-, rfl⟩ | ⟨policy, _, ⟨-, rfl⟩, hadd | ⟨_, _, -, hpure⟩⟩
  · exact hleft
  · rw [addEntry_stopped (adds_of_leftKey hleft).present hadd]
    exact hleft
  · exact absurd hpure pure_ne_error

/-! ### Generating a key -/

theorem putKey_putKey (id : String) (content content' : KeyContent) (ws : Workspace) :
    putKey id content' (putKey id content ws) = putKey id content' ws := by
  simp only [putKey, AList.insert_insert]

/-- A private key file that is created and then fails is there all the same. -/
theorem createPrivate_stopped {id : String} {key : SigningKey}
    (hfresh : w.fs.keys.lookup id = none) (h : createPrivate id key w = .error e w') :
    ¬ Reached w.outcomes 1 ∧ w'.fs = w.fs ∨
      Reached w.outcomes 1 ∧ ¬ Reached w.outcomes 3 ∧ ∃ content, w'.fs = putKey id content w.fs := by
  simp only [createPrivate, bind_eq_error, reading_eq_error, reading_eq_ok] at h
  rcases h with ⟨⟨⟩, -⟩ | ⟨_, _, ⟨-, rfl⟩, hopen | ⟨_, w₁, hopen, h⟩⟩
  · left
    rcases syscall_stopped hopen with ⟨hpossible, -⟩ | ⟨-, hnot, ⟨_, _, -, hfs⟩ | ⟨_, _, _, -, hfs⟩⟩
    · rw [hfresh] at hpossible
      cases hpossible
    · exact ⟨hnot, hfs⟩
    · exact ⟨hnot, hfs⟩
  right
  obtain ⟨-, hfs₁, hone, hout₁⟩ := syscall_done hopen
  rcases h with hwrite | ⟨_, w₂, hwrite, hsync⟩
  · have hnot : ¬ Reached (w.outcomes.drop 1) 1 := by
      rw [← hout₁]
      rcases syscall_stopped hwrite with ⟨⟨⟩, -⟩ | ⟨-, hnot, -⟩
      exact hnot
    refine ⟨hone, fun h3 => hnot (((@reached_add _ 1 2).mp h3).2.of_le (by decide)), ?_⟩
    rcases syscall_stopped hwrite with ⟨⟨⟩, -⟩ | ⟨-, -, ⟨_, _, -, hfs⟩ | ⟨_, _, _, -, hfs⟩⟩
    · exact ⟨.other, hfs.trans hfs₁⟩
    · rw [hfs₁, putKey_putKey] at hfs
      exact ⟨_, hfs⟩
  · obtain ⟨-, hfs₂, -, hout₂⟩ := syscall_done hwrite
    obtain ⟨hfs, hnot⟩ := touch_stopped hsync
    rw [hout₂, hout₁, List.drop_drop] at hnot
    refine ⟨hone, fun h3 => hnot (reached_add.mp h3).2, ?_⟩
    rw [hfs₁, putKey_putKey] at hfs₂
    exact ⟨_, hfs.trans hfs₂⟩

theorem createPrivate_done {id : String} {key : SigningKey} {u : Unit}
    (h : createPrivate id key w = .ok u w') :
    w'.fs = putKey id (.pem key) w.fs ∧ Reached w.outcomes 3 ∧
      w'.outcomes = w.outcomes.drop 3 := by
  refine ⟨createPrivate_ok h, ?_⟩
  simp only [createPrivate, bind_eq_ok, reading_eq_ok] at h
  obtain ⟨_, _, ⟨-, rfl⟩, _, w₁, hopen, _, w₂, hwrite, hsync⟩ := h
  obtain ⟨-, -, hone, hout₁⟩ := syscall_done hopen
  obtain ⟨-, -, htwo, hout₂⟩ := syscall_done hwrite
  obtain ⟨-, hthree, hout₃⟩ := touch_done hsync
  rw [hout₁] at htwo hout₂
  rw [hout₂, List.drop_drop] at hthree hout₃
  rw [List.drop_drop] at hout₃
  exact ⟨reached_add.mpr ⟨reached_add.mpr ⟨hone, htwo⟩, hthree⟩, hout₃⟩

/-- The public key a generation writes, if it comes to that. -/
def generatedKeys (outcomes : List Outcome) (key : VerifyingKey) : List VerifyingKey :=
  if Reached outcomes 5 then writtenKeys (outcomes.drop 5) [key] else []

/-- A generation that fails found a half of the key there, or came to the directory, to the private
key and to the public key, in this order. -/
theorem generate_stopped {key : SigningKey} {name : String}
    (h : KeyStore.generate c key name w = .error e w') :
    ((w.fs.keys.lookup (keyId c (c.verifyingKey key))).isSome ||
        (w.fs.trustDir.pubs.lookup (keyId c (c.verifyingKey key))).isSome) = true ∧
      w'.fs = w.fs ∨
    (w.fs.keys.lookup (keyId c (c.verifyingKey key)) = none ∧
        w.fs.trustDir.pubs.lookup (keyId c (c.verifyingKey key)) = none) ∧
      (¬ Reached w.outcomes 2 ∧ w'.fs = w.fs ∨
        Reached w.outcomes 2 ∧ ¬ Reached w.outcomes 3 ∧ w'.fs = created w.fs ∨
        Reached w.outcomes 3 ∧ ∃ content ws₁,
          w'.fs = putKey (keyId c (c.verifyingKey key)) content ws₁ ∧
          LeftKey c (c.verifyingKey key) (generatedKeys w.outcomes (c.verifyingKey key)) w.fs ws₁) := by
  simp only [KeyStore.generate, bind_eq_error, reading_eq_error, reading_eq_ok, refuseIf_eq_ok,
    Bool.not_eq_true] at h
  rcases h with ⟨hrefused, rfl⟩ | ⟨_, _, ⟨hfree, rfl⟩, h⟩
  · refine .inl ⟨?_, rfl⟩
    unfold refuseIf at hrefused
    split at hrefused
    next hthere => exact hthere
    next => cases hrefused
  right
  simp only [Bool.or_eq_false_iff, Option.isSome_eq_false_iff, Option.isNone_iff_eq_none] at hfree
  refine ⟨hfree, ?_⟩
  rcases h with hkeys | ⟨_, w₁, hkeys, h⟩
  · obtain ⟨hfs, hnot⟩ := touch_stopped hkeys
    exact .inl ⟨fun h2 => hnot (h2.of_le (by decide)), hfs⟩
  obtain ⟨hfs₁, hone, hout₁⟩ := touch_done hkeys
  rcases h with hdir | ⟨_, w₂, hdir, h⟩
  · obtain ⟨hfs, hnot⟩ := createTrustDir_stopped hdir
    rw [hout₁] at hnot
    exact .inl ⟨fun h2 => hnot (reached_add.mp h2).2, hfs.trans hfs₁⟩
  right
  obtain ⟨hfs₂, htwo, hout₂⟩ := createTrustDir_done hdir
  rw [hout₁] at htwo hout₂
  rw [List.drop_drop] at hout₂
  rw [hfs₁] at hfs₂
  have htwo : Reached w.outcomes 2 := reached_add.mpr ⟨hone, htwo⟩
  have hfree₂ : w₂.fs.keys.lookup (keyId c (c.verifyingKey key)) = none := by
    rw [hfs₂]
    exact hfree.1
  rcases h with hprivate | ⟨_, w₃, hprivate, h⟩
  · rcases createPrivate_stopped hfree₂ hprivate with ⟨hnot, hfs⟩ | ⟨hopened, hnot, content, hfs⟩
    · rw [hout₂] at hnot
      exact .inl ⟨htwo, fun h3 => hnot (reached_add.mp h3).2, hfs.trans hfs₂⟩
    · right
      rw [hout₂] at hopened hnot
      have hfive : ¬ Reached w.outcomes 5 := fun h5 => hnot (reached_add.mp h5).2
      refine ⟨reached_add.mpr ⟨htwo, hopened⟩, content, created w.fs, ?_, ?_⟩
      · rw [hfs, hfs₂]
      · rw [generatedKeys, if_neg hfive]
        exact .inl ⟨rfl, adds_created w.fs⟩
  right
  obtain ⟨hfs₃, hfive, hout₃⟩ := createPrivate_done hprivate
  rw [hout₂] at hfive hout₃
  rw [List.drop_drop] at hout₃
  rw [hfs₂] at hfs₃
  have hfive : Reached w.outcomes 5 := reached_add.mpr ⟨htwo, hfive⟩
  refine ⟨hfive.of_le (by decide), .pem key, ?_⟩
  rw [generatedKeys, if_pos hfive]
  have hfree₃ : w₃.fs.trustDir.pubs.lookup (keyId c (c.verifyingKey key)) = none := by
    rw [hfs₃]
    exact hfree.2
  rcases h with hpub | ⟨_, w₄, hpub, h⟩
  · obtain ⟨-, ⟨hwritten, htorn⟩ | ⟨hwritten, hfs⟩⟩ := writePub_stopped hfree₃ hpub []
    · rw [hout₃] at hwritten
      have hleft := fun ws₁ h => (adds_created w.fs).trans (@adds_of_torn c (created w.fs) ws₁
        (keyId c (c.verifyingKey key)) rfl hfree.2 h)
      rw [hfs₃] at htorn
      rcases htorn with hfs | hfs
      · exact ⟨created w.fs, hfs, .inl ⟨hwritten, hleft _ (.inl rfl)⟩⟩
      · exact ⟨putPub _ none (created w.fs), hfs, .inl ⟨hwritten, hleft _ (.inr rfl)⟩⟩
    · rw [hout₃] at hwritten
      rw [hfs₃] at hfs
      exact ⟨putPub _ _ (created w.fs), hfs, .inr ⟨hwritten, hfree.2, rfl⟩⟩
  obtain ⟨hfs₄, hsix, -⟩ := writePub_done hpub
  rw [hout₃] at hsix
  rw [hfs₃] at hfs₄
  -- from here on nothing is written but the policy, whole or not at all
  have hrest : w'.fs = w₄.fs := by
    rcases h with hmode | ⟨_, w₅, hmode, h⟩
    · exact (touch_stopped hmode).1
    obtain ⟨hfs₅, -⟩ := touch_done hmode
    rcases h with ⟨-, rfl⟩ | ⟨policy, _, ⟨-, rfl⟩, hsave | ⟨_, _, -, hpure⟩⟩
    · exact hfs₅
    · have hpresent : w₅.fs.trust = some w₅.fs.trustDir := by
        rw [hfs₅, hfs₄]
        rfl
      exact (save_stopped hpresent hsave).1.trans hfs₅
    · exact absurd hpure pure_ne_error
  refine ⟨putPub _ _ (created w.fs), hrest.trans hfs₄, .inr ⟨?_, hfree.2, rfl⟩⟩
  exact writtenKeys_of_reached hsix

/-! ### Importing a bundle -/

section KeyFiles
variable {key : BundledKey} {verifyingKey : VerifyingKey}
  (hdecode : bundledKeyFromHex c key.publicKey = .ok verifyingKey)
include hdecode

/-- One turn of the loop: a file that is there is left alone, and one that is not is written. -/
theorem writeKeyFile_eq (w : World) :
    writeKeyFile c key w =
      if (w.fs.trustDir.pubs.lookup key.id).isSome then .ok () w
      else
        let path := joinPath w.fs.trustPath (key.id ++ ".pub")
        writePub (some s!"cannot write {path}") key.id verifyingKey w := by
  unfold writeKeyFile
  rw [reading_ok_bind, reading_ok_bind, hdecode]
  split
  · rfl
  · rw [reading_ok_bind]

end KeyFiles

section Loop
variable {keys : List BundledKey} (hkeys : KeysInOrder c keys)
include hkeys

theorem writeKeyFiles_done {u : Unit} (h : writeKeyFiles c keys w = .ok u w') :
    Reached w.outcomes (missingKeys c w.fs keys).length ∧
      w'.outcomes = w.outcomes.drop (missingKeys c w.fs keys).length := by
  induction keys generalizing w with
  | nil =>
    cases h
    exact ⟨by simp [missingKeys, Reached], by simp [missingKeys]⟩
  | cons key rest ih =>
    obtain ⟨verifyingKey, hdecode, -⟩ :=
      bundledKeyFromHex_of_keyId (hkeys.derive key List.mem_cons_self)
    rw [writeKeyFiles, bind_eq_ok] at h
    obtain ⟨_, w₁, hfile, hrest⟩ := h
    rw [writeKeyFile_eq hdecode] at hfile
    rw [missingKeys_cons hdecode]
    cases hnode : w.fs.trustDir.pubs.lookup key.id with
    | some node =>
      rw [hnode] at hfile
      cases hfile
      exact ih hkeys.tail hrest
    | none =>
      rw [hnode] at hfile
      obtain ⟨hfs, hone, hout⟩ := writePub_done hfile
      obtain ⟨hreached, hout'⟩ := ih hkeys.tail hrest
      rw [hfs, missingKeys_putPub (ids_ne_of_nodup hkeys.nodup), hout] at hreached hout'
      simp only [Option.isNone_none, if_true, List.length_cons]
      rw [Nat.add_comm]
      refine ⟨reached_add.mpr ⟨hone, hreached⟩, ?_⟩
      rw [hout', List.drop_drop]

/-- The loop that stops has written the missing keys up to the call that failed. -/
theorem writeKeyFiles_stopped (hpresent : w.fs.trust = some w.fs.trustDir)
    (h : writeKeyFiles c keys w = .error e w') :
    ¬ Reached w.outcomes (missingKeys c w.fs keys).length ∧
      Adds c w.fs w'.fs (writtenKeys w.outcomes (missingKeys c w.fs keys)) := by
  induction keys generalizing w with
  | nil => cases h
  | cons key rest ih =>
    obtain ⟨verifyingKey, hdecode, hid⟩ :=
      bundledKeyFromHex_of_keyId (hkeys.derive key List.mem_cons_self)
    rw [writeKeyFiles, bind_eq_error] at h
    rw [missingKeys_cons hdecode]
    cases hnode : w.fs.trustDir.pubs.lookup key.id with
    | some node =>
      simp only [writeKeyFile_eq hdecode, hnode] at h
      rcases h with ⟨⟨⟩⟩ | ⟨_, w₁, ⟨⟩, hrest⟩
      exact ih hkeys.tail hpresent hrest
    | none =>
      simp only [writeKeyFile_eq hdecode, hnode] at h
      simp only [Option.isNone_none, if_true, List.length_cons]
      rcases h with hfile | ⟨_, w₁, hfile, hrest⟩
      · obtain ⟨hnot, hleft⟩ := writePub_stopped hnode hfile (missingKeys c w.fs rest)
        refine ⟨fun hall => hnot (hall.of_le (by omega)), ?_⟩
        rcases hleft with ⟨hwritten, htorn⟩ | ⟨hwritten, hfs⟩
        · rw [hwritten]
          exact adds_of_torn hpresent hnode htorn
        · rw [hwritten, hfs, ← hid]
          rw [← hid] at hnode
          exact adds_putPub hnode
      · obtain ⟨hfs, hone, hout⟩ := writePub_done hfile
        have hfirst : Adds c w.fs w₁.fs [verifyingKey] := by
          rw [hfs, ← hid]
          rw [← hid] at hnode
          exact adds_putPub hnode
        obtain ⟨hnot, hadds⟩ := ih hkeys.tail hfirst.present hrest
        have hmissing : missingKeys c w₁.fs rest = missingKeys c w.fs rest := by
          rw [hfs, missingKeys_putPub (ids_ne_of_nodup hkeys.nodup)]
        rw [hmissing, hout] at hnot hadds
        refine ⟨?_, ?_⟩
        · rw [Nat.add_comm]
          intro hall
          exact hnot (reached_add.mp hall).2
        · rw [writtenKeys_cons_of_reached hone]
          exact hfirst.trans hadds

end Loop

/-- The policy of an import is saved before its copy is written. -/
def SavesPolicy (c : Crates) (w : World) (keys : List BundledKey) : Prop :=
  Reached w.outcomes (1 + (missingKeys c w.fs keys).length + 2) ∧
    canWrite w.fs.trustDir.trustToml = true

/-- A recording that fails came to the directory or not, to some of the key files, or past the
policy. -/
theorem record_stopped {bundle : TrustBundle} {report : ImportReport} {policy : TrustPolicy}
    (hkeys : KeysInOrder c bundle.keys) (hload : loadPolicy c w.fs = .ok policy)
    (h : record c bundle report w = .error e w') :
    ¬ Reached w.outcomes 1 ∧ w'.fs = w.fs ∨
      Reached w.outcomes 1 ∧ ¬ SavesPolicy c w bundle.keys ∧
        Adds c w.fs w'.fs (writtenKeys (w.outcomes.drop 1) (missingKeys c w.fs bundle.keys)) ∨
      SavesPolicy c w bundle.keys ∧
        (w'.fs = saved c bundle report policy w.fs ∨
          ∃ bytes, w'.fs = putCopy bundle.issuer.keyId bytes (saved c bundle report policy w.fs)) := by
  simp only [record, bind_eq_error, reading_eq_error, reading_eq_ok] at h
  rcases h with hdir | ⟨_, w₁, hdir, h⟩
  · obtain ⟨hfs, hnot⟩ := createTrustDir_stopped hdir
    exact .inl ⟨hnot, hfs⟩
  right
  obtain ⟨hfs₁, hone, hout₁⟩ := createTrustDir_done hdir
  have hpresent₁ : w₁.fs.trust = some w₁.fs.trustDir := by
    rw [hfs₁]
    rfl
  have hmissing : missingKeys c w₁.fs bundle.keys = missingKeys c w.fs bundle.keys := by
    rw [hfs₁]
    rfl
  rcases h with hfiles | ⟨_, w₂, hfiles, h⟩
  · obtain ⟨hnot, hadds⟩ := writeKeyFiles_stopped hkeys hpresent₁ hfiles
    rw [hmissing, hout₁] at hnot hadds
    rw [hfs₁] at hadds
    refine .inl ⟨hone, ?_, (adds_created w.fs).trans hadds⟩
    intro hsaves
    exact hnot (reached_add.mp (reached_add.mp hsaves.1).1).2
  obtain ⟨hall, hout₂⟩ := writeKeyFiles_done hkeys hfiles
  have hfs₂ := writeKeyFiles_ok hfiles
  rw [hmissing, hout₁] at hall hout₂
  rw [hfs₁] at hfs₂
  have hadds := adds_ensureKeys_created hkeys w.fs
  rw [← hfs₂] at hadds
  have hwritten : writtenKeys (w.outcomes.drop 1) (missingKeys c w.fs bundle.keys) =
      missingKeys c w.fs bundle.keys := writtenKeys_of_reached hall
  have htoml : w₂.fs.trustDir.trustToml = w.fs.trustDir.trustToml := hadds.toml
  rcases h with ⟨hload', -⟩ | ⟨found, _, ⟨hload', rfl⟩, h⟩
  · rw [hadds.loadPolicy hload] at hload'
    cases hload'
  rw [hadds.loadPolicy hload] at hload'
  cases hload'
  have hreach : Reached w.outcomes (1 + (missingKeys c w.fs bundle.keys).length) :=
    reached_add.mpr ⟨hone, hall⟩
  rw [List.drop_drop] at hout₂
  rcases h with hsave | ⟨_, w₃, hsave, h⟩
  · obtain ⟨hfs, hnot⟩ := save_stopped hadds.present hsave
    refine .inl ⟨hone, ?_, by rw [hwritten, hfs]; exact hadds⟩
    rintro ⟨hsaves, hcan⟩
    rw [hout₂, htoml] at hnot
    exact hnot ⟨(reached_add.mp hsaves).2, hcan⟩
  right
  obtain ⟨hfs₃, hcan, htwo, -⟩ := save_done hsave
  rw [hout₂] at htwo
  rw [htoml] at hcan
  refine ⟨⟨reached_add.mpr ⟨hreach, htwo⟩, hcan⟩, ?_⟩
  rw [hfs₂] at hfs₃
  have hsaved : w₃.fs = saved c bundle report policy w.fs := hfs₃
  rcases h with htouch | ⟨_, w₄, htouch, hcopy | ⟨_, _, -, hpure⟩⟩
  · exact .inl ((touch_stopped htouch).1.trans hsaved)
  · obtain ⟨hfs₄, -⟩ := touch_done htouch
    simp only [writeCopy, bind_eq_error, reading_eq_error, reading_eq_ok] at hcopy
    rcases hcopy with ⟨⟨⟩, -⟩ | ⟨_, _, ⟨-, rfl⟩, hwrite⟩
    rcases syscall_stopped hwrite with ⟨-, hfs⟩ | ⟨-, -, ⟨_, _, -, hfs⟩ | ⟨n, _, _, -, hfs⟩⟩
    · exact .inl (hfs.trans (hfs₄.trans hsaved))
    · exact .inl (hfs.trans (hfs₄.trans hsaved))
    · rw [hfs₄, hsaved] at hfs
      exact .inr ⟨_, hfs⟩
  · exact absurd hpure pure_ne_error

end Operations

end Attest.Trust
