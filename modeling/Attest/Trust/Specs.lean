import Attest.Library.Text
import Attest.Trust.Import
import Mathlib.Data.String.Basic

/-! What the operations of the store do.

A policy loads exactly when `trust.toml` holds one and every entry of it is sound:
ids are well formed and unique, and each is backed by a `.pub` file that derives to
it. For each operation one lemma says what a call that succeeds has found and what
it leaves, and one that it succeeds when nothing stands in its way. -/
namespace Attest.Trust
open Library Library.Fallible

/-! ### Texts and their bytes -/

theorem fromUTF8?_utf8 (text : String) : String.fromUTF8? ⟨(utf8 text).toArray⟩ = some text := by
  have hbytes : (⟨(utf8 text).toArray⟩ : ByteArray) = text.toUTF8 := by simp [utf8]
  simp [hbytes, String.fromUTF8?, String.fromUTF8, text.isValidUTF8]

theorem utf8_of_fromUTF8? {bytes : Bytes} {text : String}
    (h : String.fromUTF8? ⟨bytes.toArray⟩ = some text) : utf8 text = bytes := by
  unfold String.fromUTF8? at h
  split at h
  next hvalid =>
    cases h
    rfl
  next => cases h

theorem utf8_ofList (chars : List Char) :
    utf8 (String.ofList chars) = chars.flatMap String.utf8EncodeChar := by
  simp [utf8, List.utf8Encode]

/-- A byte that is no digit's is in no number. -/
theorem notMem_utf8_toString {b : UInt8} (h : ∀ k < 10, b ∉ String.utf8EncodeChar (Nat.digitChar k))
    (n : Nat) : b ∉ utf8 (toString n) := by
  have hbytes : utf8 (toString n) = (Nat.toDigits 10 n).flatMap String.utf8EncodeChar :=
    utf8_ofList (Nat.toDigits 10 n)
  rw [hbytes]
  intro hmem
  obtain ⟨c, hc, hbyte⟩ := List.mem_flatMap.mp hmem
  obtain ⟨k, hk, hchar⟩ :=
    Text.utf8Encode_digit (Nat.isDigit_of_mem_toDigits (by decide) (by decide) hc)
  exact h k hk (hchar ▸ hbyte)

theorem utf8_injective : Function.Injective utf8 := by
  intro a b h
  have hread := fromUTF8?_utf8 a
  rw [h, fromUTF8?_utf8] at hread
  exact (Option.some.inj hread).symm

/-! ### Key ids are well formed -/

section Hex

theorem isLowerHexDigit_digitChar {n : Nat} (h : n < 16) :
    isLowerHexDigit (Nat.digitChar n) = true := by
  revert n
  decide

theorem utf8Size_digitChar {n : Nat} (h : n < 16) : (Nat.digitChar n).utf8Size = 1 := by
  revert n
  decide

/-- Two lower case digits for each byte. -/
theorem hexEncode_cons (b : UInt8) (bytes : Bytes) :
    (hexEncode (b :: bytes)).toList =
      [Nat.digitChar (b.toNat / 16), Nat.digitChar (b.toNat % 16)] ++ (hexEncode bytes).toList := by
  simp only [hexEncode, List.flatMap_cons, String.toList_ofList]

theorem hexEncode_all_lower (bytes : Bytes) :
    (hexEncode bytes).toList.all isLowerHexDigit = true := by
  induction bytes with
  | nil => rfl
  | cons b bytes ih =>
    have hb := b.toNat_lt
    rw [hexEncode_cons, List.all_append, ih, Bool.and_true]
    simp only [List.all_cons, List.all_nil, Bool.and_true, Bool.and_eq_true]
    exact ⟨isLowerHexDigit_digitChar (by omega), isLowerHexDigit_digitChar (by omega)⟩

theorem utf8ByteSize_hexEncode (bytes : Bytes) :
    (hexEncode bytes).utf8ByteSize = 2 * bytes.length := by
  induction bytes with
  | nil => rfl
  | cons b bytes ih =>
    have hb := b.toNat_lt
    simp only [hexEncode, String.utf8ByteSize_ofList, List.flatMap_cons] at ih ⊢
    rw [String.utf8Len_append, ih, List.length_cons]
    simp only [String.utf8Len_cons, String.utf8Len_nil]
    rw [utf8Size_digitChar (by omega), utf8Size_digitChar (by omega)]
    omega

theorem escapeChar_of_lower {ch : Char} (h : isLowerHexDigit ch = true) :
    Json.escapeChar ch = [ch] := by
  have hlow : 48 ≤ ch.toNat ∧ ch.toNat ≤ 57 ∨ 97 ≤ ch.toNat ∧ ch.toNat ≤ 102 :=
    of_decide_eq_true h
  have hquote : ch ≠ '"' := by
    intro heq
    rw [heq] at hlow
    exact absurd hlow (by decide)
  have hback : ch ≠ '\\' := by
    intro heq
    rw [heq] at hlow
    exact absurd hlow (by decide)
  unfold Json.escapeChar
  rw [if_neg hquote, if_neg hback, if_neg (by omega), if_neg (by omega), if_neg (by omega),
    if_neg (by omega), if_neg (by omega), if_neg (by omega)]

theorem escapedSize_hexEncode (bytes : Bytes) :
    Json.escapedSize (hexEncode bytes) = 2 * bytes.length := by
  have hsame : Json.escape (hexEncode bytes) = hexEncode bytes := by
    have hchars : (hexEncode bytes).toList.flatMap Json.escapeChar =
        (hexEncode bytes).toList.flatMap fun ch => [ch] := by
      apply List.flatMap_congr
      intro ch hch
      exact escapeChar_of_lower (List.all_eq_true.mp (hexEncode_all_lower bytes) ch hch)
    rw [Json.escape, hchars, List.flatMap_singleton', String.ofList_toList]
  rw [Json.escapedSize, hsame, utf8ByteSize_hexEncode]

theorem issuerSize_hexEncode (l : Json.Spacing) (depth : Nat) (id key : Bytes) :
    issuerSize l depth ⟨hexEncode id, hexEncode key⟩ = 2 * id.length + 2 * key.length +
      2 * l.newline (depth + 1) + l.newline depth + 2 * l.colon + 27 := by
  simp only [issuerSize, escapedSize_hexEncode]

theorem keySize_hexEncode (l : Json.Spacing) (depth : Nat) (id key : Bytes) (name : String)
    (status : KeyStatus) (date : Option DateTime) :
    keySize l depth ⟨hexEncode id, name, hexEncode key, status, date⟩ =
      2 * id.length + Json.escapedSize name + 2 * key.length + 4 * l.newline (depth + 1) +
        l.newline depth + 4 * l.colon + 50 +
        date.elim 0 fun t => Json.escapedSize t.rfc3339 + l.newline (depth + 1) + l.colon + 15 := by
  cases date with
  | none => simp only [keySize, escapedSize_hexEncode, Option.elim]
  | some t => simp only [keySize, escapedSize_hexEncode, Option.elim]

theorem wellFormedId_keyId (c : Crates) (key : VerifyingKey) : wellFormedId (keyId c key) = true := by
  unfold wellFormedId keyId
  rw [utf8ByteSize_hexEncode, hexEncode_all_lower]
  simp

theorem hexValue_digitChar {n : Nat} (h : n < 16) : hexValue (Nat.digitChar n) = some n := by
  revert n
  decide

theorem hexDecodeChars_flatMap (bytes : Bytes) :
    hexDecodeChars (bytes.flatMap fun b =>
      [Nat.digitChar (b.toNat / 16), Nat.digitChar (b.toNat % 16)]) = some bytes := by
  induction bytes with
  | nil => rfl
  | cons b bytes ih =>
    have hb := b.toNat_lt
    have hvalue : UInt8.ofNat (16 * (b.toNat / 16) + b.toNat % 16) = b := by
      rw [Nat.div_add_mod]
      exact UInt8.ofNat_toNat
    rw [List.flatMap_cons, List.cons_append, List.cons_append, List.nil_append, hexDecodeChars,
      hexValue_digitChar (by omega), hexValue_digitChar (by omega), ih]
    show some (UInt8.ofNat (16 * (b.toNat / 16) + b.toNat % 16) :: bytes) = some (b :: bytes)
    rw [hvalue]

theorem hexDecode_hexEncode (bytes : Bytes) : hexDecode (hexEncode bytes) = some bytes := by
  rw [hexDecode, hexEncode, String.toList_ofList, hexDecodeChars_flatMap]

theorem hexEncode_injective : Function.Injective hexEncode := by
  intro a b h
  have : hexDecode (hexEncode a) = hexDecode (hexEncode b) := by rw [h]
  rw [hexDecode_hexEncode, hexDecode_hexEncode] at this
  exact Option.some.inj this

theorem toVector_toList {n : Nat} (v : Vector UInt8 n) : toVector n v.toList = some v := by
  unfold toVector
  rw [dif_pos v.length_toList]
  rfl

end Hex

/-! ### Policies that load -/

section Load
variable {c : Crates}

/-- The entries of a policy hold together with the key files. -/
structure Sound (c : Crates) (pubs : Folder (Option VerifyingKey)) (entries : List TrustEntry) :
    Prop where
  nodup : (entries.map TrustEntry.id).Nodup
  wellFormed : ∀ e ∈ entries, wellFormedId e.id = true
  backed : ∀ e ∈ entries, ∃ key, pubs.lookup e.id = some (.file (some key)) ∧ keyId c key = e.id

theorem contentOf_eq_some {α : Type} {node : Option (Node α)} {a : α} :
    contentOf node = some a ↔ node = some (.file a) := by
  unfold contentOf
  split
  · simp
  · next h =>
    refine ⟨?_, ?_⟩
    · intro hn
      cases hn
    · intro hn
      exact absurd hn (h a)

theorem sound_cons {pubs : Folder (Option VerifyingKey)} {e : TrustEntry} {entries : List TrustEntry} :
    Sound c pubs (e :: entries) ↔ wellFormedId e.id = true ∧
      (∃ key, pubs.lookup e.id = some (.file (some key)) ∧ keyId c key = e.id) ∧
      Sound c pubs entries ∧ ∀ e' ∈ entries, e'.id ≠ e.id := by
  refine ⟨?_, ?_⟩
  · intro h
    have hnodup := h.nodup
    rw [List.map_cons, List.nodup_cons] at hnodup
    refine ⟨h.wellFormed e List.mem_cons_self, h.backed e List.mem_cons_self,
      ⟨hnodup.2, fun e' he' => h.wellFormed e' (List.mem_cons_of_mem e he'),
        fun e' he' => h.backed e' (List.mem_cons_of_mem e he')⟩, ?_⟩
    intro e' he' hid
    exact hnodup.1 (hid ▸ List.mem_map_of_mem he')
  · rintro ⟨hwf, hbacked, h, hne⟩
    refine ⟨?_, ?_, ?_⟩
    · rw [List.map_cons, List.nodup_cons]
      refine ⟨?_, h.nodup⟩
      intro hmem
      obtain ⟨e', he', hid⟩ := List.mem_map.mp hmem
      exact hne e' he' hid
    · intro e' he'
      rcases List.mem_cons.mp he' with rfl | he'
      · exact hwf
      · exact h.wellFormed e' he'
    · intro e' he'
      rcases List.mem_cons.mp he' with rfl | he'
      · exact hbacked
      · exact h.backed e' he'

theorem checkEntries_ok_iff {path : String} {pubs : Folder (Option VerifyingKey)}
    {seen : List String} {entries : List TrustEntry} :
    checkEntries c path pubs seen entries = .ok () ↔
      Sound c pubs entries ∧ ∀ e ∈ entries, e.id ∉ seen := by
  induction entries generalizing seen with
  | nil => exact ⟨fun _ => ⟨⟨List.nodup_nil, by simp, by simp⟩, by simp⟩, fun _ => rfl⟩
  | cons e rest ih =>
    rw [sound_cons]
    simp only [checkEntries]
    split
    next hwf => simp_all
    next hwf =>
      split
      next hseen => simp_all
      next hseen =>
        split
        next hnone =>
          simp only [reduceCtorEq, false_iff, not_and]
          rintro ⟨-, ⟨key, hkey, -⟩, -⟩
          rw [hkey] at hnone
          cases hnone
        next hcontent =>
          rw [contentOf_eq_some] at hcontent
          simp [hcontent]
        next key hcontent =>
          rw [contentOf_eq_some] at hcontent
          split
          next hid => simp_all
          next hid =>
            rw [ih]
            have hid : keyId c key = e.id := by simpa using hid
            have hwf : wellFormedId e.id = true := by simpa using hwf
            refine ⟨?_, ?_⟩
            · rintro ⟨hsound, hfresh⟩
              refine ⟨⟨hwf, ⟨key, hcontent, hid⟩, hsound, ?_⟩, ?_⟩
              · intro e' he' heq
                exact hfresh e' he' (heq ▸ List.mem_cons_self)
              · intro e' he'
                rcases List.mem_cons.mp he' with rfl | he'
                · exact hseen
                · exact fun hmem => hfresh e' he' (List.mem_cons_of_mem e.id hmem)
            · rintro ⟨⟨-, -, hsound, hne⟩, hfresh⟩
              refine ⟨hsound, ?_⟩
              intro e' he' hmem
              rcases List.mem_cons.mp hmem with heq | hmem
              · exact hne e' he' heq
              · exact hfresh e' (List.mem_cons_of_mem e he') hmem

/-- What `trust.toml` says, checked or not; no file says nothing. -/
def storedPolicy (ws : Workspace) : Option TrustPolicy :=
  match ws.trustDir.trustToml with
  | none => some {}
  | some .folder => some {}
  | some .locked => none
  | some (.file policy) => policy

theorem loadPolicy_ok_iff {ws : Workspace} {policy : TrustPolicy} :
    loadPolicy c ws = .ok policy ↔
      storedPolicy ws = some policy ∧ Sound c ws.trustDir.pubs policy.keys := by
  have hempty : Sound c ws.trustDir.pubs ({} : TrustPolicy).keys :=
    ⟨List.nodup_nil, by simp, by simp⟩
  unfold loadPolicy TrustPolicy.load storedPolicy
  cases htoml : ws.trustDir.trustToml with
  | none =>
    refine ⟨?_, ?_⟩
    · rintro ⟨⟩
      exact ⟨rfl, hempty⟩
    · rintro ⟨⟨⟩, -⟩
      rfl
  | some node =>
    cases node with
    | folder =>
      refine ⟨?_, ?_⟩
      · rintro ⟨⟩
        exact ⟨rfl, hempty⟩
      · rintro ⟨⟨⟩, -⟩
        rfl
    | locked => simp
    | file content =>
      cases content with
      | none => simp
      | some p =>
        have hcheck := @checkEntries_ok_iff c ws.trustPath ws.trustDir.pubs [] p.keys
        simp only [TrustPolicy.checkAgainst]
        split
        next herr =>
          rw [herr] at hcheck
          simp only [reduceCtorEq, false_iff, not_and] at hcheck ⊢
          rintro ⟨⟩ hsound
          exact hcheck hsound (by simp)
        next hok =>
          rw [hok] at hcheck
          have hsound := (hcheck.mp rfl).1
          refine ⟨?_, ?_⟩
          · rintro ⟨⟩
            exact ⟨rfl, hsound⟩
          · rintro ⟨⟨⟩, -⟩
            rfl

end Load

/-! ### The files an operation leaves -/

/-- The trust directory, made when it was not there. -/
def created (ws : Workspace) : Workspace := ws.setTrust ws.trustDir

/-- A key file, unless something has its name. -/
def ensurePub (id : String) (key : VerifyingKey) (ws : Workspace) : Workspace :=
  if (ws.trustDir.pubs.lookup id).isSome then ws else putPub id (some key) ws

/-- The key file of a key in a bundle; one that cannot be decoded has none. -/
def ensureBundled (c : Crates) (ws : Workspace) (key : BundledKey) : Workspace :=
  match bundledKeyFromHex c key.publicKey with
  | .ok verifyingKey => ensurePub key.id verifyingKey ws
  | .error _ => ws

/-- The key files of a bundle. -/
def ensureKeys (c : Crates) (keys : List BundledKey) (ws : Workspace) : Workspace :=
  keys.foldl (ensureBundled c) ws

/-! ### Calls that succeed -/

theorem touch_ok {w w' : World} {u : Unit} (h : touch w = .ok u w') : w'.fs = w.fs :=
  (syscall_eq_ok h).2

theorem createTrustDir_ok {w w' : World} {u : Unit} (h : createTrustDir w = .ok u w') :
    w'.fs = created w.fs :=
  (syscall_eq_ok h).2

theorem save_ok {policy : TrustPolicy} {w w' : World} {u : Unit} (h : policy.save w = .ok u w') :
    canWrite w.fs.trustDir.trustToml = true ∧ w'.fs = putPolicy policy w.fs := by
  simp only [TrustPolicy.save, bind_eq_ok, reading_eq_ok] at h
  obtain ⟨_, w₁, hdir, _, _, ⟨-, rfl⟩, hwrite⟩ := h
  have hdir := createTrustDir_ok hdir
  obtain ⟨hcan, hfs⟩ := syscall_eq_ok hwrite
  rw [hdir] at hcan hfs
  exact ⟨hcan, hfs⟩

theorem writePub_ok {context : Option String} {id : String} {key : VerifyingKey} {w w' : World}
    {u : Unit} (h : writePub context id key w = .ok u w') : w'.fs = putPub id (some key) w.fs :=
  (syscall_eq_ok h).2

theorem createPrivate_ok {id : String} {key : SigningKey} {w w' : World} {u : Unit}
    (h : createPrivate id key w = .ok u w') : w'.fs = putKey id (.pem key) w.fs := by
  simp only [createPrivate, bind_eq_ok, reading_eq_ok] at h
  obtain ⟨_, _, ⟨-, rfl⟩, _, w₁, hopen, _, w₂, hwrite, hsync⟩ := h
  have hopen := (syscall_eq_ok hopen).2
  have hwrite := (syscall_eq_ok hwrite).2
  rw [touch_ok hsync, hwrite, hopen]
  simp only [putKey, AList.insert_insert]

section Operations
variable {c : Crates}

/-- `KeyStore::generate` found neither half of the key, and adds both and an entry. -/
theorem generate_ok {key : SigningKey} {name id : String} {w w' : World}
    (h : KeyStore.generate c key name w = .ok id w') :
    id = keyId c (c.verifyingKey key) ∧ w.fs.keys.lookup id = none ∧
      w.fs.trustDir.pubs.lookup id = none ∧
      ∃ policy, loadPolicy c (putPub id (some (c.verifyingKey key))
          (putKey id (.pem key) w.fs)) = .ok policy ∧
        w'.fs = putPolicy (policy.withKeys (policy.keys ++ [⟨id, name, .trusted, none⟩]))
          (putPub id (some (c.verifyingKey key)) (putKey id (.pem key) w.fs)) := by
  simp only [KeyStore.generate, bind_eq_ok, reading_eq_ok, pure_eq_ok, refuseIf_eq_ok,
    Bool.or_eq_true, not_or, Bool.not_eq_true, Option.isSome_eq_false_iff,
    Option.isNone_iff_eq_none] at h
  obtain ⟨_, _, ⟨hnone, rfl⟩, _, w₁, hkeys, _, w₂, hdir, _, w₃, hprivate, _, w₄, hpub, _, w₅,
    hmode, policy, _, ⟨hload, rfl⟩, _, w₆, hsave, rfl, rfl⟩ := h
  have hfs : w₅.fs = putPub (keyId c (c.verifyingKey key)) (some (c.verifyingKey key))
      (putKey (keyId c (c.verifyingKey key)) (.pem key) w.fs) := by
    rw [touch_ok hmode, writePub_ok hpub, createPrivate_ok hprivate, createTrustDir_ok hdir,
      touch_ok hkeys]
    rfl
  have hsave := (save_ok hsave).2
  rw [hfs] at hload hsave
  exact ⟨rfl, hnone.1, hnone.2, policy, hload, hsave⟩

theorem placePub_ok {id : String} {key : VerifyingKey} {w w' : World} {u : Unit}
    (h : KeyStore.placePub id key w = .ok u w') : w'.fs = ensurePub id key w.fs := by
  simp only [KeyStore.placePub, bind_eq_ok, reading_eq_ok] at h
  obtain ⟨_, _, ⟨⟨⟩, rfl⟩, h⟩ := h
  unfold ensurePub
  split at h
  next hpresent =>
    cases h
    rw [if_pos hpresent]
  next hpresent =>
    rw [bind_eq_ok] at h
    obtain ⟨_, w₁, hwrite, hmode⟩ := h
    rw [if_neg hpresent, touch_ok hmode, writePub_ok hwrite]

/-- `KeyStore::import` leaves a file that has the key's name alone, and an entry of its id. -/
theorem importKey_ok {path name id : String} {pem : Option (Node PemText)} {w w' : World}
    (h : KeyStore.importKey c path pem name w = .ok id w') :
    ∃ text key, pem = some (.file text) ∧ text.mentionsPrivate = false ∧ text.key = .ok key ∧
      id = keyId c key ∧
      ∃ policy, loadPolicy c (ensurePub id key (created w.fs)) = .ok policy ∧
        (policy.entry id = none ∧
            canWrite (ensurePub id key (created w.fs)).trustDir.trustToml = true ∧
            w'.fs = putPolicy (policy.withKeys (policy.keys ++ [⟨id, name, .trusted, none⟩]))
              (ensurePub id key (created w.fs)) ∨
          policy.entry id ≠ none ∧ w'.fs = ensurePub id key (created w.fs)) := by
  simp only [KeyStore.importKey, bind_eq_ok, reading_eq_ok, pure_eq_ok] at h
  obtain ⟨key, _, ⟨hpem, rfl⟩, _, w₁, hdir, _, w₂, hpub, policy, _, ⟨hload, rfl⟩, _, w₃, hadd, rfl,
    rfl⟩ := h
  have hfs : w₂.fs = ensurePub (keyId c key) key (created w.fs) := by
    rw [placePub_ok hpub, createTrustDir_ok hdir]
  split at hpem
  next => cases hpem
  next text hcontent =>
    split at hpem
    next => cases hpem
    next hprivate =>
      have hkey : text.key = .ok key := by
        cases hk : text.key with
        | error e =>
          rw [hk] at hpem
          cases hpem
        | ok k =>
          rw [hk] at hpem
          cases hpem
          rfl
      refine ⟨text, key, contentOf_eq_some.mp hcontent, by simpa using hprivate, hkey, rfl, policy,
        hfs ▸ hload, ?_⟩
      rw [← hfs]
      unfold KeyStore.addEntry at hadd
      split at hadd
      next hnone =>
        obtain ⟨hcan, hsaved⟩ := save_ok hadd
        exact .inl ⟨Option.isNone_iff_eq_none.mp hnone, hcan, hsaved⟩
      next hsome =>
        cases hadd
        exact .inr ⟨fun hnone => hsome (Option.isNone_iff_eq_none.mpr hnone), rfl⟩

/-- `KeyStore::revoke` dates the entry at the clock reading, whatever it said before. -/
theorem revoke_ok {id : String} {now : DateTime} {found : Bool} {w w' : World}
    (h : KeyStore.revoke c id now w = .ok found w') :
    ∃ policy, loadPolicy c w.fs = .ok policy ∧
      (policy.entry id = none ∧ found = false ∧ w' = w ∨
        ∃ entry, policy.entry id = some entry ∧ found = true ∧
          w'.fs = putPolicy (policy.withKeys
            (updateEntry id (TrustEntry.revokeAt now) policy.keys)) w.fs) := by
  simp only [KeyStore.revoke, bind_eq_ok, reading_eq_ok] at h
  obtain ⟨policy, _, ⟨hload, rfl⟩, h⟩ := h
  refine ⟨policy, hload, ?_⟩
  cases hentry : policy.entry id with
  | some entry =>
    simp only [hentry, bind_eq_ok, pure_eq_ok] at h
    obtain ⟨_, w₁, hsave, rfl, rfl⟩ := h
    exact .inr ⟨entry, rfl, rfl, (save_ok hsave).2⟩
  | none =>
    simp only [hentry, pure_eq_ok] at h
    obtain ⟨rfl, rfl⟩ := h
    exact .inl ⟨rfl, rfl, rfl⟩

theorem writeKeyFile_ok {key : BundledKey} {w w' : World} {u : Unit}
    (h : writeKeyFile c key w = .ok u w') : w'.fs = ensureBundled c w.fs key := by
  simp only [writeKeyFile, bind_eq_ok, reading_eq_ok] at h
  obtain ⟨_, _, ⟨-, rfl⟩, _, _, ⟨⟨⟩, rfl⟩, h⟩ := h
  unfold ensureBundled
  split at h
  next hpresent =>
    cases h
    split
    · rw [ensurePub, if_pos hpresent]
    · rfl
  next hpresent =>
    simp only [bind_eq_ok, reading_eq_ok] at h
    obtain ⟨verifyingKey, _, ⟨hkey, rfl⟩, hwrite⟩ := h
    simp only [hkey]
    rw [writePub_ok hwrite, ensurePub, if_neg hpresent]

theorem writeKeyFiles_ok {keys : List BundledKey} {w w' : World} {u : Unit}
    (h : writeKeyFiles c keys w = .ok u w') : w'.fs = ensureKeys c keys w.fs := by
  induction keys generalizing w with
  | nil =>
    cases h
    rfl
  | cons key rest ih =>
    rw [writeKeyFiles, bind_eq_ok] at h
    obtain ⟨_, w₁, hfile, hrest⟩ := h
    rw [ih hrest, writeKeyFile_ok hfile]
    rfl

theorem writeCopy_ok {bundle : TrustBundle} {w w' : World} {u : Unit}
    (h : writeCopy bundle w = .ok u w') :
    canWrite (w.fs.trustDir.bundles.lookup bundle.issuer.keyId) = true ∧
      w'.fs = putCopy bundle.issuer.keyId bundle.written w.fs := by
  simp only [writeCopy, bind_eq_ok, reading_eq_ok] at h
  obtain ⟨_, _, ⟨-, rfl⟩, hwrite⟩ := h
  exact syscall_eq_ok hwrite

/-- The store after a bundle is merged and its copy kept. -/
def recorded (c : Crates) (bundle : TrustBundle) (report : ImportReport) (policy : TrustPolicy)
    (ws : Workspace) : Workspace :=
  putCopy bundle.issuer.keyId bundle.written
    (putPolicy (policy.withKeys (mergeKeys policy.keys report bundle.keys).1)
      (ensureKeys c bundle.keys (created ws)))

theorem record_ok {bundle : TrustBundle} {start report : ImportReport} {w w' : World}
    (h : record c bundle start w = .ok report w') :
    ∃ policy, loadPolicy c (ensureKeys c bundle.keys (created w.fs)) = .ok policy ∧
      report = (mergeKeys policy.keys start bundle.keys).2 ∧
      w'.fs = recorded c bundle start policy w.fs ∧
      canWrite (ensureKeys c bundle.keys (created w.fs)).trustDir.trustToml = true ∧
      canWrite ((ensureKeys c bundle.keys (created w.fs)).trustDir.bundles.lookup
        bundle.issuer.keyId) = true := by
  simp only [record, bind_eq_ok, reading_eq_ok, pure_eq_ok] at h
  obtain ⟨_, w₁, hdir, _, w₂, hkeys, policy, _, ⟨hload, rfl⟩, _, w₃, hsave, _, w₄, htouch, _, w₅,
    hcopy, rfl, rfl⟩ := h
  have hfs : w₂.fs = ensureKeys c bundle.keys (created w.fs) := by
    rw [writeKeyFiles_ok hkeys, createTrustDir_ok hdir]
  obtain ⟨hcanCopy, hcopied⟩ := writeCopy_ok hcopy
  obtain ⟨hcanSave, hsaved⟩ := save_ok hsave
  rw [touch_ok htouch, hsaved, hfs] at hcopied hcanCopy
  rw [hfs] at hload hcanSave
  exact ⟨policy, hload, rfl, hcopied, hcanSave, hcanCopy⟩

/-! ### The decision of an import -/

/-- What `judge` has established when it lets a bundle through. -/
structure Judged (c : Crates) (ws : Workspace) (path : String) (file : Option (Node Bytes))
    (expectedIssuer : Option String) (now : DateTime) (bundle : TrustBundle)
    (previous : Option TrustBundle) (handoverFrom : Option (String × UInt64)) : Prop where
  read : readBundle c path file = .ok bundle
  passes : failedChecks c bundle now = []
  loads : ∃ policy, loadPolicy c ws = .ok policy ∧ isRevoked policy bundle.issuer.keyId = false
  expected : ∀ e ∈ expectedIssuer, e = bundle.issuer.keyId
  accepted : acceptedBundle c ws bundle.issuer.keyId = .ok previous
  ground : grounds c ws bundle expectedIssuer previous = .ok handoverFrom

/-- The bundle is the one in the file. -/
theorem Judged.bundle_eq {ws : Workspace} {path : String} {file : Option (Node Bytes)}
    {expectedIssuer : Option String} {now : DateTime} {found bundle : TrustBundle}
    {previous : Option TrustBundle} {handoverFrom : Option (String × UInt64)}
    (h : Judged c ws path file expectedIssuer now found previous handoverFrom)
    (hread : readBundle c path file = .ok bundle) : bundle = found :=
  Except.ok.inj (hread.symm.trans h.read)

theorem admission_ok_iff {ws : Workspace} {bundle : TrustBundle} {expectedIssuer : Option String}
    {previous : Option TrustBundle} {handoverFrom : Option (String × UInt64)} :
    admission c ws bundle expectedIssuer = .ok (previous, handoverFrom) ↔
      (∃ policy, loadPolicy c ws = .ok policy ∧ isRevoked policy bundle.issuer.keyId = false) ∧
      (∀ e ∈ expectedIssuer, e = bundle.issuer.keyId) ∧
      acceptedBundle c ws bundle.issuer.keyId = .ok previous ∧
      grounds c ws bundle expectedIssuer previous = .ok handoverFrom := by
  simp only [admission, except_bind_eq_ok, refuseIf_eq_ok]
  refine ⟨?_, ?_⟩
  · rintro ⟨policy, hload, _, hrevoked, _, hexpected, _, haccepted, _, hground, ⟨⟩⟩
    exact ⟨⟨policy, hload, by simpa using hrevoked⟩, by simpa using hexpected, haccepted, hground⟩
  · rintro ⟨⟨policy, hload, hrevoked⟩, hexpected, haccepted, hground⟩
    exact ⟨policy, hload, (), by simpa using hrevoked, (), by simpa using hexpected, previous,
      haccepted, handoverFrom, hground, rfl⟩

theorem judge_ok_iff {ws : Workspace} {path : String} {file : Option (Node Bytes)}
    {expectedIssuer : Option String} {now : DateTime} {bundle : TrustBundle}
    {previous : Option TrustBundle} {handoverFrom : Option (String × UInt64)} :
    judge c ws path file expectedIssuer now = .ok (bundle, previous, handoverFrom) ↔
      Judged c ws path file expectedIssuer now bundle previous handoverFrom := by
  simp only [judge, except_bind_eq_ok, refuseIf_eq_ok]
  refine ⟨?_, ?_⟩
  · rintro ⟨_, hread, _, hpasses, ⟨_, _⟩, hadmission, ⟨⟩⟩
    obtain ⟨hloads, hexpected, haccepted, hground⟩ := admission_ok_iff.mp hadmission
    exact ⟨hread, by simpa using hpasses, hloads, hexpected, haccepted, hground⟩
  · intro h
    exact ⟨bundle, h.read, (), by simpa using h.passes, (previous, handoverFrom),
      admission_ok_iff.mpr ⟨h.loads, h.expected, h.accepted, h.ground⟩, rfl⟩

/-- An import that succeeds let the bundle through, and either found it accepted already and
changed nothing, or recorded it. -/
theorem importBundle_ok {path : String} {file : Option (Node Bytes)}
    {expectedIssuer : Option String} {now : DateTime} {report : ImportReport} {w w' : World}
    (h : importBundle c path file expectedIssuer now w = .ok report w') :
    ∃ bundle previous handoverFrom,
      Judged c w.fs path file expectedIssuer now bundle previous handoverFrom ∧
      (isCurrent previous bundle = true ∧ w' = w ∧
          report = { emptyReport bundle handoverFrom with
            alreadyCurrent := true, unchanged := bundle.keys.length } ∨
        isCurrent previous bundle = false ∧
          record c bundle (emptyReport bundle handoverFrom) w = .ok report w') := by
  simp only [importBundle, bind_eq_ok, reading_eq_ok] at h
  obtain ⟨⟨bundle, previous, handoverFrom⟩, _, ⟨hjudge, rfl⟩, h⟩ := h
  refine ⟨bundle, previous, handoverFrom, judge_ok_iff.mp hjudge, ?_⟩
  simp only at h
  split at h
  next hcurrent =>
    obtain ⟨rfl, rfl⟩ := pure_eq_ok.mp h
    exact .inl ⟨hcurrent, rfl, rfl⟩
  next hcurrent => exact .inr ⟨by simpa using hcurrent, h⟩

end Operations

/-! ### Calls that nothing stops

With no failure to come, a call that is possible succeeds. -/

theorem touch_run (fs : Workspace) : touch ⟨fs, []⟩ = .ok () ⟨fs, []⟩ := syscall_of_possible rfl

theorem createTrustDir_run (fs : Workspace) :
    createTrustDir ⟨fs, []⟩ = .ok () ⟨created fs, []⟩ := syscall_of_possible rfl

theorem save_run {policy : TrustPolicy} {fs : Workspace}
    (h : canWrite fs.trustDir.trustToml = true) :
    policy.save ⟨fs, []⟩ = .ok () ⟨putPolicy policy fs, []⟩ := by
  unfold TrustPolicy.save
  rw [bind_of_ok (createTrustDir_run fs), reading_ok_bind, syscall_of_possible h]
  rfl

section Running
variable {c : Crates}

theorem placePub_run (id : String) (key : VerifyingKey) (fs : Workspace) :
    KeyStore.placePub id key ⟨fs, []⟩ = .ok () ⟨ensurePub id key fs, []⟩ := by
  unfold KeyStore.placePub ensurePub
  rw [reading_ok_bind]
  split
  next => rfl
  next h =>
    have hnone : fs.trustDir.pubs.lookup id = none := by simpa using h
    have hwrite : writePub none id key ⟨fs, []⟩ = .ok () ⟨putPub id (some key) fs, []⟩ :=
      syscall_of_possible (by rw [hnone]; rfl)
    rw [bind_of_ok hwrite]
    exact touch_run _

theorem writeKeyFile_run {key : BundledKey} {verifyingKey : VerifyingKey} (fs : Workspace)
    (hkey : bundledKeyFromHex c key.publicKey = .ok verifyingKey) :
    writeKeyFile c key ⟨fs, []⟩ = .ok () ⟨ensureBundled c fs key, []⟩ := by
  unfold writeKeyFile ensureBundled ensurePub
  rw [reading_ok_bind, reading_ok_bind, hkey]
  simp only
  split
  next => rfl
  next h =>
    have hnone : fs.trustDir.pubs.lookup key.id = none := by simpa using h
    rw [reading_ok_bind]
    exact syscall_of_possible (by rw [hnone]; rfl)

theorem writeKeyFiles_run {keys : List BundledKey}
    (hkeys : ∀ key ∈ keys, ∃ k, bundledKeyFromHex c key.publicKey = .ok k) (fs : Workspace) :
    writeKeyFiles c keys ⟨fs, []⟩ = .ok () ⟨ensureKeys c keys fs, []⟩ := by
  induction keys generalizing fs with
  | nil => rfl
  | cons key rest ih =>
    obtain ⟨k, hk⟩ := hkeys key List.mem_cons_self
    rw [writeKeyFiles, bind_of_ok (writeKeyFile_run fs hk),
      ih (fun key hkey => hkeys key (List.mem_cons_of_mem _ hkey))]
    rfl

theorem writeCopy_run {bundle : TrustBundle} {fs : Workspace}
    (h : canWrite (fs.trustDir.bundles.lookup bundle.issuer.keyId) = true) :
    writeCopy bundle ⟨fs, []⟩ = .ok () ⟨putCopy bundle.issuer.keyId bundle.written fs, []⟩ := by
  unfold writeCopy
  rw [reading_ok_bind]
  exact syscall_of_possible h

end Running

end Attest.Trust
