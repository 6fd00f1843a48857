import Attest.Trust.Import
import Attest.Trust.Standing

/-! What the entries of a policy say of a key, and what an update makes of it.

Every update of the store reads off as a statement about standings: a new entry
gives an absent key a standing, an update changes the standing of one key, and the
merge of a bundle puts every key at the larger of what the store and the bundle
hold against it. -/
namespace Attest.Trust

/-! ### Standings -/

/-- A missing date is before every moment. -/
def moment : Option DateTime → WithBot DateTime
  | none => ⊥
  | some t => t

def standingOf (status : KeyStatus) (revokedAt : Option DateTime) : Standing DateTime :=
  match status with
  | .trusted => .trusted
  | .revoked => .revoked (moment revokedAt)

def TrustEntry.standing (entry : TrustEntry) : Standing DateTime :=
  standingOf entry.status entry.revokedAt

def BundledKey.standing (key : BundledKey) : Standing DateTime := standingOf key.status key.revokedAt

/-- The standing of an id among entries. -/
def standingIn (entries : List TrustEntry) (id : String) : Standing DateTime :=
  match entries.find? (fun e => e.id == id) with
  | some entry => entry.standing
  | none => .absent

/-- What a bundle states about an id. -/
def stated (keys : List BundledKey) (id : String) : Standing DateTime :=
  match keys.find? (fun k => k.id == id) with
  | some key => key.standing
  | none => .absent

/-- Whatever is stated about a key is more than nothing. -/
theorem not_standingOf_le_absent (status : KeyStatus) (revokedAt : Option DateTime) :
    ¬ standingOf status revokedAt ≤ .absent := by
  cases status with
  | trusted => exact Standing.not_trusted_le_absent
  | revoked => exact Standing.not_revoked_le_absent _

theorem standingIn_of_find {entries : List TrustEntry} {id : String} {entry : TrustEntry}
    (h : entries.find? (fun e => e.id == id) = some entry) : standingIn entries id = entry.standing := by
  rw [standingIn, h]

theorem standingIn_of_find_none {entries : List TrustEntry} {id : String}
    (h : entries.find? (fun e => e.id == id) = none) : standingIn entries id = .absent := by
  rw [standingIn, h]

theorem standingIn_eq_absent {entries : List TrustEntry} {id : String} :
    standingIn entries id = .absent ↔ entries.find? (fun e => e.id == id) = none := by
  cases h : entries.find? (fun e => e.id == id) with
  | none => simp [standingIn_of_find_none h]
  | some entry =>
    rw [standingIn_of_find h]
    simp only [reduceCtorEq, iff_false]
    intro habsent
    exact not_standingOf_le_absent _ _ (le_of_eq habsent)

/-- The guards of an import ask how high an id stands. -/
theorem isRevoked_eq_false_iff {policy : TrustPolicy} {id : String} :
    isRevoked policy id = false ↔ standingIn policy.keys id ≤ .trusted := by
  unfold isRevoked TrustPolicy.entry standingIn
  cases policy.keys.find? (fun e => e.id == id) with
  | none => simp [Standing.absent_le]
  | some entry =>
    simp only [Option.any_some, decide_eq_false_iff_not, TrustEntry.standing, standingOf]
    cases entry.status with
    | trusted => simp
    | revoked => simp [Standing.not_revoked_le_trusted]

theorem standingIn_append_self {entries : List TrustEntry} {entry : TrustEntry}
    (h : entries.find? (fun e => e.id == entry.id) = none) :
    standingIn (entries ++ [entry]) entry.id = entry.standing := by
  simp [standingIn, List.find?_append, h]

theorem standingIn_append_of_ne {entries : List TrustEntry} {entry : TrustEntry} {id : String}
    (h : entry.id ≠ id) : standingIn (entries ++ [entry]) id = standingIn entries id := by
  have hid : (entry.id == id) = false := by simpa using h
  simp [standingIn, List.find?_append, hid]

/-- Entries that are added hold nothing less against anyone. -/
theorem standingIn_le_append (entries more : List TrustEntry) (id : String) :
    standingIn entries id ≤ standingIn (entries ++ more) id := by
  cases h : entries.find? (fun e => e.id == id) with
  | none =>
    rw [standingIn_of_find_none h]
    exact Standing.absent_le _
  | some entry =>
    have happend : (entries ++ more).find? (fun e => e.id == id) = some entry := by
      rw [List.find?_append, h, Option.some_or]
    rw [standingIn_of_find h, standingIn_of_find happend]

/-! ### Updates -/

theorem find_updateEntry_self {id : String} {f : TrustEntry → TrustEntry}
    (hf : ∀ e, (f e).id = e.id) {entries : List TrustEntry} :
    (updateEntry id f entries).find? (fun e => e.id == id) =
      (entries.find? (fun e => e.id == id)).map f := by
  induction entries with
  | nil => rfl
  | cons e rest ih =>
    rw [updateEntry]
    split
    next hid => simp [hf, hid]
    next hid => simp [hid, ih]

theorem find_updateEntry_of_ne {id id' : String} (hne : id' ≠ id) {f : TrustEntry → TrustEntry}
    (hf : ∀ e, (f e).id = e.id) {entries : List TrustEntry} :
    (updateEntry id f entries).find? (fun e => e.id == id') =
      entries.find? (fun e => e.id == id') := by
  induction entries with
  | nil => rfl
  | cons e rest ih =>
    rw [updateEntry]
    split
    next hid =>
      have he : (e.id == id') = false := by
        rw [beq_iff_eq] at hid
        rw [beq_eq_false_iff_ne, hid]
        exact hne.symm
      simp [hf, he]
    next hid => simp only [List.find?_cons, ih]

theorem map_id_updateEntry {id : String} {f : TrustEntry → TrustEntry} (hf : ∀ e, (f e).id = e.id)
    (entries : List TrustEntry) :
    (updateEntry id f entries).map TrustEntry.id = entries.map TrustEntry.id := by
  induction entries with
  | nil => rfl
  | cons e rest ih =>
    rw [updateEntry]
    split
    next => simp [hf]
    next => simp [ih]

theorem standingIn_updateEntry_self {id : String} {f : TrustEntry → TrustEntry}
    (hf : ∀ e, (f e).id = e.id) {entries : List TrustEntry} {entry : TrustEntry}
    (h : entries.find? (fun e => e.id == id) = some entry) :
    standingIn (updateEntry id f entries) id = (f entry).standing := by
  apply standingIn_of_find
  rw [find_updateEntry_self hf, h, Option.map_some]

theorem standingIn_updateEntry_of_ne {id id' : String} (hne : id' ≠ id)
    {f : TrustEntry → TrustEntry} (hf : ∀ e, (f e).id = e.id) (entries : List TrustEntry) :
    standingIn (updateEntry id f entries) id' = standingIn entries id' := by
  rw [standingIn, standingIn, find_updateEntry_of_ne hne hf]

/-! ### The merge -/

def BundledKey.toEntry (key : BundledKey) : TrustEntry :=
  ⟨key.id, key.name, key.status, key.revokedAt⟩

/-- What one key of a bundle can do to the entries: add one, leave them, or put the entry of its
id where the bundle has it. -/
theorem mergeKey_cases {entries : List TrustEntry} {report : ImportReport} {key : BundledKey}
    (hdated : key.status = .revoked → key.revokedAt.isSome = true) :
    (entries.find? (fun e => e.id == key.id) = none ∧
        (mergeKey (entries, report) key).1 = entries ++ [key.toEntry]) ∨
      (∃ entry, entries.find? (fun e => e.id == key.id) = some entry ∧
        key.standing ≤ entry.standing ∧ (mergeKey (entries, report) key).1 = entries) ∨
      ∃ entry f, entries.find? (fun e => e.id == key.id) = some entry ∧
        entry.standing < key.standing ∧ (∀ e, (f e).id = e.id) ∧
        (f entry).standing = key.standing ∧
        (mergeKey (entries, report) key).1 = updateEntry key.id f entries := by
  cases hfind : entries.find? (fun e => e.id == key.id) with
  | none =>
    left
    simp only [mergeKey, hfind, true_and]
    rfl
  | some entry =>
    right
    simp only [mergeKey, hfind]
    cases hentry : entry.status with
    | trusted =>
      cases hkey : key.status with
      | trusted =>
        left
        refine ⟨entry, rfl, ?_, rfl⟩
        simp [TrustEntry.standing, BundledKey.standing, standingOf, hentry, hkey]
      | revoked =>
        right
        refine ⟨entry, fun e => { e with status := .revoked, revokedAt := key.revokedAt }, rfl, ?_,
          fun _ => rfl, ?_, rfl⟩
        · simp only [TrustEntry.standing, BundledKey.standing, standingOf, hentry, hkey]
          exact lt_of_not_ge (Standing.not_revoked_le_trusted _)
        · simp [TrustEntry.standing, BundledKey.standing, standingOf, hkey]
    | revoked =>
      cases hkey : key.status with
      | trusted =>
        left
        refine ⟨entry, rfl, ?_, rfl⟩
        simp only [TrustEntry.standing, BundledKey.standing, standingOf, hentry, hkey]
        exact Standing.trusted_le_revoked _
      | revoked =>
        obtain ⟨date, hdate⟩ := Option.isSome_iff_exists.mp (hdated hkey)
        simp only [hdate, Option.any_some]
        split
        next hearlier =>
          right
          obtain ⟨known, hknown, hlt⟩ := (Option.any_eq_true _ _).mp hearlier
          refine ⟨entry, fun e => { e with revokedAt := some date }, rfl, ?_, fun _ => rfl, ?_, rfl⟩
          · simp only [TrustEntry.standing, BundledKey.standing, standingOf, hentry, hkey, hdate,
              hknown]
            apply lt_of_not_ge
            rw [Standing.revoked_le_revoked, moment, moment, WithBot.coe_le_coe, not_le]
            simpa using hlt
          · simp [TrustEntry.standing, BundledKey.standing, standingOf, hentry, hkey, hdate]
        next hlater =>
          left
          refine ⟨entry, rfl, ?_, rfl⟩
          simp only [TrustEntry.standing, BundledKey.standing, standingOf, hentry, hkey, hdate]
          rw [Standing.revoked_le_revoked]
          cases hknown : entry.revokedAt with
          | none => exact bot_le
          | some known =>
            rw [hknown] at hlater
            rw [moment, moment, WithBot.coe_le_coe]
            simpa using hlater

/-- **One key of a bundle puts its id at the larger of the two standings**, and leaves every
other id where it was. -/
theorem standingIn_mergeKey {entries : List TrustEntry} {report : ImportReport} {key : BundledKey}
    (hdated : key.status = .revoked → key.revokedAt.isSome = true) (id : String) :
    standingIn (mergeKey (entries, report) key).1 id =
      if id = key.id then max (standingIn entries id) key.standing else standingIn entries id := by
  rcases @mergeKey_cases entries report key hdated with ⟨hnone, hresult⟩ |
    ⟨entry, hfind, hle, hresult⟩ | ⟨entry, f, hfind, hlt, hf, hstanding, hresult⟩
  · rw [hresult]
    split
    next hid =>
      rw [hid, standingIn_of_find_none hnone, max_eq_right (Standing.absent_le _)]
      exact @standingIn_append_self entries key.toEntry hnone
    next hid => exact standingIn_append_of_ne (Ne.symm hid)
  · rw [hresult]
    split
    next hid => rw [hid, standingIn_of_find hfind, max_eq_left hle]
    next => rfl
  · rw [hresult]
    split
    next hid =>
      rw [hid, standingIn_updateEntry_self hf hfind, hstanding, standingIn_of_find hfind,
        max_eq_right hlt.le]
    next hid => exact standingIn_updateEntry_of_ne hid hf entries

theorem stated_cons (key : BundledKey) (keys : List BundledKey) (id : String) :
    stated (key :: keys) id = if id = key.id then key.standing else stated keys id := by
  unfold stated
  rw [List.find?_cons]
  by_cases hid : id = key.id
  · simp [hid]
  · have : (key.id == id) = false := by simpa using Ne.symm hid
    simp [hid, this]

/-- A bundle says something about the ids it lists and no others. -/
theorem stated_eq_absent_iff {keys : List BundledKey} {id : String} :
    stated keys id = .absent ↔ ∀ key ∈ keys, key.id ≠ id := by
  unfold stated
  cases h : keys.find? (fun k => k.id == id) with
  | none =>
    simp only [true_iff]
    intro key hkey
    simpa using List.find?_eq_none.mp h key hkey
  | some key =>
    simp only
    constructor
    · intro habsent
      exact absurd (le_of_eq habsent) (not_standingOf_le_absent _ _)
    · intro hne
      have hid : key.id = id := by simpa using List.find?_some h
      exact absurd hid (hne key (List.mem_of_find?_eq_some h))

/-- **The merge of a bundle takes the larger standing at every id.** -/
theorem standingIn_mergeKeys {keys : List BundledKey} (hnodup : (keys.map BundledKey.id).Nodup)
    (hdated : ∀ key ∈ keys, key.status = .revoked → key.revokedAt.isSome = true)
    (entries : List TrustEntry) (report : ImportReport) (id : String) :
    standingIn (mergeKeys entries report keys).1 id =
      max (standingIn entries id) (stated keys id) := by
  induction keys generalizing entries report with
  | nil =>
    show standingIn entries id = max (standingIn entries id) .absent
    rw [max_eq_left (Standing.absent_le _)]
  | cons key rest ih =>
    rw [List.map_cons, List.nodup_cons] at hnodup
    have hstep := @standingIn_mergeKey entries report key (hdated key List.mem_cons_self) id
    have hrest := ih hnodup.2 (fun k hk => hdated k (List.mem_cons_of_mem key hk))
      (mergeKey (entries, report) key).1 (mergeKey (entries, report) key).2
    show standingIn (mergeKeys (mergeKey (entries, report) key).1
      (mergeKey (entries, report) key).2 rest).1 id = _
    rw [hrest, hstep, stated_cons]
    split
    next hid =>
      have habsent : stated rest id = .absent := by
        apply stated_eq_absent_iff.mpr
        intro k hk heq
        exact hnodup.1 (hid ▸ heq ▸ List.mem_map_of_mem hk)
      rw [habsent, max_eq_left (Standing.absent_le _)]
    next => rfl

/-- No id comes twice, so a listed key is what is stated of its id. -/
theorem stated_of_mem {keys : List BundledKey} (hnodup : (keys.map BundledKey.id).Nodup)
    {key : BundledKey} (hmem : key ∈ keys) : stated keys key.id = key.standing := by
  induction keys with
  | nil => cases hmem
  | cons k rest ih =>
    rw [List.map_cons, List.nodup_cons] at hnodup
    rw [stated_cons]
    rcases List.mem_cons.mp hmem with rfl | hmem
    · rw [if_pos rfl]
    · have hne : key.id ≠ k.id := fun h => hnodup.1 (h ▸ List.mem_map_of_mem hmem)
      rw [if_neg hne]
      exact ih hnodup.2 hmem

/-- A bundle that holds nothing more against a key than the entries do changes none of them. -/
theorem mergeKeys_of_stated_le {keys : List BundledKey} (hnodup : (keys.map BundledKey.id).Nodup)
    (hdated : ∀ key ∈ keys, key.status = .revoked → key.revokedAt.isSome = true)
    {entries : List TrustEntry} (report : ImportReport)
    (hle : ∀ key ∈ keys, key.standing ≤ standingIn entries key.id) :
    (mergeKeys entries report keys).1 = entries := by
  induction keys generalizing report with
  | nil => rfl
  | cons key rest ih =>
    rw [List.map_cons, List.nodup_cons] at hnodup
    have hsame : (mergeKey (entries, report) key).1 = entries := by
      rcases @mergeKey_cases entries report key (hdated key List.mem_cons_self) with
        ⟨hnone, -⟩ | ⟨_, -, -, hresult⟩ | ⟨entry, _, hfind, hlt, -⟩
      · have := hle key List.mem_cons_self
        rw [standingIn_of_find_none hnone] at this
        exact absurd this (not_standingOf_le_absent _ _)
      · exact hresult
      · have := hle key List.mem_cons_self
        rw [standingIn_of_find hfind] at this
        exact absurd this (not_le.mpr hlt)
    show (mergeKeys (mergeKey (entries, report) key).1 (mergeKey (entries, report) key).2 rest).1 = _
    rw [hsame]
    exact ih hnodup.2 (fun k hk => hdated k (List.mem_cons_of_mem key hk)) _
      (fun k hk => hle k (List.mem_cons_of_mem key hk))

end Attest.Trust
