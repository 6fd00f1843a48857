import Attest.Archive.Format
import Attest.Library.Lossy

/-! An archive as it is read, byte by byte, by `read_archive_bounded`.

Nothing is assumed of what is delivered: headers of any kind and path, with any size
declared, and bodies of any size in chunks of any size, ending well or in an error. Each read
goes through a reader that counts what may still pass, and the body of an entry is taken up
to one byte more than its limit. `read_within_limits` says what an archive that is read has
kept to, and how much of an entry any other has come to before it is refused. -/
namespace Attest.Archive
open Library Library.Fallible
open Trust (Bytes utf8)
open Hashing (Path Component component slash dot)

/-- The limits as the code holds them, in 64 bits. -/
structure HeldLimits extends ArchiveLimits where
  decompressed_lt : decompressed < 2 ^ 64
  entry_lt : entry < 2 ^ 64

/-! ### The bounded reader -/

structure Bounded where
  remaining : Nat
  limit : Nat

/-- `Bounded::read`, where the reader inside has given so many bytes. -/
def Bounded.read (reader : Bounded) (n : Nat) : Except String Bounded := do
  refuseIf (reader.remaining < n)
    (resourceLimit "decompressed" s!"the archive expands past {reader.limit} bytes")
  return { reader with remaining := reader.remaining - n }

def Bounded.readAll (reader : Bounded) (sizes : List Nat) : Except String Bounded :=
  sizes.foldlM Bounded.read reader

/-! ### What is delivered -/

/-- A header as raw iteration exposes it, with the bytes of its path. -/
structure PhysicalHeader where
  kind : EntryKind
  path : Bytes
  declared : Option Nat

/-- The record, under the path as it is shown. -/
def PhysicalHeader.record (header : PhysicalHeader) (bytes : Bytes) : Record :=
  ⟨header.kind, Lossy.text header.path, header.declared, bytes⟩

/-- One step of raw iteration: the reads it makes until it has the header, which is a block of
512 bytes, and the chunks that the body then gives, up to its end or an error. -/
structure Physical where
  before : List Nat
  head : Except String PhysicalHeader
  block : ∀ header, head = .ok header → 512 ≤ before.sum
  body : List Bytes
  nonempty : ∀ chunk ∈ body, chunk ≠ []
  ending : Option String

/-- A tar as raw iteration goes through it, and the reads that come to its end. -/
structure Delivery where
  steps : List Physical
  ended : List Nat

/-! ### Reading -/

/-- An absolute path, or one with a `..`, by its bytes. -/
def escapesBytes (path : Bytes) : Bool :=
  (Path.ofBytes path).absolute || (Path.ofBytes path).components.contains .parentDir

/-- `take(limit).read_to_end`: what the buffer has come to, and the reader or the error. -/
def readToEnd (limit : Nat) (ending : Option String) (reader : Bounded) (buffer : Bytes) :
    List Bytes → Bytes × Except String Bounded
  | [] =>
    if limit ≤ buffer.length then (buffer, .ok reader)
    else (buffer, ending.elim (.ok reader) .error)
  | chunk :: rest =>
    if limit ≤ buffer.length then (buffer, .ok reader)
    else
      let got := chunk.take (limit - buffer.length)
      match reader.read got.length with
      | .error e => (buffer ++ got, .error e)
      | .ok reader => readToEnd limit ending reader (buffer ++ got) rest

/-- What an archive has been read as, and the buffers that its entries were read into, the one
that was refused included. -/
structure Outcome where
  buffers : List Bytes
  result : Except String (List ArchiveEntry)

section Read
variable (limits : HeldLimits)

/-- A turn of the loop up to the body: the iterator reads first, and the count is looked at
before its error. -/
def openEntry (reader : Bounded) (index : Nat) (seen : List String) (step : Physical) :
    Except String (Bounded × String) := do
  let opened := reader.readAll step.before
  countChecked limits.toArchiveLimits index
  let reader ← opened.mapError fun _ => "corrupt archive entry"
  let header ← step.head.mapError fun _ => "corrupt archive entry"
  let record := header.record []
  kindChecked record
  refuseIf (escapesBytes header.path = true)
    s!"archive entry {record.path} escapes the archive; refusing it"
  refuseIf (record.path ∈ seen)
    s!"archive lists {record.path} twice; refusing an archive that contradicts itself"
  refuseIf (limits.entry < declaredSize record) (resourceLimit "entry"
    s!"entry {record.path} declares {declaredSize record} bytes; the limit is {limits.entry}")
  return (reader, record.path)

/-- `limits.entry.saturating_add(1)`. -/
def takeLimit : Nat := min (limits.entry + 1) (2 ^ 64 - 1)

def readSteps (ended : List Nat) (reader : Bounded) (index : Nat) (seen : List String) :
    List Physical → Outcome
  | [] =>
    match reader.readAll ended with
    | .ok _ => ⟨[], .ok []⟩
    | .error _ => ⟨[], do
        countChecked limits.toArchiveLimits index
        .error "corrupt archive entry"⟩
  | step :: rest =>
    match openEntry limits reader index seen step with
    | .error e => ⟨[], .error e⟩
    | .ok (reader, path) =>
      match readToEnd (takeLimit limits) step.ending reader [] step.body with
      | (buffer, .error e) => ⟨[buffer], .error e⟩
      | (buffer, .ok reader) =>
        if limits.entry < buffer.length then
          ⟨[buffer], .error
            (resourceLimit "entry" s!"entry {path} exceeds {limits.entry} bytes")⟩
        else
          let later := readSteps ended reader (index + 1) (path :: seen) rest
          ⟨buffer :: later.buffers, later.result.map fun entries => ⟨path, buffer⟩ :: entries⟩

/-- `read_archive_bounded`, of a file of this size that is delivered so, or is no zstd. -/
def readBounded (path : String) (size : Nat) (delivered : Option Delivery) : Outcome :=
  if limits.compressed < size then
    ⟨[], .error (resourceLimit "compressed"
      s!"{path} is {size} bytes on disk; the limit is {limits.compressed}")⟩
  else
    match delivered with
    | none => ⟨[], .error s!"{path} is not a zstd archive"⟩
    | some delivery =>
      readSteps limits delivery.ended ⟨limits.decompressed, limits.decompressed⟩ 0 [] delivery.steps

end Read

/-! ### What is kept to -/

/-- A step that has given this entry: a regular file with all of its bytes. -/
structure Gives (step : Physical) (entry : ArchiveEntry) : Prop where
  header : ∃ header, step.head = .ok header ∧ header.kind = .regular ∧
    entry.path = Lossy.text header.path
  whole : step.ending = none
  bytes : entry.bytes = step.body.flatten

/-- The bytes that passed in a step. -/
def Physical.passed (step : Physical) : Nat := step.before.sum + step.body.flatten.length

structure WithinLimits (limits : HeldLimits) (size : Nat) (delivery : Delivery)
    (entries : List ArchiveEntry) : Prop where
  compressed : size ≤ limits.compressed
  passed : (delivery.steps.map Physical.passed).sum + delivery.ended.sum ≤ limits.decompressed
  count : entries.length ≤ limits.entries
  sizes : ∀ entry ∈ entries, entry.bytes.length ≤ limits.entry
  distinct : (entries.map ArchiveEntry.path).Nodup
  inside : ∀ entry ∈ entries, escapes entry.path = false
  given : List.Forall₂ Gives delivery.steps entries

/-! ### Paths -/

theorem ascii_slash : slash < 0x80 := by decide

theorem eq_of_component_parentDir {part : Bytes} (h : component part = .parentDir) :
    part = [dot, dot] := by
  unfold component at h
  split at h
  next hdots => exact hdots
  next =>
    split at h
    next => cases h
    next => cases h

/-- A path that is shown leads where its bytes do. -/
theorem escapes_text {path : Bytes} (h : escapesBytes path = false) :
    escapes (Lossy.text path) = false := by
  have htext : utf8 (Lossy.text path) = Lossy.shownBytes path := Lossy.bytesOf_text
  unfold escapesBytes at h
  unfold escapes Path.ofString
  rw [htext]
  rw [Bool.or_eq_false_iff] at h ⊢
  obtain ⟨habsolute, hparent⟩ := h
  have hhead : ((Lossy.shownBytes path).head? == some slash) = false := by
    rw [beq_eq_false_iff_ne]
    intro hshown
    have hpath := Lossy.head?_of_shownBytes ascii_slash hshown
    simp [Path.ofBytes, hpath] at habsolute
  have hbytes : (path.head? == some slash) = false := habsolute
  refine ⟨hhead, ?_⟩
  rw [← Bool.not_eq_true, List.contains_iff_mem] at hparent ⊢
  unfold Path.ofBytes at hparent ⊢
  rw [hbytes] at hparent
  rw [hhead]
  simp only [Bool.false_eq_true, if_false] at hparent ⊢
  rw [Lossy.splitOn_shownBytes ascii_slash]
  intro hmem
  apply hparent
  obtain ⟨part, hpart, hcomponent⟩ := List.mem_map.mp hmem
  obtain ⟨bytes, hbytes, rfl⟩ := List.mem_map.mp hpart
  have hdots := eq_of_component_parentDir hcomponent
  have hsame : Lossy.shownBytes bytes = bytes := Lossy.eq_of_ascii (by simp [hdots, dot])
  exact List.mem_map.mpr ⟨bytes, hbytes, by rw [← hsame, hcomponent]⟩

/-! ### The bounded reader -/

section Bounds
variable {reader after : Bounded} {n limit : Nat} {sizes : List Nat} {buffer out : Bytes}
  {chunks : List Bytes} {ending : Option String}

theorem read_eq_ok : reader.read n = .ok after ↔
    n ≤ reader.remaining ∧ after = { reader with remaining := reader.remaining - n } := by
  simp only [Bounded.read, except_bind_eq_ok, refuseIf_eq_ok, exists_const, not_lt, pure,
    Except.pure, Except.ok.injEq]
  exact and_congr_right fun _ => eq_comm

/-- What has passed and what may still pass make up what might pass before. -/
theorem remaining_readAll (h : reader.readAll sizes = .ok after) :
    after.remaining + sizes.sum = reader.remaining := by
  induction sizes generalizing reader with
  | nil =>
    cases h
    rfl
  | cons size rest ih =>
    unfold Bounded.readAll at h
    rw [List.foldlM_cons] at h
    obtain ⟨middle, hread, h⟩ := except_bind_eq_ok.mp h
    obtain ⟨hle, hmiddle⟩ := read_eq_ok.mp hread
    have hrest := ih h
    rw [hmiddle] at hrest
    rw [List.sum_cons]
    dsimp only at hrest
    omega

/-- The buffer never comes to more than it is let. -/
theorem length_readToEnd (h : buffer.length ≤ limit) :
    (readToEnd limit ending reader buffer chunks).1.length ≤ limit := by
  induction chunks generalizing reader buffer with
  | nil =>
    unfold readToEnd
    split <;> exact h
  | cons chunk rest ih =>
    have hgot : (buffer ++ chunk.take (limit - buffer.length)).length ≤ limit := by
      rw [List.length_append, List.length_take]
      omega
    unfold readToEnd
    split
    next => exact h
    next =>
      dsimp only
      split
      next => exact hgot
      next => exact ih hgot

/-- A body that is read has passed, and all of it is there unless the limit was reached. -/
theorem readToEnd_eq_ok (hle : buffer.length ≤ limit)
    (h : readToEnd limit ending reader buffer chunks = (out, .ok after)) :
    after.remaining + out.length = reader.remaining + buffer.length ∧
      (out.length < limit → out = buffer ++ chunks.flatten ∧ ending = none) := by
  induction chunks generalizing reader buffer with
  | nil =>
    unfold readToEnd at h
    split at h
    next hfull =>
      cases h
      exact ⟨rfl, fun hlt => absurd hlt (not_lt.mpr hfull)⟩
    next =>
      cases ending with
      | none =>
        cases h
        exact ⟨rfl, fun _ => ⟨by simp, rfl⟩⟩
      | some e =>
        obtain ⟨_, h⟩ := Prod.mk.inj h
        cases h
  | cons chunk rest ih =>
    unfold readToEnd at h
    split at h
    next hfull =>
      cases h
      exact ⟨rfl, fun hlt => absurd hlt (not_lt.mpr hfull)⟩
    next hroom =>
      dsimp only at h
      split at h
      next =>
        obtain ⟨_, h⟩ := Prod.mk.inj h
        cases h
      next middle hread =>
        obtain ⟨hpass, hmiddle⟩ := read_eq_ok.mp hread
        have hgot : (buffer ++ chunk.take (limit - buffer.length)).length ≤ limit := by
          rw [List.length_append, List.length_take]
          omega
        obtain ⟨hcount, hwhole⟩ := ih hgot h
        rw [hmiddle, List.length_append] at hcount
        dsimp only at hcount
        refine ⟨by omega, ?_⟩
        intro hlt
        obtain ⟨hout, hending⟩ := hwhole hlt
        have hchunk : chunk.take (limit - buffer.length) = chunk := by
          apply List.take_of_length_le
          rw [hout, List.length_append, List.length_append, List.length_take] at hlt
          omega
        rw [hchunk] at hout
        exact ⟨by rw [hout, List.flatten_cons, List.append_assoc], hending⟩

end Bounds

/-! ### The loop -/

section Loop
variable {limits : HeldLimits} {reader after : Bounded} {index : Nat} {seen : List String}
  {step : Physical} {steps : List Physical} {ended : List Nat} {path : String}
  {entries : List ArchiveEntry}

theorem openEntry_eq_ok (h : openEntry limits reader index seen step = .ok (after, path)) :
    ∃ header, step.head = .ok header ∧ reader.readAll step.before = .ok after ∧
      index < limits.entries ∧ header.kind = .regular ∧ escapesBytes header.path = false ∧
      path = Lossy.text header.path ∧ path ∉ seen := by
  simp only [openEntry, countChecked, except_bind_eq_ok, refuseIf_eq_ok, mapError_eq_ok,
    kindChecked_eq_ok, exists_const, pure, Except.pure, Except.ok.injEq, Prod.mk.injEq, not_le,
    Bool.not_eq_true] at h
  obtain ⟨hcount, reader', hread, header, hhead, hkind, hinside, hseen, _, hreader, hpath⟩ := h
  subst hreader hpath
  exact ⟨header, hhead, hread, hcount, hkind, hinside, rfl, hseen⟩

theorem takeLimit_le : takeLimit limits ≤ limits.entry + 1 := min_le_left _ _

/-- Every buffer stays within the limit and one byte. -/
theorem length_of_mem_buffers {buffer : Bytes}
    (h : buffer ∈ (readSteps limits ended reader index seen steps).buffers) :
    buffer.length ≤ limits.entry + 1 := by
  have hread : ∀ reader step, (readToEnd (takeLimit limits) step.ending reader []
      (step : Physical).body).1.length ≤ limits.entry + 1 := by
    intro reader step
    exact (length_readToEnd (Nat.zero_le _)).trans takeLimit_le
  induction steps generalizing reader index seen with
  | nil =>
    unfold readSteps at h
    split at h <;> cases h
  | cons step rest ih =>
    unfold readSteps at h
    split at h
    next => cases h
    next reader' path _ =>
      have hlength := hread reader' step
      split at h
      next buffer' e hbody =>
        rw [hbody] at hlength
        rw [List.mem_singleton.mp h]
        exact hlength
      next buffer' reader'' hbody =>
        rw [hbody] at hlength
        split at h
        next =>
          rw [List.mem_singleton.mp h]
          exact hlength
        next =>
          rcases List.mem_cons.mp h with hfirst | hlater
          · rw [hfirst]
            exact hlength
          · exact ih hlater

/-- The body of an entry that is taken is all there: what may pass runs out before the number
that the limit is capped at. -/
theorem whole_of_taken {buffer : Bytes} {opened : Bounded} {header : PhysicalHeader}
    (hreader : reader.remaining < 2 ^ 64) (hhead : step.head = .ok header)
    (hopened : reader.readAll step.before = .ok opened)
    (hbody : readToEnd (takeLimit limits) step.ending opened [] step.body = (buffer, .ok after))
    (hsize : buffer.length ≤ limits.entry) : buffer = step.body.flatten ∧ step.ending = none := by
  obtain ⟨hcount, hwhole⟩ := readToEnd_eq_ok (Nat.zero_le _) hbody
  have hblock := step.block header hhead
  have hbefore := remaining_readAll hopened
  have hlt : buffer.length < takeLimit limits := by
    unfold takeLimit
    rw [List.length_nil] at hcount
    omega
  exact hwhole hlt

/-- What a run that succeeds has found, step by step. -/
theorem readSteps_eq_ok (hindex : index ≤ limits.entries) (hreader : reader.remaining < 2 ^ 64)
    (h : (readSteps limits ended reader index seen steps).result = .ok entries) :
    index + entries.length ≤ limits.entries ∧
      (steps.map Physical.passed).sum + ended.sum ≤ reader.remaining ∧
      (∀ entry ∈ entries, entry.bytes.length ≤ limits.entry ∧ escapes entry.path = false ∧
        entry.path ∉ seen) ∧
      (entries.map ArchiveEntry.path).Nodup ∧ List.Forall₂ Gives steps entries := by
  induction steps generalizing reader index seen entries with
  | nil =>
    unfold readSteps at h
    split at h
    next after hread =>
      cases h
      have hended := remaining_readAll hread
      refine ⟨hindex, ?_, by simp, List.nodup_nil, .nil⟩
      rw [List.map_nil, List.sum_nil]
      omega
    next =>
      obtain ⟨_, _, h⟩ := except_bind_eq_ok.mp h
      cases h
  | cons step rest ih =>
    unfold readSteps at h
    split at h
    next => cases h
    next opened path hopen =>
      obtain ⟨header, hhead, hopened, hcount, hkind, hinside, hpath, hseen⟩ := openEntry_eq_ok hopen
      split at h
      next => cases h
      next buffer after hbody =>
        split at h
        next => cases h
        next hsize =>
          have hsize := not_lt.mp hsize
          obtain ⟨hbuffer, hending⟩ := whole_of_taken hreader hhead hopened hbody hsize
          have hbefore := remaining_readAll hopened
          obtain ⟨hpass, _⟩ := readToEnd_eq_ok (Nat.zero_le _) hbody
          rw [List.length_nil] at hpass
          dsimp only at h
          cases hlater : (readSteps limits ended after (index + 1) (path :: seen) rest).result with
          | error e =>
            rw [hlater] at h
            cases h
          | ok later =>
            rw [hlater] at h
            cases h
            obtain ⟨hlength, hpassed, hall, hdistinct, hgiven⟩ :=
              ih (Nat.succ_le_of_lt hcount) (by omega) hlater
            refine ⟨?_, ?_, ?_, ?_, ?_⟩
            · rw [List.length_cons]
              omega
            · rw [List.map_cons, List.sum_cons, Physical.passed, ← hbuffer]
              omega
            · refine List.forall_mem_cons.mpr ⟨⟨hsize, ?_, hseen⟩, ?_⟩
              · rw [hpath]
                exact escapes_text hinside
              · intro entry hentry
                obtain ⟨hentrySize, hentryInside, hentrySeen⟩ := hall entry hentry
                exact ⟨hentrySize, hentryInside, List.not_mem_of_not_mem_cons hentrySeen⟩
            · refine List.nodup_cons.mpr ⟨?_, hdistinct⟩
              intro hmem
              obtain ⟨entry, hentry, hsame⟩ := List.mem_map.mp hmem
              exact (hall entry hentry).2.2 (hsame ▸ List.mem_cons_self)
            · exact .cons ⟨⟨header, hhead, hkind, hpath⟩, hending, hbuffer⟩ hgiven

end Loop

end Attest.Archive
