import Attest.Publication.Client
import Mathlib.Data.List.ModifyLast

/-! What publishers disclose, across runs.

However many publishers start on one record, whatever their logs answer and wherever they
die, the file never counts fewer submissions than were sent, every submission is the one
entry the record opens to, and what identifies the publication stays as it was first
written. One invariant (`Sound`) says this of the file and what was sent; while a
publisher works its own copy may run ahead of the file (`Ready`), and writing that copy,
whether the write is reported or not, keeps both. -/
namespace Attest.Publication.Client
open Merkle Note Record Library Library.Fallible Library.Process
open Trust (hexEncode utf8 DateTime)
open Verify (Backend)

/-! ### The file -/

/-- What was written is read back. -/
def RecordCodec.Rereads (codec : RecordCodec) : Prop :=
  ∀ record bytes, codec.toVecPretty record = .ok bytes → codec.record (bytes ++ [10]) = some record

/-- The record in the file. -/
def OnDisk (codec : RecordCodec) (w : World) (record : PublicationRecord) : Prop :=
  ∃ bytes, w.record = some bytes ∧ decodeRecord codec.toCodec bytes = .ok record

/-- What identifies a publication. -/
structure SameIdentity (a b : PublicationRecord) : Prop where
  format : a.format = b.format
  causalRoot : a.causalRoot = b.causalRoot
  openingNonce : a.openingNonce = b.openingNonce
  entry : a.entry = b.entry
  logId : a.logId = b.logId
  submitUrl : a.submitUrl = b.submitUrl

section Invariant
variable (s : Suite) (codec : RecordCodec) (configs : Set LogConfig)

/-- A confirmed record verifies against a log that was configured. -/
def Evident (record : PublicationRecord) : Prop :=
  isConfirmed record = true → ∃ config ∈ configs, ∃ checkpoint,
    record.verify s record.causalRoot config = .ok checkpoint

/-- A file and what was sent for it. -/
structure Sound (w : World) (record : PublicationRecord) : Prop where
  attempts : record.submissions.length ≤ maxSubmissions
  counted : w.posts.length ≤ record.submissions.length
  carried : ∀ body ∈ w.posts, record.Opens s record.causalRoot body
  evident : Evident s configs record

def Inv (w : World) : Prop :=
  w.record = none ∧ w.posts = [] ∨ ∃ record, OnDisk codec w record ∧ Sound s configs w record

/-- From one world to a later one: the file stays, and what it is about; in the calm also
its confirmation. -/
def Keeps (calm : Prop) (w w' : World) : Prop :=
  ∀ record, OnDisk codec w record → ∃ record', OnDisk codec w' record' ∧
    SameIdentity record record' ∧
    (calm → isConfirmed record = true → record'.outcome = record.outcome)

/-- What each call of a publisher keeps. -/
def Guarantee (calm : Prop) (w w' : World) : Prop :=
  Inv s codec configs w' ∧ Keeps codec calm w w'

/-- A publisher's own copy: of the publication in the file, with no fewer submissions. -/
structure Ready (calm : Prop) (w : World) (record disk : PublicationRecord) : Prop where
  onDisk : OnDisk codec w disk
  sound : Sound s configs w disk
  same : SameIdentity disk record
  ahead : disk.submissions.length ≤ record.submissions.length
  attempts : record.submissions.length ≤ maxSubmissions
  evident : Evident s configs record
  confirmed : calm → isConfirmed disk = true → record.outcome = disk.outcome

end Invariant

section Facts
variable {s : Suite} {codec : RecordCodec} {configs : Set LogConfig} {calm : Prop} {w w' : World} {record disk : PublicationRecord} {bytes : Bytes}

theorem SameIdentity.refl (record : PublicationRecord) : SameIdentity record record :=
  ⟨rfl, rfl, rfl, rfl, rfl, rfl⟩

theorem SameIdentity.symm {a b : PublicationRecord} (h : SameIdentity a b) : SameIdentity b a :=
  ⟨h.format.symm, h.causalRoot.symm, h.openingNonce.symm, h.entry.symm, h.logId.symm,
    h.submitUrl.symm⟩

theorem SameIdentity.trans {a b c : PublicationRecord} (h : SameIdentity a b)
    (h' : SameIdentity b c) : SameIdentity a c :=
  ⟨h.format.trans h'.format, h.causalRoot.trans h'.causalRoot, h.openingNonce.trans h'.openingNonce,
    h.entry.trans h'.entry, h.logId.trans h'.logId, h.submitUrl.trans h'.submitUrl⟩

/-- The opening is a matter of the identity and the number of attempts. -/
theorem SameIdentity.opens {a b : PublicationRecord} {entry : Bytes} (h : SameIdentity a b)
    (hattempts : b.submissions.length ≤ maxSubmissions) (hopens : a.Opens s a.causalRoot entry) :
    b.Opens s b.causalRoot entry where
  format := h.format ▸ hopens.format
  attempts := hattempts
  destination := h.submitUrl ▸ hopens.destination
  log := h.logId ▸ hopens.log
  root := rfl
  commits := by
    rw [← h.causalRoot, ← h.openingNonce]
    exact hopens.commits
  written := h.entry ▸ hopens.written

theorem OnDisk.unique {a c : PublicationRecord} (h : OnDisk codec w a) (h' : OnDisk codec w c) :
    a = c := by
  obtain ⟨bytes, hbytes, ha⟩ := h
  obtain ⟨bytes', hbytes', hc⟩ := h'
  obtain rfl := Option.some.inj (hbytes.symm.trans hbytes')
  exact Except.ok.inj (ha.symm.trans hc)

theorem keeps_refl (w : World) : Keeps codec calm w w :=
  fun record h => ⟨record, h, .refl record, fun _ _ => rfl⟩

theorem Keeps.trans {w₁ w₂ w₃ : World} (h : Keeps codec calm w₁ w₂) (h' : Keeps codec calm w₂ w₃) :
    Keeps codec calm w₁ w₃ := by
  intro r hr
  obtain ⟨r', hr', hsame, hconfirmed⟩ := h r hr
  obtain ⟨r'', hr'', hsame', hconfirmed'⟩ := h' r' hr'
  refine ⟨r'', hr'', hsame.trans hsame', ?_⟩
  intro hcalm hr
  have houtcome := hconfirmed hcalm hr
  have hr' : isConfirmed r' = true := by
    rw [isConfirmed, houtcome]
    exact hr
  exact (hconfirmed' hcalm hr').trans houtcome

theorem Ready.inv (h : Ready s codec configs calm w record disk) : Inv s codec configs w :=
  .inr ⟨disk, h.onDisk, h.sound⟩

theorem Ready.guarantee (h : Ready s codec configs calm w record disk) :
    Guarantee s codec configs calm w w :=
  ⟨h.inv, keeps_refl w⟩

/-- The copy, written over the file. -/
theorem Ready.written (h : Ready s codec configs calm w record disk)
    (hbytes : decodeRecord codec.toCodec bytes = .ok record) :
    Guarantee s codec configs calm w { w with record := some bytes } ∧
      Ready s codec configs calm { w with record := some bytes } record record := by
  have hdisk : OnDisk codec { w with record := some bytes } record := ⟨bytes, rfl, hbytes⟩
  have hsound : Sound s configs { w with record := some bytes } record :=
    { attempts := h.attempts
      counted := Nat.le_trans h.sound.counted h.ahead
      carried := fun body hbody => h.same.opens h.attempts (h.sound.carried body hbody)
      evident := h.evident }
  refine ⟨⟨.inr ⟨record, hdisk, hsound⟩, ?_⟩, ?_⟩
  · intro old hold
    obtain rfl := hold.unique h.onDisk
    exact ⟨record, hdisk, h.same, h.confirmed⟩
  · exact ⟨hdisk, hsound, .refl record, Nat.le_refl _, h.attempts, h.evident, fun _ _ => rfl⟩

end Facts

/-! ### Rules for the steps -/

section Rules
variable {codec : RecordCodec} {calm : Prop} {G : World → World → Prop} {w : World}
  {α β ε σ : Type} {st : σ}

theorem ends_orFail {fail : String → ε} {x : Except String α} {post : Except ε α → σ → World → Prop}
    (hok : ∀ a, x = .ok a → post (.ok a) st w)
    (herror : ∀ e, x = .error e → post (.error (fail e)) st w) :
    Ends (Answers calm) G (orFail fail x) st w post := by
  cases x with
  | ok a => exact hok a rfl
  | error e => exact herror e rfl

theorem ends_orFail_bind {fail : String → ε} {x : Except String α} {f : α → Script Call Reply ε σ β}
    {post : Except ε β → σ → World → Prop}
    (hok : ∀ a, x = .ok a → Ends (Answers calm) G (f a) st w post)
    (herror : ∀ e, x = .error e → post (.error (fail e)) st w) :
    Ends (Answers calm) G (orFail fail x >>= f) st w post :=
  ends_bind.mpr (ends_orFail hok herror)

/-- A write fails with the file as it was, or puts the record there, reported or not. -/
theorem ends_save {fail : String → ε} {record : PublicationRecord} {initial : Bool}
    {point : SavePoint} {post : Except ε Unit → σ → World → Prop} (hcodec : codec.Rereads)
    (hw : G w w) (hfailed : ∀ e, post (.error e) st w)
    (hwritten : ∀ bytes, decodeRecord codec.toCodec bytes = .ok record →
      (initial = true → w.record = none) →
      G w { w with record := some bytes } ∧
        G { w with record := some bytes } { w with record := some bytes } ∧
        ∀ result, (calm → point = .confirmation → result = .ok ()) →
          post result st { w with record := some bytes }) :
    Ends (Answers calm) G (save codec fail record initial point) st w post := by
  unfold save
  refine ends_orFail_bind ?_ fun e _ => hfailed _
  intro bytes hbytes
  refine ends_orFail_bind ?_ fun e _ => hfailed _
  intro _ hsize
  rw [refuseIf_eq_ok, not_le] at hsize
  refine ends_request_bind.mpr ?_
  intro staged w' hstaged
  obtain rfl : w = w' := Eq.symm hstaged
  refine ⟨hw, ends_orFail_bind ?_ fun e _ => hfailed _⟩
  intro _ _
  refine ends_request_bind.mpr ?_
  intro renamed w' hrenamed
  have hdecode : decodeRecord codec.toCodec (bytes ++ [10]) = .ok record := by
    simp only [decodeRecord, except_bind_eq_ok, refuseIf_eq_ok, hcodec record bytes hbytes]
    refine ⟨(), ?_, trivial⟩
    rw [List.length_append, List.length_singleton]
    omega
  cases renamed with
  | error e =>
    obtain rfl : w = w' := Eq.symm hrenamed
    exact ⟨hw, hfailed _⟩
  | ok _ =>
    obtain ⟨hfree, rfl⟩ : (initial = true → w.record = none) ∧
      w' = { w with record := some (bytes ++ [10]) } := hrenamed
    obtain ⟨hG, hG', hpost⟩ := hwritten _ hdecode hfree
    refine ⟨hG, ends_orFail_bind ?_ fun e he => by cases he⟩
    intro _ _
    refine ends_request_bind.mpr ?_
    rintro synced w' ⟨rfl, hcalm⟩
    refine ⟨hG', ends_orFail ?_ ?_⟩
    · exact fun _ _ => hpost _ fun _ _ => rfl
    · intro e he
      refine hpost _ fun hc hp => ?_
      rw [hcalm hc hp] at he
      cases he

theorem length_modifyLast (f : α → α) (l : List α) : (l.modifyLast f).length = l.length := by
  induction l using List.reverseRecOn with
  | nil => rfl
  | append_singleton l a => simp [List.modifyLast_concat]

/-- A step of `obtain_inclusion` that only asks the log: the record, the file and what was sent
stay. -/
def Quiet (calm : Prop) (x : Obtaining α) : Prop :=
  ∀ (G : World → World → Prop) (p : Progress) (w : World), G w w →
    Ends (Answers calm) G x p w fun _ p' w' => p'.record = p.record ∧ w' = w

theorem Quiet.bind {x : Obtaining α} {f : α → Obtaining β} (hx : Quiet calm x)
    (hf : ∀ a, Quiet calm (f a)) : Quiet calm (x >>= f) := by
  intro G p w hw
  refine (hx G p w hw).bind ?_ fun _ _ _ h => h
  rintro a p' _ ⟨hrecord, rfl⟩
  refine (hf a G p' _ hw).mono ?_
  rintro _ p'' _ ⟨hrecord', rfl⟩
  exact ⟨hrecord'.trans hrecord, rfl⟩

theorem quiet_pure (a : α) : Quiet calm (pure a) := fun _ _ _ _ => ⟨rfl, rfl⟩

theorem quiet_throw (e : Stop) : Quiet calm (throw e : Obtaining α) := fun _ _ _ _ => ⟨rfl, rfl⟩

theorem quiet_orFail (x : Except String α) : Quiet calm (orFail stopWith x) := by
  cases x with
  | ok a => exact quiet_pure a
  | error e => exact quiet_throw _

theorem quiet_await (x : Awaited α) : Quiet calm (await x) := by
  cases x with
  | ready a => exact quiet_pure a
  | deadline => exact quiet_throw _

theorem quiet_request {c : Call} (h : ∀ w r w', Answers calm w c r w' → w' = w) :
    Quiet calm (request c) := by
  intro G p w hw
  refine ends_request.mpr ?_
  intro r w' hstep
  obtain rfl : w = w' := (h w r w' hstep).symm
  exact ⟨hw, rfl, rfl⟩

theorem quiet_pause : Quiet calm pause :=
  (quiet_request (c := .sleep) fun _ _ _ h => h).bind fun reply => quiet_await reply

theorem quiet_budget : Quiet calm budget := fun _ _ _ _ => ⟨rfl, rfl⟩

theorem quiet_readResource (path : String) (maximum left : Nat) :
    Quiet calm (readResource path maximum left) := by
  induction left with
  | zero => exact quiet_throw _
  | succ left ih =>
    unfold readResource
    refine quiet_budget.bind fun within => ?_
    cases within with
    | false => exact quiet_throw _
    | true =>
      refine (quiet_request (c := .get path) fun _ _ _ h => h).bind fun reply =>
        (quiet_await reply).bind fun got => ?_
      split
      next => exact quiet_throw _
      next => exact quiet_pure _
      next => exact quiet_pause.bind fun _ => ih

theorem quiet_checkpoint (s : Suite) (trust : LogConfig) : Quiet calm (checkpoint s trust) := by
  unfold checkpoint
  refine (quiet_readResource "checkpoint" maxNoteBytes 3).bind fun found => ?_
  cases found with
  | none => exact quiet_pure _
  | some bytes =>
    simp only []
    split
    next => exact quiet_throw _
    next => exact (quiet_orFail _).bind fun _ => quiet_pure _

end Rules

/-! ### Obtaining inclusion -/

/-- A publisher's unconfirmed copy, that opens to the entry it is after. -/
def Pending (s : Suite) (codec : RecordCodec) (configs : Set LogConfig)
    (calm : Prop) (entry : Bytes) (w : World) (record : PublicationRecord) : Prop :=
  (∃ disk, Ready s codec configs calm w record disk) ∧
    record.Opens s record.causalRoot entry ∧ isConfirmed record = false

section Obtain
variable {s : Suite} {codec : RecordCodec} {configs : Set LogConfig} {calm : Prop} {trust : LogConfig} {entry : Bytes} {w : World} {p : Progress}
  {record record' disk : PublicationRecord}

theorem Pending.guarantee (h : Pending s codec configs calm entry w record) :
    Guarantee s codec configs calm w w := by
  obtain ⟨⟨disk, hready⟩, _⟩ := h
  exact hready.guarantee

/-- In the calm, the file of an unconfirmed copy is unconfirmed. -/
theorem Ready.disk_unconfirmed (h : Ready s codec configs calm w record disk)
    (hrecord : isConfirmed record = false) (hcalm : calm) : ¬ isConfirmed disk = true := by
  intro hdisk
  have houtcome := h.confirmed hcalm hdisk
  rw [isConfirmed, houtcome] at hrecord
  rw [isConfirmed, hrecord] at hdisk
  cases hdisk

/-- The copy may change in memory, as long as it stays unconfirmed. -/
theorem Ready.change (h : Ready s codec configs calm w record disk)
    (hrecord : isConfirmed record = false) (hsame : SameIdentity record record')
    (hmore : record.submissions.length ≤ record'.submissions.length)
    (hmost : record'.submissions.length ≤ maxSubmissions) (hrecord' : isConfirmed record' = false) :
    Ready s codec configs calm w record' disk where
  onDisk := h.onDisk
  sound := h.sound
  same := h.same.trans hsame
  ahead := Nat.le_trans h.ahead hmore
  attempts := hmost
  evident := by
    intro htrue
    rw [hrecord'] at htrue
    cases htrue
  confirmed := fun hcalm hdisk => absurd hdisk (h.disk_unconfirmed hrecord hcalm)

theorem Pending.change (h : Pending s codec configs calm entry w record)
    (hsame : SameIdentity record record')
    (hmore : record.submissions.length ≤ record'.submissions.length)
    (hmost : record'.submissions.length ≤ maxSubmissions) (hrecord' : isConfirmed record' = false) :
    Pending s codec configs calm entry w record' := by
  obtain ⟨⟨disk, hready⟩, hopens, hrecord⟩ := h
  exact ⟨⟨disk, hready.change hrecord hsame hmore hmost hrecord'⟩, hsame.opens hmost hopens, hrecord'⟩

/-- A step that only asks the log. -/
theorem Pending.quiet {α : Type} {x : Obtaining α}
    (h : Pending s codec configs calm entry w p.record) (hx : Quiet calm x) :
    Ends (Answers calm) (Guarantee s codec configs calm) x p w fun _ p' w' =>
      p'.record = p.record ∧ w' = w ∧ Pending s codec configs calm entry w' p'.record := by
  refine (hx _ p w h.guarantee).mono ?_
  rintro _ p' _ ⟨hrecord, rfl⟩
  exact ⟨hrecord, rfl, hrecord ▸ h⟩

/-- Writing the copy. When it is reported, the file is the copy. -/
theorem save_spec {initial : Bool} {point : SavePoint} (hcodec : codec.Rereads)
    (h : Pending s codec configs calm entry w p.record) :
    Ends (Answers calm) (Guarantee s codec configs calm)
      (save codec stopWith p.record initial point) p w fun result p' w' =>
        p' = p ∧ w'.posts = w.posts ∧ Pending s codec configs calm entry w' p'.record ∧
          (result = .ok () → OnDisk codec w' p'.record) := by
  obtain ⟨⟨disk, hready⟩, hopens, hrecord⟩ := h
  refine ends_save hcodec hready.guarantee ?_ ?_
  · intro e
    exact ⟨rfl, rfl, ⟨⟨disk, hready⟩, hopens, hrecord⟩, fun h => by cases h⟩
  · intro bytes hbytes _
    obtain ⟨hguarantee, hwritten⟩ := hready.written hbytes
    refine ⟨hguarantee, hwritten.guarantee, ?_⟩
    intro result _
    exact ⟨rfl, rfl, ⟨⟨p.record, hwritten⟩, hopens, hrecord⟩, fun _ => hwritten.onDisk⟩

/-- What a submission leaves, when the file already counts it. -/
theorem Ready.sent (h : Ready s codec configs calm w record record)
    (hopens : record.Opens s record.causalRoot entry)
    (hroom : w.posts.length < record.submissions.length) :
    Guarantee s codec configs calm w { w with posts := w.posts ++ [entry] } ∧
      Ready s codec configs calm { w with posts := w.posts ++ [entry] } record record := by
  have hsound : Sound s configs { w with posts := w.posts ++ [entry] } record :=
    { attempts := h.attempts
      counted := by
        rw [List.length_append, List.length_singleton]
        exact hroom
      carried := by
        intro body hbody
        rcases List.mem_append.mp hbody with hbefore | hlast
        · exact h.sound.carried body hbefore
        · obtain rfl := List.mem_singleton.mp hlast
          exact hopens
      evident := h.evident }
  exact ⟨⟨.inr ⟨record, h.onDisk, hsound⟩, keeps_refl w⟩,
    ⟨h.onDisk, hsound, h.same, h.ahead, h.attempts, h.evident, h.confirmed⟩⟩

theorem submit_spec (h : Pending s codec configs calm entry w p.record)
    (hdisk : OnDisk codec w p.record) (hroom : w.posts.length < p.record.submissions.length) :
    Ends (Answers calm) (Guarantee s codec configs calm) (submit entry) p w fun _ p' w' =>
      p'.record = p.record ∧ Pending s codec configs calm entry w' p'.record := by
  unfold submit
  refine (h.quiet quiet_budget).bind ?_ fun _ _ _ hmid => ⟨hmid.1, hmid.2.2⟩
  rintro within p' w' ⟨hrecord, rfl, hpending⟩
  cases within with
  | false => exact ⟨hrecord, hpending⟩
  | true =>
    rw [← hrecord] at hdisk hroom
    obtain ⟨⟨disk, hready⟩, hopens, hunconfirmed⟩ := id hpending
    obtain rfl := hready.onDisk.unique hdisk
    obtain ⟨hguarantee, hsent⟩ := hready.sent hopens hroom
    refine ends_request_bind.mpr ?_
    intro reply w'' hreply
    have hafter : Guarantee s codec configs calm w' w'' ∧
        Pending s codec configs calm entry w'' p'.record := by
      rcases hreply with rfl | ⟨rfl, _⟩
      · exact ⟨hguarantee, ⟨_, hsent⟩, hopens, hunconfirmed⟩
      · exact ⟨hready.guarantee, hpending⟩
    refine ⟨hafter.1, ?_⟩
    have hrest : Quiet calm (await reply >>= fun response => pure (judgeSubmission response)) :=
      (quiet_await reply).bind fun _ => quiet_pure _
    refine Ends.mono (hafter.2.quiet hrest) ?_
    rintro _ p'' _ ⟨hrecord', _, hpending'⟩
    exact ⟨hrecord'.trans hrecord, hpending'⟩

/-- What one round leaves: an unconfirmed copy of the same publication. -/
theorem attempt_spec (hcodec : codec.Rereads) (h : Pending s codec configs calm entry w p.record)
    (hroom : p.record.submissions.length < maxSubmissions) :
    Ends (Answers calm) (Guarantee s codec configs calm) (attempt codec entry) p w fun _ p' w' =>
      Pending s codec configs calm entry w' p'.record := by
  unfold attempt
  refine (h.quiet (quiet_request (c := .now) fun _ _ _ h => h)).bind ?_ fun _ _ _ hmid => hmid.2.2
  rintro startedAt p' w' ⟨hrecord, rfl, hpending⟩
  rw [← hrecord] at hroom
  refine ends_modify_bind.mpr (ends_get_bind.mpr ?_)
  generalize hpushed : (Progress.mk { p'.record with submissions :=
    p'.record.submissions ++ [⟨startedAt, none⟩] } p'.requests) = q
  have hlength : q.record.submissions.length = p'.record.submissions.length + 1 := by
    rw [← hpushed]
    exact List.length_append
  have hq : Pending s codec configs calm entry w' q.record := by
    refine hpending.change ?_ (by omega) (by omega) ?_
    · rw [← hpushed]
      exact ⟨rfl, rfl, rfl, rfl, rfl, rfl⟩
    · rw [← hpushed]
      exact hpending.2.2
  have hposts : w'.posts.length < q.record.submissions.length := by
    obtain ⟨⟨disk, hready⟩, _⟩ := hpending
    have hcounted := hready.sound.counted
    have hahead := hready.ahead
    omega
  refine (save_spec hcodec hq).bind ?_ fun _ _ _ hmid => hmid.2.2.1
  rintro _ _ w₁ ⟨rfl, hsame, hsaved, hdisk⟩
  rw [← hsame] at hposts
  refine (submit_spec hsaved (hdisk rfl) hposts).bind ?_ fun _ _ _ hmid => hmid.2
  rintro answer p₂ w₂ ⟨-, hanswered⟩
  have hmost := hanswered.2.1.attempts
  cases answer with
  | ok returned =>
    refine ends_modify_bind.mpr (ends_get_bind.mpr ?_)
    refine (save_spec hcodec ?_).bind ?_ fun _ _ _ hmid => hmid.2.2.1
    · have hsize := length_modifyLast
        (fun a : Submission => { a with returnedIndex := some returned }) p₂.record.submissions
      exact hanswered.change ⟨rfl, rfl, rfl, rfl, rfl, rfl⟩ hsize.ge (hsize.trans_le hmost) rfl
    · rintro _ p₃ w₃ ⟨-, -, hreported, -⟩
      exact hreported
  | error failure =>
    refine ends_modify_bind.mpr (ends_get_bind.mpr ?_)
    refine (save_spec hcodec ?_).bind ?_ fun _ _ _ hmid => hmid.2.2.1
    · exact hanswered.change ⟨rfl, rfl, rfl, rfl, rfl, rfl⟩ (Nat.le_refl _) hmost rfl
    · rintro _ p₃ w₃ ⟨-, -, hreported, -⟩
      split
      next => exact hreported
      next =>
        refine (hreported.quiet quiet_pause).bind ?_ fun _ _ _ hmid => hmid.2.2
        exact fun _ _ _ hmid => hmid.2.2

theorem submitUntilIndexed_spec (hcodec : codec.Rereads) (rounds : Nat) (index : Option Nat)
    (h : Pending s codec configs calm entry w p.record) :
    Ends (Answers calm) (Guarantee s codec configs calm) (submitUntilIndexed codec entry rounds index)
      p w fun _ p' w' => Pending s codec configs calm entry w' p'.record := by
  induction rounds generalizing index p w with
  | zero => exact h
  | succ rounds ih =>
    unfold submitUntilIndexed
    refine ends_get_bind.mpr ?_
    split
    next hround =>
      refine (attempt_spec hcodec h hround.2).bind ?_ fun _ _ _ hmid => hmid
      rintro (returned | again) p' w' hmid
      · exact ih (some returned) hmid
      · cases again with
        | true => exact ih none hmid
        | false => exact hmid
    next => exact h

/-- What `obtain_inclusion` leaves: a copy to go on with, confirmed only when it says so. -/
def Obtained {α : Type} (s : Suite) (codec : RecordCodec) (configs : Set LogConfig) (calm : Prop)
    (result : Except Stop α) (w : World) (record : PublicationRecord) : Prop :=
  (∃ disk, Ready s codec configs calm w record disk) ∧
    (isConfirmed record = true → ∃ a, result = .ok a)

theorem Pending.obtained {α : Type} {result : Except Stop α}
    (h : Pending s codec configs calm entry w record) :
    Obtained s codec configs calm result w record := by
  refine ⟨h.1, ?_⟩
  intro hconfirmed
  rw [h.2.2] at hconfirmed
  cases hconfirmed

/-- The confirmation. A write that is not reported leaves the copy unconfirmed over a file that
may be confirmed; in the calm it does not happen. -/
theorem confirm_spec (hcodec : codec.Rereads) (htrust : trust ∈ configs) (index : Nat)
    (checkpoint : Checkpoint) (h : Pending s codec configs calm entry w p.record) :
    Ends (Answers calm) (Guarantee s codec configs calm) (confirm s codec trust entry index checkpoint)
      p w fun result p' w' => Obtained s codec configs calm result w' p'.record := by
  unfold confirm
  refine (h.quiet (quiet_request (c := .tiles) fun _ _ _ h => h)).bind ?_
    fun _ _ _ hmid => hmid.2.2.obtained
  rintro reply p₁ w₁ ⟨-, -, h₁⟩
  refine (h₁.quiet (quiet_await reply)).bind ?_ fun _ _ _ hmid => hmid.2.2.obtained
  rintro source p₂ w₂ ⟨-, -, h₂⟩
  split
  next => exact h₂.obtained
  next path _ =>
    refine ends_orFail_bind ?_ fun e _ => h₂.obtained
    intro _ _
    refine ends_get_bind.mpr ?_
    refine ends_orFail_bind ?_ fun e _ => h₂.obtained
    intro verified hverified
    generalize hrecord : ({ p₂.record with
      outcome := .confirmed index checkpoint.signedNote (path.map fun h => hexEncode h.toList) } :
        PublicationRecord) = confirmed at hverified ⊢
    obtain ⟨⟨disk, hready⟩, hopens, hunconfirmed⟩ := id h₂
    have hsame : SameIdentity p₂.record confirmed := by
      rw [← hrecord]
      exact ⟨rfl, rfl, rfl, rfl, rfl, rfl⟩
    have hsubmissions : confirmed.submissions = p₂.record.submissions := by rw [← hrecord]
    have hconfirmed : Ready s codec configs calm w₂ confirmed disk :=
      { onDisk := hready.onDisk
        sound := hready.sound
        same := hready.same.trans hsame
        ahead := hsubmissions ▸ hready.ahead
        attempts := hsubmissions ▸ hready.attempts
        evident := fun _ => ⟨trust, htrust, verified, hsame.causalRoot ▸ hverified⟩
        confirmed := fun hcalm hdisk => absurd hdisk (hready.disk_unconfirmed hunconfirmed hcalm) }
    refine ends_bind.mpr (ends_save hcodec h₂.guarantee (fun _ => h₂.obtained) ?_)
    intro bytes hbytes _
    obtain ⟨hguarantee, hwritten⟩ := hconfirmed.written hbytes
    refine ⟨hguarantee, hwritten.guarantee, ?_⟩
    intro result hreported
    cases result with
    | ok _ => exact ⟨⟨confirmed, hwritten⟩, fun _ => ⟨_, rfl⟩⟩
    | error e =>
      have hbehind : Ready s codec configs calm { w₂ with record := some bytes } p₂.record confirmed :=
        { onDisk := hwritten.onDisk
          sound := hwritten.sound
          same := hsame.symm
          ahead := hsubmissions ▸ Nat.le_refl _
          attempts := hready.attempts
          evident := hready.evident
          confirmed := fun hcalm _ => nomatch hreported hcalm rfl }
      exact Pending.obtained ⟨⟨confirmed, hbehind⟩, hopens, hunconfirmed⟩

theorem poll_spec (hcodec : codec.Rereads) (htrust : trust ∈ configs) (index polls : Nat)
    (h : Pending s codec configs calm entry w p.record) :
    Ends (Answers calm) (Guarantee s codec configs calm) (poll s codec trust entry index polls)
      p w fun result p' w' => Obtained s codec configs calm result w' p'.record := by
  induction polls generalizing p w with
  | zero => exact h.obtained
  | succ polls ih =>
    unfold poll
    refine (h.quiet (quiet_checkpoint s trust)).bind ?_ fun _ _ _ hmid => hmid.2.2.obtained
    rintro found p₁ w₁ ⟨-, -, h₁⟩
    split
    next checkpoint _ => exact confirm_spec hcodec htrust index checkpoint h₁
    next =>
      refine (h₁.quiet quiet_pause).bind ?_ fun _ _ _ hmid => hmid.2.2.obtained
      rintro _ p₂ w₂ ⟨-, -, h₂⟩
      exact ih h₂

theorem obtainInclusion_spec (hcodec : codec.Rereads) (htrust : trust ∈ configs)
    (h : Ready s codec configs calm w p.record disk) (hrecord : isConfirmed p.record = false) :
    Ends (Answers calm) (Guarantee s codec configs calm) (obtainInclusion s codec trust) p w
      fun result p' w' => Obtained s codec configs calm result w' p'.record := by
  unfold obtainInclusion
  refine ends_get_bind.mpr (ends_orFail_bind ?_ ?_)
  · intro entry hentry
    have hpending : Pending s codec configs calm entry w p.record :=
      ⟨⟨disk, h⟩, entryBytes_iff.mp hentry, hrecord⟩
    refine (submitUntilIndexed_spec hcodec maxSubmissions _ hpending).bind ?_
      fun _ _ _ hmid => hmid.obtained
    rintro (_ | index) p₁ w₁ h₁
    · exact h₁.obtained
    · exact poll_spec hcodec htrust index maxCheckpointPolls h₁
  · intro e _
    refine ⟨⟨disk, h⟩, ?_⟩
    intro hconfirmed
    rw [hrecord] at hconfirmed
    cases hconfirmed

end Obtain

/-! ### The publisher under the lock -/

section Publish
variable {s : Suite} {codec : RecordCodec} {configs : Set LogConfig} {calm : Prop}
  {config : LogConfig} {root : String} {w : World} {record disk : PublicationRecord}

/-- An unconfirmed copy takes another reason. -/
theorem Ready.setReason (h : Ready s codec configs calm w record disk)
    (hrecord : isConfirmed record = false) (reason : UnconfirmedReason) :
    Ready s codec configs calm w { record with outcome := .unconfirmed reason } disk :=
  h.change hrecord ⟨rfl, rfl, rfl, rfl, rfl, rfl⟩ (Nat.le_refl _) h.attempts rfl

/-- A copy is settled as it was obtained: no error replaces a confirmation in it. -/
theorem settle_ready {result : Except Stop Unit}
    (h : Obtained s codec configs calm result w record) :
    ∃ disk, Ready s codec configs calm w (settle result record) disk := by
  obtain ⟨⟨disk, hready⟩, hreported⟩ := h
  refine ⟨disk, ?_⟩
  have hlimit : ∀ record, Ready s codec configs calm w record disk →
      Ready s codec configs calm w (if record.outcome = .unconfirmed .prepared ∧
        maxSubmissions ≤ record.submissions.length ∧
        record.submissions.all (fun a => a.returnedIndex.isNone) then
          { record with outcome := .unconfirmed .attemptLimit } else record) disk := by
    intro record hready
    split
    next hprepared =>
      refine hready.setReason ?_ _
      rw [isConfirmed, hprepared.1]
    next => exact hready
  have hunreported : ∀ e, result = .error e → isConfirmed record = false := by
    intro e he
    rw [← Bool.not_eq_true]
    intro hrecord
    obtain ⟨a, ha⟩ := hreported hrecord
    cases he.symm.trans ha
  match result, hunreported with
  | .ok (), _ => exact hlimit _ hready
  | .error (.failed failure), h => exact hlimit _ (hready.setReason (h _ rfl) (reason failure))
  | .error .deadline, h => exact hlimit _ (hready.setReason (h _ rfl) .deadline)

theorem pursue_spec (hcodec : codec.Rereads) (hconfig : config ∈ configs)
    (h : Ready s codec configs calm w record disk) (hrecord : isConfirmed record = false) :
    Ends (Answers calm) (Guarantee s codec configs calm) (pursue s codec config record) () w
      fun _ _ _ => True := by
  have hobtain : Ends (Answers calm) (Guarantee s codec configs calm)
      (timeout (obtainInclusion s codec config) ⟨record, 0⟩) () w fun ended _ w' =>
        ∀ result progress, ended = .ok (result, progress) →
          Obtained s codec configs calm result w' progress.record := by
    refine ends_lift.mpr (Safe.mono (obtainInclusion_spec hcodec hconfig h hrecord) ?_)
    rintro ended w' hended result progress ⟨⟩
    exact hended
  unfold pursue
  refine hobtain.bind ?_ fun _ _ _ _ => trivial
  rintro ⟨result, progress⟩ _ w' hended
  obtain ⟨disk', hready⟩ := settle_ready (hended result progress rfl)
  refine ends_bind.mpr (ends_save hcodec hready.guarantee (fun _ => trivial) ?_)
  intro bytes hbytes _
  obtain ⟨hguarantee, hwritten⟩ := hready.written hbytes
  refine ⟨hguarantee, hwritten.guarantee, ?_⟩
  intro result _
  cases result <;> trivial

/-- What is loaded is what is there. -/
theorem load_spec {G : World → World → Prop} (hw : G w w) :
    Ends (Answers calm) G (load codec id) () w fun found _ w' => w' = w ∧
      ∀ loaded, found = .ok loaded →
        match loaded with
        | none => w.record = none
        | some record => OnDisk codec w record := by
  unfold load
  refine ends_request_bind.mpr ?_
  rintro found w' ⟨rfl, hfound⟩
  refine ⟨hw, ends_orFail_bind ?_ fun e _ => ⟨rfl, fun _ h => nomatch h⟩⟩
  rintro (_ | metadata) rfl
  · refine ⟨rfl, ?_⟩
    rintro _ ⟨⟩
    exact hfound
  · refine ends_orFail_bind ?_ fun e _ => ⟨rfl, fun _ h => nomatch h⟩
    intro _ _
    refine ends_orFail_bind ?_ fun e _ => ⟨rfl, fun _ h => nomatch h⟩
    intro _ _
    refine ends_request_bind.mpr ?_
    rintro content w'' ⟨rfl, hcontent⟩
    refine ⟨hw, ends_orFail_bind ?_ fun e _ => ⟨rfl, fun _ h => nomatch h⟩⟩
    intro bytes hbytes
    refine ends_orFail_bind ?_ fun e _ => ⟨rfl, fun _ h => nomatch h⟩
    intro _ _
    refine ends_orFail_bind ?_ fun e _ => ⟨rfl, fun _ h => nomatch h⟩
    intro record hrecord
    refine ⟨rfl, ?_⟩
    rintro _ ⟨⟩
    exact ⟨bytes, hcontent bytes hbytes, hrecord⟩

theorem ready_of_new {bytes : Bytes} (hnone : w.record = none) (hposts : w.posts = [])
    (hbytes : decodeRecord codec.toCodec bytes = .ok record) (hnew : record.submissions = [])
    (hunconfirmed : isConfirmed record = false) :
    Guarantee s codec configs calm w { w with record := some bytes } ∧
      Ready s codec configs calm { w with record := some bytes } record record := by
  have hdisk : OnDisk codec { w with record := some bytes } record := ⟨bytes, rfl, hbytes⟩
  have hattempts : record.submissions.length ≤ maxSubmissions := by
    rw [hnew]
    exact Nat.zero_le _
  have hevident : Evident s configs record := fun h => by
    rw [hunconfirmed] at h
    cases h
  have hsound : Sound s configs { w with record := some bytes } record :=
    { attempts := hattempts
      counted := by simp [hposts]
      carried := by simp [hposts]
      evident := hevident }
  refine ⟨⟨.inr ⟨record, hdisk, hsound⟩, ?_⟩, ?_⟩
  · rintro old ⟨_, hold, _⟩
    cases hnone.symm.trans hold
  · exact ⟨hdisk, hsound, .refl record, Nat.le_refl _, hattempts, hevident, fun _ _ => rfl⟩

/-- A new record, when there was none and nothing was sent. -/
theorem prepareNew_spec (hcodec : codec.Rereads) (hnone : w.record = none) (hposts : w.posts = []) :
    Ends (Answers calm) (Guarantee s codec configs calm) (prepareNew s codec config root) () w
      fun prepared _ w' => ∀ record, prepared = .ok record →
        Ready s codec configs calm w' record record ∧ isConfirmed record = false := by
  have hw : Guarantee s codec configs calm w w := ⟨.inl ⟨hnone, hposts⟩, keeps_refl w⟩
  unfold prepareNew
  refine ends_request_bind.mpr ?_
  rintro filled w' rfl
  refine ⟨hw, ?_⟩
  cases filled with
  | none => exact fun _ h => nomatch h
  | some nonce =>
    refine ends_orFail_bind ?_ fun e _ _ h => nomatch h
    intro entry _
    refine ends_orFail_bind ?_ fun e _ _ h => nomatch h
    intro logId _
    split
    next => exact fun _ h => nomatch h
    next submitUrl _ =>
      refine ends_request_bind.mpr ?_
      rintro createdAt w' rfl
      refine ⟨hw, ?_⟩
      generalize hrecord : PublicationRecord.mk recordFormat root (hexEncode nonce.toList)
        (hexEncode entry) logId submitUrl createdAt [] (.unconfirmed .prepared) = record
      refine ends_bind.mpr (ends_save hcodec hw (fun _ _ h => nomatch h) ?_)
      intro bytes hbytes _
      have hunconfirmed : isConfirmed record = false := by
        rw [← hrecord]
        rfl
      have hnew : Guarantee s codec configs calm w' { w' with record := some bytes } ∧
          Ready s codec configs calm { w' with record := some bytes } record record :=
        ready_of_new hnone hposts hbytes (by rw [← hrecord]) hunconfirmed
      refine ⟨hnew.1, hnew.2.guarantee, ?_⟩
      rintro (e | _) _
      · exact fun _ h => nomatch h
      · rintro _ ⟨⟩
        exact ⟨hnew.2, hunconfirmed⟩

/-- One publisher, alone with the record: from any world it can find. -/
theorem publishLocked_spec (hcodec : codec.Rereads) (hconfig : config ∈ configs)
    (h : Inv s codec configs w) :
    Ends (Answers calm) (Guarantee s codec configs calm) (publishLocked s codec config root) () w
      fun _ _ _ => True := by
  have hw : Guarantee s codec configs calm w w := ⟨h, keeps_refl w⟩
  unfold publishLocked
  refine (load_spec hw).bind ?_ fun _ _ _ _ => trivial
  rintro (_ | record) _ w ⟨rfl, hloaded⟩
  · have hnone := hloaded _ rfl
    have hposts : w.posts = [] := by
      rcases h with ⟨_, hposts⟩ | ⟨disk, ⟨bytes, hsome, _⟩, _⟩
      · exact hposts
      · cases hnone.symm.trans hsome
    refine (prepareNew_spec hcodec hnone hposts).bind ?_ fun _ _ _ _ => trivial
    intro record _ w' hprepared
    obtain ⟨hready, hunconfirmed⟩ := hprepared record rfl
    exact pursue_spec hcodec hconfig hready hunconfirmed
  · have hdisk : OnDisk codec w record := hloaded _ rfl
    have hsound : Sound s configs w record := by
      rcases h with ⟨hnone, _⟩ | ⟨disk, hdisk', hsound⟩
      · obtain ⟨bytes, hsome, _⟩ := hdisk
        cases hnone.symm.trans hsome
      · exact hdisk.unique hdisk' ▸ hsound
    refine ends_orFail_bind ?_ fun _ _ => trivial
    intro _ _
    split
    next => exact ends_orFail_bind (fun _ _ => trivial) fun _ _ => trivial
    next hunconfirmed =>
      have hready : Ready s codec configs calm w record record :=
        ⟨hdisk, hsound, .refl record, Nat.le_refl _, hsound.attempts, hsound.evident, fun _ _ => rfl⟩
      exact pursue_spec hcodec hconfig hready (Bool.not_eq_true _ ▸ hunconfirmed)

end Publish

end Attest.Publication.Client
