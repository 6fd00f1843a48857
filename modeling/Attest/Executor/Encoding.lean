import Attest.Evidence.Linkage
import Attest.Executor.Artifacts
import Attest.Trust.DateText

/-! What a digest over labelled fields commits to.

`hashing::hash_field` writes the length of a label and of a value before each, so that a reader
takes the digits and then exactly that many bytes: fields in a row are told apart whatever is in
them. The content of a causal event and the key of a cache entry are such rows, with a count
before what may come more than once. `fields_determined` says what the three digests made of them
determine. -/
namespace Attest.Executor
open Library Library.Fallible Hashing Storage Evidence
open Trust (Bytes Crates utf8 hexEncode)

/-! ### Fields in a row -/

/-- What a sequence of calls of `hash_field` feeds to the hasher. -/
def fieldBytes (fields : List (String × Bytes)) : Bytes :=
  fields.flatMap fun field => hashField field.1 field.2

theorem selfDelimiting_hashField :
    SelfDelimiting fun field : String × Bytes => hashField field.1 field.2 := by
  intro ⟨label, value⟩ ⟨label', value'⟩ rest rest' h
  have hcolon : ∀ bytes, utf8 ":" ++ bytes = 58 :: bytes := by
    have hbyte : utf8 ":" = [58] := by decide +kernel
    intro bytes
    rw [hbyte]
    rfl
  have hlabel : label = label' := by
    dsimp only at h
    simp only [hashField, List.append_assoc, hcolon] at h
    obtain ⟨hsize, h⟩ := append_cons_inj (colon_notMem_digits _) (colon_notMem_digits _) h
    have hsize := Text.toString_nat_inj (Trust.utf8_injective hsize)
    rw [← Trust.length_utf8, ← Trust.length_utf8] at hsize
    exact Trust.utf8_injective (List.append_inj h hsize).1
  subst hlabel
  obtain ⟨rfl, hrest⟩ := hashField_append_inj h
  exact ⟨rfl, hrest⟩

/-- The bytes determine the calls. -/
theorem fieldBytes_injective : Function.Injective fieldBytes := by
  apply selfDelimiting_hashField.flatMap_injective
  intro field hnil
  have hlength := congrArg List.length hnil
  simp [hashField, Trust.length_utf8] at hlength

/-! ### The content of an event -/

/-- What the id of an event says of it. -/
structure SameEvent (event event' : CausalEvent) : Prop where
  stepName : event.stepName = event'.stepName
  inputHash : event.inputHash = event'.inputHash
  outputHash : event.outputHash = event'.outputHash
  pipelineHash : event.pipelineHash = event'.pipelineHash
  environmentHash : event.environmentHash = event'.environmentHash
  exitCode : event.exitCode = event'.exitCode
  timestampText : event.timestamp.toRfc3339 = event'.timestamp.toRfc3339
  timestamp : event.timestamp.Proper → event'.timestamp.Proper → event.timestamp = event'.timestamp
  causalParents : event.causalParents = event'.causalParents

theorem toString_int_inj {m n : Int} (h : toString m = toString n) : m = n := by
  have hsign : ∀ m n : Nat, toString (Int.ofNat m) ≠ toString (Int.negSucc n) := by
    intro m n heq
    have hminus : '-' ∈ (Nat.toDigits 10 m) := by
      have hlist := congrArg String.toList heq
      have hleft : (toString (Int.ofNat m)).toList = Nat.toDigits 10 m := String.toList_ofList
      have hright : (toString (Int.negSucc n)).toList = '-' :: (toString (n + 1)).toList := by
        show ("-" ++ toString (n + 1)).toList = _
        rw [String.toList_append]
        rfl
      rw [← hleft, hlist, hright]
      exact List.mem_cons_self
    exact absurd (Nat.isDigit_of_mem_toDigits (by decide) (by decide) hminus) (by decide)
  cases m with
  | ofNat m =>
    cases n with
    | ofNat n => rw [Text.toString_nat_inj h]
    | negSucc n => exact absurd h (hsign m n)
  | negSucc m =>
    cases n with
    | ofNat n => exact absurd h.symm (hsign n m)
    | negSucc n =>
      have hdigits : toString (m + 1) = toString (n + 1) := by
        have hlist := congrArg String.toList h
        have hshape : ∀ k : Nat, (toString (Int.negSucc k)).toList = '-' :: (toString (k + 1)).toList := by
          intro k
          show ("-" ++ toString (k + 1)).toList = _
          rw [String.toList_append]
          rfl
        rw [hshape, hshape] at hlist
        exact String.toList_inj.mp (List.cons.inj hlist).2
      rw [Nat.succ.inj (Text.toString_nat_inj hdigits)]

theorem sameEvent_of_fields {event event' : CausalEvent} (h : eventFields event = eventFields event') :
    SameEvent event event' := by
  simp only [eventFields, List.cons_append, List.nil_append, List.cons.injEq, Prod.mk.injEq,
    true_and] at h
  obtain ⟨hstep, hinput, houtput, hpipeline, henvironment, hexit, htimestamp, _, hparents⟩ := h
  have htext := Trust.utf8_injective htimestamp
  constructor
  · exact Trust.utf8_injective hstep
  · exact Trust.utf8_injective hinput
  · exact Trust.utf8_injective houtput
  · exact Trust.utf8_injective hpipeline
  · exact Trust.utf8_injective henvironment
  · exact toString_int_inj (Trust.utf8_injective hexit)
  · exact htext
  · intro hproper hproper'
    exact Trust.DateTime.toRfc3339_inj hproper hproper' htext
  · refine List.map_injective_iff.mpr ?_ hparents
    intro parent parent' heq
    exact Trust.utf8_injective (Prod.mk.inj heq).2

theorem length_chainBytes (c : Crates) (events : List CausalEvent) :
    (chainBytes c events).length = 32 * events.length := by
  induction events with
  | nil => rfl
  | cons event rest ih =>
    have hrest : (List.flatMap (eventContent c) rest).length = 32 * rest.length := ih
    rw [chainBytes, List.flatMap_cons, List.length_append, length_eventContent, hrest,
      List.length_cons]
    omega

/-! ### The key of a cache entry -/

section Key
variable {c : Crates}

/-- `compute_content_hash`. -/
def computeContentHash (c : Crates) (fs : FileSystem) (workspace : Path) (name command : String)
    (inputs : List Path) (env : SortedMap String String) (shape : String) :
    Except HashingError String := do
  let inputHash ← hashInputs c fs workspace name command inputs
  return contentHash c shape name inputHash env

/-- What a key is the digest of. -/
def keyText (shape name inputHash : String) (env : SortedMap String String) : Bytes :=
  utf8 "attest-cache-key/v4\n" ++ fieldBytes (keyFields shape name inputHash env)

theorem keyText_inj {shape shape' name name' inputHash inputHash' : String}
    {env env' : SortedMap String String}
    (h : keyText shape name inputHash env = keyText shape' name' inputHash' env') :
    shape = shape' ∧ name = name' ∧ inputHash = inputHash' ∧ env = env' := by
  have hfields := fieldBytes_injective (List.append_cancel_left h)
  simp only [keyFields, List.cons_append, List.nil_append, List.cons.injEq, Prod.mk.injEq,
    true_and] at hfields
  obtain ⟨hshape, hname, hinput, _, henv⟩ := hfields
  refine ⟨Trust.utf8_injective hshape, Trust.utf8_injective hname, Trust.utf8_injective hinput, ?_⟩
  apply SortedMap.ext_entries
  -- Each entry is a label and a value of its own.
  have hentries : ∀ entries entries' : List (String × String),
      (entries.flatMap fun entry => [("env-key", utf8 entry.1), ("env-value", utf8 entry.2)]) =
        (entries'.flatMap fun entry => [("env-key", utf8 entry.1), ("env-value", utf8 entry.2)]) →
      entries = entries' := by
    intro entries
    induction entries with
    | nil =>
      intro entries' heq
      cases entries' with
      | nil => rfl
      | cons entry rest => cases heq
    | cons entry rest ih =>
      intro entries' heq
      cases entries' with
      | nil => cases heq
      | cons entry' rest' =>
        simp only [List.flatMap_cons, List.cons_append, List.nil_append, List.cons.injEq,
          Prod.mk.injEq, true_and] at heq
        obtain ⟨hkey, hvalue, hrest⟩ := heq
        rw [ih rest' hrest,
          Prod.ext (Trust.utf8_injective hkey) (Trust.utf8_injective hvalue)]
  exact hentries _ _ henv

end Key

/-- **What the digests over fields determine.** Calls of `hash_field` in a row are read back from
the bytes they feed, whatever labels and values they have. So, where no two of the texts that are
hashed have one digest, one id is of one event with its parents in their order, one root is of
one sequence of contents, and one cache key is of one shape, one name, one manifest of the inputs
and one environment. -/
theorem fields_determined (c : Crates) :
    Function.Injective fieldBytes ∧
    (∀ event event' : CausalEvent,
      Set.InjOn c.blake3 {fieldBytes (eventFields event), fieldBytes (eventFields event'),
        eventContent c event, eventContent c event'} →
      eventIdOf c event = eventIdOf c event' → SameEvent event event') ∧
    (∀ events events' : List CausalEvent,
      Set.InjOn c.blake3 {chainBytes c events, chainBytes c events'} →
      chainHash c events = chainHash c events' →
        events.map (eventContent c) = events'.map (eventContent c)) ∧
    ∀ (fs fs' : FileSystem) (workspace workspace' : Path) (name name' command command' : String)
      (inputs inputs' : List Path) (env env' : SortedMap String String) (shape shape' key : String)
      (manifest manifest' : String),
      inputManifest c fs workspace name command inputs = .ok manifest →
      inputManifest c fs' workspace' name' command' inputs' = .ok manifest' →
      Set.InjOn c.blake3 {utf8 manifest, utf8 manifest',
        keyText shape name (hexEncode (c.blake3 (utf8 manifest)).toList) env,
        keyText shape' name' (hexEncode (c.blake3 (utf8 manifest')).toList) env'} →
      computeContentHash c fs workspace name command inputs env shape = .ok key →
      computeContentHash c fs' workspace' name' command' inputs' env' shape' = .ok key →
        shape = shape' ∧ name = name' ∧ manifest = manifest' ∧ env = env' := by
  refine ⟨fieldBytes_injective, ?_, ?_, ?_⟩
  · intro event event' hcollision hid
    have hcontent : eventContent c event = eventContent c event' :=
      digest_inj hcollision (by simp) (by simp) hid
    have hfields : fieldBytes (eventFields event) = fieldBytes (eventFields event') :=
      hcollision (by simp) (by simp) (Vector.toList_inj.mp hcontent)
    exact sameEvent_of_fields (fieldBytes_injective hfields)
  · intro events events' hcollision hroot
    have hbytes := chainBytes_of_chainHash hcollision hroot
    have hsame : events.length = events'.length := by
      have hle := congrArg List.length hbytes
      rw [length_chainBytes, length_chainBytes] at hle
      omega
    exact map_eventContent_of_chainBytes hsame hbytes
  · intro fs fs' workspace workspace' name name' command command' inputs inputs' env env' shape
      shape' key manifest manifest' hmanifest hmanifest' hcollision hkey hkey'
    have hhash : ∀ {fs workspace name command inputs manifest},
        inputManifest c fs workspace name command inputs = .ok manifest →
          hashInputs c fs workspace name command inputs =
            .ok (hexEncode (c.blake3 (utf8 manifest)).toList) := by
      intro fs workspace name command inputs manifest h
      exact except_bind_eq_ok.mpr ⟨manifest, h, rfl⟩
    obtain ⟨_, hinput, hkey⟩ := except_bind_eq_ok.mp hkey
    obtain ⟨_, hinput', hkey'⟩ := except_bind_eq_ok.mp hkey'
    rw [hhash hmanifest] at hinput
    rw [hhash hmanifest'] at hinput'
    cases hinput
    cases hinput'
    have hkeys := (Except.ok.inj hkey).trans (Except.ok.inj hkey').symm
    have htext : keyText shape name (hexEncode (c.blake3 (utf8 manifest)).toList) env =
        keyText shape' name' (hexEncode (c.blake3 (utf8 manifest')).toList) env' :=
      digest_inj hcollision (by simp) (by simp) hkeys
    obtain ⟨hshape, hname, hdigest, henv⟩ := keyText_inj htext
    have hbytes : utf8 manifest = utf8 manifest' := digest_inj hcollision (by simp) (by simp) hdigest
    exact ⟨hshape, hname, Trust.utf8_injective hbytes, henv⟩

/-! An event with other metadata has the same id, and a step has one key with and without a file
that it does not declare. -/

def notedEvent : CausalEvent := { fetchEvent with metadata := [("note", "x")] }

theorem eventFields_noted : eventFields notedEvent = eventFields fetchEvent := rfl

theorem eventContent_noted (c : Crates) : eventContent c notedEvent = eventContent c fetchEvent := by
  unfold eventContent
  rw [eventFields_noted]

theorem injOn_noted : Set.InjOn linkedCrates.blake3
    {fieldBytes (eventFields notedEvent), fieldBytes (eventFields fetchEvent),
      eventContent linkedCrates notedEvent, eventContent linkedCrates fetchEvent} := by
  have hne : linkedCrates.blake3 (eventPreimage fetchEvent) ≠
      linkedCrates.blake3 fetchContent.toList := by
    decide +kernel
  rw [eventFields_noted, eventContent_noted, linked_hashes.1]
  refine injOn_of_pair ?_ hne
  intro bytes hbytes
  rcases hbytes with h | h | h | h
  · exact .inl h
  · exact .inl h
  · exact .inr h
  · exact .inr h

theorem manifest_ofA {names : List Name} :
    inputManifest cratesOfA (filesOfX names) (.ofString "/w") "build" "true" [] =
      .ok (inputText digestTrue .empty) := by
  have htrue : cratesOfA.blake3 (utf8 "true") = digestTrue := by decide +kernel
  unfold inputManifest
  rw [htrue]
  rfl

theorem inputHash_ofA :
    hexEncode (cratesOfA.blake3 (utf8 (inputText digestTrue .empty))).toList = inputHashOfA := by
  decide +kernel

theorem key_ofA {names : List Name} :
    computeContentHash cratesOfA (filesOfX names) (.ofString "/w") "build" "true" []
      (stepEnv localConfig pipelineOfA "build" stepOfA none) shapeOfA = .ok keyOfA := by
  refine except_bind_eq_ok.mpr ⟨inputHashOfA, ?_, congrArg Except.ok contentHash_ofA⟩
  refine except_bind_eq_ok.mpr ⟨_, manifest_ofA, ?_⟩
  exact congrArg Except.ok inputHash_ofA

theorem injOn_ofA : Set.InjOn cratesOfA.blake3
    {utf8 (inputText digestTrue .empty), utf8 (inputText digestTrue .empty),
      keyText shapeOfA "build" (hexEncode (cratesOfA.blake3 (utf8 (inputText digestTrue .empty))).toList)
        (stepEnv localConfig pipelineOfA "build" stepOfA none),
      keyText shapeOfA "build" (hexEncode (cratesOfA.blake3 (utf8 (inputText digestTrue .empty))).toList)
        (stepEnv localConfig pipelineOfA "build" stepOfA none)} := by
  have hne : cratesOfA.blake3 (utf8 (inputText digestTrue .empty)) ≠ cratesOfA.blake3 keyTextOfA := by
    decide +kernel
  rw [inputHash_ofA]
  refine injOn_of_pair ?_ hne
  intro bytes hbytes
  rcases hbytes with h | h | h | h
  · exact .inl h
  · exact .inl h
  · exact .inr h
  · exact .inr h

theorem fields_determined_samples :
    SameEvent notedEvent fetchEvent ∧
    [notedEvent].map (eventContent linkedCrates) = [fetchEvent].map (eventContent linkedCrates) ∧
    shapeOfA = shapeOfA ∧ "build" = "build" ∧
      inputText digestTrue .empty = inputText digestTrue .empty ∧
      stepEnv localConfig pipelineOfA "build" stepOfA none =
        stepEnv localConfig pipelineOfA "build" stepOfA none := by
  have hsame : chainBytes linkedCrates [notedEvent] = chainBytes linkedCrates [fetchEvent] := by
    rw [chainBytes, chainBytes, List.flatMap_singleton, List.flatMap_singleton, eventContent_noted]
  have hchain : Set.InjOn linkedCrates.blake3
      {chainBytes linkedCrates [notedEvent], chainBytes linkedCrates [fetchEvent]} := by
    rw [hsame, Set.pair_eq_singleton]
    exact Set.injOn_singleton _ _
  refine ⟨?_, ?_, ?_⟩
  · refine (fields_determined linkedCrates).2.1 notedEvent fetchEvent injOn_noted ?_
    rw [eventIdOf, eventIdOf, eventContent_noted]
  · refine (fields_determined linkedCrates).2.2.1 [notedEvent] [fetchEvent] hchain ?_
    rw [chainHash, chainHash, hsame]
  · exact (fields_determined cratesOfA).2.2.2 (filesOfX [nameA]) (filesOfX [nameA, nameB])
      (.ofString "/w") (.ofString "/w") "build" "build" "true" "true" [] [] _ _ shapeOfA shapeOfA keyOfA
      _ _ manifest_ofA manifest_ofA injOn_ofA key_ofA key_ofA

end Attest.Executor
