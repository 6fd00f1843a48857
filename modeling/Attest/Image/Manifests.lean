import Attest.Image.SupplyChain
import Attest.Library.Words

/-! What the receipts of images are hashed from, after `crypto/image_signing.rs` and
`crypto/supply_chain.rs`.

Both texts put what a request says on lines of their own. The image says itself where it ends; the
other parts may hold line breaks, and then what looks like another line is part of one.
`manifests_identify` says which requests can be told from their texts. -/
namespace Attest.Image
open Library Library.Fallible Library.Text Library.StableSort Library.Words
open Trust (isLowerHexDigit)

/-! ### The texts -/

/-- The line of what a request may leave out. -/
def optionalLine (name : String) : Option String → String
  | some text => name ++ text ++ "\n"
  | none => ""

def verificationInputManifest (request : SupplyChainRequest) : String :=
  String.join [
    "attest-image-verify/v1\n",
    "image:" ++ request.imageRef ++ "\n",
    "require-sbom:" ++ toString request.requireSbom ++ "\n",
    "require-provenance:" ++ toString request.requireProvenance ++ "\n",
    optionalLine "expected-revision:" request.expectedRevision,
    optionalLine "key:" request.keyUri,
    optionalLine "certificate-identity:" (request.identity.map Prod.fst),
    optionalLine "certificate-oidc-issuer:" (request.identity.map Prod.snd)]

/-- What a line begins with, behind the line break. -/
def line (text : String) : List Char := '\n' :: text.toList

def annotationWord : List Char := line "annotation:"

def permissionLine : List Char := line "allow-file-key:true"

def identityWord : List Char := line "certificate-identity:"

def issuerWord : List Char := line "certificate-oidc-issuer:"

/-! ### The image -/

theorem image_cut {image image' : String} {rest rest' : List Char}
    (h : validateDigestRef image = .ok ()) (h' : validateDigestRef image' = .ok ())
    (hsame : image.toList ++ rest = image'.toList ++ rest') : image = image' ∧ rest = rest' := by
  obtain ⟨repo, digest, himage, hrepo, -, hdigest⟩ := validateDigestRef_ok.mp h
  obtain ⟨repo', digest', himage', hrepo', -, hdigest'⟩ := validateDigestRef_ok.mp h'
  obtain ⟨hex, rfl, hlength, -⟩ := isDigestText_iff.mp hdigest
  obtain ⟨hex', rfl, hlength', -⟩ := isDigestText_iff.mp hdigest'
  rw [himage, himage', List.append_assoc, List.append_assoc, List.cons_append,
    List.cons_append] at hsame
  have hcut := congrArg (splitOnce '@') hsame
  rw [splitOnce_append hrepo, splitOnce_append hrepo', Option.some_inj, Prod.mk.injEq] at hcut
  obtain ⟨rfl, hafter⟩ := hcut
  obtain ⟨hdigests, rfl⟩ := List.append_inj hafter (by simp [hlength, hlength'])
  exact ⟨String.toList_inj.mp (by rw [himage, himage', hdigests]), rfl⟩

/-! ### Signing -/

/-- An annotation as it is written behind its word. -/
def segment (a : Annotation) : List Char := a.1.toList ++ '=' :: a.2.toList

/-- The key, and whether a file is allowed. -/
def keyText (keyUri : String) (allowFileKey : Bool) : List Char :=
  keyUri.toList ++ if allowFileKey then permissionLine else []

theorem toList_newline : "\n".toList = ['\n'] := by decide

theorem toList_annotations (annotations : List Annotation) (start : String) :
    (annotations.foldl (fun manifest a =>
      manifest ++ ("annotation:" ++ a.1 ++ "=" ++ a.2 ++ "\n")) start).toList =
      start.toList ++ annotations.flatMap fun a => "annotation:".toList ++ (segment a ++ ['\n']) := by
  have hequals : "=".toList = ['='] := by decide
  induction annotations generalizing start with
  | nil => rw [List.foldl_nil, List.flatMap_nil, List.append_nil]
  | cons a rest ih =>
    rw [List.foldl_cons, ih, List.flatMap_cons]
    simp only [String.toList_append, List.append_assoc, segment, hequals, toList_newline,
      List.cons_append, List.nil_append]

/-- A line break may stand in front of each line or behind it. -/
theorem newline_lines (segments : List (List Char)) :
    '\n' :: segments.flatMap (fun s => "annotation:".toList ++ (s ++ ['\n'])) =
      segments.flatMap (annotationWord ++ ·) ++ ['\n'] := by
  induction segments with
  | nil => rfl
  | cons s rest ih =>
    rw [List.flatMap_cons, List.flatMap_cons, List.append_assoc, List.append_assoc,
      List.append_assoc, ← ih, annotationWord, line, List.cons_append]
    rfl

theorem toList_signingInputManifest (request : ImageSignRequest) (annotations : List Annotation) :
    (signingInputManifest request annotations).toList =
      "attest-image-sign/v1".toList ++ (line "image:" ++ (request.imageRef.toList ++
        (line "key:" ++ (join annotationWord (keyText request.keyUri request.allowFileKey)
          (annotations.map segment) ++ ['\n'])))) := by
  have hlines := newline_lines (annotations.map segment)
  rw [List.flatMap_map] at hlines
  have hfirst : "attest-image-sign/v1\n".toList = "attest-image-sign/v1".toList ++ ['\n'] := by decide
  have hpermission : "allow-file-key:true\n".toList = "allow-file-key:true".toList ++ ['\n'] := by decide
  rw [signingInputManifest, toList_annotations, join, List.append_assoc, ← hlines]
  cases hallow : request.allowFileKey with
  | false =>
    simp only [keyText, line, String.toList_append, List.append_assoc, String.toList_empty, hfirst,
      toList_newline, List.cons_append, List.nil_append, if_false, Bool.false_eq_true]
  | true =>
    simp only [keyText, line, permissionLine, String.toList_append, List.append_assoc, hfirst,
      hpermission, toList_newline, List.cons_append, List.nil_append, if_true]

/-- A request of which no part holds what another line would begin with. -/
structure ImageSignRequest.Plain (request : ImageSignRequest) : Prop where
  key : ¬ annotationWord <:+: request.keyUri.toList
  permission : request.allowFileKey = false → ¬ permissionLine <:+ request.keyUri.toList
  name : ∀ a ∈ request.annotations, '=' ∉ a.1.toList
  annotation : ∀ a ∈ request.annotations,
    ¬ annotationWord <:+: a.1.toList ∧ ¬ annotationWord <:+: a.2.toList

theorem segment_inj {a a' : Annotation} (h : '=' ∉ a.1.toList) (h' : '=' ∉ a'.1.toList)
    (hsame : segment a = segment a') : a = a' := by
  have hcut := congrArg (splitOnce '=') hsame
  rw [segment, segment, splitOnce_append h, splitOnce_append h', Option.some_inj,
    Prod.mk.injEq] at hcut
  exact Prod.ext (String.toList_inj.mp hcut.1) (String.toList_inj.mp hcut.2)

theorem segments_inj {annotations annotations' : List Annotation}
    (h : ∀ a ∈ annotations, '=' ∉ a.1.toList) (h' : ∀ a ∈ annotations', '=' ∉ a.1.toList)
    (hsame : annotations.map segment = annotations'.map segment) : annotations = annotations' := by
  induction annotations generalizing annotations' with
  | nil => simpa [eq_comm] using hsame
  | cons a rest ih =>
    cases annotations' with
    | nil => cases hsame
    | cons a' rest' =>
      rw [List.forall_mem_cons] at h h'
      rw [List.map_cons, List.map_cons, List.cons.injEq] at hsame
      rw [segment_inj h.1 h'.1 hsame.1, ih h.2 h'.2 hsame.2]

theorem keyText_inj {request request' : ImageSignRequest} (h : request.Plain) (h' : request'.Plain)
    (hsame : keyText request.keyUri request.allowFileKey =
      keyText request'.keyUri request'.allowFileKey) :
    request.keyUri = request'.keyUri ∧ request.allowFileKey = request'.allowFileKey := by
  cases hallow : request.allowFileKey with
  | false =>
    cases hallow' : request'.allowFileKey with
    | false =>
      simp only [keyText, hallow, hallow', Bool.false_eq_true, if_false, List.append_nil] at hsame
      exact ⟨String.toList_inj.mp hsame, rfl⟩
    | true =>
      simp only [keyText, hallow, hallow', Bool.false_eq_true, if_false, if_true,
        List.append_nil] at hsame
      exact absurd ⟨_, hsame.symm⟩ (h.permission hallow)
  | true =>
    cases hallow' : request'.allowFileKey with
    | false =>
      simp only [keyText, hallow, hallow', Bool.false_eq_true, if_false, if_true,
        List.append_nil] at hsame
      exact absurd ⟨_, hsame⟩ (h'.permission hallow')
    | true =>
      simp only [keyText, hallow, hallow', if_true] at hsame
      exact ⟨String.toList_inj.mp (List.append_cancel_right hsame), rfl⟩

theorem newline_notMem : '\n' ∉ "annotation:".toList := by decide

theorem endsAt_keyText {request : ImageSignRequest} (h : request.Plain) :
    EndsAt annotationWord (keyText request.keyUri request.allowFileKey) := by
  refine endsAt_of_not_in newline_notMem ?_
  rw [keyText]
  split
  · have hline : ¬ line "annotation:" <:+: line "allow-file-key:true" := by decide
    exact not_infix_append newline_notMem h.key hline
  · rw [List.append_nil]
    exact h.key

theorem endsAt_segment {a : Annotation} (hname : ¬ annotationWord <:+: a.1.toList)
    (hvalue : ¬ annotationWord <:+: a.2.toList) : EndsAt annotationWord (segment a) := by
  have hequals : '=' ∉ "annotation:".toList := by decide
  refine endsAt_of_not_in newline_notMem (not_infix_append hequals hname ?_)
  intro h
  rcases List.infix_cons_iff.mp h with hprefix | hvalue'
  · exact absurd (List.cons_prefix_cons.mp hprefix).1 (by decide)
  · exact hvalue hvalue'

theorem not_infix_line {text : String} {a : List Char} (h : '\n' ∉ a) : ¬ line text <:+: a :=
  fun hline => h (hline.subset List.mem_cons_self)

theorem newline_notMem_revision {revision : String} (h : validateRevision revision = .ok ()) :
    '\n' ∉ revision.toList := by
  intro hmem
  have hvalid := refuseIf_eq_ok.mp h
  rw [Bool.not_eq_false, isRevision, Bool.and_eq_true] at hvalid
  exact absurd (List.all_eq_true.mp hvalid.2 _ hmem) (by decide)

theorem mem_withRevision {host : Host} {annotations stated : List Annotation} {revision : String}
    {a : Annotation} (h : withRevision host annotations = .ok (stated, revision)) (ha : a ∈ stated) :
    a ∈ annotations ∨ a = (revisionAnnotationKey, revision) := by
  rw [withRevision] at h
  split at h
  · cases h
    exact Or.inl ha
  · obtain ⟨head, -, h⟩ := except_bind_eq_ok.mp h
    cases h
    simpa using ha

/-- The revision that is put among the annotations is as plain as they are. -/
theorem plain_prepared {host : Host} {request : ImageSignRequest} {prepared : Prepared}
    (hprepared : prepare host request = .ok prepared) (h : request.Plain) {a : Annotation}
    (ha : a ∈ prepared.annotations) :
    '=' ∉ a.1.toList ∧ EndsAt annotationWord (segment a) := by
  obtain ⟨-, -, hrevision, stated, hstated, hsorted⟩ := prepare_ok hprepared
  rw [hsorted] at ha
  rcases mem_withRevision hstated ((perm_sorted stated).mem_iff.mp ha) with hmem | rfl
  · have hplain := h.annotation a hmem
    exact ⟨h.name a hmem, endsAt_segment hplain.1 hplain.2⟩
  · have hequals : '=' ∉ revisionAnnotationKey.toList := by decide
    have hname : '\n' ∉ revisionAnnotationKey.toList := by decide
    exact ⟨hequals, endsAt_segment (not_infix_line hname)
      (not_infix_line (newline_notMem_revision hrevision))⟩

theorem signingInputManifest_inj {host host' : Host} {request request' : ImageSignRequest}
    {prepared prepared' : Prepared} (hprepared : prepare host request = .ok prepared)
    (hprepared' : prepare host' request' = .ok prepared') (h : request.Plain) (h' : request'.Plain)
    (hsame : signingInputManifest request prepared.annotations =
      signingInputManifest request' prepared'.annotations) :
    request.imageRef = request'.imageRef ∧ request.keyUri = request'.keyUri ∧
      request.allowFileKey = request'.allowFileKey ∧
      prepared.annotations = prepared'.annotations := by
  have htexts := congrArg String.toList hsame
  rw [toList_signingInputManifest, toList_signingInputManifest] at htexts
  have hbehind := List.append_cancel_left (List.append_cancel_left htexts)
  obtain ⟨himage, hbehind⟩ :=
    image_cut (prepare_ok hprepared).1 (prepare_ok hprepared').1 hbehind
  have hjoined := List.append_cancel_right (List.append_cancel_left hbehind)
  have hends {host : Host} {request : ImageSignRequest} {prepared : Prepared}
      (hprepared : prepare host request = .ok prepared) (h : request.Plain) :
      ∀ part ∈ keyText request.keyUri request.allowFileKey :: prepared.annotations.map segment,
        EndsAt annotationWord part := by
    rw [List.forall_mem_cons, List.forall_mem_map]
    exact ⟨endsAt_keyText h, fun a ha => (plain_prepared hprepared h ha).2⟩
  obtain ⟨hkey, hsegments⟩ :=
    join_inj (List.cons_ne_nil _ _) (hends hprepared h) (hends hprepared' h') hjoined
  obtain ⟨hkey, hpermission⟩ := keyText_inj h h' hkey
  refine ⟨himage, hkey, hpermission, segments_inj ?_ ?_ hsegments⟩
  · intro a ha
    exact (plain_prepared hprepared h ha).1
  · intro a ha
    exact (plain_prepared hprepared' h' ha).1

/-- The permission of a key in the vault is read as the end of the key as well. -/
theorem permission_twin {host : Host} {request : ImageSignRequest} {prepared : Prepared}
    (h : prepare host request = .ok prepared)
    (hkms : kmsScheme.isPrefixOf request.keyUri.toList = true)
    (hallow : request.allowFileKey = true) :
    ∃ request' : ImageSignRequest, request'.keyUri ≠ request.keyUri ∧
      prepare host request' = .ok prepared ∧
      signingInputManifest request' prepared.annotations =
        signingInputManifest request prepared.annotations := by
  refine ⟨{ request with
    keyUri := request.keyUri ++ String.ofList permissionLine, allowFileKey := false }, ?_, ?_, ?_⟩
  · intro hsame
    have hlength := congrArg (List.length ∘ String.toList) hsame
    simp [permissionLine, line] at hlength
  · have hkey : validateKeyUri request.keyUri request.allowFileKey = .ok () :=
      refuseIf_eq_ok.mpr (by simp [hkms])
    have hkey' : validateKeyUri (request.keyUri ++ String.ofList permissionLine) false = .ok () := by
      obtain ⟨rest, hrest⟩ := List.isPrefixOf_iff_prefix.mp hkms
      have hfront : kmsScheme.isPrefixOf
          (request.keyUri ++ String.ofList permissionLine).toList = true := by
        rw [String.toList_append, ← hrest, List.append_assoc]
        exact List.isPrefixOf_iff_prefix.mpr (List.prefix_append _ _)
      refine refuseIf_eq_ok.mpr ?_
      intro hrefused
      rw [hfront] at hrefused
      cases hrefused.1
    rw [prepare, hkey] at h
    rw [prepare, hkey']
    exact h
  · refine String.toList_inj.mp ?_
    rw [toList_signingInputManifest, toList_signingInputManifest, keyText, keyText, hallow]
    simp only [String.toList_append, String.toList_ofList, if_true, if_false, Bool.false_eq_true,
      List.append_nil]

/-! ### Verification -/

/-- The key and the identity as they are written, up to the last line break. -/
def signerText : Option String → Option (String × String) → List Char
  | none, none => []
  | some key, none => "key:".toList ++ (key.toList ++ ['\n'])
  | none, some (identity, issuer) =>
    "certificate-identity:".toList ++ (identity.toList ++ (issuerWord ++ (issuer.toList ++ ['\n'])))
  | some key, some (identity, issuer) =>
    "key:".toList ++ (key.toList ++ (identityWord ++ (identity.toList ++ (issuerWord ++
      (issuer.toList ++ ['\n'])))))

theorem signerText_none : signerText none none = [] := rfl

theorem signerText_key (key : String) :
    signerText (some key) none = "key:".toList ++ (key.toList ++ ['\n']) := rfl

theorem signerText_identity (identity issuer : String) :
    signerText none (some (identity, issuer)) = "certificate-identity:".toList ++
      (identity.toList ++ (issuerWord ++ (issuer.toList ++ ['\n']))) := rfl

theorem signerText_both (key identity issuer : String) :
    signerText (some key) (some (identity, issuer)) = "key:".toList ++ (key.toList ++
      (identityWord ++ (identity.toList ++ (issuerWord ++ (issuer.toList ++ ['\n']))))) := rfl

def revisionText : Option String → List Char
  | some revision => "expected-revision:".toList ++ (revision.toList ++ ['\n'])
  | none => []

theorem toList_some (name text : String) :
    (optionalLine name (some text)).toList = name.toList ++ (text.toList ++ ['\n']) := by
  rw [optionalLine, String.toList_append, String.toList_append, toList_newline, List.append_assoc]

theorem toList_none (name : String) : (optionalLine name none).toList = [] := by
  rw [optionalLine, String.toList_empty]

theorem revisionText_eq (revision : Option String) :
    (optionalLine "expected-revision:" revision).toList = revisionText revision := by
  cases revision with
  | none => exact toList_none _
  | some revision => exact toList_some _ _

theorem signerText_eq (key : Option String) (identity : Option (String × String)) :
    (optionalLine "key:" key).toList ++
      ((optionalLine "certificate-identity:" (identity.map Prod.fst)).toList ++
        (optionalLine "certificate-oidc-issuer:" (identity.map Prod.snd)).toList) =
      signerText key identity := by
  cases key with
  | none =>
    cases identity with
    | none =>
      rw [Option.map_none, Option.map_none, toList_none, toList_none, toList_none, signerText_none,
        List.append_nil, List.append_nil]
    | some pinned =>
      rw [Option.map_some, Option.map_some, toList_none, toList_some, toList_some,
        signerText_identity, issuerWord, line]
      simp only [List.append_assoc, List.cons_append, List.nil_append]
  | some key =>
    cases identity with
    | none =>
      rw [Option.map_none, Option.map_none, toList_none, toList_none, toList_some, signerText_key,
        List.append_nil, List.append_nil]
    | some pinned =>
      rw [Option.map_some, Option.map_some, toList_some, toList_some, toList_some, signerText_both,
        identityWord, issuerWord, line, line]
      simp only [List.append_assoc, List.cons_append, List.nil_append]

theorem toList_verificationInputManifest (request : SupplyChainRequest) :
    (verificationInputManifest request).toList =
      "attest-image-verify/v1".toList ++ (line "image:" ++ (request.imageRef.toList ++
        (line "require-sbom:" ++ ((toString request.requireSbom).toList ++
          (line "require-provenance:" ++ ((toString request.requireProvenance).toList ++
            '\n' :: (revisionText request.expectedRevision ++
              signerText request.keyUri request.identity))))))) := by
  have hfirst : "attest-image-verify/v1\n".toList = "attest-image-verify/v1".toList ++ ['\n'] := by
    decide
  rw [verificationInputManifest, String.toList_join, ← revisionText_eq, ← signerText_eq]
  simp only [List.flatMap_cons, List.flatMap_nil, List.append_nil, hfirst, String.toList_append,
    toList_newline, line, List.append_assoc, List.cons_append, List.nil_append]

/-- The parts that a text of a signer is put together from can be read in no other way. -/
def Unambiguous : Option String → Option (String × String) → Prop
  | none, none => True
  | some key, none => ∀ a b c, key.toList ≠ a ++ (identityWord ++ (b ++ (issuerWord ++ c)))
  | none, some (identity, issuer) =>
    ¬ issuerWord <:+: identity.toList ∧ ¬ issuerWord <:+: issuer.toList
  | some _, some _ => False

theorem newline_notMem_issuer : '\n' ∉ "certificate-oidc-issuer:".toList := by decide

/-- Which of the two begins a text tells whether there is a key. -/
theorem head?_signerText (key : Option String) (identity : Option (String × String)) :
    (signerText key identity).head? =
      if key.isSome then some 'k' else if identity.isSome then some 'c' else none := by
  have hkey : "key:".toList = ['k', 'e', 'y', ':'] := by decide
  have hidentity : "certificate-identity:".toList = 'c' :: "ertificate-identity:".toList := by decide
  cases key with
  | none =>
    cases identity with
    | none => rw [signerText_none]; rfl
    | some pinned => rw [signerText_identity, hidentity]; rfl
  | some key =>
    cases identity with
    | none => rw [signerText_key, hkey]; rfl
    | some pinned => rw [signerText_both, hkey]; rfl

theorem signerText_inj {key key' : Option String} {identity identity' : Option (String × String)}
    (h : Unambiguous key identity) (hsame : signerText key' identity' = signerText key identity) :
    key' = key ∧ identity' = identity := by
  have hhead := congrArg List.head? hsame
  rw [head?_signerText, head?_signerText] at hhead
  cases key with
  | none =>
    cases key' with
    | some key' =>
      cases identity with
      | none => simp at hhead
      | some pinned => simp at hhead
    | none =>
      cases identity with
      | none =>
        cases identity' with
        | none => exact ⟨rfl, rfl⟩
        | some pinned' => simp at hhead
      | some pinned =>
        cases identity' with
        | none => simp at hhead
        | some pinned' =>
          obtain ⟨identity, issuer⟩ := pinned
          obtain ⟨identity', issuer'⟩ := pinned'
          rw [signerText_identity, signerText_identity] at hsame
          have htexts := List.append_cancel_left hsame
          rw [← List.append_assoc issuerWord, ← List.append_assoc issuerWord, ← List.append_assoc,
            ← List.append_assoc, ← List.append_assoc, ← List.append_assoc] at htexts
          have hcut := cut_unique_of_not_in newline_notMem_issuer h.1 h.2
            (List.append_cancel_right htexts)
          rw [String.toList_inj.mp hcut.1, String.toList_inj.mp hcut.2]
          exact ⟨rfl, rfl⟩
  | some key =>
    cases identity with
    | some pinned => exact absurd h id
    | none =>
      cases key' with
      | none =>
        cases identity' with
        | none => simp at hhead
        | some pinned' => simp at hhead
      | some key' =>
        cases identity' with
        | none =>
          rw [signerText_key, signerText_key] at hsame
          have hkeys := List.append_cancel_right (List.append_cancel_left hsame)
          rw [String.toList_inj.mp hkeys]
          exact ⟨rfl, rfl⟩
        | some pinned' =>
          obtain ⟨identity', issuer'⟩ := pinned'
          rw [signerText_both, signerText_key] at hsame
          have htexts := List.append_cancel_left hsame
          simp only [← List.append_assoc] at htexts
          have hkey := List.append_cancel_right htexts
          simp only [List.append_assoc] at hkey
          exact absurd hkey.symm (h _ _ _)

theorem length_around (front back : List Char) :
    front.length < (front ++ issuerWord ++ back).length ∧
      back.length < (front ++ issuerWord ++ back).length := by
  simp only [issuerWord, line, List.length_append, List.length_cons]
  omega

/-- Where the parts can be read in another way, that is another signer with the same text. -/
theorem unambiguous_of_inj {key : Option String} {identity : Option (String × String)}
    (h : ∀ key' identity', signerText key' identity' = signerText key identity →
      key' = key ∧ identity' = identity) : Unambiguous key identity := by
  cases key with
  | none =>
    cases identity with
    | none => trivial
    | some pinned =>
      obtain ⟨identity, issuer⟩ := pinned
      constructor
      · intro hinfix
        obtain ⟨front, back, hidentity⟩ := hinfix
        have htwin := h none
          (some (String.ofList front, String.ofList (back ++ (issuerWord ++ issuer.toList)))) (by
            rw [signerText_identity, signerText_identity, ← hidentity]
            simp only [String.toList_ofList, List.append_assoc])
        have hfront := congrArg String.toList (Prod.mk.inj (Option.some_inj.mp htwin.2)).1
        rw [String.toList_ofList, ← hidentity] at hfront
        exact absurd (congrArg List.length hfront) (Nat.ne_of_lt (length_around front back).1)
      · intro hinfix
        obtain ⟨front, back, hissuer⟩ := hinfix
        have htwin := h none
          (some (String.ofList (identity.toList ++ (issuerWord ++ front)), String.ofList back)) (by
            rw [signerText_identity, signerText_identity, ← hissuer]
            simp only [String.toList_ofList, List.append_assoc])
        have hback := congrArg String.toList (Prod.mk.inj (Option.some_inj.mp htwin.2)).2
        rw [String.toList_ofList, ← hissuer] at hback
        exact absurd (congrArg List.length hback) (Nat.ne_of_lt (length_around front back).2)
  | some key =>
    cases identity with
    | none =>
      intro a b c hkey
      have htwin := h (some (String.ofList a)) (some (String.ofList b, String.ofList c)) (by
        rw [signerText_both, signerText_key, hkey]
        simp only [String.toList_ofList, List.append_assoc])
      exact absurd htwin.2 (by simp)
    | some pinned =>
      obtain ⟨identity, issuer⟩ := pinned
      have htwin := h (some (String.ofList (key.toList ++ (identityWord ++ (identity.toList ++
        (issuerWord ++ issuer.toList)))))) none (by
          rw [signerText_both, signerText_key]
          simp only [String.toList_ofList, List.append_assoc])
      exact absurd htwin.2 (by simp)

/-! ### The request behind a text -/

theorem bool_cut {b b' : Bool} {rest rest' : List Char}
    (h : (toString b).toList ++ rest = (toString b').toList ++ rest') : b = b' ∧ rest = rest' := by
  have hfalse : (toString false).toList = ['f', 'a', 'l', 's', 'e'] := by decide
  have htrue : (toString true).toList = ['t', 'r', 'u', 'e'] := by decide
  cases b <;> cases b' <;> simp_all

theorem revisionText_some (revision : String) :
    revisionText (some revision) = "expected-revision:".toList ++ (revision.toList ++ ['\n']) := rfl

theorem revisionText_append (revision : String) (rest : List Char) :
    revisionText (some revision) ++ rest =
      "expected-revision:".toList ++ (revision.toList ++ '\n' :: rest) := by
  rw [revisionText_some, List.append_assoc, List.append_assoc, List.singleton_append]

theorem revisionText_ne (revision : String) (rest : List Char) (key : Option String)
    (identity : Option (String × String)) :
    signerText key identity ≠ revisionText (some revision) ++ rest := by
  have hname : "expected-revision:".toList = 'e' :: "xpected-revision:".toList := by decide
  intro hsame
  have hhead := congrArg List.head? hsame
  rw [head?_signerText, revisionText_append, hname, List.cons_append, List.head?_cons] at hhead
  split at hhead
  · cases hhead
  · split at hhead <;> cases hhead

theorem revision_cut {revision revision' key key' : Option String}
    {identity identity' : Option (String × String)}
    (h : ∀ r, revision = some r → '\n' ∉ r.toList) (h' : ∀ r, revision' = some r → '\n' ∉ r.toList)
    (hsame : revisionText revision ++ signerText key identity =
      revisionText revision' ++ signerText key' identity') :
    revision = revision' ∧ signerText key identity = signerText key' identity' := by
  cases revision with
  | none =>
    cases revision' with
    | none => exact ⟨rfl, hsame⟩
    | some revision' => exact absurd hsame (revisionText_ne revision' _ key identity)
  | some revision =>
    cases revision' with
    | none => exact absurd hsame.symm (revisionText_ne revision _ key' identity')
    | some revision' =>
      rw [revisionText_append, revisionText_append] at hsame
      have hcut := congrArg (splitOnce '\n') (List.append_cancel_left hsame)
      rw [splitOnce_append (h revision rfl), splitOnce_append (h' revision' rfl), Option.some_inj,
        Prod.mk.injEq] at hcut
      exact ⟨congrArg some (String.toList_inj.mp hcut.1), hcut.2⟩

/-- Two requests that ask for the same. -/
structure SupplyChainRequest.Same (request request' : SupplyChainRequest) : Prop where
  imageRef : request'.imageRef = request.imageRef
  requireSbom : request'.requireSbom = request.requireSbom
  requireProvenance : request'.requireProvenance = request.requireProvenance
  expectedRevision : request'.expectedRevision = request.expectedRevision
  keyUri : request'.keyUri = request.keyUri
  identity : request'.identity = request.identity

/-- No other request that is accepted has the text of this one. -/
def SupplyChainRequest.Identified (request : SupplyChainRequest) : Prop :=
  ∀ request' : SupplyChainRequest, validateRequest request' = .ok () →
    verificationInputManifest request' = verificationInputManifest request → request.Same request'

theorem newline_notMem_expected {request : SupplyChainRequest}
    (h : validateRequest request = .ok ()) {revision : String}
    (hexpected : request.expectedRevision = some revision) : '\n' ∉ revision.toList := by
  obtain ⟨_, -, h⟩ := except_bind_eq_ok.mp h
  rw [hexpected] at h
  exact newline_notMem_revision h

/-- A request for the same with another signer, of which the identity is given as a whole. -/
def SupplyChainRequest.withSigner (request : SupplyChainRequest) (key : Option String)
    (identity : Option (String × String)) : SupplyChainRequest :=
  { request with
    keyUri := key
    certificateIdentity := identity.map Prod.fst
    certificateOidcIssuer := identity.map Prod.snd }

theorem identity_withSigner (request : SupplyChainRequest) (key : Option String)
    (identity : Option (String × String)) : (request.withSigner key identity).identity = identity := by
  cases identity with
  | none => rfl
  | some pinned => rfl

theorem identified_iff {request : SupplyChainRequest} (h : validateRequest request = .ok ()) :
    request.Identified ↔ Unambiguous request.keyUri request.identity := by
  constructor
  · intro hidentified
    refine unambiguous_of_inj ?_
    intro key' identity' hsame
    have htwin := hidentified (request.withSigner key' identity') h (by
      refine String.toList_inj.mp ?_
      rw [toList_verificationInputManifest, toList_verificationInputManifest, identity_withSigner,
        ← hsame]
      rfl)
    exact ⟨htwin.keyUri, identity_withSigner request key' identity' ▸ htwin.identity⟩
  · intro hunambiguous request' h' hsame
    have htexts := congrArg String.toList hsame
    rw [toList_verificationInputManifest, toList_verificationInputManifest] at htexts
    obtain ⟨_, himage, -⟩ := except_bind_eq_ok.mp h
    obtain ⟨_, himage', -⟩ := except_bind_eq_ok.mp h'
    obtain ⟨himage, htexts⟩ := image_cut himage' himage
      (List.append_cancel_left (List.append_cancel_left htexts))
    obtain ⟨hsbom, htexts⟩ := bool_cut (List.append_cancel_left htexts)
    obtain ⟨hprovenance, htexts⟩ := bool_cut (List.append_cancel_left htexts)
    obtain ⟨hrevision, htexts⟩ := revision_cut (fun _ => newline_notMem_expected h')
      (fun _ => newline_notMem_expected h) (List.cons.inj htexts).2
    obtain ⟨hkey, hidentity⟩ := signerText_inj hunambiguous htexts
    exact ⟨himage, hsbom, hprovenance, hrevision, hkey, hidentity⟩

/-- Two requests to sign whose parts hold no line that is not theirs have texts of their own, where a
key in the vault with the permission always shares its text. A request to verify is told by its text
where its key holds no identity, and its identity no issuer: never where both a key and an identity
are given. -/
theorem manifests_identify (host host' : Host) (request request' : ImageSignRequest)
    (prepared prepared' : Prepared) (verification : SupplyChainRequest) :
    (prepare host request = .ok prepared → prepare host' request' = .ok prepared' →
      request.Plain → request'.Plain →
        signingInputManifest request prepared.annotations =
          signingInputManifest request' prepared'.annotations →
        request.imageRef = request'.imageRef ∧ request.keyUri = request'.keyUri ∧
          request.allowFileKey = request'.allowFileKey ∧
          prepared.annotations = prepared'.annotations) ∧
    (prepare host request = .ok prepared → kmsScheme.isPrefixOf request.keyUri.toList = true →
      request.allowFileKey = true → ∃ request' : ImageSignRequest,
        request'.keyUri ≠ request.keyUri ∧ prepare host request' = .ok prepared ∧
          signingInputManifest request' prepared.annotations =
            signingInputManifest request prepared.annotations) ∧
    (validateRequest verification = .ok () →
      (verification.Identified ↔ Unambiguous verification.keyUri verification.identity)) := by
  refine ⟨?_, ?_, ?_⟩
  · intro hprepared hprepared' h h' hsame
    exact signingInputManifest_inj hprepared hprepared' h h' hsame
  · intro h hkms hallow
    exact permission_twin h hkms hallow
  · intro h
    exact identified_iff h

/-! ### Requests with a text of their own, and with a shared one -/

def keyRequest (keyUri : String) (allowFileKey signReceipt : Bool) : ImageSignRequest :=
  ⟨sampleImage, keyUri, [(revisionAnnotationKey, sampleRevision)], allowFileKey, false, [], none,
    signReceipt, none⟩

theorem prepare_keyRequest {keyUri : String} {allowFileKey : Bool} (signReceipt : Bool)
    (h : validateKeyUri keyUri allowFileKey = .ok ()) :
    prepare willingHost (keyRequest keyUri allowFileKey signReceipt) =
      .ok ⟨"cosign", sorted [(revisionAnnotationKey, sampleRevision)], sampleRevision⟩ := by
  have hfound : findRevision [(revisionAnnotationKey, sampleRevision)] = some sampleRevision := by
    decide
  exact prepare_of_explicit validateDigestRef_sample h hfound validateRevision_sample rfl rfl
    checkCosignVersion_willing

theorem plain_keyRequest (signReceipt : Bool) :
    (keyRequest "azurekms://vault/key" false signReceipt).Plain := by
  have hkey : '\n' ∉ "azurekms://vault/key".toList := by decide
  have hequals : '=' ∉ revisionAnnotationKey.toList := by decide
  have hname : '\n' ∉ revisionAnnotationKey.toList := by decide
  refine ⟨not_infix_line hkey, fun _ hline => not_infix_line hkey hline.isInfix, ?_, ?_⟩
  · intro a ha
    rw [List.mem_singleton.mp ha]
    exact hequals
  · intro a ha
    rw [List.mem_singleton.mp ha]
    exact ⟨not_infix_line hname,
      not_infix_line (newline_notMem_revision validateRevision_sample)⟩

def signerRequest (keyUri certificateIdentity certificateOidcIssuer : Option String) :
    SupplyChainRequest :=
  ⟨sampleImage, true, false, none, keyUri, certificateIdentity, certificateOidcIssuer⟩

theorem validateRequest_signerRequest (keyUri identity issuer : Option String) :
    validateRequest (signerRequest keyUri identity issuer) = .ok () :=
  except_bind_eq_ok.mpr ⟨(), validateDigestRef_sample, rfl⟩

/-- Two requests that differ in what their text leaves out, and one to verify with a key. -/
theorem manifests_identify_sample :
    (keyRequest "azurekms://vault/key" false true).keyUri =
        (keyRequest "azurekms://vault/key" false false).keyUri ∧
      (signerRequest (some "k") none none).Identified := by
  obtain ⟨hsigning, -, hverifying⟩ := manifests_identify willingHost willingHost
    (keyRequest "azurekms://vault/key" false true) (keyRequest "azurekms://vault/key" false false)
    _ _ (signerRequest (some "k") none none)
  constructor
  · exact (hsigning (prepare_keyRequest true validateKeyUri_sample)
      (prepare_keyRequest false validateKeyUri_sample) (plain_keyRequest true)
      (plain_keyRequest false) rfl).2.1
  · refine (hverifying (validateRequest_signerRequest _ _ _)).mpr ?_
    intro a b c hkey
    have hnewline : '\n' ∉ "k".toList := by decide
    refine hnewline (hkey ▸ List.mem_append_right a ?_)
    exact List.mem_append_left _ List.mem_cons_self

/-- A permission that can be part of the key, and a line break that can be in either part of an
identity. -/
theorem texts_shared :
    (prepare willingHost (keyRequest "azurekms://vault/key" true false) =
        .ok ⟨"cosign", sorted [(revisionAnnotationKey, sampleRevision)], sampleRevision⟩ ∧
      prepare willingHost (keyRequest "azurekms://vault/key\nallow-file-key:true" false false) =
        .ok ⟨"cosign", sorted [(revisionAnnotationKey, sampleRevision)], sampleRevision⟩ ∧
      signingInputManifest (keyRequest "azurekms://vault/key" true false)
          (sorted [(revisionAnnotationKey, sampleRevision)]) =
        signingInputManifest (keyRequest "azurekms://vault/key\nallow-file-key:true" false false)
          (sorted [(revisionAnnotationKey, sampleRevision)])) ∧
    (validateRequest (signerRequest none (some "a\ncertificate-oidc-issuer:b") (some "c")) = .ok () ∧
      validateRequest (signerRequest none (some "a") (some "b\ncertificate-oidc-issuer:c")) =
        .ok () ∧
      verificationInputManifest
          (signerRequest none (some "a\ncertificate-oidc-issuer:b") (some "c")) =
        verificationInputManifest
          (signerRequest none (some "a") (some "b\ncertificate-oidc-issuer:c"))) := by
  refine ⟨⟨?_, ?_, ?_⟩, validateRequest_signerRequest _ _ _, validateRequest_signerRequest _ _ _, ?_⟩
  · exact prepare_keyRequest false (refuseIf_eq_ok.mpr (by decide))
  · exact prepare_keyRequest false (refuseIf_eq_ok.mpr (by decide))
  · have hkey : keyText "azurekms://vault/key" true =
      keyText "azurekms://vault/key\nallow-file-key:true" false := by decide
    refine String.toList_inj.mp ?_
    rw [toList_signingInputManifest, toList_signingInputManifest]
    simp only [keyRequest, hkey]
  · have hsigner : signerText none (some ("a\ncertificate-oidc-issuer:b", "c")) =
      signerText none (some ("a", "b\ncertificate-oidc-issuer:c")) := by decide
    refine String.toList_inj.mp ?_
    rw [toList_verificationInputManifest, toList_verificationInputManifest]
    simp only [signerRequest, SupplyChainRequest.identity, hsigner]

end Attest.Image
