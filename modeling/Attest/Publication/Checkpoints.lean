import Attest.Publication.Inclusion
import Attest.Publication.Note

/-! Checkpoints are read back as they were written, and no other way.

`checkpointBody` and `signedNote` write a note. A signature line is read as exactly
the signer it was written for (`signatureFields_iff`), a note is accepted exactly when
it is a body and such lines with the configured key among them (`verifyNote_iff`), and
a body exactly when it is the canonical text of one size and root (`readBody_iff`). -/
namespace Attest.Publication.Note
open Merkle Library Library.Text Library.Fallible
open Trust (hexEncode toVector isLowerHexDigit utf8 VerifyingKey isWhiteSpace)

/-! ### Writing a note -/

structure NoteSignature where
  name : List Char
  id : Vector UInt8 4
  signature : Bytes

namespace NoteSignature

def line (x : NoteSignature) : List Char :=
  '—' :: ' ' :: (x.name ++ ' ' :: Base64.encodeChars (x.id.toList ++ x.signature))

/-- What no two lines of a note may share. -/
def signer (x : NoteSignature) : List Char × Vector UInt8 4 := (x.name, x.id)

structure WellFormed (x : NoteSignature) : Prop where
  name : validName x.name = true
  nonempty : 1 ≤ x.signature.length
  bounded : x.signature.length ≤ 8188

end NoteSignature

/-- The origin, the size in decimal, the root in base64, and lines for others to use. -/
def checkpointBody (origin : String) (size : Nat) (root : Hash) (extensions : List (List Char)) :
    List Char :=
  unlines (origin.toList :: Nat.toDigits 10 size :: Base64.encodeChars root.toList :: extensions)

def signedNote (body : List Char) (signatures : List NoteSignature) : String :=
  String.ofList (body ++ '\n' :: unlines (signatures.map NoteSignature.line))

/-- Not one of the control characters below a blank, which no note may hold. -/
def Printable (c : Char) : Prop := 0x20 ≤ c.toNat

instance (c : Char) : Decidable (Printable c) := inferInstanceAs (Decidable (_ ≤ _))

structure IsExtension (line : List Char) : Prop where
  nonempty : line ≠ []
  printable : ∀ c ∈ line, Printable c

/-! ### Characters -/

theorem Printable.inline {c : Char} (h : Printable c) : Inline c := by
  constructor
  · rintro rfl
    exact absurd h (by decide)
  · rintro rfl
    exact absurd h (by decide)

theorem not_mem_newline {line : List Char} (h : ∀ c ∈ line, Printable c) : '\n' ∉ line :=
  fun hmem => (h '\n' hmem).inline.1 rfl

theorem printable_of_base64 {c : Char} (h : Base64.isBase64Char c = true) : Printable c := by
  have hcases := of_decide_eq_true h
  unfold Printable
  simp only [Char.le_def, UInt32.le_iff_toNat_le] at hcases
  rcases hcases with h | h | h | rfl | rfl | rfl
  · have : 65 ≤ c.toNat := h.1
    omega
  · have : 97 ≤ c.toNat := h.1
    omega
  · have : 48 ≤ c.toNat := h.1
    omega
  · decide
  · decide
  · decide

theorem utf8Size_of_base64 {c : Char} (h : Base64.isBase64Char c = true) : c.utf8Size = 1 := by
  have hcases := of_decide_eq_true h
  simp only [Char.le_def, UInt32.le_iff_toNat_le] at hcases
  rw [Char.utf8Size_eq_one_iff, UInt32.le_iff_toNat_le]
  show c.toNat ≤ 127
  rcases hcases with h | h | h | rfl | rfl | rfl
  · have : c.toNat ≤ 90 := h.2
    omega
  · have : c.toNat ≤ 122 := h.2
    omega
  · have : c.toNat ≤ 57 := h.2
    omega
  · decide
  · decide
  · decide

theorem printable_of_validName {name : List Char} (h : validName name = true) {c : Char}
    (hc : c ∈ name) : Printable c ∧ c ≠ ' ' ∧ c ≠ '+' := by
  simp only [validName, Bool.and_eq_true, Bool.not_eq_true', List.any_eq_false, Bool.or_eq_true,
    not_or] at h
  obtain ⟨⟨hspace, hcontrol⟩, hplus⟩ := h.2 c hc
  refine ⟨?_, ?_, ?_⟩
  · unfold Printable
    by_contra hlow
    exact hcontrol (decide_eq_true (.inl (by omega)))
  · rintro rfl
    exact hspace (by decide)
  · rintro rfl
    exact hplus rfl

theorem printable_digits (n : Nat) : ∀ c ∈ Nat.toDigits 10 n, Printable c := by
  intro c hc
  have hdigit := Nat.isDigit_of_mem_toDigits (by decide) (by decide) hc
  have : 48 ≤ c.toNat ∧ c.toNat ≤ 57 := by
    simpa [Char.isDigit, UInt32.le_iff_toNat_le] using hdigit
  unfold Printable
  omega

theorem printable_encodeChars (bytes : Bytes) : ∀ c ∈ Base64.encodeChars bytes, Printable c := by
  intro c hc
  exact printable_of_base64 (List.all_eq_true.mp (Base64.encodeChars_all bytes) c hc)

theorem printable_line {x : NoteSignature} (h : x.WellFormed) : ∀ c ∈ x.line, Printable c := by
  intro c hc
  simp only [NoteSignature.line, List.mem_cons, List.mem_append] at hc
  rcases hc with rfl | rfl | hc | rfl | hc
  · decide
  · decide
  · exact (printable_of_validName h.name hc).1
  · decide
  · exact printable_encodeChars _ c hc

/-! ### Base64 -/

theorem canonicalBase64_iff {text : List Char} {bytes : Bytes} :
    canonicalBase64 text = .ok bytes ↔ text = Base64.encodeChars bytes := by
  unfold canonicalBase64
  constructor
  · intro h
    split at h
    next => cases h
    next decoded _ =>
      split at h
      next heq =>
        cases h
        exact heq.symm
      next => cases h
  · rintro rfl
    rw [Base64.decodeChars_encodeChars]
    exact if_pos rfl

theorem utf8Len_of_base64 {text : List Char} (h : text.all Base64.isBase64Char = true) :
    String.utf8Len text = text.length := by
  induction text with
  | nil => rfl
  | cons c rest ih =>
    simp only [List.all_cons, Bool.and_eq_true] at h
    rw [String.utf8Len_cons, List.length_cons, ih h.2, utf8Size_of_base64 h.1]

theorem utf8ByteSize_encodeChars (bytes : Bytes) :
    (String.ofList (Base64.encodeChars bytes)).utf8ByteSize = 4 * ((bytes.length + 2) / 3) := by
  rw [String.utf8ByteSize_ofList, utf8Len_of_base64 (Base64.encodeChars_all bytes),
    Base64.length_encodeChars]

/-! ### One signature line -/

theorem toVector_eq_some {n : Nat} {bytes : Bytes} {a : Vector UInt8 n} :
    toVector n bytes = some a ↔ bytes = a.toList := by
  unfold toVector
  constructor
  · intro h
    split at h
    next => cases h; simp [Vector.toList]
    next => cases h
  · rintro rfl
    rw [dif_pos (by simp)]
    simp [Vector.toList]

theorem signatureFields_iff {line name : List Char} {id : Vector UInt8 4} {signature : Bytes} :
    signatureFields line = .ok (name, id, signature) ↔
      NoteSignature.WellFormed ⟨name, id, signature⟩ ∧
        line = NoteSignature.line ⟨name, id, signature⟩ := by
  constructor
  · intro h
    unfold signatureFields at h
    split at h
    next text =>
      split at h
      next => cases h
      next signer encoded hsplit =>
        simp only [except_bind_eq_ok, refuseIf_eq_ok, Bool.not_eq_false] at h
        obtain ⟨_, hname, _, _, bytes, hbytes, _, hlength, h⟩ := h
        rw [canonicalBase64_iff] at hbytes
        split at h
        next => cases h
        next got hid =>
          cases h
          rw [toVector_eq_some] at hid
          have hjoin : id.toList ++ bytes.drop 4 = bytes := by rw [← hid, List.take_append_drop]
          refine ⟨⟨hname, ?_, ?_⟩, ?_⟩
          · rw [List.length_drop]
            omega
          · rw [List.length_drop]
            omega
          · rw [NoteSignature.line, hjoin, ← hbytes, of_splitOnce hsplit]
    next => cases h
  · rintro ⟨hwf, rfl⟩
    have hname : validName name = true := hwf.name
    have hshort : 1 ≤ signature.length := hwf.nonempty
    have hlong : signature.length ≤ 8188 := hwf.bounded
    have hspace : ' ' ∉ name := fun hmem => (printable_of_validName hname hmem).2.1 rfl
    have hsize := utf8ByteSize_encodeChars (id.toList ++ signature)
    have hlen : (id.toList ++ signature).length = 4 + signature.length := by simp
    simp only [signatureFields, NoteSignature.line, splitOnce_append hspace, except_bind_eq_ok,
      refuseIf_eq_ok, canonicalBase64_iff]
    refine ⟨(), by simp [hname], (), by omega, _, rfl, (), by omega, ?_⟩
    have hid : toVector 4 ((id.toList ++ signature).take 4) = some id := by
      rw [toVector_eq_some, List.take_left' (by simp)]
    rw [hid, List.drop_left' (by simp)]

/-! ### The signature lines -/

section Suite
variable {s : Suite} {v : Verifier}

/-- The signature holds under the configured key. -/
def Valid (s : Suite) (v : Verifier) (body : List Char) (x : NoteSignature) : Prop :=
  ∃ signature : Vector UInt8 64, x.signature = signature.toList ∧
    s.verifyStrict v.key (utf8 (String.ofList body)) signature = true

/-- One line of the loop. -/
theorem checkSignatures_cons {body : List Char} {seen : List (List Char × Vector UInt8 4)}
    {auth ok : Bool} {line : List Char} {rest : List (List Char)} :
    checkSignatures s v (utf8 (String.ofList body)) seen auth (line :: rest) = .ok ok ↔
      ∃ x : NoteSignature, x.WellFormed ∧ line = x.line ∧ x.signer ∉ seen ∧
        (x.signer = (v.name, v.id) → Valid s v body x) ∧
        checkSignatures s v (utf8 (String.ofList body)) (x.signer :: seen)
          (auth || decide (x.signer = (v.name, v.id))) rest = .ok ok := by
  constructor
  · intro h
    unfold checkSignatures at h
    simp only [except_bind_eq_ok, Prod.exists, refuseIf_eq_ok] at h
    obtain ⟨name, id, signature, hfields, _, hseen, h⟩ := h
    obtain ⟨hwf, hline⟩ := signatureFields_iff.mp hfields
    refine ⟨⟨name, id, signature⟩, hwf, hline, hseen, ?_⟩
    split at h
    next hconfigured =>
      split at h
      next => cases h
      next sig hsig =>
        simp only [except_bind_eq_ok, refuseIf_eq_ok, Bool.not_eq_false] at h
        obtain ⟨_, hverify, h⟩ := h
        refine ⟨fun _ => ⟨sig, toVector_eq_some.mp hsig, hverify⟩, ?_⟩
        simpa [NoteSignature.signer, hconfigured.1, hconfigured.2] using h
    next hother =>
      have hne : ¬ (name, id) = (v.name, v.id) := fun heq => hother (Prod.mk.inj heq)
      refine ⟨fun heq => absurd heq hne, ?_⟩
      simpa [NoteSignature.signer, hne] using h
  · rintro ⟨x, hwf, rfl, hseen, hvalid, h⟩
    have hfields : signatureFields x.line = .ok (x.name, x.id, x.signature) :=
      signatureFields_iff.mpr ⟨hwf, rfl⟩
    unfold checkSignatures
    simp only [except_bind_eq_ok, Prod.exists, refuseIf_eq_ok]
    refine ⟨x.name, x.id, x.signature, hfields, (), hseen, ?_⟩
    by_cases hconfigured : x.signer = (v.name, v.id)
    · obtain ⟨signature, hsig, hverify⟩ := hvalid hconfigured
      rw [if_pos (Prod.mk.inj hconfigured), hsig, toVector_eq_some.mpr rfl]
      simp only [except_bind_eq_ok, refuseIf_eq_ok, Bool.not_eq_false]
      refine ⟨(), hverify, ?_⟩
      rw [decide_eq_true hconfigured, Bool.or_true] at h
      exact h
    · rw [if_neg fun heq => hconfigured (Prod.ext heq.1 heq.2)]
      rw [decide_eq_false hconfigured, Bool.or_false] at h
      exact h

/-- The whole loop: every line is a signer of its own, the configured one signed if it is
there, and the flag says whether it is. -/
theorem checkSignatures_iff {body : List Char} {seen : List (List Char × Vector UInt8 4)}
    {auth ok : Bool} {lines : List (List Char)} :
    checkSignatures s v (utf8 (String.ofList body)) seen auth lines = .ok ok ↔
      ∃ signatures : List NoteSignature, lines = signatures.map NoteSignature.line ∧
        (∀ x ∈ signatures, x.WellFormed) ∧ (signatures.map NoteSignature.signer).Nodup ∧
        (∀ x ∈ signatures, x.signer ∉ seen) ∧
        (∀ x ∈ signatures, x.signer = (v.name, v.id) → Valid s v body x) ∧
        (ok = true ↔ auth = true ∨ ∃ x ∈ signatures, x.signer = (v.name, v.id)) := by
  induction lines generalizing seen auth with
  | nil =>
    constructor
    · intro h
      cases h
      exact ⟨[], rfl, by simp, by simp, by simp, by simp, by simp⟩
    · rintro ⟨signatures, hlines, _, _, _, _, hok⟩
      rw [List.map_eq_nil_iff.mp hlines.symm] at hok
      rw [checkSignatures]
      cases auth <;> cases ok <;> simp at hok ⊢
  | cons line rest ih =>
    rw [checkSignatures_cons]
    constructor
    · rintro ⟨x, hwf, rfl, hseen, hvalid, h⟩
      obtain ⟨signatures, rfl, hwfs, hnodup, hunseen, hvalids, hok⟩ := ih.mp h
      have hfresh : x.signer ∉ signatures.map NoteSignature.signer := by
        intro hmem
        obtain ⟨y, hy, heq⟩ := List.mem_map.mp hmem
        exact hunseen y hy (heq ▸ List.mem_cons_self ..)
      refine ⟨x :: signatures, rfl, List.forall_mem_cons.mpr ⟨hwf, hwfs⟩,
        List.nodup_cons.mpr ⟨hfresh, hnodup⟩, List.forall_mem_cons.mpr ⟨hseen, ?_⟩,
        List.forall_mem_cons.mpr ⟨hvalid, hvalids⟩, ?_⟩
      · exact fun y hy hmem => hunseen y hy (List.mem_cons_of_mem _ hmem)
      · rw [hok]
        simp [or_assoc]
    · rintro ⟨signatures, hlines, hwfs, hnodup, hunseen, hvalids, hok⟩
      cases signatures with
      | nil => cases hlines
      | cons x more =>
        obtain ⟨hline, hrest⟩ := List.cons.inj hlines
        obtain ⟨hfresh, hnodup⟩ := List.nodup_cons.mp hnodup
        obtain ⟨hwf, hwfs⟩ := List.forall_mem_cons.mp hwfs
        obtain ⟨hseen, hunseen⟩ := List.forall_mem_cons.mp hunseen
        obtain ⟨hvalid, hvalids⟩ := List.forall_mem_cons.mp hvalids
        refine ⟨x, hwf, hline, hseen, hvalid, ih.mpr ⟨more, hrest, hwfs, hnodup, ?_, hvalids, ?_⟩⟩
        · intro y hy hmem
          cases List.mem_cons.mp hmem with
          | inl heq => exact hfresh (heq ▸ List.mem_map_of_mem hy)
          | inr hmem => exact hunseen y hy hmem
        · rw [hok]
          simp [or_assoc]

/-- The lines below a body: not too many, each well formed and of another signer, the
configured one among them with a signature over this body. -/
structure SignedAs (s : Suite) (v : Verifier) (body : List Char)
    (signatures : List NoteSignature) : Prop where
  atMost : signatures.length ≤ maxSignatures
  wellFormed : ∀ x ∈ signatures, x.WellFormed
  distinct : (signatures.map NoteSignature.signer).Nodup
  authentic : ∃ x ∈ signatures, x.signer = (v.name, v.id) ∧ Valid s v body x

theorem SignedAs.check {body : List Char} {signatures : List NoteSignature}
    (h : SignedAs s v body signatures) :
    checkSignatures s v (utf8 (String.ofList body)) [] false
      (signatures.map NoteSignature.line) = .ok true := by
  obtain ⟨x, hx, hsigner, hvalid⟩ := h.authentic
  refine checkSignatures_iff.mpr ⟨signatures, rfl, h.wellFormed, h.distinct, by simp, ?_, ?_⟩
  · intro y hy hy'
    -- There is one line of the configured signer.
    have heq : y = x :=
      List.inj_on_of_nodup_map h.distinct hy hx (hy'.trans hsigner.symm)
    exact heq ▸ hvalid
  · simp only [Bool.false_eq_true, false_or, true_iff]
    exact ⟨x, hx, hsigner⟩

theorem signedAs_of_check {body : List Char} {lines : List (List Char)}
    (hmost : lines.length ≤ maxSignatures)
    (h : checkSignatures s v (utf8 (String.ofList body)) [] false lines = .ok true) :
    ∃ signatures, lines = signatures.map NoteSignature.line ∧ SignedAs s v body signatures := by
  obtain ⟨signatures, rfl, hwf, hnodup, _, hvalid, hok⟩ := checkSignatures_iff.mp h
  simp only [Bool.false_eq_true, false_or, true_iff] at hok
  obtain ⟨x, hx, hsigner⟩ := hok
  rw [List.length_map] at hmost
  exact ⟨signatures, rfl, hmost, hwf, hnodup, x, hx, hsigner, hvalid x hx hsigner⟩

/-! ### The note -/

theorem SignedAs.lines_printable {body : List Char} {signatures : List NoteSignature}
    (h : SignedAs s v body signatures) :
    ∀ line ∈ signatures.map NoteSignature.line, line ≠ [] ∧ ∀ c ∈ line, Printable c := by
  intro line hline
  obtain ⟨x, hx, rfl⟩ := List.mem_map.mp hline
  exact ⟨by simp [NoteSignature.line], printable_line (h.wellFormed x hx)⟩

theorem mem_unlines {ls : List (List Char)} {c : Char} (h : c ∈ unlines ls) :
    c = '\n' ∨ ∃ line ∈ ls, c ∈ line := by
  induction ls with
  | nil => simp at h
  | cons line rest ih =>
    simp only [unlines_cons, List.mem_append, List.mem_cons] at h
    rcases h with h | rfl | h
    · exact .inr ⟨line, List.mem_cons_self .., h⟩
    · exact .inl rfl
    · rcases ih h with h | ⟨l, hl, hc⟩
      · exact .inl h
      · exact .inr ⟨l, List.mem_cons_of_mem line hl, hc⟩

theorem getLast?_unlines {ls : List (List Char)} (h : ls ≠ []) :
    (unlines ls).getLast? = some '\n' := by
  induction ls with
  | nil => exact absurd rfl h
  | cons line rest ih =>
    cases rest with
    | nil => simp
    | cons next more =>
      have htail := ih (by simp)
      rw [unlines_cons, List.getLast?_append, List.getLast?_cons, htail]
      rfl

/-- A note is a body that ends its last line, an empty line, and signature lines. -/
theorem verifyNote_iff {note : String} {body : List Char} :
    v.verifyNote s note = .ok body ↔
      note.utf8ByteSize ≤ maxNoteBytes ∧ (∃ text, body = text ++ ['\n']) ∧
        (∀ c ∈ body, c = '\n' ∨ Printable c) ∧
        ∃ signatures, SignedAs s v body signatures ∧ note = signedNote body signatures := by
  constructor
  · intro h
    unfold Verifier.verifyNote at h
    simp only [except_bind_eq_ok, refuseIf_eq_ok, not_lt, not_not] at h
    obtain ⟨_, hsize, _, ⟨hend, hchars⟩, h⟩ := h
    split at h
    next => cases h
    next before after hsplit =>
      simp only [except_bind_eq_ok, refuseIf_eq_ok, not_not, not_lt, Bool.not_eq_false,
        Except.ok.injEq] at h
      obtain ⟨_, ⟨_, hafter⟩, _, hmost, auth, hcheck, _, rfl, rfl⟩ := h
      obtain ⟨hbody, htext, _⟩ := of_splitBlank hsplit
      obtain ⟨signatures, hlines, hsigned⟩ := signedAs_of_check hmost hcheck
      have hplain : ∀ c ∈ note.toList, c = '\n' ∨ Printable c := by
        intro c hc
        have := hchars c hc
        unfold Printable
        by_cases hn : c = '\n'
        · exact .inl hn
        · exact .inr (by by_contra hlow; exact this ⟨by omega, hn⟩)
      refine ⟨hsize, hbody, fun c hc => hplain c (by simp [htext, hc]), signatures, hsigned, ?_⟩
      have hreturn : '\r' ∉ after := by
        intro hmem
        have := hplain '\r' (by simp [htext, hmem])
        revert this
        decide
      have hlast : after.getLast? = some '\n' := by
        rw [htext, List.getLast?_append, List.getLast?_cons] at hend
        cases hcase : after.getLast? with
        | none => exact absurd (List.getLast?_eq_none_iff.mp hcase) hafter
        | some c =>
          rw [hcase] at hend
          simpa using hend
      rw [signedNote, ← hlines, unlines_lines hreturn fun _ => hlast, ← htext, String.ofList_toList]
  · rintro ⟨hsize, ⟨text, rfl⟩, hbody, signatures, hsigned, rfl⟩
    have hprint := hsigned.lines_printable
    have hne : signatures.map NoteSignature.line ≠ [] := by
      obtain ⟨x, hx, _⟩ := hsigned.authentic
      simp [List.ne_nil_of_mem hx]
    have hnote : (signedNote (text ++ ['\n']) signatures).toList =
        text ++ ['\n'] ++ '\n' :: unlines (signatures.map NoteSignature.line) := by
      rw [signedNote, String.toList_ofList]
    have hsplit : splitBlank (text ++ ['\n'] ++ '\n' :: unlines (signatures.map NoteSignature.line)) =
        some (text ++ ['\n'], unlines (signatures.map NoteSignature.line)) := by
      rw [List.append_assoc]
      exact splitBlank_append text (noBlank_unlines
        (fun line hline => not_mem_newline (hprint line hline).2) fun line hline => (hprint line hline).1)
    have hlines : lines (unlines (signatures.map NoteSignature.line)) =
        signatures.map NoteSignature.line :=
      lines_unlines fun line hline c hc => ((hprint line hline).2 c hc).inline
    unfold Verifier.verifyNote
    simp only [except_bind_eq_ok, refuseIf_eq_ok, not_lt, not_not, hnote, hsplit, hlines]
    refine ⟨(), hsize, (), ⟨?_, ?_⟩, (), ⟨by simp, ?_⟩, (), ?_, true, hsigned.check, (), by simp,
      trivial⟩
    · rw [List.getLast?_append, List.getLast?_cons, getLast?_unlines hne]
      rfl
    · intro c hc hlow
      have hplain : c = '\n' ∨ Printable c := by
        rcases List.mem_append.mp hc with hc | hc
        · exact hbody c hc
        · rcases List.mem_cons.mp hc with hc | hc
          · exact .inl hc
          · rcases mem_unlines hc with hc | ⟨line, hline, hc⟩
            · exact .inl hc
            · exact .inr ((hprint line hline).2 c hc)
      rcases hplain with hn | hp
      · exact hlow.2 hn
      · exact absurd hp (Nat.not_le.mpr hlow.1)
    · intro hnil
      have := getLast?_unlines hne
      rw [hnil] at this
      cases this
    · rw [List.length_map]
      exact hsigned.atMost

/-! ### The body -/

theorem parseSize_iff {size : List Char} {n : Nat} :
    parseSize size = .ok n ↔ size = Nat.toDigits 10 n ∧ n < 2 ^ 64 := by
  unfold parseSize
  simp only [except_bind_eq_ok, refuseIf_eq_ok, not_not, not_le, Except.ok.injEq]
  constructor
  · rintro ⟨_, hcanonical, _, hlt, rfl⟩
    exact ⟨(toDigits_ofDigitChars hcanonical).symm, hlt⟩
  · rintro ⟨rfl, hlt⟩
    rw [Nat.ofDigitChars_ten_toDigits]
    exact ⟨(), canonical_toDigits n, (), hlt, rfl⟩

/-- A size of a `u64`, and the root of no tree when it is zero. -/
structure Checkpoint.Sized (s : Suite) (c : Checkpoint) : Prop where
  fits : c.treeSize < 2 ^ 64
  empty : c.treeSize = 0 → c.root = emptyRoot s.sha256

theorem readBody_iff {trust : LogConfig} {note : String} {body : List (List Char)}
    {c : Checkpoint} :
    readBody s trust note body = .ok c ↔
      c.signedNote = note ∧ c.Sized s ∧ ∃ extensions, [] ∉ extensions ∧
        body = trust.origin.toList :: Nat.toDigits 10 c.treeSize ::
          Base64.encodeChars c.root.toList :: extensions := by
  constructor
  · intro h
    unfold readBody at h
    split at h
    next => cases h
    next origin rest =>
      simp only [except_bind_eq_ok, refuseIf_eq_ok, not_not] at h
      obtain ⟨_, rfl, h⟩ := h
      split at h
      next => cases h
      next size rest =>
        simp only [except_bind_eq_ok] at h
        obtain ⟨treeSize, hsize, h⟩ := h
        obtain ⟨rfl, hfits⟩ := parseSize_iff.mp hsize
        split at h
        next => cases h
        next encoded extensions =>
          simp only [except_bind_eq_ok, canonicalBase64_iff] at h
          obtain ⟨bytes, rfl, h⟩ := h
          split at h
          next => cases h
          next root hroot =>
            simp only [except_bind_eq_ok, refuseIf_eq_ok, not_and, not_not, Except.ok.injEq] at h
            obtain ⟨_, hextensions, _, hempty, rfl⟩ := h
            rw [toVector_eq_some] at hroot
            subst hroot
            exact ⟨rfl, ⟨hfits, hempty⟩, extensions, hextensions, rfl⟩
  · rintro ⟨rfl, hsized, extensions, hextensions, rfl⟩
    simp only [readBody, except_bind_eq_ok, refuseIf_eq_ok, not_not, true_and,
      exists_const, parseSize_iff, canonicalBase64_iff]
    refine ⟨c.treeSize, ⟨rfl, hsized.fits⟩, c.root.toList, rfl, ?_⟩
    rw [toVector_eq_some.mpr rfl]
    simp only [except_bind_eq_ok, refuseIf_eq_ok, not_not, not_and, exists_const]
    exact ⟨hextensions, hsized.empty, trivial⟩

theorem lines_checkpointBody {origin : String} (size : Nat) (root : Hash)
    {extensions : List (List Char)} (horigin : validName origin.toList = true)
    (hextensions : ∀ line ∈ extensions, IsExtension line) :
    lines (checkpointBody origin size root extensions) =
        origin.toList :: Nat.toDigits 10 size :: Base64.encodeChars root.toList :: extensions ∧
      ∀ c ∈ checkpointBody origin size root extensions, c = '\n' ∨ Printable c := by
  have hprint : ∀ line ∈ origin.toList :: Nat.toDigits 10 size ::
      Base64.encodeChars root.toList :: extensions, ∀ c ∈ line, Printable c := by
    intro line hline c hc
    simp only [List.mem_cons] at hline
    rcases hline with rfl | rfl | rfl | hline
    · exact (printable_of_validName horigin hc).1
    · exact printable_digits size c hc
    · exact printable_encodeChars root.toList c hc
    · exact (hextensions line hline).printable c hc
  refine ⟨lines_unlines fun line hline c hc => (hprint line hline c hc).inline, ?_⟩
  intro c hc
  rcases mem_unlines hc with hc | ⟨line, hline, hc⟩
  · exact .inl hc
  · exact .inr (hprint line hline c hc)

/-- A body of a note that is read as a checkpoint is the text of that checkpoint. -/
theorem eq_checkpointBody {trust : LogConfig} {note : String} {body : List Char} {c : Checkpoint}
    (hend : ∃ text, body = text ++ ['\n']) (hplain : ∀ c ∈ body, c = '\n' ∨ Printable c)
    (h : readBody s trust note (lines body) = .ok c) :
    c.signedNote = note ∧ c.Sized s ∧ ∃ extensions, (∀ line ∈ extensions, IsExtension line) ∧
      body = checkpointBody trust.origin c.treeSize c.root extensions := by
  obtain ⟨hnote, hsized, extensions, hnonempty, hlines⟩ := readBody_iff.mp h
  have hreturn : '\r' ∉ body := by
    intro hmem
    have := hplain '\r' hmem
    revert this
    decide
  have hlast : body.getLast? = some '\n' := by
    obtain ⟨text, rfl⟩ := hend
    simp
  refine ⟨hnote, hsized, extensions, ?_, ?_⟩
  · intro line hline
    refine ⟨fun heq => hnonempty (heq ▸ hline), ?_⟩
    intro d hd
    have hmem : line ∈ lines body := by simp [hlines, hline]
    obtain ⟨hinline, hbody⟩ := inline_of_mem_lines hreturn hmem hd
    exact (hplain d hbody).resolve_left hinline.1
  · rw [checkpointBody, ← hlines, unlines_lines hreturn fun _ => hlast]

theorem checkpointBody_injective {origin : String} {size size' : Nat} {root root' : Hash}
    {extensions extensions' : List (List Char)} (horigin : validName origin.toList = true)
    (h : ∀ line ∈ extensions, IsExtension line) (h' : ∀ line ∈ extensions', IsExtension line)
    (heq : checkpointBody origin size root extensions =
      checkpointBody origin size' root' extensions') : size = size' ∧ root = root' := by
  have hlines := (lines_checkpointBody size root horigin h).1
  rw [heq, (lines_checkpointBody size' root' horigin h').1] at hlines
  injection hlines with _ hlines
  injection hlines with hsize hlines
  injection hlines with hroot _
  constructor
  · rw [← Nat.ofDigitChars_ten_toDigits (n := size), ← hsize, Nat.ofDigitChars_ten_toDigits]
  · have hbytes := Base64.decodeChars_encodeChars root.toList
    rw [← hroot, Base64.decodeChars_encodeChars] at hbytes
    exact (Vector.toList_inj.mp (Option.some.inj hbytes)).symm

/-! ### The configured key -/

/-- A verifier key as it is handed out. -/
def verifierKeyText (s : Suite) (name : List Char) (key : VerifyingKey) : List Char :=
  name ++ '+' :: ((hexEncode (keyIdentifier s name (1 :: key.bytes.toList)).toList).toList ++
    '+' :: Base64.encodeChars (1 :: key.bytes.toList))

theorem nextPart_append {part : List Char} (h : '+' ∉ part) (rest : List Char) :
    nextPart (part ++ '+' :: rest) = (part, some rest) := by
  rw [nextPart, splitOnce_append h]

theorem plus_not_mem_hexEncode (bytes : Bytes) : '+' ∉ (hexEncode bytes).toList := by
  intro hmem
  have hlower := List.all_eq_true.mp (Trust.hexEncode_all_lower bytes) '+' hmem
  revert hlower
  decide

theorem length_hexEncode (bytes : Bytes) : (hexEncode bytes).toList.length = 2 * bytes.length := by
  induction bytes with
  | nil => rfl
  | cons b bytes ih =>
    rw [Trust.hexEncode_cons, List.length_append, ih, List.length_cons]
    simp only [List.length_cons, List.length_nil]
    omega

theorem parse_verifierKeyText {name : List Char} {key : VerifyingKey}
    (hsize : (String.ofList (verifierKeyText s name key)).utf8ByteSize ≤ 4096)
    (hname : validName name = true) (hpoint : s.pointError key.bytes = none)
    (hweak : s.isWeak key = false) :
    Verifier.parse s (String.ofList (verifierKeyText s name key)) =
      .ok ⟨name, keyIdentifier s name (1 :: key.bytes.toList), key⟩ := by
  have hplus : '+' ∉ name := fun hmem => (printable_of_validName hname hmem).2.2 rfl
  have htext : (String.ofList (verifierKeyText s name key)).toList = name ++ '+' ::
      ((hexEncode (keyIdentifier s name (1 :: key.bytes.toList)).toList).toList ++
        '+' :: Base64.encodeChars (1 :: key.bytes.toList)) := String.toList_ofList
  unfold Verifier.parse
  rw [htext, nextPart_append hplus]
  simp only [nextPart_append (plus_not_mem_hexEncode _), except_bind_eq_ok, refuseIf_eq_ok,
    canonicalBase64_iff]
  refine ⟨(), by omega, (), by simp [hname], (), ?_, _, rfl, (), by simp, (), ?_, ?_⟩
  · rw [not_not]
    refine ⟨?_, Trust.hexEncode_all_lower _⟩
    rw [length_hexEncode, Vector.length_toList]
  · simp [String.ofList_toList]
  · rw [List.tail_cons, toVector_eq_some.mpr rfl]
    simp only [hpoint, except_bind_eq_ok, refuseIf_eq_ok]
    exact ⟨(), by simp [hweak], trivial⟩

/-! ### Checkpoints -/

theorem validate_iff {trust : LogConfig} :
    trust.validate s = .ok () ↔ trust.format = "attest-log/v1" ∧
      validName trust.origin.toList = true ∧ trust.origin.utf8ByteSize ≤ 4096 ∧
      ∃ v, Verifier.parse s trust.verifierKey = .ok v := by
  unfold LogConfig.validate
  simp only [except_bind_eq_ok, refuseIf_eq_ok, not_not, exists_const, and_assoc, and_true]

theorem verify_eq {trust : LogConfig} {v : Verifier} {note : String}
    (hvalid : trust.validate s = .ok ()) (hv : Verifier.parse s trust.verifierKey = .ok v) :
    Checkpoint.verify s note trust =
      v.verifyNote s note >>= fun body => readBody s trust note (lines body) := by
  unfold Checkpoint.verify
  rw [hvalid, hv]
  rfl

theorem of_verify {trust : LogConfig} {v : Verifier} {note : String} {c : Checkpoint}
    (hvalid : trust.validate s = .ok ()) (hv : Verifier.parse s trust.verifierKey = .ok v)
    (h : Checkpoint.verify s note trust = .ok c) :
    c.signedNote = note ∧ c.Sized s ∧ ∃ extensions signatures,
      (∀ line ∈ extensions, IsExtension line) ∧
      v.verifyNote s note = .ok (checkpointBody trust.origin c.treeSize c.root extensions) ∧
      SignedAs s v (checkpointBody trust.origin c.treeSize c.root extensions) signatures ∧
      note = signedNote (checkpointBody trust.origin c.treeSize c.root extensions) signatures := by
  rw [verify_eq hvalid hv, except_bind_eq_ok] at h
  obtain ⟨body, hbody, hread⟩ := h
  obtain ⟨_, hend, hplain, signatures, hsigned, hnote⟩ := verifyNote_iff.mp hbody
  obtain ⟨hsame, hsized, extensions, hextensions, rfl⟩ := eq_checkpointBody hend hplain hread
  exact ⟨hsame, hsized, extensions, signatures, hextensions, hbody, hsigned, hnote⟩

theorem verify_signedNote {trust : LogConfig} {v : Verifier} {size : Nat} {root : Hash}
    {extensions : List (List Char)} {signatures : List NoteSignature}
    (hvalid : trust.validate s = .ok ()) (hv : Verifier.parse s trust.verifierKey = .ok v)
    (hsize : size < 2 ^ 64) (hempty : size = 0 → root = emptyRoot s.sha256)
    (hextensions : ∀ line ∈ extensions, IsExtension line)
    (hsigned : SignedAs s v (checkpointBody trust.origin size root extensions) signatures)
    (hbytes : (signedNote (checkpointBody trust.origin size root extensions) signatures).utf8ByteSize ≤
      maxNoteBytes) :
    Checkpoint.verify s
        (signedNote (checkpointBody trust.origin size root extensions) signatures) trust =
      .ok ⟨size, root, signedNote (checkpointBody trust.origin size root extensions) signatures⟩ := by
  have horigin := (validate_iff.mp hvalid).2.1
  obtain ⟨hlines, hplain⟩ := lines_checkpointBody size root horigin hextensions
  have hend : ∃ text, checkpointBody trust.origin size root extensions = text ++ ['\n'] := by
    have hlast : (checkpointBody trust.origin size root extensions).getLast? = some '\n' :=
      getLast?_unlines (by simp)
    exact List.getLast?_eq_some_iff.mp hlast
  rw [verify_eq hvalid hv, except_bind_eq_ok]
  refine ⟨_, verifyNote_iff.mpr ⟨hbytes, hend, hplain, signatures, hsigned, rfl⟩, ?_⟩
  rw [hlines]
  refine readBody_iff.mpr ⟨rfl, ⟨hsize, hempty⟩, extensions, ?_, rfl⟩
  exact fun hmem => (hextensions [] hmem).nonempty rfl

/-- **A checkpoint is read as it was written.** The canonical note of a size and a root is
accepted and gives them back; what a note that is accepted signs is the canonical text of
what was read from it; so one signed body gives one size and one root. -/
theorem checkpoint_verify_canonical {trust : LogConfig} {v : Verifier}
    (hvalid : trust.validate s = .ok ()) (hv : Verifier.parse s trust.verifierKey = .ok v) :
    (∀ size root extensions signatures, size < 2 ^ 64 →
      (size = 0 → root = emptyRoot s.sha256) → (∀ line ∈ extensions, IsExtension line) →
      SignedAs s v (checkpointBody trust.origin size root extensions) signatures →
      (signedNote (checkpointBody trust.origin size root extensions) signatures).utf8ByteSize ≤
        maxNoteBytes →
      ∃ c, Checkpoint.verify s
          (signedNote (checkpointBody trust.origin size root extensions) signatures) trust = .ok c ∧
        c.treeSize = size ∧ c.root = root) ∧
    (∀ note c, Checkpoint.verify s note trust = .ok c → ∃ extensions signatures,
      (∀ line ∈ extensions, IsExtension line) ∧
      v.verifyNote s note = .ok (checkpointBody trust.origin c.treeSize c.root extensions) ∧
      SignedAs s v (checkpointBody trust.origin c.treeSize c.root extensions) signatures ∧
      note = signedNote (checkpointBody trust.origin c.treeSize c.root extensions) signatures) ∧
    (∀ note note' body c c', v.verifyNote s note = .ok body → v.verifyNote s note' = .ok body →
      Checkpoint.verify s note trust = .ok c → Checkpoint.verify s note' trust = .ok c' →
      c.treeSize = c'.treeSize ∧ c.root = c'.root) := by
  refine ⟨?_, ?_, ?_⟩
  · intro size root extensions signatures hsize hempty hextensions hsigned hbytes
    exact ⟨_, verify_signedNote hvalid hv hsize hempty hextensions hsigned hbytes, rfl, rfl⟩
  · intro note c h
    exact (of_verify hvalid hv h).2.2
  · intro note note' body c c' hbody hbody' h h'
    obtain ⟨_, _, extensions, _, hextensions, hread, _⟩ := of_verify hvalid hv h
    obtain ⟨_, _, extensions', _, hextensions', hread', _⟩ := of_verify hvalid hv h'
    rw [hbody] at hread
    rw [hbody'] at hread'
    exact checkpointBody_injective (validate_iff.mp hvalid).2.1 hextensions hextensions'
      ((Except.ok.inj hread).symm.trans (Except.ok.inj hread'))

end Suite

/-! ### A log of two entries

The published vectors of the repository's own log: a causal root of ones opened by a
nonce of twos is the first entry, `leaf-0001` the second. -/

def fixtureOrigin : String := "fixture.test/log"

def fixtureKey : VerifyingKey :=
  ⟨digest 0xe2fe2a39b7326642827d6d82d497622cd6c297fe78270eaa436b01f086b6f3cb⟩

def fixtureVerifierKey : String :=
  "fixture.test/log+71b95be7+AeL+Kjm3MmZCgn1tgtSXYizWwpf+eCcOqkNrAfCGtvPL"

def fixtureVerifier : Verifier := ⟨fixtureOrigin.toList, #v[0x71, 0xb9, 0x5b, 0xe7], fixtureKey⟩

def fixtureConfig : LogConfig :=
  { format := "attest-log/v1"
    origin := fixtureOrigin
    verifierKey := fixtureVerifierKey
    readUrl := some "https://log.test"
    submitUrl := some "https://log.test/add"
    tlsCa := none }

/-- The commitment of the root and the nonce. -/
def fixtureCommitment : Hash :=
  digest 0x7eaa6640b8cebcfabfb25519519c7776d084157c9a4fee080996585706cba21d

def fixtureEntry : Bytes := utf8 "attest-causal-root/v1\n" ++ fixtureCommitment.toList

def fixtureRootOne : Hash :=
  digest 0x6a57ef30b451d391432c3437940455ddaaf5964a4dd7ca9f20109164e11b3349

def fixtureLeafTwo : Hash :=
  digest 0x1709dab54fe8ae03851a13c6f689f5a3d67f6bf2b8ab1a4dc18bcd109280f05b

def fixtureRootTwo : Hash :=
  digest 0xbf77cf0ba6b5a0e381f3c62834382a810ca256b761b461c27d38be8afe3f0773

/-- SHA-256 on the preimages of this log. -/
def fixtureSha256 (preimage : Bytes) : Hash :=
  (List.lookup preimage
    [([], digest 0xe3b0c44298fc1c149afbf4c8996fb92427ae41e4649b934ca495991b7852b855),
      (utf8 fixtureOrigin ++ 10 :: 1 :: fixtureKey.bytes.toList,
        digest 0x71b95be735c75085c24e15eedd89f3c4dc01814efab8e681fadcc5894129439d),
      (utf8 ("attest-log/v1\n" ++ fixtureOrigin ++ "\n" ++ fixtureVerifierKey),
        digest 0x94bed270c53d845ef5f9158424c71ac86fddee380e80f5d361e0189f65ffa067),
      (utf8 "attest-causal-root/v1" ++ 0 :: (List.replicate 32 0x22 ++ List.replicate 32 0x11),
        fixtureCommitment),
      (0 :: fixtureEntry, fixtureRootOne),
      (0 :: utf8 "leaf-0001", fixtureLeafTwo),
      (1 :: (fixtureRootOne.toList ++ fixtureLeafTwo.toList), fixtureRootTwo)]).getD (digest 0)

def fixtureBody (size : Nat) (root : Hash) : List Char := checkpointBody fixtureOrigin size root []

/-- The bytes a hexadecimal number of a signature spells. -/
def signatureBytes (n : Nat) : Vector UInt8 64 :=
  Vector.ofFn fun i => UInt8.ofNat (n / 256 ^ (63 - i.val) % 256)

def fixtureSignatureOne : Vector UInt8 64 := signatureBytes
  0x9067be7959c45f2cb3b6f0d04ccde54951af45ace41ca544cec7a26c85ec47f2017a253218a0e3bd2509b7f115cb8501bef67d8fc8a1adb09e55d2339abbf00b

def fixtureSignatureTwo : Vector UInt8 64 := signatureBytes
  0x327220a5e6e05c0f1ee4375e4a774b2a9c8771f17b670532f2d6831d41e1a8c03f6c745e8edff537f8a90f1aa934e3935edd5d7e5921c4d08ff5338dc6757b0a

/-- The log's key is a sound one, and it signed these two bodies. -/
def fixtureSuite : Suite where
  sha256 := fixtureSha256
  pointError _ := none
  isWeak _ := false
  verifyStrict key message signature :=
    key.bytes == fixtureKey.bytes &&
      (message == utf8 (String.ofList (fixtureBody 1 fixtureRootOne)) &&
          signature == fixtureSignatureOne ||
        message == utf8 (String.ofList (fixtureBody 2 fixtureRootTwo)) &&
          signature == fixtureSignatureTwo)

def fixtureSignature (signature : Vector UInt8 64) : NoteSignature :=
  ⟨fixtureOrigin.toList, #v[0x71, 0xb9, 0x5b, 0xe7], signature.toList⟩

def fixtureNote (size : Nat) (root : Hash) (signature : Vector UInt8 64) : String :=
  signedNote (fixtureBody size root) [fixtureSignature signature]

/-- The name of the log and what is written of its key. -/
theorem texts_fixture :
    validName fixtureOrigin.toList = true ∧ fixtureOrigin.utf8ByteSize ≤ 4096 ∧
      fixtureVerifierKey.utf8ByteSize ≤ 4096 ∧
      fixtureVerifierKey =
        String.ofList (verifierKeyText fixtureSuite fixtureOrigin.toList fixtureKey) ∧
      keyIdentifier fixtureSuite fixtureOrigin.toList (1 :: fixtureKey.bytes.toList) =
        #v[0x71, 0xb9, 0x5b, 0xe7] := by
  decide +kernel

theorem parse_fixture : Verifier.parse fixtureSuite fixtureVerifierKey = .ok fixtureVerifier := by
  obtain ⟨hname, _, hsize, hkey, hid⟩ := texts_fixture
  rw [hkey] at hsize ⊢
  rw [parse_verifierKeyText hsize hname rfl rfl, hid]
  rfl

theorem validate_fixture : fixtureConfig.validate fixtureSuite = .ok () :=
  validate_iff.mpr ⟨rfl, texts_fixture.1, texts_fixture.2.1, fixtureVerifier, parse_fixture⟩

theorem signedAs_fixture {size : Nat} {root : Hash} {signature : Vector UInt8 64}
    (h : fixtureSuite.verifyStrict fixtureKey (utf8 (String.ofList (fixtureBody size root)))
      signature = true) :
    SignedAs fixtureSuite fixtureVerifier (fixtureBody size root) [fixtureSignature signature] where
  atMost := by
    rw [List.length_singleton]
    decide
  wellFormed := by
    intro x hx
    rw [List.mem_singleton.mp hx]
    refine ⟨?_, by simp [fixtureSignature], by simp [fixtureSignature]⟩
    exact texts_fixture.1
  distinct := List.nodup_singleton _
  authentic := ⟨fixtureSignature signature, List.mem_singleton_self _, rfl, signature, rfl, h⟩

theorem signed_fixture_one :
    fixtureSuite.verifyStrict fixtureKey (utf8 (String.ofList (fixtureBody 1 fixtureRootOne)))
      fixtureSignatureOne = true := by
  simp [fixtureSuite]

theorem signed_fixture_two :
    fixtureSuite.verifyStrict fixtureKey (utf8 (String.ofList (fixtureBody 2 fixtureRootTwo)))
      fixtureSignatureTwo = true := by
  simp [fixtureSuite]

theorem verify_fixtureNote {size : Nat} {root : Hash} {signature : Vector UInt8 64}
    (hsize : size < 2 ^ 64) (hpos : size ≠ 0)
    (hsigned : fixtureSuite.verifyStrict fixtureKey (utf8 (String.ofList (fixtureBody size root)))
      signature = true)
    (hbytes : (fixtureNote size root signature).utf8ByteSize ≤ maxNoteBytes) :
    Checkpoint.verify fixtureSuite (fixtureNote size root signature) fixtureConfig =
      .ok ⟨size, root, fixtureNote size root signature⟩ := by
  have hbody : fixtureBody size root = checkpointBody fixtureConfig.origin size root [] := rfl
  have hsignedAs := signedAs_fixture hsigned
  rw [fixtureNote, hbody] at hbytes ⊢
  rw [hbody] at hsignedAs
  exact verify_signedNote validate_fixture parse_fixture hsize (fun h => absurd h hpos)
    (fun _ hline => absurd hline List.not_mem_nil) hsignedAs hbytes

/-- The checkpoint of two entries. -/
theorem checkpoint_verify_canonical_fixture :
    ∃ c, Checkpoint.verify fixtureSuite (fixtureNote 2 fixtureRootTwo fixtureSignatureTwo)
        fixtureConfig = .ok c ∧ c.treeSize = 2 ∧ c.root = fixtureRootTwo :=
  (checkpoint_verify_canonical validate_fixture parse_fixture).1 2 fixtureRootTwo [] _
    (by decide) (by decide) (by simp) (signedAs_fixture signed_fixture_two) (by decide +kernel)

end Attest.Publication.Note
