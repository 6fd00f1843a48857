import Attest.Verify.Checks

/-! What a policy makes of a verdict, as `apply_policy` documents it.

A requirement is established by the first check of its name, when that check ran and
passed; trust and success are established by the facts the verdict states. Nothing is read
of an earlier verdict, so a surface that adds checks applies the policy again, and
`applyPolicy_documented` says that this is the same as applying it once at the end. -/
namespace Attest.Verify

/-- The check that establishes a requirement, where one does. -/
def Requirement.checkName : Requirement → Option String
  | .linkage => some "chain-linkage"
  | .trust => none
  | .success => none
  | requirement => some requirement.name

/-- The first check of a name. -/
def FirstCheck (checks : List Check) (name : String) (check : Check) : Prop :=
  check.name = name ∧
    ∃ before after, checks = before ++ check :: after ∧ ∀ other ∈ before, other.name ≠ name

/-- What a requirement asks of a verdict. -/
def Established (verdict : ReceiptVerdict) (requirement : Requirement) : Prop :=
  match requirement.checkName with
  | some name => ∃ check, FirstCheck verdict.checks name check ∧ check.status = .pass
  | none =>
    match requirement with
    | .trust => ∃ material, verdict.trustMaterial = some material ∧ material.state = "current"
    | _ => ∃ execution, verdict.execution = some execution ∧ execution.outcome = "success"

/-- The verdict with more checks at its end. -/
def ReceiptVerdict.withChecks (verdict : ReceiptVerdict) (added : List Check) : ReceiptVerdict :=
  { verdict with checks := verdict.checks ++ added }

section Policy
variable {verdict : ReceiptVerdict} {required : List Requirement} {name : String}

theorem firstCheck_iff {checks : List Check} {check : Check} :
    FirstCheck checks name check ↔ checks.find? (fun c => c.name == name) = some check := by
  rw [List.find?_eq_some_iff_append, FirstCheck]
  simp [beq_iff_eq, beq_eq_false_iff_ne]

theorem checkReason_eq_none_iff : checkReason verdict name = none ↔
    ∃ check, FirstCheck verdict.checks name check ∧ check.status = .pass := by
  simp only [firstCheck_iff, checkReason]
  cases verdict.checks.find? fun c => c.name == name with
  | none => simp
  | some check =>
    obtain ⟨_, status, _⟩ := check
    cases status <;> simp

theorem checkReason_eq_none (h : checkReason verdict name = none) :
    ∃ check ∈ verdict.checks, check.name = name ∧ check.status = .pass := by
  obtain ⟨check, ⟨hname, before, after, hchecks, _⟩, hstatus⟩ := checkReason_eq_none_iff.mp h
  refine ⟨check, ?_, hname, hstatus⟩
  rw [hchecks]
  exact List.mem_append_right _ (List.mem_cons_self ..)

/-- The code finds a reason exactly where a requirement is not established. -/
theorem unmetReason_eq_none_iff {requirement : Requirement} :
    unmetReason verdict requirement = none ↔ Established verdict requirement := by
  cases requirement
  case trust =>
    simp only [unmetReason, Established, Requirement.checkName]
    cases verdict.trustMaterial <;> simp
  case success =>
    simp only [unmetReason, Established, Requirement.checkName]
    cases verdict.execution <;> simp
  all_goals exact checkReason_eq_none_iff

instance (requirement : Requirement) : Decidable (Established verdict requirement) :=
  decidable_of_iff _ unmetReason_eq_none_iff

/-- A verdict passes exactly when no check failed and every requirement is met. -/
theorem passed_applyPolicy : (applyPolicy verdict required).passed = true ↔
    (∀ check ∈ verdict.checks, check.status ≠ .fail) ∧
      ∀ requirement ∈ required, unmetReason verdict requirement = none := by
  have hfailed : (verdict.checks.any fun check => check.status == .fail) = false ↔
      ∀ check ∈ verdict.checks, check.status ≠ .fail := by
    simp only [List.any_eq_false, beq_iff_eq, ne_eq]
  have hunmet : (required.filterMap fun requirement =>
      (unmetReason verdict requirement).map (Unmet.mk requirement)).isEmpty = true ↔
        ∀ requirement ∈ required, unmetReason verdict requirement = none := by
    simp only [List.isEmpty_iff, List.filterMap_eq_nil_iff, Option.map_eq_none_iff]
  rw [← hfailed, ← hunmet]
  simp only [ReceiptVerdict.passed, applyPolicy]
  cases verdict.checks.any fun check => check.status == .fail with
  | true => simp
  | false => simp

theorem passed_iff_established : (applyPolicy verdict required).passed = true ↔
    (∀ check ∈ verdict.checks, check.status ≠ .fail) ∧
      ∀ requirement ∈ required, Established verdict requirement := by
  simp only [passed_applyPolicy, unmetReason_eq_none_iff]

/-- The outcome lists what is not established, in the order it was required. -/
theorem unmet_applyPolicy : ∃ outcome, (applyPolicy verdict required).policy = some outcome ∧
    outcome.required = required ∧
    outcome.unmet.map Unmet.requirement =
      required.filter fun requirement => ¬ Established verdict requirement := by
  refine ⟨_, rfl, rfl, ?_⟩
  show (required.filterMap _).map _ = _
  induction required with
  | nil => rfl
  | cons requirement rest ih =>
    cases hreason : unmetReason verdict requirement with
    | none =>
      have hmet := unmetReason_eq_none_iff.mp hreason
      rw [List.filterMap_cons, hreason, List.filter_cons_of_neg (by simpa using hmet)]
      exact ih
    | some reason =>
      have hunmet : ¬ Established verdict requirement := by
        rw [← unmetReason_eq_none_iff, hreason]
        simp
      rw [List.filterMap_cons, hreason, List.filter_cons_of_pos (by simpa using hunmet)]
      exact congrArg (requirement :: ·) ih

/-- Nothing of an earlier application is read. -/
theorem unmetReason_applied {earlier : List Requirement} {added : List Check}
    (requirement : Requirement) :
    unmetReason ((applyPolicy verdict earlier).withChecks added) requirement =
      unmetReason (verdict.withChecks added) requirement := by
  cases requirement <;> rfl

theorem applyPolicy_again {earlier : List Requirement} {added : List Check} :
    applyPolicy ((applyPolicy verdict earlier).withChecks added) required =
      applyPolicy (verdict.withChecks added) required := by
  have hreason : unmetReason ((applyPolicy verdict earlier).withChecks added) =
      unmetReason (verdict.withChecks added) := by
    funext requirement
    exact unmetReason_applied requirement
  unfold applyPolicy at hreason ⊢
  simp only [hreason]
  rfl

/-- A check behind the first of its name is not looked at. -/
theorem firstCheck_of_append {checks : List Check} {check added : Check}
    (hfirst : added.name = name → ∃ other ∈ checks, other.name = name)
    (h : FirstCheck (checks ++ [added]) name check) : FirstCheck checks name check := by
  rw [firstCheck_iff, List.find?_append] at h
  rw [firstCheck_iff]
  cases hfound : checks.find? fun c => c.name == name with
  | some first =>
    rw [hfound] at h
    exact h
  | none =>
    have hnone : ∀ other ∈ checks, other.name ≠ name := by
      simpa [List.find?_eq_none, beq_iff_eq] using hfound
    have hadded : added.name ≠ name := by
      intro hname
      obtain ⟨other, hother, heq⟩ := hfirst hname
      exact hnone other hother heq
    rw [hfound, List.find?_cons_of_neg (by simpa using hadded)] at h
    cases h

/-- A check that is the first of no required name establishes nothing. -/
theorem established_of_withChecks {requirement : Requirement} {added : Check}
    (hfirst : requirement.checkName = some added.name →
      ∃ other ∈ verdict.checks, other.name = added.name)
    (h : Established (verdict.withChecks [added]) requirement) :
    Established verdict requirement := by
  unfold Established at h ⊢
  cases hname : requirement.checkName with
  | none =>
    rw [hname] at h
    exact h
  | some name =>
    rw [hname] at h hfirst
    obtain ⟨check, hcheck, hstatus⟩ := h
    refine ⟨check, firstCheck_of_append ?_ hcheck, hstatus⟩
    intro hadded
    rw [← hadded]
    exact hfirst (by rw [hadded])

end Policy

/-- **A policy computes the verdict it documents.** The verdict is a pass exactly when no
check failed and every requirement is established, and the outcome lists those that are
not. Applying it again, with or without more checks, is applying it once at the end. A
check that is the first of no required name, and a further requirement, never turn a
refusal into a pass. -/
theorem applyPolicy_documented (verdict : ReceiptVerdict) (required : List Requirement) :
    ((applyPolicy verdict required).passed = true ↔
      (∀ check ∈ verdict.checks, check.status ≠ .fail) ∧
        ∀ requirement ∈ required, Established verdict requirement) ∧
    (∃ outcome, (applyPolicy verdict required).policy = some outcome ∧
      outcome.required = required ∧
      outcome.unmet.map Unmet.requirement =
        required.filter fun requirement => ¬ Established verdict requirement) ∧
    (applyPolicy (applyPolicy verdict required) required = applyPolicy verdict required) ∧
    (∀ (earlier : List Requirement) (added : List Check),
      applyPolicy ((applyPolicy verdict earlier).withChecks added) required =
        applyPolicy (verdict.withChecks added) required) ∧
    (∀ added : Check,
      (∀ requirement ∈ required, requirement.checkName = some added.name →
        ∃ other ∈ verdict.checks, other.name = added.name) →
      (applyPolicy verdict required).passed = false →
      (applyPolicy (verdict.withChecks [added]) required).passed = false) ∧
    (∀ more : List Requirement, (∀ requirement ∈ required, requirement ∈ more) →
      (applyPolicy verdict required).passed = false →
      (applyPolicy verdict more).passed = false) := by
  refine ⟨passed_iff_established, unmet_applyPolicy, ?_, ?_, ?_, ?_⟩
  · have hsame : ∀ v : ReceiptVerdict, v.withChecks [] = v := by
      intro v
      simp [ReceiptVerdict.withChecks]
    have hagain := @applyPolicy_again verdict required required []
    rwa [hsame, hsame] at hagain
  · intro earlier added
    exact applyPolicy_again
  · intro added hfirst hrefused
    rw [← Bool.not_eq_true, passed_iff_established] at hrefused ⊢
    intro hpassed
    apply hrefused
    constructor
    · intro check hcheck
      exact hpassed.1 check (List.mem_append_left _ hcheck)
    · intro requirement hrequirement
      exact established_of_withChecks (hfirst requirement hrequirement)
        (hpassed.2 requirement hrequirement)
  · intro more hmore hrefused
    rw [← Bool.not_eq_true, passed_iff_established] at hrefused ⊢
    intro hpassed
    apply hrefused
    constructor
    · exact hpassed.1
    · intro requirement hrequirement
      exact hpassed.2 requirement (hmore requirement hrequirement)

/-- A receipt whose signature check failed, with a second check of that name behind it. -/
def twiceSigned : ReceiptVerdict where
  receipt := "receipt.yaml"
  verdict := "fail"
  checks := [⟨"signature", .skipped, "disabled by --no-check-signatures"⟩]
  signedBy := none
  warnings := []
  trustMaterial := none
  execution := none

theorem applyPolicy_documented_twiceSigned :
    (applyPolicy (twiceSigned.withChecks [⟨"signature", .pass, "signed by a trusted key"⟩])
      [.signature]).passed = false ∧
    (applyPolicy twiceSigned [.signature, .trust]).passed = false :=
  ⟨(applyPolicy_documented twiceSigned [.signature]).2.2.2.2.1 _
      (fun _ _ _ => ⟨_, List.mem_cons_self .., rfl⟩) (by decide +kernel),
    (applyPolicy_documented twiceSigned [.signature]).2.2.2.2.2 _ (by decide) (by decide +kernel)⟩

end Attest.Verify
