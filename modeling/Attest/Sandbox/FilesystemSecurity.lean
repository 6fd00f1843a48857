import Attest.Hashing.Copies
import Attest.Library.Utf8
import Attest.Sandbox.Command
import Attest.Trust.Specs

/-! The host paths a strict container mounts, after `sandbox/filesystem_security.rs` and
`create_secure_volumes`.

A volume is kept where its path starts like a safe directory and a policy allows it. Both
look at the text: a name that only starts like `tmp` or `workspace` is taken for the
directory. The policy resolves a path with dots against the file system where it is there,
and sees the place its links lead to; the mount is of the path as it is written.
`strict_mounts_confined_iff` says of which volumes all that are kept are inside. -/
namespace Attest.Sandbox
open Library Hashing
open Trust (Bytes utf8 utf8_ofList utf8_injective)

/-! ### Policies -/

inductive AccessMode
  | readOnly
  | readWrite
  | execute
  | forbidden
deriving DecidableEq

structure FilesystemRule where
  pathPattern : String
  accessMode : AccessMode
  recursive : Bool
  priority : Nat

structure FilesystemSecurityPolicy where
  defaultAccess : AccessMode
  rules : List FilesystemRule
  allowedExtensions : Option (List String)
  forbiddenExtensions : List String
  preventPathTraversal : Bool

/-- `FilesystemSecurityPolicy::default`. -/
def defaultPolicy : FilesystemSecurityPolicy where
  defaultAccess := .forbidden
  rules := [⟨"/tmp/*", .readWrite, true, 100⟩, ⟨"/workspace/*", .readWrite, true, 200⟩,
    ⟨"/etc/*", .forbidden, true, 1000⟩, ⟨"/proc/*", .forbidden, true, 1000⟩,
    ⟨"/sys/*", .forbidden, true, 1000⟩]
  allowedExtensions := none
  forbiddenExtensions := ["exe", "bat", "cmd", "com", "scr"]
  preventPathTraversal := true

/-- `with_strict_policy`. -/
def strictPolicy : FilesystemSecurityPolicy :=
  { defaultPolicy with
    rules := defaultPolicy.rules ++ [⟨"/workspace/*.tmp", .readWrite, false, 50⟩] }

/-- The policy of a security level. -/
def levelPolicy : SecurityLevel → FilesystemSecurityPolicy
  | .minimal => defaultPolicy
  | .standard => defaultPolicy
  | .maximum => strictPolicy

/-! ### Texts -/

def startsWith (text start : String) : Bool := start.toList.isPrefixOf text.toList

def endsWith (text ending : String) : Bool := ending.toList.isSuffixOf text.toList

def contains (text part : String) : Bool := decide (part.toList <:+: text.toList)

/-- `strip_suffix`. -/
def stripSuffix (text ending : String) : Option String :=
  if endsWith text ending then
    some (String.ofList (text.toList.take (text.toList.length - ending.toList.length)))
  else none

/-! ### Access -/

/-- What the code asks of the system: `canonicalize`, and the lower case of a text. A path is
its text, as `to_string_lossy` shows it. -/
structure PathHost where
  canonicalize : String → Option String
  toLowercase : String → String

inductive FilesystemViolationType
  | forbiddenPath
  | pathTraversal
  | forbiddenExtension
deriving DecidableEq

structure FilesystemViolation where
  path : String
  attemptedAccess : AccessMode
  violationType : FilesystemViolationType
  context : String

section Access
variable (host : PathHost) (policy : FilesystemSecurityPolicy)

/-- Only a path with dots is resolved, and only where it is there. -/
def resolved (path : String) : Option String :=
  if contains path ".." || contains path "./" then host.canonicalize path else none

def normalizePath (path : String) : String := (resolved host path).getD path

def hasPathTraversal (path : String) : Bool :=
  contains path "../" || contains path "..\\" || contains path "/.."

/-- `Path::extension`: what follows the last dot of the last name, unless that starts it. -/
def extension (path : String) : Option String :=
  match (path.toList.splitOn '/').reverse.find? fun part => part ≠ [] ∧ part ≠ ['.'] with
  | none => none
  | some part =>
    if part = ['.', '.'] then none
    else
      match (part.splitOn '.').reverse with
      | last :: before => if before.flatten = [] ∧ before.length ≤ 1 then none else some (String.ofList last)
      | [] => none

def pathMatchesPattern (path pattern : String) (recursive : Bool) : Bool :=
  match stripSuffix pattern "/*" with
  | some start =>
    if recursive then startsWith path start
    else startsWith path start &&
      decide ((path.toList.drop start.toList.length).count '/' ≤ 1)
  | none =>
    if pattern.toList.contains '*' then
      match pattern.toList.splitOn '*' with
      | [first, second] =>
        startsWith path (String.ofList first) && endsWith path (String.ofList second)
      | _ => false
    else path == pattern || recursive && startsWith path (pattern ++ "/")

/-- The rule of the highest priority among those that match, the first of them. -/
def findMatchingRule (path : String) : Option FilesystemRule :=
  (StableSort.sortByKey (fun rule => OrderDual.toDual rule.priority)
    (policy.rules.filter fun rule => pathMatchesPattern path rule.pathPattern rule.recursive)).head?

def permits : AccessMode → AccessMode → Bool
  | .readWrite, _ => true
  | .readOnly, .readOnly => true
  | .execute, .execute => true
  | _, _ => false

/-- Why the extension of a path is refused. -/
def extensionRefused (path : String) : Option String := do
  let ext := host.toLowercase (← extension path)
  if policy.forbiddenExtensions.contains ext then return s!"Forbidden file extension: {ext}"
  let allowed ← policy.allowedExtensions
  if allowed.contains ext then none else return s!"File extension not in allowlist: {ext}"

/-- Whether a path may be accessed, and the violation that is recorded where not. -/
def checkPathAccess (path : String) (mode : AccessMode) : Bool × Option FilesystemViolation :=
  let normalized := normalizePath host path
  if policy.preventPathTraversal && hasPathTraversal normalized then
    (false, some ⟨normalized, mode, .pathTraversal, "Path traversal detected"⟩)
  else
    match extensionRefused host policy normalized with
    | some context => (false, some ⟨normalized, mode, .forbiddenExtension, context⟩)
    | none =>
      let access := ((findMatchingRule policy normalized).map (·.accessMode)).getD policy.defaultAccess
      if permits access mode then (true, none)
      else (false, some ⟨normalized, mode, .forbiddenPath, "Access denied by policy rule"⟩)

end Access

/-- The volumes of a strict container at this level. -/
def secureVolumes (host : PathHost) (level : SecurityLevel) (volumes : List VolumeMount)
    (tempDir : String) : List VolumeMount :=
  createSecureVolumes (fun path => (checkPathAccess host (levelPolicy level) path .readOnly).1)
    volumes tempDir

/-! ### Inside -/

/-- Equal to one of these directories of the root, or below it, once `.` and `..` are resolved
in the text. -/
def InsideOf (roots : List String) (path : String) : Prop :=
  (Path.ofString path).absolute = true ∧
    ∃ root ∈ roots, ((lexicalNames (Path.ofString path).components).head?.map Name.bytes) =
      some (utf8 root)

def safeRoots : List String := ["tmp", "workspace", "data"]

/-- The subtrees that the allowing rules of the policies name. -/
def allowedRoots : List String := ["tmp", "workspace"]

/-- The text starts with one of these directories of the root. -/
def StartsIn (roots : List String) (path : String) : Prop :=
  ∃ root ∈ roots, '/' :: root.toList <+: path.toList

/-- A path that starts like the directory and goes on within the name. -/
def Sibling (root path : String) : Prop :=
  ∃ c rest, path.toList = '/' :: root.toList ++ c :: rest ∧ c ≠ '/'

/-- A path that no rule is asked about. -/
def RefusedEarly (host : PathHost) (policy : FilesystemSecurityPolicy) (path : String) : Prop :=
  hasPathTraversal path = true ∨ (extensionRefused host policy path).isSome = true

instance (roots : List String) (path : String) : Decidable (InsideOf roots path) :=
  inferInstanceAs (Decidable (_ ∧ ∃ root ∈ roots, _))

instance (path : String) (host : PathHost) (policy : FilesystemSecurityPolicy) :
    Decidable (RefusedEarly host policy path) := inferInstanceAs (Decidable (_ ∨ _))

/-- No sibling of an allowed directory comes before the rules. -/
def AccessClear (host : PathHost) (policy : FilesystemSecurityPolicy) (path : String) : Prop :=
  ∀ root ∈ allowedRoots, Sibling root (normalizePath host path) →
    RefusedEarly host policy (normalizePath host path)

/-- Of a path that is not resolved, that it is no sibling; of one that is, that its text
leads into a safe directory too where the place it resolves to is allowed. -/
def VolumeClear (host : PathHost) (policy : FilesystemSecurityPolicy) (path : String) : Prop :=
  match resolved host path with
  | none => ∀ root ∈ allowedRoots, Sibling root path → RefusedEarly host policy path
  | some place =>
    StartsIn safeRoots path → StartsIn allowedRoots place →
      RefusedEarly host policy place ∨ InsideOf safeRoots path

/-! ### What is allowed -/

theorem startsWith_iff {text start : String} :
    startsWith text start = true ↔ start.toList <+: text.toList := List.isPrefixOf_iff_prefix

theorem not_prefix_of_apart {a b text : List Char} (h : ¬ a <+: b ∧ ¬ b <+: a) (ha : a <+: text) :
    ¬ b <+: text := by
  intro hb
  rcases List.prefix_or_prefix_of_prefix ha hb with hle | hle
  · exact h.1 hle
  · exact h.2 hle

theorem isVolumeSafe_iff {path : String} : isVolumeSafe path = true ↔ StartsIn safeRoots path := by
  have hapart : ∀ root ∈ safeRoots, ∀ dangerous ∈ ["/boot", "/dev", "/etc", "/proc", "/sys", "/run",
      "/usr", "/var", "/opt", "/root", "/home"], ¬ '/' :: root.toList <+: dangerous.toList ∧
        ¬ dangerous.toList <+: '/' :: root.toList := by decide
  have hsafe : ["/tmp", "/workspace", "/data"].any (fun start => start.toList.isPrefixOf path.toList) =
      true ↔ StartsIn safeRoots path := by
    simp [StartsIn, safeRoots]
  rw [isVolumeSafe, Bool.and_eq_true, hsafe, and_iff_left_iff_imp]
  intro hstart
  obtain ⟨root, hroot, hstart⟩ := hstart
  rw [Bool.not_eq_true', List.any_eq_false]
  intro dangerous hdangerous hle
  exact not_prefix_of_apart (hapart root hroot dangerous hdangerous) hstart
    (List.isPrefixOf_iff_prefix.mp hle)

/-- Every rule of the policies is about what starts with its directory. -/
theorem matches_start {path : String} {rule : FilesystemRule} (h : rule ∈ strictPolicy.rules)
    (hmatch : pathMatchesPattern path rule.pathPattern rule.recursive = true) :
    rule.accessMode = .readWrite ∧ StartsIn allowedRoots path ∨
      rule.accessMode = .forbidden ∧ StartsIn ["etc", "proc", "sys"] path := by
  simp only [strictPolicy, defaultPolicy, List.cons_append, List.nil_append, List.mem_cons,
    List.not_mem_nil, or_false] at h
  rcases h with rfl | rfl | rfl | rfl | rfl | rfl
  · exact .inl ⟨rfl, "tmp", by decide, startsWith_iff.mp hmatch⟩
  · exact .inl ⟨rfl, "workspace", by decide, startsWith_iff.mp hmatch⟩
  · exact .inr ⟨rfl, "etc", by decide, startsWith_iff.mp hmatch⟩
  · exact .inr ⟨rfl, "proc", by decide, startsWith_iff.mp hmatch⟩
  · exact .inr ⟨rfl, "sys", by decide, startsWith_iff.mp hmatch⟩
  · have hparts : (startsWith path "/workspace/" && endsWith path ".tmp") = true := hmatch
    have hstart := startsWith_iff.mp ((Bool.and_eq_true _ _).mp hparts).1
    exact .inl ⟨rfl, "workspace", by decide, (by decide : _ <+: "/workspace/".toList).trans hstart⟩

theorem levelPolicy_rules {level : SecurityLevel} {rule : FilesystemRule}
    (h : rule ∈ (levelPolicy level).rules) : rule ∈ strictPolicy.rules := by
  cases level with
  | minimal => exact List.mem_append_left _ h
  | standard => exact List.mem_append_left _ h
  | maximum => exact h

theorem default_rules_mem {level : SecurityLevel} {rule : FilesystemRule}
    (h : rule ∈ defaultPolicy.rules) : rule ∈ (levelPolicy level).rules := by
  cases level with
  | minimal => exact h
  | standard => exact h
  | maximum => exact List.mem_append_left _ h

theorem mem_of_findMatchingRule {policy : FilesystemSecurityPolicy} {path : String}
    {rule : FilesystemRule} (h : findMatchingRule policy path = some rule) :
    rule ∈ policy.rules ∧ pathMatchesPattern path rule.pathPattern rule.recursive = true :=
  List.mem_filter.mp (StableSort.mem_sortByKey.mp (List.mem_of_mem_head? h))

/-- The rule of a path below an allowed directory lets it be read and written. -/
theorem findMatchingRule_allowed {path : String} (level : SecurityLevel)
    (h : StartsIn allowedRoots path) :
    ∃ rule, findMatchingRule (levelPolicy level) path = some rule ∧ rule.accessMode = .readWrite := by
  have hapart : ∀ root ∈ allowedRoots, ∀ other ∈ ["etc", "proc", "sys"],
      ¬ '/' :: root.toList <+: '/' :: other.toList ∧ ¬ '/' :: other.toList <+: '/' :: root.toList := by
    decide
  have hmatches : ∃ rule ∈ defaultPolicy.rules,
      pathMatchesPattern path rule.pathPattern rule.recursive = true := by
    obtain ⟨root, hroot, hstart⟩ := h
    rcases List.mem_pair.mp hroot with rfl | rfl
    · exact ⟨⟨"/tmp/*", .readWrite, true, 100⟩, .head _, startsWith_iff.mpr hstart⟩
    · exact ⟨⟨"/workspace/*", .readWrite, true, 200⟩, .tail _ (.head _), startsWith_iff.mpr hstart⟩
  cases hfound : findMatchingRule (levelPolicy level) path with
  | none =>
    obtain ⟨rule, hrule, hmatch⟩ := hmatches
    have hmem : rule ∈ (levelPolicy level).rules.filter fun rule =>
        pathMatchesPattern path rule.pathPattern rule.recursive :=
      List.mem_filter.mpr ⟨default_rules_mem hrule, hmatch⟩
    rw [findMatchingRule, List.head?_eq_none_iff] at hfound
    have hsorted : rule ∈ StableSort.sortByKey (fun rule => OrderDual.toDual rule.priority) _ :=
      StableSort.mem_sortByKey.mpr hmem
    rw [hfound] at hsorted
    cases hsorted
  | some rule =>
    refine ⟨rule, rfl, ?_⟩
    obtain ⟨hrule, hmatch⟩ := mem_of_findMatchingRule hfound
    rcases matches_start (levelPolicy_rules hrule) hmatch with hallowed | ⟨-, other, hother, hstart⟩
    · exact hallowed.1
    · obtain ⟨root, hroot, hin⟩ := h
      exact absurd hstart (not_prefix_of_apart (hapart root hroot other hother) hin)

/-- What the rules say of a path. -/
theorem permits_iff {path : String} {mode : AccessMode} (level : SecurityLevel) :
    permits (((findMatchingRule (levelPolicy level) path).map (·.accessMode)).getD
      (levelPolicy level).defaultAccess) mode = true ↔ StartsIn allowedRoots path := by
  have hdefault : (levelPolicy level).defaultAccess = .forbidden := by cases level <;> rfl
  rw [hdefault]
  constructor
  · intro h
    cases hfound : findMatchingRule (levelPolicy level) path with
    | none =>
      rw [hfound] at h
      cases h
    | some rule =>
      obtain ⟨hrule, hmatch⟩ := mem_of_findMatchingRule hfound
      rcases matches_start (levelPolicy_rules hrule) hmatch with hallowed | ⟨hforbidden, -⟩
      · exact hallowed.2
      · rw [hfound, Option.map_some, Option.getD_some, hforbidden] at h
        cases h
  · intro h
    obtain ⟨rule, hfound, hmode⟩ := findMatchingRule_allowed level h
    rw [hfound, Option.map_some, Option.getD_some, hmode]
    rfl

/-- A path is allowed where its text starts like an allowed directory, to whatever mode. -/
theorem checkPathAccess_iff {host : PathHost} {level : SecurityLevel} {path : String}
    {mode : AccessMode} :
    (checkPathAccess host (levelPolicy level) path mode).1 = true ↔
      ¬ RefusedEarly host (levelPolicy level) (normalizePath host path) ∧
        StartsIn allowedRoots (normalizePath host path) := by
  have hprevent : (levelPolicy level).preventPathTraversal = true := by cases level <;> rfl
  rw [checkPathAccess, RefusedEarly, hprevent, Bool.true_and, not_or]
  dsimp only
  generalize normalizePath host path = place
  by_cases htraversal : hasPathTraversal place = true
  · simp [htraversal]
  · rw [if_neg htraversal]
    cases hextension : extensionRefused host (levelPolicy level) place with
    | some context => simp
    | none =>
      dsimp only
      split
      next hpermits =>
        simp [htraversal, (permits_iff level).mp hpermits]
      next hpermits =>
        have hout : ¬ StartsIn allowedRoots place := fun h => hpermits ((permits_iff level).mpr h)
        simp [hout]

/-! ### What is inside -/

section Boundary
variable {path root : String} {chars : List Char}

theorem utf8_eq_encode (text : String) : utf8 text = Utf8.encode text.toList := by
  rw [Utf8.encode, ← utf8_ofList, String.ofList_toList]

theorem encode_injective {a b : List Char} (h : Utf8.encode a = Utf8.encode b) : a = b := by
  rw [Utf8.encode, Utf8.encode, ← utf8_ofList, ← utf8_ofList] at h
  exact String.ofList_injective (utf8_injective h)

/-- The path of a text that starts with a slash. -/
theorem ofString_absolute (h : path.toList = '/' :: chars) :
    Path.ofString path =
      ⟨true, (chars.splitOn '/').map fun part => component (Utf8.encode part)⟩ := by
  have hbytes : utf8 path = slash :: Utf8.encode chars := by
    rw [utf8_eq_encode, h]
    rfl
  have hsplit : (Utf8.encode chars).splitOn slash = (chars.splitOn '/').map Utf8.encode :=
    Utf8.splitOn_encode (by decide) (by decide) chars
  rw [Path.ofString, hbytes, Path.ofBytes, List.head?_cons, BEq.rfl, if_pos rfl, List.tail_cons,
    hsplit, List.map_map]
  rfl

/-- A text that is no traversal has no `..` among its parts. -/
theorem parentDir_notMem (h : path.toList = '/' :: chars) (htraversal : hasPathTraversal path = false) :
    .parentDir ∉ (chars.splitOn '/').map fun part => component (Utf8.encode part) := by
  intro hmem
  obtain ⟨part, hpart, hcomponent⟩ := List.mem_map.mp hmem
  have hdots : Utf8.encode part = [dot, dot] := by
    by_contra hne
    rw [component, if_neg hne] at hcomponent
    split at hcomponent <;> cases hcomponent
  have hsame : part = ['.', '.'] := encode_injective (hdots.trans (by decide))
  have hinfix := Utf8.cons_infix_of_mem_splitOn hpart
  rw [hsame, ← h] at hinfix
  have hcontains : contains path "/.." = true := decide_eq_true hinfix
  rw [hasPathTraversal, hcontains, Bool.or_true] at htraversal
  cases htraversal

/-- A part that starts like one of the directories is a name. -/
theorem component_of_prefix (hroot : root ∈ allowedRoots) {more : List Char}
    (hslash : '/' ∉ root.toList ++ more) :
    ∃ name, component (Utf8.encode (root.toList ++ more)) = .normal name ∧
      name.bytes = Utf8.encode (root.toList ++ more) := by
  have hhead : ∃ b rest, Utf8.encode (root.toList ++ more) = b :: rest ∧ b ≠ dot := by
    rcases List.mem_pair.mp hroot with rfl | rfl
    · exact ⟨116, _, rfl, by decide⟩
    · exact ⟨119, _, rfl, by decide⟩
  obtain ⟨b, rest, hbytes, hb⟩ := hhead
  have hnot : slash ∉ Utf8.encode (root.toList ++ more) := by
    intro hmem
    obtain ⟨c, hc, hbyte⟩ := List.mem_flatMap.mp hmem
    have hchar : c = '/' := Char.toNat_inj.mp (Utf8.toNat_of_mem_utf8EncodeChar (by decide) hbyte)
    exact hslash (hchar ▸ hc)
  have hstart : ∀ bytes, Utf8.encode (root.toList ++ more) ≠ dot :: bytes := by
    intro bytes heq
    rw [hbytes] at heq
    exact hb (List.cons.inj heq).1
  have hwell : Name.WellFormed (Utf8.encode (root.toList ++ more)) :=
    ⟨hbytes ▸ List.cons_ne_nil b rest, hnot, hstart [], hstart [dot]⟩
  refine ⟨⟨_, hwell⟩, ?_, rfl⟩
  rw [component, if_neg (hstart [dot]), dif_pos hwell]

theorem sibling_iff {rest : List Char} (h : path.toList = '/' :: (root.toList ++ rest)) :
    Sibling root path ↔ ∃ c tail, rest = c :: tail ∧ c ≠ '/' := by
  simp only [Sibling, h, List.cons_append, List.cons_inj_right, List.append_cancel_left_eq]

/-- What starts like an allowed directory, and has no `..`, is in it unless it is a sibling. -/
theorem insideOf_iff {roots : List String} (hroot : root ∈ allowedRoots)
    (hallowed : root ∈ roots) (hsafe : roots ⊆ safeRoots)
    (hstart : '/' :: root.toList <+: path.toList) (htraversal : hasPathTraversal path = false) :
    InsideOf roots path ↔ ¬ Sibling root path := by
  obtain ⟨rest, hpath⟩ := hstart
  rw [List.cons_append] at hpath
  have hslashes : ∀ root ∈ allowedRoots, '/' ∉ root.toList := by decide
  obtain ⟨more, parts, hsplit, hnot, hrest⟩ :=
    Utf8.exists_first_part_of_prefix (List.prefix_append root.toList rest)
      (hslashes root hroot)
  obtain ⟨name, hcomponent, hname⟩ := component_of_prefix hroot hnot
  have hparent := parentDir_notMem hpath.symm htraversal
  rw [InsideOf, ofString_absolute hpath.symm, lexicalNames, foldl_pushComponent hparent, hsplit,
    List.map_cons, hcomponent]
  have hends : (∃ other ∈ roots, some (Utf8.encode (root.toList ++ more)) = some (utf8 other)) ↔
      more = [] := by
    have hapart : ∀ root ∈ allowedRoots, ∀ other ∈ safeRoots,
        root.toList <+: other.toList → other = root := by decide
    constructor
    · intro hin
      obtain ⟨other, hother, heq⟩ := hin
      rw [Option.some_inj, utf8_eq_encode] at heq
      have htext := encode_injective heq
      have hsame := hapart root hroot other (hsafe hother) (htext ▸ List.prefix_append _ _)
      rw [hsame] at htext
      exact List.self_eq_append_right.mp htext.symm
    · intro hnil
      subst hnil
      exact ⟨root, hallowed, by rw [List.append_nil, utf8_eq_encode]⟩
  have hsibling : Sibling root path ↔ more ≠ [] := by
    simp only [List.append_assoc, List.append_cancel_left_eq] at hrest
    rw [sibling_iff hpath.symm]
    cases more with
    | nil =>
      refine iff_of_false ?_ (not_not_intro rfl)
      intro hsibling
      obtain ⟨c, tail, rfl, hc⟩ := hsibling
      rcases hrest with hrest | ⟨further, hrest⟩
      · cases hrest
      · exact hc (List.cons.inj hrest).1
    | cons c more =>
      have hc : c ≠ '/' := by
        intro heq
        subst heq
        exact hnot (List.mem_append_right _ List.mem_cons_self)
      refine iff_of_true ?_ (List.cons_ne_nil c more)
      rcases hrest with hrest | ⟨further, hrest⟩
      · exact ⟨c, more, hrest, hc⟩
      · exact ⟨c, _, hrest, hc⟩
  rw [hsibling, not_ne_iff, ← hends, ← hname]
  simp [normalNames]

end Boundary

/-! ### Confinement -/

theorem exists_start_of_sibling {root path : String} (h : Sibling root path) :
    '/' :: root.toList <+: path.toList := by
  obtain ⟨c, rest, htext, -⟩ := h
  exact ⟨c :: rest, htext.symm⟩

/-- Of a path that the rules see as it is, what no sibling means. -/
theorem inside_iff {host : PathHost} {policy : FilesystemSecurityPolicy} {path : String}
    {roots : List String} (hallowed : allowedRoots ⊆ roots) (hsafe : roots ⊆ safeRoots) :
    (¬ RefusedEarly host policy path → StartsIn allowedRoots path → InsideOf roots path) ↔
      ∀ root ∈ allowedRoots, Sibling root path → RefusedEarly host policy path := by
  constructor
  · intro h root hroot hsibling
    by_contra hearly
    have hstart := exists_start_of_sibling hsibling
    have htraversal : hasPathTraversal path = false := Bool.eq_false_iff.mpr fun h => hearly (.inl h)
    have hinside := h hearly ⟨root, hroot, hstart⟩
    exact (insideOf_iff hroot (hallowed hroot) hsafe hstart htraversal).mp hinside hsibling
  · intro h hearly hstarts
    obtain ⟨root, hroot, hstart⟩ := hstarts
    have htraversal : hasPathTraversal path = false := Bool.eq_false_iff.mpr fun h => hearly (.inl h)
    exact (insideOf_iff hroot (hallowed hroot) hsafe hstart htraversal).mpr
      fun hsibling => hearly (h root hroot hsibling)

variable {host : PathHost} {level : SecurityLevel}

theorem mem_secureVolumes {volumes : List VolumeMount} {tempDir : String} {mount : VolumeMount} :
    mount ∈ (secureVolumes host level volumes tempDir).dropLast ↔
      ∃ volume ∈ volumes, ((checkPathAccess host (levelPolicy level) volume.hostPath .readOnly).1 = true ∧
        isVolumeSafe volume.hostPath = true) ∧ { volume with readOnly := true } = mount := by
  rw [secureVolumes, createSecureVolumes, List.dropLast_concat]
  simp [and_assoc]

/-- A volume that is kept lies in a safe directory, exactly where it is clear. -/
theorem kept_inside_iff {path : String} :
    ((checkPathAccess host (levelPolicy level) path .readOnly).1 = true ∧ isVolumeSafe path = true →
      InsideOf safeRoots path) ↔ VolumeClear host (levelPolicy level) path := by
  rw [checkPathAccess_iff, isVolumeSafe_iff, VolumeClear, normalizePath]
  cases resolved host path with
  | none =>
    have hsub : StartsIn allowedRoots path → StartsIn safeRoots path := by
      intro h
      obtain ⟨root, hroot, hstart⟩ := h
      have hsubset : allowedRoots ⊆ safeRoots := by decide
      exact ⟨root, hsubset hroot, hstart⟩
    dsimp only [Option.getD_none]
    rw [← inside_iff (by decide) (List.Subset.refl safeRoots)]
    constructor
    · intro h hearly hstart
      exact h ⟨⟨hearly, hstart⟩, hsub hstart⟩
    · intro h hkept
      exact h hkept.1.1 hkept.1.2
  | some place =>
    dsimp only [Option.getD_some]
    constructor
    · intro h hsafe hallowed
      by_cases hearly : RefusedEarly host (levelPolicy level) place
      · exact .inl hearly
      · exact .inr (h ⟨⟨hearly, hallowed⟩, hsafe⟩)
    · intro h hkept
      exact (h hkept.2 hkept.1.2).resolve_left hkept.1.1

/-- The volumes that are kept are inside, and only paths inside are allowed, for these volumes
and paths and no others. -/
theorem strict_mounts_confined_iff (host : PathHost) (level : SecurityLevel)
    (volumes : List VolumeMount) (tempDir path : String) (mode : AccessMode) :
    ((∀ mount ∈ (secureVolumes host level volumes tempDir).dropLast,
        InsideOf safeRoots mount.hostPath) ↔
      ∀ volume ∈ volumes, VolumeClear host (levelPolicy level) volume.hostPath) ∧
    (((checkPathAccess host (levelPolicy level) path mode).1 = true →
        InsideOf allowedRoots (normalizePath host path)) ↔
      AccessClear host (levelPolicy level) path) := by
  constructor
  · constructor
    · intro h volume hvolume
      rw [← kept_inside_iff]
      intro hkept
      exact h { volume with readOnly := true } (mem_secureVolumes.mpr ⟨volume, hvolume, hkept, rfl⟩)
    · intro h mount hmount
      obtain ⟨volume, hvolume, hkept, rfl⟩ := mem_secureVolumes.mp hmount
      exact kept_inside_iff.mpr (h volume hvolume) hkept
  · rw [checkPathAccess_iff, and_imp, AccessClear, inside_iff (List.Subset.refl _) (by decide)]

/-- In `/tmp` there is a link `l` to a directory two below `/workspace`. -/
def linkedHost : PathHost where
  canonicalize path := if path = "/tmp/l/../../etc" then some "/workspace/etc" else none
  toLowercase := id

/-- A sibling of `/tmp`, and a path that its links lead to `/workspace` and its text to `/etc`. -/
theorem sibling_mounted :
    (∀ path ∈ ["/tmpfoo", "/tmp/l/../../etc"],
      (∃ mount ∈ (secureVolumes linkedHost .maximum
          [⟨"/tmpfoo", "/in", true⟩, ⟨"/tmp/l/../../etc", "/etc", true⟩] "/run/t").dropLast,
        mount.hostPath = path) ∧ ¬ InsideOf safeRoots path) ∧
    (checkPathAccess linkedHost strictPolicy "/tmpfoo" .readWrite).1 = true ∧
      ¬ InsideOf allowedRoots (normalizePath linkedHost "/tmpfoo") := by
  have hallowed : ∀ path ∈ ["/tmpfoo", "/tmp/l/../../etc"], ∀ mode,
      (checkPathAccess linkedHost (levelPolicy .maximum) path mode).1 = true := by
    intro path hpath mode
    rw [checkPathAccess_iff]
    rcases List.mem_pair.mp hpath with rfl | rfl
    · exact ⟨by decide, "tmp", by decide, by decide⟩
    · exact ⟨by decide, "workspace", by decide, by decide⟩
  refine ⟨?_, hallowed _ (.head _) _, by decide⟩
  intro path hpath
  have hkept := hallowed path hpath .readOnly
  rcases List.mem_pair.mp hpath with rfl | rfl
  · exact ⟨⟨_, mem_secureVolumes.mpr ⟨_, .head _, ⟨hkept, by decide⟩, rfl⟩, rfl⟩, by decide⟩
  · exact ⟨⟨_, mem_secureVolumes.mpr ⟨_, .tail _ (.head _), ⟨hkept, by decide⟩, rfl⟩, rfl⟩,
      by decide⟩

end Attest.Sandbox
