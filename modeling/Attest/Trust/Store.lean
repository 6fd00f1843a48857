import Attest.Library.Fallible
import Attest.Trust.Time
import Mathlib.Data.List.AList

/-! The files of a trust store, and programs on them.

A file is what its reader makes of it: `trust.toml` is the policy `toml` reads from
it, a `.pub` file the public key its PEM holds, a private key file the signing key;
a bundle is kept as bytes, since its size counts. A policy that is saved is read
back as it was, and a key that is written as PEM is read back as that key. A name
can also stand for a folder, or for a file that cannot be read.

Every call that changes a file can fail, and one that writes can fail half way: the
world carries the outcome of each such call in turn, so a statement about every
world is a statement about every failure. The clock and the random generator are
arguments of the operations that read them. -/
namespace Attest.Trust

abbrev Bytes := List UInt8

/-! ### Keys and policies -/

/-- A raw Ed25519 public key. -/
structure VerifyingKey where
  bytes : Vector UInt8 32
deriving DecidableEq

/-- An Ed25519 private key, by its seed. -/
structure SigningKey where
  seed : Vector UInt8 32
deriving DecidableEq

inductive KeyStatus
  | trusted
  | revoked
deriving DecidableEq

structure TrustEntry where
  id : String
  name : String
  status : KeyStatus
  revokedAt : Option DateTime
deriving DecidableEq

structure TrustPolicy where
  version : UInt32 := 1
  keys : List TrustEntry := []
deriving DecidableEq

/-- The first entry with the id. -/
def TrustPolicy.entry (policy : TrustPolicy) (id : String) : Option TrustEntry :=
  policy.keys.find? (fun k => k.id == id)

/-! ### Files -/

/-- What a name stands for: a file, one that cannot be read, or a folder. -/
inductive Node (α : Type)
  | file (content : α)
  | locked
  | folder
deriving DecidableEq

abbrev Folder (α : Type) := AList (fun _ : String => Node α)

/-- `Path::is_file`. -/
def isFile {α : Type} : Option (Node α) → Bool
  | some (.file _) => true
  | some .locked => true
  | _ => false

/-- `std::fs::read` and `read_to_string`, without the text of the error. -/
def contentOf {α : Type} : Option (Node α) → Option α
  | some (.file content) => some content
  | _ => none

/-- A write does not go over a folder. -/
def canWrite {α : Type} : Option (Node α) → Bool
  | some .folder => false
  | _ => true

/-- A file in the keys directory: a PKCS#8 PEM key, or anything else. -/
inductive KeyContent
  | pem (key : SigningKey)
  | other
deriving DecidableEq

/-- The trust directory. `pubs` holds the `.pub` files by what comes before the dot, `bundles`
the `.json` files under `bundles/` likewise, and `loose` every other file by its name. A name that
is only an ending has no extension: `.pub` is a loose file, and `.json` none of the bundles. -/
structure TrustDir where
  trustToml : Option (Node (Option TrustPolicy)) := none
  pubs : Folder (Option VerifyingKey) := ∅
  loose : Folder Bytes := ∅
  bundles : Folder Bytes := ∅
deriving DecidableEq

/-- `keys` holds the `.key` files of the keys directory by what comes before the dot, `localKey`
is `.attest/keys/public.key`, and `trust` is `none` until the trust directory exists. -/
structure Workspace where
  root : String
  keysPath : String
  keys : Folder KeyContent := ∅
  localKey : Option (Node Bytes) := none
  trust : Option TrustDir := none
deriving DecidableEq

/-- `Path::join` of a relative path. -/
def joinPath (path name : String) : String :=
  if path = "" ∨ path.endsWith "/" then path ++ name else path ++ "/" ++ name

namespace Workspace

/-- The trust directory as a reader sees it: one that does not exist has no files. -/
def trustDir (ws : Workspace) : TrustDir := ws.trust.getD {}

def trustPath (ws : Workspace) : String := joinPath (joinPath ws.root ".attest") "trust"

def setTrust (ws : Workspace) (dir : TrustDir) : Workspace := { ws with trust := some dir }

end Workspace

/-! ### Programs -/

/-- How a call that changes files ends; a torn one leaves the first `written` bytes. -/
inductive Outcome
  | done
  | failed (error : String)
  | torn (written : Nat) (error : String)
deriving DecidableEq

/-- The files, and the outcomes of the calls to come; after the last one calls succeed. -/
structure World where
  fs : Workspace
  outcomes : List Outcome := []
deriving DecidableEq

abbrev Program := EStateM String World

/-- The text of a failure, with `with_context` in the place of the cause. -/
def withContext (context : Option String) (error : String) : String := context.getD error

/-- One call that changes files. -/
def syscall (context : Option String) (possible : Workspace → Bool)
    (effect : Workspace → Workspace) (torn : Nat → Workspace → Workspace) : Program Unit := fun w =>
  if possible w.fs then
    match w.outcomes with
    | [] => .ok () ⟨effect w.fs, []⟩
    | .done :: rest => .ok () ⟨effect w.fs, rest⟩
    | .failed error :: rest => .error (withContext context error) ⟨w.fs, rest⟩
    | .torn written error :: rest => .error (withContext context error) ⟨torn written w.fs, rest⟩
  else .error (withContext context "is a directory") w

theorem syscall_eq_ok {context : Option String} {possible : Workspace → Bool}
    {effect : Workspace → Workspace} {torn : Nat → Workspace → Workspace} {w w' : World} {u : Unit}
    (h : syscall context possible effect torn w = .ok u w') :
    possible w.fs = true ∧ w'.fs = effect w.fs := by
  unfold syscall at h
  split at h
  case isTrue hp =>
    refine ⟨hp, ?_⟩
    split at h
    · cases h
      rfl
    · cases h
      rfl
    · cases h
    · cases h
  case isFalse => cases h

/-- Nothing fails when no failure is to come. -/
theorem syscall_of_possible {context : Option String} {possible : Workspace → Bool}
    {effect : Workspace → Workspace} {torn : Nat → Workspace → Workspace} {fs : Workspace}
    (hp : possible fs = true) :
    syscall context possible effect torn ⟨fs, []⟩ = .ok () ⟨effect fs, []⟩ := by
  unfold syscall
  rw [if_pos hp]

open Library.Fallible in
/-- However a call ends, it had its effect, or none, or a part of it when it was torn; and only
the outcomes to come are left. -/
theorem within_syscall {R : World → World → Prop} {context : Option String}
    {possible : Workspace → Bool} {effect : Workspace → Workspace}
    {torn : Nat → Workspace → Workspace}
    (hsame : ∀ w w' : World, w'.outcomes ⊆ w.outcomes → w'.fs = w.fs → R w w')
    (heffect : ∀ w w' : World, w'.outcomes ⊆ w.outcomes → possible w.fs = true →
      w'.fs = effect w.fs → R w w')
    (htorn : ∀ (w w' : World) (n : Nat) (e : String), w'.outcomes ⊆ w.outcomes →
      .torn n e ∈ w.outcomes → possible w.fs = true → w'.fs = torn n w.fs → R w w') :
    Within R (syscall context possible effect torn) := by
  intro w
  unfold final syscall
  by_cases hp : possible w.fs = true
  · rw [if_pos hp]
    cases hout : w.outcomes with
    | nil => exact heffect _ _ (List.nil_subset _) hp rfl
    | cons outcome rest =>
      have hrest : rest ⊆ w.outcomes := by
        rw [hout]
        exact List.subset_cons_self _ _
      cases outcome with
      | done => exact heffect _ _ hrest hp rfl
      | failed error => exact hsame _ _ hrest rfl
      | torn n error => exact htorn _ _ n error hrest (by rw [hout]; exact List.mem_cons_self) hp rfl
  · rw [if_neg hp]
    exact hsame _ _ (List.Subset.refl _) rfl

/-- A call with nothing to show for it: a directory that is there already, a file mode. -/
def touch : Program Unit := syscall none (fun _ => true) id (fun _ => id)

/-- `std::fs::create_dir_all(trust_dir)`. -/
def createTrustDir : Program Unit :=
  syscall none (fun _ => true) (fun ws => ws.setTrust ws.trustDir) (fun _ => id)

end Attest.Trust
