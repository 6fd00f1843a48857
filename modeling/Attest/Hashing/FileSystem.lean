import Attest.Hashing.Paths
import Mathlib.Data.List.Sort

/-! File trees and how the operating system resolves a path in one.

A tree is a regular file, a symbolic link with the text of its target, or a directory. A
directory is the names it holds and what each leads to, so no name leads to two things. A
path is resolved name by name from a location: a link on the way is replaced by its
target, `..` goes to the directory above the location reached, and a path that passes more
links than the system allows is refused. -/
namespace Attest.Hashing
open Trust (Bytes)

inductive Tree where
  | file (bytes : Bytes)
  | link (target : Bytes)
  | dir (names : List Name) (child : Name → Tree)

/-- Where an entry of the tree is: the names from the root down. -/
abbrev Location := List Name

/-- `std::io::Error`, by its errno. -/
inductive IoError where
  | notFound
  | notADirectory
  | isADirectory
  | tooManyLinks
  | invalidInput
deriving DecidableEq

namespace Tree

def child? : Tree → Name → Option Tree
  | .dir names child, name => if name ∈ names then some (child name) else none
  | _, _ => none

def descend (tree : Tree) : Location → Option Tree
  | [] => some tree
  | name :: rest => (tree.child? name).bind fun sub => sub.descend rest

def isDir : Tree → Bool
  | .dir _ _ => true
  | _ => false

theorem descend_append (tree : Tree) (a b : Location) :
    tree.descend (a ++ b) = (tree.descend a).bind fun sub => sub.descend b := by
  induction a generalizing tree with
  | nil => rfl
  | cons name rest ih =>
    rw [List.cons_append, descend, descend]
    cases tree.child? name with
    | none => rfl
    | some sub => exact ih sub

theorem descend_snoc (tree : Tree) (loc : Location) (name : Name) :
    tree.descend (loc ++ [name]) = (tree.descend loc).bind fun sub => sub.child? name := by
  rw [descend_append]
  congr 1
  funext sub
  show (sub.child? name).bind some = _
  cases sub.child? name <;> rfl

end Tree

/-! ### Resolution -/

/-- `MAXSYMLINKS`. -/
def maxLinks : Nat := 40

/-- A tree and the directory a relative path starts from. -/
structure FileSystem where
  root : Tree
  cwd : Location

/-- The components from a location on, up to the next link that is followed: `onLink`
goes on from there. A last component that is a link is followed only where the caller
asks for it. -/
def advance (root : Tree) (followLast : Bool)
    (onLink : Location → List Component → Except IoError Location) :
    Location → List Component → Except IoError Location
  | loc, [] => .ok loc
  | loc, component :: rest =>
    match root.descend loc with
    | some (.dir names child) =>
      match component with
      | .curDir => advance root followLast onLink loc rest
      | .parentDir => advance root followLast onLink loc.dropLast rest
      | .normal name =>
        match (Tree.dir names child).child? name with
        | none => .error .notFound
        | some (.link target) =>
          if rest = [] ∧ followLast = false then .ok (loc ++ [name])
          else
            onLink (if (Path.ofBytes target).absolute then [] else loc)
              ((Path.ofBytes target).components ++ rest)
        | some _ => advance root followLast onLink (loc ++ [name]) rest
    | _ => .error .notADirectory

/-- A resolution that may pass so many links. -/
def resolveFrom (root : Tree) (followLast : Bool) :
    Nat → Location → List Component → Except IoError Location
  | 0 => advance root followLast fun _ _ => .error .tooManyLinks
  | links + 1 => advance root followLast (resolveFrom root followLast links)

section Operations
variable (fs : FileSystem)

/-- Where a path leads. -/
def resolve (followLast : Bool) (path : Path) : Except IoError Location :=
  resolveFrom fs.root followLast maxLinks (if path.absolute then [] else fs.cwd) path.components

/-- What the file system holds where a path leads. -/
def entryAt (followLast : Bool) (path : Path) : Except IoError Tree := do
  let loc ← resolve fs followLast path
  match fs.root.descend loc with
  | some entry => .ok entry
  | none => .error .notFound

/-- `fs::symlink_metadata`. -/
def symlinkMetadata (path : Path) : Except IoError Tree := entryAt fs false path

/-- `fs::read_link`. -/
def readLink (path : Path) : Except IoError Bytes := do
  match ← entryAt fs false path with
  | .link target => .ok target
  | _ => .error .invalidInput

/-- `File::open` and a read to the end. -/
def readFile (path : Path) : Except IoError Bytes := do
  match ← entryAt fs true path with
  | .file bytes => .ok bytes
  | .dir _ _ => .error .isADirectory
  | .link _ => .error .tooManyLinks

end Operations

/-! ### Walks -/

/-- `sort_by_file_name`. -/
def sortNames (names : List Name) : List Name := names.insertionSort fun a b => a.bytes ≤ b.bytes

/-- `WalkDir` without following links: the paths of everything below and whether it is a
directory, a directory before what it holds. -/
def walk (path : Path) : Tree → List (Path × Bool)
  | .dir names child =>
    (path, true) :: (sortNames names).flatMap fun name =>
      walk ⟨path.absolute, path.components ++ [.normal name]⟩ (child name)
  | _ => [(path, false)]

end Attest.Hashing
