import Attest.Trust.Bundle

/-! Paths, as `std::path` reads them on Unix and `hashing.rs` normalises them.

A path is what stands between its slashes. An empty part, of a doubled or trailing slash,
reads as `.`: neither the standard library nor the operating system tells the two apart.
A name is a part that names an entry of a directory. The normal form of a path is taken
from its text alone: `..` removes the name before it, whatever that name leads to. -/
namespace Attest.Hashing
open Trust (Bytes utf8)

/-! ### Names and components -/

def slash : UInt8 := 47
def dot : UInt8 := 46

def Name.WellFormed (bytes : Bytes) : Prop :=
  bytes ≠ [] ∧ slash ∉ bytes ∧ bytes ≠ [dot] ∧ bytes ≠ [dot, dot]

instance (bytes : Bytes) : Decidable (Name.WellFormed bytes) :=
  inferInstanceAs (Decidable (_ ∧ _ ∧ _ ∧ _))

/-- The name of a directory entry. -/
structure Name where
  bytes : Bytes
  wellFormed : Name.WellFormed bytes
deriving DecidableEq

theorem Name.ext_bytes {n n' : Name} (h : n.bytes = n'.bytes) : n = n' := by
  cases n
  cases n'
  cases h
  rfl

/-- `std::path::Component`, the leading slash apart. -/
inductive Component where
  | curDir
  | parentDir
  | normal (name : Name)
deriving DecidableEq

structure Path where
  absolute : Bool
  components : List Component
deriving DecidableEq

/-! ### Reading a path -/

/-- What a part of a text split at its slashes is: empty and `.` are the same. -/
def component (part : Bytes) : Component :=
  if part = [dot, dot] then .parentDir
  else if h : Name.WellFormed part then .normal ⟨part, h⟩
  else .curDir

/-- `Path::new`. -/
def Path.ofBytes (bytes : Bytes) : Path where
  absolute := bytes.head? == some slash
  components :=
    ((if bytes.head? == some slash then bytes.tail else bytes).splitOn slash).map component

def Path.ofString (text : String) : Path := Path.ofBytes (utf8 text)

/-- `Path::join`. -/
def Path.join (base path : Path) : Path :=
  if path.absolute then path else ⟨base.absolute, base.components ++ path.components⟩

/-! ### The normal form -/

/-- One component on top of the names so far: `..` takes the last one away. -/
def pushComponent (names : List Name) : Component → List Name
  | .curDir => names
  | .parentDir => names.dropLast
  | .normal name => names ++ [name]

def lexicalNames (components : List Component) : List Name := components.foldl pushComponent []

/-- The path of these names. -/
def Path.ofNames (absolute : Bool) (names : List Name) : Path := ⟨absolute, names.map .normal⟩

/-- `.` is removed and `..` resolved against the path itself. -/
def lexicalNormalize (path : Path) : Path := .ofNames path.absolute (lexicalNames path.components)

/-- What `Path::components` yields; it drops `.`, for no function here looks at a leading
one. -/
def Path.parts (path : Path) : List Component := path.components.filter (· ≠ .curDir)

/-- `Path::starts_with`. -/
def Path.startsWith (path base : Path) : Bool :=
  path.absolute == base.absolute && base.parts.isPrefixOf path.parts

/-- `Path::strip_prefix`. -/
def Path.stripPrefix (path base : Path) : Option (List Component) :=
  if path.absolute = base.absolute then
    if base.parts <+: path.parts then some (path.parts.drop base.parts.length) else none
  else none

/-- `Path::parent`. -/
def Path.parent (path : Path) : Option Path :=
  if path.parts = [] then none else some ⟨path.absolute, path.parts.dropLast⟩

end Attest.Hashing
