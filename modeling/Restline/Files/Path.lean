import Restline.Text.Segments

/-!
Paths as they are written. Slashes in a row count as one, single dots and a slash at the end do not
count, and a name of two dots stays; exactly two slashes at the front are kept.

* `Path` : a root and names, with `Path.ofText` and `Path.toText`.
* `Path.join`, `Path.parent`, `Path.fileName` : operations.
* `Path.expand` : a tilde at the front stands for the home directory.
-/

set_option autoImplicit false

namespace Restline

/-- A path: what stands before the first name, and the names. -/
structure Path where
  /-- Nothing for a relative path, else one slash or two. -/
  root : String
  names : List String
deriving DecidableEq, Repr

namespace Path

/-- The root of a written path. -/
def rootOf : List Char → String
  | '/' :: '/' :: '/' :: _ => "/"
  | '/' :: '/' :: _ => "//"
  | '/' :: _ => "/"
  | _ => ""

/-- The path that a text stands for. -/
def ofText (s : String) : Path where
  root := rootOf s.toList
  names := (Text.segments '/' s).filter (fun n => n ≠ "" && n ≠ ".")

/-- The path as it is written; a path without anything is a dot. -/
def toText (p : Path) : String :=
  if p.root = "" ∧ p.names = [] then "." else p.root ++ "/".intercalate p.names

/-- The path does not depend on the working directory. -/
def isAbsolute (p : Path) : Bool := p.root != ""

/-- A path that is written below another; an absolute one replaces it. -/
def join (p : Path) (s : String) : Path :=
  let q := ofText s
  if q.isAbsolute then q else ⟨p.root, p.names ++ q.names⟩

/-- The path without its last name. -/
def parent (p : Path) : Path := ⟨p.root, p.names.dropLast⟩

/-- The last name. -/
def fileName (p : Path) : String := p.names.getLast?.getD ""

/-- The directory that stands for the first name of a path when this is a tilde with the name of an
account; nothing when the account has no home directory, or one that begins with a tilde itself. -/
def homeOf (homes : String → Option String) (account : String) : Option Path := do
  let home := Text.withoutTrailing '/' (← homes account)
  if home.startsWith "~" then none else return ofText (if home = "" then "/" else home)

/-- The path with a home directory for a tilde at its front. Behind the tilde stands the name of an
account, or nothing for one's own. -/
def expand (homes : String → Option String) (p : Path) : Option Path :=
  match p.root, p.names with
  | "", first :: rest =>
    if first.startsWith "~" then
      (homeOf homes (String.ofList (first.toList.drop 1))).map (fun q => ⟨q.root, q.names ++ rest⟩)
    else some p
  | _, _ => some p

end Path

end Restline
