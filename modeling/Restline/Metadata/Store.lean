import Restline.Json.Reader
import Restline.Metadata.Index

/-!
Stores of documents. A store reads the index and the command documents from a bundle when they are
first asked for, checks them, and keeps what it has read; a document that cannot be read is not kept,
so a later call reads it again.

* `Bundle` : where documents come from.
* `StoreFault` : why a document is not there.
* `Cache` : what a store has read, with `Cache.index` and `Cache.command`.
* `Bundle.ofValues` : a bundle of values in memory.
-/

set_option autoImplicit false

namespace Restline

/-! ### Failures -/

/-- Why a document is not there. -/
inductive StoreFault
  /-- There is no index; a bundle on disk says where it should be. -/
  | noIndex (path : Option String)
  /-- There is no such document; a bundle on disk says where it should be. -/
  | noCommand (id : String) (path : Option String)
  /-- The file holds no JSON. -/
  | notJson (path : String) (text : String) (what : Json.Expected) (left : Nat)
  /-- The file holds a numeral that is too long. -/
  | overlong (digits : Nat)
  /-- The file holds no text. -/
  | undecodable
  /-- The place cannot be looked at. -/
  | unreachable (crash : Crash)
  /-- The index does not fit. -/
  | badIndex (issues : List Issue)
  /-- The document does not fit. -/
  | badCommand (id : String) (issues : List Issue)

namespace StoreFault

/-- The kind of the failure. -/
def kind : StoreFault → FaultKind
  | .noIndex _ | .noCommand _ _ => .metadataNotFound
  | .notJson _ _ _ _ | .badIndex _ | .badCommand _ _ => .integrity
  | .overlong _ => .crash .badValue
  | .undecodable => .crash .undecodable
  | .unreachable c => .crash c

/-- The failure in words, without the issues. -/
def message : StoreFault → String
  | .noIndex none => "command index not found"
  | .noIndex (some path) => "command index not found at " ++ path
  | .noCommand id none => "command document " ++ id ++ " not found"
  | .noCommand id (some path) => "command document " ++ id ++ " not found at " ++ path
  | .notJson path text what left =>
    "invalid JSON in " ++ path ++ ": " ++ (Json.ReadFault.malformed what left).message text
  | .badIndex _ => "malformed command index: "
  | .badCommand id _ => "malformed command document " ++ id ++ ": "
  | .overlong _ | .undecodable | .unreachable _ => ""

/-- The issues of a document that does not fit. -/
def issues : StoreFault → List Issue
  | .badIndex is | .badCommand _ is => is
  | _ => []

/-- The failure as it is told. -/
def report (f : StoreFault) : Fault := { kind := f.kind, message := f.message, issues := f.issues }

/-- The failure to read the JSON text of a file. -/
def ofReadFault (path text : String) : Json.ReadFault → StoreFault
  | .malformed what left => .notJson path text what left
  | .overlong digits => .overlong digits

end StoreFault

/-! ### Checked documents -/

/-- The index that a value holds. -/
def Index.check (j : Json) : Except StoreFault Index :=
  match Index.ofJson j with
  | .valid i => .ok i
  | .flawed is => .error (.badIndex is)

/-- The command that a value holds. -/
def Command.check (id : String) (j : Json) : Except StoreFault Command :=
  match Command.ofJson j with
  | .valid c => .ok c
  | .flawed is => .error (.badCommand id is)

/-! ### Bundles and caches -/

/-- Where documents come from. -/
structure Bundle where
  index : Except StoreFault Json
  command : String → Except StoreFault Json

/-- A bundle of values. -/
def Bundle.ofValues (index : Json) (commands : Keyed Json) : Bundle where
  index := .ok index
  command id :=
    match commands.get? id with
    | some j => .ok j
    | none => .error (.noCommand id none)

/-- What a store has read. -/
structure Cache where
  index : Option Index := none
  commands : Keyed Command := []

namespace Cache

/-- The index, kept or read now. -/
def getIndex (b : Bundle) (c : Cache) : Except StoreFault Index × Cache :=
  match c.index with
  | some i => (.ok i, c)
  | none =>
    match b.index.bind Index.check with
    | .ok i => (.ok i, { c with index := some i })
    | .error f => (.error f, c)

/-- A command document, kept or read now. -/
def getCommand (b : Bundle) (id : String) (c : Cache) : Except StoreFault Command × Cache :=
  match c.commands.get? id with
  | some k => (.ok k, c)
  | none =>
    match (b.command id).bind (Command.check id) with
    | .ok k => (.ok k, { c with commands := c.commands.put id k })
    | .error f => (.error f, c)

/-- The documents that were read, in the order of their first reading. -/
def loaded (c : Cache) : List String := c.commands.keys

end Cache

end Restline
