import Restline.Files.Replacement
import Restline.Web.Message

/-!
The host: what the program finds around it and leaves behind. It has files and a working directory, an
environment, a terminal or a pipe at either end, and a network that gives one outcome after another.

* `Host` : a host.
* `Host.expand`, `Host.isFile`, `Host.readText` : what can be asked of it.
* `Act` : an action on a host, which may fail; what it did before it failed stays done.
* `Act.makeDirs`, `Act.replaceText`, `Act.print`, `Act.transmit` : actions.
-/

set_option autoImplicit false

namespace Restline

/-- What the program finds around it and leaves behind. -/
structure Host where
  files : Tree := {}
  workDir : Spot := []
  env : Keyed String := []
  /-- The name of the operating system. -/
  platform : String := "Linux"
  /-- The account that the program runs under. -/
  user : String := "root"
  /-- The home directories of accounts. -/
  accounts : Keyed String := [("root", "/root")]
  /-- The time as it stands in the names of files. -/
  clock : String := ""
  /-- What is left of the standard input. -/
  input : String := ""
  /-- What is typed when the standard input is a terminal. -/
  typed : Option String := none
  /-- What the editor saves, if it saves. -/
  editor : Option String := none
  /-- The standard output is a terminal. -/
  outputIsTerminal : Bool := false
  /-- What becomes of the requests to come; the last outcome repeats. -/
  outcomes : List WebOutcome := []
  /-- The requests that were sent. -/
  sent : List WebRequest := []
  /-- The pauses that were made, in seconds. -/
  pauses : List Nat := []
  out : String := ""
  err : String := ""

namespace Host

/-! ### Questions -/

/-- The value of a variable that is set and not empty. -/
def setting? (h : Host) (name : String) : Option String :=
  (h.env.get? name).filter (· ≠ "")

/-- The home directory of an account; without a name it is one's own. -/
def homes (h : Host) (account : String) : Option String :=
  if account = "" then (h.env.get? "HOME").or (h.accounts.get? h.user) else h.accounts.get? account

/-- There is no home directory. -/
def noHome : Fault := .ofCrash .noHome

/-- The path with a home directory for a tilde at its front. -/
def expand (h : Host) (p : Path) : Except Fault Path :=
  match p.expand h.homes with
  | some p => .ok p
  | none => .error noHome

/-- The working directory as a path. -/
def workPath (h : Host) : Path := ⟨"/", h.workDir⟩

/-- A failure of an operation on files is one that nobody foresaw. -/
def unforeseen {α : Type} (x : Except FileFault α) : Except Fault α :=
  x.mapError (fun f => Fault.ofCrash f.crash)

/-- A file stands at the end of the path. -/
def isFile (h : Host) (p : Path) : Except Fault Bool := unforeseen (h.files.isFile h.workDir p)

/-- The bytes of the file at the end of the path. -/
def readBytes (h : Host) (p : Path) : Except Fault ByteArray := unforeseen (h.files.read h.workDir p)

/-- The text of the file at the end of the path. -/
def readText (h : Host) (p : Path) : Except Fault String := do
  let bytes ← h.readBytes p
  (Text.Utf8.readText bytes).mapError (fun _ => Fault.ofCrash .undecodable)

/-- The text of a file that the command line names. -/
def readNamed (h : Host) (name : String) : Except Fault String := do
  let p ← h.expand (Path.ofText name)
  if ← h.isFile p then h.readText p
  else throw { kind := .invalidUsage, message := "file not found: " ++ p.toText }

/-- The place that a path leads to. -/
def spotOf (h : Host) (p : Path) : Except Fault Spot := unforeseen (h.files.follow h.workDir p)

end Host

/-! ### Actions -/

/-- An action on a host. -/
abbrev Act := ExceptT Fault (StateM Host)

namespace Act

/-- What can be asked of the host. -/
def ask {α : Type} (f : Host → Except Fault α) : Act α := fun h => (f h, h)

/-- The result of something that needs no host. -/
def of {α : Type} (x : Except Fault α) : Act α := ExceptT.mk (pure x)

/-- A change of the host. -/
def change (f : Host → Host) : Act Unit := fun h => (.ok (), f h)

/-- A change of the files, which may fail on the way. -/
def changeFiles (f : Host → Option FileFault × Tree) : Act Unit := fun h =>
  let (fault, files) := f h
  (match fault with
    | none => .ok ()
    | some f => .error (Fault.ofCrash f.crash), { h with files := files })

/-- A change of the files that is made or not. -/
def tryFiles (f : Host → Except FileFault Tree) : Act Unit :=
  changeFiles (fun h => match f h with
    | .ok files => (none, files)
    | .error fault => (some fault, h.files))

/-- Makes a directory and all on the way to it. -/
def makeDirs (p : Path) : Act Unit := changeFiles (fun h => h.files.makeDirs h.workDir p)

/-- Writes a text into a file. -/
def writeText (p : Path) (text : String) : Act Unit :=
  tryFiles (fun h => h.files.write h.workDir p text.toUTF8)

/-- Puts a text into a file in one step, in a directory that is made when it is not there. -/
def replaceText (p : Path) (text : String) : Act Unit := do
  makeDirs p.parent
  changeFiles (fun h => h.files.replace h.workDir p text.toUTF8)

/-- Removes a file. -/
def unlink (p : Path) : Act Unit := tryFiles (fun h => h.files.unlink h.workDir p)

/-- A line for the standard output. -/
def print (text : String) : Act Unit := change (fun h => { h with out := h.out ++ text ++ "\n" })

/-- A text for the standard output, without an end of line. -/
def prompt (text : String) : Act Unit := change (fun h => { h with out := h.out ++ text })

/-- A line for the standard error. -/
def report (text : String) : Act Unit := change (fun h => { h with err := h.err ++ text ++ "\n" })

/-- Waits for some seconds. -/
def pause (seconds : Nat) : Act Unit := change (fun h => { h with pauses := h.pauses ++ [seconds] })

/-- The next line of the standard input, without its end; nothing at the end of the input. -/
def readLine : Act (Option String) := fun h =>
  match Text.lines h.input with
  | [] => (.ok none, h)
  | line :: rest => (.ok (some (Text.withoutTrailing '\n' line)), { h with input := "".intercalate rest })

/-- Without any outcome, a request is answered by an empty response. -/
def emptyReply : WebOutcome := .reply ⟨200, ByteArray.empty⟩

/-- Sends a request. -/
def transmit (q : WebRequest) : Act WebOutcome := fun h =>
  let h := { h with sent := h.sent ++ [q] }
  match h.outcomes with
  | [] => (.ok emptyReply, h)
  | [o] => (.ok o, h)
  | o :: rest => (.ok o, { h with outcomes := rest })

end Act

end Restline
