import Restline.Config.Resolution
import Restline.Proofs.FilesThere
import Restline.Proofs.HostActions
import Restline.Proofs.KeptFiles

/-!
The files of settings: where they are, and what they hold. A directory for them is made when it is asked for,
and can be reached then. A file that is there is JSON that fits, or its failure is one of the configuration;
only a path that cannot be looked at is a failure of another kind.

* `exec_madeDirectory_cases` : a directory is made or not.
* `readJsonFile_of_hasFile`, `exec_fitting_cases` : what a file holds.
* `ofFile`, `exec_ofFile_cases` : **what the file of an action comes to**.
* `Config.load_eq`, `Profile.load_eq`, `Project.load_eq` : all settings are read in one way.
-/

set_option autoImplicit false

namespace Restline

open Act

section

variable {α : Type} {h : Host} {p : Path}

/-! ### Directories -/

/-- **A directory that is asked for can be reached, or could not be made.** -/
theorem exec_madeDirectory_cases (p : Path) (h : Host) :
    let files := (h.files.makeDirs h.workDir p).2
    (exec (madeDirectory p) h = (.ok p, { h with files := files }) ∧
        ∃ spot, files.follow h.workDir p = .ok spot) ∨
      ∃ c, exec (madeDirectory p) h = (.error (.ofCrash c), { h with files := files }) := by
  intro files
  rw [madeDirectory, exec_bind, Act.makeDirs, exec_changeFiles]
  cases hmade : h.files.makeDirs h.workDir p with
  | mk fault made =>
      have hfiles : files = made := congrArg Prod.snd hmade
      rw [hfiles]
      cases fault with
      | none => exact .inl ⟨rfl, Tree.exists_follow_of_makeDirs hmade⟩
      | some f => exact .inr ⟨f.crash, rfl⟩

/-- The directory of profiles can be reached once it is had. -/
theorem exists_spotOf_directory {h' : Host} (hdir : exec Profile.directory h = (.ok p, h')) :
    ∃ spot, h'.spotOf p = .ok spot := by
  rw [Profile.directory, exec_bind_eq_ok_iff] at hdir
  obtain ⟨dir, k, -, hdir⟩ := hdir
  rcases exec_madeDirectory_cases (dir.join "profiles") k with ⟨hmade, spot, hspot⟩ | ⟨c, hfails⟩
  · rw [hmade] at hdir
    obtain ⟨hp, rfl⟩ := Prod.mk.inj hdir
    obtain rfl := Except.ok.inj hp
    exact ⟨spot, by rw [Host.spotOf, Host.unforeseen, hspot, Except.mapError_ok]⟩
  · rw [hfails] at hdir
    cases hdir

/-! ### Files of JSON -/

theorem exec_readBytes_of_holds {bytes : ByteArray} (hholds : h.Holds p bytes) :
    exec (Act.ask (·.readBytes p)) h = (.ok bytes, h) := by
  have hread : h.files.read h.workDir p = .ok bytes := hholds
  rw [exec_ask, Host.readBytes, Host.unforeseen, hread]
  rfl

/-- A file of JSON that is there gives a value, or a failure of the configuration. -/
theorem readJsonFile_of_hasFile (what : String) (hfile : h.HasFile p) :
    (∃ j, exec (readJsonFile p what) h = (.ok j, h)) ∨
      ∃ e, exec (readJsonFile p what) h = (.error e, h) ∧ e.kind = .config := by
  obtain ⟨bytes, hholds⟩ := hfile
  rw [readJsonFile, exec_bind_ok (exec_readBytes_of_holds hholds)]
  dsimp only
  cases Text.Utf8.readText bytes with
  | error e => exact .inr ⟨_, rfl, rfl⟩
  | ok text =>
      dsimp only
      cases Json.read text with
      | error e => exact .inr ⟨_, rfl, rfl⟩
      | ok j => exact .inl ⟨j, rfl⟩

/-- A value fits, or the failure is one of the configuration. -/
theorem exec_fitting_cases (p : Path) (what : String) (c : Checked α) (h : Host) :
    (∃ a, exec (fitting p what c) h = (.ok a, h)) ∨
      ∃ e, exec (fitting p what c) h = (.error e, h) ∧ e.kind = .config := by
  cases c with
  | valid a => exact .inl ⟨a, rfl⟩
  | flawed is => exact .inr ⟨_, rfl, rfl⟩

/-- What the file of an action gives, or something else without a file there. -/
def ofFile (file : Act Path) (what : String) (use : Path → Json → Act α) (other : Path → Act α) : Act α := do
  let p ← file
  if ← Act.ask (·.isFile p) then
    let j ← readJsonFile p what
    use p j
  else other p

section

variable {file : Act Path} {what : String} {use : Path → Json → Act α} {other : Path → Act α} {k : Host}

theorem exec_ofFile_of_hasFile (hplace : exec file h = (.ok p, k)) (hfile : k.HasFile p) :
    exec (ofFile file what use other) h = exec (readJsonFile p what >>= use p) k := by
  have hthere : exec (Act.ask (·.isFile p)) k = (.ok true, k) := by rw [exec_ask, Host.isFile_of_hasFile hfile]
  rw [ofFile, exec_bind_ok hplace, exec_bind_ok hthere]
  rfl

theorem exec_ofFile_of_not_hasFile (hplace : exec file h = (.ok p, k)) (hno : ¬ k.HasFile p)
    (hseen : ¬ k.CannotLookAt p) : exec (ofFile file what use other) h = exec (other p) k := by
  have hthere : exec (Act.ask (·.isFile p)) k = (.ok false, k) := by
    rw [exec_ask, Host.isFile_of_not_hasFile hno hseen]
  rw [ofFile, exec_bind_ok hplace, exec_bind_ok hthere]
  rfl

theorem exec_ofFile_of_cannotLookAt (hplace : exec file h = (.ok p, k)) (hlong : k.CannotLookAt p) :
    exec (ofFile file what use other) h = (.error (.ofCrash .badFileName), k) := by
  have hthere : exec (Act.ask (·.isFile p)) k = (.error (.ofCrash .badFileName), k) := by
    rw [exec_ask, Host.isFile_of_cannotLookAt hlong]
  rw [ofFile, exec_bind_ok hplace, exec_bind_error hthere]

end

/-- **What the file of an action comes to**, once its place is had. -/
theorem exec_ofFile_cases {file : Act Path} {h' : Host} (hplace : exec file h = (.ok p, h')) (what : String)
    (use : Path → Json → Act α) (other : Path → Act α) :
    (¬ h'.CannotLookAt p ∧ ∃ j, exec (ofFile file what use other) h = exec (use p j) h') ∨
      (¬ h'.CannotLookAt p ∧ ∃ e, exec (ofFile file what use other) h = (.error e, h') ∧ e.kind = .config) ∨
      (¬ h'.CannotLookAt p ∧ exec (ofFile file what use other) h = exec (other p) h') ∨
      (h'.CannotLookAt p ∧ exec (ofFile file what use other) h = (.error (.ofCrash .badFileName), h')) := by
  rcases h'.isFile_cases p with ⟨-, hfile, hseen⟩ | ⟨-, hno, hseen⟩ | ⟨-, -, hlong⟩
  · rw [exec_ofFile_of_hasFile hplace hfile]
    rcases readJsonFile_of_hasFile what hfile with ⟨j, hj⟩ | ⟨e, he, hkind⟩
    · exact .inl ⟨hseen, j, exec_bind_ok hj _⟩
    · exact .inr (.inl ⟨hseen, e, exec_bind_error he _, hkind⟩)
  · exact .inr (.inr (.inl ⟨hseen, exec_ofFile_of_not_hasFile hplace hno hseen⟩))
  · exact .inr (.inr (.inr ⟨hlong, exec_ofFile_of_cannotLookAt hplace hlong⟩))

end

/-! ### All settings are read in one way -/

theorem Config.load_eq : Config.load = ofFile Config.file "global config"
    (fun p j => fitting p "global config" (Config.ofJson j)) (fun _ => pure {}) := rfl

theorem Profile.load_eq (name : String) : Profile.load name =
    ofFile (Profile.file name) ("profile '" ++ name ++ "'")
      (fun p j => fitting p ("profile '" ++ name ++ "'") (Profile.ofJson j))
      (fun p => throw (Profile.notFound name p)) := rfl

namespace Project

/-- The place of the file of a project. -/
def file : Act Path := do return (← get).workPath.join (Program.name ++ ".json")

/-- The members of the file of a project. -/
def membersOf (p : Path) : Json → Act (Option (Keyed Json))
  | .obj ms => return some ms
  | _ => throw (configFault ("Invalid project config at " ++ p.toText ++ ": expected a JSON object") [])

theorem load_eq : Project.load = ofFile file "project config" membersOf (fun _ => pure none) := rfl

theorem exec_membersOf_cases (p : Path) (j : Json) (h : Host) :
    (∃ ms, exec (membersOf p j) h = (.ok ms, h)) ∨
      ∃ e, exec (membersOf p j) h = (.error e, h) ∧ e.kind = .config := by
  cases j with
  | obj ms => exact .inl ⟨_, rfl⟩
  | _ => exact .inr ⟨_, rfl, rfl⟩

end Project

end Restline
