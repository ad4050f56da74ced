import Restline.Proofs.UndisturbedSettings

/-!
What files of settings hold. The bytes of a file alone decide which settings are read from it, or that it is
invalid; where there is no file, or its path cannot be looked at, something else comes of it. To read settings
changes a host no more than to ask for their directory, and asking for that again changes nothing.

* `settingsOf?`, `exec_heldSettings_cases` : **what bytes stand for is what is read from a file that holds them**.
* `Host.HoldsProfile`, `Profile.exec_load_eq_ok_iff` : the bytes of a profile.
* `Profile.exec_file_of_directory`, `Profile.exec_isSaved_of_directory` : where they are, and whether they are there.
* `exec_ofFile_snd` : the host after settings were read.
* `Config.lasts_directory`, `Profile.lasts_directory` : **a directory that was had is had again**.
-/

set_option autoImplicit false

namespace Restline

open Act

section

variable {α : Type} {h k : Host} {p : Path} {bytes : ByteArray} {what : String}

/-! ### Bytes -/

/-- The settings that bytes stand for. -/
def settingsOf? (read : Json → Checked α) (bytes : ByteArray) : Option α :=
  match Text.Utf8.readText bytes with
  | .error _ => none
  | .ok text =>
    match Json.read text with
    | .error _ => none
    | .ok j => (read j).toOption

/-- The failure says that a file of settings is invalid. -/
structure Fault.IsInvalid (f : Fault) : Prop where
  kind : f.kind = .config
  message : ∃ rest, f.message = "Invalid " ++ rest

theorem isInvalid_configFault (what place rest : String) (issues : List Issue) :
    (configFault ("Invalid " ++ what ++ " at " ++ place ++ ": " ++ rest) issues).IsInvalid :=
  ⟨rfl, what ++ " at " ++ place ++ ": " ++ rest, by simp only [configFault, String.append_assoc]⟩

/-- The settings in a file that is there. -/
def heldSettings (p : Path) (what : String) (read : Json → Checked α) : Act α := do
  let j ← readJsonFile p what
  fitting p what (read j)

/-- **What bytes stand for is what is read from a file that holds them.** -/
theorem exec_heldSettings_cases (hholds : h.Holds p bytes) (what : String) (read : Json → Checked α) :
    (∃ a, settingsOf? read bytes = some a ∧ exec (heldSettings p what read) h = (.ok a, h)) ∨
      (settingsOf? read bytes = none ∧ ∃ f, exec (heldSettings p what read) h = (.error f, h) ∧ f.IsInvalid) := by
  rw [heldSettings, readJsonFile, bind_assoc, exec_bind_ok (exec_readBytes_of_holds hholds), settingsOf?]
  dsimp only
  cases Text.Utf8.readText bytes with
  | error e => exact .inr ⟨rfl, _, rfl, isInvalid_configFault what p.toText _ []⟩
  | ok text =>
      dsimp only
      cases Json.read text with
      | error e => exact .inr ⟨rfl, _, rfl, isInvalid_configFault what p.toText _ []⟩
      | ok j =>
          change (∃ a, (read j).toOption = some a ∧ exec (fitting p what (read j)) h = (.ok a, h)) ∨
            ((read j).toOption = none ∧ ∃ f, exec (fitting p what (read j)) h = (.error f, h) ∧ f.IsInvalid)
          cases read j with
          | valid a => exact .inl ⟨a, rfl, rfl⟩
          | flawed is =>
              have hinvalid := isInvalid_configFault what p.toText "" is
              rw [String.append_empty] at hinvalid
              exact .inr ⟨rfl, _, rfl, hinvalid⟩

/-! ### Files -/

section

variable {file : Act Path} {use : Path → Json → Act α} {other : Path → Act α}

/-- Reading settings changes a host no more than asking for the place of their file. -/
theorem exec_ofFile_snd (h : Host) (huse : ∀ p j k, (exec (use p j) k).2 = k)
    (hother : ∀ p k, (exec (other p) k).2 = k) :
    (exec (ofFile file what use other) h).2 = (exec file h).2 := by
  cases hplace : exec file h with
  | mk r k =>
      cases r with
      | error e => rw [ofFile, exec_bind_error hplace]
      | ok p =>
          rcases exec_ofFile_cases hplace what use other with ⟨-, j, hx⟩ | ⟨-, e, hx, -⟩ | ⟨-, hx⟩ | ⟨-, hx⟩
          · rw [hx, huse]
          · rw [hx]
          · rw [hx, hother]
          · rw [hx]

end

theorem exec_fitting_snd (p : Path) (what : String) (c : Checked α) (k : Host) :
    (exec (fitting p what c) k).2 = k := by
  cases c <;> rfl

/-- A way on from a place leads nowhere else. -/
theorem exec_map_snd {β : Type} (x : Act α) (f : α → β) (h : Host) :
    (exec (do return f (← x)) h).2 = (exec x h).2 := by
  rw [exec_bind]
  cases exec x h with
  | mk r k => cases r <;> rfl

end

/-! ### Directories -/

section

variable {α : Type} {h k : Host} {p q dir : Path}

theorem exec_madeDirectory_eq_ok_iff : exec (madeDirectory p) h = (.ok q, k) ↔
    q = p ∧ h.files.makeDirs h.workDir p = (none, k.files) ∧ k = { h with files := k.files } := by
  rw [madeDirectory, exec_bind, Act.makeDirs, exec_changeFiles]
  cases hmade : h.files.makeDirs h.workDir p with
  | mk fault t =>
      cases fault with
      | some f => simp
      | none =>
          simp only [exec_pure, Prod.mk.injEq, Except.ok.injEq, true_and]
          constructor
          · rintro ⟨rfl, rfl⟩
            exact ⟨rfl, rfl, rfl⟩
          · rintro ⟨rfl, rfl, hk⟩
            exact ⟨rfl, hk.symm⟩

/-- A directory that is had is had again where places are the same and directories are kept. -/
def Lasts (directory : Act Path) : Prop :=
  ∀ {h k k' : Host} {dir : Path}, exec directory h = (.ok dir, k) → k.SamePlaces k' →
    k.files.KeepsDirectories k'.files → exec directory k' = (.ok dir, k')

/-- A directory that is had stands. -/
def Makes (directory : Act Path) : Prop :=
  ∀ {h k : Host} {dir : Path}, exec directory h = (.ok dir, k) → ∃ spot, k.files.Stands k.workDir dir spot

namespace Config

theorem exec_directory_eq_ok_iff : exec directory h = (.ok dir, k) ↔
    h.configPath = .ok dir ∧ h.files.makeDirs h.workDir dir = (none, k.files) ∧ k = { h with files := k.files } := by
  rw [directory, exec_bind, exec_ask]
  cases h.configPath with
  | error f => simp
  | ok p =>
      rw [exec_madeDirectory_eq_ok_iff, Except.ok.injEq]
      constructor
      · rintro ⟨rfl, hmade, hk⟩
        exact ⟨rfl, hmade, hk⟩
      · rintro ⟨rfl, hmade, hk⟩
        exact ⟨rfl, hmade, hk⟩

theorem lasts_directory : Lasts directory := by
  intro h k h' dir hdir hplaces hkeeps
  obtain ⟨hpath, hmade, hk⟩ := exec_directory_eq_ok_iff.1 hdir
  have hsame : h.SamePlaces k := by rw [hk]; exact ⟨rfl, rfl, rfl, rfl, rfl⟩
  have hall := hsame.trans hplaces
  refine exec_directory_eq_ok_iff.2 ⟨hall.configPath_eq.trans hpath, ?_, rfl⟩
  rw [hall.workDir]
  exact Tree.makeDirs_of_keepsDirectories hmade hkeeps

/-- The path of the directory has a name. -/
theorem names_ne_nil_of_configPath (hpath : h.configPath = .ok dir) : dir.names ≠ [] := by
  have hname : Path.IsName Program.name := ⟨by decide, by decide, by decide, by decide⟩
  have hdotted : Path.IsName ("." ++ Program.name) := ⟨by decide, by decide, by decide, by decide⟩
  rw [Host.configPath] at hpath
  split at hpath
  all_goals
    obtain ⟨p, -, rfl⟩ := Except.map_eq_ok_iff.1 hpath
    simp [Path.join_of_isName hname, Path.join_of_isName hdotted]

theorem makes_directory : Makes directory := by
  intro h k dir hdir
  obtain ⟨hpath, hmade, hk⟩ := exec_directory_eq_ok_iff.1 hdir
  rw [hk]
  exact Tree.exists_stands_of_makeDirs (names_ne_nil_of_configPath hpath) hmade

/-- The directory that was had is had again. -/
theorem exec_directory_again (hdir : exec directory h = (.ok dir, k)) : exec directory k = (.ok dir, k) :=
  lasts_directory hdir (.refl k) (.refl k.files)

/-- What begins with the directory comes to the same once it was had. -/
theorem exec_bind_directory_again (hdir : exec directory h = (.ok dir, k)) (f : Path → Act α) :
    exec (directory >>= f) k = exec (directory >>= f) h := by
  rw [exec_bind_ok hdir, exec_bind_ok (exec_directory_again hdir)]

theorem exec_load_snd (h : Host) : (exec load h).2 = (exec directory h).2 := by
  rw [load_eq, exec_ofFile_snd h (fun p _ k => exec_fitting_snd p _ _ k) fun _ _ => rfl]
  exact exec_map_snd _ _ h

theorem exec_directory_of_load {c : Config} (hload : exec load h = (.ok c, k)) :
    ∃ dir, exec directory h = (.ok dir, k) := by
  have hk := exec_load_snd h
  rw [hload] at hk
  cases hdir : exec directory h with
  | mk r k' =>
      rw [hdir] at hk
      obtain rfl : k = k' := hk
      cases r with
      | ok dir => exact ⟨dir, rfl⟩
      | error e =>
          have hfile : exec file h = (.error e, k) := exec_bind_error hdir _
          rw [load_eq, ofFile, exec_bind_error hfile] at hload
          cases hload

end Config

theorem Project.exec_load_snd (h : Host) : (exec Project.load h).2 = h := by
  rw [load_eq, exec_ofFile_snd h (fun p j k => ?_) fun _ _ => rfl]
  · rfl
  · rcases exec_membersOf_cases p j k with ⟨ms, hx⟩ | ⟨e, hx, -⟩ <;> rw [hx]

end

/-! ### Profiles -/

namespace Host

/-- The file of the profile of a name holds these bytes. -/
def HoldsProfile (h : Host) (name : String) (bytes : ByteArray) : Prop :=
  ∃ p k, exec (Profile.file name) h = (.ok p, k) ∧ k.Holds p bytes

theorem HoldsProfile.unique {h : Host} {name : String} {bytes bytes' : ByteArray} (hb : h.HoldsProfile name bytes)
    (hb' : h.HoldsProfile name bytes') : bytes = bytes' := by
  obtain ⟨p, k, hplace, hholds⟩ := hb
  obtain ⟨p', k', hplace', hholds'⟩ := hb'
  obtain ⟨hp, rfl⟩ := Prod.mk.inj (hplace.symm.trans hplace')
  obtain rfl := Except.ok.inj hp
  exact hholds.unique hholds'

end Host

namespace Profile

variable {h k : Host} {name : String}

/-- What begins with the directory of profiles comes to the same once that of the configuration was had. -/
theorem exec_directory_bind_again {α : Type} {dir : Path} (hdir : exec Config.directory h = (.ok dir, k))
    (f : Path → Act α) : exec (directory >>= f) k = exec (directory >>= f) h := by
  rw [directory, bind_assoc]
  exact Config.exec_bind_directory_again hdir _

theorem lasts_directory : Lasts directory := by
  intro h k h' dir hdir hplaces hkeeps
  obtain ⟨config, k', hconfig, hmade⟩ := exec_bind_eq_ok_iff.1 hdir
  obtain ⟨rfl, hmade, hk⟩ := exec_madeDirectory_eq_ok_iff.1 hmade
  have hfirst : k'.SamePlaces h' := by
    refine Host.SamePlaces.trans ?_ hplaces
    rw [hk]
    exact ⟨rfl, rfl, rfl, rfl, rfl⟩
  have hgrown : k'.files.KeepsDirectories k.files := by
    have hmakes := Tree.keepsDirectories_makeDirs k'.files k'.workDir (config.join "profiles")
    rwa [hmade] at hmakes
  have hconfig' := Config.lasts_directory hconfig hfirst (hgrown.trans hkeeps)
  refine (exec_bind_ok hconfig' _).trans (exec_madeDirectory_eq_ok_iff.2 ⟨rfl, ?_, rfl⟩)
  rw [hfirst.workDir]
  exact Tree.makeDirs_of_keepsDirectories hmade hkeeps

theorem makes_directory : Makes directory := by
  intro h k dir hdir
  obtain ⟨config, k', -, hmade⟩ := exec_bind_eq_ok_iff.1 hdir
  obtain ⟨rfl, hmade, hk⟩ := exec_madeDirectory_eq_ok_iff.1 hmade
  have hname : Path.IsName "profiles" := ⟨by decide, by decide, by decide, by decide⟩
  rw [hk]
  exact Tree.exists_stands_of_makeDirs (by simp [Path.join_of_isName hname]) hmade

/-- The place of the file of a name, in the directory that is had. -/
theorem exec_file_of_directory {dir : Path} (hdir : exec directory h = (.ok dir, k)) (name : String) :
    exec (file name) h = (.ok (dir.join (name ++ extension)), k) := by
  rw [file, exec_bind_ok hdir]
  rfl

/-- A profile is there if its file is. -/
theorem exec_isSaved_of_directory {dir : Path} (hdir : exec directory h = (.ok dir, k)) (name : String) :
    exec (isSaved name) h = (k.isFile (dir.join (name ++ extension)), k) := by
  rw [isSaved, exec_bind_ok (exec_file_of_directory hdir name)]
  rfl

theorem exec_load_again {dir : Path} (hdir : exec Config.directory h = (.ok dir, k)) (name : String) :
    exec (load name) k = exec (load name) h := by
  rw [load, file, bind_assoc]
  exact exec_directory_bind_again hdir _

theorem exec_load_of_holds {p : Path} {bytes : ByteArray} (hplace : exec (file name) h = (.ok p, k))
    (hholds : k.Holds p bytes) :
    exec (load name) h = exec (heldSettings p ("profile '" ++ name ++ "'") ofJson) k := by
  rw [load_eq, exec_ofFile_of_hasFile hplace ⟨bytes, hholds⟩]
  rfl

/-- **The profile that is read** is the one that its bytes stand for. -/
theorem exec_load_eq_ok_iff {q : Profile} :
    (exec (load name) h).1 = .ok q ↔ ∃ bytes, h.HoldsProfile name bytes ∧ settingsOf? ofJson bytes = some q := by
  constructor
  · intro hload
    cases hplace : exec (file name) h with
    | mk r k =>
        cases r with
        | error e =>
            rw [load_eq, ofFile, exec_bind_error hplace] at hload
            cases hload
        | ok p =>
            by_cases hfile : k.HasFile p
            · obtain ⟨bytes, hholds⟩ := hfile
              rw [exec_load_of_holds hplace hholds] at hload
              rcases exec_heldSettings_cases hholds ("profile '" ++ name ++ "'") ofJson with
                ⟨a, ha, hx⟩ | ⟨-, f, hx, -⟩
              · rw [hx] at hload
                obtain rfl := Except.ok.inj hload
                exact ⟨bytes, ⟨p, k, hplace, hholds⟩, ha⟩
              · rw [hx] at hload
                cases hload
            · by_cases hseen : k.CannotLookAt p
              · rw [load_eq, exec_ofFile_of_cannotLookAt hplace hseen] at hload
                cases hload
              · rw [load_eq, exec_ofFile_of_not_hasFile hplace hfile hseen] at hload
                cases hload
  · rintro ⟨bytes, ⟨p, k, hplace, hholds⟩, hq⟩
    rw [exec_load_of_holds hplace hholds]
    rcases exec_heldSettings_cases hholds ("profile '" ++ name ++ "'") ofJson with ⟨a, ha, hx⟩ | ⟨hnone, -⟩
    · rw [hx]
      exact congrArg Except.ok (Option.some_inj.1 (ha.symm.trans hq))
    · cases hnone.symm.trans hq

end Profile

end Restline
