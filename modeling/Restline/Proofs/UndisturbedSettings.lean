import Restline.Program.Start
import Restline.Proofs.SettingsFiles

/-!
Actions that leave settings undisturbed. What the program does to find its settings, to read them and to talk to
the user changes neither a file nor what the places of files depend on. At most directories are made, and those that
stood before still stand.

* `Host.SamePlaces` : two hosts have their files in the same places.
* `Host.Undisturbed` : moreover the same files, and the directories that stood before.
* `Undisturbing`, `Undisturbing.bind` : what an action does, and **one action after another**.
* `Undisturbing.resolve`, `Undisturbing.loadApi` : **looking for settings disturbs none**.
* `exec_replaceText_cases` : **what putting a text into a file of settings comes to**.
-/

set_option autoImplicit false

namespace Restline

/-! ### Undisturbed hosts -/

/-- What the places of files depend on is the same. -/
structure Host.SamePlaces (h h' : Host) : Prop where
  env : h'.env = h.env
  workDir : h'.workDir = h.workDir
  platform : h'.platform = h.platform
  user : h'.user = h.user
  accounts : h'.accounts = h.accounts

namespace Host.SamePlaces

variable {h h' h'' : Host}

theorem refl (h : Host) : h.SamePlaces h := ⟨rfl, rfl, rfl, rfl, rfl⟩

theorem trans (hfirst : h.SamePlaces h') (hthen : h'.SamePlaces h'') : h.SamePlaces h'' where
  env := hthen.env.trans hfirst.env
  workDir := hthen.workDir.trans hfirst.workDir
  platform := hthen.platform.trans hfirst.platform
  user := hthen.user.trans hfirst.user
  accounts := hthen.accounts.trans hfirst.accounts

theorem setting?_eq (hplaces : h.SamePlaces h') (name : String) : h'.setting? name = h.setting? name := by
  rw [Host.setting?, Host.setting?, hplaces.env]

theorem homePath_eq (hplaces : h.SamePlaces h') : h'.homePath = h.homePath := by
  have hhomes : h'.homes = h.homes := by
    funext account
    rw [Host.homes, Host.homes, hplaces.env, hplaces.user, hplaces.accounts]
  rw [Host.homePath, Host.homePath, Host.expand, Host.expand, hhomes]

theorem configPath_eq (hplaces : h.SamePlaces h') : h'.configPath = h.configPath := by
  have hfollows : h'.followsEnvironment = h.followsEnvironment := by
    rw [Host.followsEnvironment, Host.followsEnvironment, hplaces.platform]
  have hbase : ∀ name names, h'.baseDirectory name names = h.baseDirectory name names := fun name names => by
    rw [Host.baseDirectory, Host.baseDirectory, hplaces.setting?_eq, hplaces.homePath_eq]
  rw [Host.configPath, Host.configPath, hfollows, hbase, hplaces.homePath_eq]

end Host.SamePlaces

/-- Places and files are the same, and every directory still stands. -/
structure Host.Undisturbed (h h' : Host) : Prop where
  places : h.SamePlaces h'
  files : ∀ spot, h'.files.fileAt? spot = h.files.fileAt? spot
  listed : h'.files.files = h.files.files
  directories : h.files.KeepsDirectories h'.files

namespace Host.Undisturbed

variable {h h' h'' : Host}

/-- Another host with the same places and the same tree. -/
theorem of_eq (hplaces : h.SamePlaces h') (heq : h'.files = h.files) : h.Undisturbed h' :=
  ⟨hplaces, fun _ => by rw [heq], by rw [heq], heq ▸ .refl _⟩

theorem refl (h : Host) : h.Undisturbed h := .of_eq (.refl h) rfl

theorem trans (hfirst : h.Undisturbed h') (hthen : h'.Undisturbed h'') : h.Undisturbed h'' where
  places := hfirst.places.trans hthen.places
  files spot := (hthen.files spot).trans (hfirst.files spot)
  listed := hthen.listed.trans hfirst.listed
  directories := hfirst.directories.trans hthen.directories

end Host.Undisturbed

namespace Tree

variable {t : Tree} {spot : Spot}

/-- A directory in a free place is no file. -/
theorem files_put_directory (hfree : t.entry? spot = none) : (t.put spot .directory).files = t.files := by
  rw [put, erase_of_free hfree, files, List.filterMap_cons_none rfl, files]

theorem files_makeDirs (t : Tree) (cwd : Spot) (p : Path) : (t.makeDirs cwd p).2.files = t.files :=
  makeDirs_induction (P := fun t' => t'.files = t.files)
    (fun _ _ hfree hfiles => (files_put_directory hfree).trans hfiles) rfl p

end Tree

/-! ### Actions that disturb nothing -/

/-- The action leaves settings undisturbed. -/
def Undisturbing {ε α : Type} (x : ExceptT ε (StateM Host) α) : Prop := ∀ h : Host, h.Undisturbed (x h).2

namespace Undisturbing

section

variable {ε α β : Type}

theorem pure (a : α) : Undisturbing (pure a : ExceptT ε (StateM Host) α) := fun h => .refl h

theorem throw (e : ε) : Undisturbing (throw e : ExceptT ε (StateM Host) α) := fun h => .refl h

theorem get : Undisturbing (get : ExceptT ε (StateM Host) Host) := fun h => .refl h

/-- **One action after another** disturbs nothing if neither of them does. -/
theorem bind {x : ExceptT ε (StateM Host) α} {f : α → ExceptT ε (StateM Host) β} (hx : Undisturbing x)
    (hf : ∀ a, Undisturbing (f a)) : Undisturbing (x >>= f) :=
  relates_bind .trans hx hf

end

/-! ### What acts on a host -/

section

variable {α : Type}

/-- What an action leaves that was carried out. -/
theorem exec {x : Act α} (hx : Undisturbing x) {h k : Host} {r : Except Fault α} (hran : Act.exec x h = (r, k)) :
    h.Undisturbed k := by
  have hsame := hx h
  rwa [show x h = (r, k) from hran] at hsame

theorem ask (f : Host → Except Fault α) : Undisturbing (Act.ask f) := fun h => .refl h

theorem of (x : Except Fault α) : Undisturbing (Act.of x) := fun h => .refl h

theorem print (text : String) : Undisturbing (Act.print text) := fun _ => .of_eq ⟨rfl, rfl, rfl, rfl, rfl⟩ rfl

theorem prompt (text : String) : Undisturbing (Act.prompt text) := fun _ => .of_eq ⟨rfl, rfl, rfl, rfl, rfl⟩ rfl

theorem report (text : String) : Undisturbing (Act.report text) := fun _ => .of_eq ⟨rfl, rfl, rfl, rfl, rfl⟩ rfl

theorem readLine : Undisturbing Act.readLine := by
  intro h
  rw [Act.readLine]
  split
  · exact .refl h
  · exact .of_eq ⟨rfl, rfl, rfl, rfl, rfl⟩ rfl

theorem info (con : Console) (text : String) : Undisturbing (con.info text) := by
  rw [Console.info]
  split
  · exact .pure ()
  · exact report text

theorem makeDirs (p : Path) : Undisturbing (Act.makeDirs p) := fun h =>
  { places := ⟨rfl, rfl, rfl, rfl, rfl⟩
    files := Tree.fileAt?_makeDirs h.files h.workDir p
    listed := Tree.files_makeDirs h.files h.workDir p
    directories := Tree.keepsDirectories_makeDirs h.files h.workDir p }

/-! ### Settings that are looked for -/

theorem madeDirectory (p : Path) : Undisturbing (madeDirectory p) := (makeDirs p).bind fun _ => .pure p

theorem configDirectory : Undisturbing Config.directory := (ask _).bind madeDirectory

theorem dataDirectory : Undisturbing Config.dataDirectory := (ask _).bind madeDirectory

theorem profileDirectory : Undisturbing Profile.directory := configDirectory.bind fun _ => madeDirectory _

theorem configFile : Undisturbing Config.file := configDirectory.bind fun _ => .pure _

theorem profileFile (name : String) : Undisturbing (Profile.file name) := profileDirectory.bind fun _ => .pure _

theorem projectFile : Undisturbing Project.file := Undisturbing.get.bind fun _ => .pure _

theorem readJsonFile (p : Path) (what : String) : Undisturbing (readJsonFile p what) := by
  refine (ask _).bind fun bytes => ?_
  split
  · exact .throw _
  · split
    · exact .throw _
    · exact .pure _

theorem fitting (p : Path) (what : String) (c : Checked α) : Undisturbing (fitting p what c) := by
  cases c with
  | valid a => exact .pure a
  | flawed is => exact .throw _

theorem ofFile {file : Act Path} {what : String} {use : Path → Json → Act α} {other : Path → Act α}
    (hfile : Undisturbing file) (huse : ∀ p j, Undisturbing (use p j)) (hother : ∀ p, Undisturbing (other p)) :
    Undisturbing (ofFile file what use other) := by
  refine hfile.bind fun p => (ask _).bind fun there => ?_
  split
  · exact (readJsonFile p what).bind fun j => huse p j
  · exact hother p

theorem configLoad : Undisturbing Config.load := by
  rw [Config.load_eq]
  exact ofFile configFile (fun p _ => fitting p _ _) fun _ => .pure _

theorem profileLoad (name : String) : Undisturbing (Profile.load name) := by
  rw [Profile.load_eq]
  exact ofFile (profileFile name) (fun p _ => fitting p _ _) fun _ => .throw _

theorem projectLoad : Undisturbing Project.load := by
  rw [Project.load_eq]
  refine ofFile projectFile (fun p j => ?_) fun _ => .pure _
  cases j with
  | obj ms => exact .pure _
  | _ => exact .throw _

theorem saved : Undisturbing Profile.saved := by
  rw [Profile.saved]
  refine profileDirectory.bind fun dir => ?_
  refine (ask _).bind fun spot => ?_
  exact Undisturbing.get.bind fun h => .pure _

theorem isSaved (name : String) : Undisturbing (Profile.isSaved name) := (profileFile name).bind fun _ => ask _

theorem onlyProfile : Undisturbing Config.onlyProfile := by
  rw [Config.onlyProfile]
  refine saved.bind fun names => ?_
  split <;> exact .pure _

theorem profileOr (name : Option String) : Undisturbing (Config.profileOr name) := by
  cases name with
  | none => exact .pure _
  | some name => exact profileLoad name

theorem resolve (choice : Choice) : Undisturbing (Config.resolve choice) := by
  rw [Config.resolve]
  refine configLoad.bind fun c => ?_
  refine projectLoad.bind fun project => ?_
  refine Undisturbing.get.bind fun h => ?_
  dsimp only
  split
  · refine onlyProfile.bind fun name => ?_
    exact (profileOr name).bind fun _ => .pure _
  · refine Undisturbing.bind (.pure _) fun name => ?_
    exact (profileOr name).bind fun _ => .pure _

theorem metadataRoot (c : Config) (profile : Profile) (dir : Option String) :
    Undisturbing (Config.metadataRoot c profile dir) := by
  rw [Config.metadataRoot]
  refine Undisturbing.get.bind fun h => ?_
  dsimp only
  split
  · exact of _
  · refine projectLoad.bind fun project => ?_
    refine (of _).bind fun root => ?_
    split
    · exact of _
    · exact .pure _

theorem loadApi (words : List String) : Undisturbing (Program.loadApi words) := by
  rw [Program.loadApi]
  split
  · rw [Api.load]
    refine (resolve _).bind fun found => ?_
    refine (metadataRoot _ _ _).bind fun root => ?_
    exact (ask _).bind fun tree => .pure _
  · exact .pure _

end

end Undisturbing

/-! ### Files that are replaced -/

theorem isExtension_settings : Path.IsExtension Profile.extension := ⟨by decide, by decide⟩

/-- **What putting a text into a file of settings comes to**: nothing is disturbed before, and then the bytes are at
the end of the path, or nothing has come of it. -/
theorem exec_replaceText_cases (dir : Path) (name text : String) (h : Host) :
    let p := dir.join (name ++ Profile.extension)
    (∃ f k, Act.exec (Act.replaceText p text) h = (.error f, k) ∧ h.Undisturbed k) ∨
      ∃ k target, h.Undisturbed k ∧ k.files.follow k.workDir p = .ok target ∧
        k.files.entry? target ≠ some .directory ∧ Act.exec (Act.replaceText p text) h =
          (.ok (), { k with files := k.files.put target (.file text.toUTF8) }) := by
  intro p
  have hmade := Undisturbing.makeDirs p.parent h
  have hname := Path.slash_notMem_fileName_join isExtension_settings dir name
  rw [Act.replaceText, Act.exec_bind]
  cases hran : Act.makeDirs p.parent h with
  | mk r k =>
      have hexec : Act.exec (Act.makeDirs p.parent) h = (r, k) := hran
      rw [hran] at hmade
      rw [hexec]
      cases r with
      | error f => exact .inl ⟨f, k, rfl, hmade⟩
      | ok u =>
          dsimp only
          rw [Act.exec_changeFiles]
          rcases Tree.replace_cases k.files k.workDir hname text.toUTF8 with ⟨f, hfails⟩ | ⟨target, hdone, hway, hother⟩
          · rw [hfails]
            exact .inl ⟨_, _, rfl, hmade⟩
          · rw [hdone]
            exact .inr ⟨k, target, hmade, hway, hother, rfl⟩

theorem Config.save_eq (c : Config) : c.save = Config.directory >>= fun dir =>
    Act.replaceText (dir.join ("config" ++ Profile.extension)) (jsonFileText c.toJson) := by
  have hname : "config" ++ Profile.extension = "config.json" := by decide
  simp only [Config.save, Config.file, bind_assoc, pure_bind, hname]

theorem Profile.save_eq (p : Profile) : p.save = Profile.directory >>= fun dir =>
    if p.toJson.isWritable then
      Act.replaceText (dir.join (p.name ++ Profile.extension)) (jsonFileText p.toJson)
    else throw (.ofCrash .badValue) := by
  simp only [Profile.save, Profile.file, bind_assoc, pure_bind]

end Restline
