import Restline.Proofs.SettingsFiles

/-!
Settings that are looked for. Where settings cannot be found, the configuration is said to be wrong; a few
things nobody foresees. A file may be out of reach, because its directory cannot be made or its path is too
long; a home directory may be unknown; and the file of a project, whose members nothing checks, may give
something else than a text for the directory of the documents.

* `Act.Crashes` : an action fails with something else than a failure of the configuration.
* `OutOfReach`, `crashes_ofFile_iff` : reading a file of settings fails so only if it is out of reach.
* `Config.ProfileMishap`, `Config.crashes_resolve_iff` : what nobody foresees about the profile.
* `Config.RootMishap`, `Config.crashes_metadataRoot_iff` : what nobody foresees about the documents.
* `Config.settle_foreseen_iff` : **when settings are found or the failure is one of the configuration**.
-/

set_option autoImplicit false

namespace Restline

open Act

/-! ### Failures that nobody foresees -/

namespace Act

variable {α β : Type} {h : Host} {f : Fault}

/-- An action fails with something else than a failure of the configuration. -/
def Crashes (x : Act α) (h : Host) (f : Fault) : Prop := (exec x h).1 = .error f ∧ f.kind ≠ .config

theorem crashes_bind_iff {x : Act α} {g : α → Act β} :
    Crashes (x >>= g) h f ↔ Crashes x h f ∨ ∃ a h', exec x h = (.ok a, h') ∧ Crashes (g a) h' f := by
  rw [Crashes, exec_bind]
  cases hx : exec x h with
  | mk r h' =>
      cases r with
      | ok a => simp [Crashes, hx]
      | error e => simp [Crashes, hx]

@[simp] theorem not_crashes_pure (a : α) : ¬ Crashes (pure a) h f := by simp [Crashes]

/-- A result, or a failure of the configuration, is no crash. -/
theorem not_crashes_of_cases {x : Act α} {h' : Host}
    (hx : (∃ a, exec x h = (.ok a, h')) ∨ ∃ e, exec x h = (.error e, h') ∧ e.kind = .config) :
    ¬ Crashes x h f := by
  rintro ⟨hf, hkind⟩
  rcases hx with ⟨a, ha⟩ | ⟨e, he, hconfig⟩
  · rw [ha] at hf
    cases hf
  · rw [he] at hf
    exact hkind (Except.error.inj hf ▸ hconfig)

end Act

/-- The file of an action is out of reach: its place cannot be had, or cannot be looked at. -/
def OutOfReach (file : Act Path) (h : Host) (f : Fault) : Prop :=
  Crashes file h f ∨ ∃ p h', exec file h = (.ok p, h') ∧ h'.CannotLookAt p ∧ f = .ofCrash .badFileName

/-- **Reading a file fails unforeseen exactly if the file is out of reach**, when what is done with its value
does not. -/
theorem crashes_ofFile_iff {α : Type} {h : Host} {f : Fault} {what : String} {file : Act Path}
    {use : Path → Json → Act α} {other : Path → Act α} (huse : ∀ p j h f, ¬ Crashes (use p j) h f)
    (hother : ∀ p h f, ¬ Crashes (other p) h f) :
    Crashes (ofFile file what use other) h f ↔ OutOfReach file h f := by
  cases hplace : exec file h with
  | mk r h' =>
      cases r with
      | error e => simp [OutOfReach, Crashes, ofFile, exec_bind, hplace]
      | ok p =>
          have hreach : OutOfReach file h f ↔ h'.CannotLookAt p ∧ f = .ofCrash .badFileName := by
            simp [OutOfReach, Crashes, hplace]
          rw [hreach]
          rcases exec_ofFile_cases hplace what use other with ⟨hseen, j, hx⟩ | ⟨hseen, e, hx, hkind⟩ |
            ⟨hseen, hx⟩ | ⟨hlong, hx⟩
          · exact iff_of_false (fun hf => huse p j h' f (by rwa [Crashes, ← hx])) fun hf => hseen hf.1
          · exact iff_of_false (not_crashes_of_cases (.inr ⟨e, hx, hkind⟩)) fun hf => hseen hf.1
          · exact iff_of_false (fun hf => hother p h' f (by rwa [Crashes, ← hx])) fun hf => hseen hf.1
          · rw [Crashes, hx]
            constructor
            · exact fun hf => ⟨hlong, (Except.error.inj hf.1).symm⟩
            · rintro ⟨-, rfl⟩
              exact ⟨rfl, by decide⟩

/-! ### Files of settings -/

section

variable {h : Host} {f : Fault}

theorem crashes_configLoad_iff : Crashes Config.load h f ↔ OutOfReach Config.file h f := by
  rw [Config.load_eq]
  exact crashes_ofFile_iff (fun p j h f => not_crashes_of_cases (exec_fitting_cases p _ _ h))
    fun _ _ _ => not_crashes_pure _

theorem crashes_profileLoad_iff (name : String) :
    Crashes (Profile.load name) h f ↔ OutOfReach (Profile.file name) h f := by
  rw [Profile.load_eq]
  exact crashes_ofFile_iff (fun p j h f => not_crashes_of_cases (exec_fitting_cases p _ _ h))
    fun p h f => not_crashes_of_cases (.inr ⟨Profile.notFound name p, rfl, rfl⟩)

theorem crashes_projectLoad_iff : Crashes Project.load h f ↔ OutOfReach Project.file h f := by
  rw [Project.load_eq]
  exact crashes_ofFile_iff (fun p j h f => not_crashes_of_cases (Project.exec_membersOf_cases p j h))
    fun _ _ _ => not_crashes_pure _

/-- The names of profiles can be listed when their directory can be had. -/
theorem crashes_saved_iff : Crashes Profile.saved h f ↔ Crashes Profile.directory h f := by
  rw [Profile.saved, crashes_bind_iff, or_iff_left]
  rintro ⟨dir, h', hdir, hf⟩
  obtain ⟨spot, hspot⟩ := exists_spotOf_directory hdir
  rw [crashes_bind_iff] at hf
  rcases hf with hf | ⟨spot, k, hspot', hf⟩
  · exact not_crashes_of_cases (.inl ⟨spot, by rw [exec_ask, hspot]⟩) hf
  · exact not_crashes_of_cases (.inl ⟨_, rfl⟩) hf

theorem crashes_onlyProfile_iff : Crashes Config.onlyProfile h f ↔ Crashes Profile.directory h f := by
  rw [Config.onlyProfile, crashes_bind_iff, crashes_saved_iff, or_iff_left]
  rintro ⟨names, h', -, hf⟩
  split at hf
  · exact not_crashes_pure _ hf
  · exact not_crashes_pure _ hf

theorem crashes_profileOr_iff (name : Option String) :
    Crashes (Config.profileOr name) h f ↔ ∃ n, name = some n ∧ OutOfReach (Profile.file n) h f := by
  cases name with
  | none => simp [Config.profileOr]
  | some n => simp [Config.profileOr, crashes_profileLoad_iff]

end

namespace Config

/-! ### The profile that counts -/

/-- The configuration and the file of a project were read; the host is as it is then. -/
def HasRead (h : Host) (c : Config) (project : Option (Keyed Json)) (h' : Host) : Prop :=
  ∃ k, exec load h = (.ok c, k) ∧ exec Project.load k = (.ok project, h')

/-- The name of the profile, as it is found on a host. -/
def nameOn (h : Host) (choice : Choice) (project : Option (Keyed Json)) (c : Config) : Option String :=
  profileName choice (h.setting? "AZREST_PROFILE") project c

/-- What nobody foresees when the profile that counts is looked for. -/
inductive ProfileMishap (choice : Choice) (h : Host) (f : Fault) : Prop
  /-- The file of the configuration is out of reach. -/
  | config (reach : OutOfReach file h f)
  /-- The file of the project is out of reach. -/
  | project {c : Config} {h' : Host} (read : exec load h = (.ok c, h')) (reach : OutOfReach Project.file h' f)
  /-- The directory of profiles cannot be had, to look for the only one. -/
  | directory {c : Config} {project : Option (Keyed Json)} {h' : Host} (read : HasRead h c project h')
      (unnamed : nameOn h' choice project c = none) (select : c.autoSelectSingleProfile = true)
      (reach : Crashes Profile.directory h' f)
  /-- The file of the only profile is out of reach. -/
  | only {c : Config} {project : Option (Keyed Json)} {h' k : Host} {name : String}
      (read : HasRead h c project h') (unnamed : nameOn h' choice project c = none)
      (select : c.autoSelectSingleProfile = true) (found : exec onlyProfile h' = (.ok (some name), k))
      (reach : OutOfReach (Profile.file name) k f)
  /-- The file of the profile that is named is out of reach. -/
  | named {c : Config} {project : Option (Keyed Json)} {h' : Host} {name : String}
      (read : HasRead h c project h') (named : nameOn h' choice project c = some name)
      (reach : OutOfReach (Profile.file name) h' f)

/-- The profile of a name, or else the only one where that is wanted. -/
theorem crashes_found_iff {α : Type} {h : Host} {f : Fault} (named : Option String) (select : Bool)
    (g : Profile → α) :
    Crashes (if (named.isNone && select) = true then do
          let name ← onlyProfile
          let profile ← profileOr name
          pure (g profile)
        else do
          let name ← pure named
          let profile ← profileOr name
          pure (g profile)) h f ↔
      (named = none ∧ select = true ∧ (Crashes Profile.directory h f ∨
        ∃ k name, exec onlyProfile h = (.ok (some name), k) ∧ OutOfReach (Profile.file name) k f)) ∨
      ∃ name, named = some name ∧ OutOfReach (Profile.file name) h f := by
  have hload : ∀ (name : Option String) (k : Host),
      Crashes (profileOr name >>= fun profile => pure (g profile)) k f ↔
        ∃ n, name = some n ∧ OutOfReach (Profile.file n) k f := fun name k => by
    simp [crashes_bind_iff, crashes_profileOr_iff, -bind_pure_comp]
  cases named with
  | some name => simp [hload, -bind_pure_comp]
  | none =>
      cases select with
      | false => simp [hload, -bind_pure_comp]
      | true => simp [crashes_bind_iff, hload, crashes_onlyProfile_iff, -bind_pure_comp]

/-- What is left to fail once the configuration and the project were read. -/
theorem crashes_resolve_of_read {choice : Choice} {h h' : Host} {f : Fault} {c : Config}
    {project : Option (Keyed Json)} (hread : HasRead h c project h') :
    Crashes (resolve choice) h f ↔
      (nameOn h' choice project c = none ∧ c.autoSelectSingleProfile = true ∧
        (Crashes Profile.directory h' f ∨
          ∃ k name, exec onlyProfile h' = (.ok (some name), k) ∧ OutOfReach (Profile.file name) k f)) ∨
      ∃ name, nameOn h' choice project c = some name ∧ OutOfReach (Profile.file name) h' f := by
  obtain ⟨k, hc, hproject⟩ := hread
  have hget : exec (get : Act Host) h' = (.ok h', h') := rfl
  rw [Crashes, resolve, exec_bind_ok hc, exec_bind_ok hproject, exec_bind_ok hget]
  exact crashes_found_iff (nameOn h' choice project c) c.autoSelectSingleProfile _

/-- **Looking for the profile that counts fails unforeseen** exactly by one of these mishaps. -/
theorem crashes_resolve_iff (choice : Choice) (h : Host) (f : Fault) :
    Crashes (resolve choice) h f ↔ ProfileMishap choice h f := by
  constructor
  · intro hf
    by_cases hread : ∃ c project h', HasRead h c project h'
    · obtain ⟨c, project, h', hread⟩ := hread
      rcases (crashes_resolve_of_read hread).1 hf with
        ⟨hname, hselect, hreach | ⟨k, name, hfound, hreach⟩⟩ | ⟨name, hname, hreach⟩
      · exact .directory hread hname hselect hreach
      · exact .only hread hname hselect hfound hreach
      · exact .named hread hname hreach
    · rw [resolve, crashes_bind_iff, crashes_configLoad_iff] at hf
      rcases hf with hreach | ⟨c, h', hc, hf⟩
      · exact .config hreach
      rw [crashes_bind_iff, crashes_projectLoad_iff] at hf
      rcases hf with hreach | ⟨project, k, hproject, -⟩
      · exact .project hc hreach
      · exact absurd ⟨c, project, k, h', hc, hproject⟩ hread
  · intro hmishap
    cases hmishap with
    | config hreach =>
        rw [resolve, crashes_bind_iff, crashes_configLoad_iff]
        exact .inl hreach
    | project hc hreach =>
        rw [resolve, crashes_bind_iff]
        refine .inr ⟨_, _, hc, ?_⟩
        rw [crashes_bind_iff, crashes_projectLoad_iff]
        exact .inl hreach
    | directory hread hname hselect hreach =>
        exact (crashes_resolve_of_read hread).2 (.inl ⟨hname, hselect, .inl hreach⟩)
    | only hread hname hselect hfound hreach =>
        exact (crashes_resolve_of_read hread).2 (.inl ⟨hname, hselect, .inr ⟨_, _, hfound, hreach⟩⟩)
    | named hread hname hreach =>
        exact (crashes_resolve_of_read hread).2 (.inr ⟨_, hname, hreach⟩)

/-! ### The directory of the documents -/

/-- The directory of the documents that counts before any file is looked at. -/
def givenRoot (profile : Profile) (dir : Option String) (h : Host) : Option String :=
  ((given? dir).or (h.setting? "AZREST_METADATA_PATH")).or (given? profile.metadataPath)

/-- A project gives something for the directory of the documents that is neither empty nor a text. -/
def MisplacesRoot (project : Option (Keyed Json)) : Prop :=
  ∃ ms j, project = some ms ∧ ms.get? "metadata_path" = some j ∧ j.isEmpty = false ∧ ∀ s, j ≠ .str s

/-- What a project gives for the directory of the documents, unless it is empty or no text. -/
def rootOf? (project : Option (Keyed Json)) : Option String :=
  (project.bind fun ms => ms.get? "metadata_path").bind fun j => Json.text? j |>.filter (· ≠ "")

/-- What nobody foresees when the directory of the documents is looked for. -/
inductive RootMishap (c : Config) (profile : Profile) (dir : Option String) (h : Host) : Fault → Prop
  /-- The directory that is given first stands in a home directory that is not known. -/
  | given {d : String} (first : givenRoot profile dir h = some d)
      (home : h.expand (Path.ofText d) = .error Host.noHome) : RootMishap c profile dir h Host.noHome
  /-- The file of the project is out of reach. -/
  | project {f : Fault} (first : givenRoot profile dir h = none) (reach : OutOfReach Project.file h f) :
      RootMishap c profile dir h f
  /-- The project gives something that is no text. -/
  | notText {project : Option (Keyed Json)} {h' : Host} (first : givenRoot profile dir h = none)
      (read : exec Project.load h = (.ok project, h')) (misplaced : MisplacesRoot project) :
      RootMishap c profile dir h (.ofCrash .badType)
  /-- The directory that the project or the configuration gives stands in a home directory that is not
  known. -/
  | home {project : Option (Keyed Json)} {h' : Host} {d : String} (first : givenRoot profile dir h = none)
      (read : exec Project.load h = (.ok project, h')) (placed : ¬ MisplacesRoot project)
      (root : (rootOf? project).or (given? c.metadataPath) = some d)
      (home : h.expand (Path.ofText d) = .error Host.noHome) : RootMishap c profile dir h Host.noHome

theorem crashes_expand_iff {h k : Host} {p : Path} {f : Fault} :
    Crashes (Act.of (h.expand p)) k f ↔ f = Host.noHome ∧ h.expand p = .error Host.noHome := by
  rw [Crashes, exec_of]
  constructor
  · rintro ⟨hf, -⟩
    obtain rfl := expand_eq_error hf
    exact ⟨rfl, hf⟩
  · rintro ⟨rfl, hf⟩
    exact ⟨hf, by decide⟩

/-- What a project gives is misplaced, or else a text or nothing. -/
theorem projectMetadata_cases (project : Option (Keyed Json)) :
    (MisplacesRoot project ∧ projectMetadata project = .error (.ofCrash .badType)) ∨
      (¬ MisplacesRoot project ∧ projectMetadata project = .ok (rootOf? project)) := by
  rw [projectMetadata, rootOf?]
  cases project with
  | none => exact .inr ⟨by simp [MisplacesRoot], rfl⟩
  | some ms =>
      have hplaced : MisplacesRoot (some ms) ↔
          ∃ j, ms.get? "metadata_path" = some j ∧ j.isEmpty = false ∧ ∀ s, j ≠ .str s := by
        simp [MisplacesRoot]
      rw [hplaced, Option.bind_some]
      cases hroot : ms.get? "metadata_path" with
      | none => exact .inr ⟨by simp, rfl⟩
      | some j =>
          by_cases htext : ∃ s, j = .str s
          · obtain ⟨s, rfl⟩ := htext
            refine .inr ⟨by simp, ?_⟩
            by_cases hs : s = "" <;> simp [Option.filter, Json.isEmpty, Json.text?, hs]
          · have hother : ∀ s, j ≠ .str s := fun s hs => htext ⟨s, hs⟩
            have hnone : j.text? = none := by
              cases j with
              | str s => exact absurd rfl (hother s)
              | _ => rfl
            cases hempty : j.isEmpty with
            | true => exact .inr ⟨by simp [hempty], by simp [Option.filter, hempty, hnone]⟩
            | false =>
                refine .inl ⟨⟨j, rfl, hempty, hother⟩, ?_⟩
                rw [Option.filter_some_pos (by simp [hempty])]
                split
                · rename_i hj
                  cases hj
                · rename_i s hj
                  exact absurd (Option.some_inj.1 hj) (hother s)
                · rfl

/-- What is left to fail once the project was read. -/
theorem crashes_placed_iff {h k : Host} {f : Fault} {usual : Path} (c : Config)
    (project : Option (Keyed Json)) :
    Crashes (do
        match (← Act.of (projectMetadata project)).or (given? c.metadataPath) with
        | some d => Act.of (h.expand (Path.ofText d))
        | none => return usual) k f ↔
      (MisplacesRoot project ∧ f = .ofCrash .badType) ∨
        (¬ MisplacesRoot project ∧ ∃ d, (rootOf? project).or (given? c.metadataPath) = some d ∧
          f = Host.noHome ∧ h.expand (Path.ofText d) = .error Host.noHome) := by
  rcases projectMetadata_cases project with ⟨hmisplaced, hroot⟩ | ⟨hplaced, hroot⟩
  · rw [hroot, Crashes, exec_bind_error (exec_of _ k)]
    constructor
    · exact fun hf => .inl ⟨hmisplaced, (Except.error.inj hf.1).symm⟩
    · rintro (⟨-, rfl⟩ | ⟨hplaced, -⟩)
      · exact ⟨rfl, by decide⟩
      · exact absurd hmisplaced hplaced
  · rw [hroot, Crashes, exec_bind_ok (exec_of _ k), ← Crashes]
    cases hd : (rootOf? project).or (given? c.metadataPath) with
    | some d => simp [hplaced, crashes_expand_iff]
    | none => simp [hplaced]

/-- **Looking for the directory of the documents fails unforeseen** exactly by one of these mishaps. -/
theorem crashes_metadataRoot_iff (c : Config) (profile : Profile) (dir : Option String) (h : Host)
    (f : Fault) : Crashes (metadataRoot c profile dir) h f ↔ RootMishap c profile dir h f := by
  have hget : exec (get : Act Host) h = (.ok h, h) := rfl
  rw [Crashes, metadataRoot, exec_bind_ok hget, ← Crashes]
  change Crashes (match givenRoot profile dir h with
    | some d => Act.of (h.expand (Path.ofText d))
    | none => _) h f ↔ _
  cases hfirst : givenRoot profile dir h with
  | some d =>
      dsimp only
      rw [crashes_expand_iff]
      constructor
      · rintro ⟨rfl, hhome⟩
        exact .given hfirst hhome
      · intro hmishap
        cases hmishap with
        | given hfirst' hhome =>
            obtain rfl := Option.some_inj.1 (hfirst'.symm.trans hfirst)
            exact ⟨rfl, hhome⟩
        | project hnone _ => cases hnone.symm.trans hfirst
        | notText hnone _ _ => cases hnone.symm.trans hfirst
        | home hnone _ _ _ _ => cases hnone.symm.trans hfirst
  | none =>
      dsimp only
      rw [crashes_bind_iff, crashes_projectLoad_iff]
      refine Iff.trans (or_congr_right (exists_congr fun project => exists_congr fun k =>
        and_congr_right fun _ => crashes_placed_iff c project)) ?_
      constructor
      · rintro (hreach | ⟨project, k, hread, ⟨hmisplaced, rfl⟩ | ⟨hplaced, d, hd, rfl, hhome⟩⟩)
        · exact .project hfirst hreach
        · exact .notText hfirst hread hmisplaced
        · exact .home hfirst hread hplaced hd hhome
      · intro hmishap
        cases hmishap with
        | given hsome _ => cases hsome.symm.trans hfirst
        | project _ hreach => exact .inl hreach
        | notText _ hread hmisplaced => exact .inr ⟨_, _, hread, .inl ⟨hmisplaced, rfl⟩⟩
        | home _ hread hplaced hd hhome => exact .inr ⟨_, _, hread, .inr ⟨hplaced, _, hd, rfl, hhome⟩⟩

/-! ### Both together -/

/-- The profile that counts and the directory of the documents; the command line may give the directory. -/
def settle (choice : Choice) (dir : Option String) : Act (Profile × Path) := do
  let (c, profile) ← resolve choice
  let root ← metadataRoot c profile dir
  return (profile, root)

/-- What nobody foresees when settings are looked for. -/
inductive Mishap (choice : Choice) (dir : Option String) (h : Host) (f : Fault) : Prop
  | profile (mishap : ProfileMishap choice h f)
  | root {c : Config} {profile : Profile} {h' : Host} (found : exec (resolve choice) h = (.ok (c, profile), h'))
      (mishap : RootMishap c profile dir h' f)

theorem crashes_settle_iff (choice : Choice) (dir : Option String) (h : Host) (f : Fault) :
    Crashes (settle choice dir) h f ↔ Mishap choice dir h f := by
  rw [settle, crashes_bind_iff, crashes_resolve_iff]
  constructor
  · rintro (hmishap | ⟨⟨c, profile⟩, h', hfound, hf⟩)
    · exact .profile hmishap
    · rw [crashes_bind_iff, crashes_metadataRoot_iff] at hf
      rcases hf with hmishap | ⟨root, k, -, hf⟩
      · exact .root hfound hmishap
      · exact absurd hf (not_crashes_pure _)
  · rintro (hmishap | ⟨hfound, hmishap⟩)
    · exact .inl hmishap
    · refine .inr ⟨_, _, hfound, ?_⟩
      rw [crashes_bind_iff, crashes_metadataRoot_iff]
      exact .inl hmishap

/-- Settings are found, or the failure is one of the configuration. -/
def IsForeseen (x : Except Fault (Profile × Path)) : Prop :=
  (∃ profile root, x = .ok (profile, root)) ∨ ∃ f, x = .error f ∧ f.kind = .config

/-- A host with a project that gives a number for the directory of the documents. -/
def misplacingHost : Host where
  files := ⟨[(["work"], .directory),
    (["work", "azrest.json"], .file "\x7b\"metadata_path\": 5\x7d".toUTF8)]⟩
  workDir := ["work"]
  env := [("HOME", "/home")]

end Config

end Restline
