import Restline.Proofs.ListedProfiles
import Restline.Proofs.Precedence
import Restline.Proofs.SavedSettings
import Restline.Proofs.WrittenSettings

/-!
Settings that grow. Files of settings are put and never taken away; so a profile that is there once stays there. Where
the directory of the configuration stands, and every file in that of profiles is one, the configuration can be read
back, and looking for the profile that counts does not end with a profile that is not there, unless it is named.

* `Host.Grows`, `Host.HasProfile.of_grows` : **a profile that is there stays there**.
* `Config.exec_load_eq_ok_iff` : the configuration that is read.
* `Host.Settled` : a host where settings are as they should be, with the usual profile.
* `Host.Settled.of_undisturbed`, `Host.Settled.of_config`, `Host.Settled.of_profile` : **what keeps it so**.
* `Host.Settled.resolve_ne_notFound` : **which profile is found on such a host**.
-/

set_option autoImplicit false

namespace Restline

open Act

/-! ### Hosts that grow -/

/-- Places are the same, and neither a directory nor a file is taken away. -/
structure Host.Grows (h h' : Host) : Prop where
  places : h.SamePlaces h'
  directories : h.files.KeepsDirectories h'.files
  files : ∀ s, (h.files.fileAt? s).isSome → (h'.files.fileAt? s).isSome

namespace Host.Grows

variable {h h' h'' : Host}

theorem refl (h : Host) : h.Grows h := ⟨.refl h, .refl h.files, fun _ hs => hs⟩

theorem trans (hfirst : h.Grows h') (hthen : h'.Grows h'') : h.Grows h'' where
  places := hfirst.places.trans hthen.places
  directories := hfirst.directories.trans hthen.directories
  files s hs := hthen.files s (hfirst.files s hs)

end Host.Grows

theorem Host.Undisturbed.grows {h h' : Host} (hsame : h.Undisturbed h') : h.Grows h' :=
  ⟨hsame.places, hsame.directories, fun s hs => by rwa [hsame.files]⟩

theorem PutsInto.grows {directory : Act Path} {name : String} {bytes : ByteArray} {k k' : Host} {target : Spot}
    (hputs : PutsInto directory name bytes k k' target) : k.Grows k' where
  places := hputs.samePlaces
  directories := hputs.keepsDirectories
  files s hs := by
    rw [hputs.fileAt?_eq]
    split
    · rfl
    · exact hs

/-- A file that is there stays there. -/
theorem Host.HasFile.of_grows {h h' : Host} {p : Path} (hfile : h.HasFile p) (hgrows : h.Grows h') : h'.HasFile p := by
  obtain ⟨bytes, hholds⟩ := hfile
  obtain ⟨spot, hway, hbytes⟩ := Tree.read_eq_ok_iff.1 hholds
  obtain ⟨bytes', hbytes'⟩ := Option.isSome_iff_exists.1 (hgrows.files spot (by rw [hbytes]; rfl))
  refine ⟨bytes', Tree.read_eq_ok_iff.2 ⟨spot, ?_, hbytes'⟩⟩
  rw [hgrows.places.workDir]
  exact Tree.follow_of_keepsDirectories hgrows.directories hway

/-! ### Profiles that are there -/

/-- The directory of profiles stands, with the file of a name in it. -/
def Host.HasProfile (h : Host) (name : String) : Prop :=
  ∃ dir, exec Profile.directory h = (.ok dir, h) ∧ h.HasFile (dir.join (name ++ Profile.extension))

/-- **A profile that is there stays there.** -/
theorem Host.HasProfile.of_grows {h h' : Host} {name : String} (hname : h.HasProfile name) (hgrows : h.Grows h') :
    h'.HasProfile name := by
  obtain ⟨dir, hdir, hfile⟩ := hname
  exact ⟨dir, Profile.lasts_directory hdir hgrows.places hgrows.directories, hfile.of_grows hgrows⟩

namespace Profile

variable {h k : Host} {name : String}

theorem exec_isSaved_of_hasProfile (hname : h.HasProfile name) : exec (isSaved name) h = (.ok true, h) := by
  obtain ⟨dir, hdir, hfile⟩ := hname
  rw [exec_isSaved_of_directory hdir, Host.isFile_of_hasFile hfile]

/-- Who was told that a profile is there leaves it there. -/
theorem hasProfile_of_isSaved (hsaved : exec (isSaved name) h = (.ok true, k)) : k.HasProfile name := by
  cases hdir : exec directory h with
  | mk r k' =>
      cases r with
      | error f =>
          have hplace : exec (file name) h = (.error f, k') := exec_bind_error hdir _
          cases (exec_bind_error hplace _).symm.trans hsaved
      | ok dir =>
          obtain ⟨hthere, rfl⟩ := Prod.mk.inj ((exec_isSaved_of_directory hdir name).symm.trans hsaved)
          exact ⟨dir, lasts_directory hdir (.refl _) (.refl _), Host.isFile_eq_ok_true_iff.1 hthere⟩

/-- Invalid settings are not said to be missing. -/
theorem notFound_not_isInvalid (name : String) (p : Path) : ¬ (notFound name p).IsInvalid := by
  rintro ⟨-, rest, hrest⟩
  have hhead := congrArg (fun s : String => s.toList.head?) hrest
  simp [notFound, configFault] at hhead

/-- A profile that is there is not said to be missing. -/
theorem exec_load_ne_notFound (hsaved : exec (isSaved name) h = (.ok true, k)) (name' : String) (p : Path) :
    (exec (load name) h).1 ≠ .error (notFound name' p) := by
  obtain ⟨q, k', hplace, hthere⟩ := exec_bind_eq_ok_iff.1 hsaved
  obtain ⟨bytes, hholds⟩ := Host.isFile_eq_ok_true_iff.1 (congrArg Prod.fst hthere)
  rw [exec_load_of_holds hplace hholds]
  rcases exec_heldSettings_cases hholds ("profile '" ++ name ++ "'") ofJson with ⟨a, -, hx⟩ | ⟨-, f, hx, hinvalid⟩
  · rw [hx]
    exact fun heq => by cases heq
  · rw [hx]
    rintro heq
    obtain rfl := Except.error.inj heq
    exact notFound_not_isInvalid name' p hinvalid

end Profile

/-! ### The configuration that is read -/

namespace Config

variable {h : Host} {dir : Path} {spot : Spot} {c : Config}

/-- The name of the file of the configuration. -/
def fileName : String := "config" ++ Profile.extension

theorem isName_fileName : Path.IsName fileName := isExtension_settings.isName (by decide)

/-- The configuration in a file that may be there: without one it is the usual one. -/
def settingsAt? : Option ByteArray → Option Config
  | none => some {}
  | some bytes => settingsOf? ofJson bytes

theorem follow_file_eq_ok_iff (hstands : h.files.Stands h.workDir dir spot) {r : Spot} :
    h.files.follow h.workDir (dir.join fileName) = .ok r ↔ r = spot ++ [fileName] ∧ dir.Fits fileName :=
  Tree.follow_join_eq_ok_iff_fits hstands isName_fileName (by decide)

theorem holds_file_iff (hstands : h.files.Stands h.workDir dir spot) (hfits : dir.Fits fileName)
    {bytes : ByteArray} : h.Holds (dir.join fileName) bytes ↔ h.files.fileAt? (spot ++ [fileName]) = some bytes := by
  rw [Host.Holds, Tree.read_eq_ok_iff]
  constructor
  · rintro ⟨r, hway, hbytes⟩
    obtain ⟨rfl, -⟩ := (follow_file_eq_ok_iff hstands).1 hway
    exact hbytes
  · exact fun hbytes => ⟨_, (follow_file_eq_ok_iff hstands).2 ⟨rfl, hfits⟩, hbytes⟩

theorem exec_file (hhad : exec directory h = (.ok dir, h)) : exec file h = (.ok (dir.join fileName), h) := by
  have hname : fileName = "config.json" := by decide
  rw [file, exec_bind_ok hhad, hname]
  rfl

/-- A configuration that cannot be looked at is not read. -/
theorem exec_load_of_not_fits (hhad : exec directory h = (.ok dir, h))
    (hstands : h.files.Stands h.workDir dir spot) (hfits : ¬ dir.Fits fileName) :
    exec load h = (.error (.ofCrash .badFileName), h) := by
  have hlong : h.CannotLookAt (dir.join fileName) :=
    (Tree.isTooLong_join_iff hstands isName_fileName (by decide)).2 hfits
  rw [load_eq, exec_ofFile_of_cannotLookAt (exec_file hhad) hlong]

/-- **The configuration that is read** is the one in the file, unless that cannot be looked at. -/
theorem exec_load_eq_ok_iff (hhad : exec directory h = (.ok dir, h)) (hstands : h.files.Stands h.workDir dir spot) :
    exec load h = (.ok c, h) ↔
      dir.Fits fileName ∧ settingsAt? (h.files.fileAt? (spot ++ [fileName])) = some c := by
  by_cases hfits : dir.Fits fileName
  · have hseen : ¬ h.CannotLookAt (dir.join fileName) := fun hlong =>
      (Tree.isTooLong_join_iff hstands isName_fileName (by decide)).1 hlong hfits
    rw [load_eq, and_iff_right hfits]
    cases hbytes : h.files.fileAt? (spot ++ [fileName]) with
    | none =>
        have hno : ¬ h.HasFile (dir.join fileName) := by simp [Host.HasFile, holds_file_iff hstands hfits, hbytes]
        rw [exec_ofFile_of_not_hasFile (exec_file hhad) hno hseen]
        simp [settingsAt?]
    | some bytes =>
        have hholds := (holds_file_iff hstands hfits).2 hbytes
        have hran : exec (heldSettings (dir.join fileName) "global config" ofJson) h = (.ok c, h) ↔
            settingsOf? ofJson bytes = some c := by
          rcases exec_heldSettings_cases hholds "global config" ofJson with ⟨a, ha, hx⟩ | ⟨hnone, f, hx, -⟩
          · simp [ha, hx]
          · simp [hnone, hx]
        rw [exec_ofFile_of_hasFile (exec_file hhad) ⟨bytes, hholds⟩, ← heldSettings, hran]
        rfl
  · rw [exec_load_of_not_fits hhad hstands hfits]
    simp [hfits]

end Config

/-! ### Settled hosts -/

/-- Settings are as they should be: the directory of the configuration stands, its file gives the usual profile that
was set, and each file in the directory of profiles has the name of a profile that is there. -/
structure Host.Settled (h : Host) (dir : Path) (spot : Spot) (usual : Option String) : Prop where
  had : exec Config.directory h = (.ok dir, h)
  stands : h.files.Stands h.workDir dir spot
  config : ∃ c, Config.settingsAt? (h.files.fileAt? (spot ++ [Config.fileName])) = some c ∧ c.defaultProfile = usual
  listed : ∀ x, spot ++ ["profiles"] ++ [x] ∈ h.files.files →
    ∃ name, name ≠ "" ∧ x = name ++ Profile.extension ∧ h.HasProfile name

namespace Host.Settled

variable {h h' : Host} {dir : Path} {spot : Spot} {usual : Option String}

/-- An empty directory is settled. -/
theorem of_empty (hhad : exec Config.directory h = (.ok dir, h)) (hspot : h.files.follow h.workDir dir = .ok spot)
    (hempty : ∀ rest, rest ≠ [] → h.files.entry? (spot ++ rest) = none) : h.Settled dir spot none where
  had := hhad
  stands := by
    obtain ⟨spot', hstands⟩ := Config.makes_directory hhad
    obtain rfl := Except.ok.inj (hstands.way.symm.trans hspot)
    exact hstands
  config := by
    rw [Tree.fileAt?_eq_none_of_entry?_eq_none (hempty _ (by simp))]
    exact ⟨{}, rfl, rfl⟩
  listed x hx := by
    have hfree := hempty (["profiles"] ++ [x]) (by simp)
    rw [← List.append_assoc] at hfree
    have hlists : h.files.Lists (spot ++ ["profiles"]) := .of_empty fun y => by
      rw [List.append_assoc]
      exact hempty _ (by simp)
    have hfile := (hlists.mem_iff x).1 (Tree.mem_fileNamesIn_iff.2 hx)
    rw [Tree.fileAt?_eq_none_of_entry?_eq_none hfree] at hfile
    cases hfile

/-- The configuration gives the usual profile, or cannot be looked at. -/
theorem exec_load_cases (hs : h.Settled dir spot usual) :
    (∃ c, exec Config.load h = (.ok c, h) ∧ c.defaultProfile = usual ∧ dir.Fits Config.fileName) ∨
      ¬ dir.Fits Config.fileName ∧ exec Config.load h = (.error (.ofCrash .badFileName), h) := by
  obtain ⟨c, hc, husual⟩ := hs.config
  by_cases hfits : dir.Fits Config.fileName
  · exact .inl ⟨c, (Config.exec_load_eq_ok_iff hs.had hs.stands).2 ⟨hfits, hc⟩, husual, hfits⟩
  · exact .inr ⟨hfits, Config.exec_load_of_not_fits hs.had hs.stands hfits⟩

theorem defaultProfile_of_load (hs : h.Settled dir spot usual) {c : Config} {k : Host}
    (hload : exec Config.load h = (.ok c, k)) : c.defaultProfile = usual := by
  rcases hs.exec_load_cases with ⟨c', hc', husual, -⟩ | ⟨-, hfails⟩
  · obtain rfl := Except.ok.inj (Prod.mk.inj (hload.symm.trans hc')).1
    exact husual
  · cases hload.symm.trans hfails

/-! ### What keeps a host settled -/

/-- What grows keeps the directory. -/
theorem directory_of_grows (hs : h.Settled dir spot usual) (hgrows : h.Grows h') :
    exec Config.directory h' = (.ok dir, h') ∧ h'.files.Stands h'.workDir dir spot := by
  refine ⟨Config.lasts_directory hs.had hgrows.places hgrows.directories, ?_⟩
  rw [hgrows.places.workDir]
  exact hs.stands.of_keepsDirectories hgrows.directories

/-- **What disturbs nothing** keeps a host settled. -/
theorem of_undisturbed (hs : h.Settled dir spot usual) (hsame : h.Undisturbed h') : h'.Settled dir spot usual where
  had := (hs.directory_of_grows hsame.grows).1
  stands := (hs.directory_of_grows hsame.grows).2
  config := by
    rw [hsame.files]
    exact hs.config
  listed x hx := by
    rw [hsame.listed] at hx
    obtain ⟨name, hne, hname, hprofile⟩ := hs.listed x hx
    exact ⟨name, hne, hname, hprofile.of_grows hsame.grows⟩

/-- **A configuration that is kept** sets the usual profile. -/
theorem of_config {k k' : Host} {target : Spot} {c : Config} (hs : k.Settled dir spot usual)
    (hputs : PutsInto Config.directory "config" (jsonFileText c.toJson).toUTF8 k k' target) :
    k'.Settled dir spot c.defaultProfile := by
  obtain rfl := (hputs.target_eq_iff hs.had hs.stands.way).2 (by decide)
  have hkept := hs.directory_of_grows hputs.grows
  refine ⟨hkept.1, hkept.2, ⟨c, ?_, rfl⟩, fun x hx => ?_⟩
  · rw [hputs.fileAt?_eq, Config.fileName, if_pos rfl]
    exact Config.settingsOf?_save c
  · rw [hputs.files, Host.withFile, Tree.files_put_file] at hx
    rcases List.mem_cons.1 hx with heq | hold
    · -- the file of the configuration is one level above those of profiles
      have hlength := congrArg List.length heq
      simp at hlength
    · obtain ⟨name, hne, hname, hprofile⟩ := hs.listed x (List.mem_filter.1 hold).1
      exact ⟨name, hne, hname, hprofile.of_grows hputs.grows⟩

/-- Where the directory of profiles is. -/
theorem follow_profiles (hs : h.Settled dir spot usual) {p : Path} {k : Host}
    (hdir : exec Profile.directory h = (.ok p, k)) :
    k.files.follow k.workDir p = .ok (spot ++ ["profiles"]) := by
  obtain ⟨dir', k', hconfig, hmade⟩ := exec_bind_eq_ok_iff.1 hdir
  obtain ⟨hdir', rfl⟩ := Prod.mk.inj (hs.had.symm.trans hconfig)
  obtain rfl := Except.ok.inj hdir'
  obtain ⟨rfl, -, -⟩ := exec_madeDirectory_eq_ok_iff.1 hmade
  obtain ⟨spot', hstands⟩ := Profile.makes_directory hdir
  have hgrows : h.Grows k := (Undisturbing.profileDirectory.exec hdir).grows
  have hname : Path.IsName "profiles" := ⟨by decide, by decide, by decide, by decide⟩
  have hway := hstands.way
  obtain ⟨-, rfl, -⟩ := (Tree.follow_join_eq_ok_iff (hs.directory_of_grows hgrows).2.way hname).1 hway
  exact hway

/-- **A profile that is kept** under a name that is no part of a path is there. -/
theorem of_profile {k k' : Host} {target : Spot} {name : String} {bytes : ByteArray}
    (hs : k.Settled dir spot usual) (hne : name ≠ "") (hslash : '/' ∉ name.toList)
    (hputs : PutsInto Profile.directory name bytes k k' target) :
    k'.Settled dir spot usual ∧ k'.HasProfile name := by
  obtain ⟨p, hdir, hway⟩ := hputs.dir
  obtain rfl := (hputs.target_eq_iff hdir (hs.follow_profiles hdir)).2 hslash
  have hprofile : k'.HasProfile name := by
    refine ⟨p, Profile.lasts_directory hdir hputs.samePlaces hputs.keepsDirectories, bytes, ?_⟩
    refine Tree.read_eq_ok_iff.2 ⟨_, ?_, by rw [hputs.fileAt?_eq, if_pos rfl]⟩
    rw [hputs.samePlaces.workDir]
    exact Tree.follow_of_keepsDirectories hputs.keepsDirectories hway
  have hkept := hs.directory_of_grows hputs.grows
  refine ⟨⟨hkept.1, hkept.2, ?_, fun x hx => ?_⟩, hprofile⟩
  · have hother : spot ++ [Config.fileName] ≠ spot ++ ["profiles"] ++ [name ++ Profile.extension] := fun heq => by
      have hlength := congrArg List.length heq
      simp at hlength
    rw [hputs.fileAt?_eq, if_neg hother]
    exact hs.config
  · rw [hputs.files, Host.withFile, Tree.files_put_file] at hx
    rcases List.mem_cons.1 hx with heq | hold
    · exact ⟨name, hne, by simpa using heq, hprofile⟩
    · obtain ⟨name', hne', hname', hprofile'⟩ := hs.listed x (List.mem_filter.1 hold).1
      exact ⟨name', hne', hname', hprofile'.of_grows hputs.grows⟩

/-! ### The profile that counts -/

/-- A name that is listed is that of a profile that is there. -/
theorem hasProfile_of_saved (hs : h.Settled dir spot usual) {names : List String} {k : Host}
    (hsaved : exec Profile.saved h = (.ok names, k)) : ∀ name ∈ names, k.HasProfile name := by
  intro name hname
  have hsame := Undisturbing.saved.exec hsaved
  obtain ⟨p, k', hdir, -⟩ := exec_bind_eq_ok_iff.1 hsaved
  have hlisted := Profile.exec_saved_of_directory hdir (hs.follow_profiles hdir)
  obtain ⟨hnames, rfl⟩ := Prod.mk.inj (hlisted.symm.trans hsaved)
  rw [← Except.ok.inj hnames, Text.mem_sorted, List.mem_filterMap] at hname
  obtain ⟨x, hx, hname⟩ := hname
  rw [Tree.mem_fileNamesIn_iff, hsame.listed] at hx
  obtain ⟨name', hne, rfl, hprofile⟩ := hs.listed x hx
  obtain rfl := Option.some_inj.1 ((Profile.nameOfFile?_append hne).symm.trans hname)
  exact hprofile.of_grows hsame.grows

/-- What comes of looking for the only profile. -/
theorem exec_onlyProfile_cases (hs : h.Settled dir spot usual) :
    (∃ c k, exec Config.onlyProfile h = (.error (.ofCrash c), k)) ∨
      (∃ k, exec Config.onlyProfile h = (.ok none, k)) ∨
      ∃ name k, exec Config.onlyProfile h = (.ok (some name), k) ∧ k.HasProfile name := by
  cases hdir : exec Profile.directory h with
  | mk r k =>
      cases r with
      | error f =>
          -- only making the directory of profiles can fail, and not with a profile that is missing
          have hmade : exec Profile.directory h = exec (madeDirectory (dir.join "profiles")) h := exec_bind_ok hs.had _
          have hsaved : exec Profile.saved h = (.error f, k) := exec_bind_error hdir _
          have honly : exec Config.onlyProfile h = (.error f, k) := exec_bind_error hsaved _
          rcases exec_madeDirectory_cases (dir.join "profiles") h with ⟨hdone, -⟩ | ⟨c, hfails⟩
          · cases (hmade.trans hdone).symm.trans hdir
          · obtain ⟨hf, rfl⟩ := Prod.mk.inj ((hmade.trans hfails).symm.trans hdir)
            obtain rfl := Except.error.inj hf
            exact .inl ⟨c, _, honly⟩
      | ok p =>
          have hsaved := Profile.exec_saved_of_directory hdir (hs.follow_profiles hdir)
          have hall := hs.hasProfile_of_saved hsaved
          rw [Config.onlyProfile, exec_bind_ok hsaved]
          split
          · rename_i name hnames
            rw [hnames] at hall
            exact .inr (.inr ⟨name, k, rfl, hall name (List.mem_singleton_self name)⟩)
          · exact .inr (.inl ⟨k, rfl⟩)

end Host.Settled

/-- No source but the configuration may name a profile: neither the command line nor the environment does, nor a
project. -/
def Config.IsUnnamed (choice : Choice) (h : Host) : Prop :=
  choice.profile = none ∧ h.setting? "AZREST_PROFILE" = none ∧
    ∃ project, (exec Project.load h).1 = .ok project ∧ projectProfile project = none

theorem Profile.notFound_ne_ofCrash (name : String) (p : Path) (c : Crash) : notFound name p ≠ .ofCrash c := by
  intro heq
  have hkind := congrArg Fault.kind heq
  cases hkind

/-- **Which profile is found on a settled host.** Where no other source names a profile, and a profile is there under
the name of the usual one, no profile is missing. -/
theorem Host.Settled.resolve_ne_notFound {h : Host} {dir : Path} {spot : Spot} {usual : Option String}
    (hs : h.Settled dir spot usual)
    (husual : ∀ name, usual = some name → (exec (Profile.isSaved name) h).1 = .ok true) {choice : Choice}
    (hchoice : Config.IsUnnamed choice h) (name : String) (p : Path) :
    (exec (Config.resolve choice) h).1 ≠ .error (Profile.notFound name p) := by
  intro hfails
  obtain ⟨hflag, henv, project, hproject, hnone⟩ := hchoice
  rcases hs.exec_load_cases with ⟨c, hload, hdefault, -⟩ | ⟨-, hcrash⟩
  · have hread : Config.HasRead h c project h := ⟨h, hload, Prod.ext hproject (Project.exec_load_snd h)⟩
    have hnamed : Config.nameOn h choice project c = usual := by
      rw [Config.nameOn, Config.profileName, hflag, henv, hnone, hdefault]
      rfl
    have hfound := @Config.exec_resolve_of_read choice h h c project hread
    rw [hfails, hnamed] at hfound
    have hfound' := Except.map_eq_error_iff.1 hfound.symm
    cases husual' : usual with
    | some name' =>
        rw [husual'] at hfound'
        exact Profile.exec_load_ne_notFound (Prod.ext (husual name' husual') rfl) name p hfound'
    | none =>
        rw [husual'] at hfound'
        cases hselect : c.autoSelectSingleProfile with
        | false =>
            rw [hselect] at hfound'
            cases hfound'
        | true =>
            rw [hselect] at hfound'
            have honly : (exec (Config.onlyProfile >>= Config.profileOr) h).1 = .error (Profile.notFound name p) :=
              hfound'
            rcases hs.exec_onlyProfile_cases with ⟨c, k, hx⟩ | ⟨k, hx⟩ | ⟨name', k, hx, hprofile⟩
            · rw [exec_bind_error hx] at honly
              exact Profile.notFound_ne_ofCrash name p c (Except.error.inj honly).symm
            · rw [exec_bind_ok hx] at honly
              cases honly
            · rw [exec_bind_ok hx] at honly
              exact Profile.exec_load_ne_notFound (Profile.exec_isSaved_of_hasProfile hprofile) name p honly
  · rw [Config.resolve, exec_bind_error hcrash] at hfails
    exact Profile.notFound_ne_ofCrash name p _ (Except.error.inj hfails).symm

end Restline
