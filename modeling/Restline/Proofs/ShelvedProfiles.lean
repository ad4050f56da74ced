import Restline.Proofs.ListedProfiles
import Restline.Proofs.SavedSettings
import Restline.Proofs.StandingFiles
import Restline.Proofs.WrittenSettings

/-!
Profiles that are kept, one call after another. What is kept is a finite map from names to profiles: a call to keep a
profile puts it under its name, if it can be written, and a call to remove a name takes that away. The directory of
profiles holds this map in files, and every call that asks for a profile answers from it, as long as the name of its
file is not too long to be looked at.

* `ProfileCall`, `ProfileCall.shelve` : the calls, and what each of them does to the map.
* `Host.Shelves` : a host where the directory of profiles holds a map.
* `Profile.exec_save_of_shelves`, `Profile.exec_delete_of_shelves` : **what a call does to a host**.
* `Host.Shelves.after` : **one call after another**.
* `Host.Answers`, `ProfileCall.saved_and_answers_iff` : **for which names profiles are found, or said not to be
  there**.
-/

set_option autoImplicit false

namespace Restline

open Act

/-! ### Calls -/

/-- A call that keeps or removes a profile. -/
inductive ProfileCall
  | save (p : Profile)
  | delete (name : String)

namespace ProfileCall

/-- What is done. -/
def act : ProfileCall → Act Unit
  | .save p => p.save
  | .delete name => Profile.delete name

/-- The name is plain, and a profile that is kept has members of an object only, and finite numbers. -/
def IsPlain : ProfileCall → Prop
  | .save p => IsPlainName p.name ∧ p.IsRegular ∧ p.IsFinite
  | .delete name => IsPlainName name

/-- The host after calls, one after another. -/
def after (h : Host) (calls : List ProfileCall) : Host := calls.foldl (fun k call => (exec call.act k).2) h

/-- A profile can be written into a directory: so can its numbers, and there is room for the temporary file. -/
def CanBeKept (dir : Path) (p : Profile) : Prop :=
  p.toJson.isWritable = true ∧ dir.Fits (Tree.temporaryName (p.name ++ Profile.extension) 0)

instance (dir : Path) (p : Profile) : Decidable (CanBeKept dir p) := inferInstanceAs (Decidable (_ ∧ _))

/-- What a call does to the profiles that are kept under their names. -/
def shelve (dir : Path) (shelf : Keyed Profile) : ProfileCall → Keyed Profile
  | .save p => if CanBeKept dir p then shelf.put p.name p else shelf
  | .delete name => shelf.erase name

end ProfileCall

/-! ### Files of profiles -/

/-- The bytes of the file of a profile. -/
def Profile.bytes (p : Profile) : ByteArray := (jsonFileText p.toJson).toUTF8

/-- A temporary file is that of no profile. -/
theorem temporaryName_ne (x name : String) (n : Nat) : Tree.temporaryName x n ≠ name ++ Profile.extension := by
  intro heq
  have htemp : Spot.HasExtension Tree.temporaryExtension [Tree.temporaryName x n] := ⟨[], _, rfl⟩
  have hprofile : Spot.HasExtension Profile.extension [name ++ Profile.extension] := ⟨[], name, rfl⟩
  have hp : Tree.temporaryExtension.toList.getLast? = some 'p' := by decide
  have hn : Profile.extension.toList.getLast? = some 'n' := by decide
  exact htemp.ne hprofile hp hn (by decide) (by rw [heq])

/-- A profile that is kept as it was given: it comes back from its file, which can be looked at. -/
structure Profile.IsKept (dir : Path) (name : String) (p : Profile) : Prop where
  plain : IsPlainName name
  read : settingsOf? ofJson p.bytes = some p
  fits : dir.Fits (name ++ extension)

/-- The directory of profiles holds the profiles of a map, each in the file of its name, and nothing else. -/
structure Host.Shelves (h : Host) (dir : Path) (spot : Spot) (shelf : Keyed Profile) : Prop where
  had : exec Profile.directory h = (.ok dir, h)
  stands : h.files.Stands h.workDir dir spot
  lists : h.files.Lists spot
  nodup : shelf.keys.Nodup
  entry : ∀ name, h.files.entry? (spot ++ [name ++ Profile.extension]) =
    (shelf.get? name).map fun p => .file p.bytes
  other : ∀ x, (∀ name, x ≠ name ++ Profile.extension) → h.files.entry? (spot ++ [x]) = none
  kept : ∀ name p, shelf.get? name = some p → p.IsKept dir name

namespace Host.Shelves

variable {h : Host} {dir : Path} {spot : Spot} {shelf : Keyed Profile} {name : String}

/-- A directory with nothing in it holds no profiles. -/
theorem of_empty (hhad : exec Profile.directory h = (.ok dir, h))
    (hspot : h.files.follow h.workDir dir = .ok spot) (hempty : ∀ x, h.files.entry? (spot ++ [x]) = none) :
    h.Shelves dir spot [] where
  had := hhad
  stands := by
    obtain ⟨spot', hstands⟩ := Profile.makes_directory hhad
    obtain rfl := Except.ok.inj (hstands.way.symm.trans hspot)
    exact hstands
  lists := .of_empty hempty
  nodup := List.nodup_nil
  entry name := hempty _
  other x _ := hempty x
  kept name p hp := by cases hp

/-! ### One call -/

/-- A profile is put on the shelf with its file. -/
theorem put {p : Profile} (hs : h.Shelves dir spot shelf) (hp : p.IsKept dir p.name) :
    (h.withFile (spot ++ [p.name ++ Profile.extension]) p.bytes).Shelves dir spot (shelf.put p.name p) := by
  have hother : h.files.entry? (spot ++ [p.name ++ Profile.extension]) ≠ some .directory := by
    rw [hs.entry]
    cases shelf.get? p.name <;> simp
  have hkeeps := Host.keepsDirectories_withFile hother p.bytes
  have hentry := Tree.entry?_put h.files (Tree.ne_nil_of_entry?_ne hother) (.file p.bytes)
  refine ⟨Profile.lasts_directory hs.had (h.samePlaces_withFile _ _) hkeeps, hs.stands.of_keepsDirectories hkeeps,
    hs.lists.put_file (Tree.ne_nil_of_entry?_ne hother) _, Keyed.nodup_keys_put hs.nodup _ _, fun name => ?_,
    fun x hx => ?_, fun name q hq => ?_⟩
  · refine (hentry _).trans ?_
    rw [Keyed.get?_put, hs.entry]
    by_cases heq : p.name = name
    · simp [heq]
    · simp [heq, Ne.symm heq]
  · refine (hentry _).trans ?_
    rw [if_neg (by simpa using hx p.name), hs.other x hx]
  · rw [Keyed.get?_put] at hq
    split at hq
    · rename_i heq
      obtain rfl := Option.some_inj.1 hq
      exact heq ▸ hp
    · exact hs.kept name q hq

/-- A profile is taken from the shelf with its file. -/
theorem erase (hs : h.Shelves dir spot shelf) (name : String) :
    Host.Shelves { h with files := h.files.erase (spot ++ [name ++ Profile.extension]) } dir spot
      (shelf.erase name) := by
  have hother : h.files.entry? (spot ++ [name ++ Profile.extension]) ≠ some .directory := by
    rw [hs.entry]
    cases shelf.get? name <;> simp
  have hkeeps := Tree.keepsDirectories_erase hother
  have hentry := Tree.entry?_erase h.files (Tree.ne_nil_of_entry?_ne hother)
  refine ⟨Profile.lasts_directory hs.had ⟨rfl, rfl, rfl, rfl, rfl⟩ hkeeps, hs.stands.of_keepsDirectories hkeeps,
    hs.lists.erase (Tree.ne_nil_of_entry?_ne hother), Keyed.nodup_keys_erase hs.nodup _, fun name' => ?_,
    fun x hx => ?_, fun name' q hq => ?_⟩
  · refine (hentry _).trans ?_
    rw [Keyed.get?_erase, hs.entry]
    by_cases heq : name = name'
    · simp [heq]
    · simp [heq, Ne.symm heq]
  · refine (hentry _).trans ?_
    rw [if_neg (by simpa using hx name), hs.other x hx]
  · rw [Keyed.get?_erase] at hq
    split at hq
    · cases hq
    · exact hs.kept name' q hq

/-! ### Asking for a profile -/

theorem follow_eq_ok_iff (hs : h.Shelves dir spot shelf) (hname : IsPlainName name) {r : Spot} :
    h.files.follow h.workDir (dir.join (name ++ Profile.extension)) = .ok r ↔
      r = spot ++ [name ++ Profile.extension] ∧ dir.Fits (name ++ Profile.extension) :=
  Tree.follow_join_eq_ok_iff_fits hs.stands hname.isName hname.nul_notMem

theorem cannotLookAt_iff (hs : h.Shelves dir spot shelf) (hname : IsPlainName name) :
    h.CannotLookAt (dir.join (name ++ Profile.extension)) ↔ ¬ dir.Fits (name ++ Profile.extension) :=
  Tree.isTooLong_join_iff hs.stands hname.isName hname.nul_notMem

theorem fileAt?_eq (hs : h.Shelves dir spot shelf) (name : String) :
    h.files.fileAt? (spot ++ [name ++ Profile.extension]) = (shelf.get? name).map Profile.bytes := by
  rw [Tree.fileAt?, hs.entry]
  cases shelf.get? name <;> rfl

/-- **The file of a name holds the profile that is kept under it.** -/
theorem holds_iff (hs : h.Shelves dir spot shelf) (hname : IsPlainName name) {bytes : ByteArray} :
    h.Holds (dir.join (name ++ Profile.extension)) bytes ↔ (shelf.get? name).map Profile.bytes = some bytes := by
  rw [Host.Holds, Tree.read_eq_ok_iff]
  constructor
  · rintro ⟨r, hway, hfile⟩
    obtain ⟨rfl, -⟩ := (hs.follow_eq_ok_iff hname).1 hway
    exact (hs.fileAt?_eq name).symm.trans hfile
  · intro hbytes
    obtain ⟨p, hp, -⟩ := Option.map_eq_some_iff.1 hbytes
    exact ⟨_, (hs.follow_eq_ok_iff hname).2 ⟨rfl, (hs.kept name p hp).fits⟩, (hs.fileAt?_eq name).trans hbytes⟩

theorem hasFile_iff (hs : h.Shelves dir spot shelf) (hname : IsPlainName name) :
    h.HasFile (dir.join (name ++ Profile.extension)) ↔ (shelf.get? name).isSome := by
  simp only [Host.HasFile, hs.holds_iff hname]
  cases shelf.get? name <;> simp

end Host.Shelves

/-! ### What calls do -/

/-- Putting a text into a directory that stands succeeds exactly if there is room for the temporary file. -/
theorem exec_replaceText_join {h : Host} {dir : Path} {spot : Spot} {name : String}
    (hstands : h.files.Stands h.workDir dir spot) (hname : Path.IsName name) (hnul : '\x00' ∉ name.toList)
    (hfree : h.files.entry? (spot ++ [Tree.temporaryName name 0]) = none)
    (hother : h.files.entry? (spot ++ [name]) ≠ some .directory) (text : String) :
    (dir.Fits (Tree.temporaryName name 0) ∧
        exec (replaceText (dir.join name) text) h = (.ok (), h.withFile (spot ++ [name]) text.toUTF8)) ∨
      (¬ dir.Fits (Tree.temporaryName name 0) ∧
        ∃ f, exec (replaceText (dir.join name) text) h = (.error f, h)) := by
  have hparent : (dir.join name).parent = dir := by simp [Path.join_of_isName hname, Path.parent]
  have hmade : exec (Act.makeDirs (dir.join name).parent) h = (.ok (), h) := by
    rw [hparent, Act.makeDirs, exec_changeFiles, hstands.made]
  rw [replaceText, exec_bind_ok hmade, exec_changeFiles]
  rcases Tree.replace_join hstands hname hnul hfree hother text.toUTF8 with ⟨hfits, hdone⟩ | ⟨hfits, f, hfails⟩
  · rw [hdone]
    exact .inl ⟨hfits, rfl⟩
  · rw [hfails]
    exact .inr ⟨hfits, _, rfl⟩

namespace Profile

variable {h : Host} {dir : Path} {spot : Spot} {shelf : Keyed Profile} {name : String} {p : Profile}

/-- A profile that can be kept comes back as it was given. -/
theorem IsKept.of_canBeKept (hname : IsPlainName p.name) (hp : p.IsRegular) (hfinite : p.IsFinite)
    (hkept : ProfileCall.CanBeKept dir p) : p.IsKept dir p.name where
  plain := hname
  read := settingsOf?_save hp hfinite hkept.1
  fits := hkept.2.of_le (Tree.isName_temporaryName hname.isName.noSlash 0) hname.isName
    (Tree.utf8ByteSize_le_temporaryName _ 0)

/-- **Keeping a profile** writes its file, if it can be kept, and else changes nothing. -/
theorem exec_save_of_shelves (hs : h.Shelves dir spot shelf) (hname : IsPlainName p.name) :
    (ProfileCall.CanBeKept dir p ∧
        exec p.save h = (.ok (), h.withFile (spot ++ [p.name ++ extension]) p.bytes)) ∨
      (¬ ProfileCall.CanBeKept dir p ∧ ∃ f, exec p.save h = (.error f, h)) := by
  -- no temporary file was left behind, so the first name for one is free
  have hfree := hs.other (Tree.temporaryName (p.name ++ extension) 0) fun name => temporaryName_ne _ name 0
  have hother : h.files.entry? (spot ++ [p.name ++ extension]) ≠ some .directory := by
    rw [hs.entry]
    cases shelf.get? p.name <;> simp
  rw [save_eq, exec_bind_ok hs.had]
  by_cases hwritable : p.toJson.isWritable = true
  · rw [if_pos hwritable]
    rcases exec_replaceText_join hs.stands hname.isName hname.nul_notMem hfree hother (jsonFileText p.toJson) with
      ⟨hfits, hdone⟩ | ⟨hfits, f, hfails⟩
    · exact .inl ⟨⟨hwritable, hfits⟩, hdone⟩
    · exact .inr ⟨fun hkept => hfits hkept.2, f, hfails⟩
  · rw [if_neg hwritable]
    exact .inr ⟨fun hkept => hwritable hkept.1, _, rfl⟩

/-- **Removing a profile** removes its file; a name under which nothing is kept is said not to be there, unless that
of its file is too long. -/
theorem exec_delete_of_shelves (hs : h.Shelves dir spot shelf) (hname : IsPlainName name) :
    exec (delete name) h =
      if (shelf.get? name).isSome then
        (.ok (), { h with files := h.files.erase (spot ++ [name ++ extension]) })
      else if dir.Fits (name ++ extension) then (.error (notFound name (dir.join (name ++ extension))), h)
      else (.error (.ofCrash .badFileName), h) := by
  rw [delete, exec_bind_ok (exec_file_of_directory hs.had name), exec_bind, exec_ask]
  by_cases hfits : dir.Fits (name ++ extension)
  · have hseen : ¬ h.CannotLookAt (dir.join (name ++ extension)) := fun hlong =>
      (hs.cannotLookAt_iff hname).1 hlong hfits
    cases hget : shelf.get? name with
    | none =>
        have hno : ¬ h.HasFile (dir.join (name ++ extension)) := by simp [hs.hasFile_iff hname, hget]
        rw [Host.isFile_of_not_hasFile hno hseen]
        simp [hfits]
    | some p =>
        have hfile : h.HasFile (dir.join (name ++ extension)) := by simp [hs.hasFile_iff hname, hget]
        have hway := (hs.follow_eq_ok_iff hname).2 ⟨rfl, hfits⟩
        have hentry := hs.entry name
        rw [hget, Option.map_some] at hentry
        have hunlink : h.files.unlink h.workDir (dir.join (name ++ extension)) =
            .ok (h.files.erase (spot ++ [name ++ extension])) := by
          rw [Tree.unlink, hway, Except.ok_bind, hentry]
        rw [Host.isFile_of_hasFile hfile]
        simp only [Option.isSome_some, if_true]
        rw [Act.unlink, tryFiles, exec_changeFiles, hunlink]
  · -- what is kept has a name that fits
    have hnone : shelf.get? name = none := by
      cases hget : shelf.get? name with
      | none => rfl
      | some p => exact absurd (hs.kept name p hget).fits hfits
    rw [Host.isFile_of_cannotLookAt ((hs.cannotLookAt_iff hname).2 hfits), hnone]
    simp [hfits]

end Profile

namespace Host.Shelves

variable {h : Host} {dir : Path} {spot : Spot} {shelf : Keyed Profile}

/-- **What one call preserves.** -/
theorem step (hs : h.Shelves dir spot shelf) {call : ProfileCall} (hcall : call.IsPlain) :
    (exec call.act h).2.Shelves dir spot (call.shelve dir shelf) := by
  cases call with
  | save p =>
      obtain ⟨hname, hp, hfinite⟩ := hcall
      rw [ProfileCall.act, ProfileCall.shelve]
      rcases Profile.exec_save_of_shelves hs hname with ⟨hkept, hdone⟩ | ⟨hkept, f, hfails⟩
      · rw [hdone, if_pos hkept]
        exact hs.put (.of_canBeKept hname hp hfinite hkept)
      · rw [hfails, if_neg hkept]
        exact hs
  | delete name =>
      rw [ProfileCall.act, ProfileCall.shelve, Profile.exec_delete_of_shelves hs hcall]
      split
      · exact hs.erase name
      · rename_i hnone
        rw [Keyed.erase_of_get?_eq_none (by simpa using hnone)]
        split <;> exact hs

/-- **One call after another.** -/
theorem after (calls : List ProfileCall) :
    ∀ {h : Host} {shelf : Keyed Profile}, h.Shelves dir spot shelf → (∀ call ∈ calls, call.IsPlain) →
      (ProfileCall.after h calls).Shelves dir spot (calls.foldl (ProfileCall.shelve dir) shelf) := by
  induction calls with
  | nil => exact fun hs _ => hs
  | cons call calls ih =>
      intro h shelf hs hcalls
      exact ih (hs.step (hcalls call List.mem_cons_self)) fun c hc => hcalls c (List.mem_cons_of_mem _ hc)

end Host.Shelves

/-! ### What is answered -/

namespace Host.Shelves

variable {h : Host} {dir : Path} {spot : Spot} {shelf : Keyed Profile} {name : String}

/-- The files in the directory are those of the names on the shelf. -/
theorem perm_fileNamesIn (hs : h.Shelves dir spot shelf) :
    (h.files.fileNamesIn spot).Perm (shelf.keys.map (· ++ Profile.extension)) := by
  have hinjective : Function.Injective (· ++ Profile.extension) := fun name name' heq => by simpa using heq
  refine (List.perm_ext_iff_of_nodup hs.lists.nodup (hs.nodup.map hinjective)).2 fun x => ?_
  rw [hs.lists.mem_iff, List.mem_map]
  constructor
  · intro hfile
    by_cases hx : ∃ name, x = name ++ Profile.extension
    · obtain ⟨name, rfl⟩ := hx
      rw [hs.fileAt?_eq, Option.isSome_map] at hfile
      exact ⟨name, Keyed.isSome_get?_iff.1 hfile, rfl⟩
    · -- nothing else is in the directory, so a file without the end that profiles have cannot be
      have hnone := hs.other x fun name heq => hx ⟨name, heq⟩
      rw [Tree.fileAt?_eq_none_of_entry?_eq_none hnone] at hfile
      cases hfile
  · rintro ⟨name, hname, rfl⟩
    rw [hs.fileAt?_eq, Option.isSome_map]
    exact Keyed.isSome_get?_iff.2 hname

/-- **The names that are listed are those on the shelf.** -/
theorem exec_saved (hs : h.Shelves dir spot shelf) :
    exec Profile.saved h = (.ok (Text.sorted shelf.keys), h) := by
  have hnames : (shelf.keys.map (· ++ Profile.extension)).filterMap Profile.nameOfFile? = shelf.keys := by
    rw [List.filterMap_map]
    refine (List.filterMap_congr fun name hname => ?_).trans List.filterMap_some
    obtain ⟨p, hp⟩ := Option.isSome_iff_exists.1 (Keyed.isSome_get?_iff.2 hname)
    exact Profile.nameOfFile?_append (hs.kept name p hp).plain.ne_empty
  have hperm := hs.perm_fileNamesIn.filterMap Profile.nameOfFile?
  rw [hnames] at hperm
  rw [Profile.exec_saved_of_directory hs.had hs.stands.way, Text.sorted_eq_of_perm hperm]

end Host.Shelves

/-- A host answers from a map what is asked of a name: whether a profile is kept under it, and which one. Where none
is, that is the failure of reading it and of removing it, and nothing changes. -/
structure Host.Answers (h : Host) (dir : Path) (shelf : Keyed Profile) (name : String) : Prop where
  isSaved : exec (Profile.isSaved name) h = (.ok (shelf.has name), h)
  loads : ∀ p, shelf.get? name = some p → exec (Profile.load name) h = (.ok p, h)
  missing : shelf.get? name = none →
    exec (Profile.load name) h = (.error (Profile.notFound name (dir.join (name ++ Profile.extension))), h) ∧
      exec (Profile.delete name) h = (.error (Profile.notFound name (dir.join (name ++ Profile.extension))), h)

/-- **For which names a host answers**: those whose files can be looked at. -/
theorem Host.Shelves.answers_iff {h : Host} {dir : Path} {spot : Spot} {shelf : Keyed Profile} {name : String}
    (hs : h.Shelves dir spot shelf) (hname : IsPlainName name) :
    h.Answers dir shelf name ↔ dir.Fits (name ++ Profile.extension) := by
  have hsaved := Profile.exec_isSaved_of_directory hs.had name
  constructor
  · intro hanswers
    by_contra hfits
    have hok := hanswers.isSaved
    rw [hsaved, Host.isFile_of_cannotLookAt ((hs.cannotLookAt_iff hname).2 hfits)] at hok
    cases hok
  · intro hfits
    have hseen : ¬ h.CannotLookAt (dir.join (name ++ Profile.extension)) := fun hlong =>
      (hs.cannotLookAt_iff hname).1 hlong hfits
    refine ⟨?_, fun p hp => ?_, fun hnone => ?_⟩
    · rw [hsaved, Keyed.has]
      cases hget : shelf.get? name with
      | none => rw [Host.isFile_of_not_hasFile (by simp [hs.hasFile_iff hname, hget]) hseen, Option.isSome_none]
      | some p => rw [Host.isFile_of_hasFile (by simp [hs.hasFile_iff hname, hget]), Option.isSome_some]
    · have hholds := (hs.holds_iff hname).2 (congrArg (Option.map Profile.bytes) hp)
      rw [Profile.exec_load_of_holds (Profile.exec_file_of_directory hs.had name) hholds]
      rcases exec_heldSettings_cases hholds ("profile '" ++ name ++ "'") Profile.ofJson with
        ⟨q, hq, hx⟩ | ⟨hnone, -⟩
      · rw [hx, Option.some_inj.1 (hq.symm.trans (hs.kept name p hp).read)]
      · cases hnone.symm.trans (hs.kept name p hp).read
    · have hno : ¬ h.HasFile (dir.join (name ++ Profile.extension)) := by simp [hs.hasFile_iff hname, hnone]
      constructor
      · rw [Profile.load_eq, exec_ofFile_of_not_hasFile (Profile.exec_file_of_directory hs.had name) hno hseen]
        rfl
      · rw [Profile.exec_delete_of_shelves hs hname, hnone]
        simp [hfits]

namespace ProfileCall

/-- **After every sequence of calls** on a directory that was empty, the names that are listed are those of the
profiles that were kept and not removed since; and what is asked of a name is answered from these profiles exactly if
the name of its file is not too long. -/
theorem saved_and_answers_iff {h : Host} {dir : Path} {spot : Spot} (hhad : exec Profile.directory h = (.ok dir, h))
    (hspot : h.files.follow h.workDir dir = .ok spot) (hempty : ∀ x, h.files.entry? (spot ++ [x]) = none)
    (calls : List ProfileCall) (hcalls : ∀ call ∈ calls, call.IsPlain) :
    let k := after h calls
    let shelf := calls.foldl (shelve dir) []
    exec Profile.saved k = (.ok (Text.sorted shelf.keys), k) ∧
      ∀ name, IsPlainName name → (k.Answers dir shelf name ↔ dir.Fits (name ++ Profile.extension)) := by
  have hs := Host.Shelves.after calls (.of_empty hhad hspot hempty) hcalls
  exact ⟨hs.exec_saved, fun name hname => hs.answers_iff hname⟩

/-- A host that has a directory for profiles and nothing else. -/
def emptyHost : Host := (exec Profile.directory Host.bare).2

theorem exec_directory_emptyHost : exec Profile.directory emptyHost = (.ok Host.bareProfiles, emptyHost) :=
  Profile.lasts_directory exec_directory_bare (.refl _) (.refl _)

theorem follow_emptyHost :
    emptyHost.files.follow emptyHost.workDir Host.bareProfiles = .ok Host.bareProfiles.names := by
  decide +kernel

theorem entry?_emptyHost (x : String) : emptyHost.files.entry? (Host.bareProfiles.names ++ [x]) = none := by
  have hshort : ∀ e ∈ emptyHost.files.entries, e.1.length ≤ 4 := by decide +kernel
  refine Tree.entry?_of_lt_length (by simp) fun e he => (hshort e he).trans_lt ?_
  simp [Host.bareProfiles]

/-- Two profiles are kept, one of them without authorization and with a further member, and one is removed. -/
def dottedCalls : List ProfileCall :=
  [.save { name := "..p" }, .save { name := "p.json", credential := none, others := [("note", .null)] },
    .delete "..p"]

/-- Names with dots are told apart, and the end that files have may be part of one. -/
theorem saved_and_answers_of_dots :
    (exec Profile.directory emptyHost = (.ok Host.bareProfiles, emptyHost) ∧
      emptyHost.files.follow emptyHost.workDir Host.bareProfiles = .ok Host.bareProfiles.names ∧
      (∀ x, emptyHost.files.entry? (Host.bareProfiles.names ++ [x]) = none) ∧ ∀ call ∈ dottedCalls, call.IsPlain) ∧
    let k := after emptyHost dottedCalls
    let shelf := dottedCalls.foldl (shelve Host.bareProfiles) []
    exec Profile.saved k = (.ok (Text.sorted shelf.keys), k) ∧
      ∀ name, IsPlainName name →
        (k.Answers Host.bareProfiles shelf name ↔ Host.bareProfiles.Fits (name ++ Profile.extension)) := by
  have hnone : (Json.obj []).Regular := .obj _ List.nodup_nil fun e he => by cases he
  have hnote : (Json.obj [("note", .null)]).Regular := by
    refine .obj _ (by decide) fun e he => ?_
    obtain rfl := List.mem_singleton.1 he
    exact .null
  have hcalls : ∀ call ∈ dottedCalls, call.IsPlain := by
    intro call hcall
    simp only [dottedCalls, List.mem_cons, List.not_mem_nil, or_false] at hcall
    rcases hcall with rfl | rfl | rfl
    · refine ⟨⟨by decide, by decide, by decide⟩, ⟨hnone, by decide, fun c hc => ?_⟩, ⟨rfl, fun c hc => ?_⟩⟩
      all_goals obtain rfl := Option.some_inj.1 hc
      · exact ⟨hnone, by decide⟩
      · rfl
    · exact ⟨⟨by decide, by decide, by decide⟩, ⟨hnote, by decide, fun c hc => by cases hc⟩,
        ⟨rfl, fun c hc => by cases hc⟩⟩
    · exact ⟨by decide, by decide, by decide⟩
  exact ⟨⟨exec_directory_emptyHost, follow_emptyHost, entry?_emptyHost, hcalls⟩,
    saved_and_answers_iff exec_directory_emptyHost follow_emptyHost entry?_emptyHost dottedCalls hcalls⟩

/-- A name that is too long is not said to be that of no profile. -/
theorem exists_not_answers :
    ∃ (h : Host) (dir : Path) (spot : Spot) (calls : List ProfileCall) (name : String),
      (exec Profile.directory h = (.ok dir, h) ∧ h.files.follow h.workDir dir = .ok spot ∧
        (∀ x, h.files.entry? (spot ++ [x]) = none) ∧ ∀ call ∈ calls, call.IsPlain) ∧
      IsPlainName name ∧ ¬ (after h calls).Answers dir (calls.foldl (shelve dir) []) name := by
  have hs := Host.Shelves.of_empty exec_directory_emptyHost follow_emptyHost entry?_emptyHost
  refine ⟨emptyHost, Host.bareProfiles, _, [], longName,
    ⟨exec_directory_emptyHost, follow_emptyHost, entry?_emptyHost, fun call hcall => by cases hcall⟩,
    isPlainName_longName, fun hanswers => ?_⟩
  exact not_fits_longName _ ((hs.answers_iff isPlainName_longName).1 hanswers)

end ProfileCall

end Restline
