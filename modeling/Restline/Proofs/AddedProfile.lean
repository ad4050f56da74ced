import Restline.Proofs.HalfDoneChanges
import Restline.Proofs.ListedProfiles
import Restline.Proofs.SavedSettings

/-!
A profile that is added. The command that adds a profile writes one file or none. Its name is part of a path, and
nothing looks at it; so the file is the one of that name in the directory of profiles, and is listed under it,
exactly if the name is not empty and has no slash.

* `CarriesOut`, `CarriesOut.bind` : a run that does one thing to settings.
* `ConfigCommand.carriesOut_runAddProfile` : **adding a profile is keeping it**, or nothing.
* `Adds` : what adding a profile is to do.
* `ConfigCommand.run_adds_iff` : **for which names it is done**.
-/

set_option autoImplicit false

namespace Restline

open Act

/-! ### Runs that do one thing -/

/-- What a run does to settings is what an action does, which succeeds; a run that fails disturbs none. -/
def CarriesOut (x : Run Unit) (y : Act Unit) : Prop :=
  ∀ h : Host, (∃ stop, (x h).1 = .error stop ∧ h.Undisturbed (x h).2) ∨
    ∃ k k', h.Undisturbed k ∧ exec y k = (.ok (), k') ∧ (x h).1 = .ok () ∧ k'.Undisturbed (x h).2

theorem CarriesOut.bind {α : Type} {x : Run α} {f : α → Run Unit} {y : Act Unit} (hx : Undisturbing x)
    (hf : ∀ a, CarriesOut (f a) y) : CarriesOut (x >>= f) y := by
  intro h
  rcases apply_bind_cases x f h with ⟨a, -, hthen⟩ | ⟨stop, -, hends⟩
  · rw [hthen]
    rcases hf a (x h).2 with ⟨stop, hstop, hsame⟩ | ⟨k, k', hsame, hy, hdone, hthen'⟩
    · exact .inl ⟨stop, hstop, (hx h).trans hsame⟩
    · exact .inr ⟨k, k', (hx h).trans hsame, hy, hdone, hthen'⟩
  · rw [hends]
    exact .inl ⟨stop, rfl, hx h⟩

/-- The action itself, with something after it that disturbs nothing and does not fail. -/
theorem CarriesOut.act_bind {y : Act Unit} {z : Run Unit}
    (hfails : ∀ (h k : Host) (f : Fault), exec y h = (.error f, k) → h.Undisturbed k) (hz : Undisturbing z)
    (hcompletes : Completes z) : CarriesOut (Run.act y >>= fun _ => z) y := by
  intro h
  rcases apply_bind_cases (Run.act y) (fun _ => z) h with ⟨u, hfirst, hthen⟩ | ⟨stop, hfirst, hends⟩
  · rw [hthen]
    obtain ⟨v, hv⟩ := hcompletes (Run.act y h).2
    have hy : (exec y h).1 = .ok () := Except.mapError_eq_ok_iff.1 hfirst
    exact .inr ⟨h, _, .refl h, Prod.ext hy rfl, hv, hz _⟩
  · rw [hends]
    cases hy : exec y h with
    | mk r k =>
        have hran : Run.act y h = (r.mapError Stop.fault, k) := by
          rw [Run.act_apply, show y h = (r, k) from hy]
        cases r with
        | ok u =>
            rw [hran] at hfirst
            cases hfirst
        | error f =>
            rw [hran]
            exact .inl ⟨stop, rfl, hfails h k f hy⟩

namespace ConfigCommand

/-- **Adding a profile is keeping it**, or nothing. -/
theorem carriesOut_runAddProfile (con : Console) (p : Profile) (force : Bool) :
    CarriesOut (runAddProfile con p false force) p.save := by
  have hsave : CarriesOut (do
      Run.act p.save
      Run.act (con.success ("Profile '" ++ p.name ++ "' saved.")) : Run Unit) p.save :=
    .act_bind (fun _ _ _ => p.stores_save.undisturbed_of_error) (Undisturbing.info con _).act
      (Completes.info con _).act
  rw [runAddProfile]
  refine .bind (Undisturbing.isSaved p.name).act fun isThere => ?_
  cases isThere && !force with
  | true => simpa using CarriesOut.bind (Undisturbing.fail con _ 2) fun _ => hsave
  | false => simpa using hsave

end ConfigCommand

/-! ### Profiles that are added -/

/-- A profile is added: its file stands directly in the directory of profiles and is the only one with other bytes,
and its name is listed. -/
def Adds (name : String) (bytes : ByteArray) (h h' : Host) : Prop :=
  ∃ dir spot names, exec Profile.directory h' = (.ok dir, h') ∧ h'.files.follow h'.workDir dir = .ok spot ∧
    (∀ s, h'.files.fileAt? s = if s = spot ++ [name ++ Profile.extension] then some bytes else h.files.fileAt? s) ∧
    exec Profile.saved h' = (.ok names, h') ∧ name ∈ names

/-- No file has a name with a slash in it. -/
def Tree.HasNames (t : Tree) : Prop := ∀ f ∈ t.files, ∀ name ∈ f, '/' ∉ name.toList

/-- A profile that was put into the directory is added exactly if its name is one of a file there. -/
theorem PutsInto.adds_iff {name : String} {bytes : ByteArray} {h k k' h' : Host} {target : Spot}
    (hputs : PutsInto Profile.directory name bytes k k' target) (hnames : h.files.HasNames)
    (hbefore : h.Undisturbed k) (hafter : k'.Undisturbed h') :
    Adds name bytes h h' ↔ name ≠ "" ∧ '/' ∉ name.toList := by
  obtain ⟨dir, hdir, -⟩ := hputs.dir
  obtain ⟨spot, -, hspot, -⟩ := Profile.makes_directory hdir
  have hkeeps : k.files.KeepsDirectories h'.files := hputs.keepsDirectories.trans hafter.directories
  have hplaces : k.SamePlaces h' := hputs.samePlaces.trans hafter.places
  have hdir' := Profile.lasts_directory hdir hplaces hkeeps
  have hspot' : h'.files.follow h'.workDir dir = .ok spot := by
    rw [hplaces.workDir]
    exact Tree.follow_of_keepsDirectories hkeeps hspot
  have hsaved := Profile.exec_saved_of_directory hdir' hspot'
  have hlisted : ∀ x, x ∈ h'.files.fileNamesIn spot ↔ spot ++ [x] = target ∨
      spot ++ [x] ∈ h.files.files ∧ spot ++ [x] ≠ target := fun x => by
    rw [Tree.mem_fileNamesIn_iff, hafter.listed, hputs.files]
    simp [Host.withFile, Tree.files_put_file, hbefore.listed]
  have htarget := hputs.target_eq_iff hdir hspot
  constructor
  · rintro ⟨dir', spot', names, hdir'', hspot'', -, hsaved', hmem⟩
    obtain rfl := Except.ok.inj (Prod.mk.inj (hsaved.symm.trans hsaved')).1
    obtain ⟨x, hx, hname⟩ := List.mem_filterMap.1 (Text.mem_sorted.1 hmem)
    -- a file is listed without its end, or, where the end is all of its name, with it
    obtain ⟨hne, rfl | ⟨-, rfl⟩⟩ := Profile.eq_of_nameOfFile? hname
    · refine ⟨hne, ?_⟩
      rcases (hlisted _).1 hx with heq | ⟨hold, -⟩
      · exact htarget.1 heq.symm
      · intro hslash
        refine hnames _ hold _ (List.mem_append_right _ (List.mem_singleton_self _)) ?_
        rw [String.toList_append]
        exact List.mem_append_left _ hslash
    · exact ⟨by decide, by decide⟩
  · rintro ⟨hne, hslash⟩
    have heq := htarget.2 hslash
    refine ⟨dir, spot, _, hdir', hspot', fun s => ?_, hsaved, ?_⟩
    · rw [hafter.files, hputs.fileAt?_eq, hbefore.files, heq]
    · refine Text.mem_sorted.2 (List.mem_filterMap.2 ⟨_, (hlisted _).2 (.inl heq.symm), ?_⟩)
      exact Profile.nameOfFile?_append hne

namespace ConfigCommand

/-- **For which names a profile is added.** The command fails and every file is as before, or it adds the profile,
exactly if it fails or the name is not empty and has no slash in it. -/
theorem run_adds_iff (con : Console) (name : String) (endpoint metadata source : Option String) (force : Bool)
    {h : Host} (hnames : h.files.HasNames) :
    let bytes := (jsonFileText (describedProfile name endpoint metadata source).toJson).toUTF8
    let r := run con (.addProfile name endpoint metadata source false force) h
    ((∃ stop, r.1 = .error stop) ∧ (∀ s, r.2.files.fileAt? s = h.files.fileAt? s) ∨
        r.1 = .ok () ∧ Adds name bytes h r.2) ↔
      (∃ stop, r.1 = .error stop) ∨ name ≠ "" ∧ '/' ∉ name.toList := by
  intro bytes r
  rcases carriesOut_runAddProfile con (describedProfile name endpoint metadata source) force h with
    ⟨stop, hstop, hsame⟩ | ⟨k₀, k', hfirst, hsave, hdone, hafter⟩
  · exact iff_of_true (.inl ⟨⟨stop, hstop⟩, hsame.files⟩) (.inl ⟨stop, hstop⟩)
  · have hdone' : r.1 = .ok () := hdone
    have hnot : ¬ ∃ stop, r.1 = .error stop := by simp [hdone']
    obtain ⟨k, target, hbefore, hputs⟩ := (Profile.stores_save _).exists_putsInto hsave
    have hadds : Adds name bytes h r.2 ↔ name ≠ "" ∧ '/' ∉ name.toList :=
      hputs.adds_iff hnames (hfirst.trans hbefore) hafter
    rw [or_iff_right fun hfails => hnot hfails.1, or_iff_right hnot, and_iff_right hdone']
    exact hadds

/-- A host with a configuration and a profile. -/
def furnishedHost : Host where
  files := ⟨[(["home"], .directory), (["home", ".config"], .directory), (["home", ".config", "azrest"], .directory),
    (["home", ".config", "azrest", "config.json"], .file "\x7b\x7d".toUTF8),
    (["home", ".config", "azrest", "profiles"], .directory),
    (["home", ".config", "azrest", "profiles", "q.json"], .file "\x7b\"name\": \"q\"\x7d".toUTF8)]⟩
  env := [("HOME", "/home")]

/-- A name with dots and without a slash, where another profile is kept. -/
theorem run_adds_of_dots :
    furnishedHost.files.HasNames ∧
      let bytes := (jsonFileText (describedProfile "..p" none none none).toJson).toUTF8
      let r := run {} (.addProfile "..p" none none none false false) furnishedHost
      ((∃ stop, r.1 = .error stop) ∧ (∀ s, r.2.files.fileAt? s = furnishedHost.files.fileAt? s) ∨
          r.1 = .ok () ∧ Adds "..p" bytes furnishedHost r.2) ↔
        (∃ stop, r.1 = .error stop) ∨ "..p" ≠ "" ∧ '/' ∉ "..p".toList := by
  have hnames : furnishedHost.files.HasNames := by
    unfold Tree.HasNames
    decide +kernel
  exact ⟨hnames, run_adds_iff {} "..p" none none none false hnames⟩

/-- A name that leads out of the directory of profiles is not listed, but a file is written. -/
theorem exists_run_not_adds :
    ∃ (con : Console) (name : String) (bytes : ByteArray) (h : Host), h.files.HasNames ∧
      let r := run con (.addProfile name none none none false false) h
      ¬ ((∃ stop, r.1 = .error stop) ∧ (∀ s, r.2.files.fileAt? s = h.files.fileAt? s) ∨
        r.1 = .ok () ∧ Adds name bytes h r.2) := by
  let h : Host := { env := [("HOME", "/home")] }
  let r := run {} (.addProfile "../config" none none none false false) h
  have hdone : (match r.1 with
      | .ok _ => true
      | .error _ => false) = true := by decide +kernel
  have hsaved : (exec Profile.saved r.2).1 = .ok [] := by decide +kernel
  refine ⟨{}, "../config", (jsonFileText (describedProfile "../config" none none none).toJson).toUTF8, h,
    fun _ hf => (by cases hf), ?_⟩
  intro _
  rintro (⟨⟨stop, hstop⟩, -⟩ | ⟨-, dir, spot, names, -, -, -, hlisted, hmem⟩)
  · have hstop' : r.1 = .error stop := hstop
    rw [hstop'] at hdone
    cases hdone
  · have hnone : names = [] := by
      have heq := congrArg Prod.fst hlisted
      exact Except.ok.inj (heq.symm.trans hsaved)
    rw [hnone] at hmem
    cases hmem

end ConfigCommand

end Restline
