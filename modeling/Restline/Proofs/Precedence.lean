import Restline.Proofs.ForeseenSettings
import Restline.Proofs.HeldSettings
import Restline.Proofs.StandingFiles

/-!
Which source of a setting counts. A profile may be named in four places, and the highest that names one counts:
whatever is said below it makes no difference. The address of the service comes from the command line, from the
environment, or from the profile, and from nowhere else.

* `Config.sources`, `Config.nameOn_eq` : **the highest source that names a profile counts**.
* `Config.AgreeDownTo` : two lists of sources are the same as far as one that names a profile.
* `Config.selected`, `Config.exec_resolve_snd` : **where the address comes from**.
* `Config.resolve_alike_iff` : **lower sources make no difference**, unless the file of the profile is out of reach.
-/

set_option autoImplicit false

namespace Restline

open Act

namespace Config

/-! ### Sources -/

/-- The text that a project gives for the name of a profile, unless it is empty. -/
def projectText? (project : Option (Keyed Json)) : Option String :=
  (project.bind fun ms => ms.get? "default_profile").bind fun j => j.text?.filter (· ≠ "")

/-- What a project gives for the name of a profile is a text, if it is not empty. -/
def NamesByText (project : Option (Keyed Json)) : Prop :=
  ∀ ms j, project = some ms → ms.get? "default_profile" = some j → j.isEmpty = false → ∃ s, j = .str s

/-- All that may name the profile, the highest source first. -/
def sources (choice : Choice) (h : Host) (project : Option (Keyed Json)) (c : Config) : List (Option String) :=
  [choice.profile, h.setting? "AZREST_PROFILE", projectText? project, c.defaultProfile]

/-- The name that the highest source gives. -/
def highest (l : List (Option String)) : Option String := l.findSome? id

theorem projectProfile_eq {project : Option (Keyed Json)} (htext : NamesByText project) :
    projectProfile project = projectText? project := by
  rw [projectProfile, projectText?]
  cases project with
  | none => rfl
  | some ms =>
      rw [Option.bind_some]
      cases hname : ms.get? "default_profile" with
      | none => rfl
      | some j =>
          cases hempty : j.isEmpty with
          | false =>
              obtain ⟨s, rfl⟩ := htext ms j rfl hname hempty
              have hs : s ≠ "" := by
                rintro rfl
                cases hempty
              simp [Option.filter, Json.isEmpty, Json.text?, Json.display, hs]
          | true =>
              rw [Option.filter_some_neg (by simp [hempty]), Option.map_none, Option.bind_some]
              cases j with
              | str s =>
                  have hs : s = "" := by simpa [Json.isEmpty] using hempty
                  simp [Json.text?, hs, Option.filter]
              | _ => rfl

/-- **The highest source that names a profile counts.** -/
theorem nameOn_eq (h : Host) (choice : Choice) {project : Option (Keyed Json)} (c : Config)
    (htext : NamesByText project) : nameOn h choice project c = highest (sources choice h project c) := by
  rw [nameOn, profileName, projectProfile_eq htext, highest, sources]
  cases choice.profile <;> cases h.setting? "AZREST_PROFILE" <;> cases projectText? project <;>
    cases c.defaultProfile <;> rfl

/-- Two lists of sources are the same as far as one that gives a name. -/
def AgreeDownTo (l l' : List (Option String)) : Prop :=
  ∃ above name below below', l = above ++ some name :: below ∧ l' = above ++ some name :: below'

theorem AgreeDownTo.highest_eq {l l' : List (Option String)} (hagree : AgreeDownTo l l') : highest l = highest l' := by
  obtain ⟨above, name, below, below', rfl, rfl⟩ := hagree
  rw [highest, highest, List.findSome?_append, List.findSome?_append]
  rfl

/-! ### The address of the service -/

/-- The profile of a name, or else the only one where that is wanted. -/
def found (named : Option String) (select : Bool) : Act Profile := do
  let name ← if named.isNone && select then onlyProfile else pure named
  profileOr name

/-- The profile that counts, as it is kept. -/
def selected (choice : Choice) : Act Profile := do
  let c ← load
  let project ← Project.load
  let h ← get
  found (nameOn h choice project c) c.autoSelectSingleProfile

/-- The address from the command line, or else from the environment, or else from a profile. -/
def address (choice : Choice) (h : Host) (q : Profile) : String :=
  (choice.endpoint.or (h.setting? "AZREST_ENDPOINT")).getD q.endpoint

/-- A profile with another address. -/
def withAddress (q : Profile) (endpoint : String) : Profile := { q with endpoint := endpoint }

theorem exec_found_bind {α : Type} (named : Option String) (select : Bool) (g : Profile → α) (h : Host) :
    exec (if (named.isNone && select) = true then do
          let name ← onlyProfile
          let profile ← profileOr name
          pure (g profile)
        else do
          let name ← pure named
          let profile ← profileOr name
          pure (g profile)) h = exec (found named select >>= fun q => pure (g q)) h := by
  rw [found]
  cases named.isNone && select <;> simp

/-- What becomes of a value that an action gives. -/
theorem exec_bind_pure_fst {α β : Type} (x : Act α) (g : α → β) (h : Host) :
    (exec (x >>= fun a => pure (g a)) h).1 = (exec x h).1.map g := by
  rw [exec_bind]
  cases exec x h with
  | mk r k => cases r <;> rfl

/-- What is left to do once the configuration and the project were read. -/
theorem exec_resolve_of_read {choice : Choice} {h k : Host} {c : Config} {project : Option (Keyed Json)}
    (hread : HasRead h c project k) :
    (exec (resolve choice) h).1.map Prod.snd =
      (exec (found (nameOn k choice project c) c.autoSelectSingleProfile) k).1.map
        fun q => withAddress q (address choice h q) := by
  obtain ⟨k', hc, hproject⟩ := hread
  have hplaces : h.SamePlaces k := by
    exact (Undisturbing.configLoad.exec hc).places.trans (Undisturbing.projectLoad.exec hproject).places
  have hget : exec (get : Act Host) k = (.ok k, k) := rfl
  rw [resolve, exec_bind_ok hc, exec_bind_ok hproject, exec_bind_ok hget]
  dsimp only
  rw [exec_found_bind, exec_bind_pure_fst, ← nameOn]
  cases (exec (found _ _) k).1 with
  | error f => rfl
  | ok q =>
      simp only [Except.map, address, withAddress, hplaces.setting?_eq]

theorem exec_selected_of_read {choice : Choice} {h k : Host} {c : Config} {project : Option (Keyed Json)}
    (hread : HasRead h c project k) :
    exec (selected choice) h = exec (found (nameOn k choice project c) c.autoSelectSingleProfile) k := by
  obtain ⟨k', hc, hproject⟩ := hread
  have hget : exec (get : Act Host) k = (.ok k, k) := rfl
  rw [selected, exec_bind_ok hc, exec_bind_ok hproject, exec_bind_ok hget]

/-- **Where the address comes from**: the command line, the environment, or the profile that is selected. -/
theorem exec_resolve_snd (choice : Choice) (h : Host) :
    (exec (resolve choice) h).1.map Prod.snd =
      (exec (selected choice) h).1.map fun q => withAddress q (address choice h q) := by
  cases hc : exec load h with
  | mk r k =>
      cases r with
      | error f => rw [resolve, selected, exec_bind_error hc, exec_bind_error hc]; rfl
      | ok c =>
          cases hproject : exec Project.load k with
          | mk r k' =>
              cases r with
              | error f =>
                  rw [resolve, selected, exec_bind_ok hc, exec_bind_ok hc, exec_bind_error hproject,
                    exec_bind_error hproject]
                  rfl
              | ok project => rw [exec_selected_of_read ⟨k, hc, hproject⟩, exec_resolve_of_read ⟨k, hc, hproject⟩]

/-! ### Two hosts -/

/-- The configuration of a host and the file of its project are valid. -/
structure Reads (h : Host) (c : Config) (project : Option (Keyed Json)) : Prop where
  read : ∃ k, HasRead h c project k
  text : NamesByText project

/-- The file of a profile is the same, wherever it is. -/
def SameProfile (name : String) (h h' : Host) : Prop := ∀ bytes, h.HoldsProfile name bytes ↔ h'.HoldsProfile name bytes

/-- The same profile apart from the address, or failures of the configuration. -/
def Alike (r r' : Except Fault (Config × Profile)) : Prop :=
  (∃ q e e', r.map Prod.snd = .ok (withAddress q e) ∧ r'.map Prod.snd = .ok (withAddress q e')) ∨
    ∃ f f', r = .error f ∧ f.kind = .config ∧ r' = .error f' ∧ f'.kind = .config

/-- The profile that is named is the one that is selected. -/
theorem exec_selected_of_name {choice : Choice} {h : Host} {c : Config} {project : Option (Keyed Json)}
    {name : String} (hreads : Reads h c project) (hname : highest (sources choice h project c) = some name) :
    (exec (selected choice) h).1 = (exec (Profile.load name) h).1 := by
  obtain ⟨k, hread⟩ := hreads.read
  obtain ⟨k', hc, hproject⟩ := hread
  obtain ⟨dir, hdir⟩ := exec_directory_of_load hc
  have hk : k = k' := by
    have hsnd := Project.exec_load_snd k'
    rwa [hproject] at hsnd
  have hnamed : nameOn k choice project c = some name := by
    have hplaces := (Undisturbing.configLoad.exec hc).places
    rw [hk, nameOn, hplaces.setting?_eq, ← nameOn, nameOn_eq h choice c hreads.text, hname]
  rw [exec_selected_of_read ⟨k', hc, hproject⟩, hnamed, hk]
  exact congrArg Prod.fst (Profile.exec_load_again hdir name)

/-- Neither of two results that are alike is a failure of another kind. -/
theorem Alike.kind_eq {r r' : Except Fault (Config × Profile)} (halike : Alike r r') {f : Fault}
    (hf : r = .error f ∨ r' = .error f) : f.kind = .config := by
  rcases halike with ⟨q, e, e', hq, hq'⟩ | ⟨g, g', hg, hkind, hg', hkind'⟩
  · rcases hf with rfl | rfl
    · cases hq
    · cases hq'
  · rcases hf with rfl | rfl
    · exact Except.error.inj hg ▸ hkind
    · exact Except.error.inj hg' ▸ hkind'

/-- What comes of the profile under a name. -/
theorem resolve_of_name {choice : Choice} {h : Host} {c : Config} {project : Option (Keyed Json)} {name : String}
    (hreads : Reads h c project) (hname : highest (sources choice h project c) = some name) :
    (∀ q, (exec (Profile.load name) h).1 = .ok q →
      (exec (resolve choice) h).1.map Prod.snd = .ok (withAddress q (address choice h q))) ∧
    ∀ f, (exec (resolve choice) h).1 = .error f ↔ (exec (Profile.load name) h).1 = .error f := by
  have hr := exec_resolve_snd choice h
  rw [exec_selected_of_name hreads hname] at hr
  refine ⟨fun q hq => ?_, fun f => ?_⟩
  · rw [hr, hq]
    rfl
  · rw [← Except.map_eq_error_iff (f := Prod.snd), hr, Except.map_eq_error_iff]

/-- **Lower sources make no difference.** On two hosts with sources that are the same as far as one that names a
profile, and with the same file of that profile, the profile is the same or the configuration is wrong on both,
exactly if the file is out of reach on neither. The address comes from the command line, the environment, or the
profile that is selected. -/
theorem resolve_alike_iff (choice : Choice) (h h' : Host) :
    ((exec (resolve choice) h).1.map Prod.snd =
      (exec (selected choice) h).1.map fun q => withAddress q (address choice h q)) ∧
    ∀ c project c' project' name, Reads h c project → Reads h' c' project' →
      AgreeDownTo (sources choice h project c) (sources choice h' project' c') →
      highest (sources choice h project c) = some name → SameProfile name h h' →
        (Alike (exec (resolve choice) h).1 (exec (resolve choice) h').1 ↔
          ∀ f, ¬ OutOfReach (Profile.file name) h f ∧ ¬ OutOfReach (Profile.file name) h' f) := by
  refine ⟨exec_resolve_snd choice h, fun c project c' project' name hreads hreads' hagree hname hsame => ?_⟩
  have hname' : highest (sources choice h' project' c') = some name := hagree.highest_eq ▸ hname
  obtain ⟨hq, hf⟩ := resolve_of_name hreads hname
  obtain ⟨hq', hf'⟩ := resolve_of_name hreads' hname'
  -- the same bytes are read on both hosts, so they can differ in failures only
  have hok : ∀ q, (exec (Profile.load name) h).1 = .ok q ↔ (exec (Profile.load name) h').1 = .ok q := fun q => by
    rw [Profile.exec_load_eq_ok_iff, Profile.exec_load_eq_ok_iff]
    exact exists_congr fun bytes => and_congr_left' (hsame bytes)
  simp only [← crashes_profileLoad_iff]
  constructor
  · intro halike f
    refine ⟨fun hcrash => ?_, fun hcrash => ?_⟩
    · exact hcrash.2 (halike.kind_eq (.inl ((hf f).2 hcrash.1)))
    · exact hcrash.2 (halike.kind_eq (.inr ((hf' f).2 hcrash.1)))
  · intro hreach
    cases hload : (exec (Profile.load name) h).1 with
    | ok q => exact .inl ⟨q, _, _, hq q hload, hq' q ((hok q).1 hload)⟩
    | error f =>
        cases hload' : (exec (Profile.load name) h').1 with
        | ok q => cases hload.symm.trans ((hok q).2 hload')
        | error f' =>
            have hkind : f.kind = .config := by
              by_contra hkind
              exact (hreach f).1 ⟨hload, hkind⟩
            have hkind' : f'.kind = .config := by
              by_contra hkind'
              exact (hreach f').2 ⟨hload', hkind'⟩
            exact .inr ⟨f, f', (hf f).2 hload, hkind, (hf' f').2 hload', hkind'⟩

/-- A host where the environment names a profile that is kept, and the configuration another one that is not. -/
def namingHost : Host where
  files := ⟨[(["home"], .directory), (["home", ".config"], .directory), (["home", ".config", "azrest"], .directory),
    (["home", ".config", "azrest", "config.json"], .file "\x7b\"default_profile\": \"q\"\x7d".toUTF8),
    (["home", ".config", "azrest", "profiles"], .directory),
    (["home", ".config", "azrest", "profiles", "p.json"], .file "\x7b\"name\": \"p\"\x7d".toUTF8)]⟩
  env := [("HOME", "/home"), ("AZREST_PROFILE", "p")]

/-- The same without a configuration, in another home directory. -/
def movedHost : Host where
  files := ⟨[(["moved"], .directory), (["moved", ".config"], .directory), (["moved", ".config", "azrest"], .directory),
    (["moved", ".config", "azrest", "profiles"], .directory),
    (["moved", ".config", "azrest", "profiles", "p.json"], .file "\x7b\"name\": \"p\"\x7d".toUTF8)]⟩
  env := [("HOME", "/moved"), ("AZREST_PROFILE", "p")]

/-- A configuration is read where there is no project. -/
theorem reads_of_noProject {h : Host} {c : Config} (hc : (exec load h).1 = .ok c)
    (hproject : (exec Project.load (exec load h).2).1.toOption.map Option.isNone = some true) : Reads h c none where
  read := by
    refine ⟨_, _, Prod.ext hc rfl, Prod.ext ?_ rfl⟩
    cases hx : (exec Project.load (exec load h).2).1 with
    | error f =>
        rw [hx] at hproject
        cases hproject
    | ok project =>
        rw [hx] at hproject
        cases project with
        | none => rfl
        | some ms => cases hproject
  text := fun _ _ hsome => by cases hsome

/-- The file of a profile that is held on both hosts is the same. -/
theorem sameProfile_of_holds {name : String} {h h' : Host} {bytes : ByteArray} (hholds : h.HoldsProfile name bytes)
    (hholds' : h'.HoldsProfile name bytes) : SameProfile name h h' := fun _ =>
  ⟨fun hb => hholds.unique hb ▸ hholds', fun hb => hholds'.unique hb ▸ hholds⟩

/-- The environment names a profile; that the configuration names another one, or none, makes no difference. -/
theorem resolve_alike_of_environment :
    let l := [none, some "p", none, some "q"]
    let l' := [none, some "p", none, none]
    Reads namingHost { defaultProfile := some "q" } none ∧ Reads movedHost {} none ∧ AgreeDownTo l l' ∧
      highest l = some "p" ∧ SameProfile "p" namingHost movedHost ∧
      (Alike (exec (resolve {}) namingHost).1 (exec (resolve {}) movedHost).1 ↔
        ∀ f, ¬ OutOfReach (Profile.file "p") namingHost f ∧ ¬ OutOfReach (Profile.file "p") movedHost f) := by
  have hreads : Reads namingHost { defaultProfile := some "q" } none :=
    reads_of_noProject (by decide +kernel) (by decide +kernel)
  have hreads' : Reads movedHost {} none := reads_of_noProject (by decide +kernel) (by decide +kernel)
  have hl : sources {} namingHost none { defaultProfile := some "q" } = [none, some "p", none, some "q"] := by
    decide +kernel
  have hl' : sources {} movedHost none {} = [none, some "p", none, none] := by decide +kernel
  have hagree : AgreeDownTo [none, some "p", none, some "q"] [none, some "p", none, none] :=
    ⟨[none], "p", [none, some "q"], [none, none], rfl, rfl⟩
  have hheld : namingHost.HoldsProfile "p" "\x7b\"name\": \"p\"\x7d".toUTF8 :=
    ⟨⟨"/", ["home", ".config", "azrest", "profiles", "p.json"]⟩, _, Prod.ext (by decide +kernel) rfl,
      show _ = _ by decide +kernel⟩
  have hheld' : movedHost.HoldsProfile "p" "\x7b\"name\": \"p\"\x7d".toUTF8 :=
    ⟨⟨"/", ["moved", ".config", "azrest", "profiles", "p.json"]⟩, _, Prod.ext (by decide +kernel) rfl,
      show _ = _ by decide +kernel⟩
  have hsame := sameProfile_of_holds hheld hheld'
  refine ⟨hreads, hreads', hagree, rfl, hsame, ?_⟩
  exact (resolve_alike_iff {} namingHost movedHost).2 _ none _ none "p" hreads hreads' (hl ▸ hl' ▸ hagree)
    (hl ▸ rfl) hsame

/-- Where the name of a profile is too long for the system, the failure is not one of the configuration. -/
theorem exists_resolve_not_alike :
    ∃ (choice : Choice) (h h' : Host) (c c' : Config) (project project' : Option (Keyed Json)),
      Reads h c project ∧ Reads h' c' project' ∧ (∀ name, SameProfile name h h') ∧
        AgreeDownTo (sources choice h project c) (sources choice h' project' c') ∧
        ¬ Alike (exec (resolve choice) h).1 (exec (resolve choice) h').1 := by
  have hreads : Reads Host.bare {} none := reads_of_noProject (by decide +kernel) (by decide +kernel)
  have hload := Profile.exec_load_of_not_fits exec_directory_bare isPlainName_longName (not_fits_longName _)
  let choice : Choice := { profile := some longName }
  have hname : highest (sources choice Host.bare none {}) = some longName := rfl
  obtain ⟨-, hfails⟩ := resolve_of_name hreads hname
  refine ⟨choice, Host.bare, Host.bare, {}, {}, none, none, hreads, hreads, fun _ _ => .rfl,
    ⟨[], longName, _, _, rfl, rfl⟩, fun halike => ?_⟩
  cases halike.kind_eq (.inl ((hfails _).2 (congrArg Prod.fst hload)))

end Config

end Restline
