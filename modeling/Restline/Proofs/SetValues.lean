import Restline.Proofs.DocumentNames
import Restline.Proofs.UsualProfile

/-!
Values that are set. A configuration has four settings that are single values, each with a key of its own. A value
is set under the key of such a setting and under no other key; then the configuration that is read afterwards has
what the text gives in place of the value, and every other setting as it was. When nothing is set, no file is
changed.

* `Config.Setting`, `Config.Setting.key`, `Config.Setting.value` : the settings.
* `Config.set_key`, `Config.exists_key_of_set` : **which keys can be set**, and to what.
* `Config.load_of_save` : **a configuration that was kept is read**.
* `ConfigCommand.run_set_frames` : **what setting a value changes**.
-/

set_option autoImplicit false

namespace Restline

open Act

namespace Config

/-! ### Settings -/

/-- The settings of a configuration that are single values. -/
inductive Setting
  | defaultProfile
  | autoSelectSingleProfile
  | metadataPath
  | outputFormat
deriving DecidableEq, Repr

namespace Setting

/-- Where the setting is: the names from the configuration to its value. -/
def names : Setting → List String
  | .defaultProfile => ["default_profile"]
  | .autoSelectSingleProfile => ["auto_select_single_profile"]
  | .metadataPath => ["metadata_path"]
  | .outputFormat => ["output", "format"]

/-- The key of the setting, its names with dots between them. -/
def key : Setting → String
  | .defaultProfile => "default_profile"
  | .autoSelectSingleProfile => "auto_select_single_profile"
  | .metadataPath => "metadata_path"
  | .outputFormat => "output.format"

/-- The value of the setting. -/
def value (c : Config) : Setting → Json
  | .defaultProfile => Json.ofText? c.defaultProfile
  | .autoSelectSingleProfile => .bool c.autoSelectSingleProfile
  | .metadataPath => Json.ofText? c.metadataPath
  | .outputFormat => .str c.outputFormat

/-- The configuration with what a text gives for the setting. -/
def put (c : Config) (text : String) : Setting → Config
  | .defaultProfile => { c with defaultProfile := some text }
  | .autoSelectSingleProfile =>
    { c with autoSelectSingleProfile := ["true", "1", "yes"].contains (Text.lowerAscii text) }
  | .metadataPath => { c with metadataPath := some text }
  | .outputFormat => { c with outputFormat := text }

variable {c c' : Config} {s s' : Setting}

theorem key_injective : Function.Injective key := fun s s' h => by
  cases s <;> cases s' <;> first | rfl | exact absurd h (by decide)

theorem segments_key (s : Setting) : Text.segments '.' s.key = s.names := by
  cases s <;> decide

/-- The names lead to the value. -/
theorem follow_names (c : Config) (s : Setting) : c.toJson.follow s.names = .ok (some (s.value c)) := by
  cases s <;> rfl

theorem value_put_self (c : Config) (text : String) (s : Setting) :
    s.value (s.put c text) = coerce (s.value c) text := by
  cases s with
  | defaultProfile => cases h : c.defaultProfile <;> simp [value, put, h, coerce, Json.ofText?]
  | autoSelectSingleProfile => rfl
  | metadataPath => cases h : c.metadataPath <;> simp [value, put, h, coerce, Json.ofText?]
  | outputFormat => rfl

theorem value_put_of_ne (h : s' ≠ s) (c : Config) (text : String) : s'.value (s.put c text) = s'.value c := by
  cases s <;> cases s' <;> first | rfl | exact absurd rfl h

/-- A configuration has no other values. -/
theorem eq_of_value (h : ∀ s : Setting, s.value c = s.value c') : c = c' := by
  have htext : Function.Injective Json.ofText? := fun o o' heq => by
    cases o <;> cases o' <;> simp_all [Json.ofText?]
  obtain ⟨name, select, path, format⟩ := c
  obtain ⟨name', select', path', format'⟩ := c'
  obtain rfl := htext (h .defaultProfile)
  obtain rfl := Json.bool.inj (h .autoSelectSingleProfile)
  obtain rfl := htext (h .metadataPath)
  obtain rfl := Json.str.inj (h .outputFormat)
  rfl

end Setting

/-! ### Keys -/

variable {c c' : Config} {key text : String} {v : Json}

theorem setMember_names (c : Config) (text : String) (s : Setting) :
    setMember c.members text s.names = .ok ((s.put c text).members, coerce (s.value c) text) := by
  obtain ⟨name, select, path, format⟩ := c
  cases s with
  | defaultProfile => cases name <;> rfl
  | autoSelectSingleProfile => rfl
  | metadataPath => cases path <;> rfl
  | outputFormat => rfl

/-- **The key of a setting can be set**, to what the text gives for its value. -/
theorem set_key (c : Config) (text : String) (s : Setting) :
    c.set s.key text = .ok (s.put c text, coerce (s.value c) text) := by
  have hread : ofJson (.obj (s.put c text).members) = .valid (s.put c text) := ofJson_toJson _
  rw [set, Setting.segments_key]
  refine Except.bind_eq_ok_iff.2 ⟨_, setMember_names c text s, ?_⟩
  dsimp only
  rw [hread]
  rfl

/-- A member that is replaced is one of those that are there. -/
theorem mem_keys_of_setMember {ms ms' : Keyed Json} {name : String} (h : setMember ms text [name] = .ok (ms', v)) :
    name ∈ ms.keys := by
  rw [← Keyed.isSome_get?_iff]
  rw [setMember] at h
  cases hget : ms.get? name with
  | none =>
      rw [hget] at h
      cases h
  | some current => rfl

/-- A way goes on below a member that is an object. -/
theorem exists_of_setMember_cons {ms ms' : Keyed Json} {name second : String} {rest : List String}
    (h : setMember ms text (name :: second :: rest) = .ok (ms', v)) :
    ∃ inner inner', (name, .obj inner) ∈ ms ∧ setMember inner text (second :: rest) = .ok (inner', v) := by
  rw [setMember] at h
  · cases hget : ms.get? name with
    | none =>
        rw [hget] at h
        cases h
    | some current =>
        rw [hget] at h
        cases current with
        | obj inner =>
            obtain ⟨⟨inner', v'⟩, hinner, hv⟩ := Except.bind_eq_ok_iff.1 h
            obtain ⟨-, rfl⟩ := Prod.mk.inj (Except.ok.inj hv)
            exact ⟨inner, inner', Keyed.mem_of_get? hget, hinner⟩
        | _ => cases h
  · simp

/-- The one object among the members is that of the output. -/
theorem eq_of_obj_mem_members {name : String} {inner : Keyed Json} (h : (name, .obj inner) ∈ c.members) :
    name = "output" ∧ inner = [("format", .str c.outputFormat)] := by
  have htext : ∀ o : Option String, Json.ofText? o ≠ .obj inner := fun o heq => by cases o <;> cases heq
  simpa [members, toJson, (htext _).symm] using h

/-- The names that a value stands under are those of a setting, or they lead to an object. -/
theorem names_of_setMember {names : List String} {ms : Keyed Json}
    (h : setMember c.members text names = .ok (ms, v)) : (∃ s : Setting, names = s.names) ∨ names = ["output"] := by
  match names with
  | [] => cases h
  | [name] =>
      have hname : name ∈ ["default_profile", "auto_select_single_profile", "metadata_path", "output"] :=
        mem_keys_of_setMember h
      simp only [List.mem_cons, List.not_mem_nil, or_false] at hname
      rcases hname with rfl | rfl | rfl | rfl
      · exact .inl ⟨.defaultProfile, rfl⟩
      · exact .inl ⟨.autoSelectSingleProfile, rfl⟩
      · exact .inl ⟨.metadataPath, rfl⟩
      · exact .inr rfl
  | name :: second :: rest =>
      obtain ⟨inner, inner', hmem, hinner⟩ := exists_of_setMember_cons h
      obtain ⟨rfl, rfl⟩ := eq_of_obj_mem_members hmem
      cases rest with
      | nil =>
          obtain rfl := List.mem_singleton.1 (mem_keys_of_setMember hinner)
          exact .inl ⟨.outputFormat, rfl⟩
      | cons third rest =>
          obtain ⟨inner, -, hmem, -⟩ := exists_of_setMember_cons hinner
          cases (Prod.mk.inj (List.mem_singleton.1 hmem)).2

/-- **No other key can be set.** -/
theorem exists_key_of_set (h : c.set key text = .ok (c', v)) : ∃ s : Setting, s.key = key := by
  obtain ⟨⟨ms, v'⟩, hmember, hread⟩ := Except.bind_eq_ok_iff.1 h
  rcases names_of_setMember hmember with ⟨s, hs⟩ | houtput
  · exact ⟨s, Text.segments_injective '.' (s.segments_key.trans hs.symm)⟩
  · -- a text is no section
    rw [houtput] at hmember
    obtain ⟨rfl, rfl⟩ := Prod.mk.inj (Except.ok.inj hmember)
    obtain ⟨name, select, path, format⟩ := c
    cases name <;> cases path <;> cases hread

theorem set_eq_ok_iff : c.set key text = .ok (c', v) ↔
    ∃ s : Setting, s.key = key ∧ c' = s.put c text ∧ v = coerce (s.value c) text := by
  constructor
  · intro h
    obtain ⟨s, rfl⟩ := exists_key_of_set h
    obtain ⟨rfl, rfl⟩ := Prod.mk.inj (Except.ok.inj (h.symm.trans (set_key c text s)))
    exact ⟨s, rfl, rfl, rfl⟩
  · rintro ⟨s, rfl, rfl, rfl⟩
    exact set_key c text s

/-! ### Configurations that are kept and read -/

/-- **A configuration that was kept is read**, as long as nothing is disturbed. -/
theorem load_of_save {h k k' : Host} (hsave : exec c.save h = (.ok (), k)) (hsame : k.Undisturbed k') :
    (exec load k').1 = .ok c := by
  obtain ⟨k₁, target, -, hputs⟩ := c.stores_save.exists_putsInto hsave
  obtain ⟨dir, hdir, hway⟩ := hputs.dir
  obtain ⟨spot, hstands⟩ := makes_directory hdir
  obtain ⟨rfl, hfits⟩ := (follow_file_eq_ok_iff hstands).1 hway
  have hplaces := hputs.samePlaces.trans hsame.places
  have hkeeps := hputs.keepsDirectories.trans hsame.directories
  have hstands' : k'.files.Stands k'.workDir dir spot := by
    rw [hplaces.workDir]
    exact hstands.of_keepsDirectories hkeeps
  have hbytes : k'.files.fileAt? (spot ++ [fileName]) = some (jsonFileText c.toJson).toUTF8 := by
    rw [hsame.files, hputs.fileAt?_eq, if_pos rfl]
  have hread : exec load k' = (.ok c, k') := by
    refine (exec_load_eq_ok_iff (lasts_directory hdir hplaces hkeeps) hstands').2 ⟨hfits, ?_⟩
    rw [hbytes]
    exact settingsOf?_save c
  rw [hread]

end Config

/-! ### Setting a value -/

namespace ConfigCommand

variable {h : Host} {c : Config}

/-- What setting a value comes to once the configuration was read. -/
theorem runSet_of_load (con : Console) (key text : String) (hload : (exec Config.load h).1 = .ok c) :
    runSet con key text h =
      (match c.set key text with
        | .error f => Run.fail con (setFaultText key f) 2
        | .ok (c', v) => do
          Run.act c'.save
          Run.act (con.success ("Set " ++ key ++ " = " ++ v.display)) : Run Unit) (exec Config.load h).2 := by
  have hact : Run.act Config.load h = (.ok c, (exec Config.load h).2) :=
    Prod.ext (Except.mapError_eq_ok_iff.2 hload) rfl
  exact apply_bind_of_ok hact

/-- Under the key of a setting, the configuration with the value is kept, and then it is told. -/
theorem run_set_key (con : Console) (text : String) (s : Config.Setting) (hload : (exec Config.load h).1 = .ok c) :
    run con (.set s.key text) h =
      match exec (s.put c text).save (exec Config.load h).2 with
      | (.ok _, k) =>
        Run.act (con.success ("Set " ++ s.key ++ " = " ++ (Config.coerce (s.value c) text).display)) k
      | (.error f, k) => (.error (.fault f), k) := by
  rw [run, runSet_of_load con s.key text hload, Config.set_key]
  dsimp only
  rw [apply_bind]
  cases hsave : exec (s.put c text).save (exec Config.load h).2 with
  | mk result k =>
      have hact : Run.act (s.put c text).save (exec Config.load h).2 = (result.mapError Stop.fault, k) := by
        change ((exec (s.put c text).save (exec Config.load h).2).1.mapError Stop.fault,
          (exec (s.put c text).save (exec Config.load h).2).2) = _
        rw [hsave]
      rw [hact]
      cases result <;> rfl

/-- Under another key, nothing is kept. -/
theorem run_set_of_ne (con : Console) {key : String} (text : String) (hkey : ∀ s : Config.Setting, s.key ≠ key)
    (hload : (exec Config.load h).1 = .ok c) :
    (run con (.set key text) h).1 = .error (.exit 2) ∧ h.Undisturbed (run con (.set key text) h).2 := by
  cases hset : c.set key text with
  | ok set =>
      obtain ⟨s, hs⟩ := Config.exists_key_of_set hset
      exact absurd hs (hkey s)
  | error f =>
      rw [run, runSet_of_load con key text hload, hset]
      exact ⟨rfl, (Undisturbing.configLoad h).trans (Undisturbing.fail con _ 2 _)⟩

/-- **What setting a value changes**, where the configuration can be read. When it succeeds, the key is that of a
setting, and the configuration that is read afterwards has for it what the text gives in place of its value, and
every other value as before; it succeeds exactly if the key is one and the configuration with the value can be
kept. When it fails, every file is as before. -/
theorem run_set_frames (con : Console) (key text : String) (hload : (exec Config.load h).1 = .ok c) :
    let r := run con (.set key text) h
    (r.1 = .ok () → ∃ (s : Config.Setting) (c' : Config), s.key = key ∧ (exec Config.load r.2).1 = .ok c' ∧
        s.value c' = Config.coerce (s.value c) text ∧ ∀ s', s' ≠ s → s'.value c' = s'.value c) ∧
      (r.1 = .ok () ↔
        ∃ s : Config.Setting, s.key = key ∧ (exec (s.put c text).save (exec Config.load h).2).1 = .ok ()) ∧
      ∀ stop, r.1 = .error stop → ∀ spot, r.2.files.fileAt? spot = h.files.fileAt? spot := by
  intro r
  by_cases hkey : ∃ s : Config.Setting, s.key = key
  · obtain ⟨s, rfl⟩ := hkey
    have hr : r = _ := run_set_key con text s hload
    have hiff : (∃ s' : Config.Setting, s'.key = s.key ∧
        (exec (s'.put c text).save (exec Config.load h).2).1 = .ok ()) ↔
          (exec (s.put c text).save (exec Config.load h).2).1 = .ok () := by
      refine ⟨?_, fun hsaved => ⟨s, rfl, hsaved⟩⟩
      rintro ⟨s', hs', hsaved⟩
      obtain rfl := Config.Setting.key_injective hs'
      exact hsaved
    rw [hiff]
    cases hsave : exec (s.put c text).save (exec Config.load h).2 with
    | mk result k =>
        rw [hsave] at hr
        cases result with
        | ok u =>
            let told := "Set " ++ s.key ++ " = " ++ (Config.coerce (s.value c) text).display
            have hok : r.1 = .ok () := by
              obtain ⟨v, hv⟩ := (Completes.info con told).act k
              rw [hr]
              exact hv
            have hsame : k.Undisturbed r.2 := by
              rw [hr]
              exact (Undisturbing.info con told).act k
            refine ⟨fun _ => ⟨s, s.put c text, rfl, Config.load_of_save hsave hsame, s.value_put_self c text, ?_⟩,
              iff_of_true hok rfl, fun stop hstop => nomatch hok.symm.trans hstop⟩
            exact fun s' hne => Config.Setting.value_put_of_ne hne c text
        | error f =>
            have hstop : r.1 = .error (.fault f) := by rw [hr]
            have hsame := (Undisturbing.configLoad h).trans ((s.put c text).stores_save.undisturbed_of_error hsave)
            have hnot : r.1 ≠ .ok () := fun hok => nomatch hok.symm.trans hstop
            refine ⟨fun hok => absurd hok hnot, iff_of_false hnot (by simp), fun _ _ spot => ?_⟩
            rw [hr]
            exact hsame.files spot
  · have hne : ∀ s : Config.Setting, s.key ≠ key := fun s hs => hkey ⟨s, hs⟩
    obtain ⟨hstop, hsame⟩ := run_set_of_ne con text hne hload
    have hnot : (run con (.set key text) h).1 ≠ .ok () := fun hok => nomatch hok.symm.trans hstop
    refine ⟨fun hok => absurd hok hnot, iff_of_false hnot ?_, fun _ _ => hsame.files⟩
    rintro ⟨s, hs, -⟩
    exact hne s hs

/-- A word that is none of those for true, where a truth value stands. -/
theorem run_set_frames_word :
    (exec Config.load furnishedHost).1 = .ok {} ∧
      let r := run {} (.set "auto_select_single_profile" "off") furnishedHost
      r.1 = .ok () ∧ ∃ c' : Config, (exec Config.load r.2).1 = .ok c' ∧ c'.autoSelectSingleProfile = false ∧
        ∀ s' : Config.Setting, s' ≠ .autoSelectSingleProfile → s'.value c' = s'.value {} := by
  have hload : (exec Config.load furnishedHost).1 = .ok {} := by decide +kernel
  obtain ⟨hset, hiff, -⟩ := run_set_frames {} "auto_select_single_profile" "off" hload
  have hdone := hiff.2 ⟨.autoSelectSingleProfile, rfl, by decide +kernel⟩
  obtain ⟨s, c', hkey, hread, hvalue, hothers⟩ := hset hdone
  obtain rfl : s = .autoSelectSingleProfile := Config.Setting.key_injective hkey
  exact ⟨hload, hdone, c', hread, Json.bool.inj (hvalue.trans (congrArg Json.bool (by decide))), hothers⟩

end ConfigCommand

end Restline
