import Restline.Proofs.KeptSettings

/-!
Changes of settings that are half done. A command on the configuration looks at all it needs before it keeps
anything, and keeps at most one file, so that one which fails leaves settings as they were. The exception is a
new profile that is to be the usual one: the profile is kept first, and only then the configuration is read,
changed and kept. When that fails the profile stays behind.

* `ConfigCommand.keepsOnFailure_run` : all other commands change no settings when they fail.
* `ConfigCommand.run_keeps_iff` : **when a command that fails changes no settings**.
* `Program.configCommand?` : the command on the configuration that a command line holds.
* `Program.perform_of_command`, `Program.keeps_perform` : what a command line does, with such a command and
  without one.
* `Program.LeavesProfile`, `Program.start_keeps_iff` : **when a command line that does not succeed changes no
  settings**, and what it changes otherwise.
-/

set_option autoImplicit false

namespace Restline

/-! ### Parts of a run -/

section Runs

variable {α β : Type}

/-- An action as a part of a run. -/
theorem Run.act_apply (x : Act α) (h : Host) : Run.act x h = ((x h).1.mapError Stop.fault, (x h).2) := rfl

theorem Undisturbing.act {x : Act α} (hx : Undisturbing x) : Undisturbing (Run.act x) := hx

theorem Keeps.act {x : Act α} (hx : Keeps x) : Keeps (Run.act x) := hx

theorem KeepsOnFailure.act {x : Act α} (hx : KeepsOnFailure x) : KeepsOnFailure (Run.act x) := by
  intro h stop hfails
  rw [Run.act_apply] at hfails
  cases hrun : (x h).1 with
  | ok a =>
      rw [hrun] at hfails
      cases hfails
  | error f => exact hx h f hrun

theorem Puts.act {x : Act Unit} {bytes : ByteArray} (hx : Puts x bytes) : Puts (Run.act x) bytes := by
  intro h
  rw [Run.act_apply]
  rcases hx h with ⟨f, hfails, hsame⟩ | ⟨target, hdone, hgains⟩
  · exact .inl ⟨.fault f, by rw [hfails]; rfl, hsame⟩
  · exact .inr ⟨target, by rw [hdone]; rfl, hgains⟩

theorem Completes.act {x : Act α} (hx : Completes x) : Completes (Run.act x) := by
  intro h
  obtain ⟨a, ha⟩ := hx h
  exact ⟨a, by rw [Run.act_apply, ha]; rfl⟩

/-- What follows words that are read need only keep settings for what they give. -/
theorem Keeps.bind_parse {x : Except UsageFault α} {f : α → Run β} (hf : ∀ a, x = .ok a → Keeps (f a)) :
    Keeps (Run.parse x >>= f) := by
  intro h
  rw [apply_bind]
  cases x with
  | ok a => exact hf a rfl h
  | error e => exact .refl h

/-- What follows a check that stops the run need only keep settings by itself. -/
theorem Keeps.unless_throw {c : Prop} [Decidable c] {stop : Stop} {x : Run β} (hx : Keeps x) :
    Keeps (if c then (MonadExcept.throw stop : Run α) >>= fun _ => x else x) := by
  split
  · exact Keeps.bind (.throw _) fun _ => hx
  · exact hx

theorem Undisturbing.error (con : Console) (text : String) : Undisturbing (con.error text) := Undisturbing.report _

theorem Undisturbing.fail (con : Console) (message : String) (status : ℕ) :
    Undisturbing (Run.fail con message status : Run α) :=
  (Undisturbing.error con message).act.bind fun _ => .throw _

/-- A note does not fail. -/
theorem Completes.info (con : Console) (text : String) : Completes (con.info text) := by
  intro h
  rw [Console.info]
  split <;> exact ⟨(), rfl⟩

end Runs

/-! ### Settings that are put in place -/

theorem Puts.configSave (c : Config) : Puts c.save (jsonFileText c.toJson).toUTF8 := by
  rw [Config.save_eq]
  exact Puts.bind Undisturbing.configDirectory.keeps fun dir => .replaceText dir "config" _

theorem Puts.profileSave (p : Profile) : Puts p.save (jsonFileText p.toJson).toUTF8 := by
  rw [Profile.save_eq]
  refine Puts.bind Undisturbing.profileDirectory.keeps fun dir => ?_
  split
  · exact .replaceText dir p.name _
  · exact fun h => .inl ⟨_, rfl, .refl h⟩

theorem KeepsOnFailure.makeUsual (name : String) : KeepsOnFailure (ConfigCommand.makeUsual name) :=
  .bind Undisturbing.configLoad.keeps fun c => (Puts.configSave { c with defaultProfile := some name }).onFailure

/-! ### Commands -/

namespace ConfigCommand

variable {con : Console} {p : Profile} {force : Bool} {h : Host}

theorem undisturbing_orFail {α : Type} {x : Act α} (hx : Undisturbing x) (con : Console) :
    Undisturbing (orFail con x) := by
  intro h
  have hkept := hx h
  rw [orFail]
  cases hrun : x h with
  | mk r h' =>
      rw [hrun] at hkept
      cases r with
      | ok a => exact hkept
      | error f =>
          dsimp only
          split
          · exact hkept.trans (Undisturbing.fail con f.text 2 h')
          · exact hkept

theorem undisturbing_runDisplay (con : Console) (profile : Option String) :
    Undisturbing (runDisplay con profile) := by
  unfold runDisplay
  refine Undisturbing.configDirectory.act.bind fun dir => ?_
  refine (Undisturbing.info con _).act.bind fun _ => ?_
  cases profile with
  | none => exact (Undisturbing.configLoad.bind fun c => Undisturbing.print _).act
  | some name =>
      exact (undisturbing_orFail (Undisturbing.profileLoad name) con).bind fun p => (Undisturbing.print _).act

theorem undisturbing_profileRows (usual : Option String) (names : List String) :
    Undisturbing (profileRows usual names) := by
  induction names with
  | nil => exact .pure _
  | cons name rest ih =>
      rw [profileRows]
      refine (Undisturbing.profileLoad name).bind fun p => ?_
      exact ih.bind fun rows => .pure _

theorem undisturbing_printLines (lines : List String) : Undisturbing (Console.printLines lines) := by
  induction lines with
  | nil => exact .pure ()
  | cons line rest ih => exact (Undisturbing.print line).bind fun _ => ih

theorem undisturbing_runProfiles (con : Console) : Undisturbing (runProfiles con) := by
  rw [runProfiles]
  refine Undisturbing.saved.bind fun names => ?_
  split
  · exact Undisturbing.info con _
  · refine Undisturbing.configLoad.bind fun c => ?_
    refine (undisturbing_profileRows _ names).bind fun rows => ?_
    exact undisturbing_printLines _

theorem keepsOnFailure_runSet (con : Console) (key value : String) : KeepsOnFailure (runSet con key value) := by
  refine .bind Undisturbing.configLoad.keeps.act fun c => ?_
  split
  · exact (Undisturbing.fail con _ 2).keeps.onFailure
  · rename_i c value _
    refine (Puts.configSave c).act.onFailure.bind_completes fun _ => ?_
    exact (Completes.info con _).act

theorem undisturbing_ask (fuel : ℕ) : Undisturbing (ask fuel) := by
  induction fuel with
  | zero => exact .throw _
  | succ fuel ih =>
      rw [ask]
      refine (Undisturbing.prompt _).act.bind fun _ => ?_
      refine Undisturbing.readLine.act.bind fun line => ?_
      split
      · exact .throw _
      · split
        · exact .pure _
        · exact (Undisturbing.print _).act.bind fun _ => ih

theorem keepsOnFailure_runReset (con : Console) (force : Bool) : KeepsOnFailure (runReset con force) := by
  have hanswered : ∀ confirmed : Bool, KeepsOnFailure (if confirmed = true then do
        Run.act (Config.save {})
        Run.act (con.success "Configuration reset to defaults.")
      else do
        Run.act (con.info "Cancelled.")
        throw (.exit 0) : Run Unit) := by
    intro confirmed
    split
    · exact (Puts.configSave {}).act.onFailure.bind_completes fun _ => (Completes.info con _).act
    · exact .bind (Undisturbing.info con _).keeps.act fun _ => (Keeps.throw _).onFailure
  rw [runReset]
  refine .bind Keeps.get fun h => ?_
  dsimp only
  split
  · exact .bind (.pure true) hanswered
  · exact .bind (undisturbing_ask _).keeps hanswered

/-- Making a profile the usual one, and then saying so. -/
theorem keepsOnFailure_makeUsual_info (con : Console) (name text : String) : KeepsOnFailure (do
    Run.act (makeUsual name)
    Run.act (con.info text) : Run Unit) :=
  (KeepsOnFailure.makeUsual name).act.bind_completes fun _ => (Completes.info con text).act

theorem keepsOnFailure_runUse (con : Console) (name : String) : KeepsOnFailure (runUse con name) := by
  rw [runUse]
  refine .bind (Undisturbing.isSaved name).keeps.act fun there => ?_
  split
  · exact .bind (Undisturbing.fail con _ 2).keeps fun _ => keepsOnFailure_makeUsual_info con name _
  · exact keepsOnFailure_makeUsual_info con name _

/-- A new profile that is not to be the usual one. -/
theorem puts_runAddProfile (con : Console) (p : Profile) (force : Bool) :
    Puts (runAddProfile con p false force) (jsonFileText p.toJson).toUTF8 := by
  have hsave : Puts (do
      Run.act p.save
      Run.act (con.success ("Profile '" ++ p.name ++ "' saved.")) : Run Unit) (jsonFileText p.toJson).toUTF8 :=
    (Puts.profileSave p).act.bind_completes (Undisturbing.info con _).keeps.act (Completes.info con _).act
  rw [runAddProfile]
  refine Puts.bind (Undisturbing.isSaved p.name).keeps.act fun isThere => ?_
  cases isThere && !force with
  | true => simpa using Puts.bind (Undisturbing.fail con _ 2).keeps fun _ => hsave
  | false => simpa using hsave

/-- To make it the usual one as well is what comes last. -/
theorem runAddProfile_true (con : Console) (p : Profile) (force : Bool) :
    runAddProfile con p true force = runAddProfile con p false force >>= (fun _ => do
      Run.act (makeUsual p.name)
      Run.act (con.info ("Default profile set to '" ++ p.name ++ "'."))) := by
  rw [runAddProfile, runAddProfile, bind_assoc]
  congr 1
  funext isThere
  cases isThere && !force <;> simp

/-- The command that does all but make a new profile the usual one. -/
def withoutDefault? : ConfigCommand → Option ConfigCommand
  | .addProfile name endpoint metadata source true force =>
    some (.addProfile name endpoint metadata source false force)
  | _ => none

/-- Commands that do not make a new profile the usual one change no settings when they fail. -/
theorem keepsOnFailure_run (con : Console) {c : ConfigCommand} (hc : c.withoutDefault? = none) :
    KeepsOnFailure (c.run con) := by
  cases c with
  | display profile => exact (undisturbing_runDisplay con profile).keeps.onFailure
  | set key value => exact keepsOnFailure_runSet con key value
  | reset force => exact keepsOnFailure_runReset con force
  | profiles => exact (undisturbing_runProfiles con).keeps.act.onFailure
  | addProfile name endpoint metadata source makeDefault force =>
      cases makeDefault with
      | true => cases hc
      | false => exact (puts_runAddProfile con _ force).onFailure
  | use name => exact keepsOnFailure_runUse con name

/-- The command that does all but that puts a text into the file of the profile. -/
theorem exists_puts_withoutDefault (con : Console) {c c' : ConfigCommand} (hc : c.withoutDefault? = some c') :
    ∃ bytes, Puts (c'.run con) bytes := by
  cases c with
  | addProfile name endpoint metadata source makeDefault force =>
      cases makeDefault with
      | false => cases hc
      | true =>
          obtain rfl := Option.some_inj.1 hc
          exact ⟨_, puts_runAddProfile con _ force⟩
  | _ => cases hc

/-- **A command that makes a new profile the usual one and fails** leaves the settings of the command that does
not, which failed as well or kept the profile. -/
theorem sameSettings_withoutDefault {c c' : ConfigCommand} (hc : c.withoutDefault? = some c') {stop : Stop}
    (hfails : (c.run con h).1 = .error stop) : (c'.run con h).2.SameSettings (c.run con h).2 := by
  cases c with
  | addProfile name endpoint metadata source makeDefault force =>
      cases makeDefault with
      | false => cases hc
      | true =>
          obtain rfl := Option.some_inj.1 hc
          have hrun : ConfigCommand.run con (.addProfile name endpoint metadata source true force) = _ :=
            runAddProfile_true con (describedProfile name endpoint metadata source) force
          rw [hrun] at hfails ⊢
          change Host.SameSettings
            (runAddProfile con (describedProfile name endpoint metadata source) false force h).2 _
          rcases apply_bind_cases _ _ h with ⟨u, -, hthen⟩ | ⟨e, -, hends⟩
          · rw [hthen] at hfails ⊢
            exact keepsOnFailure_makeUsual_info con _ _ _ stop hfails
          · rw [hends]
            exact .refl _
  | _ => cases hc

/-- **When a command that fails changes no settings**: exactly if it is not one that made a new profile the
usual one after it had put another text into the file of the profile. -/
theorem run_keeps_iff (con : Console) (c : ConfigCommand) (h : Host) {stop : Stop}
    (hfails : (c.run con h).1 = .error stop) :
    h.SameSettings (c.run con h).2 ↔ ∀ c', c.withoutDefault? = some c' → h.SameSettings (c'.run con h).2 := by
  cases hc : c.withoutDefault? with
  | none => exact iff_of_true (keepsOnFailure_run con hc h stop hfails) fun c' hc' => by cases hc'
  | some c' =>
      rw [(sameSettings_withoutDefault hc hfails).congr_right]
      exact ⟨fun hsame c'' hc'' => Option.some_inj.1 hc'' ▸ hsame, fun hall => hall c' rfl⟩

end ConfigCommand

/-! ### Command lines -/

namespace Program

/-- The command on the configuration that a command line holds, with the options of the program. -/
def configCommand? (words : List String) : Option (ProgramOptions × ConfigCommand) :=
  match Grammar.subcommand ProgramOptions.specs ProgramOptions.actions words with
  | .ok (.inr before) =>
    if before.command = "config" then
      match Form.reach [Program.name, "config"] ConfigCommand.forms before.rest with
      | .ok (.command name filled) =>
        (ConfigCommand.ofFilled? name filled).map fun c => (.ofParsed before.options, c)
      | _ => none
    else none
  | _ => none

/-- No group of commands but that on the configuration is named. -/
def NamesConfig (words : List String) : Prop :=
  ∀ before, Grammar.subcommand ProgramOptions.specs ProgramOptions.actions words = .ok (.inr before) →
    before.command = "config"

instance (words : List String) : Decidable (NamesConfig words) :=
  match hread : Grammar.subcommand ProgramOptions.specs ProgramOptions.actions words with
  | .ok (.inr before) =>
    decidable_of_iff (before.command = "config")
      ⟨fun hconfig b hb => by cases hread.symm.trans hb; exact hconfig, fun hall => hall before hread⟩
  | .ok (.inl _) => isTrue fun _ hb => by cases hread.symm.trans hb
  | .error _ => isTrue fun _ hb => by cases hread.symm.trans hb

/-- The command line comes to an end with the status of success. -/
def Succeeds : Except Fault Ending → Prop
  | .ok ending => ending.status = 0
  | .error _ => False

instance : DecidablePred Succeeds
  | .ok ending => inferInstanceAs (Decidable (ending.status = 0))
  | .error _ => isFalse id

theorem ne_nil_of_subcommand {words : List String} {before : Grammar.Before}
    (hbefore : Grammar.subcommand ProgramOptions.specs ProgramOptions.actions words = .ok (.inr before)) :
    words.isEmpty = false := by
  cases words with
  | nil => cases hbefore
  | cons word rest => rfl

theorem contains_groups_config : groups.contains "config" = true := by decide +kernel

/-- A command line that names a group of commands goes on with that group. -/
theorem perform_of_subcommand {words : List String} {before : Grammar.Before}
    (hbefore : Grammar.subcommand ProgramOptions.specs ProgramOptions.actions words = .ok (.inr before))
    (hgroup : groups.contains before.command = true) {h h' : Host} {api : Api}
    (hapi : loadApi words h = (.ok api, h')) :
    perform words h =
      performGroup api (.ofParsed before.options) [Program.name] before.rest before.command h' := by
  have hact : Run.act (loadApi words) h = (.ok api, h') := by rw [Run.act_apply, hapi]; rfl
  have hparse : Run.parse (Grammar.subcommand ProgramOptions.specs ProgramOptions.actions words) h' =
      (.ok (.inr before), h') := by rw [Run.parse, hbefore]; rfl
  rw [perform, apply_bind, hact]
  dsimp only
  rw [if_neg (by simp [ne_nil_of_subcommand hbefore]), apply_bind, hparse]
  dsimp only
  rw [if_pos hgroup]

/-- What a command line does that holds a command on the configuration. -/
theorem perform_of_command {words : List String} {o : ProgramOptions} {c : ConfigCommand}
    (hc : configCommand? words = some (o, c)) {h h' : Host} {api : Api}
    (hapi : loadApi words h = (.ok api, h')) : perform words h = c.run (o.console h') h' := by
  rw [configCommand?] at hc
  split at hc
  · rename_i before hbefore
    split at hc
    · rename_i hconfig
      split at hc
      · rename_i name filled hreach
        obtain ⟨c', hfilled, heq⟩ := Option.map_eq_some_iff.1 hc
        obtain ⟨rfl, rfl⟩ := Prod.mk.inj heq
        have hget : (get : Run Host) h' = (.ok h', h') := rfl
        have hparse : Run.parse (Form.reach [Program.name, "config"] ConfigCommand.forms before.rest) h' =
            (.ok (.command name filled), h') := by rw [Run.parse, hreach]; rfl
        have hcontains : groups.contains before.command = true := hconfig ▸ contains_groups_config
        rw [perform_of_subcommand hbefore hcontains hapi, hconfig, performGroup, apply_bind, hget]
        change performConfig _ [Program.name, "config"] before.rest h' = _
        rw [performConfig, apply_bind, hparse]
        dsimp only
        rw [hfilled]
      · cases hc
    · cases hc
  · cases hc

theorem keeps_performAction (path : List String) (action : String) : Keeps (performAction path action) := by
  rw [performAction]
  split
  · exact (Undisturbing.print _).keeps.act.bind fun _ => .throw _
  · exact .throw _

/-- A command line that holds no command on the configuration changes no settings. -/
theorem keeps_perform {words : List String} (hgroup : NamesConfig words)
    (hnone : configCommand? words = none) : Keeps (perform words) := by
  rw [perform]
  refine (Undisturbing.loadApi words).keeps.act.bind fun api => ?_
  refine Keeps.unless_throw (Keeps.bind_parse fun r hr => ?_)
  cases r with
  | inl action => exact keeps_performAction _ action
  | inr before =>
      have hconfig := hgroup before hr
      have hcontains : groups.contains before.command = true := hconfig ▸ contains_groups_config
      dsimp only
      rw [if_pos hcontains, hconfig]
      refine Keeps.get.bind fun h => ?_
      change Keeps (performConfig _ [Program.name, "config"] before.rest)
      refine Keeps.bind_parse fun reached hreached => ?_
      cases reached with
      | help path => exact .throw _
      | command name filled =>
          -- a form that is filled in would be a command
          rw [configCommand?, hr] at hnone
          dsimp only at hnone
          rw [if_pos hconfig, hreached] at hnone
          dsimp only at hnone ⊢
          rw [Option.map_eq_none_iff.1 hnone]
          exact .throw _

/-! ### When settings are kept -/

/-- The command line is to make a new profile the usual one, and the command that does all but that puts
another text into the file of the profile. -/
def LeavesProfile (words : List String) (h : Host) : Prop :=
  ∃ o c c' api h', configCommand? words = some (o, c) ∧ c.withoutDefault? = some c' ∧
    loadApi words h = (.ok api, h') ∧ ¬ h'.SameSettings (c'.run (o.console h') h').2

theorem start_eq (words : List String) (h : Host) :
    start words h = conclude (perform words h).1 (perform words h).2 := by
  rw [start, apply_bind]
  rfl

/-- A command line that is stopped changes no settings unless it leaves a profile behind. -/
theorem perform_keeps_iff {words : List String} (hgroup : NamesConfig words) {h : Host} {stop : Stop}
    (hstop : (perform words h).1 = .error stop) :
    h.SameSettings (perform words h).2 ↔ ¬ LeavesProfile words h := by
  cases hc : configCommand? words with
  | none =>
      refine iff_of_true (keeps_perform hgroup hc h) ?_
      rintro ⟨o, c, c', api, h', hc', -⟩
      cases hc.symm.trans hc'
  | some found =>
      obtain ⟨o, c⟩ := found
      have hloaded := (Undisturbing.loadApi words).keeps h
      cases hapi : loadApi words h with
      | mk r h' =>
          rw [hapi] at hloaded
          cases r with
          | error f =>
              have hran : perform words h = (.error (.fault f), h') := by
                rw [perform, apply_bind, Run.act_apply, hapi]
                rfl
              rw [hran]
              refine iff_of_true hloaded ?_
              rintro ⟨o, c, c', api, k, -, -, hapi', -⟩
              cases hapi.symm.trans hapi'
          | ok api =>
              rw [perform_of_command hc hapi] at hstop ⊢
              have hsame : h.SameSettings (c.run (o.console h') h').2 ↔
                  h'.SameSettings (c.run (o.console h') h').2 := hloaded.congr_left
              rw [hsame, ConfigCommand.run_keeps_iff (o.console h') c h' hstop]
              constructor
              · rintro hall ⟨o', c₀, c', api', k, hc', hdefault, hapi', hchanged⟩
                obtain ⟨rfl, rfl⟩ := Prod.mk.inj (Option.some_inj.1 (hc.symm.trans hc'))
                obtain ⟨-, rfl⟩ := Prod.mk.inj (hapi.symm.trans hapi')
                exact hchanged (hall c' hdefault)
              · intro hleaves c' hdefault
                by_contra hchanged
                exact hleaves ⟨o, c, c', api, h', hc, hdefault, hapi, hchanged⟩

/-- **When a command line that does not succeed changes no settings**: exactly if it does not leave a profile
behind. If it does, the file of that profile has another text, and all other settings are as before. -/
theorem start_keeps_iff {words : List String} (hgroup : NamesConfig words) {h : Host}
    (hfails : ¬ Succeeds (start words h).1) :
    (h.SameSettings (start words h).2 ↔ ¬ LeavesProfile words h) ∧
      (LeavesProfile words h → ∃ target bytes, h.Gains (start words h).2 target bytes ∧
        h.files.fileAt? target ≠ some bytes) := by
  have hend : (perform words h).2.SameSettings (start words h).2 := by
    rw [start_eq]
    exact Keeps.conclude _ _
  obtain ⟨stop, hstop⟩ : ∃ stop, (perform words h).1 = .error stop := by
    cases hran : (perform words h).1 with
    | error stop => exact ⟨stop, rfl⟩
    | ok u =>
        refine absurd ?_ hfails
        rw [start_eq, hran]
        rfl
  have hiff := perform_keeps_iff hgroup hstop
  refine ⟨hend.congr_right.trans hiff, ?_⟩
  intro hleaves
  obtain ⟨o, c, c', api, h', hc, hdefault, hapi, hchanged⟩ := hleaves
  have hloaded : h.SameSettings h' := by
    have := (Undisturbing.loadApi words).keeps h
    rwa [hapi] at this
  rw [perform_of_command hc hapi] at hstop hend
  have hsame := (ConfigCommand.sameSettings_withoutDefault hdefault hstop).trans hend
  obtain ⟨bytes, hputs⟩ := ConfigCommand.exists_puts_withoutDefault (o.console h') hdefault
  rcases hputs h' with ⟨-, -, hkept⟩ | ⟨target, -, hgains⟩
  · exact absurd hkept hchanged
  · refine ⟨target, bytes, (hgains.trans_sameSettings hsame).of_sameSettings hloaded, fun hheld => ?_⟩
    refine hchanged (hgains.sameSettings_iff.2 ?_)
    rw [hloaded target hgains.target_settings, hheld]

/-- A host where the file of the configuration is not finished. -/
def unfinishedHost : Host where
  files := ⟨[(["home"], .directory), (["home", ".config"], .directory), (["home", ".config", "azrest"], .directory),
    (["home", ".config", "azrest", "config.json"], .file "\x7b".toUTF8)]⟩
  env := [("HOME", "/home")]

/-- A new profile that is to be the usual one, where the configuration cannot be changed. -/
theorem start_keeps_iff_unfinished :
    let words := ["config", "add-profile", "p", "--default"]
    NamesConfig words ∧ ¬ Succeeds (start words unfinishedHost).1 ∧
      (unfinishedHost.SameSettings (start words unfinishedHost).2 ↔ ¬ LeavesProfile words unfinishedHost) := by
  have hgroup : NamesConfig ["config", "add-profile", "p", "--default"] := by decide +kernel
  have hfails : ¬ Succeeds (start ["config", "add-profile", "p", "--default"] unfinishedHost).1 := by
    decide +kernel
  exact ⟨hgroup, hfails, (start_keeps_iff hgroup hfails).1⟩

/-- A command line that does not succeed may leave a profile behind. -/
theorem exists_start_not_keeps :
    ∃ (words : List String) (h : Host), NamesConfig words ∧ ¬ Succeeds (start words h).1 ∧
      ¬ h.SameSettings (start words h).2 := by
  refine ⟨["config", "add-profile", "p", "--default"], unfinishedHost, by decide +kernel, by decide +kernel, ?_⟩
  intro hsame
  let spot : Spot := ["home", ".config", "azrest", "profiles", "p.json"]
  have hspot : spot.HasExtension Profile.extension := ⟨["home", ".config", "azrest", "profiles"], "p", rfl⟩
  have hnone : unfinishedHost.files.fileAt? spot = none := by decide +kernel
  have hsome : ((start ["config", "add-profile", "p", "--default"] unfinishedHost).2.files.fileAt? spot).isSome =
      true := by
    decide +kernel
  rw [hsame spot hspot, hnone] at hsome
  cases hsome

end Program

end Restline
