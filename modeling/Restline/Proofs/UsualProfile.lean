import Restline.Proofs.AddedProfile
import Restline.Proofs.SettledSettings

/-!
The usual profile. The commands on the configuration decide which profile is the usual one: adding a profile and
choosing one look whether it is there, but setting a value does not. So whatever commands are run on an empty
directory, the usual profile is there, unless the last command that decided set a name that is not.

* `Config.defaultProfile_of_set` : which value decides.
* `CarriesOut.preserves` : what a run that does one thing preserves.
* `ConfigCommand.usual?`, `ConfigCommand.settles_run` : **what one command decides**.
* `ConfigCommand.Stage`, `ConfigCommand.Stage.IsSettled.after` : **one command after another**.
* `ConfigCommand.hasUsual_iff` : **when the usual profile is there**.
-/

set_option autoImplicit false

namespace Restline

open Act

/-! ### Setting the usual profile -/

namespace Config

/-- The usual profile is the text among the members. -/
theorem defaultProfile_of_ofJson {ms : Keyed Json} {c : Config} (h : ofJson (.obj ms) = .valid c) :
    c.defaultProfile = (ms.get? "default_profile").bind Json.text? := by
  obtain ⟨withPath, format, hpath, -, rfl⟩ := Checked.and_eq_valid_iff.1 h
  obtain ⟨withSelect, path, hselect, -, rfl⟩ := Checked.and_eq_valid_iff.1 hpath
  obtain ⟨make, select, hmake, -, rfl⟩ := Checked.and_eq_valid_iff.1 hselect
  obtain ⟨name, hname, rfl⟩ := Checked.map_eq_valid_iff.1 hmake
  have hvalue : (Field.plain "default_profile").value? ms = ms.get? "default_profile" := by
    cases hget : ms.get? "default_profile" <;> simp [Field.value?, Field.given?, Field.plain, Keyed.has, hget]
  change name = _
  rw [optionalField, hvalue] at hname
  cases hget : ms.get? "default_profile" with
  | none =>
      rw [hget] at hname
      cases hname
      rfl
  | some j =>
      rw [hget] at hname
      cases j with
      | str s =>
          cases hname
          rfl
      | null =>
          cases hname
          rfl
      | _ => cases hname

/-- A text or nothing among the members is replaced by its own name alone. -/
theorem get?_of_setMember {ms ms' : Keyed Json} {text name : String} {value : Json} {names : List String}
    {s : Option String} (hname : ms.get? name = some (Json.ofText? s))
    (hset : setMember ms text names = .ok (ms', value)) :
    ms'.get? name = if names = [name] then some (.str text) else ms.get? name := by
  match names with
  | [] => cases hset
  | [name'] =>
      rw [setMember] at hset
      cases hget : ms.get? name' with
      | none =>
          rw [hget] at hset
          cases hset
      | some current =>
          rw [hget] at hset
          obtain ⟨rfl, -⟩ := Prod.mk.inj (Except.ok.inj hset)
          rw [Keyed.get?_put]
          by_cases heq : name' = name
          · obtain rfl := Option.some_inj.1 (hget.symm.trans (heq ▸ hname))
            cases s <;> simp [heq, Json.ofText?, coerce]
          · simp [heq]
  | name' :: second :: rest =>
      rw [setMember] at hset
      · cases hget : ms.get? name' with
        | none =>
            rw [hget] at hset
            cases hset
        | some current =>
            rw [hget] at hset
            cases current with
            | obj inner =>
                obtain ⟨⟨inner', value'⟩, -, hset⟩ := Except.bind_eq_ok_iff.1 hset
                obtain ⟨rfl, -⟩ := Prod.mk.inj (Except.ok.inj hset)
                have hne : name' ≠ name := by
                  rintro rfl
                  have hobj := Option.some_inj.1 (hget.symm.trans hname)
                  cases s <;> cases hobj
                simp [Keyed.get?_put, hne]
            | _ => cases hset
      · simp

/-- **The one key that decides** which profile is the usual one. -/
theorem defaultProfile_of_set {c c' : Config} {key text : String} {value : Json}
    (hset : c.set key text = .ok (c', value)) :
    c'.defaultProfile = if key = "default_profile" then some text else c.defaultProfile := by
  obtain ⟨⟨ms, value'⟩, hmember, hread⟩ := Except.bind_eq_ok_iff.1 hset
  dsimp only at hread
  cases hc : ofJson (.obj ms) with
  | flawed is =>
      rw [hc] at hread
      cases hread
  | valid c'' =>
      rw [hc] at hread
      obtain ⟨rfl, -⟩ := Prod.mk.inj (Except.ok.inj hread)
      have hkey : Text.segments '.' key = ["default_profile"] ↔ key = "default_profile" := by
        constructor
        · intro hsegments
          have hcount := Text.length_segments '.' key
          rw [hsegments] at hcount
          have hdot : '.' ∉ key.toList := List.count_eq_zero.1 (by simpa using hcount.symm)
          simpa [Text.segments_of_notMem hdot] using hsegments
        · rintro rfl
          exact Text.segments_of_notMem (by decide)
      have hget : c.members.get? "default_profile" = some (Json.ofText? c.defaultProfile) := rfl
      rw [defaultProfile_of_ofJson hc, get?_of_setMember hget hmember, hget]
      by_cases hdecides : key = "default_profile"
      · rw [if_pos (hkey.2 hdecides), if_pos hdecides]
        rfl
      · rw [if_neg fun hsegments => hdecides (hkey.1 hsegments), if_neg hdecides]
        cases c.defaultProfile <;> rfl

end Config

/-! ### Runs that do one thing -/

/-- **What a run that does one thing preserves**: when it fails, all that is undisturbed, and else what comes of the
thing. -/
theorem CarriesOut.preserves {x : Run Unit} {y : Act Unit} (hx : CarriesOut x y) {P Q : Host → Prop}
    (hP : ∀ k k', k.Undisturbed k' → P k → P k') (hQ : ∀ k k', k.Undisturbed k' → Q k → Q k')
    (hy : ∀ k k', exec y k = (.ok (), k') → P k → Q k') {h : Host} (hh : P h) :
    (∃ stop, (x h).1 = .error stop ∧ P (x h).2) ∨ (x h).1 = .ok () ∧ Q (x h).2 := by
  rcases hx h with ⟨stop, hstop, hsame⟩ | ⟨k, k', hbefore, hdone, hok, hafter⟩
  · exact .inl ⟨stop, hstop, hP _ _ hsame hh⟩
  · exact .inr ⟨hok, hQ _ _ hafter (hy k k' hdone (hP _ _ hbefore hh))⟩

theorem CarriesOut.throw (stop : Stop) (y : Act Unit) : CarriesOut (throw stop) y :=
  fun h => .inl ⟨stop, rfl, .refl h⟩

/-- Keeping a configuration, and then saying so. -/
theorem CarriesOut.config (con : Console) (c : Config) (text : String) :
    CarriesOut (Run.act c.save >>= fun _ => Run.act (con.info text)) c.save :=
  .act_bind (fun _ _ _ => c.stores_save.undisturbed_of_error) (Undisturbing.info con text).act
    (Completes.info con text).act

/-! ### What a command leaves -/

/-- A settled host that has grown from another one. -/
structure Host.Becomes (h : Host) (dir : Path) (spot : Spot) (usual : Option String) (k : Host) : Prop where
  grows : h.Grows k
  settled : k.Settled dir spot usual

namespace Host.Becomes

variable {h k k' : Host} {dir : Path} {spot : Spot} {usual : Option String} {c : Config}

theorem of_undisturbed (hb : h.Becomes dir spot usual k) (hsame : k.Undisturbed k') :
    h.Becomes dir spot usual k' :=
  ⟨hb.grows.trans hsame.grows, hb.settled.of_undisturbed hsame⟩

theorem of_grows (hb : k.Becomes dir spot usual k') (hgrows : h.Grows k) : h.Becomes dir spot usual k' :=
  ⟨hgrows.trans hb.grows, hb.settled⟩

/-- **What keeping a configuration leaves.** -/
theorem of_config (hb : h.Becomes dir spot usual k) (hsave : exec c.save k = (.ok (), k')) :
    h.Becomes dir spot c.defaultProfile k' ∧ dir.Fits Config.fileName := by
  obtain ⟨k₁, target, hsame, hputs⟩ := c.stores_save.exists_putsInto hsave
  have hb₁ := hb.of_undisturbed hsame
  refine ⟨⟨hb₁.grows.trans hputs.grows, hb₁.settled.of_config hputs⟩, ?_⟩
  obtain ⟨dir', hdir', hway⟩ := hputs.dir
  obtain rfl := Except.ok.inj (Prod.mk.inj (hb₁.settled.had.symm.trans hdir')).1
  exact ((Config.follow_file_eq_ok_iff hb₁.settled.stands).1 hway).2

/-- **What keeping a profile leaves.** -/
theorem of_profile {p : Profile} (hb : h.Becomes dir spot usual k) (hne : p.name ≠ "") (hslash : '/' ∉ p.name.toList)
    (hsave : exec p.save k = (.ok (), k')) : h.Becomes dir spot usual k' ∧ k'.HasProfile p.name := by
  obtain ⟨k₁, target, hsame, hputs⟩ := p.stores_save.exists_putsInto hsave
  have hb₁ := hb.of_undisturbed hsame
  obtain ⟨hsettled, hprofile⟩ := hb₁.settled.of_profile hne hslash hputs
  exact ⟨⟨hb₁.grows.trans hputs.grows, hsettled⟩, hprofile⟩

end Host.Becomes

namespace ConfigCommand

/-- What a command decides about the usual profile, if it does. -/
def usual? : ConfigCommand → Option (Option String)
  | .set key value => if key = "default_profile" then some (some value) else none
  | .reset _ => some none
  | .addProfile name _ _ _ true _ => some (some name)
  | .use name => some (some name)
  | _ => none

/-- A profile that is added has a name that is not empty and no part of a path. -/
def AddsPlain : ConfigCommand → Prop
  | .addProfile name _ _ _ _ _ => name ≠ "" ∧ '/' ∉ name.toList
  | _ => True

/-- A command decided which profile is the usual one. It is there then, unless its name was set as a value. -/
def Decides (h : Host) (dir : Path) (spot : Spot) (c : ConfigCommand) (k : Host) : Prop :=
  dir.Fits Config.fileName ∧ ∃ u, c.usual? = some u ∧ h.Becomes dir spot u k ∧
    ∀ name, u = some name → c = .set "default_profile" name ∨ k.HasProfile name

/-- What a command comes to on a settled host: the usual profile stays the same, or the command decided. -/
def Settles (h : Host) (dir : Path) (spot : Spot) (usual : Option String) (c : ConfigCommand)
    (r : Except Stop Unit × Host) : Prop :=
  (h.Becomes dir spot usual r.2 ∧ (r.1 = .ok () → c.usual? = none)) ∨ r.1 = .ok () ∧ Decides h dir spot c r.2

variable {h k k' : Host} {dir : Path} {spot : Spot} {usual : Option String} {c : ConfigCommand}

theorem Decides.of_undisturbed (hd : Decides h dir spot c k) (hsame : k.Undisturbed k') : Decides h dir spot c k' := by
  obtain ⟨hfits, u, hu, hb, hname⟩ := hd
  exact ⟨hfits, u, hu, hb.of_undisturbed hsame, fun name heq =>
    (hname name heq).imp_right fun hprofile => hprofile.of_grows hsame.grows⟩

namespace Settles

theorem of_error {r : Except Stop Unit × Host} {stop : Stop} (hb : h.Becomes dir spot usual r.2)
    (hstop : r.1 = .error stop) : Settles h dir spot usual c r :=
  .inl ⟨hb, fun hok => by cases hok.symm.trans hstop⟩

/-- What a command comes to counts from an earlier host as well. -/
theorem of_grows {r : Except Stop Unit × Host} (hsettles : Settles k dir spot usual c r) (hgrows : h.Grows k) :
    Settles h dir spot usual c r := by
  rcases hsettles with ⟨hb, hc⟩ | ⟨hok, hfits, u, hu, hb, hname⟩
  · exact .inl ⟨hb.of_grows hgrows, hc⟩
  · exact .inr ⟨hok, hfits, u, hu, hb.of_grows hgrows, hname⟩

/-- A command that tells an error decides nothing. -/
theorem of_fail (con : Console) (message : String) (status : Nat) (hb : h.Becomes dir spot usual k) :
    Settles h dir spot usual c (Run.fail con message status k) :=
  of_error (hb.of_undisturbed (Undisturbing.fail con message status k)) rfl

/-- A command that disturbs nothing decides nothing. -/
theorem of_undisturbing {x : Run Unit} (hx : Undisturbing x) (hb : h.Becomes dir spot usual k)
    (hc : c.usual? = none) : Settles h dir spot usual c (x k) :=
  .inl ⟨hb.of_undisturbed (hx k), fun _ => hc⟩

/-- A command that does one thing keeps the usual profile if that does. -/
theorem of_keeping {x : Run Unit} {y : Act Unit} (hx : CarriesOut x y) (hb : h.Becomes dir spot usual k)
    (hy : ∀ k k', exec y k = (.ok (), k') → h.Becomes dir spot usual k → h.Becomes dir spot usual k')
    (hc : c.usual? = none) : Settles h dir spot usual c (x k) := by
  have hP : ∀ k k', k.Undisturbed k' → h.Becomes dir spot usual k → h.Becomes dir spot usual k' :=
    fun _ _ hsame hb => hb.of_undisturbed hsame
  rcases hx.preserves hP hP hy hb with ⟨stop, hstop, hb'⟩ | ⟨-, hb'⟩
  · exact of_error hb' hstop
  · exact .inl ⟨hb', fun _ => hc⟩

/-- A command that does one thing decides if that does. -/
theorem of_deciding {x : Run Unit} {y : Act Unit} (hx : CarriesOut x y) (hb : h.Becomes dir spot usual k)
    (hy : ∀ k k', exec y k = (.ok (), k') → h.Becomes dir spot usual k → Decides h dir spot c k') :
    Settles h dir spot usual c (x k) := by
  rcases hx.preserves (fun _ _ hsame hb => hb.of_undisturbed hsame) (fun _ _ hsame hd => hd.of_undisturbed hsame) hy hb
    with ⟨stop, hstop, hb'⟩ | hdone
  · exact of_error hb' hstop
  · exact .inr hdone

end Settles

/-! ### The commands -/

/-- Setting a value decides if the key is that of the usual profile. -/
theorem settles_runSet (con : Console) (key value : String) (hb : h.Becomes dir spot usual k) :
    Settles h dir spot usual (.set key value) (runSet con key value k) := by
  have hload := Undisturbing.configLoad k
  have hb' : h.Becomes dir spot usual (Run.act Config.load k).2 := hb.of_undisturbed hload
  rw [runSet]
  rcases apply_bind_cases (Run.act Config.load) _ k with ⟨c, hc, hthen⟩ | ⟨stop, -, hends⟩
  · rw [hthen]
    have husual : c.defaultProfile = usual :=
      hb.settled.defaultProfile_of_load (Prod.ext (Except.mapError_eq_ok_iff.1 hc) rfl)
    cases hset : c.set key value with
    | error f => exact .of_fail con _ 2 hb'
    | ok set =>
        obtain ⟨c', value'⟩ := set
        have hdefault := Config.defaultProfile_of_set hset
        have hcarries := CarriesOut.config con c' ("Set " ++ key ++ " = " ++ value'.display)
        by_cases hkey : key = "default_profile"
        · rw [if_pos hkey] at hdefault
          refine .of_deciding hcarries hb' fun k₁ k₂ hsave hb₁ => ?_
          obtain ⟨hb₂, hfits⟩ := hb₁.of_config hsave
          refine ⟨hfits, c'.defaultProfile, by simp [usual?, hkey, hdefault], hb₂, fun name hname => .inl ?_⟩
          rw [hkey, Option.some_inj.1 (hdefault.symm.trans hname)]
        · -- the profile that was read is written again
          rw [if_neg hkey, husual] at hdefault
          refine .of_keeping hcarries hb' (fun k₁ k₂ hsave hb₁ => ?_) (by simp [usual?, hkey])
          exact hdefault ▸ (hb₁.of_config hsave).1
  · rw [hends]
    exact .of_error hb' rfl

/-- Resetting decides that there is no usual profile. -/
theorem settles_runReset (con : Console) (force : Bool) (hb : h.Becomes dir spot usual k) :
    Settles h dir spot usual (.reset force) (runReset con force k) := by
  have hanswered : ∀ confirmed : Bool, CarriesOut (if confirmed = true then do
        Run.act (Config.save {})
        Run.act (con.success "Configuration reset to defaults.")
      else do
        Run.act (con.info "Cancelled.")
        throw (.exit 0) : Run Unit) (Config.save {}) := by
    intro confirmed
    split
    · exact .config con {} _
    · exact .bind (Undisturbing.info con _).act fun _ => .throw _ _
  have hcarries : CarriesOut (runReset con force) (Config.save {}) := by
    rw [runReset]
    refine .bind Undisturbing.get fun h => ?_
    dsimp only
    split
    · exact .bind (.pure true) hanswered
    · exact .bind (undisturbing_ask _) hanswered
  refine .of_deciding hcarries hb fun k₁ k₂ hsave hb₁ => ?_
  obtain ⟨hb₂, hfits⟩ := hb₁.of_config hsave
  exact ⟨hfits, none, rfl, hb₂, fun name hname => by cases hname⟩

theorem undisturbed_of_makeUsual_error {name : String} {f : Fault} (hfails : exec (makeUsual name) h = (.error f, k)) :
    h.Undisturbed k := by
  cases hx : exec Config.load h with
  | mk r k₁ =>
      have hload := Undisturbing.configLoad.exec hx
      cases r with
      | error e =>
          rw [makeUsual, exec_bind_error hx] at hfails
          exact (Prod.mk.inj hfails).2 ▸ hload
      | ok c =>
          rw [makeUsual, exec_bind_ok hx] at hfails
          exact hload.trans ((Config.stores_save _).undisturbed_of_error hfails)

/-- Making a profile that is there the usual one decides. -/
theorem settles_makeUsual (con : Console) {name : String} (text : String) (hb : h.Becomes dir spot usual k)
    (hprofile : k.HasProfile name) (hc : c.usual? = some (some name)) :
    Settles h dir spot usual c ((Run.act (makeUsual name) >>= fun _ => Run.act (con.info text)) k) := by
  have hcarries : CarriesOut (Run.act (makeUsual name) >>= fun _ => Run.act (con.info text)) (makeUsual name) :=
    .act_bind (fun _ _ _ => undisturbed_of_makeUsual_error) (Undisturbing.info con text).act
      (Completes.info con text).act
  -- the profile is there on `k` and need not be on `h`, so growth is counted from `k` first
  have hstart : k.Becomes dir spot usual k := ⟨.refl k, hb.settled⟩
  refine Settles.of_grows (.of_deciding hcarries hstart fun k₁ k₂ hdone hb₁ => ?_) hb.grows
  obtain ⟨c₀, k', hload, hsave⟩ := exec_bind_eq_ok_iff.1 hdone
  have hsame := Undisturbing.configLoad.exec hload
  obtain ⟨hb₂, hfits⟩ := (hb₁.of_undisturbed hsame).of_config hsave
  refine ⟨hfits, some name, hc, hb₂, fun name' hname => .inr ?_⟩
  obtain rfl := Option.some_inj.1 hname
  exact hprofile.of_grows hb₂.grows

/-- Choosing a profile decides, if that is there. -/
theorem settles_runUse (con : Console) (name : String) (hb : h.Becomes dir spot usual k) :
    Settles h dir spot usual (.use name) (runUse con name k) := by
  have hb' : h.Becomes dir spot usual (Run.act (Profile.isSaved name) k).2 :=
    hb.of_undisturbed (Undisturbing.isSaved name k)
  rw [runUse]
  rcases apply_bind_cases (Run.act (Profile.isSaved name)) _ k with ⟨there, hthere, hthen⟩ | ⟨stop, -, hends⟩
  · rw [hthen]
    have hsaved : exec (Profile.isSaved name) k = (.ok there, (Run.act (Profile.isSaved name) k).2) :=
      Prod.ext (Except.mapError_eq_ok_iff.1 hthere) rfl
    cases there with
    | false => exact .of_error (hb'.of_undisturbed (Undisturbing.fail (α := Unit) con _ 2 _)) rfl
    | true => exact settles_makeUsual con _ hb' (Profile.hasProfile_of_isSaved hsaved) rfl
  · rw [hends]
    exact .of_error hb' rfl

/-- Adding a profile decides if that is to be the usual one. -/
theorem settles_runAddProfile (con : Console) {p : Profile} (makeDefault force : Bool) (hne : p.name ≠ "")
    (hslash : '/' ∉ p.name.toList) (hb : h.Becomes dir spot usual k)
    (hc : c.usual? = if makeDefault then some (some p.name) else none) :
    Settles h dir spot usual c (runAddProfile con p makeDefault force k) := by
  have hcarries := carriesOut_runAddProfile con p force
  have hcases : (∃ stop, (runAddProfile con p false force k).1 = .error stop ∧
        h.Becomes dir spot usual (runAddProfile con p false force k).2) ∨
      (runAddProfile con p false force k).1 = .ok () ∧
        h.Becomes dir spot usual (runAddProfile con p false force k).2 ∧
          (runAddProfile con p false force k).2.HasProfile p.name :=
    hcarries.preserves (Q := fun k => h.Becomes dir spot usual k ∧ k.HasProfile p.name)
      (fun _ _ hsame hb => hb.of_undisturbed hsame)
      (fun _ _ hsame hq => ⟨hq.1.of_undisturbed hsame, hq.2.of_grows hsame.grows⟩)
      (fun _ _ hsave hb => hb.of_profile hne hslash hsave) hb
  cases makeDefault with
  | false =>
      rcases hcases with ⟨stop, hstop, hb'⟩ | ⟨-, hb', -⟩
      · exact .of_error hb' hstop
      · exact .inl ⟨hb', fun _ => hc⟩
  | true =>
      rw [runAddProfile_true]
      rcases apply_bind_cases (runAddProfile con p false force) _ k with ⟨u, hok, hthen⟩ | ⟨stop, hstop, hends⟩
      · rw [hthen]
        rcases hcases with ⟨stop, hstop, -⟩ | ⟨-, hb', hprofile⟩
        · cases hok.symm.trans hstop
        · exact settles_makeUsual con _ hb' hprofile hc
      · rw [hends]
        rcases hcases with ⟨-, -, hb'⟩ | ⟨-, hb', -⟩
        · exact .of_error hb' rfl
        · exact .of_error hb' rfl

/-- **What one command decides.** -/
theorem settles_run (con : Console) (hc : c.AddsPlain) (hb : h.Becomes dir spot usual k) :
    Settles h dir spot usual c (c.run con k) := by
  cases c with
  | display profile => exact .of_undisturbing (undisturbing_runDisplay con profile) hb rfl
  | set key value => exact settles_runSet con key value hb
  | reset force => exact settles_runReset con force hb
  | profiles => exact .of_undisturbing (undisturbing_runProfiles con).act hb rfl
  | addProfile name endpoint metadata source makeDefault force =>
      exact settles_runAddProfile con makeDefault force hc.1 hc.2 hb (by cases makeDefault <;> rfl)
  | use name => exact settles_runUse con name hb

/-! ### One command after another -/

/-- A command with the console it writes to and what it is given to read. -/
structure Turn where
  console : Console := {}
  command : ConfigCommand
  input : String := ""

/-- A host, and the last command that decided about the usual profile. -/
structure Stage where
  host : Host
  decided : Option ConfigCommand := none

/-- The next stage: a command that succeeds decides if it is one that does. -/
def Stage.next (s : Stage) (t : Turn) : Stage :=
  match t.command.run t.console { s.host with input := t.input } with
  | (.ok (), k) => { host := k, decided := if t.command.usual?.isSome then some t.command else s.decided }
  | (.error _, k) => { host := k, decided := s.decided }

/-- The stage after commands, one after another. -/
def Stage.after (s : Stage) (turns : List Turn) : Stage := turns.foldl Stage.next s

/-- The usual profile that a command decided, if one did. -/
def decidedUsual (decided : Option ConfigCommand) : Option String := (decided.bind usual?).join

/-- The host is settled with what was decided: that can be read, and is there unless it was set as a value. -/
structure Stage.IsSettled (s : Stage) (dir : Path) (spot : Spot) : Prop where
  settled : s.host.Settled dir spot (decidedUsual s.decided)
  fits : s.decided.isSome → dir.Fits Config.fileName
  there : ∀ c name, s.decided = some c → c.usual? = some (some name) →
    c = .set "default_profile" name ∨ s.host.HasProfile name

/-- Nothing is lost when the usual profile stays the same. -/
theorem Stage.IsSettled.of_becomes {s : Stage} (hs : s.IsSettled dir spot)
    (hb : s.host.Becomes dir spot (decidedUsual s.decided) k) :
    ({ host := k, decided := s.decided } : Stage).IsSettled dir spot where
  settled := hb.settled
  fits := hs.fits
  there c name hc hname := (hs.there c name hc hname).imp_right fun hprofile => hprofile.of_grows hb.grows

/-- **What one command preserves.** -/
theorem Stage.IsSettled.next {s : Stage} (hs : s.IsSettled dir spot) {t : Turn} (ht : t.command.AddsPlain) :
    (s.next t).IsSettled dir spot := by
  have hgiven : s.host.Undisturbed { s.host with input := t.input } := .of_eq ⟨rfl, rfl, rfl, rfl, rfl⟩ rfl
  have hstart : s.host.Becomes dir spot (decidedUsual s.decided) { s.host with input := t.input } :=
    ⟨hgiven.grows, hs.settled.of_undisturbed hgiven⟩
  have hsettles := settles_run t.console ht hstart
  rw [Stage.next]
  cases hrun : t.command.run t.console { s.host with input := t.input } with
  | mk r k =>
      rw [hrun] at hsettles
      cases r with
      | error stop =>
          rcases hsettles with ⟨hb, -⟩ | ⟨hok, -⟩
          · exact hs.of_becomes hb
          · cases hok
      | ok u =>
          -- a command that succeeds leaves what was decided, or is itself the last that did
          dsimp only
          rcases hsettles with ⟨hb, hnone⟩ | ⟨-, hfits, usual, husual, hb, hthere⟩
          · rw [hnone rfl]
            exact hs.of_becomes hb
          · rw [husual]
            refine ⟨?_, fun _ => hfits, fun c name hc hname => ?_⟩
            · rw [decidedUsual, Option.isSome_some, if_pos rfl, Option.bind_some, husual]
              exact hb.settled
            · obtain rfl : t.command = c := Option.some_inj.1 hc
              exact hthere name (Option.some_inj.1 (husual.symm.trans hname))

/-- **One command after another.** -/
theorem Stage.IsSettled.after (turns : List Turn) :
    ∀ {s : Stage}, s.IsSettled dir spot → (∀ t ∈ turns, t.command.AddsPlain) → (s.after turns).IsSettled dir spot := by
  induction turns with
  | nil => exact fun hs _ => hs
  | cons t turns ih =>
      intro s hs hturns
      exact ih (hs.next (hturns t List.mem_cons_self)) fun t' ht' => hturns t' (List.mem_cons_of_mem _ ht')

/-! ### The usual profile -/

/-- A profile is there under the name of the usual one, if the configuration gives that. -/
def HasUsual (h : Host) : Prop :=
  ∀ c name, (exec Config.load h).1 = .ok c → c.defaultProfile = some name →
    (exec (Profile.isSaved name) h).1 = .ok true

/-- **When the usual profile is there.** After every sequence of commands on an empty directory, a profile is there
under the name that the configuration gives, and no profile is missing where nothing else names one, exactly if the
last command that decided did not set the name of a profile that is not there. -/
theorem hasUsual_iff {h : Host} {dir : Path} {spot : Spot} (hhad : exec Config.directory h = (.ok dir, h))
    (hspot : h.files.follow h.workDir dir = .ok spot)
    (hempty : ∀ rest, rest ≠ [] → h.files.entry? (spot ++ rest) = none) (turns : List Turn)
    (hturns : ∀ t ∈ turns, t.command.AddsPlain) :
    let s := Stage.after { host := h } turns
    (HasUsual s.host ∧ ∀ choice, Config.IsUnnamed choice s.host → ∀ name p,
        (exec (Config.resolve choice) s.host).1 ≠ .error (Profile.notFound name p)) ↔
      ∀ name, s.decided = some (.set "default_profile" name) →
        (exec (Profile.isSaved name) s.host).1 = .ok true := by
  intro s
  have hfirst : ({ host := h } : Stage).IsSettled dir spot :=
    { settled := .of_empty hhad hspot hempty
      fits := fun hsome => by cases hsome
      there := fun _ _ hsome => by cases hsome }
  have hs : s.IsSettled dir spot := hfirst.after turns hturns
  constructor
  · rintro ⟨hall, -⟩ name hdecided
    have husual : decidedUsual s.decided = some name := by rw [hdecided]; rfl
    rcases hs.settled.exec_load_cases with ⟨c, hload, hc, -⟩ | ⟨hfits, -⟩
    · exact hall c name (congrArg Prod.fst hload) (hc.trans husual)
    · -- something was decided, so the configuration was written and can be looked at
      exact absurd (hs.fits (by rw [hdecided]; rfl)) hfits
  · intro hset
    have hthere : ∀ name, decidedUsual s.decided = some name → (exec (Profile.isSaved name) s.host).1 = .ok true := by
      intro name husual
      obtain ⟨c, hc, hname⟩ := Option.bind_eq_some_iff.1 (Option.join_eq_some_iff.1 husual)
      rcases hs.there c name hc hname with rfl | hprofile
      · exact hset name hc
      · rw [Profile.exec_isSaved_of_hasProfile hprofile]
    refine ⟨fun c name hload hname => ?_, fun choice hchoice name p => ?_⟩
    · exact hthere name ((hs.settled.defaultProfile_of_load (Prod.ext hload rfl)).symm.trans hname)
    · exact hs.settled.resolve_ne_notFound hthere hchoice name p

/-- A host that has a directory for the configuration and nothing else. -/
def plainHost : Host := (exec Config.directory Host.bare).2

/-- The directory for the configuration there. -/
def plainDirectory : Path := ⟨"/", ["home", ".config", "azrest"]⟩

theorem exec_directory_plainHost : exec Config.directory plainHost = (.ok plainDirectory, plainHost) := by
  have hhad : exec Config.directory Host.bare = (.ok plainDirectory, plainHost) := Prod.ext (by decide +kernel) rfl
  exact Config.exec_directory_again hhad

theorem follow_plainHost : plainHost.files.follow plainHost.workDir plainDirectory = .ok plainDirectory.names := by
  decide +kernel

theorem entry?_plainHost (rest : Spot) (hrest : rest ≠ []) :
    plainHost.files.entry? (plainDirectory.names ++ rest) = none := by
  have hshort : ∀ e ∈ plainHost.files.entries, e.1.length ≤ 3 := by decide +kernel
  have hlonger : 3 < (plainDirectory.names ++ rest).length := by
    have hpos := List.length_pos_iff.2 hrest
    simp [plainDirectory, hpos]
  exact Tree.entry?_of_lt_length (by simp [plainDirectory]) fun e he => (hshort e he).trans_lt hlonger

/-- A profile is added, another value is set, and the profile is chosen. -/
def chosenTurns : List Turn :=
  [{ command := .addProfile "p" none none none false false }, { command := .set "output.format" "json" },
    { command := .use "p" }]

/-- A profile that was chosen is there. -/
theorem hasUsual_iff_of_chosen :
    (exec Config.directory plainHost = (.ok plainDirectory, plainHost) ∧
      plainHost.files.follow plainHost.workDir plainDirectory = .ok plainDirectory.names ∧
      (∀ rest, rest ≠ [] → plainHost.files.entry? (plainDirectory.names ++ rest) = none) ∧
      ∀ t ∈ chosenTurns, t.command.AddsPlain) ∧
    let s := Stage.after { host := plainHost } chosenTurns
    (HasUsual s.host ∧ ∀ choice, Config.IsUnnamed choice s.host → ∀ name p,
        (exec (Config.resolve choice) s.host).1 ≠ .error (Profile.notFound name p)) ↔
      ∀ name, s.decided = some (.set "default_profile" name) →
        (exec (Profile.isSaved name) s.host).1 = .ok true := by
  have hturns : ∀ t ∈ chosenTurns, t.command.AddsPlain := by
    intro t ht
    simp only [chosenTurns, List.mem_cons, List.not_mem_nil, or_false] at ht
    rcases ht with rfl | rfl | rfl
    · exact ⟨by decide, by decide⟩
    · trivial
    · trivial
  exact ⟨⟨exec_directory_plainHost, follow_plainHost, entry?_plainHost, hturns⟩,
    hasUsual_iff exec_directory_plainHost follow_plainHost entry?_plainHost chosenTurns hturns⟩

/-- A name that was set as a value is not looked for. -/
theorem exists_not_hasUsual :
    ∃ (h : Host) (dir : Path) (spot : Spot) (turns : List Turn),
      (exec Config.directory h = (.ok dir, h) ∧ h.files.follow h.workDir dir = .ok spot ∧
        (∀ rest, rest ≠ [] → h.files.entry? (spot ++ rest) = none) ∧ ∀ t ∈ turns, t.command.AddsPlain) ∧
      ¬ HasUsual (Stage.after { host := h } turns).host := by
  let turns : List Turn := [{ command := .set "default_profile" "ghost" }]
  refine ⟨plainHost, plainDirectory, _, turns, ⟨exec_directory_plainHost, follow_plainHost, entry?_plainHost, ?_⟩,
    fun hall => ?_⟩
  · intro t ht
    obtain rfl := List.mem_singleton.1 ht
    trivial
  · have hload : (exec Config.load (Stage.after { host := plainHost } turns).host).1 =
        .ok { defaultProfile := some "ghost" } := by decide +kernel
    have hmissing : (exec (Profile.isSaved "ghost") (Stage.after { host := plainHost } turns).host).1 = .ok false := by
      decide +kernel
    cases hmissing.symm.trans (hall _ "ghost" hload rfl)

end ConfigCommand

end Restline
