import Restline.Proofs.UndisturbedSettings

/-!
Settings that an action keeps as they are. The files of settings are told from other files by the end of their
names. Nearly all that the program does to a host changes none of them: a log is written, and all else disturbs no
file. What changes them is the replacing of one file by another text.

* `Host.SameSettings` : two hosts have the same files of settings.
* `Host.Gains` : one file of settings has other bytes.
* `Keeps`, `KeepsOnFailure`, `Puts` : what an action does to settings, always or when it fails.
* `Keeps.bind`, `KeepsOnFailure.bind`, `Puts.bind` : **one action after another**.
* `Undisturbing.keeps`, `Keeps.conclude` : all that looks for settings or tells of a failure keeps them.
* `Puts.replaceText` : **a file of settings gets another text**.
-/

set_option autoImplicit false

namespace Restline

/-! ### Hosts with the same settings -/

/-- Every file of settings is as before: that of the configuration, those of profiles, and any other whose name
has their end. -/
def Host.SameSettings (h h' : Host) : Prop :=
  ∀ spot : Spot, spot.HasExtension Profile.extension → h'.files.fileAt? spot = h.files.fileAt? spot

namespace Host.SameSettings

variable {h h' h'' : Host}

theorem refl (h : Host) : h.SameSettings h := fun _ _ => rfl

theorem trans (hfirst : h.SameSettings h') (hthen : h'.SameSettings h'') : h.SameSettings h'' :=
  fun spot hspot => (hthen spot hspot).trans (hfirst spot hspot)

/-- After what changes no settings, settings are the same as before exactly if they were before that. -/
theorem congr_right (hthen : h'.SameSettings h'') : h.SameSettings h'' ↔ h.SameSettings h' :=
  ⟨fun hall spot hspot => (hthen spot hspot).symm.trans (hall spot hspot), fun hfirst => hfirst.trans hthen⟩

/-- The same before and after what changes no settings at first. -/
theorem congr_left (hfirst : h.SameSettings h') : h.SameSettings h'' ↔ h'.SameSettings h'' :=
  ⟨fun hall spot hspot => (hall spot hspot).trans (hfirst spot hspot).symm, fun hthen => hfirst.trans hthen⟩

end Host.SameSettings

/-- One file of settings has these bytes now, and all others are as before. -/
structure Host.Gains (h h' : Host) (target : Spot) (bytes : ByteArray) : Prop where
  target_settings : target.HasExtension Profile.extension
  file_eq : ∀ spot : Spot, spot.HasExtension Profile.extension →
    h'.files.fileAt? spot = if spot = target then some bytes else h.files.fileAt? spot

/-- Settings are as before exactly if the file had the bytes. -/
theorem Host.Gains.sameSettings_iff {h h' : Host} {target : Spot} {bytes : ByteArray}
    (hgains : h.Gains h' target bytes) : h.SameSettings h' ↔ h.files.fileAt? target = some bytes := by
  constructor
  · intro hsame
    rw [← hsame target hgains.target_settings, hgains.file_eq target hgains.target_settings, if_pos rfl]
  · intro hheld spot hspot
    rw [hgains.file_eq spot hspot]
    split
    · rename_i heq
      rw [heq, hheld]
    · rfl

/-- What keeps settings before a file gains bytes. -/
theorem Host.Gains.of_sameSettings {h h' h'' : Host} {target : Spot} {bytes : ByteArray}
    (hfirst : h.SameSettings h') (hgains : h'.Gains h'' target bytes) : h.Gains h'' target bytes :=
  ⟨hgains.target_settings, fun spot hspot => by rw [hgains.file_eq spot hspot, hfirst spot hspot]⟩

/-- What keeps settings after a file gained bytes. -/
theorem Host.Gains.trans_sameSettings {h h' h'' : Host} {target : Spot} {bytes : ByteArray}
    (hgains : h.Gains h' target bytes) (hthen : h'.SameSettings h'') : h.Gains h'' target bytes :=
  ⟨hgains.target_settings, fun spot hspot => by rw [hthen spot hspot, hgains.file_eq spot hspot]⟩

/-! ### Actions that keep settings -/

section Keeping

variable {ε α β : Type}

/-- The action changes no settings. -/
def Keeps (x : ExceptT ε (StateM Host) α) : Prop := ∀ h : Host, h.SameSettings (x h).2

/-- The action changes no settings when it fails. -/
def KeepsOnFailure (x : ExceptT ε (StateM Host) α) : Prop :=
  ∀ (h : Host) (e : ε), (x h).1 = .error e → h.SameSettings (x h).2

/-- The action puts bytes into one file of settings, or fails and changes no settings. -/
def Puts (x : ExceptT ε (StateM Host) Unit) (bytes : ByteArray) : Prop :=
  ∀ h : Host, (∃ e, (x h).1 = .error e ∧ h.SameSettings (x h).2) ∨
    ∃ target, (x h).1 = .ok () ∧ h.Gains (x h).2 target bytes

/-- The action does not fail. -/
def Completes (x : ExceptT ε (StateM Host) α) : Prop := ∀ h : Host, ∃ a, (x h).1 = .ok a

theorem Keeps.pure (a : α) : Keeps (pure a : ExceptT ε (StateM Host) α) := fun h => .refl h

theorem Keeps.throw (e : ε) : Keeps (throw e : ExceptT ε (StateM Host) α) := fun h => .refl h

theorem Keeps.get : Keeps (get : ExceptT ε (StateM Host) Host) := fun h => .refl h

theorem Keeps.onFailure {x : ExceptT ε (StateM Host) α} (hx : Keeps x) : KeepsOnFailure x :=
  fun h _ _ => hx h

theorem Keeps.bind {x : ExceptT ε (StateM Host) α} {f : α → ExceptT ε (StateM Host) β} (hx : Keeps x)
    (hf : ∀ a, Keeps (f a)) : Keeps (x >>= f) :=
  relates_bind .trans hx hf

/-- A first part that keeps settings, and then one that keeps them when it fails. -/
theorem KeepsOnFailure.bind {x : ExceptT ε (StateM Host) α} {f : α → ExceptT ε (StateM Host) β} (hx : Keeps x)
    (hf : ∀ a, KeepsOnFailure (f a)) : KeepsOnFailure (x >>= f) := by
  intro h e hfails
  rcases apply_bind_cases x f h with ⟨a, -, hthen⟩ | ⟨e', -, hends⟩
  · rw [hthen] at hfails ⊢
    exact (hx h).trans (hf a _ e hfails)
  · rw [hends]
    exact hx h

/-- A last change may be followed by what does not fail. -/
theorem KeepsOnFailure.bind_completes {x : ExceptT ε (StateM Host) α} {f : α → ExceptT ε (StateM Host) β}
    (hx : KeepsOnFailure x) (hf : ∀ a, Completes (f a)) : KeepsOnFailure (x >>= f) := by
  intro h e hfails
  rcases apply_bind_cases x f h with ⟨a, -, hthen⟩ | ⟨e', hfirst, hends⟩
  · obtain ⟨b, hb⟩ := hf a (x h).2
    rw [hthen] at hfails
    cases hb.symm.trans hfails
  · rw [hends]
    exact hx h e' hfirst

theorem Puts.onFailure {x : ExceptT ε (StateM Host) Unit} {bytes : ByteArray} (hx : Puts x bytes) :
    KeepsOnFailure x := by
  intro h e hfails
  rcases hx h with ⟨-, -, hsame⟩ | ⟨target, hdone, -⟩
  · exact hsame
  · cases hdone.symm.trans hfails

theorem Puts.bind {x : ExceptT ε (StateM Host) α} {f : α → ExceptT ε (StateM Host) Unit} {bytes : ByteArray}
    (hx : Keeps x) (hf : ∀ a, Puts (f a) bytes) : Puts (x >>= f) bytes := by
  intro h
  rcases apply_bind_cases x f h with ⟨a, -, hthen⟩ | ⟨e, -, hends⟩
  · rw [hthen]
    rcases hf a (x h).2 with ⟨e, hfails, hsame⟩ | ⟨target, hdone, hgains⟩
    · exact .inl ⟨e, hfails, (hx h).trans hsame⟩
    · exact .inr ⟨target, hdone, hgains.of_sameSettings (hx h)⟩
  · rw [hends]
    exact .inl ⟨e, rfl, hx h⟩

/-- What follows may keep settings and not fail. -/
theorem Puts.bind_completes {x y : ExceptT ε (StateM Host) Unit} {bytes : ByteArray} (hx : Puts x bytes)
    (hkeeps : Keeps y) (hcompletes : Completes y) : Puts (x >>= fun _ => y) bytes := by
  intro h
  rcases apply_bind_cases x (fun _ => y) h with ⟨u, hfirst, hthen⟩ | ⟨e, hfirst, hends⟩
  · rw [hthen]
    rcases hx h with ⟨e, hfails, -⟩ | ⟨target, -, hgains⟩
    · cases hfirst.symm.trans hfails
    · obtain ⟨v, hv⟩ := hcompletes (x h).2
      exact .inr ⟨target, hv, hgains.trans_sameSettings (hkeeps _)⟩
  · rw [hends]
    exact .inl ⟨e, rfl, hx.onFailure h e hfirst⟩

end Keeping

/-! ### Logs -/

/-- What leaves settings undisturbed keeps them. -/
theorem Undisturbing.keeps {ε α : Type} {x : ExceptT ε (StateM Host) α} (hx : Undisturbing x) : Keeps x :=
  fun h spot _ => (hx h).files spot

namespace Keeps

/-- The end of the names of logs. -/
theorem isExtension_log : Path.IsExtension ".log" := ⟨by decide, by decide⟩

/-- A log is no file of settings. -/
theorem writeText_log (p : Path) (name text : String) : Keeps (Act.writeText (p.join (name ++ ".log")) text) := by
  intro h spot hspot
  have hran := Act.exec_writeText (p.join (name ++ ".log")) text h
  rw [Act.exec] at hran
  rw [hran]
  cases hwrite : h.files.write h.workDir (p.join (name ++ ".log")) text.toUTF8 with
  | error f => rfl
  | ok files =>
      obtain ⟨target, hway, hfiles⟩ := Tree.write_eq_ok hwrite
      have hlog := Tree.hasExtension_of_follow isExtension_log hway
      have hne : spot ≠ target := hspot.ne hlog rfl rfl (by decide)
      rw [hfiles, if_neg hne]

theorem writeLog : Keeps Program.writeLog := by
  rw [Program.writeLog]
  refine Undisturbing.dataDirectory.keeps.bind fun data => ?_
  refine (Undisturbing.makeDirs _).keeps.bind fun _ => ?_
  refine Keeps.get.bind fun h => ?_
  exact (writeText_log _ _ _).bind fun _ => .pure _

theorem conclude (stopped : Except Stop Unit) : Keeps (Program.conclude stopped) := by
  cases stopped with
  | ok _ => exact .pure _
  | error stop =>
      cases stop with
      | fault f =>
          change Keeps (Program.tell f)
          rw [Program.tell]
          dsimp only
          split
          · refine writeLog.bind fun log => ?_
            exact (Undisturbing.report _).keeps.bind fun _ => .pure _
          · exact (Undisturbing.report _).keeps.bind fun _ => .pure _
      | exit status => exact .pure _
      | refused f => exact .pure _
      | aborted => exact .pure _
      | help path => exact (Undisturbing.print "").keeps.bind fun _ => .pure _

end Keeps

/-! ### Files that are replaced -/

/-- **Putting a text into a file of settings** changes that file alone, or fails and changes none. -/
theorem Puts.replaceText (dir : Path) (name text : String) :
    Puts (Act.replaceText (dir.join (name ++ Profile.extension)) text) text.toUTF8 := by
  intro h
  rcases exec_replaceText_cases dir name text h with ⟨f, k, hfails, hsame⟩ | ⟨k, target, hsame, hway, hother, hdone⟩
  · rw [Act.exec] at hfails
    rw [hfails]
    exact .inl ⟨f, rfl, fun spot _ => hsame.files spot⟩
  · rw [Act.exec] at hdone
    rw [hdone]
    have htarget := Tree.hasExtension_of_follow isExtension_settings hway
    refine .inr ⟨target, rfl, htarget, fun spot _ => ?_⟩
    rw [Tree.fileAt?_put_file _ (Tree.ne_nil_of_entry?_ne hother), hsame.files]

end Restline
