import Restline.Proofs.HeldSettings

/-!
Settings that are kept. What is kept under a name goes into the directory for it, which is had before and after;
when that fails nothing is disturbed.

* `PutsInto`, `Stores` : putting bytes into the file of a name, and an action that does so or fails.
* `Config.stores_save`, `Profile.stores_save` : **what keeping settings comes to**.
* `PutsInto.target_eq_iff` : for which names the file is directly in the directory.
-/

set_option autoImplicit false

namespace Restline

open Act

/-- The host after bytes were put into a file. -/
def Host.withFile (h : Host) (spot : Spot) (bytes : ByteArray) : Host :=
  { h with files := h.files.put spot (.file bytes) }

namespace Host

variable {h : Host} {spot : Spot}

theorem samePlaces_withFile (h : Host) (spot : Spot) (bytes : ByteArray) : h.SamePlaces (h.withFile spot bytes) :=
  ⟨rfl, rfl, rfl, rfl, rfl⟩

theorem keepsDirectories_withFile (hspot : h.files.entry? spot ≠ some .directory) (bytes : ByteArray) :
    h.files.KeepsDirectories (h.withFile spot bytes).files :=
  Tree.keepsDirectories_put hspot _

theorem fileAt?_withFile (hspot : h.files.entry? spot ≠ some .directory) (bytes : ByteArray) (s : Spot) :
    (h.withFile spot bytes).files.fileAt? s = if s = spot then some bytes else h.files.fileAt? s :=
  Tree.fileAt?_put_file h.files (Tree.ne_nil_of_entry?_ne hspot) bytes s

end Host

/-- An action puts bytes into the file of a name in a directory: that is had, and the file is where the path leads
to. -/
structure PutsInto (directory : Act Path) (name : String) (bytes : ByteArray) (k k' : Host) (target : Spot) :
    Prop where
  dir : ∃ dir, exec directory k = (.ok dir, k) ∧
    k.files.follow k.workDir (dir.join (name ++ Profile.extension)) = .ok target
  notDirectory : k.files.entry? target ≠ some .directory
  files : k' = k.withFile target bytes

/-- An action keeps bytes under a name: it fails and disturbs nothing, or the bytes are put there. -/
def Stores (x : Act Unit) (directory : Act Path) (name : String) (bytes : ByteArray) : Prop :=
  ∀ h : Host, (∃ f k, exec x h = (.error f, k) ∧ h.Undisturbed k) ∨
    ∃ k k' target, h.Undisturbed k ∧ PutsInto directory name bytes k k' target ∧ exec x h = (.ok (), k')

namespace Stores

variable {x : Act Unit} {directory : Act Path} {name : String} {bytes : ByteArray} {h k k' : Host}

theorem undisturbed_of_error (hx : Stores x directory name bytes) {f : Fault} (hfails : exec x h = (.error f, k)) :
    h.Undisturbed k := by
  rcases hx h with ⟨f', k', hfails', hsame⟩ | ⟨-, k', -, -, -, hdone⟩
  · obtain ⟨-, rfl⟩ := Prod.mk.inj (hfails.symm.trans hfails')
    exact hsame
  · cases hfails.symm.trans hdone

theorem exists_putsInto (hx : Stores x directory name bytes) (hdone : exec x h = (.ok (), k')) :
    ∃ k target, h.Undisturbed k ∧ PutsInto directory name bytes k k' target := by
  rcases hx h with ⟨f, k, hfails, -⟩ | ⟨k, k'', target, hsame, hputs, hdone'⟩
  · cases hdone.symm.trans hfails
  · obtain ⟨-, rfl⟩ := Prod.mk.inj (hdone.symm.trans hdone')
    exact ⟨k, target, hsame, hputs⟩

/-- Putting a text into a directory that is had. -/
theorem of_directory (hdirectory : Undisturbing directory) (hlasts : Lasts directory) (name text : String) :
    Stores (directory >>= fun dir => replaceText (dir.join (name ++ Profile.extension)) text) directory name
      text.toUTF8 := by
  intro h
  cases hdir : exec directory h with
  | mk r k₀ =>
      have hhad := hdirectory.exec hdir
      cases r with
      | error f => exact .inl ⟨f, k₀, exec_bind_error hdir _, hhad⟩
      | ok dir =>
          rw [exec_bind_ok hdir]
          rcases exec_replaceText_cases dir name text k₀ with
            ⟨f, k, hfails, hsame⟩ | ⟨k, target, hsame, hway, hother, hdone⟩
          · exact .inl ⟨f, k, hfails, hhad.trans hsame⟩
          · have hdir' := hlasts hdir hsame.places hsame.directories
            exact .inr ⟨k, _, target, hhad.trans hsame, ⟨⟨dir, hdir', hway⟩, hother, rfl⟩, hdone⟩

end Stores

/-- **What keeping a configuration comes to.** -/
theorem Config.stores_save (c : Config) :
    Stores c.save directory "config" (jsonFileText c.toJson).toUTF8 := by
  rw [save_eq]
  exact .of_directory Undisturbing.configDirectory lasts_directory "config" (jsonFileText c.toJson)

/-- **What keeping a profile comes to.** -/
theorem Profile.stores_save (p : Profile) : Stores p.save directory p.name (jsonFileText p.toJson).toUTF8 := by
  rw [save_eq]
  cases p.toJson.isWritable with
  | true => exact .of_directory Undisturbing.profileDirectory lasts_directory p.name (jsonFileText p.toJson)
  | false =>
      intro h
      cases hdir : exec directory h with
      | mk r k =>
          have hhad := Undisturbing.profileDirectory.exec hdir
          cases r with
          | error f => exact .inl ⟨f, k, exec_bind_error hdir _, hhad⟩
          | ok dir => exact .inl ⟨_, k, exec_bind_ok hdir _, hhad⟩

/-! ### Where the file of a name is -/

namespace PutsInto

variable {directory : Act Path} {name : String} {bytes : ByteArray} {k k' : Host} {target : Spot}

theorem samePlaces (hputs : PutsInto directory name bytes k k' target) : k.SamePlaces k' := by
  rw [hputs.files]
  exact k.samePlaces_withFile target bytes

theorem keepsDirectories (hputs : PutsInto directory name bytes k k' target) :
    k.files.KeepsDirectories k'.files := by
  rw [hputs.files]
  exact Host.keepsDirectories_withFile hputs.notDirectory bytes

theorem fileAt?_eq (hputs : PutsInto directory name bytes k k' target) (s : Spot) :
    k'.files.fileAt? s = if s = target then some bytes else k.files.fileAt? s := by
  rw [hputs.files]
  exact Host.fileAt?_withFile hputs.notDirectory bytes s

/-- **A name without a slash is that of a file directly in the directory**, and so is no other name. -/
theorem target_eq_iff (hputs : PutsInto directory name bytes k k' target) {dir : Path} {spot : Spot}
    (hdir : exec directory k = (.ok dir, k)) (hspot : k.files.follow k.workDir dir = .ok spot) :
    target = spot ++ [name ++ Profile.extension] ↔ '/' ∉ name.toList := by
  obtain ⟨dir', hdir', hway⟩ := hputs.dir
  obtain rfl := Except.ok.inj (Prod.mk.inj (hdir.symm.trans hdir')).1
  constructor
  · intro htarget
    obtain ⟨d, hd⟩ := Tree.concat_of_follow isExtension_settings hway
    have hname : name ++ Profile.extension = Text.lastSegment '/' name ++ Profile.extension := by
      simpa using (List.append_inj' (htarget.symm.trans hd) rfl).2
    have hlast : name = Text.lastSegment '/' name := by simpa using hname
    rw [hlast]
    exact Text.notMem_of_mem_segments (List.mem_of_getLast? (Text.getLast?_segments '/' name))
  · intro hslash
    exact ((Tree.follow_join_eq_ok_iff hspot (isExtension_settings.isName hslash)).1 hway).2.1

end PutsInto

end Restline
