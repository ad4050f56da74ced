import Mathlib.Data.String.Basic
import Restline.Proofs.HeldSettings

/-!
Files directly in a directory that stands. A name that stands for itself leads to a place in the directory, unless
it is too long; and a file is put there exactly if there is room for the name of the temporary one as well.

* `Path.exists_front` : the text of a path ends in its last name.
* `Path.Fits`, `Tree.follow_join_eq_ok_iff_fits` : **a name that fits leads to its place, and no other one does**.
* `Tree.isTooLong_join_iff` : any other name is too long to be looked at.
* `Tree.replace_join` : **a file is put into the directory exactly if the temporary one fits**.
* `IsPlainName`, `Profile.exec_load_of_not_fits` : names of profiles, and what comes of one that does not fit.
-/

set_option autoImplicit false

namespace Restline

/-! ### The text of a path -/

namespace Path

theorem intercalate_concat {names : List String} (hne : names ≠ []) (name : String) :
    "/".intercalate (names ++ [name]) = "/".intercalate names ++ "/" ++ name := by
  induction names with
  | nil => exact absurd rfl hne
  | cons first rest ih =>
      cases rest with
      | nil => rfl
      | cons second rest =>
          have hrest := ih (List.cons_ne_nil second rest)
          rw [List.cons_append] at hrest
          rw [List.cons_append, List.cons_append, String.intercalate_cons_cons, hrest, String.intercalate_cons_cons]
          simp only [String.append_assoc]

/-- **The text of a path ends in its last name**, behind slashes and what stands in the text of the rest. -/
theorem exists_front (p : Path) : ∃ front : String, (∀ c ∈ front.toList, c = '/' ∨ c ∈ p.toText.toList) ∧
    ∀ name, IsName name → (p.join name).toText = front ++ name := by
  have hjoin : ∀ name, IsName name → (p.join name).toText = p.root ++ "/".intercalate (p.names ++ [name]) :=
    fun name hname => by
      rw [join_of_isName hname, toText, if_neg (by simp)]
  by_cases hnames : p.names = []
  · refine ⟨p.root, fun c hc => ?_, fun name hname => ?_⟩
    · have hroot : p.root ≠ "" := by
        rintro heq
        rw [heq] at hc
        cases hc
      rw [toText, if_neg (by simp [hroot]), String.toList_append]
      exact .inr (List.mem_append_left _ hc)
    · rw [hjoin name hname, hnames]
      rfl
  · refine ⟨p.root ++ "/".intercalate p.names ++ "/", fun c hc => ?_, fun name hname => ?_⟩
    · rw [String.toList_append, List.mem_append] at hc
      rcases hc with hc | hc
      · rw [toText, if_neg (by simp [hnames])]
        exact .inr hc
      · exact .inl (List.mem_singleton.1 hc)
    · rw [hjoin name hname, intercalate_concat hnames]
      simp only [String.append_assoc]

/-! ### Names that fit -/

/-- A name is short enough for a file directly in a directory. -/
structure Fits (dir : Path) (name : String) : Prop where
  short : name.utf8ByteSize ≤ Tree.maxName
  path : (dir.join name).toText.utf8ByteSize ≤ Tree.maxPath

instance (dir : Path) (name : String) : Decidable (dir.Fits name) :=
  decidable_of_iff (name.utf8ByteSize ≤ Tree.maxName ∧ (dir.join name).toText.utf8ByteSize ≤ Tree.maxPath)
    ⟨fun h => ⟨h.1, h.2⟩, fun h => ⟨h.short, h.path⟩⟩

/-- What is no longer than a name that fits does so itself. -/
theorem Fits.of_le {dir : Path} {name name' : String} (hfits : dir.Fits name) (hname : IsName name)
    (hname' : IsName name') (hle : name'.utf8ByteSize ≤ name.utf8ByteSize) : dir.Fits name' := by
  obtain ⟨front, -, htext⟩ := dir.exists_front
  have hpath := hfits.path
  rw [htext name hname, String.utf8ByteSize_append] at hpath
  refine ⟨hle.trans hfits.short, ?_⟩
  rw [htext name' hname', String.utf8ByteSize_append]
  omega

end Path

namespace Tree

variable {t : Tree} {cwd spot : Spot} {dir : Path} {name : String} {bytes : ByteArray}

theorem admissible_eq_ok_iff {p : Path} :
    admissible p = .ok () ↔ '\x00' ∉ p.toText.toList ∧ p.toText.utf8ByteSize ≤ maxPath := by
  rw [admissible]
  by_cases hnul : '\x00' ∈ p.toText.toList
  · simp [hnul]
  · by_cases hlong : maxPath < p.toText.utf8ByteSize
    · simp [hnul, hlong, Nat.not_le.2 hlong]
    · simp [hnul, hlong, Nat.not_lt.1 hlong]

/-- A name without a character that the system rules out brings none into the path of a directory that stands. -/
theorem nul_notMem_join (hstands : t.Stands cwd dir spot) (hname : Path.IsName name) (hnul : '\x00' ∉ name.toList) :
    '\x00' ∉ (dir.join name).toText.toList := by
  obtain ⟨u, hadmissible, -⟩ := Except.bind_eq_ok_iff.1 hstands.way
  obtain ⟨front, hfront, htext⟩ := dir.exists_front
  rw [htext name hname, String.toList_append, List.mem_append, not_or]
  refine ⟨fun hmem => ?_, hnul⟩
  rcases hfront _ hmem with hslash | hdir
  · cases hslash
  · exact (admissible_eq_ok_iff.1 hadmissible).1 hdir

/-- **A name that fits leads to its place, and no other one does.** -/
theorem follow_join_eq_ok_iff_fits (hstands : t.Stands cwd dir spot) (hname : Path.IsName name)
    (hnul : '\x00' ∉ name.toList) {r : Spot} :
    t.follow cwd (dir.join name) = .ok r ↔ r = spot ++ [name] ∧ dir.Fits name := by
  rw [follow_join_eq_ok_iff hstands.way hname, admissible_eq_ok_iff]
  constructor
  · rintro ⟨-, hr, ⟨-, hpath⟩, hshort⟩
    exact ⟨hr, hshort, hpath⟩
  · rintro ⟨hr, hfits⟩
    exact ⟨hstands.directory, hr, ⟨nul_notMem_join hstands hname hnul, hfits.path⟩, hfits.short⟩

/-- A name that does not fit is too long to be looked at. -/
theorem isTooLong_join_iff (hstands : t.Stands cwd dir spot) (hname : Path.IsName name)
    (hnul : '\x00' ∉ name.toList) : t.IsTooLong cwd (dir.join name) ↔ ¬ dir.Fits name := by
  constructor
  · intro hlong hfits
    have hway := (follow_join_eq_ok_iff_fits hstands hname hnul).2 ⟨rfl, hfits⟩
    cases hway.symm.trans (follow_eq_tooLong_iff.2 hlong)
  · intro hfits
    refine ⟨nul_notMem_join hstands hname hnul, ?_⟩
    by_cases hpath : maxPath < (dir.join name).toText.utf8ByteSize
    · exact .inl hpath
    · have hshort : maxName < name.utf8ByteSize := by
        refine Nat.lt_of_not_le fun hshort => hfits ⟨hshort, Nat.le_of_not_lt hpath⟩
      obtain ⟨-, -, hway⟩ := Except.bind_eq_ok_iff.1 hstands.way
      rw [Path.join_of_isName hname]
      exact .inr ⟨dir.names, name, [], spot, rfl, hway, hstands.directory, hname.ne_dots, hshort⟩

/-! ### Files that are put there -/

/-- The name of a temporary file is longer than that of the file. -/
theorem utf8ByteSize_le_temporaryName (name : String) (n : Nat) :
    name.utf8ByteSize ≤ (temporaryName name n).utf8ByteSize := by
  rw [temporaryName]
  simp only [String.utf8ByteSize_append]
  omega

theorem nul_notMem_temporaryName (hnul : '\x00' ∉ name.toList) (n : Nat) :
    '\x00' ∉ (temporaryName name n).toList := by
  rw [temporaryName]
  simp only [String.toList_append, String.toList_ofList, List.mem_append, not_or]
  exact ⟨⟨⟨⟨by decide, hnul⟩, by decide⟩, Text.notMem_hexDigits (by decide) 8 n⟩, by decide⟩

theorem freshName?_of_free (hfree : t.entry? (spot ++ [temporaryName name 0]) = none) :
    t.freshName? spot name = some (temporaryName name 0) := by
  rw [freshName?, List.range_succ_eq_map, List.find?_cons_of_pos (by simp [hfree])]
  rfl

/-- **A file is put into a directory exactly if there is room for the temporary one.** -/
theorem replace_join (hstands : t.Stands cwd dir spot) (hname : Path.IsName name) (hnul : '\x00' ∉ name.toList)
    (hfree : t.entry? (spot ++ [temporaryName name 0]) = none)
    (hother : t.entry? (spot ++ [name]) ≠ some .directory) (bytes : ByteArray) :
    (dir.Fits (temporaryName name 0) ∧
        t.replace cwd (dir.join name) bytes = (none, t.put (spot ++ [name]) (.file bytes))) ∨
      (¬ dir.Fits (temporaryName name 0) ∧ ∃ f, t.replace cwd (dir.join name) bytes = (some f, t)) := by
  have hjoin := Path.join_of_isName hname dir
  have hparent : (dir.join name).parent = dir := by simp [hjoin, Path.parent]
  have hlast : (dir.join name).fileName = name := by simp [hjoin, Path.fileName]
  have htemp : Path.IsName (temporaryName name 0) := isName_temporaryName hname.noSlash 0
  have hnul' : '\x00' ∉ (temporaryName name 0).toList := nul_notMem_temporaryName hnul 0
  rw [replace, hparent, hstands.way, hlast]
  dsimp only
  rw [freshName?_of_free hfree]
  dsimp only
  by_cases hfits : dir.Fits (temporaryName name 0)
  · have hshort := hfits.of_le htemp hname (utf8ByteSize_le_temporaryName name 0)
    have hbarred : (!canBeReplaced (dir.join name) || t.isDirAt (spot ++ [name])) = false := by
      have hdirectory : t.isDirAt (spot ++ [name]) = false := by
        rw [isDirAt]
        split
        · exact absurd ‹_› hother
        · rfl
      have hnames : (dir.join name).names ≠ [] := by simp [hjoin]
      simp [canBeReplaced, hlast, hname.ne_dots, hdirectory, hnames]
    rw [(follow_join_eq_ok_iff_fits hstands htemp hnul').2 ⟨rfl, hfits⟩,
      (follow_join_eq_ok_iff_fits hstands hname hnul).2 ⟨rfl, hshort⟩]
    dsimp only
    rw [run_of_rename (fun _ => rfl) hfree, hbarred]
    exact .inl ⟨hfits, rfl⟩
  · refine .inr ⟨hfits, ?_⟩
    cases hway : t.follow cwd (dir.join (temporaryName name 0)) with
    | error f => exact ⟨f, rfl⟩
    | ok r => exact absurd ((follow_join_eq_ok_iff_fits hstands htemp hnul').1 hway).2 hfits

end Tree

/-! ### Names of profiles -/

open Act

/-- A name that can be that of a file: it is not empty, and no part of a path. -/
structure IsPlainName (name : String) : Prop where
  ne_empty : name ≠ ""
  noSlash : '/' ∉ name.toList
  noNul : '\x00' ∉ name.toList

namespace IsPlainName

variable {name : String}

/-- The name of the file of a profile. -/
theorem isName (hname : IsPlainName name) : Path.IsName (name ++ Profile.extension) :=
  isExtension_settings.isName hname.noSlash

theorem nul_notMem (hname : IsPlainName name) : '\x00' ∉ (name ++ Profile.extension).toList := by
  rw [String.toList_append, List.mem_append, not_or]
  exact ⟨hname.noNul, by decide⟩

end IsPlainName

/-- A profile with a name that does not fit cannot be looked for. -/
theorem Profile.exec_load_of_not_fits {h k : Host} {dir : Path} {name : String}
    (hdir : exec directory h = (.ok dir, k)) (hname : IsPlainName name) (hfits : ¬ dir.Fits (name ++ extension)) :
    exec (load name) h = (.error (.ofCrash .badFileName), k) := by
  obtain ⟨spot, hstands⟩ := makes_directory hdir
  have hlong : k.CannotLookAt (dir.join (name ++ extension)) :=
    (Tree.isTooLong_join_iff hstands hname.isName hname.nul_notMem).2 hfits
  rw [load_eq, exec_ofFile_of_cannotLookAt (exec_file_of_directory hdir name) hlong]

/-- A name that no directory has room for. -/
def longName : String := String.ofList (List.replicate 300 'x')

theorem toList_longName : longName.toList = List.replicate 300 'x' := String.toList_ofList

theorem isPlainName_longName : IsPlainName longName where
  ne_empty := by
    intro hempty
    have hlist := toList_longName
    rw [hempty] at hlist
    cases hlist
  noSlash := by
    rw [toList_longName]
    decide +kernel
  noNul := by
    rw [toList_longName]
    decide +kernel

theorem not_fits_longName (dir : Path) : ¬ dir.Fits (longName ++ Profile.extension) := by
  intro hfits
  have hsize : longName.utf8ByteSize = String.utf8Len (List.replicate 300 'x') := String.utf8ByteSize_ofList _
  have hlong : Tree.maxName < String.utf8Len (List.replicate 300 'x') := by decide +kernel
  have hshort := hfits.short
  rw [String.utf8ByteSize_append, hsize] at hshort
  omega

/-- Nothing is deeper than all that is there. -/
theorem Tree.entry?_of_lt_length {t : Tree} {spot : Spot} (hne : spot ≠ [])
    (hshort : ∀ e ∈ t.entries, e.1.length < spot.length) : t.entry? spot = none := by
  rw [entry?_of_ne _ hne]
  exact find?_eq_none_iff.2 fun e he heq => (hshort e he).ne (congrArg List.length heq)

/-- A host without any settings. -/
def Host.bare : Host where
  env := [("HOME", "/home")]

/-- The directory for profiles there. -/
def Host.bareProfiles : Path := ⟨"/", ["home", ".config", "azrest", "profiles"]⟩

theorem exec_directory_bare :
    exec Profile.directory Host.bare = (.ok Host.bareProfiles, (exec Profile.directory Host.bare).2) :=
  Prod.ext (by decide +kernel) rfl

end Restline
