import Mathlib.Data.List.Basic
import Restline.Host
import Restline.Proofs.Results

/-!
Files that are there. A path leads to a file or to none, and a file that is there can be read; only a path
that is too long for the system, or has a name on its way that is, cannot be looked at. The bytes of a file
are a text exactly if they are well-formed.

* `Text.Utf8.exists_readText_iff` : which bytes are a text.
* `Tree.IsTooLong`, `Tree.follow_eq_tooLong_iff` : paths that cannot be followed for their length.
* `Tree.isFile_eq_ok_true_iff`, `Tree.isFile_eq_error_iff` : a file is there exactly if it can be read, and
  nothing can be said of a path exactly if it is too long.
* `Host.Holds`, `Host.isFile_cases` : **what a host says of a path**.
* `Host.readText_of_holds` : the text of a file that is there.
-/

set_option autoImplicit false

namespace Restline

/-! ### Texts of bytes -/

namespace Text.Utf8

/-- **The bytes of a text** are the well-formed ones. -/
theorem exists_readText_iff {bytes : ByteArray} :
    (∃ text, readText bytes = .ok text) ↔ bytes.IsValidUTF8 := by
  rw [readText, decode, String.fromUTF8?]
  by_cases hvalid : bytes.IsValidUTF8
  · simp [hvalid, Except.map]
  · simp [hvalid, Except.map]

end Text.Utf8

/-! ### Paths that are too long -/

namespace Tree

variable {t : Tree} {cwd spot : Spot} {p : Path}

/-- Following names from a place comes to a directory where the next name is too long. -/
def MeetsLongName (t : Tree) (spot : Spot) (names : List String) : Prop :=
  ∃ way name rest dir, names = way ++ name :: rest ∧ t.followFrom spot way = .ok dir ∧
    t.entry? dir = some .directory ∧ name ≠ ".." ∧ maxName < name.utf8ByteSize

/-- The path is too long for the system as a whole, or following it comes to a name that is. -/
def IsTooLong (t : Tree) (cwd : Spot) (p : Path) : Prop :=
  '\x00' ∉ p.toText.toList ∧
    (maxPath < p.toText.utf8ByteSize ∨ t.MeetsLongName (if p.isAbsolute then [] else cwd) p.names)

/-- A step along a name that is not too long. -/
theorem meetsLongName_cons {name : String} {names : List String} {dir : Spot}
    (hstep : ∀ rest, t.followFrom spot (name :: rest) = t.followFrom dir rest)
    (hname : name = ".." ∨ name.utf8ByteSize ≤ maxName) :
    t.MeetsLongName spot (name :: names) ↔ t.MeetsLongName dir names := by
  constructor
  · rintro ⟨way, long, rest, spot', heq, hway, hdir, hdots, hlong⟩
    cases way with
    | nil =>
        obtain ⟨rfl, -⟩ := List.cons.inj heq
        rcases hname with hname | hname
        · exact absurd hname hdots
        · exact absurd hlong (Nat.not_lt.2 hname)
    | cons first way =>
        obtain ⟨rfl, rfl⟩ := List.cons.inj heq
        exact ⟨way, long, rest, spot', rfl, (hstep way) ▸ hway, hdir, hdots, hlong⟩
  · rintro ⟨way, long, rest, spot', rfl, hway, hdir, hdots, hlong⟩
    exact ⟨name :: way, long, rest, spot', rfl, (hstep way).trans hway, hdir, hdots, hlong⟩

/-- Where no directory stands, no name is looked at. -/
theorem not_meetsLongName {f : FileFault} {name : String} {names : List String}
    (hdir : t.entry? spot ≠ some .directory) (hstop : ∀ rest, t.followFrom spot (name :: rest) = .error f) :
    ¬ t.MeetsLongName spot (name :: names) := by
  rintro ⟨way, long, rest, spot', heq, hway, hdir', -⟩
  cases way with
  | nil => exact hdir (Except.ok.inj hway ▸ hdir')
  | cons first way =>
      obtain ⟨rfl, -⟩ := List.cons.inj heq
      rw [hstop] at hway
      cases hway

/-- Names cannot be followed for their length exactly if a long one is met. -/
theorem followFrom_eq_tooLong_iff (names : List String) :
    ∀ {spot : Spot}, t.followFrom spot names = .error .nameTooLong ↔ t.MeetsLongName spot names := by
  -- on the names that are left, from wherever those before them lead
  induction names with
  | nil =>
      intro spot
      simp [followFrom, MeetsLongName]
  | cons name names ih =>
      intro spot
      cases hentry : t.entry? spot with
      | none =>
          have hstop : ∀ rest, t.followFrom spot (name :: rest) = .error .missing := fun rest => by
            rw [followFrom, hentry]
          simp [hstop, not_meetsLongName (by simp [hentry]) hstop]
      | some e =>
          cases e with
          | file bytes =>
              have hstop : ∀ rest, t.followFrom spot (name :: rest) = .error .notDirectory := fun rest => by
                rw [followFrom, hentry]
              simp [hstop, not_meetsLongName (by simp [hentry]) hstop]
          | directory =>
              by_cases hdots : name = ".."
              · have hstep : ∀ rest, t.followFrom spot (name :: rest) = t.followFrom spot.dropLast rest :=
                  fun rest => by rw [followFrom, hentry]; exact if_pos hdots
                rw [hstep, ih, meetsLongName_cons hstep (.inl hdots)]
              · by_cases hlong : maxName < name.utf8ByteSize
                · have hstop : t.followFrom spot (name :: names) = .error .nameTooLong := by
                    rw [followFrom, hentry]
                    dsimp only
                    rw [if_neg hdots, if_pos hlong]
                  exact iff_of_true hstop ⟨[], name, names, spot, rfl, rfl, hentry, hdots, hlong⟩
                · have hstep : ∀ rest, t.followFrom spot (name :: rest) =
                      t.followFrom (spot ++ [name]) rest := fun rest => by
                    rw [followFrom, hentry]
                    dsimp only
                    rw [if_neg hdots, if_neg hlong]
                  rw [hstep, ih, meetsLongName_cons hstep (.inr (Nat.not_lt.1 hlong))]

/-- A path cannot be followed for its length exactly if it is too long. -/
theorem follow_eq_tooLong_iff : t.follow cwd p = .error .nameTooLong ↔ t.IsTooLong cwd p := by
  rw [follow, admissible, IsTooLong, ← followFrom_eq_tooLong_iff]
  by_cases hnul : '\x00' ∈ p.toText.toList
  · simp [hnul]
  · by_cases hlong : maxPath < p.toText.utf8ByteSize <;> simp [hnul, hlong]

/-- A short path of short names is not too long. -/
theorem not_isTooLong (hpath : p.toText.utf8ByteSize ≤ maxPath)
    (hnames : ∀ name ∈ p.names, name.utf8ByteSize ≤ maxName) : ¬ t.IsTooLong cwd p := by
  rintro ⟨-, hlong | ⟨way, name, rest, dir, heq, -, -, -, hlong⟩⟩
  · exact absurd hlong (Nat.not_lt.2 hpath)
  · have hmem : name ∈ p.names := heq ▸ List.mem_append_right way List.mem_cons_self
    exact absurd hlong (Nat.not_lt.2 (hnames name hmem))

/-! ### Files at the end of a path -/

theorem fileAt?_eq_some_iff {bytes : ByteArray} :
    t.fileAt? spot = some bytes ↔ t.entry? spot = some (.file bytes) := by
  rw [fileAt?]
  cases t.entry? spot with
  | none => simp
  | some e => cases e <;> simp

/-- The bytes that are read are those of the file that the path leads to. -/
theorem read_eq_ok_iff {bytes : ByteArray} :
    t.read cwd p = .ok bytes ↔ ∃ spot, t.follow cwd p = .ok spot ∧ t.fileAt? spot = some bytes := by
  rw [read, Except.bind_eq_ok_iff]
  simp only [fileAt?_eq_some_iff]
  refine exists_congr fun spot => and_congr_right fun _ => ?_
  cases t.entry? spot with
  | none => simp
  | some e => cases e <;> simp

/-- A file is there exactly if it can be read. -/
theorem isFile_eq_ok_true_iff : t.isFile cwd p = .ok true ↔ ∃ bytes, t.read cwd p = .ok bytes := by
  simp only [read_eq_ok_iff]
  rw [isFile]
  cases t.follow cwd p with
  | ok spot => simp [Option.isSome_iff_exists]
  | error f => cases f <;> simp

/-- Whether a file is there cannot be said exactly if the path is too long. -/
theorem isFile_eq_error_iff {f : FileFault} :
    t.isFile cwd p = .error f ↔ f = .nameTooLong ∧ t.IsTooLong cwd p := by
  rw [← follow_eq_tooLong_iff, isFile]
  cases t.follow cwd p with
  | ok spot => simp
  | error g => cases g <;> simp [eq_comm]

end Tree

/-! ### Files of a host -/

namespace Host

variable {h : Host} {p : Path} {bytes : ByteArray}

/-- A file with these bytes stands at the end of the path. -/
def Holds (h : Host) (p : Path) (bytes : ByteArray) : Prop := h.files.read h.workDir p = .ok bytes

/-- A file stands at the end of the path. -/
def HasFile (h : Host) (p : Path) : Prop := ∃ bytes, h.Holds p bytes

/-- The path cannot be looked at. -/
def CannotLookAt (h : Host) (p : Path) : Prop := h.files.IsTooLong h.workDir p

theorem Holds.unique {bytes' : ByteArray} (hb : h.Holds p bytes) (hb' : h.Holds p bytes') : bytes = bytes' :=
  Except.ok.inj (hb.symm.trans hb')

/-- **What a host says of a path**: a file is there, or none is, or the path cannot be looked at. -/
theorem isFile_cases (h : Host) (p : Path) :
    (h.files.isFile h.workDir p = .ok true ∧ h.HasFile p ∧ ¬ h.CannotLookAt p) ∨
      (h.files.isFile h.workDir p = .ok false ∧ ¬ h.HasFile p ∧ ¬ h.CannotLookAt p) ∨
      (h.files.isFile h.workDir p = .error .nameTooLong ∧ ¬ h.HasFile p ∧ h.CannotLookAt p) := by
  have hthere : h.files.isFile h.workDir p = .ok true ↔ h.HasFile p := Tree.isFile_eq_ok_true_iff
  have hbarred : ∀ f, h.files.isFile h.workDir p = .error f ↔ f = .nameTooLong ∧ h.CannotLookAt p :=
    fun f => Tree.isFile_eq_error_iff
  cases hfile : h.files.isFile h.workDir p with
  | ok there =>
      have hseen : ¬ h.CannotLookAt p := fun hlong => by
        have herror := (hbarred .nameTooLong).2 ⟨rfl, hlong⟩
        rw [hfile] at herror
        cases herror
      cases there with
      | true => exact .inl ⟨rfl, hthere.1 hfile, hseen⟩
      | false =>
          refine .inr (.inl ⟨rfl, fun hholds => ?_, hseen⟩)
          have htrue := hthere.2 hholds
          rw [hfile] at htrue
          cases htrue
  | error f =>
      obtain ⟨rfl, hlong⟩ := (hbarred f).1 hfile
      refine .inr (.inr ⟨rfl, fun hholds => ?_, hlong⟩)
      have htrue := hthere.2 hholds
      rw [hfile] at htrue
      cases htrue

theorem isFile_eq_ok_true_iff : h.isFile p = .ok true ↔ h.HasFile p := by
  rw [isFile, unforeseen, Except.mapError_eq_ok_iff]
  exact Tree.isFile_eq_ok_true_iff

theorem isFile_of_hasFile (hfile : h.HasFile p) : h.isFile p = .ok true := isFile_eq_ok_true_iff.2 hfile

theorem isFile_of_not_hasFile (hno : ¬ h.HasFile p) (hseen : ¬ h.CannotLookAt p) :
    h.isFile p = .ok false := by
  rcases h.isFile_cases p with ⟨-, hfile, -⟩ | ⟨hthere, -, -⟩ | ⟨-, -, hlong⟩
  · exact absurd hfile hno
  · rw [isFile, unforeseen, hthere, Except.mapError_ok]
  · exact absurd hlong hseen

theorem isFile_of_cannotLookAt (hlong : h.CannotLookAt p) :
    h.isFile p = .error (.ofCrash .badFileName) := by
  rcases h.isFile_cases p with ⟨-, -, hseen⟩ | ⟨-, -, hseen⟩ | ⟨hthere, -, -⟩
  · exact absurd hlong hseen
  · exact absurd hlong hseen
  · rw [isFile, unforeseen, hthere, Except.mapError_error]
    rfl

theorem not_hasFile_of_cannotLookAt (hlong : h.CannotLookAt p) : ¬ h.HasFile p := by
  rcases h.isFile_cases p with ⟨-, -, hseen⟩ | ⟨-, hno, -⟩ | ⟨-, hno, -⟩
  · exact absurd hlong hseen
  · exact hno
  · exact hno

/-- The text of a file that is there is the text of its bytes. -/
theorem readText_of_holds (hholds : h.Holds p bytes) :
    h.readText p = (Text.Utf8.readText bytes).mapError fun _ => .ofCrash .undecodable := by
  have hread : h.files.read h.workDir p = .ok bytes := hholds
  rw [readText, readBytes, unforeseen, hread]
  rfl

end Host

/-- A place is not known only for want of a home directory. -/
theorem expand_eq_error {h : Host} {p : Path} {f : Fault} (hplace : h.expand p = .error f) :
    f = Host.noHome := by
  rw [Host.expand] at hplace
  split at hplace
  · cases hplace
  · exact (Except.error.inj hplace).symm

end Restline
