import Restline.Files.Replacement
import Restline.Proofs.MadeDirectories
import Restline.Proofs.Segments

/-!
Files that an operation leaves as they are. A file is replaced through a temporary one, whose name is a free
one beside the target; when that fails the tree is as before, and when it does not only the target has changed.

* `Spot.HasExtension` : the name of a place has an end.
* `Path.IsName`, `Tree.follow_join_eq_ok_iff` : a name stands for itself in a path.
* `Tree.replace_cases` : **a file is replaced or not**.
* `Tree.write_eq_ok` : a file is written.
-/

set_option autoImplicit false

namespace Restline

/-! ### The ends of names -/

/-- The last name on the way to a place has an end. -/
def Spot.HasExtension (extension : String) (spot : Spot) : Prop := ∃ dir stem, spot = dir ++ [stem ++ extension]

/-- A name has one of two ends that differ in the last character. -/
theorem Spot.HasExtension.ne {extension extension' : String} {spot spot' : Spot} {c c' : Char}
    (h : spot.HasExtension extension) (h' : spot'.HasExtension extension')
    (hc : extension.toList.getLast? = some c) (hc' : extension'.toList.getLast? = some c') (hne : c ≠ c') :
    spot ≠ spot' := by
  obtain ⟨dir, stem, rfl⟩ := h
  obtain ⟨dir', stem', rfl⟩ := h'
  intro heq
  have hlast := (List.append_inj' heq rfl).2
  have hname : stem ++ extension = stem' ++ extension' := by simpa using hlast
  have hchars := congrArg (fun name : String => name.toList.getLast?) hname
  simp only [String.toList_append, List.getLast?_append, hc, hc', Option.some_or] at hchars
  exact hne (Option.some_inj.1 hchars)

namespace Text

/-- An end without a separator is that of the last segment. -/
theorem lastSegment_append_of_notMem {c : Char} {extension : String} (h : c ∉ extension.toList) (s : String) :
    lastSegment c (s ++ extension) = lastSegment c s ++ extension := by
  by_cases hc : c ∈ s.toList
  · obtain ⟨u, hs, -⟩ := eq_append_lastSegment hc
    have hsplit : (s ++ extension).toList = u.toList ++ c :: (lastSegment c s ++ extension).toList := by
      rw [String.toList_append, hs, String.toList_append]
      simp
    have hlast : c ∉ (lastSegment c s).toList :=
      notMem_of_mem_segments (List.mem_of_getLast? (getLast?_segments c s))
    rw [lastSegment_append hsplit, lastSegment_of_notMem]
    rw [String.toList_append, List.mem_append, not_or]
    exact ⟨hlast, h⟩
  · have hboth : c ∉ (s ++ extension).toList := by
      rw [String.toList_append, List.mem_append, not_or]
      exact ⟨hc, h⟩
    rw [lastSegment_of_notMem hboth, lastSegment_of_notMem hc]

theorem notMem_hexDigits {c : Char} (hc : ∀ k < 16, hexDigit k ≠ c) (width n : Nat) :
    c ∉ hexDigits width n := by
  induction width generalizing n with
  | zero => exact List.not_mem_nil
  | succ width ih =>
      rw [hexDigits, List.mem_append, List.mem_singleton, not_or]
      exact ⟨ih _, Ne.symm (hc _ (Nat.mod_lt _ (by decide)))⟩

end Text

namespace Path

/-- What follows the last dot of a name: no part of a way, and neither empty nor dots alone. -/
structure IsExtension (extension : String) : Prop where
  noSlash : '/' ∉ extension.toList
  long : 2 < extension.toList.length

theorem IsExtension.ne_of_short {extension : String} (h : IsExtension extension) (stem short : String)
    (hshort : short.toList.length ≤ 2) : stem ++ extension ≠ short := by
  intro heq
  have hlength := congrArg (fun s : String => s.toList.length) heq
  simp only [String.toList_append, List.length_append] at hlength
  have := h.long
  omega

/-- A name that stands for itself in a path. -/
structure IsName (name : String) : Prop where
  noSlash : '/' ∉ name.toList
  ne_empty : name ≠ ""
  ne_dot : name ≠ "."
  ne_dots : name ≠ ".."

theorem IsExtension.isName {extension : String} (h : IsExtension extension) {stem : String}
    (hstem : '/' ∉ stem.toList) : IsName (stem ++ extension) where
  noSlash := by
    rw [String.toList_append, List.mem_append, not_or]
    exact ⟨hstem, h.noSlash⟩
  ne_empty := h.ne_of_short stem "" (by decide)
  ne_dot := h.ne_of_short stem "." (by decide)
  ne_dots := h.ne_of_short stem ".." (by decide)

theorem rootOf_of_notMem {cs : List Char} (h : '/' ∉ cs) : rootOf cs = "" := by
  rw [rootOf.eq_def]
  split
  · exact absurd List.mem_cons_self h
  · exact absurd List.mem_cons_self h
  · exact absurd List.mem_cons_self h
  · rfl

/-- A name is joined to a path as its last one. -/
theorem join_of_isName {name : String} (h : IsName name) (p : Path) :
    p.join name = ⟨p.root, p.names ++ [name]⟩ := by
  have htext : ofText name = ⟨"", [name]⟩ := by
    rw [ofText, rootOf_of_notMem h.noSlash, Text.segments_of_notMem h.noSlash,
      List.filter_cons_of_pos (by simp [h.ne_empty, h.ne_dot]), List.filter_nil]
  rw [join, htext]
  rfl

/-- The last name of a path that is written with an end has that end. -/
theorem getLast?_names_ofText {extension : String} (h : IsExtension extension) (s : String) :
    (ofText (s ++ extension)).names.getLast? = some (Text.lastSegment '/' s ++ extension) := by
  have hlast := Text.dropLast_append_lastSegment '/' (s ++ extension)
  rw [Text.lastSegment_append_of_notMem h.noSlash] at hlast
  have hempty := h.ne_of_short (Text.lastSegment '/' s) "" (by decide)
  have hdot := h.ne_of_short (Text.lastSegment '/' s) "." (by decide)
  rw [ofText, ← hlast, List.filter_append, List.filter_cons_of_pos (by simp [hempty, hdot]), List.filter_nil,
    List.getLast?_concat]

theorem getLast?_names_join {extension : String} (h : IsExtension extension) (p : Path) (s : String) :
    (p.join (s ++ extension)).names.getLast? = some (Text.lastSegment '/' s ++ extension) := by
  rw [join]
  split
  · exact getLast?_names_ofText h s
  · rw [List.getLast?_append, getLast?_names_ofText h s, Option.some_or]

theorem fileName_join {extension : String} (h : IsExtension extension) (p : Path) (s : String) :
    (p.join (s ++ extension)).fileName = Text.lastSegment '/' s ++ extension := by
  rw [fileName, getLast?_names_join h, Option.getD_some]

theorem slash_notMem_fileName_join {extension : String} (h : IsExtension extension) (p : Path) (s : String) :
    '/' ∉ (p.join (s ++ extension)).fileName.toList := by
  rw [fileName_join h]
  refine (h.isName ?_).noSlash
  exact Text.notMem_of_mem_segments (List.mem_of_getLast? (Text.getLast?_segments '/' s))

end Path

namespace Tree

variable {t t' : Tree} {cwd spot s : Spot} {p : Path} {bytes : ByteArray} {extension : String}

/-- A way that ends in a name other than two dots leads to a place of that name. -/
theorem followFrom_concat {name : String} (hdots : name ≠ "..") {names : List String} {r : Spot}
    (h : t.followFrom s (names ++ [name]) = .ok r) : ∃ dir, r = dir ++ [name] := by
  obtain ⟨dir, -, hlast⟩ := followFrom_append_eq_ok_iff.1 h
  obtain ⟨-, -, hr⟩ := followFrom_singleton_eq_ok_iff.1 hlast
  rw [next, if_neg hdots] at hr
  exact ⟨dir, hr⟩

/-- What is below a directory is reached by its name, if neither that nor the path is too long. -/
theorem follow_join_eq_ok_iff {name : String} {r : Spot} (hway : t.follow cwd p = .ok spot)
    (hname : Path.IsName name) :
    t.follow cwd (p.join name) = .ok r ↔ t.entry? spot = some .directory ∧ r = spot ++ [name] ∧
      admissible (p.join name) = .ok () ∧ name.utf8ByteSize ≤ maxName := by
  obtain ⟨-, -, hspot⟩ := Except.bind_eq_ok_iff.1 hway
  have hdots : name ≠ ".." := hname.ne_dots
  rw [follow, Except.bind_eq_ok_iff, Path.join_of_isName hname]
  change (∃ u, _ ∧ t.followFrom (if p.isAbsolute then [] else cwd) (p.names ++ [name]) = .ok r) ↔ _
  simp only [followFrom_append_eq_ok_iff, followFrom_singleton_eq_ok_iff, next, if_neg hdots]
  constructor
  · rintro ⟨u, hadmissible, dir, hdir, hentry, hshort | hshort, hr⟩
    · exact absurd hshort hdots
    · obtain rfl := Except.ok.inj (hdir.symm.trans hspot)
      exact ⟨hentry, hr, hadmissible, hshort⟩
  · rintro ⟨hentry, rfl, hadmissible, hshort⟩
    exact ⟨(), hadmissible, spot, hspot, hentry, .inr hshort, rfl⟩

/-- A path that is written with an end leads to a place that has the last part of it for its name. -/
theorem concat_of_follow (hextension : Path.IsExtension extension) {text : String}
    (h : t.follow cwd (p.join (text ++ extension)) = .ok spot) :
    ∃ dir, spot = dir ++ [Text.lastSegment '/' text ++ extension] := by
  obtain ⟨-, -, hway⟩ := Except.bind_eq_ok_iff.1 h
  have hlast := Path.getLast?_names_join hextension p text
  obtain ⟨names, hnames⟩ := List.getLast?_eq_some_iff.1 hlast
  rw [hnames] at hway
  have hdots := hextension.ne_of_short (Text.lastSegment '/' text) ".." (by decide)
  exact followFrom_concat hdots hway

theorem hasExtension_of_follow (hextension : Path.IsExtension extension) {text : String}
    (h : t.follow cwd (p.join (text ++ extension)) = .ok spot) : spot.HasExtension extension := by
  obtain ⟨dir, hdir⟩ := concat_of_follow hextension h
  exact ⟨dir, _, hdir⟩

/-! ### Replacement -/

/-- The end of the names of temporary files. -/
def temporaryExtension : String := ".tmp"

theorem isExtension_temporary : Path.IsExtension temporaryExtension := ⟨by decide, by decide⟩

theorem isName_temporaryName {name : String} (hname : '/' ∉ name.toList) (n : Nat) :
    Path.IsName (temporaryName name n) := by
  refine isExtension_temporary.isName ?_
  simp only [String.toList_append, String.toList_ofList, List.mem_append, not_or]
  exact ⟨⟨⟨by decide, hname⟩, by decide⟩, Text.notMem_hexDigits (by decide) 8 n⟩

/-- The name of a temporary file is that of no other file. -/
theorem free_of_freshName? {dir : Spot} {name fresh : String} (h : t.freshName? dir name = some fresh) :
    t.entry? (dir ++ [fresh]) = none ∧ ∃ n, fresh = temporaryName name n := by
  obtain ⟨n, hfind, rfl⟩ := Option.map_eq_some_iff.1 h
  have hfree := List.find?_some hfind
  exact ⟨Option.isNone_iff_eq_none.1 hfree, n, rfl⟩

/-- What is put into a free place and taken away again leaves the tree as it was. -/
theorem erase_put_of_free {temp : Spot} (hfree : t.entry? temp = none) (e : FileEntry) :
    (t.put temp e).erase temp = t := by
  rw [put, erase_of_free hfree, erase, List.filter_cons_of_neg (by simp)]
  exact erase_of_free hfree

/-- The only step of a replacement that a tree rules out is the last. -/
theorem run_of_rename {fails : Replacement.Step → Bool} {target temp : Spot} {barred : Bool}
    (hfails : ∀ step, fails step = (step = .rename && barred)) (hfree : t.entry? temp = none) :
    Replacement.run fails target temp bytes t =
      if barred then (.failed .rename, t) else (.replaced, t.put target (.file bytes)) := by
  cases barred <;> simp [Replacement.run, Replacement.cleanUp, hfails, erase_put_of_free hfree]

/-- **What replacing a file comes to.** The tree is as before, or the bytes are at the end of the path, where no
directory stood. -/
theorem replace_cases (t : Tree) (cwd : Spot) {p : Path} (hname : '/' ∉ p.fileName.toList) (bytes : ByteArray) :
    (∃ f, t.replace cwd p bytes = (some f, t)) ∨
      ∃ target, t.replace cwd p bytes = (none, t.put target (.file bytes)) ∧ t.follow cwd p = .ok target ∧
        t.entry? target ≠ some .directory := by
  rw [replace]
  cases hdir : t.follow cwd p.parent with
  | error f => exact .inl ⟨f, rfl⟩
  | ok dir =>
      dsimp only
      cases hfresh : t.freshName? dir p.fileName with
      | none => exact .inl ⟨_, rfl⟩
      | some fresh =>
          obtain ⟨hfree, n, hn⟩ := free_of_freshName? hfresh
          dsimp only
          cases htemp : t.follow cwd (p.parent.join fresh) with
          | error f => exact .inl ⟨f, rfl⟩
          | ok temp =>
              cases t.follow cwd p with
              | error f => exact .inl ⟨f, rfl⟩
              | ok target =>
                  have hfreshName : Path.IsName fresh := hn ▸ isName_temporaryName hname n
                  obtain ⟨-, rfl, -, -⟩ := (follow_join_eq_ok_iff hdir hfreshName).1 htemp
                  dsimp only
                  rw [run_of_rename (fun _ => rfl) hfree]
                  cases hbarred : !canBeReplaced p || t.isDirAt target with
                  | true => exact .inl ⟨_, rfl⟩
                  | false =>
                      refine .inr ⟨target, rfl, rfl, fun hdirectory => ?_⟩
                      simp [isDirAt, hdirectory] at hbarred

/-- Writing a file changes that file alone. -/
theorem write_eq_ok (h : t.write cwd p bytes = .ok t') :
    ∃ target, t.follow cwd p = .ok target ∧
      ∀ s, t'.fileAt? s = if s = target then some bytes else t.fileAt? s := by
  obtain ⟨target, hway, h⟩ := Except.bind_eq_ok_iff.1 h
  refine ⟨target, hway, fun s => ?_⟩
  split at h
  · cases h
  · rename_i hdir
    have htarget : target ≠ [] := by
      rintro rfl
      exact hdir rfl
    obtain rfl := Except.ok.inj h
    exact fileAt?_put_file t htarget bytes s

end Tree

end Restline
