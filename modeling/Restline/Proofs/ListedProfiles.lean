import Mathlib.Data.String.Basic
import Restline.Proofs.HeldSettings

/-!
Profiles that are listed. The files of a directory are listed as the tree has them, and a profile has the name of
its file without the end; so what is put into the directory is listed from then on, until it is taken away.

* `Text.sorted_eq_of_perm` : texts are put in one order, however they come.
* `Tree.mem_fileNamesIn_iff`, `Tree.Lists` : **a directory lists its files**, each of them once.
* `Tree.Lists.put_file`, `Tree.Lists.erase` : what is listed after a change.
* `Profile.nameOfFile?_append` : the name of a profile comes back from that of its file.
* `Profile.exec_saved_of_directory` : what is listed once the directory was had.
-/

set_option autoImplicit false

namespace Restline

/-! ### Texts in order -/

namespace Text

theorem perm_sorted (l : List String) : (sorted l).Perm l := List.mergeSort_perm l _

theorem mem_sorted {l : List String} {s : String} : s ∈ sorted l ↔ s ∈ l := (perm_sorted l).mem_iff

theorem pairwise_sorted (l : List String) : (sorted l).Pairwise (· ≤ ·) := by
  have htrans : ∀ s s' s'' : String, decide (s ≤ s') → decide (s' ≤ s'') → decide (s ≤ s'') := fun _ _ _ h h' =>
    decide_eq_true (le_trans (of_decide_eq_true h) (of_decide_eq_true h'))
  have htotal : ∀ s s' : String, decide (s ≤ s') || decide (s' ≤ s) := fun s s' => by simpa using le_total s s'
  exact (List.pairwise_mergeSort htrans htotal l).imp of_decide_eq_true

/-- Texts are put in one order, however they come. -/
theorem sorted_eq_of_perm {l l' : List String} (hperm : l.Perm l') : sorted l = sorted l' :=
  List.Perm.eq_of_pairwise (fun _ _ _ _ hle hge => le_antisymm hle hge) (pairwise_sorted l) (pairwise_sorted l')
    ((perm_sorted l).trans (hperm.trans (perm_sorted l').symm))

end Text

/-! ### Files of a directory -/

namespace Tree

variable {t : Tree} {spot s : Spot} {x : String}

/-- The name of a file directly in a directory. -/
def nameIn? (spot f : Spot) : Option String :=
  match f.getLast? with
  | some name => if f.dropLast = spot then some name else none
  | none => none

theorem fileNamesIn_eq (t : Tree) (spot : Spot) : t.fileNamesIn spot = t.files.filterMap (nameIn? spot) := rfl

theorem nameIn?_eq_some_iff {f : Spot} : nameIn? spot f = some x ↔ f = spot ++ [x] := by
  rw [nameIn?]
  cases hlast : f.getLast? with
  | none => simp [List.getLast?_eq_none_iff.1 hlast]
  | some name =>
      obtain ⟨dir, rfl⟩ := List.getLast?_eq_some_iff.1 hlast
      by_cases hdir : dir = spot <;> simp [hdir]

theorem mem_fileNamesIn_iff : x ∈ t.fileNamesIn spot ↔ spot ++ [x] ∈ t.files := by
  simp [fileNamesIn_eq, nameIn?_eq_some_iff]

theorem files_erase (t : Tree) (s : Spot) : (t.erase s).files = t.files.filter (· ≠ s) := by
  rw [files, files, erase, List.filterMap_filter, List.filter_filterMap]
  congr 1
  funext e
  obtain ⟨spot, entry⟩ := e
  cases entry with
  | directory => simp
  | file bytes => by_cases hspot : spot = s <;> simp [Option.filter, hspot]

theorem files_put_file (t : Tree) (s : Spot) (bytes : ByteArray) :
    (t.put s (.file bytes)).files = s :: t.files.filter (· ≠ s) := by
  rw [← files_erase]
  rfl

/-- A directory lists its files, each of them once. -/
structure Lists (t : Tree) (spot : Spot) : Prop where
  nodup : (t.fileNamesIn spot).Nodup
  mem_iff : ∀ x, x ∈ t.fileNamesIn spot ↔ (t.fileAt? (spot ++ [x])).isSome

/-- A directory without anything in it lists nothing. -/
theorem Lists.of_empty (hempty : ∀ x, t.entry? (spot ++ [x]) = none) : t.Lists spot := by
  have hnames : t.fileNamesIn spot = [] := by
    refine List.eq_nil_iff_forall_not_mem.2 fun x hx => ?_
    obtain ⟨e, he, heq⟩ := List.mem_filterMap.1 (mem_fileNamesIn_iff.1 hx)
    have hplace : e.1 = spot ++ [x] := by
      cases hentry : e.2 <;> simp [hentry] at heq
      exact heq
    have hnone := hempty x
    rw [entry?_of_ne t (by simp)] at hnone
    exact find?_eq_none_iff.1 hnone e he hplace
  exact ⟨by simp [hnames], fun x => by simp [hnames, fileAt?, hempty]⟩

theorem nodup_fileNamesIn_erase (hnodup : (t.fileNamesIn spot).Nodup) (s : Spot) :
    ((t.erase s).fileNamesIn spot).Nodup := by
  rw [fileNamesIn_eq, files_erase]
  exact hnodup.sublist (List.filter_sublist.filterMap _)

theorem mem_fileNamesIn_erase : x ∈ (t.erase s).fileNamesIn spot ↔ x ∈ t.fileNamesIn spot ∧ spot ++ [x] ≠ s := by
  simp [mem_fileNamesIn_iff, files_erase]

/-- **What is listed after a file was taken away.** -/
theorem Lists.erase (hlists : t.Lists spot) (hs : s ≠ []) : (t.erase s).Lists spot where
  nodup := nodup_fileNamesIn_erase hlists.nodup s
  mem_iff x := by
    rw [mem_fileNamesIn_erase, hlists.mem_iff, fileAt?_erase t hs]
    by_cases heq : spot ++ [x] = s <;> simp [heq]

/-- **What is listed after a file was put.** -/
theorem Lists.put_file (hlists : t.Lists spot) (hs : s ≠ []) (bytes : ByteArray) :
    (t.put s (.file bytes)).Lists spot where
  nodup := by
    have hrest := nodup_fileNamesIn_erase hlists.nodup s
    rw [fileNamesIn_eq] at hrest ⊢
    rw [files_put_file, ← files_erase, List.filterMap_cons]
    cases hname : nameIn? spot s with
    | none => exact hrest
    | some name =>
        refine List.nodup_cons.2 ⟨fun hmem => ?_, hrest⟩
        exact (mem_fileNamesIn_erase.1 hmem).2 (nameIn?_eq_some_iff.1 hname).symm
  mem_iff x := by
    rw [mem_fileNamesIn_iff, files_put_file, fileAt?_put_file t hs, List.mem_cons, List.mem_filter]
    by_cases heq : spot ++ [x] = s
    · simp [heq]
    · simpa [heq, mem_fileNamesIn_iff] using hlists.mem_iff x

end Tree

/-! ### Names of profiles -/

namespace Profile

theorem endsWith_extension_iff {x : String} : x.endsWith extension = true ↔ ∃ name, x = name ++ extension := by
  rw [String.endsWith, String.Slice.endsWith_string_iff, String.copy_toSlice]
  constructor
  · rintro ⟨front, hfront⟩
    exact ⟨String.ofList front, String.toList_inj.1 (by rw [String.toList_append, String.toList_ofList, hfront])⟩
  · rintro ⟨name, rfl⟩
    exact ⟨name.toList, String.toList_append.symm⟩

/-- The name of a profile comes back from that of its file. -/
theorem nameOfFile?_append {name : String} (hname : name ≠ "") : nameOfFile? (name ++ extension) = some name := by
  have hne : name ++ extension ≠ extension := fun heq => hname (by simpa using heq)
  rw [nameOfFile?, if_pos (endsWith_extension_iff.2 ⟨name, rfl⟩), if_neg hne]
  have hlength : (name ++ extension).length - extension.length = name.toList.length := by
    rw [String.length_append, Nat.add_sub_cancel, String.length_toList]
  rw [hlength, String.toList_append, List.take_left, String.ofList_toList]

/-- The names that are listed are not empty, and nothing but the end stands whole. -/
theorem eq_of_nameOfFile? {x name : String} (h : nameOfFile? x = some name) :
    name ≠ "" ∧ (x = name ++ extension ∨ x = extension ∧ name = extension) := by
  by_cases hend : x.endsWith extension = true
  · obtain ⟨stem, rfl⟩ := endsWith_extension_iff.1 hend
    by_cases hstem : stem = ""
    · have hwhole : stem ++ extension = extension := by rw [hstem, String.empty_append]
      rw [nameOfFile?, if_pos hend, if_pos hwhole, hwhole] at h
      obtain rfl := Option.some_inj.1 h
      exact ⟨by decide, .inr ⟨hwhole, rfl⟩⟩
    · rw [nameOfFile?_append hstem] at h
      obtain rfl := Option.some_inj.1 h
      exact ⟨hstem, .inl rfl⟩
  · rw [nameOfFile?, if_neg hend] at h
    cases h

/-! ### Profiles that are kept -/

open Act

/-- What is listed once the directory was had. -/
theorem exec_saved_of_directory {h k : Host} {dir : Path} {spot : Spot}
    (hdir : exec directory h = (.ok dir, k)) (hspot : k.files.follow k.workDir dir = .ok spot) :
    exec saved h = (.ok (Text.sorted ((k.files.fileNamesIn spot).filterMap nameOfFile?)), k) := by
  have hask : exec (Act.ask (·.spotOf dir)) k = (.ok spot, k) := by
    rw [exec_ask, Host.spotOf, Host.unforeseen, hspot]
    rfl
  rw [saved, exec_bind_ok hdir, exec_bind_ok hask, exec_bind_ok (exec_get k)]
  rfl

end Profile

end Restline
