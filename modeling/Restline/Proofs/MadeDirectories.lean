import Mathlib.Data.List.Basic
import Restline.Files.Tree
import Restline.Proofs.Results

/-!
Directories that are made. Nothing but directories is put into a tree then, and only into free places, so that
every file is as before and every way can still be gone. A directory that was made stands: as long as no directory
is taken away, nothing has to be made for it again.

* `Tree.entry?_put`, `Tree.entry?_erase` : what stands where after a change.
* `Tree.KeepsDirectories`, `Tree.follow_of_keepsDirectories` : trees where directories are kept, and ways that can
  still be gone.
* `Tree.makeDirs_induction`, `Tree.fileAt?_makeDirs` : **making directories changes no file**.
* `Tree.Stands`, `Tree.exists_stands_of_makeDirs` : **a directory that was made stands**.
-/

set_option autoImplicit false

namespace Restline

namespace Tree

variable {t t' : Tree} {cwd spot s : Spot} {p : Path}

/-! ### What stands where -/

theorem entry?_of_ne (t : Tree) (hs : s ≠ []) : t.entry? s = find? t.entries s := by
  cases s with
  | nil => exact absurd rfl hs
  | cons name rest => rfl

theorem find?_eq_none_iff {entries : List (Spot × FileEntry)} :
    find? entries s = none ↔ ∀ e ∈ entries, e.1 ≠ s := by
  induction entries with
  | nil => simp [find?]
  | cons e rest ih =>
      obtain ⟨k, v⟩ := e
      by_cases hk : k = s <;> simp [find?, hk, ih]

theorem find?_filter_ne (entries : List (Spot × FileEntry)) (spot s : Spot) :
    find? (entries.filter fun e => e.1 ≠ spot) s = if s = spot then none else find? entries s := by
  induction entries with
  | nil => simp [find?]
  | cons e rest ih =>
      obtain ⟨k, v⟩ := e
      by_cases hk : k = spot
      · rw [List.filter_cons_of_neg (by simp [hk]), ih, find?]
        split
        · rfl
        · rename_i hs
          rw [if_neg (fun heq => hs (heq.symm.trans hk))]
      · rw [List.filter_cons_of_pos (by simp [hk]), find?, find?, ih]
        by_cases hs : k = s
        · rw [if_pos hs, if_pos hs, if_neg (fun heq => hk (hs.trans heq))]
        · rw [if_neg hs, if_neg hs]

theorem entry?_erase (t : Tree) (hspot : spot ≠ []) (s : Spot) :
    entry? (t.erase spot) s = if s = spot then none else t.entry? s := by
  by_cases hs : s = []
  · rw [hs, if_neg (Ne.symm hspot)]
    rfl
  · rw [entry?_of_ne _ hs, entry?_of_ne _ hs, erase, find?_filter_ne]

theorem entry?_put (t : Tree) (hspot : spot ≠ []) (e : FileEntry) (s : Spot) :
    entry? (t.put spot e) s = if s = spot then some e else t.entry? s := by
  by_cases hs : s = []
  · rw [hs, if_neg (Ne.symm hspot)]
    rfl
  · rw [entry?_of_ne _ hs, entry?_of_ne _ hs, put, find?, erase, find?_filter_ne]
    simp only [eq_comm]
    split <;> rfl

/-- The root is not free. -/
theorem ne_nil_of_entry?_eq_none (h : t.entry? spot = none) : spot ≠ [] := by
  rintro rfl
  cases h

theorem ne_nil_of_entry?_ne (h : t.entry? spot ≠ some .directory) : spot ≠ [] := by
  rintro rfl
  exact h rfl

theorem fileAt?_eq_none_of_entry?_eq_none (h : t.entry? spot = none) : t.fileAt? spot = none := by
  rw [fileAt?, h]

/-- Nothing has to be taken away from a free place. -/
theorem erase_of_free (hfree : t.entry? spot = none) : t.erase spot = t := by
  have hnone := find?_eq_none_iff.1 (entry?_of_ne t (ne_nil_of_entry?_eq_none hfree) ▸ hfree)
  rw [erase, List.filter_eq_self.2 fun e he => decide_eq_true (hnone e he)]

/-- A directory in a free place is no change to any file. -/
theorem fileAt?_put_directory (h : t.entry? spot = none) (s : Spot) :
    (t.put spot .directory).fileAt? s = t.fileAt? s := by
  rw [fileAt?, entry?_put t (ne_nil_of_entry?_eq_none h)]
  by_cases hs : s = spot
  · rw [if_pos hs, hs, fileAt?_eq_none_of_entry?_eq_none h]
  · rw [if_neg hs, fileAt?]

theorem fileAt?_put_file (t : Tree) (hspot : spot ≠ []) (bytes : ByteArray) (s : Spot) :
    (t.put spot (.file bytes)).fileAt? s = if s = spot then some bytes else t.fileAt? s := by
  rw [fileAt?, entry?_put t hspot]
  by_cases hs : s = spot
  · rw [if_pos hs, if_pos hs]
  · rw [if_neg hs, if_neg hs, fileAt?]

theorem fileAt?_erase (t : Tree) (hspot : spot ≠ []) (s : Spot) :
    (t.erase spot).fileAt? s = if s = spot then none else t.fileAt? s := by
  rw [fileAt?, entry?_erase t hspot]
  by_cases hs : s = spot
  · rw [if_pos hs, if_pos hs]
  · rw [if_neg hs, if_neg hs, fileAt?]

/-! ### Directories that are kept -/

/-- Every directory of a tree stands in another. -/
def KeepsDirectories (t t' : Tree) : Prop := ∀ s, t.entry? s = some .directory → t'.entry? s = some .directory

theorem KeepsDirectories.refl (t : Tree) : t.KeepsDirectories t := fun _ h => h

theorem KeepsDirectories.trans {t'' : Tree} (h : t.KeepsDirectories t') (h' : t'.KeepsDirectories t'') :
    t.KeepsDirectories t'' := fun s hs => h' s (h s hs)

/-- Where no directory stood, anything may be put. -/
theorem keepsDirectories_put (hspot : t.entry? spot ≠ some .directory) (e : FileEntry) :
    t.KeepsDirectories (t.put spot e) := by
  intro s hs
  have hne : s ≠ spot := by
    rintro rfl
    exact hspot hs
  rw [entry?_put t (ne_nil_of_entry?_ne hspot), if_neg hne, hs]

theorem keepsDirectories_put_of_free (hfree : t.entry? spot = none) : t.KeepsDirectories (t.put spot .directory) :=
  keepsDirectories_put (by simp [hfree]) .directory

/-- Where no directory stood, anything may be taken away. -/
theorem keepsDirectories_erase (hspot : t.entry? spot ≠ some .directory) : t.KeepsDirectories (t.erase spot) := by
  intro s hs
  have hne : s ≠ spot := by
    rintro rfl
    exact hspot hs
  rw [entry?_erase t (ne_nil_of_entry?_ne hspot), if_neg hne, hs]

/-! ### Ways -/

/-- Where a name leads from a place. -/
def next (spot : Spot) (name : String) : Spot := if name = ".." then spot.dropLast else spot ++ [name]

/-- A step along a name can be taken from a directory, if the name is not too long. -/
theorem followFrom_cons_eq_ok_iff {name : String} {rest : List String} {r : Spot} :
    t.followFrom s (name :: rest) = .ok r ↔
      t.entry? s = some .directory ∧ (name = ".." ∨ name.utf8ByteSize ≤ maxName) ∧
        t.followFrom (next s name) rest = .ok r := by
  rw [followFrom]
  cases t.entry? s with
  | none => simp
  | some e =>
      cases e with
      | file bytes => simp
      | directory =>
          by_cases hdots : name = ".."
          · simp [next, hdots]
          · by_cases hlong : maxName < name.utf8ByteSize
            · simp [hdots, hlong, Nat.not_le.2 hlong]
            · simp [next, hdots, hlong, Nat.not_lt.1 hlong]

theorem followFrom_singleton_eq_ok_iff {name : String} {r : Spot} :
    t.followFrom s [name] = .ok r ↔
      t.entry? s = some .directory ∧ (name = ".." ∨ name.utf8ByteSize ≤ maxName) ∧ r = next s name := by
  rw [followFrom_cons_eq_ok_iff, followFrom, Except.ok.injEq, @eq_comm _ r]

theorem followFrom_append_eq_ok_iff {names rest : List String} :
    ∀ {s r : Spot}, t.followFrom s (names ++ rest) = .ok r ↔
      ∃ dir, t.followFrom s names = .ok dir ∧ t.followFrom dir rest = .ok r := by
  induction names with
  | nil => simp [followFrom]
  | cons name names ih =>
      intro s r
      rw [List.cons_append, followFrom_cons_eq_ok_iff, ih]
      simp only [followFrom_cons_eq_ok_iff]
      constructor
      · rintro ⟨hdir, hname, dir, hway, hrest⟩
        exact ⟨dir, ⟨hdir, hname, hway⟩, hrest⟩
      · rintro ⟨dir, ⟨hdir, hname, hway⟩, hrest⟩
        exact ⟨hdir, hname, dir, hway, hrest⟩

/-- A way that can be gone can still be gone where directories are kept. -/
theorem followFrom_of_keepsDirectories (hkeeps : t.KeepsDirectories t') (names : List String) :
    ∀ {s r : Spot}, t.followFrom s names = .ok r → t'.followFrom s names = .ok r := by
  induction names with
  | nil => exact fun h => h
  | cons name rest ih =>
      intro s r h
      obtain ⟨hdir, hname, hrest⟩ := followFrom_cons_eq_ok_iff.1 h
      exact followFrom_cons_eq_ok_iff.2 ⟨hkeeps s hdir, hname, ih hrest⟩

theorem follow_of_keepsDirectories (hkeeps : t.KeepsDirectories t') (h : t.follow cwd p = .ok spot) :
    t'.follow cwd p = .ok spot := by
  obtain ⟨u, hadmissible, hway⟩ := Except.bind_eq_ok_iff.1 h
  exact Except.bind_eq_ok_iff.2 ⟨u, hadmissible, followFrom_of_keepsDirectories hkeeps _ hway⟩

/-! ### Directories -/

/-- Making a directory leaves the tree as it is, or takes a free place. -/
theorem makeDir_eq_ok {last : Bool} (h : t.makeDir cwd p last = .ok t') :
    ∃ spot, t.follow cwd p = .ok spot ∧ (t' = t ∨ (t.entry? spot = none ∧ t' = t.put spot .directory)) := by
  obtain ⟨spot, hspot, h⟩ := Except.bind_eq_ok_iff.1 h
  refine ⟨spot, hspot, ?_⟩
  cases hentry : t.entry? spot with
  | none =>
      rw [hentry] at h
      exact .inr ⟨rfl, (Except.ok.inj h).symm⟩
  | some e =>
      rw [hentry] at h
      cases e with
      | directory => exact .inl (Except.ok.inj h).symm
      | file bytes =>
          cases last with
          | true => cases h
          | false => exact .inl (Except.ok.inj h).symm

/-- Making directories only puts directories into free places, also when it fails on the way. -/
theorem makeDirsFrom_induction {P : Tree → Prop}
    (hput : ∀ t spot, t.entry? spot = none → P t → P (t.put spot .directory)) (names : List String) :
    ∀ (t : Tree) (p : Path), P t → P (t.makeDirsFrom cwd p names).2 := by
  induction names with
  | nil => exact fun _ _ ht => ht
  | cons name rest ih =>
      intro t p ht
      rw [makeDirsFrom]
      cases hmade : t.makeDir cwd ⟨p.root, p.names ++ [name]⟩ rest.isEmpty with
      | error f => exact ht
      | ok t' =>
          obtain ⟨spot, -, rfl | ⟨hfree, rfl⟩⟩ := makeDir_eq_ok hmade
          · exact ih _ _ ht
          · exact ih _ _ (hput t spot hfree ht)

theorem makeDirs_induction {P : Tree → Prop}
    (hput : ∀ t spot, t.entry? spot = none → P t → P (t.put spot .directory)) (ht : P t) (p : Path) :
    P (t.makeDirs cwd p).2 := by
  rw [makeDirs]
  cases admissible p with
  | error f => exact ht
  | ok _ => exact makeDirsFrom_induction hput p.names t _ ht

/-- **Making directories changes no file**, also when it fails on the way. -/
theorem fileAt?_makeDirs (t : Tree) (cwd : Spot) (p : Path) (s : Spot) :
    (t.makeDirs cwd p).2.fileAt? s = t.fileAt? s :=
  makeDirs_induction (P := fun t' => t'.fileAt? s = t.fileAt? s)
    (fun _ _ hfree hs => (fileAt?_put_directory hfree s).trans hs) rfl p

theorem keepsDirectories_makeDirs (t : Tree) (cwd : Spot) (p : Path) : t.KeepsDirectories (t.makeDirs cwd p).2 :=
  makeDirs_induction (fun _ _ hfree hkeeps => hkeeps.trans (keepsDirectories_put_of_free hfree)) (.refl t) p

theorem keepsDirectories_makeDirsFrom {names : List String} (h : t.makeDirsFrom cwd p names = (none, t')) :
    t.KeepsDirectories t' := by
  have hkeeps : t.KeepsDirectories (t.makeDirsFrom cwd p names).2 :=
    makeDirsFrom_induction (fun _ _ hfree hkeeps => hkeeps.trans (keepsDirectories_put_of_free hfree)) names t p
      (.refl t)
  rwa [h] at hkeeps

/-- What stands in a place that was asked for: a directory, or a file where more names follow. -/
theorem place_of_makeDir {last : Bool} (h : t.makeDir cwd p last = .ok t') :
    ∃ spot, t'.follow cwd p = .ok spot ∧
      (t'.entry? spot = some .directory ∨ last = false ∧ (t'.fileAt? spot).isSome) := by
  obtain ⟨spot, hspot, h⟩ := Except.bind_eq_ok_iff.1 h
  cases hentry : t.entry? spot with
  | none =>
      rw [hentry] at h
      obtain rfl := Except.ok.inj h
      refine ⟨spot, follow_of_keepsDirectories (keepsDirectories_put_of_free hentry) hspot, .inl ?_⟩
      rw [entry?_put t (ne_nil_of_entry?_eq_none hentry), if_pos rfl]
  | some e =>
      rw [hentry] at h
      cases e with
      | directory =>
          obtain rfl := Except.ok.inj h
          exact ⟨spot, hspot, .inl hentry⟩
      | file bytes =>
          cases last with
          | true => cases h
          | false =>
              obtain rfl := Except.ok.inj h
              exact ⟨spot, hspot, .inr ⟨rfl, by rw [fileAt?, hentry]; rfl⟩⟩

/-- All directories along names are made exactly if the first one is, and then those along the rest. -/
theorem makeDirsFrom_cons_iff {name : String} {rest : List String} :
    t.makeDirsFrom cwd p (name :: rest) = (none, t') ↔
      ∃ made, t.makeDir cwd ⟨p.root, p.names ++ [name]⟩ rest.isEmpty = .ok made ∧
        made.makeDirsFrom cwd ⟨p.root, p.names ++ [name]⟩ rest = (none, t') := by
  rw [makeDirsFrom]
  cases t.makeDir cwd ⟨p.root, p.names ++ [name]⟩ rest.isEmpty <;> simp

theorem makeDirs_iff :
    t.makeDirs cwd p = (none, t') ↔
      admissible p = .ok () ∧ t.makeDirsFrom cwd ⟨p.root, []⟩ p.names = (none, t') := by
  rw [makeDirs]
  cases admissible p <;> simp

/-- Where the way goes on, a directory stands in each place that was asked for. -/
theorem directory_of_makeDir {t'' : Tree} {rest : List String} (h : t.makeDir cwd p rest.isEmpty = .ok t')
    (hrest : t'.makeDirsFrom cwd p rest = (none, t'')) :
    ∃ spot, t'.follow cwd p = .ok spot ∧ t'.entry? spot = some .directory := by
  obtain ⟨spot, hway, hdir | ⟨hlast, hfile⟩⟩ := place_of_makeDir h
  · exact ⟨spot, hway, hdir⟩
  cases rest with
  | nil => cases hlast
  | cons name rest =>
      -- behind a file there is no way to the next name
      obtain ⟨made, hmade, -⟩ := makeDirsFrom_cons_iff.1 hrest
      obtain ⟨next, hnext, -⟩ := makeDir_eq_ok hmade
      obtain ⟨-, -, hspot⟩ := Except.bind_eq_ok_iff.1 hway
      obtain ⟨-, -, hnext⟩ := Except.bind_eq_ok_iff.1 hnext
      obtain ⟨dir, hdir, hlast⟩ := followFrom_append_eq_ok_iff.1 hnext
      obtain rfl := Except.ok.inj (hdir.symm.trans hspot)
      exact ⟨dir, hway, (followFrom_singleton_eq_ok_iff.1 hlast).1⟩

/-- Where one name is left, a directory stands in the end. -/
theorem directory_of_makeDirsFrom (names : List String) :
    ∀ {t t' : Tree} {p : Path}, t.makeDirsFrom cwd p names = (none, t') →
      (names = [] → ∃ spot, t.follow cwd p = .ok spot ∧ t.entry? spot = some .directory) →
        ∃ spot, t'.follow cwd ⟨p.root, p.names ++ names⟩ = .ok spot ∧ t'.entry? spot = some .directory := by
  induction names with
  | nil =>
      intro t t' p h hway
      obtain rfl := (Prod.mk.inj h).2
      simpa using hway rfl
  | cons name rest ih =>
      intro t t' p h _
      obtain ⟨made, hmade, hrest⟩ := makeDirsFrom_cons_iff.1 h
      simpa using ih hrest fun _ => directory_of_makeDir hmade hrest

/-- A path with names leads to a directory that was made. -/
theorem directory_of_makeDirs (hnames : p.names ≠ []) (h : t.makeDirs cwd p = (none, t')) :
    ∃ spot, t'.follow cwd p = .ok spot ∧ t'.entry? spot = some .directory := by
  simpa using directory_of_makeDirsFrom p.names (makeDirs_iff.1 h).2 fun hnil => absurd hnil hnames

/-- **A directory that was made can be reached.** -/
theorem exists_follow_of_makeDirs (h : t.makeDirs cwd p = (none, t')) :
    ∃ spot, t'.follow cwd p = .ok spot := by
  by_cases hnames : p.names = []
  · refine ⟨if p.isAbsolute then [] else cwd, ?_⟩
    rw [follow, (makeDirs_iff.1 h).1, hnames]
    rfl
  · exact (directory_of_makeDirs hnames h).imp fun _ hspot => hspot.1

/-! ### Directories that stand -/

/-- A directory stands at the end of a path, and so does all on the way to it: nothing has to be made. -/
structure Stands (t : Tree) (cwd : Spot) (p : Path) (spot : Spot) : Prop where
  made : t.makeDirs cwd p = (none, t)
  way : t.follow cwd p = .ok spot
  directory : t.entry? spot = some .directory

/-- What was made need not be made again where directories are kept. -/
theorem makeDirsFrom_of_keepsDirectories (names : List String) :
    ∀ {t t' t'' : Tree} {p : Path}, t.makeDirsFrom cwd p names = (none, t') → t'.KeepsDirectories t'' →
      t''.makeDirsFrom cwd p names = (none, t'') := by
  induction names with
  | nil => exact fun _ _ => rfl
  | cons name rest ih =>
      intro t t' t'' p h hkeeps
      obtain ⟨made, hmade, hrest⟩ := makeDirsFrom_cons_iff.1 h
      obtain ⟨spot, hway, hdir⟩ := directory_of_makeDir hmade hrest
      have hall := (keepsDirectories_makeDirsFrom hrest).trans hkeeps
      have hthere : t''.makeDir cwd ⟨p.root, p.names ++ [name]⟩ rest.isEmpty = .ok t'' := by
        rw [makeDir, follow_of_keepsDirectories hall hway, Except.ok_bind, hall spot hdir]
      exact makeDirsFrom_cons_iff.2 ⟨t'', hthere, ih hrest hkeeps⟩

theorem makeDirs_of_keepsDirectories {t'' : Tree} (h : t.makeDirs cwd p = (none, t'))
    (hkeeps : t'.KeepsDirectories t'') : t''.makeDirs cwd p = (none, t'') := by
  obtain ⟨hadmissible, hfrom⟩ := makeDirs_iff.1 h
  exact makeDirs_iff.2 ⟨hadmissible, makeDirsFrom_of_keepsDirectories p.names hfrom hkeeps⟩

/-- **A directory that was made stands.** -/
theorem exists_stands_of_makeDirs (hnames : p.names ≠ []) (h : t.makeDirs cwd p = (none, t')) :
    ∃ spot, t'.Stands cwd p spot := by
  obtain ⟨spot, hway, hdir⟩ := directory_of_makeDirs hnames h
  exact ⟨spot, makeDirs_of_keepsDirectories h (.refl t'), hway, hdir⟩

theorem Stands.of_keepsDirectories (h : t.Stands cwd p spot) (hkeeps : t.KeepsDirectories t') :
    t'.Stands cwd p spot where
  made := makeDirs_of_keepsDirectories h.made hkeeps
  way := follow_of_keepsDirectories hkeeps h.way
  directory := hkeeps spot h.directory

end Tree

end Restline
