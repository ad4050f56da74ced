import Restline.Proofs.ListedTree

/-!
Commands that segments lead to. There are two ways through an index: one says what segments address, if anything,
and one finds the document of a command or says why there is none. They agree: a command is found exactly where one
is addressed and it has the version that is asked for, or any if none is asked for, and each of the failures stands
for one of the other things that can be addressed.

* `Entry.Offers` : the version that counts.
* `Group.find_of_nodeAt_group`, `Group.exists_find_of_nodeAt_none` : groups, and segments that address nothing.
* `Index.locate_of_command` : a command that is addressed is found, if it has the version.
* `Index.faultKind?` : the kind of the failure to find a command.
* `Index.locate_outcomes` : **the two ways agree**.
-/

set_option autoImplicit false

namespace Restline

/-! ### Versions -/

theorem Text.greatest?_eq_max? (l : List String) : greatest? l = l.max? := by
  cases l with
  | nil => rfl
  | cons s r =>
      have hmax : (fun m t : String => if m < t then t else m) = max := by
        funext m t
        rw [max_def_lt]
      rw [greatest?, hmax, List.max?_cons']

namespace Entry

variable {e : Entry} {segments : List String} {version : Option String} {v : String}

theorem latest?_eq_some_iff : e.latest? = some v ↔ v ∈ e.versions ∧ ∀ w ∈ e.versions, w ≤ v := by
  rw [latest?, Text.greatest?_eq_max?, List.max?_eq_some_iff]

theorem latest?_eq_none_iff : e.latest? = none ↔ e.versions = [] := by
  rw [latest?, Text.greatest?_eq_max?, List.max?_eq_none_iff]

/-- The command has the version, and it is the one that is asked for or, if none is asked for, none of the versions
is greater. -/
def Offers (e : Entry) (version : Option String) (v : String) : Prop :=
  v ∈ e.versions ∧
    match version with
    | some w => v = w
    | none => ∀ w ∈ e.versions, w ≤ v

theorem resolve_some (e : Entry) (segments : List String) (w : String) :
    e.resolve segments (some w) = if w ∈ e.versions then .ok w else .error (.versionNotOffered w) := by
  simp only [resolve, List.contains_iff_mem]

theorem resolve_eq_ok_iff_offers : e.resolve segments version = .ok v ↔ e.Offers version v := by
  cases version with
  | some w =>
      rw [resolve_some, Offers]
      split
      · rename_i hw
        exact ⟨fun h => Except.ok.inj h ▸ ⟨hw, rfl⟩, fun h => by rw [h.2]⟩
      · rename_i hw
        exact iff_of_false (fun h => nomatch h) fun h => hw (h.2 ▸ h.1)
  | none =>
      rw [resolve, Offers, ← latest?_eq_some_iff]
      cases e.latest? <;> simp

/-- The kind of the failure where the command lacks the version that is asked for, or has none. -/
def versionFault? (e : Entry) : Option String → Option FaultKind
  | some v => if v ∈ e.versions then none else some .versionNotFound
  | none => if e.versions = [] then some .integrity else none

theorem versionFault?_eq_some_iff {k : FaultKind} :
    e.versionFault? version = some k ↔
      (k = .versionNotFound ∧ ∃ w, version = some w ∧ w ∉ e.versions) ∨
        (k = .integrity ∧ version = none ∧ e.versions = []) := by
  cases version <;> simp [versionFault?, eq_comm, and_comm]

theorem kind_of_resolve_eq_error {f : LocateFault} (h : e.resolve segments version = .error f) :
    e.versionFault? version = some f.kind := by
  cases version with
  | some w =>
      rw [resolve_some] at h
      split at h
      · cases h
      · rename_i hw
        obtain rfl := Except.error.inj h
        rw [versionFault?, if_neg hw, LocateFault.kind]
  | none =>
      rw [resolve] at h
      cases hlatest : e.latest? with
      | some v =>
          rw [hlatest] at h
          cases h
      | none =>
          rw [hlatest] at h
          obtain rfl := Except.error.inj h
          rw [versionFault?, if_pos (latest?_eq_none_iff.1 hlatest), LocateFault.kind]

theorem versionFault?_of_offers (h : e.Offers version v) : e.versionFault? version = none := by
  cases version with
  | some w => rw [versionFault?, if_pos (h.2 ▸ h.1)]
  | none => rw [versionFault?, if_neg (List.ne_nil_of_mem h.1)]

end Entry

/-! ### Groups -/

namespace Group

variable {g g' : Group} {segments : List String}

theorem nodeAt_ne_index {i : Index} : g.nodeAt segments ≠ some (.index i) := by
  induction segments generalizing g with
  | nil => exact fun h => nomatch h
  | cons s rest ih =>
      rw [nodeAt_cons]
      split
      · exact ih
      · split <;> exact fun h => nomatch h

/-- From a group, segments that lead to a group find no command. -/
theorem find_of_nodeAt_group (path : List String) (h : g.nodeAt segments = some (.group g')) :
    g.find path segments = .error (.isGroup (path ++ segments)) := by
  induction segments generalizing g path with
  | nil => rw [find, List.append_nil]
  | cons s rest ih =>
      obtain ⟨k, hk, hrest⟩ := exists_of_nodeAt_cons h
      rw [find_cons, hk]
      exact (ih (path ++ [s]) hrest).trans (by rw [List.append_assoc, List.singleton_append])

/-- Segments that address nothing find nothing: one of them is unknown, or it comes after a command. -/
theorem exists_find_of_nodeAt_none (path : List String) (h : g.nodeAt segments = none) :
    ∃ f, g.find path segments = .error f ∧ f.kind = .unknownSegment := by
  induction segments generalizing g path with
  | nil => cases h
  | cons s rest ih =>
      rw [nodeAt_cons] at h
      rw [find_cons]
      cases hs : g.groups.get? s with
      | some k =>
          rw [hs] at h
          exact ih (path ++ [s]) h
      | none =>
          rw [hs] at h
          cases hc : g.commands.get? s with
          | none => exact ⟨_, rfl, rfl⟩
          | some e =>
              rw [hc] at h
              cases rest with
              | nil => cases h
              | cons x r => exact ⟨_, rfl, rfl⟩

end Group

/-! ### The index -/

namespace Index

variable {i : Index} {segments : List String} {version : Option String} {e : Entry}

/-- A command that is addressed is found, at the version that is resolved. -/
theorem locate_of_command (h : i.nodeAt segments = some (.command e)) :
    i.locate segments version = (e.resolve segments version).map fun v => ⟨segments, v, e⟩ := by
  cases segments with
  | nil => cases h
  | cons s rest =>
      obtain ⟨g, hg, hrest⟩ := Option.bind_eq_some_iff.1 h
      rw [locate, hg]
      simp only [Group.find_of_nodeAt [s] hrest, Except.ok_bind, List.singleton_append]
      cases e.resolve (s :: rest) version <;> rfl

theorem exists_locate_of_none (version : Option String) (h : i.nodeAt segments = none) :
    ∃ f, i.locate segments version = .error f ∧ f.kind = .unknownSegment := by
  cases segments with
  | nil => cases h
  | cons s rest =>
      rw [locate]
      cases hg : i.groups.get? s with
      | none => exact ⟨_, rfl, rfl⟩
      | some g =>
          rw [nodeAt, hg] at h
          obtain ⟨f, hf, hkind⟩ := Group.exists_find_of_nodeAt_none [s] h
          exact ⟨f, by simp only [hf, Except.error_bind], hkind⟩

theorem exists_locate_of_group {g' : Group} (version : Option String)
    (h : i.nodeAt segments = some (.group g')) :
    ∃ f, i.locate segments version = .error f ∧ f.kind = .incompleteCommand := by
  cases segments with
  | nil => cases h
  | cons s rest =>
      obtain ⟨g, hg, hrest⟩ := Option.bind_eq_some_iff.1 h
      refine ⟨.isGroup ([s] ++ rest), ?_, rfl⟩
      rw [locate, hg]
      simp only [Group.find_of_nodeAt_group [s] hrest, Except.error_bind]

/-- Only no segments at all address an index, which is the whole one. -/
theorem nodeAt_eq_index_iff {j : Index} : i.nodeAt segments = some (.index j) ↔ segments = [] ∧ j = i := by
  cases segments with
  | nil => simp [nodeAt, eq_comm]
  | cons s rest =>
      refine iff_of_false (fun h => ?_) fun h => absurd h.1 (List.cons_ne_nil _ _)
      obtain ⟨g, -, hrest⟩ := Option.bind_eq_some_iff.1 h
      exact Group.nodeAt_ne_index hrest

/-- The kind of the failure to find a command. -/
def faultKind? (i : Index) (segments : List String) (version : Option String) : Option FaultKind :=
  match i.locate segments version with
  | .ok _ => none
  | .error f => some f.kind

theorem faultKind?_of_error {f : LocateFault} (h : i.locate segments version = .error f) :
    i.faultKind? segments version = some f.kind := by
  rw [faultKind?, h]

/-- A command that is addressed is found exactly if it has the version. -/
theorem faultKind?_of_command (h : i.nodeAt segments = some (.command e)) :
    i.faultKind? segments version = e.versionFault? version := by
  rw [faultKind?, locate_of_command h]
  cases hv : e.resolve segments version with
  | ok v => exact (Entry.versionFault?_of_offers (Entry.resolve_eq_ok_iff_offers.1 hv)).symm
  | error f => exact (Entry.kind_of_resolve_eq_error hv).symm

/-- The kind of the failure, by what the segments address. -/
theorem faultKind?_eq_some_iff {k : FaultKind} :
    i.faultKind? segments version = some k ↔
      (k = .unknownSegment ∧ i.nodeAt segments = none) ∨
        (k = .incompleteCommand ∧
          (i.nodeAt segments = some (.index i) ∨ ∃ g, i.nodeAt segments = some (.group g))) ∨
        ∃ e, i.nodeAt segments = some (.command e) ∧ e.versionFault? version = some k := by
  cases hnode : i.nodeAt segments with
  | none =>
      obtain ⟨f, hf, hkind⟩ := exists_locate_of_none version hnode
      simp [faultKind?_of_error hf, hkind, eq_comm]
  | some node =>
      cases node with
      | index j =>
          obtain ⟨rfl, rfl⟩ := nodeAt_eq_index_iff.1 hnode
          simp [faultKind?_of_error (rfl : j.locate [] version = .error .noCommand), LocateFault.kind, eq_comm]
      | group g =>
          obtain ⟨f, hf, hkind⟩ := exists_locate_of_group version hnode
          simp [faultKind?_of_error hf, hkind, eq_comm]
      | command e => simp [faultKind?_of_command hnode]

theorem locate_eq_ok_iff_offers {l : Location} :
    i.locate segments version = .ok l ↔
      ∃ e, i.nodeAt segments = some (.command e) ∧ l.segments = segments ∧ l.entry = e ∧
        e.Offers version l.version := by
  cases hnode : i.nodeAt segments with
  | none =>
      obtain ⟨f, hf, -⟩ := exists_locate_of_none version hnode
      simp [hf]
  | some node =>
      cases node with
      | index j =>
          obtain ⟨rfl, rfl⟩ := nodeAt_eq_index_iff.1 hnode
          simp [locate]
      | group g =>
          obtain ⟨f, hf, -⟩ := exists_locate_of_group version hnode
          simp [hf]
      | command e =>
          rw [locate_of_command hnode, Except.map_eq_ok_iff]
          simp only [Entry.resolve_eq_ok_iff_offers, Option.some.injEq, Node.command.injEq]
          constructor
          · rintro ⟨v, hv, rfl⟩
            exact ⟨e, rfl, rfl, rfl, hv⟩
          · rintro ⟨_, rfl, rfl, rfl, hv⟩
            exact ⟨l.version, hv, rfl⟩

/-- **The two ways agree.** That a segment is unknown is said exactly where the segments address nothing, and that
they do not suffice exactly where they address the index or a group. Where they address a command, its location has
all the segments and the version that is asked for or, if none is asked for, one that no version exceeds; and it is
said that a version is not there, or that there is none, exactly if that is so. Nothing else is said. -/
theorem locate_outcomes (i : Index) (segments : List String) (version : Option String) :
    (i.faultKind? segments version = some .unknownSegment ↔ i.nodeAt segments = none) ∧
      (i.faultKind? segments version = some .incompleteCommand ↔
        i.nodeAt segments = some (.index i) ∨ ∃ g, i.nodeAt segments = some (.group g)) ∧
      (i.faultKind? segments version = some .versionNotFound ↔
        ∃ e v, i.nodeAt segments = some (.command e) ∧ version = some v ∧ v ∉ e.versions) ∧
      (i.faultKind? segments version = some .integrity ↔
        ∃ e, i.nodeAt segments = some (.command e) ∧ version = none ∧ e.versions = []) ∧
      (∀ l, i.locate segments version = .ok l ↔
        ∃ e, i.nodeAt segments = some (.command e) ∧ l.segments = segments ∧ l.entry = e ∧
          e.Offers version l.version) ∧
      ((∃ l, i.locate segments version = .ok l) ∨ i.faultKind? segments version ∈
        [some .unknownSegment, some .incompleteCommand, some .versionNotFound, some .integrity]) := by
  refine ⟨?_, ?_, ?_, ?_, fun l => locate_eq_ok_iff_offers, ?_⟩
  -- of the three ways to fail, each kind of failure belongs to one
  iterate 4
    · simp [faultKind?_eq_some_iff, Entry.versionFault?_eq_some_iff]
  · cases hl : i.locate segments version with
    | ok l => exact .inl ⟨l, rfl⟩
    | error f =>
        rw [faultKind?_of_error hl]
        cases f <;> simp [LocateFault.kind]

end Index

end Restline
