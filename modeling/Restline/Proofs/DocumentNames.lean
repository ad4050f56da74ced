import Restline.Metadata.Store
import Restline.Proofs.KeyedLists
import Restline.Proofs.Reading
import Restline.Proofs.Results
import Restline.Proofs.Segments

/-!
Names of documents. The name of a command's document is made of its segments and its version with
underscores between them, so two names are the same when the pieces between all underscores are. An index
that was read has no name for both a group and a command, so no command stands below another; therefore two
commands can share a document only where a segment has an underscore of its own.

* `Location.pieces` : what stands between the underscores of a document's name.
* `Group.Unambiguous`, `Group.unambiguous_of_ofJson` : groups, as they are read, do not use a name twice.
* `Index.eq_of_prefix_segments` : no command stands below another.
* `Index.documentId_eq_iff` : **when two commands or versions share a document**.
-/

set_option autoImplicit false

namespace Restline

/-! ### Pieces of names -/

namespace Text

theorem segments_injective (c : Char) : Function.Injective (segments c) := by
  intro s t h
  have hid : String.toList ∘ String.ofList = id := funext fun _ => String.toList_ofList
  have hsplit : s.toList.splitOn c = t.toList.splitOn c := by
    simpa [segments, List.map_map, hid] using congrArg (List.map String.toList) h
  have hjoined : [c].intercalate (s.toList.splitOn c) = [c].intercalate (t.toList.splitOn c) :=
    congrArg _ hsplit
  rwa [List.intercalate_splitOn, List.intercalate_splitOn, String.toList_inj] at hjoined

/-- The segments of texts that are joined are those of each of them. -/
theorem segments_intercalate (c : Char) {l : List String} (hl : l ≠ []) :
    segments c ((String.singleton c).intercalate l) = l.flatMap (segments c) := by
  induction l with
  | nil => exact absurd rfl hl
  | cons s r ih =>
      cases r with
      | nil => simp
      | cons t r =>
          rw [String.intercalate_cons_cons, List.flatMap_cons, ← ih (List.cons_ne_nil t r)]
          exact segments_append (by simp)

theorem flatMap_segments_of_notMem {c : Char} {l : List String} (h : ∀ s ∈ l, c ∉ s.toList) :
    l.flatMap (segments c) = l := by
  induction l with
  | nil => rfl
  | cons s r ih =>
      rw [List.flatMap_cons, segments_of_notMem (h s List.mem_cons_self),
        ih fun t ht => h t (List.mem_cons_of_mem s ht), List.singleton_append]

end Text

namespace Location

/-- What stands between the underscores of a document's name. -/
def pieces (l : Location) : List String := (l.segments ++ [l.version]).flatMap (Text.segments '_')

/-- Two names of documents are the same when their pieces are. -/
theorem documentId_eq_iff_pieces {l l' : Location} :
    l.documentId = l'.documentId ↔ l.pieces = l'.pieces := by
  have hpieces : ∀ l : Location, Text.segments '_' l.documentId = l.pieces := fun l =>
    Text.segments_intercalate '_' (List.append_ne_nil_of_right_ne_nil _ (List.cons_ne_nil _ _))
  rw [← (Text.segments_injective '_').eq_iff, hpieces, hpieces]

end Location

/-! ### Groups that were read -/

namespace Checked

variable {α β : Type}

theorem exists_of_mem_entries {read : Json → Checked α} {key : String} {v : α} :
    ∀ {ms : List (String × Json)} {m : Keyed α}, entries read ms = .valid m → (key, v) ∈ m →
      ∃ j, (key, j) ∈ ms ∧ read j = .valid v := by
  intro ms
  induction ms with
  | nil =>
      intro m h hv
      obtain rfl := Checked.valid.inj h
      cases hv
  | cons e r ih =>
      obtain ⟨k, j⟩ := e
      intro m h hv
      obtain ⟨put, rest, hput, hrest, rfl⟩ := and_eq_valid_iff.1 h
      obtain ⟨a, ha, rfl⟩ := map_eq_valid_iff.1 hput
      rcases List.mem_cons.1 hv with hv | hv
      · obtain ⟨rfl, rfl⟩ := Prod.mk.inj hv
        exact ⟨j, List.mem_cons_self, under_eq_valid_iff.1 ha⟩
      · obtain ⟨j', hmem, hread⟩ := ih hrest hv
        exact ⟨j', List.mem_cons_of_mem _ hmem, hread⟩

/-- The values of a map were read, each from the member of its name. -/
theorem exists_of_mem_mapOf {read : Json → Checked α} {j : Json} {m : Keyed α} {key : String} {v : α}
    (h : mapOf read j = .valid m) (hv : (key, v) ∈ m) :
    ∃ ms j', j = .obj ms ∧ (key, j') ∈ ms ∧ read j' = .valid v := by
  cases j with
  | obj ms =>
      obtain ⟨j', hmem, hread⟩ := exists_of_mem_entries h hv
      exact ⟨ms, j', rfl, hmem, hread⟩
  | _ => cases h

end Checked

/-- A field that has a value of its own or was read. -/
theorem eq_or_exists_of_fieldOr_eq_valid {α : Type} {ms : Keyed Json} {f : Field} {value a : α}
    {read : Json → Checked α} (h : fieldOr ms f value read = .valid a) :
    a = value ∨ ∃ j, f.value? ms = some j ∧ read j = .valid a := by
  rw [fieldOr] at h
  split at h
  · exact .inl (Checked.valid.inj h).symm
  · rename_i j hj
    exact .inr ⟨j, hj, Checked.under_eq_valid_iff.1 h⟩

/-- The values of a map in a field were read. -/
theorem exists_of_mem_mapField {α : Type} {ms : Keyed Json} {f : Field} {read : Json → Checked α} {m : Keyed α}
    (h : fieldOr ms f [] (Checked.mapOf read) = .valid m) {e : String × α} (he : e ∈ m) :
    ∃ j, read j = .valid e.2 := by
  rcases eq_or_exists_of_fieldOr_eq_valid h with rfl | ⟨j, -, hj⟩
  · cases he
  · obtain ⟨-, j', -, -, hread⟩ := Checked.exists_of_mem_mapOf hj he
    exact ⟨j', hread⟩

namespace Group

/-- Neither the group nor any group below it uses a name both for a group and for a command. -/
inductive Unambiguous : Group → Prop
  | intro {g : Group} (own : ∀ s h, g.groups.get? s = some h → g.commands.get? s = none)
      (below : ∀ s h, g.groups.get? s = some h → Unambiguous h) : Unambiguous g

theorem commands_of_withoutClash {g g' : Group} (h : g.withoutClash = .valid g') :
    g = g' ∧ ∀ s h, g.groups.get? s = some h → g.commands.get? s = none := by
  rw [withoutClash] at h
  split at h
  · rename_i hclash
    refine ⟨Checked.valid.inj h, fun s k hs => ?_⟩
    have hnil : g.groups.keys.filter g.commands.has = [] :=
      List.Perm.eq_nil (hclash ▸ (List.mergeSort_perm _ _).symm)
    have hkey : s ∈ g.groups.keys := List.mem_map.2 ⟨(s, k), Keyed.mem_of_get? hs, rfl⟩
    simpa [Keyed.has] using List.filter_eq_nil_iff.1 hnil s hkey
  · cases h

/-- The groups in a group that was read were read, each at one level less, and so were its commands; and it uses no
name twice. -/
theorem fields_of_readAt {depth : Nat} {j : Json} {g : Group} (h : readAt (depth + 1) j = .valid g) :
    ∃ ms, j = .obj ms ∧
      fieldOr ms ⟨"commandGroups", "command_groups"⟩ [] (Checked.mapOf (readAt depth)) = .valid g.groups ∧
      fieldOr ms (.plain "commands") [] (Checked.mapOf Entry.ofJson) = .valid g.commands ∧
      g.withoutClash = .valid g := by
  obtain ⟨g', hread, hclash⟩ := Checked.andThen_eq_valid_iff.1 h
  obtain ⟨rfl, -⟩ := commands_of_withoutClash hclash
  obtain ⟨ms, rfl, hfields⟩ := Checked.record_eq_valid_iff.1 hread
  -- the fields from the last to the first: commands, groups, help
  obtain ⟨withGroups, commands, hchain, hcommands, rfl⟩ := Checked.and_eq_valid_iff.1 hfields
  obtain ⟨withHelp, groups, hhelp, hgroups, rfl⟩ := Checked.and_eq_valid_iff.1 hchain
  obtain ⟨make, help, hmake, -, rfl⟩ := Checked.and_eq_valid_iff.1 hhelp
  obtain rfl := Checked.valid.inj hmake
  exact ⟨ms, rfl, hgroups, hcommands, hclash⟩

theorem unambiguous_of_readAt {depth : Nat} : ∀ {j : Json} {g : Group},
    readAt depth j = .valid g → g.Unambiguous := by
  induction depth with
  | zero =>
      intro j g h
      cases h
  | succ depth ih =>
      intro j g h
      obtain ⟨ms, -, hgroups, -, hclash⟩ := fields_of_readAt h
      refine .intro (commands_of_withoutClash hclash).2 fun s k hs => ?_
      obtain ⟨j, hj⟩ := exists_of_mem_mapField hgroups (Keyed.mem_of_get? hs)
      exact ih hj

/-- Groups, as they are read, do not use a name twice. -/
theorem unambiguous_of_ofJson {j : Json} {g : Group} (h : ofJson j = .valid g) : g.Unambiguous :=
  unambiguous_of_readAt h

/-! ### Commands that are found -/

theorem find_cons (g : Group) (path : List String) (s : String) (rest : List String) :
    g.find path (s :: rest) =
      match g.groups.get? s with
      | some h => h.find (path ++ [s]) rest
      | none =>
        match g.commands.get? s, rest with
        | some e, [] => .ok (path ++ [s], e)
        | some _, x :: _ => .error (.surplusSegment x)
        | none, _ => .error (.unknownSegment s) :=
  find.eq_def g path (s :: rest)

theorem path_of_find {g : Group} {path segments found : List String} {e : Entry}
    (h : g.find path segments = .ok (found, e)) : found = path ++ segments := by
  induction segments generalizing g path with
  | nil => cases h
  | cons s rest ih =>
      rw [find_cons] at h
      split at h
      · rw [ih h, List.append_assoc, List.singleton_append]
      · split at h
        · obtain ⟨rfl, rfl⟩ := Prod.mk.inj (Except.ok.inj h)
          rfl
        · cases h
        · cases h

/-- No command stands below another one. -/
theorem eq_nil_of_find_append {g : Group} (hg : g.Unambiguous) {path path' segments more found found' :
    List String} {e e' : Entry} (h : g.find path segments = .ok (found, e))
    (h' : g.find path' (segments ++ more) = .ok (found', e')) : more = [] := by
  induction segments generalizing g path path' with
  | nil => cases h
  | cons s rest ih =>
      obtain ⟨own, below⟩ := hg
      rw [List.cons_append] at h'
      rw [find_cons] at h h'
      cases hs : g.groups.get? s with
      | some k =>
          rw [hs] at h h'
          exact ih (below s k hs) h h'
      | none =>
          rw [hs] at h h'
          -- a command ends the segments on both sides
          cases hc : g.commands.get? s with
          | none =>
              rw [hc] at h
              cases h
          | some c =>
              rw [hc] at h h'
              cases rest with
              | cons x r => cases h
              | nil =>
                  cases more with
                  | nil => rfl
                  | cons x r => cases h'

end Group

namespace Index

variable {i : Index}

/-- A command that is located is found in a group, at the version asked for or at the greatest. -/
theorem locate_eq_ok_iff {segments : List String} {version : Option String} {l : Location} :
    i.locate segments version = .ok l ↔
      ∃ s rest g e v, segments = s :: rest ∧ i.groups.get? s = some g ∧
        g.find [s] rest = .ok (segments, e) ∧ e.resolve segments version = .ok v ∧
        l = ⟨segments, v, e⟩ := by
  cases segments with
  | nil => simp [locate]
  | cons s rest =>
      rw [locate]
      cases hg : i.groups.get? s with
      | none => simp [hg]
      | some g =>
          constructor
          · intro h
            obtain ⟨⟨found, e⟩, hfind, h⟩ := Except.bind_eq_ok_iff.1 h
            obtain ⟨v, hv, h⟩ := Except.bind_eq_ok_iff.1 h
            obtain rfl : found = s :: rest := Group.path_of_find hfind
            exact ⟨s, rest, g, e, v, rfl, hg, hfind, hv, (Except.ok.inj h).symm⟩
          · rintro ⟨s', rest', g', e, v, hs, hg', hfind, hv, rfl⟩
            obtain ⟨rfl, rfl⟩ := List.cons.inj hs
            obtain rfl := Option.some_inj.1 (hg.symm.trans hg')
            exact Except.bind_eq_ok_iff.2 ⟨_, hfind, Except.bind_eq_ok_iff.2 ⟨v, hv, rfl⟩⟩

theorem segments_of_locate {segments : List String} {version : Option String} {l : Location}
    (h : i.locate segments version = .ok l) : l.segments = segments := by
  obtain ⟨-, -, -, -, -, -, -, -, -, rfl⟩ := locate_eq_ok_iff.1 h
  rfl

theorem ofJson_of_check {j : Json} (hi : check j = .ok i) : ofJson j = .valid i := by
  rw [check] at hi
  split at hi
  · rename_i h
    rw [h, Except.ok.inj hi]
  · cases hi

/-- The groups in an index that was read were read. -/
theorem groups_of_ofJson {j : Json} (h : ofJson j = .valid i) :
    ∃ ms, j = .obj ms ∧
      fieldOr ms ⟨"commandGroups", "command_groups"⟩ [] (Checked.mapOf Group.ofJson) = .valid i.groups := by
  obtain ⟨ms, rfl, hfields⟩ := Checked.record_eq_valid_iff.1 h
  obtain ⟨withHelp, groups, hhelp, hgroups, rfl⟩ := Checked.and_eq_valid_iff.1 hfields
  obtain ⟨make, help, hmake, -, rfl⟩ := Checked.and_eq_valid_iff.1 hhelp
  obtain rfl := Checked.valid.inj hmake
  exact ⟨ms, rfl, hgroups⟩

theorem unambiguous_of_check {j : Json} (hi : check j = .ok i) {s : String} {g : Group}
    (hg : i.groups.get? s = some g) : g.Unambiguous := by
  obtain ⟨ms, -, hgroups⟩ := groups_of_ofJson (ofJson_of_check hi)
  obtain ⟨j, hj⟩ := exists_of_mem_mapField hgroups (Keyed.mem_of_get? hg)
  exact Group.unambiguous_of_ofJson hj

/-- In an index that was read, no command stands below another one. -/
theorem eq_of_prefix_segments {j : Json} (hi : check j = .ok i) {ss ss' : List String}
    {v v' : Option String} {l l' : Location} (h : i.locate ss v = .ok l) (h' : i.locate ss' v' = .ok l')
    (hfront : ss <+: ss') : ss = ss' := by
  obtain ⟨s, rest, g, e, w, rfl, hg, hfind, -, -⟩ := locate_eq_ok_iff.1 h
  obtain ⟨s', rest', g', e', w', rfl, hg', hfind', -, -⟩ := locate_eq_ok_iff.1 h'
  obtain ⟨more, hmore⟩ := hfront
  obtain ⟨rfl, rfl⟩ := List.cons.inj hmore
  obtain rfl := Option.some_inj.1 (hg.symm.trans hg')
  obtain rfl := Group.eq_nil_of_find_append (unambiguous_of_check hi hg) hfind hfind'
  exact (List.append_nil (s :: rest)).symm

/-- Without underscores in the segments, the pieces of a name tell the command and the version. -/
theorem eq_of_pieces_eq {j : Json} (hi : check j = .ok i) {ss ss' : List String} {v v' : Option String}
    {l l' : Location} (h : i.locate ss v = .ok l) (h' : i.locate ss' v' = .ok l')
    (hplain : ∀ s ∈ l.segments ++ l'.segments, '_' ∉ s.toList) (hpieces : l.pieces = l'.pieces) :
    l.segments = l'.segments ∧ l.version = l'.version := by
  obtain ⟨hl, hl'⟩ := List.forall_mem_append.1 hplain
  simp only [Location.pieces, List.flatMap_append, List.flatMap_singleton,
    Text.flatMap_segments_of_notMem hl, Text.flatMap_segments_of_notMem hl'] at hpieces
  have hss : l.segments = l'.segments := by
    rw [segments_of_locate h, segments_of_locate h'] at hpieces ⊢
    -- both begin the same list, so one begins the other
    rcases List.prefix_or_prefix_of_prefix (List.prefix_append ss _)
      (hpieces ▸ List.prefix_append ss' _) with hle | hle
    · exact eq_of_prefix_segments hi h h' hle
    · exact (eq_of_prefix_segments hi h' h hle).symm
  rw [hss] at hpieces
  exact ⟨hss, Text.segments_injective '_' (List.append_cancel_left hpieces)⟩

/-- **When two commands or versions share a document.** Of an index that was read, two locations have
documents of one name exactly if they are the same command at the same version, or if their names have the
same pieces and some segment has an underscore in it. -/
theorem documentId_eq_iff {j : Json} (hi : check j = .ok i) {ss ss' : List String}
    {v v' : Option String} {l l' : Location} (h : i.locate ss v = .ok l)
    (h' : i.locate ss' v' = .ok l') :
    l.documentId = l'.documentId ↔
      (l.segments = l'.segments ∧ l.version = l'.version) ∨
        (l.pieces = l'.pieces ∧ ∃ s ∈ l.segments ++ l'.segments, '_' ∈ s.toList) := by
  rw [Location.documentId_eq_iff_pieces]
  constructor
  · intro hpieces
    by_cases hplain : ∀ s ∈ l.segments ++ l'.segments, '_' ∉ s.toList
    · exact .inl (eq_of_pieces_eq hi h h' hplain hpieces)
    · simp only [not_forall, not_not, exists_prop] at hplain
      exact .inr ⟨hpieces, hplain⟩
  · rintro (⟨hs, hv⟩ | ⟨hpieces, -⟩)
    · rw [Location.pieces, Location.pieces, hs, hv]
    · exact hpieces

/-! ### Two commands in two services -/

/-- A document of an index with two services, each with one command at one version. -/
def servicesDocument (service command service' command' : String) : Json :=
  let withCommand (service command : String) : String × Json :=
    (service, .obj [("commands", .obj [(command, .obj [("versions", .arr [.str "1"])])])])
  .obj [("commandGroups", .obj [withCommand service command, withCommand service' command'])]

/-- The index of the document. -/
def services (service command service' command' : String) : Index where
  groups := [(service, .node none [] [(command, { versions := ["1"] })]),
    (service', .node none [] [(command', { versions := ["1"] })])]

theorem check_servicesDocument (service command service' command' : String) :
    check (servicesDocument service command service' command') =
      .ok (services service command service' command') := by
  cbv

/-- The command of one service may go on where the name of the other service does: the pieces differ. -/
theorem documentId_ne_of_services :
    ∃ j i l l', check j = .ok i ∧ i.locate ["a", "b"] none = .ok l ∧
      i.locate ["a_b", "c"] (some "1") = .ok l' ∧ l.documentId ≠ l'.documentId := by
  refine ⟨servicesDocument "a" "b" "a_b" "c", services "a" "b" "a_b" "c",
    ⟨["a", "b"], "1", { versions := ["1"] }⟩, ⟨["a_b", "c"], "1", { versions := ["1"] }⟩,
    check_servicesDocument _ _ _ _, by rfl, by rfl, ?_⟩
  have hlocate : (services "a" "b" "a_b" "c").locate ["a", "b"] none =
      .ok ⟨["a", "b"], "1", { versions := ["1"] }⟩ := by rfl
  have hlocate' : (services "a" "b" "a_b" "c").locate ["a_b", "c"] (some "1") =
      .ok ⟨["a_b", "c"], "1", { versions := ["1"] }⟩ := by rfl
  rw [ne_eq, documentId_eq_iff (check_servicesDocument "a" "b" "a_b" "c") hlocate hlocate']
  decide +kernel

/-- Two commands of different services share a document where an underscore may stand on either side of
the border between the segments. -/
theorem documentId_shared :
    ∃ j i l l', check j = .ok i ∧ i.locate ["a", "b_c"] none = .ok l ∧
      i.locate ["a_b", "c"] none = .ok l' ∧ l.segments ≠ l'.segments ∧
      l.documentId = l'.documentId :=
  ⟨servicesDocument "a" "b_c" "a_b" "c", services "a" "b_c" "a_b" "c",
    ⟨["a", "b_c"], "1", { versions := ["1"] }⟩, ⟨["a_b", "c"], "1", { versions := ["1"] }⟩,
    check_servicesDocument _ _ _ _, by rfl, by rfl, by decide, by rfl⟩

end Index

end Restline
