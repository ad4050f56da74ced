import Restline.CommandLine.Scan
import Restline.CommandLine.Tree
import Restline.Proofs.DocumentNames
import Restline.Proofs.OptionWords

/-!
The generated command that words reach. The tree is made for the segments that stand before the first
option, and the command at the target is the only one that is made in full. Words that reach it name it
by just these segments, for every word without a dash that follows would be an argument of the command,
and it has none.

* `ApiNode.Building.exec` : building carried out with a cache.
* `ApiNode.buildLeaf_eq_ok` : what the command at the target is made of.
* `Leaf.readWords_eq_ok` : what words give to a command.
* `ApiNode.children_cons_eq_ok`, `ApiNode.build_eq_ok` : what a tree is made of.
* `ApiNode.leaf_of_runChild` : where the next segment leads.
* `ApiNode.leaf_of_run_children`, `ApiNode.leaf_of_run` : **the command that words reach is the one at the
  segments before the first option**, by one group of the index after the other.
-/

set_option autoImplicit false

namespace Restline

/-! ### Lists in order -/

theorem Keyed.exists_get?_of_mem {α : Type} {m : Keyed α} {key : String} {v : α} (h : (key, v) ∈ m) :
    ∃ w, m.get? key = some w := by
  induction m with
  | nil => cases h
  | cons e r ih =>
      obtain ⟨k, w⟩ := e
      rw [Keyed.get?_cons]
      by_cases hk : k = key
      · exact ⟨w, by rw [if_pos hk]⟩
      · have hr : (key, v) ∈ r := (List.mem_cons.1 h).resolve_left fun he =>
          hk (congrArg Prod.fst he).symm
        rw [if_neg hk]
        exact ih hr

theorem Text.mem_sortedByKey {α : Type} {l : List (String × α)} {e : String × α} :
    e ∈ Text.sortedByKey l ↔ e ∈ l :=
  List.mem_mergeSort

/-! ### The index as a group -/

/-- The services of the index as the groups of a group without commands. -/
def Index.root (i : Index) : Group := .node i.help i.groups []

/-! ### Words of a command -/

/-- The word can be a segment: it has no dash in front. -/
def Scan.isSegment (word : String) : Bool := !word.startsWith "-"

/-- What words give to a command comes from options alone. -/
theorem Leaf.readWords_eq_ok {ps : List Param} {words : List String} {values : Leaf.Settings}
    (h : Leaf.readWords ps words = .ok (some values)) :
    ∃ given, Grammar.parse (Grammar.withHelp (ps.map Param.spec)) true words = .ok given ∧
      given.arguments = [] ∧ Leaf.settings ps given given.order = .ok values := by
  obtain ⟨given, hparse, h⟩ := Except.bind_eq_ok_iff.1 h
  split at h
  · cases h
  · obtain ⟨values', hsettings, h⟩ := Except.bind_eq_ok_iff.1 h
    split at h
    · rename_i hempty
      obtain rfl := Option.some_inj.1 (Except.ok.inj h)
      exact ⟨given, hparse, List.isEmpty_iff.1 hempty, hsettings⟩
    · cases h

/-- A command has no arguments, so none of its words can be a segment. -/
theorem Leaf.takeWhile_of_readWords {ps : List Param} {words : List String} {values : Leaf.Settings}
    (h : Leaf.readWords ps words = .ok (some values)) :
    words.takeWhile Scan.isSegment = [] ∧ words.dropWhile Scan.isSegment = words := by
  cases words with
  | nil => exact ⟨rfl, rfl⟩
  | cons w rest =>
      obtain ⟨given, hparse, harguments, -⟩ := Leaf.readWords_eq_ok h
      have hw : ¬ Scan.isSegment w = true := fun hw =>
        Grammar.arguments_ne_nil_of_plain (by simpa [Scan.isSegment] using hw) hparse harguments
      exact ⟨List.takeWhile_cons_of_neg hw, List.dropWhile_cons_of_neg hw⟩

namespace ApiNode

/-! ### Building -/

namespace Building

variable {α β : Type}

/-- The outcome of building with a cache, and the cache then. -/
def exec (x : Building α) (c : Cache) : Except Fault α × Cache := x c

theorem exec_pure_eq_ok {a b : α} {c c' : Cache} (h : exec (pure a) c = (.ok b, c')) :
    a = b ∧ c = c' :=
  ⟨Except.ok.inj (Prod.mk.inj h).1, (Prod.mk.inj h).2⟩

theorem exec_bind_of_ok {x : Building α} {a : α} {c c₁ : Cache} (h : exec x c = (.ok a, c₁))
    (f : α → Building β) : exec (x >>= f) c = exec (f a) c₁ := by
  simp only [exec, bind, ExceptT.bind, ExceptT.mk, StateT.bind, ExceptT.bindCont]
  rw [exec] at h
  rw [h]

theorem exec_bind_eq_ok {x : Building α} {f : α → Building β} {b : β} {c c' : Cache}
    (h : exec (x >>= f) c = (.ok b, c')) :
    ∃ a c₁, exec x c = (.ok a, c₁) ∧ exec (f a) c₁ = (.ok b, c') := by
  simp only [exec, bind, ExceptT.bind, ExceptT.mk, StateT.bind, ExceptT.bindCont] at h
  cases hx : x c with
  | mk r c₁ =>
      rw [hx] at h
      cases r with
      | ok a => exact ⟨a, c₁, hx, h⟩
      | error e => cases h

theorem exec_told_eq_ok {ε : Type} {report : ε → Fault} {x : Except ε α} {a : α} {c c' : Cache}
    (h : exec (told report x) c = (.ok a, c')) : x = .ok a ∧ c = c' :=
  ⟨Except.mapError_eq_ok_iff.1 (Prod.mk.inj h).1, (Prod.mk.inj h).2⟩

end Building

open Building

variable {b : Bundle} {c c' : Cache} {i : Index}

/-- The index is read once. -/
theorem exec_readIndex (h : (c.getIndex b).1 = .ok i) :
    exec (readIndex b) c = (.ok i, { c with index := some i }) := by
  simp only [exec, readIndex]
  rw [Cache.getIndex] at h ⊢
  cases hkept : c.index with
  | some j =>
      simp only [hkept] at h ⊢
      obtain rfl := Except.ok.inj h
      rw [← hkept]
      rfl
  | none =>
      simp only [hkept] at h ⊢
      cases hread : b.index.bind Index.check with
      | error f => simp only [hread] at h; cases h
      | ok j =>
          simp only [hread] at h ⊢
          obtain rfl := Except.ok.inj h
          rfl

theorem exec_readCommand {id : String} {k : Command} (h : exec (readCommand b id) c = (.ok k, c')) :
    (c.getCommand b id).1 = .ok k ∧ c' = (c.getCommand b id).2 :=
  ⟨Except.mapError_eq_ok_iff.1 (Prod.mk.inj h).1, (Prod.mk.inj h).2.symm⟩

/-- Documents do not depend on the index that is kept. -/
theorem getCommand_index (x : Option Index) (id : String) :
    (Cache.getCommand b id { c with index := x }).1 = (c.getCommand b id).1 := by
  simp only [Cache.getCommand]
  split
  · rfl
  · split <;> rfl

/-- The generated command is that of a document of the index: at the version asked for if the entry offers
it, else at the latest. -/
structure IsLeafAt (b : Bundle) (c : Cache) (i : Index) (version : Option String) (segments : List String)
    (e : Entry) (l : Leaf) : Prop where
  located : i.locate segments (version.filter e.versions.contains) = .ok l.location
  document : (c.getCommand b l.location.documentId).1 = .ok l.command
  made : Leaf.ofCommand l.location l.command = .ok l

theorem idCrash?_eq_none_iff {x : Location} : Leaf.idCrash? x = none ↔ '\x00' ∉ x.documentId.toList := by
  rw [Leaf.idCrash?, Option.map_eq_none_iff, List.find?_eq_none]
  exact ⟨fun h hmem => h _ hmem (by simp), fun h c hc heq => h (eq_of_beq heq ▸ hc)⟩

/-- When a command can be generated, and what it holds then. -/
theorem ofCommand_eq_ok_iff {x : Location} {k : Command} {l : Leaf} :
    Leaf.ofCommand x k = .ok l ↔
      Version.choices x.entry.versions = .ok l.choices ∧ '\x00' ∉ x.documentId.toList ∧
        l.args.findSome? ArgOption.crash? = none ∧
        l.location = x ∧ l.command = k ∧ l.args = ArgOption.distinct (Leaf.argOptions k) := by
  constructor
  · intro h
    obtain ⟨choices, hchoices, h⟩ := Except.bind_eq_ok_iff.1 h
    simp only at h
    split at h
    · cases h
    rename_i hnone
    obtain ⟨hid, hargs⟩ := Option.or_eq_none_iff.1 hnone
    obtain rfl := Except.ok.inj h
    exact ⟨hchoices, idCrash?_eq_none_iff.1 hid, hargs, rfl, rfl, rfl⟩
  · rintro ⟨hchoices, hid, hnone, rfl, rfl, hargs⟩
    rw [Leaf.ofCommand, hchoices]
    simp [bind, Except.bind, pure, Except.pure, idCrash?_eq_none_iff.2 hid, hnone, ← hargs]

theorem ofCommand_eq_ok {x : Location} {k : Command} {l : Leaf} (h : Leaf.ofCommand x k = .ok l) :
    l.location = x ∧ l.command = k ∧ Version.choices x.entry.versions = .ok l.choices ∧
      l.args = ArgOption.distinct (Leaf.argOptions k) := by
  obtain ⟨hchoices, -, -, hlocation, hcommand, hargs⟩ := ofCommand_eq_ok_iff.1 h
  exact ⟨hlocation, hcommand, hchoices, hargs⟩

/-- What the command at the target is made of; its document is the one that is read. -/
theorem buildLeaf_eq_ok {version : Option String} {segments : List String} {name : String} {e : Entry}
    {node : ApiNode} (hindex : (c.getIndex b).1 = .ok i)
    (h : exec (buildLeaf b version segments name e) c = (.ok node, c')) :
    ∃ l, node = .leaf name (shownHelp e.help) l ∧ IsLeafAt b c i version segments e l ∧
      c' = (Cache.getCommand b l.location.documentId { c with index := some i }).2 := by
  rw [buildLeaf, exec_bind_of_ok (exec_readIndex hindex)] at h
  obtain ⟨l, c₂, hl, h⟩ := exec_bind_eq_ok h
  obtain ⟨hlocate, rfl⟩ := exec_told_eq_ok hl
  obtain ⟨k, c₃, hk, h⟩ := exec_bind_eq_ok h
  obtain ⟨hdocument, rfl⟩ := exec_readCommand hk
  rw [getCommand_index] at hdocument
  obtain ⟨leaf, c₄, hleaf, h⟩ := exec_bind_eq_ok h
  obtain ⟨hmade, rfl⟩ := exec_told_eq_ok hleaf
  obtain ⟨rfl, rfl⟩ := exec_pure_eq_ok h
  obtain ⟨rfl, rfl, -, -⟩ := ofCommand_eq_ok hmade
  exact ⟨leaf, rfl, ⟨hlocate, hdocument, hmade⟩, rfl⟩

/-! ### Nodes under a name -/

@[simp] theorem name_groupNode (wanted : Option (String × List ApiNode)) (g : String × Group) :
    (groupNode wanted g).name = g.1 := rfl

@[simp] theorem name_commandNode (path : List String) (wanted : Option ApiNode) (c : String × Entry) :
    (commandNode path wanted c).name = c.1 := by
  cases wanted with
  | none => rfl
  | some node =>
      rw [commandNode]
      split
      · assumption
      · rfl

/-- Words go to the first node of their name. -/
theorem runChild_eq_find? (path : List String) (name : String) (words : List String)
    (nodes : List ApiNode) :
    runChild path name words nodes =
      (nodes.find? fun node => decide (node.name = name)).map (run (path ++ [name]) words) := by
  induction nodes with
  | nil => rw [runChild, List.find?_nil, Option.map_none]
  | cons node nodes ih =>
      rw [runChild, List.find?_cons]
      by_cases h : node.name = name
      · rw [if_pos h, decide_eq_true h]
        rfl
      · rw [if_neg h, decide_eq_false h, ih]

/-- Among the nodes of a group words go to a group of their name, or else to a command of it. -/
theorem runChild_cases {p path words : List String} {name : String} {groups : Keyed Group}
    {commands : Keyed Entry} {wg : Option (String × List ApiNode)} {wc : Option ApiNode}
    {r : Except UsageFault Reached}
    (h : runChild p name words ((Text.sortedByKey groups).map (groupNode wg)
      ++ (Text.sortedByKey commands).map (commandNode path wc)) = some r) :
    (∃ g, (name, g) ∈ groups ∧ run (p ++ [name]) words (groupNode wg (name, g)) = r) ∨
      (∀ g, (name, g) ∉ groups) ∧
        ∃ e, (name, e) ∈ commands ∧ run (p ++ [name]) words (commandNode path wc (name, e)) = r := by
  rw [runChild_eq_find?, List.find?_append, Option.map_eq_some_iff] at h
  obtain ⟨node, hfound, hrun⟩ := h
  rcases Option.or_eq_some_iff.1 hfound with hgroup | ⟨hnone, hcommand⟩
  · obtain ⟨⟨n, g⟩, hg, rfl⟩ := List.mem_map.1 (List.mem_of_find?_eq_some hgroup)
    have hname := List.find?_some hgroup
    rw [decide_eq_true_iff, name_groupNode] at hname
    obtain rfl : n = name := hname
    exact .inl ⟨g, Text.mem_sortedByKey.1 hg, hrun⟩
  · obtain ⟨⟨n, e⟩, he, rfl⟩ := List.mem_map.1 (List.mem_of_find?_eq_some hcommand)
    have hname := List.find?_some hcommand
    rw [decide_eq_true_iff, name_commandNode] at hname
    obtain rfl : n = name := hname
    refine .inr ⟨fun g hg => ?_, e, Text.mem_sortedByKey.1 he, hrun⟩
    have hnot := List.find?_eq_none.1 hnone _ (List.mem_map_of_mem (Text.mem_sortedByKey.2 hg))
    simp at hnot

/-! ### Words that reach a command -/

variable {p words : List String} {l : Leaf} {values : Leaf.Settings}

theorem run_stub_ne_leaf {segments : List String} {n : String} {h : Option String} :
    run p words (.stub segments n h) ≠ .ok (.leaf l values) := by
  intro hrun
  rw [run] at hrun
  obtain ⟨r, -, hrun⟩ := Except.bind_eq_ok_iff.1 hrun
  cases r <;> cases hrun

theorem run_leaf_eq_leaf {n : String} {h : Option String} {l' : Leaf}
    (hrun : run p words (.leaf n h l') = .ok (.leaf l values)) :
    l' = l ∧ Leaf.readWords l.params words = .ok (some values) := by
  rw [run] at hrun
  obtain ⟨r, hread, hrun⟩ := Except.bind_eq_ok_iff.1 hrun
  cases r with
  | none => cases hrun
  | some v =>
      cases hrun
      exact ⟨rfl, hread⟩

/-- From a group words reach a command only through the node that their first argument names. -/
theorem run_group_eq_leaf {n : String} {h : Option String} {nodes : List ApiNode}
    (hrun : run p words (.group n h nodes) = .ok (.leaf l values)) :
    ∃ before, Grammar.subcommand groupSpecs ["--help"] words = .ok (.inr before) ∧
      runChild p before.command before.rest nodes = some (.ok (.leaf l values)) := by
  rw [run] at hrun
  split at hrun
  · cases hrun
  split at hrun
  · cases hrun
  · cases hrun
  · rename_i before hbefore
    refine ⟨before, hbefore, ?_⟩
    split at hrun
    · rename_i r hr
      rw [hr, hrun]
    · cases hunknown : Grammar.unknownCommand groupSpecs ["--help"] before.command before.rest with
      | error f => rw [hunknown] at hrun; cases hrun
      | ok action => rw [hunknown] at hrun; cases hrun

theorem run_group_nil_ne_leaf {n : String} {h : Option String} :
    run p words (.group n h []) ≠ .ok (.leaf l values) := by
  intro hrun
  obtain ⟨before, -, hchild⟩ := run_group_eq_leaf hrun
  rw [runChild] at hchild
  cases hchild

/-- A word without a dash in front names the node that words after it go to. -/
theorem run_group_of_plain {w : String} {rest : List String} {n : String} {h : Option String}
    {nodes : List ApiNode} (hw : w.startsWith "-" = false)
    (hrun : run p (w :: rest) (.group n h nodes) = .ok (.leaf l values)) :
    runChild p w rest nodes = some (.ok (.leaf l values)) := by
  obtain ⟨before, hbefore, hchild⟩ := run_group_eq_leaf hrun
  rw [Grammar.subcommand_of_plain hw] at hbefore
  obtain rfl := Sum.inr.inj (Except.ok.inj hbefore)
  exact hchild

/-! ### Groups on the way -/

variable {version : Option String} {path : List String} {groups : Keyed Group} {commands : Keyed Entry}
  {nodes : List ApiNode}

/-- The group of the next segment is made first, then the command of its name, then the nodes. -/
theorem children_cons (name : String) (rest : List String) :
    children b version path groups commands (name :: rest) =
      (match groups.get? name with
      | none => pure none
      | some g => do
        let sub ← children b version (path ++ [name]) g.groups g.commands rest
        pure (some (name, sub))) >>= fun wg =>
      (match commands.get? name with
      | none => pure none
      | some e => do
        let node ← buildLeaf b version (path ++ [name]) name e
        pure (some node)) >>= fun wc =>
      pure ((Text.sortedByKey groups).map (groupNode wg)
        ++ (Text.sortedByKey commands).map (commandNode path wc)) := by
  rw [children]
  cases groups.get? name <;> cases commands.get? name <;> simp only [bind_assoc, pure_bind]

/-- On the way to the target the group of the next segment is made in full, and so is the command. -/
theorem children_cons_eq_ok {name : String} {rest : List String}
    (h : exec (children b version path groups commands (name :: rest)) c = (.ok nodes, c')) :
    ∃ wg wc c₁,
      nodes = (Text.sortedByKey groups).map (groupNode wg)
        ++ (Text.sortedByKey commands).map (commandNode path wc) ∧
      (groups.get? name = none ∧ c₁ = c ∨
        ∃ g sub, groups.get? name = some g ∧ wg = some (name, sub) ∧
          exec (children b version (path ++ [name]) g.groups g.commands rest) c = (.ok sub, c₁)) ∧
      (commands.get? name = none ∧ wc = none ∧ c' = c₁ ∨
        ∃ e node, commands.get? name = some e ∧ wc = some node ∧
          exec (buildLeaf b version (path ++ [name]) name e) c₁ = (.ok node, c')) := by
  rw [children_cons] at h
  obtain ⟨wg, c₁, hgroup, h⟩ := exec_bind_eq_ok h
  obtain ⟨wc, c₂, hcommand, h⟩ := exec_bind_eq_ok h
  obtain ⟨rfl, rfl⟩ := exec_pure_eq_ok h
  refine ⟨wg, wc, c₁, rfl, ?_, ?_⟩
  · cases hg : groups.get? name with
    | none =>
        rw [hg] at hgroup
        exact .inl ⟨rfl, (exec_pure_eq_ok hgroup).2.symm⟩
    | some g =>
        rw [hg] at hgroup
        obtain ⟨sub, c₃, hsub, hgroup⟩ := exec_bind_eq_ok hgroup
        obtain ⟨rfl, rfl⟩ := exec_pure_eq_ok hgroup
        exact .inr ⟨g, sub, rfl, rfl, hsub⟩
  · cases he : commands.get? name with
    | none =>
        rw [he] at hcommand
        obtain ⟨rfl, rfl⟩ := exec_pure_eq_ok hcommand
        exact .inl ⟨rfl, rfl, rfl⟩
    | some e =>
        rw [he] at hcommand
        obtain ⟨node, c₃, hnode, hcommand⟩ := exec_bind_eq_ok hcommand
        obtain ⟨rfl, rfl⟩ := exec_pure_eq_ok hcommand
        exact .inr ⟨e, node, rfl, rfl, hnode⟩

/-- Past the end of the target there is no command that is made in full. -/
theorem run_children_nil_ne_leaf {n : String} {h : Option String}
    (hchildren : exec (children b version path groups commands []) c = (.ok nodes, c')) :
    run p words (.group n h nodes) ≠ .ok (.leaf l values) := by
  intro hrun
  obtain ⟨rfl, -⟩ := exec_pure_eq_ok hchildren
  obtain ⟨before, -, hchild⟩ := run_group_eq_leaf hrun
  rcases runChild_cases hchild with ⟨g, -, hr⟩ | ⟨-, e, -, hr⟩
  · exact run_group_nil_ne_leaf hr
  · exact run_stub_ne_leaf hr

/-- With the next segment words go on in the group of its name, or they reach the command of its name if
there is no such group. -/
theorem leaf_of_runChild (hindex : (c.getIndex b).1 = .ok i) {g : Group} {w : String}
    {target : List String}
    (hchildren : exec (children b version path g.groups g.commands (w :: target)) c = (.ok nodes, c'))
    (hrun : runChild p w words nodes = some (.ok (.leaf l values))) :
    (∃ k sub h c₁, g.groups.get? w = some k ∧
        exec (children b version (path ++ [w]) k.groups k.commands target) c = (.ok sub, c₁) ∧
        run (p ++ [w]) words (.group w h sub) = .ok (.leaf l values)) ∨
      ∃ e, g.groups.get? w = none ∧ g.commands.get? w = some e ∧
        IsLeafAt b c i version (path ++ [w]) e l ∧
        Leaf.readWords l.params words = .ok (some values) := by
  obtain ⟨wg, wc, c₁, rfl, hgroup, hcommand⟩ := children_cons_eq_ok hchildren
  rcases runChild_cases hrun with ⟨k, hmem, hr⟩ | ⟨hnone, e, hmem, hr⟩
  · obtain ⟨k', hk'⟩ := Keyed.exists_get?_of_mem hmem
    rcases hgroup with ⟨hno, -⟩ | ⟨k'', sub, hk, rfl, hsub⟩
    · rw [hno] at hk'
      cases hk'
    · -- the group that words go to has the children of the one found in the index
      rw [groupNode, if_pos rfl] at hr
      exact .inl ⟨k'', sub, _, c₁, hk, hsub, hr⟩
  · have hno : g.groups.get? w = none := by
      cases hg : g.groups.get? w with
      | none => rfl
      | some k => exact absurd (Keyed.mem_of_get? hg) (hnone k)
    -- there is no group of the name, so the command was made with the cache as it was
    obtain rfl : c₁ = c := by
      rcases hgroup with ⟨-, hc⟩ | ⟨k, -, hk, -⟩
      · exact hc
      · rw [hno] at hk
        cases hk
    obtain ⟨e', he'⟩ := Keyed.exists_get?_of_mem hmem
    rcases hcommand with ⟨hno', -⟩ | ⟨e'', node, he'', rfl, hnode⟩
    · rw [hno'] at he'
      cases he'
    obtain ⟨l', rfl, hleaf, -⟩ := buildLeaf_eq_ok hindex hnode
    have hwanted : commandNode path (some (.leaf w (shownHelp e''.help) l')) (w, e) =
        .leaf w (shownHelp e''.help) l' := if_pos rfl
    rw [hwanted] at hr
    obtain ⟨rfl, hread⟩ := run_leaf_eq_leaf hr
    exact .inr ⟨e'', hno, he'', hleaf, hread⟩

/-- Below a group words reach the command at the segments in front of the first option. -/
theorem leaf_of_run_children (hindex : (c.getIndex b).1 = .ok i) {g : Group} {n : String}
    {h : Option String}
    (hchildren : exec (children b version path g.groups g.commands (words.takeWhile Scan.isSegment)) c =
      (.ok nodes, c'))
    (hrun : run p words (.group n h nodes) = .ok (.leaf l values)) :
    ∃ e, g.find path (words.takeWhile Scan.isSegment) = .ok (path ++ words.takeWhile Scan.isSegment, e) ∧
      IsLeafAt b c i version (path ++ words.takeWhile Scan.isSegment) e l ∧
      Leaf.readWords l.params (words.dropWhile Scan.isSegment) = .ok (some values) := by
  induction words generalizing g path p n h nodes c' with
  | nil => exact absurd hrun (run_children_nil_ne_leaf hchildren)
  | cons w rest ih =>
      cases hw : w.startsWith "-" with
      | true =>
          rw [List.takeWhile_cons_of_neg (by simp [Scan.isSegment, hw])] at hchildren
          exact absurd hrun (run_children_nil_ne_leaf hchildren)
      | false =>
          have hsegment : Scan.isSegment w = true := by simp [Scan.isSegment, hw]
          rw [List.takeWhile_cons_of_pos hsegment] at hchildren ⊢
          rw [List.dropWhile_cons_of_pos hsegment, Group.find_cons]
          rcases leaf_of_runChild hindex hchildren (run_group_of_plain hw hrun) with
            ⟨k, sub, h', c₁, hk, hsub, hr⟩ | ⟨e, hno, he, hleaf, hread⟩
          · obtain ⟨e, hfind, hleaf, hread⟩ := ih hsub hr
            rw [List.append_assoc] at hfind hleaf
            exact ⟨e, by rw [hk]; exact hfind, hleaf, hread⟩
          · -- the command has no arguments, so no segment follows its name
            obtain ⟨hnil, hrest⟩ := Leaf.takeWhile_of_readWords hread
            rw [hnil, hrest, hno]
            simp only [he]
            exact ⟨e, rfl, hleaf, hread⟩

/-- The tree is a group with the children of the services. -/
theorem build_eq_ok {target : List String} {tree : ApiNode} (hindex : (c.getIndex b).1 = .ok i)
    (h : exec (build b target version) c = (.ok tree, c')) :
    ∃ help nodes, tree = .group "api" help nodes ∧
      exec (children b version [] i.root.groups i.root.commands target) { c with index := some i } =
        (.ok nodes, c') := by
  rw [build, exec_bind_of_ok (exec_readIndex hindex)] at h
  obtain ⟨nodes, c₂, hchildren, h⟩ := exec_bind_eq_ok h
  obtain ⟨rfl, rfl⟩ := exec_pure_eq_ok h
  exact ⟨_, nodes, rfl, hchildren⟩

/-- **The command that words reach is the one at the segments before the first option**, and the other
words are its own. -/
theorem leaf_of_run (hindex : (c.getIndex b).1 = .ok i) {tree : ApiNode}
    (hbuild : exec (build b (words.takeWhile Scan.isSegment) version) c = (.ok tree, c'))
    (hrun : run p words tree = .ok (.leaf l values)) :
    IsLeafAt b c i version (words.takeWhile Scan.isSegment) l.location.entry l ∧
      Leaf.readWords l.params (words.dropWhile Scan.isSegment) = .ok (some values) := by
  obtain ⟨help, nodes, rfl, hchildren⟩ := build_eq_ok hindex hbuild
  obtain ⟨e, hfind, hleaf, hread⟩ := leaf_of_run_children rfl hchildren hrun
  obtain ⟨s, rest, g, e', v, hsegments, hg, hfind', -, hlocation⟩ := Index.locate_eq_ok_iff.1 hleaf.located
  have hentry : l.location.entry = e := by
    have hservice : i.root.groups.get? s = some g := hg
    rw [List.nil_append] at hsegments hfind' hfind
    rw [hsegments] at hfind hfind'
    rw [Group.find_cons, hservice] at hfind
    have hsame := hfind.symm.trans hfind'
    rw [hlocation]
    exact (Prod.mk.inj (Except.ok.inj hsame)).2.symm
  exact ⟨⟨hentry ▸ hleaf.located, getCommand_index _ _ ▸ hleaf.document, hleaf.made⟩, hread⟩

end ApiNode

end Restline
