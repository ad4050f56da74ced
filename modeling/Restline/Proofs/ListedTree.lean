import Restline.Proofs.ProperJson
import Restline.Proofs.ReachedLeaf

/-!
What the tree of generated commands lists, and what is read to make it. Whatever the target, the root and
every group on the way to it list all that the index has there, once and in the order of the names. Making
the tree reads the document of the command on the way to the target, and none if there is no such command.

* `Json.NamesOnce`, `Group.NamesOnce` : values and groups in which no name is given twice, as in every value
  that is read from a text.
* `Group.find_of_nodeAt`, `Group.eq_of_prefix_nodeAt` : the command that segments address.
* `ApiNode.at?` : the node that a path leads to.
* `ApiNode.Lists` : nodes for all groups and commands.
* `ApiNode.at?_of_children`, `ApiNode.loaded_of_children` : the children of a node, and what is read for them.
* `ApiNode.loaded_and_lists_of_build` : **the whole tree**.
-/

set_option autoImplicit false

namespace Restline

/-! ### Names that are given once -/

/-- No object in the value has two members of a name. -/
inductive Json.NamesOnce : Json → Prop
  | obj {ms : List (String × Json)} (names : (Keyed.keys ms).Nodup)
      (members : ∀ e ∈ ms, NamesOnce e.2) : NamesOnce (.obj ms)
  | arr {items : List Json} (each : ∀ j ∈ items, NamesOnce j) : NamesOnce (.arr items)
  | scalar {j : Json} (notObj : ∀ ms, j ≠ .obj ms) (notArr : ∀ items, j ≠ .arr items) : NamesOnce j

namespace Json

theorem namesOnce_of_proper {j : Json} : j.Proper → j.NamesOnce := by
  induction j using Json.induction with
  | obj ms ih =>
      intro h
      obtain ⟨hnames, hmembers⟩ := proper_obj.1 h
      exact .obj hnames fun e he => ih e he (hmembers e he)
  | arr items ih =>
      intro h
      exact .arr fun j hj => ih j hj (proper_arr.1 h j hj)
  | null | bool | int | float | str => exact fun _ => .scalar (by simp) (by simp)

/-- A text never gives a name twice: of two members of a name, the last one counts. -/
theorem namesOnce_of_read {s : String} {j : Json} (h : read s = .ok j) : j.NamesOnce :=
  namesOnce_of_proper (proper_of_read h)

theorem NamesOnce.members {ms : List (String × Json)} (h : (Json.obj ms).NamesOnce) :
    (Keyed.keys ms).Nodup ∧ ∀ e ∈ ms, e.2.NamesOnce := by
  cases h with
  | obj names members => exact ⟨names, members⟩
  | scalar notObj _ => exact absurd rfl (notObj ms)

end Json

/-- Neither the group nor any group below it has two groups or two commands of a name. -/
inductive Group.NamesOnce : Group → Prop
  | intro {g : Group} (groups : g.groups.keys.Nodup) (commands : g.commands.keys.Nodup)
      (below : ∀ s h, g.groups.get? s = some h → NamesOnce h) : NamesOnce g

/-- The names in a map are those of the members it was read from. -/
theorem Checked.keys_of_entries {α : Type} {read : Json → Checked α} :
    ∀ {ms : List (String × Json)} {m : Keyed α}, entries read ms = .valid m → m.keys = Keyed.keys ms := by
  intro ms
  induction ms with
  | nil =>
      intro m h
      obtain rfl := Checked.valid.inj h
      rfl
  | cons e r ih =>
      intro m h
      obtain ⟨put, rest, hput, hrest, rfl⟩ := and_eq_valid_iff.1 h
      obtain ⟨a, -, rfl⟩ := map_eq_valid_iff.1 hput
      exact congrArg (e.1 :: ·) (ih hrest)

/-- A field that is a map has each name once, and its values were read from values like the record's. -/
theorem namesOnce_of_mapField {α : Type} {ms : Keyed Json} {f : Field} {read : Json → Checked α}
    {m : Keyed α} (hms : (Json.obj ms).NamesOnce) (h : fieldOr ms f [] (Checked.mapOf read) = .valid m) :
    m.keys.Nodup ∧ ∀ key v, m.get? key = some v → ∃ j, j.NamesOnce ∧ read j = .valid v := by
  rcases eq_or_exists_of_fieldOr_eq_valid h with rfl | ⟨j, hj, hread⟩
  · exact ⟨List.nodup_nil, fun key v hv => by cases hv⟩
  obtain ⟨name, -, hget⟩ := Option.bind_eq_some_iff.1 hj
  have honce := hms.members.2 _ (Keyed.mem_of_get? hget)
  cases j with
  | obj ms' =>
      obtain ⟨hnames, hmembers⟩ := honce.members
      refine ⟨Checked.keys_of_entries hread ▸ hnames, fun key v hv => ?_⟩
      obtain ⟨j', hmem, hj'⟩ := Checked.exists_of_mem_entries hread (Keyed.mem_of_get? hv)
      exact ⟨j', hmembers _ hmem, hj'⟩
  | _ => cases hread

theorem Group.namesOnce_of_readAt {depth : Nat} : ∀ {j : Json} {g : Group},
    j.NamesOnce → readAt depth j = .valid g → g.NamesOnce := by
  induction depth with
  | zero =>
      intro j g hj h
      cases h
  | succ depth ih =>
      intro j g hj h
      obtain ⟨ms, rfl, hgroups, hcommands, -⟩ := fields_of_readAt h
      obtain ⟨hnames, hbelow⟩ := namesOnce_of_mapField hj hgroups
      refine .intro hnames (namesOnce_of_mapField hj hcommands).1 fun s k hk => ?_
      obtain ⟨j', hj', hreadAt⟩ := hbelow s k hk
      exact ih hj' hreadAt

/-! ### The index as a group -/

namespace Index

variable {j : Json} {i : Index}

theorem root_unambiguous (hi : check j = .ok i) : i.root.Unambiguous :=
  .intro (fun _ _ _ => rfl) fun _ _ hg => unambiguous_of_check hi hg

theorem root_namesOnce (hj : j.NamesOnce) (hi : check j = .ok i) : i.root.NamesOnce := by
  obtain ⟨ms, rfl, hgroups⟩ := groups_of_ofJson (ofJson_of_check hi)
  obtain ⟨hnames, hbelow⟩ := namesOnce_of_mapField hj hgroups
  refine .intro hnames List.nodup_nil fun s k hk => ?_
  obtain ⟨j', hj', hread⟩ := hbelow s k hk
  exact Group.namesOnce_of_readAt hj' hread

end Index

/-! ### What segments address -/

namespace Group

variable {g : Group} {e e' : Entry}

theorem nodeAt_cons (g : Group) (s : String) (rest : List String) :
    g.nodeAt (s :: rest) =
      match g.groups.get? s with
      | some h => h.nodeAt rest
      | none =>
        match g.commands.get? s, rest with
        | some e, [] => some (.command e)
        | _, _ => none :=
  nodeAt.eq_def g (s :: rest)

theorem nodeAt_nil_ne_command : g.nodeAt [] ≠ some (.command e) := by
  rw [nodeAt]
  exact fun h => nomatch h

/-- A command that segments address is the one they find. -/
theorem find_of_nodeAt {segments : List String} (path : List String)
    (h : g.nodeAt segments = some (.command e)) : g.find path segments = .ok (path ++ segments, e) := by
  induction segments generalizing g path with
  | nil => exact absurd h nodeAt_nil_ne_command
  | cons s rest ih =>
      rw [nodeAt_cons] at h
      rw [find_cons]
      cases hs : g.groups.get? s with
      | some k =>
          rw [hs] at h
          have hfind := ih (path ++ [s]) h
          rwa [List.append_assoc] at hfind
      | none =>
          rw [hs] at h
          cases hc : g.commands.get? s with
          | none =>
              rw [hc] at h
              cases h
          | some e' =>
              rw [hc] at h
              cases rest with
              | nil => cases h; rfl
              | cons x r => cases h

/-- At most one front part of some segments addresses a command. -/
theorem eq_of_prefix_nodeAt (hg : g.Unambiguous) {front front' target : List String}
    (hfront : front <+: target) (hfront' : front' <+: target) (h : g.nodeAt front = some (.command e))
    (h' : g.nodeAt front' = some (.command e')) : front = front' := by
  rcases List.prefix_or_prefix_of_prefix hfront hfront' with ⟨more, rfl⟩ | ⟨more, rfl⟩
  · rw [eq_nil_of_find_append hg (find_of_nodeAt [] h) (find_of_nodeAt [] h'), List.append_nil]
  · rw [eq_nil_of_find_append hg (find_of_nodeAt [] h') (find_of_nodeAt [] h), List.append_nil]

/-- The way to a group goes through a group. -/
theorem exists_of_nodeAt_cons {g' : Group} {s : String} {rest : List String}
    (h : g.nodeAt (s :: rest) = some (.group g')) :
    ∃ k, g.groups.get? s = some k ∧ k.nodeAt rest = some (.group g') := by
  rw [nodeAt_cons] at h
  split at h
  · rename_i k hk
    exact ⟨k, hk, h⟩
  · split at h <;> cases h

/-- What holds of a group and of all groups below holds of the groups that segments lead to. -/
theorem of_nodeAt {P : Group → Prop} (hbelow : ∀ g, P g → ∀ s k, g.groups.get? s = some k → P k)
    {g' : Group} {segments : List String} (hg : P g) (h : g.nodeAt segments = some (.group g')) : P g' := by
  induction segments generalizing g with
  | nil =>
      obtain rfl := Node.group.inj (Option.some_inj.1 h)
      exact hg
  | cons s rest ih =>
      obtain ⟨k, hk, hnode⟩ := exists_of_nodeAt_cons h
      exact ih (hbelow g hg s k hk) hnode

theorem unambiguous_of_nodeAt {g' : Group} {segments : List String} (hg : g.Unambiguous)
    (h : g.nodeAt segments = some (.group g')) : g'.Unambiguous :=
  of_nodeAt (fun _ ⟨_, below⟩ => below) hg h

theorem namesOnce_of_nodeAt {g' : Group} {segments : List String} (hg : g.NamesOnce)
    (h : g.nodeAt segments = some (.group g')) : g'.NamesOnce :=
  of_nodeAt (fun _ ⟨_, _, below⟩ => below) hg h

end Group

namespace Index

variable {i : Index}

theorem root_nodeAt_cons (s : String) (rest : List String) :
    i.root.nodeAt (s :: rest) = i.nodeAt (s :: rest) := by
  have hgroups : i.root.groups.get? s = i.groups.get? s := rfl
  have hcommands : i.root.commands.get? s = none := rfl
  rw [Group.nodeAt_cons, hgroups, hcommands, nodeAt]
  cases i.groups.get? s <;> rfl

theorem root_nodeAt_eq_command {segments : List String} {e : Entry} :
    i.root.nodeAt segments = some (.command e) ↔ i.nodeAt segments = some (.command e) := by
  cases segments with
  | nil => exact ⟨fun h => (nomatch h), fun h => (nomatch h)⟩
  | cons s rest => rw [root_nodeAt_cons]

theorem eq_of_prefix_nodeAt (hi : i.root.Unambiguous) {front front' target : List String} {e e' : Entry}
    (hfront : front <+: target) (hfront' : front' <+: target) (h : i.nodeAt front = some (.command e))
    (h' : i.nodeAt front' = some (.command e')) : front = front' :=
  Group.eq_of_prefix_nodeAt hi hfront hfront' (root_nodeAt_eq_command.2 h) (root_nodeAt_eq_command.2 h')

theorem root_nodeAt_of_group {segments : List String} {g : Group}
    (h : i.nodeAt segments = some (.group g)) : i.root.nodeAt segments = some (.group g) := by
  cases segments with
  | nil => cases h
  | cons s rest => rw [root_nodeAt_cons, h]

end Index

/-! ### Nodes in the order of the names -/

namespace ApiNode

/-- The node is a group. -/
def isGroup : ApiNode → Bool
  | .group _ _ _ => true
  | _ => false

/-- The names of the groups among nodes. -/
def groupNames (nodes : List ApiNode) : List String := (nodes.filter isGroup).map name

/-- The names of the commands among nodes. -/
def commandNames (nodes : List ApiNode) : List String := (nodes.filter fun n => !n.isGroup).map name

/-- The nodes are all groups and commands that are given, each once, the groups in the order of their names
and so the commands. -/
structure Lists (nodes : List ApiNode) (groups : Keyed Group) (commands : Keyed Entry) : Prop where
  groups_perm : (groupNames nodes).Perm groups.keys
  groups_sorted : (groupNames nodes).Pairwise (· ≤ ·)
  commands_perm : (commandNames nodes).Perm commands.keys
  commands_sorted : (commandNames nodes).Pairwise (· ≤ ·)

/-- Where no name is given twice, no two nodes have one name. -/
theorem Lists.nodup_names {nodes : List ApiNode} {g : Group} (h : Lists nodes g.groups g.commands)
    (hnames : g.NamesOnce) (hclear : g.Unambiguous) : (nodes.map name).Nodup := by
  obtain ⟨hgroups, hcommands, -⟩ := hnames
  obtain ⟨own, -⟩ := hclear
  have hperm : (nodes.map name).Perm (g.groups.keys ++ g.commands.keys) :=
    ((List.filter_append_perm isGroup nodes).symm.map name).trans
      ((List.map_append ..).symm ▸ h.groups_perm.append h.commands_perm)
  refine hperm.nodup_iff.2 (List.nodup_append.2 ⟨hgroups, hcommands, ?_⟩)
  rintro s hs t ht rfl
  obtain ⟨⟨s, k⟩, hk, rfl⟩ := List.mem_map.1 hs
  obtain ⟨⟨s', e⟩, he, heq⟩ := List.mem_map.1 ht
  obtain rfl : s' = s := heq
  obtain ⟨k', hk'⟩ := Keyed.exists_get?_of_mem hk
  obtain ⟨e', he'⟩ := Keyed.exists_get?_of_mem he
  have hnone := own s' k' hk'
  rw [he'] at hnone
  cases hnone

/-- In the order of the keys every key is as often as before. -/
theorem perm_keys_sortedByKey {α : Type} (m : Keyed α) :
    (Keyed.keys (Text.sortedByKey m)).Perm m.keys :=
  (List.mergeSort_perm m _).map _

theorem pairwise_keys_sortedByKey {α : Type} (m : Keyed α) :
    (Keyed.keys (Text.sortedByKey m)).Pairwise (· ≤ ·) := by
  have htrans : ∀ e e' e'' : String × α, decide (e.1 ≤ e'.1) → decide (e'.1 ≤ e''.1) →
      decide (e.1 ≤ e''.1) := by
    intro e e' e'' h h'
    exact decide_eq_true (le_trans (of_decide_eq_true h) (of_decide_eq_true h'))
  have htotal : ∀ e e' : String × α, decide (e.1 ≤ e'.1) || decide (e'.1 ≤ e.1) := by
    intro e e'
    simpa using le_total e.1 e'.1
  have hsorted := List.pairwise_mergeSort htrans htotal m
  exact List.pairwise_map.2 (hsorted.imp of_decide_eq_true)

@[simp] theorem isGroup_groupNode (wanted : Option (String × List ApiNode)) (g : String × Group) :
    (groupNode wanted g).isGroup = true := rfl

theorem isGroup_commandNode (path : List String) {wanted : Option ApiNode}
    (hwanted : ∀ node, wanted = some node → node.isGroup = false) (e : String × Entry) :
    (commandNode path wanted e).isGroup = false := by
  cases wanted with
  | none => rfl
  | some node =>
      rw [commandNode]
      split
      · exact hwanted node rfl
      · rfl

theorem names_append {gs cs : List ApiNode} (hgs : ∀ n ∈ gs, n.isGroup = true)
    (hcs : ∀ n ∈ cs, n.isGroup = false) :
    groupNames (gs ++ cs) = gs.map name ∧ commandNames (gs ++ cs) = cs.map name := by
  have hgs' : gs.filter (fun n => !n.isGroup) = [] := List.filter_eq_nil_iff.2 fun n hn => by simp [hgs n hn]
  have hcs' : cs.filter isGroup = [] := List.filter_eq_nil_iff.2 fun n hn => by simp [hcs n hn]
  constructor
  · rw [groupNames, List.filter_append, List.filter_eq_self.2 hgs, hcs', List.append_nil]
  · rw [commandNames, List.filter_append, hgs', List.nil_append,
      List.filter_eq_self.2 fun n hn => by simp [hcs n hn]]

/-- The nodes that are made for the groups and commands of one place list them. -/
theorem lists_nodes (path : List String) (groups : Keyed Group) (commands : Keyed Entry)
    (wg : Option (String × List ApiNode)) {wc : Option ApiNode}
    (hwc : ∀ node, wc = some node → node.isGroup = false) :
    Lists ((Text.sortedByKey groups).map (groupNode wg)
      ++ (Text.sortedByKey commands).map (commandNode path wc)) groups commands := by
  have hgs : ∀ n ∈ (Text.sortedByKey groups).map (groupNode wg), n.isGroup = true :=
    List.forall_mem_map.2 fun g _ => isGroup_groupNode wg g
  have hcs : ∀ n ∈ (Text.sortedByKey commands).map (commandNode path wc), n.isGroup = false :=
    List.forall_mem_map.2 fun e _ => isGroup_commandNode path hwc e
  have hgroups : ((Text.sortedByKey groups).map (groupNode wg)).map name =
      Keyed.keys (Text.sortedByKey groups) := List.map_map
  have hcommands : ((Text.sortedByKey commands).map (commandNode path wc)).map name =
      Keyed.keys (Text.sortedByKey commands) := by
    rw [List.map_map]
    exact List.map_congr_left fun e _ => name_commandNode path wc e
  obtain ⟨hgroupNames, hcommandNames⟩ := names_append hgs hcs
  rw [hgroups] at hgroupNames
  rw [hcommands] at hcommandNames
  constructor
  · exact hgroupNames ▸ perm_keys_sortedByKey groups
  · exact hgroupNames ▸ pairwise_keys_sortedByKey groups
  · exact hcommandNames ▸ perm_keys_sortedByKey commands
  · exact hcommandNames ▸ pairwise_keys_sortedByKey commands

/-! ### The children of a node -/

open Building

variable {b : Bundle} {c c' : Cache} {i : Index} {version : Option String} {path target : List String}
  {nodes : List ApiNode} {g : Group}

theorem isGroup_of_buildLeaf {segments : List String} {name : String} {e : Entry} {node : ApiNode}
    (h : exec (buildLeaf b version segments name e) c = (.ok node, c')) : node.isGroup = false := by
  obtain ⟨_, _, _, hlocated⟩ := exec_bind_eq_ok h
  obtain ⟨_, _, _, hread⟩ := exec_bind_eq_ok hlocated
  obtain ⟨_, _, _, hmade⟩ := exec_bind_eq_ok hread
  obtain ⟨_, _, _, hnode⟩ := exec_bind_eq_ok hmade
  obtain ⟨rfl, -⟩ := exec_pure_eq_ok hnode
  rfl

/-- The children list the groups and commands they are made for. -/
theorem lists_of_children {groups : Keyed Group} {commands : Keyed Entry}
    (h : exec (children b version path groups commands target) c = (.ok nodes, c')) :
    Lists nodes groups commands := by
  cases target with
  | nil =>
      obtain ⟨rfl, -⟩ := exec_pure_eq_ok h
      exact lists_nodes path groups commands none fun node hnode => by cases hnode
  | cons s rest =>
      obtain ⟨wg, wc, c₁, rfl, -, hcommand⟩ := children_cons_eq_ok h
      refine lists_nodes path groups commands wg fun node hnode => ?_
      rcases hcommand with ⟨-, rfl, -⟩ | ⟨e, node', -, rfl, hleaf⟩
      · cases hnode
      · obtain rfl := Option.some_inj.1 hnode
        exact isGroup_of_buildLeaf hleaf

/-- The node that a path leads to: at each name the first child of that name. -/
def at? : List String → ApiNode → Option ApiNode
  | [], node => some node
  | s :: rest, .group _ _ nodes => (nodes.find? fun n => decide (n.name = s)).bind (at? rest)
  | _ :: _, _ => none

/-- Nodes made of the members of a map, each with the name of its member: the first of a name is that of a
member. -/
theorem find?_map_sortedByKey {α : Type} {m : Keyed α} {f : String × α → ApiNode} {s : String} {v : α}
    (hname : ∀ e, (f e).name = e.1) (hv : (s, v) ∈ m) :
    ∃ w, (s, w) ∈ m ∧ ((Text.sortedByKey m).map f).find? (fun n => decide (n.name = s)) = some (f (s, w)) := by
  cases hfound : ((Text.sortedByKey m).map f).find? (fun n => decide (n.name = s)) with
  | none =>
      have hnot := List.find?_eq_none.1 hfound _ (List.mem_map_of_mem (Text.mem_sortedByKey.2 hv))
      simp [hname] at hnot
  | some node =>
      have hs := List.find?_some hfound
      rw [decide_eq_true_iff] at hs
      obtain ⟨⟨s', w⟩, hw, rfl⟩ := List.mem_map.1 (List.mem_of_find?_eq_some hfound)
      rw [hname] at hs
      obtain rfl : s' = s := hs
      exact ⟨w, Text.mem_sortedByKey.1 hw, rfl⟩

/-- The node of the group on the way to the target has the children that were made for it. -/
theorem find?_groupNode {groups : Keyed Group} {s : String} {k : Group} (sub : List ApiNode)
    (hk : (s, k) ∈ groups) :
    ∃ help, ((Text.sortedByKey groups).map (groupNode (some (s, sub)))).find?
      (fun n => decide (n.name = s)) = some (.group s help sub) := by
  obtain ⟨k', -, hfound⟩ := find?_map_sortedByKey (name_groupNode (some (s, sub))) hk
  exact ⟨shownHelp k'.help, by rw [hfound, groupNode, if_pos rfl]⟩

/-- Down the way to the target, the nodes list what is there. -/
theorem at?_of_children {front : List String} {g' : Group}
    (h : exec (children b version path g.groups g.commands target) c = (.ok nodes, c'))
    (hfront : front <+: target) (hnode : g.nodeAt front = some (.group g')) (n : String)
    (help : Option String) :
    ∃ n' help' nodes', (ApiNode.group n help nodes).at? front = some (.group n' help' nodes') ∧
      Lists nodes' g'.groups g'.commands := by
  induction front generalizing g path target nodes c' n help with
  | nil =>
      obtain rfl := Node.group.inj (Option.some_inj.1 hnode)
      exact ⟨n, help, nodes, rfl, lists_of_children h⟩
  | cons s front ih =>
      obtain ⟨more, rfl⟩ := hfront
      obtain ⟨k, hk, hbelow⟩ := Group.exists_of_nodeAt_cons hnode
      obtain ⟨wg, wc, c₁, rfl, hgroup, -⟩ := children_cons_eq_ok h
      rcases hgroup with ⟨hnone, -⟩ | ⟨k', sub, hk', rfl, hsub⟩
      · rw [hnone] at hk
        cases hk
      obtain rfl := Option.some_inj.1 (hk'.symm.trans hk)
      obtain ⟨shown, hfound⟩ := find?_groupNode sub (Keyed.mem_of_get? hk)
      obtain ⟨n', help', nodes', hat, hlists⟩ := ih hsub (List.prefix_append front more) hbelow s shown
      refine ⟨n', help', nodes', ?_, hlists⟩
      rw [at?, List.find?_append, hfound]
      exact hat

/-! ### What is read -/

/-- In an empty cache of documents, the one that is asked for is the only one that was read. -/
theorem loaded_getCommand {id : String} {k : Command} (hempty : c.commands = [])
    (h : (c.getCommand b id).1 = .ok k) : (c.getCommand b id).2.loaded = [id] := by
  have hnone : c.commands.get? id = none := by rw [hempty, Keyed.get?_nil]
  simp only [Cache.getCommand, hnone] at h ⊢
  cases hread : (b.command id).bind (Command.check id) with
  | ok k' => simp only [Cache.loaded, hempty]; rfl
  | error f =>
      rw [hread] at h
      cases h

/-- Of the documents, the one of the command on the way to the target is read, and none if there is no such
command. -/
theorem loaded_of_children (hindex : (c.getIndex b).1 = .ok i) (hempty : c.commands = [])
    (hg : g.Unambiguous)
    (h : exec (children b version path g.groups g.commands target) c = (.ok nodes, c')) :
    (∃ front e l, front <+: target ∧ g.nodeAt front = some (.command e) ∧
        i.locate (path ++ front) (version.filter e.versions.contains) = .ok l ∧
        c'.loaded = [l.documentId]) ∨
      (∀ front e, front <+: target → g.nodeAt front ≠ some (.command e)) ∧ c'.loaded = [] := by
  induction target generalizing g path nodes c' with
  | nil =>
      obtain ⟨-, rfl⟩ := exec_pure_eq_ok h
      refine .inr ⟨fun front e hfront => ?_, by rw [Cache.loaded, hempty]; rfl⟩
      rw [List.prefix_nil.1 hfront]
      exact Group.nodeAt_nil_ne_command
  | cons s rest ih =>
      obtain ⟨own, below⟩ := hg
      obtain ⟨wg, wc, c₁, -, hgroup, hcommand⟩ := children_cons_eq_ok h
      rcases hgroup with ⟨hnone, rfl⟩ | ⟨k, sub, hk, -, hsub⟩
      · rcases hcommand with ⟨hno, -, rfl⟩ | ⟨e, node, he, -, hleaf⟩
        · -- the next segment addresses nothing
          refine .inr ⟨fun front e hfront => ?_, by rw [Cache.loaded, hempty]; rfl⟩
          rcases List.prefix_cons_iff.1 hfront with rfl | ⟨front, rfl, -⟩
          · exact Group.nodeAt_nil_ne_command
          · rw [Group.nodeAt_cons, hnone]
            simp [hno]
        · obtain ⟨l, -, hleafAt, rfl⟩ := buildLeaf_eq_ok hindex hleaf
          refine .inl ⟨[s], e, l.location, List.prefix_append [s] rest, ?_, hleafAt.located, ?_⟩
          · rw [Group.nodeAt_cons, hnone]
            simp only [he]
          · exact loaded_getCommand (k := l.command) hempty
              ((getCommand_index _ _).trans hleafAt.document)
      · -- a group has no command of its name beside it
        obtain rfl : c' = c₁ := by
          rcases hcommand with ⟨-, -, hc⟩ | ⟨e, node, he, -⟩
          · exact hc
          · rw [own s k hk] at he
            cases he
        have hstep : ∀ front, g.nodeAt (s :: front) = k.nodeAt front := fun front => by
          rw [Group.nodeAt_cons, hk]
        rcases ih (below s k hk) hsub with
          ⟨front, e, l, hfront, hnode, hlocate, hloaded⟩ | ⟨hno, hloaded⟩
        · refine .inl ⟨s :: front, e, l, (List.prefix_cons_inj s).2 hfront, ?_, ?_, hloaded⟩
          · rw [hstep, hnode]
          · rwa [List.append_assoc] at hlocate
        · refine .inr ⟨fun front e hfront => ?_, hloaded⟩
          rcases List.prefix_cons_iff.1 hfront with rfl | ⟨front, rfl, hrest⟩
          · exact Group.nodeAt_nil_ne_command
          · rw [hstep]
            exact hno front e hrest

/-! ### The whole tree -/

variable {tree : ApiNode}

/-- Of the documents, the one of the command on the way to the target is read and no other. -/
theorem loaded_of_build (hroot : i.root.Unambiguous) (hindex : (c.getIndex b).1 = .ok i)
    (hempty : c.commands = []) (hbuild : exec (build b target version) c = (.ok tree, c')) :
    (∀ front e, front <+: target → i.nodeAt front = some (.command e) →
        ∃ l, i.locate front (version.filter e.versions.contains) = .ok l ∧ c'.loaded = [l.documentId]) ∧
      ((∀ front e, front <+: target → i.nodeAt front ≠ some (.command e)) → c'.loaded = []) := by
  obtain ⟨help, nodes, rfl, hchildren⟩ := build_eq_ok hindex hbuild
  have hread := loaded_of_children (c := { c with index := some i }) rfl hempty hroot hchildren
  simp only [Index.root_nodeAt_eq_command, ne_eq, List.nil_append] at hread
  rcases hread with ⟨front', e', l, hfront', hnode', hlocate, hloaded⟩ | ⟨hno, hloaded⟩
  · refine ⟨fun front e hfront hnode => ?_, fun hno => absurd hnode' (hno front' e' hfront')⟩
    obtain rfl := Index.eq_of_prefix_nodeAt hroot hfront hfront' hnode hnode'
    obtain rfl : e = e' := Node.command.inj (Option.some_inj.1 (hnode.symm.trans hnode'))
    exact ⟨l, hlocate, hloaded⟩
  · exact ⟨fun front e hfront hnode => absurd hnode (hno front e hfront), fun _ => hloaded⟩

/-- The root and every group on the way to the target list what is there. -/
theorem lists_of_build (hindex : (c.getIndex b).1 = .ok i)
    (hbuild : exec (build b target version) c = (.ok tree, c')) {front : List String}
    (hfront : front <+: target) (hg : i.root.nodeAt front = some (.group g)) :
    ∃ n help nodes, tree.at? front = some (.group n help nodes) ∧ Lists nodes g.groups g.commands := by
  obtain ⟨help, nodes, rfl, hchildren⟩ := build_eq_ok hindex hbuild
  exact at?_of_children hchildren hfront hg "api" help

/-- **What is read for a tree, and what it lists.** Where a front part of the target addresses a command, it is
the only one, and the document of this command is read and no other, at the version asked for if the
command has it and at the latest otherwise; without such a front part no document is read. The root lists
all services, and every group on the way to the target its groups and commands. -/
theorem loaded_and_lists_of_build {j : Json} (hj : Index.check j = .ok i)
    (hindex : (c.getIndex b).1 = .ok i) (hempty : c.commands = [])
    (hbuild : (build b target version).run.run c = (.ok tree, c')) :
    (∀ front e, front <+: target → i.nodeAt front = some (.command e) →
        (∃ l, i.locate front (version.filter e.versions.contains) = .ok l ∧ c'.loaded = [l.documentId]) ∧
          ∀ front' e', front' <+: target → i.nodeAt front' = some (.command e') → front' = front) ∧
      ((∀ front e, front <+: target → i.nodeAt front ≠ some (.command e)) → c'.loaded = []) ∧
      (∃ n help nodes, tree = .group n help nodes ∧ Lists nodes i.groups [] ∧
        (j.NamesOnce → (nodes.map name).Nodup)) ∧
      ∀ front g, front <+: target → i.nodeAt front = some (.group g) →
        ∃ n help nodes, tree.at? front = some (.group n help nodes) ∧ Lists nodes g.groups g.commands ∧
          (j.NamesOnce → (nodes.map name).Nodup) := by
  have hroot := Index.root_unambiguous hj
  have hnodup : ∀ front g nodes, i.root.nodeAt front = some (.group g) →
      Lists nodes g.groups g.commands → j.NamesOnce → (nodes.map name).Nodup := by
    intro front g nodes hg hlist honce
    exact hlist.nodup_names (Group.namesOnce_of_nodeAt (Index.root_namesOnce honce hj) hg)
      (Group.unambiguous_of_nodeAt hroot hg)
  obtain ⟨hread, hnone⟩ := loaded_of_build hroot hindex hempty hbuild
  refine ⟨fun front e hfront hnode => ⟨hread front e hfront hnode, fun front' e' hfront' hnode' =>
    Index.eq_of_prefix_nodeAt hroot hfront' hfront hnode' hnode⟩, hnone, ?_, fun front g hfront hnode => ?_⟩
  · have hg : i.root.nodeAt [] = some (.group i.root) := rfl
    obtain ⟨n, help, nodes, hat, hlist⟩ := lists_of_build hindex hbuild List.nil_prefix hg
    exact ⟨n, help, nodes, Option.some_inj.1 hat, hlist, hnodup [] i.root nodes hg hlist⟩
  · have hg := Index.root_nodeAt_of_group hnode
    obtain ⟨n, help, nodes, hat, hlist⟩ := lists_of_build hindex hbuild hfront hg
    exact ⟨n, help, nodes, hat, hlist, hnodup front g nodes hg hlist⟩

/-! ### A service with a group and two commands -/

/-- An index with two services, one of which has a group and two commands. -/
def shelfDocument : Json :=
  .obj [("commandGroups", .obj [("b", .obj []), ("a", .obj [("commandGroups", .obj [("z", .obj [])]),
    ("commands", .obj [("show", .obj [("versions", .arr [.str "1", .str "2"])]), ("get", .obj [])])])])]

/-- The index of the document. -/
def shelfIndex : Index where
  groups := [("b", .node none [] []),
    ("a", .node none [("z", .node none [] [])] [("show", { versions := ["1", "2"] }), ("get", {})])]

/-- The index with the document of one command at its latest version. -/
def shelf : Bundle := .ofValues shelfDocument [("a_show_2", .obj [])]

theorem check_shelfDocument : Index.check shelfDocument = .ok shelfIndex := by
  cbv

/-- The command on the way to the target, at its latest version. -/
def shelfLeaf : Leaf where
  location := ⟨["a", "show"], "2", { versions := ["1", "2"] }⟩
  command := {}
  choices := ["1", "2"]
  args := []

/-- The tree for the command. -/
def shelfTree : ApiNode :=
  .group "api" (some defaultHelp) [.group "a" none [.group "z" none [], .stub ["a", "get"] "get" none,
    .leaf "show" none shelfLeaf], .group "b" none []]

theorem build_shelf : (build shelf ["a", "show", "more"] (some "9")).run.run {} =
    (.ok shelfTree, ⟨some shelfIndex, [("a_show_2", {})]⟩) := by
  cbv

theorem namesOnce_shelfDocument : shelfDocument.NamesOnce :=
  Json.namesOnce_of_proper <| by
    simp [shelfDocument, Json.Proper, Json.MembersProper, Json.AllProper, Keyed.keys]

/-- The target goes on behind the command, and its version is not offered: the document at the latest version
is read, and the service on the way lists its group and both commands. -/
theorem loaded_and_lists_of_build_shelf :
    ∃ tree c', (build shelf ["a", "show", "more"] (some "9")).run.run {} = (.ok tree, c') ∧
      c'.loaded = ["a_show_2"] ∧ ∃ n help nodes, tree.at? ["a"] = some (.group n help nodes) ∧
        Lists nodes [("z", .node none [] [])] [("show", { versions := ["1", "2"] }), ("get", {})] ∧
        (nodes.map name).Nodup := by
  have hindex : (({} : Cache).getIndex shelf).1 = .ok shelfIndex := by
    simp only [Cache.getIndex, shelf, Bundle.ofValues, Except.bind, check_shelfDocument]
  obtain ⟨hread, -, -, hlists⟩ := loaded_and_lists_of_build check_shelfDocument hindex rfl build_shelf
  obtain ⟨⟨l, hlocate, hloaded⟩, -⟩ := hread ["a", "show"] { versions := ["1", "2"] }
    (by decide) (by rfl)
  obtain ⟨n, help, nodes, hat, hlist, hnodup⟩ := hlists ["a"] _ (by decide) rfl
  refine ⟨_, _, build_shelf, ?_, n, help, nodes, hat, hlist, hnodup namesOnce_shelfDocument⟩
  have hlocation : shelfIndex.locate ["a", "show"] none = .ok shelfLeaf.location := by rfl
  have hversion : (some "9").filter ["1", "2"].contains = none := by decide
  rw [hversion, hlocation] at hlocate
  obtain rfl := Except.ok.inj hlocate
  exact hloaded

end ApiNode

end Restline
