import Restline.Proofs.DeclaredArguments
import Restline.Proofs.ListedTree
import Restline.Proofs.TargetVersion

/-!
Commands that can be run from the command line. For a command that segments locate and whose document is read, the
tree is made exactly if the command can be declared: its versions as choices, the name of its document, and its
options as flags. Then words that begin with the segments go to the command, and the segments alone run it. But
an index may list versions that are no choices, and a document may have options that are no flags; for those no
tree is made, although the command is located and its document is read.

* `Leaf.IsDeclarable`, `Leaf.exists_ofCommand_iff` : commands that can be declared.
* `ApiNode.exec_buildLeaf`, `ApiNode.exec_children`, `ApiNode.exec_build` : what building comes to, from the command
  up to the root.
* `ApiNode.Offers`, `ApiNode.run_of_at?` : the names on the way to a command as words.
* `ApiNode.build_iff_isDeclarable` : **a command that is located can be run exactly if it can be declared**.
-/

set_option autoImplicit false

namespace Restline

/-! ### Flags with a slash -/

namespace Text

variable {s head tail : String}

theorem trimLeft_eq_empty_iff : trimLeft s = "" ↔ ∀ ch ∈ s.toList, isBlank ch = true := by
  rw [← String.toList_eq_nil_iff, trimLeft, String.toList_ofList, List.dropWhile_eq_nil_iff]

theorem trimRight_eq_empty_iff : trimRight s = "" ↔ ∀ ch ∈ s.toList, isBlank ch = true := by
  rw [← String.toList_eq_nil_iff, trimRight, String.toList_ofList, List.reverse_eq_nil_iff,
    List.dropWhile_eq_nil_iff]
  simp only [List.mem_reverse]

/-- Behind a slash in the text there are blanks at most. -/
def NoOpposite (s : String) : Prop :=
  ∀ front back, s.toList = front ++ '/' :: back → ∀ ch ∈ back, isBlank ch = true

theorem noOpposite_of_notMem (h : '/' ∉ s.toList) : NoOpposite s :=
  fun _ _ hs => absurd (hs ▸ List.mem_append_right _ List.mem_cons_self) h

/-- It is enough to look behind the first slash. -/
theorem noOpposite_iff (hs : s.toList = head.toList ++ '/' :: tail.toList) (hhead : '/' ∉ head.toList) :
    NoOpposite s ↔ ∀ ch ∈ tail.toList, isBlank ch = true := by
  refine ⟨fun h => h _ _ hs, fun h front back hback ch hch => ?_⟩
  rw [hs] at hback
  rcases List.append_eq_append_iff.1 hback with ⟨more, rfl, hmore⟩ | ⟨more, hmore, hrest⟩
  · cases more with
    | nil => exact h ch ((List.cons.inj hmore).2 ▸ hch)
    | cons x more =>
        obtain ⟨-, htail⟩ := List.cons.inj hmore
        exact h ch (htail ▸ List.mem_append_right more (List.mem_cons_of_mem _ hch))
  · -- no slash stands before the first one
    cases more with
    | nil => exact h ch ((List.cons.inj hrest).2 ▸ hch)
    | cons x more =>
        obtain ⟨rfl, -⟩ := List.cons.inj hrest
        exact absurd (hmore ▸ List.mem_append_right front List.mem_cons_self) hhead

/-- Characters in front do not count if none of them is a slash. -/
theorem noOpposite_append {front : List Char} (hfront : '/' ∉ front) (hs : s.toList = front ++ head.toList) :
    NoOpposite s ↔ NoOpposite head := by
  rcases headAndTail_cases '/' head with ⟨hno, -⟩ | ⟨own, tail, heq, hown, -⟩
  · have hnot : '/' ∉ s.toList := by
      rw [hs, List.mem_append, not_or]
      exact ⟨hfront, hno⟩
    exact iff_of_true (noOpposite_of_notMem hnot) (noOpposite_of_notMem hno)
  · have hall : s.toList = (String.ofList (front ++ own.toList)).toList ++ '/' :: tail.toList := by
      rw [hs, heq, String.toList_ofList, List.append_assoc]
    have hnot : '/' ∉ (String.ofList (front ++ own.toList)).toList := by
      rw [String.toList_ofList, List.mem_append, not_or]
      exact ⟨hfront, hown⟩
    rw [noOpposite_iff hall hnot, noOpposite_iff heq hown]

end Text

open Grammar

/-- A flag can be declared if it names no opposite. -/
theorem flagCrash?_eq_none_iff {flag : String} {rest : List Char} (hflag : flag.toList = '-' :: rest) :
    flagCrash? flag = none ↔ Text.NoOpposite flag := by
  rw [flagCrash?, declared]
  rcases Text.headAndTail_cases '/' flag with ⟨hno, hsplit⟩ | ⟨head, tail, heq, hhead, hsplit⟩
  · rw [hsplit]
    exact iff_of_true rfl (Text.noOpposite_of_notMem hno)
  · -- the dash stands before the slash, so something is left of the flag there
    have hown : Text.trimRight head ≠ "" := by
      rw [ne_eq, Text.trimRight_eq_empty_iff]
      intro hblank
      rw [hflag] at heq
      cases hcs : head.toList with
      | nil =>
          rw [hcs] at heq
          exact absurd (List.cons.inj heq).1 (by decide)
      | cons ch cs =>
          rw [hcs] at heq
          obtain rfl := (List.cons.inj heq).1
          exact absurd (hblank '-' (hcs ▸ List.mem_cons_self)) (by decide)
    rw [hsplit, Text.noOpposite_iff heq hhead, ← Text.trimLeft_eq_empty_iff]
    dsimp only
    split
    · rename_i hsame
      exact iff_of_false (by simp) (hsame ▸ hown)
    · split
      · exact iff_of_true rfl ‹_›
      · exact iff_of_false (by simp) ‹_›

theorem flagCrash?_dashed (name : String) : flagCrash? (dashed name) = none ↔ Text.NoOpposite name := by
  rcases dashed_cases name with ⟨c, hname, hd⟩ | ⟨-, hd⟩
  · have hfront : (dashed name).toList = ['-'] ++ name.toList := by rw [hd, hname, List.singleton_append]
    rw [flagCrash?_eq_none_iff hd, Text.noOpposite_append (by decide) hfront]
  · have hfront : (dashed name).toList = ['-', '-'] ++ name.toList := hd
    rw [flagCrash?_eq_none_iff hd, Text.noOpposite_append (by decide) hfront]

theorem ArgOption.crash?_eq_none_iff {o : ArgOption} :
    o.crash? = none ↔ ∀ flag ∈ o.flags, flagCrash? flag = none := by
  rw [← List.filterMap_eq_nil_iff, crash?]
  cases o.flags.filterMap flagCrash? <;> simp

/-! ### Commands that can be declared -/

namespace Leaf

variable {x : Location} {k : Command} {a : Arg} {o : ArgOption}

/-- The command can be declared: its versions are choices, there is no NUL in the name of its document, and no
name of an argument that is shown has an opposite. -/
structure IsDeclarable (x : Location) (k : Command) : Prop where
  versions : Version.AreDeclarable x.entry.versions
  document : '\x00' ∉ x.documentId.toList
  options : ∀ a ∈ k.shownArgs, ∀ n ∈ a.options, Text.NoOpposite n

theorem Represents.crash?_eq_none_iff (h : Represents a o) :
    o.crash? = none ↔ ∀ n ∈ a.options, Text.NoOpposite n := by
  rw [ArgOption.crash?_eq_none_iff, h.flags_eq]
  constructor
  · intro hall n hn
    by_cases hne : n = ""
    · exact hne ▸ Text.noOpposite_of_notMem (by simp)
    · exact (flagCrash?_dashed n).1 (hall _ (mem_optionFlags.2 ⟨n, hn, hne, rfl⟩))
  · intro hall flag hflag
    obtain ⟨n, hn, -, rfl⟩ := mem_optionFlags.1 hflag
    exact (flagCrash?_dashed n).2 (hall n hn)

theorem findSome?_crash?_eq_none_iff :
    (ArgOption.distinct (argOptions k)).findSome? ArgOption.crash? = none ↔
      ∀ a ∈ k.shownArgs, ∀ n ∈ a.options, Text.NoOpposite n := by
  rw [List.findSome?_eq_none_iff]
  constructor
  · intro hall a ha
    obtain ⟨o, ho, hrep⟩ := exists_related (R := fun o a => Represents a o) (represents_argOptions k).flip a ha
    exact hrep.crash?_eq_none_iff.1 (hall o ho)
  · intro hall o ho
    obtain ⟨a, ha, hrep⟩ := exists_related (represents_argOptions k) o ho
    exact hrep.crash?_eq_none_iff.2 (hall a ha)

theorem exists_ofCommand_iff : (∃ l, ofCommand x k = .ok l) ↔ IsDeclarable x k := by
  constructor
  · rintro ⟨l, hl⟩
    obtain ⟨hchoices, hdocument, hcrash, -, -, hargs⟩ := ApiNode.ofCommand_eq_ok_iff.1 hl
    exact ⟨(Version.choices_eq_ok_iff.1 hchoices).1, hdocument, findSome?_crash?_eq_none_iff.1 (hargs ▸ hcrash)⟩
  · rintro ⟨hversions, hdocument, hoptions⟩
    exact ⟨⟨x, k, _, _⟩, ApiNode.ofCommand_eq_ok_iff.2 ⟨Version.choices_eq_ok_iff.2 ⟨hversions, rfl⟩, hdocument,
      findSome?_crash?_eq_none_iff.2 hoptions, rfl, rfl, rfl⟩⟩

end Leaf

namespace ApiNode

/-! ### What building comes to -/

namespace Building

variable {α β : Type}

theorem exec_map (x : Building α) (f : α → β) (c : Cache) :
    exec (x >>= fun a => pure (f a)) c = ((exec x c).1.map f, (exec x c).2) := by
  simp only [exec, bind, ExceptT.bind, ExceptT.mk, StateT.bind, ExceptT.bindCont]
  rcases x c with ⟨_ | a, c₁⟩ <;> rfl

theorem exec_told {ε : Type} (report : ε → Fault) (x : Except ε α) (c : Cache) :
    exec (told report x) c = (x.mapError report, c) := rfl

end Building

open Building

variable {b : Bundle} {c : Cache} {i : Index} {version : Option String} {x : Location} {k : Command} {l : Leaf}
  {path segments own rest : List String} {g g' : Group} {s : String} {e : Entry}

/-- The command at the target is made of its document. -/
theorem exec_buildLeaf (hindex : (c.getIndex b).1 = .ok i)
    (hlocate : i.locate segments (version.filter e.versions.contains) = .ok x)
    (hdocument : (c.getCommand b x.documentId).1 = .ok k) :
    (exec (buildLeaf b version segments s e) c).1 =
      ((Leaf.ofCommand x k).mapError Fault.ofCrash).map (leaf s (shownHelp e.help)) := by
  have hlocated : exec (told LocateFault.report (i.locate segments (version.filter e.versions.contains)))
      { c with index := some i } = (.ok x, { c with index := some i }) := by
    rw [exec_told, hlocate]
    rfl
  have hread : exec (readCommand b x.documentId) { c with index := some i } =
      (.ok k, (Cache.getCommand b x.documentId { c with index := some i }).2) := by
    rw [← getCommand_index (some i)] at hdocument
    exact Prod.ext (congrArg (Except.mapError StoreFault.report) hdocument) rfl
  rw [buildLeaf, exec_bind_of_ok (exec_readIndex hindex), exec_bind_of_ok hlocated, exec_bind_of_ok hread,
    exec_map, exec_told]

/-- The children of a group with those of the group on the way to the target. -/
def withGroup (path : List String) (g : Group) (s : String) (sub : List ApiNode) : List ApiNode :=
  (Text.sortedByKey g.groups).map (groupNode (some (s, sub)))
    ++ (Text.sortedByKey g.commands).map (commandNode path none)

/-- The children of a group with the command at the target. -/
def withCommand (path : List String) (g : Group) (node : ApiNode) : List ApiNode :=
  (Text.sortedByKey g.groups).map (groupNode none)
    ++ (Text.sortedByKey g.commands).map (commandNode path (some node))

theorem exec_children_group (hg : g.groups.get? s = some g') (hno : g.commands.get? s = none) :
    (exec (children b version path g.groups g.commands (s :: rest)) c).1 =
      (exec (children b version (path ++ [s]) g'.groups g'.commands rest) c).1.map (withGroup path g s) := by
  rw [children_cons, hg, hno]
  simp only [bind_assoc, pure_bind, exec_map]
  rfl

theorem exec_children_command (hno : g.groups.get? s = none) (he : g.commands.get? s = some e) :
    (exec (children b version path g.groups g.commands (s :: rest)) c).1 =
      (exec (buildLeaf b version (path ++ [s]) s e) c).1.map (withCommand path g) := by
  rw [children_cons, hno, he]
  simp only [bind_assoc, pure_bind, exec_map]
  rfl

/-- Beside the group on the way to the target, words go on in it. -/
theorem at?_withGroup (hg : g.groups.get? s = some g') (sub : List ApiNode) (n : String) (help : Option String) :
    ∃ shown, (group n help (withGroup path g s sub)).at? (s :: rest) = (group s shown sub).at? rest := by
  obtain ⟨shown, hfound⟩ := find?_groupNode sub (Keyed.mem_of_get? hg)
  refine ⟨shown, ?_⟩
  rw [at?, withGroup, List.find?_append, hfound]
  rfl

theorem find?_groupNode_eq_none (wg : Option (String × List ApiNode)) (hno : g.groups.get? s = none) :
    ((Text.sortedByKey g.groups).map (groupNode wg)).find? (fun n => decide (n.name = s)) = none := by
  rw [List.find?_eq_none]
  rintro node hnode hname
  obtain ⟨⟨s', k⟩, hk, rfl⟩ := List.mem_map.1 hnode
  obtain rfl : s' = s := of_decide_eq_true hname
  obtain ⟨k', hk'⟩ := Keyed.exists_get?_of_mem (Text.mem_sortedByKey.1 hk)
  rw [hno] at hk'
  cases hk'

/-- The command at the target is the node of its name, where no group has this name. -/
theorem at?_withCommand {node : ApiNode} (hno : g.groups.get? s = none) (he : g.commands.get? s = some e)
    (hname : node.name = s) (n : String) (help : Option String) :
    (group n help (withCommand path g node)).at? [s] = some node := by
  obtain ⟨e', -, hfound⟩ :=
    find?_map_sortedByKey (name_commandNode path (some node)) (Keyed.mem_of_get? he)
  rw [commandNode, if_pos hname] at hfound
  rw [at?, withCommand, List.find?_append, find?_groupNode_eq_none none hno, Option.none_or, hfound]
  rfl

/-- Below a group building comes to what it comes to at the command that segments lead to there, which stands at
the segments. -/
theorem exec_children (hg : g.Unambiguous) (hfind : g.find path segments = .ok (path ++ segments, e))
    (hindex : (c.getIndex b).1 = .ok i)
    (hlocate : i.locate (path ++ segments) (version.filter e.versions.contains) = .ok x)
    (hdocument : (c.getCommand b x.documentId).1 = .ok k) :
    ∃ nodes : Leaf → List ApiNode,
      (exec (children b version path g.groups g.commands segments) c).1 =
        ((Leaf.ofCommand x k).mapError Fault.ofCrash).map nodes ∧
      ∀ l n help, ∃ name shown, (group n help (nodes l)).at? segments = some (.leaf name shown l) := by
  induction segments generalizing g path with
  | nil => cases hfind
  | cons s rest ih =>
      obtain ⟨own, below⟩ := hg
      have hsplit : path ++ s :: rest = path ++ [s] ++ rest := by simp
      rw [Group.find_cons] at hfind
      cases hk : g.groups.get? s with
      | some g' =>
          rw [hk, hsplit] at hfind
          rw [hsplit] at hlocate
          obtain ⟨nodes, hexec, hat⟩ := ih (below s g' hk) hfind hlocate
          refine ⟨fun l => withGroup path g s (nodes l), ?_, fun l n help => ?_⟩
          · rw [exec_children_group hk (own s g' hk), hexec]
            cases Leaf.ofCommand x k <;> rfl
          · obtain ⟨shown, hbelow⟩ := at?_withGroup hk (nodes l) n help
            rw [hbelow]
            exact hat l s shown
      | none =>
          rw [hk] at hfind
          cases he : g.commands.get? s with
          | none =>
              rw [he] at hfind
              cases hfind
          | some e' =>
              rw [he] at hfind
              -- the command is the last segment
              cases rest with
              | cons _ _ => cases hfind
              | nil =>
                  obtain rfl : e' = e := congrArg Prod.snd (Except.ok.inj hfind)
                  refine ⟨fun l => withCommand path g (leaf s (shownHelp e'.help) l), ?_, fun l n help =>
                    ⟨s, shownHelp e'.help, at?_withCommand hk he rfl n help⟩⟩
                  rw [exec_children_command hk he, exec_buildLeaf hindex hlocate hdocument]
                  cases Leaf.ofCommand x k <;> rfl

theorem filter_of_resolve {v : String} (h : e.resolve segments version = .ok v) :
    version.filter e.versions.contains = version := by
  cases version with
  | none => rfl
  | some w =>
      rw [Entry.resolve] at h
      split at h
      · exact Option.filter_some_pos ‹_›
      · cases h

/-- Building comes to what it comes to at the command that is located. -/
theorem exec_build {j : Json} (hj : Index.check j = .ok i) (hindex : (c.getIndex b).1 = .ok i)
    (hlocate : i.locate segments version = .ok x) (hdocument : (c.getCommand b x.documentId).1 = .ok k) :
    ∃ tree : Leaf → ApiNode,
      (exec (build b segments version) c).1 = ((Leaf.ofCommand x k).mapError Fault.ofCrash).map tree ∧
      ∀ l, ∃ name shown, (tree l).at? segments = some (.leaf name shown l) := by
  obtain ⟨s, rest, g, e, v, rfl, hg, hfind, hversion, rfl⟩ := Index.locate_eq_ok_iff.1 hlocate
  have hroot : i.root.find [] (s :: rest) = .ok ([] ++ s :: rest, e) := by
    have hservice : i.root.groups.get? s = some g := hg
    rw [Group.find_cons, hservice]
    exact hfind
  rw [← filter_of_resolve hversion] at hlocate
  obtain ⟨nodes, hexec, hat⟩ := @exec_children b { c with index := some i } i version _ k [] _ _ _
    (Index.root_unambiguous hj) hroot rfl hlocate ((getCommand_index _ _).trans hdocument)
  refine ⟨fun l => .group "api" (some ((shownHelp i.help).getD defaultHelp)) (nodes l), ?_, fun l => hat l _ _⟩
  have hchildren : exec (children b version [] i.groups [] (s :: rest)) { c with index := some i } =
    exec (children b version [] i.root.groups i.root.commands (s :: rest)) { c with index := some i } := rfl
  rw [build, exec_bind_of_ok (exec_readIndex hindex), exec_map, hchildren, hexec]
  cases Leaf.ofCommand _ k <;> rfl

/-! ### Words that go to a command -/

/-- The name can be a word that names a node: it is not empty, and it is read as no option. -/
def IsWord (name : String) : Prop := name ≠ "" ∧ name.startsWith "-" = false

instance (name : String) : Decidable (IsWord name) := inferInstanceAs (Decidable (_ ∧ _))

/-- Words that begin with the names on the way to a command go to it. -/
theorem run_of_at? {tree : ApiNode} {name : String} {shown : Option String}
    (h : tree.at? segments = some (.leaf name shown l)) (hwords : ∀ s ∈ segments, IsWord s) :
    tree.run path (segments ++ own) = runLeaf (path ++ segments) l own := by
  induction segments generalizing tree path with
  | nil =>
      obtain rfl := Option.some_inj.1 h
      rw [List.nil_append, List.append_nil, run]
  | cons s rest ih =>
      cases tree with
      | stub | leaf => cases h
      | group n help nodes =>
          obtain ⟨node, hfound, hat⟩ := Option.bind_eq_some_iff.1 h
          obtain ⟨⟨-, hs⟩, hrest⟩ := List.forall_mem_cons.1 hwords
          rw [List.cons_append, run, if_neg (by simp), Grammar.subcommand_of_plain hs]
          simp only [runChild_eq_find?, hfound, Option.map_some]
          rw [ih hat hrest, List.append_assoc, List.singleton_append]

/-- A command needs no words of its own. -/
theorem runLeaf_nil (path : List String) (l : Leaf) : runLeaf path l [] = .ok (.leaf l []) := rfl

/-- The command stands in the tree at its segments; words that begin with them go to it, and the segments alone
run it with nothing given. -/
structure Offers (tree : ApiNode) (segments : List String) (l : Leaf) : Prop where
  stands : ∃ name shown, tree.at? segments = some (.leaf name shown l)
  reads : (∀ s ∈ segments, IsWord s) →
    ∀ path own, tree.run path (segments ++ own) = runLeaf (path ++ segments) l own
  runs : (∀ s ∈ segments, IsWord s) → ∀ path, tree.run path segments = .ok (.leaf l [])

theorem offers_of_at? {tree : ApiNode} (h : ∃ name shown, tree.at? segments = some (.leaf name shown l)) :
    tree.Offers segments l := by
  obtain ⟨name, shown, hat⟩ := h
  refine ⟨⟨name, shown, hat⟩, fun hwords path own => run_of_at? hat hwords, fun hwords path => ?_⟩
  have hrun := @run_of_at? l path segments [] tree name shown hat hwords
  rwa [List.append_nil, runLeaf_nil] at hrun

/-- An index in which a command has one version twice. -/
def twiceListedDocument : Json :=
  .obj [("commandGroups", .obj [("svc", .obj [("commands", .obj [("show",
    .obj [("versions", .arr [.str "1", .str "1"])])])])])]

/-- The index of the document. -/
def twiceListedIndex : Index where
  groups := [("svc", .node none [] [("show", { versions := ["1", "1"] })])]

/-- The index with the document of the command. -/
def twiceListed : Bundle := .ofValues twiceListedDocument [("svc_show_1", .obj [])]

end ApiNode

end Restline
