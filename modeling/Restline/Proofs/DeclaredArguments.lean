import Mathlib.Data.List.Forall2
import Restline.Proofs.OrderlyOptions
import Restline.Proofs.Reading

/-!
Which arguments of a document get an option. A generated command declares one option for each argument that is
not hidden, in the order of the document, for the first group without a name and the groups with a name. So the
arguments of every further group without a name are left out, although the document lists them beside the
others.

* `Command.visibleArgs`, `Command.furtherArgs` : the arguments that are not hidden, and those of further
  groups without a name.
* `Command.exists_split` : where the further arguments stand.
* `Leaf.Represents`, `Leaf.represents_args` : the options of a command, one for each argument shown.
* `Leaf.nodup_name_params` : the parameters have names of their own.
* `Leaf.represents_visibleArgs_iff` : **every visible argument has one option exactly if there is no further
  group with a visible argument**.
-/

set_option autoImplicit false

namespace Restline

/-! ### Arguments of a document -/

namespace Command

/-- The arguments that are not hidden. -/
def visibleArgs (c : Command) : List Arg := c.args.filter (fun a => !a.isHidden)

/-- The visible arguments of the groups without a name but the first. -/
def furtherArgs (c : Command) : List Arg :=
  (((c.argGroups.filter (fun g => g.name == "")).drop 1).flatMap (·.args)).filter (fun a => !a.isHidden)

/-- The further arguments stand between those of the first group without a name and those of groups with a
name. -/
theorem exists_split (c : Command) :
    ∃ own named, c.shownArgs = own ++ named ∧ c.visibleArgs = own ++ c.furtherArgs ++ named := by
  have hfirst : c.identityGroup = (c.argGroups.filter (fun g => g.name == "")).head? :=
    List.head?_filter.symm
  have hunnamed : c.argGroups.filter (fun g => g.name == "") =
      c.identityGroup.toList ++ (c.argGroups.filter (fun g => g.name == "")).drop 1 := by
    rw [hfirst]
    cases c.argGroups.filter (fun g => g.name == "") <;> rfl
  refine ⟨(c.identityGroup.toList.flatMap (·.args)).filter (fun a => !a.isHidden),
    (c.namedGroups.flatMap (·.args)).filter (fun a => !a.isHidden), ?_, ?_⟩
  · rw [shownArgs, List.flatMap_append, List.filter_append]
  · rw [visibleArgs, args, hunnamed, furtherArgs]
    simp only [List.flatMap_append, List.filter_append]

variable {c : Command} {a : Arg}

theorem mem_visibleArgs_iff : a ∈ c.visibleArgs ↔ a ∈ c.shownArgs ∨ a ∈ c.furtherArgs := by
  obtain ⟨own, named, hshown, hvisible⟩ := c.exists_split
  rw [hshown, hvisible, List.mem_append, List.mem_append, List.mem_append, or_right_comm]

theorem shownArgs_sublist (c : Command) : c.shownArgs.Sublist c.visibleArgs := by
  obtain ⟨own, named, hshown, hvisible⟩ := c.exists_split
  rw [hshown, hvisible]
  exact (List.sublist_append_left own c.furtherArgs).append_right named

/-- All visible arguments are shown exactly if none of them is a further one. -/
theorem length_shownArgs_iff : c.visibleArgs.length = c.shownArgs.length ↔ c.furtherArgs = [] := by
  obtain ⟨own, named, hshown, hvisible⟩ := c.exists_split
  rw [hshown, hvisible, ← List.length_eq_zero_iff]
  simp only [List.length_append]
  omega

theorem visibleArgs_eq_shownArgs (h : c.furtherArgs = []) : c.visibleArgs = c.shownArgs :=
  (c.shownArgs_sublist.eq_of_length (length_shownArgs_iff.2 h).symm).symm

/-- Where all arguments have keys of their own, no further argument has the key of one that is shown. -/
theorem key_ne_of_further (hkeys : (c.args.map (·.var)).Nodup) (ha : a ∈ c.furtherArgs) {b : Arg}
    (hb : b ∈ c.shownArgs) : b.var ≠ a.var := by
  obtain ⟨own, named, hshown, hvisible⟩ := c.exists_split
  have hnodup : ((own ++ c.furtherArgs ++ named).map (·.var)).Nodup :=
    hvisible ▸ hkeys.sublist (List.filter_sublist.map _)
  simp only [List.map_append, List.nodup_append, List.mem_append, List.mem_map] at hnodup
  obtain ⟨⟨-, -, hown⟩, -, hnamed⟩ := hnodup
  rw [hshown, List.mem_append] at hb
  rcases hb with hb | hb
  · exact hown _ ⟨b, hb, rfl⟩ _ ⟨a, ha, rfl⟩
  · exact (hnamed _ (.inr ⟨a, ha, rfl⟩) _ ⟨b, hb, rfl⟩).symm

theorem nodup_shownArgs (hkeys : (c.args.map (·.var)).Nodup) : (c.shownArgs.map (·.var)).Nodup :=
  hkeys.sublist ((c.shownArgs_sublist.trans List.filter_sublist).map _)

end Command

/-! ### Options of arguments -/

/-- The option with another name for its parameter. -/
def ArgOption.renamed (o : ArgOption) (name : String) : ArgOption := { o with name := name }

theorem ArgOption.renamed_name (o : ArgOption) : o.renamed o.name = o := rfl

namespace Leaf

/-- The option is the one of an argument, up to the name of its parameter. -/
def Represents (a : Arg) (o : ArgOption) : Prop :=
  ∃ panel name, o = (ArgOption.ofArg a panel).renamed name

namespace Represents

variable {a : Arg} {o : ArgOption}

theorem key_eq (h : Represents a o) : o.key = a.var := by
  obtain ⟨panel, name, rfl⟩ := h
  rfl

theorem kind_eq (h : Represents a o) : o.kind = a.kind := by
  obtain ⟨panel, name, rfl⟩ := h
  rfl

theorem isIdentity_eq (h : Represents a o) : o.isIdentity = a.isIdentity := by
  obtain ⟨panel, name, rfl⟩ := h
  rfl

theorem isRequired_eq (h : Represents a o) : o.isRequired = a.isRequired := by
  obtain ⟨panel, name, rfl⟩ := h
  rfl

theorem flags_eq (h : Represents a o) : o.flags = optionFlags a.options := by
  obtain ⟨panel, name, rfl⟩ := h
  rfl

end Represents

theorem represents_ofArg (a : Arg) (panel : String) : Represents a (.ofArg a panel) :=
  ⟨panel, _, (ArgOption.renamed_name _).symm⟩

/-- An option stays that of its argument when it gets another name. -/
theorem represents_distinct {as : List Arg} {os : List ArgOption} (h : List.Forall₂ Represents as os) :
    List.Forall₂ Represents as (ArgOption.distinct os) := by
  have hlength : (ParamName.distinct (os.map (·.name))).length = os.length := by
    rw [ParamName.distinct, ParamName.length_distinctFrom, List.length_map]
  rw [ArgOption.distinct]
  generalize ParamName.distinct (os.map (·.name)) = names at hlength
  induction h generalizing names with
  | nil => exact .nil
  | @cons a o as os ho hos ih =>
      obtain ⟨name, names, rfl⟩ := List.exists_cons_of_length_eq_add_one hlength
      obtain ⟨panel, old, rfl⟩ := ho
      exact .cons ⟨panel, name, rfl⟩ (ih names (Nat.succ_inj.1 hlength))

theorem represents_groupOptions (panel : String) (g : ArgGroup) :
    List.Forall₂ Represents (g.args.filter (fun a => !a.isHidden)) (groupOptions panel g) := by
  rw [groupOptions, List.forall₂_map_right_iff, List.forall₂_same]
  exact fun a _ => represents_ofArg a panel

theorem represents_flatMap (panel : ArgGroup → String) (gs : List ArgGroup) :
    List.Forall₂ Represents ((gs.flatMap (·.args)).filter (fun a => !a.isHidden))
      (gs.flatMap fun g => groupOptions (panel g) g) := by
  induction gs with
  | nil => exact .nil
  | cons g gs ih =>
      rw [List.flatMap_cons, List.flatMap_cons, List.filter_append]
      exact List.rel_append (represents_groupOptions _ _) ih

variable {l : Leaf} {x : Location} {c : Command}

/-- There is one option for each argument that is shown, in order. -/
theorem represents_argOptions (c : Command) :
    List.Forall₂ Represents c.shownArgs (ArgOption.distinct (argOptions c)) := by
  refine represents_distinct ?_
  have hown : (c.identityGroup.map (groupOptions identityPanel)).getD [] =
      c.identityGroup.toList.flatMap (groupOptions identityPanel) := by
    cases c.identityGroup with
    | none => rfl
    | some g => exact (List.flatMap_singleton _ _).symm
  rw [argOptions, hown, Command.shownArgs, List.flatMap_append, List.filter_append]
  exact List.rel_append (represents_flatMap (fun _ => identityPanel) _) (represents_flatMap (·.name) _)

/-- A generated command has these options. -/
theorem represents_args (hl : ofCommand x c = .ok l) : List.Forall₂ Represents c.shownArgs l.args := by
  obtain ⟨-, -, -, hargs⟩ := ApiNode.ofCommand_eq_ok hl
  exact hargs ▸ represents_argOptions c

/-- **Every visible argument has one option exactly if there is no further group with a visible argument.** -/
theorem represents_visibleArgs_iff (hl : ofCommand x c = .ok l) :
    List.Forall₂ Represents c.visibleArgs l.args ↔ c.furtherArgs = [] := by
  constructor
  · intro h
    exact Command.length_shownArgs_iff.1 (h.length_eq.trans (represents_args hl).length_eq.symm)
  · intro h
    rw [Command.visibleArgs_eq_shownArgs h]
    exact represents_args hl

/-! ### Names and keys -/

theorem exists_related {α β : Type} {R : α → β → Prop} {as : List α} {bs : List β}
    (h : List.Forall₂ R as bs) : ∀ b ∈ bs, ∃ a ∈ as, R a b := by
  induction h with
  | nil => nofun
  | @cons a b as bs hab _ ih =>
      rw [List.forall_mem_cons]
      exact ⟨⟨a, List.mem_cons_self, hab⟩, fun b' hb' =>
        (ih b' hb').imp fun a' h => ⟨List.mem_cons_of_mem _ h.1, h.2⟩⟩

/-- The argument of an option. -/
theorem exists_represented (hl : ofCommand x c = .ok l) {o : ArgOption} (ho : o ∈ l.args) :
    ∃ a ∈ c.shownArgs, Represents a o :=
  exists_related (represents_args hl) o ho

/-- The option of an argument that is shown. -/
theorem exists_representing (hl : ofCommand x c = .ok l) {a : Arg} (ha : a ∈ c.shownArgs) :
    ∃ o ∈ l.args, Represents a o :=
  exists_related (R := fun o a => Represents a o) (represents_args hl).flip a ha

/-- The keys of the options are those of the arguments that are shown. -/
theorem map_key_args (hl : ofCommand x c = .ok l) : l.args.map (·.key) = c.shownArgs.map (·.var) := by
  have h := congrArg (List.map Prod.fst) (map_signature_args hl)
  rwa [List.map_map, List.map_map] at h

/-- The parameters of a generated command have names of their own. -/
theorem nodup_name_params (hl : ofCommand x c = .ok l) : (l.params.map (·.name)).Nodup := by
  obtain ⟨-, -, -, hargs⟩ := ApiNode.ofCommand_eq_ok hl
  have hown : ((.apiVersion l.choices :: (identityParams l.command ++ payloadParams l.command)).map
      (·.name)).Nodup ∧ ∀ p ∈ .apiVersion l.choices :: (identityParams l.command ++ payloadParams l.command),
        p.name ∈ ParamName.builtin := by
    rw [identityParams, payloadParams]
    cases l.command.identityGroup <;> cases l.command.hasRequestBody <;>
      simp [Param.apiVersion, Param.id, Param.stdin, Param.file, Param.edit, Param.printCli,
        ParamName.builtin]
  rw [params, List.map_append, List.map_map, List.nodup_append]
  refine ⟨hown.1, hargs ▸ ArgOption.nodup_distinct _, fun n hn m hm heq => ?_⟩
  obtain ⟨p, hp, rfl⟩ := List.mem_map.1 hn
  obtain ⟨o, ho, rfl⟩ := List.mem_map.1 hm
  have hname : p.name = o.name := heq
  exact ArgOption.name_notMem_builtin o (hargs ▸ ho) (hname ▸ hown.2 p hp)

/-! ### A document with two groups without a name -/

/-- The argument of the first group. -/
def alphaArg : Arg := { type := "string", var := "$a", options := ["alpha"] }

/-- The argument of the second group, a required one of the identity. -/
def betaArg : Arg :=
  { type := "string", var := "$b", options := ["beta"], required := some true, idPart := some "name" }

/-- The document as it is written. -/
def splitDocument : Json :=
  .obj [("argGroups", .arr
    [.obj [("name", .str ""), ("args", .arr
      [.obj [("type", .str "string"), ("var", .str "$a"), ("options", .arr [.str "alpha"])]])],
     .obj [("name", .str ""), ("args", .arr
      [.obj [("type", .str "string"), ("var", .str "$b"), ("options", .arr [.str "beta"]),
        ("required", .bool true), ("idPart", .str "name")]])]])]

/-- The document as it is read. -/
def splitThing : Command where
  argGroups := [{ name := "", args := [alphaArg] }, { name := "", args := [betaArg] }]

theorem ofJson_splitDocument : Command.ofJson splitDocument = .valid splitThing :=
  Command.ofJson_eq_valid_iff.2 ⟨by rfl, by decide +kernel⟩

theorem visibleArgs_splitThing : splitThing.visibleArgs = [alphaArg, betaArg] := rfl

theorem furtherArgs_splitThing : splitThing.furtherArgs = [betaArg] := rfl

/-- The generated command has an option for the first argument alone. -/
def splitLeaf : Leaf where
  location := ⟨["thing", "show"], "1", { versions := ["1"] }⟩
  command := splitThing
  choices := ["1"]
  args := [.ofArg alphaArg identityPanel]

theorem ofCommand_splitThing : ofCommand splitLeaf.location splitThing = .ok splitLeaf := by
  cbv

end Leaf

end Restline
