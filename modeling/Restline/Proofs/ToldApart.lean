import Restline.Proofs.IdentityRules
import Restline.Proofs.RenderedOptions

/-!
Documents whose arguments are told apart on the command line: each visible argument has an option of its own, and
each flag of it leads to it and to nothing else. This takes three things. No visible argument stands in a further
group without a name, for such an argument has no option; every flag can be read as a flag; and no flag is declared
twice, by two arguments or by an argument and an option that commands have of their own.

* `Grammar.IsReadable`, `Grammar.IsReadable.parse_cons` : flags that are read as they stand.
* `ArgOption.shape_of_mem_allFlags` : what the flags of arguments look like.
* `Leaf.Reaches`, `Leaf.TellsApart` : a flag that leads to an argument, and commands all of whose flags do.
* `Leaf.dispatch_single` : what one value gives.
* `Leaf.reaches_of_readable`, `Leaf.isReadable_of_reaches` : which flags lead to their arguments.
* `Leaf.tellsApart_iff` : **when the arguments of a document are told apart**.
-/

set_option autoImplicit false

namespace Restline

namespace Grammar

variable {specs : List OptionSpec} {flag value : String} {o : OptionSpec}

/-! ### Flags that can be read -/

/-- The word is read as a flag, with the next word for its value: it gives options, it does not end them, and no
part of it is taken for a value. -/
structure IsReadable (flag : String) : Prop where
  isOption : isOption flag = true
  ne_dashes : flag ≠ "--"
  plain : '=' ∈ flag.toList → flag = "-="

theorem exists_of_isOption (h : isOption flag = true) : ∃ c cs, flag.toList = '-' :: c :: cs := by
  rw [Grammar.isOption, Bool.and_eq_true, String.startsWith_string_iff, decide_eq_true_iff] at h
  obtain ⟨⟨rest, hrest⟩, hlength⟩ := h
  cases rest with
  | nil => rw [← String.length_toList, ← hrest] at hlength; exact absurd hlength (by decide)
  | cons c cs => exact ⟨c, cs, hrest.symm⟩

/-- A flag that can be read gives its option with the next word for a value, in front of any other words. -/
theorem IsReadable.parse_cons (h : IsReadable flag) (hdash : find? specs "-" = none)
    (ho : find? specs flag = some o) (ht : o.takesValue = true) (rest : List String) :
    parse specs true (flag :: value :: rest) = (parse specs true rest).map
      fun p => { p with options := (o.name, some value) :: p.options } := by
  refine parse_cons_of_parseOption h.ne_dashes h.isOption ?_
  obtain ⟨c, cs, hc⟩ := exists_of_isOption h.isOption
  cases cs with
  | nil => exact parseOption_of_letter hc h.ne_dashes (fun _ => hdash) ho ht
  | cons d cs =>
      have hlong : flag.length ≠ 2 := by
        rw [← String.length_toList, hc]
        simp
      refine parseOption_of_long hlong (fun hmem => hlong ?_) ho ht
      rw [h.plain hmem]
      rfl

/-- A flag that takes the next word, where it is no row of letters, can be read. -/
theorem isReadable_of_parse {given : Parsed} (hshape : flag.toList.length ≤ 2 ∨ flag.startsWith "--" = true)
    (hvalue : value.startsWith "-" = false) (h : parse specs true [flag, value] = .ok given)
    (harguments : given.arguments = []) : IsReadable flag := by
  obtain ⟨hne, hoption, hparse⟩ := parseOption_of_parse hvalue h harguments
  refine ⟨hoption, hne, fun hmem => ?_⟩
  have hread : OptionWord.IsRead specs ⟨flag, some value, given.options⟩ :=
    @OptionWord.isRead_of_parseOption _ _ _ _ (some value) hparse
  generalize given.options = gs at hread
  cases hread with
  | separate ho hflag ht => exact absurd hmem hflag.1
  | letters hshort hletters =>
      obtain ⟨c, cs, hc⟩ := exists_of_isOption hoption
      have hlength : flag.toList.length ≤ 2 := hshape.resolve_right (by simp [hshort])
      rw [hc] at hmem hlength
      obtain rfl : cs = [] := List.length_eq_zero_iff.1 (by simpa using hlength)
      obtain rfl : c = '=' := by simpa [eq_comm] using hmem
      exact String.toList_inj.1 hc

end Grammar

open Grammar

/-! ### Flags of arguments -/

theorem Text.length_trimRight_le (s : String) : (Text.trimRight s).toList.length ≤ s.toList.length := by
  rw [Text.trimRight, String.toList_ofList, List.length_reverse, ← @List.length_reverse _ s.toList]
  exact (List.dropWhile_suffix _).length_le

theorem Text.startsWith_trimRight {s : String} (h : s.startsWith "--" = true) :
    (Text.trimRight s).startsWith "--" = true := by
  rw [String.startsWith_string_iff] at h ⊢
  obtain ⟨rest, hrest⟩ := h
  have hkept : (Text.trimRight s).toList =
      "--".toList ++ (rest.reverse.dropWhile Text.isBlank).reverse := by
    rw [Text.trimRight, String.toList_ofList, ← hrest, List.reverse_append, List.dropWhile_append]
    split
    · rename_i hblank
      rw [List.isEmpty_iff.1 hblank]
      rfl
    · rw [List.reverse_append, List.reverse_reverse]
  rw [hkept]
  exact List.prefix_append _ _

/-- A name with its dashes, as it is declared, is two characters at most or begins with two dashes. -/
theorem shape_declared_dashed (name : String) :
    (declared (dashed name)).1.toList.length ≤ 2 ∨ (declared (dashed name)).1.startsWith "--" = true := by
  have hlong : ∀ {s : String} {cs : List Char}, s.toList = '-' :: '-' :: cs → s.startsWith "--" = true := by
    intro s cs hs
    rw [String.startsWith_string_iff, hs]
    exact ⟨cs, rfl⟩
  rw [declared]
  rcases Text.headAndTail_cases '/' (dashed name) with ⟨-, hsplit⟩ | ⟨head, tail, heq, -, hsplit⟩ <;>
    rw [hsplit] <;> dsimp only <;>
    rcases dashed_cases name with ⟨c, -, hd⟩ | ⟨-, hd⟩
  · exact .inl (by rw [hd]; rfl)
  · exact .inr (hlong hd)
  · -- nothing but the dash stands before the slash
    have hlength := congrArg List.length heq
    rw [hd, List.length_append] at hlength
    refine .inl ((Text.length_trimRight_le head).trans ?_)
    simp at hlength
    omega
  · rw [hd] at heq
    refine .inr (Text.startsWith_trimRight ?_)
    cases hhead : head.toList with
    | nil =>
        rw [hhead] at heq
        exact absurd (List.cons.inj heq).1 (by decide)
    | cons a more =>
        rw [hhead] at heq
        obtain ⟨rfl, hmore⟩ := List.cons.inj heq
        cases more with
        | nil => exact absurd (List.cons.inj hmore).1 (by decide)
        | cons b cs =>
            obtain ⟨rfl, -⟩ := List.cons.inj hmore
            exact hlong hhead

/-- A flag of an argument is two characters at most or begins with two dashes. -/
theorem ArgOption.shape_of_mem_allFlags {o : ArgOption} {names : List String} {flag : String}
    (ho : o.flags = optionFlags names) (h : flag ∈ o.allFlags) :
    flag.toList.length ≤ 2 ∨ flag.startsWith "--" = true := by
  rw [allFlags] at h
  split at h
  · obtain rfl := List.mem_singleton.1 h
    refine .inr ?_
    rw [flagOfName, String.startsWith_string_iff, String.toList_append]
    exact List.prefix_append _ _
  · obtain ⟨f, hf, rfl⟩ := List.mem_map.1 h
    obtain ⟨n, -, -, rfl⟩ := mem_optionFlags.1 (ho ▸ hf)
    exact shape_declared_dashed n

namespace Leaf

variable {l : Leaf} {x : Location} {c : Command} {o : ArgOption} {flag : String}
  {readFile : String → Except Fault String}

/-- The flags of the options that commands have of their own, as far as this one has them. -/
def ownFlags (l : Leaf) : List String :=
  (ownSpecs l.command.identityGroup.isSome l.command.hasRequestBody).flatMap (·.flags)

theorem shape_of_mem_allFlags (hl : ofCommand x c = .ok l) (ho : o ∈ l.args) (h : flag ∈ o.allFlags) :
    flag.toList.length ≤ 2 ∨ flag.startsWith "--" = true := by
  obtain ⟨a, -, hrep⟩ := exists_represented hl ho
  exact ArgOption.shape_of_mem_allFlags hrep.flags_eq h

theorem dash_notMem_name (hl : ofCommand x c = .ok l) (ho : o ∈ l.args) : '-' ∉ o.name.toList := by
  obtain ⟨-, -, -, hargs⟩ := ApiNode.ofCommand_eq_ok hl
  refine ArgOption.dash_notMem_name (fun o ho => ?_) o (hargs ▸ ho)
  have hgroup : ∀ {panel : String} {g : ArgGroup}, o ∈ groupOptions panel g → '-' ∉ o.name.toList := by
    intro panel g hmem
    obtain ⟨a, -, rfl⟩ := List.mem_map.1 hmem
    simp only [ArgOption.ofArg]
    exact ParamName.dash_notMem_sanitize _
  rcases List.mem_append.1 ho with ho | ho
  · cases hidentity : c.identityGroup with
    | none => rw [hidentity] at ho; cases ho
    | some g => rw [hidentity] at ho; exact hgroup ho
  · obtain ⟨g, -, ho⟩ := List.mem_flatMap.1 ho
    exact hgroup ho

/-! ### Flags that lead to an argument -/

/-- A flag leads to an option and to nothing else: with an acceptable value it gives this value to the parameter of
the option and nothing to any other, and the value is bound under the key of the argument, alone, unless another
argument is missing that is required. -/
structure Reaches (l : Leaf) (flag : String) (o : ArgOption) : Prop where
  read : ∀ s v, convert o.param s = .ok v → readWords l.params [flag, s] = .ok (some [(o.name, v)])
  bound : ∀ s v w readFile, convert o.param s = .ok v → Value.ofGiven readFile v o.kind = .ok w →
    (∃ i, l.dispatch readFile [(o.name, v)] = .ok i ∧ i.bound = [(o.key, w)]) ∨
      ∃ o' ∈ l.args, o' ≠ o ∧ o'.isIdentity = true ∧ o'.isRequired = true ∧
        ∃ f, l.dispatch readFile [(o.name, v)] = .error f ∧ f.kind = .invalidUsage

/-- The arguments of a document are told apart: each visible one has an option, each flag of which leads to it,
and no flag is declared by two parameters. -/
structure TellsApart (l : Leaf) (c : Command) : Prop where
  represented : List.Forall₂ Represents c.visibleArgs l.args
  reaches : ∀ o ∈ l.args, ∀ flag ∈ o.allFlags, l.Reaches flag o
  apart : l.params.Pairwise fun p q => p.flags.Disjoint q.flags

/-! ### One value -/

theorem get?_single {name n : String} {v : GivenValue} :
    Keyed.get? [(name, v)] n = if name = n then some v else none := rfl

theorem get?_single_name (hl : ofCommand x c = .ok l) (ho : o ∈ l.args) (v : GivenValue) {o' : ArgOption}
    (ho' : o' ∈ l.args) : Keyed.get? [(o.name, v)] o'.name = if o' = o then some v else none := by
  obtain ⟨-, -, -, hargs⟩ := ApiNode.ofCommand_eq_ok hl
  have hnames : (l.args.map (·.name)).Nodup := hargs ▸ ArgOption.nodup_distinct _
  rw [get?_single]
  exact if_congr ⟨fun h => List.inj_on_of_nodup_map hnames ho' ho h.symm, fun h => h ▸ rfl⟩ rfl rfl

/-- A value for an argument is none for an option that commands have of their own. -/
theorem has_single_of_builtin (hl : ofCommand x c = .ok l) (ho : o ∈ l.args) (v : GivenValue) {name : String}
    (hname : name ∈ ParamName.builtin) : Keyed.has [(o.name, v)] name = false := by
  obtain ⟨-, -, -, hargs⟩ := ApiNode.ofCommand_eq_ok hl
  have hne : o.name ≠ name := fun heq => ArgOption.name_notMem_builtin o (hargs ▸ ho) (heq ▸ hname)
  rw [Keyed.has, get?_single, if_neg hne]
  rfl

theorem filter_isGiven_single (hl : ofCommand x c = .ok l) (ho : o ∈ l.args) (v : GivenValue) :
    l.args.filter (isGiven [(o.name, v)]) = [o] := by
  obtain ⟨-, -, -, hargs⟩ := ApiNode.ofCommand_eq_ok hl
  have hnames : (l.args.map (·.name)).Nodup := hargs ▸ ArgOption.nodup_distinct _
  have hcongr : ∀ o' ∈ l.args, isGiven [(o.name, v)] o' = (o' == o) := by
    intro o' ho'
    rw [isGiven, get?_single_name hl ho v ho']
    by_cases heq : o' = o <;> simp [heq]
  rw [List.filter_congr hcongr, List.filter_beq, List.count_eq_one_of_mem hnames.of_map ho]
  rfl

/-- One value is bound alone, unless another required argument of the identity is missing. -/
theorem dispatch_single (hl : ofCommand x c = .ok l) (ho : o ∈ l.args) {v : GivenValue} {w : Value}
    (hw : Value.ofGiven readFile v o.kind = .ok w) :
    (∃ i, l.dispatch readFile [(o.name, v)] = .ok i ∧ i.bound = [(o.key, w)]) ∨
      ∃ o' ∈ l.args, o' ≠ o ∧ o'.isIdentity = true ∧ o'.isRequired = true ∧
        ∃ f, l.dispatch readFile [(o.name, v)] = .error f ∧ f.kind = .invalidUsage := by
  have hid : Keyed.has [(o.name, v)] "id_" = false := has_single_of_builtin hl ho v (by decide)
  have hstdin : Keyed.has [(o.name, v)] "stdin" = false := has_single_of_builtin hl ho v (by decide)
  have hfile : Keyed.has [(o.name, v)] "file" = false := has_single_of_builtin hl ho v (by decide)
  have hbind : ∀ o' ∈ l.args, CanBind readFile [(o.name, v)] o' := by
    intro o' ho' g hg
    rw [get?_single_name hl ho v ho'] at hg
    split at hg
    · rename_i heq
      obtain rfl := Option.some_inj.1 hg
      exact ⟨w, heq ▸ hw⟩
    · cases hg
  by_cases hrules : ∀ o' ∈ l.args, KeepsRules [(o.name, v)] o'
  · obtain ⟨i, es, hi, hbound, hes⟩ := dispatch_of_rules hbind (by simp [hid]) (by simp [hfile]) hrules
    rw [filter_isGiven_single hl ho v] at hes
    obtain ⟨e, r, ⟨hkey, g, hg, hv⟩, hr, rfl⟩ := List.forall₂_cons_left_iff.1 hes
    obtain rfl := List.forall₂_nil_left_iff.1 hr
    rw [get?_single_name hl ho v ho, if_pos rfl] at hg
    obtain rfl := Option.some_inj.1 hg
    obtain rfl := Except.ok.inj (hw.symm.trans hv)
    exact .inl ⟨i, hi, by rw [hbound, ← hkey]; rfl⟩
  · push Not at hrules
    obtain ⟨o', ho', hbreaks⟩ := hrules
    have hmissing : o' ≠ o ∧ o'.isIdentity = true ∧ o'.isRequired = true := by
      rw [KeepsRules, identityFault?_eq_none_iff, byId, hid, hstdin, get?_single_name hl ho v ho'] at hbreaks
      by_cases heq : o' = o <;> simp [heq] at hbreaks ⊢
      exact hbreaks
    exact .inr ⟨o', ho', hmissing.1, hmissing.2.1, hmissing.2.2, dispatch_of_fault hbind ⟨o', ho', hbreaks⟩⟩

/-! ### Flags that can be read lead to their arguments -/

/-- Where no two arguments share a flag, a flag belongs to its argument. -/
theorem owner?_of_disjoint (happart : l.args.Pairwise fun o o' => o.allFlags.Disjoint o'.allFlags)
    (ho : o ∈ l.args) (hflag : flag ∈ o.allFlags) : l.owner? flag = some o := by
  have hsome : (l.owner? flag).isSome = true :=
    List.find?_isSome.2 ⟨o, List.mem_reverse.2 ho, List.contains_iff_mem.2 hflag⟩
  obtain ⟨o', ho'⟩ := Option.isSome_iff_exists.1 hsome
  obtain ⟨hmem, hflag'⟩ := mem_of_owner? ho'
  by_contra hne
  have hdiff : o' ≠ o := fun heq => hne (heq ▸ ho')
  have hsymm : Std.Symm fun o o' : ArgOption => o.allFlags.Disjoint o'.allFlags := ⟨fun _ _ h => h.symm⟩
  exact happart.forall hmem ho hdiff hflag' hflag

/-- A single dash is no flag where all flags can be read. -/
theorem find?_dash_eq_none (hread : ∀ o ∈ l.args, ∀ flag ∈ o.allFlags, IsReadable flag) :
    find? l.specs "-" = none := by
  have howner : l.owner? "-" = none := by
    rw [← Option.not_isSome_iff_eq_none, Option.isSome_iff_exists]
    rintro ⟨o, ho⟩
    obtain ⟨hmem, hflag⟩ := mem_of_owner? ho
    exact absurd (hread o hmem _ hflag).isOption (by decide +kernel)
  rw [find?_specs, howner]
  cases l.command.identityGroup.isSome <;> cases l.command.hasRequestBody <;> decide +kernel

/-- Where all flags can be read and none is that of two arguments, a flag and a value give the value to the
parameter of the flag's argument, whatever words come behind them. -/
theorem parse_flag_cons (hread : ∀ o ∈ l.args, ∀ flag ∈ o.allFlags, IsReadable flag)
    (happart : l.args.Pairwise fun o o' => o.allFlags.Disjoint o'.allFlags) (ho : o ∈ l.args)
    (hflag : flag ∈ o.allFlags) (value : String) (rest : List String) :
    parse l.specs true (flag :: value :: rest) = (parse l.specs true rest).map
      fun p => { p with options := (o.name, some value) :: p.options } := by
  have hfound : find? l.specs flag = some o.param.spec := by
    rw [find?_specs, owner?_of_disjoint happart ho hflag]
    rfl
  exact (hread o ho flag hflag).parse_cons (find?_dash_eq_none hread) hfound (takesValue_spec o) rest

/-- Words that give no arguments and do not ask for help are read as their settings. -/
theorem readWords_of_parse {ps : List Param} {words : List String} {given : Parsed} {values : Settings}
    (hparse : parse (withHelp (ps.map Param.spec)) true words = .ok given)
    (hhelp : given.asksForHelp = false) (harguments : given.arguments = [])
    (hsettings : settings ps given given.order = .ok values) :
    readWords ps words = .ok (some values) := by
  rw [readWords, hparse, Except.ok_bind, hhelp, if_neg Bool.false_ne_true, hsettings, Except.ok_bind,
    harguments]
  rfl

/-- One option that is given is read as its value. -/
theorem settings_single (hl : ofCommand x c = .ok l) (ho : o ∈ l.args) {s : String} {v : GivenValue}
    (hv : convert o.param s = .ok v) :
    settings l.params { options := [(o.name, some s)] } [o.name] = .ok [(o.name, v)] := by
  have hmem : o.param ∈ l.params := List.mem_append_right _ (List.mem_map_of_mem ho)
  have hfound : l.params.find? (fun p => p.name == o.name) = some o.param := by
    have hsome : (l.params.find? (fun p => p.name == o.name)).isSome = true :=
      List.find?_isSome.2 ⟨_, hmem, beq_self_eq_true o.name⟩
    obtain ⟨p, hp⟩ := Option.isSome_iff_exists.1 hsome
    have hname : p.name = o.name := by simpa using List.find?_some hp
    rw [hp, List.inj_on_of_nodup_map (nodup_name_params hl) (List.mem_of_find?_eq_some hp) hmem hname]
  have hvalue : Parsed.value? { options := [(o.name, some s)] } o.name = some s := by
    simp [Parsed.value?]
  rw [settings_cons, hfound]
  dsimp only
  rw [hvalue, Option.getD_some, hv]
  rfl

theorem reaches_of_readable (hl : ofCommand x c = .ok l)
    (hread : ∀ o ∈ l.args, ∀ flag ∈ o.allFlags, IsReadable flag)
    (happart : l.args.Pairwise fun o o' => o.allFlags.Disjoint o'.allFlags) (ho : o ∈ l.args)
    (hflag : flag ∈ o.allFlags) : l.Reaches flag o where
  read s v hv := by
    have hhelp : o.name ≠ "--help" := fun heq => dash_notMem_name hl ho (heq ▸ by decide)
    refine readWords_of_parse (parse_flag_cons hread happart ho hflag s []) ?_ rfl (settings_single hl ho hv)
    simpa [Parsed.asksForHelp, Parsed.has] using hhelp
  bound _ _ _ _ _ hw := dispatch_single hl ho hw

/-! ### Flags that lead to their arguments can be read -/

/-- Every option takes some value that is no flag. -/
theorem exists_acceptable (o : ArgOption) :
    ∃ s v, s.startsWith "-" = false ∧ convert o.param s = .ok v := by
  have htype : o.param.type = o.type := rfl
  cases hkind : o.kind with
  | integer =>
      have hone : Text.ofNumeral? "1" = some 1 := by decide +kernel
      refine ⟨"1", .int 1, by decide +kernel, ?_⟩
      rw [convert, htype, ArgOption.type, hkind]
      dsimp only
      rw [hone]
  | boolean =>
      have htrue : chosen? ["true", "false"] true "true" = some "true" := by decide +kernel
      refine ⟨"true", .text "true", by decide +kernel, ?_⟩
      rw [convert, htype, ArgOption.type, hkind]
      dsimp only
      rw [htrue]
  | _ =>
      refine ⟨"x", .text "x", by decide +kernel, ?_⟩
      rw [convert, htype, ArgOption.type, hkind]

theorem isReadable_of_reaches (hl : ofCommand x c = .ok l) (ho : o ∈ l.args) (hflag : flag ∈ o.allFlags)
    (h : l.Reaches flag o) : IsReadable flag := by
  obtain ⟨s, v, hs, hv⟩ := exists_acceptable o
  obtain ⟨given, hparse, harguments, -⟩ := readWords_eq_ok (h.read s v hv)
  exact isReadable_of_parse (shape_of_mem_allFlags hl ho hflag) hs hparse harguments

/-! ### Arguments that are told apart -/

/-- No flag is declared by two parameters: not by two arguments, and not by an argument and an option that
commands have of their own. -/
theorem pairwise_params_iff :
    (l.params.Pairwise fun p q => p.flags.Disjoint q.flags) ↔
      (l.args.Pairwise fun o o' => o.allFlags.Disjoint o'.allFlags) ∧
        ∀ o ∈ l.args, ∀ flag ∈ o.allFlags, flag ∉ l.ownFlags := by
  have hspecs : (l.params.Pairwise fun p q => p.flags.Disjoint q.flags) ↔
      (l.params.map Param.spec).Pairwise fun s t => s.flags.Disjoint t.flags := by
    rw [List.pairwise_map]
    rfl
  have hown : ∀ byIdentity withPayload,
      (ownSpecs byIdentity withPayload).Pairwise fun s t => s.flags.Disjoint t.flags := by
    intro byIdentity withPayload
    cases byIdentity <;> cases withPayload <;> simp [ownSpecs]
  rw [hspecs, map_spec_params, List.pairwise_append, List.pairwise_map, and_iff_right (hown _ _), ownFlags]
  refine and_congr_right fun _ => ?_
  simp only [List.mem_map, List.mem_flatMap]
  constructor
  · rintro h o ho flag hflag ⟨s, hs, hmem⟩
    exact h s hs _ ⟨o, ho, rfl⟩ hmem hflag
  · rintro h s hs _ ⟨o, ho, rfl⟩ flag hmem hflag
    exact h o ho flag hflag ⟨s, hs, hmem⟩

/-! ### Documents with ordinary names -/

theorem pairwise_related {α β : Type} {R : α → β → Prop} {P : α → α → Prop} {Q : β → β → Prop}
    {as : List α} {bs : List β} (h : List.Forall₂ R as bs)
    (hQ : ∀ a ∈ as, ∀ a' ∈ as, ∀ b b', R a b → R a' b' → P a a' → Q b b') (hP : as.Pairwise P) :
    bs.Pairwise Q := by
  induction h with
  | nil => exact .nil
  | @cons a b as bs hab hrest ih =>
      obtain ⟨hhead, htail⟩ := List.pairwise_cons.1 hP
      refine List.pairwise_cons.2 ⟨fun b' hb' => ?_, ih (fun a₁ h₁ a₂ h₂ =>
        hQ a₁ (List.mem_cons_of_mem _ h₁) a₂ (List.mem_cons_of_mem _ h₂)) htail⟩
      obtain ⟨a', ha', hab'⟩ := exists_related hrest b' hb'
      exact hQ a List.mem_cons_self a' (List.mem_cons_of_mem _ ha') b b' hab hab' (hhead a' ha')

theorem Represents.signature_eq {a : Arg} (h : Represents a o) : argSignature a = signature o := by
  obtain ⟨panel, name, rfl⟩ := h
  rfl

theorem isReadable_dashed {name : String} (h : IsOrdinaryName name) :
    IsReadable (dashed name) := by
  have hnot : '=' ∉ (dashed name).toList := by
    rcases dashed_cases name with ⟨c, hc, hd⟩ | ⟨-, hd⟩
    · have hname := hc ▸ h.noEquals
      rw [hd]
      simpa using hname
    · rw [hd]
      simpa using h.noEquals
  exact ⟨isOption_dashed name, (h.isWritable []).ne_dashes, fun hmem => absurd hmem hnot⟩

/-- The flags that commands have of their own are these names with their dashes. -/
theorem exists_name_of_mem_ownFlags (h : flag ∈ l.ownFlags) :
    ∃ n ∈ "api-version" :: "id" :: Rendering.skipped, dashed n = flag := by
  have hall : ∀ byIdentity withPayload,
      ∀ flag ∈ (ownSpecs byIdentity withPayload).flatMap (·.flags),
        flag ∈ ("api-version" :: "id" :: Rendering.skipped).map dashed := by
    intro byIdentity withPayload
    cases byIdentity <;> cases withPayload <;> decide +kernel
  exact List.mem_map.1 (hall _ _ _ h)

/-- Ordinary names that are told apart give flags that can be read and are told apart. -/
theorem flags_of_isOrderly (hl : ofCommand x c = .ok l) (hc : c.IsOrderly)
    (hversion : ∀ a ∈ c.shownArgs, "api-version" ∉ a.options) :
    (∀ o ∈ l.args, ∀ flag ∈ o.allFlags, IsReadable flag ∧ flag ∉ l.ownFlags) ∧
      l.args.Pairwise fun o o' => o.allFlags.Disjoint o'.allFlags := by
  constructor
  · intro o ho flag hflag
    obtain ⟨a, ha, hrep⟩ := exists_represented hl ho
    obtain ⟨n, hn, rfl⟩ := (mem_allFlags_iff hc ha hrep.signature_eq).1 hflag
    have hordinary := hc.ordinary a ha n hn
    refine ⟨isReadable_dashed hordinary, fun hown => ?_⟩
    obtain ⟨m, hm, hdashed⟩ := exists_name_of_mem_ownFlags hown
    have hne : ∀ m ∈ "api-version" :: "id" :: Rendering.skipped, m ≠ "" := by decide
    obtain rfl := dashed_injective (hne m hm) hordinary.ne_empty hdashed
    rcases List.mem_cons.1 hm with rfl | hm
    · exact hversion a ha hn
    · exact hordinary.notOwn hm
  · refine pairwise_related (represents_args hl) (fun a ha b hb o o' hao hbo hdisjoint flag hflag hflag' => ?_)
      hc.apart
    obtain ⟨n, hn, rfl⟩ := (mem_allFlags_iff hc ha hao.signature_eq).1 hflag
    obtain ⟨m, hm, hdashed⟩ := (mem_allFlags_iff hc hb hbo.signature_eq).1 hflag'
    obtain rfl := dashed_injective (hc.ordinary b hb m hm).ne_empty (hc.ordinary a ha n hn).ne_empty hdashed
    exact hdisjoint hn hm

/-- **When the arguments of a document are told apart**: exactly if no visible argument stands in a further group
without a name, every flag of an argument can be read and is none that commands have of their own, and no two
arguments share a flag. Then a flag and a value give the value to the flag's argument in front of any other words.
Ordinary names that are told apart are enough. -/
theorem tellsApart_iff (hl : ofCommand x c = .ok l) :
    (l.TellsApart c ↔ c.furtherArgs = [] ∧
        (∀ o ∈ l.args, ∀ flag ∈ o.allFlags, IsReadable flag ∧ flag ∉ l.ownFlags) ∧
          l.args.Pairwise fun o o' => o.allFlags.Disjoint o'.allFlags) ∧
      (l.TellsApart c → ∀ o ∈ l.args, ∀ flag ∈ o.allFlags, ∀ value rest,
        parse l.specs true (flag :: value :: rest) = (parse l.specs true rest).map
          fun p => { p with options := (o.name, some value) :: p.options }) ∧
      (c.IsOrderly → (∀ a ∈ c.shownArgs, "api-version" ∉ a.options) → c.furtherArgs = [] →
        l.TellsApart c) := by
  have hiff : l.TellsApart c ↔ c.furtherArgs = [] ∧
      (∀ o ∈ l.args, ∀ flag ∈ o.allFlags, IsReadable flag ∧ flag ∉ l.ownFlags) ∧
        l.args.Pairwise fun o o' => o.allFlags.Disjoint o'.allFlags := by
    constructor
    · intro h
      obtain ⟨happart, hown⟩ := pairwise_params_iff.1 h.apart
      exact ⟨(represents_visibleArgs_iff hl).1 h.represented, fun o ho flag hflag =>
        ⟨isReadable_of_reaches hl ho hflag (h.reaches o ho flag hflag), hown o ho flag hflag⟩, happart⟩
    · rintro ⟨hfurther, hflags, happart⟩
      exact ⟨(represents_visibleArgs_iff hl).2 hfurther, fun o ho flag hflag =>
        reaches_of_readable hl (fun o ho flag hflag => (hflags o ho flag hflag).1) happart ho hflag,
        pairwise_params_iff.2 ⟨happart, fun o ho flag hflag => (hflags o ho flag hflag).2⟩⟩
  refine ⟨hiff, fun h o ho flag hflag value rest => ?_, fun hc hversion hfurther => ?_⟩
  · obtain ⟨-, hflags, happart⟩ := hiff.1 h
    exact parse_flag_cons (fun o ho flag hflag => (hflags o ho flag hflag).1) happart ho hflag value rest
  · exact hiff.2 ⟨hfurther, flags_of_isOrderly hl hc hversion⟩

/-- The arguments of a thing are told apart. -/
theorem tellsApart_placedThing : (placedLeaf false).TellsApart (placedThing false) := by
  refine (tellsApart_iff (ofCommand_placedThing false)).2.2 isOrderly_placedThing ?_ rfl
  decide +kernel

/-- A visible argument of a second group without a name has no option. -/
theorem exists_not_tellsApart :
    ∃ (j : Json) (x : Location) (c : Command) (l : Leaf), Command.ofJson j = .valid c ∧
      ofCommand x c = .ok l ∧ (∃ a ∈ c.args, a.isHidden = false ∧ "beta" ∈ a.options) ∧
        readWords l.params ["--beta", "x"] = .error (.noSuchOption "--beta") ∧ ¬ l.TellsApart c := by
  refine ⟨_, _, _, _, ofJson_splitDocument, ofCommand_splitThing,
    ⟨betaArg, by simp [Command.args, splitThing], rfl, by decide⟩, by decide +kernel, fun h => ?_⟩
  have hnone := (represents_visibleArgs_iff ofCommand_splitThing).1 h.represented
  rw [furtherArgs_splitThing] at hnone
  cases hnone

end Leaf

end Restline
