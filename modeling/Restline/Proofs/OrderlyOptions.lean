import Restline.Proofs.OptionOwners

/-!
Documents whose options are told apart. Where every argument that can be given has names of its own that
are read as flags, each of its names leads to it.

* `Command.IsOrderly` : the options of a document are told apart.
* `Leaf.map_signature_args` : the options of a generated command are those of the arguments that are not
  hidden.
* `Leaf.leadsTo_of_isOrderly` : **every name of an argument leads to it**.
-/

set_option autoImplicit false

namespace Restline

open Grammar

/-! ### Flags of names -/

theorem dashed_injective {m n : String} (hm : m ≠ "") (hn : n ≠ "") (h : dashed m = dashed n) : m = n := by
  have hlist := congrArg String.toList h
  rcases dashed_cases m with ⟨c, hc, hd⟩ | ⟨-, hd⟩ <;>
    rcases dashed_cases n with ⟨c', hc', hd'⟩ | ⟨-, hd'⟩ <;> rw [hd, hd'] at hlist
  · exact String.toList_inj.1 (by simpa [hc, hc'] using hlist)
  · exact absurd (by simpa using (List.cons.inj (List.cons.inj hlist).2).2) hn
  · exact absurd (by simpa using (List.cons.inj (List.cons.inj hlist).2).2) hm
  · exact String.toList_inj.1 (List.cons.inj (List.cons.inj hlist).2).2

/-- The flags of an option are its names with their dashes, but for an empty name. -/
theorem mem_optionFlags {names : List String} {flag : String} :
    flag ∈ optionFlags names ↔ ∃ n ∈ names, n ≠ "" ∧ dashed n = flag := by
  have hparts : flag ∈ optionFlags names ↔
      flag ∈ (names.filter (fun n => 1 < n.length)).map ("--" ++ ·) ∨
        flag ∈ (names.filter (fun n => n.length = 1)).map ("-" ++ ·) := by
    rw [optionFlags, List.mem_append, List.mem_append, or_right_comm, ← List.mem_append,
      List.take_append_drop]
  have hempty : ∀ n : String, n ≠ "" ↔ 1 < n.length ∨ n.length = 1 := by
    intro n
    have hzero : n.length = 0 ↔ n = "" := by
      rw [← String.length_toList, List.length_eq_zero_iff, String.toList_eq_nil_iff]
    rw [ne_eq, ← hzero]
    omega
  rw [hparts]
  simp only [List.mem_map, List.mem_filter, decide_eq_true_iff]
  constructor
  · rintro (⟨n, ⟨hn, hlen⟩, rfl⟩ | ⟨n, ⟨hn, hlen⟩, rfl⟩)
    · exact ⟨n, hn, (hempty n).2 (.inl hlen), if_neg (by omega)⟩
    · exact ⟨n, hn, (hempty n).2 (.inr hlen), if_pos hlen⟩
  · rintro ⟨n, hn, hne, rfl⟩
    rcases (hempty n).1 hne with hlen | hlen
    · exact .inl ⟨n, ⟨hn, hlen⟩, (if_neg (by omega)).symm⟩
    · exact .inr ⟨n, ⟨hn, hlen⟩, (if_pos hlen).symm⟩

/-- The name is read as one flag, and it is neither that of the option for the identifier nor one of the
options for the payload. -/
structure IsOrdinaryName (name : String) : Prop where
  ne_empty : name ≠ ""
  ne_dash : name ≠ "-"
  noEquals : '=' ∉ name.toList
  noSlash : '/' ∉ name.toList
  notOwn : name ∉ "id" :: Rendering.skipped

instance (name : String) : Decidable (IsOrdinaryName name) :=
  decidable_of_iff
    (name ≠ "" ∧ name ≠ "-" ∧ '=' ∉ name.toList ∧ '/' ∉ name.toList ∧ name ∉ "id" :: Rendering.skipped)
    ⟨fun ⟨h₁, h₂, h₃, h₄, h₅⟩ => ⟨h₁, h₂, h₃, h₄, h₅⟩,
      fun h => ⟨h.ne_empty, h.ne_dash, h.noEquals, h.noSlash, h.notOwn⟩⟩

theorem IsOrdinaryName.isWritable {name : String} (h : IsOrdinaryName name) (specs : List OptionSpec) :
    IsWritable specs name := by
  refine ⟨fun hdashes => ?_, fun hmem => absurd hmem h.noEquals⟩
  exact h.ne_dash (dashed_injective h.ne_empty (by decide) (hdashes.trans (by decide +kernel)))

/-- The flag is declared as it is. -/
theorem IsOrdinaryName.declared_dashed {name : String} (h : IsOrdinaryName name) :
    (declared (dashed name)).1 = dashed name := by
  have hslash : '/' ∉ (dashed name).toList := by
    rcases dashed_cases name with ⟨c, hc, hd⟩ | ⟨-, hd⟩
    · have hnot := hc ▸ h.noSlash
      rw [hd]
      simpa using hnot
    · rw [hd]
      simpa using h.noSlash
  rw [declared, Text.headAndTail_of_notMem hslash]

/-! ### Documents -/

namespace Command

/-- The arguments that can be given: those of the first group without a name and of groups with a name,
as far as they are not hidden. -/
def shownArgs (c : Command) : List Arg :=
  ((c.identityGroup.toList ++ c.namedGroups).flatMap (·.args)).filter (fun a => !a.isHidden)

/-- The options of the document are told apart. -/
structure IsOrderly (c : Command) : Prop where
  /-- Every argument that can be given has a name. -/
  named : ∀ a ∈ c.shownArgs, a.options ≠ []
  ordinary : ∀ a ∈ c.shownArgs, ∀ n ∈ a.options, IsOrdinaryName n
  /-- No name is one of two arguments. -/
  apart : c.shownArgs.Pairwise fun a b => a.options.Disjoint b.options
  /-- A hidden argument of a group with a name has none. -/
  hidden : ∀ a ∈ c.namedGroups.flatMap (·.args), a.isHidden = true → a.options = []

theorem IsOrderly.eq_of_mem {c : Command} (h : c.IsOrderly) {a b : Arg} (ha : a ∈ c.shownArgs)
    (hb : b ∈ c.shownArgs) {n : String} (hna : n ∈ a.options) (hnb : n ∈ b.options) : a = b := by
  by_contra hne
  have hsymm : Std.Symm fun a b : Arg => a.options.Disjoint b.options := ⟨fun _ _ hab => hab.symm⟩
  exact h.apart.forall ha hb hne hna hnb

/-- An argument of a group with a name can be given if it has a name of its own. -/
theorem IsOrderly.mem_shownArgs {c : Command} (h : c.IsOrderly) {a : Arg}
    (ha : a ∈ c.namedGroups.flatMap (·.args)) (hnames : a.options ≠ []) : a ∈ c.shownArgs := by
  rw [shownArgs, List.mem_filter, List.flatMap_append, List.mem_append]
  refine ⟨.inr ha, ?_⟩
  rw [Bool.not_eq_true', ← Bool.not_eq_true]
  exact fun hhidden => hnames (h.hidden a ha hhidden)

end Command

namespace Leaf

variable {l : Leaf} {x : Location} {c : Command} {a : Arg} {name : String}

/-- What an option takes over from its argument. -/
abbrev signature (o : ArgOption) : String × Option String × List String := (o.key, o.option, o.flags)

/-- What an argument gives to its option. -/
abbrev argSignature (a : Arg) : String × Option String × List String :=
  (a.var, primaryName? a.options, optionFlags a.options)

theorem map_signature_distinct (os : List ArgOption) :
    (ArgOption.distinct os).map signature = os.map signature := by
  have hlen : os.length ≤ (ParamName.distinct (os.map (·.name))).length := by
    rw [ParamName.distinct, ParamName.length_distinctFrom, List.length_map]
  calc
    (ArgOption.distinct os).map signature
        = ((os.zip (ParamName.distinct (os.map (·.name)))).map Prod.fst).map signature := by
          rw [ArgOption.distinct, List.map_zipWith, List.zip, List.map_zipWith, List.map_zipWith]
    _ = os.map signature := by rw [List.map_fst_zip hlen]

/-- The options of a generated command are those of the arguments that are not hidden. -/
theorem map_signature_args (hl : Leaf.ofCommand x c = .ok l) :
    l.args.map signature = c.shownArgs.map argSignature := by
  obtain ⟨-, -, -, hargs⟩ := ApiNode.ofCommand_eq_ok hl
  have hgroup : ∀ panel (g : ArgGroup), (groupOptions panel g).map signature =
      (g.args.filter (fun a => !a.isHidden)).map argSignature := by
    intro panel g
    rw [groupOptions, List.map_map]
    rfl
  rw [hargs, map_signature_distinct, argOptions, Command.shownArgs, List.map_append, List.map_flatMap,
    List.flatMap_append, List.filter_append, List.map_append, List.filter_flatMap, List.filter_flatMap,
    List.map_flatMap, List.map_flatMap]
  simp only [hgroup]
  cases c.identityGroup with
  | none => rfl
  | some g => simp only [Option.map_some, Option.getD_some, hgroup, Option.toList_some,
      List.flatMap_singleton]

/-- An argument that can be given has an option. -/
theorem exists_option (hl : Leaf.ofCommand x c = .ok l) (ha : a ∈ c.shownArgs) :
    ∃ o ∈ l.args, signature o = argSignature a :=
  List.mem_map.1 (map_signature_args hl ▸ List.mem_map_of_mem ha)

/-- An option is that of an argument that can be given. -/
theorem exists_arg (hl : Leaf.ofCommand x c = .ok l) {o : ArgOption} (ho : o ∈ l.args) :
    ∃ a ∈ c.shownArgs, argSignature a = signature o :=
  List.mem_map.1 (map_signature_args hl ▸ List.mem_map_of_mem ho)

/-- The flags of an option are the names of its argument with their dashes. -/
theorem mem_allFlags_iff (hc : c.IsOrderly) (ha : a ∈ c.shownArgs) {o : ArgOption}
    (ho : argSignature a = signature o) {flag : String} :
    flag ∈ o.allFlags ↔ ∃ n ∈ a.options, dashed n = flag := by
  have hflags : optionFlags a.options = o.flags := congrArg (·.2.2) ho
  have hall : ∀ {flag}, flag ∈ o.flags ↔ ∃ n ∈ a.options, dashed n = flag := by
    intro flag
    rw [← hflags, mem_optionFlags]
    constructor
    · rintro ⟨n, hn, -, hd⟩
      exact ⟨n, hn, hd⟩
    · rintro ⟨n, hn, hd⟩
      exact ⟨n, hn, (hc.ordinary a ha n hn).ne_empty, hd⟩
  obtain ⟨n, hn⟩ := List.exists_mem_of_ne_nil _ (hc.named a ha)
  have hsome : o.flags.isEmpty = false := by
    rw [List.isEmpty_eq_false_iff]
    exact List.ne_nil_of_mem (hall.2 ⟨n, hn, rfl⟩)
  have hdeclared : o.flags.map (fun f => (declared f).1) = o.flags := by
    refine (List.map_congr_left fun f hf => ?_).trans (List.map_id _)
    obtain ⟨m, hm, rfl⟩ := hall.1 hf
    exact (hc.ordinary a ha m hm).declared_dashed
  rw [ArgOption.allFlags, hsome, if_neg Bool.false_ne_true, hdeclared]
  exact hall

/-- **Every name of an argument leads to it.** -/
theorem leadsTo_of_isOrderly (hl : Leaf.ofCommand x c = .ok l) (hc : c.IsOrderly) (ha : a ∈ c.shownArgs)
    (hn : name ∈ a.options) : l.LeadsTo name a.var := by
  have hordinary := hc.ordinary a ha name hn
  refine ⟨hordinary.isWritable _, ?_⟩
  obtain ⟨o, ho, hsame⟩ := exists_option hl ha
  have hsome : (l.owner? (dashed name)).isSome = true := by
    rw [owner?, List.find?_isSome]
    refine ⟨o, List.mem_reverse.2 ho, ?_⟩
    rw [List.contains_iff_mem]
    exact (mem_allFlags_iff hc ha hsame.symm).2 ⟨name, hn, rfl⟩
  obtain ⟨o', ho'⟩ := Option.isSome_iff_exists.1 hsome
  -- the argument of the option that has the flag has the name as well
  obtain ⟨hmem, hflag⟩ := mem_of_owner? ho'
  obtain ⟨b, hb, hsame'⟩ := exists_arg hl hmem
  obtain ⟨n, hnb, hdashed⟩ := (mem_allFlags_iff hc hb hsame').1 hflag
  obtain rfl := dashed_injective (hc.ordinary b hb n hnb).ne_empty hordinary.ne_empty hdashed
  obtain rfl := hc.eq_of_mem hb ha hnb hn
  exact ⟨o', ho', (congrArg Prod.fst hsame').symm⟩

/-- No argument takes the flag of the identifier. -/
theorem owner?_id_of_isOrderly (hl : Leaf.ofCommand x c = .ok l) (hc : c.IsOrderly) :
    l.owner? "--id" = none := by
  rw [← Option.not_isSome_iff_eq_none, Option.isSome_iff_exists]
  rintro ⟨o, ho⟩
  obtain ⟨hmem, hflag⟩ := mem_of_owner? ho
  obtain ⟨a, ha, hsame⟩ := exists_arg hl hmem
  obtain ⟨n, hn, hdashed⟩ := (mem_allFlags_iff hc ha hsame).1 hflag
  have hordinary := hc.ordinary a ha n hn
  have hid : n = "id" :=
    dashed_injective hordinary.ne_empty (by decide) (hdashed.trans (by decide +kernel))
  exact hordinary.notOwn (hid ▸ List.mem_cons_self)

/-- The name of an option in a rendered command line is one of its argument. -/
theorem suppliedName_mem_of_isOrderly (hc : c.IsOrderly) (ha : a ∈ c.shownArgs) {o : ArgOption}
    (ho : argSignature a = signature o) : suppliedName o ∈ a.options := by
  obtain ⟨n, hn⟩ : ∃ n, primaryName? a.options = some n := by
    obtain ⟨m, ms, hnames⟩ := List.exists_cons_of_ne_nil (hc.named a ha)
    rw [primaryName?, hnames, List.head?_cons]
    cases (m :: ms).find? fun n => decide (1 < n.length) with
    | none => exact ⟨m, rfl⟩
    | some k => exact ⟨k, rfl⟩
  have hmem : n ∈ a.options := by
    rcases Option.or_eq_some_iff.1 hn with hlong | ⟨-, hfirst⟩
    · exact List.mem_of_find?_eq_some hlong
    · exact List.mem_of_head? hfirst
  have hoption : o.option = some n := (congrArg (·.2.1) ho).symm.trans hn
  rw [suppliedName, hoption]
  simp only [(hc.ordinary a ha n hmem).ne_empty, if_false]
  exact hmem

end Leaf

end Restline
