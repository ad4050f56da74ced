import Mathlib.Data.List.Nodup
import Restline.Proofs.TargetVersion

/-!
Which parameter a word sets. A name with its dashes and a value behind it, in two words, give one option
if the name cannot be read otherwise and its flag is that of an option that takes a value. In a generated
command the flag belongs to the last option of an argument that has it, and only where there is none to
an option that commands have of their own.

* `Grammar.Sets`, `Grammar.sets_iff` : **when a name and a value set a parameter**.
* `Grammar.parse_of_sets` : a command line made of such pairs.
* `Leaf.owner?`, `Leaf.find?_specs` : the option of an argument that has a flag.
* `Leaf.setsKey_iff`, `Leaf.sets_id_iff`, `Leaf.sets_apiVersion_iff` : when they set an argument, the
  identifier, the version.
-/

set_option autoImplicit false

namespace Restline

open Grammar

/-! ### Names with their dashes -/

/-- One dash before a single character, two before any other name. -/
theorem dashed_cases (name : String) :
    (∃ c, name.toList = [c] ∧ (dashed name).toList = ['-', c]) ∨
      name.length ≠ 1 ∧ (dashed name).toList = '-' :: '-' :: name.toList := by
  rw [dashed]
  split
  · rename_i hlen
    obtain ⟨c, hc⟩ := List.length_eq_one_iff.1 ((String.length_toList).trans hlen)
    exact .inl ⟨c, hc, by simp [hc]⟩
  · rename_i hlen
    exact .inr ⟨hlen, by simp⟩

namespace Grammar

variable {specs : List OptionSpec} {name param value flag word : String} {o : OptionSpec}

theorem isOption_of_toList {c : Char} {cs : List Char} (h : word.toList = '-' :: c :: cs) :
    isOption word = true := by
  have hlen : word.length = cs.length + 2 := by rw [← String.length_toList, h]; rfl
  rw [isOption, Bool.and_eq_true, String.startsWith_string_iff, h, decide_eq_true_iff]
  exact ⟨⟨c :: cs, rfl⟩, by omega⟩

theorem isOption_dashed (name : String) : isOption (dashed name) = true := by
  rcases dashed_cases name with ⟨c, -, hd⟩ | ⟨-, hd⟩
  · exact isOption_of_toList hd
  · exact isOption_of_toList hd

/-! ### A name and a value -/

/-- A name and a value in the next word set a parameter: read together, they give it this value and
nothing else. -/
def Sets (specs : List OptionSpec) (name param : String) : Prop :=
  ∀ value, parse specs true [dashed name, value] = .ok { options := [(param, some value)] }

/-- The name with its dashes does not end the options, and no part of it is read as a value. -/
structure IsWritable (specs : List OptionSpec) (name : String) : Prop where
  ne_dashes : dashed name ≠ "--"
  plain : '=' ∈ name.toList → name = "=" ∧ find? specs "-" = none

theorem parseOption_of_long {rest : List String} (hlen : word.length ≠ 2) (hnot : '=' ∉ word.toList)
    (ho : find? specs word = some o) (ht : o.takesValue = true) :
    parseOption specs word (value :: rest) = .ok ([(o.name, some value)], rest) := by
  simp only [parseOption, Text.headAndTail_of_notMem hnot, ho, hlen, decide_false, Bool.false_and,
    Bool.false_eq_true, if_false, parseLong, ht, if_true]

/-- A letter whose option takes a value takes the next word, unless the letter is an equals sign and what
stands before it is a flag. -/
theorem parseOption_of_letter {rest : List String} {c : Char} (hd : word.toList = ['-', c])
    (hne : word ≠ "--") (hplain : c = '=' → find? specs "-" = none)
    (ho : find? specs word = some o) (ht : o.takesValue = true) :
    parseOption specs word (value :: rest) = .ok ([(o.name, some value)], rest) := by
  have hflag : word = .ofList ['-', c] := by rw [← hd, String.ofList_toList]
  have hletters : parseLetters specs (value :: rest) (word.toList.drop 1) =
      .ok ([(o.name, some value)], rest) := by
    rw [hd, List.drop_succ_cons, List.drop_zero, parseLetters, ← hflag]
    simp only [ho, ht, if_true]
  by_cases heq : c = '='
  · subst heq
    have hsplit : Text.headAndTail '=' word = ("-", some "") :=
      Text.headAndTail_of_eq (by rw [hd]; rfl) (by decide)
    have hlong : word.startsWith "--" = false := by rw [hflag]; decide +kernel
    simp only [parseOption, hsplit, hplain rfl, hlong, Bool.false_eq_true, if_false, hletters]
  · have hlen : word.length = 2 := by rw [← String.length_toList, hd]; rfl
    have hsplit : Text.headAndTail '=' word = (word, none) :=
      Text.headAndTail_of_notMem (by rw [hd]; simpa using Ne.symm heq)
    simp only [parseOption, hsplit, ho, hlen, hne, ne_eq, not_false_iff, decide_true, Bool.and_true,
      if_true, hletters]

/-- A name that can be written gives the option that has its flag, with the next word for a value. -/
theorem IsWritable.parseOption_eq (h : IsWritable specs name) (ho : find? specs (dashed name) = some o)
    (ht : o.takesValue = true) (rest : List String) :
    parseOption specs (dashed name) (value :: rest) = .ok ([(o.name, some value)], rest) := by
  rcases dashed_cases name with ⟨c, hc, hd⟩ | ⟨hone, hd⟩
  · refine parseOption_of_letter hd h.ne_dashes (fun heq => (h.plain ?_).2) ho ht
    rw [hc, heq]
    exact List.mem_singleton_self _
  · have hlen : (dashed name).length = name.length + 2 := by
      rw [← String.length_toList, hd, List.length_cons, List.length_cons, String.length_toList]
    have hempty : name.length ≠ 0 := by
      intro h0
      refine h.ne_dashes (String.toList_inj.1 ?_)
      rw [hd, List.length_eq_zero_iff.1 (String.length_toList.trans h0)]
      rfl
    refine parseOption_of_long (by omega) ?_ ho ht
    rw [hd]
    intro hmem
    obtain ⟨rfl, -⟩ := h.plain (by simpa using hmem)
    exact hone rfl

/-! ### Command lines -/

/-- Any bound that is not below the number of words will do. -/
theorem parseFrom_congr {interspersed : Bool} {m n : Nat} {words : List String} (hm : words.length ≤ m)
    (hn : words.length ≤ n) :
    parseFrom specs interspersed m words = parseFrom specs interspersed n words := by
  induction m generalizing n words with
  | zero =>
      obtain rfl := List.length_eq_zero_iff.1 (Nat.le_zero.1 hm)
      simp only [parseFrom]
  | succ m ih =>
      cases words with
      | nil => simp only [parseFrom]
      | cons word rest =>
          obtain ⟨n, rfl⟩ := Nat.exists_eq_succ_of_ne_zero (Nat.ne_zero_of_lt hn)
          rw [List.length_cons, Nat.succ_le_succ_iff] at hm hn
          rw [parseFrom, parseFrom, ih hm hn]
          cases hoption : parseOption specs word rest with
          | error f => rfl
          | ok r =>
              obtain ⟨gs, left⟩ := r
              have hleft : left.length ≤ rest.length := by
                rcases parseOption_left hoption with rfl | ⟨v, rfl⟩
                · exact le_rfl
                · exact Nat.le_succ _
              simp only [Except.ok_bind, ih (hleft.trans hm) (hleft.trans hn)]

/-- A word that takes the next one for its value, in front of other words. -/
theorem parse_cons_of_parseOption {rest : List String} {g : Given} (hne : word ≠ "--")
    (hoption : isOption word = true) (h : parseOption specs word (value :: rest) = .ok ([g], rest)) :
    parse specs true (word :: value :: rest) = (parse specs true rest).map
      fun p => { p with options := g :: p.options } := by
  have hbound : parseFrom specs true (value :: rest).length rest = parse specs true rest :=
    parseFrom_congr (Nat.le_succ _) le_rfl
  rw [parse, List.length_cons, parseFrom, if_neg hne, hoption, if_pos rfl, h]
  simp only [Except.ok_bind, hbound]
  cases parse specs true rest <;> rfl

/-- A word and a plain one behind it that give no argument are an option and its value. -/
theorem parseOption_of_parse {given : Parsed} (hvalue : value.startsWith "-" = false)
    (h : parse specs true [word, value] = .ok given) (harguments : given.arguments = []) :
    word ≠ "--" ∧ isOption word = true ∧ parseOption specs word [value] = .ok (given.options, []) := by
  have hne : word ≠ "--" := by
    rintro rfl
    exact absurd ((congrArg Parsed.arguments (Except.ok.inj h)).trans harguments) (by simp)
  have hplain : ∀ {p : Parsed}, parse specs true [value] = .ok p → p.arguments ≠ [] := fun hp =>
    arguments_ne_nil_of_plain hvalue hp
  rw [parse, List.length_cons, parseFrom, if_neg hne] at h
  split at h
  · rename_i hoption
    obtain ⟨⟨gs, left⟩, hgs, h⟩ := Except.bind_eq_ok_iff.1 h
    obtain ⟨q, hq, h⟩ := Except.bind_eq_ok_iff.1 h
    obtain rfl := Except.ok.inj h
    -- the value was taken, for it would be an argument
    rcases parseOption_left hgs with rfl | ⟨v, hv⟩
    · exact absurd harguments (hplain (p := q) hq)
    · obtain rfl := (List.cons.inj hv).2.symm
      obtain rfl := Except.ok.inj hq
      exact ⟨hne, hoption, by rw [hgs, List.append_nil]⟩
  · rw [if_pos rfl] at h
    obtain ⟨q, -, h⟩ := Except.bind_eq_ok_iff.1 h
    obtain rfl := Except.ok.inj h
    cases harguments

/-- A name and a value that can be written, in front of other words. -/
theorem IsWritable.parse_cons (h : IsWritable specs name) (ho : find? specs (dashed name) = some o)
    (ht : o.takesValue = true) (rest : List String) :
    parse specs true (dashed name :: value :: rest) = (parse specs true rest).map
      fun p => { p with options := (o.name, some value) :: p.options } :=
  parse_cons_of_parseOption h.ne_dashes (isOption_dashed name) (h.parseOption_eq ho ht rest)

theorem parseLetters_singleton {c : Char} {rest left : List String} {gs : List Given}
    (h : parseLetters specs rest [c] = .ok (gs, left)) :
    ∃ o, find? specs (.ofList ['-', c]) = some o ∧
      (o.takesValue = true ∧ (∃ v, rest = v :: left ∧ gs = [(o.name, some v)]) ∨
        o.takesValue = false ∧ left = rest ∧ gs = [(o.name, none)]) := by
  obtain ⟨o, ho, ⟨ht, v, rfl, ⟨hletters, -⟩ | ⟨-, hv⟩⟩ | ⟨ht, gs', hrest, rfl⟩⟩ := parseLetters_cons_cases h
  · exact absurd rfl hletters
  · exact ⟨o, ho, .inl ⟨ht, v, hv, rfl⟩⟩
  · obtain ⟨rfl, rfl⟩ := Prod.mk.inj (Except.ok.inj hrest)
    exact ⟨o, ho, .inr ⟨ht, rfl, rfl⟩⟩

/-- The equals sign as a letter takes a word only if the dash before it is no flag. -/
theorem find?_dash_of_parseOption {gs : List Given} (hd : word.toList = ['-', '='])
    (h : parseOption specs word [value] = .ok (gs, [])) : find? specs "-" = none := by
  rw [← Option.not_isSome_iff_eq_none, Option.isSome_iff_exists]
  rintro ⟨o, ho⟩
  have hsplit : Text.headAndTail '=' word = ("-", some "") :=
    Text.headAndTail_of_eq (by rw [hd]; rfl) (by decide)
  have hlen : ¬"-".length = 2 := by decide
  simp only [parseOption, hsplit, ho, hlen, decide_false, Bool.false_and, Bool.false_eq_true, if_false]
    at h
  rcases parseLong_cases h with ⟨v, -, -, ⟨-, hleft⟩ | ⟨hv, -⟩⟩ | ⟨-, hv, -⟩
  · cases hleft
  · cases hv
  · cases hv

/-- What sets a parameter can be written. -/
theorem Sets.exists_find? (h : Sets specs name param) :
    IsWritable specs name ∧ ∃ o, find? specs (dashed name) = some o ∧ o.takesValue = true ∧
      o.name = param := by
  obtain ⟨hopen, -, hoption⟩ := parseOption_of_parse (by decide +kernel) (h "x") rfl
  have hread : OptionWord.IsRead specs ⟨dashed name, some "x", [(param, some "x")]⟩ :=
    @OptionWord.isRead_of_parseOption _ _ _ _ (some "x") hoption
  generalize hword : dashed name = word at hread hoption hopen
  cases hread with
  | separate ho hflag ht =>
      refine ⟨⟨hword ▸ hopen, fun hmem => absurd ?_ hflag.1⟩, _, hword ▸ ho, ht, rfl⟩
      rcases dashed_cases name with ⟨c, hc, hd⟩ | ⟨-, hd⟩
      · rw [hc] at hmem
        rw [← hword, hd]
        exact List.mem_cons_of_mem _ hmem
      · rw [← hword, hd]
        exact List.mem_cons_of_mem _ (List.mem_cons_of_mem _ hmem)
  | letters hlong hletters =>
      obtain ⟨c, hc, hd⟩ : ∃ c, name.toList = [c] ∧ word.toList = ['-', c] := by
        rcases dashed_cases name with ⟨c, hc, hd⟩ | ⟨-, hd⟩
        · exact ⟨c, hc, hword ▸ hd⟩
        · rw [hword] at hd
          rw [← Bool.not_eq_true, String.startsWith_string_iff, hd] at hlong
          exact absurd ⟨name.toList, rfl⟩ hlong
      rw [hd, List.drop_succ_cons, List.drop_zero] at hletters
      obtain ⟨o, ho, ⟨ht, v, -, hgiven⟩ | ⟨-, -, hgiven⟩⟩ := parseLetters_singleton hletters
      · rw [← hd, String.ofList_toList] at ho
        refine ⟨⟨hword ▸ hopen, fun hmem => ?_⟩, o, hword ▸ ho, ht, ?_⟩
        · rw [hc, List.mem_singleton] at hmem
          subst hmem
          exact ⟨String.toList_inj.1 hc, find?_dash_of_parseOption hd hoption⟩
        · exact (congrArg Prod.fst (List.singleton_inj.1 hgiven)).symm
      · exact absurd (congrArg Prod.snd (List.singleton_inj.1 hgiven)) (Option.some_ne_none _)

/-- **When a name and a value set a parameter**: the name can be written, and its flag is that of the
parameter, which takes a value. -/
theorem sets_iff : Sets specs name param ↔
    IsWritable specs name ∧ ∃ o, find? specs (dashed name) = some o ∧ o.takesValue = true ∧
      o.name = param := by
  refine ⟨Sets.exists_find?, ?_⟩
  rintro ⟨hw, o, ho, ht, rfl⟩ value
  rw [hw.parse_cons ho ht]
  rfl

/-- A command line of names, each with a value, gives what each of them gives. -/
theorem parse_of_sets {α : Type} {name value : α → String} {es : List α} {ps : List String}
    (h : List.Forall₂ (fun e p => Sets specs (name e) p) es ps) :
    parse specs true (es.flatMap fun e => [dashed (name e), value e]) =
      .ok { options := List.zipWith (fun e p => (p, some (value e))) es ps } := by
  induction h with
  | nil => rfl
  | cons he _ ih =>
      obtain ⟨hw, o, ho, ht, rfl⟩ := he.exists_find?
      rw [List.flatMap_cons, List.cons_append, List.cons_append, List.nil_append, hw.parse_cons ho ht, ih]
      rfl

/-- An option that a word gives is the one that has some flag. -/
theorem OptionWord.IsRead.exists_find? {w : OptionWord} (h : w.IsRead specs) {g : Given} (hg : g ∈ w.given) :
    ∃ flag o, find? specs flag = some o ∧ o.name = g.1 := by
  cases h with
  | joined ho hflag hword ht =>
      obtain rfl := List.mem_singleton.1 hg
      exact ⟨_, _, ho, rfl⟩
  | separate ho hflag ht =>
      obtain rfl := List.mem_singleton.1 hg
      exact ⟨_, _, ho, rfl⟩
  | bare ho hflag ht =>
      obtain rfl := List.mem_singleton.1 hg
      exact ⟨_, _, ho, rfl⟩
  | letters hword hletters =>
      obtain ⟨c, o, ho, hname, -⟩ := (parseLetters_cases hletters).1 g hg
      exact ⟨_, o, ho, hname.symm⟩

/-! ### Flags -/

theorem find?_append (as bs : List OptionSpec) (flag : String) :
    find? (as ++ bs) flag = (find? bs flag).or (find? as flag) := by
  rw [find?, List.reverse_append, List.find?_append]
  rfl

/-- The flag that asks for help is free unless an option has it. -/
theorem find?_withHelp (specs : List OptionSpec) (flag : String) :
    find? (withHelp specs) flag =
      (find? specs flag).or (if flag = "--help" then some helpSpec else none) := by
  have hhelp : ∀ flag, find? [helpSpec] flag = if flag = "--help" then some helpSpec else none := by
    intro flag
    simp [find?, helpSpec, eq_comm]
  rw [withHelp]
  split
  · rename_i hany
    by_cases hflag : flag = "--help"
    · subst hflag
      have hsome : (find? specs "--help").isSome = true := by
        rw [find?, List.find?_isSome]
        simpa using hany
      obtain ⟨o, ho⟩ := Option.isSome_iff_exists.1 hsome
      rw [ho, Option.some_or]
    · rw [if_neg hflag, Option.or_none]
  · rename_i hany
    rw [find?_append, hhelp]
    by_cases hflag : flag = "--help"
    · subst hflag
      have hnone : find? specs "--help" = none := by
        rw [find?, List.find?_eq_none]
        simpa using hany
      rw [hnone, Option.or_none, Option.none_or]
    · rw [if_neg hflag, Option.none_or, Option.or_none]

end Grammar

namespace Leaf

variable {l : Leaf} {flag name key : String}

/-! ### The options of a generated command -/

/-- The last option of an argument that has a flag. -/
def owner? (l : Leaf) (flag : String) : Option ArgOption :=
  l.args.reverse.find? (fun o => o.allFlags.contains flag)

/-- The options that commands have of their own: those for the version, for the identifier, for the
payload. -/
def ownSpecs (byIdentity withPayload : Bool) : List OptionSpec :=
  ⟨"api_version", ["--api-version"], true⟩ ::
    ((if byIdentity then [⟨"id_", ["--id"], true⟩, ⟨"stdin", ["--stdin"], false⟩] else []) ++
      if withPayload then
        [⟨"file", ["--file", "-f"], true⟩, ⟨"edit", ["--edit", "-e"], false⟩,
          ⟨"print_cli", ["--print-cli"], true⟩]
      else [])

theorem map_spec_params (l : Leaf) :
    l.params.map Param.spec =
      ownSpecs l.command.identityGroup.isSome l.command.hasRequestBody ++
        l.args.map (fun o => o.param.spec) := by
  rw [params, List.map_append, List.map_map, List.map_cons, List.map_append, identityParams, payloadParams]
  cases l.command.identityGroup <;> cases l.command.hasRequestBody <;> rfl

/-- The option of an argument takes a value. -/
theorem takesValue_spec (o : ArgOption) : o.param.spec.takesValue = true := by
  have htype : o.type ≠ .flag := by
    rw [ArgOption.type]
    split <;> simp
  simpa [Param.spec, ArgOption.param] using htype

/-- **A flag is that of the last option of an argument that has it**, else of an option that commands have
of their own. -/
theorem find?_specs (l : Leaf) (flag : String) :
    find? l.specs flag =
      ((l.owner? flag).map (fun o => o.param.spec)).or
        ((find? (ownSpecs l.command.identityGroup.isSome l.command.hasRequestBody) flag).or
          (if flag = "--help" then some helpSpec else none)) := by
  have hargs : find? (l.args.map (fun o => o.param.spec)) flag =
      (l.owner? flag).map (fun o => o.param.spec) := by
    rw [find?, ← List.map_reverse, List.find?_map]
    rfl
  rw [find?_withHelp, map_spec_params, find?_append, hargs, Option.or_assoc]

theorem name_mem_builtin_of_mem_ownSpecs {byIdentity withPayload : Bool} {o : OptionSpec}
    (h : o ∈ ownSpecs byIdentity withPayload) : o.name ∈ ParamName.builtin := by
  revert o
  cases byIdentity <;> cases withPayload <;> decide

theorem flags_of_mem_ownSpecs {byIdentity withPayload : Bool} {o : OptionSpec}
    (h : o ∈ ownSpecs byIdentity withPayload) (hname : o.name = "api_version") :
    o.flags = ["--api-version"] := by
  revert o
  cases byIdentity <;> cases withPayload <;> decide

/-! ### Arguments, the identifier and the version -/

/-- A name and a value set the argument of a key. -/
def SetsKey (l : Leaf) (name key : String) : Prop :=
  ∃ o ∈ l.args, o.key = key ∧ Sets l.specs name o.name

/-- A name can be written, and its flag is that of the argument of a key. -/
def LeadsTo (l : Leaf) (name key : String) : Prop :=
  IsWritable l.specs name ∧ ∃ o, l.owner? (dashed name) = some o ∧ o.key = key

theorem mem_of_owner? {o : ArgOption} (h : l.owner? flag = some o) : o ∈ l.args ∧ flag ∈ o.allFlags :=
  ⟨List.mem_reverse.1 (List.mem_of_find?_eq_some h), by simpa using List.find?_some h⟩

/-- What a flag of a generated command belongs to, if it takes a value. -/
theorem find?_specs_cases {s : OptionSpec} (h : find? l.specs flag = some s) (ht : s.takesValue = true) :
    (∃ o, l.owner? flag = some o ∧ s = o.param.spec) ∨
      l.owner? flag = none ∧
        find? (ownSpecs l.command.identityGroup.isSome l.command.hasRequestBody) flag = some s := by
  rw [find?_specs] at h
  rcases Option.or_eq_some_iff.1 h with hown | ⟨hnone, hrest⟩
  · obtain ⟨o, ho, rfl⟩ := Option.map_eq_some_iff.1 hown
    exact .inl ⟨o, ho, rfl⟩
  · refine .inr ⟨Option.map_eq_none_iff.1 hnone, ?_⟩
    rcases Option.or_eq_some_iff.1 hrest with hown | ⟨-, hhelp⟩
    · exact hown
    · -- the option that asks for help takes no value
      split at hhelp
      · obtain rfl := Option.some_inj.1 hhelp
        cases ht
      · cases hhelp

variable {x : Location} {c : Command}

/-- **When a name and a value set an argument**: the name can be written, and the last option of an
argument that has its flag is one for the same key. -/
theorem setsKey_iff (hl : Leaf.ofCommand x c = .ok l) : l.SetsKey name key ↔ l.LeadsTo name key := by
  obtain ⟨-, -, -, hargs⟩ := ApiNode.ofCommand_eq_ok hl
  constructor
  · rintro ⟨o, ho, rfl, hsets⟩
    obtain ⟨hw, s, hs, ht, hname⟩ := sets_iff.1 hsets
    refine ⟨hw, ?_⟩
    rcases find?_specs_cases hs ht with ⟨o', ho', rfl⟩ | ⟨-, hown⟩
    · -- options of arguments are told apart by the names of their parameters
      have hnodup : (l.args.map (·.name)).Nodup := hargs ▸ ArgOption.nodup_distinct _
      exact ⟨o', ho', congrArg ArgOption.key
        (List.inj_on_of_nodup_map hnodup (mem_of_owner? ho').1 ho hname)⟩
    · have hbuiltin := name_mem_builtin_of_mem_ownSpecs (mem_of_find? hown).1
      rw [hname] at hbuiltin
      exact absurd hbuiltin (ArgOption.name_notMem_builtin o (hargs ▸ ho))
  · rintro ⟨hw, o, ho, rfl⟩
    refine ⟨o, (mem_of_owner? ho).1, rfl, sets_iff.2 ⟨hw, o.param.spec, ?_, takesValue_spec o, rfl⟩⟩
    rw [find?_specs, ho]
    rfl

/-- When a name and a value set a parameter that commands have of their own. -/
theorem sets_own_iff (hl : Leaf.ofCommand x c = .ok l) {param : String} (hp : param ∈ ParamName.builtin) :
    Sets l.specs name param ↔ IsWritable l.specs name ∧ l.owner? (dashed name) = none ∧
      ∃ s, find? (ownSpecs l.command.identityGroup.isSome l.command.hasRequestBody) (dashed name) = some s ∧
        s.takesValue = true ∧ s.name = param := by
  obtain ⟨-, -, -, hargs⟩ := ApiNode.ofCommand_eq_ok hl
  rw [sets_iff]
  refine and_congr_right fun _ => ?_
  constructor
  · rintro ⟨s, hs, ht, rfl⟩
    rcases find?_specs_cases hs ht with ⟨o, ho, rfl⟩ | ⟨hnone, hown⟩
    · exact absurd hp (ArgOption.name_notMem_builtin o (hargs ▸ (mem_of_owner? ho).1))
    · exact ⟨hnone, s, hown, ht, rfl⟩
  · rintro ⟨hnone, s, hs, ht, hname⟩
    refine ⟨s, ?_, ht, hname⟩
    rw [find?_specs, hnone, hs]
    rfl

/-- The identifier is set if the command has an option for it whose flag no argument takes. -/
theorem sets_id_iff (hl : Leaf.ofCommand x c = .ok l) :
    Sets l.specs "id" "id_" ↔ l.command.identityGroup.isSome = true ∧ l.owner? "--id" = none := by
  have hflag : dashed "id" = "--id" := by decide +kernel
  have hw : IsWritable l.specs "id" := ⟨by rw [hflag]; decide, fun hmem => absurd hmem (by decide)⟩
  rw [sets_own_iff hl (by decide), hflag, and_iff_right hw, and_comm]
  refine and_congr_left fun _ => ?_
  cases l.command.identityGroup.isSome <;> cases l.command.hasRequestBody <;> decide

/-- The version is set if no argument takes its flag. -/
theorem sets_apiVersion_iff (hl : Leaf.ofCommand x c = .ok l) :
    Sets l.specs "api-version" "api_version" ↔ l.owner? "--api-version" = none := by
  have hflag : dashed "api-version" = "--api-version" := by decide +kernel
  have hw : IsWritable l.specs "api-version" :=
    ⟨by rw [hflag]; decide, fun hmem => absurd hmem (by decide)⟩
  rw [sets_own_iff hl (by decide), hflag, and_iff_right hw, and_iff_left_iff_imp]
  intro _
  cases l.command.identityGroup.isSome <;> cases l.command.hasRequestBody <;> decide

/-- Where a version is given, no argument takes its flag. -/
theorem owner?_apiVersion_of_given (hl : Leaf.ofCommand x c = .ok l) {words : List String}
    {values : Settings} (hread : readWords l.params words = .ok (some values)) {v : String}
    (hv : textOf values "api_version" = some v) : l.owner? "--api-version" = none := by
  obtain ⟨given, hparse, harguments, hsettings⟩ := readWords_eq_ok hread
  obtain ⟨-, -, -, hargs⟩ := ApiNode.ofCommand_eq_ok hl
  have hgiven : ∃ g ∈ given.options, g.1 = "api_version" := by
    rw [← mem_order]
    by_contra hnot
    have hnone := (get?_of_settings hsettings params_find?_apiVersion).2 hnot
    rw [textOf] at hv
    obtain ⟨g, hg, -⟩ := Option.map_eq_some_iff.1 hv
    exact Option.some_ne_none g (hg.symm.trans hnone)
  obtain ⟨g, hg, hname⟩ := hgiven
  rw [(parse_eq_optionWords hparse (.inr harguments)).options] at hg
  obtain ⟨w, hw, hg⟩ := List.mem_flatMap.1 hg
  obtain ⟨flag, s, hs, hsname⟩ := (isRead_of_mem_optionWords hw).2.2.exists_find? hg
  rw [hname] at hsname
  rw [find?_specs] at hs
  rcases Option.or_eq_some_iff.1 hs with hown | ⟨hnone, hrest⟩
  · -- no option of an argument has the name of the version
    obtain ⟨o, ho, rfl⟩ := Option.map_eq_some_iff.1 hown
    refine absurd ?_ (ArgOption.name_notMem_builtin o (hargs ▸ (mem_of_owner? ho).1))
    rw [show o.name = "api_version" from hsname]
    decide
  · rcases Option.or_eq_some_iff.1 hrest with hown | ⟨-, hhelp⟩
    · obtain ⟨hmem, hflag⟩ := mem_of_find? hown
      rw [flags_of_mem_ownSpecs hmem hsname, List.mem_singleton] at hflag
      exact hflag ▸ Option.map_eq_none_iff.1 hnone
    · split at hhelp
      · obtain rfl := Option.some_inj.1 hhelp
        exact absurd hsname (by decide)
      · cases hhelp

end Leaf

end Restline
