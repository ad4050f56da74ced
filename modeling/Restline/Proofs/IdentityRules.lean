import Restline.Proofs.DeclaredArguments
import Restline.Proofs.KeyedLists

/-!
What a generated command accepts. The values that are given become an invocation exactly if they keep to four
rules: an identifier does not come with records from the input, nor a file with an editor; the arguments of the
identity give way to either of the former, and the required ones among them are given where there is neither.
Then just the arguments that were given are bound, each to its value; all other values are told as a misuse.

The rules are looked at for the arguments that have an option. A required argument of the identity that stands in
a further group without a name has none, and nothing tells that it is missing.

* `Leaf.Fits`, `Leaf.fits_of_readWords` : values that the parameters take; those of a command line do.
* `Leaf.FilesReadable` : the files that values refer to can be read.
* `Leaf.Accepts` : the rules.
* `Leaf.identityFault?_eq_none_iff`, `Leaf.collect_of_rules`, `Leaf.collect_of_fault` : the rules on one option,
  and on all.
* `Leaf.dispatch_of_rules`, `Leaf.dispatch_of_fault` : an invocation, or a misuse.
* `Leaf.bound_visibleArgs` : the arguments that are bound.
* `Leaf.dispatch_accepts_iff` : **when values become an invocation by the rules for all visible arguments**.
-/

set_option autoImplicit false

namespace Restline

/-! ### Values that parameters take -/

/-- A value of a type of parameters. -/
inductive ParamType.Takes : ParamType → GivenValue → Prop
  | text (s : String) : Takes .text (.text s)
  | integer (n : ℤ) : Takes .integer (.int n)
  | flag : Takes .flag (.bool true)
  | path (s : String) : Takes .path (.text s)
  | choice {words : List String} {anyCase : Bool} {w : String} (h : w ∈ words) :
      Takes (.choice words anyCase) (.text w)

namespace Leaf

variable {l : Leaf} {x : Location} {c : Command} {values : Settings}
  {readFile : String → Except Fault String}

/-- What a text gives for a parameter is a value of its type. -/
theorem takes_of_convert {p : Param} {s : String} {g : GivenValue} (h : convert p s = .ok g) :
    p.type.Takes g := by
  rw [convert] at h
  split at h
  · rename_i htype
    exact Except.ok.inj h ▸ htype ▸ .text s
  · rename_i htype
    exact Except.ok.inj h ▸ htype ▸ .flag
  · rename_i htype
    exact Except.ok.inj h ▸ htype ▸ .path _
  · rename_i htype
    split at h
    · exact Except.ok.inj h ▸ htype ▸ .integer _
    · cases h
  · rename_i htype
    split at h
    · rename_i hchosen
      exact Except.ok.inj h ▸ htype ▸ .choice (List.mem_of_find?_eq_some hchosen)
    · cases h

/-- What is given for a parameter is a value of its type. -/
def Fits (l : Leaf) (values : Settings) : Prop :=
  ∀ p ∈ l.params, ∀ g, values.get? p.name = some g → p.type.Takes g

/-- The values that words give are of the types of their parameters. -/
theorem takes_of_settings {ps : List Param} {given : Grammar.Parsed} {names : List String}
    (h : settings ps given names = .ok values) :
    ∀ e ∈ values, ∃ p ∈ ps, p.name = e.1 ∧ p.type.Takes e.2 := by
  induction names generalizing values with
  | nil =>
      obtain rfl := Except.ok.inj h
      nofun
  | cons name names ih =>
      rw [settings] at h
      cases hfound : ps.find? (fun p => p.name == name) with
      | none =>
          rw [hfound] at h
          obtain ⟨rest, hrest, h⟩ := Except.bind_eq_ok_iff.1 (Except.ok_bind _ _ ▸ h)
          obtain rfl := Except.ok.inj h
          exact ih hrest
      | some p =>
          rw [hfound] at h
          obtain ⟨own, hown, h⟩ := Except.bind_eq_ok_iff.1 h
          obtain ⟨g, hg, rfl⟩ := Except.map_eq_ok_iff.1 hown
          obtain ⟨rest, hrest, h⟩ := Except.bind_eq_ok_iff.1 h
          obtain rfl := Except.ok.inj h
          rw [List.singleton_append, List.forall_mem_cons]
          exact ⟨⟨p, List.mem_of_find?_eq_some hfound, by simpa using List.find?_some hfound,
            takes_of_convert hg⟩, ih hrest⟩

/-- What a command line gives fits its parameters. -/
theorem fits_of_readWords (hl : ofCommand x c = .ok l) {words : List String}
    (h : readWords l.params words = .ok (some values)) : l.Fits values := by
  obtain ⟨given, -, -, hsettings⟩ := readWords_eq_ok h
  intro p hp g hg
  obtain ⟨q, hq, hname, htakes⟩ := takes_of_settings hsettings _ (Keyed.mem_of_get? hg)
  rwa [List.inj_on_of_nodup_map (nodup_name_params hl) hq hp hname] at htakes

/-- The files that values refer to can be read: those of arguments that take JSON, behind an at sign. -/
def FilesReadable (readFile : String → Except Fault String) (l : Leaf) (values : Settings) : Prop :=
  ∀ o ∈ l.args, o.kind = .object ∨ o.kind = .array → ∀ g, values.get? o.name = some g →
    g.toText.startsWith "@" = true →
      ∃ text, readFile (String.ofList (g.toText.toList.drop 1)) = .ok text

/-- A value that is given for the option can be bound. -/
def CanBind (readFile : String → Except Fault String) (values : Settings) (o : ArgOption) : Prop :=
  ∀ g, values.get? o.name = some g → ∃ v, Value.ofGiven readFile g o.kind = .ok v

theorem canBind_of_fits (hfit : l.Fits values) (hfiles : FilesReadable readFile l values) {o : ArgOption}
    (ho : o ∈ l.args) : CanBind readFile values o := by
  intro g hg
  have htakes : o.type.Takes g := hfit o.param (List.mem_append_right _ (List.mem_map_of_mem ho)) g hg
  have htext : o.kind = .object ∨ o.kind = .array → ∃ t, jsonTextOf readFile g.toText = .ok t := by
    intro hkind
    rw [jsonTextOf]
    split
    · rename_i hat
      exact hfiles o ho hkind g hg hat
    · exact ⟨_, rfl⟩
  rw [ArgOption.type] at htakes
  cases hkind : o.kind with
  | object =>
      obtain ⟨t, ht⟩ := htext (.inl hkind)
      exact ⟨.raw t, by rw [Value.ofGiven, ht]; rfl⟩
  | array =>
      obtain ⟨t, ht⟩ := htext (.inr hkind)
      exact ⟨.raw t, by rw [Value.ofGiven, ht]; rfl⟩
  | integer =>
      rw [hkind] at htakes
      cases htakes with
      | integer n => exact ⟨.int n, rfl⟩
  | string => exact ⟨_, rfl⟩
  | boolean => exact ⟨_, rfl⟩
  | opaqueJson => exact ⟨_, rfl⟩

/-! ### The rules -/

/-- What is given for the argument of a key. -/
def given? (l : Leaf) (values : Settings) (key : String) : Option GivenValue :=
  (l.args.find? (fun o => o.key == key)).bind (fun o => values.get? o.name)

/-- The resource is named by an identifier, or by records from the input. -/
def byId (values : Settings) : Bool := values.has "id_" || values.has "stdin"

/-- The rules on what is given, for some of the arguments. -/
structure Accepts (l : Leaf) (values : Settings) (as : List Arg) : Prop where
  identifierOrInput : ¬ (values.has "id_" = true ∧ values.has "stdin" = true)
  fileOrEditor : ¬ (values.has "file" = true ∧ values.has "edit" = true)
  /-- The arguments of the identity give way to an identifier, and to records from the input. -/
  replaced : byId values = true → ∀ a ∈ as, a.isIdentity = true → l.given? values a.var = none
  /-- Where there is neither, the required ones are given. -/
  complete : byId values = false →
    ∀ a ∈ as, a.isIdentity = true → a.isRequired = true → (l.given? values a.var).isSome = true

/-- An option keeps to the rules on the identity. -/
theorem identityFault?_eq_none_iff {o : ArgOption} {byId given : Bool} :
    identityFault? byId o given = none ↔
      (byId = true → o.isIdentity = true → given = false) ∧
        (byId = false → o.isIdentity = true → o.isRequired = true → given = true) := by
  rw [identityFault?]
  cases o.isIdentity <;> cases o.isRequired <;> cases byId <;> cases given <;> simp

theorem kind_of_identityFault? {o : ArgOption} {byId given : Bool} {f : Fault}
    (h : identityFault? byId o given = some f) : f.kind = .invalidUsage := by
  rw [identityFault?] at h
  split at h
  · split at h
    · exact Option.some_inj.1 h ▸ rfl
    · split at h
      · exact Option.some_inj.1 h ▸ rfl
      · cases h
  · cases h

/-- An option keeps to the rules on the identity, for the values that are given. -/
def KeepsRules (values : Settings) (o : ArgOption) : Prop :=
  identityFault? (byId values) o (values.get? o.name).isSome = none

/-- A pair that is bound for an option: its key, and the value for what is given. -/
def IsBoundFor (readFile : String → Except Fault String) (values : Settings) (o : ArgOption)
    (e : String × Value) : Prop :=
  e.1 = o.key ∧ ∃ g, values.get? o.name = some g ∧ Value.ofGiven readFile g o.kind = .ok e.2

/-- The keys of the pairs are those of their options. -/
theorem keys_of_isBoundFor {os : List ArgOption} {es : Bound}
    (h : List.Forall₂ (IsBoundFor readFile values) os es) : Keyed.keys es = os.map (·.key) := by
  induction h with
  | nil => rfl
  | @cons o e os es he _ ih =>
      have hcons : Keyed.keys (e :: es) = e.1 :: Keyed.keys es := rfl
      rw [hcons, he.1, ih, List.map_cons]

/-- The option has a value. -/
def isGiven (values : Settings) (o : ArgOption) : Bool := (values.get? o.name).isSome

/-- Where all options keep to the rules, the values of those that are given are collected, in order. -/
theorem collect_of_rules {acc : Collected} {os : List ArgOption}
    (hbind : ∀ o ∈ os, CanBind readFile values o) (hrules : ∀ o ∈ os, KeepsRules values o) :
    ∃ r es, collect readFile (byId values) values acc os = .ok r ∧ r.bound = acc.bound.union es ∧
      List.Forall₂ (IsBoundFor readFile values) (os.filter (isGiven values)) es := by
  induction os generalizing acc with
  | nil => exact ⟨acc, [], rfl, rfl, .nil⟩
  | cons o os ih =>
      rw [List.forall_mem_cons] at hbind hrules
      have hrule : identityFault? (byId values) o (values.get? o.name).isSome = none := hrules.1
      rw [collect, hrule]
      dsimp only
      rw [List.filter_cons, isGiven]
      cases hgiven : values.get? o.name with
      | none => exact ih hbind.2 hrules.2
      | some g =>
          obtain ⟨v, hv⟩ := hbind.1 g hgiven
          obtain ⟨r, es, hr, hbound, hes⟩ := @ih
            ⟨acc.bound.put o.key v, acc.supplied ++ [(suppliedName o, some g.toText)]⟩ hbind.2 hrules.2
          refine ⟨r, (o.key, v) :: es, ?_, hbound, .cons ⟨rfl, g, hgiven, hv⟩ hes⟩
          dsimp only
          rw [hv, Except.ok_bind, hr]

/-- Where some option breaks a rule, nothing is collected, and a misuse is told. -/
theorem collect_of_fault {acc : Collected} {os : List ArgOption}
    (hbind : ∀ o ∈ os, CanBind readFile values o) (hfault : ∃ o ∈ os, ¬ KeepsRules values o) :
    ∃ f, collect readFile (byId values) values acc os = .error f ∧ f.kind = .invalidUsage := by
  induction os generalizing acc with
  | nil =>
      obtain ⟨o, ho, -⟩ := hfault
      cases ho
  | cons o os ih =>
      rw [List.forall_mem_cons] at hbind
      rw [collect]
      cases hrule : identityFault? (byId values) o (values.get? o.name).isSome with
      | some f => exact ⟨f, rfl, kind_of_identityFault? hrule⟩
      | none =>
          have hrest : ∃ o ∈ os, ¬ KeepsRules values o := by
            obtain ⟨o', ho', hbreaks⟩ := hfault
            rcases List.mem_cons.1 ho' with rfl | ho'
            · exact absurd hrule hbreaks
            · exact ⟨o', ho', hbreaks⟩
          cases hgiven : values.get? o.name with
          | none => exact ih hbind.2 hrest
          | some g =>
              obtain ⟨v, hv⟩ := hbind.1 g hgiven
              dsimp only
              rw [hv, Except.ok_bind]
              exact ih hbind.2 hrest

/-! ### Invocations -/

theorem given?_key (hkeys : (l.args.map (·.key)).Nodup) {o : ArgOption} (ho : o ∈ l.args) :
    l.given? values o.key = values.get? o.name := by
  have hsome : (l.args.find? (fun o' => o'.key == o.key)).isSome = true :=
    List.find?_isSome.2 ⟨o, ho, beq_self_eq_true _⟩
  obtain ⟨o', ho'⟩ := Option.isSome_iff_exists.1 hsome
  obtain rfl : o' = o := List.inj_on_of_nodup_map hkeys (List.mem_of_find?_eq_some ho') ho
    (by simpa using List.find?_some ho')
  rw [given?, ho', Option.bind_some]

/-- Nothing is given for a key that no option has. -/
theorem given?_eq_none {key : String} (h : key ∉ l.args.map (·.key)) : l.given? values key = none := by
  have hnone : l.args.find? (fun o => o.key == key) = none := by
    rw [List.find?_eq_none]
    intro o ho hkey
    exact h (List.mem_map.2 ⟨o, ho, by simpa using hkey⟩)
  rw [given?, hnone, Option.bind_none]

/-- What is given for an argument is what is given for its option. -/
theorem given?_of_represents (hkeys : (l.args.map (·.key)).Nodup) {a : Arg} {o : ArgOption}
    (h : Represents a o) (ho : o ∈ l.args) : l.given? values a.var = values.get? o.name := by
  rw [← h.key_eq, given?_key hkeys ho]

/-- The rules for the arguments that are shown, looked at for their options. -/
theorem accepts_shownArgs_iff (hl : ofCommand x c = .ok l) (hkeys : (c.args.map (·.var)).Nodup) :
    l.Accepts values c.shownArgs ↔
      ¬ (values.has "id_" = true ∧ values.has "stdin" = true) ∧
        ¬ (values.has "file" = true ∧ values.has "edit" = true) ∧ ∀ o ∈ l.args, KeepsRules values o := by
  have hnodup : (l.args.map (·.key)).Nodup := map_key_args hl ▸ Command.nodup_shownArgs hkeys
  constructor
  · intro h
    refine ⟨h.identifierOrInput, h.fileOrEditor, fun o ho => ?_⟩
    obtain ⟨a, ha, hrep⟩ := exists_represented hl ho
    rw [KeepsRules, identityFault?_eq_none_iff, hrep.isIdentity_eq, hrep.isRequired_eq,
      ← given?_of_represents hnodup hrep ho]
    exact ⟨fun hid hidentity => by rw [h.replaced hid a ha hidentity]; rfl,
      fun hid hidentity hrequired => h.complete hid a ha hidentity hrequired⟩
  · rintro ⟨hinput, heditor, hrules⟩
    have hrule : ∀ a ∈ c.shownArgs,
        (byId values = true → a.isIdentity = true → (l.given? values a.var).isSome = false) ∧
          (byId values = false → a.isIdentity = true → a.isRequired = true →
            (l.given? values a.var).isSome = true) := by
      intro a ha
      obtain ⟨o, ho, hrep⟩ := exists_representing hl ha
      have h := hrules o ho
      rwa [KeepsRules, identityFault?_eq_none_iff, hrep.isIdentity_eq, hrep.isRequired_eq,
        ← given?_of_represents hnodup hrep ho] at h
    refine ⟨hinput, heditor, fun hid a ha hidentity => ?_, fun hid a ha => (hrule a ha).2 hid⟩
    exact Option.not_isSome_iff_eq_none.1 (Bool.not_eq_true _ ▸ (hrule a ha).1 hid hidentity)

/-- An identifier beside records from the input, or a file beside an editor, is a misuse. -/
theorem dispatch_of_conflict
    (h : values.has "id_" = true ∧ values.has "stdin" = true ∨
      values.has "file" = true ∧ values.has "edit" = true) :
    ∃ f, l.dispatch readFile values = .error f ∧ f.kind = .invalidUsage := by
  have hid : (textOf values "id_").isSome = values.has "id_" := Option.isSome_map
  have hfile : (textOf values "file").isSome = values.has "file" := Option.isSome_map
  simp only [dispatch, hid, hfile]
  by_cases hinput : values.has "id_" = true ∧ values.has "stdin" = true
  · rw [if_pos (by simpa using hinput)]
    exact ⟨_, rfl, rfl⟩
  · rw [if_neg (by simpa using hinput), if_pos (by simpa using h.resolve_left hinput)]
    exact ⟨_, rfl, rfl⟩

/-- Apart from that, an invocation has the values that are collected. -/
theorem dispatch_of_collect (hinput : ¬ (values.has "id_" = true ∧ values.has "stdin" = true))
    (heditor : ¬ (values.has "file" = true ∧ values.has "edit" = true)) :
    ∃ supplied, ∃ mk : Collected → Invocation, (∀ r, (mk r).bound = r.bound) ∧
      l.dispatch readFile values =
        (collect readFile (byId values) values ⟨[], supplied⟩ l.args).map mk := by
  have hid : (textOf values "id_").isSome = values.has "id_" := Option.isSome_map
  have hfile : (textOf values "file").isSome = values.has "file" := Option.isSome_map
  simp only [dispatch, hid, hfile]
  rw [if_neg (by simpa using hinput), if_neg (by simpa using heditor)]
  exact ⟨_, fun r =>
    { location := l.location, command := l.command, bound := r.bound, supplied := r.supplied,
      resourceId := textOf values "id_", stdin := values.has "stdin", file := textOf values "file",
      edit := values.has "edit", printCli := textOf values "print_cli",
      apiVersion := textOf values "api_version" }, fun _ => rfl, rfl⟩

/-- Where all options keep to the rules, the values become an invocation, with the pairs for the options that
are given, in order. -/
theorem dispatch_of_rules (hbind : ∀ o ∈ l.args, CanBind readFile values o)
    (hinput : ¬ (values.has "id_" = true ∧ values.has "stdin" = true))
    (heditor : ¬ (values.has "file" = true ∧ values.has "edit" = true))
    (hrules : ∀ o ∈ l.args, KeepsRules values o) :
    ∃ i es, l.dispatch readFile values = .ok i ∧ i.bound = Keyed.ofPairs es ∧
      List.Forall₂ (IsBoundFor readFile values) (l.args.filter (isGiven values)) es := by
  obtain ⟨supplied, mk, hmk, hdispatch⟩ := @dispatch_of_collect l values readFile hinput heditor
  obtain ⟨r, es, hr, hbound, hes⟩ := @collect_of_rules _ _ ⟨[], supplied⟩ _ hbind hrules
  exact ⟨mk r, es, by rw [hdispatch, hr]; rfl, (hmk r).trans hbound, hes⟩

/-- Where some option breaks a rule, the values are a misuse. -/
theorem dispatch_of_fault (hbind : ∀ o ∈ l.args, CanBind readFile values o)
    (hfault : ∃ o ∈ l.args, ¬ KeepsRules values o) :
    ∃ f, l.dispatch readFile values = .error f ∧ f.kind = .invalidUsage := by
  by_cases hconflict : values.has "id_" = true ∧ values.has "stdin" = true ∨
      values.has "file" = true ∧ values.has "edit" = true
  · exact dispatch_of_conflict hconflict
  · obtain ⟨hinput, heditor⟩ := not_or.1 hconflict
    obtain ⟨supplied, mk, -, hdispatch⟩ := @dispatch_of_collect l values readFile hinput heditor
    obtain ⟨f, hf, hkind⟩ := @collect_of_fault _ _ ⟨[], supplied⟩ _ hbind hfault
    exact ⟨f, by rw [hdispatch, hf]; rfl, hkind⟩

/-- Values that keep to the rules become an invocation with the values of the options that are given. -/
theorem dispatch_of_accepts (hl : ofCommand x c = .ok l) (hkeys : (c.args.map (·.var)).Nodup)
    (hbind : ∀ o ∈ l.args, CanBind readFile values o) (h : l.Accepts values c.shownArgs) :
    ∃ i, l.dispatch readFile values = .ok i ∧
      List.Forall₂ (IsBoundFor readFile values) (l.args.filter (isGiven values)) i.bound := by
  obtain ⟨hinput, heditor, hrules⟩ := (accepts_shownArgs_iff hl hkeys).1 h
  obtain ⟨i, es, hi, hbound, hes⟩ := dispatch_of_rules hbind hinput heditor hrules
  -- the keys of the options come once, and so do those of the pairs
  have hnodup : (l.args.map (·.key)).Nodup := map_key_args hl ▸ Command.nodup_shownArgs hkeys
  have hplain : Keyed.ofPairs es = es :=
    Keyed.union_of_nodup (m := []) (n := es)
      (keys_of_isBoundFor hes ▸ hnodup.sublist (List.filter_sublist.map _))
  rw [hplain] at hbound
  exact ⟨i, hi, hbound ▸ hes⟩

/-- All other values are a misuse. -/
theorem dispatch_of_not_accepts (hl : ofCommand x c = .ok l) (hkeys : (c.args.map (·.var)).Nodup)
    (hbind : ∀ o ∈ l.args, CanBind readFile values o) (h : ¬ l.Accepts values c.shownArgs) :
    ∃ f, l.dispatch readFile values = .error f ∧ f.kind = .invalidUsage := by
  by_cases hrules : ∀ o ∈ l.args, KeepsRules values o
  · refine dispatch_of_conflict ?_
    by_contra hnone
    obtain ⟨hinput, heditor⟩ := not_or.1 hnone
    exact h ((accepts_shownArgs_iff hl hkeys).2 ⟨hinput, heditor, hrules⟩)
  · push Not at hrules
    exact dispatch_of_fault hbind hrules

/-! ### All visible arguments -/

/-- A pair that is bound for an argument: its key, and the value for what is given. -/
def IsBoundTo (readFile : String → Except Fault String) (l : Leaf) (values : Settings) (a : Arg)
    (e : String × Value) : Prop :=
  e.1 = a.var ∧ ∃ g, l.given? values a.var = some g ∧ Value.ofGiven readFile g a.kind = .ok e.2

/-- Nothing is given for an argument that has no option. -/
theorem given?_further (hl : ofCommand x c = .ok l) (hkeys : (c.args.map (·.var)).Nodup) {a : Arg}
    (ha : a ∈ c.furtherArgs) : l.given? values a.var = none := by
  refine given?_eq_none fun hmem => ?_
  rw [map_key_args hl] at hmem
  obtain ⟨b, hb, hvar⟩ := List.mem_map.1 hmem
  exact Command.key_ne_of_further hkeys ha hb hvar

/-- The visible arguments that are given are those that are shown and given. -/
theorem filter_given_visibleArgs (hl : ofCommand x c = .ok l) (hkeys : (c.args.map (·.var)).Nodup) :
    c.visibleArgs.filter (fun a => (l.given? values a.var).isSome) =
      c.shownArgs.filter (fun a => (l.given? values a.var).isSome) := by
  obtain ⟨own, named, hshown, hvisible⟩ := c.exists_split
  have hfurther : c.furtherArgs.filter (fun a => (l.given? values a.var).isSome) = [] := by
    rw [List.filter_eq_nil_iff]
    intro a ha
    rw [given?_further hl hkeys ha]
    exact Bool.false_ne_true
  rw [hvisible, hshown, List.filter_append, List.filter_append, List.filter_append, hfurther,
    List.append_nil]

/-- **The arguments that are bound**: the visible ones that are given, in order. -/
theorem bound_visibleArgs (hl : ofCommand x c = .ok l) (hkeys : (c.args.map (·.var)).Nodup) {b : Bound}
    (h : List.Forall₂ (IsBoundFor readFile values) (l.args.filter (isGiven values)) b) :
    List.Forall₂ (IsBoundTo readFile l values)
      (c.visibleArgs.filter (fun a => (l.given? values a.var).isSome)) b := by
  have hnodup : (l.args.map (·.key)).Nodup := map_key_args hl ▸ Command.nodup_shownArgs hkeys
  have hpairs : List.Forall₂ (fun a o => Represents a o ∧ l.given? values a.var = values.get? o.name)
      c.shownArgs l.args := by
    obtain ⟨hlength, hrep⟩ := List.forall₂_iff_zip.1 (represents_args hl)
    exact List.forall₂_iff_zip.2 ⟨hlength, fun hmem =>
      ⟨hrep hmem, given?_of_represents hnodup (hrep hmem) (List.of_mem_zip hmem).2⟩⟩
  have hgiven : List.Forall₂ (fun a o => Represents a o ∧ l.given? values a.var = values.get? o.name)
      (c.shownArgs.filter (fun a => (l.given? values a.var).isSome)) (l.args.filter (isGiven values)) :=
    List.rel_filter (fun {a o} hpair => by simp only [isGiven, hpair.2]) hpairs
  rw [filter_given_visibleArgs hl hkeys]
  generalize c.shownArgs.filter (fun a => (l.given? values a.var).isSome) = as,
    l.args.filter (isGiven values) = os at h hgiven
  induction hgiven generalizing b with
  | nil => rwa [List.forall₂_nil_left_iff] at h ⊢
  | @cons a o as os hpair _ ih =>
      obtain ⟨e, es, ⟨hkey, g, hg, hv⟩, hes, rfl⟩ := List.forall₂_cons_left_iff.1 h
      exact .cons ⟨hkey.trans hpair.1.key_eq, g, hpair.2.trans hg, hpair.1.kind_eq ▸ hv⟩ (ih hes)

/-- The rules for all visible arguments are those for the ones that are shown, and that no required argument
of the identity lacks an option where it is needed. -/
theorem accepts_visibleArgs_iff (hl : ofCommand x c = .ok l) (hkeys : (c.args.map (·.var)).Nodup) :
    l.Accepts values c.visibleArgs ↔ l.Accepts values c.shownArgs ∧
      (byId values = false → ∀ a ∈ c.furtherArgs, a.isIdentity = true → a.isRequired = false) := by
  constructor
  · intro h
    refine ⟨⟨h.identifierOrInput, h.fileOrEditor,
      fun hid a ha => h.replaced hid a (Command.mem_visibleArgs_iff.2 (.inl ha)),
      fun hid a ha => h.complete hid a (Command.mem_visibleArgs_iff.2 (.inl ha))⟩, ?_⟩
    intro hid a ha hidentity
    by_contra hrequired
    have hsome := h.complete hid a (Command.mem_visibleArgs_iff.2 (.inr ha)) hidentity
      (by simpa using hrequired)
    rw [given?_further hl hkeys ha] at hsome
    exact Bool.false_ne_true hsome
  · rintro ⟨h, hfurther⟩
    refine ⟨h.identifierOrInput, h.fileOrEditor, fun hid a ha hidentity => ?_,
      fun hid a ha hidentity hrequired => ?_⟩
    · rcases Command.mem_visibleArgs_iff.1 ha with ha | ha
      · exact h.replaced hid a ha hidentity
      · exact given?_further hl hkeys ha
    · rcases Command.mem_visibleArgs_iff.1 ha with ha | ha
      · exact h.complete hid a ha hidentity hrequired
      · exact absurd (hfurther hid a ha hidentity) (by simpa using hrequired)

/-- **When values become an invocation by the rules for all visible arguments.** They do exactly if they keep to
the rules for the arguments that have an option. These are the rules for all visible arguments unless a required
argument of the identity has no option and there is nothing else that names the resource. What is bound are the
visible arguments that are given, each to its value; what is no invocation is a misuse. -/
theorem dispatch_accepts_iff (hl : ofCommand x c = .ok l) (hkeys : (c.args.map (·.var)).Nodup)
    (hfit : l.Fits values) (hfiles : FilesReadable readFile l values) :
    ((∃ i, l.dispatch readFile values = .ok i) ↔ l.Accepts values c.shownArgs) ∧
      (((∃ i, l.dispatch readFile values = .ok i) ↔ l.Accepts values c.visibleArgs) ↔
        (l.Accepts values c.shownArgs → byId values = false →
          ∀ a ∈ c.furtherArgs, a.isIdentity = true → a.isRequired = false)) ∧
      (∀ i, l.dispatch readFile values = .ok i →
        List.Forall₂ (IsBoundTo readFile l values)
          (c.visibleArgs.filter (fun a => (l.given? values a.var).isSome)) i.bound) ∧
      ∀ f, l.dispatch readFile values = .error f → f.kind = .invalidUsage := by
  have hbind : ∀ o ∈ l.args, CanBind readFile values o := fun o ho => canBind_of_fits hfit hfiles ho
  have hok : (∃ i, l.dispatch readFile values = .ok i) ↔ l.Accepts values c.shownArgs := by
    constructor
    · rintro ⟨i, hi⟩
      by_contra hnot
      obtain ⟨f, hf, -⟩ := dispatch_of_not_accepts hl hkeys hbind hnot
      exact absurd (hi.symm.trans hf) nofun
    · intro h
      obtain ⟨i, hi, -⟩ := dispatch_of_accepts hl hkeys hbind h
      exact ⟨i, hi⟩
  refine ⟨hok, ?_, fun i hi => ?_, fun f hf => ?_⟩
  · rw [hok, accepts_visibleArgs_iff hl hkeys]
    exact ⟨fun h hshown => (h.1 hshown).2, fun h => ⟨fun hshown => ⟨hshown, h hshown⟩, And.left⟩⟩
  · obtain ⟨i', hi', hbound⟩ := dispatch_of_accepts hl hkeys hbind (hok.1 ⟨i, hi⟩)
    obtain rfl := Except.ok.inj (hi.symm.trans hi')
    exact bound_visibleArgs hl hkeys hbound
  · by_cases h : l.Accepts values c.shownArgs
    · obtain ⟨i, hi, -⟩ := dispatch_of_accepts hl hkeys hbind h
      exact absurd (hi.symm.trans hf) nofun
    · obtain ⟨f', hf', hkind⟩ := dispatch_of_not_accepts hl hkeys hbind h
      obtain rfl := Except.error.inj (hf.symm.trans hf')
      exact hkind

/-- Where every file has a text, all files can be read. -/
theorem filesReadable_const (text : String) (l : Leaf) (values : Settings) :
    FilesReadable (fun _ => .ok text) l values :=
  fun _ _ _ _ _ _ => ⟨text, rfl⟩

/-- With an identifier the values keep to the rules for all visible arguments, and one argument is bound. -/
theorem dispatch_accepts_splitThing :
    ∃ values i, readWords splitLeaf.params ["--alpha", "x", "--id", "/y"] = .ok (some values) ∧
      splitLeaf.dispatch (fun _ => .ok "") values = .ok i ∧ i.resourceId = some "/y" ∧
        splitLeaf.Accepts values splitThing.visibleArgs ∧
          List.Forall₂ (IsBoundTo (fun _ => .ok "") splitLeaf values)
            (splitThing.visibleArgs.filter (fun a => (splitLeaf.given? values a.var).isSome)) i.bound := by
  have hread : readWords splitLeaf.params ["--alpha", "x", "--id", "/y"] =
      .ok (some [("alpha", .text "x"), ("id_", .text "/y")]) := by
    decide +kernel
  have hdispatch : splitLeaf.dispatch (fun _ => .ok "") [("alpha", .text "x"), ("id_", .text "/y")] =
      .ok { location := splitLeaf.location, command := splitThing, bound := [("$a", .text "x")],
            supplied := [("alpha", some "x")], resourceId := some "/y" } := by
    cbv
  obtain ⟨hshown, hvisible, hbound, -⟩ := dispatch_accepts_iff ofCommand_splitThing (by decide)
    (fits_of_readWords ofCommand_splitThing hread) (filesReadable_const "" _ _)
  have haccepts := (hvisible.2 fun _ hid => absurd hid (by decide)).1 ⟨_, hdispatch⟩
  exact ⟨_, _, hread, hdispatch, rfl, haccepts, hbound _ hdispatch⟩

/-- A required argument of the identity is visible and not given, and nothing else names the resource. -/
theorem exists_dispatch_not_accepts :
    ∃ (j : Json) (x : Location) (c : Command) (l : Leaf) (values : Settings)
      (readFile : String → Except Fault String) (i : Invocation),
      Command.ofJson j = .valid c ∧ ofCommand x c = .ok l ∧ (c.args.map (·.var)).Nodup ∧
        l.Fits values ∧ FilesReadable readFile l values ∧ l.dispatch readFile values = .ok i ∧
          ¬ l.Accepts values c.visibleArgs := by
  have hread : readWords splitLeaf.params [] = .ok (some []) := by decide +kernel
  have hdispatch : splitLeaf.dispatch (fun _ => .ok "") [] =
      .ok { location := splitLeaf.location, command := splitThing } := by
    cbv
  refine ⟨_, _, _, splitLeaf, [], fun _ => .ok "", _, ofJson_splitDocument, ofCommand_splitThing,
    by decide, fits_of_readWords ofCommand_splitThing hread, filesReadable_const "" _ _, hdispatch,
    fun h => ?_⟩
  have hgiven := h.complete rfl betaArg (by rw [visibleArgs_splitThing]; simp) rfl rfl
  exact absurd hgiven (by decide)

end Leaf

end Restline
