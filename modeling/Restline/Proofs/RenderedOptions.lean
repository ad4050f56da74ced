import Restline.Invocation
import Restline.Proofs.OrderlyOptions

/-!
The options of a rendered command line, read by the command that it is for. Each option stands for
something: the version, an argument that was given, the identifier, or an argument whose value is in the
body. Read by the command, its name and its value should set just that.

* `RenderedOption`, `RenderedOption.Binds` : an option with what it stands for, and whether it sets that.
* `Leaf.renderedOptions`, `Leaf.options_eq_ok` : the options of a command line.
* `Leaf.Reproduces` : all options set what they stand for, and none that was given is missing.
* `Leaf.reproduces_of_isOrderly` : where the options of the document are told apart, they do.
* `Leaf.options_reproduce_iff` : **when the options do**.
-/

set_option autoImplicit false

namespace Restline

open Grammar

/-! ### Values as words -/

/-- A value as a word of the command line: a text as it is, any other value as compact JSON. -/
def Json.asWord : Json → String
  | .str s => s
  | j => j.write Json.compact

theorem Shell.escape_eq (sh : Shell) (j : Json) : sh.escape j = sh.escapeText j.asWord := by
  cases j <;> rfl

/-! ### Options with what they stand for -/

/-- What an option of a rendered command line stands for. -/
inductive Purpose
  | version
  | given (o : ArgOption)
  | identifier
  | member (a : Arg)

/-- An option of a rendered command line, with its value before it is quoted. -/
structure RenderedOption where
  purpose : Purpose
  name : String
  value : String

namespace RenderedOption

variable {l : Leaf} {r : RenderedOption}

/-- The option as it is written for a shell. -/
def text (sh : Shell) (r : RenderedOption) : String := renderOption r.name (some (sh.escapeText r.value))

/-- The option as what was given is kept. -/
def pair (r : RenderedOption) : String × Option String := (r.name, some r.value)

/-- The words that the shell makes of the option. -/
def words (r : RenderedOption) : List String := [dashed r.name, r.value]

/-- The parameter is the one that the option stands for. -/
def IsFor (l : Leaf) (r : RenderedOption) (param : String) : Prop :=
  match r.purpose with
  | .version => param = "api_version"
  | .given o => ∃ p ∈ l.args, p.key = o.key ∧ p.name = param
  | .identifier => param = "id_"
  | .member a => ∃ p ∈ l.args, p.key = a.var ∧ p.name = param

/-- Read by the command, the option sets what it stands for. -/
def Binds (l : Leaf) (r : RenderedOption) : Prop := ∃ param, r.IsFor l param ∧ Sets l.specs r.name param

variable {x : Location} {c : Command} {key : String}

theorem exists_param_iff (hl : Leaf.ofCommand x c = .ok l) :
    (∃ param, (∃ p ∈ l.args, p.key = key ∧ p.name = param) ∧ Sets l.specs r.name param) ↔
      l.LeadsTo r.name key := by
  rw [← Leaf.setsKey_iff hl]
  constructor
  · rintro ⟨_, ⟨p, hp, hkey, rfl⟩, hsets⟩
    exact ⟨p, hp, hkey, hsets⟩
  · rintro ⟨p, hp, hkey, hsets⟩
    exact ⟨_, ⟨p, hp, hkey, rfl⟩, hsets⟩

/-- The option for an argument that was given sets it if its name leads there. -/
theorem binds_given_iff (hl : Leaf.ofCommand x c = .ok l) {o : ArgOption} (hr : r.purpose = .given o) :
    r.Binds l ↔ l.LeadsTo r.name o.key := by
  simp only [Binds, IsFor, hr]
  exact exists_param_iff hl

/-- The option for an argument whose value is in the body sets it if its name leads there. -/
theorem binds_member_iff (hl : Leaf.ofCommand x c = .ok l) {a : Arg} (hr : r.purpose = .member a) :
    r.Binds l ↔ l.LeadsTo r.name a.var := by
  simp only [Binds, IsFor, hr]
  exact exists_param_iff hl

/-- The option for the identifier sets it where there is one whose flag no argument takes. -/
theorem binds_identifier_iff (hl : Leaf.ofCommand x c = .ok l) {id : String} :
    (RenderedOption.mk .identifier "id" id).Binds l ↔
      l.command.identityGroup.isSome = true ∧ l.owner? "--id" = none := by
  rw [← Leaf.sets_id_iff hl]
  exact ⟨fun ⟨_, hparam, hsets⟩ => hparam ▸ hsets, fun hsets => ⟨_, rfl, hsets⟩⟩

/-- A command line of options that set what they stand for gives all of them, in order. -/
theorem parse_words_of_binds {rs : List RenderedOption} (h : ∀ r ∈ rs, r.Binds l) :
    ∃ params, List.Forall₂ (fun r param => r.IsFor l param) rs params ∧
      parse l.specs true (rs.flatMap words) =
        .ok { options := List.zipWith (fun r param => (param, some r.value)) rs params } := by
  have hparams : ∃ params, List.Forall₂ (fun r param => r.IsFor l param ∧ Sets l.specs r.name param)
      rs params := by
    induction rs with
    | nil => exact ⟨[], .nil⟩
    | cons r rs ih =>
        obtain ⟨param, hr⟩ := h r List.mem_cons_self
        obtain ⟨params, hrs⟩ := ih fun r hr => h r (List.mem_cons_of_mem _ hr)
        exact ⟨param :: params, .cons hr hrs⟩
  obtain ⟨params, hall⟩ := hparams
  exact ⟨params, hall.imp fun _ _ hr => hr.1, parse_of_sets (hall.imp fun _ _ hr => hr.2)⟩

end RenderedOption

namespace Leaf

variable {l : Leaf} {values : Settings} {rid : Option String} {body : Json} {sh : Shell}

/-! ### The options of a command line -/

/-- The option that stands for an argument that was given. -/
def givenOption? (values : Settings) (o : ArgOption) : Option RenderedOption :=
  (values.get? o.name).map fun g => ⟨.given o, suppliedName o, g.toText⟩

/-- The option that stands for an argument whose value is in the body. -/
def memberOption? (body : Json) (a : Arg) : Option RenderedOption :=
  match a.bodyWay?, a.options with
  | some way, name :: _ =>
    match body.follow way with
    | .ok (some j) => some ⟨.member a, name, j.asWord⟩
    | _ => none
  | _, _ => none

/-- What was given to a command: its version, and its arguments. -/
def givenOptions (l : Leaf) (values : Settings) : List RenderedOption :=
  ((textOf values "api_version").map (RenderedOption.mk .version "api-version")).toList ++
    l.args.filterMap (givenOption? values)

/-- The options of the command line for what was given, an identifier and a body. -/
def renderedOptions (l : Leaf) (values : Settings) (rid : Option String) (body : Json) :
    List RenderedOption :=
  (l.givenOptions values).filter (fun r => !Rendering.skipped.contains r.name) ++
    (rid.map (RenderedOption.mk .identifier "id")).toList ++
    (l.command.namedGroups.flatMap (·.args)).filterMap (memberOption? body)

theorem mem_givenOptions {r : RenderedOption} :
    r ∈ l.givenOptions values ↔
      (∃ v, textOf values "api_version" = some v ∧ r = ⟨.version, "api-version", v⟩) ∨
        ∃ o ∈ l.args, ∃ g, values.get? o.name = some g ∧ r = ⟨.given o, suppliedName o, g.toText⟩ := by
  simp only [givenOptions, List.mem_append, Option.mem_toList, Option.map_eq_some_iff,
    List.mem_filterMap, givenOption?, @eq_comm _ _ r]

/-- What stands in a rendered command line. -/
theorem mem_renderedOptions {r : RenderedOption} :
    r ∈ l.renderedOptions values rid body ↔
      (∃ v, textOf values "api_version" = some v ∧ r = ⟨.version, "api-version", v⟩) ∨
        (∃ o ∈ l.args, ∃ g, values.get? o.name = some g ∧ suppliedName o ∉ Rendering.skipped ∧
          r = ⟨.given o, suppliedName o, g.toText⟩) ∨
        (∃ id, rid = some id ∧ r = ⟨.identifier, "id", id⟩) ∨
        ∃ a ∈ l.command.namedGroups.flatMap (·.args), memberOption? body a = some r := by
  have hversion : "api-version" ∉ Rendering.skipped := by decide
  have hgiven : (r ∈ l.givenOptions values ∧ r.name ∉ Rendering.skipped) ↔
      (∃ v, textOf values "api_version" = some v ∧ r = ⟨.version, "api-version", v⟩) ∨
        ∃ o ∈ l.args, ∃ g, values.get? o.name = some g ∧ suppliedName o ∉ Rendering.skipped ∧
          r = ⟨.given o, suppliedName o, g.toText⟩ := by
    rw [mem_givenOptions]
    constructor
    · rintro ⟨⟨v, hv, rfl⟩ | ⟨o, ho, g, hg, rfl⟩, hname⟩
      · exact .inl ⟨v, hv, rfl⟩
      · exact .inr ⟨o, ho, g, hg, hname, rfl⟩
    · rintro (⟨v, hv, rfl⟩ | ⟨o, ho, g, hg, hname, rfl⟩)
      · exact ⟨.inl ⟨v, hv, rfl⟩, hversion⟩
      · exact ⟨.inr ⟨o, ho, g, hg, rfl⟩, hname⟩
  simp only [renderedOptions, List.mem_append, List.mem_filter, Bool.not_eq_true', List.contains_eq_mem,
    decide_eq_false_iff_not, hgiven, Option.mem_toList, Option.map_eq_some_iff, List.mem_filterMap,
    @eq_comm _ _ r, or_assoc]

/-! ### From the values to the options -/

/-- Arguments are kept as they were given, in the order of their options. -/
theorem supplied_of_collect {readFile : String → Except Fault String} {byId : Bool} {acc c : Collected}
    {os : List ArgOption} (h : collect readFile byId values acc os = .ok c) :
    c.supplied = acc.supplied ++ (os.filterMap (givenOption? values)).map RenderedOption.pair := by
  induction os generalizing acc with
  | nil =>
      obtain rfl := Except.ok.inj h
      rw [List.filterMap_nil, List.map_nil, List.append_nil]
  | cons o os ih =>
      rw [collect] at h
      split at h
      · cases h
      rw [List.filterMap_cons, givenOption?]
      cases hgiven : values.get? o.name with
      | none =>
          simp only [hgiven] at h
          exact ih h
      | some g =>
          simp only [hgiven] at h
          obtain ⟨v, -, h⟩ := Except.bind_eq_ok_iff.1 h
          rw [ih h, List.append_assoc]
          rfl

theorem supplied_of_dispatch {readFile : String → Except Fault String} {i : Invocation}
    (h : l.dispatch readFile values = .ok i) :
    i.supplied = (l.givenOptions values).map RenderedOption.pair := by
  rw [dispatch] at h
  split at h
  · cases h
  split at h
  · cases h
  obtain ⟨c, hc, h⟩ := Except.bind_eq_ok_iff.1 h
  obtain rfl := Except.ok.inj h
  rw [supplied_of_collect hc, givenOptions, List.map_append]
  cases textOf values "api_version" <;> rfl

/-- The option for an argument is rendered if its key leads to a value. -/
theorem argOption_eq_ok {a : Arg} {o : Option String} (h : Rendering.argOption sh body a = .ok o) :
    o = (memberOption? body a).map (RenderedOption.text sh) := by
  rw [Rendering.argOption] at h
  rw [memberOption?]
  cases hway : a.bodyWay? with
  | none =>
      simp only [hway] at h ⊢
      exact (Except.ok.inj h).symm
  | some way =>
      cases hnames : a.options with
      | nil =>
          simp only [hway, hnames] at h ⊢
          exact (Except.ok.inj h).symm
      | cons name names =>
          simp only [hway, hnames] at h ⊢
          obtain ⟨j, hj, h⟩ := Except.bind_eq_ok_iff.1 h
          obtain rfl := Except.ok.inj h
          rw [hj]
          cases j with
          | none => rfl
          | some j => rw [Option.map_some, Shell.escape_eq]; rfl

theorem argOptions_eq_ok {as : List Arg} {os : List String}
    (h : Rendering.argOptions sh body as = .ok os) :
    os = (as.filterMap (memberOption? body)).map (RenderedOption.text sh) := by
  induction as generalizing os with
  | nil =>
      obtain rfl := Except.ok.inj h
      rfl
  | cons a as ih =>
      obtain ⟨o, ho, h⟩ := Except.bind_eq_ok_iff.1 h
      obtain ⟨os', hos', h⟩ := Except.bind_eq_ok_iff.1 h
      obtain rfl := Except.ok.inj h
      rw [List.filterMap_cons, ih hos', argOption_eq_ok ho]
      cases memberOption? body a <;> rfl

/-- The command line for what was given has the options for it. -/
theorem options_eq_ok {readFile : String → Except Fault String} {i : Invocation}
    (h : l.dispatch readFile values = .ok i) {os : List String}
    (hos : (Rendering.mk sh i.command.argGroups i.supplied (some body) rid).options = .ok os) :
    os = (l.renderedOptions values rid body).map (RenderedOption.text sh) := by
  obtain ⟨-, hcommand, -⟩ := ApiNode.invocation_of_dispatch h
  obtain ⟨own, hown, hos⟩ := Except.bind_eq_ok_iff.1 hos
  obtain rfl := Except.ok.inj hos
  rw [argOptions_eq_ok hown, renderedOptions, List.map_append, List.map_append]
  congr 1
  · congr 1
    · rw [Rendering.suppliedOptions, supplied_of_dispatch h, List.filter_map, List.map_map]
      rfl
    · cases rid <;> rfl
  · rw [Rendering.bodyArgs, hcommand]
    rfl

/-! ### What the options set -/

variable {x : Location} {c : Command}

theorem purpose_of_memberOption? {a : Arg} {r : RenderedOption} (h : memberOption? body a = some r) :
    r.purpose = .member a := by
  rw [memberOption?] at h
  split at h
  · split at h
    · obtain rfl := Option.some_inj.1 h
      rfl
    · cases h
  · cases h

/-- Read by the command, all options set what they stand for, and none that was given is missing. -/
structure Reproduces (l : Leaf) (values : Settings) (rs : List RenderedOption) : Prop where
  binds : ∀ r ∈ rs, r.Binds l
  complete : ∀ o ∈ l.args, values.has o.name = true → ∃ r ∈ rs, r.purpose = .given o

/-- Each option leads to what it stands for, and those that were given keep their place. -/
structure LeadsBack (l : Leaf) (values : Settings) (rid : Option String) (body : Json) : Prop where
  given : ∀ o ∈ l.args, values.has o.name = true →
    suppliedName o ∉ Rendering.skipped ∧ l.LeadsTo (suppliedName o) o.key
  identifier : rid.isSome = true → l.command.identityGroup.isSome = true ∧ l.owner? "--id" = none
  member : ∀ a ∈ l.command.namedGroups.flatMap (·.args), ∀ r, memberOption? body a = some r →
    l.LeadsTo r.name a.var

theorem Reproduces.leadsBack (hl : Leaf.ofCommand x c = .ok l)
    (h : l.Reproduces values (l.renderedOptions values rid body)) : l.LeadsBack values rid body := by
  refine ⟨fun o ho hhas => ?_, fun hid => ?_, fun a ha r hr => ?_⟩
  · obtain ⟨r, hr, hpurpose⟩ := h.complete o ho hhas
    have hleads := (RenderedOption.binds_given_iff hl hpurpose).1 (h.binds r hr)
    rcases mem_renderedOptions.1 hr with ⟨v, -, rfl⟩ | ⟨o', -, g, -, hname, rfl⟩ | ⟨id, -, rfl⟩ |
      ⟨a, -, ha⟩
    · cases hpurpose
    · obtain rfl := Purpose.given.inj hpurpose
      exact ⟨hname, hleads⟩
    · cases hpurpose
    · rw [purpose_of_memberOption? ha] at hpurpose
      cases hpurpose
  · obtain ⟨id, hid⟩ := Option.isSome_iff_exists.1 hid
    exact (RenderedOption.binds_identifier_iff hl).1
      (h.binds _ (mem_renderedOptions.2 (.inr (.inr (.inl ⟨id, hid, rfl⟩)))))
  · exact (RenderedOption.binds_member_iff hl (purpose_of_memberOption? hr)).1
      (h.binds r (mem_renderedOptions.2 (.inr (.inr (.inr ⟨a, ha, hr⟩)))))

theorem LeadsBack.reproduces (hl : Leaf.ofCommand x c = .ok l) {own : List String}
    (hread : readWords l.params own = .ok (some values)) (h : l.LeadsBack values rid body) :
    l.Reproduces values (l.renderedOptions values rid body) := by
  refine ⟨fun r hr => ?_, fun o ho hhas => ?_⟩
  · rcases mem_renderedOptions.1 hr with ⟨v, hv, rfl⟩ | ⟨o, ho, g, hg, -, rfl⟩ | ⟨id, hrid, rfl⟩ |
      ⟨a, ha, hr⟩
    · -- the version was given by its own flag, so no argument has it
      exact ⟨_, rfl, (sets_apiVersion_iff hl).2 (owner?_apiVersion_of_given hl hread hv)⟩
    · refine (RenderedOption.binds_given_iff hl rfl).2 (h.given o ho ?_).2
      rw [Keyed.has, hg, Option.isSome_some]
    · exact (RenderedOption.binds_identifier_iff hl).2 (h.identifier (by rw [hrid, Option.isSome_some]))
    · exact (RenderedOption.binds_member_iff hl (purpose_of_memberOption? hr)).2 (h.member a ha r hr)
  · obtain ⟨g, hg⟩ := Option.isSome_iff_exists.1 hhas
    exact ⟨_, mem_renderedOptions.2 (.inr (.inl ⟨o, ho, g, hg, (h.given o ho hhas).1, rfl⟩)), rfl⟩

/-- An option for an argument whose value is in the body has the first name of the argument. -/
theorem name_of_memberOption? {a : Arg} {r : RenderedOption} (h : memberOption? body a = some r) :
    r.name ∈ a.options := by
  rw [memberOption?] at h
  split at h
  · rename_i hnames
    split at h
    · obtain rfl := Option.some_inj.1 h
      rw [hnames]
      exact List.mem_cons_self
    · cases h
  · cases h

/-- Where the options of the document are told apart, each leads to what it stands for. -/
theorem leadsBack_of_isOrderly (hl : Leaf.ofCommand x c = .ok l) (hc : c.IsOrderly)
    (hid : rid.isSome = true → c.identityGroup.isSome = true) : l.LeadsBack values rid body := by
  obtain ⟨-, hcommand, -, -⟩ := ApiNode.ofCommand_eq_ok hl
  refine ⟨fun o ho _ => ?_, fun hrid => ⟨hcommand ▸ hid hrid, owner?_id_of_isOrderly hl hc⟩,
    fun a ha r hr => ?_⟩
  · obtain ⟨a, ha, hsame⟩ := exists_arg hl ho
    have hname := suppliedName_mem_of_isOrderly hc ha hsame
    refine ⟨fun hskipped => (hc.ordinary a ha _ hname).notOwn (List.mem_cons_of_mem _ hskipped), ?_⟩
    have hkey : a.var = o.key := congrArg Prod.fst hsame
    exact hkey ▸ leadsTo_of_isOrderly hl hc ha hname
  · have hname := name_of_memberOption? hr
    exact leadsTo_of_isOrderly hl hc
      (hc.mem_shownArgs (hcommand ▸ ha) (List.ne_nil_of_mem hname)) hname

/-- **When the options of a rendered command line reproduce what they stand for**: exactly when each leads
back to it. Then the line as a whole gives all of them, in order. They do so wherever the options of the
document are told apart. -/
theorem options_reproduce_iff (hl : Leaf.ofCommand x c = .ok l) {own : List String}
    (hread : readWords l.params own = .ok (some values)) {readFile : String → Except Fault String}
    {i : Invocation} (hdispatch : l.dispatch readFile values = .ok i) {ms : Keyed Json} {os : List String}
    (hos : (Rendering.mk sh i.command.argGroups i.supplied (some (.obj ms)) rid).options = .ok os) :
    let rs := l.renderedOptions values rid (.obj ms)
    os = rs.map (RenderedOption.text sh) ∧
      (l.Reproduces values rs ↔ l.LeadsBack values rid (.obj ms)) ∧
      (l.Reproduces values rs →
        ∃ params, List.Forall₂ (fun r param => r.IsFor l param) rs params ∧
          parse l.specs true (rs.flatMap RenderedOption.words) =
            .ok { options := List.zipWith (fun r param => (param, some r.value)) rs params }) ∧
      (c.IsOrderly → (rid.isSome = true → c.identityGroup.isSome = true) → l.Reproduces values rs) := by
  intro rs
  refine ⟨options_eq_ok hdispatch hos, ⟨(·.leadsBack hl), (·.reproduces hl hread)⟩, fun h => ?_,
    fun hc hid => ?_⟩
  · exact RenderedOption.parse_words_of_binds h.binds
  · exact (leadsBack_of_isOrderly hl hc hid).reproduces hl hread

/-! ### A command that puts a thing -/

/-- A hidden argument. -/
def secretArg : Arg :=
  { type := "string", var := "$parameters.secret", options := ["secret"], hide := some true }

/-- A command that puts a thing with a place and labels, and perhaps with a secret that is hidden. -/
def placedThing (withSecret : Bool) : Command where
  argGroups :=
    [{ args := [{ type := "string", var := "$path.name", options := ["name", "n"], idPart := some "name" }] },
      { name := "Parameters"
        args :=
          [{ type := "string", var := "$parameters.location", options := ["location", "l"] },
            { type := "object", var := "$parameters.tags", options := ["tags"] }] ++
          if withSecret then [secretArg] else [] }]

/-- The generated command. -/
def placedLeaf (withSecret : Bool) : Leaf where
  location := ⟨["thing", "create"], "1", { versions := ["1"] }⟩
  command := placedThing withSecret
  choices := ["1"]
  args :=
    [.ofArg { type := "string", var := "$path.name", options := ["name", "n"], idPart := some "name" }
        identityPanel,
      .ofArg { type := "string", var := "$parameters.location", options := ["location", "l"] } "Parameters",
      .ofArg { type := "object", var := "$parameters.tags", options := ["tags"] } "Parameters"]

theorem ofCommand_placedThing (withSecret : Bool) :
    Leaf.ofCommand (placedLeaf withSecret).location (placedThing withSecret) = .ok (placedLeaf withSecret) := by
  cases withSecret <;> cbv

theorem isOrderly_placedThing : (placedThing false).IsOrderly := by
  have hshown : (placedThing false).shownArgs =
      [{ type := "string", var := "$path.name", options := ["name", "n"], idPart := some "name" },
        { type := "string", var := "$parameters.location", options := ["location", "l"] },
        { type := "object", var := "$parameters.tags", options := ["tags"] }] := by
    cbv
  refine ⟨?_, ?_, ?_, ?_⟩
  · rw [hshown]
    simp
  · rw [hshown]
    simp only [List.forall_mem_cons, List.not_mem_nil, IsEmpty.forall_iff, implies_true, and_true]
    decide +kernel
  · rw [hshown]
    simp [List.Disjoint]
  · simp [Command.namedGroups, placedThing, Arg.isHidden]

/-- Without the secret, all options of the command line for a thing reproduce what they stand for. -/
theorem options_reproduce_placedThing :
    ∃ values i os,
      readWords (placedLeaf false).params ["-l", "west", "--id", "/x"] = .ok (some values) ∧
      (placedLeaf false).dispatch (fun _ => .ok "") values = .ok i ∧
      (Rendering.mk .unix i.command.argGroups i.supplied
        (some (.obj [("location", .str "east"), ("tags", .obj [("env", .str "dev")])]))
        i.resourceId).options = .ok os ∧
      os = ["--location \"west\"", "--id \"/x\"", "--location \"east\"",
        "--tags \"\x7b\\\"env\\\":\\\"dev\\\"\x7d\""] ∧
      (placedLeaf false).Reproduces values ((placedLeaf false).renderedOptions values i.resourceId
        (.obj [("location", .str "east"), ("tags", .obj [("env", .str "dev")])])) := by
  have hread : readWords (placedLeaf false).params ["-l", "west", "--id", "/x"] =
      .ok (some [("location", .text "west"), ("id_", .text "/x")]) := by
    decide +kernel
  have hdispatch : (placedLeaf false).dispatch (fun _ => .ok "")
      [("location", .text "west"), ("id_", .text "/x")] =
        .ok { location := (placedLeaf false).location, command := placedThing false,
              bound := [("$parameters.location", .text "west")], supplied := [("location", some "west")],
              resourceId := some "/x" } := by
    cbv
  have hos : (Rendering.mk .unix (placedThing false).argGroups [("location", some "west")]
      (some (.obj [("location", .str "east"), ("tags", .obj [("env", .str "dev")])]))
      (some "/x")).options = .ok ["--location \"west\"", "--id \"/x\"", "--location \"east\"",
        "--tags \"\x7b\\\"env\\\":\\\"dev\\\"\x7d\""] := by
    cbv
  obtain ⟨-, -, -, horderly⟩ := options_reproduce_iff (ofCommand_placedThing false) hread hdispatch hos
  exact ⟨_, _, _, hread, hdispatch, hos, rfl, horderly isOrderly_placedThing fun _ => rfl⟩

/-- The option for a hidden argument is rendered, but the command has none. -/
theorem exists_not_reproduces :
    ∃ (x : Location) (c : Command) (l : Leaf) (own : List String) (values : Settings)
      (readFile : String → Except Fault String) (i : Invocation) (ms : Keyed Json) (os : List String),
      Leaf.ofCommand x c = .ok l ∧ readWords l.params own = .ok (some values) ∧
        l.dispatch readFile values = .ok i ∧
        (Rendering.mk .unix i.command.argGroups i.supplied (some (.obj ms)) i.resourceId).options = .ok os ∧
        ¬ l.Reproduces values (l.renderedOptions values i.resourceId (.obj ms)) := by
  have hdispatch : (placedLeaf true).dispatch (fun _ => .ok "") [] =
      .ok { location := (placedLeaf true).location, command := placedThing true } := by
    cbv
  refine ⟨_, _, _, [], [], fun _ => .ok "", _, [("secret", .str "x")], ["--secret \"x\""],
    ofCommand_placedThing true, by decide +kernel, hdispatch, by cbv, fun h => ?_⟩
  have hmember : secretArg ∈ (placedLeaf true).command.namedGroups.flatMap (·.args) := by
    simp [placedLeaf, placedThing, Command.namedGroups]
  have hsecret : memberOption? (.obj [("secret", .str "x")]) secretArg =
      some ⟨.member secretArg, "secret", "x"⟩ := by
    cbv
  have hnone : (placedLeaf true).owner? (dashed "secret") = none := by decide +kernel
  obtain ⟨-, o, ho, -⟩ := (h.leadsBack (ofCommand_placedThing true)).member _ hmember _ hsecret
  exact Option.some_ne_none o (ho.symm.trans hnone)

end Leaf

end Restline
