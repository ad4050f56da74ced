import Mathlib
import Restline.Proofs.ParamNames
import Restline.Proofs.ReachedLeaf
import Restline.Proofs.Scanning

/-!
The version of the document that an invocation uses. The document is chosen before the command line is
parsed, for the last version that its words give. The parser gives the same version unless a word is the
value of another option and looks like a version, or an option of an argument takes over the flag.

* `Scan.target_api` : the target of words after `api`.
* `Version.choices_eq_ok_iff`, `Version.mem_of_choices` : which versions can be chosen; they are versions of the
  entry.
* `Leaf.standFor_apiVersion` : the flag of the version is that of no other option.
* `Leaf.textOf_apiVersion` : the version of an invocation is the last one that is given.
* `ApiNode.locate_eq_location_iff` : **when the document is that of the version of the invocation**.
-/

set_option autoImplicit false

namespace Restline

open Grammar

/-! ### The target -/

namespace Scan

theorem target_api (tail : List String) :
    target ("api" :: tail) = (tail.takeWhile isSegment, optionValue? ["--api-version"] tail) := by
  simp only [target, apiPosition?_api, Nat.zero_add, List.drop_succ_cons, List.drop_zero]
  rfl

/-- A segment gives no option. -/
theorem valueAt?_of_isSegment {flags : List String} (hflags : ∀ flag ∈ flags, flag.startsWith "-" = true)
    {word : String} (hword : isSegment word = true) (next : Option String) :
    valueAt? flags word next = none := by
  have hplain : word.startsWith "-" = false := by simpa [isSegment] using hword
  have hnot : word ∉ flags := fun hmem => absurd (hflags word hmem) (by simp [hplain])
  rw [valueAt?_of_not_joined, if_neg (by simpa using hnot)]
  intro flag hflag _ hfront
  have hdash := startsWith_trans (hflags flag hflag) ((List.prefix_append _ _).trans hfront)
  rw [hplain] at hdash
  cases hdash

/-- Segments in front change nothing about what the scan finds. -/
theorem optionValue?_dropWhile {flags : List String} (hflags : ∀ flag ∈ flags, flag.startsWith "-" = true)
    (words : List String) : optionValue? flags words = optionValue? flags (words.dropWhile isSegment) := by
  induction words with
  | nil => rfl
  | cons word rest ih =>
      cases hword : isSegment word with
      | true =>
          rw [List.dropWhile_cons_of_pos hword, ← ih, optionValue?, valueAt?_of_isSegment hflags hword,
            Option.or_none]
      | false => rw [List.dropWhile_cons_of_neg (by simp [hword])]

end Scan

/-! ### Versions that can be chosen -/

namespace Version

/-- The versions that can be chosen if any can: those without two underscores at both ends. -/
def kept (vs : List String) : List String := vs.filter fun v => !isDoublyMarked v

/-- The versions can be declared together as choices: none is marked, none is a name that is taken, and none that
is kept comes twice. -/
structure AreDeclarable (vs : List String) : Prop where
  unmarked : ∀ v ∈ vs, isMarked v = false
  untaken : ∀ v ∈ vs, v ≠ "" ∧ v ≠ "mro"
  once : (kept vs).Nodup

theorem untaken_of_isDoublyMarked {v : String} (h : isDoublyMarked v = true) : v ≠ "" ∧ v ≠ "mro" := by
  constructor <;> rintro rfl <;> exact absurd h (by decide +kernel)

theorem choicesFrom_eq_ok_iff {seen vs cs : List String} :
    choicesFrom seen vs = .ok cs ↔ (∀ v ∈ vs, isMarked v = false) ∧ (∀ v ∈ seen ++ vs, v ≠ "" ∧ v ≠ "mro") ∧
      (kept vs).Nodup ∧ (∀ v ∈ kept vs, v ∉ seen) ∧ kept vs = cs := by
  induction vs generalizing seen cs with
  | nil =>
      have hiff : (∀ v ∈ seen ++ [], v ≠ "" ∧ v ≠ "mro") ↔ ¬ (seen.contains "" || seen.contains "mro") = true := by
        simp only [List.append_nil, Bool.or_eq_true, List.contains_iff_mem, not_or]
        exact ⟨fun h => ⟨fun hm => (h _ hm).1 rfl, fun hm => (h _ hm).2 rfl⟩,
          fun h v hv => ⟨fun heq => h.1 (heq ▸ hv), fun heq => h.2 (heq ▸ hv)⟩⟩
      rw [choicesFrom, hiff]
      split
      · rename_i h
        exact iff_of_false (by simp) fun hall => hall.2.1 h
      · rename_i h
        exact ⟨fun heq => ⟨by simp, h, List.nodup_nil, by simp [kept], Except.ok.inj heq⟩,
          fun hall => congrArg Except.ok hall.2.2.2.2⟩
  | cons w vs ih =>
      rw [choicesFrom]
      split
      · rename_i hmarked
        exact iff_of_false (by simp) fun h => by simp [h.1 w List.mem_cons_self] at hmarked
      rename_i hmarked
      split
      · rename_i hdouble
        have hkept : kept (w :: vs) = kept vs := List.filter_cons_of_neg (by simp [hdouble])
        rw [ih, hkept]
        have huntaken := untaken_of_isDoublyMarked hdouble
        grind
      rename_i hdouble
      have hkept : kept (w :: vs) = w :: kept vs := List.filter_cons_of_pos (by simp [hdouble])
      split
      · rename_i hseen
        rw [hkept]
        grind
      · rename_i hseen
        rw [Except.map_eq_ok_iff, hkept]
        simp only [ih]
        grind

theorem choices_eq_ok_iff {vs cs : List String} :
    choices vs = .ok cs ↔ AreDeclarable vs ∧ kept (Text.sorted vs) = cs := by
  have hperm : (Text.sorted vs).Perm vs := List.mergeSort_perm vs _
  have hmem : ∀ v, v ∈ Text.sorted vs ↔ v ∈ vs := fun v => hperm.mem_iff
  have honce : (kept (Text.sorted vs)).Nodup ↔ (kept vs).Nodup := (hperm.filter _).nodup_iff
  rw [choices, choicesFrom_eq_ok_iff]
  simp only [List.nil_append, hmem, honce, List.not_mem_nil]
  constructor
  · rintro ⟨hunmarked, huntaken, honce, -, heq⟩
    exact ⟨⟨hunmarked, huntaken, honce⟩, heq⟩
  · rintro ⟨⟨hunmarked, huntaken, honce⟩, heq⟩
    exact ⟨hunmarked, huntaken, honce, fun _ _ => not_false, heq⟩

/-- Versions that can be chosen are among those that there are. -/
theorem mem_of_choices {vs cs : List String} (h : choices vs = .ok cs) : ∀ v ∈ cs, v ∈ vs := by
  obtain ⟨-, rfl⟩ := choices_eq_ok_iff.1 h
  exact fun v hv => List.mem_mergeSort.1 (List.mem_of_mem_filter hv)

end Version

/-! ### Order of options -/

theorem Grammar.mem_order {p : Parsed} {name : String} :
    name ∈ p.order ↔ ∃ g ∈ p.options, g.1 = name := by
  have hfold : ∀ names acc : List String,
      name ∈ names.foldl (fun l n => if l.contains n then l else l ++ [n]) acc ↔
        name ∈ acc ∨ name ∈ names := by
    intro names
    induction names with
    | nil => simp
    | cons n names ih =>
        intro acc
        rw [List.foldl_cons, ih, List.mem_cons]
        by_cases hn : n ∈ acc
        · rw [if_pos (List.contains_iff_mem.2 hn)]
          constructor
          · tauto
          · rintro (h | rfl | h)
            · exact .inl h
            · exact .inl hn
            · exact .inr h
        · rw [if_neg (by simpa using hn), List.mem_append, List.mem_singleton]
          tauto
  rw [Parsed.order, hfold]
  simp

namespace Leaf

/-! ### What is given for a parameter -/

variable {ps : List Param} {given : Parsed} {names : List String} {values : Settings} {q : Param}

theorem settings_cons (name : String) :
    settings ps given (name :: names) =
      (match ps.find? (fun p => p.name == name) with
      | none => .ok []
      | some p => (convert p ((given.value? name).getD "")).map (fun v => [(name, v)])) >>= fun own =>
      settings ps given names >>= fun rest => .ok (own ++ rest) := by
  rw [settings]
  cases ps.find? (fun p => p.name == name) <;> rfl

/-- What is given for a parameter comes from the last value of its option. -/
theorem get?_of_settings (h : settings ps given names = .ok values)
    (hq : ps.find? (fun p => p.name == q.name) = some q) :
    (q.name ∈ names → ∃ v, convert q ((given.value? q.name).getD "") = .ok v ∧
        values.get? q.name = some v) ∧
      (q.name ∉ names → values.get? q.name = none) := by
  induction names generalizing values with
  | nil =>
      obtain rfl := Except.ok.inj h
      exact ⟨fun hmem => absurd hmem List.not_mem_nil, fun _ => rfl⟩
  | cons name names ih =>
      rw [settings_cons] at h
      obtain ⟨own, hown, h⟩ := Except.bind_eq_ok_iff.1 h
      obtain ⟨rest, hrest, h⟩ := Except.bind_eq_ok_iff.1 h
      obtain rfl := Except.ok.inj h
      obtain ⟨hgiven, hnone⟩ := ih hrest
      by_cases hname : name = q.name
      · subst hname
        simp only [hq] at hown
        obtain ⟨v, hv, rfl⟩ := Except.map_eq_ok_iff.1 hown
        refine ⟨fun _ => ⟨v, hv, ?_⟩, fun hnot => absurd List.mem_cons_self hnot⟩
        rw [List.singleton_append, Keyed.get?_cons, if_pos rfl]
      · -- what is given for another parameter stands under another name
        have hskip : Keyed.get? (own ++ rest) q.name = Keyed.get? rest q.name := by
          split at hown
          · obtain rfl := Except.ok.inj hown
            rfl
          · obtain ⟨v, -, rfl⟩ := Except.map_eq_ok_iff.1 hown
            rw [List.singleton_append, Keyed.get?_cons, if_neg hname]
        rw [hskip, List.mem_cons, or_iff_right (Ne.symm hname)]
        exact ⟨hgiven, hnone⟩

/-- A choice is taken as it is given. -/
theorem convert_apiVersion {choices : List String} {s : String} {v : GivenValue}
    (h : convert (Param.apiVersion choices) s = .ok v) : v = .text s ∧ s ∈ choices := by
  simp only [convert, Param.apiVersion, chosen?, Bool.false_eq_true, if_false] at h
  cases hfound : choices.find? (fun w => s == w) with
  | none => rw [hfound] at h; cases h
  | some w =>
      rw [hfound] at h
      obtain rfl : s = w := by simpa using List.find?_some hfound
      exact ⟨(Except.ok.inj h).symm, List.mem_of_find?_eq_some hfound⟩

/-! ### The option for the version -/

variable {l : Leaf}

/-- A parameter is that for the version, another one that commands have of their own, or an option of an
argument. -/
theorem mem_params_cases (hq : q ∈ l.params) :
    q = .apiVersion l.choices ∨ (q.name ≠ "api_version" ∧ "--api-version" ∉ q.flags) ∨
      ∃ o ∈ l.args, q = o.param := by
  simp only [params, List.cons_append, List.mem_cons, List.mem_append, List.mem_map] at hq
  rcases hq with rfl | (hidentity | hpayload) | ⟨o, ho, rfl⟩
  · exact .inl rfl
  · refine .inr (.inl ?_)
    rw [identityParams] at hidentity
    split at hidentity
    · cases hidentity
    · simp only [List.mem_cons, List.not_mem_nil, or_false] at hidentity
      rcases hidentity with rfl | rfl
      · exact ⟨by simp [Param.id], by simp [Param.id]⟩
      · exact ⟨by simp [Param.stdin], by simp [Param.stdin]⟩
  · refine .inr (.inl ?_)
    rw [payloadParams] at hpayload
    split at hpayload
    · simp only [List.mem_cons, List.not_mem_nil, or_false] at hpayload
      rcases hpayload with rfl | rfl | rfl
      · exact ⟨by simp [Param.file], by simp [Param.file]⟩
      · exact ⟨by simp [Param.edit], by simp [Param.edit]⟩
      · exact ⟨by simp [Param.printCli], by simp [Param.printCli]⟩
    · cases hpayload
  · exact .inr (.inr ⟨o, ho, rfl⟩)

theorem params_find?_apiVersion :
    l.params.find? (fun p => p.name == (Param.apiVersion l.choices).name) =
      some (.apiVersion l.choices) := by
  rw [params, List.cons_append, List.find?_cons_of_pos (by simp)]

theorem mem_withHelp_of_mem {specs : List OptionSpec} {o : OptionSpec} (ho : o ∈ specs) :
    o ∈ withHelp specs := by
  rw [withHelp]
  split
  · exact ho
  · exact List.mem_append_left _ ho

theorem mem_or_eq_of_mem_withHelp {specs : List OptionSpec} {o : OptionSpec} (ho : o ∈ withHelp specs) :
    o ∈ specs ∨ o = helpSpec := by
  rw [withHelp] at ho
  split at ho
  · exact .inl ho
  · simpa using ho

/-- The options of the command as the grammar sees them. -/
abbrev specs (l : Leaf) : List OptionSpec := withHelp (l.params.map Param.spec)

/-- **The flag of the version is that of no other option**, unless an option of an argument has it. -/
theorem standFor_apiVersion (hnames : ∀ o ∈ l.args, o.name ∉ ParamName.builtin)
    (hfree : ∀ o ∈ l.args, "--api-version" ∉ o.allFlags) :
    StandFor l.specs ["--api-version"] "api_version" := by
  refine .of_specs ?_ ?_ (by decide +kernel)
  · intro flag hflag
    obtain rfl := List.mem_singleton.1 hflag
    have hmem : (Param.apiVersion l.choices).spec ∈ l.specs :=
      mem_withHelp_of_mem (List.mem_map_of_mem (by simp [params]))
    rw [find?, List.find?_isSome]
    exact ⟨_, List.mem_reverse.2 hmem, by simp [Param.spec, Param.apiVersion]⟩
  · intro o ho flag hflag
    -- every other option has neither the name nor the flag
    have hother : o.name ≠ "api_version" → "--api-version" ∉ o.flags →
        (flag ∈ ["--api-version"] ↔ o.name = "api_version") ∧
          (o.name = "api_version" → o.takesValue = true) := by
      intro hname hnot
      refine ⟨⟨fun hmem => ?_, fun h => absurd h hname⟩, fun h => absurd h hname⟩
      exact absurd (List.mem_singleton.1 hmem ▸ hflag) hnot
    rcases mem_or_eq_of_mem_withHelp ho with hspec | rfl
    · obtain ⟨q, hq, rfl⟩ := List.mem_map.1 hspec
      rcases mem_params_cases hq with rfl | ⟨hname, hnot⟩ | ⟨a, ha, rfl⟩
      · exact ⟨⟨fun _ => rfl, fun _ => hflag⟩, fun _ => rfl⟩
      · exact hother hname hnot
      · refine hother (fun hname => hnames a ha ?_) (hfree a ha)
        rw [show a.name = "api_version" from hname]
        decide
    · exact hother (by decide) (by decide)

/-- The version of an invocation can be chosen, and it is the last one that is given. -/
theorem textOf_apiVersion (h : settings l.params given given.order = .ok values) :
    (∀ v, textOf values "api_version" = some v → v ∈ l.choices) ∧
      ((∀ g ∈ given.options, g.1 = "api_version" → g.2.isSome = true) →
        textOf values "api_version" = given.value? "api_version") := by
  obtain ⟨hgiven, hnone⟩ := get?_of_settings h params_find?_apiVersion
  rw [mem_order] at hgiven hnone
  by_cases hmem : ∃ g ∈ given.options, g.1 = "api_version"
  · obtain ⟨v, hv, hget⟩ := hgiven hmem
    obtain ⟨rfl, hchoice⟩ := convert_apiVersion hv
    have htext : textOf values "api_version" = some ((given.value? "api_version").getD "") :=
      congrArg (Option.map GivenValue.toText) hget
    rw [htext]
    constructor
    · intro v hv'
      rw [← Option.some_inj.1 hv']
      exact hchoice
    · intro hsome
      obtain ⟨g, hg, hname⟩ := hmem
      obtain ⟨u, hu⟩ := Option.isSome_iff_exists.1 (isSome_lastValue? hg hname hsome)
      rw [lastValue?_options] at hu
      rw [hu, Option.getD_some]
  · have htext : textOf values "api_version" = none := congrArg (Option.map GivenValue.toText) (hnone hmem)
    rw [htext]
    refine ⟨fun v hv => (Option.some_ne_none v hv.symm).elim, fun _ => ?_⟩
    exact (lastValue?_eq_none fun g hg hname => hmem ⟨g, hg, hname⟩).symm

/-- Nothing else can be taken for the version: no option of an argument has its flag, and no value of an
option looks as if it gave a version. -/
structure VersionUndisputed (l : Leaf) (own : List String) : Prop where
  free : ∀ o ∈ l.args, "--api-version" ∉ o.allFlags
  plain : ValuesPlain ["--api-version"] (optionWords l.specs own)

/-- The scan finds the version that is given. -/
theorem VersionUndisputed.optionValue?_eq {own : List String} (hu : VersionUndisputed l own)
    (hnames : ∀ o ∈ l.args, o.name ∉ ParamName.builtin) (hparse : parse l.specs true own = .ok given)
    (harguments : given.arguments = []) :
    Scan.optionValue? ["--api-version"] own = given.value? "api_version" ∧
      ∀ g ∈ given.options, g.1 = "api_version" → g.2.isSome = true := by
  have hs := standFor_apiVersion hnames hu.free
  have hread := areRead_optionWords l.specs own
  obtain ⟨hgiven, left, hwords, hleft⟩ := parse_eq_optionWords hparse (.inr harguments)
  rw [harguments] at hleft
  constructor
  · conv_lhs => rw [hwords]
    rw [Scan.optionValue?_optionWords hs hread hu.plain, Scan.optionValue?_dashes (by decide) hleft,
      Option.none_or, seen_eq_flatMap hs (by decide +kernel) hread, ← hgiven]
    rfl
  · intro g hg hname
    rw [hgiven] at hg
    obtain ⟨w, hw, hg⟩ := List.mem_flatMap.1 hg
    exact OptionWord.isSome_of_mem_given hs (hread w hw).2.2 g hg hname

end Leaf

/-! ### The version that is used -/

/-- The version asked for if the entry has it, else the greatest one. -/
def Entry.chosen? (e : Entry) (version : Option String) : Option String :=
  (version.filter e.versions.contains).or e.latest?

theorem Entry.resolve_eq_ok_iff {e : Entry} {version : Option String}
    (h : ∀ v, version = some v → v ∈ e.versions) {segments : List String} {v : String} :
    e.resolve segments version = .ok v ↔ e.chosen? version = some v := by
  cases version with
  | some w =>
      have hoffered : e.versions.contains w = true := List.contains_iff_mem.2 (h w rfl)
      simp only [resolve, chosen?, Option.filter_some, hoffered, if_true, Option.some_or,
        Except.ok.injEq, Option.some.injEq]
  | none =>
      rw [resolve, chosen?, Option.filter_none, Option.none_or]
      cases e.latest? <;> simp

theorem Entry.chosen?_filter {e : Entry} {version : Option String} :
    e.chosen? (version.filter e.versions.contains) = e.chosen? version := by
  rw [chosen?, chosen?, Option.filter_filter]
  simp only [Bool.and_self]

namespace ApiNode

variable {b : Bundle} {c c' : Cache} {i : Index} {tail path : List String} {tree : ApiNode} {l : Leaf}
  {values : Leaf.Settings} {readFile : String → Except Fault String} {inv : Invocation}

theorem invocation_of_dispatch (h : l.dispatch readFile values = .ok inv) :
    inv.location = l.location ∧ inv.command = l.command ∧
      inv.apiVersion = Leaf.textOf values "api_version" := by
  rw [Leaf.dispatch] at h
  split at h
  · cases h
  split at h
  · cases h
  obtain ⟨collected, -, h⟩ := Except.bind_eq_ok_iff.1 h
  obtain rfl := Except.ok.inj h
  exact ⟨rfl, rfl, rfl⟩

/-- A command that was located for one version would be for another exactly if both choose the same. -/
theorem locate_iff_chosen {segments : List String} {version version' : Option String} {x : Location}
    (h : i.locate segments (version.filter x.entry.versions.contains) = .ok x)
    (hoffered : ∀ v, version' = some v → v ∈ x.entry.versions) :
    i.locate segments version' = .ok x ↔ x.entry.chosen? version = x.entry.chosen? version' := by
  obtain ⟨s, rest, g, e, v, hsegments, hg, hfind, hresolve, rfl⟩ := Index.locate_eq_ok_iff.1 h
  have hfilter : ∀ w, version.filter e.versions.contains = some w → w ∈ e.versions := fun w hw =>
    List.contains_iff_mem.1 (Option.filter_eq_some_iff.1 hw).2
  rw [Entry.resolve_eq_ok_iff hfilter, Entry.chosen?_filter] at hresolve
  rw [hresolve, @eq_comm _ (some v), ← Entry.resolve_eq_ok_iff hoffered, Index.locate_eq_ok_iff]
  constructor
  · rintro ⟨s', rest', g', e', v', hs, hg', hfind', hresolve', hx⟩
    obtain ⟨-, rfl, rfl⟩ := Location.mk.inj hx
    exact hresolve'
  · intro hresolve'
    exact ⟨s, rest, g, e, v, hsegments, hg, hfind, hresolve', rfl⟩

/-- **When the document is that of the version of the invocation.** The document is at the version that the
scan finds, if that is offered, or at the latest. This is the version of the invocation, or the latest
where it has none, exactly if both choose the same; and so they do unless another option or its value can
be taken for the version. -/
theorem locate_eq_location_iff (hindex : (c.getIndex b).1 = .ok i)
    (hbuild : (build b (Scan.target ("api" :: tail)).1 (Scan.target ("api" :: tail)).2).run.run c =
      (.ok tree, c'))
    (hrun : tree.run path tail = .ok (.leaf l values)) (hdispatch : l.dispatch readFile values = .ok inv) :
    ∃ own, tail = (Scan.target ("api" :: tail)).1 ++ own ∧
      i.locate (Scan.target ("api" :: tail)).1
          ((Scan.target ("api" :: tail)).2.filter inv.location.entry.versions.contains) =
        .ok inv.location ∧
      (c.getCommand b inv.location.documentId).1 = .ok inv.command ∧
      (i.locate (Scan.target ("api" :: tail)).1 inv.apiVersion = .ok inv.location ↔
        inv.location.entry.chosen? (Scan.target ("api" :: tail)).2 =
          inv.location.entry.chosen? inv.apiVersion) ∧
      (l.VersionUndisputed own →
        i.locate (Scan.target ("api" :: tail)).1 inv.apiVersion = .ok inv.location) := by
  obtain ⟨hlocation, hcommand, hversion⟩ := invocation_of_dispatch hdispatch
  rw [Scan.target_api] at hbuild ⊢
  obtain ⟨hleaf, hread⟩ := leaf_of_run hindex hbuild hrun
  obtain ⟨given, hparse, harguments, hsettings⟩ := Leaf.readWords_eq_ok hread
  obtain ⟨-, -, hchoices, hargs⟩ := ofCommand_eq_ok hleaf.made
  obtain ⟨hchoice, hlast⟩ := Leaf.textOf_apiVersion hsettings
  rw [hlocation, hcommand, hversion]
  have hoffered : ∀ v, Leaf.textOf values "api_version" = some v → v ∈ l.location.entry.versions :=
    fun v hv => Version.mem_of_choices hchoices v (hchoice v hv)
  have hiff := locate_iff_chosen hleaf.located hoffered
  -- the words after the segments are those of the command itself
  refine ⟨tail.dropWhile Scan.isSegment, List.takeWhile_append_dropWhile.symm,
    hleaf.located, hleaf.document, hiff, fun hu => hiff.2 ?_⟩
  obtain ⟨hscan, hsome⟩ := hu.optionValue?_eq (hargs ▸ ArgOption.name_notMem_builtin) hparse harguments
  rw [Scan.optionValue?_dropWhile (by decide +kernel), hscan, hlast hsome]

/-! ### A command in two versions -/

/-- A command in two versions, each with the options that commands on a resource have. -/
def shownTwice : Bundle :=
  .ofValues
    (.obj [("commandGroups", .obj [("svc", .obj [("commands", .obj [("show",
      .obj [("versions", .arr [.str "1", .str "2"])])])])])])
    [("svc_show_1", .obj [("argGroups", .arr [.obj []])]),
      ("svc_show_2", .obj [("argGroups", .arr [.obj []])])]

/-- The index of the command. -/
def shownTwiceIndex : Index where
  groups := [("svc", .node none [] [("show", { versions := ["1", "2"] })])]

theorem getIndex_shownTwice : (({} : Cache).getIndex shownTwice).1 = .ok shownTwiceIndex := by
  cbv

/-- The command at its first version. -/
def shownLeaf : Leaf where
  location := ⟨["svc", "show"], "1", { versions := ["1", "2"] }⟩
  command := { argGroups := [{}] }
  choices := ["1", "2"]
  args := []

/-- The tree for the command at its first version. -/
def shownTree : ApiNode := .group "api" (some defaultHelp) [.group "svc" none [.leaf "show" none shownLeaf]]

theorem build_shownTwice : (build shownTwice ["svc", "show"] (some "1")).run.run {} =
    (.ok shownTree, ⟨some shownTwiceIndex, [("svc_show_1", shownLeaf.command)]⟩) := by
  cbv

theorem run_shownTree {own : List String} {values : Leaf.Settings}
    (h : Leaf.readWords shownLeaf.params own = .ok (some values)) :
    shownTree.run path ("svc" :: "show" :: own) = .ok (.leaf shownLeaf values) := by
  have hplain : "svc".startsWith "-" = false ∧ "show".startsWith "-" = false := by decide +kernel
  simp only [shownTree, run, subcommand_of_plain hplain.1, subcommand_of_plain hplain.2, runChild, name,
    if_true, List.isEmpty_cons, Bool.false_eq_true, if_false, runLeaf, h]
  rfl

/-- The last version that is given is used, in either spelling. -/
theorem locate_eq_location_shownTwice :
    let tail := ["svc", "show", "--api-version", "2", "--id", "x", "--api-version=1"]
    ∃ tree c' l values inv,
      (build shownTwice (Scan.target ("api" :: tail)).1 (Scan.target ("api" :: tail)).2).run.run {} =
        (.ok tree, c') ∧
      tree.run ["api"] tail = .ok (.leaf l values) ∧
      l.dispatch (fun _ => .ok "") values = .ok inv ∧ inv.apiVersion = some "1" ∧
      shownTwiceIndex.locate ["svc", "show"] (some "1") = .ok inv.location := by
  intro tail
  have htarget : Scan.target ("api" :: tail) = (["svc", "show"], some "1") := by decide +kernel
  have hread : Leaf.readWords shownLeaf.params ["--api-version", "2", "--id", "x", "--api-version=1"] =
      .ok (some [("api_version", .text "1"), ("id_", .text "x")]) := by
    decide +kernel
  have hbuild : (build shownTwice (Scan.target ("api" :: tail)).1 (Scan.target ("api" :: tail)).2).run.run
      {} = (.ok shownTree, ⟨some shownTwiceIndex, [("svc_show_1", shownLeaf.command)]⟩) := by
    rw [htarget]
    exact build_shownTwice
  have hrun : shownTree.run ["api"] tail =
      .ok (.leaf shownLeaf [("api_version", .text "1"), ("id_", .text "x")]) :=
    run_shownTree hread
  have hdispatch : shownLeaf.dispatch (fun _ => .ok "") [("api_version", .text "1"), ("id_", .text "x")] =
      .ok { location := shownLeaf.location, command := shownLeaf.command,
            supplied := [("api-version", some "1")], resourceId := some "x", apiVersion := some "1" } := by
    rfl
  obtain ⟨own, htail, -, -, -, hlocate⟩ :=
    locate_eq_location_iff getIndex_shownTwice hbuild hrun hdispatch
  rw [htarget] at htail hlocate
  obtain rfl : own = ["--api-version", "2", "--id", "x", "--api-version=1"] := by
    simpa [tail] using htail.symm
  refine ⟨_, _, _, _, _, hbuild, hrun, hdispatch, rfl, hlocate ⟨?_, ?_⟩⟩
  · exact fun o ho => absurd ho List.not_mem_nil
  · decide +kernel

/-- An identifier that looks like a version is taken for one. -/
theorem exists_location_ne_locate :
    ∃ (b : Bundle) (i : Index) (tail path : List String) (tree : ApiNode) (c' : Cache) (l : Leaf)
      (values : Leaf.Settings) (readFile : String → Except Fault String) (inv : Invocation),
      (({} : Cache).getIndex b).1 = .ok i ∧
      (build b (Scan.target ("api" :: tail)).1 (Scan.target ("api" :: tail)).2).run.run {} =
        (.ok tree, c') ∧
      tree.run path tail = .ok (.leaf l values) ∧ l.dispatch readFile values = .ok inv ∧
      i.locate inv.location.segments inv.apiVersion ≠ .ok inv.location := by
  have htarget : Scan.target ("api" :: ["svc", "show", "--id", "--api-version=1"]) =
      (["svc", "show"], some "1") := by
    decide +kernel
  have hread : Leaf.readWords shownLeaf.params ["--id", "--api-version=1"] =
      .ok (some [("id_", .text "--api-version=1")]) := by
    decide +kernel
  refine ⟨shownTwice, shownTwiceIndex, _, ["api"], _, _, _, _, fun _ => .ok "",
    { location := shownLeaf.location, command := shownLeaf.command,
      resourceId := some "--api-version=1" },
    getIndex_shownTwice, by rw [htarget]; exact build_shownTwice, run_shownTree hread, rfl, fun h => ?_⟩
  have hversion := congrArg (fun r => r.toOption.map Location.version) h
  revert hversion
  decide +kernel

end ApiNode

end Restline
