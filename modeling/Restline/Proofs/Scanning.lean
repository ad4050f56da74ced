import Restline.CommandLine.Scan
import Restline.Program.Options
import Restline.Proofs.OptionWords

/-!
A first look at the command line against its grammar. The scan takes every word by itself, so it reads an
option as the grammar does where the flag stands as a word of its own or before an equals sign, and where
no value looks like an option. A letter that gives the option in a group, or with its value attached, is
passed over.

* `Scan.spells` : words that the scan reads as giving an option.
* `Grammar.StandFor` : the flags of an option that takes a value.
* `Grammar.OptionWord.isGrouped` : words that give an option by a letter and are passed over.
* `Grammar.seen` : what is given by words that are not passed over.
* `Scan.optionValue?_optionWords` : **what the scan finds is the last value that a word of its own gives**.
-/

set_option autoImplicit false

namespace Restline

namespace Scan

variable {flags : List String} {word : String}

/-! ### Words that the scan reads -/

theorem startsWith_trans {front flag : String} (h : flag.startsWith front = true)
    (hfront : flag.toList <+: word.toList) : word.startsWith front = true :=
  String.startsWith_string_iff.2 ((String.startsWith_string_iff.1 h).trans hfront)

/-- The word is read as giving an option by one of the flags. -/
def spells (flags : List String) (word : String) : Bool := (valueAt? flags word (some "")).isSome

/-- A word that gives an option for no next word gives it for none. -/
theorem valueAt?_of_spells_eq_false (h : spells flags word = false) :
    flags.contains word = false ∧ ∀ next, valueAt? flags word next = none := by
  simp only [spells, valueAt?, Option.isSome_eq_false_iff, Option.isNone_iff_eq_none,
    Option.or_eq_none_iff] at h
  have hcontains : flags.contains word = false := by
    cases hc : flags.contains word with
    | false => rfl
    | true => rw [hc] at h; exact absurd h.2 (by simp)
  exact ⟨hcontains, fun next => by simp only [valueAt?, h.1, hcontains, Bool.false_eq_true, if_false, Option.or_none]⟩

/-- What looks like none of some options looks like none of fewer. -/
theorem spells_eq_false_of_subset {flags' : List String} (hsub : flags' ⊆ flags)
    (h : spells flags word = false) : spells flags' word = false := by
  obtain ⟨hcontains, hnone⟩ := valueAt?_of_spells_eq_false h
  have hjoined := (Option.or_eq_none_iff.1 (hnone none)).1
  have hjoined' : (flags'.filter (·.startsWith "--")).findSome? (joinedValue? · word) = none :=
    List.findSome?_eq_none_iff.2 fun flag hflag =>
      List.findSome?_eq_none_iff.1 hjoined flag (List.filter_subset _ hsub hflag)
  have hcontains' : flags'.contains word = false := by
    simp only [List.contains_eq_mem, decide_eq_false_iff_not] at hcontains ⊢
    exact fun hmem => hcontains (hsub hmem)
  simp only [spells, valueAt?, hjoined', hcontains', Bool.false_eq_true, if_false, Option.or_none,
    Option.isSome_none]

theorem joinedValue?_eq_none {name : String} (h : ¬ name.toList ++ ['='] <+: word.toList) :
    joinedValue? name word = none := by
  rw [joinedValue?, if_neg]
  rw [String.startsWith_string_iff, String.toList_append]
  exact h

theorem joinedValue?_eq_some {name v : String} (h : word.toList = name.toList ++ '=' :: v.toList) :
    joinedValue? name word = some v := by
  have hfront : word.startsWith (name ++ "=") = true := by
    rw [String.startsWith_string_iff, String.toList_append, h]
    exact ⟨v.toList, by simp⟩
  have hdrop : (word.drop (name.length + 1)).toString = v := by
    rw [← String.toList_inj, String.Slice.toString_eq, String.toList_copy_drop, h, ← String.length_toList,
      List.drop_append]
    simp
  rw [joinedValue?, if_pos hfront, hdrop]

/-- A word that no flag goes before with an equals sign counts only if it is a flag. -/
theorem valueAt?_of_not_joined
    (h : ∀ flag ∈ flags, flag.startsWith "--" = true → ¬ flag.toList ++ ['='] <+: word.toList)
    (next : Option String) : valueAt? flags word next = if flags.contains word then next else none := by
  have hnone : (flags.filter (·.startsWith "--")).findSome? (joinedValue? · word) = none := by
    rw [List.findSome?_eq_none_iff]
    intro flag hflag
    obtain ⟨hmem, hlong⟩ := List.mem_filter.1 hflag
    exact joinedValue?_eq_none (h flag hmem hlong)
  simp only [valueAt?, hnone, Option.none_or]

/-- A word with one dash, or none, counts only if it is a flag. -/
theorem valueAt?_of_short (hword : word.startsWith "--" = false) (next : Option String) :
    valueAt? flags word next = if flags.contains word then next else none := by
  refine valueAt?_of_not_joined (fun flag _ hlong hfront => ?_) next
  have hwordlong := startsWith_trans hlong ((List.prefix_append _ _).trans hfront)
  rw [hword] at hwordlong
  cases hwordlong

/-- A value behind a flag and an equals sign counts, where no other flag goes before the sign. -/
theorem valueAt?_of_joined {flag v : String} (hflag : flag ∈ flags) (hlong : flag.startsWith "--" = true)
    (hword : word.toList = flag.toList ++ '=' :: v.toList)
    (h : ∀ flag' ∈ flags, flag'.toList ++ ['='] <+: word.toList → flag' = flag) (next : Option String) :
    valueAt? flags word next = some v := by
  have hfound : (flags.filter (·.startsWith "--")).findSome? (joinedValue? · word) = some v := by
    cases hjoined : (flags.filter (·.startsWith "--")).findSome? (joinedValue? · word) with
    | none =>
        have hnone := List.findSome?_eq_none_iff.1 hjoined flag (List.mem_filter.2 ⟨hflag, hlong⟩)
        rw [joinedValue?_eq_some hword] at hnone
        cases hnone
    | some u =>
        obtain ⟨flag', hmem, hu⟩ := List.exists_of_findSome?_eq_some hjoined
        have hfront : flag'.toList ++ ['='] <+: word.toList := by
          by_contra hnot
          rw [joinedValue?_eq_none hnot] at hu
          cases hu
        rw [h flag' (List.mem_filter.1 hmem).1 hfront, joinedValue?_eq_some hword] at hu
        exact hu.symm
  simp only [valueAt?, hfound, Option.some_or]

/-- A word without an equals sign counts only if it is a flag. -/
theorem valueAt?_of_notMem (h : '=' ∉ word.toList) (next : Option String) :
    valueAt? flags word next = if flags.contains word then next else none :=
  valueAt?_of_not_joined (fun flag _ _ hfront => h (hfront.mem (by simp))) next

/-! ### The end of the options -/

/-- A word that takes a value is passed over with it, any other option by itself. -/
theorem apiPosition?_cons (word : String) (rest : List String) :
    apiPosition? (word :: rest) =
      if valueOptions.contains word then
        match rest with
        | [] => none
        | _ :: rest => (apiPosition? rest).map (· + 2)
      else if word.startsWith "-" then (apiPosition? rest).map (· + 1)
      else if word = "api" then some 0
      else none :=
  apiPosition?.eq_def (word :: rest)

theorem apiPosition?_value {word value : String} (h : word ∈ valueOptions) (rest : List String) :
    apiPosition? (word :: value :: rest) = (apiPosition? rest).map (· + 2) := by
  rw [apiPosition?_cons, if_pos (List.contains_iff_mem.2 h)]

theorem apiPosition?_option {word : String} (h : word ∉ valueOptions) (hdash : word.startsWith "-" = true)
    (rest : List String) : apiPosition? (word :: rest) = (apiPosition? rest).map (· + 1) := by
  rw [apiPosition?_cons, if_neg (by simpa using h), if_pos hdash]

/-- The scan does not get past a word without a dash. -/
theorem apiPosition?_ne_succ {word : String} (h : word ∉ valueOptions) (hdash : word.startsWith "-" = false)
    (rest : List String) (n : Nat) : apiPosition? (word :: rest) ≠ some (n + 1) := by
  rw [apiPosition?_cons, if_neg (by simpa using h), hdash, if_neg Bool.false_ne_true]
  split
  · exact fun h => absurd (Option.some_inj.1 h) (Nat.succ_ne_zero n).symm
  · exact nofun

theorem apiPosition?_api (rest : List String) : apiPosition? ("api" :: rest) = some 0 := by
  rw [apiPosition?_cons, if_neg (by decide +kernel), if_neg (by decide +kernel), if_pos rfl]

end Scan

namespace Grammar

/-! ### Flags of an option -/

/-- The flags stand for the option of a name and for no other; the option takes a value. A flag is a dash
and a letter, or it begins with two dashes and goes on; no equals sign is in it. -/
structure StandFor (specs : List OptionSpec) (flags : List String) (name : String) : Prop where
  found : ∀ flag ∈ flags, ∃ o, find? specs flag = some o
  name_iff : ∀ flag o, find? specs flag = some o → (flag ∈ flags ↔ o.name = name)
  takesValue : ∀ flag o, find? specs flag = some o → o.name = name → o.takesValue = true
  plain : ∀ flag ∈ flags, '=' ∉ flag.toList
  shape : ∀ flag ∈ flags, flag ≠ "--" ∧ (flag.startsWith "--" = true ∨ flag.length = 2)

/-- No flag but the one in front of the equals sign can count. -/
theorem StandFor.eq_of_joined {specs : List OptionSpec} {flags : List String} {name : String}
    (hs : StandFor specs flags name) {flag word v : String} (hflag : IsLong flag)
    (hword : word.toList = flag.toList ++ '=' :: v.toList) :
    ∀ flag' ∈ flags, flag'.toList ++ ['='] <+: word.toList → flag' = flag := by
  intro flag' hflag' hfront
  obtain ⟨tail, htail⟩ := hfront
  have heq : word.toList = flag'.toList ++ '=' :: (String.ofList tail).toList := by
    rw [← htail, String.toList_ofList, List.append_assoc, List.singleton_append]
  have hsplit := Text.headAndTail_of_eq heq (hs.plain _ hflag')
  rw [Text.headAndTail_of_eq hword hflag.1] at hsplit
  exact (Prod.mk.inj hsplit).1.symm

/-- Whether flags stand for an option can be looked up in the list of options. -/
theorem StandFor.of_specs {specs : List OptionSpec} {flags : List String} {name : String}
    (hfound : ∀ flag ∈ flags, (find? specs flag).isSome = true)
    (hspecs : ∀ o ∈ specs, ∀ flag ∈ o.flags,
      (flag ∈ flags ↔ o.name = name) ∧ (o.name = name → o.takesValue = true))
    (hflags : ∀ flag ∈ flags, '=' ∉ flag.toList ∧ flag ≠ "--" ∧
      (flag.startsWith "--" = true ∨ flag.length = 2)) : StandFor specs flags name where
  found flag hflag := Option.isSome_iff_exists.1 (hfound flag hflag)
  name_iff flag o ho := (hspecs o (mem_of_find? ho).1 flag (mem_of_find? ho).2).1
  takesValue flag o ho := (hspecs o (mem_of_find? ho).1 flag (mem_of_find? ho).2).2
  plain flag hflag := (hflags flag hflag).1
  shape flag hflag := (hflags flag hflag).2

namespace OptionWord

/-- The word gives the option by a letter, but not as a word of its own: other letters stand before that
one, or the value is attached to it. -/
def isGrouped (flags : List String) (name : String) (w : OptionWord) : Bool :=
  w.given.any (fun g => g.1 == name) && !w.word.startsWith "--" && !flags.contains w.word

variable {specs : List OptionSpec} {flags : List String} {name : String} {w : OptionWord}

/-- The option is given with a value only. -/
theorem isSome_of_mem_given (hs : StandFor specs flags name) (hw : w.IsRead specs) :
    ∀ g ∈ w.given, g.1 = name → g.2.isSome = true := by
  intro g hg hname
  cases hw with
  | joined ho hflag hword ht =>
      obtain rfl := List.mem_singleton.1 hg
      rfl
  | separate ho hflag ht =>
      obtain rfl := List.mem_singleton.1 hg
      rfl
  | bare ho hflag ht =>
      obtain rfl := List.mem_singleton.1 hg
      exact absurd (hs.takesValue _ _ ho hname) (by simp [ht])
  | letters hword h =>
      obtain ⟨c, o, ho, hgo, hsome⟩ := (parseLetters_cases h).1 g hg
      rw [hsome]
      exact hs.takesValue _ _ ho (hgo.symm.trans hname)

/-- A flag that is a word of its own has the next word for its value. -/
theorem value_of_mem (hs : StandFor specs flags name) (hoption : isOption w.word = true)
    (hw : w.IsRead specs) (hmem : w.word ∈ flags) :
    ∃ v, w.value = some v ∧ w.given = [(name, some v)] := by
  cases hw with
  | joined ho hflag hword ht =>
      exact absurd (hword ▸ List.mem_append_right _ List.mem_cons_self) (hs.plain _ hmem)
  | separate ho hflag ht => exact ⟨_, rfl, by rw [(hs.name_iff _ _ ho).1 hmem]⟩
  | bare ho hflag ht =>
      exact absurd (hs.takesValue _ _ ho ((hs.name_iff _ _ ho).1 hmem)) (by simp [ht])
  | @letters word value gs rest hword h =>
      rcases (hs.shape _ hmem).2 with hlong | hlength
      · exact absurd hlong (by simp [hword])
      obtain ⟨c, hc⟩ : ∃ c, word.toList = ['-', c] := by
        have hdash : "-".toList <+: word.toList :=
          String.startsWith_string_iff.1 (Bool.and_eq_true_iff.1 hoption).1
        obtain ⟨more, hmore⟩ := hdash
        rw [← String.length_toList, ← hmore] at hlength
        match more, hlength with
        | [c], _ => exact ⟨c, hmore.symm⟩
      obtain ⟨o, ho⟩ := hs.found _ hmem
      have hname := (hs.name_iff _ _ ho).1 hmem
      have ht := hs.takesValue _ _ ho hname
      have hflag : String.ofList ['-', c] = word := by rw [← hc, String.ofList_toList]
      rw [hc, List.drop_succ_cons, List.drop_zero, parseLetters, hflag] at h
      simp only [ho, ht, if_true] at h
      cases value with
      | some v =>
          obtain ⟨rfl, -⟩ := Prod.mk.inj (Except.ok.inj h)
          exact ⟨v, rfl, by rw [hname]⟩
      | none =>
          -- without a next word the words that are left could not be as many as before
          cases rest with
          | nil => cases h
          | cons v rest => exact absurd (congrArg List.length (Prod.mk.inj (Except.ok.inj h)).2) (by simp)

/-- **What the scan finds at a word** is what the word gives, unless a letter gives it in a group. -/
theorem valueAt?_word (hs : StandFor specs flags name) (hoption : isOption w.word = true)
    (hw : w.IsRead specs) (rest : List String) :
    Scan.valueAt? flags w.word (w.value.toList ++ rest).head? =
      if w.isGrouped flags name then none else lastValue? w.given name := by
  by_cases hmem : w.word ∈ flags
  · obtain ⟨v, hv, hgiven⟩ := value_of_mem hs hoption hw hmem
    have hgrouped : w.isGrouped flags name = false := by simp [isGrouped, hmem]
    rw [Scan.valueAt?_of_notMem (hs.plain _ hmem), List.contains_iff_mem.2 hmem, hv, hgiven, hgrouped]
    simp [lastValue?]
  · have hcontains : flags.contains w.word = false := by simpa using hmem
    cases hw with
    | @joined o flag word v ho hflag hword ht =>
        have hhead := hs.eq_of_joined hflag hword
        by_cases hflags : flag ∈ flags
        · have hlong : flag.startsWith "--" = true :=
            (hs.shape _ hflags).2.resolve_right fun h => (hs.shape _ hflags).1 (hflag.2 h)
          have hwordlong := Scan.startsWith_trans hlong (hword ▸ List.prefix_append _ _)
          have hv : Scan.valueAt? flags word (none.toList ++ rest).head? = some v :=
            Scan.valueAt?_of_joined hflags hlong hword hhead _
          rw [hv]
          simp [isGrouped, hwordlong, (hs.name_iff _ _ ho).1 hflags, lastValue?]
        · have hname := mt (hs.name_iff _ _ ho).2 hflags
          rw [Scan.valueAt?_of_not_joined
            fun flag' hmem _ hfront => hflags (hhead _ hmem hfront ▸ hmem)]
          simp [isGrouped, hmem, hname, lastValue?]
    | separate ho hflag ht =>
        have hname := mt (hs.name_iff _ _ ho).2 hmem
        rw [Scan.valueAt?_of_notMem hflag.1]
        simp [isGrouped, hmem, hname, lastValue?]
    | bare ho hflag ht =>
        have hname := mt (hs.name_iff _ _ ho).2 hmem
        rw [Scan.valueAt?_of_notMem hflag.1]
        simp [isGrouped, hmem, hname, lastValue?]
    | @letters word value gs rest hword h =>
        rw [Scan.valueAt?_of_short hword, hcontains, if_neg Bool.false_ne_true]
        cases hany : gs.any (fun g => g.1 == name) with
        | true => simp only [isGrouped, hany, hword, hcontains, Bool.not_false, Bool.and_self, if_true]
        | false =>
            have hnone : ∀ g ∈ gs, g.1 ≠ name := by simpa using hany
            rw [lastValue?_eq_none hnone, ite_self]

/-- An option without a letter of its own is never passed over. -/
theorem isGrouped_eq_false (hs : StandFor specs flags name)
    (hlong : ∀ flag ∈ flags, flag.startsWith "--" = true) (hw : w.IsRead specs) :
    w.isGrouped flags name = false := by
  have hflag : ∀ {flag : String} {o : OptionSpec}, find? specs flag = some o → o.name = name →
      flag.startsWith "--" = true := fun ho hname => hlong _ ((hs.name_iff _ _ ho).2 hname)
  cases hw with
  | @joined o flag word v ho hf hword ht =>
      by_cases hname : o.name = name
      · have hwordlong := Scan.startsWith_trans (hflag ho hname) (hword ▸ List.prefix_append _ _)
        simp [isGrouped, hwordlong]
      · simp [isGrouped, hname]
  | @separate o flag v ho hf ht =>
      by_cases hname : o.name = name
      · simp [isGrouped, hflag ho hname]
      · simp [isGrouped, hname]
  | @bare o flag ho hf ht =>
      by_cases hname : o.name = name
      · simp [isGrouped, hflag ho hname]
      · simp [isGrouped, hname]
  | @letters word value gs rest hword h =>
      have hnone : gs.any (fun g => g.1 == name) = false := by
        rw [List.any_eq_false]
        intro g hg
        obtain ⟨c, o, ho, hgo, -⟩ := (parseLetters_cases h).1 g hg
        rw [beq_iff_eq, hgo]
        intro hname
        -- a letter that makes a flag with two dashes would be a dash itself
        have hdashes := String.startsWith_string_iff.1 (hflag ho hname)
        exact (hs.shape _ ((hs.name_iff _ _ ho).2 hname)).1
          (String.toList_inj.1 (hdashes.eq_of_length (by simp)).symm)
      simp [isGrouped, hnone]

end OptionWord

/-! ### The last value -/

variable {specs : List OptionSpec} {flags : List String} {name : String}

/-- The words are option words as they were read. -/
def AreRead (specs : List OptionSpec) (ws : List OptionWord) : Prop :=
  ∀ w ∈ ws, isOption w.word = true ∧ w.word ≠ "--" ∧ w.IsRead specs

theorem areRead_optionWords (specs : List OptionSpec) (words : List String) :
    AreRead specs (optionWords specs words) :=
  fun _ hw => isRead_of_mem_optionWords hw

/-- No word that is the value of an option looks as if it gave one by the flags. -/
def ValuesPlain (flags : List String) (ws : List OptionWord) : Prop :=
  ∀ w ∈ ws, ∀ v ∈ w.value, Scan.spells flags v = false

instance (flags : List String) (ws : List OptionWord) : Decidable (ValuesPlain flags ws) := by
  unfold ValuesPlain
  infer_instance

/-- What is given by words that are not passed over. -/
def seen (flags : List String) (name : String) (ws : List OptionWord) : List Given :=
  (ws.filter fun w => !w.isGrouped flags name).flatMap (·.given)

theorem ValuesPlain.of_subset {flags' : List String} {ws : List OptionWord} (hsub : flags' ⊆ flags)
    (h : ValuesPlain flags ws) : ValuesPlain flags' ws :=
  fun w hw v hv => Scan.spells_eq_false_of_subset hsub (h w hw v hv)

/-- Nothing is passed over of an option without a letter of its own. -/
theorem seen_eq_flatMap (hs : StandFor specs flags name)
    (hlong : ∀ flag ∈ flags, flag.startsWith "--" = true) {ws : List OptionWord}
    (hws : AreRead specs ws) : seen flags name ws = ws.flatMap (·.given) := by
  rw [seen, List.filter_eq_self.2]
  intro w hw
  rw [OptionWord.isGrouped_eq_false hs hlong (hws w hw).2.2, Bool.not_false]

end Grammar

namespace Scan

open Grammar

variable {specs : List OptionSpec} {flags : List String} {name : String}

/-- **What the scan finds is the last value that a word of its own gives**: it passes over letters in
groups, and finds what follows the option words if that gives a value. -/
theorem optionValue?_optionWords (hs : StandFor specs flags name) {ws : List OptionWord}
    (hws : AreRead specs ws) (hvalues : ValuesPlain flags ws) (rest : List String) :
    optionValue? flags (ws.flatMap OptionWord.words ++ rest) =
      (optionValue? flags rest).or (lastValue? (seen flags name ws) name) := by
  induction ws with
  | nil => simp [seen, lastValue?]
  | cons w ws ih =>
      obtain ⟨hw, hws⟩ := List.forall_mem_cons.1 hws
      obtain ⟨hv, hvalues⟩ := List.forall_mem_cons.1 hvalues
      have hskip : ∀ after, optionValue? flags (w.value.toList ++ after) = optionValue? flags after := by
        intro after
        cases hvalue : w.value with
        | none => rfl
        | some v =>
            have hnone := (valueAt?_of_spells_eq_false (hv v hvalue)).2
            simp only [Option.toList_some, List.singleton_append, optionValue?, hnone, Option.or_none]
      have hword := OptionWord.valueAt?_word hs hw.1 hw.2.2 (ws.flatMap OptionWord.words ++ rest)
      rw [List.flatMap_cons, OptionWord.words, List.cons_append, List.cons_append, List.append_assoc,
        optionValue?, hskip,
        hword, ih hws hvalues, Option.or_assoc]
      congr 1
      cases hgrouped : w.isGrouped flags name with
      | true => simp [seen, hgrouped]
      | false =>
          have hsome : ∀ g ∈ seen flags name ws, g.1 = name → g.2.isSome = true := by
            intro g hg hname
            obtain ⟨w', hw', hgiven⟩ := List.mem_flatMap.1 hg
            exact OptionWord.isSome_of_mem_given hs (hws w' (List.mem_filter.1 hw').1).2.2 g hgiven hname
          have hcons : seen flags name (w :: ws) = w.given ++ seen flags name ws := by
            simp [seen, hgrouped]
          rw [hcons, lastValue?_append hsome]
          rfl

/-- What is in front of the arguments is no option that the scan looks for. -/
theorem optionValue?_dashes {front : List String} (hflags : "--" ∉ flags)
    (hfront : front = [] ∨ front = ["--"]) : optionValue? flags front = none := by
  rcases hfront with rfl | rfl
  · rfl
  · have hnot : '=' ∉ "--".toList := by decide
    simp [optionValue?, valueAt?_of_notMem hnot, hflags]

end Scan

end Restline
