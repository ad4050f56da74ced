import Restline.Proofs.Scanning

/-!
The options of the program as the first look at the command line finds them. The tree of commands is made
before the command line is parsed, for the profile, the endpoint and the documents that the scan finds
before the word `api`. It finds what the parser reads unless a letter in a group has the last say on the
profile; and it finds the word itself unless such a letter takes a word for its value that has no dash.

* `Scan.standFor_profile`, `Scan.standFor_endpoint`, `Scan.standFor_metadata` : the flags of the options.
* `Scan.apiPosition?_optionWords` : where the scan finds the end of the options.
* `Scan.Agrees` : the scan finds what the parser reads.
* `Scan.agrees_iff` : **when the scan finds what the parser reads**.
-/

set_option autoImplicit false

namespace Restline

open Grammar

/-! ### The options of the program -/

deriving instance DecidableEq for Before

namespace Scan

/-- The flags of the profile. -/
def profileFlags : List String := ["--profile", "-p"]

theorem standFor_profile : StandFor ProgramOptions.specs profileFlags "profile" :=
  .of_specs (by decide +kernel) (by decide +kernel) (by decide +kernel)

theorem standFor_endpoint : StandFor ProgramOptions.specs ["--endpoint"] "endpoint" :=
  .of_specs (by decide +kernel) (by decide +kernel) (by decide +kernel)

theorem standFor_metadata : StandFor ProgramOptions.specs ["--metadata"] "metadata" :=
  .of_specs (by decide +kernel) (by decide +kernel) (by decide +kernel)

/-! ### The end of the options -/

variable {w : OptionWord} {ws : List OptionWord}

/-- The word gives the profile by a letter and is passed over. -/
abbrev isPassedOver (w : OptionWord) : Bool := w.isGrouped profileFlags "profile"

/-- An option of the scan that is a word of its own has a value, and is not passed over. -/
theorem value_of_mem_valueOptions (hoption : isOption w.word = true)
    (hw : w.IsRead ProgramOptions.specs) (hmem : w.word ∈ valueOptions) :
    (∃ v, w.value = some v) ∧ isPassedOver w = false := by
  by_cases hprofile : w.word ∈ profileFlags
  · obtain ⟨v, hv, -⟩ := OptionWord.value_of_mem standFor_profile hoption hw hprofile
    exact ⟨⟨v, hv⟩, by simp [isPassedOver, OptionWord.isGrouped, hprofile]⟩
  have hcases : w.word ∈ ["--endpoint"] ∨ w.word ∈ ["--metadata"] := by
    simp only [valueOptions, profileFlags, List.mem_cons, List.not_mem_nil, or_false] at hmem hprofile ⊢
    tauto
  rcases hcases with hendpoint | hmetadata
  · obtain ⟨v, hv, hgiven⟩ := OptionWord.value_of_mem standFor_endpoint hoption hw hendpoint
    exact ⟨⟨v, hv⟩, by simp [isPassedOver, OptionWord.isGrouped, hgiven]⟩
  · obtain ⟨v, hv, hgiven⟩ := OptionWord.value_of_mem standFor_metadata hoption hw hmetadata
    exact ⟨⟨v, hv⟩, by simp [isPassedOver, OptionWord.isGrouped, hgiven]⟩

/-- Only the options that the scan knows take a value, and only the profile has a letter. -/
theorem valueOptions_of_takesValue : ∀ o ∈ ProgramOptions.specs, ∀ flag ∈ o.flags, o.takesValue = true →
    flag ∈ valueOptions ∧ (flag.length = 2 → o.name = "profile") := by
  decide +kernel

/-- A word that takes the next one without being a flag of its own gives the profile by a letter. -/
theorem isPassedOver_of_value (hw : w.IsRead ProgramOptions.specs) (hmem : w.word ∉ valueOptions)
    {v : String} (hv : w.value = some v) : isPassedOver w = true := by
  cases hw with
  | joined ho hflag hword ht => cases hv
  | bare ho hflag ht => cases hv
  | separate ho hflag ht =>
      obtain ⟨ho, hf⟩ := mem_of_find? ho
      exact absurd (valueOptions_of_takesValue _ ho _ hf ht).1 hmem
  | @letters word value gs rest hword h =>
      obtain rfl : value = some v := hv
      rcases (parseLetters_cases h).2 with heq | ⟨v', c, o, heq, ho, ht, hgiven⟩
      · exact absurd (congrArg List.length heq) (by simp)
      · obtain ⟨rfl, -⟩ := List.cons.inj heq
        obtain ⟨hos, hf⟩ := mem_of_find? ho
        have hlength : (String.ofList ['-', c]).length = 2 := by
          rw [← String.length_toList, String.toList_ofList]
          rfl
        have hname := (valueOptions_of_takesValue _ hos _ hf ht).2 hlength
        have hflags : word ∉ profileFlags := fun hp => hmem (List.mem_append_left _ hp)
        have hany : gs.any (fun g => g.1 == "profile") = true :=
          List.any_eq_true.2 ⟨_, hgiven, by simp [hname]⟩
        simp [isPassedOver, OptionWord.isGrouped, hword, hflags, hany]

theorem map_add_eq_some_iff {x : Option Nat} {k n : Nat} : x.map (· + k) = some (n + k) ↔ x = some n := by
  cases x <;> simp

/-- **Where the scan finds the end of the options.** It keeps step with the parser exactly if every word
that a letter in a group takes for the profile has a dash of its own. -/
theorem apiPosition?_optionWords (hws : AreRead ProgramOptions.specs ws)
    (hvalues : ∀ w ∈ ws, ∀ v ∈ w.value, v ∉ valueOptions) (rest : List String) (n : Nat) :
    apiPosition? (ws.flatMap OptionWord.words ++ rest) =
        some (n + (ws.flatMap OptionWord.words).length) ↔
      apiPosition? rest = some n ∧
        ∀ w ∈ ws, isPassedOver w = true → ∀ v ∈ w.value, v.startsWith "-" = true := by
  induction ws with
  | nil => simp
  | cons w ws ih =>
      obtain ⟨⟨hoption, -, hw⟩, hws⟩ := List.forall_mem_cons.1 hws
      obtain ⟨hv, hvalues⟩ := List.forall_mem_cons.1 hvalues
      have ih := ih hws hvalues
      have hdash : w.word.startsWith "-" = true := (Bool.and_eq_true_iff.1 hoption).1
      rw [List.forall_mem_cons, and_left_comm, ← ih, List.flatMap_cons, OptionWord.words]
      generalize ws.flatMap OptionWord.words = words
      by_cases hmem : w.word ∈ valueOptions
      · obtain ⟨⟨v, hvalue⟩, hpassed⟩ := value_of_mem_valueOptions hoption hw hmem
        have hcount : n + (w.word :: v :: words).length = n + words.length + 2 := rfl
        simp only [hvalue, Option.toList_some, List.cons_append, List.nil_append, hcount,
          apiPosition?_value hmem, map_add_eq_some_iff, hpassed, Bool.false_eq_true, false_imp_iff,
          true_and]
      · cases hvalue : w.value with
        | none =>
            have hcount : n + (w.word :: words).length = n + words.length + 1 := rfl
            simp only [Option.toList_none, List.cons_append, List.nil_append, hcount,
              apiPosition?_option hmem hdash, map_add_eq_some_iff, Option.not_mem_none, false_imp_iff,
              forall_const, implies_true, true_and]
        | some v =>
            have hpassed := isPassedOver_of_value hw hmem hvalue
            have hother : v ∉ valueOptions := hv v hvalue
            have hcount : n + (w.word :: v :: words).length = n + words.length + 1 + 1 := rfl
            simp only [Option.toList_some, List.cons_append, List.nil_append, hcount,
              apiPosition?_option hmem hdash, map_add_eq_some_iff, hpassed, forall_const,
              Option.mem_some_iff, forall_eq']
            -- without a dash the scan stops at the value, before the end of the options
            cases hvdash : v.startsWith "-" with
            | true => simp only [apiPosition?_option hother hvdash, map_add_eq_some_iff, true_and]
            | false =>
                simp only [apiPosition?_ne_succ hother hvdash, Bool.false_eq_true, false_and]

/-! ### What the parser reads -/

theorem apiPosition?_dashes {front : List String} (hfront : front = [] ∨ front = ["--"])
    (rest : List String) : apiPosition? (front ++ "api" :: rest) = some front.length := by
  rcases hfront with rfl | rfl
  · exact apiPosition?_api rest
  · have hdashes := @apiPosition?_option "--" (by decide +kernel) (by decide +kernel)
    rw [List.singleton_append, hdashes, apiPosition?_api]
    rfl

/-- The scan finds the word `api` behind the words in front, and in these the options that were read. -/
structure Agrees (words front : List String) (o : ProgramOptions) : Prop where
  position : apiPosition? words = some front.length
  profile : optionValue? profileFlags front = o.profile
  endpoint : optionValue? ["--endpoint"] front = o.endpoint
  metadata : optionValue? ["--metadata"] front = o.metadata

/-- **When the scan finds what the parser reads.** Where no value looks like an option that the scan knows,
it finds the endpoint and the documents in every case. It finds the word `api` exactly if no letter in a
group takes a word without a dash for the profile, and the profile exactly if no such letter has the last
say on it. -/
theorem agrees_iff {words : List String} {before : Before}
    (h : subcommand ProgramOptions.specs ProgramOptions.actions words = .ok (.inr before))
    (hcommand : before.command = "api")
    (hvalues : ValuesPlain valueOptions (optionWords ProgramOptions.specs words)) :
    ∃ front, words = front ++ "api" :: before.rest ∧
      (Agrees words front (.ofParsed before.options) ↔
        (∀ w ∈ optionWords ProgramOptions.specs words, isPassedOver w = true →
            ∀ v ∈ w.value, v.startsWith "-" = true) ∧
          lastValue? (seen profileFlags "profile" (optionWords ProgramOptions.specs words)) "profile" =
            before.options.value? "profile") := by
  obtain ⟨hparse, harguments⟩ := parse_of_subcommand h
  rw [hcommand] at harguments
  obtain ⟨hgiven, left, hwords, hleft⟩ := parse_eq_optionWords hparse (.inl rfl)
  have hread := areRead_optionWords ProgramOptions.specs words
  generalize optionWords ProgramOptions.specs words = ws at hvalues hgiven hwords hread ⊢
  -- the options may end with two dashes
  obtain ⟨dashes, hdashes, rfl⟩ : ∃ dashes : List String,
      (dashes = [] ∨ dashes = ["--"]) ∧ left = dashes ++ "api" :: before.rest := by
    rcases hleft with rfl | rfl
    · exact ⟨[], .inl rfl, harguments⟩
    · exact ⟨["--"], .inr rfl, congrArg _ harguments⟩
  have hposition := apiPosition?_optionWords hread
    (fun w hw v hv hmem => by
      have hnot := (valueAt?_of_spells_eq_false (hvalues w hw v hv)).1
      rw [List.contains_iff_mem.2 hmem] at hnot
      cases hnot)
    (dashes ++ "api" :: before.rest) dashes.length
  rw [apiPosition?_dashes hdashes, eq_self_iff_true, true_and, ← hwords] at hposition
  have hfound : ∀ {flags name}, StandFor ProgramOptions.specs flags name → flags ⊆ valueOptions →
      optionValue? flags (ws.flatMap OptionWord.words ++ dashes) = lastValue? (seen flags name ws) name := by
    intro flags name hs hsub
    have hnot : "--" ∉ flags := fun hmem => (hs.shape _ hmem).1 rfl
    rw [optionValue?_optionWords hs hread (hvalues.of_subset hsub), optionValue?_dashes hnot hdashes,
      Option.none_or]
  have hlength : (ws.flatMap OptionWord.words ++ dashes).length =
      dashes.length + (ws.flatMap OptionWord.words).length := by
    rw [List.length_append, Nat.add_comm]
  have hprofile := hfound standFor_profile (by decide +kernel)
  have hendpoint := hfound standFor_endpoint (by decide +kernel)
  have hmetadata := hfound standFor_metadata (by decide +kernel)
  rw [seen_eq_flatMap standFor_endpoint (by decide +kernel) hread, ← hgiven] at hendpoint
  rw [seen_eq_flatMap standFor_metadata (by decide +kernel) hread, ← hgiven] at hmetadata
  refine ⟨ws.flatMap OptionWord.words ++ dashes, by rw [List.append_assoc, ← hwords], ?_⟩
  rw [← hposition, ← hprofile, ← hlength]
  constructor
  · intro hagrees
    exact ⟨hagrees.position, hagrees.profile⟩
  · rintro ⟨hpos, hprof⟩
    exact ⟨hpos, hprof, hendpoint, hmetadata⟩

/-- A command line with the profile in three spellings; the letter in the group takes a word with a dash. -/
def spellings : List String :=
  ["-q", "--profile", "a", "-vp", "-x", "--profile=b", "--endpoint", "e", "--", "api", "resources"]

theorem agrees_spellings : ∃ before front,
    subcommand ProgramOptions.specs ProgramOptions.actions spellings = .ok (.inr before) ∧
      before.command = "api" ∧ spellings = front ++ "api" :: before.rest ∧
      Agrees spellings front (.ofParsed before.options) := by
  let before : Before := {
    options := {
      options := [("quiet", none), ("profile", some "a"), ("verbose", none), ("profile", some "-x"),
        ("profile", some "b"), ("endpoint", some "e")]
      arguments := ["api", "resources"] }
    command := "api"
    rest := ["resources"] }
  have h : subcommand ProgramOptions.specs ProgramOptions.actions spellings = .ok (.inr before) := by
    decide +kernel
  obtain ⟨front, hwords, hagrees⟩ := agrees_iff h rfl (by decide +kernel)
  exact ⟨before, front, h, rfl, hwords, hagrees.2 ⟨by decide +kernel, by decide +kernel⟩⟩

/-- A profile that is attached to its letter is passed over. -/
theorem exists_not_agrees : ∃ words before,
    subcommand ProgramOptions.specs ProgramOptions.actions words = .ok (.inr before) ∧
      before.command = "api" ∧ ∀ front, words = front ++ "api" :: before.rest →
        ¬ Agrees words front (.ofParsed before.options) := by
  refine ⟨["-pprod", "api"], ⟨⟨[("profile", some "prod")], ["api"]⟩, "api", []⟩, by decide +kernel, rfl, ?_⟩
  intro front hwords hagrees
  obtain rfl : front = ["-pprod"] := by simpa using (List.append_cancel_right hwords).symm
  have hprofile := hagrees.profile
  revert hprofile
  decide +kernel

end Scan

end Restline
