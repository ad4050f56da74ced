import Mathlib.Data.List.TakeDrop
import Mathlib.Data.List.TakeWhile
import Restline.CommandLine.Grammar
import Restline.Proofs.Results

/-!
Words that give options. What the grammar takes from the front of a command line are words that give
options, some of them with the next word for a value; then come the arguments. One such word gives one
long option, or the options of its letters, of which only the last can have a value.

* `Grammar.OptionWord`, `Grammar.optionWords` : the words that give options, each with its value word.
* `Grammar.IsReadOff`, `Grammar.parse_eq_optionWords` : **what a command line gives is what its option words
  give**.
* `Grammar.parse_of_plain`, `Grammar.subcommand_of_plain` : words without a dash in front.
* `Grammar.OptionWord.IsRead`, `Grammar.isRead_of_mem_optionWords` : what is known of one such word.
* `Grammar.lastValue?` : the last value of an option among those that are given.
-/

set_option autoImplicit false

namespace Restline

/-! ### Texts with an equals sign -/

namespace Text

variable {c : Char} {s head tail : String}

/-- A text without the character is all head. -/
theorem headAndTail_of_notMem (h : c ∉ s.toList) : headAndTail c s = (s, none) := by
  have hspan : s.toList.span (· != c) = (s.toList, []) := by
    rw [List.span_eq_takeWhile_dropWhile, List.takeWhile_eq_self_iff.2, List.dropWhile_eq_nil_iff.2]
    all_goals exact fun x hx => bne_iff_ne.2 fun hxc => h (hxc ▸ hx)
  rw [headAndTail, hspan]

/-- A head without the character, the character, and a tail. -/
theorem headAndTail_of_eq (hs : s.toList = head.toList ++ c :: tail.toList) (h : c ∉ head.toList) :
    headAndTail c s = (head, some tail) := by
  have hall : ∀ x ∈ head.toList, (x != c) = true := fun x hx => bne_iff_ne.2 fun hxc => h (hxc ▸ hx)
  have hspan : s.toList.span (· != c) = (head.toList, c :: tail.toList) := by
    rw [List.span_eq_takeWhile_dropWhile, hs, List.takeWhile_append_of_pos hall,
      List.dropWhile_append_of_pos hall]
    simp
  simp only [headAndTail, hspan, String.ofList_toList]

/-- A text is all head, or a head without the character, the character and a tail. -/
theorem headAndTail_cases (c : Char) (s : String) :
    (c ∉ s.toList ∧ headAndTail c s = (s, none)) ∨
      ∃ head tail : String, s.toList = head.toList ++ c :: tail.toList ∧ c ∉ head.toList ∧
        headAndTail c s = (head, some tail) := by
  by_cases hc : c ∈ s.toList
  · obtain ⟨front, back, hs, hfront⟩ := List.eq_append_cons_of_mem hc
    have heq : s.toList = (String.ofList front).toList ++ c :: (String.ofList back).toList := by
      simpa using hs
    have hnot : c ∉ (String.ofList front).toList := by simpa using hfront
    exact .inr ⟨_, _, heq, hnot, headAndTail_of_eq heq hnot⟩
  · exact .inl ⟨hc, headAndTail_of_notMem hc⟩

/-- The head stands at the front of the text. -/
theorem prefix_fst_headAndTail (c : Char) (s : String) : (headAndTail c s).1.toList <+: s.toList := by
  rcases headAndTail_cases c s with ⟨-, hsplit⟩ | ⟨head, tail, hs, -, hsplit⟩
  · simp [hsplit]
  · rw [hsplit, hs]
    exact List.prefix_append _ _

end Text

namespace Grammar

/-! ### Option words -/

/-- A word that gives options, with the next word if that is the value of one of them. -/
structure OptionWord where
  word : String
  value : Option String
  given : List Given
deriving DecidableEq, Repr

/-- The words that are taken. -/
def OptionWord.words (w : OptionWord) : List String := w.word :: w.value.toList

/-- The words that give options, up to the first word that gives none. -/
def optionWords (specs : List OptionSpec) : List String → List OptionWord
  | [] => []
  | word :: rest =>
    if word = "--" || !isOption word then []
    else
      match parseOption specs word rest with
      | .error _ => []
      | .ok (gs, left) =>
        if left.length = rest.length then ⟨word, none, gs⟩ :: optionWords specs rest
        else
          match rest with
          | [] => []
          | value :: rest => ⟨word, some value, gs⟩ :: optionWords specs rest

variable {specs : List OptionSpec} {word : String} {rest left : List String} {gs : List Given}

theorem parseLong_cases {o : OptionSpec} {flag : String} {value : Option String}
    (h : parseLong o flag value rest = .ok (gs, left)) :
    (∃ v, o.takesValue = true ∧ gs = [(o.name, some v)] ∧
        (value = some v ∧ left = rest ∨ value = none ∧ rest = v :: left)) ∨
      (o.takesValue = false ∧ value = none ∧ gs = [(o.name, none)] ∧ left = rest) := by
  unfold parseLong at h
  split at h
  · rename_i ht
    cases value with
    | some v =>
        obtain ⟨rfl, rfl⟩ := Prod.mk.inj (Except.ok.inj h)
        exact .inl ⟨v, ht, rfl, .inl ⟨rfl, rfl⟩⟩
    | none =>
        cases rest with
        | nil => cases h
        | cons v rest =>
            obtain ⟨rfl, rfl⟩ := Prod.mk.inj (Except.ok.inj h)
            exact .inl ⟨v, ht, rfl, .inr ⟨rfl, rfl⟩⟩
  · rename_i ht
    cases value with
    | some v => cases h
    | none =>
        obtain ⟨rfl, rfl⟩ := Prod.mk.inj (Except.ok.inj h)
        exact .inr ⟨by simpa using ht, rfl, rfl, rfl⟩

/-- The first letter gives an option. The letters after it are the value of that, or give options of their own. -/
theorem parseLetters_cons_cases {c : Char} {cs : List Char}
    (h : parseLetters specs rest (c :: cs) = .ok (gs, left)) :
    ∃ o, find? specs (.ofList ['-', c]) = some o ∧
      (o.takesValue = true ∧
          (∃ v, gs = [(o.name, some v)] ∧ (cs ≠ [] ∧ left = rest ∨ cs = [] ∧ rest = v :: left)) ∨
        o.takesValue = false ∧
          ∃ gs', parseLetters specs rest cs = .ok (gs', left) ∧ gs = (o.name, none) :: gs') := by
  rw [parseLetters] at h
  cases ho : find? specs (.ofList ['-', c]) with
  | none =>
      simp only [ho] at h
      cases h
  | some o =>
      simp only [ho] at h
      refine ⟨o, rfl, ?_⟩
      cases ht : o.takesValue with
      | true =>
          simp only [ht, if_true] at h
          cases cs with
          | cons d cs =>
              obtain ⟨rfl, rfl⟩ := Prod.mk.inj (Except.ok.inj h)
              exact .inl ⟨rfl, _, rfl, .inl ⟨List.cons_ne_nil d cs, rfl⟩⟩
          | nil =>
              cases rest with
              | nil => cases h
              | cons v rest =>
                  obtain ⟨rfl, rfl⟩ := Prod.mk.inj (Except.ok.inj h)
                  exact .inl ⟨rfl, v, rfl, .inr ⟨rfl, rfl⟩⟩
      | false =>
          simp only [ht, Bool.false_eq_true, if_false] at h
          obtain ⟨⟨gs', left'⟩, hrest, h⟩ := Except.bind_eq_ok_iff.1 h
          obtain ⟨rfl, rfl⟩ := Prod.mk.inj (Except.ok.inj h)
          exact .inr ⟨rfl, gs', hrest, rfl⟩

/-- Each letter gives an option of its own, and only one that takes a value takes the next word. -/
theorem parseLetters_cases {cs : List Char} : ∀ {gs : List Given},
    parseLetters specs rest cs = .ok (gs, left) →
      (∀ g ∈ gs, ∃ c o, find? specs (.ofList ['-', c]) = some o ∧ g.1 = o.name ∧
          g.2.isSome = o.takesValue) ∧
        (left = rest ∨ ∃ v c o, rest = v :: left ∧ find? specs (.ofList ['-', c]) = some o ∧
          o.takesValue = true ∧ (o.name, some v) ∈ gs) := by
  induction cs with
  | nil =>
      intro gs h
      obtain ⟨rfl, rfl⟩ := Prod.mk.inj (Except.ok.inj h)
      exact ⟨fun g hg => absurd hg List.not_mem_nil, .inl rfl⟩
  | cons c cs ih =>
      intro gs h
      obtain ⟨o, ho, ⟨ht, v, rfl, hvalue⟩ | ⟨ht, gs', hrest, rfl⟩⟩ := parseLetters_cons_cases h
      · refine ⟨List.forall_mem_singleton.2 ⟨c, o, ho, rfl, ht.symm⟩, ?_⟩
        rcases hvalue with ⟨-, rfl⟩ | ⟨-, rfl⟩
        · exact .inl rfl
        · exact .inr ⟨v, c, o, rfl, ho, ht, List.mem_singleton_self _⟩
      · obtain ⟨hgiven, hleft⟩ := ih hrest
        refine ⟨List.forall_mem_cons.2 ⟨⟨c, o, ho, rfl, ht.symm⟩, hgiven⟩, hleft.imp_right ?_⟩
        rintro ⟨v, c', o', hv, ho', ht', hmem⟩
        exact ⟨v, c', o', hv, ho', ht', List.mem_cons_of_mem _ hmem⟩

/-- A word gives one long option, with a value behind an equals sign or not, or the options of its
letters. -/
theorem parseOption_cases (h : parseOption specs word rest = .ok (gs, left)) :
    (∃ o, find? specs (Text.headAndTail '=' word).1 = some o ∧
        ¬((Text.headAndTail '=' word).1.length = 2 ∧ (Text.headAndTail '=' word).1 ≠ "--") ∧
        parseLong o (Text.headAndTail '=' word).1 (Text.headAndTail '=' word).2 rest = .ok (gs, left)) ∨
      (((Text.headAndTail '=' word).1.length = 2 ∧ (Text.headAndTail '=' word).1 ≠ "--" ∨
          word.startsWith "--" = false) ∧
        parseLetters specs rest (word.toList.drop 1) = .ok (gs, left)) := by
  unfold parseOption at h
  generalize Text.headAndTail '=' word = split at h ⊢
  obtain ⟨flag, value⟩ := split
  simp only at h ⊢
  cases ho : find? specs flag with
  | some o =>
      simp only [ho] at h
      by_cases hletters : flag.length = 2 ∧ flag ≠ "--"
      · rw [if_pos (by simpa using hletters)] at h
        exact .inr ⟨.inl hletters, h⟩
      · rw [if_neg (by simpa using hletters)] at h
        exact .inl ⟨o, rfl, hletters, h⟩
  | none =>
      simp only [ho] at h
      cases hlong : word.startsWith "--" with
      | true =>
          rw [hlong, if_pos rfl] at h
          cases h
      | false =>
          rw [hlong, if_neg Bool.false_ne_true] at h
          exact .inr ⟨.inr rfl, h⟩

/-- A word takes the next word or none. -/
theorem parseOption_left (h : parseOption specs word rest = .ok (gs, left)) :
    left = rest ∨ ∃ v, rest = v :: left := by
  rcases parseOption_cases h with ⟨o, -, -, hlong⟩ | ⟨-, hletters⟩
  · rcases parseLong_cases hlong with ⟨v, -, -, ⟨-, rfl⟩ | ⟨-, hv⟩⟩ | ⟨-, -, -, rfl⟩
    · exact .inl rfl
    · exact .inr ⟨v, hv⟩
    · exact .inl rfl
  · rcases (parseLetters_cases hletters).2 with rfl | ⟨v, -, -, hv, -⟩
    · exact .inl rfl
    · exact .inr ⟨v, hv⟩

/-! ### Command lines -/

theorem optionWords_of_not (h : word = "--" ∨ isOption word = false) :
    optionWords specs (word :: rest) = [] := by
  rw [optionWords, if_pos (by simpa using h)]

theorem optionWords_of_alone (hd : word ≠ "--") (hw : isOption word = true)
    (h : parseOption specs word rest = .ok (gs, rest)) :
    optionWords specs (word :: rest) = ⟨word, none, gs⟩ :: optionWords specs rest := by
  rw [optionWords, if_neg (by simp [hd, hw]), h]
  simp only [if_true]

theorem optionWords_of_value {value : String} (hd : word ≠ "--") (hw : isOption word = true)
    (h : parseOption specs word (value :: left) = .ok (gs, left)) :
    optionWords specs (word :: value :: left) =
      ⟨word, some value, gs⟩ :: optionWords specs left := by
  rw [optionWords, if_neg (by simp [hd, hw]), h]
  simp only [List.length_cons, Nat.left_eq_add, Nat.succ_ne_self, if_false]

/-- What was read from words is what the option words give: these, perhaps two dashes, and the arguments make up the
words. -/
structure IsReadOff (specs : List OptionSpec) (words : List String) (p : Parsed) : Prop where
  options : p.options = (optionWords specs words).flatMap (·.given)
  words : ∃ left, words = (optionWords specs words).flatMap OptionWord.words ++ left ∧
    (left = p.arguments ∨ left = "--" :: p.arguments)

/-- One more option word stands in front. -/
theorem IsReadOff.cons {w : OptionWord} {words : List String} {p : Parsed} (h : IsReadOff specs rest p)
    (hfirst : optionWords specs words = w :: optionWords specs rest) (hwords : words = w.words ++ rest) :
    IsReadOff specs words { p with options := w.given ++ p.options } := by
  obtain ⟨after, hafter, hleft⟩ := h.words
  refine ⟨?_, after, ?_, hleft⟩
  · rw [hfirst, List.flatMap_cons, ← h.options]
  · rw [hfirst, List.flatMap_cons, List.append_assoc, ← hafter, hwords]

theorem isReadOff_of_parseFrom {interspersed : Bool} {fuel : Nat} : ∀ {words : List String} {p : Parsed},
    words.length ≤ fuel → parseFrom specs interspersed fuel words = .ok p →
      interspersed = false ∨ p.arguments = [] → IsReadOff specs words p := by
  induction fuel with
  | zero =>
      intro words p hlen h _
      obtain rfl := List.length_eq_zero_iff.1 (Nat.le_zero.1 hlen)
      obtain rfl := Except.ok.inj h
      exact ⟨rfl, [], rfl, .inl rfl⟩
  | succ fuel ih =>
      intro words p hlen h harguments
      cases words with
      | nil =>
          obtain rfl := Except.ok.inj h
          exact ⟨rfl, [], rfl, .inl rfl⟩
      | cons word rest =>
          rw [parseFrom] at h
          by_cases hd : word = "--"
          · rw [if_pos hd] at h
            obtain rfl := Except.ok.inj h
            have hnone : optionWords specs (word :: rest) = [] := optionWords_of_not (.inl hd)
            exact ⟨by rw [hnone]; rfl, word :: rest, by rw [hnone]; rfl, .inr (by rw [hd])⟩
          rw [if_neg hd] at h
          cases hw : isOption word with
          | false =>
              rw [hw, if_neg Bool.false_ne_true] at h
              have hnone : optionWords specs (word :: rest) = [] := optionWords_of_not (.inr hw)
              cases interspersed with
              | false =>
                  obtain rfl := Except.ok.inj h
                  exact ⟨by rw [hnone]; rfl, word :: rest, by rw [hnone]; rfl, .inl rfl⟩
              | true =>
                  -- an argument before the end is one of those that are given
                  obtain ⟨q, -, h⟩ := Except.bind_eq_ok_iff.1 h
                  obtain rfl := Except.ok.inj h
                  exact absurd harguments (by simp)
          | true =>
              rw [hw, if_pos rfl] at h
              obtain ⟨⟨gs, left⟩, hoption, h⟩ := Except.bind_eq_ok_iff.1 h
              obtain ⟨q, hq, h⟩ := Except.bind_eq_ok_iff.1 h
              obtain rfl := Except.ok.inj h
              rw [List.length_cons, Nat.succ_le_succ_iff] at hlen
              rcases parseOption_left hoption with rfl | ⟨value, rfl⟩
              · exact (ih hlen hq harguments).cons (optionWords_of_alone hd hw hoption) rfl
              · exact (ih ((Nat.le_succ _).trans hlen) hq harguments).cons
                  (optionWords_of_value hd hw hoption) rfl

/-- **What a command line gives is what its option words give**, where no option follows an argument. -/
theorem parse_eq_optionWords {interspersed : Bool} {words : List String} {p : Parsed}
    (h : parse specs interspersed words = .ok p) (harguments : interspersed = false ∨ p.arguments = []) :
    IsReadOff specs words p :=
  isReadOff_of_parseFrom le_rfl h harguments

/-! ### Arguments -/

theorem ne_dashes_of_plain (hw : word.startsWith "-" = false) : word ≠ "--" := by
  rintro rfl
  exact absurd hw (by decide +kernel)

/-- A word without a dash in front is an argument, and before a subcommand it ends the options. -/
theorem parse_of_plain (hw : word.startsWith "-" = false) (rest : List String) :
    parse specs false (word :: rest) = .ok { arguments := word :: rest } := by
  rw [parse, List.length_cons, parseFrom, if_neg (ne_dashes_of_plain hw), isOption, hw]
  rfl

/-- A word without a dash in front names a subcommand. -/
theorem subcommand_of_plain (hw : word.startsWith "-" = false) (rest actions : List String) :
    subcommand specs actions (word :: rest) =
      .ok (.inr ⟨{ arguments := word :: rest }, word, rest⟩) := by
  rw [subcommand, parse_of_plain hw]
  rfl

/-- A word without a dash in front is an argument also where options may follow. -/
theorem arguments_ne_nil_of_plain {p : Parsed} (hw : word.startsWith "-" = false)
    (h : parse specs true (word :: rest) = .ok p) : p.arguments ≠ [] := by
  rw [parse, List.length_cons, parseFrom, if_neg (ne_dashes_of_plain hw), isOption, hw] at h
  obtain ⟨q, -, h⟩ := Except.bind_eq_ok_iff.1 h
  obtain rfl := Except.ok.inj h
  exact List.cons_ne_nil _ _

/-- The first argument is the subcommand. -/
theorem parse_of_subcommand {actions words : List String} {before : Before}
    (h : subcommand specs actions words = .ok (.inr before)) :
    parse specs false words = .ok before.options ∧
      before.options.arguments = before.command :: before.rest := by
  obtain ⟨p, hp, h⟩ := Except.bind_eq_ok_iff.1 h
  cases hfirst : p.firstOf actions with
  | some action =>
      simp only [hfirst] at h
      cases h
  | none =>
      cases harguments : p.arguments with
      | nil =>
          simp only [hfirst, harguments] at h
          cases h
      | cons name rest =>
          simp only [hfirst, harguments] at h
          cases h
          exact ⟨hp, harguments⟩

/-! ### One option word -/

theorem mem_of_find? {flag : String} {o : OptionSpec}
    (h : find? specs flag = some o) : o ∈ specs ∧ flag ∈ o.flags :=
  ⟨List.mem_reverse.1 (List.mem_of_find?_eq_some h), by simpa using List.find?_some h⟩

/-- The flag is one of a long option. -/
def IsLong (flag : String) : Prop := '=' ∉ flag.toList ∧ (flag.length = 2 → flag = "--")

/-- What a word that gives options can be. -/
inductive OptionWord.IsRead (specs : List OptionSpec) : OptionWord → Prop
  /-- A long option with its value behind an equals sign. -/
  | joined {o : OptionSpec} {flag word v : String} (ho : find? specs flag = some o)
      (hflag : IsLong flag) (hword : word.toList = flag.toList ++ '=' :: v.toList)
      (ht : o.takesValue = true) : IsRead specs ⟨word, none, [(o.name, some v)]⟩
  /-- A long option with its value in the next word. -/
  | separate {o : OptionSpec} {flag v : String} (ho : find? specs flag = some o)
      (hflag : IsLong flag) (ht : o.takesValue = true) : IsRead specs ⟨flag, some v, [(o.name, some v)]⟩
  /-- A long option without a value. -/
  | bare {o : OptionSpec} {flag : String} (ho : find? specs flag = some o) (hflag : IsLong flag)
      (ht : o.takesValue = false) : IsRead specs ⟨flag, none, [(o.name, none)]⟩
  /-- The options of letters. -/
  | letters {word : String} {value : Option String} {gs : List Given} {rest : List String}
      (hword : word.startsWith "--" = false)
      (h : parseLetters specs (value.toList ++ rest) (word.toList.drop 1) = .ok (gs, rest)) :
      IsRead specs ⟨word, value, gs⟩

theorem OptionWord.isRead_of_parseOption {value : Option String}
    (h : parseOption specs word (value.toList ++ left) = .ok (gs, left)) :
    OptionWord.IsRead specs ⟨word, value, gs⟩ := by
  -- whether the next word was taken tells how the words that are left came about
  have hnone : left = value.toList ++ left → value = none := fun h => by
    cases value with
    | none => rfl
    | some v => exact absurd (congrArg List.length h) (by simp)
  have hsome : ∀ {v}, value.toList ++ left = v :: left → value = some v := fun h => by
    cases value with
    | none => exact absurd (congrArg List.length h) (by simp)
    | some w => exact congrArg some (List.cons.inj h).1
  rcases parseOption_cases h with ⟨o, ho, hflag, hlong⟩ | ⟨hword, hletters⟩
  · rw [not_and_not_right] at hflag
    rcases Text.headAndTail_cases '=' word with ⟨hnot, hsplit⟩ | ⟨flag, tail, hw, hnot, hsplit⟩
    · rw [hsplit] at ho hflag hlong
      rcases parseLong_cases hlong with ⟨v, ht, rfl, ⟨hv, -⟩ | ⟨-, hv⟩⟩ | ⟨ht, -, rfl, hv⟩
      · cases hv
      · rw [hsome hv]
        exact .separate ho ⟨hnot, hflag⟩ ht
      · rw [hnone hv]
        exact .bare ho ⟨hnot, hflag⟩ ht
    · rw [hsplit] at ho hflag hlong
      rcases parseLong_cases hlong with ⟨v, ht, rfl, ⟨hv, hleft⟩ | ⟨hv, -⟩⟩ | ⟨-, hv, -⟩
      · obtain rfl := Option.some_inj.1 hv
        rw [hnone hleft]
        exact .joined ho ⟨hnot, hflag⟩ hw ht
      · cases hv
      · cases hv
  · refine .letters ?_ hletters
    rcases hword with ⟨hlength, hne⟩ | hword
    · -- a flag of two characters that begins with two dashes is the two dashes
      rw [← Bool.not_eq_true, String.startsWith_string_iff]
      intro hfront
      refine hne (String.toList_inj.1 ?_)
      have hdashes : "--".toList.length = 2 := rfl
      have hle := List.prefix_of_prefix_length_le (Text.prefix_fst_headAndTail '=' word) hfront
        (by rw [String.length_toList, hlength, hdashes])
      exact hle.eq_of_length (by rw [String.length_toList, hlength, hdashes])
    · exact hword

/-- What is known of the words that give options. -/
theorem isRead_of_mem_optionWords {words : List String} {w : OptionWord}
    (hw : w ∈ optionWords specs words) :
    isOption w.word = true ∧ w.word ≠ "--" ∧ w.IsRead specs := by
  induction h : words.length using Nat.strong_induction_on generalizing words with
  | _ n ih =>
      cases words with
      | nil => cases hw
      | cons word rest =>
          by_cases hstop : word = "--" ∨ isOption word = false
          · rw [optionWords_of_not hstop] at hw
            cases hw
          rw [not_or, Bool.not_eq_false] at hstop
          obtain ⟨hd, hoption⟩ := hstop
          cases hp : parseOption specs word rest with
          | error f =>
              rw [optionWords, if_neg (by simp [hd, hoption]), hp] at hw
              cases hw
          | ok r =>
              obtain ⟨gs, left⟩ := r
              rcases parseOption_left hp with rfl | ⟨value, rfl⟩
              · rw [optionWords_of_alone hd hoption hp] at hw
                rcases List.mem_cons.1 hw with rfl | hw
                · exact ⟨hoption, hd, @OptionWord.isRead_of_parseOption _ _ _ _ none hp⟩
                · exact ih left.length (by rw [← h]; simp) hw rfl
              · rw [optionWords_of_value hd hoption hp] at hw
                rcases List.mem_cons.1 hw with rfl | hw
                · exact ⟨hoption, hd, @OptionWord.isRead_of_parseOption _ _ _ _ (some value) hp⟩
                · exact ih left.length (by rw [← h, List.length_cons, List.length_cons]; omega) hw rfl

/-! ### Values -/

/-- The last value of an option among those that are given. -/
def lastValue? (gs : List Given) (name : String) : Option String :=
  (gs.reverse.find? (fun g => g.1 == name)).bind (·.2)

theorem lastValue?_options (p : Parsed) (name : String) : lastValue? p.options name = p.value? name := rfl

theorem lastValue?_append {gs hs : List Given} {name : String}
    (h : ∀ g ∈ hs, g.1 = name → g.2.isSome = true) :
    lastValue? (gs ++ hs) name = (lastValue? hs name).or (lastValue? gs name) := by
  rw [lastValue?, List.reverse_append, List.find?_append]
  cases hfound : hs.reverse.find? (fun g => g.1 == name) with
  | none => simp [lastValue?, hfound]
  | some g =>
      have hname : g.1 = name := by simpa using List.find?_some hfound
      have hmem : g ∈ hs := List.mem_reverse.1 (List.mem_of_find?_eq_some hfound)
      obtain ⟨v, hv⟩ := Option.isSome_iff_exists.1 (h g hmem hname)
      simp [lastValue?, hfound, hv]

theorem lastValue?_eq_none {gs : List Given} {name : String} (h : ∀ g ∈ gs, g.1 ≠ name) :
    lastValue? gs name = none := by
  rw [lastValue?, List.find?_eq_none.2 fun g hg => by simpa using h g (List.mem_reverse.1 hg)]
  rfl

theorem isSome_lastValue? {gs : List Given} {name : String} {g : Given} (hg : g ∈ gs) (hname : g.1 = name)
    (h : ∀ g ∈ gs, g.1 = name → g.2.isSome = true) : (lastValue? gs name).isSome = true := by
  obtain ⟨g', hg'⟩ : ∃ g', gs.reverse.find? (fun g => g.1 == name) = some g' := by
    rw [← Option.isSome_iff_exists, List.find?_isSome]
    exact ⟨g, List.mem_reverse.2 hg, by simpa using hname⟩
  rw [lastValue?, hg', Option.bind_some]
  exact h g' (List.mem_reverse.1 (List.mem_of_find?_eq_some hg')) (by simpa using List.find?_some hg')

end Grammar

end Restline
