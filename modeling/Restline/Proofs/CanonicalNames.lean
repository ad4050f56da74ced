import Mathlib.Data.List.Chain
import Mathlib.Data.List.DropRight
import Restline.Proofs.SoundNames

/-!
Names that stay as they are. The name that is made from a text is made of words with single underscores between
them: the words alone, the words behind an underscore where they begin with a numeral, or a reserved word before
one. Each step of the making leaves such words as they are, and takes off the underscore that the last ones put on;
so making a name from a name gives it again.

* `ParamName.AreWords` : characters that are words with single underscores between them.
* `ParamName.areWords_bareChars`, `ParamName.AreWords.bareChars_eq` : **the steps before the last give words, and leave
  words as they are**.
* `ParamName.IsCanonical` : the forms of names.
* `ParamName.isCanonical_sanitize`, `ParamName.IsCanonical.sanitize_eq` : **a name has one of the forms, and what has
  one stays**.
* `ParamName.sanitize_sound` : **the name made from a text**, and which texts are names already.
-/

set_option autoImplicit false

namespace Restline.ParamName

variable {a b c : Char} {cs : List Char} {s : String}

/-! ### Characters of names -/

theorem isCapital_eq_false_of_isNameChar (h : IsNameChar c) : isCapital c = false := by
  rw [Bool.eq_false_iff]
  intro hcapital
  simp only [isCapital, Bool.and_eq_true, decide_eq_true_eq] at hcapital
  rcases h with hsmall | hnum | rfl
  · simp only [isSmall, Bool.and_eq_true, decide_eq_true_eq] at hsmall
    exact absurd (Char.le_trans hsmall.1 hcapital.2) (by decide)
  · simp only [isNumeral, Bool.and_eq_true, decide_eq_true_eq] at hnum
    exact absurd (Char.le_trans hcapital.1 hnum.2) (by decide)
  · exact absurd hcapital.2 (by decide)

theorem toNat_lt_of_isNameChar (h : IsNameChar c) : c.toNat < 128 := by
  have hle : c.toNat ≤ 'z'.toNat := by
    rcases h with hsmall | hnum | rfl
    · simp only [isSmall, Bool.and_eq_true, decide_eq_true_eq] at hsmall
      exact hsmall.2
    · simp only [isNumeral, Bool.and_eq_true, decide_eq_true_eq] at hnum
      exact Char.le_trans hnum.2 (by decide)
    · decide
  exact Nat.lt_of_le_of_lt hle (by decide)

/-- A character of names is its own lower case. -/
theorem lowerAsciiChar_of_isNameChar (h : IsNameChar c) : Text.lowerAsciiChar c = [c] := by
  have hascii := toNat_lt_of_isNameChar h
  have hlower : isCapital c = false → c.toLower = c :=
    Text.ascii_all (P := fun c => isCapital c = false → c.toLower = c) (by decide) hascii
  rw [Text.lowerAsciiChar, if_pos hascii, hlower (isCapital_eq_false_of_isNameChar h)]

theorem nameChar_of_isNameChar (h : IsNameChar c) : nameChar c = c := by
  rw [nameChar]
  split
  · rfl
  · rename_i hother
    refine absurd ?_ hother
    rcases h with hsmall | hnum | rfl
    · simp [hsmall]
    · simp [hnum]
    · rfl

/-! ### The steps on characters of names -/

theorem splitBeforeCapitals_eq_self (h : ∀ c ∈ cs, isCapital c = false) : splitBeforeCapitals cs = cs := by
  fun_induction splitBeforeCapitals cs with
  | case1 a b r hsplit ih => simp [h b (by simp)] at hsplit
  | case2 a b r _ ih => rw [ih fun c hc => h c (List.mem_cons_of_mem _ hc)]
  | case3 => rfl

theorem splitCapitalRuns_eq_self (h : ∀ c ∈ cs, isCapital c = false) : splitCapitalRuns cs = cs := by
  fun_induction splitCapitalRuns cs with
  | case1 a b c r hsplit ih => simp [h a (by simp)] at hsplit
  | case2 a b c r _ ih => rw [ih fun c hc => h c (List.mem_cons_of_mem _ hc)]
  | case3 => rfl

/-- On characters of names, only the last two steps do anything. -/
theorem bareChars_of_isNameChar (h : ∀ c ∈ cs, IsNameChar c) : bareChars cs = stripUnderscores (collapse cs) := by
  have hcapital : ∀ c ∈ cs, isCapital c = false := fun c hc => isCapital_eq_false_of_isNameChar (h c hc)
  have hlower : cs.flatMap Text.lowerAsciiChar = cs :=
    (List.flatMap_congr fun c hc => lowerAsciiChar_of_isNameChar (h c hc)).trans (List.flatMap_singleton' cs)
  have hname : cs.map nameChar = cs :=
    (List.map_congr_left fun c hc => nameChar_of_isNameChar (h c hc)).trans (List.map_id cs)
  rw [bareChars, splitBeforeCapitals_eq_self hcapital, splitCapitalRuns_eq_self hcapital, hlower, hname]

/-! ### Words -/

/-- Two characters in a row that are not both underscores. -/
def Apart (a b : Char) : Prop := ¬ (a = '_' ∧ b = '_')

/-- Words with single underscores between them, or nothing. -/
structure AreWords (cs : List Char) : Prop where
  chars : ∀ c ∈ cs, IsNameChar c
  apart : cs.IsChain Apart
  head : cs.head? ≠ some '_'
  last : cs.getLast? ≠ some '_'

theorem head?_collapse (cs : List Char) : (collapse cs).head? = cs.head? := by
  fun_induction collapse cs with
  | case1 r ih => exact ih
  | case2 => rfl
  | case3 => rfl

theorem isChain_collapse (cs : List Char) : (collapse cs).IsChain Apart := by
  fun_induction collapse cs with
  | case1 r ih => exact ih
  | case2 c r hsingle ih =>
      refine ih.cons fun d hd hboth => ?_
      rw [head?_collapse] at hd
      obtain ⟨rest, rfl⟩ := List.head?_eq_some_iff.1 hd
      rw [hboth.2] at hsingle
      exact hsingle rest hboth.1 rfl
  | case3 => exact .nil

theorem collapse_eq_self (h : cs.IsChain Apart) : collapse cs = cs := by
  fun_induction collapse cs with
  | case1 r ih => exact absurd ⟨rfl, rfl⟩ (List.isChain_cons_cons.1 h).1
  | case2 c r _ ih => rw [ih h.tail]
  | case3 => rfl

theorem stripUnderscores_eq_rdropWhile (cs : List Char) :
    stripUnderscores cs = (cs.dropWhile (· == '_')).rdropWhile (· == '_') := rfl

theorem stripUnderscores_isInfix (cs : List Char) : stripUnderscores cs <:+: cs :=
  (List.rdropWhile_prefix _ _).isInfix.trans (List.dropWhile_suffix _).isInfix

theorem isChain_stripUnderscores (h : cs.IsChain Apart) : (stripUnderscores cs).IsChain Apart := by
  obtain ⟨before, after, hcs⟩ := stripUnderscores_isInfix cs
  rw [← hcs] at h
  exact h.left_of_append.right_of_append

theorem getLast?_stripUnderscores (cs : List Char) : (stripUnderscores cs).getLast? ≠ some '_' := by
  intro hlast
  obtain ⟨ds, hds⟩ := List.getLast?_eq_some_iff.1 hlast
  rw [stripUnderscores_eq_rdropWhile] at hds
  have hagain := List.rdropWhile_idempotent (· == '_') (cs.dropWhile (· == '_'))
  rw [hds, List.rdropWhile_concat_pos _ _ _ (by rfl)] at hagain
  -- what is left of the characters before the last cannot be as long as with it
  have hlength := congrArg List.length hagain
  have hle := (List.rdropWhile_prefix (· == '_') ds).length_le
  rw [List.length_append, List.length_singleton] at hlength
  omega

/-- **The steps before the last give words.** -/
theorem areWords_bareChars (cs : List Char) : AreWords (bareChars cs) where
  chars c hc := isNameChar_of_mem_bareChars hc
  apart := isChain_stripUnderscores (isChain_collapse _)
  head hhead := by
    obtain ⟨r, hr⟩ := List.head?_eq_some_iff.1 hhead
    exact head_stripUnderscores hr rfl
  last := getLast?_stripUnderscores _

namespace AreWords

theorem dropWhile_eq (h : AreWords cs) : cs.dropWhile (· == '_') = cs := by
  cases cs with
  | nil => rfl
  | cons c r =>
      have hc : c ≠ '_' := fun heq => h.head (by rw [heq]; rfl)
      exact List.dropWhile_cons_of_neg (by simpa using hc)

theorem rdropWhile_eq (h : AreWords cs) : cs.rdropWhile (· == '_') = cs := by
  refine List.rdropWhile_eq_self_iff.2 fun hne hlast => h.last ?_
  rw [List.getLast?_eq_some_getLast hne, beq_iff_eq.1 hlast]

theorem stripUnderscores_eq (h : AreWords cs) : stripUnderscores cs = cs := by
  rw [stripUnderscores_eq_rdropWhile, h.dropWhile_eq, h.rdropWhile_eq]

/-- **The steps before the last leave words as they are.** -/
theorem bareChars_eq (h : AreWords cs) : bareChars cs = cs := by
  rw [bareChars_of_isNameChar h.chars, collapse_eq_self h.apart, h.stripUnderscores_eq]

/-- An underscore before words is taken off. -/
theorem bareChars_cons (h : AreWords cs) : bareChars ('_' :: cs) = cs := by
  have hchars : ∀ c ∈ '_' :: cs, IsNameChar c := List.forall_mem_cons.2 ⟨.inr (.inr rfl), h.chars⟩
  have hapart : ('_' :: cs).IsChain Apart :=
    h.apart.cons fun c hc hboth => h.head (by rw [Option.mem_def.1 hc, hboth.2])
  rw [bareChars_of_isNameChar hchars, collapse_eq_self hapart, stripUnderscores_eq_rdropWhile,
    List.dropWhile_cons_of_pos (by rfl), ← stripUnderscores_eq_rdropWhile, h.stripUnderscores_eq]

/-- So is one behind words. -/
theorem bareChars_concat (h : AreWords cs) : bareChars (cs ++ ['_']) = cs := by
  have hchars : ∀ c ∈ cs ++ ['_'], IsNameChar c :=
    List.forall_mem_append.2 ⟨h.chars, by simp [IsNameChar]⟩
  have hapart : (cs ++ ['_']).IsChain Apart :=
    h.apart.append (.singleton _) fun a ha b hb hboth => h.last (by rw [Option.mem_def.1 ha, hboth.1])
  rw [bareChars_of_isNameChar hchars, collapse_eq_self hapart, stripUnderscores_eq_rdropWhile]
  cases cs with
  | nil => rfl
  | cons c r =>
      have hc : c ≠ '_' := fun heq => h.head (by rw [heq]; rfl)
      rw [List.cons_append, List.dropWhile_cons_of_neg (by simpa using hc), ← List.cons_append,
        List.rdropWhile_concat_pos _ _ _ (by rfl), h.rdropWhile_eq]

/-- Words that do not begin with a numeral begin with a small letter. -/
theorem isSmall_of_cons {r : List Char} (h : AreWords (c :: r)) (hc : isNumeral c = false) : isSmall c = true := by
  rcases h.chars c List.mem_cons_self with hsmall | hnum | rfl
  · exact hsmall
  · cases hc.symm.trans hnum
  · exact absurd rfl h.head

end AreWords

/-! ### The forms of names -/

/-- The forms of names: words that begin with a small letter and are no reserved word, words behind an underscore that
begin with a numeral, and a reserved word before an underscore. -/
inductive IsCanonical : String → Prop
  | letter {c : Char} {r : List Char} (words : AreWords (c :: r)) (begins : isSmall c = true)
      (unreserved : String.ofList (c :: r) ∉ reserved) : IsCanonical (String.ofList (c :: r))
  | numeral {c : Char} {r : List Char} (words : AreWords (c :: r)) (begins : isNumeral c = true) :
      IsCanonical (String.ofList ('_' :: c :: r))
  | reserved {cs : List Char} (words : AreWords cs) (mem : String.ofList cs ∈ reserved) :
      IsCanonical (String.ofList cs ++ "_")

/-- A text that is no reserved word stays. -/
theorem unreserve_of_notMem (h : s ∉ reserved) : unreserve s = s := by
  rw [unreserve, if_neg (by simpa using h)]

theorem unreserve_of_mem (h : s ∈ reserved) : unreserve s = s ++ "_" := by
  rw [unreserve, if_pos (by simpa using h)]

/-- Words that are completed have one of the forms, with an underscore behind a reserved word. -/
theorem isCanonical_complete (h : AreWords cs) : IsCanonical (unreserve (String.ofList (complete cs))) := by
  have hletter : ∀ {c r}, AreWords (c :: r) → isSmall c = true → IsCanonical (unreserve (String.ofList (c :: r))) := by
    intro c r hwords hc
    by_cases hmem : String.ofList (c :: r) ∈ reserved
    · rw [unreserve_of_mem hmem]
      exact .reserved hwords hmem
    · rw [unreserve_of_notMem hmem]
      exact .letter hwords hc hmem
  cases cs with
  | nil =>
      have hchars : complete [] = ['p', 'a', 'r', 'a', 'm'] := by decide +kernel
      have hwords := areWords_bareChars ['p', 'a', 'r', 'a', 'm']
      rw [show bareChars ['p', 'a', 'r', 'a', 'm'] = ['p', 'a', 'r', 'a', 'm'] by decide +kernel] at hwords
      rw [hchars]
      exact hletter hwords (by decide)
  | cons c r =>
      rw [complete]
      cases hc : isNumeral c with
      | true =>
          rw [if_pos rfl, unreserve_of_notMem (notMem_reserved (by simp))]
          exact .numeral h hc
      | false =>
          rw [if_neg (by simp)]
          exact hletter h (h.isSmall_of_cons hc)

/-- **The name made from a text has one of the forms.** -/
theorem isCanonical_sanitize (s : String) : IsCanonical (sanitize s) := isCanonical_complete (areWords_bareChars _)

/-- **A text of one of the forms is the name that is made from it.** -/
theorem IsCanonical.sanitize_eq (h : IsCanonical s) : sanitize s = s := by
  rw [sanitize]
  cases h with
  | letter words begins unreserved =>
      rw [String.toList_ofList, words.bareChars_eq, complete, isNumeral_eq_false_of_isSmall begins,
        if_neg (by simp), unreserve_of_notMem unreserved]
  | numeral words begins =>
      rw [String.toList_ofList, words.bareChars_cons, complete, if_pos begins,
        unreserve_of_notMem (notMem_reserved (by simp))]
  | @reserved cs words mem =>
      have hchars : (String.ofList cs ++ "_").toList = cs ++ ['_'] := by simp
      -- no reserved word is empty or begins with a numeral
      have hcomplete : complete cs = cs := by
        have hbegins : ∀ w ∈ ParamName.reserved, complete w.toList = w.toList := by decide +kernel
        simpa using hbegins _ mem
      rw [hchars, words.bareChars_concat, hcomplete, unreserve_of_mem mem]

/-- **The name made from a text.** It is a name for a parameter, and making a name from it gives it again. The texts that
are names already are those of one of the forms. -/
theorem sanitize_sound (s : String) :
    IsName (sanitize s) ∧ sanitize (sanitize s) = sanitize s ∧ (sanitize s = s ↔ IsCanonical s) :=
  ⟨isName_sanitize s, (isCanonical_sanitize s).sanitize_eq,
    fun heq => heq ▸ isCanonical_sanitize s, fun h => h.sanitize_eq⟩

/-- One name of each form. -/
example : (["$Path.subscriptionId", "2fa", "İf", "IF"].map sanitize) =
    ["path_subscription_id", "_2fa", "i_f", "if_"] := by
  decide +kernel

end Restline.ParamName
