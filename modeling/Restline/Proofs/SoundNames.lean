import Mathlib.Data.List.DropRight
import Restline.Proofs.ParamNames
import Restline.Proofs.UpperCase

/-!
Names of parameters are sound. The name made from a text has small letters, numerals and underscores only,
does not begin with a numeral and is no reserved word; numbers behind it do not change that. The names that
every command uses besides its parameters begin with an underscore and a letter, and no name of a parameter
does. A list of names is gone through in order: each name that is used by then is numbered from two on, for as
long as it takes.

* `ParamName.IsName`, `ParamName.IsHelper` : names of parameters, and the other names of a command.
* `ParamName.isName_sanitize` : **the name made from any text is one**.
* `ParamName.Search`, `ParamName.Renames` : the search for a name that is not used, and a list of them.
* `ParamName.renames_iff` : **the search ends, with the fresh names**.
* `ArgOption.sound_distinct` : **the names of the options of any arguments**.
-/

set_option autoImplicit false

namespace Restline

namespace ParamName

variable {c : Char} {cs : List Char} {s name : String}

/-! ### Names -/

/-- A character that a name may have. -/
def IsNameChar (c : Char) : Prop := isSmall c = true ∨ isNumeral c = true ∨ c = '_'

/-- A name for a parameter. -/
structure IsName (s : String) : Prop where
  chars : ∀ c ∈ s.toList, IsNameChar c
  /-- It is not empty, and does not begin with a numeral. -/
  begins : ∃ c r, s.toList = c :: r ∧ isNumeral c = false
  unreserved : s ∉ reserved

/-- The names that a command uses besides those of its parameters: of what carries it out, of the type of what
it is called with, and of the defaults and the types of its parameters. -/
inductive IsHelper : String → Prop
  | dispatch : IsHelper "_dispatch"
  | context : IsHelper "_ctx_type"
  | default (i : ℕ) : IsHelper ("_default_" ++ toString i)
  | annotation (i : ℕ) : IsHelper ("_ann_" ++ toString i)

/-- The characters begin with a small letter, or with an underscore and a numeral. -/
inductive BeginsName : List Char → Prop
  | letter {c : Char} (r : List Char) (h : isSmall c = true) : BeginsName (c :: r)
  | numeral {c : Char} (r : List Char) (h : isNumeral c = true) : BeginsName ('_' :: c :: r)

/-- What stands behind the characters does not change how they begin. -/
theorem BeginsName.append (h : BeginsName cs) (ds : List Char) : BeginsName (cs ++ ds) := by
  cases h with
  | letter r h => exact .letter _ h
  | numeral r h => exact .numeral _ h

theorem isNumeral_eq_false_of_isSmall (h : isSmall c = true) : isNumeral c = false := by
  rw [Bool.eq_false_iff]
  intro hnum
  simp only [isSmall, isNumeral, Bool.and_eq_true, decide_eq_true_eq] at h hnum
  have hle : 'a' ≤ '9' := Char.le_trans h.1 hnum.2
  exact absurd hle (by decide)

theorem BeginsName.begins (h : BeginsName cs) : ∃ c r, cs = c :: r ∧ isNumeral c = false := by
  cases h with
  | letter r h => exact ⟨_, _, rfl, isNumeral_eq_false_of_isSmall h⟩
  | numeral r h => exact ⟨_, _, rfl, by decide⟩

/-- No other name of a command begins as the names of parameters do. -/
theorem IsHelper.not_beginsName (h : IsHelper s) : ¬ BeginsName s.toList := by
  -- their first two characters decide
  have hsecond : ∃ c r, s.toList = '_' :: c :: r ∧ isNumeral c = false := by
    cases h with
    | dispatch => exact ⟨_, _, rfl, by decide⟩
    | context => exact ⟨_, _, rfl, by decide⟩
    | default i => exact ⟨_, _, String.toList_append .., by decide⟩
    | annotation i => exact ⟨_, _, String.toList_append .., by decide⟩
  obtain ⟨c, r, hs, hc⟩ := hsecond
  rw [hs]
  intro hbegins
  cases hbegins with
  | letter r h => exact absurd h (by decide)
  | numeral r h => rw [hc] at h; cases h

/-- A text with an underscore is no reserved word. -/
theorem notMem_reserved (h : '_' ∈ s.toList) : s ∉ reserved := by
  have hwords : ∀ w ∈ reserved, '_' ∉ w.toList := by decide
  exact fun hs => hwords s hs h

/-! ### The name made from a text -/

theorem isCapital_of_le {c : Char} (h : 128 ≤ c.toNat) : isCapital c = false := by
  rw [Bool.eq_false_iff]
  intro hcapital
  simp only [isCapital, Bool.and_eq_true, decide_eq_true_eq] at hcapital
  have hle : c.toNat ≤ 'Z'.toNat := hcapital.2
  exact absurd (h.trans hle) (by decide)

/-- In lower case there is no capital. -/
theorem isCapital_of_mem_lowerAsciiChar {d : Char} (h : d ∈ Text.lowerAsciiChar c) : isCapital d = false := by
  rw [Text.lowerAsciiChar] at h
  split at h
  · rename_i hascii
    rw [List.mem_singleton.1 h]
    exact Text.ascii_all (P := fun c => isCapital c.toLower = false) (by decide) hascii
  split at h
  · rw [List.mem_singleton.1 h]
    decide
  split at h
  · rcases List.mem_pair.1 h with rfl | rfl <;> decide
  · rename_i hascii _ _
    rw [List.mem_singleton.1 h]
    exact isCapital_of_le (Nat.le_of_not_lt hascii)

theorem isNameChar_nameChar (h : isCapital c = false) : IsNameChar (nameChar c) := by
  rw [nameChar]
  split
  · rename_i hc
    simpa [h, IsNameChar, or_assoc] using hc
  · exact .inr (.inr rfl)

theorem isNameChar_of_mem_bareChars (h : c ∈ bareChars cs) : IsNameChar c := by
  obtain ⟨d, hd, rfl⟩ := List.mem_map.1 (mem_of_mem_collapse (mem_of_mem_stripUnderscores h))
  obtain ⟨e, -, hde⟩ := List.mem_flatMap.1 hd
  exact isNameChar_nameChar (isCapital_of_mem_lowerAsciiChar hde)

/-- Without the underscores at its ends a list of characters does not begin with one. -/
theorem head_stripUnderscores {r : List Char} (h : stripUnderscores cs = c :: r) : c ≠ '_' := by
  have hback : stripUnderscores cs = (cs.dropWhile (· == '_')).rdropWhile (· == '_') := rfl
  obtain ⟨rest, hrest⟩ := List.rdropWhile_prefix (· == '_') (cs.dropWhile (· == '_'))
  rw [← hback, h, List.cons_append] at hrest
  have hhead := List.dropWhile_get_zero_not (· == '_') cs (by rw [← hrest]; exact Nat.succ_pos _)
  simpa [← hrest] using hhead

theorem beginsName_complete (hchars : ∀ c ∈ cs, IsNameChar c) (hhead : ∀ c r, cs = c :: r → c ≠ '_') :
    BeginsName (complete cs) := by
  cases cs with
  | nil => exact .letter _ (by decide)
  | cons c r =>
      rw [complete]
      split
      · rename_i hnum
        exact .numeral r hnum
      · rename_i hnum
        rcases hchars c List.mem_cons_self with hsmall | hnum' | hunder
        · exact .letter r hsmall
        · exact absurd hnum' hnum
        · exact absurd hunder (hhead c r rfl)

theorem isNameChar_of_mem_complete (hchars : ∀ c ∈ cs, IsNameChar c) : ∀ c ∈ complete cs, IsNameChar c := by
  cases cs with
  | nil => exact fun c hc => .inl (by revert c; decide)
  | cons c r =>
      rw [complete]
      split
      · exact List.forall_mem_cons.2 ⟨.inr (.inr rfl), hchars⟩
      · exact hchars

theorem unreserve_notMem (s : String) : unreserve s ∉ reserved := by
  rw [unreserve]
  split
  · exact notMem_reserved (by simp)
  · rename_i hfree
    simpa using hfree

/-- What `unreserve` may put behind a text. -/
theorem exists_toList_unreserve (s : String) :
    ∃ ds, (unreserve s).toList = s.toList ++ ds ∧ ∀ c ∈ ds, IsNameChar c := by
  rw [unreserve]
  split
  · exact ⟨['_'], String.toList_append .., by simp [IsNameChar]⟩
  · exact ⟨[], (List.append_nil _).symm, by simp⟩

theorem beginsName_sanitize (s : String) : BeginsName (sanitize s).toList := by
  obtain ⟨ds, hds, -⟩ := exists_toList_unreserve (String.ofList (complete (bareChars s.toList)))
  rw [sanitize, hds, String.toList_ofList]
  exact (beginsName_complete (fun c => isNameChar_of_mem_bareChars)
    (fun c r => head_stripUnderscores)).append ds

/-- **The name made from any text is a name for a parameter.** -/
theorem isName_sanitize (s : String) : IsName (sanitize s) := by
  refine ⟨?_, (beginsName_sanitize s).begins, unreserve_notMem _⟩
  obtain ⟨ds, hds, hchars⟩ := exists_toList_unreserve (String.ofList (complete (bareChars s.toList)))
  rw [sanitize, hds, String.toList_ofList]
  exact List.forall_mem_append.2
    ⟨isNameChar_of_mem_complete fun c => isNameChar_of_mem_bareChars, hchars⟩

/-! ### Numbers behind a name -/

theorem isNameChar_of_isDigit (h : c.isDigit = true) : IsNameChar c := by
  rw [Char.isDigit, Bool.and_eq_true, decide_eq_true_eq, decide_eq_true_eq] at h
  refine .inr (.inl ?_)
  rw [isNumeral, Bool.and_eq_true, decide_eq_true_eq, decide_eq_true_eq]
  exact h

/-- A name with a number is a name. -/
theorem IsName.numbered (h : IsName name) (n : ℕ) : IsName (numbered name n) := by
  have htext : (ParamName.numbered name n).toList = name.toList ++ '_' :: Nat.toDigits 10 n := by
    simp [ParamName.numbered]
  obtain ⟨c, r, hname, hc⟩ := h.begins
  refine ⟨?_, ⟨c, r ++ '_' :: Nat.toDigits 10 n, by rw [htext, hname]; rfl, hc⟩,
    notMem_reserved (by rw [htext]; simp)⟩
  rw [htext]
  refine List.forall_mem_append.2 ⟨h.chars, List.forall_mem_cons.2 ⟨.inr (.inr rfl), fun d hd => ?_⟩⟩
  exact isNameChar_of_isDigit (Nat.isDigit_of_mem_toDigits (by decide) (by decide) hd)

theorem beginsName_numbered (h : BeginsName name.toList) (n : ℕ) : BeginsName (numbered name n).toList := by
  rw [numbered, String.toList_append, String.toList_append, List.append_assoc]
  exact h.append _

/-- Made of names, names without repetition are names, and begin as they do. -/
theorem isName_of_mem_distinctFrom {used names : List String}
    (h : ∀ name ∈ names, IsName name ∧ BeginsName name.toList) :
    ∀ name ∈ distinctFrom used names, IsName name ∧ BeginsName name.toList :=
  forall_mem_distinctFrom (fun hname n => ⟨hname.1.numbered n, beginsName_numbered hname.2 n⟩) h

/-! ### The search for names that are not used -/

/-- The search for a name that is not used, without a bound: a candidate that is not used is the result, and
after one that is used comes the name with the number that is next. -/
inductive Search (used : List String) (name : String) : String → ℕ → String → Prop
  | free {candidate : String} {n : ℕ} (h : candidate ∉ used) : Search used name candidate n candidate
  | taken {candidate result : String} {n : ℕ} (h : candidate ∈ used)
      (next : Search used name (numbered name n) (n + 1) result) : Search used name candidate n result

/-- A list of names is gone through: what the search for each comes to is used by then. -/
inductive Renames : List String → List String → List String → Prop
  | nil (used : List String) : Renames used [] []
  | cons {used names results : List String} {name result : String} (first : Search used name name 2 result)
      (rest : Renames (result :: used) names results) : Renames used (name :: names) (result :: results)

/-- The search has one result at most. -/
theorem Search.unique {used : List String} {candidate r r' : String} {n : ℕ}
    (h : Search used name candidate n r) (h' : Search used name candidate n r') : r = r' := by
  induction h with
  | free hfree =>
      cases h' with
      | free => rfl
      | taken htaken => exact absurd htaken hfree
  | taken htaken _ ih =>
      cases h' with
      | free hfree => exact absurd htaken hfree
      | taken _ next => exact ih next

/-- A bounded search that ends with a free name is an unbounded one. -/
theorem search_firstFree {used : List String} {fuel n : ℕ} (h : firstFree used name fuel n ∉ used) :
    Search used name (numbered name n) (n + 1) (firstFree used name fuel n) := by
  induction fuel generalizing n with
  | zero => exact .free h
  | succ fuel ih =>
      rw [firstFree] at h ⊢
      split at h
      · rename_i hused
        rw [if_pos hused]
        exact .taken (List.contains_iff_mem.1 hused) (ih h)
      · rename_i hfree
        rw [if_neg hfree]
        exact .free h

/-- **The search ends**, with the fresh name. -/
theorem search_fresh (used : List String) (name : String) : Search used name name 2 (fresh used name) := by
  have hfree := fresh_notMem used name
  rw [fresh] at hfree ⊢
  split at hfree
  · rename_i hused
    rw [if_pos hused]
    exact .taken (List.contains_iff_mem.1 hused) (search_firstFree hfree)
  · rename_i hunused
    rw [if_neg hunused]
    exact .free hfree

/-- **Going through a list ends**, and only with the names without repetition. -/
theorem renames_iff {used names results : List String} :
    Renames used names results ↔ results = distinctFrom used names := by
  induction names generalizing used results with
  | nil =>
      constructor
      · rintro ⟨⟩
        rfl
      · rintro rfl
        exact .nil used
  | cons name names ih =>
      constructor
      · rintro (_ | ⟨first, rest⟩)
        obtain rfl := first.unique (search_fresh used name)
        rw [distinctFrom, ih.1 rest]
      · rintro rfl
        exact .cons (search_fresh used name) (ih.2 rfl)

/-- A name that is not used, not even by then, stays. -/
theorem getElem?_distinctFrom {used names : List String} {i : ℕ} (hname : names[i]? = some name)
    (hused : name ∉ used) (hearlier : name ∉ (distinctFrom used names).take i) :
    (distinctFrom used names)[i]? = some name := by
  induction names generalizing used i with
  | nil => cases hname
  | cons first names ih =>
      cases i with
      | zero =>
          obtain rfl := Option.some.inj hname
          rw [distinctFrom, fresh, if_neg (by simpa using hused)]
          rfl
      | succ i =>
          rw [distinctFrom, List.take_succ_cons, List.mem_cons, not_or] at hearlier
          exact ih hname (List.not_mem_cons_of_ne_of_not_mem hearlier.1 hused) hearlier.2

/-- A number that an earlier name ends with is passed over. -/
example : distinct ["name_2", "name", "name", "file"] = ["name_2", "name", "name_3", "file_2"] := by
  decide +kernel

end ParamName

/-! ### The options of arguments -/

/-- The name of an option is made from the name that stands for it, or from the key of its argument. -/
theorem ArgOption.name_ofArg (a : Arg) (panel : String) :
    (ArgOption.ofArg a panel).name =
      ParamName.sanitize (((primaryName? a.options).bind nonEmpty?).getD a.var) := by
  rw [ArgOption.ofArg]

/-- **The names of the options of any arguments.** Going through the names that are made from the options or
the keys of the arguments ends, and only with the names that the options get. These are all different; each is
a name for a parameter, and neither one that every command uses for a parameter itself nor any other name of a
command; and a name that no command uses itself and no option before has got stays as it was made. -/
theorem ArgOption.sound_distinct (args : List (Arg × String)) :
    let os := args.map fun a => ArgOption.ofArg a.1 a.2
    let names := os.map (·.name)
    let results := (ArgOption.distinct os).map (·.name)
    (∀ found, ParamName.Renames ParamName.builtin names found ↔ found = results) ∧
      results.Nodup ∧
      (∀ n ∈ results, n ∉ ParamName.builtin ∧ ParamName.IsName n ∧ ¬ ParamName.IsHelper n) ∧
      ∀ i n, names[i]? = some n → n ∉ ParamName.builtin → n ∉ results.take i → results[i]? = some n := by
  have hmade : ∀ n ∈ (args.map fun a => ArgOption.ofArg a.1 a.2).map (·.name),
      ParamName.IsName n ∧ ParamName.BeginsName n.toList := by
    rw [List.map_map, List.forall_mem_map]
    intro a _
    rw [Function.comp_apply, ArgOption.name_ofArg]
    exact ⟨ParamName.isName_sanitize _, ParamName.beginsName_sanitize _⟩
  dsimp only
  generalize args.map (fun a => ArgOption.ofArg a.1 a.2) = os at hmade ⊢
  have hsound : ∀ n ∈ ParamName.distinctFrom ParamName.builtin (os.map (·.name)),
      ParamName.IsName n ∧ ParamName.BeginsName n.toList := ParamName.isName_of_mem_distinctFrom hmade
  have hnodup := ArgOption.nodup_distinct os
  rw [ArgOption.map_name_distinct, ParamName.distinct] at hnodup ⊢
  refine ⟨fun found => ParamName.renames_iff, hnodup, fun n hn => ?_, fun i n => ParamName.getElem?_distinctFrom⟩
  exact ⟨ParamName.notMem_of_mem_distinctFrom n hn, (hsound n hn).1,
    fun hhelper => hhelper.not_beginsName (hsound n hn).2⟩

end Restline
