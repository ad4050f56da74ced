import Mathlib.Data.List.Nodup
import Restline.CommandLine.Param

/-!
Names of parameters are free. A name that is taken gets a number, and one of the first numbers gives a
name that is not taken, since the numbered names are all different.

* `ParamName.fresh_notMem` : **a fresh name is not used**.
* `ArgOption.name_notMem_builtin` : no option of an argument has a name that every command uses itself.
* `ArgOption.nodup_distinct` : no two options of arguments have the same name.
* `ArgOption.dash_notMem_name` : their names have no dash.
-/

set_option autoImplicit false

namespace Restline

namespace ParamName

variable (used : List String) (name : String)

theorem numbered_injective : Function.Injective (numbered name) := by
  intro m n h
  have hrepr : Nat.repr m = Nat.repr n := (String.append_right_inj _).1 h
  have hdigits : Nat.toDigits 10 m = Nat.toDigits 10 n := by
    rw [← Nat.toList_repr, hrepr, Nat.toList_repr]
  calc
    m = Nat.ofDigitChars 10 (Nat.toDigits 10 m) 0 := Nat.ofDigitChars_ten_toDigits.symm
    _ = Nat.ofDigitChars 10 (Nat.toDigits 10 n) 0 := by rw [hdigits]
    _ = n := Nat.ofDigitChars_ten_toDigits

/-- The search ends with a free name, or every name that it looks at is used. -/
theorem firstFree_notMem_or (fuel n : Nat) :
    firstFree used name fuel n ∉ used ∨ ∀ k ≤ fuel, numbered name (n + k) ∈ used := by
  induction fuel generalizing n with
  | zero =>
      by_cases hused : numbered name n ∈ used
      · exact .inr fun k hk => by rwa [Nat.le_zero.1 hk, Nat.add_zero]
      · exact .inl hused
  | succ fuel ih =>
      by_cases hused : numbered name n ∈ used
      · rw [firstFree, if_pos (List.contains_iff_mem.2 hused)]
        refine (ih (n + 1)).imp_right fun hall k hk => ?_
        cases k with
        | zero => exact hused
        | succ k =>
            have hnext := hall k (Nat.le_of_succ_le_succ hk)
            rwa [Nat.add_assoc, Nat.add_comm 1] at hnext
      · rw [firstFree, if_neg (by simpa using hused)]
        exact .inl hused

/-- **A fresh name is not used**: more numbered names are looked at than there are used names. -/
theorem fresh_notMem : fresh used name ∉ used := by
  rw [fresh]
  split
  · refine (firstFree_notMem_or used name used.length 2).resolve_right fun hall => ?_
    -- the names that were looked at are all different and one more than the used ones
    have hsub : (List.range (used.length + 1)).map (fun k => numbered name (2 + k)) ⊆ used := by
      intro x hx
      obtain ⟨k, hk, rfl⟩ := List.mem_map.1 hx
      exact hall k (Nat.le_of_lt_succ (List.mem_range.1 hk))
    have hnodup : ((List.range (used.length + 1)).map fun k => numbered name (2 + k)).Nodup :=
      List.nodup_range.map fun _ _ h => Nat.add_left_cancel (numbered_injective name h)
    have hlength := hnodup.length_le_of_subset hsub
    rw [List.length_map, List.length_range] at hlength
    exact Nat.not_succ_le_self _ hlength
  · rename_i hfree
    simpa using hfree

theorem exists_firstFree_eq (fuel n : ℕ) :
    ∃ m, firstFree used name fuel n = numbered name m := by
  induction fuel generalizing n with
  | zero => exact ⟨n, rfl⟩
  | succ fuel ih =>
      rw [firstFree]
      split
      · exact ih (n + 1)
      · exact ⟨n, rfl⟩

/-- A fresh name is the name itself or one of its numbered forms. -/
theorem fresh_cases :
    fresh used name = name ∨ ∃ n, fresh used name = numbered name n := by
  rw [fresh]
  split
  · exact .inr (exists_firstFree_eq used name _ _)
  · exact .inl rfl

theorem notMem_of_mem_distinctFrom {used names : List String} :
    ∀ n ∈ distinctFrom used names, n ∉ used := by
  induction names generalizing used with
  | nil => exact fun n hn => absurd hn List.not_mem_nil
  | cons name names ih =>
      intro n hn
      rcases List.mem_cons.1 hn with rfl | hn
      · exact fresh_notMem used name
      · exact fun hused => ih n hn (List.mem_cons_of_mem _ hused)

theorem nodup_distinctFrom (used names : List String) : (distinctFrom used names).Nodup := by
  induction names generalizing used with
  | nil => exact List.nodup_nil
  | cons name names ih =>
      refine List.nodup_cons.2 ⟨fun hmem => ?_, ih _⟩
      exact notMem_of_mem_distinctFrom _ hmem List.mem_cons_self

theorem length_distinctFrom (used names : List String) :
    (distinctFrom used names).length = names.length := by
  induction names generalizing used with
  | nil => rfl
  | cons name names ih => rw [distinctFrom, List.length_cons, List.length_cons, ih]

/-! ### Characters of names -/

theorem nameChar_ne_dash (c : Char) : nameChar c ≠ '-' := by
  rw [nameChar]
  split
  · rintro rfl
    rename_i h
    exact absurd h (by decide)
  · decide

theorem mem_of_mem_collapse {c : Char} {cs : List Char} (h : c ∈ collapse cs) : c ∈ cs := by
  fun_induction collapse cs with
  | case1 r ih => exact List.mem_cons_of_mem _ (ih h)
  | case2 d r hd ih =>
      rcases List.mem_cons.1 h with rfl | h
      · exact List.mem_cons_self
      · exact List.mem_cons_of_mem _ (ih h)
  | case3 => exact h

theorem mem_of_mem_stripUnderscores {c : Char} {cs : List Char} (h : c ∈ stripUnderscores cs) : c ∈ cs := by
  rw [stripUnderscores, Text.dropTrailing, List.mem_reverse] at h
  exact (List.dropWhile_suffix _).subset (List.mem_reverse.1 ((List.dropWhile_suffix _).subset h))

/-- A name has no dash. -/
theorem dash_notMem_sanitize (s : String) : '-' ∉ (sanitize s).toList := by
  have hbare : '-' ∉ bareChars s.toList := fun h => by
    obtain ⟨c, -, hc⟩ := List.mem_map.1 (mem_of_mem_collapse (mem_of_mem_stripUnderscores h))
    exact nameChar_ne_dash c hc
  have hcomplete : '-' ∉ complete (bareChars s.toList) := by
    cases hchars : bareChars s.toList with
    | nil => decide
    | cons c r =>
        rw [hchars] at hbare
        rw [complete]
        split
        · exact List.not_mem_cons_of_ne_of_not_mem (by decide) hbare
        · exact hbare
  rw [sanitize, unreserve]
  split
  · simpa using hcomplete
  · simpa using hcomplete

theorem dash_notMem_numbered {name : String} (h : '-' ∉ name.toList) (n : ℕ) :
    '-' ∉ (numbered name n).toList := by
  have hdigits : '-' ∉ Nat.toDigits 10 n := fun hmem =>
    absurd (Nat.isDigit_of_mem_toDigits (by decide) (by decide) hmem) (by decide)
  simp [numbered, h, hdigits]

/-- What holds of names, and of a name with a number if it holds of the name, holds of the names without
repetition. -/
theorem forall_mem_distinctFrom {P : String → Prop} (hnumbered : ∀ {name}, P name → ∀ n, P (numbered name n))
    {used names : List String} (h : ∀ name ∈ names, P name) : ∀ name ∈ distinctFrom used names, P name := by
  induction names generalizing used with
  | nil => nofun
  | cons name names ih =>
      rw [List.forall_mem_cons] at h
      rw [distinctFrom, List.forall_mem_cons]
      refine ⟨?_, ih h.2⟩
      rcases fresh_cases used name with hfresh | ⟨n, hfresh⟩
      · rw [hfresh]
        exact h.1
      · rw [hfresh]
        exact hnumbered h.1 n

theorem dash_notMem_distinctFrom {used names : List String} (h : ∀ name ∈ names, '-' ∉ name.toList) :
    ∀ name ∈ distinctFrom used names, '-' ∉ name.toList :=
  forall_mem_distinctFrom (P := fun name => '-' ∉ name.toList) dash_notMem_numbered h

end ParamName

/-- No option of an argument has a name that every command uses itself. -/
theorem ArgOption.name_notMem_builtin {os : List ArgOption} :
    ∀ o ∈ ArgOption.distinct os, o.name ∉ ParamName.builtin := by
  intro o ho
  rw [ArgOption.distinct, ← List.map_uncurry_zip_eq_zipWith] at ho
  obtain ⟨⟨o', n⟩, hzip, rfl⟩ := List.mem_map.1 ho
  exact ParamName.notMem_of_mem_distinctFrom n (List.of_mem_zip hzip).2

theorem ArgOption.map_name_distinct (os : List ArgOption) :
    (ArgOption.distinct os).map (·.name) = ParamName.distinct (os.map (·.name)) := by
  have hlen : (ParamName.distinct (os.map (·.name))).length = os.length := by
    rw [ParamName.distinct, ParamName.length_distinctFrom, List.length_map]
  calc
    (ArgOption.distinct os).map (·.name)
        = (List.zip os (ParamName.distinct (os.map (·.name)))).map Prod.snd := by
          rw [ArgOption.distinct, List.map_zipWith, List.zip, List.map_zipWith]
    _ = ParamName.distinct (os.map (·.name)) := List.map_snd_zip (Nat.le_of_eq hlen)

/-- The names of the options of arguments are all different. -/
theorem ArgOption.nodup_distinct (os : List ArgOption) :
    ((ArgOption.distinct os).map (·.name)).Nodup := by
  rw [map_name_distinct]
  exact ParamName.nodup_distinctFrom _ _

/-- The name of an option of an argument has no dash, unlike every flag. -/
theorem ArgOption.dash_notMem_name {os : List ArgOption} (h : ∀ o ∈ os, '-' ∉ o.name.toList) :
    ∀ o ∈ ArgOption.distinct os, '-' ∉ o.name.toList := by
  intro o ho
  have hname : o.name ∈ (ArgOption.distinct os).map (·.name) := List.mem_map_of_mem ho
  rw [map_name_distinct] at hname
  exact ParamName.dash_notMem_distinctFrom (List.forall_mem_map.2 h) _ hname

end Restline
