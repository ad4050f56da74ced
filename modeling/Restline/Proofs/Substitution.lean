import Restline.Proofs.Segments

/-!
Replacement of a part wherever it stands. Characters are nothing, a copy of the part and further
characters, or a character at which no copy begins and further characters; what replacement does is
proved along these cases.

* `replace_induction` : characters along the copies of a part.
* `replaceFrom_append_cons` : replacement on both sides of a separator that the part does not hold.
* `count_replaceFrom` : how often a character stands in the result.
* `segments_replaceAll` : **replacement segment by segment**.
-/

set_option autoImplicit false

namespace Restline.Text

section

variable {part new : List Char} {c : Char}

/-! ### Copies of a part -/

theorem replaceFrom_eq_drop (part new : List Char) (skip : Nat) (l : List Char) :
    replaceFrom part new skip l = replaceFrom part new 0 (l.drop skip) := by
  induction l generalizing skip with
  | nil => cases skip <;> rfl
  | cons d r ih =>
      cases skip with
      | zero => rfl
      | succ skip => rw [replaceFrom, ih, List.drop_succ_cons]

/-- A copy of the part is replaced. -/
theorem replaceFrom_append (hpart : part ≠ []) (new l : List Char) :
    replaceFrom part new 0 (part ++ l) = new ++ replaceFrom part new 0 l := by
  cases part with
  | nil => exact absurd rfl hpart
  | cons d r =>
      have hprefix : (d :: r).isPrefixOf (d :: (r ++ l)) = true :=
        List.isPrefixOf_iff_prefix.2 (List.prefix_append (d :: r) l)
      rw [List.cons_append, replaceFrom, if_pos hprefix, replaceFrom_eq_drop]
      simp

/-- A character at which no copy of the part begins stays. -/
theorem replaceFrom_cons {l : List Char} (h : ¬ part <+: c :: l) (new : List Char) :
    replaceFrom part new 0 (c :: l) = c :: replaceFrom part new 0 l := by
  rw [replaceFrom, if_neg fun hc => h (List.isPrefixOf_iff_prefix.1 hc)]

/-- Characters are none, a copy of the part and further ones, or one at which no copy begins and
further ones. -/
theorem replace_induction (hpart : part ≠ []) {motive : List Char → Prop} (nil : motive [])
    (copy : ∀ l, motive l → motive (part ++ l))
    (other : ∀ c l, ¬ part <+: c :: l → motive l → motive (c :: l)) (l : List Char) : motive l := by
  induction h : l.length using Nat.strong_induction_on generalizing l with
  | _ n ih =>
      by_cases hp : part <+: l
      · obtain ⟨rest, rfl⟩ := hp
        have hpos := List.length_pos_iff.2 hpart
        rw [List.length_append] at h
        exact copy rest (ih rest.length (by omega) rest rfl)
      · cases l with
        | nil => exact nil
        | cons c r =>
            rw [List.length_cons] at h
            exact other c r hp (ih r.length (by omega) r rfl)

/-- A part that lacks a character and begins in front of it ends in front of it. -/
theorem prefix_of_prefix_append_cons (hc : c ∉ part) {a b : List Char} (h : part <+: a ++ c :: b) :
    part <+: a := by
  rcases List.prefix_or_prefix_of_prefix h (List.prefix_append a (c :: b)) with ha | ha
  · exact ha
  · obtain ⟨rest, rfl⟩ := ha
    have hrest : rest <+: c :: b := (List.prefix_append_right_inj a).1 h
    cases rest with
    | nil => simp
    | cons d r =>
        obtain ⟨rfl, -⟩ := List.cons_prefix_cons.1 hrest
        exact absurd (List.mem_append_right a List.mem_cons_self) hc

/-! ### What replacement leaves -/

/-- Replacement goes on by itself behind a character that the part does not hold. -/
theorem replaceFrom_append_cons (hpart : part ≠ []) (hc : c ∉ part) (new a b : List Char) :
    replaceFrom part new 0 (a ++ c :: b) =
      replaceFrom part new 0 a ++ c :: replaceFrom part new 0 b := by
  induction a using replace_induction hpart with
  | nil =>
      refine replaceFrom_cons (fun h => ?_) new
      exact hpart (List.prefix_nil.1 (prefix_of_prefix_append_cons hc (a := []) h))
  | copy a ih =>
      rw [List.append_assoc, replaceFrom_append hpart, ih, replaceFrom_append hpart,
        List.append_assoc]
  | other d a hd ih =>
      have hcopy : ¬ part <+: d :: (a ++ c :: b) := fun h =>
        hd (prefix_of_prefix_append_cons hc (a := d :: a) h)
      rw [List.cons_append, replaceFrom_cons hcopy, ih, replaceFrom_cons hd, List.cons_append]

/-- Without a copy of the part, nothing is replaced. -/
theorem replaceFrom_of_not_infix {l : List Char} (h : ¬ part <:+: l) (new : List Char) :
    replaceFrom part new 0 l = l := by
  induction l with
  | nil => rfl
  | cons c r ih =>
      rw [replaceFrom_cons fun hp => h hp.isInfix,
        ih fun hr => h (hr.trans (List.suffix_cons c r).isInfix)]

/-- A character that the part does not hold stands in the result where it stood, and in each copy of
what was put in. -/
theorem count_replaceFrom (hpart : part ≠ []) (hc : c ∉ part) (new l : List Char) :
    ∃ copies, (replaceFrom part new 0 l).count c = l.count c + copies * new.count c ∧
      (0 < copies ↔ part <:+: l) := by
  induction l using replace_induction hpart with
  | nil => exact ⟨0, by simp [replaceFrom], by simp [hpart]⟩
  | copy l ih =>
      obtain ⟨copies, hcount, -⟩ := ih
      refine ⟨copies + 1, ?_, iff_of_true (Nat.succ_pos copies) (List.prefix_append part l).isInfix⟩
      rw [replaceFrom_append hpart, List.count_append, hcount, List.count_append,
        List.count_eq_zero_of_not_mem hc, Nat.succ_mul]
      omega
  | other d l hd ih =>
      obtain ⟨copies, hcount, hpos⟩ := ih
      refine ⟨copies, ?_, by rw [hpos, List.infix_cons_iff, or_iff_right hd]⟩
      rw [replaceFrom_cons hd, List.count_cons, hcount, List.count_cons]
      omega

end

/-! ### Texts -/

variable {c : Char} {part new s : String}

theorem toList_ne_nil (h : s ≠ "") : s.toList ≠ [] := fun hs => h (String.ext hs)

theorem toList_replaceAll (part new s : String) :
    (replaceAll part new s).toList = replaceFrom part.toList new.toList 0 s.toList := by
  rw [replaceAll, String.toList_ofList]

theorem contains_iff : contains s part = true ↔ part.toList <:+: s.toList := by
  rw [contains]
  generalize s.toList = l
  induction l with
  | nil => simp [occursIn]
  | cons d r ih => simp [occursIn, ih, List.infix_cons_iff]

theorem replaceAll_of_not_infix (h : ¬ part.toList <:+: s.toList) (new : String) :
    replaceAll part new s = s := by
  rw [replaceAll, replaceFrom_of_not_infix h, String.ofList_toList]

/-- The part itself becomes what is put in. -/
theorem replaceAll_self (hpart : part ≠ "") (new : String) : replaceAll part new part = new := by
  have h := replaceFrom_append (toList_ne_nil hpart) new.toList []
  rw [List.append_nil] at h
  rw [replaceAll, h, replaceFrom, List.append_nil, String.ofList_toList]

/-- **Replacement segment by segment**: no separator stands in the part or in what is put in. -/
theorem segments_replaceAll (hpart : part ≠ "") (hc : c ∉ part.toList) (hnew : c ∉ new.toList)
    (s : String) : segments c (replaceAll part new s) = (segments c s).map (replaceAll part new) := by
  have hpart' := toList_ne_nil hpart
  have hnone : ∀ s : String, c ∉ s.toList → c ∉ (replaceAll part new s).toList := by
    intro s hs
    obtain ⟨copies, hcount, -⟩ := count_replaceFrom hpart' hc new.toList s.toList
    rw [toList_replaceAll, ← List.count_eq_zero, hcount, List.count_eq_zero_of_not_mem hs,
      List.count_eq_zero_of_not_mem hnew]
    omega
  induction s using segments_induction (c := c) with
  | last s hs =>
      rw [segments_of_notMem hs, segments_of_notMem (hnone s hs), List.map_singleton]
  | step s t u ht hs ih =>
      have hreplaced : (replaceAll part new s).toList =
          (replaceAll part new t).toList ++ c :: (replaceAll part new u).toList := by
        simp only [toList_replaceAll, hs, replaceFrom_append_cons hpart' hc]
      rw [segments_append hreplaced, ih, segments_append hs, List.map_append, segments_of_notMem ht,
        segments_of_notMem (hnone t ht), List.map_singleton]

/-- The result has the same number of segments exactly when no separator is put in. -/
theorem count_replaceAll (hpart : part ≠ "") (hc : c ∉ part.toList) (new s : String) :
    s.toList.count c ≤ (replaceAll part new s).toList.count c ∧
      ((replaceAll part new s).toList.count c = s.toList.count c ↔
        (contains s part = true → c ∉ new.toList)) := by
  obtain ⟨copies, hcount, hpos⟩ := count_replaceFrom (toList_ne_nil hpart) hc new.toList s.toList
  rw [toList_replaceAll, hcount, contains_iff, ← hpos, ← List.count_eq_zero]
  refine ⟨Nat.le_add_right _ _, ?_⟩
  rw [Nat.add_eq_left, Nat.mul_eq_zero]
  omega

end Restline.Text
