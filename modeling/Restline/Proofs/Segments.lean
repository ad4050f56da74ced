import Mathlib.Data.List.DropRight
import Restline.Text.Segments

/-!
Segments of texts. A text is its first segment, or its first segment, a separator and a further text;
what is said of all texts by their segments is proved along these two cases.

* `segments_induction` : a text along its segments.
* `segments_append` : the segments of two texts with a separator between them.
* `dropLast_append_lastSegment`, `eq_append_lastSegment` : the last segment and what stands before it.
* `lastSegment_eq_empty_iff`, `withoutTrailing_eq_self` : texts that end in a separator.
* `segments_eq_append_replicate` : separators at the end add empty segments only.
-/

set_option autoImplicit false

namespace Restline.Text

variable {c : Char} {s t u : String}

/-! ### Texts along their segments -/

/-- A text has no separator, or it is a text without one, a separator and a further text. -/
theorem segments_induction {motive : String → Prop}
    (last : ∀ s : String, c ∉ s.toList → motive s)
    (step : ∀ s t u : String, c ∉ t.toList → s.toList = t.toList ++ c :: u.toList →
      motive u → motive s) (s : String) : motive s := by
  induction h : s.toList.length using Nat.strong_induction_on generalizing s with
  | _ n ih =>
      by_cases hc : c ∈ s.toList
      · obtain ⟨front, back, hs, hfront⟩ := List.eq_append_cons_of_mem hc
        refine step s (.ofList front) (.ofList back) (by simpa using hfront) (by simpa using hs) ?_
        refine ih back.length ?_ _ (by simp)
        rw [← h, hs, List.length_append, List.length_cons]
        omega
      · exact last s hc

theorem segments_of_notMem (h : c ∉ s.toList) : segments c s = [s] := by
  rw [segments, List.splitOn_eq_singleton h, List.map_singleton, String.ofList_toList]

/-- The segments of two texts with a separator between them. -/
theorem segments_append (h : s.toList = t.toList ++ c :: u.toList) :
    segments c s = segments c t ++ segments c u := by
  simp only [segments, h, List.splitOn_append_cons_self, List.map_append]

theorem segments_ne_nil (c : Char) (s : String) : segments c s ≠ [] := by
  rw [segments, ne_eq, List.map_eq_nil_iff]
  exact List.splitOn_ne_nil c s.toList

/-- A segment holds no separator. -/
theorem notMem_of_mem_segments (h : t ∈ segments c s) : c ∉ t.toList := by
  induction s using segments_induction (c := c) with
  | last s hs =>
      rw [segments_of_notMem hs, List.mem_singleton] at h
      rwa [h]
  | step s v u hv hs ih =>
      rw [segments_append hs, segments_of_notMem hv] at h
      rcases List.mem_append.1 h with h | h
      · rwa [List.mem_singleton.1 h]
      · exact ih h

/-- A text has one segment more than separators. -/
theorem length_segments (c : Char) (s : String) :
    (segments c s).length = s.toList.count c + 1 := by
  induction s using segments_induction (c := c) with
  | last s hs =>
      rw [segments_of_notMem hs, List.count_eq_zero_of_not_mem hs, List.length_singleton]
  | step s v u hv hs ih =>
      rw [segments_append hs, segments_of_notMem hv, hs, List.length_append, ih, List.count_append,
        List.count_cons_self, List.count_eq_zero_of_not_mem hv, List.length_singleton]
      omega

/-- A segment of a text stands in the text. -/
theorem infix_of_mem_segments (h : t ∈ segments c s) : t.toList <:+: s.toList := by
  induction s using segments_induction (c := c) with
  | last s hs =>
      rw [segments_of_notMem hs, List.mem_singleton] at h
      subst h
      exact List.infix_rfl
  | step s v u hv hs ih =>
      rw [segments_append hs, segments_of_notMem hv] at h
      rw [hs]
      rcases List.mem_append.1 h with h | h
      · rw [List.mem_singleton.1 h]
        exact (List.prefix_append _ _).isInfix
      · exact (ih h).trans ((List.suffix_cons _ _).trans (List.suffix_append _ _)).isInfix

/-- A part without separators at the end of a text is the end of a segment. -/
theorem exists_segment_of_suffix {part : List Char} (hpart : c ∉ part)
    (h : part <:+ s.toList) : ∃ t ∈ segments c s, part <:+ t.toList := by
  induction s using segments_induction (c := c) with
  | last s hs => exact ⟨s, by rw [segments_of_notMem hs]; exact List.mem_singleton_self s, h⟩
  | step s v u hv hs ih =>
      have hu : part <:+ u.toList := by
        have hrest : c :: u.toList <:+ s.toList := ⟨v.toList, hs.symm⟩
        rcases List.suffix_or_suffix_of_suffix h hrest with h | h
        · rcases List.suffix_cons_iff.1 h with rfl | h
          · exact absurd List.mem_cons_self hpart
          · exact h
        · exact absurd (h.mem List.mem_cons_self) hpart
      obtain ⟨t, ht, hpt⟩ := ih hu
      exact ⟨t, by rw [segments_append hs]; exact List.mem_append_right _ ht, hpt⟩

/-! ### The last segment -/

theorem lastSegment_of_notMem (h : c ∉ s.toList) : lastSegment c s = s := by
  rw [lastSegment, segments_of_notMem h, List.getLast?_singleton, Option.getD_some]

theorem lastSegment_append (h : s.toList = t.toList ++ c :: u.toList) :
    lastSegment c s = lastSegment c u := by
  rw [lastSegment, segments_append h, List.getLast?_append_of_ne_nil _ (segments_ne_nil c u),
    lastSegment]

/-- The last segment comes after all others. -/
theorem dropLast_append_lastSegment (c : Char) (s : String) :
    (segments c s).dropLast ++ [lastSegment c s] = segments c s := by
  rw [lastSegment, List.getLast?_eq_some_getLast (segments_ne_nil c s), Option.getD_some]
  exact List.dropLast_append_getLast (segments_ne_nil c s)

theorem getLast?_segments (c : Char) (s : String) :
    (segments c s).getLast? = some (lastSegment c s) := by
  rw [← dropLast_append_lastSegment, List.getLast?_concat]

/-- A text with a separator is a text with all segments but the last, a separator and the last
segment. -/
theorem eq_append_lastSegment (h : c ∈ s.toList) :
    ∃ t : String, s.toList = t.toList ++ c :: (lastSegment c s).toList ∧
      segments c t = (segments c s).dropLast := by
  induction s using segments_induction (c := c) with
  | last s hs => exact absurd h hs
  | step s v u hv hs ih =>
      rw [lastSegment_append hs, segments_append hs, segments_of_notMem hv,
        List.dropLast_append_of_ne_nil (segments_ne_nil c u)]
      by_cases hc : c ∈ u.toList
      · obtain ⟨t, hu, ht⟩ := ih hc
        refine ⟨.ofList (v.toList ++ c :: t.toList), by rw [hs, hu]; simp, ?_⟩
        rw [segments_append (t := v) (u := t) (by simp), segments_of_notMem hv, ht]
      · refine ⟨v, by rw [lastSegment_of_notMem hc]; exact hs, ?_⟩
        rw [segments_of_notMem hc, segments_of_notMem hv]
        rfl

/-! ### Separators at the end -/

/-- The last segment is empty when nothing or a separator ends the text. -/
theorem lastSegment_eq_empty_iff :
    lastSegment c s = "" ↔ s = "" ∨ s.toList.getLast? = some c := by
  induction s using segments_induction (c := c) with
  | last s hs =>
      rw [lastSegment_of_notMem hs, or_iff_left]
      exact fun hc => hs (List.mem_of_getLast? hc)
  | step s v u hv hs ih =>
      have hne : s ≠ "" := by
        rintro rfl
        simp at hs
      rw [lastSegment_append hs, ih, or_iff_right hne, hs]
      cases hu : u.toList with
      | nil => simp [String.ext_iff, hu]
      | cons d r => simp [String.ext_iff, hu, List.getLast?_append]

theorem withoutTrailing_eq_self (h : s.toList.getLast? ≠ some c) : withoutTrailing c s = s := by
  have hdrop : dropTrailing c s.toList = s.toList := by
    refine List.rdropWhile_eq_self_iff.2 fun hne heq => h ?_
    rw [List.getLast?_eq_some_getLast hne, beq_iff_eq.1 heq]
  rw [withoutTrailing, hdrop, String.ofList_toList]

/-- A text whose last segment is not empty loses nothing at its end. -/
theorem withoutTrailing_of_lastSegment_ne (h : lastSegment c s ≠ "") : withoutTrailing c s = s :=
  withoutTrailing_eq_self fun hlast => h (lastSegment_eq_empty_iff.2 (.inr hlast))

/-- What is left without the separators at the end does not end in one. -/
theorem getLast?_withoutTrailing (c : Char) (s : String) :
    (withoutTrailing c s).toList.getLast? ≠ some c := by
  intro h
  rw [withoutTrailing, String.toList_ofList] at h
  have hne : dropTrailing c s.toList ≠ [] := by
    intro hnil
    rw [hnil] at h
    cases h
  refine List.rdropWhile_last_not (· == c) s.toList hne ?_
  rw [List.getLast?_eq_some_getLast hne, Option.some_inj] at h
  exact beq_iff_eq.2 h

theorem withoutTrailing_idem (c : Char) (s : String) :
    withoutTrailing c (withoutTrailing c s) = withoutTrailing c s :=
  withoutTrailing_eq_self (getLast?_withoutTrailing c s)

theorem lastSegment_withoutTrailing_ne (h : withoutTrailing c s ≠ "") :
    lastSegment c (withoutTrailing c s) ≠ "" := by
  intro hlast
  rcases lastSegment_eq_empty_iff.1 hlast with hempty | hlast
  · exact h hempty
  · exact getLast?_withoutTrailing c s hlast

theorem segments_replicate (c : Char) (k : Nat) :
    segments c (.ofList (List.replicate k c)) = List.replicate (k + 1) "" := by
  induction k with
  | zero => exact segments_of_notMem (by simp)
  | succ k ih =>
      rw [segments_append (t := "") (u := .ofList (List.replicate k c)) (by simp [List.replicate_succ]),
        ih, segments_of_notMem (by simp)]
      rfl

/-- Separators at the end add empty segments only. -/
theorem segments_eq_append_replicate (c : Char) (s : String) :
    ∃ k, segments c s = segments c (withoutTrailing c s) ++ List.replicate k "" := by
  have hs : s.toList = (withoutTrailing c s).toList ++ s.toList.rtakeWhile (· == c) := by
    rw [withoutTrailing, String.toList_ofList]
    exact List.rdropWhile_append_rtakeWhile.symm
  have htail : s.toList.rtakeWhile (· == c) =
      List.replicate (s.toList.rtakeWhile (· == c)).length c :=
    List.eq_replicate_of_mem fun x hx => beq_iff_eq.1 (List.mem_rtakeWhile_imp (p := (· == c)) hx)
  rw [htail] at hs
  cases h : (s.toList.rtakeWhile (· == c)).length with
  | zero =>
      refine ⟨0, ?_⟩
      rw [h, List.replicate_zero, List.append_nil] at hs
      rw [← String.ext hs, List.replicate_zero, List.append_nil]
  | succ k =>
      refine ⟨k + 1, ?_⟩
      rw [h, List.replicate_succ] at hs
      rw [← segments_replicate c k]
      exact segments_append (by rw [String.toList_ofList]; exact hs)

end Restline.Text
