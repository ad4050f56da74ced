import Restline.Proofs.Segments
import Restline.Text.Case

/-!
Upper case as ASCII sees it. A few letters outside ASCII have ASCII letters in their upper case, and none
of these is in an upper case itself; and no letter but the slash has a slash in its upper case.

* `asciiSources` : the letters outside ASCII with ASCII letters in their upper case.
* `upper_upper_of_ascii` : **an upper case that is ASCII is its own upper case**.
* `segments_upper` : **the segments of an upper case are the upper cases of the segments**.
* `withoutTrailing_upper` : slashes at the end of an upper case are those at the end of the text.
-/

set_option autoImplicit false

namespace Restline.Text

/-! ### Characters -/

/-- What holds of each letter of a text is decided along the text, and not by trying all characters. -/
instance decidableForallMem (l : List Char) (P : Char → Prop) [DecidablePred P] :
    Decidable (∀ c ∈ l, P c) :=
  List.decidableBAll P l

/-- A fact on ASCII is one on 128 code points. -/
theorem ascii_all {P : Char → Prop} (h : ∀ n < 128, P (Char.ofNat n)) {c : Char}
    (hc : c.toNat < 128) : P c := by
  have hn := h c.toNat hc
  rwa [Char.ofNat_toNat] at hn

theorem toNat_ofNat_of_valid {n : Nat} (h : n.isValidChar) : (Char.ofNat n).toNat = n := by
  rw [Char.ofNat, dif_pos h]
  rfl

theorem toNat_ofNat_eq_or (n : Nat) : (Char.ofNat n).toNat = n ∨ (Char.ofNat n).toNat = 0 := by
  by_cases h : n.isValidChar
  · exact .inl (toNat_ofNat_of_valid h)
  · rw [Char.ofNat, dif_neg h]
    exact .inr rfl

/-- The upper case of a letter outside ASCII: an expansion, a letter of a run, or the letter itself. -/
theorem upperChar_cases {c : Char} (hc : 128 ≤ c.toNat) :
    (∃ e ∈ upperExpansions, e.1 = c.toNat ∧ upperChar c = e.2.map Char.ofNat) ∨
      (∃ r ∈ upperRuns, r.holds c.toNat = true ∧
        upperChar c = [Char.ofNat (Int.toNat (c.toNat + r.shift))]) ∨
      upperChar c = [c] := by
  rw [upperChar, if_neg (by omega)]
  cases he : upperExpansions.find? (fun e => e.1 == c.toNat) with
  | some e =>
      exact .inl ⟨e, List.mem_of_find?_eq_some he, by simpa using List.find?_some he, rfl⟩
  | none =>
      cases hr : upperRuns.find? (fun r => r.holds c.toNat) with
      | some r =>
          exact .inr (.inl ⟨r, List.mem_of_find?_eq_some hr, by simpa using List.find?_some hr, rfl⟩)
      | none => exact .inr (.inr rfl)

theorem CaseRun.le_of_holds {r : CaseRun} {n : Nat} (h : r.holds n = true) :
    r.first ≤ n ∧ n ≤ r.last := by
  simp only [CaseRun.holds, Bool.and_eq_true, decide_eq_true_eq] at h
  exact h.1

/-! ### ASCII letters in upper cases -/

/-- The letters outside ASCII with ASCII letters in their upper case. -/
def asciiSources : List Nat :=
  [223, 305, 329, 383, 496, 7830, 7831, 7832, 7833, 7834, 64256, 64257, 64258, 64259, 64260, 64261,
    64262]

/-- An expansion is not empty, holds no letter of the list, and is of one of these or outside ASCII. -/
theorem asciiSources_of_expansion :
    ∀ e ∈ upperExpansions, e.2 ≠ [] ∧ (∀ n ∈ e.2, (Char.ofNat n).toNat ∉ asciiSources) ∧
      (e.1 ∈ asciiSources ∨ ∀ n ∈ e.2, 128 ≤ (Char.ofNat n).toNat) := by
  decide +kernel

/-- A run is carried past the letters of the list, and is of one of these or stays outside ASCII. -/
theorem asciiSources_of_run :
    ∀ r ∈ upperRuns, (∀ x ∈ asciiSources, x < r.first + r.shift ∨ r.last + r.shift < x) ∧
      (128 ≤ r.first + r.shift ∧ r.last + r.shift < 0xD800 ∨
        0xE000 ≤ r.first + r.shift ∧ r.last + r.shift < 0x110000 ∨
        r.first = r.last ∧ r.first ∈ asciiSources) := by
  decide +kernel

theorem upperChar_asciiSource :
    ∀ x ∈ asciiSources, ∀ d ∈ upperChar (Char.ofNat x),
      d ≠ Char.ofNat x ∧ d ≠ '/' ∧ (d.toNat < 128 → upperChar d = [d]) := by
  decide +kernel

/-- The upper case of an ASCII letter is its own upper case, no letter of the list, and no new slash. -/
theorem upperChar_ascii {c : Char} (hc : c.toNat < 128) :
    (∀ d ∈ upperChar c, d.toNat ∉ asciiSources ∧ upperChar d = [d]) ∧
      (c ≠ '/' → '/' ∉ upperChar c) :=
  ascii_all (P := fun c => (∀ d ∈ upperChar c, d.toNat ∉ asciiSources ∧ upperChar d = [d]) ∧
    (c ≠ '/' → '/' ∉ upperChar c)) (by decide +kernel) hc

theorem upperChar_slash : upperChar '/' = ['/'] := by
  decide +kernel

/-- A letter outside ASCII with an ASCII letter in its upper case is one of the list. -/
theorem mem_asciiSources {c d : Char} (hc : 128 ≤ c.toNat) (hd : d ∈ upperChar c)
    (hascii : d.toNat < 128) : c.toNat ∈ asciiSources := by
  rcases upperChar_cases hc with ⟨e, he, hec, heq⟩ | ⟨r, hr, hholds, heq⟩ | heq
  · rw [heq] at hd
    obtain ⟨n, hn, rfl⟩ := List.mem_map.1 hd
    rcases (asciiSources_of_expansion e he).2.2 with h | h
    · rwa [← hec]
    · exact absurd (h n hn) (by omega)
  · obtain ⟨hfirst, hlast⟩ := CaseRun.le_of_holds hholds
    rw [heq, List.mem_singleton] at hd
    subst hd
    rcases (asciiSources_of_run r hr).2 with h | h | ⟨hone, h⟩
    · rw [toNat_ofNat_of_valid (.inl (by omega))] at hascii
      omega
    · rw [toNat_ofNat_of_valid (.inr (by omega))] at hascii
      omega
    · have hcr : c.toNat = r.first := by omega
      rwa [hcr]
  · rw [heq, List.mem_singleton] at hd
    subst hd
    omega

/-- No upper case holds a letter of the list. -/
theorem notMem_asciiSources {c d : Char} (hd : d ∈ upperChar c) : d.toNat ∉ asciiSources := by
  by_cases hc : c.toNat < 128
  · exact ((upperChar_ascii hc).1 d hd).1
  · rcases upperChar_cases (c := c) (by omega) with ⟨e, he, hec, heq⟩ | ⟨r, hr, hholds, heq⟩ | heq
    · rw [heq] at hd
      obtain ⟨n, hn, rfl⟩ := List.mem_map.1 hd
      exact (asciiSources_of_expansion e he).2.1 n hn
    · obtain ⟨hfirst, hlast⟩ := CaseRun.le_of_holds hholds
      rw [heq, List.mem_singleton] at hd
      subst hd
      intro hmem
      rcases toNat_ofNat_eq_or (Int.toNat (c.toNat + r.shift)) with h | h
      · rw [h] at hmem
        have := (asciiSources_of_run r hr).1 _ hmem
        have hpos : ∀ x ∈ asciiSources, 0 < x := by decide
        have := hpos _ hmem
        omega
      · rw [h] at hmem
        exact absurd hmem (by decide)
    · intro hmem
      have hmoved := upperChar_asciiSource _ hmem d
      rw [heq, List.mem_singleton] at hd
      subst hd
      rw [Char.ofNat_toNat] at hmoved
      exact (hmoved (by rw [heq]; exact List.mem_singleton_self d)).1 rfl

/-- An ASCII letter of an upper case is its own upper case. -/
theorem upperChar_of_ascii {c d : Char} (hd : d ∈ upperChar c) (hascii : d.toNat < 128) :
    upperChar d = [d] := by
  by_cases hc : c.toNat < 128
  · exact ((upperChar_ascii hc).1 d hd).2
  · have hmoved := upperChar_asciiSource _ (mem_asciiSources (by omega) hd hascii) d
    rw [Char.ofNat_toNat] at hmoved
    exact (hmoved hd).2.2 hascii

/-- No letter but the slash has a slash in its upper case. -/
theorem slash_notMem_upperChar {c : Char} (h : c ≠ '/') : '/' ∉ upperChar c := by
  intro hd
  by_cases hc : c.toNat < 128
  · exact (upperChar_ascii hc).2 h hd
  · have hmoved := upperChar_asciiSource _ (mem_asciiSources (by omega) hd (by decide)) '/'
    rw [Char.ofNat_toNat] at hmoved
    exact (hmoved hd).2.1 rfl

theorem upperChar_ne_nil (c : Char) : upperChar c ≠ [] := by
  by_cases hc : c.toNat < 128
  · rw [upperChar, if_pos hc]
    exact List.cons_ne_nil _ _
  · rcases upperChar_cases (c := c) (by omega) with ⟨e, he, -, heq⟩ | ⟨r, -, -, heq⟩ | heq
    · rw [heq, ne_eq, List.map_eq_nil_iff]
      exact (asciiSources_of_expansion e he).1
    · rw [heq]
      exact List.cons_ne_nil _ _
    · rw [heq]
      exact List.cons_ne_nil _ _

/-! ### Texts -/

theorem toList_upper (s : String) : (upper s).toList = s.toList.flatMap upperChar := by
  rw [upper, String.toList_ofList]

/-- **An upper case that is ASCII is its own upper case.** -/
theorem upper_upper_of_ascii {s : String} (h : ∀ d ∈ (upper (upper s)).toList, d.toNat < 128) :
    upper (upper s) = upper s := by
  have hfixed : ∀ d ∈ (upper s).toList, upperChar d = [d] := by
    intro d hd
    rw [toList_upper] at hd
    obtain ⟨c, -, hdc⟩ := List.mem_flatMap.1 hd
    by_cases hascii : d.toNat < 128
    · exact upperChar_of_ascii hdc hascii
    · -- the upper case of the letter is ASCII, so the letter is one that no upper case holds
      obtain ⟨x, hx⟩ := List.exists_mem_of_ne_nil _ (upperChar_ne_nil d)
      have hxascii : x.toNat < 128 := by
        refine h x ?_
        rw [toList_upper, toList_upper]
        exact List.mem_flatMap.2 ⟨d, hd, hx⟩
      exact absurd (mem_asciiSources (by omega) hx hxascii) (notMem_asciiSources hdc)
  refine String.ext ?_
  rw [toList_upper (upper s), List.flatMap_congr hfixed, List.flatMap_singleton']

theorem slash_notMem_upper {s : String} (h : '/' ∉ s.toList) : '/' ∉ (upper s).toList := by
  rw [toList_upper, List.mem_flatMap]
  rintro ⟨c, hc, hslash⟩
  refine slash_notMem_upperChar ?_ hslash
  rintro rfl
  exact h hc

/-- **The segments of an upper case are the upper cases of the segments.** -/
theorem segments_upper (s : String) : segments '/' (upper s) = (segments '/' s).map upper := by
  induction s using segments_induction (c := '/') with
  | last s hs =>
      rw [segments_of_notMem hs, segments_of_notMem (slash_notMem_upper hs), List.map_singleton]
  | step s t u ht hs ih =>
      have hupper : (upper s).toList = (upper t).toList ++ '/' :: (upper u).toList := by
        simp only [toList_upper, hs, List.flatMap_append, List.flatMap_cons, upperChar_slash,
          List.singleton_append]
      rw [segments_append hupper, ih, segments_append hs, List.map_append, segments_of_notMem ht,
        segments_of_notMem (slash_notMem_upper ht), List.map_singleton]

/-- Slashes at the end of an upper case are those at the end of the text. -/
theorem withoutTrailing_upper (s : String) :
    withoutTrailing '/' (upper s) = upper (withoutTrailing '/' s) := by
  have hdrop : ∀ cs : List Char,
      dropTrailing '/' (cs.flatMap upperChar) = (dropTrailing '/' cs).flatMap upperChar := by
    intro cs
    induction cs using List.reverseRecOn with
    | nil => rfl
    | append_singleton r c ih =>
        rw [List.flatMap_append, List.flatMap_singleton]
        by_cases hc : c = '/'
        · subst hc
          rw [upperChar_slash, dropTrailing, dropTrailing, List.reverse_concat, List.reverse_concat,
            List.dropWhile_cons_of_pos (by rfl), List.dropWhile_cons_of_pos (by rfl)]
          exact ih
        · -- neither the last letter nor the last of its upper case is a slash
          have hend : ∀ front : List Char, ∀ d ≠ '/',
              dropTrailing '/' (front ++ [d]) = front ++ [d] := by
            intro front d hd
            rw [dropTrailing, List.reverse_concat, List.dropWhile_cons_of_neg (by simpa using hd),
              List.reverse_cons, List.reverse_reverse]
          obtain ⟨front, d, hupper⟩ :=
            (List.eq_nil_or_concat (upperChar c)).resolve_left (upperChar_ne_nil c)
          have hd : d ≠ '/' := by
            rintro rfl
            refine slash_notMem_upperChar hc ?_
            rw [hupper]
            simp
          rw [hend r c hc, List.flatMap_append, List.flatMap_singleton, hupper,
            List.concat_eq_append, ← List.append_assoc, hend _ d hd]
  rw [withoutTrailing, withoutTrailing, toList_upper, hdrop, upper, String.toList_ofList]

end Restline.Text
