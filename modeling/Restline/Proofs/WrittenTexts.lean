import Mathlib
import Restline.Proofs.GrammarTexts
import Restline.Proofs.WrittenSettings

/-!
What is written is a text of the standard. A finite number is written as a numeral, whatever its notation, and
the layouts put nothing but blanks around values and names.

* `Json.isAtom_toText` : **finite numbers are written as numerals**.
* `Json.isText_write` : **finite values are written as texts of the standard**.
-/

set_option autoImplicit false

namespace Restline.Json

open Number (Binary64)

/-! ### Scalars -/

theorem isQuoted_textOf (ascii : Bool) (s : String) : IsQuoted (textOf ascii s).toList := by
  obtain ⟨r, htext, hread⟩ := readText_textOf ascii s []
  obtain ⟨r', hr, hcloses⟩ := closesText_of_readText hread
  rw [List.append_nil] at hr htext
  exact ⟨r, htext, hr ▸ hcloses⟩

/-- A whole number is written as a numeral. -/
theorem isAtom_toString (n : ℤ) : IsAtom (toString n).toList := by
  refine .inr ⟨⟨decide (n < 0), Nat.toDigits 10 n.natAbs, [], none, isWhole_toDigits _, fun _ hc => nomatch hc⟩,
    ?_⟩
  rw [toList_toString_int, Numeral.chars, Magnitude.chars, Magnitude.fractionChars, if_pos rfl]
  exact congrArg _ (List.append_nil _).symm

/-- **A finite number is written as a numeral.** -/
theorem isAtom_toText {x : Binary64} (hx : x.IsCanonical) (hfinite : x.isFinite = true) :
    IsAtom (x.toText spelling).toList := by
  obtain ⟨n, hn⟩ := exists_of_readNumber (readNumber_float hx hfinite endsNumber_nil)
  rw [List.append_nil, List.append_nil] at hn
  exact .inr ⟨n, hn.symm⟩

/-! ### Lists and objects -/

section Parts

variable {l : Layout} (hl : l.IsReadable) {g g₀ : List Char} {atom : List Char → Prop}

include hl

/-- Items are written one after the other, with commas and blanks between them. -/
theorem beginsParts_writeItems (depth : ℕ) {j : Json} {r : List Json} (hg₀ : AreGaps g₀) (hg : AreGaps g)
    (hj : IsValue atom (writeAt l depth j).toList) (hr : ∀ x ∈ r, IsValue atom (writeAt l depth x).toList) :
    BeginsParts (IsItem atom) ']' []
      (g₀ ++ ((writeAt l depth j).toList ++ ((writeItems l depth r).toList ++ (g ++ [']'])))) := by
  induction r generalizing j g₀ with
  | nil =>
      have hlast : BeginsParts (IsItem atom) ']' [] _ := .last ((isItem_append hj hg).behind hg₀)
      rw [writeItems]
      simpa using hlast
  | cons j' r ih =>
      rw [List.forall_mem_cons] at hr
      obtain ⟨sep, hsep, hgaps⟩ := hl.item
      have hnext := BeginsParts.next ((isItem_append hj areGaps_nil).behind hg₀)
        (ih (hgaps.append (areGaps_lineBreak l depth)) hr.1 hr.2)
      rw [writeItems]
      simpa [hsep] using hnext

/-- The text of a member, with the blanks in front of it and behind it. -/
theorem isMember_textOf (depth : ℕ) (k : String) {j : Json} (hg₀ : AreGaps g₀) (hg : AreGaps g)
    (hj : IsValue atom (writeAt l depth j).toList) :
    IsMember atom (g₀ ++ ((textOf l.ascii k).toList ++ (l.nameSeparator.toList ++
      ((writeAt l depth j).toList ++ g)))) := by
  obtain ⟨t, ht, hcloses⟩ := isQuoted_textOf l.ascii k
  obtain ⟨sep, hsep, hgaps⟩ := hl.name
  have hmember := isMember_append hcloses hj areGaps_nil hgaps hg
  rw [ht, hsep]
  exact hmember.behind hg₀

/-- Members are written one after the other, with commas and blanks between them. -/
theorem beginsParts_writeMembers (depth : ℕ) {k : String} {j : Json} {r : List (String × Json)} (hg₀ : AreGaps g₀)
    (hg : AreGaps g) (hj : IsValue atom (writeAt l depth j).toList)
    (hr : ∀ e ∈ r, IsValue atom (writeAt l depth e.2).toList) :
    BeginsParts (IsMember atom) '\x7d' []
      (g₀ ++ ((textOf l.ascii k).toList ++ (l.nameSeparator.toList ++ ((writeAt l depth j).toList ++
        ((writeMembers l depth r).toList ++ (g ++ ['\x7d'])))))) := by
  induction r generalizing k j g₀ with
  | nil =>
      have hlast : BeginsParts (IsMember atom) '\x7d' [] _ := .last (isMember_textOf hl depth k hg₀ hg hj)
      rw [writeMembers]
      simpa using hlast
  | cons e r ih =>
      obtain ⟨k', j'⟩ := e
      rw [List.forall_mem_cons] at hr
      obtain ⟨sep, hsep, hgaps⟩ := hl.item
      have hnext := BeginsParts.next (isMember_textOf hl depth k hg₀ areGaps_nil hj)
        (ih (k := k') (hgaps.append (areGaps_lineBreak l depth)) hr.1 hr.2)
      rw [writeMembers]
      simpa [hsep] using hnext

end Parts

/-! ### Values -/

/-- A finite value is written as a value of the standard, at any level. -/
theorem isValue_writeAt {l : Layout} (hl : l.IsReadable) {j : Json} (hj : j.Regular) :
    j.isFinite = true → ∀ depth, IsValue IsAtom (writeAt l depth j).toList := by
  induction hj with
  | null => exact fun _ depth => .atom (.inl ⟨"null", by simp, rfl⟩)
  | bool b =>
      intro _ depth
      cases b with
      | true => exact .atom (.inl ⟨"true", by simp, rfl⟩)
      | false => exact .atom (.inl ⟨"false", by simp, rfl⟩)
  | int n => exact fun _ depth => .atom (isAtom_toString n)
  | float x hx => exact fun hfinite depth => .atom (isAtom_toText hx hfinite)
  | str s => exact fun _ depth => .quoted (isQuoted_textOf l.ascii s)
  | arr items _ ih =>
      intro hfinite depth
      rw [isFinite, allFinite_iff] at hfinite
      cases items with
      | nil =>
          rw [writeAt]
          exact .noItems areGaps_nil
      | cons j r =>
          rw [List.forall_mem_cons] at ih hfinite
          have hparts := beginsParts_writeItems hl (depth + 1) (areGaps_lineBreak l (depth + 1))
            (areGaps_lineBreak l depth) (ih.1 hfinite.1 _) fun x hx => ih.2 x hx (hfinite.2 x hx) _
          obtain ⟨text, htext, hvalue⟩ := hparts.isValue_items
          rw [List.append_nil] at htext
          rw [htext] at hvalue
          rw [writeAt]
          simpa using hvalue
  | obj ms _ _ ih =>
      intro hfinite depth
      rw [isFinite, membersFinite_iff] at hfinite
      cases ms with
      | nil =>
          rw [writeAt]
          exact .noMembers areGaps_nil
      | cons e r =>
          obtain ⟨k, j⟩ := e
          rw [List.forall_mem_cons] at ih hfinite
          have hparts := beginsParts_writeMembers hl (depth + 1) (k := k) (areGaps_lineBreak l (depth + 1))
            (areGaps_lineBreak l depth) (ih.1 hfinite.1 _) fun e he => ih.2 e he (hfinite.2 e he) _
          obtain ⟨text, htext, hvalue⟩ := hparts.isValue_members
          rw [List.append_nil] at htext
          rw [htext] at hvalue
          rw [writeAt]
          simpa using hvalue

/-- **A finite value is written as a text of the standard.** -/
theorem isText_write {l : Layout} (hl : l.IsReadable) {j : Json} (hj : j.Regular) (hfinite : j.isFinite = true) :
    IsText IsAtom (j.write l) := by
  have hitem := isItem_append (isValue_writeAt hl hj hfinite 0) areGaps_nil
  rwa [List.append_nil] at hitem

end Restline.Json
