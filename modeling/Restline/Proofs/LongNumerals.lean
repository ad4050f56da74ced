import Restline.Proofs.ProperJson

/-!
Numerals that are too long. Reading a text stops at the first place that is malformed, and at a whole number
of too many digits. Such a number stands in the text: what reading leaves is always at the end of what it was
given.

* `Json.HasRun` : digits in a row, more than a numeral may have.
* `Json.StaysIn` : an outcome of reading speaks of the characters that were given.
* `Json.Overlong`, `Json.hasRun_of_overlong` : **a text that is refused for a long numeral has its digits**.
* `Json.overlong_ones` : such texts.
-/

set_option autoImplicit false

namespace Restline

namespace Json

/-! ### Digits in a row -/

/-- Among the characters there are so many digits in a row, more than a numeral may have. -/
def HasRun (n : ℕ) (cs : List Char) : Prop :=
  Text.maxDigits < n ∧ ∃ ds, AreDigits ds ∧ ds.length = n ∧ ds <:+: cs

theorem HasRun.of_suffix {n : ℕ} {cs rest : List Char} (h : HasRun n rest) (hrest : rest <:+ cs) :
    HasRun n cs := by
  obtain ⟨hmax, ds, hds, hlength, hinfix⟩ := h
  exact ⟨hmax, ds, hds, hlength, hinfix.trans hrest.isInfix⟩

/-! ### What reading leaves -/

variable {α β : Type} {cs rest : List Char}

/-- An outcome of reading speaks of the characters that were given: what is left stands at their end, and a
numeral that is too long stands in them. -/
inductive StaysIn (cs : List Char) : Except ReadFault (α × List Char) → Prop
  | ok {a : α} {rest : List Char} (h : rest <:+ cs) : StaysIn cs (.ok (a, rest))
  | malformed {what : Expected} {left : ℕ} : StaysIn cs (.error (.malformed what left))
  | overlong {n : ℕ} (h : HasRun n cs) : StaysIn cs (.error (.overlong n))

namespace StaysIn

theorem of_suffix {x : Except ReadFault (α × List Char)} (h : StaysIn rest x) (hrest : rest <:+ cs) :
    StaysIn cs x := by
  cases h with
  | ok h => exact .ok (h.trans hrest)
  | malformed => exact .malformed
  | overlong h => exact .overlong (h.of_suffix hrest)

theorem map {x : Except ReadFault (α × List Char)} (f : α → β) (h : StaysIn cs x) :
    StaysIn cs (x.map fun p => (f p.1, p.2)) := by
  cases h with
  | ok h => exact .ok h
  | malformed => exact .malformed
  | overlong h => exact .overlong h

/-- What is done with what is left speaks of the same characters. -/
theorem bind {x : Except ReadFault (α × List Char)} {f : α × List Char → Except ReadFault (β × List Char)}
    (h : StaysIn cs x) (hf : ∀ a rest, StaysIn rest (f (a, rest))) : StaysIn cs (x >>= f) := by
  cases h with
  | ok h => exact (hf _ _).of_suffix h
  | malformed => exact .malformed
  | overlong h => exact .overlong h

end StaysIn

theorem skipGaps_suffix (cs : List Char) : skipGaps cs <:+ cs := List.dropWhile_suffix _

/-! ### Words and numbers -/

theorem suffix_of_afterWord? {ws : List Char} (h : afterWord? ws cs = some rest) : rest <:+ cs := by
  induction ws generalizing cs with
  | nil =>
      rw [afterWord?] at h
      obtain rfl := Option.some_inj.1 h
      exact List.suffix_rfl
  | cons w ws ih =>
      cases cs with
      | nil => cases h
      | cons c cs =>
          rw [afterWord?] at h
          split at h
          · exact (ih h).trans (List.suffix_cons c cs)
          · cases h

theorem suffix_of_word? {p : Json × List Char} (h : word? cs = some p) : p.2 <:+ cs := by
  obtain ⟨w, -, hp⟩ := List.exists_of_findSome?_eq_some h
  obtain ⟨r, hr, rfl⟩ := Option.map_eq_some_iff.1 hp
  exact suffix_of_afterWord? hr

theorem append_of_wholePart? {ds : List Char} (h : wholePart? cs = some (ds, rest)) : ds ++ rest = cs := by
  rw [wholePart?.eq_def] at h
  split at h
  · obtain ⟨rfl, rfl⟩ := Prod.mk.inj (Option.some_inj.1 h)
    rfl
  · split at h
    · rw [List.span_eq_takeWhile_dropWhile] at h
      obtain ⟨rfl, rfl⟩ := Prod.mk.inj (Option.some_inj.1 h)
      exact List.takeWhile_append_dropWhile
    · cases h
  · cases h

theorem fraction_suffix (cs : List Char) : (fraction cs).2 <:+ cs := by
  rw [fraction.eq_def]
  split
  · rename_i r
    rw [List.span_eq_takeWhile_dropWhile]
    split
    · exact List.suffix_rfl
    · rename_i heq
      obtain ⟨-, rfl⟩ := Prod.mk.inj heq
      exact (List.dropWhile_suffix _).trans (List.suffix_cons _ _)
  · exact List.suffix_rfl

theorem exponent_suffix (cs : List Char) : (exponent cs).2 <:+ cs := by
  -- the digits of the exponent are taken from characters behind the mark
  have hrest : ∀ {r ds rest : List Char}, r <:+ cs → r.span isDecimal = (ds, rest) → rest <:+ cs := by
    intro r ds rest hr hspan
    rw [List.span_eq_takeWhile_dropWhile] at hspan
    obtain ⟨-, rfl⟩ := Prod.mk.inj hspan
    exact (List.dropWhile_suffix _).trans hr
  rw [exponent.eq_def]
  cases cs with
  | nil => exact List.suffix_rfl
  | cons c r =>
      dsimp only
      split
      · split <;> split <;> rename_i hspan
        · exact List.suffix_rfl
        · exact hrest ((List.suffix_cons _ _).trans (List.suffix_cons _ _)) hspan
        · exact List.suffix_rfl
        · exact hrest ((List.suffix_cons _ _).trans (List.suffix_cons _ _)) hspan
        · exact List.suffix_rfl
        · exact hrest (List.suffix_cons _ _) hspan
      · exact List.suffix_rfl

/-- Only the digits before a point can be too many. -/
theorem staysIn_readUnsigned {start : List Char} (negative : Bool) (cs : List Char) :
    StaysIn cs (readUnsigned start negative cs) := by
  rw [readUnsigned]
  cases hwhole : wholePart? cs with
  | none => exact .malformed
  | some w =>
      obtain ⟨whole, r⟩ := w
      have happend := append_of_wholePart? hwhole
      have hr : (exponent (fraction r).2).2 <:+ cs :=
        ((exponent_suffix _).trans (fraction_suffix r)).trans ⟨whole, happend⟩
      dsimp only
      split
      · split
        · rename_i hmax
          exact .overlong ⟨hmax, whole, (areDigits_of_wholePart? hwhole).2, rfl, [], r, happend⟩
        · exact .ok hr
      · exact .ok hr

theorem staysIn_readNumber (cs : List Char) : StaysIn cs (readNumber cs) := by
  rw [readNumber.eq_def]
  split
  · exact (staysIn_readUnsigned true _).of_suffix (List.suffix_cons _ _)
  · exact staysIn_readUnsigned false _

/-! ### Texts -/

theorem staysIn_readPieces (opening : ℕ) (cs : List Char) : StaysIn cs (readPieces opening cs) := by
  fun_induction readPieces opening cs with
  | case1 => exact .malformed
  | case2 r => exact .ok (List.suffix_cons _ _)
  | case3 a b c d e r hnone => exact .malformed
  | case4 a b c d e r n hn ih => exact (ih.of_suffix ⟨['\\', 'u', a, b, c, d], rfl⟩).map _
  | case5 r hshort => exact .malformed
  | case6 c r hletter hnone => exact .malformed
  | case7 c r hletter hunicode x hx ih => exact (ih.of_suffix ⟨['\\', c], rfl⟩).map _
  | case8 => exact .malformed
  | case9 c r hquote hslash hlow => exact .malformed
  | case10 c r hquote hunicode hletter hslash hend hplain ih => exact (ih.of_suffix ⟨[c], rfl⟩).map _

theorem staysIn_readText (cs : List Char) : StaysIn cs (readText cs) :=
  (staysIn_readPieces _ cs).map fun ps => String.ofList (Piece.join ps)

/-! ### Values -/

theorem suffix_of_skipGaps {c : Char} {r rest : List Char} (h : skipGaps r = c :: rest) : rest <:+ r :=
  (List.suffix_cons c rest).trans (h ▸ skipGaps_suffix r)

/-- A value, if members and items with less fuel leave what stands at the end. -/
theorem staysIn_readValue_succ {fuel : ℕ} (hmembers : ∀ ms cs, StaysIn cs (readMembers fuel ms cs))
    (hitems : ∀ items cs, StaysIn cs (readItems fuel items cs)) (cs : List Char) :
    StaysIn cs (readValue (fuel + 1) cs) := by
  rw [readValue.eq_def]
  dsimp only
  split
  · exact ((staysIn_readText _).of_suffix (List.suffix_cons _ _)).map _
  · rename_i r
    split
    · rename_i heq
      exact .ok ((suffix_of_skipGaps heq).trans (List.suffix_cons _ _))
    · exact (hmembers [] _).of_suffix ((skipGaps_suffix r).trans (List.suffix_cons _ _))
  · rename_i r
    split
    · rename_i heq
      exact .ok ((suffix_of_skipGaps heq).trans (List.suffix_cons _ _))
    · exact (hitems [] _).of_suffix ((skipGaps_suffix r).trans (List.suffix_cons _ _))
  · split
    · rename_i p hword
      exact .ok (suffix_of_word? hword)
    · exact staysIn_readNumber _

theorem staysIn_readMembers_succ {fuel : ℕ} (hvalue : ∀ cs, StaysIn cs (readValue fuel cs))
    (hmembers : ∀ ms cs, StaysIn cs (readMembers fuel ms cs)) (ms : List (String × Json)) (cs : List Char) :
    StaysIn cs (readMembers (fuel + 1) ms cs) := by
  rw [readMembers.eq_def]
  dsimp only
  split
  · rename_i r
    refine .of_suffix (.bind (staysIn_readText r) fun name r => ?_) (List.suffix_cons _ _)
    dsimp only
    split
    · rename_i r' heq
      refine .of_suffix (.bind (hvalue _) fun v r => ?_) ((skipGaps_suffix r').trans (suffix_of_skipGaps heq))
      dsimp only
      split
      · rename_i heq
        exact .ok (suffix_of_skipGaps heq)
      · rename_i heq
        exact (hmembers _ _).of_suffix ((skipGaps_suffix _).trans (suffix_of_skipGaps heq))
      · exact .malformed
    · exact .malformed
  · exact .malformed

theorem staysIn_readItems_succ {fuel : ℕ} (hvalue : ∀ cs, StaysIn cs (readValue fuel cs))
    (hitems : ∀ items cs, StaysIn cs (readItems fuel items cs)) (items : List Json) (cs : List Char) :
    StaysIn cs (readItems (fuel + 1) items cs) := by
  rw [readItems]
  refine .bind (hvalue cs) fun v r => ?_
  dsimp only
  split
  · rename_i heq
    exact .ok (suffix_of_skipGaps heq)
  · rename_i heq
    exact (hitems _ _).of_suffix ((skipGaps_suffix _).trans (suffix_of_skipGaps heq))
  · exact .malformed

/-- Reading a value, members or items leaves what stands at the end. -/
theorem staysIn_readValue (fuel : ℕ) :
    (∀ cs, StaysIn cs (readValue fuel cs)) ∧
      (∀ ms cs, StaysIn cs (readMembers fuel ms cs)) ∧
      ∀ items cs, StaysIn cs (readItems fuel items cs) := by
  induction fuel with
  | zero => exact ⟨fun _ => .malformed, fun _ _ => .malformed, fun _ _ => .malformed⟩
  | succ fuel ih =>
      obtain ⟨hvalue, hmembers, hitems⟩ := ih
      exact ⟨staysIn_readValue_succ hmembers hitems, staysIn_readMembers_succ hvalue hmembers,
        staysIn_readItems_succ hvalue hitems⟩

/-! ### Texts with a long numeral -/

/-- The text is refused for a whole number with too many digits. -/
def Overlong (text : String) : Prop := ∃ n, read text = .error (.overlong n)

/-- **A text that is refused for a long numeral has its digits**, all in a row. -/
theorem hasRun_of_overlong {text : String} {n : ℕ} (h : read text = .error (.overlong n)) :
    HasRun n text.toList := by
  rw [read, readChars.eq_def] at h
  split at h
  · cases h
  · have hstays := (staysIn_readValue (2 * text.toList.length + 2)).1 (skipGaps text.toList)
    cases hvalue : readValue (2 * text.toList.length + 2) (skipGaps text.toList) with
    | ok p =>
        rw [hvalue] at h
        dsimp only [Except.ok_bind] at h
        split at h <;> cases h
    | error f =>
        rw [hvalue] at h hstays
        obtain rfl := Except.error.inj h
        cases hstays with
        | overlong hrun => exact hrun.of_suffix (skipGaps_suffix _)

/-- A text of ones is a numeral, and it is refused if it has more digits than a numeral may have. -/
theorem overlong_ones {n : ℕ} (hn : Text.maxDigits < n) : Overlong (.ofList (List.replicate n '1')) := by
  obtain ⟨m, rfl⟩ := Nat.exists_eq_succ_of_ne_zero (Nat.ne_zero_of_lt hn)
  have hdigits : AreDigits (List.replicate (m + 1) '1') := fun c hc => by
    rw [List.eq_of_mem_replicate hc]
    decide
  have hwhole : wholePart? (List.replicate (m + 1) '1') = some (List.replicate (m + 1) '1', []) := by
    have hspan : (List.replicate (m + 1) '1' ++ []).span isDecimal = (List.replicate (m + 1) '1', []) :=
      span_digits hdigits (by simp [EndsDigits])
    rw [List.append_nil, List.replicate_succ] at hspan
    rw [List.replicate_succ, wholePart?, if_pos (by decide), hspan]
    exact fun h => absurd h (by decide)
  have hnumber : readNumber (List.replicate (m + 1) '1') = .error (.overlong (m + 1)) := by
    have hunsigned : readUnsigned (List.replicate (m + 1) '1') false (List.replicate (m + 1) '1') =
        .error (.overlong (m + 1)) := by
      rw [readUnsigned, hwhole]
      simp only [fraction, exponent, List.isEmpty_nil, Option.isNone_none, Bool.and_self, if_true,
        List.length_replicate, if_pos hn]
    exact hunsigned
  refine ⟨m + 1, ?_⟩
  rw [read, String.toList_ofList]
  rw [List.replicate_succ] at hnumber ⊢
  have hgaps : skipGaps ('1' :: List.replicate m '1') = '1' :: List.replicate m '1' := rfl
  have hvalue : ∀ fuel, readValue (fuel + 1) ('1' :: List.replicate m '1') = .error (.overlong (m + 1)) := by
    intro fuel
    rw [readValue.eq_def]
    exact hnumber
  rw [readChars.eq_def]
  dsimp only
  rw [hgaps, hvalue]
  rfl

end Json

end Restline
