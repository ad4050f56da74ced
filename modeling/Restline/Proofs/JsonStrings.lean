import Mathlib
import Restline.Json.Reader
import Restline.Json.Writer

/-!
Texts between double quotes are read back. A character stands for itself, or is written as one escape, or
as the escapes of its two halves, which are joined again.

* `Json.hexValue4?_hexDigits` : four digits of base sixteen are read back.
* `Json.exists_readPieces_textChar` : the pieces that one character is read as.
* `Json.readText_textOf` : **a text between quotes is read back**.
-/

set_option autoImplicit false

namespace Restline.Json

/-! ### Escapes -/

theorem hexValue?_hexDigit : ∀ n < 16, hexValue? (Text.hexDigit n) = some n := by
  decide

theorem hexDigits_four (n : ℕ) :
    Text.hexDigits 4 n = [Text.hexDigit (n / 16 / 16 / 16 % 16), Text.hexDigit (n / 16 / 16 % 16),
      Text.hexDigit (n / 16 % 16), Text.hexDigit (n % 16)] := rfl

/-- Four digits of base sixteen are read back. -/
theorem hexValue4?_hexDigits {n : ℕ} (hn : n < 0x10000) :
    hexValue4? (Text.hexDigit (n / 16 / 16 / 16 % 16)) (Text.hexDigit (n / 16 / 16 % 16))
      (Text.hexDigit (n / 16 % 16)) (Text.hexDigit (n % 16)) = some n := by
  have hsum : ((n / 16 / 16 / 16 % 16 * 16 + n / 16 / 16 % 16) * 16 + n / 16 % 16) * 16 + n % 16 = n := by
    omega
  simp only [hexValue4?, hexValue?_hexDigit _ (Nat.mod_lt _ (by decide : 16 > 0)), Option.bind_eq_bind,
    Option.bind_some, Option.pure_def, hsum]

variable {opening : ℕ} {rest : List Char}

/-- The escape of a code unit, with something after it. -/
theorem readPieces_unitEscape {n : ℕ} (hn : n < 0x10000) (hrest : rest ≠ []) :
    readPieces opening (unitEscape n ++ rest) =
      (readPieces opening rest).map fun p => (Piece.ofUnit n :: p.1, p.2) := by
  obtain ⟨c, r, rfl⟩ := List.exists_cons_of_ne_nil hrest
  rw [unitEscape, hexDigits_four]
  simp only [List.cons_append, List.nil_append, readPieces]
  rw [hexValue4?_hexDigits hn]

/-- A character that needs no escape. -/
theorem readPieces_plain {c : Char} (hquote : c ≠ '"') (hslash : c ≠ '\\') (hc : ¬ c.toNat < 0x20) :
    readPieces opening (c :: rest) = (readPieces opening rest).map fun p => (.char c :: p.1, p.2) := by
  rw [readPieces.eq_def]
  split
  all_goals rename_i heq
  · cases heq
  · exact absurd (List.cons_eq_cons.1 heq).1 hquote
  · exact absurd (List.cons_eq_cons.1 heq).1 hslash
  · exact absurd (List.cons_eq_cons.1 heq).1 hslash
  · exact absurd (List.cons_eq_cons.1 heq).1 hslash
  · exact absurd (List.cons_eq_cons.1 heq).1 hslash
  · obtain ⟨rfl, rfl⟩ := List.cons_eq_cons.1 heq
    rw [if_neg hc]

/-! ### Pieces -/

/-- A code point is no half of a character. -/
theorem ofUnit_toNat (c : Char) : Piece.ofUnit c.toNat = .char c := by
  have hvalid : c.toNat < 0xD800 ∨ 0xDFFF < c.toNat ∧ c.toNat < 0x110000 := c.valid
  rw [Piece.ofUnit, if_neg (by omega), Char.ofNat_toNat]

/-- The two halves of a character beyond the first plane are joined. -/
theorem join_halves {c : Char} (hc : 0x10000 ≤ c.toNat) (ps : List Piece) :
    Piece.join (Piece.ofUnit (0xD800 + (c.toNat - 0x10000) / 0x400) ::
      Piece.ofUnit (0xDC00 + (c.toNat - 0x10000) % 0x400) :: ps) = c :: Piece.join ps := by
  have hvalid : c.toNat < 0xD800 ∨ 0xDFFF < c.toNat ∧ c.toNat < 0x110000 := c.valid
  obtain ⟨n, hn⟩ : ∃ n, c.toNat = 0x10000 + n := ⟨c.toNat - 0x10000, by omega⟩
  have hsum : 0x10000 + (0xD800 + n / 0x400 - 0xD800) * 0x400 + (0xDC00 + n % 0x400 - 0xDC00) = c.toNat := by
    omega
  have hmod : n % 0x400 < 0x400 := Nat.mod_lt n (by decide)
  rw [hn, Nat.add_sub_cancel_left, Piece.ofUnit, if_pos (by omega), Piece.ofUnit, if_pos (by omega),
    Piece.join, if_pos (by omega), hsum, Char.ofNat_toNat]

/-- The pieces that one character is read as stand for it. -/
theorem exists_readPieces_textChar (opening : ℕ) (ascii : Bool) (c : Char) (hrest : rest ≠ []) :
    ∃ ps : List Piece, (∀ qs, Piece.join (ps ++ qs) = c :: Piece.join qs) ∧
      readPieces opening (textChar ascii c ++ rest) =
        (readPieces opening rest).map fun p => (ps ++ p.1, p.2) := by
  have hchar : ∀ qs, Piece.join ([.char c] ++ qs) = c :: Piece.join qs := fun qs => rfl
  rw [textChar.eq_def]
  split
  any_goals exact ⟨_, hchar, rfl⟩
  rename_i hquote hslash _ _ _ _ _
  split
  · rename_i hlow
    refine ⟨[.char c], hchar, ?_⟩
    rw [readPieces_unitEscape (by omega) hrest, ofUnit_toNat]
    rfl
  · rename_i hlow
    split
    · rw [charEscape]
      split
      · rename_i hplane
        refine ⟨[.char c], hchar, ?_⟩
        rw [readPieces_unitEscape hplane hrest, ofUnit_toNat]
        rfl
      · rename_i hplane
        have hvalid : c.toNat < 0xD800 ∨ 0xDFFF < c.toNat ∧ c.toNat < 0x110000 := c.valid
        have hne : ∀ n, unitEscape n ++ rest ≠ [] := fun n => List.append_ne_nil_of_right_ne_nil _ hrest
        refine ⟨[Piece.ofUnit (0xD800 + (c.toNat - 0x10000) / 0x400),
          Piece.ofUnit (0xDC00 + (c.toNat - 0x10000) % 0x400)], join_halves (not_lt.1 hplane), ?_⟩
        rw [List.append_assoc, readPieces_unitEscape (by omega) (hne _), readPieces_unitEscape (by omega) hrest]
        cases readPieces opening rest <;> rfl
    · exact ⟨[.char c], hchar, readPieces_plain hquote hslash hlow⟩

/-! ### Texts -/

/-- Characters with a quote after them are read back as pieces that stand for them. -/
theorem exists_readPieces (opening : ℕ) (ascii : Bool) (cs rest : List Char) :
    ∃ ps, Piece.join ps = cs ∧
      readPieces opening (cs.flatMap (textChar ascii) ++ '"' :: rest) = .ok (ps, rest) := by
  induction cs with
  | nil => exact ⟨[], rfl, rfl⟩
  | cons c cs ih =>
      obtain ⟨qs, hjoin, hread⟩ := ih
      have hne : cs.flatMap (textChar ascii) ++ '"' :: rest ≠ [] :=
        List.append_ne_nil_of_right_ne_nil _ (List.cons_ne_nil _ _)
      obtain ⟨ps, hchar, hfirst⟩ := exists_readPieces_textChar opening ascii c hne
      refine ⟨ps ++ qs, by rw [hchar, hjoin], ?_⟩
      rw [List.flatMap_cons, List.append_assoc, hfirst, hread]
      rfl

/-- **A text between quotes is read back.** -/
theorem readText_textOf (ascii : Bool) (s : String) (rest : List Char) :
    ∃ r, (textOf ascii s).toList ++ rest = '"' :: r ∧ readText r = .ok (s, rest) := by
  refine ⟨s.toList.flatMap (textChar ascii) ++ '"' :: rest, by simp [textOf], ?_⟩
  obtain ⟨ps, hjoin, hread⟩ :=
    exists_readPieces ((s.toList.flatMap (textChar ascii) ++ '"' :: rest).length + 1) ascii s.toList rest
  rw [readText, hread]
  simp [Except.map, hjoin]

end Restline.Json
