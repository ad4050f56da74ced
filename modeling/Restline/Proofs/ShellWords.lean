import Mathlib.Data.List.Infix
import Mathlib.Tactic.SplitIfs
import Restline.Shell

/-!
Quoted texts as a Unix shell reads them. A word is made of parts between double quotes, parts between single
quotes, and characters outside of quotes; a backslash takes away the meaning of the character after it, between
double quotes only where that character has one. A text whose double quotes alone are escaped is read as itself
exactly if nothing else in it has a meaning between double quotes.

* `Shell.Quoting`, `Shell.Quoting.step`, `Shell.Quoting.run` : a word read character by character.
* `Shell.word?` : the word that a text in quotes is.
* `Shell.Inert` : a text in which nothing but double quotes has a meaning between double quotes.
* `Shell.Quoting.Reads.length_le` : reading does not make a text longer, unless it loses an apostrophe.
* `Shell.word_escape_iff` : **when a quoted text is read as itself**.
-/

set_option autoImplicit false

namespace Restline.Shell

/-! ### Words -/

/-- What the characters read so far leave open: nothing, double or single quotes, or a backslash whose character
has not come yet. -/
inductive Quoting
  | bare
  | bareEscape
  | double
  | doubleEscape
  | single
deriving DecidableEq, Repr

/-- Outside of quotes the character ends the word, or stands for something else. -/
def isActive (c : Char) : Bool :=
  [' ', '\t', '\n', '|', '&', ';', '<', '>', '(', ')', '$', '\x60', '*', '?', '['].contains c

namespace Quoting

/-- One more character: what is open after it, and what it adds to the word. There is nothing where the
character ends the word or begins an expansion. -/
def step : Quoting → Char → Option (Quoting × List Char)
  | .bare, c =>
    if c = '"' then some (.double, [])
    else if c = '\x27' then some (.single, [])
    else if c = '\\' then some (.bareEscape, [])
    else if isActive c then none
    else some (.bare, [c])
  | .bareEscape, c => some (.bare, if c = '\n' then [] else [c])
  | .double, c =>
    if c = '"' then some (.bare, [])
    else if c = '\\' then some (.doubleEscape, [])
    else if c = '$' ∨ c = '\x60' then none
    else some (.double, [c])
  | .doubleEscape, c =>
    if c = '\n' then some (.double, [])
    else if c = '$' ∨ c = '\x60' ∨ c = '"' ∨ c = '\\' then some (.double, [c])
    else some (.double, ['\\', c])
  | .single, c => if c = '\x27' then some (.bare, []) else some (.single, [c])

/-- The characters of a text one after the other. -/
def run : Quoting → List Char → Option (Quoting × List Char)
  | q, [] => some (q, [])
  | q, c :: r => do
    let (q', out) ← step q c
    let (q'', rest) ← run q' r
    return (q'', out ++ rest)

end Quoting

/-- The word that a text is which begins with a double quote. There is none if the text holds more than one word
or an expansion, or if something is left open. -/
def word? (text : String) : Option String :=
  match text.toList with
  | '"' :: r =>
    match Quoting.run .double r with
    | some (.bare, w) => some (String.ofList w)
    | _ => none
  | _ => none

/-! ### Texts without a meaning -/

/-- Between double quotes nothing in the text has a meaning, but for double quotes: there is no dollar and no
backquote, and after every backslash comes a character that it does not escape. -/
structure Inert (s : List Char) : Prop where
  dollar : '$' ∉ s
  backquote : '\x60' ∉ s
  backslash : ∀ r, '\\' :: r <:+ s → ∃ c r', r = c :: r' ∧ c ≠ '"' ∧ c ≠ '\\' ∧ c ≠ '\n'

theorem inert_nil : Inert [] where
  dollar := List.not_mem_nil
  backquote := List.not_mem_nil
  backslash _ h := absurd (List.suffix_nil.1 h) (List.cons_ne_nil _ _)

theorem inert_cons_iff {c : Char} {s : List Char} (hc : c ≠ '\\') :
    Inert (c :: s) ↔ c ≠ '$' ∧ c ≠ '\x60' ∧ Inert s := by
  constructor
  · rintro ⟨hd, hb, hs⟩
    obtain ⟨hcd, hd⟩ := not_or.1 (List.mem_cons.not.1 hd)
    obtain ⟨hcb, hb⟩ := not_or.1 (List.mem_cons.not.1 hb)
    exact ⟨Ne.symm hcd, Ne.symm hcb, hd, hb, fun r hr => hs r (hr.trans (List.suffix_cons c s))⟩
  · rintro ⟨hcd, hcb, hd, hb, hs⟩
    refine ⟨List.mem_cons.not.2 (not_or.2 ⟨Ne.symm hcd, hd⟩),
      List.mem_cons.not.2 (not_or.2 ⟨Ne.symm hcb, hb⟩), fun r hr => ?_⟩
    rcases List.suffix_cons_iff.1 hr with heq | hr
    · exact absurd (List.cons.inj heq).1.symm hc
    · exact hs r hr

/-- After a backslash comes a character that it does not escape. -/
theorem inert_backslash_iff {c : Char} {s : List Char} :
    Inert ('\\' :: c :: s) ↔ c ≠ '"' ∧ c ≠ '\\' ∧ c ≠ '\n' ∧ Inert (c :: s) := by
  constructor
  · rintro ⟨hd, hb, hs⟩
    obtain ⟨_, _, heq, h⟩ := hs _ List.suffix_rfl
    obtain ⟨rfl, rfl⟩ := List.cons.inj heq
    exact ⟨h.1, h.2.1, h.2.2, fun hmem => hd (List.mem_cons_of_mem _ hmem),
      fun hmem => hb (List.mem_cons_of_mem _ hmem), fun r hr => hs r (hr.trans (List.suffix_cons _ _))⟩
  · rintro ⟨hq, hbs, hn, hd, hb, hs⟩
    refine ⟨List.mem_cons.not.2 (not_or.2 ⟨by decide, hd⟩),
      List.mem_cons.not.2 (not_or.2 ⟨by decide, hb⟩), fun r hr => ?_⟩
    rcases List.suffix_cons_iff.1 hr with heq | hr
    · exact ⟨c, s, (List.cons.inj heq).2, hq, hbs, hn⟩
    · exact hs r hr

/-- A backslash at the end would escape the quote that is put after it. -/
theorem not_inert_backslash : ¬ Inert ['\\'] := by
  intro h
  obtain ⟨_, _, heq, -⟩ := h.backslash _ List.suffix_rfl
  cases heq

/-! ### Reading what was quoted -/

namespace Quoting

variable {q q' : Quoting} {c : Char} {s t w out : List Char}

theorem run_append (q : Quoting) (s t : List Char) :
    q.run (s ++ t) = (q.run s).bind fun p => (p.1.run t).map fun p' => (p'.1, p.2 ++ p'.2) := by
  induction s generalizing q with
  | nil => simp [run]
  | cons c s ih =>
      rw [List.cons_append, run, run]
      cases q.step c with
      | none => rfl
      | some p =>
          obtain ⟨q', out⟩ := p
          simp only [Option.bind_eq_bind, Option.bind_some, ih]
          cases q'.run s with
          | none => rfl
          | some p =>
              obtain ⟨q'', rest⟩ := p
              cases h : q''.run t <;> simp [h]

/-- What is left of a quoted text is read to its end, and adds to the word. -/
def Reads (q : Quoting) (s w : List Char) : Prop :=
  q.run (s.flatMap (escapeChar .unix) ++ ['"']) = some (.bare, w)

theorem reads_cons_iff :
    q.Reads (c :: s) w ↔
      ∃ q' out rest, q.run (escapeChar .unix c) = some (q', out) ∧ q'.Reads s rest ∧ w = out ++ rest := by
  rw [Reads, List.flatMap_cons, List.append_assoc, run_append]
  cases q.run (escapeChar .unix c) with
  | none => simp
  | some p =>
      obtain ⟨q', out⟩ := p
      simp only [Option.bind_some, Option.map_eq_some_iff, Prod.mk.injEq, Option.some_inj, Reads]
      constructor
      · rintro ⟨⟨q'', rest⟩, hrun, rfl, rfl⟩
        exact ⟨q', out, rest, ⟨rfl, rfl⟩, hrun, rfl⟩
      · rintro ⟨_, _, rest, ⟨rfl, rfl⟩, hrun, rfl⟩
        exact ⟨(.bare, rest), hrun, rfl, rfl⟩

/-- The quote at the end ends the word between double quotes, and it does where it is escaped outside of quotes. -/
theorem reads_nil_iff : q.Reads [] w ↔ (q = .double ∧ w = []) ∨ (q = .bareEscape ∧ w = ['"']) := by
  cases q <;> simp [Reads, run, step, eq_comm]

/-! ### Lengths -/

/-- How many characters were read last that may still be added to the word. -/
def pending : Quoting → Nat
  | .bareEscape | .doubleEscape => 1
  | _ => 0

theorem run_escapeChar_of_ne (hc : c ≠ '"') : q.run (escapeChar .unix c) = q.step c := by
  rw [escapeChar, if_neg hc, run]
  cases q.step c <;> simp [run]

/-- An apostrophe is added to the word at most once. If it is, then it did not begin a quotation, and a quoted
character adds no more than itself and what was pending. -/
theorem count_le_of_run (h : q.run (escapeChar .unix c) = some (q', out)) :
    out.count '\x27' ≤ [c].count '\x27' ∧
      (q ≠ .single → out.count '\x27' = [c].count '\x27' →
        q' ≠ .single ∧ out.length + q'.pending ≤ 1 + q.pending) := by
  by_cases hc : c = '"'
  · subst hc
    cases q <;> simp [run, step, escapeChar, innerQuote] at h <;> obtain ⟨rfl, rfl⟩ := h <;> decide
  · rw [run_escapeChar_of_ne hc] at h
    cases q <;> simp only [step] at h <;> split_ifs at h <;> grind [pending]

theorem Reads.count_le (h : q.Reads s w) : w.count '\x27' ≤ s.count '\x27' := by
  induction s generalizing q w with
  | nil =>
      rcases reads_nil_iff.1 h with ⟨-, rfl⟩ | ⟨-, rfl⟩ <;> decide
  | cons c s ih =>
      obtain ⟨q', out, rest, hrun, hrest, rfl⟩ := reads_cons_iff.1 h
      rw [List.count_append, ← List.singleton_append, List.count_append]
      exact Nat.add_le_add (count_le_of_run hrun).1 (ih hrest)

/-- **Reading does not make a text longer, unless it loses an apostrophe.** Only between single quotes does a
quoted character add two, and what begins single quotes is not added to the word. -/
theorem Reads.length_le (h : q.Reads s w) (hq : q ≠ .single) (hcount : w.count '\x27' = s.count '\x27') :
    w.length ≤ s.length + q.pending := by
  induction s generalizing q w with
  | nil => rcases reads_nil_iff.1 h with ⟨rfl, rfl⟩ | ⟨rfl, rfl⟩ <;> decide
  | cons c s ih =>
      obtain ⟨q', out, rest, hrun, hrest, rfl⟩ := reads_cons_iff.1 h
      obtain ⟨hle, hkept⟩ := count_le_of_run hrun
      have hrestle := hrest.count_le
      rw [List.count_append, ← List.singleton_append, List.count_append] at hcount
      -- neither part gains an apostrophe, so neither loses one
      obtain ⟨hsingle, hout⟩ := hkept hq (by omega)
      have hlength := ih hrest hsingle (by omega)
      rw [List.length_append, List.length_cons]
      omega

/-! ### Texts that are read as themselves -/

theorem reads_double_cons_iff (hc : c ≠ '\\') :
    Reads .double (c :: s) (c :: s) ↔ c ≠ '$' ∧ c ≠ '\x60' ∧ Reads .double s s := by
  rw [reads_cons_iff]
  by_cases hq : c = '"'
  · subst hq
    simp [run, step, escapeChar, innerQuote]
  · rw [run_escapeChar_of_ne hq]
    by_cases hexpands : c = '$' ∨ c = '\x60'
    · rcases hexpands with rfl | rfl <;> simp [step]
    · obtain ⟨hd, hb⟩ := not_or.1 hexpands
      simp [step, hq, hc, hd, hb]

/-- After a backslash that is kept, the character is kept as well: one that the backslash escapes, or a quote,
would make the word shorter than the text. -/
theorem reads_doubleEscape_iff :
    Reads .doubleEscape (c :: s) ('\\' :: c :: s) ↔
      c ≠ '"' ∧ c ≠ '\\' ∧ c ≠ '\n' ∧ c ≠ '$' ∧ c ≠ '\x60' ∧ Reads .double s s := by
  constructor
  · intro h
    obtain ⟨q', out, rest, hrun, hrest, heq⟩ := reads_cons_iff.1 h
    obtain ⟨hle, hkept⟩ := count_le_of_run hrun
    have hrestle := hrest.count_le
    have hcount : out.count '\x27' + rest.count '\x27' = [c].count '\x27' + s.count '\x27' := by
      rw [← List.count_append, ← heq, ← List.count_append]
      exact List.count_cons_of_ne (by decide)
    obtain ⟨hsingle, hout⟩ := hkept (by decide) (by omega)
    have hlength : 2 + s.length = out.length + rest.length := by
      rw [← List.length_append, ← heq, List.length_cons, List.length_cons]
      omega
    have hrestlength := hrest.length_le hsingle (by omega)
    -- the word is as long as it can be, so the character added two
    have hfull : out.length + q'.pending = 2 := by
      rw [show pending .doubleEscape = 1 from rfl] at hout
      omega
    by_cases hc : c = '"'
    · subst hc
      simp [run, step, escapeChar, innerQuote] at hrun
      obtain ⟨rfl, rfl⟩ := hrun
      cases hfull
    · rw [run_escapeChar_of_ne hc, step] at hrun
      split_ifs at hrun with hn hescapes
      · obtain ⟨rfl, rfl⟩ := Prod.mk.inj (Option.some_inj.1 hrun)
        cases hfull
      · obtain ⟨rfl, rfl⟩ := Prod.mk.inj (Option.some_inj.1 hrun)
        cases hfull
      · obtain ⟨rfl, rfl⟩ := Prod.mk.inj (Option.some_inj.1 hrun)
        simp only [not_or] at hescapes
        obtain rfl : s = rest := by simpa using heq
        exact ⟨hc, hescapes.2.2.2, hn, hescapes.1, hescapes.2.1, hrest⟩
  · rintro ⟨hq, hbs, hn, hd, hb, h⟩
    rw [reads_cons_iff, run_escapeChar_of_ne hq]
    exact ⟨.double, ['\\', c], s, by simp [step, hq, hbs, hn, hd, hb], h, rfl⟩

theorem reads_double_backslash_iff :
    Reads .double ('\\' :: s) ('\\' :: s) ↔ Reads .doubleEscape s ('\\' :: s) := by
  rw [reads_cons_iff]
  simp [run, step, escapeChar]

/-- A text is read as itself between double quotes exactly if nothing in it has a meaning there. -/
theorem reads_double_self_iff : ∀ s : List Char, Reads .double s s ↔ Inert s
  | [] => iff_of_true (reads_nil_iff.2 (.inl ⟨rfl, rfl⟩)) inert_nil
  | c :: s => by
      by_cases hc : c = '\\'
      · subst hc
        rw [reads_double_backslash_iff]
        match s with
        | [] =>
            refine iff_of_false (fun h => ?_) not_inert_backslash
            rcases reads_nil_iff.1 h with ⟨h, -⟩ | ⟨h, -⟩ <;> cases h
        | d :: s =>
            rw [reads_doubleEscape_iff, inert_backslash_iff]
            by_cases hd : d = '\\'
            · simp [hd]
            · rw [inert_cons_iff hd, reads_double_self_iff s]
      · rw [reads_double_cons_iff hc, inert_cons_iff hc, reads_double_self_iff s]

end Quoting

/-! ### Quoted texts -/

theorem word?_escapeText (s : String) :
    word? (unix.escapeText s) = some s ↔ Quoting.Reads .double s.toList s.toList := by
  rw [word?, escapeText, String.toList_ofList, Quoting.Reads]
  simp only
  cases h : Quoting.run .double (s.toList.flatMap (escapeChar .unix) ++ ['"']) with
  | none => simp
  | some p =>
      obtain ⟨q, w⟩ := p
      cases q <;> simp [← String.toList_inj]

/-- **When a quoted text is read as itself.** -/
theorem word_escape_iff (s : String) : word? (unix.escape (.str s)) = some s ↔ Inert s.toList := by
  rw [escape, word?_escapeText, Quoting.reads_double_self_iff]

example : word? (unix.escape (.str "say \"hi\" to C:\\me")) = some "say \"hi\" to C:\\me" := by decide

/-- A text that begins an expansion, one whose last character escapes the quote at its end, one that closes the
quotes, and one of whose two backslashes one is lost. -/
theorem exists_word_escape_ne :
    word? (unix.escape (.str "$HOME")) ≠ some "$HOME" ∧
      word? (unix.escape (.str "C:\\")) ≠ some "C:\\" ∧
      word? (unix.escape (.str "\\\" x")) ≠ some "\\\" x" ∧
      word? (unix.escape (.str "\\\\host")) = some "\\host" := by
  decide

end Restline.Shell
