import Mathlib
import Restline.Proofs.JsonText
import Restline.Proofs.Numerals

/-!
The grammar of JSON texts, over any choice of what its scalars other than texts may be: those of the standard,
the three words that are read beside them, or the numerals that are not too great. Reading takes no more than
the grammar gives with those words.

* `Json.ClosesText` : what may stand behind an opening quote.
* `Json.IsValue`, `Json.IsText` : **values and texts of the grammar**.
* `Json.IsAtom`, `Json.IsReadAtom`, `Json.IsFiniteAtom` : the choices for scalars.
* `Json.isText_of_read` : **every text that is read is one of the grammar**.
-/

set_option autoImplicit false

namespace Restline.Json

/-! ### Quoted texts -/

/-- A digit of base sixteen. -/
def IsHex (c : Char) : Prop := '0' ≤ c ∧ c ≤ '9' ∨ 'a' ≤ c ∧ c ≤ 'f' ∨ 'A' ≤ c ∧ c ≤ 'F'

/-- The letters that stand for a character behind a backslash. -/
def escapeLetters : List Char := ['"', '\\', '/', 'b', 'f', 'n', 'r', 't']

/-- The characters behind an opening quote, up to the closing one. -/
inductive ClosesText : List Char → Prop
  | close : ClosesText ['"']
  | plain {c : Char} {cs : List Char} (hquote : c ≠ '"') (hslash : c ≠ '\\') (hprintable : 0x20 ≤ c.toNat)
      (rest : ClosesText cs) : ClosesText (c :: cs)
  | letter {c : Char} {cs : List Char} (hc : c ∈ escapeLetters) (rest : ClosesText cs) :
      ClosesText ('\\' :: c :: cs)
  | unit {a b c d : Char} {cs : List Char} (ha : IsHex a) (hb : IsHex b) (hc : IsHex c) (hd : IsHex d)
      (rest : ClosesText cs) : ClosesText ('\\' :: 'u' :: a :: b :: c :: d :: cs)

/-- A text in its quotes. -/
def IsQuoted (cs : List Char) : Prop := ∃ r, cs = '"' :: r ∧ ClosesText r

/-! ### Values -/

/-- Characters with blanks around them. -/
structure Padded where
  before : List Char
  text : List Char
  after : List Char
  areGaps_before : AreGaps before
  areGaps_after : AreGaps after

/-- All of the characters. -/
def Padded.chars (p : Padded) : List Char := p.before ++ (p.text ++ p.after)

/-- A name and a value, with blanks around each. -/
structure Member where
  name : Padded
  value : Padded

/-- The characters of a member. -/
def Member.chars (m : Member) : List Char := m.name.chars ++ ':' :: m.value.chars

/-- The values of the grammar, with a choice of scalars other than texts. -/
inductive IsValue (atom : List Char → Prop) : List Char → Prop
  | atom {cs : List Char} (h : atom cs) : IsValue atom cs
  | quoted {cs : List Char} (h : IsQuoted cs) : IsValue atom cs
  | noItems {g : List Char} (h : AreGaps g) : IsValue atom ('[' :: (g ++ [']']))
  | items {first : Padded} {more : List Padded} (h : ∀ p ∈ first :: more, IsValue atom p.text) :
      IsValue atom ('[' :: ([','].intercalate ((first :: more).map Padded.chars) ++ [']']))
  | noMembers {g : List Char} (h : AreGaps g) : IsValue atom ('\x7b' :: (g ++ ['\x7d']))
  | members {first : Member} {more : List Member} (hname : ∀ m ∈ first :: more, IsQuoted m.name.text)
      (h : ∀ m ∈ first :: more, IsValue atom m.value.text) :
      IsValue atom ('\x7b' :: ([','].intercalate ((first :: more).map Member.chars) ++ ['\x7d']))

/-- A value with blanks around it. -/
def IsItem (atom : List Char → Prop) (cs : List Char) : Prop := ∃ p : Padded, p.chars = cs ∧ IsValue atom p.text

/-- A name in quotes and a value, with blanks around each. -/
def IsMember (atom : List Char → Prop) (cs : List Char) : Prop :=
  ∃ m : Member, m.chars = cs ∧ IsQuoted m.name.text ∧ IsValue atom m.value.text

/-- The texts of the grammar: a value with blanks around it. -/
def IsText (atom : List Char → Prop) (t : String) : Prop := IsItem atom t.toList

/-- The scalars of the standard, other than texts. -/
def IsAtom (cs : List Char) : Prop :=
  (∃ w ∈ ["null", "true", "false"], cs = w.toList) ∨ ∃ n : Numeral, cs = n.chars

/-- The words that are read beside the scalars of the standard. -/
def extraWords : List String := ["NaN", "Infinity", "-Infinity"]

/-- The scalars that are read, other than texts. -/
def IsReadAtom (cs : List Char) : Prop := IsAtom cs ∨ ∃ w ∈ extraWords, cs = w.toList

/-- The scalars of the standard that are no numerals too great for a binary number. -/
def IsFiniteAtom (cs : List Char) : Prop :=
  (∃ w ∈ ["null", "true", "false"], cs = w.toList) ∨ ∃ n : Numeral, cs = n.chars ∧ ¬ n.Overflows

/-! ### What is read behind a quote -/

variable {cs rest : List Char} {fuel : ℕ} {v : Json}

theorem isHex_iff (c : Char) : (hexValue? c).isSome ↔ IsHex c := by
  rw [hexValue?, IsHex]
  split_ifs <;> simp_all

theorem mem_escapeLetters_iff (c : Char) : (simpleEscape? c).isSome ↔ c ∈ escapeLetters := by
  rw [simpleEscape?.eq_def, escapeLetters]
  split <;> simp_all

/-- Four digits of base sixteen have a value. -/
theorem isHex_of_hexValue4? {a b c d : Char} {n : ℕ} (h : hexValue4? a b c d = some n) :
    IsHex a ∧ IsHex b ∧ IsHex c ∧ IsHex d := by
  simp only [hexValue4?, Option.bind_eq_bind, Option.bind_eq_some_iff] at h
  obtain ⟨va, ha, vb, hb, vc, hc, vd, hd, -⟩ := h
  exact ⟨(isHex_iff a).1 (by simp [ha]), (isHex_iff b).1 (by simp [hb]), (isHex_iff c).1 (by simp [hc]),
    (isHex_iff d).1 (by simp [hd])⟩

theorem exists_hexValue4? {a b c d : Char} (ha : IsHex a) (hb : IsHex b) (hc : IsHex c) (hd : IsHex d) :
    ∃ n, hexValue4? a b c d = some n := by
  obtain ⟨va, ha⟩ := Option.isSome_iff_exists.1 ((isHex_iff a).2 ha)
  obtain ⟨vb, hb⟩ := Option.isSome_iff_exists.1 ((isHex_iff b).2 hb)
  obtain ⟨vc, hc⟩ := Option.isSome_iff_exists.1 ((isHex_iff c).2 hc)
  obtain ⟨vd, hd⟩ := Option.isSome_iff_exists.1 ((isHex_iff d).2 hd)
  exact ⟨((va * 16 + vb) * 16 + vc) * 16 + vd, by simp [hexValue4?, ha, hb, hc, hd]⟩

/-- What is made of what was read leaves the same rest. -/
theorem exists_of_map_eq_ok {α β : Type} {x : Except ReadFault (α × List Char)} {f : α → β} {b : β}
    (h : x.map (fun p => (f p.1, p.2)) = .ok (b, rest)) : ∃ a, x = .ok (a, rest) ∧ f a = b := by
  obtain ⟨⟨a, r⟩, hx, heq⟩ := Except.map_eq_ok_iff.1 h
  obtain ⟨hf, rfl⟩ := Prod.mk.inj heq
  exact ⟨a, hx, hf⟩

/-- What is read behind an opening quote is closed. -/
theorem closesText_of_readPieces {opening : ℕ} {ps : List Piece} (h : readPieces opening cs = .ok (ps, rest)) :
    ∃ r, r ++ rest = cs ∧ ClosesText r := by
  fun_induction readPieces opening cs generalizing ps with
  | case1 => cases h
  | case2 r =>
      cases h
      exact ⟨['"'], rfl, .close⟩
  | case3 => cases h
  | case4 a b c d e r n hn ih =>
      obtain ⟨qs, hqs, -⟩ := exists_of_map_eq_ok h
      obtain ⟨s, hs, hcloses⟩ := ih hqs
      obtain ⟨ha, hb, hc, hd⟩ := isHex_of_hexValue4? hn
      exact ⟨'\\' :: 'u' :: a :: b :: c :: d :: s, by rw [← hs]; rfl, .unit ha hb hc hd hcloses⟩
  | case5 => cases h
  | case6 => cases h
  | case7 c r hletter hunicode x hx ih =>
      obtain ⟨qs, hqs, -⟩ := exists_of_map_eq_ok h
      obtain ⟨s, hs, hcloses⟩ := ih hqs
      exact ⟨'\\' :: c :: s, by rw [← hs]; rfl, .letter ((mem_escapeLetters_iff c).1 (by simp [hx])) hcloses⟩
  | case8 => cases h
  | case9 => cases h
  | case10 c r hquote hunicode hletter hslash hend hplain ih =>
      obtain ⟨qs, hqs, -⟩ := exists_of_map_eq_ok h
      obtain ⟨s, hs, hcloses⟩ := ih hqs
      refine ⟨c :: s, by rw [← hs]; rfl, .plain ?_ ?_ (Nat.le_of_not_lt hplain) hcloses⟩
      · rintro rfl
        exact hquote rfl
      · rintro rfl
        cases r with
        | nil => exact hend rfl rfl
        | cons c r => exact hslash c r rfl rfl

theorem closesText_of_readText {s : String} (h : readText cs = .ok (s, rest)) :
    ∃ r, r ++ rest = cs ∧ ClosesText r := by
  rw [readText] at h
  obtain ⟨ps, hps, -⟩ := exists_of_map_eq_ok (f := fun ps => String.ofList (Piece.join ps)) h
  exact closesText_of_readPieces hps

/-! ### Scalars that are read -/

/-- A word at the front is followed by the rest. -/
theorem append_of_afterWord? {ws : List Char} (h : afterWord? ws cs = some rest) : ws ++ rest = cs := by
  induction ws generalizing cs with
  | nil =>
      rw [afterWord?] at h
      exact (Option.some_inj.1 h).symm
  | cons w ws ih =>
      cases cs with
      | nil => cases h
      | cons c cs =>
          rw [afterWord?] at h
          split at h
          · rename_i hw
            rw [hw, List.cons_append, ih h]
          · cases h

theorem exists_of_word? (h : word? cs = some (v, rest)) : ∃ w ∈ words, w.1.toList ++ rest = cs := by
  obtain ⟨w, hw, hp⟩ := List.exists_of_findSome?_eq_some h
  obtain ⟨r, hr, heq⟩ := Option.map_eq_some_iff.1 hp
  obtain ⟨-, rfl⟩ := Prod.mk.inj heq
  exact ⟨w, hw, append_of_afterWord? hr⟩

theorem isReadAtom_of_mem_words {w : String × Json} (h : w ∈ words) : IsReadAtom w.1.toList := by
  simp only [words, List.mem_cons, List.not_mem_nil, or_false] at h
  rcases h with rfl | rfl | rfl | rfl | rfl | rfl
  · exact .inl (.inl ⟨_, by simp, rfl⟩)
  · exact .inl (.inl ⟨_, by simp, rfl⟩)
  · exact .inl (.inl ⟨_, by simp, rfl⟩)
  · exact .inr ⟨_, by simp [extraWords], rfl⟩
  · exact .inr ⟨_, by simp [extraWords], rfl⟩
  · exact .inr ⟨_, by simp [extraWords], rfl⟩

/-! ### Values that are read -/

/-- Blanks at the front are blanks, and all that stand there. -/
theorem exists_of_skipGaps (cs : List Char) : ∃ g, AreGaps g ∧ g ++ skipGaps cs = cs :=
  ⟨cs.takeWhile isGap, fun _ hc => List.mem_takeWhile_imp hc, List.takeWhile_append_dropWhile⟩

/-- The characters begin with parts that commas separate, and with what closes the last of them; this is how
lists and objects are read. -/
inductive BeginsParts (part : List Char → Prop) (close : Char) (rest : List Char) : List Char → Prop
  | last {p : List Char} (h : part p) : BeginsParts part close rest (p ++ close :: rest)
  | next {p cs : List Char} (h : part p) (more : BeginsParts part close rest cs) :
      BeginsParts part close rest (p ++ ',' :: cs)

section Parts

variable {part : List Char → Prop} {close : Char} {g : List Char}

/-- The parts stand there one after the other. -/
theorem BeginsParts.exists_parts (h : BeginsParts part close rest cs) :
    ∃ first more, [','].intercalate (first :: more) ++ close :: rest = cs ∧ ∀ p ∈ first :: more, part p := by
  induction h with
  | @last p h => exact ⟨p, [], by simp, by simpa using h⟩
  | @next p cs h _ ih =>
      obtain ⟨first, more, hcs, hparts⟩ := ih
      refine ⟨p, first :: more, ?_, List.forall_mem_cons.2 ⟨h, hparts⟩⟩
      rw [List.intercalate_cons_cons, ← hcs]
      simp

theorem beginsParts_intercalate (close : Char) (rest : List Char) {first : List Char} {more : List (List Char)}
    (h : ∀ p ∈ first :: more, part p) :
    BeginsParts part close rest ([','].intercalate (first :: more) ++ close :: rest) := by
  induction more generalizing first with
  | nil =>
      have hone : [','].intercalate [first] = first := by simp
      rw [hone]
      exact .last (h first List.mem_cons_self)
  | cons second more ih =>
      rw [List.forall_mem_cons] at h
      have hnext := BeginsParts.next h.1 (ih h.2)
      rw [List.intercalate_cons_cons]
      simpa using hnext

/-- More blanks at the front belong to the first part. -/
theorem BeginsParts.behind (hpart : ∀ p, part p → part (g ++ p)) (h : BeginsParts part close rest cs) :
    BeginsParts part close rest (g ++ cs) := by
  cases h with
  | last h =>
      rw [← List.append_assoc]
      exact .last (hpart _ h)
  | next h more =>
      rw [← List.append_assoc]
      exact .next (hpart _ h) more

end Parts

variable {atom : List Char → Prop} {g : List Char}

theorem IsItem.behind (hg : AreGaps g) (h : IsItem atom cs) : IsItem atom (g ++ cs) := by
  obtain ⟨p, rfl, hvalue⟩ := h
  exact ⟨⟨g ++ p.before, p.text, p.after, hg.append p.areGaps_before, p.areGaps_after⟩,
    List.append_assoc .., hvalue⟩

theorem IsMember.behind (hg : AreGaps g) (h : IsMember atom cs) : IsMember atom (g ++ cs) := by
  obtain ⟨m, rfl, hname, hvalue⟩ := h
  refine ⟨⟨⟨g ++ m.name.before, m.name.text, m.name.after, hg.append m.name.areGaps_before,
    m.name.areGaps_after⟩, m.value⟩, ?_, hname, hvalue⟩
  simp only [Member.chars, Padded.chars, List.append_assoc]

/-- What is made of things one by one is made of a list of them. -/
theorem exists_map_eq {α β : Type} {f : α → β} {P : α → Prop} {bs : List β} (h : ∀ b ∈ bs, ∃ a, f a = b ∧ P a) :
    ∃ as : List α, as.map f = bs ∧ ∀ a ∈ as, P a := by
  induction bs with
  | nil => exact ⟨[], rfl, by simp⟩
  | cons b bs ih =>
      rw [List.forall_mem_cons] at h
      obtain ⟨⟨a, ha, hP⟩, hbs⟩ := h
      obtain ⟨as, has, hall⟩ := ih hbs
      exact ⟨a :: as, by rw [List.map_cons, ha, has], List.forall_mem_cons.2 ⟨hP, hall⟩⟩

/-- Items and what closes them are a list behind its bracket. -/
theorem BeginsParts.isValue_items (h : BeginsParts (IsItem atom) ']' rest cs) :
    ∃ text, text ++ rest = '[' :: cs ∧ IsValue atom text := by
  obtain ⟨first, more, rfl, hparts⟩ := h.exists_parts
  obtain ⟨ps, hps, hvalues⟩ := exists_map_eq hparts
  cases ps with
  | nil => cases hps
  | cons p ps =>
      refine ⟨_, ?_, .items hvalues⟩
      rw [hps]
      simp

/-- Members and what closes them are an object behind its bracket. -/
theorem BeginsParts.isValue_members (h : BeginsParts (IsMember atom) '\x7d' rest cs) :
    ∃ text, text ++ rest = '\x7b' :: cs ∧ IsValue atom text := by
  obtain ⟨first, more, rfl, hparts⟩ := h.exists_parts
  obtain ⟨ms, hms, hvalues⟩ := exists_map_eq hparts
  cases ms with
  | nil => cases hms
  | cons m ms =>
      refine ⟨_, ?_, .members (fun m hm => (hvalues m hm).1) fun m hm => (hvalues m hm).2⟩
      rw [hms]
      simp

/-- The characters begin with a value that is read. -/
def BeginsValue (rest cs : List Char) : Prop := ∃ text, text ++ rest = cs ∧ IsValue IsReadAtom text

/-- A value, if members and items with less fuel are what they should be. -/
theorem beginsValue_of_readValue_succ
    (hmembers : ∀ ms cs v rest, readMembers fuel ms cs = .ok (v, rest) →
      BeginsParts (IsMember IsReadAtom) '\x7d' rest cs)
    (hitems : ∀ items cs v rest, readItems fuel items cs = .ok (v, rest) →
      BeginsParts (IsItem IsReadAtom) ']' rest cs)
    (h : readValue (fuel + 1) cs = .ok (v, rest)) : BeginsValue rest cs := by
  rw [readValue.eq_def] at h
  dsimp only at h
  split at h
  · obtain ⟨s, hs, -⟩ := exists_of_map_eq_ok (f := Json.str) h
    obtain ⟨r, hr, hcloses⟩ := closesText_of_readText hs
    exact ⟨'"' :: r, congrArg ('"' :: ·) hr, .quoted ⟨r, rfl, hcloses⟩⟩
  · rename_i r
    obtain ⟨g, hg, hr⟩ := exists_of_skipGaps r
    split at h
    · rename_i heq
      cases h
      refine ⟨_, ?_, .noMembers hg⟩
      rw [← hr, heq]
      simp
    · rw [← hr]
      exact ((hmembers _ _ _ _ h).behind fun p hp => hp.behind hg).isValue_members
  · rename_i r
    obtain ⟨g, hg, hr⟩ := exists_of_skipGaps r
    split at h
    · rename_i heq
      cases h
      refine ⟨_, ?_, .noItems hg⟩
      rw [← hr, heq]
      simp
    · rw [← hr]
      exact ((hitems _ _ _ _ h).behind fun p hp => hp.behind hg).isValue_items
  · split at h
    · rename_i p hword
      cases h
      obtain ⟨w, hw, hcs⟩ := exists_of_word? hword
      exact ⟨_, hcs, .atom (isReadAtom_of_mem_words hw)⟩
    · obtain ⟨n, hn⟩ := exists_of_readNumber h
      exact ⟨_, hn, .atom (.inl (.inr ⟨n, rfl⟩))⟩

/-- A value with what separates it from the rest. -/
theorem isItem_append {text : List Char} (h : IsValue atom text) (hg : AreGaps g) : IsItem atom (text ++ g) :=
  ⟨⟨[], text, g, areGaps_nil, hg⟩, rfl, h⟩

/-- A name and a value with what separates them from each other and from the rest. -/
theorem isMember_append {r text g₁ g₂ g₃ : List Char} (hr : ClosesText r) (h : IsValue atom text)
    (h₁ : AreGaps g₁) (h₂ : AreGaps g₂) (h₃ : AreGaps g₃) :
    IsMember atom ('"' :: (r ++ (g₁ ++ ':' :: (g₂ ++ (text ++ g₃))))) := by
  refine ⟨⟨⟨[], '"' :: r, g₁, areGaps_nil, h₁⟩, ⟨g₂, text, g₃, h₂, h₃⟩⟩, ?_, ⟨r, rfl, hr⟩, h⟩
  simp [Member.chars, Padded.chars]

/-- Items, if values and items with less fuel are what they should be. -/
theorem beginsItems_of_readItems_succ
    (hvalue : ∀ cs v rest, readValue fuel cs = .ok (v, rest) → BeginsValue rest cs)
    (hitems : ∀ items cs v rest, readItems fuel items cs = .ok (v, rest) →
      BeginsParts (IsItem IsReadAtom) ']' rest cs)
    {items : List Json} (h : readItems (fuel + 1) items cs = .ok (v, rest)) :
    BeginsParts (IsItem IsReadAtom) ']' rest cs := by
  rw [readItems] at h
  obtain ⟨⟨w, r⟩, hw, hread⟩ := Except.bind_eq_ok_iff.1 h
  obtain ⟨text, rfl, htext⟩ := hvalue _ _ _ hw
  obtain ⟨g, hg, hr⟩ := exists_of_skipGaps r
  have hitem := isItem_append htext hg
  dsimp only at hread
  split at hread
  · rename_i heq
    cases hread
    rw [← hr, heq, ← List.append_assoc]
    exact .last hitem
  · rename_i r' heq
    obtain ⟨g', hg', hr'⟩ := exists_of_skipGaps r'
    rw [← hr, heq, ← List.append_assoc, ← hr']
    exact .next hitem ((hitems _ _ _ _ hread).behind fun p hp => hp.behind hg')
  · cases hread

/-- Members, if values and members with less fuel are what they should be. -/
theorem beginsMembers_of_readMembers_succ
    (hvalue : ∀ cs v rest, readValue fuel cs = .ok (v, rest) → BeginsValue rest cs)
    (hmembers : ∀ ms cs v rest, readMembers fuel ms cs = .ok (v, rest) →
      BeginsParts (IsMember IsReadAtom) '\x7d' rest cs)
    {ms : List (String × Json)} (h : readMembers (fuel + 1) ms cs = .ok (v, rest)) :
    BeginsParts (IsMember IsReadAtom) '\x7d' rest cs := by
  rw [readMembers.eq_def] at h
  dsimp only at h
  split at h
  · rename_i r
    obtain ⟨⟨name, r₁⟩, hname, hread⟩ := Except.bind_eq_ok_iff.1 h
    obtain ⟨t, rfl, hcloses⟩ := closesText_of_readText hname
    obtain ⟨g₁, hg₁, hr₁⟩ := exists_of_skipGaps r₁
    dsimp only at hread
    split at hread
    · rename_i r₂ hcolon
      obtain ⟨⟨w, r₃⟩, hw, hread'⟩ := Except.bind_eq_ok_iff.1 hread
      obtain ⟨text, htext, hvalue⟩ := hvalue _ _ _ hw
      obtain ⟨g₂, hg₂, hr₂⟩ := exists_of_skipGaps r₂
      obtain ⟨g₃, hg₃, hr₃⟩ := exists_of_skipGaps r₃
      have hmember := isMember_append hcloses hvalue hg₁ hg₂ hg₃
      rw [hcolon, ← hr₂, ← htext, ← hr₃] at hr₁
      dsimp only at hread'
      split at hread'
      · rename_i heq
        cases hread'
        have hlast : BeginsParts (IsMember IsReadAtom) '\x7d' rest _ := .last hmember
        rw [← hr₁, heq]
        simpa using hlast
      · rename_i r₄ heq
        obtain ⟨g₄, hg₄, hr₄⟩ := exists_of_skipGaps r₄
        have hmore := (hmembers _ _ _ _ hread').behind fun p hp => IsMember.behind hg₄ hp
        have hnext := BeginsParts.next hmember hmore
        rw [← hr₁, heq, ← hr₄]
        simpa using hnext
      · cases hread'
    · cases hread
  · cases h

/-- What is read as a value, as members or as items is what it should be. -/
theorem beginsValue_of_read (fuel : ℕ) :
    (∀ cs v rest, readValue fuel cs = .ok (v, rest) → BeginsValue rest cs) ∧
      (∀ ms cs v rest, readMembers fuel ms cs = .ok (v, rest) →
        BeginsParts (IsMember IsReadAtom) '\x7d' rest cs) ∧
      ∀ items cs v rest, readItems fuel items cs = .ok (v, rest) →
        BeginsParts (IsItem IsReadAtom) ']' rest cs := by
  induction fuel with
  | zero =>
      refine ⟨fun cs v rest h => ?_, fun ms cs v rest h => ?_, fun items cs v rest h => ?_⟩
      · cases h
      · cases h
      · cases h
  | succ fuel ih =>
      obtain ⟨hvalue, hmembers, hitems⟩ := ih
      exact ⟨fun _ _ _ => beginsValue_of_readValue_succ hmembers hitems,
        fun _ _ _ _ => beginsMembers_of_readMembers_succ hvalue hmembers,
        fun _ _ _ _ => beginsItems_of_readItems_succ hvalue hitems⟩

/-- **Every text that is read is one of the grammar**, with the three words beside the standard. -/
theorem isText_of_read {t : String} (h : read t = .ok v) : IsText IsReadAtom t := by
  obtain ⟨r, hv, hend⟩ := readValue_of_read h
  obtain ⟨text, htext, hvalue⟩ := (beginsValue_of_read _).1 _ _ _ hv
  obtain ⟨g, hg, hgaps⟩ := exists_of_skipGaps t.toList
  obtain ⟨g', hg', hr⟩ := exists_of_skipGaps r
  rw [hend, List.append_nil] at hr
  rw [← hr] at htext
  exact ⟨⟨g, text, g', hg, hg'⟩, by rw [Padded.chars, htext, hgaps], hvalue⟩

end Restline.Json
