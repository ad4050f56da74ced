import Mathlib
import Restline.Proofs.JsonStrings
import Restline.Proofs.ProperJson

/-!
JSON values are read back from their text, in every layout whose separators are a comma and a colon with
nothing but blanks after them.

* `Json.Layout.IsReadable` : layouts that are read back.
* `Json.ReadsBack` : a value is read back at the front of a longer text, at any depth.
* `Json.read_write` : **a proper value is read back from its text**.
-/

set_option autoImplicit false

namespace Restline.Json

open Number (Binary64)

/-! ### Layouts -/

/-- Blanks only. -/
def AreGaps (g : List Char) : Prop := ∀ c ∈ g, isGap c = true

theorem areGaps_nil : AreGaps [] := fun _ hc => by cases hc

/-- The separators are a comma and a colon, with nothing but blanks after them. -/
structure Layout.IsReadable (l : Layout) : Prop where
  item : ∃ g, l.itemSeparator.toList = ',' :: g ∧ AreGaps g
  name : ∃ g, l.nameSeparator.toList = ':' :: g ∧ AreGaps g

theorem Layout.isReadable_compact : compact.IsReadable :=
  ⟨⟨[], rfl, areGaps_nil⟩, ⟨[], rfl, areGaps_nil⟩⟩

theorem Layout.isReadable_pretty : pretty.IsReadable :=
  ⟨⟨[], rfl, areGaps_nil⟩, ⟨[' '], rfl, by simp [AreGaps, isGap]⟩⟩

theorem Layout.isReadable_prettyAscii : prettyAscii.IsReadable :=
  ⟨⟨[], rfl, areGaps_nil⟩, ⟨[' '], rfl, by simp [AreGaps, isGap]⟩⟩

theorem areGaps_lineBreak (l : Layout) (depth : ℕ) : AreGaps (l.lineBreak depth).toList := by
  rw [Layout.lineBreak]
  intro c hc
  split at hc
  · cases hc
  · rw [String.toList_append, List.mem_append] at hc
    rcases hc with h | h
    · obtain rfl : c = '\n' := by simpa using h
      rfl
    · rw [String.toList_ofList] at h
      rw [List.eq_of_mem_replicate h]
      rfl

theorem AreGaps.append {g g' : List Char} (h : AreGaps g) (h' : AreGaps g') : AreGaps (g ++ g') := by
  intro c hc
  rcases List.mem_append.1 hc with hc | hc
  · exact h c hc
  · exact h' c hc

/-- Blanks before something else are passed over. -/
theorem skipGaps_append {g : List Char} (hg : AreGaps g) {c : Char} (hc : isGap c = false) (r : List Char) :
    skipGaps (g ++ c :: r) = c :: r := by
  rw [skipGaps, List.dropWhile_append_of_pos hg, List.dropWhile_cons_of_neg (by simp [hc])]

/-- A number ends before a blank. -/
theorem endsNumber_gap {c : Char} (hc : isGap c = true) (r : List Char) : EndsNumber (c :: r) := by
  intro x hx
  obtain rfl := Option.some_inj.1 hx
  simp only [isGap, Bool.or_eq_true, beq_iff_eq] at hc
  rcases hc with ((rfl | rfl) | rfl) | rfl <;> decide

/-- A number ends before the blanks and the punctuation of a list or an object. -/
theorem endsNumber_of_gaps {g : List Char} (hg : AreGaps g) {c : Char} (hc : c = ',' ∨ c = ']' ∨ c = '\x7d')
    (r : List Char) : EndsNumber (g ++ c :: r) := by
  cases g with
  | nil =>
      intro x hx
      obtain rfl := Option.some_inj.1 hx
      rcases hc with rfl | rfl | rfl <;> decide
  | cons y g => exact endsNumber_gap (hg y List.mem_cons_self) _

theorem endsNumber_nil : EndsNumber [] := fun _ hc => by cases hc

/-- A number ends before blanks and nothing else. -/
theorem endsNumber_gaps {g : List Char} (hg : AreGaps g) : EndsNumber g := by
  cases g with
  | nil => exact endsNumber_nil
  | cons c g => exact endsNumber_gap (hg c List.mem_cons_self) g

/-! ### The front of a value -/

/-- The characters begin neither with a blank nor with the end of a list or an object. -/
def StartsValue (cs : List Char) : Prop :=
  ∃ c r, cs = c :: r ∧ isGap c = false ∧ c ≠ ']' ∧ c ≠ '\x7d'

theorem startsValue_of_readValue {fuel : ℕ} {cs : List Char} {p : Json × List Char}
    (h : readValue fuel cs = .ok p) : StartsValue cs := by
  cases fuel with
  | zero => cases h
  | succ fuel =>
      cases cs with
      | nil => cases h
      | cons c r =>
          refine ⟨c, r, rfl, ?_, ?_, ?_⟩
          · by_contra hgap
            simp only [isGap, Bool.or_eq_true, beq_iff_eq, Bool.not_eq_false] at hgap
            rcases hgap with ((rfl | rfl) | rfl) | rfl <;> cases h
          · rintro rfl
            cases h
          · rintro rfl
            cases h

theorem startsValue_of_readItems {fuel : ℕ} {items : List Json} {cs : List Char} {p : Json × List Char}
    (h : readItems fuel items cs = .ok p) : StartsValue cs := by
  cases fuel with
  | zero => cases h
  | succ fuel =>
      rw [readItems] at h
      cases hv : readValue fuel cs with
      | error f =>
          rw [hv] at h
          cases h
      | ok v => exact startsValue_of_readValue hv

theorem StartsValue.skipGaps_append {g cs : List Char} (h : StartsValue cs) (hg : AreGaps g) :
    skipGaps (g ++ cs) = cs := by
  obtain ⟨c, r, rfl, hc, -⟩ := h
  exact Json.skipGaps_append hg hc r

/-! ### One step of reading -/

section Step

variable {fuel : ℕ} {cs r r₁ r₂ r₃ : List Char} {v : Json} {items : List Json}
  {members : List (String × Json)} {name : String}

/-- A number is no word. -/
theorem readValue_of_beginsNumber (h : BeginsNumber cs) : readValue (fuel + 1) cs = readNumber cs := by
  obtain ⟨c, r, hc, hcs⟩ := h
  have hne : ∀ x, isDecimal x = false → c ≠ x := by
    rintro x hx rfl
    rw [hc] at hx
    cases hx
  have hword : word? cs = none := by
    rcases hcs with rfl | rfl
    · simp [word?, words, afterWord?, (hne 'n' rfl).symm, (hne 't' rfl).symm, (hne 'f' rfl).symm,
        (hne 'N' rfl).symm, (hne 'I' rfl).symm, (hne '-' rfl).symm]
    · simp [word?, words, afterWord?, (hne 'I' rfl).symm]
  have hfront : ∀ x r', isDecimal x = false → x ≠ '-' → cs ≠ x :: r' := by
    rintro x r' hx hminus rfl
    rcases hcs with heq | heq
    · exact hne x hx (List.cons_eq_cons.1 heq).1.symm
    · exact hminus (List.cons_eq_cons.1 heq).1
  rw [readValue.eq_def]
  simp only []
  split
  · exact absurd rfl (hfront '"' _ rfl (by decide))
  · exact absurd rfl (hfront '\x7b' _ rfl (by decide))
  · exact absurd rfl (hfront '[' _ rfl (by decide))
  · rw [hword]

theorem readValue_of_readNumber {p : Json × List Char} (h : readNumber cs = .ok p) :
    readValue (fuel + 1) cs = .ok p :=
  (readValue_of_beginsNumber (beginsNumber_of_readNumber h)).trans h

theorem readValue_arr (fuel : ℕ) (hcs : skipGaps cs = r) (h : StartsValue r) :
    readValue (fuel + 1) ('[' :: cs) = readItems fuel [] r := by
  obtain ⟨c, r, rfl, -, hclose, -⟩ := h
  rw [readValue, hcs]
  split
  · rename_i heq
    exact absurd (List.cons_eq_cons.1 heq).1 hclose
  · rfl

theorem readValue_obj (fuel : ℕ) (hcs : skipGaps cs = '"' :: r) :
    readValue (fuel + 1) ('\x7b' :: cs) = readMembers fuel [] ('"' :: r) := by
  rw [readValue, hcs]
  rfl

theorem readItems_last (hv : readValue fuel cs = .ok (v, r)) (hr : skipGaps r = ']' :: r₁) :
    readItems (fuel + 1) items cs = .ok (.arr (items.reverse ++ [v]), r₁) := by
  rw [readItems, hv]
  simp only [Except.bind, bind, hr, List.reverse_cons]

theorem readItems_next (hv : readValue fuel cs = .ok (v, r)) (hr : skipGaps r = ',' :: r₁) :
    readItems (fuel + 1) items cs = readItems fuel (v :: items) (skipGaps r₁) := by
  rw [readItems, hv]
  simp only [Except.bind, bind, hr]

theorem readMembers_last (hname : readText r = .ok (name, r₁)) (hr : skipGaps r₁ = ':' :: r₂)
    (hv : readValue fuel (skipGaps r₂) = .ok (v, r₃)) (hr₃ : skipGaps r₃ = '\x7d' :: cs) :
    readMembers (fuel + 1) members ('"' :: r) = .ok (.obj (Keyed.put members name v), cs) := by
  rw [readMembers, hname]
  simp only [Except.bind, bind, hr, hv, hr₃]

theorem readMembers_next (hname : readText r = .ok (name, r₁)) (hr : skipGaps r₁ = ':' :: r₂)
    (hv : readValue fuel (skipGaps r₂) = .ok (v, r₃)) (hr₃ : skipGaps r₃ = ',' :: cs) :
    readMembers (fuel + 1) members ('"' :: r) =
      readMembers fuel (Keyed.put members name v) (skipGaps cs) := by
  rw [readMembers, hname]
  simp only [Except.bind, bind, hr, hv, hr₃]

end Step

/-! ### Values -/

/-- A binary number is read back, be it finite or a word. -/
theorem readValue_float {x : Binary64} (hx : x.IsCanonical) {fuel : ℕ} {rest : List Char}
    (hrest : EndsNumber rest) :
    readValue (fuel + 1) ((x.toText spelling).toList ++ rest) = .ok (.float x, rest) := by
  cases x with
  | nan => rfl
  | infinity negative => cases negative <;> rfl
  | finite negative m e => exact readValue_of_readNumber (readNumber_float hx rfl hrest)

/-- A name that comes only once is put at the end. -/
theorem put_of_nodup {members r : List (String × Json)} {name : String} {v : Json}
    (h : (Keyed.keys (members ++ (name, v) :: r)).Nodup) :
    Keyed.put members name v = members ++ [(name, v)] := by
  refine Keyed.put_of_notMem (fun hmem => ?_) v
  rw [Keyed.keys, List.map_append, List.nodup_append] at h
  exact h.2.2 name hmem name List.mem_cons_self rfl

theorem endsNumber_writeItems {l : Layout} (hl : l.IsReadable) (depth : ℕ) (items : List Json) {g : List Char}
    (hg : AreGaps g) (rest : List Char) :
    EndsNumber ((writeItems l depth items).toList ++ (g ++ ']' :: rest)) := by
  cases items with
  | nil => exact endsNumber_of_gaps hg (.inr (.inl rfl)) rest
  | cons j r =>
      obtain ⟨sep, hsep, -⟩ := hl.item
      rw [writeItems, String.toList_append, String.toList_append, String.toList_append, hsep]
      exact endsNumber_of_gaps (g := []) (fun _ h => by cases h) (.inl rfl) _

theorem endsNumber_writeMembers {l : Layout} (hl : l.IsReadable) (depth : ℕ) (ms : List (String × Json))
    {g : List Char} (hg : AreGaps g) (rest : List Char) :
    EndsNumber ((writeMembers l depth ms).toList ++ (g ++ '\x7d' :: rest)) := by
  cases ms with
  | nil => exact endsNumber_of_gaps hg (.inr (.inr rfl)) rest
  | cons e r =>
      obtain ⟨k, j⟩ := e
      obtain ⟨sep, hsep, -⟩ := hl.item
      rw [writeMembers]
      simp only [String.toList_append, hsep]
      exact endsNumber_of_gaps (g := []) (fun _ h => by cases h) (.inl rfl) _

/-- The value is read back at the front of a longer text, at any depth. -/
def ReadsBack (l : Layout) (j : Json) : Prop :=
  ∀ (depth fuel : ℕ) (rest : List Char), EndsNumber rest → (writeAt l depth j).toList.length < fuel →
    readValue fuel ((writeAt l depth j).toList ++ rest) = .ok (j, rest)

section Parts

variable {l : Layout} (hl : l.IsReadable) {g : List Char}

include hl

/-- Items that are read back one by one are read back after those read. -/
theorem readItems_writeItems (depth fuel : ℕ) (items : List Json) {j : Json} {r : List Json}
    (rest : List Char) (hg : AreGaps g) (hj : ReadsBack l j) (hr : ∀ x ∈ r, ReadsBack l x)
    (hfuel : ((writeAt l depth j).toList ++ (writeItems l depth r).toList).length + 1 < fuel) :
    readItems fuel items
      ((writeAt l depth j).toList ++ ((writeItems l depth r).toList ++ (g ++ ']' :: rest))) =
        .ok (.arr (items.reverse ++ j :: r), rest) := by
  induction r generalizing j items fuel with
  | nil =>
      obtain ⟨fuel, rfl⟩ : ∃ n, fuel = n + 1 := ⟨fuel - 1, by omega⟩
      rw [List.length_append] at hfuel
      have hv := hj depth fuel _ (endsNumber_writeItems hl depth [] hg rest) (by omega)
      exact readItems_last hv (skipGaps_append hg rfl rest)
  | cons j' r ih =>
      obtain ⟨fuel, rfl⟩ : ∃ n, fuel = n + 1 := ⟨fuel - 1, by omega⟩
      obtain ⟨sep, hsep, hgaps⟩ := hl.item
      rw [List.length_append] at hfuel
      have hv := hj depth fuel _ (endsNumber_writeItems hl depth (j' :: r) hg rest) (by omega)
      rw [writeItems] at hfuel hv ⊢
      simp only [String.toList_append, hsep, List.cons_append, List.append_assoc, List.length_append,
        List.length_cons] at hfuel hv ⊢
      have hnext := ih fuel (j :: items) (hr j' List.mem_cons_self)
        (fun x hx => hr x (List.mem_cons_of_mem _ hx)) (by rw [List.length_append]; omega)
      rw [readItems_next hv rfl, ← List.append_assoc,
        (startsValue_of_readItems hnext).skipGaps_append (hgaps.append (areGaps_lineBreak l depth)), hnext]
      simp

/-- The text of a member: its name, a colon and its value. -/
theorem exists_member (k : String) {j : Json} (depth fuel : ℕ) {rest : List Char} (hj : ReadsBack l j)
    (hfuel : (writeAt l depth j).toList.length < fuel) (hrest : EndsNumber rest) :
    ∃ t r₁ r₂, (textOf l.ascii k).toList ++ (l.nameSeparator.toList ++ ((writeAt l depth j).toList ++ rest)) =
        '"' :: t ∧
      readText t = .ok (k, r₁) ∧ skipGaps r₁ = ':' :: r₂ ∧ readValue fuel (skipGaps r₂) = .ok (j, rest) := by
  obtain ⟨sep, hsep, hgaps⟩ := hl.name
  have hv := hj depth fuel rest hrest hfuel
  obtain ⟨t, htext, hread⟩ := readText_textOf l.ascii k
    (l.nameSeparator.toList ++ ((writeAt l depth j).toList ++ rest))
  refine ⟨t, _, sep ++ ((writeAt l depth j).toList ++ rest), htext, hread, ?_, ?_⟩
  · rw [hsep]
    rfl
  · rw [(startsValue_of_readValue hv).skipGaps_append hgaps, hv]

/-- Members that are read back one by one are read back after those read, if no name comes twice. -/
theorem readMembers_writeMembers (depth fuel : ℕ) (members : List (String × Json)) {k : String} {j : Json}
    {r : List (String × Json)} (rest : List Char) (hg : AreGaps g) (hj : ReadsBack l j)
    (hr : ∀ e ∈ r, ReadsBack l e.2) (hkeys : (Keyed.keys (members ++ (k, j) :: r)).Nodup)
    (hfuel : ((textOf l.ascii k).toList ++ (writeAt l depth j).toList ++
      (writeMembers l depth r).toList).length + 1 < fuel) :
    readMembers fuel members
      ((textOf l.ascii k).toList ++ (l.nameSeparator.toList ++ ((writeAt l depth j).toList ++
        ((writeMembers l depth r).toList ++ (g ++ '\x7d' :: rest))))) =
          .ok (.obj (members ++ (k, j) :: r), rest) := by
  induction r generalizing k j members fuel with
  | nil =>
      obtain ⟨fuel, rfl⟩ : ∃ n, fuel = n + 1 := ⟨fuel - 1, by omega⟩
      simp only [List.length_append] at hfuel
      obtain ⟨t, r₁, r₂, htext, hname, hcolon, hv⟩ := exists_member hl k depth fuel hj (by omega)
        (endsNumber_writeMembers hl depth [] hg rest)
      rw [htext, readMembers_last hname hcolon hv (skipGaps_append hg rfl rest), put_of_nodup hkeys]
  | cons e r ih =>
      obtain ⟨k', j'⟩ := e
      obtain ⟨fuel, rfl⟩ : ∃ n, fuel = n + 1 := ⟨fuel - 1, by omega⟩
      obtain ⟨sep, hsep, hgaps⟩ := hl.item
      simp only [List.length_append] at hfuel
      obtain ⟨t, r₁, r₂, htext, hname, hcolon, hv⟩ := exists_member hl k depth fuel hj (by omega)
        (endsNumber_writeMembers hl depth ((k', j') :: r) hg rest)
      have hgaps' := hgaps.append (areGaps_lineBreak l depth)
      have hcomma : skipGaps ((writeMembers l depth ((k', j') :: r)).toList ++ (g ++ '\x7d' :: rest)) =
          ',' :: ((sep ++ (l.lineBreak depth).toList) ++ ((textOf l.ascii k').toList ++ (l.nameSeparator.toList ++
            ((writeAt l depth j').toList ++ ((writeMembers l depth r).toList ++ (g ++ '\x7d' :: rest)))))) := by
        rw [writeMembers]
        simp only [String.toList_append, hsep, List.cons_append, List.append_assoc]
        rfl
      rw [writeMembers] at hfuel
      simp only [String.toList_append, hsep, List.length_append, List.length_cons] at hfuel
      have hkeys' : (Keyed.keys ((members ++ [(k, j)]) ++ (k', j') :: r)).Nodup := by
        rwa [List.append_assoc]
      have hnext := ih fuel (members ++ [(k, j)]) (hr _ List.mem_cons_self)
        (fun e he => hr e (List.mem_cons_of_mem _ he)) hkeys' (by simp only [List.length_append]; omega)
      obtain ⟨t', htext', -⟩ := readText_textOf l.ascii k' (l.nameSeparator.toList ++
        ((writeAt l depth j').toList ++ ((writeMembers l depth r).toList ++ (g ++ '\x7d' :: rest))))
      rw [htext, readMembers_next hname hcolon hv hcomma, put_of_nodup hkeys]
      rw [htext'] at hnext ⊢
      rw [skipGaps_append hgaps' rfl, hnext]
      simp

theorem readsBack_arr {items : List Json} (h : ∀ j ∈ items, ReadsBack l j) : ReadsBack l (.arr items) := by
  intro depth fuel rest _ hfuel
  obtain ⟨fuel, rfl⟩ : ∃ n, fuel = n + 1 := ⟨fuel - 1, by omega⟩
  cases items with
  | nil =>
      rw [writeAt]
      rfl
  | cons j r =>
      have hopen := areGaps_lineBreak l (depth + 1)
      have hclose := areGaps_lineBreak l depth
      rw [writeAt] at hfuel ⊢
      simp only [String.toList_append, List.length_append] at hfuel
      have hitems := readItems_writeItems hl (depth + 1) fuel [] rest hclose
        (h j List.mem_cons_self) (fun x hx => h x (List.mem_cons_of_mem _ hx)) (by simp at hfuel ⊢; omega)
      have hstart := startsValue_of_readItems hitems
      have hopened := readValue_arr fuel (hstart.skipGaps_append hopen) hstart
      rw [hitems] at hopened
      simpa using hopened

theorem readsBack_obj {ms : List (String × Json)} (hkeys : (Keyed.keys ms).Nodup)
    (h : ∀ e ∈ ms, ReadsBack l e.2) : ReadsBack l (.obj ms) := by
  intro depth fuel rest _ hfuel
  obtain ⟨fuel, rfl⟩ : ∃ n, fuel = n + 1 := ⟨fuel - 1, by omega⟩
  cases ms with
  | nil =>
      rw [writeAt]
      rfl
  | cons e r =>
      obtain ⟨k, j⟩ := e
      have hopen := areGaps_lineBreak l (depth + 1)
      have hclose := areGaps_lineBreak l depth
      rw [writeAt] at hfuel ⊢
      simp only [String.toList_append, List.length_append] at hfuel
      have hmembers := readMembers_writeMembers hl (depth + 1) fuel [] rest hclose
        (h _ List.mem_cons_self) (fun e he => h e (List.mem_cons_of_mem _ he)) hkeys
        (by simp at hfuel ⊢; omega)
      obtain ⟨t, htext, -⟩ := readText_textOf l.ascii k (l.nameSeparator.toList ++
        ((writeAt l (depth + 1) j).toList ++ ((writeMembers l (depth + 1) r).toList ++
          ((l.lineBreak depth).toList ++ '\x7d' :: rest))))
      rw [htext] at hmembers
      have hopened := readValue_obj fuel (skipGaps_append hopen (c := '"') rfl t)
      rw [hmembers, ← htext] at hopened
      simpa using hopened

end Parts

/-- Every proper value is read back at the front of a longer text. -/
theorem readsBack_of_proper {l : Layout} (hl : l.IsReadable) (j : Json) : j.Proper → ReadsBack l j := by
  induction j using Json.induction with
  | null =>
      intro _ depth fuel rest _ hfuel
      obtain ⟨fuel, rfl⟩ : ∃ n, fuel = n + 1 := ⟨fuel - 1, by omega⟩
      rw [writeAt]
      rfl
  | bool b =>
      intro _ depth fuel rest _ hfuel
      obtain ⟨fuel, rfl⟩ : ∃ n, fuel = n + 1 := ⟨fuel - 1, by omega⟩
      cases b <;>
      · rw [writeAt]
        rfl
  | int n =>
      intro hn depth fuel rest hrest hfuel
      obtain ⟨fuel, rfl⟩ : ∃ n, fuel = n + 1 := ⟨fuel - 1, by omega⟩
      rw [Proper] at hn
      rw [writeAt]
      exact readValue_of_readNumber (readNumber_int hn hrest)
  | float x =>
      intro hx depth fuel rest hrest hfuel
      obtain ⟨fuel, rfl⟩ : ∃ n, fuel = n + 1 := ⟨fuel - 1, by omega⟩
      rw [Proper] at hx
      rw [writeAt]
      exact readValue_float hx hrest
  | str s =>
      intro _ depth fuel rest _ hfuel
      obtain ⟨fuel, rfl⟩ : ∃ n, fuel = n + 1 := ⟨fuel - 1, by omega⟩
      obtain ⟨r, htext, hread⟩ := readText_textOf l.ascii s rest
      rw [writeAt, htext, readValue, hread]
      rfl
  | arr items ih =>
      intro h
      exact readsBack_arr hl fun j hj => ih j hj (proper_arr.1 h j hj)
  | obj ms ih =>
      intro h
      obtain ⟨hkeys, hms⟩ := proper_obj.1 h
      exact readsBack_obj hl hkeys fun e he => ih e he (hms e he)

/-- A proper value is read back from its text with blanks behind it. -/
theorem read_write_gaps {l : Layout} (hl : l.IsReadable) {j : Json} (hj : j.Proper) {g : List Char}
    (hg : AreGaps g) : readChars ((j.write l).toList ++ g) = .ok j := by
  have hvalue := readsBack_of_proper hl j hj 0 (2 * ((writeAt l 0 j).toList ++ g).length + 2) g
    (endsNumber_gaps hg) (by simp only [List.length_append]; omega)
  obtain ⟨c, r, hcs, hc, -⟩ := startsValue_of_readValue hvalue
  have hgaps : skipGaps ((writeAt l 0 j).toList ++ g) = (writeAt l 0 j).toList ++ g := by
    rw [hcs]
    exact skipGaps_append (g := []) (fun _ h => by cases h) hc r
  have hrest : skipGaps g = [] := List.dropWhile_eq_nil_iff.2 hg
  rw [write, readChars.eq_def]
  split
  · rename_i hmark
    rw [hmark] at hvalue
    cases hvalue
  · rw [hgaps, hvalue, Except.ok_bind]
    dsimp only
    rw [hrest]

/-- **A proper value is read back from its text.** -/
theorem read_write {l : Layout} (hl : l.IsReadable) {j : Json} (hj : j.Proper) : read (j.write l) = .ok j := by
  have hread := read_write_gaps hl hj (g := []) fun _ h => by cases h
  rwa [List.append_nil] at hread

end Restline.Json
