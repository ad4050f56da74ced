import Mathlib
import Restline.Proofs.JsonGrammar

/-!
Texts of the grammar are read, unless a whole number in them is too long. What the scalars of a text are read
as decides what the text is read as: whatever holds of them and passes from items and members to lists and
objects holds of its value. So a text of the standard whose numerals are not too great has a finite value.

* `Json.IsHereditary` : what passes from parts to lists and objects.
* `Json.Comes`, `Json.ReadsTo` : what reading comes to at the front of characters.
* `Json.IsValue.readsTo` : **values of the grammar are read**.
* `Json.read_iff_isText` : **the texts that are read are those of the grammar**, long numerals apart.
* `Json.isFinite_of_isText` : **texts of the standard without great numerals have finite values**.
-/

set_option autoImplicit false

namespace Restline.Json

/-! ### What reading comes to -/

/-- The property holds of texts, and passes from items and members to lists and objects. -/
structure IsHereditary (Q : Json → Prop) : Prop where
  str : ∀ s, Q (.str s)
  arr : ∀ items, (∀ j ∈ items, Q j) → Q (.arr items)
  obj : ∀ ms, (∀ m ∈ ms, Q m.2) → Q (.obj ms)

/-- Reading comes to a value with the property and leaves the rest, or ends at a whole number that is too
long. -/
inductive Comes (Q : Json → Prop) (rest : List Char) : Except ReadFault (Json × List Char) → Prop
  | ok {v : Json} (h : Q v) : Comes Q rest (.ok (v, rest))
  | overlong {n : ℕ} : Comes Q rest (.error (.overlong n))

/-- The characters are those of a value, and are read as one with the property, whatever follows them. -/
structure ReadsTo (Q : Json → Prop) (text : List Char) : Prop where
  starts : StartsValue text
  comes : ∀ fuel rest, text.length < fuel → EndsNumber rest → Comes Q rest (readValue fuel (text ++ rest))

variable {Q : Json → Prop} {cs rest text g : List Char} {fuel : ℕ}

/-! ### Scalars and quoted texts -/

/-- A closed text is read. -/
theorem exists_readPieces_of_closesText (h : ClosesText text) (opening : ℕ) (rest : List Char) :
    ∃ ps, readPieces opening (text ++ rest) = .ok (ps, rest) := by
  induction h with
  | close => exact ⟨[], rfl⟩
  | plain hquote hslash hprintable _ ih =>
      obtain ⟨ps, hps⟩ := ih
      rw [List.cons_append, readPieces_plain hquote hslash (Nat.not_lt.2 hprintable), hps]
      exact ⟨_, rfl⟩
  | @letter c cs hc _ ih =>
      obtain ⟨ps, hps⟩ := ih
      simp only [escapeLetters, List.mem_cons, List.not_mem_nil, or_false] at hc
      rcases hc with rfl | rfl | rfl | rfl | rfl | rfl | rfl | rfl <;>
        simp [readPieces, simpleEscape?, hps, Except.map]
  | @unit a b c d cs ha hb hc hd hcloses ih =>
      obtain ⟨ps, hps⟩ := ih
      obtain ⟨n, hn⟩ := exists_hexValue4? ha hb hc hd
      -- there is a character behind the digits, the closing quote at the latest
      obtain ⟨e, r, rfl⟩ : ∃ e r, cs = e :: r := by
        cases hcloses <;> exact ⟨_, _, rfl⟩
      rw [List.cons_append] at hps
      simp only [List.cons_append, readPieces, hn, hps]
      exact ⟨_, rfl⟩

theorem exists_readText_of_closesText (h : ClosesText text) (rest : List Char) :
    ∃ s, readText (text ++ rest) = .ok (s, rest) := by
  obtain ⟨ps, hps⟩ := exists_readPieces_of_closesText h ((text ++ rest).length + 1) rest
  exact ⟨_, by rw [readText, hps]; rfl⟩

theorem readsTo_of_isQuoted (hstr : ∀ s, Q (.str s)) (h : IsQuoted text) : ReadsTo Q text := by
  obtain ⟨r, rfl, hcloses⟩ := h
  refine ⟨⟨'"', r, rfl, by decide, by decide, by decide⟩, fun fuel rest hfuel _ => ?_⟩
  obtain ⟨fuel, rfl⟩ : ∃ n, fuel = n + 1 := ⟨fuel - 1, by omega⟩
  obtain ⟨s, hs⟩ := exists_readText_of_closesText hcloses rest
  rw [List.cons_append, readValue, hs]
  exact .ok (hstr s)

/-- What a word stands for is read where the word stands. -/
theorem readsTo_of_mem_words {w : String × Json} (h : w ∈ words) (hw : Q w.2) : ReadsTo Q w.1.toList := by
  have hread : ∀ fuel rest, readValue (fuel + 1) (w.1.toList ++ rest) = .ok (w.2, rest) := by
    intro fuel rest
    simp only [words, List.mem_cons, List.not_mem_nil, or_false] at h
    rcases h with rfl | rfl | rfl | rfl | rfl | rfl <;> rfl
  refine ⟨?_, fun fuel rest hfuel _ => ?_⟩
  · have hempty := hread 0 []
    rw [List.append_nil] at hempty
    exact startsValue_of_readValue hempty
  · obtain ⟨fuel, rfl⟩ : ∃ n, fuel = n + 1 := ⟨fuel - 1, by omega⟩
    rw [hread]
    exact .ok hw

theorem Numeral.beginsNumber (n : Numeral) (rest : List Char) : BeginsNumber (n.chars ++ rest) := by
  obtain ⟨c, r, hchars, hc⟩ := n.magnitude.exists_chars
  rw [Numeral.chars, hchars]
  cases n.negative with
  | true => exact ⟨c, r ++ rest, hc, .inr rfl⟩
  | false => exact ⟨c, r ++ rest, hc, .inl rfl⟩

theorem BeginsNumber.startsValue (h : BeginsNumber cs) : StartsValue cs := by
  obtain ⟨c, r, hc, rfl | rfl⟩ := h
  · refine ⟨c, r, rfl, ?_, ?_, ?_⟩
    · rw [Bool.eq_false_iff]
      intro hgap
      simp only [isGap, Bool.or_eq_true, beq_iff_eq] at hgap
      rcases hgap with ((rfl | rfl) | rfl) | rfl <;> exact absurd hc (by decide)
    · rintro rfl
      exact absurd hc (by decide)
    · rintro rfl
      exact absurd hc (by decide)
  · exact ⟨'-', c :: r, rfl, by decide, by decide, by decide⟩

/-- A numeral is read as its number, if it is not too long. -/
theorem Numeral.readsTo (n : Numeral) (h : ∀ v, n.read = .ok v → Q v) : ReadsTo Q n.chars := by
  refine ⟨?_, fun fuel rest hfuel hrest => ?_⟩
  · have hbegins := n.beginsNumber []
    rw [List.append_nil] at hbegins
    exact hbegins.startsValue
  · obtain ⟨fuel, rfl⟩ : ∃ n, fuel = n + 1 := ⟨fuel - 1, by omega⟩
    rw [readValue_of_beginsNumber (n.beginsNumber rest), readNumber_chars n hrest]
    rcases n.read_cases with ⟨v, hv, -⟩ | ⟨k, hk⟩
    · rw [hv]
      exact .ok (h v hv)
    · rw [hk]
      exact .overlong

/-! ### Lists and objects -/

/-- What is read as an item, with the blanks around it. -/
def ReadsItem (Q : Json → Prop) (cs : List Char) : Prop := ∃ p : Padded, p.chars = cs ∧ ReadsTo Q p.text

/-- What is read as a member. -/
def ReadsMember (Q : Json → Prop) (cs : List Char) : Prop :=
  ∃ m : Member, m.chars = cs ∧ IsQuoted m.name.text ∧ ReadsTo Q m.value.text

variable {part : List Char → Prop} {close : Char}

theorem BeginsParts.length_lt (h : BeginsParts part close rest cs) : rest.length < cs.length := by
  induction h with
  | last _ => rw [List.length_append, List.length_cons]; omega
  | next _ _ ih => rw [List.length_append, List.length_cons]; omega

theorem StartsValue.append (h : StartsValue text) (rest : List Char) : StartsValue (text ++ rest) := by
  obtain ⟨c, r, rfl, hc⟩ := h
  exact ⟨c, r ++ rest, rfl, hc⟩

/-- Behind the blanks in front of it stands what is padded. -/
theorem Padded.skipGaps_chars (p : Padded) (h : StartsValue p.text) (cs : List Char) :
    skipGaps (p.chars ++ cs) = p.text ++ (p.after ++ cs) := by
  rw [Padded.chars, List.append_assoc, List.append_assoc]
  exact (h.append _).skipGaps_append p.areGaps_before

/-- A padded value is read up to the blanks behind it. -/
theorem Padded.comes (p : Padded) (h : ReadsTo Q p.text) {fuel : ℕ} {c : Char}
    (hc : c = ',' ∨ c = ']' ∨ c = '\x7d') (cs : List Char) (hfuel : p.chars.length < fuel) :
    Comes Q (p.after ++ c :: cs) (readValue fuel (skipGaps (p.chars ++ c :: cs))) := by
  rw [p.skipGaps_chars h.starts]
  refine h.comes fuel _ ?_ (endsNumber_of_gaps p.areGaps_after hc cs)
  rw [Padded.chars, List.length_append, List.length_append] at hfuel
  omega

/-- Items are read one after the other, up to the end of their list. -/
theorem BeginsParts.comes_items (hQ : IsHereditary Q) (h : BeginsParts (ReadsItem Q) ']' rest cs) {fuel : ℕ}
    (hfuel : cs.length < fuel + rest.length) {items : List Json} (hitems : ∀ j ∈ items, Q j) :
    Comes Q rest (readItems fuel items (skipGaps cs)) := by
  induction h generalizing fuel items with
  | last hitem =>
      obtain ⟨p, rfl, hp⟩ := hitem
      rw [List.length_append, List.length_cons] at hfuel
      obtain ⟨fuel, rfl⟩ : ∃ n, fuel = n + 1 := ⟨fuel - 1, by omega⟩
      have hcomes := p.comes hp (.inr (.inl rfl)) rest (show p.chars.length < fuel by omega)
      generalize hx : readValue fuel (skipGaps (p.chars ++ ']' :: rest)) = x at hcomes
      cases hcomes with
      | ok hv =>
          rw [readItems_last hx (skipGaps_append p.areGaps_after rfl rest)]
          refine .ok (hQ.arr _ (List.forall_mem_append.2 ⟨fun j hj => hitems j (List.mem_reverse.1 hj), ?_⟩))
          exact List.forall_mem_singleton.2 hv
      | overlong =>
          rw [readItems, hx]
          exact .overlong
  | @next _ cs hitem more ih =>
      obtain ⟨p, rfl, hp⟩ := hitem
      have hlt := more.length_lt
      rw [List.length_append, List.length_cons] at hfuel
      obtain ⟨fuel, rfl⟩ : ∃ n, fuel = n + 1 := ⟨fuel - 1, by omega⟩
      have hcomes := p.comes hp (.inl rfl) cs (show p.chars.length < fuel by omega)
      generalize hx : readValue fuel (skipGaps (p.chars ++ ',' :: cs)) = x at hcomes
      cases hcomes with
      | ok hv =>
          rw [readItems_next hx (skipGaps_append p.areGaps_after rfl cs)]
          exact ih (by omega) (List.forall_mem_cons.2 ⟨hv, hitems⟩)
      | overlong =>
          rw [readItems, hx]
          exact .overlong

/-- The name of a member is read, up to its value. -/
theorem Member.exists_readText (m : Member) (h : IsQuoted m.name.text) (cs : List Char) :
    ∃ r s r', skipGaps (m.chars ++ cs) = '"' :: r ∧ readText r = .ok (s, r') ∧
      skipGaps r' = ':' :: (m.value.chars ++ cs) := by
  obtain ⟨t, ht, hcloses⟩ := h
  obtain ⟨s, hs⟩ := exists_readText_of_closesText hcloses (m.name.after ++ ':' :: (m.value.chars ++ cs))
  refine ⟨_, s, _, ?_, hs, skipGaps_append m.name.areGaps_after rfl _⟩
  have hstart : StartsValue m.name.text := ⟨'"', t, ht, by decide, by decide, by decide⟩
  rw [Member.chars, List.append_assoc, List.cons_append, m.name.skipGaps_chars hstart, ht]
  rfl

/-- A whole number that is too long ends the reading of members as well. -/
theorem readMembers_overlong {r r' cs : List Char} {s : String} {n : ℕ} {ms : List (String × Json)}
    (hname : readText r = .ok (s, r')) (hr : skipGaps r' = ':' :: cs)
    (hv : readValue fuel (skipGaps cs) = .error (.overlong n)) :
    readMembers (fuel + 1) ms ('"' :: r) = .error (.overlong n) := by
  rw [readMembers, hname]
  simp only [Except.bind, bind, hr, hv]

/-- What holds of members holds of them with another put among them. -/
theorem forall_mem_put {P : Json → Prop} {ms : List (String × Json)} (hms : ∀ m ∈ ms, P m.2) (s : String)
    {v : Json} (hv : P v) : ∀ m ∈ Keyed.put ms s v, P m.2 := by
  intro m hm
  rcases mem_put hm with rfl | hmem
  · exact hv
  · exact hms m hmem

/-- Members are read one after the other, up to the end of their object. -/
theorem BeginsParts.comes_members (hQ : IsHereditary Q) (h : BeginsParts (ReadsMember Q) '\x7d' rest cs)
    {fuel : ℕ} (hfuel : cs.length < fuel + rest.length) {ms : List (String × Json)} (hms : ∀ m ∈ ms, Q m.2) :
    Comes Q rest (readMembers fuel ms (skipGaps cs)) := by
  induction h generalizing fuel ms with
  | last hmember =>
      obtain ⟨m, rfl, hname, hvalue⟩ := hmember
      obtain ⟨r, s, r', hstart, hs, hcolon⟩ := m.exists_readText hname ('\x7d' :: rest)
      rw [List.length_append, List.length_cons, Member.chars, List.length_append, List.length_cons] at hfuel
      obtain ⟨fuel, rfl⟩ : ∃ n, fuel = n + 1 := ⟨fuel - 1, by omega⟩
      have hcomes := m.value.comes hvalue (.inr (.inr rfl)) rest (show m.value.chars.length < fuel by omega)
      generalize hx : readValue fuel (skipGaps (m.value.chars ++ '\x7d' :: rest)) = x at hcomes
      rw [hstart]
      cases hcomes with
      | ok hv =>
          rw [readMembers_last hs hcolon hx (skipGaps_append m.value.areGaps_after rfl rest)]
          exact .ok (hQ.obj _ (forall_mem_put hms s hv))
      | overlong =>
          rw [readMembers_overlong hs hcolon hx]
          exact .overlong
  | @next _ cs hmember more ih =>
      obtain ⟨m, rfl, hname, hvalue⟩ := hmember
      obtain ⟨r, s, r', hstart, hs, hcolon⟩ := m.exists_readText hname (',' :: cs)
      have hlt := more.length_lt
      rw [List.length_append, List.length_cons, Member.chars, List.length_append, List.length_cons] at hfuel
      obtain ⟨fuel, rfl⟩ : ∃ n, fuel = n + 1 := ⟨fuel - 1, by omega⟩
      have hcomes := m.value.comes hvalue (.inl rfl) cs (show m.value.chars.length < fuel by omega)
      generalize hx : readValue fuel (skipGaps (m.value.chars ++ ',' :: cs)) = x at hcomes
      rw [hstart]
      cases hcomes with
      | ok hv =>
          rw [readMembers_next hs hcolon hx (skipGaps_append m.value.areGaps_after rfl cs)]
          exact ih (by omega) (forall_mem_put hms s hv)
      | overlong =>
          rw [readMembers_overlong hs hcolon hx]
          exact .overlong

/-- Behind its bracket a list is read to its end. -/
theorem BeginsParts.comes_list (hQ : IsHereditary Q) (h : BeginsParts (ReadsItem Q) ']' rest cs)
    (hfuel : cs.length < fuel + rest.length) : Comes Q rest (readValue (fuel + 1) ('[' :: cs)) := by
  have hstart : StartsValue (skipGaps cs) := by
    cases h with
    | last hitem =>
        obtain ⟨p, rfl, hp⟩ := hitem
        rw [p.skipGaps_chars hp.starts]
        exact hp.starts.append _
    | next hitem _ =>
        obtain ⟨p, rfl, hp⟩ := hitem
        rw [p.skipGaps_chars hp.starts]
        exact hp.starts.append _
  rw [readValue_arr fuel rfl hstart]
  exact h.comes_items hQ hfuel (by simp)

/-- Behind its bracket an object is read to its end. -/
theorem BeginsParts.comes_object (hQ : IsHereditary Q) (h : BeginsParts (ReadsMember Q) '\x7d' rest cs)
    (hfuel : cs.length < fuel + rest.length) : Comes Q rest (readValue (fuel + 1) ('\x7b' :: cs)) := by
  obtain ⟨r, hstart⟩ : ∃ r, skipGaps cs = '"' :: r := by
    cases h with
    | last hmember =>
        obtain ⟨m, rfl, hname, -⟩ := hmember
        obtain ⟨r, -, -, hstart, -⟩ := m.exists_readText hname ('\x7d' :: rest)
        exact ⟨r, hstart⟩
    | @next _ cs hmember _ =>
        obtain ⟨m, rfl, hname, -⟩ := hmember
        obtain ⟨r, -, -, hstart, -⟩ := m.exists_readText hname (',' :: cs)
        exact ⟨r, hstart⟩
  rw [readValue_obj fuel hstart, ← hstart]
  exact h.comes_members hQ hfuel (by simp)

/-! ### Values and texts -/

/-- Characters behind a bracket, up to the one that closes it, are read as they are there. -/
theorem readsTo_of_closed {opening close : Char} {inner : List Char}
    (hopening : isGap opening = false ∧ opening ≠ ']' ∧ opening ≠ '\x7d')
    (h : ∀ fuel rest, inner.length + 1 < fuel →
      Comes Q rest (readValue (fuel + 1) (opening :: (inner ++ close :: rest)))) :
    ReadsTo Q (opening :: (inner ++ [close])) := by
  refine ⟨⟨opening, _, rfl, hopening⟩, fun fuel rest hfuel _ => ?_⟩
  rw [List.length_cons, List.length_append, List.length_singleton] at hfuel
  obtain ⟨fuel, rfl⟩ : ∃ n, fuel = n + 1 := ⟨fuel - 1, by omega⟩
  have hread := h fuel rest (by omega)
  rwa [← List.singleton_append (l := rest), ← List.append_assoc, ← List.cons_append] at hread

variable {atom : List Char → Prop}

/-- **Values of the grammar are read**, as values with any property that their scalars are read with and that
passes on. -/
theorem IsValue.readsTo (hQ : IsHereditary Q) (hatom : ∀ cs, atom cs → ReadsTo Q cs) (h : IsValue atom cs) :
    ReadsTo Q cs := by
  induction h with
  | atom h => exact hatom _ h
  | quoted h => exact readsTo_of_isQuoted hQ.str h
  | @noItems g hg =>
      refine readsTo_of_closed (by decide) fun fuel rest _ => ?_
      rw [readValue, skipGaps_append hg rfl rest]
      exact .ok (hQ.arr [] (by simp))
  | @items first more _ ih =>
      refine readsTo_of_closed (by decide) fun fuel rest hfuel => ?_
      refine (beginsParts_intercalate ']' rest ?_).comes_list hQ ?_
      · intro x hx
        rw [← List.map_cons] at hx
        obtain ⟨p, hp, rfl⟩ := List.mem_map.1 hx
        exact ⟨p, rfl, ih p hp⟩
      · rw [List.length_append, List.length_cons]
        omega
  | @noMembers g hg =>
      refine readsTo_of_closed (by decide) fun fuel rest _ => ?_
      rw [readValue, skipGaps_append hg rfl rest]
      exact .ok (hQ.obj [] (by simp))
  | @members first more hname _ ih =>
      refine readsTo_of_closed (by decide) fun fuel rest hfuel => ?_
      refine (beginsParts_intercalate '\x7d' rest ?_).comes_object hQ ?_
      · intro x hx
        rw [← List.map_cons] at hx
        obtain ⟨m, hm, rfl⟩ := List.mem_map.1 hx
        exact ⟨m, rfl, hname m hm, ih m hm⟩
      · rw [List.length_append, List.length_cons]
        omega

/-- What a text of the grammar is read as, unless a whole number in it is too long. -/
theorem read_of_isText (hQ : IsHereditary Q) (hatom : ∀ cs, atom cs → ReadsTo Q cs) {t : String}
    (h : IsText atom t) : (∃ v, read t = .ok v ∧ Q v) ∨ Overlong t := by
  obtain ⟨p, hp, hvalue⟩ := h
  have hreads := hvalue.readsTo hQ hatom
  have hcomes := hreads.comes (2 * t.toList.length + 2) p.after
    (by rw [← hp, Padded.chars, List.length_append, List.length_append]; omega) (endsNumber_gaps p.areGaps_after)
  have hgaps : skipGaps t.toList = p.text ++ p.after := by
    rw [← hp, ← List.append_nil p.chars, p.skipGaps_chars hreads.starts, List.append_nil]
  have hafter : skipGaps p.after = [] := List.dropWhile_eq_nil_iff.2 p.areGaps_after
  rw [Overlong, read, readChars.eq_def]
  split
  · -- no value begins with a mark of the order of bytes
    rename_i r hmark
    rw [← hgaps, hmark] at hcomes
    generalize hx : readValue _ _ = x at hcomes
    cases hcomes <;> cases hx
  · rw [hgaps]
    generalize readValue (2 * t.toList.length + 2) (p.text ++ p.after) = x at hcomes
    cases hcomes with
    | ok hv =>
        refine .inl ⟨_, ?_, hv⟩
        rw [Except.ok_bind]
        dsimp only
        rw [hafter]
    | overlong => exact .inr ⟨_, rfl⟩

/-! ### What holds of the values of texts -/

theorem isHereditary_true : IsHereditary fun _ => True :=
  ⟨fun _ => trivial, fun _ _ => trivial, fun _ _ => trivial⟩

theorem isHereditary_isFinite : IsHereditary fun j => j.isFinite = true := by
  refine ⟨fun s => rfl, fun items h => ?_, fun ms h => ?_⟩
  · rw [isFinite]
    exact allFinite_iff.2 h
  · rw [isFinite]
    exact membersFinite_iff.2 h

/-- The words of the standard are read as nothing and as truth values. -/
theorem readsTo_of_plainWord (hnull : Q .null) (hbool : ∀ b, Q (.bool b)) {w : String}
    (h : w ∈ ["null", "true", "false"]) : ReadsTo Q w.toList := by
  simp only [List.mem_cons, List.not_mem_nil, or_false] at h
  rcases h with rfl | rfl | rfl
  · exact readsTo_of_mem_words (w := ("null", .null)) (by simp [words]) hnull
  · exact readsTo_of_mem_words (w := ("true", .bool true)) (by simp [words]) (hbool true)
  · exact readsTo_of_mem_words (w := ("false", .bool false)) (by simp [words]) (hbool false)

theorem IsReadAtom.readsTo (h : IsReadAtom cs) : ReadsTo (fun _ => True) cs := by
  rcases h with (⟨w, hw, rfl⟩ | ⟨n, rfl⟩) | ⟨w, hw, rfl⟩
  · exact readsTo_of_plainWord trivial (fun _ => trivial) hw
  · exact n.readsTo fun _ _ => trivial
  · obtain ⟨v, hv⟩ : ∃ v, (w, v) ∈ words := by
      simp only [extraWords, List.mem_cons, List.not_mem_nil, or_false] at hw
      rcases hw with rfl | rfl | rfl
      · exact ⟨.float .nan, by simp [words]⟩
      · exact ⟨.float (.infinity false), by simp [words]⟩
      · exact ⟨.float (.infinity true), by simp [words]⟩
    exact readsTo_of_mem_words hv trivial

theorem IsFiniteAtom.readsTo (h : IsFiniteAtom cs) : ReadsTo (fun j => j.isFinite = true) cs := by
  rcases h with ⟨w, hw, rfl⟩ | ⟨n, rfl, hn⟩
  · exact readsTo_of_plainWord (Q := fun j => j.isFinite = true) rfl (fun _ => rfl) hw
  · refine n.readsTo fun v hv => ?_
    rcases n.read_cases with ⟨v', hv', hfinite⟩ | ⟨k, hk⟩
    · rw [hv] at hv'
      cases hv'
      exact hfinite.2 hn
    · rw [hv] at hk
      cases hk

/-- **A text without a whole number that is too long is read exactly if it is one of the grammar**, with the
three words beside the standard. -/
theorem read_iff_isText {t : String} (ht : ¬ Overlong t) : (∃ v, read t = .ok v) ↔ IsText IsReadAtom t := by
  constructor
  · rintro ⟨v, hv⟩
    exact isText_of_read hv
  · intro h
    obtain ⟨v, hv, -⟩ := (read_of_isText isHereditary_true (fun _ => IsReadAtom.readsTo) h).resolve_right ht
    exact ⟨v, hv⟩

/-- **A text of the standard without numerals that are too great has a finite value.** -/
theorem isFinite_of_isText {t : String} {v : Json} (h : IsText IsFiniteAtom t) (hv : read t = .ok v) :
    v.isFinite = true := by
  rcases read_of_isText isHereditary_isFinite (fun _ => IsFiniteAtom.readsTo) h with ⟨w, hw, hfinite⟩ | ⟨n, hn⟩
  · rw [hv] at hw
    cases hw
    exact hfinite
  · rw [hv] at hn
    cases hn

end Restline.Json
