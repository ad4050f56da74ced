import Restline.Proofs.FoundMembers
import Restline.Proofs.ProperJson

/-!
Ways into a body, followed to their end. A step into an object goes by a name, and one into a list by a position, which
is a numeral: decimal digits, and not too many of them. A text of digits that is no numeral is taken for a position all
the same, so looking up a way fails where it comes to a list with such a text, and no command line is made. Every other
way is followed to a value or to nothing.

* `Text.Denotes`, `Text.IsMisread` : numerals, and texts of digits that are none.
* `Json.Leads`, `Json.Strands` : what a way leads to, and ways that come to a list with a text that is misread.
* `Json.follow_eq_some_iff`, `Json.follow_eq_error_iff` : **what is found at the end of a way, and when looking it up
  fails**.
* `Rendering.LooksUp` : the arguments that are looked up in a body, and their ways.
* `Rendering.options_returned_iff` : **when the options of a command line are returned**, for one body and for every
  body.
-/

set_option autoImplicit false

namespace Restline

/-! ### Numerals of positions -/

namespace Text

variable {s : String} {n : ℕ} {cs : List Char}

/-- The text consists of digits, of which some may not be decimal. -/
def IsDigits (s : String) : Prop := s ≠ "" ∧ ∀ c ∈ s.toList, isDigit c = true

theorem isDigits_iff : (!s.isEmpty && s.toList.all isDigit) = true ↔ IsDigits s := by
  simp [IsDigits]

/-- The text is a numeral of a number: decimal digits of any scripts, at most as many as a numeral may have. -/
structure Denotes (s : String) (n : ℕ) : Prop where
  nonempty : s ≠ ""
  decimal : ∀ c ∈ s.toList, (decimalValue? c).isSome = true
  short : s.length ≤ maxDigits
  value : ofDigits (s.toList.filterMap decimalValue?) = n

/-- The text consists of digits and is no numeral: one of them is not decimal, or there are more than a numeral may
have. -/
structure IsMisread (s : String) : Prop where
  digits : IsDigits s
  unreadable : (∃ c ∈ s.toList, decimalValue? c = none) ∨ maxDigits < s.length

theorem ofUnsigned?_eq_some_iff (hne : cs ≠ []) (hunder : '_' ∉ cs) :
    ofUnsigned? cs = some n ↔
      (∀ c ∈ cs, (decimalValue? c).isSome = true) ∧ cs.length ≤ maxDigits ∧
        ofDigits (cs.filterMap decimalValue?) = n := by
  simp only [ofUnsigned?, Option.bind_eq_bind, Option.bind_eq_some_iff, digitsOf?_eq_some_iff hne hunder]
  constructor
  · rintro ⟨ds, ⟨hall, rfl⟩, h⟩
    rw [List.filterMap_length_eq_length.2 hall] at h
    split at h
    · exact ⟨hall, ‹_›, Option.some_inj.1 h⟩
    · cases h
  · rintro ⟨hall, hlength, rfl⟩
    refine ⟨_, ⟨hall, rfl⟩, ?_⟩
    rw [List.filterMap_length_eq_length.2 hall, if_pos hlength]

theorem IsDigits.ofUnsigned?_eq_some_iff (h : IsDigits s) :
    ofUnsigned? s.toList = some n ↔
      (∀ c ∈ s.toList, (decimalValue? c).isSome = true) ∧ s.length ≤ maxDigits ∧
        ofDigits (s.toList.filterMap decimalValue?) = n := by
  -- an underscore may stand between the digits of a numeral, but it is no digit
  have hunder : '_' ∉ s.toList := fun hmem => absurd (h.2 _ hmem) (by decide)
  rw [Text.ofUnsigned?_eq_some_iff (mt String.toList_eq_nil_iff.1 h.1) hunder, String.length_toList]

theorem denotes_iff : Denotes s n ↔ IsDigits s ∧ ofUnsigned? s.toList = some n := by
  constructor
  · intro h
    have hdigits : IsDigits s := ⟨h.nonempty, fun c hc => by rw [isDigit, h.decimal c hc, Bool.true_or]⟩
    exact ⟨hdigits, hdigits.ofUnsigned?_eq_some_iff.2 ⟨h.decimal, h.short, h.value⟩⟩
  · rintro ⟨hdigits, h⟩
    obtain ⟨hdecimal, hshort, hvalue⟩ := hdigits.ofUnsigned?_eq_some_iff.1 h
    exact ⟨hdigits.1, hdecimal, hshort, hvalue⟩

theorem isMisread_iff : IsMisread s ↔ IsDigits s ∧ ofUnsigned? s.toList = none := by
  constructor
  · intro h
    refine ⟨h.digits, Option.eq_none_iff_forall_ne_some.2 fun n hn => ?_⟩
    obtain ⟨hdecimal, hshort, -⟩ := h.digits.ofUnsigned?_eq_some_iff.1 hn
    rcases h.unreadable with ⟨c, hc, hnone⟩ | hlong
    · exact absurd (hdecimal c hc) (by simp [hnone])
    · exact absurd hshort (Nat.not_le_of_lt hlong)
  · rintro ⟨hdigits, h⟩
    refine ⟨hdigits, ?_⟩
    by_contra hreadable
    rw [not_or, Nat.not_lt] at hreadable
    have hdecimal : ∀ c ∈ s.toList, (decimalValue? c).isSome = true := fun c hc =>
      Option.isSome_iff_ne_none.2 fun hnone => hreadable.1 ⟨c, hc, hnone⟩
    have hread := hdigits.ofUnsigned?_eq_some_iff.2 ⟨hdecimal, hreadable.2, rfl⟩
    rw [h] at hread
    cases hread

instance (s : String) : Decidable (IsDigits s) := decidable_of_iff _ isDigits_iff

instance (s : String) : Decidable (IsMisread s) := decidable_of_iff _ isMisread_iff.symm

example : IsMisread "1²" ∧ ¬ IsMisread "12" ∧ ¬ IsMisread "first" := by decide +kernel

end Text

namespace Json

open Text (Denotes IsMisread)

variable {s : String} {n : ℕ} {j k w : Json} {way : List String} {e : RenderFault}

theorem position?_of_isDigits (h : Text.IsDigits s) :
    position? s = (Text.ofUnsigned? s.toList).elim (.error .badPosition) fun n => .ok (some n) := by
  rw [position?, if_pos (Text.isDigits_iff.2 h)]
  cases Text.ofUnsigned? s.toList <;> rfl

theorem position?_of_not_isDigits (h : ¬ Text.IsDigits s) : position? s = .ok none := by
  rw [position?, if_neg (mt Text.isDigits_iff.1 h)]

theorem position?_eq_some_iff : position? s = .ok (some n) ↔ Denotes s n := by
  rw [Text.denotes_iff]
  by_cases h : Text.IsDigits s
  · rw [position?_of_isDigits h]
    cases Text.ofUnsigned? s.toList <;> simp [h]
  · simp [position?_of_not_isDigits h, h]

theorem position?_eq_error_iff : position? s = .error e ↔ IsMisread s := by
  rw [Text.isMisread_iff]
  by_cases h : Text.IsDigits s
  · rw [position?_of_isDigits h]
    cases Text.ofUnsigned? s.toList <;> simp [h]
  · simp [position?_of_not_isDigits h, h]

/-! ### What a way leads to -/

/-- A way leads through a value to a part of it, by the names of members and the positions of items. -/
inductive Leads : Json → List String → Json → Prop
  | here {j : Json} : Leads j [] j
  | member {ms : Keyed Json} {key : String} {j w : Json} {way : List String} (hj : ms.get? key = some j)
      (h : Leads j way w) : Leads (.obj ms) (key :: way) w
  | item {items : List Json} {s : String} {n : ℕ} {j w : Json} {way : List String} (hs : Denotes s n)
      (hj : items[n]? = some j) (h : Leads j way w) : Leads (.arr items) (s :: way) w

/-- A way comes to a list with a text that is misread. -/
def Strands (j : Json) (way : List String) : Prop :=
  ∃ front s back items, way = front ++ s :: back ∧ j.Leads front (.arr items) ∧ IsMisread s

theorem leads_cons_iff : j.Leads (s :: way) w ↔ ∃ k, j.Leads [s] k ∧ k.Leads way w := by
  constructor
  · intro h
    cases h with
    | member hj h => exact ⟨_, .member hj .here, h⟩
    | item hs hj h => exact ⟨_, .item hs hj .here, h⟩
  · rintro ⟨k, hk, h⟩
    cases hk with
    | member hj hk =>
        cases hk
        exact .member hj h
    | item hs hj hk =>
        cases hk
        exact .item hs hj h

theorem not_strands_nil : ¬ j.Strands [] := by
  rintro ⟨front, s, back, items, hway, -, -⟩
  exact List.append_ne_nil_of_right_ne_nil front (List.cons_ne_nil s back) hway.symm

/-- A way is stranded at its first step, or behind what this step leads to. -/
theorem strands_cons_iff :
    j.Strands (s :: way) ↔ (∃ items, j = .arr items ∧ IsMisread s) ∨ ∃ k, j.Leads [s] k ∧ k.Strands way := by
  constructor
  · rintro ⟨front, t, back, items, hway, hleads, ht⟩
    cases front with
    | nil =>
        cases hleads
        obtain ⟨rfl, -⟩ := List.cons_eq_cons.1 hway
        exact .inl ⟨_, rfl, ht⟩
    | cons t' front =>
        obtain ⟨rfl, rfl⟩ := List.cons_eq_cons.1 hway
        obtain ⟨k, hk, h⟩ := leads_cons_iff.1 hleads
        exact .inr ⟨k, hk, front, t, back, items, rfl, h, ht⟩
  · rintro (⟨items, rfl, hs⟩ | ⟨k, hk, front, t, back, items, rfl, h, ht⟩)
    · exact ⟨[], s, way, items, rfl, .here, hs⟩
    · exact ⟨s :: front, t, back, items, rfl, leads_cons_iff.2 ⟨k, hk, h⟩, ht⟩

/-! ### One step -/

theorem follow_arr_singleton (items : List Json) (s : String) :
    (Json.arr items).follow [s] = (position? s).map fun n => n.bind fun n => items[n]? := by
  rw [follow]
  cases position? s with
  | error e => rfl
  | ok n =>
      cases n with
      | none => rfl
      | some n => cases h : items[n]? <;> simp [h, Except.map, follow]

/-- A way is followed by its first step and then from what this leads to. -/
theorem follow_cons (j : Json) (s : String) (way : List String) :
    j.follow (s :: way) = j.follow [s] >>= fun v => followFrom? v way := by
  cases j with
  | obj ms =>
      rw [follow_obj, follow_obj, followFrom?_nil]
      rfl
  | arr items =>
      rw [follow_arr_singleton, follow]
      cases position? s with
      | error e => rfl
      | ok n =>
          cases n with
          | none => rfl
          | some n => cases h : items[n]? <;> simp [h, Except.map, followFrom?]
  | _ => rfl

theorem follow_singleton_eq_some_iff : j.follow [s] = .ok (some k) ↔ j.Leads [s] k := by
  cases j with
  | obj ms =>
      rw [follow_obj, followFrom?_nil]
      constructor
      · intro h
        exact .member (Except.ok.inj h) .here
      · intro h
        cases h with
        | member hj h =>
            cases h
            rw [hj]
  | arr items =>
      rw [follow_arr_singleton, Except.map_eq_ok_iff]
      constructor
      · rintro ⟨n, hn, h⟩
        obtain ⟨n, rfl, hj⟩ := Option.bind_eq_some_iff.1 h
        exact .item (position?_eq_some_iff.1 hn) hj .here
      · intro h
        cases h with
        | item hs hj h =>
            cases h
            exact ⟨_, position?_eq_some_iff.2 hs, hj⟩
  | _ => exact iff_of_false (fun h => by cases h) (fun h => by cases h)

theorem follow_singleton_eq_error_iff : j.follow [s] = .error e ↔ ∃ items, j = .arr items ∧ IsMisread s := by
  cases j with
  | obj ms => simp [follow_obj, followFrom?_nil]
  | arr items =>
      rw [follow_arr_singleton, Except.map_eq_error_iff, position?_eq_error_iff]
      simp
  | _ => exact iff_of_false (fun h => by cases h) (fun ⟨_, h, _⟩ => by cases h)

/-- Whatever comes of a way but nothing comes of its rest, from where the first step leads. -/
theorem exists_follow_singleton_iff {x : Except RenderFault (Option Json)} (hx : x ≠ .ok none) :
    (∃ v, j.follow [s] = .ok v ∧ followFrom? v way = x) ↔ ∃ k, j.Leads [s] k ∧ k.follow way = x := by
  constructor
  · rintro ⟨v, hv, h⟩
    cases v with
    | none => exact absurd h.symm hx
    | some k => exact ⟨k, follow_singleton_eq_some_iff.1 hv, h⟩
  · rintro ⟨k, hk, h⟩
    exact ⟨some k, follow_singleton_eq_some_iff.2 hk, h⟩

/-! ### Whole ways -/

/-- **What is found at the end of a way** is what the way leads to. -/
theorem follow_eq_some_iff : j.follow way = .ok (some w) ↔ j.Leads way w := by
  induction way generalizing j with
  | nil =>
      rw [follow]
      constructor
      · intro h
        obtain rfl := Option.some_inj.1 (Except.ok.inj h)
        exact .here
      · intro h
        cases h
        rfl
  | cons s way ih =>
      rw [follow_cons, leads_cons_iff, Except.bind_eq_ok_iff, exists_follow_singleton_iff (by simp)]
      simp only [ih]

/-- **Looking up a way fails** exactly if it comes to a list with a text that is misread. -/
theorem follow_eq_error_iff : j.follow way = .error e ↔ j.Strands way := by
  induction way generalizing j with
  | nil =>
      rw [follow]
      exact iff_of_false (fun h => by cases h) not_strands_nil
  | cons s way ih =>
      rw [follow_cons, strands_cons_iff, Except.bind_eq_error_iff, follow_singleton_eq_error_iff,
        exists_follow_singleton_iff (by simp)]
      simp only [ih]

/-- Any other way ends in nothing. -/
theorem follow_eq_none_iff : j.follow way = .ok none ↔ ¬ j.Strands way ∧ ∀ w, ¬ j.Leads way w := by
  cases h : j.follow way with
  | error e => simp [follow_eq_error_iff.1 h]
  | ok v =>
      have hstrands : ¬ j.Strands way := fun hs => by
        rw [follow_eq_error_iff (e := .badPosition).2 hs] at h
        cases h
      cases v with
      | none => simp [hstrands, ← follow_eq_some_iff, h]
      | some w => simpa [hstrands] using ⟨w, follow_eq_some_iff.1 h⟩

theorem Leads.proper (h : j.Leads way w) (hj : j.Proper) : w.Proper :=
  proper_of_follow hj (follow_eq_some_iff.2 h)

/-! ### Values that a way leads through -/

/-- Objects around a value, one in the other, of a member each. -/
def wrapped (way : List String) (w : Json) : Json := way.foldr (fun key j => .obj [(key, j)]) w

theorem leads_wrapped (way : List String) (w : Json) : (wrapped way w).Leads way w := by
  induction way with
  | nil => exact .here
  | cons key way ih => exact .member (if_pos rfl) ih

/-- A way is stranded in some value exactly if it has a text that is misread. -/
theorem exists_strands_iff : (∃ j : Json, j.Strands way) ↔ ∃ s ∈ way, IsMisread s := by
  constructor
  · rintro ⟨j, front, s, back, items, rfl, -, hs⟩
    exact ⟨s, List.mem_append_right front List.mem_cons_self, hs⟩
  · rintro ⟨s, hmem, hs⟩
    obtain ⟨front, back, rfl⟩ := List.append_of_mem hmem
    -- an empty list will do, since the text is read before the list is looked at
    exact ⟨_, front, s, back, [], rfl, leads_wrapped front _, hs⟩

end Json

/-! ### Options -/

namespace Rendering

open Text (IsMisread)

variable {r : Rendering} {sh : Shell} {body : Json} {a : Arg} {way : List String} {e : RenderFault}

/-- An argument is looked up in a body along a way: it belongs to a group with a name, has a name itself, and its key
names the way. -/
structure LooksUp (r : Rendering) (a : Arg) (way : List String) : Prop where
  belongs : ∃ g ∈ r.argGroups, g.name ≠ "" ∧ a ∈ g.args
  named : a.options ≠ []
  leads : a.bodyWay? = some way

theorem mem_bodyArgs : a ∈ r.bodyArgs ↔ ∃ g ∈ r.argGroups, g.name ≠ "" ∧ a ∈ g.args := by
  simp [bodyArgs, and_assoc]

theorem argOption_eq_error_iff :
    argOption sh body a = .error e ↔ ∃ way, a.options ≠ [] ∧ a.bodyWay? = some way ∧ body.Strands way := by
  rw [argOption]
  cases hway : a.bodyWay? with
  | none => simp
  | some way =>
      cases hnames : a.options with
      | nil => simp
      | cons name names => simp [Except.bind_eq_error_iff, Json.follow_eq_error_iff]

/-- The options of arguments fail with the option of one of them. -/
theorem argOptions_eq_error_iff {as : List Arg} :
    argOptions sh body as = .error e ↔ ∃ a ∈ as, argOption sh body a = .error e := by
  induction as with
  | nil => simp [argOptions]
  | cons a as ih =>
      rw [argOptions, Except.bind_eq_error_iff, List.exists_mem_cons_iff, ← ih]
      cases ha : argOption sh body a with
      | error f =>
          -- there is only one failure, so it does not matter which argument comes first
          cases e
          cases f
          simp
      | ok o => simp [Except.bind_eq_error_iff]

theorem options_eq_error_iff :
    r.options = .error e ↔ ∃ body, r.body = some body ∧ ∃ a way, r.LooksUp a way ∧ body.Strands way := by
  rw [options]
  cases r.body with
  | none => simp
  | some body =>
      simp only [Except.bind_eq_error_iff, argOptions_eq_error_iff, argOption_eq_error_iff, mem_bodyArgs,
        Except.pure_eq_ok, reduceCtorEq, and_false, exists_const, or_false, Option.some_inj, exists_eq_left']
      constructor
      · rintro ⟨a, hbelongs, way, hnamed, hway, hstrands⟩
        exact ⟨a, way, ⟨hbelongs, hnamed, hway⟩, hstrands⟩
      · rintro ⟨a, way, ⟨hbelongs, hnamed, hway⟩, hstrands⟩
        exact ⟨a, hbelongs, way, hnamed, hway, hstrands⟩

/-- The options are returned exactly if no way that is looked up is stranded in the body. -/
theorem exists_options_iff :
    (∃ os, r.options = .ok os) ↔ ∀ body, r.body = some body → ∀ a way, r.LooksUp a way → ¬ body.Strands way := by
  have herror := options_eq_error_iff (r := r) (e := .badPosition)
  cases h : r.options with
  | error e =>
      cases e
      obtain ⟨body, hbody, a, way, ha, hstrands⟩ := herror.1 h
      exact iff_of_false (fun ⟨_, h⟩ => by cases h) fun hall => hall body hbody a way ha hstrands
  | ok os =>
      refine iff_of_true ⟨os, rfl⟩ fun body hbody a way ha hstrands => ?_
      rw [herror.2 ⟨body, hbody, a, way, ha, hstrands⟩] at h
      cases h

/-- The options are returned for every body exactly if no way that is looked up has a text that is misread. -/
theorem forall_exists_options_iff :
    (∀ body, ∃ os, ({ r with body := body } : Rendering).options = .ok os) ↔
      ∀ a way, r.LooksUp a way → ∀ s ∈ way, ¬ IsMisread s := by
  constructor
  · intro h a way ha s hs hmisread
    obtain ⟨body, hstrands⟩ := Json.exists_strands_iff.2 ⟨s, hs, hmisread⟩
    exact exists_options_iff.1 (h (some body)) body rfl a way ⟨ha.belongs, ha.named, ha.leads⟩ hstrands
  · intro h body
    refine exists_options_iff.2 fun j _ a way ha hstrands => ?_
    obtain ⟨s, hs, hmisread⟩ := Json.exists_strands_iff.1 ⟨j, hstrands⟩
    exact h a way ⟨ha.belongs, ha.named, ha.leads⟩ s hs hmisread

/-- **When the options of a command line are returned**: exactly if no way that is looked up comes to a list in the
body with a text of digits that is no numeral; and for every body, exactly if there is no such text in these ways. Any
way that does not come to one is followed to its end, which is the value that it leads to or nothing. What is found in
a body that was read has no whole number of too many digits, so it can be written. -/
theorem options_returned_iff (r : Rendering) :
    ((∃ os, r.options = .ok os) ↔
        ∀ body, r.body = some body → ∀ a way, r.LooksUp a way → ¬ body.Strands way) ∧
      ((∀ body, ∃ os, ({ r with body := body } : Rendering).options = .ok os) ↔
        ∀ a way, r.LooksUp a way → ∀ s ∈ way, ¬ IsMisread s) ∧
      ∀ (body : Json) (way : List String),
        (body.follow way = .error .badPosition ↔ body.Strands way) ∧
          (∀ w, body.follow way = .ok (some w) ↔ body.Leads way w) ∧
          (body.follow way = .ok none ↔ ¬ body.Strands way ∧ ∀ w, ¬ body.Leads way w) ∧
          (body.Proper → ∀ w, body.Leads way w → w.Proper) :=
  ⟨exists_options_iff, forall_exists_options_iff, fun _ _ =>
    ⟨Json.follow_eq_error_iff, fun _ => Json.follow_eq_some_iff, Json.follow_eq_none_iff, fun hbody _ h =>
      h.proper hbody⟩⟩

/-! ### The sizes of a thing -/

/-- The command line for a body that gives a thing two sizes, with an argument of the key. -/
def sizesRendering (key : String) : Rendering where
  shell := .unix
  argGroups := [{ name := "Parameters", args := [{ type := "string", var := key, options := ["size"] }] }]
  body := some (.obj [("sizes", .arr [.str "s", .str "m"])])

/-- The second size is looked up in every body, and found in one with two. -/
theorem options_returned_of_second :
    (∀ body, ∃ os, ({ sizesRendering "$parameters.sizes.1" with body := body } : Rendering).options = .ok os) ∧
      (sizesRendering "$parameters.sizes.1").options = .ok ["--size \"m\""] := by
  have hos : (sizesRendering "$parameters.sizes.1").options = .ok ["--size \"m\""] := by cbv
  have hway : Arg.bodyWay? { type := "string", var := "$parameters.sizes.1", options := ["size"] } =
      some ["sizes", "1"] := by cbv
  refine ⟨(options_returned_iff (sizesRendering "$parameters.sizes.1")).2.1.2 ?_, hos⟩
  rintro a way ⟨⟨g, hg, -, ha⟩, -, hleads⟩
  obtain rfl := List.mem_singleton.1 hg
  obtain rfl := List.mem_singleton.1 ha
  obtain rfl := Option.some_inj.1 (hway.symm.trans hleads)
  decide +kernel

/-- A superscript digit is no position, and no command line is made for it. -/
theorem exists_options_not_returned :
    ∃ (r : Rendering) (text : String) (body : Json), Json.read text = .ok body ∧ r.body = some body ∧
      ¬ ∃ os, r.options = .ok os := by
  have hread : Json.read "\x7b\"sizes\":[\"s\",\"m\"]\x7d" =
      .ok (.obj [("sizes", .arr [.str "s", .str "m"])]) := by cbv
  have hos : (sizesRendering "$parameters.sizes.²").options = .error .badPosition := by cbv
  refine ⟨sizesRendering "$parameters.sizes.²", _, _, hread, rfl, ?_⟩
  rintro ⟨os, h⟩
  rw [hos] at h
  cases h

end Rendering

end Restline
