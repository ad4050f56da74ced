import Mathlib
import Restline.CommandLine.Rendered
import Restline.Proofs.KeyedLists
import Restline.Proofs.NumberText
import Restline.Proofs.Results

/-!
The values that reading gives. No name comes twice in an object, no whole number is too long, and binary
numbers are in the form in which they come out of rounding. A text is shorter than the text it is read from.

* `Json.induction` : values by their items and members.
* `Json.Proper` : the three conditions.
* `Json.proper_of_read` : **every value that is read fulfils them**.
* `Json.proper_of_follow` : so does what a way through a value leads to.
* `Json.ne_of_read` : no text is read as itself.
-/

set_option autoImplicit false

namespace Restline

open Number (Binary64)

namespace Json

/-! ### Values by their parts -/

/-- What holds of scalars, of lists whose items it holds of and of objects whose members it holds of, holds
of every value. -/
theorem induction {P : Json → Prop} (null : P .null) (bool : ∀ b, P (.bool b)) (int : ∀ n, P (.int n))
    (float : ∀ x, P (.float x)) (str : ∀ s, P (.str s)) (arr : ∀ items, (∀ j ∈ items, P j) → P (.arr items))
    (obj : ∀ ms, (∀ e ∈ ms, P e.2) → P (.obj ms)) (j : Json) : P j :=
  @Json.rec P (fun items => ∀ j ∈ items, P j) (fun ms => ∀ e ∈ ms, P e.2) (fun e => P e.2)
    null bool int float str arr obj
    (fun _ h => by cases h) (fun _ _ hj hr => List.forall_mem_cons.2 ⟨hj, hr⟩)
    (fun _ h => by cases h) (fun _ _ he hr => List.forall_mem_cons.2 ⟨he, hr⟩) (fun _ _ hj => hj) j

/-! ### Proper values -/

mutual

/-- No name comes twice in an object, no whole number is too long, and binary numbers are in the form in which
they come out of rounding. -/
def Proper : Json → Prop
  | .int n => (Nat.toDigits 10 n.natAbs).length ≤ Text.maxDigits
  | .float x => x.IsCanonical
  | .arr items => AllProper items
  | .obj ms => (Keyed.keys ms).Nodup ∧ MembersProper ms
  | _ => True

/-- Every item is proper. -/
def AllProper : List Json → Prop
  | [] => True
  | j :: r => j.Proper ∧ AllProper r

/-- Every member is proper. -/
def MembersProper : List (String × Json) → Prop
  | [] => True
  | (_, j) :: r => j.Proper ∧ MembersProper r

end

theorem allProper_iff {items : List Json} : AllProper items ↔ ∀ j ∈ items, j.Proper := by
  induction items with
  | nil => simp [AllProper]
  | cons j r ih => rw [AllProper, ih, List.forall_mem_cons]

theorem membersProper_iff {ms : List (String × Json)} : MembersProper ms ↔ ∀ e ∈ ms, e.2.Proper := by
  induction ms with
  | nil => simp [MembersProper]
  | cons e r ih => rw [MembersProper, ih, List.forall_mem_cons]

theorem proper_arr {items : List Json} : (Json.arr items).Proper ↔ ∀ j ∈ items, j.Proper := by
  rw [Proper, allProper_iff]

theorem proper_obj {ms : List (String × Json)} :
    (Json.obj ms).Proper ↔ (Keyed.keys ms).Nodup ∧ ∀ e ∈ ms, e.2.Proper := by
  rw [Proper, membersProper_iff]

/-! ### Numbers that are read -/

/-- The digits before a point are one digit or more. -/
theorem areDigits_of_wholePart? {cs ds r : List Char} (h : wholePart? cs = some (ds, r)) :
    ds ≠ [] ∧ AreDigits ds := by
  rw [wholePart?.eq_def] at h
  split at h
  · cases h
    exact ⟨List.cons_ne_nil _ _, areDigits_zeros 1⟩
  · rename_i c r' _
    split at h
    · rename_i hc
      rw [List.span_eq_takeWhile_dropWhile, List.takeWhile_cons_of_pos hc] at h
      cases h
      refine ⟨List.cons_ne_nil _ _, ?_⟩
      rw [← List.takeWhile_cons_of_pos hc]
      exact fun x hx => List.mem_takeWhile_imp hx
    · cases h
  · cases h

theorem numeral_lt {ds : List Char} (h : AreDigits ds) : numeral ds < 10 ^ ds.length := by
  induction ds with
  | nil => simp [numeral]
  | cons d r ih =>
      have hr := ih (h.of_subset (List.subset_cons_self d r))
      have hd := (isDecimal_iff d).1 (h d List.mem_cons_self)
      have hfirst : numeral [d] ≤ 9 := by
        simp [numeral]
        omega
      rw [← List.singleton_append, numeral_append, List.length_append, List.length_singleton, pow_add, pow_one]
      nlinarith

/-- A number has no more digits than its numeral. -/
theorem length_toDigits_numeral {ds : List Char} (hne : ds ≠ []) (h : AreDigits ds) :
    (Nat.toDigits 10 (numeral ds)).length ≤ ds.length :=
  (Nat.length_toDigits_le_iff (by decide) (List.length_pos_iff.2 hne)).2 (numeral_lt h)

/-- A number that is read is a whole one that is not too long, or a rounded decimal. -/
theorem readUnsigned_cases {start cs : List Char} {negative : Bool} {p : Json × List Char}
    (h : readUnsigned start negative cs = .ok p) :
    (∃ n : ℤ, p.1 = .int n ∧ (Nat.toDigits 10 n.natAbs).length ≤ Text.maxDigits) ∨
      ∃ digits exponent, p.1 = .float (Binary64.ofDecimal negative digits exponent) := by
  rw [readUnsigned] at h
  cases hwhole : wholePart? cs with
  | none =>
      rw [hwhole] at h
      cases h
  | some w =>
      obtain ⟨whole, r⟩ := w
      obtain ⟨hne, hdigits⟩ := areDigits_of_wholePart? hwhole
      have hlength := length_toDigits_numeral hne hdigits
      rw [hwhole] at h
      simp only [] at h
      split at h
      · split at h
        · cases h
        · rename_i hmax
          cases h
          refine .inl ⟨_, rfl, le_trans (le_of_eq_of_le ?_ hlength) (not_lt.1 hmax)⟩
          cases negative <;> simp
      · cases h
        exact .inr ⟨_, _, rfl⟩

theorem readNumber_cases {cs : List Char} {p : Json × List Char} (h : readNumber cs = .ok p) :
    (∃ n : ℤ, p.1 = .int n ∧ (Nat.toDigits 10 n.natAbs).length ≤ Text.maxDigits) ∨
      ∃ negative digits exponent, p.1 = .float (Binary64.ofDecimal negative digits exponent) := by
  rw [readNumber.eq_def] at h
  split at h <;> exact (readUnsigned_cases h).imp_right fun hp => ⟨_, hp⟩

theorem proper_of_readNumber {cs : List Char} {p : Json × List Char} (h : readNumber cs = .ok p) :
    p.1.Proper := by
  rcases readNumber_cases h with ⟨n, hp, hn⟩ | ⟨negative, digits, exponent, hp⟩
  · rw [hp, Proper]
    exact hn
  · rw [hp, Proper]
    exact Binary64.isCanonical_ofDecimal _ _ _

theorem proper_of_word? {cs : List Char} {p : Json × List Char} (h : word? cs = some p) : p.1.Proper := by
  obtain ⟨w, hw, hp⟩ := List.exists_of_findSome?_eq_some h
  obtain ⟨r, -, rfl⟩ := Option.map_eq_some_iff.1 hp
  simp only [words, List.mem_cons, List.not_mem_nil, or_false] at hw
  rcases hw with rfl | rfl | rfl | rfl | rfl | rfl <;> simp [Proper, Binary64.IsCanonical]

/-! ### Finite values -/

theorem membersFinite_iff {ms : List (String × Json)} :
    membersFinite ms = true ↔ ∀ e ∈ ms, e.2.isFinite = true := by
  induction ms with
  | nil => simp [membersFinite]
  | cons e r ih => rw [membersFinite, Bool.and_eq_true, ih, List.forall_mem_cons]

theorem allFinite_iff {items : List Json} : allFinite items = true ↔ ∀ j ∈ items, j.isFinite = true := by
  induction items with
  | nil => simp [allFinite]
  | cons j r ih => rw [allFinite, Bool.and_eq_true, ih, List.forall_mem_cons]

/-! ### Values that are read -/

theorem mem_put {ms : List (String × Json)} {name : String} {v : Json} {e : String × Json}
    (h : e ∈ Keyed.put ms name v) : e.2 = v ∨ e ∈ ms := by
  induction ms with
  | nil =>
      obtain rfl := List.mem_singleton.1 h
      exact .inl rfl
  | cons x r ih =>
      obtain ⟨k, w⟩ := x
      rw [Keyed.put] at h
      split at h
      · rcases List.mem_cons.1 h with rfl | h
        · exact .inl rfl
        · exact .inr (List.mem_cons_of_mem _ h)
      · rcases List.mem_cons.1 h with rfl | h
        · exact .inr List.mem_cons_self
        · exact (ih h).imp_right (List.mem_cons_of_mem _)

theorem proper_put {ms : List (String × Json)} (h : (Json.obj ms).Proper) (name : String) {v : Json}
    (hv : v.Proper) : (Json.obj (Keyed.put ms name v)).Proper := by
  rw [proper_obj] at h ⊢
  refine ⟨Keyed.nodup_keys_put h.1 name v, fun e he => ?_⟩
  rcases mem_put he with heq | hmem
  · rwa [heq]
  · exact h.2 e hmem

/-- What a reading of a value, of members or of items gives with some fuel is proper, if what it has read is. -/
structure ReadsProper (fuel : ℕ) : Prop where
  value : ∀ cs p, readValue fuel cs = .ok p → p.1.Proper
  members : ∀ ms cs p, (Json.obj ms).Proper → readMembers fuel ms cs = .ok p → p.1.Proper
  items : ∀ items cs p, (∀ j ∈ items, j.Proper) → readItems fuel items cs = .ok p → p.1.Proper

theorem ReadsProper.value_succ {fuel : ℕ} (hreads : ReadsProper fuel) {cs : List Char} {p : Json × List Char}
    (h : readValue (fuel + 1) cs = .ok p) : p.1.Proper := by
  have hempty : (Json.obj []).Proper := proper_obj.2 ⟨List.nodup_nil, fun _ h => by cases h⟩
  rw [readValue.eq_def] at h
  simp only [] at h
  split at h
  · obtain ⟨q, -, rfl⟩ := Except.map_eq_ok_iff.1 h
    simp [Proper]
  · split at h
    · cases h
      exact hempty
    · exact hreads.members _ _ _ hempty h
  · split at h
    · cases h
      exact proper_arr.2 fun _ h => by cases h
    · exact hreads.items _ _ _ (fun _ h => by cases h) h
  · split at h
    · rename_i hword
      cases h
      exact proper_of_word? hword
    · exact proper_of_readNumber h

theorem ReadsProper.members_succ {fuel : ℕ} (hreads : ReadsProper fuel) {ms : List (String × Json)}
    {cs : List Char} {p : Json × List Char} (hms : (Json.obj ms).Proper)
    (h : readMembers (fuel + 1) ms cs = .ok p) : p.1.Proper := by
  rw [readMembers.eq_def] at h
  simp only [] at h
  split at h
  · obtain ⟨⟨name, r⟩, -, h⟩ := Except.bind_eq_ok_iff.1 h
    simp only [] at h
    split at h
    · obtain ⟨⟨v, r⟩, hv, h⟩ := Except.bind_eq_ok_iff.1 h
      have hput := proper_put hms name (hreads.value _ _ hv)
      simp only [] at h
      split at h
      · cases h
        exact hput
      · exact hreads.members _ _ _ hput h
      · cases h
    · cases h
  · cases h

theorem ReadsProper.items_succ {fuel : ℕ} (hreads : ReadsProper fuel) {items : List Json} {cs : List Char}
    {p : Json × List Char} (hitems : ∀ j ∈ items, j.Proper) (h : readItems (fuel + 1) items cs = .ok p) :
    p.1.Proper := by
  rw [readItems] at h
  obtain ⟨⟨v, r⟩, hv, h⟩ := Except.bind_eq_ok_iff.1 h
  have hcons : ∀ j ∈ v :: items, j.Proper := List.forall_mem_cons.2 ⟨hreads.value _ _ hv, hitems⟩
  simp only [] at h
  split at h
  · cases h
    exact proper_arr.2 fun j hj => hcons j (List.mem_reverse.1 hj)
  · exact hreads.items _ _ _ hcons h
  · cases h

theorem readsProper (fuel : ℕ) : ReadsProper fuel := by
  induction fuel with
  | zero => exact ⟨nofun, nofun, nofun⟩
  | succ fuel ih =>
      exact ⟨fun _ _ => ih.value_succ, fun _ _ _ => ih.members_succ, fun _ _ _ => ih.items_succ⟩

/-- **A text that is read** holds the value, and blanks behind it. -/
theorem readValue_of_read {s : String} {j : Json} (h : read s = .ok j) :
    ∃ r, readValue (2 * s.toList.length + 2) (skipGaps s.toList) = .ok (j, r) ∧ skipGaps r = [] := by
  rw [read, readChars.eq_def] at h
  split at h
  · cases h
  · obtain ⟨⟨v, r⟩, hv, h⟩ := Except.bind_eq_ok_iff.1 h
    simp only [] at h
    split at h
    · rename_i hend
      cases h
      exact ⟨r, hv, hend⟩
    · cases h

theorem proper_of_read {s : String} {j : Json} (h : read s = .ok j) : j.Proper := by
  obtain ⟨r, hv, -⟩ := readValue_of_read h
  exact (readsProper _).value _ _ hv

/-- A way through a proper value leads to a proper value. -/
theorem proper_of_follow {j : Json} (hj : j.Proper) {way : List String} {w : Json}
    (h : j.follow way = .ok (some w)) : w.Proper := by
  induction way generalizing j with
  | nil =>
      rw [follow] at h
      cases h
      exact hj
  | cons s rest ih =>
      cases j with
      | obj ms =>
          rw [follow] at h
          split at h
          · rename_i v hv
            refine ih ?_ h
            exact (proper_obj.1 hj).2 _ (Keyed.mem_of_get? hv)
          · cases h
      | arr items =>
          rw [follow] at h
          obtain ⟨n, -, h⟩ := Except.bind_eq_ok_iff.1 h
          cases n with
          | none => cases h
          | some n =>
              simp only [] at h
              split at h
              · rename_i v hv
                exact ih (proper_arr.1 hj v (List.mem_of_getElem? hv)) h
              · cases h
      | _ => cases h

/-! ### Texts that are read -/

theorem length_join_le (ps : List Piece) : (Piece.join ps).length ≤ ps.length := by
  fun_induction Piece.join ps with
  | case1 c r ih => simpa using ih
  | case2 h l r hpair ih =>
      simp only [List.length_cons]
      omega
  | case3 h l r hpair ih => simpa using ih
  | case4 h r hnext ih => simpa using ih
  | case5 => exact le_rfl

/-- Every piece comes from a character of its own. -/
theorem length_readPieces {opening : ℕ} {cs : List Char} {p : List Piece × List Char}
    (h : readPieces opening cs = .ok p) : p.1.length < cs.length := by
  fun_induction readPieces opening cs generalizing p with
  | case1 => cases h
  | case2 r =>
      cases h
      exact Nat.succ_pos _
  | case3 a b c d e r hnone => cases h
  | case4 a b c d e r n hn ih =>
      obtain ⟨q, hq, rfl⟩ := Except.map_eq_ok_iff.1 h
      have hlength := ih hq
      simp only [List.length_cons] at hlength ⊢
      omega
  | case5 r hshort => cases h
  | case6 c r hletter hnone => cases h
  | case7 c r hletter hunicode x hx ih =>
      obtain ⟨q, hq, rfl⟩ := Except.map_eq_ok_iff.1 h
      have hlength := ih hq
      simp only [List.length_cons]
      omega
  | case8 => cases h
  | case9 c r hquote hslash hlow => cases h
  | case10 c r hquote hunicode hletter hslash hend hplain ih =>
      obtain ⟨q, hq, rfl⟩ := Except.map_eq_ok_iff.1 h
      exact Nat.succ_lt_succ (ih hq)

theorem exists_of_readMembers {fuel : ℕ} {ms : List (String × Json)} {cs : List Char} {p : Json × List Char}
    (h : readMembers fuel ms cs = .ok p) : ∃ ms', p.1 = .obj ms' := by
  induction fuel generalizing ms cs with
  | zero => cases h
  | succ fuel ih =>
      rw [readMembers.eq_def] at h
      simp only [] at h
      split at h
      · obtain ⟨⟨name, r⟩, -, h⟩ := Except.bind_eq_ok_iff.1 h
        simp only [] at h
        split at h
        · obtain ⟨⟨v, r⟩, -, h⟩ := Except.bind_eq_ok_iff.1 h
          simp only [] at h
          split at h
          · cases h
            exact ⟨_, rfl⟩
          · exact ih h
          · cases h
        · cases h
      · cases h

theorem exists_of_readItems {fuel : ℕ} {items : List Json} {cs : List Char} {p : Json × List Char}
    (h : readItems fuel items cs = .ok p) : ∃ items', p.1 = .arr items' := by
  induction fuel generalizing items cs with
  | zero => cases h
  | succ fuel ih =>
      rw [readItems] at h
      obtain ⟨⟨v, r⟩, -, h⟩ := Except.bind_eq_ok_iff.1 h
      simp only [] at h
      split at h
      · cases h
        exact ⟨_, rfl⟩
      · exact ih h
      · cases h

/-- A text is shorter than the characters it is read from. -/
theorem length_of_readValue {fuel : ℕ} {cs : List Char} {s : String} {r : List Char}
    (h : readValue fuel cs = .ok (.str s, r)) : s.toList.length < cs.length := by
  cases fuel with
  | zero => cases h
  | succ fuel =>
      rw [readValue.eq_def] at h
      simp only [] at h
      split at h
      · obtain ⟨⟨s', r'⟩, hread, hp⟩ := Except.map_eq_ok_iff.1 h
        obtain ⟨q, hq, hs⟩ := Except.map_eq_ok_iff.1 hread
        cases hp
        have hlength := length_readPieces hq
        have hjoin := length_join_le q.1
        rw [← congrArg Prod.fst hs, String.toList_ofList, List.length_cons]
        omega
      · split at h
        · cases h
        · obtain ⟨ms, hms⟩ := exists_of_readMembers h
          cases hms
      · split at h
        · cases h
        · obtain ⟨items, hitems⟩ := exists_of_readItems h
          cases hitems
      · split at h
        · rename_i hword
          cases h
          obtain ⟨w, hw, hp⟩ := List.exists_of_findSome?_eq_some hword
          obtain ⟨r, -, hr⟩ := Option.map_eq_some_iff.1 hp
          simp only [words, List.mem_cons, List.not_mem_nil, or_false] at hw
          rcases hw with rfl | rfl | rfl | rfl | rfl | rfl <;> cases hr
        · rcases readNumber_cases h with ⟨n, hp, -⟩ | ⟨negative, digits, exponent, hp⟩ <;> cases hp

/-- No text is read as itself. -/
theorem ne_of_read {s : String} {j : Json} (h : read s = .ok j) : j ≠ .str s := by
  rintro rfl
  obtain ⟨r, hv, -⟩ := readValue_of_read h
  have hlength := length_of_readValue hv
  have hgaps : (skipGaps s.toList).length ≤ s.toList.length := List.length_dropWhile_le _ _
  omega

end Json

end Restline
