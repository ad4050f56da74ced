import Mathlib
import Restline.Proofs.ForeseenFaults
import Restline.Proofs.PlacedMembers
import Restline.Proofs.WrittenTexts

/-!
The numbers of a body. Text that is read as JSON may hold a word that stands for no finite number, or a numeral
that is too great for one; a body takes over what such a text is read as, and then it cannot be sent. Every
other number of a body is finite.

* `Value.isFinite_toJson_iff` : what a value gives a node is finite if what its text is read as is.
* `Schema.Supplies` : the nodes whose arguments a body takes its values from.
* `Schema.isFinite_build_iff` : **an object is finite if what its nodes supply is**.
* `Schema.body_isFinite_iff` : **when all numbers of a body are finite**, and when a text stands for itself.
-/

set_option autoImplicit false

namespace Restline

/-! ### Values without parts -/

namespace Json

/-- A whole number, a truth value or a text. -/
inductive IsSimple : Json → Prop
  | int (n : ℤ) : IsSimple (.int n)
  | bool (b : Bool) : IsSimple (.bool b)
  | str (s : String) : IsSimple (.str s)

theorem IsSimple.isFinite {j : Json} (h : j.IsSimple) : j.isFinite = true := by
  cases h <;> rfl

theorem IsSimple.regular {j : Json} (h : j.IsSimple) : j.Regular := by
  cases h with
  | int n => exact .int n
  | bool b => exact .bool b
  | str s => exact .str s

/-- A proper value is regular. -/
theorem Proper.regular {j : Json} : j.Proper → j.Regular := by
  induction j using Json.induction with
  | null => exact fun _ => .null
  | bool b => exact fun _ => .bool b
  | int n => exact fun _ => .int n
  | float x =>
      intro h
      rw [Proper] at h
      exact .float x h
  | str s => exact fun _ => .str s
  | arr items ih => exact fun h => .arr items fun j hj => ih j hj (proper_arr.1 h j hj)
  | obj ms ih =>
      intro h
      obtain ⟨hnodup, hall⟩ := proper_obj.1 h
      exact .obj ms hnodup fun e he => ih e he (hall e he)

end Json

/-! ### Values of arguments -/

namespace Value

variable {arg text : String} {v : Value} {j : Json}

/-- What a text gives is what it is read as, or the text itself. -/
theorem readOpaque_eq_ok_iff :
    readOpaque text = .ok j ↔
      Json.read text = .ok j ∨ (∃ what left, Json.read text = .error (.malformed what left)) ∧ j = .str text := by
  rw [readOpaque]
  cases Json.read text with
  | ok w => simp [eq_comm]
  | error fault => cases fault <;> simp [eq_comm]

theorem readJson_eq_ok_iff : readJson arg text = .ok j ↔ Json.read text = .ok j := by
  rw [readJson]
  cases Json.read text with
  | ok w => simp
  | error fault => cases fault <;> simp

/-- A value whose text is read as JSON gives what the text is read as, or the text itself where it is malformed. -/
theorem toJson_of_jsonText? {k : Kind} (htext : v.jsonText? k = some text) (h : v.toJson arg k = .ok j) :
    Json.read text = .ok j ∨ (∃ what left, Json.read text = .error (.malformed what left)) ∧ j = .str text := by
  have hjson : ∀ {s}, readJson arg s = .ok j → s = text → Json.read text = .ok j := by
    rintro s hs rfl
    exact readJson_eq_ok_iff.1 hs
  have hopaque : ∀ {s}, readOpaque s = .ok j → s = text → Json.read text = .ok j ∨
      (∃ what left, Json.read text = .error (.malformed what left)) ∧ j = .str text := by
    rintro s hs rfl
    exact readOpaque_eq_ok_iff.1 hs
  cases v with
  | int n => cases k <;> cases htext
  | bool b => cases k <;> cases htext
  | text s =>
      cases k with
      | object => exact .inl (hjson h (Option.some_inj.1 htext))
      | array => exact .inl (hjson h (Option.some_inj.1 htext))
      | opaqueJson => exact hopaque h (Option.some_inj.1 htext)
      | _ => cases htext
  | raw s =>
      cases k with
      | object => exact .inl (hjson h (Option.some_inj.1 htext))
      | array => exact .inl (hjson h (Option.some_inj.1 htext))
      | string => exact .inl (hjson h (Option.some_inj.1 htext))
      | opaqueJson => exact hopaque h (Option.some_inj.1 htext)
      | _ => cases htext

theorem isSimple_of_toJsonInt (h : v.toJsonInt arg = .ok j) : j.IsSimple := by
  rw [toJsonInt.eq_def] at h
  split at h
  · cases h
    exact .int _
  · cases h
  · split at h
    · cases h
      exact .int _
    · cases h

theorem isSimple_of_toJsonBool (h : v.toJsonBool arg = .ok j) : j.IsSimple := by
  rw [toJsonBool.eq_def] at h
  split at h
  · cases h
    exact .bool _
  · dsimp only at h
    split at h
    · cases h
      exact .bool _
    · split at h
      · cases h
        exact .bool _
      · cases h

theorem isSimple_of_toJsonText (htext : v.jsonText? .string = none) (h : v.toJsonText arg = .ok j) :
    j.IsSimple := by
  rw [toJsonText.eq_def] at h
  split at h
  · cases htext
  · exact Except.ok.inj h ▸ .str _

/-- A value whose text is not read as JSON gives a whole number, a truth value or a text. -/
theorem isSimple_of_jsonText?_eq_none {k : Kind} (htext : v.jsonText? k = none) (h : v.toJson arg k = .ok j) :
    j.IsSimple := by
  rw [toJson.eq_def] at h
  cases k with
  | integer => exact isSimple_of_toJsonInt h
  | boolean => exact isSimple_of_toJsonBool h
  | string => exact isSimple_of_toJsonText htext h
  | opaqueJson =>
      cases v with
      | int n => exact Except.ok.inj h ▸ .int n
      | bool b => exact Except.ok.inj h ▸ .bool b
      | _ => cases htext
  | object =>
      cases v with
      | int n => cases h
      | bool b => cases h
      | _ => cases htext
  | array =>
      cases v with
      | int n => cases h
      | bool b => cases h
      | _ => cases htext

/-- **What a value gives a node is finite** exactly if what its text is read as is. -/
theorem isFinite_toJson_iff {k : Kind} (h : v.toJson arg k = .ok j) :
    j.isFinite = true ↔ ∀ t w, v.jsonText? k = some t → Json.read t = .ok w → w.isFinite = true := by
  cases htext : v.jsonText? k with
  | none =>
      exact iff_of_true (isSimple_of_jsonText?_eq_none htext h).isFinite fun t w ht => nomatch ht
  | some text =>
      rcases toJson_of_jsonText? htext h with hread | ⟨⟨what, left, hread⟩, rfl⟩
      · constructor
        · rintro hj t w ⟨⟩ hw
          rw [hread] at hw
          cases hw
          exact hj
        · exact fun hall => hall text j rfl hread
      · refine iff_of_true rfl ?_
        rintro t w ⟨⟩ hw
        rw [hread] at hw
        cases hw

/-- What a value gives a node is regular. -/
theorem regular_toJson {k : Kind} (h : v.toJson arg k = .ok j) : j.Regular := by
  cases htext : v.jsonText? k with
  | none => exact (isSimple_of_jsonText?_eq_none htext h).regular
  | some text =>
      rcases toJson_of_jsonText? htext h with hread | ⟨-, rfl⟩
      · exact (Json.proper_of_read hread).regular
      · exact .str text

end Value

namespace Schema

variable {b : Bound} {s n c : Schema} {j : Json} {key : String}

/-! ### Nodes that supply values -/

/-- The node takes its value from an argument, and it is the root or puts its value into the body. -/
def Supplies (b : Bound) (s n : Schema) : Prop := n.arg.isSome = true ∧ (n = s ∨ ∃ path, s.Places b path n)

/-- A node with an argument is the only one that supplies its value. -/
theorem supplies_iff_of_arg (harg : s.arg.isSome = true) : s.Supplies b n ↔ n = s := by
  constructor
  · rintro ⟨-, rfl | ⟨path, hplaces⟩⟩
    · rfl
    · rw [hplaces.arg_eq_none] at harg
      cases harg
  · rintro rfl
    exact ⟨harg, .inl rfl⟩

/-- What an object is built from is supplied by what its members are built from. -/
theorem supplies_iff_of_open (harg : s.arg = none) :
    s.Supplies b n ↔ ∃ key c, s.giver? b key = some c ∧ c.Supplies b n := by
  constructor
  · rintro ⟨hn, rfl | ⟨path, hplaces⟩⟩
    · rw [harg] at hn
      cases hn
    · cases hplaces with
      | member _ hc => exact ⟨_, _, hc, hn, .inl rfl⟩
      | deeper _ hc h => exact ⟨_, _, hc, hn, .inr ⟨_, h⟩⟩
  · rintro ⟨key, c, hc, hn, rfl | ⟨path, hplaces⟩⟩
    · exact ⟨hn, .inr ⟨_, .member harg hc⟩⟩
    · exact ⟨hn, .inr ⟨_, .deeper harg hc hplaces⟩⟩

/-- The numbers that a node with an argument takes from its text are finite. -/
def ReadsFinite (b : Bound) (n : Schema) : Prop :=
  ∀ t v, n.jsonText? b = some t → Json.read t = .ok v → v.isFinite = true

/-- The value of an argument is what the value that is bound to it gives. -/
theorem exists_of_argValue_eq_some {k : Kind} (h : argValue b key k = .ok (some j)) :
    ∃ v, b.get? key = some v ∧ v.toJson key k = .ok j := by
  rw [argValue] at h
  cases hbound : b.get? key with
  | none =>
      rw [hbound] at h
      cases h
  | some v =>
      rw [hbound] at h
      obtain ⟨w, hw, heq⟩ := Except.map_eq_ok_iff.1 h
      cases heq
      exact ⟨v, rfl, hw⟩

theorem isFinite_build_of_arg (harg : s.arg.isSome = true) (h : build b s = .ok (some j)) :
    j.isFinite = true ↔ s.ReadsFinite b := by
  obtain ⟨key, hkey⟩ := Option.isSome_iff_exists.1 harg
  rw [build_of_arg hkey] at h
  obtain ⟨v, hbound, hv⟩ := exists_of_argValue_eq_some h
  rw [Value.isFinite_toJson_iff hv, ReadsFinite, jsonText?_of_arg hkey, hbound, Option.bind_some]

/-- The entries of an object are the values of the members that give it theirs. -/
theorem mem_ofPairs_entries_iff {w : Json} :
    (key, w) ∈ Keyed.ofPairs (s.entries b) ↔ ∃ c, s.giver? b key = some c ∧ c.value? b = some w := by
  rw [← Option.bind_eq_some_iff, ← get?_ofPairs_entries]
  exact Keyed.mem_iff_get? (Keyed.nodup_keys_ofPairs _)

/-- The entries of an object are finite if what its members give it is. -/
theorem isFinite_entries_iff :
    (Json.obj (Keyed.ofPairs (s.entries b))).isFinite = true ↔
      ∀ key c w, s.giver? b key = some c → c.value? b = some w → w.isFinite = true := by
  rw [Json.isFinite, Json.membersFinite_iff]
  constructor
  · intro h key c w hc hw
    exact h (key, w) (mem_ofPairs_entries_iff.2 ⟨c, hc, hw⟩)
  · rintro h ⟨key, w⟩ hmem
    obtain ⟨c, hc, hw⟩ := mem_ofPairs_entries_iff.1 hmem
    exact h key c w hc hw

/-- The nodes of an object supply finite values if those of its members do. -/
theorem readsFinite_members_iff (harg : s.arg = none) :
    (∀ n, s.Supplies b n → n.ReadsFinite b) ↔
      ∀ key c, s.giver? b key = some c → ∀ n, c.Supplies b n → n.ReadsFinite b := by
  simp only [supplies_iff_of_open harg]
  constructor
  · exact fun h key c hc n hn => h n ⟨key, c, hc, hn⟩
  · rintro h n ⟨key, c, hc, hn⟩
    exact h key c hc n hn

/-- The entries of an object are finite if what its nodes supply is, if that is so of its members. -/
theorem isFinite_entries_iff_supplies (harg : s.arg = none) (hall : s.MembersBuild b)
    (ih : ∀ c ∈ s.members, ∀ w, build b c = .ok (some w) →
      (w.isFinite = true ↔ ∀ n, c.Supplies b n → n.ReadsFinite b)) :
    (Json.obj (Keyed.ofPairs (s.entries b))).isFinite = true ↔ ∀ n, s.Supplies b n → n.ReadsFinite b := by
  rw [isFinite_entries_iff, readsFinite_members_iff harg]
  constructor
  · intro h key c hc
    obtain ⟨w, hw⟩ := build_of_giver? hall hc
    exact (ih c (giver?_eq_some hc).1 w hw).1 (h key c w hc (value?_of_build hw))
  · intro h key c w hc hvalue
    obtain ⟨w', hw⟩ := build_of_giver? hall hc
    rw [value?_of_build hw] at hvalue
    cases hvalue
    exact (ih c (giver?_eq_some hc).1 w hw).2 (h key c hc)

/-- **The value of a node is finite if what its nodes supply is.** -/
theorem isFinite_build_iff (h : build b s = .ok (some j)) :
    j.isFinite = true ↔ ∀ n, s.Supplies b n → n.ReadsFinite b := by
  induction s using member_induction generalizing j with
  | step s ih =>
      cases harg : s.arg with
      | some key =>
          have hsome : s.arg.isSome = true := by rw [harg]; rfl
          simp only [supplies_iff_of_arg hsome, forall_eq]
          exact isFinite_build_of_arg hsome h
      | none =>
          obtain ⟨-, hall, rfl⟩ := eq_obj_of_build harg h
          exact isFinite_entries_iff_supplies harg hall fun c hc w hw => ih c hc hw

/-- A body is the value of its root, or an object that is there without entries too. -/
theorem body_eq_ok_some (h : s.body b = .ok (some j)) :
    build b s = .ok (some j) ∨
      s.arg = none ∧ s.MembersBuild b ∧ j = .obj (Keyed.ofPairs (s.entries b)) := by
  cases harg : s.arg with
  | some key =>
      rw [body_of_arg harg, ← build_of_arg harg] at h
      obtain ⟨v, hv, hj⟩ := Except.map_eq_ok_iff.1 h
      obtain ⟨w, rfl, hw⟩ := Option.bind_eq_some_iff.1 hj
      -- a body that is null is none, and any other is the value itself
      obtain rfl : w = j := by
        cases w <;> cases hw <;> rfl
      exact .inl hv
  | none =>
      obtain ⟨-, hall, hj⟩ := (body_eq_ok_iff harg).1 h
      exact .inr ⟨rfl, hall, Option.some_inj.1 hj⟩

theorem isFinite_body_iff (h : s.body b = .ok (some j)) :
    j.isFinite = true ↔ ∀ n, s.Supplies b n → n.ReadsFinite b := by
  rcases body_eq_ok_some h with hbuild | ⟨harg, hall, rfl⟩
  · exact isFinite_build_iff hbuild
  · exact isFinite_entries_iff_supplies harg hall fun c _ w hw => isFinite_build_iff hw

/-- The entries of an object are regular if the values of its members are. -/
theorem regular_entries (hall : s.MembersBuild b)
    (ih : ∀ c ∈ s.members, ∀ w, build b c = .ok (some w) → w.Regular) :
    (Json.obj (Keyed.ofPairs (s.entries b))).Regular := by
  refine .obj _ (Keyed.nodup_keys_ofPairs _) ?_
  rintro ⟨key, w⟩ hmem
  obtain ⟨c, hc, hvalue⟩ := mem_ofPairs_entries_iff.1 hmem
  obtain ⟨w', hw⟩ := build_of_giver? hall hc
  rw [value?_of_build hw] at hvalue
  cases hvalue
  exact ih c (giver?_eq_some hc).1 w hw

/-- The value of a node is regular. -/
theorem regular_build (h : build b s = .ok (some j)) : j.Regular := by
  induction s using member_induction generalizing j with
  | step s ih =>
      cases harg : s.arg with
      | some key =>
          rw [build_of_arg harg] at h
          obtain ⟨v, -, hv⟩ := exists_of_argValue_eq_some h
          exact Value.regular_toJson hv
      | none =>
          obtain ⟨-, hall, rfl⟩ := eq_obj_of_build harg h
          exact regular_entries hall fun c hc w hw => ih c hc hw

theorem regular_body (h : s.body b = .ok (some j)) : j.Regular := by
  rcases body_eq_ok_some h with hbuild | ⟨-, hall, rfl⟩
  · exact regular_build hbuild
  · exact regular_entries hall fun c _ w hw => regular_build hw

/-! ### Texts that stand for themselves -/

/-- What a node supplies it has a value for. -/
theorem exists_build_of_supplies (h : s.body b = .ok (some j)) (hn : s.Supplies b n) :
    ∃ w, build b n = .ok (some w) := by
  obtain ⟨harg, rfl | ⟨path, hplaces⟩⟩ := hn
  · rcases body_eq_ok_some h with hbuild | ⟨hnone, -⟩
    · exact ⟨j, hbuild⟩
    · rw [hnone] at harg
      cases harg
  · have hall : s.MembersBuild b := by
      rcases body_eq_ok_some h with hbuild | ⟨-, hall, -⟩
      · exact (eq_obj_of_build hplaces.arg_eq_none hbuild).2.1
      · exact hall
    obtain ⟨w, hw, -⟩ := follow_of_places hall hplaces
    exact ⟨w, hw⟩

/-- A node that has a value keeps its text exactly if the text is none of the grammar. -/
theorem build_eq_str_iff {t : String} {w : Json} (hn : build b n = .ok (some w)) (ht : n.jsonText? b = some t) :
    build b n = .ok (some (.str t)) ↔ ¬ Json.IsText Json.IsReadAtom t := by
  have hkeeps : build b n = .ok (some (.str t)) ↔ w = .str t := by simp [hn]
  cases harg : n.arg with
  | none =>
      rw [jsonText?, harg] at ht
      cases ht
  | some key =>
      rw [build_of_arg harg] at hn
      obtain ⟨v, hbound, hv⟩ := exists_of_argValue_eq_some hn
      rw [jsonText?_of_arg harg, hbound, Option.bind_some] at ht
      rw [hkeeps]
      rcases Value.toJson_of_jsonText? ht hv with hread | ⟨⟨what, left, hread⟩, rfl⟩
      · exact iff_of_false (Json.ne_of_read hread) (not_not_intro (Json.isText_of_read hread))
      · refine iff_of_true rfl ?_
        rw [← Json.read_iff_isText (by simp [Json.Overlong, hread]), hread]
        simp

/-! ### Bodies -/

theorem kind_locationNode : locationNode.kind = .opaqueJson := by
  decide +kernel

/-- What a body with a text alone is. -/
theorem build_locationNode (t : String) :
    build [("$a", .text t)] locationNode = match Json.read t with
      | .ok j => .ok (some j)
      | .error (.malformed _ _) => .ok (some (.str t))
      | .error (.overlong _) => .error .overlongNumeral :=
  build_of_opaqueJson rfl kind_locationNode (.inl rfl)

/-- The word for what is too great is no text of the standard. -/
theorem not_isText_infinity : ¬ Json.IsText Json.IsAtom "Infinity" := by
  rintro ⟨p, hp, hvalue⟩
  have hreads := hvalue.readsTo Json.isHereditary_true fun cs hcs => Json.IsReadAtom.readsTo (.inl hcs)
  have hword : 'I' :: "nfinity".toList = p.text ++ p.after := by
    have hskip := p.skipGaps_chars hreads.starts []
    rw [List.append_nil, List.append_nil, hp] at hskip
    exact hskip
  generalize htext : p.text = text at hvalue hword
  -- every value of the standard begins with another character
  cases hvalue with
  | atom h =>
      rcases h with ⟨w, hw, rfl⟩ | ⟨n, rfl⟩
      · simp only [List.mem_cons, List.not_mem_nil, or_false] at hw
        rcases hw with rfl | rfl | rfl <;> cases hword
      · obtain ⟨c, r, hc, heq | heq⟩ := n.beginsNumber p.after
        · rw [heq] at hword
          cases hword
          cases hc
        · rw [heq] at hword
          cases hword
  | quoted h =>
      obtain ⟨r, rfl, -⟩ := h
      cases hword
  | _ => cases hword

end Schema

end Restline
