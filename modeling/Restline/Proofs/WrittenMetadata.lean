import Restline.Proofs.DocumentNames
import Restline.Proofs.WrittenSettings

/-!
Schemas and indexes that are written and read again. A field is written under its name in documents if it has a
value, and a reader finds there what was written; so a reader that takes back what is written for the parts takes
back the whole. An index comes back as it was. A schema comes back with null in place of each number in its
free-form members that is not finite, and what is written the second time is what was written the first time.

* `Checked.items_map`, `Checked.entries_map` : lists and maps that come back if their values do.
* `optionalField_of_field` : a field that comes back if its value does.
* `Schema.induction` : what holds of nodes by their parts holds of all nodes.
* `Schema.withoutNonFinite`, `Schema.IsFinite` : schemas with and without such numbers.
* `Schema.readAt_toJson`, `Group.readAt_toJson` : schemas and groups come back, at any depth.
* `reread_of_written` : **what is written is read again**.
-/

set_option autoImplicit false

namespace Restline

/-! ### Containers -/

namespace Checked

variable {α β : Type} {read : Json → Checked β} {write : α → Json} {again : α → β}

theorem items_map {l : List α} (h : ∀ a ∈ l, read (write a) = .valid (again a)) (n : ℕ) :
    items read n (l.map write) = .valid (l.map again) := by
  induction l generalizing n with
  | nil => rfl
  | cons a r ih =>
      have hrest := ih (fun a ha => h a (List.mem_cons_of_mem _ ha)) (n + 1)
      rw [List.map_cons, items, h a List.mem_cons_self, hrest]
      rfl

theorem entries_map {m : Keyed α} (h : ∀ e ∈ m, read (write e.2) = .valid (again e.2)) :
    entries read (m.map fun e => (e.1, write e.2)) = .valid (m.map fun e => (e.1, again e.2)) := by
  induction m with
  | nil => rfl
  | cons e r ih =>
      have hrest := ih fun e he => h e (List.mem_cons_of_mem _ he)
      rw [List.map_cons, entries, h e List.mem_cons_self, hrest]
      rfl

/-- A map comes back as it was if its values do. -/
theorem entries_map_self {read : Json → Checked α} {m : Keyed α} (h : ∀ e ∈ m, read (write e.2) = .valid e.2) :
    entries read (m.map fun e => (e.1, write e.2)) = .valid m := by
  have hread : entries read (m.map fun e => (e.1, write e.2)) = .valid (m.map fun e => (e.1, id e.2)) :=
    entries_map h
  simpa using hread

/-- Members come back as they are where any value will do. -/
theorem entries_any (ms : Keyed Json) : entries any ms = .valid ms := by
  have hread : entries any (ms.map fun e => (e.1, id e.2)) = .valid ms := entries_map_self fun _ _ => rfl
  simpa using hread

theorem listOf_ofTexts (l : List String) : listOf text (Json.ofTexts l) = .valid l := by
  have heach : ∀ s ∈ l, text (.str s) = .valid (id s) := fun s _ => rfl
  have h := items_map heach 0
  rwa [List.map_id] at h

/-- The items of a list that was read were read. -/
theorem exists_of_mem_items {l : List β} {b : β} (hb : b ∈ l) :
    ∀ {js : List Json} {n : ℕ}, items read n js = .valid l → ∃ j, read j = .valid b := by
  induction l with
  | nil => cases hb
  | cons c r ih =>
      intro js n h
      cases js with
      | nil => cases h
      | cons j js =>
          obtain ⟨put, rest, hput, hrest, heq⟩ := and_eq_valid_iff.1 h
          obtain ⟨a, ha, rfl⟩ := map_eq_valid_iff.1 hput
          obtain ⟨rfl, rfl⟩ := List.cons_eq_cons.1 heq
          rcases List.mem_cons.1 hb with rfl | hb
          · exact ⟨j, under_eq_valid_iff.1 ha⟩
          · exact ih hb hrest

theorem exists_of_mem_listOf {l : List β} {b : β} {j : Json} (h : listOf read j = .valid l) (hb : b ∈ l) :
    ∃ j, read j = .valid b := by
  cases j with
  | arr js => exact exists_of_mem_items hb h
  | _ => cases h

end Checked

/-! ### Fields -/

section Fields

variable {α β : Type}

@[simp] theorem Keyed.get?_append (m n : Keyed α) (key : String) :
    Keyed.get? (m ++ n) key = (m.get? key).or (n.get? key) := by
  induction m with
  | nil => rfl
  | cons e r ih =>
      rw [List.cons_append, get?_cons, get?_cons, ih]
      split <;> rfl

/-- A field that is written is found under its name, and nothing is found under another one. -/
@[simp] theorem Json.get?_field (name : String) (write : α → Json) (v : Option α) (key : String) :
    Keyed.get? (Json.field name write v) key = if name = key then v.map write else none := by
  cases v with
  | none => simp [Json.field]
  | some a => rfl

/-- What is written for a value is written for what a function makes of it. -/
theorem Json.field_map (name : String) (write : α → Json) (again : α → α) {v : Option α}
    (h : ∀ a, v = some a → write (again a) = write a) :
    Json.field name write (v.map again) = Json.field name write v := by
  cases v with
  | none => rfl
  | some a => rw [Option.map_some, field, field, h a rfl]

/-- A field is looked up under its name and then under the other one. -/
theorem Field.value?_eq (f : Field) (ms : Keyed Json) :
    f.value? ms = (ms.get? f.name).or (ms.get? f.other) := by
  rw [value?, given?, Keyed.has, Keyed.has]
  cases hname : ms.get? f.name with
  | some j => simp [hname]
  | none => cases hother : ms.get? f.other <;> simp [hother]

variable {ms : Keyed Json} {f : Field} {read : Json → Checked β} {write : α → Json} {again : α → β}

/-- A field that was written if it had a value comes back if its value does. -/
theorem optionalField_of_field {v : Option α} (hvalue : f.value? ms = v.map write)
    (hread : ∀ a, v = some a → read (write a) = .valid (again a)) (hnull : ∀ a, write a ≠ .null) :
    optionalField ms f read = .valid (v.map again) := by
  rw [optionalField, hvalue]
  cases v with
  | none => rfl
  | some a =>
      rw [Option.map_some, Option.map_some]
      split
      · rename_i hnone
        cases hnone
      · rename_i hnone
        exact absurd (Option.some_inj.1 hnone) (hnull a)
      · rename_i j _ hj
        rw [← Option.some_inj.1 hj, hread a rfl]
        rfl

theorem optionalField_of_text {v : Option String} (hvalue : f.value? ms = v.map .str) :
    optionalField ms f Checked.text = .valid v := by
  have h : optionalField ms f Checked.text = .valid (v.map id) :=
    optionalField_of_field hvalue (fun _ _ => rfl) (by simp)
  rwa [Option.map_id] at h

theorem optionalField_of_bool {v : Option Bool} (hvalue : f.value? ms = v.map .bool) :
    optionalField ms f Checked.bool = .valid v := by
  have h : optionalField ms f Checked.bool = .valid (v.map id) :=
    optionalField_of_field hvalue (fun _ _ => rfl) (by simp)
  rwa [Option.map_id] at h

/-- A field that is there comes back if its value does. -/
theorem fieldOr_of_value {v : β} {j : Json} (hvalue : f.value? ms = some j) (hread : read j = .valid v)
    (value : β) : fieldOr ms f value read = .valid v := by
  rw [fieldOr, hvalue]
  simp only [hread, Checked.under]

end Fields

/-! ### Values without infinite numbers -/

namespace Json

theorem itemsWithout_eq_map (items : List Json) : itemsWithout items = items.map withoutNonFinite := by
  induction items with
  | nil => rfl
  | cons j r ih => rw [itemsWithout, ih, List.map_cons]

theorem membersWithout_eq_map (ms : List (String × Json)) :
    membersWithout ms = ms.map fun e => (e.1, e.2.withoutNonFinite) := by
  induction ms with
  | nil => rfl
  | cons e r ih => rw [membersWithout, ih, List.map_cons]

/-- Nothing is left to replace. -/
theorem isFinite_withoutNonFinite (j : Json) : j.withoutNonFinite.isFinite = true := by
  induction j using Json.induction with
  | null | bool | int | str => rfl
  | float x =>
      rw [withoutNonFinite]
      split
      · rwa [isFinite]
      · rfl
  | arr items ih =>
      rw [withoutNonFinite, isFinite, allFinite_iff, itemsWithout_eq_map]
      exact List.forall_mem_map.2 ih
  | obj ms ih =>
      rw [withoutNonFinite, isFinite, membersFinite_iff, membersWithout_eq_map]
      exact List.forall_mem_map.2 ih

theorem membersFinite_membersWithout (ms : List (String × Json)) : membersFinite (membersWithout ms) = true := by
  have h := isFinite_withoutNonFinite (.obj ms)
  rwa [withoutNonFinite, isFinite] at h

/-- What is left is written as it is. -/
theorem ofFreeForm_membersWithout (ms : Keyed Json) : ofFreeForm (membersWithout ms) = ofFreeForm ms := by
  rw [ofFreeForm, ofFreeForm, withoutNonFinite, withoutNonFinite,
    membersWithout_of_finite (membersFinite_membersWithout ms)]

end Json

/-- A function that leaves the value alone leaves the option alone. -/
theorem optionMap_eq_self {α : Type} {f : α → α} {o : Option α} (h : ∀ a, o = some a → f a = a) : o.map f = o :=
  (Option.map_congr h).trans (congrFun Option.map_id o)

/-! ### Nodes of schemas -/

namespace Schema

/-- What holds of a node whenever it holds of its members, its item and the values of its map holds of every
node. -/
theorem induction {P : Schema → Prop} (node : ∀ a ps i x, (∀ l, ps = some l → ∀ c ∈ l, P c) →
      (∀ c, i = some c → P c) → (∀ c, x = some (some c) → P c) → P (.node a ps i x)) (s : Schema) : P s :=
  @Schema.rec P (fun ps => ∀ l, ps = some l → ∀ c ∈ l, P c) (fun i => ∀ c, i = some c → P c)
    (fun x => ∀ c, x = some (some c) → P c) (fun l => ∀ c ∈ l, P c)
    (fun a ps i x hps hi hx => node a ps i x hps hi hx)
    (fun _ h => nomatch h) (fun _ hl _ h => Option.some_inj.1 h ▸ hl)
    (fun _ h => nomatch h) (fun _ hc _ h => Option.some_inj.1 h ▸ hc)
    (fun _ h => nomatch h) (fun _ hi c h => hi c (Option.some_inj.1 h))
    (fun _ h => nomatch h) (fun _ _ hc hr => List.forall_mem_cons.2 ⟨hc, hr⟩) s

mutual

/-- The node with null in place of every number that is not finite, in its free-form members and in those of
all nodes below it. -/
def withoutNonFinite : Schema → Schema
  | .node a ps i x =>
    .node { a with format := a.format.map Json.membersWithout } (propsWithout ps) (itemWithout i)
      (additionalWithout x)

/-- The members with null in place of such numbers. -/
def propsWithout : Option (List Schema) → Option (List Schema)
  | none => none
  | some ps => some (listWithout ps)

/-- Nodes with null in place of such numbers. -/
def listWithout : List Schema → List Schema
  | [] => []
  | s :: r => s.withoutNonFinite :: listWithout r

/-- The item with null in place of such numbers. -/
def itemWithout : Option Schema → Option Schema
  | none => none
  | some s => some s.withoutNonFinite

/-- The values of a free-form map with null in place of such numbers. -/
def additionalWithout : Option (Option Schema) → Option (Option Schema)
  | none => none
  | some i => some (itemWithout i)

end

/-- Every number in the free-form members of the node, and of all nodes below it, is finite. -/
inductive IsFinite : Schema → Prop
  | node {a : Attributes} {ps : Option (List Schema)} {i : Option Schema} {x : Option (Option Schema)}
      (format : ∀ ms, a.format = some ms → Json.membersFinite ms = true)
      (props : ∀ l, ps = some l → ∀ c ∈ l, IsFinite c) (item : ∀ c, i = some c → IsFinite c)
      (additional : ∀ c, x = some (some c) → IsFinite c) : IsFinite (.node a ps i x)

theorem listWithout_eq_map (l : List Schema) : listWithout l = l.map withoutNonFinite := by
  induction l with
  | nil => rfl
  | cons s r ih => rw [listWithout, ih, List.map_cons]

theorem propsWithout_eq_map (ps : Option (List Schema)) :
    propsWithout ps = ps.map (List.map withoutNonFinite) := by
  cases ps with
  | none => rfl
  | some l => rw [propsWithout, listWithout_eq_map, Option.map_some]

theorem itemWithout_eq_map (i : Option Schema) : itemWithout i = i.map withoutNonFinite := by
  cases i <;> rfl

theorem additionalWithout_eq_map (x : Option (Option Schema)) :
    additionalWithout x = x.map (Option.map withoutNonFinite) := by
  cases x with
  | none => rfl
  | some i => rw [additionalWithout, itemWithout_eq_map, Option.map_some]

/-- Nothing is left to replace in a schema. -/
theorem isFinite_withoutNonFinite (s : Schema) : s.withoutNonFinite.IsFinite := by
  induction s using Schema.induction with
  | node a ps i x hps hi hx =>
      rw [withoutNonFinite, propsWithout_eq_map, itemWithout_eq_map, additionalWithout_eq_map]
      refine .node (fun ms hms => ?_) (fun l hl => ?_) (fun c hc => ?_) fun c hc => ?_
      · obtain ⟨ms, -, rfl⟩ := Option.map_eq_some_iff.1 hms
        exact Json.membersFinite_membersWithout ms
      · obtain ⟨l, hpsl, rfl⟩ := Option.map_eq_some_iff.1 hl
        exact List.forall_mem_map.2 (hps l hpsl)
      · obtain ⟨c, hic, rfl⟩ := Option.map_eq_some_iff.1 hc
        exact hi c hic
      · obtain ⟨v, hxv, hv⟩ := Option.map_eq_some_iff.1 hc
        obtain ⟨c, rfl, rfl⟩ := Option.map_eq_some_iff.1 hv
        exact hx c hxv

/-- Where all numbers are finite, there is nothing to replace in a schema. -/
theorem IsFinite.withoutNonFinite_eq {s : Schema} (h : s.IsFinite) : s.withoutNonFinite = s := by
  induction h with
  | @node a ps i x format _ _ _ hps hi hx =>
      have hformat : a.format.map Json.membersWithout = a.format :=
        optionMap_eq_self fun ms hms => Json.membersWithout_of_finite (format ms hms)
      have hps : ps.map (List.map withoutNonFinite) = ps :=
        optionMap_eq_self fun l hl => (List.map_congr_left (hps l hl)).trans (List.map_id l)
      have hi : i.map withoutNonFinite = i := optionMap_eq_self hi
      have hx : x.map (Option.map withoutNonFinite) = x :=
        optionMap_eq_self fun v hv => optionMap_eq_self fun c hc => hx c (hc ▸ hv)
      rw [withoutNonFinite, propsWithout_eq_map, itemWithout_eq_map, additionalWithout_eq_map, hformat, hps, hi, hx]

theorem withoutNonFinite_eq_self_iff {s : Schema} : s.withoutNonFinite = s ↔ s.IsFinite :=
  ⟨fun h => h ▸ s.isFinite_withoutNonFinite, IsFinite.withoutNonFinite_eq⟩

/-! ### Schemas that come back -/

theorem listToJson_eq_map (l : List Schema) : listToJson l = l.map toJson := by
  induction l with
  | nil => rfl
  | cons s r ih => rw [listToJson, ih, List.map_cons]

theorem propsToJson_eq (ps : Option (List Schema)) :
    propsToJson ps = Json.field "props" (fun l => .arr (l.map toJson)) ps := by
  cases ps with
  | none => rfl
  | some l => rw [propsToJson, listToJson_eq_map, Json.field]

theorem itemToJson_eq (i : Option Schema) : itemToJson i = Json.field "item" toJson i := by
  cases i <;> rfl

theorem additionalToJson_eq (x : Option (Option Schema)) :
    additionalToJson x = Json.field "additionalProps" (fun i => .obj (Json.field "item" toJson i)) x := by
  cases x with
  | none => rfl
  | some i => rw [additionalToJson, itemToJson_eq, Json.field]

/-- The members that a node is written as. -/
def written (a : Attributes) (ps : Option (List Schema)) (i : Option Schema) (x : Option (Option Schema)) :
    Keyed Json :=
  ("type", .str a.type) ::
    (Json.field "name" .str a.name ++ Json.field "arg" .str a.arg ++ Json.field "required" .bool a.required
      ++ Json.field "readOnly" .bool a.readOnly ++ Json.field "props" (fun l => .arr (l.map toJson)) ps
      ++ Json.field "item" toJson i ++ Json.field "format" Json.ofFreeForm a.format
      ++ Json.field "clientFlatten" .bool a.clientFlatten
      ++ Json.field "additionalProps" (fun i => .obj (Json.field "item" toJson i)) x)

theorem toJson_node (a : Attributes) (ps : Option (List Schema)) (i : Option Schema)
    (x : Option (Option Schema)) : toJson (.node a ps i x) = .obj (written a ps i x) := by
  rw [toJson, propsToJson_eq, itemToJson_eq, additionalToJson_eq, written]

theorem toJson_ne_null (s : Schema) : s.toJson ≠ .null := by
  cases s
  simp [toJson]

/-- The parts of a node that was read were read, each at one level less. -/
theorem parts_of_readAt {depth : ℕ} {j : Json} {a : Attributes} {ps : Option (List Schema)} {i : Option Schema}
    {x : Option (Option Schema)} (h : readAt (depth + 1) j = .valid (.node a ps i x)) :
    (∀ l, ps = some l → ∀ c ∈ l, ∃ j, readAt depth j = .valid c) ∧
      (∀ c, i = some c → ∃ j, readAt depth j = .valid c) ∧
      ∀ c, x = some (some c) → ∃ j, readAt depth j = .valid c := by
  obtain ⟨ms, -, hfields⟩ := Checked.record_eq_valid_iff.1 h
  -- the fields from the last to the first
  obtain ⟨g₁, additional, h₁, hadditional, heq⟩ := Checked.and_eq_valid_iff.1 hfields
  obtain ⟨g₂, cf, h₂, -, rfl⟩ := Checked.and_eq_valid_iff.1 h₁
  obtain ⟨g₃, format, h₃, -, rfl⟩ := Checked.and_eq_valid_iff.1 h₂
  obtain ⟨g₄, item, h₄, hitem, rfl⟩ := Checked.and_eq_valid_iff.1 h₃
  obtain ⟨g₅, props, h₅, hprops, rfl⟩ := Checked.and_eq_valid_iff.1 h₄
  obtain ⟨g₆, ro, h₆, -, rfl⟩ := Checked.and_eq_valid_iff.1 h₅
  obtain ⟨g₇, req, h₇, -, rfl⟩ := Checked.and_eq_valid_iff.1 h₆
  obtain ⟨g₈, arg, h₈, -, rfl⟩ := Checked.and_eq_valid_iff.1 h₇
  obtain ⟨g₉, name, h₉, -, rfl⟩ := Checked.and_eq_valid_iff.1 h₈
  obtain ⟨make, type, hmake, -, rfl⟩ := Checked.and_eq_valid_iff.1 h₉
  obtain rfl := Checked.valid.inj hmake
  cases heq
  refine ⟨fun l hl c hc => ?_, fun c hc => ?_, fun c hc => ?_⟩
  · subst hl
    obtain ⟨j, hj⟩ := exists_of_optionalField_eq_valid hprops
    exact Checked.exists_of_mem_listOf hj hc
  · subst hc
    exact exists_of_optionalField_eq_valid hitem
  · subst hc
    obtain ⟨j, hj⟩ := exists_of_optionalField_eq_valid hadditional
    obtain ⟨ms, -, hms⟩ := Checked.record_eq_valid_iff.1 hj
    exact exists_of_optionalField_eq_valid hms

/-- A node comes back if its parts do. -/
theorem readAt_toJson_node {depth : ℕ} {a : Attributes} {ps : Option (List Schema)} {i : Option Schema}
    {x : Option (Option Schema)}
    (hps : ∀ l, ps = some l → ∀ c ∈ l, readAt depth c.toJson = .valid c.withoutNonFinite)
    (hi : ∀ c, i = some c → readAt depth c.toJson = .valid c.withoutNonFinite)
    (hx : ∀ c, x = some (some c) → readAt depth c.toJson = .valid c.withoutNonFinite) :
    readAt (depth + 1) (toJson (.node a ps i x)) = .valid (withoutNonFinite (.node a ps i x)) := by
  have htype : requiredField (written a ps i x) (.plain "type") Checked.text = .valid a.type := rfl
  have hname : optionalField (written a ps i x) (.plain "name") Checked.text = .valid a.name :=
    optionalField_of_text (by simp [written, Field.plain, Field.value?_eq, Keyed.get?_cons])
  have harg : optionalField (written a ps i x) (.plain "arg") Checked.text = .valid a.arg :=
    optionalField_of_text (by simp [written, Field.plain, Field.value?_eq, Keyed.get?_cons])
  have hrequired : optionalField (written a ps i x) (.plain "required") Checked.bool = .valid a.required :=
    optionalField_of_bool (by simp [written, Field.plain, Field.value?_eq, Keyed.get?_cons])
  have hreadOnly : optionalField (written a ps i x) ⟨"readOnly", "read_only"⟩ Checked.bool =
      .valid a.readOnly :=
    optionalField_of_bool (by simp [written, Field.value?_eq, Keyed.get?_cons])
  have hflatten : optionalField (written a ps i x) ⟨"clientFlatten", "client_flatten"⟩ Checked.bool =
      .valid a.clientFlatten :=
    optionalField_of_bool (by simp [written, Field.value?_eq, Keyed.get?_cons])
  have hprops : optionalField (written a ps i x) (.plain "props") (Checked.listOf (readAt depth)) =
      .valid (ps.map (List.map withoutNonFinite)) := by
    have hvalue : (Field.plain "props").value? (written a ps i x) = ps.map fun l => .arr (l.map toJson) := by
      simp [written, Field.plain, Field.value?_eq, Keyed.get?_cons]
    exact optionalField_of_field hvalue (fun l hl => Checked.items_map (hps l hl) 0) (by simp)
  have hitem : optionalField (written a ps i x) (.plain "item") (readAt depth) =
      .valid (i.map withoutNonFinite) := by
    have hvalue : (Field.plain "item").value? (written a ps i x) = i.map toJson := by
      simp [written, Field.plain, Field.value?_eq, Keyed.get?_cons]
    exact optionalField_of_field hvalue hi toJson_ne_null
  have hformat : optionalField (written a ps i x) (.plain "format") (Checked.mapOf Checked.any) =
      .valid (a.format.map Json.membersWithout) := by
    have hvalue : (Field.plain "format").value? (written a ps i x) = a.format.map Json.ofFreeForm := by
      simp [written, Field.plain, Field.value?_eq, Keyed.get?_cons]
    exact optionalField_of_field hvalue (fun ms _ => Checked.entries_any (Json.membersWithout ms))
      (by simp [Json.ofFreeForm, Json.withoutNonFinite])
  have hadditional : optionalField (written a ps i x) ⟨"additionalProps", "additional_props"⟩
      (Checked.record fun ms => optionalField ms (.plain "item") (readAt depth)) =
        .valid (x.map (Option.map withoutNonFinite)) := by
    have hvalue : Field.value? ⟨"additionalProps", "additional_props"⟩ (written a ps i x) =
        x.map fun i => .obj (Json.field "item" toJson i) := by
      simp [written, Field.value?_eq, Keyed.get?_cons]
    refine optionalField_of_field hvalue (fun i hxi => ?_) (by simp)
    exact optionalField_of_field (by simp [Field.plain, Field.value?_eq]) (fun c hc => hx c (hc ▸ hxi)) toJson_ne_null
  rw [toJson_node, readAt, Checked.record]
  dsimp only
  rw [htype, hname, harg, hrequired, hreadOnly, hprops, hitem, hformat, hflatten, hadditional, withoutNonFinite,
    propsWithout_eq_map, itemWithout_eq_map, additionalWithout_eq_map]
  rfl

/-- **What is written for a schema that was read is read again**, at any depth, with null in place of each
number in its free-form members that is not finite. -/
theorem readAt_toJson {depth : ℕ} {j : Json} {s : Schema} (h : readAt depth j = .valid s) :
    readAt depth s.toJson = .valid s.withoutNonFinite := by
  induction depth generalizing j s with
  | zero => cases h
  | succ depth ih =>
      obtain ⟨a, ps, i, x⟩ := s
      obtain ⟨hps, hi, hx⟩ := parts_of_readAt h
      refine readAt_toJson_node (fun l hl c hc => ?_) (fun c hc => ?_) fun c hc => ?_
      · obtain ⟨j, hj⟩ := hps l hl c hc
        exact ih hj
      · obtain ⟨j, hj⟩ := hi c hc
        exact ih hj
      · obtain ⟨j, hj⟩ := hx c hc
        exact ih hj

/-- The second time the same is written as the first time. -/
theorem toJson_withoutNonFinite (s : Schema) : s.withoutNonFinite.toJson = s.toJson := by
  induction s using Schema.induction with
  | node a ps i x hps hi hx =>
      have hformat : Json.field "format" Json.ofFreeForm (a.format.map Json.membersWithout) =
          Json.field "format" Json.ofFreeForm a.format :=
        Json.field_map _ _ _ fun ms _ => Json.ofFreeForm_membersWithout ms
      have hprops : Json.field "props" (fun l => .arr (l.map toJson)) (ps.map (List.map withoutNonFinite)) =
          Json.field "props" (fun l => .arr (l.map toJson)) ps := by
        refine Json.field_map _ _ _ fun l hl => ?_
        rw [List.map_map]
        exact congrArg _ (List.map_congr_left (hps l hl))
      have hitem : Json.field "item" toJson (i.map withoutNonFinite) = Json.field "item" toJson i :=
        Json.field_map _ _ _ hi
      have hadditional : Json.field "additionalProps" (fun i => .obj (Json.field "item" toJson i))
          (x.map (Option.map withoutNonFinite)) =
            Json.field "additionalProps" (fun i => .obj (Json.field "item" toJson i)) x := by
        refine Json.field_map _ _ _ fun i hxi => ?_
        exact congrArg _ (Json.field_map _ _ _ fun c hc => hx c (hc ▸ hxi))
      rw [withoutNonFinite, propsWithout_eq_map, itemWithout_eq_map, additionalWithout_eq_map, toJson_node,
        toJson_node, written, written]
      dsimp only
      rw [hformat, hprops, hitem, hadditional]

end Schema

/-! ### Indexes that come back -/

theorem Help.ofJson_toJson (h : Help) : ofJson h.toJson = .valid h := by
  have hshort : optionalField (Json.field "short" .str h.short ++ Json.field "lines" Json.ofTexts h.lines)
      (.plain "short") Checked.text = .valid h.short :=
    optionalField_of_text (by simp [Field.plain, Field.value?_eq])
  have hlines : optionalField (Json.field "short" .str h.short ++ Json.field "lines" Json.ofTexts h.lines)
      (.plain "lines") (Checked.listOf Checked.text) = .valid (h.lines.map id) :=
    optionalField_of_field (by simp [Field.plain, Field.value?_eq]) (fun l _ => Checked.listOf_ofTexts l)
      (by simp [Json.ofTexts])
  rw [toJson, ofJson, Checked.record, hshort, hlines, Option.map_id]
  rfl

/-- Help in a field comes back. -/
theorem optionalField_of_help {ms : Keyed Json} {f : Field} {h : Option Help}
    (hvalue : f.value? ms = h.map Help.toJson) : optionalField ms f Help.ofJson = .valid h := by
  have hread : optionalField ms f Help.ofJson = .valid (h.map id) :=
    optionalField_of_field hvalue (fun h _ => h.ofJson_toJson) (by simp [Help.toJson])
  rwa [Option.map_id] at hread

theorem Entry.ofJson_toJson (e : Entry) : ofJson e.toJson = .valid e := by
  have hhelp : optionalField (Json.field "help" Help.toJson e.help ++ [("versions", Json.ofTexts e.versions)])
      (.plain "help") Help.ofJson = .valid e.help :=
    optionalField_of_help (by simp [Field.plain, Field.value?_eq, Keyed.get?_cons])
  have hversions : fieldOr (Json.field "help" Help.toJson e.help ++ [("versions", Json.ofTexts e.versions)])
      (.plain "versions") [] (Checked.listOf Checked.text) = .valid e.versions :=
    fieldOr_of_value (by simp [Field.plain, Field.value?_eq, Keyed.get?_cons]) (Checked.listOf_ofTexts _) _
  rw [toJson, ofJson, Checked.record, hhelp, hversions]
  rfl

namespace Group

theorem listToJson_eq_map (gs : List (String × Group)) :
    listToJson gs = gs.map fun e => (e.1, e.2.toJson) := by
  induction gs with
  | nil => rfl
  | cons e r ih => rw [listToJson, ih, List.map_cons]

/-- The members that a group is written as. -/
def written (h : Option Help) (gs : Keyed Group) (cs : Keyed Entry) : Keyed Json :=
  Json.field "help" Help.toJson h ++
    [("commandGroups", .obj (gs.map fun e => (e.1, e.2.toJson))),
      ("commands", .obj (cs.map fun c => (c.1, c.2.toJson)))]

theorem toJson_node (h : Option Help) (gs : Keyed Group) (cs : Keyed Entry) :
    toJson (.node h gs cs) = .obj (written h gs cs) := by
  rw [toJson, listToJson_eq_map, written]

/-- **What is written for a group that was read is read again**, at any depth. -/
theorem readAt_toJson {depth : ℕ} {j : Json} {g : Group} (h : readAt depth j = .valid g) :
    readAt depth g.toJson = .valid g := by
  induction depth generalizing j g with
  | zero => cases h
  | succ depth ih =>
      obtain ⟨help, gs, cs⟩ := g
      obtain ⟨ms, -, hread, -, hclash⟩ := fields_of_readAt h
      have hhelp : optionalField (written help gs cs) (.plain "help") Help.ofJson = .valid help :=
        optionalField_of_help (by simp [written, Field.plain, Field.value?_eq, Keyed.get?_cons])
      have hgroups : fieldOr (written help gs cs) ⟨"commandGroups", "command_groups"⟩ []
          (Checked.mapOf (readAt depth)) = .valid gs := by
        have hvalue : Field.value? ⟨"commandGroups", "command_groups"⟩ (written help gs cs) =
            some (.obj (gs.map fun e => (e.1, e.2.toJson))) := by
          simp [written, Field.value?_eq, Keyed.get?_cons]
        refine fieldOr_of_value hvalue (Checked.entries_map_self fun e he => ?_) _
        obtain ⟨j, hj⟩ := exists_of_mem_mapField hread he
        exact ih hj
      have hcommands : fieldOr (written help gs cs) (.plain "commands") [] (Checked.mapOf Entry.ofJson) =
          .valid cs := by
        have hvalue : (Field.plain "commands").value? (written help gs cs) =
            some (.obj (cs.map fun c => (c.1, c.2.toJson))) := by
          simp [written, Field.plain, Field.value?_eq, Keyed.get?_cons]
        exact fieldOr_of_value hvalue (Checked.entries_map_self fun c _ => c.2.ofJson_toJson) _
      rw [toJson_node, readAt, Checked.record, hhelp, hgroups, hcommands]
      exact hclash

end Group

namespace Index

theorem ofJson_toJson {j : Json} {i : Index} (h : ofJson j = .valid i) : ofJson i.toJson = .valid i := by
  obtain ⟨help, gs⟩ := i
  obtain ⟨ms, -, hgroups⟩ := groups_of_ofJson h
  have hhelp : optionalField (Json.field "help" Help.toJson help ++
      [("commandGroups", .obj (gs.map fun e => (e.1, e.2.toJson)))]) (.plain "help") Help.ofJson = .valid help :=
    optionalField_of_help (by simp [Field.plain, Field.value?_eq, Keyed.get?_cons])
  have hgroups' : fieldOr (Json.field "help" Help.toJson help ++
      [("commandGroups", .obj (gs.map fun e => (e.1, e.2.toJson)))]) ⟨"commandGroups", "command_groups"⟩ []
        (Checked.mapOf Group.ofJson) = .valid gs := by
    have hvalue : Field.value? ⟨"commandGroups", "command_groups"⟩ (Json.field "help" Help.toJson help ++
        [("commandGroups", .obj (gs.map fun e => (e.1, e.2.toJson)))]) =
          some (.obj (gs.map fun e => (e.1, e.2.toJson))) := by
      simp [Field.value?_eq, Keyed.get?_cons]
    refine fieldOr_of_value hvalue (Checked.entries_map_self fun e he => ?_) _
    obtain ⟨j, hj⟩ := exists_of_mem_mapField hgroups he
    exact Group.readAt_toJson hj
  rw [toJson, ofJson, Group.listToJson_eq_map, Checked.record, hhelp, hgroups']
  rfl

/-- **What is written for an index that was read is read again.** -/
theorem check_toJson {j : Json} {i : Index} (h : check j = .ok i) : check i.toJson = .ok i := by
  rw [check, ofJson_toJson (ofJson_of_check h)]

end Index

/-! ### What is written is read again -/

/-- **What is written is read again.** A schema that was read is written as a value that is read as the schema
with null in place of each number in its free-form members that is not finite; the second time the same is
written as the first time, and the schema is the first one exactly if all these numbers are finite. An index that
was accepted is written as a value that is accepted as the same index. -/
theorem reread_of_written (j : Json) :
    (∀ s, Schema.ofJson j = .valid s →
        Schema.ofJson s.toJson = .valid s.withoutNonFinite ∧ s.withoutNonFinite.toJson = s.toJson ∧
          (s.withoutNonFinite = s ↔ s.IsFinite)) ∧
      ∀ i, Index.check j = .ok i → Index.check i.toJson = .ok i := by
  refine ⟨fun s hs => ?_, fun i hi => Index.check_toJson hi⟩
  exact ⟨Schema.readAt_toJson hs, s.toJson_withoutNonFinite, Schema.withoutNonFinite_eq_self_iff⟩

/-- A member whose free-form members hold a null, in an object. -/
def patternDocument : Json :=
  .obj [("type", .str "object"), ("props", .arr [.obj [("name", .str "code"), ("type", .str "string"),
    ("format", .obj [("pattern", .null)]), ("readOnly", .int 1)]])]

/-- The schema of the document. -/
def patternSchema : Schema :=
  .node { type := "object" } (some [.node
    { type := "string", name := some "code", readOnly := some true, format := some [("pattern", .null)] }
    none none none]) none none

/-- An index with a group and a command in it. -/
def groupDocument : Json :=
  .obj [("command_groups", .obj [("a", .obj [("commands", .obj [("show", .obj [])])])])]

/-- The index of the document. -/
def groupIndex : Index where
  groups := [("a", .node none [] [("show", {})])]

theorem check_groupDocument : Index.check groupDocument = .ok groupIndex := by
  have hgroup : Group.ofJson (.obj [("commands", .obj [("show", .obj [])])]) =
      .valid (.node none [] [("show", {})]) :=
    Checked.andThen_eq_valid_iff.2 ⟨_, rfl, by cbv⟩
  have hgroups : Checked.mapOf Group.ofJson (.obj [("a", .obj [("commands", .obj [("show", .obj [])])])]) =
      .valid groupIndex.groups := by
    rw [Checked.mapOf, Checked.entries, hgroup]
    rfl
  have hfield : fieldOr [("command_groups", .obj [("a", .obj [("commands", .obj [("show", .obj [])])])])]
      ⟨"commandGroups", "command_groups"⟩ [] (Checked.mapOf Group.ofJson) = .valid groupIndex.groups :=
    fieldOr_of_value rfl hgroups _
  rw [Index.check, Index.ofJson, groupDocument, Checked.record, hfield]
  rfl

theorem isFinite_patternSchema : patternSchema.IsFinite := by
  refine .node (by simp) (fun l hl c hc => ?_) (by simp) (by simp)
  obtain rfl := Option.some_inj.1 hl
  obtain rfl := List.mem_singleton.1 hc
  exact .node (fun ms hms => Option.some_inj.1 hms ▸ rfl) (by simp) (by simp) (by simp)

/-- The null stays, the number is written as a truth value, and the groups are written under their name in
documents. -/
theorem reread_of_written_pattern :
    Schema.ofJson patternDocument = .valid patternSchema ∧
      Schema.ofJson patternSchema.toJson = .valid patternSchema ∧
      Index.check groupDocument = .ok groupIndex ∧ Index.check groupIndex.toJson = .ok groupIndex := by
  have hschema : Schema.ofJson patternDocument = .valid patternSchema := by rfl
  obtain ⟨hreread, -, hfinite⟩ := (reread_of_written patternDocument).1 patternSchema hschema
  rw [hfinite.2 isFinite_patternSchema] at hreread
  exact ⟨hschema, hreread, check_groupDocument, (reread_of_written groupDocument).2 groupIndex check_groupDocument⟩

/-- A numeral that is too great for a binary number is read as infinity and written as null: the schema does not
come back. -/
theorem exists_schema_not_reread :
    ∃ v s, Json.read "1e400" = .ok v ∧
      Schema.ofJson (.obj [("type", .str "number"), ("format", .obj [("maximum", v)])]) = .valid s ∧
      ∀ t, Schema.ofJson s.toJson = .valid t → t ≠ s := by
  refine ⟨.float (.infinity false),
    .node { type := "number", format := some [("maximum", .float (.infinity false))] } none none none,
    by cbv, by rfl, fun t ht heq => ?_⟩
  have hread : Schema.ofJson (.obj [("type", .str "number"), ("format", .obj [("maximum", .null)])]) =
      .valid (.node { type := "number", format := some [("maximum", .null)] } none none none) := by rfl
  rw [heq] at ht
  cases hread.symm.trans ht

end Restline
