import Restline.Operation.Body
import Restline.Proofs.ProperJson

/-!
Values that are pruned. A value conforms to a schema if an object holds no names but those of members that clients
write, and so on inside of it; where the schema says nothing, any value conforms. Pruning takes out of a value what
does not conform and nothing else: the result is the most of the value that conforms, with its members in their
order, and a value that conforms is left alone.

* `Json.RemainsOf` : a value with members of objects left out, at any depth.
* `Schema.written?`, `Schema.Conforms` : the member of a name that clients write, and values that conform.
* `Schema.prune_induction` : values by what pruning looks into.
* `Schema.conforms_prune`, `Schema.remainsOf_prune` : what is left conforms, and it is left of the value.
* `Schema.prune_eq_self_iff` : a value is left alone exactly if it conforms.
* `Schema.prune_projects` : **pruning projects onto the values that conform**.
* `Schema.remainsOf_prune_of_conforms` : **no more than needed is taken out**.
-/

set_option autoImplicit false

namespace Restline

/-! ### What remains of a value -/

mutual

/-- What remains of a value when members are left out of its objects, at any depth. What stays keeps its order. -/
inductive Json.RemainsOf : Json → Json → Prop
  | same (j : Json) : RemainsOf j j
  | arr {items items' : List Json} (h : ItemsRemainOf items items') : RemainsOf (.arr items) (.arr items')
  | obj {ms ms' : Keyed Json} (h : MembersRemainOf ms ms') : RemainsOf (.obj ms) (.obj ms')

/-- Items that are as many, each being what remains of its counterpart. -/
inductive Json.ItemsRemainOf : List Json → List Json → Prop
  | nil : ItemsRemainOf [] []
  | cons {j j' : Json} {r r' : List Json} (hj : RemainsOf j j') (hr : ItemsRemainOf r r') :
      ItemsRemainOf (j :: r) (j' :: r')

/-- Members that are among others in their order, each being what remains of its counterpart. -/
inductive Json.MembersRemainOf : Keyed Json → Keyed Json → Prop
  | nil : MembersRemainOf [] []
  | keep {key : String} {j j' : Json} {r r' : Keyed Json} (hj : RemainsOf j j') (hr : MembersRemainOf r r') :
      MembersRemainOf ((key, j) :: r) ((key, j') :: r')
  | drop {e : String × Json} {r r' : Keyed Json} (hr : MembersRemainOf r r') : MembersRemainOf r (e :: r')

end

namespace Schema

open Json (RemainsOf ItemsRemainOf MembersRemainOf)

/-! ### Values that conform -/

/-- The first member of a name, if clients write it. -/
def written? (s : Schema) (key : String) : Option Schema :=
  (s.member? key).filter fun c => !c.isReadOnly

mutual

/-- The value conforms to the schema: an object, where the schema has members, to these, and a list, where it has an
item, to this. -/
def Conforms (s : Schema) : Json → Prop
  | .obj ms => s.props.isSome = true → MembersConform s ms
  | .arr items => ∀ i, s.item = some i → ItemsConform i items
  | _ => True

/-- Each member has the name of one that clients write, and a value that conforms to it. -/
def MembersConform (s : Schema) : List (String × Json) → Prop
  | [] => True
  | (key, j) :: r => (∃ c, s.written? key = some c ∧ Conforms c j) ∧ MembersConform s r

/-- Each item conforms. -/
def ItemsConform (s : Schema) : List Json → Prop
  | [] => True
  | j :: r => Conforms s j ∧ ItemsConform s r

end

variable {s c i : Schema} {v w : Json} {key : String} {ms ms' : Keyed Json} {items items' : List Json}

theorem written?_eq_some_iff : s.written? key = some c ↔ s.member? key = some c ∧ c.isReadOnly = false := by
  simp [written?, Option.filter_eq_some_iff]

theorem membersConform_iff :
    s.MembersConform ms ↔ ∀ e ∈ ms, ∃ c, s.written? e.1 = some c ∧ c.Conforms e.2 := by
  induction ms with
  | nil => simp [MembersConform]
  | cons e r ih => rw [MembersConform, ih, List.forall_mem_cons]

theorem itemsConform_iff : i.ItemsConform items ↔ ∀ j ∈ items, i.Conforms j := by
  induction items with
  | nil => simp [ItemsConform]
  | cons j r ih => rw [ItemsConform, ih, List.forall_mem_cons]

theorem conforms_obj :
    s.Conforms (.obj ms) ↔
      (s.props.isSome = true → ∀ e ∈ ms, ∃ c, s.written? e.1 = some c ∧ c.Conforms e.2) := by
  rw [Conforms, membersConform_iff]

theorem conforms_arr : s.Conforms (.arr items) ↔ ∀ i, s.item = some i → ∀ j ∈ items, i.Conforms j := by
  simp only [Conforms, itemsConform_iff]

/-! ### Pruning, by parts -/

theorem pruneMembers_cons (s : Schema) (e : String × Json) (r : Keyed Json) :
    s.pruneMembers (e :: r) =
      match s.written? e.1 with
      | some c => (e.1, c.prune e.2) :: s.pruneMembers r
      | none => s.pruneMembers r := by
  rw [pruneMembers, written?]
  cases s.member? e.1 with
  | none => rfl
  | some c => cases hc : c.isReadOnly <;> simp [hc, Option.filter]

theorem pruneMembers_eq_filterMap (s : Schema) (ms : Keyed Json) :
    s.pruneMembers ms = ms.filterMap fun e => (s.written? e.1).map fun c => (e.1, c.prune e.2) := by
  induction ms with
  | nil => rfl
  | cons e r ih =>
      rw [pruneMembers_cons, List.filterMap_cons, ih]
      cases s.written? e.1 <;> rfl

theorem pruneItems_eq_map (i : Schema) (items : List Json) : i.pruneItems items = items.map i.prune := by
  induction items with
  | nil => rfl
  | cons j r ih => rw [pruneItems, ih, List.map_cons]

theorem prune_obj_of_isSome (h : s.props.isSome = true) (ms : Keyed Json) :
    s.prune (.obj ms) = .obj (s.pruneMembers ms) := by
  obtain ⟨ps, hps⟩ := Option.isSome_iff_exists.1 h
  rw [prune, hps]

theorem prune_obj_of_eq_none (h : s.props = none) (ms : Keyed Json) : s.prune (.obj ms) = .obj ms := by
  rw [prune, h]

theorem prune_arr_of_eq_some (h : s.item = some i) (items : List Json) :
    s.prune (.arr items) = .arr (items.map i.prune) := by
  rw [prune, h, ← pruneItems_eq_map]

theorem prune_arr_of_eq_none (h : s.item = none) (items : List Json) : s.prune (.arr items) = .arr items := by
  rw [prune, h]

/-- Induction on a value and the schema that it is pruned to. What pruning does not look into stays as it is, and
conforms; all else is an object for a schema with members or a list for one with an item. -/
@[elab_as_elim]
theorem prune_induction {P : Schema → Json → Prop} (left : ∀ s v, s.prune v = v → s.Conforms v → P s v)
    (obj : ∀ s ms, s.props.isSome = true → (∀ e ∈ ms, ∀ c, P c e.2) → P s (.obj ms))
    (arr : ∀ s i items, s.item = some i → (∀ j ∈ items, P i j) → P s (.arr items)) (s : Schema) (v : Json) :
    P s v := by
  induction v using Json.induction generalizing s with
  | obj ms ih =>
      cases hprops : s.props with
      | none => exact left _ _ (prune_obj_of_eq_none hprops ms) (conforms_obj.2 fun h => nomatch hprops ▸ h)
      | some ps => exact obj s ms (by rw [hprops]; rfl) ih
  | arr items ih =>
      cases hitem : s.item with
      | none =>
          exact left _ _ (prune_arr_of_eq_none hitem items) (conforms_arr.2 fun i h => nomatch hitem.symm.trans h)
      | some i => exact arr s i items hitem fun j hj => ih j hj i
  | null | bool | int | float | str => exact left _ _ rfl trivial

/-! ### What is left -/

/-- What is left conforms. -/
theorem conforms_prune (s : Schema) (v : Json) : s.Conforms (s.prune v) := by
  induction s, v using prune_induction with
  | left s v hkept hconforms => rwa [hkept]
  | obj s ms hprops ih =>
      rw [prune_obj_of_isSome hprops, conforms_obj, pruneMembers_eq_filterMap]
      intro _ e he
      obtain ⟨e', he', heq⟩ := List.mem_filterMap.1 he
      obtain ⟨c, hc, rfl⟩ := Option.map_eq_some_iff.1 heq
      exact ⟨c, hc, ih e' he' c⟩
  | arr s i items hitem ih =>
      rw [prune_arr_of_eq_some hitem, conforms_arr, hitem]
      rintro _ ⟨⟩ j hj
      obtain ⟨j', hj', rfl⟩ := List.mem_map.1 hj
      exact ih j' hj'

/-- A value that conforms is left alone. -/
theorem prune_of_conforms (h : s.Conforms v) : s.prune v = v := by
  induction s, v using prune_induction with
  | left s v hkept _ => exact hkept
  | obj s ms hprops ih =>
      have hkept : ∀ e ∈ ms, ((s.written? e.1).map fun c => (e.1, c.prune e.2)) = some e := by
        intro e he
        obtain ⟨c, hc, hconforms⟩ := conforms_obj.1 h hprops e he
        rw [hc, Option.map_some, ih e he c hconforms]
      rw [prune_obj_of_isSome hprops, pruneMembers_eq_filterMap, List.filterMap_congr hkept, List.filterMap_some]
  | arr s i items hitem ih =>
      have hkept : ∀ j ∈ items, i.prune j = j := fun j hj => ih j hj (conforms_arr.1 h i hitem j hj)
      rw [prune_arr_of_eq_some hitem, List.map_congr_left hkept, List.map_id']

/-- A value is left alone exactly if it conforms. -/
theorem prune_eq_self_iff : s.prune v = v ↔ s.Conforms v :=
  ⟨fun h => h ▸ conforms_prune s v, prune_of_conforms⟩

theorem membersRemainOf_pruneMembers (h : ∀ e ∈ ms, ∀ c : Schema, (c.prune e.2).RemainsOf e.2) :
    MembersRemainOf (s.pruneMembers ms) ms := by
  induction ms with
  | nil => exact .nil
  | cons e r ih =>
      have hr := ih fun e' he' => h e' (List.mem_cons_of_mem e he')
      rw [pruneMembers_cons]
      cases s.written? e.1 with
      | none => exact .drop hr
      | some c => exact .keep (h e List.mem_cons_self c) hr

theorem itemsRemainOf_map (h : ∀ j ∈ items, (i.prune j).RemainsOf j) : ItemsRemainOf (items.map i.prune) items := by
  induction items with
  | nil => exact .nil
  | cons j r ih =>
      exact .cons (h j List.mem_cons_self) (ih fun j' hj' => h j' (List.mem_cons_of_mem j hj'))

/-- What is left, is left of the value. -/
theorem remainsOf_prune (s : Schema) (v : Json) : (s.prune v).RemainsOf v := by
  induction s, v using prune_induction with
  | left s v hkept _ =>
      rw [hkept]
      exact .same v
  | obj s ms hprops ih =>
      rw [prune_obj_of_isSome hprops]
      exact .obj (membersRemainOf_pruneMembers ih)
  | arr s i items hitem ih =>
      rw [prune_arr_of_eq_some hitem]
      exact .arr (itemsRemainOf_map ih)

/-- **Pruning projects onto the values that conform.** What is left is not changed by pruning again, it conforms, and
it is the value without some members, the others in their order; it is the value itself exactly if that conforms. -/
theorem prune_projects (s : Schema) (v : Json) :
    s.prune (s.prune v) = s.prune v ∧ s.Conforms (s.prune v) ∧ (s.prune v).RemainsOf v ∧
      (s.prune v = v ↔ s.Conforms v) :=
  ⟨prune_of_conforms (conforms_prune s v), conforms_prune s v, remainsOf_prune s v, prune_eq_self_iff⟩

/-- Of objects in a list, one member is kept, one is not written, and one has no name in the schema. -/
example :
    let size : Schema := .node { type := "string", name := some "size" } none none none
    let id : Schema := .node { type := "string", name := some "id", readOnly := some true } none none none
    let thing : Schema := .node { type := "object" } (some [id, size]) none none
    let s : Schema := .node { type := "array<object>" } none (some thing) none
    s.prune (.arr [.obj [("id", .int 1), ("size", .str "x"), ("color", .null)], .int 2]) =
      .arr [.obj [("size", .str "x")], .int 2] := by rfl

/-! ### No more than needed -/

theorem membersRemainOf_of_conform (h : MembersRemainOf ms ms') (hms : s.MembersConform ms)
    (ih : ∀ e ∈ ms', ∀ (c : Schema) w, RemainsOf w e.2 → c.Conforms w → w.RemainsOf (c.prune e.2)) :
    MembersRemainOf ms (s.pruneMembers ms') := by
  induction ms' generalizing ms with
  | nil =>
      cases h
      exact .nil
  | cons e' r' hr' =>
      have hrest : ∀ e ∈ r', ∀ (c : Schema) w, RemainsOf w e.2 → c.Conforms w → w.RemainsOf (c.prune e.2) :=
        fun e he => ih e (List.mem_cons_of_mem e' he)
      rw [pruneMembers_cons]
      cases h with
      | keep hj hr =>
          obtain ⟨⟨c, hc, hconforms⟩, hmembers⟩ := hms
          rw [hc]
          exact .keep (ih _ List.mem_cons_self c _ hj hconforms) (hr' hr hmembers hrest)
      | drop hr =>
          -- the member is left out already, so it makes no difference whether it is pruned away
          cases s.written? e'.1 with
          | none => exact hr' hr hms hrest
          | some c => exact .drop (hr' hr hms hrest)

theorem itemsRemainOf_of_conform (h : ItemsRemainOf items items') (hitems : ∀ j ∈ items, i.Conforms j)
    (ih : ∀ j ∈ items', ∀ w, RemainsOf w j → i.Conforms w → w.RemainsOf (i.prune j)) :
    ItemsRemainOf items (items'.map i.prune) := by
  induction items' generalizing items with
  | nil =>
      cases h
      exact .nil
  | cons j' r' hr' =>
      cases h with
      | cons hj hr =>
          obtain ⟨hconforms, hrest⟩ := List.forall_mem_cons.1 hitems
          exact .cons (ih j' List.mem_cons_self _ hj hconforms)
            (hr' hr hrest fun j hj => ih j (List.mem_cons_of_mem j' hj))

/-- **No more than needed is taken out.** Whatever conforms and remains of the value remains of what is left. -/
theorem remainsOf_prune_of_conforms (h : w.RemainsOf v) (hw : s.Conforms w) : w.RemainsOf (s.prune v) := by
  induction s, v using prune_induction generalizing w with
  | left s v hkept _ => rwa [hkept]
  | obj s ms hprops ih =>
      cases h with
      | same =>
          rw [prune_of_conforms hw]
          exact .same _
      | obj hms =>
          rw [prune_obj_of_isSome hprops]
          exact .obj (membersRemainOf_of_conform hms (hw hprops) fun e he c _ h' hw' => ih e he c h' hw')
  | arr s i items hitem ih =>
      cases h with
      | same =>
          rw [prune_of_conforms hw]
          exact .same _
      | arr hitems =>
          rw [prune_arr_of_eq_some hitem]
          exact .arr (itemsRemainOf_of_conform hitems (conforms_arr.1 hw i hitem) fun j hj _ h' hw' => ih j hj h' hw')

end Schema

end Restline
