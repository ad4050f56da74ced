import Mathlib.Data.Fintype.EquivFin
import Restline.Proofs.BuiltMembers
import Restline.Proofs.PrunedValues

/-!
Parts of a value that a schema takes whole. An object node with an argument takes its value whole when a body is
built; pruning looks only at whether a node has members, and so it goes into such a node, as into a node of another
type, if there are members below it. What lies at a place in the pruned value is what pruning leaves of the part that
lay there, so a part that is taken whole is kept exactly if it conforms, and whatever it is exactly if there is
nothing below the node to conform to.

* `Json.Step`, `Json.at?` : places in a value.
* `Schema.Reaches`, `Schema.at?_prune_of_reaches` : **the parts of a value that pruning comes to, and what it leaves
  of them**.
* `Schema.writtenAt?`, `Schema.exists_reaches` : the nodes that pruning can come to.
* `Schema.Free`, `Schema.free_iff` : nodes that keep every value.
* `Schema.prune_keepsWhole_iff` : **when what is taken whole is kept, and when pruning goes only into what building
  makes of members**.
-/

set_option autoImplicit false

namespace Restline

/-! ### Places -/

/-- A step into a value: to the member of a name, or to the item at an index. -/
inductive Json.Step
  | name (key : String)
  | index (k : Nat)

/-- The value at a place. -/
def Json.at? : Json → List Json.Step → Option Json
  | j, [] => some j
  | .obj ms, .name key :: rest => (Keyed.get? ms key).bind fun j => j.at? rest
  | .arr items, .index k :: rest => items[k]?.bind fun j => j.at? rest
  | _, _ => none

namespace Schema

open Json (Step)

/-- Pruning comes to a node with a part of a value: it starts with the value at the schema, and goes on to the members
that clients write, each with the member of its name, and to the item with every item. -/
inductive Reaches : Schema → Json → List Step → Schema → Json → Prop
  | here {s : Schema} {v : Json} : Reaches s v [] s v
  | name {s c n : Schema} {ms : Keyed Json} {key : String} {j p : Json} {path : List Step}
      (hc : s.written? key = some c) (hj : ms.get? key = some j) (h : Reaches c j path n p) :
      Reaches s (.obj ms) (.name key :: path) n p
  | index {s i n : Schema} {items : List Json} {k : Nat} {j p : Json} {path : List Step}
      (hi : s.item = some i) (hj : items[k]? = some j) (h : Reaches i j path n p) :
      Reaches s (.arr items) (.index k :: path) n p

/-- The node that pruning uses at a place. -/
def writtenAt? : Schema → List Step → Option Schema
  | s, [] => some s
  | s, .name key :: rest => (s.written? key).bind fun c => c.writtenAt? rest
  | s, .index _ :: rest => s.item.bind fun i => i.writtenAt? rest

/-- The node is an object that takes its value whole from an argument. -/
def isWhole (s : Schema) : Bool := s.kind == .object && s.arg.isSome

/-- Building makes the node at a place of its members: at the root whatever its type is, elsewhere if it is an
object, and nowhere if it has an argument. -/
def isAssembledAt (path : List Step) (s : Schema) : Bool := s.isOpenRoot && (path.isEmpty || s.isOpen)

/-- Pruning keeps every part of the value that it comes to with a node that takes it whole. -/
def KeepsWhole (s : Schema) (v : Json) : Prop :=
  ∀ path n p, s.Reaches v path n p → n.isReadOnly = false → n.isWhole = true → (s.prune v).at? path = some p

/-- The nodes whose members pruning picks from an object in the value are made of their members when a body is
built. -/
def DescendsAsBuilt (s : Schema) (v : Json) : Prop :=
  ∀ path n ms, s.Reaches v path n (.obj ms) → n.props.isSome = true → n.isAssembledAt path = true

variable {s c i n : Schema} {v p : Json} {key : String} {path : List Step}

/-! ### What pruning comes to -/

theorem isSome_props_of_written? (h : s.written? key = some c) : s.props.isSome = true := by
  have hmem := mem_members_of_member? (written?_eq_some_iff.1 h).1
  cases hprops : s.props with
  | some ps => rfl
  | none =>
      rw [members, hprops] at hmem
      cases hmem

/-- Under a name that clients write lies what is left of the member. -/
theorem get?_pruneMembers (h : s.written? key = some c) (ms : Keyed Json) :
    Keyed.get? (s.pruneMembers ms) key = (Keyed.get? ms key).map c.prune := by
  induction ms with
  | nil => rfl
  | cons e r ih =>
      obtain ⟨k, j⟩ := e
      rw [pruneMembers_cons, Keyed.get?_cons]
      by_cases hk : k = key
      · subst hk
        simp [h, Keyed.get?_cons]
      · rw [if_neg hk, ← ih]
        cases s.written? k with
        | none => rfl
        | some c' => rw [Keyed.get?_cons, if_neg hk]

/-- **What pruning leaves of a part that it comes to** lies in the pruned value where the part lay. -/
theorem at?_prune_of_reaches (h : s.Reaches v path n p) : (s.prune v).at? path = some (n.prune p) := by
  induction h with
  | here => rw [Json.at?]
  | name hc hj _ ih =>
      rw [prune_obj_of_isSome (isSome_props_of_written? hc), Json.at?, get?_pruneMembers hc, hj, Option.map_some,
        Option.bind_some, ih]
  | index hi hj _ ih =>
      rw [prune_arr_of_eq_some hi, Json.at?, List.getElem?_map, hj, Option.map_some, Option.bind_some, ih]

theorem writtenAt?_of_reaches (h : s.Reaches v path n p) : s.writtenAt? path = some n := by
  induction h with
  | here => rw [writtenAt?]
  | name hc _ _ ih => rw [writtenAt?, hc, Option.bind_some, ih]
  | index hi _ _ ih => rw [writtenAt?, hi, Option.bind_some, ih]

/-- To a node that pruning uses it can come with any part of some value. -/
theorem exists_reaches (h : s.writtenAt? path = some n) (p : Json) : ∃ v, s.Reaches v path n p := by
  induction path generalizing s with
  | nil =>
      obtain rfl := Option.some_inj.1 h
      exact ⟨p, .here⟩
  | cons step rest ih =>
      cases step with
      | name key =>
          obtain ⟨c, hc, hn⟩ := Option.bind_eq_some_iff.1 h
          obtain ⟨v, hv⟩ := ih hn
          exact ⟨.obj [(key, v)], .name hc (by simp [Keyed.get?_cons]) hv⟩
      | index k =>
          obtain ⟨i, hi, hn⟩ := Option.bind_eq_some_iff.1 h
          obtain ⟨v, hv⟩ := ih hn
          -- a list that is long enough to have the item
          exact ⟨.arr (List.replicate (k + 1) v), .index hi (by simp) hv⟩

/-! ### Nodes that keep every value -/

/-- There are no members below the node, neither its own nor any of its items. -/
inductive Free : Schema → Prop
  | intro {s : Schema} (props : s.props = none) (item : ∀ i, s.item = some i → Free i) : Free s

theorem Free.prune_eq_self (h : s.Free) (p : Json) : s.prune p = p := by
  induction h generalizing p with
  | @intro s hprops _ ih =>
      cases p with
      | obj ms => exact prune_obj_of_eq_none hprops ms
      | arr items =>
          cases hitem : s.item with
          | none => exact prune_arr_of_eq_none hitem items
          | some i => rw [prune_arr_of_eq_some hitem, List.map_congr_left fun j _ => ih i hitem j, List.map_id']
      | null | bool | int | float | str => rfl

/-- Some name is that of no member. -/
theorem exists_member?_eq_none (s : Schema) : ∃ key, s.member? key = none := by
  obtain ⟨key, hkey⟩ := Infinite.exists_notMem_finset (s.members.filterMap name).toFinset
  refine ⟨key, List.find?_eq_none.2 fun c hc hname => hkey ?_⟩
  exact List.mem_toFinset.2 (List.mem_filterMap.2 ⟨c, hc, beq_iff_eq.1 hname⟩)

theorem props_eq_none_of_prune_eq_self (h : ∀ p, s.prune p = p) : s.props = none := by
  cases hprops : s.props with
  | none => rfl
  | some ps =>
      -- a member of an unknown name is taken out
      obtain ⟨key, hkey⟩ := exists_member?_eq_none s
      have hlost := h (.obj [(key, .null)])
      rw [prune_obj_of_isSome (by rw [hprops]; rfl), pruneMembers, hkey] at hlost
      cases hlost

/-- The item of a node that keeps every value keeps every value: it is the node's in a list of one. -/
theorem prune_item_eq_self (h : ∀ p, s.prune p = p) (hi : s.item = some i) (p : Json) : i.prune p = p := by
  have hlist := h (.arr [p])
  rw [prune_arr_of_eq_some hi] at hlist
  exact (List.cons.inj (Json.arr.inj hlist)).1

theorem sizeOf_lt_of_item (h : s.item = some i) : sizeOf i < sizeOf s := by
  obtain ⟨a, ps, item, x⟩ := s
  obtain rfl : item = some i := h
  simp only [node.sizeOf_spec, Option.some.sizeOf_spec]
  omega

theorem free_of_prune_eq_self (s : Schema) (h : ∀ p, s.prune p = p) : s.Free :=
  .intro (props_eq_none_of_prune_eq_self h) fun i hi => free_of_prune_eq_self i (prune_item_eq_self h hi)
termination_by sizeOf s
decreasing_by exact sizeOf_lt_of_item hi

/-- Nodes that keep every value are those without members below them. -/
theorem free_iff : s.Free ↔ ∀ p, s.prune p = p := ⟨Free.prune_eq_self, free_of_prune_eq_self s⟩

/-! ### What is taken whole -/

/-- A part that pruning comes to is kept exactly if it conforms. -/
theorem at?_prune_eq_some_iff (h : s.Reaches v path n p) : (s.prune v).at? path = some p ↔ n.Conforms p := by
  rw [at?_prune_of_reaches h, Option.some_inj, prune_eq_self_iff]

theorem forall_keepsWhole_iff :
    (∀ v, s.KeepsWhole v) ↔
      ∀ path n, s.writtenAt? path = some n → n.isReadOnly = false → n.isWhole = true → n.Free := by
  constructor
  · intro h path n hn hwritten hwhole
    refine free_iff.2 fun p => ?_
    obtain ⟨v, hv⟩ := exists_reaches hn p
    exact prune_eq_self_iff.2 ((at?_prune_eq_some_iff hv).1 (h v path n p hv hwritten hwhole))
  · intro h v path n p hv hwritten hwhole
    rw [at?_prune_of_reaches hv, (h path n (writtenAt?_of_reaches hv) hwritten hwhole).prune_eq_self]

theorem forall_descendsAsBuilt_iff :
    (∀ v, s.DescendsAsBuilt v) ↔
      ∀ path n, s.writtenAt? path = some n → n.props.isSome = true → n.isAssembledAt path = true := by
  constructor
  · intro h path n hn hprops
    obtain ⟨v, hv⟩ := exists_reaches hn (.obj [])
    exact h v path n [] hv hprops
  · intro h v path n ms hv hprops
    exact h path n (writtenAt?_of_reaches hv) hprops

/-- **When what is taken whole is kept.** In a given value, the parts that are taken whole are kept exactly if they
conform. They are kept in every value exactly if no node that pruning uses and that takes its value whole has members
below it, and in every value pruning goes only into what building makes of members exactly if this holds of all nodes
with members that pruning uses. -/
theorem prune_keepsWhole_iff (s : Schema) :
    (∀ v, s.KeepsWhole v ↔
        ∀ path n p, s.Reaches v path n p → n.isReadOnly = false → n.isWhole = true → n.Conforms p) ∧
      ((∀ v, s.KeepsWhole v) ↔
        ∀ path n, s.writtenAt? path = some n → n.isReadOnly = false → n.isWhole = true → n.Free) ∧
      ((∀ v, s.DescendsAsBuilt v) ↔
        ∀ path n, s.writtenAt? path = some n → n.props.isSome = true → n.isAssembledAt path = true) := by
  refine ⟨fun v => ?_, forall_keepsWhole_iff, forall_descendsAsBuilt_iff⟩
  exact forall₄_congr fun path n p hv => imp_congr_right fun _ => imp_congr_right fun _ => at?_prune_eq_some_iff hv

/-! ### An object with an argument and members -/

/-- An identity, which is taken whole from an argument, though it has a member as well. -/
def identityNode : Schema :=
  .node { type := "object", name := some "identity", arg := some "$identity" }
    (some [.node { type := "string", name := some "type", arg := some "$identity.type" } none none none]) none none

/-- An object with an identity. -/
def identified : Schema := .node { type := "object" } (some [identityNode]) none none

/-- The schema of a document that is read, and a body that building makes of an argument: pruning takes a member out
of what the argument gave, and it goes into a node that building does not make of members. -/
theorem exists_not_keepsWhole :
    ∃ j c o s b v, Command.ofJson j = .valid c ∧ o ∈ c.operations ∧ o.bodySchema = some s ∧
      s.body b = .ok (some v) ∧ v = .obj [("identity", .obj [("tenant", .str "t")])] ∧
      s.prune v = .obj [("identity", .obj [])] ∧ ¬ s.KeepsWhole v ∧ ¬ s.DescendsAsBuilt v := by
  have hread : Command.ofJson (Command.bodyDocument identified.toJson) =
      .valid { operations := [Command.bodyOperation identified] } :=
    Command.ofJson_eq_valid_iff.2 ⟨by rfl, by decide +kernel⟩
  have hbody : identified.body [("$identity", .raw "\x7b\"tenant\":\"t\"\x7d")] =
      .ok (some (.obj [("identity", .obj [("tenant", .str "t")])])) := by cbv
  have hpruned : identified.prune (.obj [("identity", .obj [("tenant", .str "t")])]) =
      .obj [("identity", .obj [])] := by rfl
  have hreaches : identified.Reaches (.obj [("identity", .obj [("tenant", .str "t")])]) [.name "identity"]
      identityNode (.obj [("tenant", .str "t")]) := .name (by rfl) (by rfl) .here
  refine ⟨_, _, _, identified, _, _, hread, List.mem_cons_self, rfl, hbody, rfl, hpruned, fun hkeeps => ?_,
    fun hbuilt => ?_⟩
  · have hkept := hkeeps _ _ _ hreaches (by rfl) (by rfl)
    rw [hpruned] at hkept
    cases hkept
  · have hassembled := hbuilt _ _ _ hreaches (by rfl)
    cases hassembled

end Schema

end Restline
