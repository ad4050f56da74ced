import Restline.CommandLine.Rendered
import Restline.Proofs.BuiltMembers

/-!
Looking up a node of a schema, and its value in a body. Where no two members of a node share a name, a path of names
leads to a node in the schema and, in every body of the schema, to what the bound arguments give this node alone; if
they give it nothing, the path leads nowhere.

* `Json.follow_obj` : one step into an object.
* `Schema.Gives` : the bound arguments give a node a value.
* `Schema.isSome_iff_gives` : when a node has a value.
* `Schema.follow_of_at?` : below a node a path leads to the value of the node at its end.
* `Operation.follow_body_of_schemaAt` : **a path leads to the value of the node that is looked up**.
-/

set_option autoImplicit false

namespace Restline

/-! ### One step -/

/-- What lies at the end of a path behind a value, if there is a value. -/
def Json.followFrom? (v : Option Json) (path : List String) : Except RenderFault (Option Json) :=
  v.elim (.ok none) fun j => j.follow path

theorem Json.followFrom?_nil (v : Option Json) : followFrom? v [] = .ok v := by
  cases v <;> rfl

theorem Json.follow_obj (ms : Keyed Json) (key : String) (rest : List String) :
    (Json.obj ms).follow (key :: rest) = followFrom? (ms.get? key) rest := by
  rw [follow, followFrom?]
  cases Keyed.get? ms key <;> rfl

namespace Schema

variable {b : Bound} {s n : Schema} {v : Option Json} {key : String} {path : List String}

theorem isOpen_iff : s.isOpen = true ↔ s.kind = .object ∧ s.arg = none := by
  simp [isOpen]

theorem at?_cons_eq_some_iff :
    s.at? (key :: path) = some n ↔ s.isOpen = true ∧ ∃ c, s.member? key = some c ∧ c.at? path = some n := by
  rw [at?]
  split
  · rename_i hopen
    simp [hopen, Option.bind_eq_some_iff]
  · rename_i hopen
    exact iff_of_false (fun h => nomatch h) fun h => hopen h.1

/-- An object that is left out and one without members have nothing at the end of a path. -/
theorem followFrom?_objectOf (ms : List (String × Json)) :
    Json.followFrom? (objectOf ms) (key :: path) = Json.followFrom? ((Keyed.ofPairs ms).get? key) path := by
  rw [objectOf]
  split
  · rename_i hempty
    obtain rfl := List.isEmpty_iff.1 hempty
    rfl
  · exact Json.follow_obj _ key path

/-! ### Nodes that have a value -/

/-- The bound arguments give the node a value: its argument is bound, or it is an object without an argument and
they give a member of it one. -/
inductive Gives (b : Bound) : Schema → Prop
  | bound {s : Schema} {arg : String} (harg : s.arg = some arg) (hb : b.has arg = true) : Gives b s
  | member {s c : Schema} (harg : s.arg = none) (hkind : s.kind = .object) (hc : c ∈ s.members)
      (h : Gives b c) : Gives b s

theorem gives_iff_of_arg {arg : String} (harg : s.arg = some arg) : s.Gives b ↔ b.has arg = true := by
  constructor
  · intro h
    cases h with
    | bound harg' hb => rwa [← Option.some_inj.1 (harg'.symm.trans harg)]
    | member harg' _ _ _ => cases harg'.symm.trans harg
  · exact .bound harg

theorem gives_iff_of_isOpen (hopen : s.isOpen = true) : s.Gives b ↔ ∃ c ∈ s.members, c.Gives b := by
  obtain ⟨hkind, harg⟩ := isOpen_iff.1 hopen
  constructor
  · intro h
    cases h with
    | bound harg' _ => cases harg'.symm.trans harg
    | member _ _ hc h => exact ⟨_, hc, h⟩
  · rintro ⟨c, hc, h⟩
    exact .member harg hkind hc h

/-- An object has entries exactly if some member has a value. -/
theorem entries_ne_nil_iff (hall : s.MembersBuild b) :
    s.entries b ≠ [] ↔ ∃ c ∈ s.members, (c.value? b).isSome = true := by
  have hpair : ∀ c ∈ s.members, pair? b c ≠ none ↔ (c.value? b).isSome = true := by
    intro c hc
    obtain ⟨key, hname⟩ := Option.isSome_iff_exists.1 (hall c hc).1
    rw [pair?, hname, Option.bind_some, Option.ne_none_iff_isSome, Option.isSome_map]
  simp only [entries, ne_eq, List.filterMap_eq_nil_iff, not_forall, exists_prop]
  exact exists_congr fun c => and_congr_right (hpair c)

/-- **When a node has a value.** -/
theorem isSome_iff_gives (h : build b s = .ok v) : v.isSome = true ↔ s.Gives b := by
  induction s using member_induction generalizing v with
  | step s ih =>
      cases harg : s.arg with
      | some arg =>
          rw [gives_iff_of_arg harg, Keyed.has]
          rw [build_of_arg harg, argValue] at h
          cases hget : b.get? arg with
          | none =>
              rw [hget] at h
              obtain rfl := Except.ok.inj h
              rfl
          | some w =>
              rw [hget] at h
              obtain ⟨j, -, rfl⟩ := Except.map_eq_ok_iff.1 h
              rfl
      | none =>
          obtain ⟨hkind, -, hall, rfl⟩ := (build_eq_ok_iff harg).1 h
          have hmember : ∀ c ∈ s.members, (c.value? b).isSome = true ↔ c.Gives b := by
            intro c hc
            obtain ⟨-, u, hu⟩ := hall c hc
            rw [value?_of_build hu]
            exact ih c hc hu
          have hsome : (objectOf (s.entries b)).isSome = true ↔ s.entries b ≠ [] := by
            simp [Option.isSome_iff_exists, objectOf_eq_some_iff]
          rw [hsome, entries_ne_nil_iff hall, gives_iff_of_isOpen (isOpen_iff.2 ⟨hkind, harg⟩)]
          exact exists_congr fun c => and_congr_right (hmember c)

/-! ### Paths -/

/-- Into a member that is looked up a path goes on from the member's value. -/
theorem followFrom?_entries (hs : s.NamesApart) {c : Schema} {u : Option Json} (hc : s.member? key = some c)
    (hu : build b c = .ok u) :
    Json.followFrom? ((Keyed.ofPairs (s.entries b)).get? key) path = Json.followFrom? u path := by
  rw [get?_ofPairs_entries_of_nodup hs.nodup, hc, Option.bind_some, value?_of_build hu]

/-- Below a node a path leads to the value of the node at its end. -/
theorem follow_of_at? (hs : s.NamesApart) (hv : build b s = .ok v) (hn : s.at? path = some n) :
    ∃ w, build b n = .ok w ∧ Json.followFrom? v path = .ok w := by
  induction path generalizing s v with
  | nil =>
      obtain rfl := Option.some_inj.1 hn
      exact ⟨v, hv, Json.followFrom?_nil v⟩
  | cons key rest ih =>
      obtain ⟨hopen, c, hc, hn⟩ := at?_cons_eq_some_iff.1 hn
      obtain ⟨-, -, hall, rfl⟩ := (build_eq_ok_iff (isOpen_iff.1 hopen).2).1 hv
      obtain ⟨-, u, hu⟩ := hall c (mem_members_of_member? hc)
      rw [followFrom?_objectOf, followFrom?_entries hs hc hu]
      exact ih (hs.of_mem_members (mem_members_of_member? hc)) hu hn

/-- A node that has a value has it as a body too; null counts as no body. -/
theorem body_of_build {w : Json} (h : build b s = .ok (some w)) : s.body b = .ok w.nonNull? := by
  cases harg : s.arg with
  | some arg =>
      rw [build_of_arg harg] at h
      rw [body_of_arg harg, h]
      rfl
  | none =>
      obtain ⟨-, hprops, hall, hw⟩ := (build_eq_ok_iff harg).1 h
      obtain ⟨-, rfl⟩ := objectOf_eq_some_iff.1 hw.symm
      exact (body_eq_ok_iff harg).2 ⟨hprops, hall, rfl⟩

end Schema

namespace Operation

variable {o : Operation} {s n : Schema} {b : Bound} {body : Option Json} {path : List String}

/-- **A path leads to the value of the node that is looked up.** In the body of an operation, in whose schema no two
members of a node share a name, a path to a node leads to what the bound arguments give this node alone, and it leads
to something exactly if they give it a value. -/
theorem follow_body_of_schemaAt (hschema : o.bodySchema = some s) (hs : s.NamesApart) (hbody : s.body b = .ok body)
    (hpath : path ≠ []) (hn : o.schemaAt path = some n) :
    ∃ j v, body = some j ∧ j.follow path = .ok v ∧ (v.isSome = true ↔ n.Gives b) ∧ n.build b = .ok v ∧
      ∀ w, v = some w → n.body b = .ok w.nonNull? := by
  rw [schemaAt, hschema, Option.bind_some] at hn
  cases path with
  | nil => exact absurd rfl hpath
  | cons key rest =>
      obtain ⟨hopen, c, hc, hn⟩ := Schema.at?_cons_eq_some_iff.1 hn
      obtain ⟨-, hall, rfl⟩ := (Schema.body_eq_ok_iff (Schema.isOpen_iff.1 hopen).2).1 hbody
      obtain ⟨-, u, hu⟩ := hall c (Schema.mem_members_of_member? hc)
      obtain ⟨v, hv, hfollow⟩ := Schema.follow_of_at? (hs.of_mem_members (Schema.mem_members_of_member? hc)) hu hn
      refine ⟨_, v, rfl, ?_, Schema.isSome_iff_gives hv, hv, fun w hw => Schema.body_of_build (hw ▸ hv)⟩
      rw [Json.follow_obj, Schema.followFrom?_entries hs hc hu, hfollow]

/-- With a size and without tags, the path to the size leads to it, and the path to the tags nowhere. -/
theorem follow_body_of_schemaAt_sized :
    let o := Command.bodyOperation Command.sized
    let b : Bound := [("$size", .text "x")]
    let body : Json := .obj [("properties", .obj [("size", .str "x")])]
    Command.sized.NamesApart ∧ Command.sized.body b = .ok (some body) ∧
      (∃ n, o.schemaAt ["properties", "size"] = some n ∧ body.follow ["properties", "size"] = .ok (some (.str "x")) ∧
        n.Gives b ∧ n.build b = .ok (some (.str "x"))) ∧
      ∃ n, o.schemaAt ["tags"] = some n ∧ body.follow ["tags"] = .ok none ∧ ¬ n.Gives b := by
  intro o b body
  have hs : Command.sized.NamesApart := by decide +kernel
  have hbody : Command.sized.body b = .ok (some body) := by with_unfolding_all rfl
  have hsize : o.schemaAt ["properties", "size"] =
      some (.node { type := "string", name := some "size", arg := some "$size" } none none none) := by rfl
  have htags : o.schemaAt ["tags"] =
      some (.node { type := "object", name := some "tags", arg := some "$tags" } none none none) := by rfl
  refine ⟨hs, hbody, ⟨_, hsize, ?_⟩, ⟨_, htags, ?_⟩⟩
  · obtain ⟨j, v, hj, hfollow, hgives, hbuild, -⟩ :=
      follow_body_of_schemaAt rfl hs hbody (List.cons_ne_nil _ _) hsize
    obtain rfl := Option.some_inj.1 hj
    have hfound : body.follow ["properties", "size"] = .ok (some (.str "x")) := rfl
    obtain rfl := Except.ok.inj (hfound.symm.trans hfollow)
    exact ⟨hfound, hgives.1 rfl, hbuild⟩
  · obtain ⟨j, v, hj, hfollow, hgives, -⟩ :=
      follow_body_of_schemaAt rfl hs hbody (List.cons_ne_nil _ _) htags
    obtain rfl := Option.some_inj.1 hj
    have hlost : body.follow ["tags"] = .ok none := rfl
    obtain rfl := Except.ok.inj (hlost.symm.trans hfollow)
    exact ⟨hlost, fun h => Bool.false_ne_true (hgives.2 h)⟩

end Operation

end Restline
