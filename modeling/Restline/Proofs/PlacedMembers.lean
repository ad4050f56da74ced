import Mathlib.Data.List.Induction
import Restline.Proofs.FoundMembers

/-!
The members that a body is assembled from, looked up in its schema. A member that building puts into a body is found
in the schema by its path, unless the root, which building takes for an object whenever it has members, is of another
type, or a member of the same name stands before the one that has the value and has other members below it.

* `Schema.Places` : the node that puts a member at a path of the body.
* `Schema.follow_of_places`, `Schema.places_of_follow` : **what lies in a body**, put there by a node or inside of what
  a node takes whole.
* `Schema.Hides` : look-up comes to another member of the same name.
* `Operation.schemaAt_isSome_iff` : **when all that a body is assembled from is found in the schema**.
-/

set_option autoImplicit false

namespace Restline.Schema

variable {b : Bound} {s n c m : Schema} {v : Option Json} {key : String} {path : List String}

/-! ### Members of a body -/

/-- The node that puts a member at a path of names, when an object is assembled from its members: the member of the
first name that has the value, or below it, if that is assembled as well, the one at the rest of the path. -/
inductive Places (b : Bound) : Schema → List String → Schema → Prop
  | member {s c : Schema} {key : String} (harg : s.arg = none) (hc : s.giver? b key = some c) : Places b s [key] c
  | deeper {s c n : Schema} {key : String} {path : List String} (harg : s.arg = none)
      (hc : s.giver? b key = some c) (h : Places b c path n) : Places b s (key :: path) n

theorem Places.arg_eq_none (h : s.Places b path n) : s.arg = none := by
  cases h <;> assumption

theorem Places.ne_nil (h : s.Places b path n) : path ≠ [] := by
  cases h <;> exact List.cons_ne_nil _ _

theorem places_cons_iff :
    s.Places b (key :: path) n ↔
      s.arg = none ∧ ∃ c, s.giver? b key = some c ∧ ((path = [] ∧ c = n) ∨ c.Places b path n) := by
  constructor
  · intro h
    cases h with
    | member harg hc => exact ⟨harg, n, hc, .inl ⟨rfl, rfl⟩⟩
    | deeper harg hc h => exact ⟨harg, _, hc, .inr h⟩
  · rintro ⟨harg, c, hc, ⟨rfl, rfl⟩ | h⟩
    · exact .member harg hc
    · exact .deeper harg hc h

theorem Places.trans {front back : List String} (h : s.Places b front m) (h' : m.Places b back n) :
    s.Places b (front ++ back) n := by
  induction h with
  | member harg hc => exact .deeper harg hc h'
  | deeper harg hc _ ih => exact .deeper harg hc (ih h')

/-- A path to a member leads through the objects around it. -/
theorem exists_places_of_append {front back : List String} (hfront : front ≠ []) (hback : back ≠ [])
    (h : s.Places b (front ++ back) n) : ∃ m, s.Places b front m ∧ m.Places b back n := by
  induction front generalizing s with
  | nil => exact absurd rfl hfront
  | cons key rest ih =>
      obtain ⟨harg, c, hc, ⟨hnil, -⟩ | h⟩ := places_cons_iff.1 h
      · exact absurd (List.append_eq_nil_iff.1 hnil).2 hback
      · cases rest with
        | nil => exact ⟨c, .member harg hc, h⟩
        | cons key' rest =>
            obtain ⟨m, hm, hn⟩ := ih (List.cons_ne_nil _ _) h
            exact ⟨m, .deeper harg hc hm, hn⟩

/-! ### What lies in a body -/

/-- A member that gives a value can be built, and has that value. -/
theorem build_of_giver? (hall : s.MembersBuild b) (hc : s.giver? b key = some c) :
    ∃ w, build b c = .ok (some w) := by
  obtain ⟨hmem, -, hvalue⟩ := giver?_eq_some hc
  obtain ⟨-, v, hv⟩ := hall c hmem
  rw [value?_of_build hv] at hvalue
  obtain ⟨w, rfl⟩ := Option.isSome_iff_exists.1 hvalue
  exact ⟨w, hv⟩

/-- An object that has a value has the entries of its members. -/
theorem eq_obj_of_build (harg : s.arg = none) {w : Json} (h : build b s = .ok (some w)) :
    s.isOpen = true ∧ s.MembersBuild b ∧ w = .obj (Keyed.ofPairs (s.entries b)) := by
  obtain ⟨hkind, -, hall, hw⟩ := (build_eq_ok_iff harg).1 h
  exact ⟨isOpen_iff.2 ⟨hkind, harg⟩, hall, (objectOf_eq_some_iff.1 hw.symm).2⟩

theorem follow_entries :
    (Json.obj (Keyed.ofPairs (s.entries b))).follow (key :: path) =
      Json.followFrom? ((s.giver? b key).bind (value? b)) path := by
  rw [Json.follow_obj, get?_ofPairs_entries]

/-- **What a node puts into a body lies there**, with the value of the node. -/
theorem follow_of_places (hall : s.MembersBuild b) (h : s.Places b path n) :
    ∃ w, build b n = .ok (some w) ∧ (Json.obj (Keyed.ofPairs (s.entries b))).follow path = .ok (some w) := by
  induction h with
  | member harg hc =>
      obtain ⟨w, hw⟩ := build_of_giver? hall hc
      refine ⟨w, hw, ?_⟩
      rw [follow_entries, hc, Option.bind_some, value?_of_build hw, Json.followFrom?_nil]
  | deeper harg hc h ih =>
      obtain ⟨w, hw⟩ := build_of_giver? hall hc
      obtain ⟨-, hmembers, rfl⟩ := eq_obj_of_build h.arg_eq_none hw
      obtain ⟨w', hn, hfollow⟩ := ih hmembers
      refine ⟨w', hn, ?_⟩
      rw [follow_entries, hc, Option.bind_some, value?_of_build hw]
      exact hfollow

/-- **What lies in a body was put there by a node**, or lies inside of a value that a node takes whole. -/
theorem places_of_follow (harg : s.arg = none) (hall : s.MembersBuild b) (hpath : path ≠ []) {w : Json}
    (h : (Json.obj (Keyed.ofPairs (s.entries b))).follow path = .ok (some w)) :
    (∃ n, s.Places b path n) ∨ ∃ front back n u, path = front ++ back ∧ back ≠ [] ∧ s.Places b front n ∧
      n.arg.isSome = true ∧ build b n = .ok (some u) ∧ u.follow back = .ok (some w) := by
  induction path generalizing s with
  | nil => exact absurd rfl hpath
  | cons key rest ih =>
      rw [follow_entries] at h
      cases hc : s.giver? b key with
      | none =>
          rw [hc] at h
          cases h
      | some c =>
          obtain ⟨u, hu⟩ := build_of_giver? hall hc
          rw [hc, Option.bind_some, value?_of_build hu] at h
          cases rest with
          | nil => exact .inl ⟨c, .member harg hc⟩
          | cons key' rest =>
              cases hcarg : c.arg with
              | some arg =>
                  exact .inr ⟨[key], key' :: rest, c, u, rfl, List.cons_ne_nil _ _, .member harg hc,
                    by rw [hcarg]; rfl, hu, h⟩
              | none =>
                  obtain ⟨-, hmembers, rfl⟩ := eq_obj_of_build hcarg hu
                  rcases ih hcarg hmembers (List.cons_ne_nil _ _) h with
                    ⟨n, hn⟩ | ⟨front, back, n, u, heq, hback, hn, hwhole⟩
                  · exact .inl ⟨n, .deeper harg hc hn⟩
                  · exact .inr ⟨key :: front, back, n, u, by rw [heq, List.cons_append], hback,
                      .deeper harg hc hn, hwhole⟩

/-! ### Look-up -/

theorem at?_append (s : Schema) (front back : List String) :
    s.at? (front ++ back) = (s.at? front).bind fun n => n.at? back := by
  induction front generalizing s with
  | nil => rfl
  | cons key rest ih =>
      rw [List.cons_append, at?, at?]
      split
      · rw [Option.bind_assoc]
        exact congrArg _ (funext fun c => ih c)
      · rfl

/-- In an object that is open, a name of an entry is the name of a member. -/
theorem isSome_at?_of_giver? (hopen : s.isOpen = true) (hc : s.giver? b key = some c) :
    (s.at? [key]).isSome = true := by
  obtain ⟨hmem, hname, -⟩ := giver?_eq_some hc
  cases hm : s.member? key with
  | none => exact absurd (beq_iff_eq.2 hname) (List.find?_eq_none.1 hm c hmem)
  | some m => rw [at?_cons_eq_some_iff.2 ⟨hopen, m, hm, rfl⟩, Option.isSome_some]

/-- Look-up comes to another member of the same name: at some path it finds not the node that puts the value there,
but one that has no member where that node puts one. -/
def Hides (b : Bound) (s : Schema) : Prop :=
  ∃ path key n m c, s.Places b path n ∧ n.Places b [key] c ∧ s.at? path = some m ∧ m ≠ n ∧ m.at? [key] = none

/-- Where no two members share a name, look-up comes to the node that puts the value there. -/
theorem eq_of_places_of_at? (hs : s.NamesApart) (h : s.Places b path n) (hm : s.at? path = some m) : m = n := by
  induction h with
  | @member s c key harg hc =>
      obtain ⟨hmem, hname, -⟩ := giver?_eq_some hc
      obtain ⟨-, c', hc', hm⟩ := at?_cons_eq_some_iff.1 hm
      rw [member?_of_mem hs.nodup hmem hname] at hc'
      exact (Option.some_inj.1 hm).symm.trans (Option.some_inj.1 hc').symm
  | @deeper s c n key path harg hc h ih =>
      obtain ⟨hmem, hname, -⟩ := giver?_eq_some hc
      obtain ⟨-, c', hc', hm⟩ := at?_cons_eq_some_iff.1 hm
      rw [member?_of_mem hs.nodup hmem hname] at hc'
      obtain rfl := Option.some_inj.1 hc'
      exact ih (hs.of_mem_members hmem) hm

theorem not_hides_of_namesApart (hs : s.NamesApart) : ¬ s.Hides b := by
  rintro ⟨path, key, n, m, c, hn, -, hm, hne, -⟩
  exact hne (eq_of_places_of_at? hs hn hm)

/-- From an open root look-up finds whatever building puts into the body, unless it comes to another member of the
same name. -/
theorem isSome_at?_of_places (hopen : s.isOpen = true) (hall : s.MembersBuild b) (hides : ¬ s.Hides b)
    (h : s.Places b path n) : (s.at? path).isSome = true := by
  induction path using List.reverseRecOn generalizing n with
  | nil => exact absurd rfl h.ne_nil
  | append_singleton front key ih =>
      by_cases hfront : front = []
      · subst hfront
        obtain ⟨-, c, hc, -⟩ := places_cons_iff.1 h
        exact isSome_at?_of_giver? hopen hc
      · obtain ⟨k, hk, hn⟩ := exists_places_of_append hfront (List.cons_ne_nil _ _) h
        obtain ⟨m, hm⟩ := Option.isSome_iff_exists.1 (ih hk)
        rw [at?_append, hm, Option.bind_some]
        by_cases hmk : m = k
        · -- the node that is found put the object there, so it has the member
          subst hmk
          obtain ⟨w, hw, -⟩ := follow_of_places hall hk
          obtain ⟨-, c, hc, -⟩ := places_cons_iff.1 hn
          exact isSome_at?_of_giver? (eq_obj_of_build hn.arg_eq_none hw).1 hc
        · rw [← Option.ne_none_iff_isSome]
          exact fun hnone => hides ⟨front, key, k, m, n, hk, hn, hm, hmk, hnone⟩

/-! ### The root -/

/-- Of an object with entries some member gives one. -/
theorem exists_giver?_of_ne_nil (hne : Keyed.ofPairs (s.entries b) ≠ []) :
    ∃ key c, s.giver? b key = some c := by
  obtain ⟨e, r, hms⟩ := List.exists_cons_of_ne_nil hne
  have hget : (Keyed.ofPairs (s.entries b)).get? e.1 = some e.2 := by
    rw [hms, Keyed.get?_cons, if_pos rfl]
  rw [get?_ofPairs_entries] at hget
  obtain ⟨c, hc, -⟩ := Option.bind_eq_some_iff.1 hget
  exact ⟨e.1, c, hc⟩

/-- If all that is put into a body is found, the root can be descended into, unless nothing is put there. -/
theorem root_of_found (hbody : s.body b = .ok v) (hfound : ∀ path n, s.Places b path n → (s.at? path).isSome = true) :
    s.kind = .object ∨ s.arg.isSome = true ∨ v = some (.obj []) := by
  cases harg : s.arg with
  | some arg => exact .inr (.inl rfl)
  | none =>
      obtain ⟨-, -, rfl⟩ := (body_eq_ok_iff harg).1 hbody
      by_cases hms : Keyed.ofPairs (s.entries b) = []
      · rw [hms]
        exact .inr (.inr rfl)
      · obtain ⟨key, c, hc⟩ := exists_giver?_of_ne_nil hms
        obtain ⟨m, hm⟩ := Option.isSome_iff_exists.1 (hfound _ _ (.member harg hc))
        exact .inl (isOpen_iff.1 (at?_cons_eq_some_iff.1 hm).1).1

theorem not_hides_of_found (hfound : ∀ path n, s.Places b path n → (s.at? path).isSome = true) : ¬ s.Hides b := by
  rintro ⟨path, key, n, m, c, hn, hc, hm, -, hnone⟩
  have hsome := hfound _ _ (hn.trans hc)
  rw [at?_append, hm, Option.bind_some, hnone] at hsome
  cases hsome

/-- A member is put only into a body that is not empty, by a root without an argument. -/
theorem isOpen_of_places (hbody : s.body b = .ok v)
    (hroot : s.kind = .object ∨ s.arg.isSome = true ∨ v = some (.obj [])) (h : s.Places b path n) :
    s.isOpen = true := by
  have harg := h.arg_eq_none
  refine isOpen_iff.2 ⟨?_, harg⟩
  rcases hroot with hkind | hwhole | hempty
  · exact hkind
  · rw [harg] at hwhole
    cases hwhole
  · obtain ⟨-, hall, rfl⟩ := (body_eq_ok_iff harg).1 hbody
    obtain ⟨w, -, hfollow⟩ := follow_of_places hall h
    rw [Json.obj.inj (Option.some_inj.1 hempty)] at hfollow
    cases path with
    | nil => exact absurd rfl h.ne_nil
    | cons key rest => cases hfollow

end Restline.Schema

namespace Restline.Operation

variable {o : Operation} {s : Schema} {b : Bound} {body : Option Json}

/-- **When all that a body is assembled from is found in the schema.** Every member that building puts into a body is
found by its path exactly if the root is an object, or takes its value from an argument, or has no member in the
body, and look-up comes to no other member of the same name; where no two members share a name, it comes to none. -/
theorem schemaAt_isSome_iff (hschema : o.bodySchema = some s) (hbody : s.body b = .ok body) :
    ((∀ path n, s.Places b path n → (o.schemaAt path).isSome = true) ↔
        (s.kind = .object ∨ s.arg.isSome = true ∨ body = some (.obj [])) ∧ ¬ s.Hides b) ∧
      (s.NamesApart → ¬ s.Hides b) := by
  refine ⟨?_, Schema.not_hides_of_namesApart⟩
  have hat : ∀ path, o.schemaAt path = s.at? path := fun path => by rw [schemaAt, hschema, Option.bind_some]
  simp only [hat]
  constructor
  · intro hfound
    exact ⟨Schema.root_of_found hbody hfound, Schema.not_hides_of_found hfound⟩
  · rintro ⟨hroot, hides⟩ path n h
    obtain ⟨-, hall, -⟩ := (Schema.body_eq_ok_iff h.arg_eq_none).1 hbody
    exact Schema.isSome_at?_of_places (Schema.isOpen_of_places hbody hroot h) hall hides h

/-- The size that is put into an object in the body is found. -/
theorem schemaAt_isSome_of_sized :
    let o := Command.bodyOperation Command.sized
    let b : Bound := [("$size", .text "x")]
    let size : Schema := .node { type := "string", name := some "size", arg := some "$size" } none none none
    Command.sized.body b = .ok (some (.obj [("properties", .obj [("size", .str "x")])])) ∧
      Command.sized.Places b ["properties", "size"] size ∧
      ∀ path n, Command.sized.Places b path n → (o.schemaAt path).isSome = true := by
  intro o b size
  have hbody : Command.sized.body b = .ok (some (.obj [("properties", .obj [("size", .str "x")])])) := by
    with_unfolding_all rfl
  have hplaces : Command.sized.Places b ["properties", "size"] size :=
    .deeper rfl (c := .node { type := "object", name := some "properties" } (some [size]) none none)
      (by with_unfolding_all rfl) (.member rfl (by with_unfolding_all rfl))
  obtain ⟨hiff, hides⟩ := schemaAt_isSome_iff (o := o) rfl hbody
  exact ⟨hbody, hplaces, hiff.2 ⟨.inl (by decide), hides (by decide +kernel)⟩⟩

/-! ### A root of another type, and a name that comes twice -/

/-- The member for a size. -/
def sizeNode : Schema := .node { type := "string", name := some "size", arg := some "$size" } none none none

/-- The member for a width. -/
def widthNode : Schema := .node { type := "string", name := some "width", arg := some "$width" } none none none

/-- An object with a width, which has the name of the size. -/
def extentNode : Schema := .node { type := "object", name := some "size" } (some [widthNode]) none none

/-- A schema of a type with members. -/
def schemaOf (type : String) (ps : List Schema) : Schema := .node { type := type } (some ps) none none

/-- Two documents that are read, and members that building puts into their bodies and look-up does not find: in
the first the root has members without being of the type of objects, in the second a text of the same name stands
before the object that has the value. -/
theorem exists_schemaAt_eq_none :
    (∃ j c o s n, Command.ofJson j = .valid c ∧ o ∈ c.operations ∧ o.bodySchema = some s ∧
        s.body [("$size", .text "x")] = .ok (some (.obj [("size", .str "x")])) ∧
        s.Places [("$size", .text "x")] ["size"] n ∧ o.schemaAt ["size"] = none) ∧
      ∃ j c o s n, Command.ofJson j = .valid c ∧ o ∈ c.operations ∧ o.bodySchema = some s ∧ s.kind = .object ∧
        s.body [("$width", .text "x")] = .ok (some (.obj [("size", .obj [("width", .str "x")])])) ∧
        s.Places [("$width", .text "x")] ["size", "width"] n ∧ o.schemaAt ["size", "width"] = none := by
  have hwidget : Command.ofJson (Command.bodyDocument (schemaOf "Widget" [sizeNode]).toJson) =
      .valid { operations := [Command.bodyOperation (schemaOf "Widget" [sizeNode])] } :=
    Command.ofJson_eq_valid_iff.2 ⟨by rfl, by decide +kernel⟩
  have hextent : Command.ofJson (Command.bodyDocument (schemaOf "object" [sizeNode, extentNode]).toJson) =
      .valid { operations := [Command.bodyOperation (schemaOf "object" [sizeNode, extentNode])] } :=
    Command.ofJson_eq_valid_iff.2 ⟨by rfl, by decide +kernel⟩
  refine ⟨⟨_, _, _, _, sizeNode, hwidget, List.mem_cons_self, rfl, ?_, .member rfl ?_, ?_⟩,
    ⟨_, _, _, _, widthNode, hextent, List.mem_cons_self, rfl, by decide, ?_,
      .deeper rfl (c := extentNode) ?_ (.member rfl ?_), ?_⟩⟩ <;> with_unfolding_all rfl

end Restline.Operation
