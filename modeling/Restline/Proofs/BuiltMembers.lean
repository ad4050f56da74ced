import Restline.Proofs.KeyedLists
import Restline.Proofs.VisitedNodes

/-!
Objects that are built from their members. Such an object has an entry for every member that has a value, and
of the members of one name the last one with a value gives it. Where no two members of a node share a name, it is
the member that is looked up under the name.

* `Schema.member_induction` : induction on a schema through its members.
* `Schema.NamesApart` : no two members of a node share a name.
* `Schema.value?`, `Schema.entries` : the value of a node, and the entries of an object.
* `Schema.build_eq_ok_iff`, `Schema.body_eq_ok_iff` : **an object is built when all its members are**.
* `Schema.giver?`, `Schema.get?_ofPairs_entries` : **the member that gives an object its value under a name**.
-/

set_option autoImplicit false

namespace Restline.Schema

variable {b : Bound} {s c n : Schema} {v : Option Json} {key : String}

/-! ### Members -/

theorem sizeOf_lt_of_mem_members (h : c ∈ s.members) : sizeOf c < sizeOf s := by
  obtain ⟨a, ps, i, x⟩ := s
  cases ps with
  | none => cases h
  | some ps =>
      have hlist : sizeOf c < sizeOf ps := List.sizeOf_lt_of_mem h
      simp only [node.sizeOf_spec, Option.some.sizeOf_spec]
      omega

/-- What holds of a node whenever it holds of its members holds of all nodes. -/
@[elab_as_elim]
theorem member_induction {P : Schema → Prop} (step : ∀ s, (∀ c ∈ s.members, P c) → P s) (s : Schema) : P s :=
  step s fun c _ => member_induction step c
termination_by sizeOf s
decreasing_by exact sizeOf_lt_of_mem_members ‹_›

theorem mem_walkList_iff {l : List Schema} : n ∈ walkList l ↔ ∃ c ∈ l, n ∈ c.walk := by
  induction l with
  | nil => simp [walkList]
  | cons c l ih => simp [walkList, ih]

theorem mem_walk_of_mem_members (hc : c ∈ s.members) (hn : n ∈ c.walk) : n ∈ s.walk := by
  obtain ⟨a, ps, i, x⟩ := s
  cases ps with
  | none => cases hc
  | some ps =>
      rw [walk, walkProps]
      exact List.mem_cons_of_mem _ (List.mem_append_left _ (mem_walkList_iff.2 ⟨c, hc, hn⟩))

theorem mem_members_of_member? (h : s.member? key = some c) : c ∈ s.members :=
  List.mem_of_find?_eq_some h

theorem name_of_member? (h : s.member? key = some c) : c.name = some key := by
  simpa using List.find?_some h

/-- No two members of a node share a name. -/
def NamesApart (s : Schema) : Prop := ∀ n ∈ s.walk, (n.members.filterMap name).Nodup

instance (s : Schema) : Decidable s.NamesApart :=
  inferInstanceAs (Decidable (∀ n ∈ s.walk, (n.members.filterMap name).Nodup))

theorem NamesApart.nodup (h : s.NamesApart) : (s.members.filterMap name).Nodup := h s (self_mem_walk s)

theorem NamesApart.of_mem_members (h : s.NamesApart) (hc : c ∈ s.members) : c.NamesApart := fun n hn =>
  h n (mem_walk_of_mem_members hc hn)

/-! ### Entries -/

/-- The value of a node, none where it cannot be built. -/
def value? (b : Bound) (s : Schema) : Option Json :=
  match build b s with
  | .ok v => v
  | .error _ => none

theorem value?_of_build (h : build b s = .ok v) : s.value? b = v := by
  rw [value?, h]

/-- The name and the value of a member, if it has both. -/
def pair? (b : Bound) (c : Schema) : Option (String × Json) :=
  c.name.bind fun key => (c.value? b).map (key, ·)

/-- The entries that the members of a node make, in their order. -/
def entries (b : Bound) (s : Schema) : List (String × Json) := s.members.filterMap (pair? b)

/-- The members of a node have names and can be built. -/
def MembersBuild (b : Bound) (s : Schema) : Prop :=
  ∀ c ∈ s.members, c.name.isSome = true ∧ ∃ v, build b c = .ok v

theorem buildMembers_eq_ok_iff {ps : List Schema} {ms : List (String × Json)} :
    buildMembers b ps = .ok ms ↔
      (∀ c ∈ ps, c.name.isSome = true ∧ ∃ v, build b c = .ok v) ∧ ms = ps.filterMap (pair? b) := by
  induction ps generalizing ms with
  | nil => exact ⟨fun h => ⟨fun _ hc => absurd hc List.not_mem_nil, (Except.ok.inj h).symm⟩, fun h => h.2 ▸ rfl⟩
  | cons c r ih =>
      cases hname : c.name with
      | none => simp [buildMembers, hname]
      | some key =>
          rw [buildMembers_of_named hname]
          cases hbuild : build b c with
          | error f => simp [hbuild]
          | ok v =>
              have hpair : (pair? b c).toList = (v.map (key, ·)).toList := by
                rw [pair?, hname, value?_of_build hbuild, Option.bind_some]
              have hlist : (c :: r).filterMap (pair? b) = (v.map (key, ·)).toList ++ r.filterMap (pair? b) := by
                rw [← hpair, List.filterMap_cons]
                cases pair? b c <;> rfl
              simp only [Except.ok_bind, Except.bind_eq_ok_iff, ih, hlist, Except.pure_eq_ok, Except.ok.injEq,
                List.mem_cons, forall_eq_or_imp, hname, hbuild]
              constructor
              · rintro ⟨_, ⟨hall, rfl⟩, rfl⟩
                exact ⟨⟨⟨rfl, v, rfl⟩, hall⟩, rfl⟩
              · rintro ⟨⟨-, hall⟩, rfl⟩
                exact ⟨_, ⟨hall, rfl⟩, rfl⟩

theorem objectOf_eq_some_iff {ms : List (String × Json)} {j : Json} :
    objectOf ms = some j ↔ ms ≠ [] ∧ j = .obj (Keyed.ofPairs ms) := by
  rw [objectOf]
  split
  · rename_i hempty
    exact iff_of_false (fun h => nomatch h) fun h => h.1 (List.isEmpty_iff.1 hempty)
  · rename_i hne
    simp [List.isEmpty_iff.not.1 hne, eq_comm]

/-- A node with an argument takes its value from it. -/
theorem build_of_arg {s : Schema} {arg : String} (h : s.arg = some arg) (b : Bound) :
    s.build b = argValue b arg s.kind := by
  obtain ⟨a, ps, i, x⟩ := s
  have harg : a.arg = some arg := h
  rw [build, harg]
  rfl

/-- A body with an argument is the value of the argument. -/
theorem body_of_arg {b : Bound} {s : Schema} {arg : String} (harg : s.arg = some arg) :
    s.body b = (argValue b arg s.kind).map fun v => v.bind Json.nonNull? := by
  rw [body, harg, ← build_of_arg harg]

/-- **An object is built when all its members are.** A node without an argument has a value only if it is an
object with members; without entries it has none. -/
theorem build_eq_ok_iff (harg : s.arg = none) :
    build b s = .ok v ↔
      s.kind = .object ∧ s.props.isSome = true ∧ s.MembersBuild b ∧ v = objectOf (s.entries b) := by
  obtain ⟨a, ps, i, x⟩ := s
  have ha : a.arg = none := harg
  have hkind : kind (.node a ps i x) = Kind.ofTag a.type := rfl
  rw [build, ha, hkind]
  cases Kind.ofTag a.type with
  | object =>
      cases ps with
      | none => simp [buildProps, props]
      | some ps =>
          simp only [buildProps, Except.map_eq_ok_iff, buildMembers_eq_ok_iff, props, Option.isSome_some, true_and]
          constructor
          · rintro ⟨_, ⟨hall, rfl⟩, rfl⟩
            exact ⟨hall, rfl⟩
          · rintro ⟨hall, rfl⟩
            exact ⟨_, ⟨hall, rfl⟩, rfl⟩
  | _ => simp

/-- At the root an object that is built from members is always there. -/
theorem body_eq_ok_iff (harg : s.arg = none) :
    s.body b = .ok v ↔
      s.props.isSome = true ∧ s.MembersBuild b ∧ v = some (.obj (Keyed.ofPairs (s.entries b))) := by
  rcases body_cases s with ⟨ps, -, hprops, hbody⟩ | ⟨hopen, hbody⟩
  · have hmembers : s.members = ps := by rw [members, hprops, Option.getD_some]
    simp only [(hbody b).1, Except.map_eq_ok_iff, buildMembers_eq_ok_iff, hprops, Option.isSome_some, true_and,
      MembersBuild, entries, hmembers]
    constructor
    · rintro ⟨_, ⟨hall, rfl⟩, rfl⟩
      exact ⟨hall, rfl⟩
    · rintro ⟨hall, rfl⟩
      exact ⟨_, ⟨hall, rfl⟩, rfl⟩
  · have hprops : s.props.isSome = false := by
      rw [isOpenRoot, harg] at hopen
      exact hopen
    simp [(hbody b).1, Except.map_eq_ok_iff, build_eq_ok_iff harg, hprops]

/-! ### Look-up -/

/-- Members that share no names make no two entries under one name. -/
theorem ofPairs_entries (h : (s.members.filterMap name).Nodup) :
    Keyed.ofPairs (s.entries b) = s.entries b := by
  have hname : ∀ c key j, pair? b c = some (key, j) → c.name = some key := by
    intro c key j hpair
    obtain ⟨key', hname, hvalue⟩ := Option.bind_eq_some_iff.1 hpair
    obtain ⟨_, -, heq⟩ := Option.map_eq_some_iff.1 hvalue
    rw [hname, (Prod.mk.inj heq).1]
  have hkeys : Keyed.keys (s.entries b) = s.members.filterMap fun c => (pair? b c).map (·.1) :=
    List.map_filterMap
  have hnodup : (Keyed.keys (s.entries b)).Nodup := by
    rw [hkeys]
    refine List.pairwise_filterMap.2 ((List.pairwise_filterMap.1 h).imp ?_)
    intro c n hne key hkey key' hkey'
    obtain ⟨⟨_, j⟩, hpair, rfl⟩ := Option.map_eq_some_iff.1 hkey
    obtain ⟨⟨_, j'⟩, hpair', rfl⟩ := Option.map_eq_some_iff.1 hkey'
    exact hne _ (hname c _ j hpair) _ (hname n _ j' hpair')
  exact Keyed.union_of_nodup (m := []) hnodup

/-- The member that gives the object its value under a name: the last one of the name that has a value. -/
def giver? (b : Bound) (s : Schema) (key : String) : Option Schema :=
  s.members.reverse.find? fun c => c.name == some key && (c.value? b).isSome

theorem giver?_eq_some (h : s.giver? b key = some c) :
    c ∈ s.members ∧ c.name = some key ∧ (c.value? b).isSome = true := by
  have hc := List.find?_some h
  rw [Bool.and_eq_true, beq_iff_eq] at hc
  exact ⟨List.mem_reverse.1 (List.mem_of_find?_eq_some h), hc⟩

/-- **The member that gives an object its value under a name.** -/
theorem get?_ofPairs_entries : (Keyed.ofPairs (s.entries b)).get? key = (s.giver? b key).bind (value? b) := by
  rw [Keyed.get?_ofPairs, entries, Keyed.last?_filterMap, giver?]
  induction s.members.reverse with
  | nil => rfl
  | cons c r ih =>
      rw [List.findSome?_cons, List.find?_cons, ih]
      cases hname : c.name with
      | none => simp [pair?, hname]
      | some k =>
          cases hv : c.value? b with
          | none => simp [pair?, hname, hv]
          | some j =>
              by_cases hk : k = key
              · simp [pair?, hname, hv, hk]
              · simp [pair?, hname, hv, hk, beq_eq_false_iff_ne.2 hk]

/-- Of members that share no names, the one of a name is the first and the last. -/
theorem eq_of_name_eq {l : List Schema} (h : (l.filterMap name).Nodup) (hc : c ∈ l) (hn : n ∈ l)
    (hcname : c.name = some key) (hnname : n.name = some key) : c = n := by
  induction l with
  | nil => cases hc
  | cons x r ih =>
      have hhead : ∀ m ∈ r, m.name = some key → x.name ≠ some key := by
        intro m hm hmname hxname
        rw [List.filterMap_cons_some hxname] at h
        exact (List.nodup_cons.1 h).1 (List.mem_filterMap.2 ⟨m, hm, hmname⟩)
      rcases List.mem_cons.1 hc with rfl | hcr <;> rcases List.mem_cons.1 hn with rfl | hnr
      · rfl
      · exact absurd hcname (hhead n hnr hnname)
      · exact absurd hnname (hhead c hcr hcname)
      · exact ih (h.sublist ((List.sublist_cons_self x r).filterMap name)) hcr hnr

theorem member?_of_mem (h : (s.members.filterMap name).Nodup) (hc : c ∈ s.members) (hname : c.name = some key) :
    s.member? key = some c := by
  cases hm : s.member? key with
  | none => exact absurd (beq_iff_eq.2 hname) (by simpa using List.find?_eq_none.1 hm c hc)
  | some m => rw [eq_of_name_eq h hc (mem_members_of_member? hm) hname (name_of_member? hm)]

/-- Where no two members share a name, the entry under a name is that of the member that is looked up. -/
theorem get?_ofPairs_entries_of_nodup (h : (s.members.filterMap name).Nodup) :
    (Keyed.ofPairs (s.entries b)).get? key = (s.member? key).bind (value? b) := by
  rw [get?_ofPairs_entries]
  cases hg : s.giver? b key with
  | some c =>
      obtain ⟨hc, hname, -⟩ := giver?_eq_some hg
      rw [member?_of_mem h hc hname]
  | none =>
      cases hm : s.member? key with
      | none => rfl
      | some c =>
          -- the member has the name, so what it lacks is a value
          have hnone : c.value? b = none := by
            simpa [name_of_member? hm] using
              List.find?_eq_none.1 hg c (List.mem_reverse.2 (mem_members_of_member? hm))
          rw [Option.bind_none, Option.bind_some, hnone]

end Restline.Schema
