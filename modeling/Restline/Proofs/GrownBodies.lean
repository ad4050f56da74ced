import Restline.Proofs.BuiltMembers

/-!
Bodies that grow with what is bound. Where more arguments are bound, and the ones that were bound before keep their
values, a body can be built whenever it could be built after, and it is contained in the one after: its members are
among those, in their order; one that takes its value from an argument has the same value, and one that is made of
members has a value that contains the one before.

* `Bound.Extends` : bound arguments that bind what others bind to the same values.
* `Schema.Contained` : a value of a node that is contained in another.
* `Schema.build_of_extends` : each node grows.
* `Schema.exists_body_of_extends` : **a body grows with what is bound**.
-/

set_option autoImplicit false

namespace Restline

/-- The second bound arguments bind everything that the first bind, to the same values. -/
def Bound.Extends (b b' : Bound) : Prop := ∀ arg v, b.get? arg = some v → b'.get? arg = some v

namespace Schema

/-! ### Values that contain values -/

mutual

/-- A value of a node that is contained in another value of it: the same value where the node takes it from an
argument, and else an object whose members are contained in those of the other. -/
inductive Contained : Schema → Json → Json → Prop
  | whole {s : Schema} {j : Json} (harg : s.arg.isSome = true) : Contained s j j
  | assembled {s : Schema} {ms ms' : Keyed Json} (harg : s.arg = none) (hms : MembersContained s ms ms') :
      Contained s (.obj ms) (.obj ms')

/-- Members of a node that are among others in their order, each with a value that is contained in the other. -/
inductive MembersContained : Schema → Keyed Json → Keyed Json → Prop
  | nil {s : Schema} : MembersContained s [] []
  | keep {s c : Schema} {key : String} {j j' : Json} {ms ms' : Keyed Json} (hc : s.member? key = some c)
      (hj : Contained c j j') (hms : MembersContained s ms ms') :
      MembersContained s ((key, j) :: ms) ((key, j') :: ms')
  | skip {s : Schema} {key : String} {j : Json} {ms ms' : Keyed Json} (hms : MembersContained s ms ms') :
      MembersContained s ms ((key, j) :: ms')

end

/-- What a node gives is contained in what it gives another time. -/
def Grows (s : Schema) (v v' : Option Json) : Prop := ∀ j, v = some j → ∃ j', v' = some j' ∧ s.Contained j j'

variable {b b' : Bound} {s : Schema} {v' : Option Json}

/-! ### Building -/

/-- Of members whose values grow the entries grow. -/
theorem membersContained_filterMap {l : List Schema} (hl : ∀ c ∈ l, ∀ key, c.name = some key → s.member? key = some c)
    (hgrow : ∀ c ∈ l, c.Grows (c.value? b) (c.value? b')) :
    MembersContained s (l.filterMap (pair? b)) (l.filterMap (pair? b')) := by
  induction l with
  | nil => exact .nil
  | cons c r ih =>
      have hrest := ih (fun n hn => hl n (List.mem_cons_of_mem c hn)) fun n hn => hgrow n (List.mem_cons_of_mem c hn)
      have hc := hgrow c List.mem_cons_self
      rw [List.filterMap_cons, List.filterMap_cons]
      cases hname : c.name with
      | none => simpa [pair?, hname] using hrest
      | some key =>
          have hpair : ∀ b, pair? b c = (c.value? b).map (key, ·) := fun b => by
            rw [pair?, hname, Option.bind_some]
          rw [hpair, hpair]
          cases hv : c.value? b with
          | some j =>
              obtain ⟨j', hv', hj⟩ := hc j hv
              rw [hv']
              exact .keep (hl c List.mem_cons_self key hname) hj hrest
          | none =>
              -- the member had no value, and may have one now
              cases c.value? b' with
              | none => exact hrest
              | some j' => exact .skip hrest

theorem membersContained_entries (hs : s.NamesApart)
    (hgrow : ∀ c ∈ s.members, c.Grows (c.value? b) (c.value? b')) :
    MembersContained s (s.entries b) (s.entries b') :=
  membersContained_filterMap (fun _ hc _ hname => member?_of_mem hs.nodup hc hname) hgrow

/-- The value of an argument that is bound stays. -/
theorem argValue_of_extends (hb : b.Extends b') {arg : String} {k : Kind} (h : argValue b' arg k = .ok v') :
    ∃ v, argValue b arg k = .ok v ∧ ∀ j, v = some j → v' = some j := by
  cases hget : b.get? arg with
  | none => exact ⟨none, by rw [argValue, hget], fun _ hj => nomatch hj⟩
  | some w =>
      refine ⟨v', ?_, fun _ hj => hj⟩
      rw [argValue, hb arg w hget] at h
      rw [argValue, hget]
      exact h

theorem MembersContained.ne_nil {ms ms' : Keyed Json} (h : MembersContained s ms ms') (hms : ms ≠ []) : ms' ≠ [] := by
  cases h with
  | nil => exact absurd rfl hms
  | keep _ _ _ => exact List.cons_ne_nil _ _
  | skip _ => exact List.cons_ne_nil _ _

/-- Where the members of a node grow, all of them can be built, and the entries are among those after. -/
theorem membersBuild_of_grows (hs : s.NamesApart) (hall : s.MembersBuild b')
    (hgrow : ∀ c ∈ s.members, ∀ v', build b' c = .ok v' → ∃ v, build b c = .ok v ∧ c.Grows v v') :
    s.MembersBuild b ∧ MembersContained s (s.entries b) (s.entries b') := by
  refine ⟨fun c hc => ?_, membersContained_entries hs fun c hc => ?_⟩
  · obtain ⟨hname, v', hv'⟩ := hall c hc
    obtain ⟨v, hv, -⟩ := hgrow c hc v' hv'
    exact ⟨hname, v, hv⟩
  · obtain ⟨-, v', hv'⟩ := hall c hc
    obtain ⟨v, hv, hgrows⟩ := hgrow c hc v' hv'
    rwa [value?_of_build hv, value?_of_build hv']

/-- **Each node grows.** -/
theorem build_of_extends (hb : b.Extends b') (hs : s.NamesApart) (h : build b' s = .ok v') :
    ∃ v, build b s = .ok v ∧ s.Grows v v' := by
  induction s using member_induction generalizing v' with
  | step s ih =>
      cases harg : s.arg with
      | some arg =>
          rw [build_of_arg harg] at h ⊢
          obtain ⟨v, hv, hkept⟩ := argValue_of_extends hb h
          exact ⟨v, hv, fun j hj => ⟨j, hkept j hj, .whole (by rw [harg]; rfl)⟩⟩
      | none =>
          obtain ⟨hkind, hprops, hall, rfl⟩ := (build_eq_ok_iff harg).1 h
          obtain ⟨hall', hms⟩ := membersBuild_of_grows hs hall fun c hc v' hv' => ih c hc (hs.of_mem_members hc) hv'
          refine ⟨_, (build_eq_ok_iff harg).2 ⟨hkind, hprops, hall', rfl⟩, fun j hj => ?_⟩
          -- an object that is there has entries, so the one after has some too
          obtain ⟨hne, rfl⟩ := objectOf_eq_some_iff.1 hj
          refine ⟨_, objectOf_eq_some_iff.2 ⟨hms.ne_nil hne, rfl⟩, ?_⟩
          rw [ofPairs_entries hs.nodup, ofPairs_entries hs.nodup]
          exact .assembled harg hms

/-- **A body grows with what is bound.** Where no two members of a node share a name, and the second arguments
bind what the first bind to the same values, a body that can be built with the second can be built with the first,
and is contained in the one with the second. -/
theorem exists_body_of_extends (hs : s.NamesApart) (hb : b.Extends b') {body' : Option Json}
    (h : s.body b' = .ok body') : ∃ body, s.body b = .ok body ∧ s.Grows body body' := by
  cases harg : s.arg with
  | some arg =>
      rw [body_of_arg harg] at h ⊢
      obtain ⟨v', hv', rfl⟩ := Except.map_eq_ok_iff.1 h
      obtain ⟨v, hv, hkept⟩ := argValue_of_extends hb hv'
      refine ⟨_, Except.map_eq_ok_iff.2 ⟨v, hv, rfl⟩, fun j hj => ⟨j, ?_, .whole (by rw [harg]; rfl)⟩⟩
      obtain ⟨w, rfl, hw⟩ := Option.bind_eq_some_iff.1 hj
      rw [hkept w rfl, Option.bind_some, hw]
  | none =>
      obtain ⟨hprops, hall, rfl⟩ := (body_eq_ok_iff harg).1 h
      obtain ⟨hall', hms⟩ := membersBuild_of_grows hs hall fun c hc v' hv' =>
        build_of_extends hb (hs.of_mem_members hc) hv'
      refine ⟨_, (body_eq_ok_iff harg).2 ⟨hprops, hall', rfl⟩, fun j hj => ?_⟩
      obtain rfl := Option.some_inj.1 hj
      rw [ofPairs_entries hs.nodup, ofPairs_entries hs.nodup]
      exact ⟨_, rfl, .assembled harg hms⟩

/-- A body with a size, to which empty tags come. -/
theorem exists_body_of_extends_sized :
    let b : Bound := [("$size", .text "x")]
    let b' : Bound := [("$tags", .raw "\x7b\x7d"), ("$size", .text "x")]
    let before : Json := .obj [("properties", .obj [("size", .str "x")])]
    let after : Json := .obj [("properties", .obj [("size", .str "x")]), ("tags", .obj [])]
    Command.sized.NamesApart ∧ b.Extends b' ∧ Command.sized.body b' = .ok (some after) ∧
      Command.sized.body b = .ok (some before) ∧ Command.sized.Contained before after := by
  intro b b' before after
  have hs : Command.sized.NamesApart := by decide +kernel
  have hb : b.Extends b' := by
    intro arg v h
    rw [Keyed.get?_cons] at h
    split at h
    · rename_i harg
      rw [← harg, ← h]
      rfl
    · cases h
  have hafter : Command.sized.body b' = .ok (some after) := by with_unfolding_all rfl
  have hbefore : Command.sized.body b = .ok (some before) := by with_unfolding_all rfl
  obtain ⟨body, hbody, hgrows⟩ := exists_body_of_extends hs hb hafter
  obtain rfl := Except.ok.inj (hbefore.symm.trans hbody)
  obtain ⟨j', hj', hcontained⟩ := hgrows _ rfl
  obtain rfl := Option.some_inj.1 hj'
  exact ⟨hs, hb, hafter, hbefore, hcontained⟩

end Schema

end Restline
