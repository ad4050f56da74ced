import Mathlib.Logic.Basic
import Restline.Proofs.VisitedNodes

/-!
Faults of a schema that last. A member without a name, or a value without an argument, makes every body of
the schema fail: the fault is met with nothing bound, and with anything bound it is met as well, unless a
value that does not fit is met before it. Reading a document finds only the objects that have neither an
argument nor members, so a document with one of the other faults is read.

* `Schema.exists_body_error` : **a fault of the schema comes with every input**.
* `Schema.ofDocument_of_body_nil` : with nothing bound there are no other faults.
* `Schema.Buildable` : every node that is looked at can be built.
* `Command.buildable_iff_body` : **when the bodies of a document fail for the document**.
* `Command.exists_not_buildable` : documents that are read and whose bodies always fail.
-/

set_option autoImplicit false

namespace Restline

/-- A member has no name, or a value has no argument. -/
def BodyFault.IsLack (f : BodyFault) : Prop := f = .unnamedMember ∨ ∃ name, f = .unboundNode name

theorem BodyFault.IsLack.ofDocument {f : BodyFault} (h : f.IsLack) : f.OfDocument := by
  rcases h with rfl | ⟨name, rfl⟩
  · exact ofDocument_iff.2 (.inl rfl)
  · exact ofDocument_iff.2 (.inr (.inr ⟨name, rfl⟩))

namespace Schema

variable {f : BodyFault}

/-! ### Other values bound -/

mutual

/-- Where building a node fails for the document, it fails whatever is bound, and if not for a value then for
the same. -/
theorem exists_build_error : ∀ {s : Schema} {f : BodyFault} (b b' : Bound), f.OfDocument →
    build b s = .error f → ∃ f', build b' s = .error f' ∧ (f'.OfDocument → f' = f)
  | .node a ps i x, f, b, b', hf, h => by
      rw [build] at h ⊢
      cases harg : a.arg with
      | some arg =>
          rw [harg] at h
          exact absurd hf (not_ofDocument_of_argValue h)
      | none =>
          rw [harg] at h
          cases hkind : Kind.ofTag a.type with
          | object =>
              rw [hkind] at h
              exact exists_buildProps_error b b' hf h
          | _ =>
              rw [hkind] at h
              exact ⟨f, h, fun _ => rfl⟩

theorem exists_buildProps_error : ∀ {ps : Option (List Schema)} {f : BodyFault} (b b' : Bound),
    f.OfDocument → buildProps b ps = .error f →
      ∃ f', buildProps b' ps = .error f' ∧ (f'.OfDocument → f' = f)
  | none, f, _, _, _, h => ⟨f, h, fun _ => rfl⟩
  | some ps, f, b, b', hf, h => by
      rw [buildProps] at h ⊢
      obtain ⟨f', hfail, hsame⟩ := exists_buildMembers_error b b' hf (Except.map_eq_error_iff.1 h)
      exact ⟨f', Except.map_eq_error_iff.2 hfail, hsame⟩

theorem exists_buildMembers_error : ∀ {ps : List Schema} {f : BodyFault} (b b' : Bound),
    f.OfDocument → buildMembers b ps = .error f →
      ∃ f', buildMembers b' ps = .error f' ∧ (f'.OfDocument → f' = f)
  | [], _, _, _, _, h => by cases h
  | s :: r, f, b, b', hf, h => by
      cases hname : s.name with
      | none =>
          rw [buildMembers, hname] at h ⊢
          exact ⟨f, h, fun _ => rfl⟩
      | some name =>
          rw [buildMembers_of_named hname] at h ⊢
          cases hs : build b s with
          | error e =>
              rw [hs] at h
              obtain rfl := Except.error.inj h
              obtain ⟨f', hfail, hsame⟩ := exists_build_error b b' hf hs
              exact ⟨f', by rw [hfail]; rfl, hsame⟩
          | ok v =>
              rw [hs, Except.ok_bind] at h
              cases hs' : build b' s with
              | error f' =>
                  -- this is no fault of the document, for with the first values the member was built
                  refine ⟨f', rfl, fun hf' => ?_⟩
                  obtain ⟨f'', hfail, -⟩ := exists_build_error b' b hf' hs'
                  rw [hs] at hfail
                  cases hfail
              | ok v' =>
                  cases hr : buildMembers b r with
                  | ok ms =>
                      rw [hr] at h
                      cases h
                  | error e =>
                      rw [hr] at h
                      obtain rfl := Except.error.inj h
                      obtain ⟨f', hfail, hsame⟩ := exists_buildMembers_error b b' hf hr
                      exact ⟨f', by rw [Except.ok_bind, hfail]; rfl, hsame⟩

end

/-- **A fault of the schema comes with every input.** Where a body fails for the document, it fails whatever is
bound, and if not for a value then for the same. -/
theorem exists_body_error (hf : f.OfDocument) {s : Schema} (b b' : Bound) (h : s.body b = .error f) :
    ∃ f', s.body b' = .error f' ∧ (f'.OfDocument → f' = f) := by
  rcases body_cases s with ⟨ps, -, -, hbody⟩ | ⟨-, hbody⟩
  · rw [(hbody b).1] at h
    obtain ⟨f', hfail, hsame⟩ := exists_buildMembers_error b b' hf (Except.map_eq_error_iff.1 h)
    exact ⟨f', (hbody b').1 ▸ Except.map_eq_error_iff.2 hfail, hsame⟩
  · rw [(hbody b).1] at h
    obtain ⟨f', hfail, hsame⟩ := exists_build_error b b' hf (Except.map_eq_error_iff.1 h)
    exact ⟨f', (hbody b').1 ▸ Except.map_eq_error_iff.2 hfail, hsame⟩

/-! ### Nothing bound -/

mutual

theorem ofDocument_of_build_nil : ∀ {s : Schema} {f : BodyFault}, build [] s = .error f → f.OfDocument
  | .node a ps i x, f, h => by
      rw [build] at h
      cases harg : a.arg with
      | some arg =>
          rw [harg] at h
          cases h
      | none =>
          rw [harg] at h
          cases hkind : Kind.ofTag a.type with
          | object =>
              rw [hkind] at h
              exact ofDocument_of_buildProps_nil h
          | _ =>
              rw [hkind] at h
              obtain rfl := Except.error.inj h
              exact BodyFault.ofDocument_iff.2 (.inr (.inr ⟨a.name, rfl⟩))

theorem ofDocument_of_buildProps_nil : ∀ {ps : Option (List Schema)} {f : BodyFault},
    buildProps [] ps = .error f → f.OfDocument
  | none, f, h => by
      obtain rfl := Except.error.inj h
      exact BodyFault.ofDocument_iff.2 (.inr (.inl rfl))
  | some ps, f, h => ofDocument_of_buildMembers_nil (Except.map_eq_error_iff.1 h)

theorem ofDocument_of_buildMembers_nil : ∀ {ps : List Schema} {f : BodyFault},
    buildMembers [] ps = .error f → f.OfDocument
  | [], _, h => by cases h
  | s :: r, f, h => by
      cases hname : s.name with
      | none =>
          rw [buildMembers, hname] at h
          obtain rfl := Except.error.inj h
          exact BodyFault.ofDocument_iff.2 (.inl rfl)
      | some name =>
          rw [buildMembers_of_named hname] at h
          cases hs : build [] s with
          | error e =>
              rw [hs] at h
              obtain rfl := Except.error.inj h
              exact ofDocument_of_build_nil hs
          | ok v =>
              rw [hs, Except.ok_bind] at h
              cases hr : buildMembers [] r with
              | error e =>
                  rw [hr] at h
                  obtain rfl := Except.error.inj h
                  exact ofDocument_of_buildMembers_nil hr
              | ok ms =>
                  rw [hr] at h
                  cases h

end

/-- With nothing bound there is no value that does not fit. -/
theorem ofDocument_of_body_nil {s : Schema} (h : s.body [] = .error f) : f.OfDocument := by
  rcases body_cases s with ⟨ps, -, -, hbody⟩ | ⟨-, hbody⟩
  · rw [(hbody []).1] at h
    exact ofDocument_of_buildMembers_nil (Except.map_eq_error_iff.1 h)
  · rw [(hbody []).1] at h
    exact ofDocument_of_build_nil (Except.map_eq_error_iff.1 h)

/-- A fault of the schema is met with nothing bound. -/
theorem body_nil_eq_error (hf : f.OfDocument) {s : Schema} {b : Bound} (h : s.body b = .error f) :
    s.body [] = .error f := by
  obtain ⟨f', hfail, hsame⟩ := exists_body_error hf b [] h
  rw [hfail, hsame (ofDocument_of_body_nil hfail)]

/-! ### Nodes that can be built -/

/-- Every node that is looked at can be built: the members have names, and each node is an object, has an
argument, or is the root that is built from its members. -/
structure Buildable (s : Schema) : Prop where
  root : s.isOpenRoot = true ∨ s.kind = .object ∨ s.arg.isSome = true
  named : ∀ b, ∀ n ∈ s.visited b, n.name.isSome = true
  bound : ∀ b, ∀ n ∈ s.visited b, n.kind = .object ∨ n.arg.isSome = true

/-- The node is a value without an argument. -/
def LacksArg (s : Schema) : Prop := s.kind ≠ .object ∧ s.arg = none

theorem ownFault?_isLack_iff {s : Schema} :
    (∃ f, f.IsLack ∧ s.ownFault? = some f) ↔ s.LacksArg := by
  rw [ownFault?, LacksArg]
  cases s.arg with
  | some arg => simp
  | none => cases s.kind <;> simp [BodyFault.IsLack]

theorem rootFault?_isLack_iff {s : Schema} :
    (∃ f, f.IsLack ∧ s.rootFault? = some f) ↔ s.isOpenRoot = false ∧ s.LacksArg := by
  rw [rootFault?]
  cases s.isOpenRoot with
  | true => simp
  | false => simpa using ownFault?_isLack_iff

theorem memberFault?_isLack_iff {s : Schema} :
    (∃ f, f.IsLack ∧ s.memberFault? = some f) ↔ s.name = none ∨ s.LacksArg := by
  rw [memberFault?]
  cases s.name with
  | none => simp [BodyFault.IsLack]
  | some name => simpa using ownFault?_isLack_iff

/-- A body fails for something that is lacking exactly if a node that is looked at lacks it. -/
theorem exists_body_isLack_iff {s : Schema} {b : Bound} :
    (∃ f, f.IsLack ∧ s.body b = .error f) ↔
      (s.isOpenRoot = false ∧ s.LacksArg) ∨ ∃ n ∈ s.visited b, n.name = none ∨ n.LacksArg := by
  simp only [← rootFault?_isLack_iff, ← memberFault?_isLack_iff]
  constructor
  · rintro ⟨f, hf, h⟩
    rcases (body_eq_error_iff hf.ofDocument).1 h with hroot | ⟨n, hn, hmember⟩
    · exact .inl ⟨f, hf, hroot⟩
    · exact .inr ⟨n, hn, f, hf, hmember⟩
  · rintro (⟨f, hf, hroot⟩ | ⟨n, hn, f, hf, hmember⟩)
    · exact ⟨f, hf, (body_eq_error_iff hf.ofDocument).2 (.inl hroot)⟩
    · exact ⟨f, hf, (body_eq_error_iff hf.ofDocument).2 (.inr ⟨n, hn, hmember⟩)⟩

theorem not_lacksArg_iff {s : Schema} : ¬ s.LacksArg ↔ s.kind = .object ∨ s.arg.isSome = true := by
  rw [LacksArg, not_and_or, not_not, ← ne_eq, Option.ne_none_iff_isSome]

/-- The schema can be built exactly if no body fails for something that is lacking. -/
theorem buildable_iff {s : Schema} : s.Buildable ↔ ∀ b f, f.IsLack → s.body b ≠ .error f := by
  have hbody : ∀ b, (∀ f, f.IsLack → s.body b ≠ .error f) ↔
      (s.isOpenRoot = true ∨ s.kind = .object ∨ s.arg.isSome = true) ∧
        ∀ n ∈ s.visited b, n.name.isSome = true ∧ (n.kind = .object ∨ n.arg.isSome = true) := by
    intro b
    have h := not_congr (exists_body_isLack_iff (s := s) (b := b))
    simpa only [not_exists, not_and, not_or, not_lacksArg_iff, Bool.not_eq_false, ← ne_eq,
      Option.ne_none_iff_isSome, imp_iff_not_or] using h
  simp only [hbody]
  constructor
  · intro h b
    exact ⟨h.root, fun n hn => ⟨h.named b n hn, h.bound b n hn⟩⟩
  · intro h
    exact ⟨(h []).1, fun b n hn => ((h b).2 n hn).1, fun b n hn => ((h b).2 n hn).2⟩

end Schema

namespace Command

variable {j : Json} {c : Command} {o : Operation} {s : Schema}

/-- **When the bodies of a document fail for the document.** Of an operation of a document that was read, bodies
fail for the document only where a member without a name or a value without an argument is looked at. If there
is none, what fails is only what is bound. If there is one, every body fails, and with nothing bound, or with
values that all fit, it fails for that. -/
theorem buildable_iff_body (hj : ofJson j = .valid c) (ho : o ∈ c.operations)
    (hs : o.bodySchema = some s) :
    (s.Buildable ↔ ∀ b f, s.body b = .error f → f.report.kind ≠ .integrity) ∧
      (¬ s.Buildable → ∃ f, f.IsLack ∧ f.report.kind = .integrity ∧ s.body [] = .error f ∧
        ∀ b, ∃ f', s.body b = .error f' ∧ (f'.report.kind = .integrity → f' = f)) := by
  constructor
  · rw [Schema.buildable_iff]
    constructor
    · intro h b f hfail hkind
      refine h b f ?_ hfail
      rcases BodyFault.ofDocument_iff.1 hkind with rfl | rfl | ⟨name, rfl⟩
      · exact .inl rfl
      · exact absurd hfail (body_ne_hollow hj ho hs b).1
      · exact .inr ⟨name, rfl⟩
    · intro h b f hf hfail
      exact h b f hfail hf.ofDocument
  · intro h
    rw [Schema.buildable_iff] at h
    simp only [not_forall, ne_eq, not_not, exists_prop] at h
    obtain ⟨b, f, hf, hfail⟩ := h
    exact ⟨f, hf, hf.ofDocument, Schema.body_nil_eq_error hf.ofDocument hfail, fun b' =>
      Schema.exists_body_error hf.ofDocument b b' hfail⟩

/-! ### A member without a name, and one without an argument -/

/-- A schema of an object with one member. -/
def memberDocument (fields : List (String × Json)) : Json :=
  .obj [("type", .str "object"), ("props", .arr [.obj fields])]

/-- The schema. -/
def withMember (a : Attributes) : Schema :=
  .node { type := "object" } (some [.node a none none none]) none none

theorem ofJson_unnamed :
    ofJson (bodyDocument (memberDocument [("type", .str "string"), ("arg", .str "$size")])) =
      .valid { operations := [bodyOperation (withMember { type := "string", arg := some "$size" })] } :=
  ofJson_eq_valid_iff.2 ⟨by rfl, by decide +kernel⟩

/-- The member of a text without a name is looked at, so the schema cannot be built: with nothing bound the
body fails for the name, and with anything bound it fails. -/
theorem buildable_iff_body_of_unnamed :
    ∃ j c o s, ofJson j = .valid c ∧ o ∈ c.operations ∧ o.bodySchema = some s ∧ ¬ s.Buildable ∧
      s.body [] = .error .unnamedMember ∧ ∀ b, ∃ f, s.body b = .error f := by
  have h := buildable_iff_body ofJson_unnamed List.mem_cons_self rfl
  have hfail : (withMember { type := "string", arg := some "$size" }).body [] = .error .unnamedMember := by
    with_unfolding_all rfl
  have hnot : ¬ (withMember { type := "string", arg := some "$size" }).Buildable := fun hb =>
    h.1.1 hb [] _ hfail rfl
  obtain ⟨f, -, -, -, hall⟩ := h.2 hnot
  exact ⟨_, _, _, _, ofJson_unnamed, List.mem_cons_self, rfl, hnot, hfail, fun b =>
    (hall b).imp fun f' h => h.1⟩

/-- Two documents that are read: in the body of one a member without a name is looked at, in that of the other a
text without an argument, and both bodies fail. -/
theorem exists_not_buildable :
    (∃ j c o s, ofJson j = .valid c ∧ o ∈ c.operations ∧ o.bodySchema = some s ∧
        (∃ n ∈ s.visited [], n.name = none) ∧ s.body [] = .error .unnamedMember) ∧
      ∃ j c o s, ofJson j = .valid c ∧ o ∈ c.operations ∧ o.bodySchema = some s ∧
        (∃ n ∈ s.visited [], n.LacksArg) ∧ s.body [] = .error (.unboundNode (some "size")) := by
  refine ⟨⟨_, _, _, _, ofJson_unnamed, List.mem_cons_self, rfl, ?_, by with_unfolding_all rfl⟩,
    bodyDocument (memberDocument [("type", .str "string"), ("name", .str "size")]),
    { operations := [bodyOperation (withMember { type := "string", name := some "size" })] }, _, _,
    ofJson_eq_valid_iff.2 ⟨by rfl, by decide +kernel⟩, List.mem_cons_self, rfl, ?_,
    by with_unfolding_all rfl⟩
  · exact ⟨_, List.mem_cons_self, rfl⟩
  · have hvisited : (withMember { type := "string", name := some "size" }).visited [] =
        [.node { type := "string", name := some "size" } none none none] := by with_unfolding_all rfl
    rw [hvisited]
    exact ⟨_, List.mem_cons_self, by decide +kernel, rfl⟩

end Command

end Restline
