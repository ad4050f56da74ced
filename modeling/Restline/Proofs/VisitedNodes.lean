import Restline.Operation.Body
import Restline.Proofs.Reading
import Restline.Proofs.Results

/-!
The nodes of a schema that building a body comes to. Building is carried out once more, with the members
that are looked at kept in order; the outcome stays the same. A fault of the schema, as opposed to one of
the values that are bound, lies in the root or in a member that was looked at, and all of these nodes are
among those that are checked when the document is read.

* `Watched` : outcomes together with the members that were looked at.
* `Schema.buildWatched`, `Schema.bodyWatched`, `Schema.visited` : building that is watched.
* `Schema.outcome_bodyWatched` : watching changes nothing.
* `Schema.body_fails_iff` : a body fails for a node that was looked at, or for its value.
* `Schema.body_eq_error_iff` : **a fault of the schema is that of a node that was looked at**.
* `Schema.mem_walk_of_mem_visited` : building comes to no node that the walk leaves out.
* `Command.body_ne_hollow` : **the objects of a document that was read can all be built**.
-/

set_option autoImplicit false

namespace Restline

/-! ### Outcomes that are watched -/

/-- An outcome, and the members that were looked at on the way to it. -/
structure Watched (α : Type) where
  visited : List Schema
  outcome : Except BodyFault α

namespace Watched

variable {α β : Type}

/-- After a failure nothing more is looked at. -/
def bind (x : Watched α) (f : α → Watched β) : Watched β :=
  match x.outcome with
  | .ok a => ⟨x.visited ++ (f a).visited, (f a).outcome⟩
  | .error e => ⟨x.visited, .error e⟩

instance : Monad Watched where
  pure a := ⟨[], .ok a⟩
  bind := bind

/-- A result for which nothing is looked at. -/
def blind (x : Except BodyFault α) : Watched α := ⟨[], x⟩

/-- Looking at a member. -/
def look (s : Schema) : Watched Unit := ⟨[s], .ok ()⟩

@[simp] theorem visited_pure (a : α) : (pure a : Watched α).visited = [] := rfl

@[simp] theorem outcome_pure (a : α) : (pure a : Watched α).outcome = .ok a := rfl

@[simp] theorem visited_blind (x : Except BodyFault α) : (blind x).visited = [] := rfl

@[simp] theorem outcome_blind (x : Except BodyFault α) : (blind x).outcome = x := rfl

@[simp] theorem visited_look (s : Schema) : (look s).visited = [s] := rfl

@[simp] theorem outcome_look (s : Schema) : (look s).outcome = .ok () := rfl

@[simp] theorem outcome_bind (x : Watched α) (f : α → Watched β) :
    (x >>= f).outcome = x.outcome >>= fun a => (f a).outcome := by
  change (bind x f).outcome = _
  rw [bind]
  cases x.outcome <;> rfl

theorem visited_bind (x : Watched α) (f : α → Watched β) :
    (x >>= f).visited = x.visited ++
      match x.outcome with
      | .ok a => (f a).visited
      | .error _ => [] := by
  change (bind x f).visited = _
  rw [bind]
  cases x.outcome <;> simp

/-- What is done with a result looks at nothing. -/
theorem visited_bind_pure (x : Watched α) (g : α → β) :
    (x >>= fun a => pure (g a)).visited = x.visited := by
  rw [visited_bind]
  cases x.outcome <;> simp

end Watched

namespace Schema

open Watched (blind look)

/-! ### Building that is watched -/

variable (b : Bound)

mutual

/-- The value of a node, with the members that are looked at. -/
def buildWatched : Schema → Watched (Option Json)
  | .node a ps _ _ =>
    match a.arg, Kind.ofTag a.type with
    | some arg, k => blind (argValue b arg k)
    | none, .object => buildPropsWatched ps
    | none, _ => blind (.error (.unboundNode a.name))

/-- The value of an object that has no argument, with the members that are looked at. -/
def buildPropsWatched : Option (List Schema) → Watched (Option Json)
  | none => blind (.error .hollowObject)
  | some ps => do
    let ms ← buildMembersWatched ps
    return objectOf ms

/-- The members that have a value, in order; each is looked at before anything is done with it. -/
def buildMembersWatched : List Schema → Watched (List (String × Json))
  | [] => pure []
  | s :: r => do
    look s
    match s.name with
    | none => blind (.error .unnamedMember)
    | some name => do
      let v ← buildWatched s
      let ms ← buildMembersWatched r
      return (v.map (name, ·)).toList ++ ms

end

/-- The body, with the members that are looked at. -/
def bodyWatched (s : Schema) : Watched (Option Json) :=
  match s.arg, s.props with
  | none, some ps => do
    let ms ← buildMembersWatched b ps
    return some (.obj (Keyed.ofPairs ms))
  | _, _ => do
    let v ← buildWatched b s
    return v.bind Json.nonNull?

/-- The members that building the body looks at, in order. -/
def visited (s : Schema) : List Schema := (s.bodyWatched b).visited

mutual

theorem outcome_buildWatched : ∀ s : Schema, (buildWatched b s).outcome = build b s
  | .node a ps i x => by
      rw [buildWatched, build]
      cases a.arg with
      | some arg => rfl
      | none =>
          cases Kind.ofTag a.type with
          | object => exact outcome_buildPropsWatched ps
          | _ => rfl

theorem outcome_buildPropsWatched : ∀ ps : Option (List Schema),
    (buildPropsWatched b ps).outcome = buildProps b ps
  | none => rfl
  | some ps => by
      rw [buildPropsWatched, buildProps, Watched.outcome_bind, outcome_buildMembersWatched ps]
      rfl

theorem outcome_buildMembersWatched : ∀ ps : List Schema,
    (buildMembersWatched b ps).outcome = buildMembers b ps
  | [] => rfl
  | s :: r => by
      rw [buildMembersWatched, buildMembers, Watched.outcome_bind, Watched.outcome_look, Except.ok_bind]
      cases s.name with
      | none => rfl
      | some name =>
          simp only [Watched.outcome_bind, Watched.outcome_pure, outcome_buildWatched s,
            outcome_buildMembersWatched r, Except.pure_eq_ok]

end

/-- The root is built from its members. -/
def isOpenRoot (s : Schema) : Bool := s.arg.isNone && s.props.isSome

/-- A body is made of the members of an open root, and of the value of any other root. -/
theorem body_cases (s : Schema) :
    (∃ ps, s.isOpenRoot = true ∧ s.props = some ps ∧ ∀ b,
      s.body b = (buildMembers b ps).map (fun ms => some (.obj (Keyed.ofPairs ms))) ∧
        s.bodyWatched b = do
          let ms ← buildMembersWatched b ps
          return some (.obj (Keyed.ofPairs ms))) ∨
      s.isOpenRoot = false ∧ ∀ b,
        s.body b = (build b s).map (fun v => v.bind Json.nonNull?) ∧
          s.bodyWatched b = do
            let v ← buildWatched b s
            return v.bind Json.nonNull? := by
  simp only [isOpenRoot, body, bodyWatched]
  cases s.arg with
  | some arg => exact .inr ⟨rfl, fun _ => ⟨rfl, rfl⟩⟩
  | none =>
      cases s.props with
      | none => exact .inr ⟨rfl, fun _ => ⟨rfl, rfl⟩⟩
      | some ps => exact .inl ⟨ps, rfl, rfl, fun _ => ⟨rfl, rfl⟩⟩

/-- Watching changes nothing. -/
theorem outcome_bodyWatched (b : Bound) (s : Schema) : (s.bodyWatched b).outcome = s.body b := by
  rcases body_cases s with ⟨ps, -, -, hbody⟩ | ⟨-, hbody⟩
  · rw [(hbody b).1, (hbody b).2, Watched.outcome_bind, outcome_buildMembersWatched]
    rfl
  · rw [(hbody b).1, (hbody b).2, Watched.outcome_bind, outcome_buildWatched]
    rfl

/-! ### Faults of a schema -/

/-- What is wrong with a node, whatever is bound: an object can be built neither from an argument nor from
members, or any other node has no argument. -/
def ownFault? (s : Schema) : Option BodyFault :=
  match s.arg, s.kind with
  | some _, _ => none
  | none, .object => if s.props.isNone then some .hollowObject else none
  | none, _ => some (.unboundNode s.name)

/-- What is wrong with a node as a member. -/
def memberFault? (s : Schema) : Option BodyFault :=
  if s.name.isNone then some .unnamedMember else s.ownFault?

/-- What is wrong with a node as a root, which is built from its members whatever its family is. -/
def rootFault? (s : Schema) : Option BodyFault := if s.isOpenRoot then none else s.ownFault?

/-- What is wrong with a node and the value that is bound for it: a value that does not fit, or what is wrong
with the node whatever is bound. -/
def faultIn? (b : Bound) (s : Schema) : Option BodyFault :=
  match s.arg with
  | none => s.ownFault?
  | some arg =>
    match argValue b arg s.kind with
    | .ok _ => none
    | .error f => some f

/-- What is wrong with a node as a member, and the value that is bound for it. -/
def memberFaultIn? (b : Bound) (s : Schema) : Option BodyFault :=
  if s.name.isNone then some .unnamedMember else s.faultIn? b

/-- What is wrong with a node as a root, and the value that is bound for it. -/
def rootFaultIn? (b : Bound) (s : Schema) : Option BodyFault :=
  if s.isOpenRoot then none else s.faultIn? b

end Schema

/-- The failure is one of the document and not of the values that are bound. -/
def BodyFault.OfDocument (f : BodyFault) : Prop := f.report.kind = .integrity

namespace BodyFault

theorem ofDocument_iff {f : BodyFault} :
    f.OfDocument ↔ f = .unnamedMember ∨ f = .hollowObject ∨ ∃ name, f = .unboundNode name := by
  cases f <;> simp [OfDocument, report, Fault.ofCrash]

end BodyFault

/-! ### Values that do not fit -/

namespace Value

variable {arg : String} {v : Value} {f : BodyFault}

theorem not_ofDocument_of_readJson {text : String} (h : readJson arg text = .error f) :
    ¬ f.OfDocument := by
  rw [readJson] at h
  split at h <;> cases h <;> simp [BodyFault.ofDocument_iff]

theorem not_ofDocument_of_parse (h : v.parse arg = .error f) : ¬ f.OfDocument := by
  cases v with
  | text s => exact not_ofDocument_of_readJson h
  | raw s => exact not_ofDocument_of_readJson h
  | _ =>
      cases h
      simp [BodyFault.ofDocument_iff]

theorem not_ofDocument_of_toJsonText (h : v.toJsonText arg = .error f) : ¬ f.OfDocument := by
  cases v with
  | raw s => exact not_ofDocument_of_readJson h
  | _ => cases h

theorem not_ofDocument_of_toJsonInt (h : v.toJsonInt arg = .error f) : ¬ f.OfDocument := by
  rw [toJsonInt.eq_def] at h
  split at h
  · cases h
  · cases h
    simp [BodyFault.ofDocument_iff]
  · split at h <;> cases h
    simp [BodyFault.ofDocument_iff]

theorem not_ofDocument_of_toJsonBool (h : v.toJsonBool arg = .error f) : ¬ f.OfDocument := by
  rw [toJsonBool.eq_def] at h
  split at h
  · cases h
  · dsimp only at h
    split at h
    · exact absurd h nofun
    · split at h
      · exact absurd h nofun
      · obtain rfl := Except.error.inj h
        simp [BodyFault.ofDocument_iff]

theorem not_ofDocument_of_readOpaque {text : String} (h : readOpaque text = .error f) :
    ¬ f.OfDocument := by
  rw [readOpaque] at h
  split at h <;> cases h
  simp [BodyFault.ofDocument_iff]

/-- A value that does not fit is no failure of the document. -/
theorem not_ofDocument_of_toJson {k : Kind} (h : v.toJson arg k = .error f) : ¬ f.OfDocument := by
  cases k <;> rw [toJson] at h
  · exact not_ofDocument_of_parse h
  · exact not_ofDocument_of_parse h
  · exact not_ofDocument_of_toJsonText h
  · exact not_ofDocument_of_toJsonInt h
  · exact not_ofDocument_of_toJsonBool h
  · cases v with
    | text s => exact not_ofDocument_of_readOpaque h
    | raw s => exact not_ofDocument_of_readOpaque h
    | _ => cases h

end Value

namespace Schema

variable {b : Bound}

theorem not_ofDocument_of_argValue {arg : String} {k : Kind} {f : BodyFault}
    (h : argValue b arg k = .error f) : ¬ f.OfDocument := by
  rw [argValue] at h
  split at h
  · cases h
  · exact Value.not_ofDocument_of_toJson (Except.map_eq_error_iff.1 h)

/-! ### Nodes with a fault -/

theorem ofDocument_of_ownFault? {s : Schema} {f : BodyFault} (h : s.ownFault? = some f) :
    f.OfDocument := by
  rw [ownFault?] at h
  rw [BodyFault.ofDocument_iff]
  split at h
  · cases h
  · split at h
    · exact .inr (.inl (Option.some_inj.1 h).symm)
    · cases h
  · exact .inr (.inr ⟨_, (Option.some_inj.1 h).symm⟩)

theorem visited_buildMembersWatched_of_named {s : Schema} {r : List Schema} {name : String}
    (h : s.name = some name) :
    (buildMembersWatched b (s :: r)).visited = s :: ((buildWatched b s).visited ++
      match build b s with
      | .ok _ => (buildMembersWatched b r).visited
      | .error _ => []) := by
  rw [buildMembersWatched, Watched.visited_bind, h, ← outcome_buildWatched]
  dsimp only [Watched.visited_look, Watched.outcome_look]
  rw [Watched.visited_bind, List.singleton_append]
  cases (buildWatched b s).outcome with
  | error e => rfl
  | ok v =>
      dsimp only
      rw [Watched.visited_bind_pure]

theorem buildMembers_of_named {s : Schema} {r : List Schema} {name : String} (h : s.name = some name) :
    buildMembers b (s :: r) = do
      let v ← build b s
      let ms ← buildMembers b r
      return (v.map (name, ·)).toList ++ ms := by
  rw [buildMembers, h]

variable {f : BodyFault}

theorem faultIn?_eq_some_iff {s : Schema} {key : String} (hkey : s.arg = some key) :
    s.faultIn? b = some f ↔ argValue b key s.kind = .error f := by
  simp only [faultIn?, hkey]
  cases argValue b key s.kind <;> simp

mutual

/-- Building a node fails exactly if something is wrong with the node or with a member that is looked at, or
with the value that is bound for it. -/
theorem build_eq_error_iff : ∀ {s : Schema},
    build b s = .error f ↔
      s.faultIn? b = some f ∨ ∃ n ∈ (buildWatched b s).visited, n.memberFaultIn? b = some f
  | .node a ps i x => by
      rw [build, buildWatched]
      cases hkey : a.arg with
      | some key =>
          have hnode : Schema.arg (.node a ps i x) = some key := hkey
          rw [faultIn?_eq_some_iff hnode]
          simp only [Watched.visited_blind, List.not_mem_nil, false_and, exists_false, or_false]
          rfl
      | none =>
          have hown : faultIn? b (.node a ps i x) = match a.arg, Kind.ofTag a.type with
              | some _, _ => none
              | none, .object => if ps.isNone then some .hollowObject else none
              | none, _ => some (.unboundNode a.name) := by
            rw [faultIn?, show Schema.arg (.node a ps i x) = none from hkey]
            rfl
          rw [hown, hkey]
          cases Kind.ofTag a.type with
          | object =>
              simp only
              rw [buildProps_eq_error_iff]
              cases ps <;> simp [eq_comm]
          | _ => simp

theorem buildProps_eq_error_iff : ∀ {ps : Option (List Schema)},
    buildProps b ps = .error f ↔
      (ps = none ∧ f = .hollowObject) ∨
        ∃ n ∈ (buildPropsWatched b ps).visited, n.memberFaultIn? b = some f
  | none => by simp [buildProps, buildPropsWatched, eq_comm]
  | some ps => by
      rw [buildProps, buildPropsWatched, Except.map_eq_error_iff, buildMembers_eq_error_iff,
        Watched.visited_bind_pure]
      simp

theorem buildMembers_eq_error_iff : ∀ {ps : List Schema},
    buildMembers b ps = .error f ↔
      ∃ n ∈ (buildMembersWatched b ps).visited, n.memberFaultIn? b = some f
  | [] => by simp [buildMembers, buildMembersWatched]
  | s :: r => by
      cases hname : s.name with
      | none => simp [buildMembers, buildMembersWatched, Watched.visited_bind, memberFaultIn?, hname]
      | some name =>
          have hs := build_eq_error_iff (s := s)
          have hr : buildMembers b r = .error f ↔ _ := buildMembers_eq_error_iff
          have hmember : s.memberFaultIn? b = s.faultIn? b := by simp [memberFaultIn?, hname]
          rw [buildMembers_of_named hname, visited_buildMembersWatched_of_named hname]
          simp only [List.mem_cons, List.mem_append, or_and_right, exists_or, exists_eq_left, hmember]
          rw [← or_assoc, ← hs]
          cases hbuild : build b s with
          | error e => simp
          | ok v =>
              -- the member has a value, so what fails is one of the members after it
              rw [Except.ok_bind, ← hr]
              cases buildMembers b r <;> simp

end

/-- **A body fails for a node that was looked at.** It fails exactly if something is wrong with the root or with
a member that building it looks at, or with the value that is bound for it. -/
theorem body_fails_iff {s : Schema} :
    s.body b = .error f ↔
      s.rootFaultIn? b = some f ∨ ∃ n ∈ s.visited b, n.memberFaultIn? b = some f := by
  rw [visited, rootFaultIn?]
  rcases body_cases s with ⟨ps, hopen, -, hbody⟩ | ⟨hopen, hbody⟩
  · rw [hopen, (hbody b).1, (hbody b).2, Except.map_eq_error_iff, buildMembers_eq_error_iff,
      Watched.visited_bind_pure]
    simp
  · rw [hopen, (hbody b).1, (hbody b).2, Except.map_eq_error_iff, build_eq_error_iff,
      Watched.visited_bind_pure]
    simp

theorem faultIn?_iff_ownFault? (hf : f.OfDocument) {s : Schema} :
    s.faultIn? b = some f ↔ s.ownFault? = some f := by
  cases harg : s.arg with
  | none => rw [faultIn?, harg]
  | some arg =>
      have hown : s.ownFault? = none := by rw [ownFault?, harg]
      rw [faultIn?_eq_some_iff harg, hown, iff_false_right (Option.some_ne_none f).symm]
      exact fun h => not_ofDocument_of_argValue h hf

theorem memberFaultIn?_iff_memberFault? (hf : f.OfDocument) {s : Schema} :
    s.memberFaultIn? b = some f ↔ s.memberFault? = some f := by
  rw [memberFaultIn?, memberFault?]
  cases s.name with
  | none => rfl
  | some name => exact faultIn?_iff_ownFault? hf

/-- **A fault of the schema is that of a node that was looked at.** A body fails for the document exactly if
something is wrong with the root or with a member that building it looks at. -/
theorem body_eq_error_iff (hf : f.OfDocument) {s : Schema} :
    s.body b = .error f ↔ s.rootFault? = some f ∨ ∃ n ∈ s.visited b, n.memberFault? = some f := by
  have hroot : s.rootFaultIn? b = some f ↔ s.rootFault? = some f := by
    rw [rootFaultIn?, rootFault?]
    cases s.isOpenRoot with
    | true => rfl
    | false => exact faultIn?_iff_ownFault? hf
  simp only [body_fails_iff, hroot, memberFaultIn?_iff_memberFault? hf]

/-! ### Nodes of the walk -/

theorem self_mem_walk (s : Schema) : s ∈ s.walk := by
  cases s with
  | node a ps i x =>
      rw [walk]
      exact List.mem_cons_self

variable {n : Schema}

mutual

theorem mem_walk_of_mem_buildWatched : ∀ {s : Schema}, n ∈ (buildWatched b s).visited → n ∈ s.walk
  | .node a ps i x, hn => by
      rw [buildWatched] at hn
      cases harg : a.arg with
      | some arg =>
          rw [harg] at hn
          cases hn
      | none =>
          rw [harg] at hn
          cases hkind : Kind.ofTag a.type with
          | object =>
              rw [hkind] at hn
              rw [walk]
              exact List.mem_cons_of_mem _ (List.mem_append_left _ (mem_walkProps_of_mem_buildPropsWatched hn))
          | _ =>
              rw [hkind] at hn
              cases hn

theorem mem_walkProps_of_mem_buildPropsWatched : ∀ {ps : Option (List Schema)},
    n ∈ (buildPropsWatched b ps).visited → n ∈ walkProps ps
  | none, hn => by cases hn
  | some ps, hn => by
      rw [buildPropsWatched, Watched.visited_bind_pure] at hn
      rw [walkProps]
      exact mem_walkList_of_mem_buildMembersWatched hn

theorem mem_walkList_of_mem_buildMembersWatched : ∀ {ps : List Schema},
    n ∈ (buildMembersWatched b ps).visited → n ∈ walkList ps
  | [], hn => by cases hn
  | s :: r, hn => by
      rw [walkList, List.mem_append]
      cases hname : s.name with
      | none =>
          simp only [buildMembersWatched, hname, Watched.visited_bind, Watched.visited_look,
            Watched.outcome_look, Watched.visited_blind, List.append_nil, List.mem_singleton] at hn
          exact .inl (hn ▸ self_mem_walk s)
      | some name =>
          rw [visited_buildMembersWatched_of_named hname, List.mem_cons, List.mem_append] at hn
          rcases hn with rfl | hn | hn
          · exact .inl (self_mem_walk n)
          · exact .inl (mem_walk_of_mem_buildWatched hn)
          · cases hbuild : build b s with
            | error e =>
                rw [hbuild] at hn
                cases hn
            | ok v =>
                rw [hbuild] at hn
                exact .inr (mem_walkList_of_mem_buildMembersWatched hn)

end

/-- Building comes to no node that the walk leaves out. -/
theorem mem_walk_of_mem_visited {s : Schema} (hn : n ∈ s :: s.visited b) : n ∈ s.walk := by
  rcases List.mem_cons.1 hn with rfl | hmember
  · exact self_mem_walk n
  rw [visited] at hmember
  rcases body_cases s with ⟨ps, -, hprops, hbody⟩ | ⟨-, hbody⟩
  · rw [(hbody b).2, Watched.visited_bind_pure] at hmember
    cases s with
    | node a ps' i x =>
        obtain rfl : ps' = some ps := hprops
        rw [walk, walkProps]
        exact List.mem_cons_of_mem _
          (List.mem_append_left _ (mem_walkList_of_mem_buildMembersWatched hmember))
  · rw [(hbody b).2, Watched.visited_bind_pure] at hmember
    exact mem_walk_of_mem_buildWatched hmember

end Schema

/-! ### Documents that were read -/

namespace Schema

theorem isHollow_of_ownFault? {s : Schema} (h : s.ownFault? = some .hollowObject) :
    Command.isHollow s = true := by
  rw [ownFault?] at h
  rw [Command.isHollow]
  split at h
  · cases h
  · rename_i harg hkind
    split at h
    · rename_i hprops
      simp [harg, hkind, hprops]
    · cases h
  · cases h

theorem isHollow_of_memberFault? {s : Schema} (h : s.memberFault? = some .hollowObject) :
    Command.isHollow s = true := by
  rw [memberFault?] at h
  split at h
  · cases h
  · exact isHollow_of_ownFault? h

end Schema

namespace Command

variable {j : Json} {c : Command} {o : Operation} {s : Schema}

/-- The objects of a body were all checked when the document was read. -/
theorem not_isHollow_of_mem_walk (hj : ofJson j = .valid c) (ho : o ∈ c.operations)
    (hs : o.bodySchema = some s) {n : Schema} (hn : n ∈ s.walk) : isHollow n = false := by
  have hflaw := flaw?_of_ofJson hj
  rw [flaw?] at hflaw
  have hbody := List.findSome?_eq_none_iff.1 (Option.or_eq_none_iff.1 hflaw).2 o ho
  rw [bodyFlaw?, hs] at hbody
  have hnone : s.walk.find? isHollow = none := by
    cases hfind : s.walk.find? isHollow with
    | none => rfl
    | some m =>
        rw [Option.bind_eq_bind, Option.bind_some, hfind] at hbody
        cases hbody
  exact Bool.eq_false_iff.2 (List.find?_eq_none.1 hnone n hn)

/-- **The objects of a document that was read can all be built.** Whatever is bound, no body fails for an
object without argument and members: every node that building comes to, the root or a member that is looked
at, is one that was checked when the document was read. -/
theorem body_ne_hollow (hj : ofJson j = .valid c) (ho : o ∈ c.operations) (hs : o.bodySchema = some s)
    (b : Bound) :
    s.body b ≠ .error .hollowObject ∧ (s.bodyWatched b).outcome = s.body b ∧
      ∀ n ∈ s :: s.visited b, n ∈ s.walk ∧ isHollow n = false := by
  have hchecked : ∀ n ∈ s :: s.visited b, n ∈ s.walk ∧ isHollow n = false := fun n hn =>
    have hwalk := Schema.mem_walk_of_mem_visited hn
    ⟨hwalk, not_isHollow_of_mem_walk hj ho hs hwalk⟩
  refine ⟨fun hbody => ?_, Schema.outcome_bodyWatched b s, hchecked⟩
  -- such a fault would be that of a node that was looked at
  have hollow : ∃ n ∈ s :: s.visited b, isHollow n = true := by
    rcases (Schema.body_eq_error_iff (BodyFault.ofDocument_iff.2 (.inr (.inl rfl)))).1 hbody with
      hroot | ⟨n, hn, hfault⟩
    · rw [Schema.rootFault?] at hroot
      split at hroot
      · cases hroot
      · exact ⟨s, List.mem_cons_self, Schema.isHollow_of_ownFault? hroot⟩
    · exact ⟨n, List.mem_cons_of_mem s hn, Schema.isHollow_of_memberFault? hfault⟩
  obtain ⟨n, hn, htrue⟩ := hollow
  exact absurd ((hchecked n hn).2.symm.trans htrue) Bool.false_ne_true

/-! ### An object inside an object -/

/-- A document of one operation, which puts a body of a schema. -/
def bodyDocument (schema : Json) : Json :=
  .obj [("operations", .arr [.obj [("operationId", .str "Things_Put"),
    ("http", .obj [("path", .str "/things"), ("request", .obj [("method", .str "PUT"),
      ("body", .obj [("json", .obj [("schema", schema)])])])])]])]

/-- The operation of the document. -/
def bodyOperation (s : Schema) : Operation where
  operationId := some "Things_Put"
  http := some { path := "/things", request := { method := "PUT", body := some { schema := some s } } }

/-- A schema of an object with an object of one text in it, and with an object that is taken whole. -/
def sizedDocument : Json :=
  .obj [("type", .str "object"), ("props", .arr [
    .obj [("type", .str "object"), ("name", .str "properties"), ("props", .arr [
      .obj [("type", .str "string"), ("name", .str "size"), ("arg", .str "$size")]])],
    .obj [("type", .str "object"), ("name", .str "tags"), ("arg", .str "$tags")]])]

/-- The schema. -/
def sized : Schema :=
  .node { type := "object" } (some [
    .node { type := "object", name := some "properties" }
      (some [.node { type := "string", name := some "size", arg := some "$size" } none none none]) none none,
    .node { type := "object", name := some "tags", arg := some "$tags" } none none none]) none none

/-- With a size that fits and tags that do not, building looks at all three members, and it fails for the
tags. -/
theorem body_ne_hollow_of_sized :
    ∃ j c o s, ofJson j = .valid c ∧ o ∈ c.operations ∧ o.bodySchema = some s ∧
      (s.visited [("$size", .text "x"), ("$tags", .int 1)]).map Schema.name =
        [some "properties", some "size", some "tags"] ∧
      s.body [("$size", .text "x"), ("$tags", .int 1)] = .error (.wantsJson "$tags" (.int 1)) ∧
      s.body [("$size", .text "x"), ("$tags", .int 1)] ≠ .error .hollowObject ∧
      ∀ n ∈ s.visited [("$size", .text "x"), ("$tags", .int 1)], n ∈ s.walk ∧ isHollow n = false := by
  have hj : ofJson (bodyDocument sizedDocument) = .valid { operations := [bodyOperation sized] } :=
    ofJson_eq_valid_iff.2 ⟨by rfl, by decide +kernel⟩
  have h := body_ne_hollow hj List.mem_cons_self rfl [("$size", .text "x"), ("$tags", .int 1)]
  exact ⟨_, _, _, _, hj, List.mem_cons_self, rfl, by decide +kernel, by with_unfolding_all rfl, h.1,
    fun n hn => h.2.2 n (List.mem_cons_of_mem _ hn)⟩

end Command

end Restline
