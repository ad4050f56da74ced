import Mathlib.Data.List.Basic
import Mathlib.Data.List.Find
import Restline.Invocation
import Restline.Proofs.Requests

/-!
What a request depends on. A document names arguments in four places: in its conditions, which look only
at whether an argument is bound, and in paths, queries and bodies, which take its value. Bound arguments
that are alike there prepare the same request, or fail in the same way.

* `Bound.BindAlike`, `Bound.AgreeOn` : bound arguments that bind the same of some arguments, and that give
  them the same values.
* `Operator.args`, `Operation.args` : the arguments that an expression and that an operation name.
* `Operator.holds_congr`, `Schema.build_congr`, `Operation.request_congr` : each part of a document looks
  at no other argument.
* `Command.prepare_congr` : **a request depends on the named arguments only**.
-/

set_option autoImplicit false

namespace Restline

variable {b b' : Bound}

/-! ### Bound arguments that are alike -/

namespace Bound

/-- The same of some arguments are bound. -/
def BindAlike (args : List String) (b b' : Bound) : Prop := ∀ a ∈ args, b.has a = b'.has a

/-- Some arguments have the same values, or have none on both sides. -/
def AgreeOn (args : List String) (b b' : Bound) : Prop := ∀ a ∈ args, b.get? a = b'.get? a

instance (args : List String) (b b' : Bound) : Decidable (BindAlike args b b') := by
  unfold BindAlike
  infer_instance

instance (args : List String) (b b' : Bound) : Decidable (AgreeOn args b b') := by
  unfold AgreeOn
  infer_instance

theorem BindAlike.mono {args args' : List String} (h : BindAlike args' b b') (hsub : args ⊆ args') :
    BindAlike args b b' :=
  fun a ha => h a (hsub ha)

theorem AgreeOn.mono {args args' : List String} (h : AgreeOn args' b b') (hsub : args ⊆ args') :
    AgreeOn args b b' :=
  fun a ha => h a (hsub ha)

theorem bindAlike_append {l r : List String} :
    BindAlike (l ++ r) b b' ↔ BindAlike l b b' ∧ BindAlike r b b' :=
  List.forall_mem_append

theorem agreeOn_append {l r : List String} :
    AgreeOn (l ++ r) b b' ↔ AgreeOn l b b' ∧ AgreeOn r b b' :=
  List.forall_mem_append

end Bound

open Restline.Bound

/-! ### Conditions -/

namespace Operator

mutual

/-- The arguments that an expression names. -/
def args : Operator → List String
  | .hasValue arg => [arg]
  | .not o => o.args
  | .all os => listArgs os
  | .any os => listArgs os

/-- The arguments that the expressions of a list name. -/
def listArgs : List Operator → List String
  | [] => []
  | o :: r => o.args ++ listArgs r

end

mutual

/-- An expression looks at nothing but whether the arguments that it names are bound. -/
theorem holds_congr : ∀ {o : Operator}, BindAlike o.args b b' → o.holds b = o.holds b'
  | .hasValue arg, h => h arg (List.mem_singleton_self arg)
  | .not o, h => by rw [holds, holds, holds_congr (o := o) h]
  | .all os, h => by rw [holds, holds, allHold_congr h]
  | .any os, h => by rw [holds, holds, anyHolds_congr h]

theorem allHold_congr : ∀ {os : List Operator}, BindAlike (listArgs os) b b' →
    allHold b os = allHold b' os
  | [], _ => rfl
  | o :: r, h => by
      obtain ⟨ho, hr⟩ := bindAlike_append.1 h
      rw [allHold, allHold, holds_congr ho, allHold_congr hr]

theorem anyHolds_congr : ∀ {os : List Operator}, BindAlike (listArgs os) b b' →
    anyHolds b os = anyHolds b' os
  | [], _ => rfl
  | o :: r, h => by
      obtain ⟨ho, hr⟩ := bindAlike_append.1 h
      rw [anyHolds, anyHolds, holds_congr ho, anyHolds_congr hr]

end

end Operator

/-- The arguments that conditions name. -/
def Condition.args (cs : List Condition) : List String := cs.flatMap fun c => c.operator.args

theorem Condition.firstThatHolds_congr {cs : List Condition} (h : BindAlike (args cs) b b') :
    firstThatHolds cs b = firstThatHolds cs b' := by
  have hall : ∀ c ∈ cs, c.operator.holds b = c.operator.holds b' := fun c hc =>
    Operator.holds_congr (h.mono fun a ha => List.mem_flatMap.2 ⟨c, hc, ha⟩)
  rw [firstThatHolds, firstThatHolds, List.find?_congr hall]

/-! ### Bodies -/

namespace Schema

/-- The arguments that the nodes of a list name. -/
def argsOf (nodes : List Schema) : List String := nodes.filterMap arg

theorem argsOf_append (l r : List Schema) : argsOf (l ++ r) = argsOf l ++ argsOf r :=
  List.filterMap_append

theorem argValue_congr {arg : String} {k : Kind} (h : b.get? arg = b'.get? arg) :
    argValue b arg k = argValue b' arg k := by
  rw [argValue, argValue, h]

theorem agreeOn_walkProps {a : Attributes} {ps : Option (List Schema)} {i : Option Schema}
    {x : Option (Option Schema)} (h : AgreeOn (argsOf (walk (.node a ps i x))) b b') :
    AgreeOn (argsOf (walkProps ps)) b b' := by
  rw [walk] at h
  exact h.mono fun y hy =>
    List.filterMap_subset _ (fun n hn => List.mem_cons_of_mem _ (List.mem_append_left _ hn)) hy

mutual

/-- A node looks at nothing but the values of the arguments that it and the nodes below it name. -/
theorem build_congr : ∀ {s : Schema}, AgreeOn (argsOf s.walk) b b' → build b s = build b' s
  | .node a ps i x, h => by
      cases harg : a.arg with
      | some arg =>
          have hmem : arg ∈ argsOf (walk (.node a ps i x)) := by
            rw [walk]
            exact List.mem_filterMap.2 ⟨_, List.mem_cons_self, harg⟩
          simp only [build, harg, argValue_congr (h arg hmem)]
      | none =>
          rw [build, build, harg]
          -- without an argument only an object has a value, which its members make up
          cases Kind.ofTag a.type with
          | object => exact buildProps_congr (agreeOn_walkProps h)
          | _ => rfl

theorem buildProps_congr : ∀ {ps : Option (List Schema)}, AgreeOn (argsOf (walkProps ps)) b b' →
    buildProps b ps = buildProps b' ps
  | none, _ => rfl
  | some ps, h => by rw [buildProps, buildProps, buildMembers_congr h]

theorem buildMembers_congr : ∀ {ps : List Schema}, AgreeOn (argsOf (walkList ps)) b b' →
    buildMembers b ps = buildMembers b' ps
  | [], _ => rfl
  | s :: r, h => by
      rw [walkList, argsOf_append] at h
      obtain ⟨hs, hr⟩ := agreeOn_append.1 h
      rw [buildMembers, buildMembers, build_congr hs, buildMembers_congr hr]

end

theorem body_congr {s : Schema} (h : AgreeOn (argsOf s.walk) b b') : s.body b = s.body b' := by
  cases s with
  | node a ps i x =>
      unfold body
      split
      · rename_i members _ hmembers
        obtain rfl : ps = some members := hmembers
        have hprops : AgreeOn (argsOf (walkList members)) b b' := agreeOn_walkProps h
        rw [buildMembers_congr hprops]
      · rw [build_congr h]

end Schema

/-! ### Requests -/

namespace Operation

/-- The arguments that an operation takes values of: those of placeholders, of query parameters, and of the
nodes of its body. -/
def args (o : Operation) : List String :=
  match o.http with
  | none => []
  | some h => h.request.pathParams.map (·.arg) ++ h.request.queryParams.map (·.arg)
      ++ (o.bodySchema.map fun s => Schema.argsOf s.walk).getD []

theorem fill_congr {ps : List PathParam} (h : AgreeOn (ps.map (·.arg)) b b') (path : String) :
    fill b ps path = fill b' ps path := by
  induction ps generalizing path with
  | nil => rfl
  | cons p r ih =>
      have hp : b.get? p.arg = b'.get? p.arg := h p.arg List.mem_cons_self
      rw [fill, fill, hp]
      cases b'.get? p.arg with
      | none => rfl
      | some v => exact ih (h.mono (List.subset_cons_self _ _)) _

theorem boundValues_congr {ps : List QueryParam} (h : AgreeOn (ps.map (·.arg)) b b') :
    boundValues b ps = boundValues b' ps := by
  have hall : ∀ q ∈ ps, (b.get? q.arg).map (fun v => (q.name, Json.str v.toText)) =
      (b'.get? q.arg).map (fun v => (q.name, Json.str v.toText)) := fun q hq => by
    rw [h q.arg (List.mem_map_of_mem hq)]
  exact List.filterMap_congr hall

theorem requestBody_congr {o : Operation}
    (h : AgreeOn ((o.bodySchema.map fun s => Schema.argsOf s.walk).getD []) b b')
    (given : Option Json) : o.requestBody b given = o.requestBody b' given := by
  unfold requestBody
  split
  · cases given with
    | some j => rfl
    | none =>
        cases hs : o.bodySchema with
        | none => rfl
        | some s =>
            rw [hs] at h
            exact Schema.body_congr h
  · rfl

/-- A request looks at nothing but the values of the arguments that its operation names. -/
theorem request_congr {o : Operation} (h : AgreeOn o.args b b') (r : Option ResourceId)
    (given : Option Json) (version : Option String) :
    o.request b r given version = o.request b' r given version := by
  cases hh : o.http with
  | none => rw [request, request, hh]
  | some http =>
      simp only [args, hh] at h
      obtain ⟨hfront, hbody⟩ := agreeOn_append.1 h
      obtain ⟨hpath, hquery⟩ := agreeOn_append.1 hfront
      have hp : pathOfBound http b = pathOfBound http b' := fill_congr hpath _
      have hq : query http b version = query http b' version := by
        rw [query, query, boundValues_congr hquery]
      simp only [request, hh, hp, hq, requestBody_congr hbody]

end Operation

/-! ### Commands -/

namespace Command

/-- The arguments that the conditions of a command name. -/
def conditionArgs (c : Command) : List String := Condition.args (c.conditions.getD [])

/-- The arguments that the operations of a command take values of. -/
def operationArgs (c : Command) : List String := c.operations.flatMap (·.args)

theorem select_congr {c : Command} (h : BindAlike c.conditionArgs b b') (r : Option ResourceId) :
    c.select b r = c.select b' r := by
  cases hc : c.conditions with
  | none => rw [select, select, hc]
  | some cs =>
      rw [conditionArgs, hc, Option.getD_some] at h
      rw [select, select, hc]
      simp only [Condition.firstThatHolds_congr h]

/-- The selected operation is one of the command. -/
theorem mem_operations_of_select {c : Command} {r : Option ResourceId} {o : Operation}
    (h : c.select b r = .ok o) : o ∈ c.operations := by
  unfold select at h
  split at h
  · split at h
    · rename_i hos
      obtain rfl := Except.ok.inj h
      rw [hos]
      exact List.mem_singleton_self _
    · cases h
  · -- the tag is that of the identifier or that of the conditions
    split at h
    all_goals
      simp only at h
      split at h
      · rename_i hfound
        obtain rfl := Except.ok.inj h
        obtain ⟨tag, -, htag⟩ := Option.bind_eq_some_iff.1 hfound
        exact List.mem_of_find?_eq_some htag
      · cases h

/-- **A request depends on the named arguments only.** Bound arguments that bind the same of the arguments
in conditions, and give the arguments in paths, queries and bodies the same values, prepare the same
operation and request, or fail in the same way. -/
theorem prepare_congr (c : Command) (hbind : BindAlike c.conditionArgs b b')
    (hvalue : AgreeOn c.operationArgs b b') (r : Option ResourceId) (body : Option Json)
    (version : Option String) : c.prepare b r body version = c.prepare b' r body version := by
  rw [prepare, prepare, select_congr hbind]
  cases ho : c.select b' r with
  | error e => simp only [Except.mapError_error, Except.error_bind]
  | ok o =>
      have hsub : o.args ⊆ c.operationArgs := fun a ha =>
        List.mem_flatMap.2 ⟨o, mem_operations_of_select ho, ha⟩
      simp only [Except.mapError_ok, Except.ok_bind, Operation.request_congr (hvalue.mono hsub)]

/-! ### A command that names four arguments -/

/-- A command that puts a thing under its name if a size is given; the body is a tag. -/
def putThing : Command where
  conditions := some [⟨"$Put", .hasValue "$size"⟩]
  operations :=
    [{ operationId := some "Things_Put", tags := some ["$Put"],
       http := some { path := "/things/\x7bname\x7d", request :=
         { method := "PUT", pathParams := [{ name := "name", arg := "$name" }],
           queryParams := [{ name := "force", arg := "$force" }],
           body := some { schema := some (.node { type := "object" }
             (some [.node { type := "string", name := some "tag", arg := some "$tag" } none none none])
             none none) } } } }]

/-- A size that only a condition names may be another one, and an argument that is not named may be bound
or not. -/
theorem prepare_congr_putThing :
    let b : Bound := [("$name", .text "x"), ("$tag", .text "t"), ("$size", .int 3)]
    let b' : Bound := [("$size", .int 4), ("$owner", .bool true), ("$tag", .text "t"), ("$name", .text "x")]
    BindAlike putThing.conditionArgs b b' ∧ AgreeOn putThing.operationArgs b b' ∧
      putThing.prepare b none none none = putThing.prepare b' none none none ∧
      ((putThing.prepare b none none none).toOption.map fun p => (p.2.method, p.2.path)) =
        some ("PUT", "/things/x") :=
  ⟨by decide, by decide, prepare_congr putThing (by decide) (by decide) none none none, by decide +kernel⟩

end Command

end Restline
