import Mathlib.Algebra.Ring.Parity
import Restline.Proofs.Dependence

/-!
Conditions that keep holding when other arguments are bound. What an argument does for an expression depends on the
negations around it: below an even number of them it helps to be bound, below an odd number not to be. An expression
that holds keeps holding when arguments of the first kind are bound in addition and arguments of the second kind are
no longer bound.

* `Operator.namings` : the arguments that an expression names, with the number of negations around each.
* `Operator.Favours` : bound arguments that are at least as good as others for an expression.
* `Operator.holds_of_favours` : one negation exchanges the two sides, everything else keeps them.
* `Operator.holds_of_even_of_odd` : **an expression that holds keeps holding**.
-/

set_option autoImplicit false

namespace Restline.Operator

/-! ### Arguments below negations -/

mutual

/-- The arguments that an expression names, in order, each with the number of negations around it. -/
def namings : Operator → List (String × ℕ)
  | .hasValue arg => [(arg, 0)]
  | .not o => o.namings.map fun a => (a.1, a.2 + 1)
  | .all os => listNamings os
  | .any os => listNamings os

/-- The arguments that the expressions of a list name, each with the number of negations around it. -/
def listNamings : List Operator → List (String × ℕ)
  | [] => []
  | o :: r => o.namings ++ listNamings r

end

mutual

/-- These are the arguments that the expression names. -/
theorem map_fst_namings : ∀ o : Operator, o.namings.map Prod.fst = o.args
  | .hasValue arg => rfl
  | .not o => by rw [namings, args, ← map_fst_namings o, List.map_map]; rfl
  | .all os => by rw [namings, args, map_fst_listNamings os]
  | .any os => by rw [namings, args, map_fst_listNamings os]

theorem map_fst_listNamings : ∀ os : List Operator, (listNamings os).map Prod.fst = listArgs os
  | [] => rfl
  | o :: r => by rw [listNamings, listArgs, List.map_append, map_fst_namings o, map_fst_listNamings r]

end

/-- Of some arguments below negations, the second bound arguments bind those below an even number that the first
bind, and of those below an odd number none but what the first bind. -/
def Favours (l : List (String × ℕ)) (b b' : Bound) : Prop :=
  ∀ a ∈ l, (Even a.2 → b.has a.1 = true → b'.has a.1 = true) ∧ (Odd a.2 → b'.has a.1 = true → b.has a.1 = true)

variable {b b' : Bound}

theorem favours_append {l r : List (String × ℕ)} : Favours (l ++ r) b b' ↔ Favours l b b' ∧ Favours r b b' :=
  List.forall_mem_append

/-- One more negation exchanges the two sides. -/
theorem favours_negated {l : List (String × ℕ)} :
    Favours (l.map fun a => (a.1, a.2 + 1)) b b' ↔ Favours l b' b := by
  simp only [Favours, List.forall_mem_map, Nat.even_add_one, Nat.odd_add_one, Nat.not_even_iff_odd,
    Nat.not_odd_iff_even]
  exact forall₂_congr fun _ _ => and_comm

/-! ### Expressions -/

mutual

/-- An expression that holds keeps holding for bound arguments that are at least as good. -/
theorem holds_of_favours : ∀ {o : Operator} {b b' : Bound}, Favours o.namings b b' →
    o.holds b = true → o.holds b' = true
  | .hasValue arg, _, _, hfavours, h => (hfavours (arg, 0) (List.mem_singleton_self _)).1 Even.zero h
  | .not o, b, b', hfavours, h => by
      rw [holds, Bool.not_eq_true', Bool.eq_false_iff] at h ⊢
      -- the sides change places: if the operand held for the second, it would hold for the first
      exact fun h' => h (holds_of_favours (favours_negated.1 hfavours) h')
  | .all os, _, _, hfavours, h => allHold_of_favours hfavours h
  | .any os, _, _, hfavours, h => anyHolds_of_favours hfavours h

theorem allHold_of_favours : ∀ {os : List Operator} {b b' : Bound}, Favours (listNamings os) b b' →
    allHold b os = true → allHold b' os = true
  | [], _, _, _, _ => rfl
  | o :: r, b, b', hfavours, h => by
      obtain ⟨hfo, hfr⟩ := favours_append.1 hfavours
      rw [allHold, Bool.and_eq_true] at h ⊢
      exact ⟨holds_of_favours hfo h.1, allHold_of_favours hfr h.2⟩

theorem anyHolds_of_favours : ∀ {os : List Operator} {b b' : Bound}, Favours (listNamings os) b b' →
    anyHolds b os = true → anyHolds b' os = true
  | [], _, _, _, h => by cases h
  | o :: r, b, b', hfavours, h => by
      obtain ⟨hfo, hfr⟩ := favours_append.1 hfavours
      rw [anyHolds, Bool.or_eq_true] at h ⊢
      exact h.imp (holds_of_favours hfo) (anyHolds_of_favours hfr)

end

/-- Without negations an expression that holds keeps holding when more of its arguments are bound. -/
theorem holds_of_subset {o : Operator} (hplain : ∀ a ∈ o.namings, a.2 = 0)
    (hb : ∀ arg ∈ o.args, b.has arg = true → b'.has arg = true) (h : o.holds b = true) : o.holds b' = true := by
  refine holds_of_favours (fun a ha => ⟨fun _ => hb a.1 ?_, fun hodd => ?_⟩) h
  · rw [← map_fst_namings]
    exact List.mem_map_of_mem ha
  · rw [hplain a ha] at hodd
    exact absurd hodd (by decide)

/-- **An expression that holds keeps holding.** If every argument below an even number of negations that is bound
stays bound, and every argument below an odd number of negations that is bound now was bound before, an expression
that held holds. -/
theorem holds_of_even_of_odd {o : Operator}
    (heven : ∀ a ∈ o.namings, Even a.2 → b.has a.1 = true → b'.has a.1 = true)
    (hodd : ∀ a ∈ o.namings, Odd a.2 → b'.has a.1 = true → b.has a.1 = true)
    (h : o.holds b = true) : o.holds b' = true :=
  holds_of_favours (fun a ha => ⟨heven a ha, hodd a ha⟩) h

/-- A name stands below no negation and below one, so it stays as it is; a size below one is no longer bound, and a
tag below two stays bound. -/
theorem holds_of_even_of_odd_named :
    let o : Operator := .all [.any [.hasValue "$name", .not (.hasValue "$name")],
      .not (.all [.hasValue "$size", .not (.hasValue "$tag")])]
    let b : Bound := [("$name", .text "x"), ("$size", .int 1), ("$tag", .text "t")]
    let b' : Bound := [("$tag", .text "u"), ("$name", .text "y"), ("$owner", .text "z")]
    o.namings = [("$name", 0), ("$name", 1), ("$size", 1), ("$tag", 2)] ∧
      (∀ a ∈ o.namings, Even a.2 → b.has a.1 = true → b'.has a.1 = true) ∧
      (∀ a ∈ o.namings, Odd a.2 → b'.has a.1 = true → b.has a.1 = true) ∧
      o.holds b = true ∧ o.holds b' = true := by
  intro o b b'
  have heven : ∀ a ∈ o.namings, Even a.2 → b.has a.1 = true → b'.has a.1 = true := by decide
  have hodd : ∀ a ∈ o.namings, Odd a.2 → b'.has a.1 = true → b.has a.1 = true := by decide
  have hholds : o.holds b = true := by decide
  exact ⟨by decide, heven, hodd, hholds, holds_of_even_of_odd heven hodd hholds⟩

end Restline.Operator
