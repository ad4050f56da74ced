/-!
Texts in order. Texts are compared by code points, the first that differs deciding.

* `sorted` : texts in ascending order.
* `greatest?` : the last of them in this order.
-/

set_option autoImplicit false

namespace Restline.Text

/-- The texts in ascending order. -/
def sorted (l : List String) : List String := l.mergeSort (fun a b => decide (a ≤ b))

/-- Pairs in ascending order of their keys. -/
def sortedByKey {α : Type} (l : List (String × α)) : List (String × α) :=
  l.mergeSort (fun a b => decide (a.1 ≤ b.1))

/-- The greatest of the texts. -/
def greatest? : List String → Option String
  | [] => none
  | s :: r => some (r.foldl (fun m t => if m < t then t else m) s)

end Restline.Text
