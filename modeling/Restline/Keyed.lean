/-!
Keyed lists: pairs of a key and a value in the order in which the keys first came. Putting a value
under a key that is there keeps the key's place.

* `Keyed.get?`, `Keyed.has` : look-up.
* `Keyed.put`, `Keyed.erase`, `Keyed.union` : changes.
* `get?_put` : a value that is put is found, and no other key is touched.
-/

set_option autoImplicit false

namespace Restline

/-- Pairs of a key and a value, in the order of the keys' first appearance. -/
abbrev Keyed (α : Type) := List (String × α)

namespace Keyed

variable {α : Type}

/-- The value under a key. -/
def get? : Keyed α → String → Option α
  | [], _ => none
  | (k, v) :: r, key => if k = key then some v else get? r key

/-- The key has a value. -/
def has (m : Keyed α) (key : String) : Bool := (m.get? key).isSome

/-- The list with a value under a key, in the key's place or at the end. -/
def put : Keyed α → String → α → Keyed α
  | [], key, v => [(key, v)]
  | (k, w) :: r, key, v => if k = key then (k, v) :: r else (k, w) :: put r key v

/-- The list without a key. -/
def erase (m : Keyed α) (key : String) : Keyed α := m.filter (fun e => e.1 ≠ key)

/-- The first list with the pairs of the second put into it in order. -/
def union (m n : Keyed α) : Keyed α := n.foldl (fun acc e => acc.put e.1 e.2) m

/-- The keys in order. -/
def keys (m : Keyed α) : List String := m.map (·.1)

/-- Pairs as a keyed list: the last value of a key counts, in the key's first place. -/
def ofPairs (l : List (String × α)) : Keyed α := union [] l

@[simp] theorem get?_nil (key : String) : get? ([] : Keyed α) key = none := rfl

theorem get?_cons (k : String) (v : α) (r : Keyed α) (key : String) :
    get? ((k, v) :: r) key = if k = key then some v else get? r key := rfl

theorem get?_put (m : Keyed α) (key key' : String) (v : α) :
    (m.put key v).get? key' = if key = key' then some v else m.get? key' := by
  induction m with
  | nil => simp [put, get?]
  | cons e r ih =>
    obtain ⟨k, w⟩ := e
    by_cases h : k = key
    · subst h
      by_cases h' : k = key' <;> simp [put, get?, h']
    · by_cases h' : k = key'
      · subst h'
        simp [put, get?, h, Ne.symm h]
      · simp [put, get?, h, h', ih]

end Keyed

end Restline
