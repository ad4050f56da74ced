import Mathlib.Data.List.Nodup
import Restline.Keyed

/-!
Keyed lists and the pairs that were put into them. Of pairs with one key the last counts; a keyed list that
is made from pairs has every key once.

* `Keyed.last?` : the last value that pairs give a key.
* `Keyed.get?_union`, `Keyed.nodup_keys_union` : **pairs laid over a keyed list**.
* `Keyed.get?_erase`, `Keyed.nodup_keys_erase` : a keyed list without a key.
* `Keyed.map_eq_map_iff` : **two keyed lists of the same keys whose entries look the same**.
-/

set_option autoImplicit false

namespace Restline.Keyed

variable {α β : Type}

/-! ### The last value of a key -/

/-- The last value that pairs give a key. -/
def last? (l : List (String × α)) (key : String) : Option α :=
  l.reverse.findSome? fun e => if e.1 = key then some e.2 else none

@[simp] theorem last?_nil (key : String) : last? ([] : List (String × α)) key = none := rfl

theorem last?_append (l r : List (String × α)) (key : String) :
    last? (l ++ r) key = (last? r key).or (last? l key) := by
  rw [last?, List.reverse_append, List.findSome?_append, ← last?, ← last?]

@[simp] theorem last?_singleton (e : String × α) (key : String) :
    last? [e] key = if e.1 = key then some e.2 else none := by
  rw [last?, List.reverse_singleton, List.findSome?_cons]
  split <;> rename_i h
  · exact h.symm
  · rw [h, List.findSome?_nil]

theorem last?_cons (e : String × α) (r : List (String × α)) (key : String) :
    last? (e :: r) key = (last? r key).or (if e.1 = key then some e.2 else none) := by
  rw [← List.singleton_append, last?_append, last?_singleton]

/-- The last value among pairs that some things give is that of the last thing to give one. -/
theorem last?_filterMap (f : β → Option (String × α)) (l : List β) (key : String) :
    last? (l.filterMap f) key =
      l.reverse.findSome? fun x => (f x).bind fun e => if e.1 = key then some e.2 else none := by
  induction l with
  | nil => rfl
  | cons x r ih =>
      rw [List.filterMap_cons, List.reverse_cons, List.findSome?_append, List.findSome?_singleton, ← ih]
      cases f x with
      | none => rw [Option.bind_none, Option.or_none]
      | some e => exact last?_cons e _ key

/-! ### Keys that come once -/

theorem mem_of_get? {m : Keyed α} {key : String} {v : α}
    (h : m.get? key = some v) : (key, v) ∈ m := by
  induction m with
  | nil => cases h
  | cons e r ih =>
      obtain ⟨k, w⟩ := e
      rw [get?_cons] at h
      split at h
      · rename_i hk
        obtain rfl := Option.some_inj.1 h
        rw [hk]
        exact List.mem_cons_self
      · exact List.mem_cons_of_mem _ (ih h)

theorem get?_eq_none_of_notMem {m : Keyed α} {key : String} (h : key ∉ m.keys) : m.get? key = none := by
  cases hget : m.get? key with
  | none => rfl
  | some v => exact absurd (List.mem_map.2 ⟨_, mem_of_get? hget, rfl⟩) h

/-- A key has a value exactly if it comes in the list. -/
theorem isSome_get?_iff {m : Keyed α} {key : String} : (m.get? key).isSome ↔ key ∈ m.keys := by
  induction m with
  | nil => simp [keys]
  | cons e r ih =>
      obtain ⟨k, w⟩ := e
      rw [get?_cons, keys, List.map_cons, List.mem_cons, ← keys]
      by_cases hk : k = key
      · simp [hk]
      · simp [hk, Ne.symm hk, ih]

theorem mem_keys_put {m : Keyed α} {key k : String} {v : α} :
    k ∈ (m.put key v).keys ↔ k = key ∨ k ∈ m.keys := by
  induction m with
  | nil => simp [put, keys]
  | cons e r ih =>
      obtain ⟨k', w⟩ := e
      by_cases h : k' = key
      · subst h
        simp [put, keys]
      · have hr := ih
        simp only [keys, List.mem_map] at hr
        simp only [put, h, if_false, keys, List.map_cons, List.mem_cons, List.mem_map, hr]
        exact or_left_comm

/-- A key that is new is put at the end. -/
theorem put_of_notMem {m : Keyed α} {key : String} (h : key ∉ m.keys) (v : α) :
    m.put key v = m ++ [(key, v)] := by
  induction m with
  | nil => rfl
  | cons e r ih =>
      obtain ⟨k, w⟩ := e
      obtain ⟨hk, hr⟩ := not_or.1 (List.mem_cons.not.1 h)
      rw [put, if_neg (Ne.symm hk), ih hr]
      rfl

theorem nodup_keys_put {m : Keyed α} (h : m.keys.Nodup) (key : String) (v : α) :
    (m.put key v).keys.Nodup := by
  induction m with
  | nil => exact List.nodup_singleton key
  | cons e r ih =>
      obtain ⟨k, w⟩ := e
      obtain ⟨hk, hr⟩ := List.nodup_cons.1 h
      rw [put]
      split
      · exact h
      · rename_i hne
        refine List.nodup_cons.2 ⟨fun hmem => ?_, ih hr⟩
        rcases mem_keys_put.1 hmem with heq | hmem
        · exact hne heq
        · exact hk hmem

/-- Where keys come once, each pair is found under its key. -/
theorem mem_iff_get? {m : Keyed α} (h : m.keys.Nodup) {key : String} {v : α} :
    (key, v) ∈ m ↔ m.get? key = some v := by
  refine ⟨fun hmem => ?_, mem_of_get?⟩
  induction m with
  | nil => cases hmem
  | cons e r ih =>
      obtain ⟨k, w⟩ := e
      obtain ⟨hk, hr⟩ := List.nodup_cons.1 h
      rw [get?_cons]
      rcases List.mem_cons.1 hmem with heq | hmem
      · cases heq
        rw [if_pos rfl]
      · have hne : k ≠ key := fun heq => hk (List.mem_map.2 ⟨_, hmem, heq.symm⟩)
        rw [if_neg hne]
        exact ih hr hmem

/-- Where keys come once, a key has one value. -/
theorem last?_of_nodup {m : Keyed α} (h : m.keys.Nodup) (key : String) :
    last? m key = m.get? key := by
  induction m with
  | nil => rfl
  | cons e r ih =>
      obtain ⟨k, v⟩ := e
      obtain ⟨hk, hr⟩ := List.nodup_cons.1 h
      rw [last?_cons, ih hr, get?_cons]
      split
      · rename_i heq
        have hnone : get? r key = none := by
          cases hget : get? r key with
          | none => rfl
          | some w =>
              -- a value under the key would be a second one
              rw [← ih hr] at hget
              obtain ⟨e, he, hval⟩ := List.exists_of_findSome?_eq_some hget
              split at hval
              · rename_i hkey
                refine absurd (List.mem_map.2 ⟨e, List.mem_reverse.1 he, ?_⟩) hk
                rw [hkey, ← heq]
              · cases hval
        rw [hnone, Option.none_or]
      · exact Option.or_none

/-! ### Pairs laid over a keyed list -/

/-- The last pair of a key counts, and without one the value that was there. -/
theorem get?_union (m n : Keyed α) (key : String) :
    (union m n).get? key = (last? n key).or (m.get? key) := by
  induction n generalizing m with
  | nil => rfl
  | cons e r ih =>
      have hstep : union m (e :: r) = union (m.put e.1 e.2) r := rfl
      rw [hstep, ih, get?_put, last?_cons, Option.or_assoc]
      split <;> rfl

theorem get?_ofPairs (l : List (String × α)) (key : String) : (ofPairs l).get? key = last? l key := by
  rw [ofPairs, get?_union, get?_nil, Option.or_none]

/-- Pairs whose keys are new and come once are put at the end. -/
theorem union_of_nodup {m n : Keyed α} (h : (m.keys ++ n.keys).Nodup) : union m n = m ++ n := by
  induction n generalizing m with
  | nil => exact (List.append_nil m).symm
  | cons e n ih =>
      obtain ⟨key, v⟩ := e
      have hnew : key ∉ m.keys := fun hmem =>
        (List.nodup_append.1 h).2.2 key hmem key List.mem_cons_self rfl
      have hput := put_of_notMem hnew v
      have hstep : union m ((key, v) :: n) = union (m.put key v) n := rfl
      rw [hstep, hput, ih, List.append_assoc]
      · rfl
      · rwa [keys, List.map_append, List.append_assoc]

theorem nodup_keys_union {m : Keyed α} (h : m.keys.Nodup) (n : Keyed α) : (union m n).keys.Nodup := by
  induction n generalizing m with
  | nil => exact h
  | cons e r ih => exact ih (nodup_keys_put h e.1 e.2)

theorem nodup_keys_ofPairs (l : List (String × α)) : (ofPairs l).keys.Nodup :=
  nodup_keys_union (m := []) List.nodup_nil l

/-! ### A keyed list without a key -/

theorem get?_erase (m : Keyed α) (key key' : String) :
    (m.erase key).get? key' = if key = key' then none else m.get? key' := by
  induction m with
  | nil => rw [erase, List.filter_nil, get?_nil, ite_self]
  | cons e r ih =>
      obtain ⟨k, v⟩ := e
      rw [erase] at ih ⊢
      by_cases hk : k = key
      · rw [List.filter_cons_of_neg (by simp [hk]), ih, get?_cons, hk]
        split <;> rfl
      · rw [List.filter_cons_of_pos (by simp [hk]), get?_cons, ih, get?_cons]
        by_cases hk' : k = key'
        · rw [if_pos hk', if_pos hk', if_neg]
          rintro rfl
          exact hk hk'
        · rw [if_neg hk', if_neg hk']

/-- A key that is not there need not be taken away. -/
theorem erase_of_get?_eq_none {m : Keyed α} {key : String} (h : m.get? key = none) : m.erase key = m := by
  have hkey : key ∉ m.keys := fun hmem => by
    have hsome := isSome_get?_iff.2 hmem
    rw [h] at hsome
    cases hsome
  refine List.filter_eq_self.2 fun e he => decide_eq_true ?_
  rintro rfl
  exact hkey (List.mem_map_of_mem he)

theorem nodup_keys_erase {m : Keyed α} (h : m.keys.Nodup) (key : String) : (m.erase key).keys.Nodup :=
  (List.filter_sublist.map _).nodup h

/-! ### Keyed lists with the same keys -/

theorem keys_put (m : Keyed α) (key : String) (v : α) :
    (m.put key v).keys = if key ∈ m.keys then m.keys else m.keys ++ [key] := by
  split
  · rename_i hmem
    induction m with
    | nil => cases hmem
    | cons e r ih =>
        obtain ⟨k, w⟩ := e
        rw [put]
        split
        · rfl
        · rename_i hne
          have hr := ih ((List.mem_cons.1 hmem).resolve_left (Ne.symm hne))
          exact congrArg (k :: ·) hr
  · rename_i hnew
    rw [put_of_notMem hnew, keys, List.map_append]
    rfl

/-- The keys that pairs leave depend on the keys alone. -/
theorem keys_union_congr {m m' n n' : Keyed α} (hm : m.keys = m'.keys) (hn : n.keys = n'.keys) :
    (union m n).keys = (union m' n').keys := by
  induction n generalizing m m' n' with
  | nil =>
      obtain rfl : n' = [] := List.map_eq_nil_iff.1 hn.symm
      exact hm
  | cons e r ih =>
      cases n' with
      | nil => cases hn
      | cons e' r' =>
          have hn : e.1 :: keys r = e'.1 :: keys r' := hn
          obtain ⟨he, hr⟩ := List.cons.inj hn
          have hput : (m.put e.1 e.2).keys = (m'.put e'.1 e'.2).keys := by
            rw [keys_put, keys_put, hm, he]
          change (union (m.put e.1 e.2) r).keys = (union (m'.put e'.1 e'.2) r').keys
          exact ih hput hr

theorem last?_eq_none_iff {l : Keyed α} {key : String} : last? l key = none ↔ key ∉ l.keys := by
  simp only [last?, List.findSome?_eq_none_iff, List.mem_reverse, ite_eq_right_iff, keys, List.mem_map]
  constructor
  · rintro hnone ⟨e, he, rfl⟩
    cases hnone e he rfl
  · exact fun hnot e he heq => absurd ⟨e, he, heq⟩ hnot

theorem last?_map (f : α → β) (l : Keyed α) (key : String) :
    last? (l.map fun e => (e.1, f e.2)) key = (last? l key).map f := by
  induction l with
  | nil => rfl
  | cons e r ih =>
      rw [List.map_cons, last?_cons, last?_cons, ih]
      cases last? r key <;> by_cases he : e.1 = key <;> simp [he]

/-- **Two keyed lists of the same keys have entries that look the same** exactly if what they have under each
key does. -/
theorem map_eq_map_iff {f : String × α → β} {m m' : Keyed α} (hkeys : m.keys = m'.keys)
    (hnodup : m.keys.Nodup) :
    m.map f = m'.map f ↔
      ∀ key, (m.get? key).map (fun v => f (key, v)) = (m'.get? key).map (fun v => f (key, v)) := by
  induction m generalizing m' with
  | nil =>
      obtain rfl : m' = [] := List.map_eq_nil_iff.1 hkeys.symm
      simp
  | cons e r ih =>
      obtain ⟨k, v⟩ := e
      cases m' with
      | nil => cases hkeys
      | cons e' r' =>
          obtain ⟨k', v'⟩ := e'
          have hkeys : k :: keys r = k' :: keys r' := hkeys
          obtain ⟨rfl, hr⟩ := List.cons.inj hkeys
          obtain ⟨hnew, hnodup⟩ := List.nodup_cons.1 hnodup
          have hnew' : k ∉ keys r' := hr ▸ hnew
          rw [List.map_cons, List.map_cons, List.cons.injEq, ih hr hnodup]
          constructor
          · rintro ⟨hhead, htail⟩ key
            rw [get?_cons, get?_cons]
            split
            · rename_i heq
              exact congrArg some (heq ▸ hhead)
            · exact htail key
          · intro hall
            refine ⟨by simpa [get?_cons] using hall k, fun key => ?_⟩
            by_cases heq : k = key
            · -- the key comes once, so neither rest has anything under it
              rw [← heq, get?_eq_none_of_notMem hnew, get?_eq_none_of_notMem hnew']
            · simpa [get?_cons, heq] using hall key

end Restline.Keyed
