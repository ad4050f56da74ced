import Restline.Metadata.Store

/-!
What a store keeps, over any history of calls and changes. A store in use is a bundle, whose documents may
change at any time, and the cache of what was read from it. A call that fails leaves the cache as it was; a
call that succeeds keeps what it read, and from then on every call for that document gives it, whatever
becomes of the bundle and whatever else is asked for.

* `Document`, `Bundle.read`, `Cache.get` : the index and the command documents alike.
* `Store.run` : a store after a history of calls and changes.
* `Bundle.readings` : what the calls for a document find in the bundle, each at its time.
* `Store.kept_run` : **what is kept is the first reading that succeeded**.
* `Store.ask_run` : **what a call gives after any history**.
-/

set_option autoImplicit false

namespace Restline

/-! ### Documents -/

/-- A document of a bundle. -/
inductive Document
  | index
  | command (id : String)
deriving DecidableEq

/-- What a document holds. -/
def Document.Content : Document → Type
  | .index => Index
  | .command _ => Command

/-- A document as the bundle has it, checked. -/
def Bundle.read (b : Bundle) : (d : Document) → Except StoreFault d.Content
  | .index => b.index.bind Index.check
  | .command id => (b.command id).bind (Command.check id)

namespace Cache

/-- What the cache keeps of a document. -/
def kept (c : Cache) : (d : Document) → Option d.Content
  | .index => c.index
  | .command id => c.commands.get? id

/-- A document, kept or read now. -/
def get (b : Bundle) (c : Cache) : (d : Document) → Except StoreFault d.Content × Cache
  | .index => c.getIndex b
  | .command id => c.getCommand b id

/-- The cache with a document kept. -/
def keep (c : Cache) : (d : Document) → d.Content → Cache
  | .index, i => { c with index := some i }
  | .command id, k => { c with commands := c.commands.put id k }

@[simp] theorem kept_empty (d : Document) : ({} : Cache).kept d = none := by
  cases d <;> rfl

@[simp] theorem kept_keep_self (c : Cache) (d : Document) (k : d.Content) :
    (c.keep d k).kept d = some k := by
  cases d with
  | index => rfl
  | command id => exact (Keyed.get?_put c.commands id id k).trans (if_pos rfl)

theorem kept_keep_of_ne (c : Cache) {d d' : Document} (h : d ≠ d') (k : d'.Content) :
    (c.keep d' k).kept d = c.kept d := by
  cases d with
  | index =>
      cases d' with
      | index => exact absurd rfl h
      | command _ => rfl
  | command id =>
      cases d' with
      | index => rfl
      | command id' =>
          have hid : id' ≠ id := fun heq => h (heq ▸ rfl)
          exact (Keyed.get?_put c.commands id' id k).trans (if_neg hid)

/-- The index and the command documents are kept alike. -/
theorem get_eq (b : Bundle) (c : Cache) (d : Document) :
    c.get b d =
      match c.kept d with
      | some k => (.ok k, c)
      | none =>
        match b.read d with
        | .ok k => (.ok k, c.keep d k)
        | .error f => (.error f, c) := by
  cases d with
  | index =>
      simp only [get, getIndex, kept, Bundle.read, Document.Content]
      cases c.index with
      | some i => rfl
      | none => cases b.index.bind Index.check <;> rfl
  | command id =>
      simp only [get, getCommand, kept, Bundle.read, Document.Content]
      cases c.commands.get? id with
      | some k => rfl
      | none => cases (b.command id).bind (Command.check id) <;> rfl

/-! ### One call -/

variable {b : Bundle} {c : Cache} {d : Document}

/-- A call gives what is kept, and without that what the bundle has. -/
theorem get_fst : (c.get b d).1 = (c.kept d).elim (b.read d) .ok := by
  rw [get_eq]
  cases c.kept d with
  | some k => rfl
  | none => cases b.read d <;> rfl

/-- After a call for a document, what was kept of it or else what could be read is kept. -/
theorem kept_get_self : (c.get b d).2.kept d = (c.kept d).or (b.read d).toOption := by
  rw [get_eq]
  cases hkept : c.kept d with
  | some k => exact hkept
  | none =>
      cases b.read d with
      | ok k => exact kept_keep_self c d k
      | error f => exact hkept

/-- A call for another document changes nothing for this one. -/
theorem kept_get_of_ne {d' : Document} (hne : d ≠ d') : (c.get b d').2.kept d = c.kept d := by
  rw [get_eq]
  cases c.kept d' with
  | some k => rfl
  | none =>
      cases b.read d' with
      | ok k => exact kept_keep_of_ne c hne k
      | error f => rfl

/-- A call that fails has found the document unreadable, and leaves the cache as it was. -/
theorem get_eq_error {f : StoreFault} (h : (c.get b d).1 = .error f) :
    b.read d = .error f ∧ (c.get b d).2 = c := by
  rw [get_eq] at h ⊢
  cases hkept : c.kept d with
  | some k =>
      rw [hkept] at h
      cases h
  | none =>
      rw [hkept] at h
      cases hread : b.read d with
      | ok k =>
          rw [hread] at h
          cases h
      | error g =>
          rw [hread] at h
          exact ⟨h, rfl⟩

end Cache

/-! ### Histories -/

/-- A store in use: the documents as they are at the time, and what was read before. -/
structure Store where
  bundle : Bundle
  cache : Cache := {}

/-- What happens to a store. -/
inductive StoreEvent
  /-- The documents change. -/
  | change (b : Bundle)
  /-- A document is asked for. -/
  | ask (d : Document)

/-- The event bears on a document: it may change it, or asks for it. -/
def StoreEvent.concerns (d : Document) : StoreEvent → Bool
  | .change _ => true
  | .ask d' => d' = d

namespace Store

/-- A store that has read nothing. -/
def ofBundle (b : Bundle) : Store := { bundle := b }

/-- A call, with the cache it leaves. -/
def ask (s : Store) (d : Document) : Except StoreFault d.Content × Cache := s.cache.get s.bundle d

/-- The store after an event. -/
def step (s : Store) : StoreEvent → Store
  | .change b => { s with bundle := b }
  | .ask d => { s with cache := (s.ask d).2 }

/-- The store after a history. -/
def run (s : Store) (es : List StoreEvent) : Store := es.foldl step s

end Store

/-- What the calls for a document find in the bundle, each at its time. -/
def Bundle.readings (d : Document) : Bundle → List StoreEvent → List (Except StoreFault d.Content)
  | _, [] => []
  | _, .change b :: es => b.readings d es
  | b, .ask d' :: es => if d' = d then b.read d :: b.readings d es else b.readings d es

/-- The first of some readings that succeeded. -/
def firstSuccess {α : Type} (readings : List (Except StoreFault α)) : Option α :=
  readings.findSome? Except.toOption

/-- The calls for other documents find nothing that matters to this one. -/
theorem Bundle.readings_filter (d : Document) (b : Bundle) (es : List StoreEvent) :
    b.readings d (es.filter (·.concerns d)) = b.readings d es := by
  induction es generalizing b with
  | nil => rfl
  | cons e es ih =>
      cases e with
      | change b' => exact ih b'
      | ask d' =>
          rw [Bundle.readings]
          split <;> rename_i hd
          · rw [List.filter_cons_of_pos (by simp [StoreEvent.concerns, hd]), Bundle.readings, if_pos hd, ih]
          · rw [List.filter_cons_of_neg (by simp [StoreEvent.concerns, hd]), ih]

namespace Store

variable (s : Store) (d : Document) (es : List StoreEvent)

/-- What is kept after a history is what was kept before it, or else what the first call that could read
the document found. -/
theorem kept_run :
    (s.run es).cache.kept d = (s.cache.kept d).or (firstSuccess (s.bundle.readings d es)) := by
  -- on the history, for any store: the first event may already have kept something
  induction es generalizing s with
  | nil => exact (Option.or_none).symm
  | cons e es ih =>
      have hrun : s.run (e :: es) = (s.step e).run es := rfl
      rw [hrun, ih]
      cases e with
      | change b => rfl
      | ask d' =>
          rw [Bundle.readings]
          split <;> rename_i hd
          · subst hd
            have hkept : (s.step (.ask d')).cache.kept d' =
                (s.cache.kept d').or (s.bundle.read d').toOption := Cache.kept_get_self
            rw [hkept, Option.or_assoc, firstSuccess, firstSuccess, List.findSome?_cons]
            cases s.bundle.read d' <;> rfl
          · have hkept : (s.step (.ask d')).cache.kept d = s.cache.kept d :=
              Cache.kept_get_of_ne (Ne.symm hd)
            rw [hkept]
            rfl

/-- The call that ends a history reads the bundle as the history left it. -/
theorem readings_ask :
    s.bundle.readings d (es ++ [.ask d]) = s.bundle.readings d es ++ [(s.run es).bundle.read d] := by
  induction es generalizing s with
  | nil => exact if_pos rfl
  | cons e es ih =>
      have hrun : s.run (e :: es) = (s.step e).run es := rfl
      rw [List.cons_append, hrun]
      cases e with
      | change b => exact ih (s.step (.change b))
      | ask d' =>
          rw [Bundle.readings, Bundle.readings]
          split
          · exact congrArg (s.bundle.read d :: ·) (ih (s.step (.ask d')))
          · exact ih (s.step (.ask d'))

/-- What the bundle has of a document does not depend on the calls for other documents. -/
theorem read_run_filter :
    (s.run (es.filter (·.concerns d))).bundle.read d = (s.run es).bundle.read d := by
  have hfilter : (es ++ [StoreEvent.ask d]).filter (·.concerns d) =
      es.filter (·.concerns d) ++ [.ask d] := by
    rw [List.filter_append, List.filter_cons_of_pos (by simp [StoreEvent.concerns]), List.filter_nil]
  -- a call at the end reads what the bundle has then, with the other calls or without them
  have h := Bundle.readings_filter d s.bundle (es ++ [.ask d])
  rw [hfilter, readings_ask, readings_ask, Bundle.readings_filter] at h
  exact List.head_eq_of_cons_eq (List.append_cancel_left h)

/-- A call of a store that was new before the history. -/
theorem ask_run_fst (b : Bundle) :
    (((ofBundle b).run es).ask d).1 =
      (firstSuccess (b.readings d es)).elim (((ofBundle b).run es).bundle.read d) .ok := by
  have hkept : (ofBundle b).cache.kept d = none := Cache.kept_empty d
  rw [ask, Cache.get_fst, kept_run, hkept, Option.none_or]
  rfl

/-- **What a call gives after any history.** It succeeds with what the first successful call for the document
read, be that an earlier one or this one. If it fails, the document cannot be read now and the cache stays
as it was; it succeeds where the document can be read now. Calls for other documents make no difference. -/
theorem ask_run (b : Bundle) (d : Document) (es : List StoreEvent) :
    let s := (ofBundle b).run es
    (∀ k, (s.ask d).1 = .ok k ↔ firstSuccess (b.readings d (es ++ [.ask d])) = some k) ∧
      (∀ f, (s.ask d).1 = .error f → s.bundle.read d = .error f ∧ (s.ask d).2 = s.cache) ∧
      (∀ k, s.bundle.read d = .ok k → ∃ k', (s.ask d).1 = .ok k') ∧
      (((ofBundle b).run (es.filter (·.concerns d))).ask d).1 = (s.ask d).1 := by
  intro s
  have hask : (s.ask d).1 = (firstSuccess (b.readings d es)).elim (s.bundle.read d) .ok :=
    ask_run_fst d es b
  refine ⟨fun k => ?_, fun f h => Cache.get_eq_error h, fun k hread => ?_, ?_⟩
  · have hlast : b.readings d (es ++ [.ask d]) = b.readings d es ++ [s.bundle.read d] :=
      readings_ask (ofBundle b) d es
    rw [hask, hlast, firstSuccess, firstSuccess, List.findSome?_append, List.findSome?_singleton]
    cases (b.readings d es).findSome? Except.toOption with
    | some k' => simp
    | none => cases s.bundle.read d <;> simp [Except.toOption]
  · rw [hask, hread]
    cases firstSuccess (b.readings d es) with
    | some k' => exact ⟨k', rfl⟩
    | none => exact ⟨k, rfl⟩
  · rw [hask, ask_run_fst, Bundle.readings_filter, read_run_filter]

/-- A store whose command document is missing, then there, then malformed, while the index and another
document are asked for: the document that was there is given at the end. -/
theorem ask_run_of_changed :
    let d : Document := .command "svc_get_1"
    let missing := Bundle.ofValues (.obj []) []
    let there := Bundle.ofValues (.obj []) [("svc_get_1", .obj [("conditions", .arr [])])]
    let malformed := Bundle.ofValues (.obj []) [("svc_get_1", .null)]
    let history : List StoreEvent :=
      [.ask d, .change there, .ask .index, .ask d, .ask (.command "svc_get_2"), .change malformed]
    ((ofBundle missing).ask d).2 = {} ∧
      (((ofBundle missing).run history).ask d).1 = .ok { conditions := some [] } := by
  intro d missing there malformed history
  have hfail : ((ofBundle missing).ask d).1 = .error (.noCommand "svc_get_1" none) := rfl
  exact ⟨((ask_run missing d []).2.1 _ hfail).2,
    ((ask_run missing d history).1 _).2 (by with_unfolding_all rfl)⟩

end Store

end Restline
