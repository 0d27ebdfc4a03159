/-!
Finite maps that remember the order in which their keys came.

A key that is inserted again keeps its place. `Table.get?` is the view: each operation is described
by what it does to look-ups.
-/

namespace TwinHeap

/-- A finite map, oldest key first. -/
structure Table (α β : Type) where
  entries : List (α × β)
deriving DecidableEq, Repr

namespace Table

variable {α β : Type} [DecidableEq α]

def empty : Table α β := ⟨[]⟩

/-- The value of the first entry for `k`. -/
def lookup (k : α) : List (α × β) → Option β
  | [] => none
  | (k', v) :: rest => if k' = k then some v else lookup k rest

def get? (t : Table α β) (k : α) : Option β := lookup k t.entries

def contains (t : Table α β) (k : α) : Bool := (t.get? k).isSome

def keys (t : Table α β) : List α := t.entries.map Prod.fst

def values (t : Table α β) : List β := t.entries.map Prod.snd

def size (t : Table α β) : Nat := t.entries.length

def isEmpty (t : Table α β) : Bool := t.entries.isEmpty

/-- The entries with `k` bound to `v`, in place of its old value or at the end. -/
def put (k : α) (v : β) : List (α × β) → List (α × β)
  | [] => [(k, v)]
  | (k', v') :: rest => if k' = k then (k, v) :: rest else (k', v') :: put k v rest

def insert (t : Table α β) (k : α) (v : β) : Table α β := ⟨put k v t.entries⟩

def erase (t : Table α β) (k : α) : Table α β := ⟨t.entries.filter fun e => decide (e.1 ≠ k)⟩

/-- The value of `k` changed by `f`, if it has one. -/
def modify (t : Table α β) (k : α) (f : β → β) : Table α β :=
  ⟨t.entries.map fun e => if e.1 = k then (e.1, f e.2) else e⟩

def filter (t : Table α β) (p : α → β → Bool) : Table α β :=
  ⟨t.entries.filter fun e => p e.1 e.2⟩

def mapValues {γ : Type} (t : Table α β) (f : α → β → γ) : Table α γ :=
  ⟨t.entries.map fun e => (e.1, f e.1 e.2)⟩

@[simp] theorem get?_empty (k : α) : (empty : Table α β).get? k = none := rfl

theorem lookup_put (k k' : α) (v : β) (es : List (α × β)) :
    lookup k' (put k v es) = if k = k' then some v else lookup k' es := by
  induction es with
  | nil => simp [put, lookup]
  | cons e rest ih =>
    obtain ⟨a, b⟩ := e
    by_cases ha : a = k
    · subst ha
      by_cases hk : a = k' <;> simp [put, lookup, hk]
    · by_cases hk : k = k'
      · subst hk
        simp [put, lookup, ha, ih]
      · by_cases hak : a = k'
        · subst hak
          simp [put, lookup, ha, hk]
        · simp [put, lookup, ha, hk, hak, ih]

@[simp] theorem get?_insert (t : Table α β) (k k' : α) (v : β) :
    (t.insert k v).get? k' = if k = k' then some v else t.get? k' :=
  lookup_put k k' v t.entries

@[simp] theorem get?_erase (t : Table α β) (k k' : α) :
    (t.erase k).get? k' = if k = k' then none else t.get? k' := by
  obtain ⟨es⟩ := t
  simp only [erase, get?]
  induction es with
  | nil => simp [lookup]
  | cons e rest ih =>
    obtain ⟨a, b⟩ := e
    by_cases ha : a = k
    · subst ha
      by_cases hk : a = k' <;> simp_all [lookup]
    · by_cases hk : k = k'
      · subst hk
        simp_all [lookup]
      · by_cases hak : a = k' <;> simp_all [lookup]

@[simp] theorem get?_modify (t : Table α β) (k k' : α) (f : β → β) :
    (t.modify k f).get? k' = if k = k' then (t.get? k').map f else t.get? k' := by
  obtain ⟨es⟩ := t
  simp only [modify, get?]
  induction es with
  | nil => simp [lookup]
  | cons e rest ih =>
    obtain ⟨a, b⟩ := e
    by_cases ha : a = k
    · subst ha
      by_cases hk : a = k' <;> simp_all [lookup]
    · by_cases hk : k = k'
      · subst hk
        simp_all [lookup]
      · by_cases hak : a = k' <;> simp_all [lookup]

end Table

end TwinHeap
