import TwinHeap.Table

/-!
# Tables — keys, values and multiplicity

Look-ups say what a table maps a key to; these lemmas say which keys and values there are, and how
often, for tables that bind no key twice.
-/

namespace TwinHeap.Table

variable {α β γ : Type} [DecidableEq α]

/-! ## Keys -/

theorem lookup_eq_none {k : α} {es : List (α × β)} :
    lookup k es = none ↔ k ∉ es.map Prod.fst := by
  induction es with
  | nil => simp [lookup]
  | cons e rest ih =>
    obtain ⟨a, b⟩ := e
    by_cases ha : a = k
    · simp [lookup, ha]
    · rw [lookup, if_neg ha, ih]
      simp [Ne.symm ha]

theorem get?_eq_none {t : Table α β} {k : α} : t.get? k = none ↔ k ∉ t.keys := lookup_eq_none

theorem mem_keys_of_get? {t : Table α β} {k : α} {v : β} (h : t.get? k = some v) : k ∈ t.keys := by
  apply Classical.byContradiction
  intro hk
  rw [get?_eq_none.2 hk] at h
  cases h

theorem map_fst_put (k : α) (v : β) (es : List (α × β)) :
    (put k v es).map Prod.fst =
      if k ∈ es.map Prod.fst then es.map Prod.fst else es.map Prod.fst ++ [k] := by
  induction es with
  | nil => simp [put]
  | cons e rest ih =>
    obtain ⟨a, b⟩ := e
    by_cases ha : a = k
    · simp [put, ha]
    · rw [put, if_neg ha, List.map_cons, ih, List.map_cons]
      by_cases hk : k ∈ rest.map Prod.fst
      · rw [if_pos hk, if_pos (List.mem_cons_of_mem a hk)]
      · rw [if_neg hk, if_neg (by simp only [List.mem_cons, not_or]; exact ⟨Ne.symm ha, hk⟩)]
        rfl

theorem keys_insert (t : Table α β) (k : α) (v : β) :
    (t.insert k v).keys = if k ∈ t.keys then t.keys else t.keys ++ [k] :=
  map_fst_put k v t.entries

theorem keys_erase (t : Table α β) (k : α) : (t.erase k).keys = t.keys.filter fun a => a ≠ k := by
  unfold erase keys
  rw [List.filter_map]
  rfl

@[simp] theorem keys_modify (t : Table α β) (k : α) (f : β → β) :
    (t.modify k f).keys = t.keys := by
  unfold modify keys
  rw [List.map_map]
  congr 1
  funext e
  simp only [Function.comp]
  split <;> rfl

omit [DecidableEq α] in
@[simp] theorem keys_mapValues (t : Table α β) (f : α → β → γ) :
    (t.mapValues f).keys = t.keys := by
  unfold mapValues keys
  rw [List.map_map]
  rfl

theorem nodup_keys_insert {t : Table α β} (h : t.keys.Nodup) (k : α) (v : β) :
    (t.insert k v).keys.Nodup := by
  rw [keys_insert]
  split
  · exact h
  · rename_i hk
    rw [List.nodup_append]
    refine ⟨h, by simp, ?_⟩
    intro a ha b hb hab
    rw [List.mem_singleton] at hb
    subst hb
    subst hab
    exact hk ha

theorem nodup_keys_erase {t : Table α β} (h : t.keys.Nodup) (k : α) : (t.erase k).keys.Nodup := by
  rw [keys_erase]
  exact h.filter _

omit [DecidableEq α] in
theorem nodup_keys_filter {t : Table α β} (h : t.keys.Nodup) (p : α → β → Bool) :
    (t.filter p).keys.Nodup :=
  List.Sublist.nodup (List.filter_sublist.map Prod.fst) h

/-! ## Look-ups -/

theorem lookup_eq_some_of_mem {es : List (α × β)} (h : (es.map Prod.fst).Nodup) {k : α} {v : β}
    (hm : (k, v) ∈ es) : lookup k es = some v := by
  induction es with
  | nil => cases hm
  | cons e rest ih =>
    obtain ⟨a, b⟩ := e
    rw [List.map_cons, List.nodup_cons] at h
    rcases List.mem_cons.1 hm with he | hm
    · cases he
      simp [lookup]
    · have hne : a ≠ k := by
        rintro rfl
        exact h.1 (List.mem_map.2 ⟨(a, v), hm, rfl⟩)
      rw [lookup, if_neg hne]
      exact ih h.2 hm

theorem mem_of_lookup {es : List (α × β)} {k : α} {v : β} (h : lookup k es = some v) :
    (k, v) ∈ es := by
  induction es with
  | nil => cases h
  | cons e rest ih =>
    obtain ⟨a, b⟩ := e
    rw [lookup] at h
    split at h
    · cases h
      subst ‹a = k›
      exact List.mem_cons_self
    · exact List.mem_cons_of_mem _ (ih h)

theorem get?_eq_some {t : Table α β} (h : t.keys.Nodup) {k : α} {v : β} :
    t.get? k = some v ↔ (k, v) ∈ t.entries :=
  ⟨mem_of_lookup, lookup_eq_some_of_mem h⟩

theorem mem_values_of_get? {t : Table α β} {k : α} {v : β} (h : t.get? k = some v) :
    v ∈ t.values :=
  List.mem_map.2 ⟨(k, v), mem_of_lookup h, rfl⟩

theorem mem_values {t : Table α β} (h : t.keys.Nodup) {v : β} :
    v ∈ t.values ↔ ∃ k, t.get? k = some v := by
  constructor
  · intro hv
    obtain ⟨⟨k, v'⟩, he, rfl⟩ := List.mem_map.1 hv
    exact ⟨k, (get?_eq_some h).2 he⟩
  · rintro ⟨k, hk⟩
    exact mem_values_of_get? hk

omit [DecidableEq α] in
@[simp] theorem mapValues_self (t : Table α β) : (t.mapValues fun _ v => v) = t := by
  unfold mapValues
  exact congrArg Table.mk (List.map_id t.entries)

@[simp] theorem get?_mapValues (t : Table α β) (f : α → β → γ) (k : α) :
    (t.mapValues f).get? k = (t.get? k).map (f k) := by
  obtain ⟨es⟩ := t
  unfold mapValues get?
  induction es with
  | nil => rfl
  | cons e rest ih =>
    obtain ⟨a, b⟩ := e
    by_cases ha : a = k
    · subst ha
      simp [lookup]
    · simp only [List.map_cons, lookup, if_neg ha]
      exact ih

theorem mapValues_insert (t : Table α β) (f : α → β → γ) (k : α) (v : β) :
    (t.insert k v).mapValues f = (t.mapValues f).insert k (f k v) := by
  obtain ⟨es⟩ := t
  unfold insert mapValues
  congr 1
  induction es with
  | nil => rfl
  | cons e rest ih =>
    obtain ⟨a, b⟩ := e
    by_cases ha : a = k
    · simp [put, ha]
    · simp only [put, if_neg ha, List.map_cons, ih]

/-- Where the keys decide what stays, an entry stays together with those that it hides. -/
theorem get?_filter_key (t : Table α β) (p : α → Bool) (k : α) :
    (t.filter fun k _ => p k).get? k = if p k then t.get? k else none := by
  obtain ⟨es⟩ := t
  show lookup k (es.filter fun e => p e.1) = if p k then lookup k es else none
  induction es with
  | nil => simp [lookup]
  | cons e rest ih =>
    obtain ⟨a, b⟩ := e
    by_cases hp : p a
    · rw [List.filter_cons_of_pos (by exact hp), lookup, lookup]
      by_cases ha : a = k
      · subst ha
        rw [if_pos rfl, if_pos rfl, if_pos hp]
      · rw [if_neg ha, if_neg ha]
        exact ih
    · rw [List.filter_cons_of_neg (by exact hp), lookup]
      by_cases ha : a = k
      · subst ha
        rw [ih, if_neg hp, if_neg hp]
      · rw [if_neg ha]
        exact ih

theorem get?_filter {t : Table α β} (h : t.keys.Nodup) (p : α → β → Bool) (k : α) :
    (t.filter p).get? k = (t.get? k).filter (p k) := by
  cases hk : t.get? k with
  | none =>
    rw [Option.filter_none, get?_eq_none]
    intro hm
    obtain ⟨⟨a, v⟩, he, rfl⟩ := List.mem_map.1 hm
    rw [(get?_eq_some h).2 (List.mem_filter.1 he).1] at hk
    cases hk
  | some v =>
    have he := (get?_eq_some h).1 hk
    by_cases hp : p k v
    · rw [Option.filter_some_pos hp]
      exact (get?_eq_some (nodup_keys_filter h p)).2 (List.mem_filter.2 ⟨he, hp⟩)
    · rw [Option.filter_some_neg (Bool.eq_false_iff.2 hp), get?_eq_none]
      intro hm
      obtain ⟨⟨a, v'⟩, he', rfl⟩ := List.mem_map.1 hm
      obtain ⟨he', hp'⟩ := List.mem_filter.1 he'
      rw [(get?_eq_some h).2 he'] at hk
      cases hk
      exact hp hp'

/-! ## Values -/

theorem erase_of_get?_none {t : Table α β} {k : α} (h : t.get? k = none) : t.erase k = t := by
  obtain ⟨es⟩ := t
  unfold erase
  congr 1
  rw [List.filter_eq_self]
  intro e he
  rw [get?_eq_none] at h
  have hne : e.1 ≠ k := by
    rintro rfl
    exact h (List.mem_map.2 ⟨e, he, rfl⟩)
  exact decide_eq_true hne

/-- Taking a key out takes one value out. -/
theorem values_perm_erase {t : Table α β} (h : t.keys.Nodup) {k : α} {v : β}
    (hk : t.get? k = some v) : t.values.Perm (v :: (t.erase k).values) := by
  obtain ⟨es⟩ := t
  induction es with
  | nil => cases hk
  | cons e rest ih =>
    obtain ⟨a, b⟩ := e
    have hnodup : a ∉ rest.map Prod.fst ∧ (rest.map Prod.fst).Nodup := List.nodup_cons.1 h
    by_cases ha : a = k
    · subst ha
      have hb : b = v := by simpa [get?, lookup] using hk
      have hrest : (⟨rest⟩ : Table α β).erase a = ⟨rest⟩ :=
        erase_of_get?_none (get?_eq_none.2 hnodup.1)
      have herase : (⟨(a, b) :: rest⟩ : Table α β).erase a = (⟨rest⟩ : Table α β).erase a := by
        simp [erase]
      rw [herase, hrest, hb]
      exact .refl _
    · have hk' : (⟨rest⟩ : Table α β).get? k = some v := by
        rw [get?, lookup, if_neg ha] at hk
        exact hk
      have herase : ((⟨(a, b) :: rest⟩ : Table α β).erase k).values =
          b :: ((⟨rest⟩ : Table α β).erase k).values := by
        simp [erase, values, ha]
      rw [herase]
      exact ((ih hnodup.2 hk').cons b).trans (.swap v b _)

omit [DecidableEq α] in
theorem size_eq_length_values (t : Table α β) : t.size = t.values.length :=
  (List.length_map Prod.snd).symm

/-- Taking a key out makes the table one smaller. -/
theorem size_erase {t : Table α β} (h : t.keys.Nodup) {k : α} {v : β} (hk : t.get? k = some v) :
    (t.erase k).size + 1 = t.size := by
  rw [size_eq_length_values, size_eq_length_values, (values_perm_erase h hk).length_eq]
  rfl

/-- What is put in at a key is taken out with the key. -/
theorem erase_insert (t : Table α β) (k : α) (v : β) : (t.insert k v).erase k = t.erase k := by
  obtain ⟨es⟩ := t
  unfold insert erase
  congr 1
  induction es with
  | nil => simp [put]
  | cons e rest ih =>
    obtain ⟨a, b⟩ := e
    by_cases ha : a = k
    · simp [put, ha]
    · simpa [put, ha] using ih

/-- Putting a value in puts it in the place of the key's old one. -/
theorem values_insert_perm {t : Table α β} (h : t.keys.Nodup) (k : α) (v : β) :
    (t.insert k v).values.Perm (v :: (t.erase k).values) := by
  have hget : (t.insert k v).get? k = some v := by simp
  have hperm := values_perm_erase (nodup_keys_insert h k v) hget
  rwa [erase_insert] at hperm

/-- Changing the value of a key changes one value. -/
theorem values_modify_perm {t : Table α β} (h : t.keys.Nodup) {k : α} {v : β}
    (hk : t.get? k = some v) (f : β → β) :
    (t.modify k f).values.Perm (f v :: (t.erase k).values) := by
  have hget : (t.modify k f).get? k = some (f v) := by simp [hk]
  have herase : (t.modify k f).erase k = t.erase k := by
    obtain ⟨es⟩ := t
    clear h hk hget
    unfold modify erase
    congr 1
    induction es with
    | nil => rfl
    | cons e es ih =>
      by_cases he : e.1 = k
      · simpa [he] using ih
      · simpa [he] using ih
  have hperm := values_perm_erase (t := t.modify k f) (by rwa [keys_modify]) hget
  rwa [herase] at hperm

/-! ## Entries -/

omit [DecidableEq α] in
theorem filter_eq_self {t : Table α β} {p : α → β → Bool} (h : ∀ a b, p a b = true) :
    t.filter p = t := by
  obtain ⟨es⟩ := t
  unfold filter
  congr 1
  exact List.filter_eq_self.2 fun e _ => h e.1 e.2

theorem erase_filter (t : Table α β) (p : α → β → Bool) (k : α) :
    (t.filter p).erase k = t.filter fun a b => decide (a ≠ k) && p a b := by
  unfold erase filter
  rw [List.filter_filter]

theorem modify_mapValues (t : Table α β) (f : α → β → γ) (k : α) (g : γ → γ) :
    (t.mapValues f).modify k g = t.mapValues fun a b => if a = k then g (f a b) else f a b := by
  unfold modify mapValues
  rw [List.map_map]
  congr 1
  refine List.map_congr_left fun e _ => ?_
  dsimp only [Function.comp]
  split <;> rfl

/-- The order of the entries does not matter for look-ups. -/
theorem get?_of_perm {t : Table α β} {es : List (α × β)} (h : t.keys.Nodup)
    (hp : es.Perm t.entries) (k : α) : (⟨es⟩ : Table α β).get? k = t.get? k := by
  have hkeys : (⟨es⟩ : Table α β).keys.Nodup := (hp.map Prod.fst).nodup_iff.2 h
  refine Option.ext fun v => ?_
  rw [get?_eq_some hkeys, get?_eq_some h, hp.mem_iff]

end TwinHeap.Table
