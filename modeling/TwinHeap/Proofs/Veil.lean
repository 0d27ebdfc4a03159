import TwinHeap.Proofs.Storage

/-!
# Veils — runs that take no notice of what some cells hold

A `Veil` says how the contents of each cell may differ between two worlds that are the same otherwise
(`World.Alike`). An action is blind to a veil (`Act.Blind`) if it answers, or fails, in the same way
from any two such worlds, and leaves worlds that are alike again. There is one rule for each
combinator, and most operations of the bridge are blind to every veil that foreign code is blind to:
what they look at and change lies outside of storage.
-/

namespace TwinHeap

variable {σ α β : Type}

/-- How the contents of each cell may differ. -/
abbrev Veil := Nat → Value → Value → Prop

/-- The state with other contents of its cells. -/
def State.withCells (s : State) (cells : Table Nat Value) : State :=
  { s with memory := ⟨cells, s.memory.next⟩ }

/-- Two states differ in the contents of cells only, and no more than a veil hides. Of cells that are
still to be made nothing is hidden. -/
inductive State.Alike (V : Veil) (s : State) : State → Prop
  | mk (cells : Table Nat Value)
      (hcells : ∀ c, Option.Rel (V c) (s.memory.cells.get? c) (cells.get? c))
      (hfresh : ∀ c, s.memory.next ≤ c → ∀ v, V c v v) : State.Alike V s (s.withCells cells)

/-- Two worlds differ in the contents of cells only, and no more than a veil hides. -/
inductive World.Alike (V : Veil) (w : World σ) : World σ → Prop
  | mk {s' : State} (h : w.state.Alike V s') : World.Alike V w { w with state := s' }

/-- The function neither looks at storage nor changes it. -/
def State.Aside (f : State → State) : Prop :=
  ∀ s cells, f (s.withCells cells) = (f s).withCells cells ∧ (f s).memory = s.memory

/-- Contents that are related may be changed on both sides. -/
theorem Veil.rel_map {R R' : Value → Value → Prop} {x x' : Option Value} {f f' : Value → Value}
    (h : Option.Rel R x x')
    (hf : ∀ v v', x = some v → x' = some v' → R v v' → R' (f v) (f' v')) :
    Option.Rel R' (x.map f) (x'.map f') := by
  cases h with
  | some hv => exact .some (hf _ _ rfl rfl hv)
  | none => exact .none

theorem Veil.rel_mono {R R' : Value → Value → Prop} {x x' : Option Value} (h : Option.Rel R x x')
    (hR : ∀ v v', R v v' → R' v v') : Option.Rel R' x x' := by
  cases h with
  | some hv => exact .some (hR _ _ hv)
  | none => exact .none

namespace State.Alike

variable {V V' : Veil} {s s' : State}

theorem rel (h : s.Alike V s') (c : Nat) :
    Option.Rel (V c) (s.memory.cells.get? c) (s'.memory.cells.get? c) := by
  obtain ⟨cells, hcells, -⟩ := h
  exact hcells c

theorem fresh (h : s.Alike V s') {c : Nat} (hc : s.memory.next ≤ c) (v : Value) : V c v v := by
  obtain ⟨cells, -, hfresh⟩ := h
  exact hfresh c hc v

theorem next (h : s.Alike V s') : s'.memory.next = s.memory.next := by
  obtain ⟨cells, -, -⟩ := h
  rfl

theorem mono (h : s.Alike V s') (hV : ∀ c v v', V c v v' → V' c v v') : s.Alike V' s' := by
  obtain ⟨cells, hcells, hfresh⟩ := h
  exact ⟨cells, fun c => Veil.rel_mono (hcells c) (hV c), fun c hc v => hV c v v (hfresh c hc v)⟩

theorem aside {f : State → State} (hf : State.Aside f) (h : s.Alike V s') :
    (f s).Alike V (f s') := by
  obtain ⟨cells, hcells, hfresh⟩ := h
  obtain ⟨hsame, hmemory⟩ := hf s cells
  rw [hsame]
  rw [← hmemory] at hcells hfresh
  exact ⟨cells, hcells, hfresh⟩

/-- Storage may change, as long as it stays alike. -/
theorem remember (h : s.Alike V s') {m m' : Memory} (hnext : m'.next = m.next)
    (hle : s.memory.next ≤ m.next)
    (hcells : ∀ c, Option.Rel (V' c) (m.cells.get? c) (m'.cells.get? c))
    (hV : ∀ c, m.next ≤ c → ∀ v, V c v v → V' c v v) :
    { s with memory := m }.Alike V' { s' with memory := m' } := by
  obtain ⟨cells, -, hfresh⟩ := h
  obtain ⟨cells', next'⟩ := m'
  cases hnext
  exact ⟨cells', hcells, fun c hc v => hV c hc v (hfresh c (Nat.le_trans hle hc) v)⟩

/-- The same cell is made in both. -/
theorem allot (h : s.Alike V s') (v : Value) :
    (s.memory.allot v).1 = (s'.memory.allot v).1 ∧
      { s with memory := (s.memory.allot v).2 }.Alike V
        { s' with memory := (s'.memory.allot v).2 } := by
  refine ⟨h.next.symm, h.remember (congrArg (· + 1) h.next) (Nat.le_succ _) (fun c => ?_)
    fun _ _ _ hv => hv⟩
  show Option.Rel (V c) ((s.memory.cells.insert s.memory.next v).get? c)
    ((s'.memory.cells.insert s'.memory.next v).get? c)
  rw [h.next, Table.get?_insert, Table.get?_insert]
  by_cases hc : s.memory.next = c
  · rw [if_pos hc, if_pos hc]
    exact .some (h.fresh (Nat.le_of_eq hc) v)
  · rw [if_neg hc, if_neg hc]
    exact h.rel c

theorem discard (h : s.Alike V s') (cell : Nat) :
    { s with memory := s.memory.discard cell }.Alike V
      { s' with memory := s'.memory.discard cell } := by
  refine h.remember h.next (Nat.le_refl _) (fun c => ?_) fun _ _ _ hv => hv
  show Option.Rel (V c) ((s.memory.cells.erase cell).get? c) ((s'.memory.cells.erase cell).get? c)
  rw [Table.get?_erase, Table.get?_erase]
  by_cases hc : cell = c
  · rw [if_pos hc, if_pos hc]
    exact .none
  · rw [if_neg hc, if_neg hc]
    exact h.rel c

/-- One cell is changed, in a way that the veil hides. -/
theorem modify (h : s.Alike V s') {cell : Nat} {f f' : Value → Value}
    (hother : ∀ c ≠ cell, ∀ v v', V c v v' → V' c v v')
    (hcell : ∀ v v', s.memory.cells.get? cell = some v → s'.memory.cells.get? cell = some v' →
      V cell v v' → V' cell (f v) (f' v'))
    (hfresh : ∀ c, s.memory.next ≤ c → ∀ v, V c v v → V' c v v) :
    { s with memory := s.memory.modify cell f }.Alike V'
      { s' with memory := s'.memory.modify cell f' } := by
  refine h.remember h.next (Nat.le_refl _) (fun c => ?_) hfresh
  show Option.Rel (V' c) ((s.memory.cells.modify cell f).get? c)
    ((s'.memory.cells.modify cell f').get? c)
  rw [Table.get?_modify, Table.get?_modify]
  by_cases hc : cell = c
  · subst hc
    rw [if_pos rfl, if_pos rfl]
    exact Veil.rel_map (h.rel cell) hcell
  · rw [if_neg hc, if_neg hc]
    exact Veil.rel_mono (h.rel c) (hother c (Ne.symm hc))

end State.Alike

/-- What may differ in a cell may be changed in the same way. -/
def Veil.Admits (V : Veil) (c : Nat) : Prop :=
  ∀ (f : Value → Value) (v v' : Value), V c v v' → V c (f v) (f v')

/-- Nothing is hidden of a cell. -/
def Veil.Shows (V : Veil) (c : Nat) : Prop := ∀ v v', V c v v' → v = v'

namespace World.Alike

variable {V V' : Veil} {w w' : World σ}

theorem state (h : w.Alike V w') : w.state.Alike V w'.state := by
  obtain ⟨h⟩ := h
  exact h

theorem mono (h : w.Alike V w') (hV : ∀ c v v', V c v v' → V' c v v') : w.Alike V' w' := by
  obtain ⟨h⟩ := h
  exact ⟨h.mono hV⟩

/-- States that are alike may be put in the place of the old ones. -/
theorem withState {s s' : State} (h : w.Alike V w') (hs : s.Alike V' s') :
    { w with state := s }.Alike V' { w' with state := s' } := by
  obtain ⟨-⟩ := h
  exact ⟨hs⟩

end World.Alike

/-! ## Runs that go alike -/

/-- The second run ends as the first one does, if that comes to an end: with the same answer, in a
world that is alike, or with the same failure, in a world that is not more different. -/
def Follows (V E : Veil) (r r' : EStateM.Result Failure (World σ) α) : Prop :=
  Ends r (fun a v => ∃ v', r' = .ok a v' ∧ v.Alike V v')
    fun f v => f ≠ .exhausted → ∃ v', r' = .error f v' ∧ v.Alike E v'

/-- How a method is called from worlds that are alike. -/
def Invoker.Blind (V : Veil) (call call' : Invoker σ) : Prop :=
  ∀ m inv ⦃w w'⦄, w.Alike V w' → Follows V V (call m inv w) (call' m inv w')

namespace Follows

variable {U V V' E E' : Veil} {call call' : Invoker σ} {w w' : World σ} {act act' : Act σ α}
  {r r' : EStateM.Result Failure (World σ) α}

theorem ok {a : α} (h : w.Alike V w') : Follows V E (.ok a w) (.ok a w') := ⟨w', rfl, h⟩

theorem error {f : Failure} (h : w.Alike E w') :
    Follows V E (.error f w : EStateM.Result Failure (World σ) α) (.error f w') :=
  fun _ => ⟨w', rfl, h⟩

theorem mono (h : Follows V E r r') (hV : ∀ c v v', V c v v' → V' c v v')
    (hE : ∀ c v v', E c v v' → E' c v v') : Follows V' E' r r' := by
  refine Ends.mono h ?_ ?_
  · rintro a v ⟨v', hr, hv⟩
    exact ⟨v', hr, hv.mono hV⟩
  · intro f v hf hne
    obtain ⟨v', hr, hv⟩ := hf hne
    exact ⟨v', hr, hv.mono hE⟩

theorem bind {f f' : α → Act σ β} (h : Follows U E (act call w) (act' call' w'))
    (hf : ∀ a v v', act call w = .ok a v → v.Alike U v' →
      Follows V E (f a call v) (f' a call' v')) :
    Follows V E ((act >>= f) call w) ((act' >>= f') call' w') := by
  cases ha : act call w with
  | ok a v =>
    rw [ha] at h
    obtain ⟨v', ha', hv⟩ := h
    rw [Act.bind_of_ok ha, Act.bind_of_ok ha']
    exact hf a v v' ha hv
  | error e v =>
    rw [ha] at h
    rw [Act.bind_of_error ha]
    intro hne
    obtain ⟨v', ha', hv⟩ := h hne
    exact ⟨v', Act.bind_of_error ha', hv⟩

theorem attempt (h : Follows V V (act call w) (act' call' w')) :
    Follows V V (act.attempt call w) (act'.attempt call' w') := by
  cases ha : act call w with
  | ok a v =>
    rw [ha] at h
    obtain ⟨v', ha', hv⟩ := h
    rw [Act.attempt_of_ok ha, Act.attempt_of_ok ha']
    exact ok hv
  | error f v =>
    rw [ha] at h
    cases f with
    | error e =>
      obtain ⟨v', ha', hv⟩ := h nofun
      rw [Act.attempt_of_error ha, Act.attempt_of_error ha']
      exact ok hv
    | panic p =>
      obtain ⟨v', ha', hv⟩ := h nofun
      rw [Act.attempt_of_failure ha (Failure.isFatal_panic p),
        Act.attempt_of_failure ha' (Failure.isFatal_panic p)]
      exact error hv
    | exhausted =>
      rw [Act.attempt_of_failure ha Failure.isFatal_exhausted]
      exact fun hne => absurd rfl hne

theorem ensuring {cleanup : State → State} (h : Follows V E (act call w) (act' call' w'))
    (hV : ∀ s s', s.Alike V s' → (cleanup s).Alike V' (cleanup s'))
    (hE : ∀ s s', s.Alike E s' → (cleanup s).Alike E' (cleanup s')) :
    Follows V' E' (Act.ensuring cleanup act call w) (Act.ensuring cleanup act' call' w') := by
  cases ha : act call w with
  | ok a v =>
    rw [ha] at h
    obtain ⟨v', ha', hv⟩ := h
    rw [Act.ensuring_of_ok ha, Act.ensuring_of_ok ha']
    exact ok (hv.withState (hV _ _ hv.state))
  | error f v =>
    rw [ha] at h
    rw [Act.ensuring_of_error ha]
    intro hne
    obtain ⟨v', ha', hv⟩ := h hne
    exact ⟨_, Act.ensuring_of_error ha', hv.withState (hE _ _ hv.state)⟩

end Follows

/-- Where foreign code is called in this way, it takes no notice of what the veil hides. -/
def Invoker.Overlooks (call : Invoker σ) (V : Veil) : Calls σ := fun m inv v =>
  ∀ v', v.Alike V v' → Follows V V (call m inv v) (call m inv v')

namespace Act

/-- From worlds that are alike `act` goes alike. -/
def Blind (V : Veil) (call call' : Invoker σ) (act : Act σ α) : Prop :=
  ∀ ⦃w w'⦄, w.Alike V w' → Follows V V (act call w) (act call' w')

namespace Blind

variable {V : Veil} {call call' : Invoker σ} {act : Act σ α}

theorem pure (a : α) : (Pure.pure a : Act σ α).Blind V call call' := fun _ _ h => .ok h

theorem fail (e : BridgeError) : (Act.fail e : Act σ α).Blind V call call' := fun _ _ h => .error h

theorem abandon (p : Panic) : (Act.abandon p : Act σ α).Blind V call call' := fun _ _ h => .error h

theorem ofPanic (x : Except Panic α) : (Act.ofPanic x : Act σ α).Blind V call call' := by
  cases x with
  | ok a => exact .pure a
  | error p => exact .abandon p

theorem ofOverflow (x : Except Overflow α) : (Act.ofOverflow x : Act σ α).Blind V call call' := by
  cases x with
  | ok a => exact .pure a
  | error o => exact .abandon _

theorem ofLink (x : Except LinkError α) : (Act.ofLink x : Act σ α).Blind V call call' := by
  cases x with
  | ok a => exact .pure a
  | error e => exact .fail _

theorem ofForeign (x : Except ForeignException α) :
    (Act.ofForeign x : Act σ α).Blind V call call' := by
  cases x with
  | ok a => exact .pure a
  | error e => exact .fail _

theorem bind {f : α → Act σ β} (h : act.Blind V call call') (hf : ∀ a, (f a).Blind V call call') :
    (act >>= f).Blind V call call' :=
  fun _ _ hw => .bind (h hw) fun a _ _ _ hv => hf a hv

theorem discard (h : act.Blind V call call') :
    (Functor.discard act : Act σ Unit).Blind V call call' :=
  h.bind fun _ => .pure ()

theorem attempt (h : act.Blind V call call') : act.attempt.Blind V call call' :=
  fun _ _ hw => (h hw).attempt

theorem callMethod (hc : Invoker.Blind V call call') (m : Nat) (receiver : Option Address)
    (args : List Address) : (Act.callMethod m receiver args : Act σ _).Blind V call call' :=
  hc m _

/-- What is looked at is not in storage. -/
theorem state_bind {f : State → Act σ α} (hf : ∀ s cells, f (s.withCells cells) = f s)
    (h : ∀ s, (f s).Blind V call call') : (Act.state >>= f).Blind V call call' := by
  intro w w' hw
  obtain ⟨⟨cells, hcells, hfresh⟩⟩ := hw
  rw [Act.state_bind, Act.state_bind]
  show Follows V V _ (f (w.state.withCells cells) call' _)
  rw [hf]
  exact h _ ⟨⟨cells, hcells, hfresh⟩⟩

theorem edit {f : State → State} (hf : ∀ s s', s.Alike V s' → (f s).Alike V (f s')) :
    (Act.edit f : Act σ Unit).Blind V call call' :=
  fun _ _ h => .ok (h.withState (hf _ _ h.state))

theorem edit_aside {f : State → State} (hf : State.Aside f) :
    (Act.edit f : Act σ Unit).Blind V call call' :=
  .edit fun _ _ h => h.aside hf

theorem editGet {f : State → α × State}
    (hf : ∀ s s', s.Alike V s' → (f s').1 = (f s).1 ∧ (f s).2.Alike V (f s').2) :
    (Act.editGet f : Act σ α).Blind V call call' := by
  intro w w' h
  obtain ⟨hs⟩ := h
  obtain ⟨hanswer, halike⟩ := hf _ _ hs
  exact ⟨_, congrArg (EStateM.Result.ok · _) hanswer, ⟨halike⟩⟩

theorem editGet_aside {f : State → α × State}
    (hf : ∀ s cells, f (s.withCells cells) = ((f s).1, (f s).2.withCells cells) ∧
      (f s).2.memory = s.memory) : (Act.editGet f : Act σ α).Blind V call call' := by
  refine .editGet fun s s' h => ?_
  refine ⟨?_, h.aside (f := fun s => (f s).2) fun s cells => ?_⟩
  · obtain ⟨cells, -, -⟩ := h
    rw [(hf s cells).1]
  · obtain ⟨hsame, hmemory⟩ := hf s cells
    exact ⟨congrArg Prod.snd hsame, hmemory⟩

theorem ensuring {cleanup : State → State} (h : act.Blind V call call')
    (hc : ∀ s s', s.Alike V s' → (cleanup s).Alike V (cleanup s')) :
    (Act.ensuring cleanup act).Blind V call call' :=
  fun _ _ hw => (h hw).ensuring hc hc

/-- A cell that is lent meanwhile is the same in both. -/
theorem withCell (v : Value) {act : Address → Act σ α} (h : ∀ a, (act a).Blind V call call') :
    (Act.withCell v act).Blind V call call' :=
  .bind (.editGet fun _ _ hs => ⟨(hs.allot v).1.symm, (hs.allot v).2⟩) fun cell =>
    .ensuring (h _) fun _ _ hs => hs.discard cell

theorem report (e : Log.Event) : (Act.report e : Act σ Unit).Blind V call call' :=
  .edit_aside fun _ _ => ⟨rfl, rfl⟩

theorem count (name : String) (n : Nat) : (Act.count name n : Act σ Unit).Blind V call call' :=
  .state_bind (fun _ _ => rfl) fun _ => .bind (.ofOverflow _) fun _ =>
    .edit_aside fun _ _ => ⟨rfl, rfl⟩

theorem recordTiming (name : String) :
    (Act.recordTiming name : Act σ Unit).Blind V call call' :=
  .edit_aside fun _ _ => ⟨rfl, rfl⟩

end Blind

/-- An action that is blind itself goes alike if the foreign code is that it calls. -/
theorem OnlyCalls.follows {V : Veil} {call : Invoker σ} {act : Act σ α} {w w' : World σ}
    (h : act.OnlyCalls call w (call.Overlooks V))
    (hact : ∀ call' : Invoker σ, Invoker.Blind V call' call → act.Blind V call' call)
    (hw : w.Alike V w') : Follows V V (act call w) (act call w') := by
  classical
  -- Calls that take notice are given up; none of them is made.
  let guarded : Invoker σ := fun m inv v =>
    if call.Overlooks V m inv v then call m inv v else .error .exhausted v
  have hguarded : Invoker.Blind V guarded call := by
    intro m inv v v' hv
    by_cases hm : call.Overlooks V m inv v
    · rw [show guarded m inv v = call m inv v from if_pos hm]
      exact hm v' hv
    · rw [show guarded m inv v = .error .exhausted v from if_neg hm]
      exact fun hne => absurd rfl hne
  rw [← h guarded fun m inv v hm => if_pos hm]
  exact hact guarded hguarded hw

end Act

end TwinHeap
