import TwinHeap.Proofs.Veil

/-!
# Likeness — operations that take no notice of what is veiled

The identity table and the engine library work outside of storage, so they are blind to every veil that
foreign code is blind to. A marshaller looks at the place of its value (`Marshaller.present_blind`) and
writes to it, or to its own slot.
-/

namespace TwinHeap

open Act

variable {σ : Type} {V : Veil} {call call' : Invoker σ}

/-! ## The engine library and the identity table -/

namespace State

/-- The innermost call holds the cell until it ends. -/
def keepCell (s : State) (cell : Nat) : State :=
  let frames := match s.bridge.frames with
    | [] => []
    | f :: fs => { f with cells := cell :: f.cells } :: fs
  { s with bridge := { s.bridge with frames := frames } }

theorem aside_dropEntry (host : Address) : Aside (·.dropEntry host) := by
  refine fun s cells => ⟨?_, s.memory_dropEntry host⟩
  show (s.withCells cells).dropEntry host = (s.dropEntry host).withCells cells
  have hbridge : (s.withCells cells).bridge = s.bridge := rfl
  unfold dropEntry
  rw [hbridge]
  cases s.bridge.entries.get? host <;> rfl

theorem aside_root (a : Address) : Aside (·.root a) := by
  refine fun s cells => ⟨?_, ?_⟩
  · show (s.withCells cells).root a = (s.root a).withCells cells
    have hbridge : (s.withCells cells).bridge = s.bridge := rfl
    unfold root
    rw [hbridge]
    cases s.bridge.frames <;> rfl
  · show (s.root a).memory = s.memory
    unfold root
    split <;> rfl

end State

namespace Engine

theorem withPointer_blind {α : Type} (a : Address) {act : Address → Act σ α}
    (h : ∀ a, (act a).Blind V call call') : (withPointer a act).Blind V call call' :=
  .withCell (.plain a.octets) h

variable (hc : Invoker.Blind V call call')
include hc

theorem disconnect_blind (proxy : Address) : (disconnect proxy).Blind V call call' := by
  refine .state_bind (fun _ _ => rfl) fun s => .bind (.callMethod hc _ _ _) ?_
  rintro (x | a)
  · exact .report _
  · exact .pure _

theorem beforeConstruct_blind (proxy host : Address) :
    (beforeConstruct proxy host).Blind V call call' :=
  withPointer_blind _ fun _ => .state_bind (fun _ _ => rfl) fun _ =>
    .bind (.callMethod hc _ _ _) fun _ => .discard (.ofForeign _)

theorem afterConstruct_blind (proxy : Address) : (afterConstruct proxy).Blind V call call' :=
  .state_bind (fun _ _ => rfl) fun _ => .bind (.callMethod hc _ _ _) fun _ => .discard (.ofForeign _)

theorem create_blind (method : Nat) (host : Address) : (create method host).Blind V call call' :=
  withPointer_blind _ fun _ => withPointer_blind _ fun _ =>
    .bind (.callMethod hc _ _ _) fun _ => .ofForeign _

theorem createCollection_blind (p : Property) (host : Address) :
    (createCollection p host).Blind V call call' :=
  .state_bind (fun _ _ => rfl) fun _ => .bind (.ofPanic _) fun _ => create_blind hc _ _

theorem createSoftReference_blind (p : Property) (host : Address) :
    (createSoftReference p host).Blind V call call' :=
  .state_bind (fun _ _ => rfl) fun _ => .bind (.ofPanic _) fun _ => create_blind hc _ _

theorem boxStruct_blind (factory : StructFactory) (host : Address) :
    (boxStruct factory host).Blind V call call' :=
  withPointer_blind _ fun _ => .withCell (.plain (wordOctets 0)) fun _ =>
    .bind (.callMethod hc _ _ _) fun _ => .ofForeign _

omit hc in
theorem structFactory_blind (info : StructInfo) : (structFactory info).Blind V call call' := by
  refine .state_bind (fun _ _ => rfl) fun s => ?_
  split
  · exact .pure _
  · split
    · exact .pure _
    · exact .bind (.report _) fun _ => .bind (.edit_aside fun _ _ => ⟨rfl, rfl⟩) fun _ => .pure _

end Engine

namespace Identity

theorem bindingFor_blind (classRef : Address) : (bindingFor classRef).Blind V call call' := by
  refine .state_bind (fun _ _ => rfl) fun s => ?_
  split
  · exact .pure _
  · refine .bind (.ofPanic _) fun info => .bind (.ofPanic _) ?_
    rintro (e | b)
    · exact .bind (.report _) fun _ => .bind (.count _ _) fun _ => .pure _
    · exact .bind (.report _) fun _ => .bind (.edit_aside fun _ _ => ⟨rfl, rfl⟩) fun _ => .pure _

variable (hc : Invoker.Blind V call call')
include hc

theorem construct_blind (binding : ProxyBinding) (proxy host : Address) :
    (construct binding proxy host).Blind V call call' :=
  .bind (Engine.beforeConstruct_blind hc _ _) fun _ =>
    .bind (Engine.withPointer_blind _ fun _ => .bind (.callMethod hc _ _ _) fun _ => .discard (.ofForeign _))
      fun _ => Engine.afterConstruct_blind hc _

theorem proxyFor_blind (host : Address) : (proxyFor host).Blind V call call' := by
  refine .state_bind (fun _ _ => rfl) fun s => ?_
  split
  · exact .pure _
  refine .bind (.edit_aside (State.aside_dropEntry host)) fun _ => .state_bind (fun _ _ => rfl) fun _ => ?_
  refine .bind (.ofPanic _) fun _ => .bind (bindingFor_blind _) fun _ => .bind (.ofLink _) fun b => ?_
  refine .bind (.editGet_aside fun s cells => ⟨?_, (s.memory_instantiate b.type).1⟩) ?_
  · unfold State.instantiate
    show (if s.foreign.isType b.type then _ else _) = _
    split <;> rfl
  rintro (_ | proxy)
  · exact .fail _
  refine .bind (.edit_aside fun _ _ => ⟨rfl, rfl⟩) fun _ =>
    .bind (.attempt (construct_blind hc _ _ _)) ?_
  rintro (e | _)
  · exact .bind (Engine.disconnect_blind hc _) fun _ =>
      .bind (.edit_aside (State.aside_dropEntry host)) fun _ => .fail _
  · exact .bind (.report _) fun _ => .bind (.count _ _) fun _ => .pure _

end Identity

/-! ## Places -/

namespace State.Alike

variable {s s' : State} {c : Nat} {a : Address}

theorem get (h : s.Alike V s') (c : Nat) :
    s.memory.get c = s'.memory.get c ∨ V c (s.memory.get c) (s'.memory.get c) := by
  have hrel := h.rel c
  unfold Memory.get
  generalize s.memory.cells.get? c = x at hrel ⊢
  generalize s'.memory.cells.get? c = x' at hrel ⊢
  cases hrel with
  | some hv => exact .inr hv
  | none => exact .inl rfl

theorem get_of_shows (h : s.Alike V s') (hc : V.Shows c) : s'.memory.get c = s.memory.get c := by
  obtain hsame | hv := h.get c
  · exact hsame.symm
  · exact (hc _ _ hv).symm

/-- What is not hidden reads the same. -/
theorem readAt (h : s.Alike V s') (ha : ∀ c o, a = .cell c o → V.Shows c) (n : Nat) :
    s'.readAt a n = s.readAt a n := by
  cases a with
  | cell c o =>
    show ((s'.memory.get c).skip o).read n = ((s.memory.get c).skip o).read n
    rw [h.get_of_shows (ha c o rfl)]
  | _ =>
    obtain ⟨cells, -, -⟩ := h
    rfl

/-- The same octets may be written wherever the veil admits changes. -/
theorem writeAt (h : s.Alike V s') (ha : ∀ c o, a = .cell c o → V.Admits c) (os : List Octet) :
    (s.writeAt a os).Alike V (s'.writeAt a os) := by
  cases a with
  | cell c o =>
    exact h.modify (fun _ _ _ _ hv => hv) (fun v v' _ _ hv => ha c o rfl (·.splice o os) v v' hv)
      fun _ _ _ hv => hv
  | payload i => exact h.aside (f := (·.writeAt (.payload i) os)) fun _ _ => ⟨rfl, rfl⟩
  | _ => exact h

theorem storeAt (h : s.Alike V s') (ha : ∀ c o, a = .cell c o → V.Admits c) (v : Value) :
    (s.storeAt a v).Alike V (s'.storeAt a v) := by
  cases a with
  | cell c o =>
    exact h.modify (fun _ _ _ _ hv => hv) (fun v' v'' _ _ hv => ha c o rfl (·.put o v) v' v'' hv)
      fun _ _ _ hv => hv
  | _ => exact h

/-- The same cell is given to the innermost call. -/
theorem frameCell (h : s.Alike V s') (v : Value) :
    (s'.frameCell v).1 = (s.frameCell v).1 ∧ (s.frameCell v).2.Alike V (s'.frameCell v).2 := by
  obtain ⟨hcell, halike⟩ := h.allot v
  refine ⟨hcell.symm, ?_⟩
  have hframes := halike.aside (f := (keepCell · s.memory.next)) fun _ _ => ⟨rfl, rfl⟩
  obtain ⟨cells, -, -⟩ := h
  exact hframes

end State.Alike

theorem Veil.Shows.admits {c : Nat} (h : V.Shows c) (hV : ∀ v, V c v v) : V.Admits c := by
  intro f v v' hv
  rw [h v v' hv]
  exact hV _

/-! ## Passing a value -/

namespace Marshaller

/-- What the bridge itself looks at where it presents the value at a place; the rest is up to foreign
code. -/
def glance (m : Marshaller) (s : State) (host : Address) : List Octet × String :=
  match m with
  | name => (s.readAt host 12, "")
  | object | classRef => (s.readAt host addressSize, "")
  | text | string => ([], s.textAt host)
  | _ => ([], "")

variable {m : Marshaller} {p : Property} {host : Address} {slot : Slot}

theorem present_blind (hc : Invoker.Blind V call call') (hslot : V.Admits slot.cell)
    (hlook : ∀ s s', s.Alike V s' → m.glance s' host = m.glance s host) :
    (m.present p host slot).Blind V call call' := by
  have hrecord (os : List Octet) :
      (edit (·.writeAt slot.staging os) >>= fun _ => pure slot.staging : Act σ _).Blind V call call' :=
    .bind (.edit fun _ _ h => h.writeAt (by rintro c o ⟨⟩; exact hslot) os) fun _ => .pure _
  have hstring (text : String) :
      (editGet (·.newString text) : Act σ _).Blind V call call' :=
    .editGet_aside fun _ _ => ⟨rfl, rfl⟩
  intro w w' hw
  -- The state is looked at for the value of the host alone, which both worlds show alike.
  have hglance := hlook _ _ hw.state
  unfold present
  rw [Act.state_bind, Act.state_bind]
  cases m with
  | bool | scalar | enumeration => exact .ok hw
  | name =>
    have hname : w'.state.nameAt host = w.state.nameAt host :=
      congrArg (fun look : List Octet × String => HostName.ofOctets look.1) hglance
    rw [hname]
    exact (hrecord _).bind (fun _ => .pure _) hw
  | text =>
    have htext : w'.state.textAt host = w.state.textAt host := congrArg Prod.snd hglance
    rw [htext]
    exact (hstring _).bind (fun _ => (hrecord _).bind fun _ => .pure _) hw
  | string =>
    have htext : w'.state.textAt host = w.state.textAt host := congrArg Prod.snd hglance
    rw [htext]
    exact (hstring _).bind (fun _ => .pure _) hw
  | object =>
    have haddress : w'.state.addressAt host = w.state.addressAt host :=
      congrArg (fun look : List Octet × String => Address.ofOctets look.1) hglance
    rw [haddress]
    refine Blind.bind ?_ (fun _ => .pure _) hw
    unfold proxyOrNull
    split
    · exact Identity.proxyFor_blind hc _
    · exact .pure _
  | classRef =>
    have hread : w'.state.readAt host addressSize = w.state.readAt host addressSize :=
      congrArg Prod.fst hglance
    rw [hread]
    exact (hrecord _).bind (fun _ => .pure _) hw
  | softReference =>
    exact (Engine.createSoftReference_blind hc _ _).bind (fun _ => .pure _) hw
  | struct =>
    refine Blind.bind (.ofPanic _) (fun info => ?_) hw
    refine .bind (Engine.structFactory_blind info) fun _ => .bind (.ofLink _) fun factory => ?_
    refine .bind (Engine.boxStruct_blind hc _ _) ?_
    rintro (_ | box)
    · exact .abandon _
    · exact .state_bind (fun _ _ => rfl) fun _ => .bind (.ofPanic _) fun _ => .pure _
  | collection =>
    exact (Engine.createCollection_blind hc _ _).bind (fun _ => .pure _) hw

theorem pass_blind (hc : Invoker.Blind V call call') (hslot : V.Admits slot.cell)
    (hlook : ∀ s s', s.Alike V s' → m.glance s' host = m.glance s host) (byRef : Bool) :
    (m.pass p host slot byRef).Blind V call call' := by
  refine .bind (present_blind hc hslot hlook) fun presented => ?_
  cases byRef with
  | false => exact .pure _
  | true =>
    refine .bind (.edit fun _ _ h => h.writeAt (by rintro c o ⟨⟩; exact hslot) _) fun _ => ?_
    dsimp only
    split <;> exact .pure _

end Marshaller

end TwinHeap
