import TwinHeap.Proofs.Action
import TwinHeap.Proofs.Outcomes

/-!
# Conduct — what the bridge does between calls of foreign code

An operation of the bridge is a series of small changes of the state (`Change`) with calls of
foreign code between them (`Reason`). What an operation has taken and still has to give back, it
owes; the debts lie on each other like the operations do. A `Law` is a property of the debts and the
world that every change and every call keeps, so each invariant of the bridge is proved change by
change, and holds wherever foreign code is called.
-/

namespace TwinHeap

/-- How far the construction of a proxy is. -/
inductive Stage
  | raw
  /-- It was told its host object. -/
  | told
  /-- A step threw, or was abandoned. -/
  | broken
deriving DecidableEq

/-- What a running operation still has to give back or to finish. -/
inductive Owed
  /-- A cell that is lent to foreign code. -/
  | cell (index : Nat)
  /-- A proxy that is being constructed. -/
  | making (host proxy : Address) (stage : Stage)
  /-- The hold of an entry that was removed, the proxy to disconnect before it is released, and
  whether nothing is left to disconnect. -/
  | severing (grip : Grip) (proxy : Option Address) (settled : Bool)
  /-- The innermost redirected call. -/
  | frame (key : Redirector.Key)

namespace Owed

/-- The removal of an entry whose proxy is alive. -/
def isSevering : Owed → Bool
  | severing _ (some _) _ => true
  | _ => false

/-- The removal of an entry whose proxy is gone. -/
def isIdle : Owed → Bool
  | severing _ none _ => true
  | _ => false

def isFrame : Owed → Bool
  | frame _ => true
  | _ => false

def isMaking : Owed → Bool
  | making _ _ _ => true
  | _ => false

/-- A proxy and its host object that do not know each other, or no longer should. -/
def isOpen : Owed → Bool
  | making _ _ .raw => true
  | severing _ (some _) false => true
  | _ => false

/-- The debt whatever phase it is in. -/
def core : Owed → Owed
  | making host proxy _ => making host proxy .raw
  | severing g proxy _ => severing g proxy false
  | d => d

/-- What is owed after a call that was answered: `o`, or `b` if it threw. -/
def after (answer : Except ForeignException (Option Address)) (o b : List Owed) : List Owed :=
  match answer with
  | .ok _ => o
  | .error _ => b

theorem after_self (answer : Except ForeignException (Option Address)) (o : List Owed) :
    after answer o o = o := by
  cases answer <;> rfl

theorem core_after {a : Except ForeignException (Option Address)} {o o' b : List Owed}
    (ho : o'.map core = o.map core) (hb : b.map core = o.map core) :
    (after a o' b).map core = o.map core := by
  cases a with
  | ok => exact ho
  | error => exact hb

end Owed

namespace Helpers

/-- The methods that make and read collections and soft references. -/
def ofFactory (h : Helpers) : List Nat :=
  [h.createArray, h.writeArray, h.createSet, h.writeSet, h.createMap, h.writeMap,
    h.createSoftObject, h.writeSoftObject, h.createSoftClass, h.writeSoftClass]

theorem mem_ofFactory_of_collection {h : Helpers} {p : Property} {make write : Nat}
    (hc : h.collection p = .ok (make, write)) : make ∈ h.ofFactory ∧ write ∈ h.ofFactory := by
  unfold collection at hc
  split at hc <;> cases hc <;> simp [ofFactory]

theorem mem_ofFactory_of_softReference {h : Helpers} {p : Property} {make write : Nat}
    (hc : h.softReference p = .ok (make, write)) : make ∈ h.ofFactory ∧ write ∈ h.ofFactory := by
  unfold softReference at hc
  split at hc <;> cases hc <;> simp [ofFactory]

end Helpers

namespace State

/-- The state with the entry of a host object taken out, its hold kept. -/
def eraseEntry (s : State) (host : Address) : State :=
  { s with bridge := { s.bridge with entries := s.bridge.entries.erase host } }

/-- The state in which a hold is released. -/
def releaseGrip (s : State) (g : Grip) : State :=
  { s with foreign := { s.foreign with heap := (g.release s.heap).2 } }

/-- The state with a new instance as the proxy of a host object. -/
def addProxy (s : State) (host : Address) (type : Nat) : State :=
  (s.instantiate type).2.addEntry host (.foreign s.heap.nextObject)

theorem instantiate_of_isType {s : State} {type : Nat} (h : s.foreign.isType type = true) :
    s.instantiate type = (some (.foreign s.heap.nextObject),
      s.withHeap (s.heap.allocate (.object type .null)).2) := by
  unfold instantiate
  rw [if_pos h]
  rfl

theorem instantiate_of_not_isType {s : State} {type : Nat} (h : s.foreign.isType type = false) :
    s.instantiate type = (none, s) := by
  unfold instantiate
  rw [h]
  rfl

theorem addProxy_of_isType {s : State} {type : Nat} (h : s.foreign.isType type = true)
    (host : Address) : s.addProxy host type =
      (s.withHeap (s.heap.allocate (.object type .null)).2).addEntry host
        (.foreign s.heap.nextObject) := by
  unfold addProxy
  rw [instantiate_of_isType h]

end State

/-- What the bridge is free to do. -/
structure Terms where
  /-- What was owed before, none of which is given back. -/
  base : List Owed
  mayAsk : Request → Prop
  mayWrite : Address → Prop
  /-- The host objects that may be given a new proxy. -/
  mayMake : Address → Prop
  /-- The host objects that may be severed from their proxies. -/
  maySever : Address → Prop
  /-- Where code that may ask for anything is in control. -/
  ready : List Owed → Prop

/-- Terms that only restrict what is asked for, and where. -/
def Terms.asking (mayAsk : Request → Prop) (ready : List Owed → Prop) : Terms where
  base := []
  mayAsk := mayAsk
  mayWrite _ := True
  mayMake _ := True
  maySever _ := True
  ready := ready

/-- Why foreign code is called: the method, what it is given, and what is owed before the call,
after it, and after a call that threw or was abandoned. Code that may ask for anything is called
only where what is owed is `ready`. -/
inductive Reason (T : Terms) :
    List Owed → State → Nat → Invocation → List Owed → List Owed → Prop
  | connect {o : List Owed} {s : State} {c : Nat} {host proxy : Address}
      (hc : s.memory.get c = .plain host.octets) (hf : s.findProxy host = some proxy)
      (hn : s.heap.nativeOf proxy = some .null) :
      Reason T (.cell c :: .making host proxy .raw :: o) s s.bridge.helpers.beforeConstruct
        ⟨some proxy, [.ofCell c]⟩ (.cell c :: .making host proxy .told :: o)
        (.cell c :: .making host proxy .broken :: o)
  | construct {o : List Owed} {s : State} {c : Nat} {host proxy classRef : Address}
      {b : ProxyBinding} (hb : s.bridge.bindings.get? classRef = some b)
      (hc : s.memory.get c = .plain host.octets) :
      Reason T (.cell c :: .making host proxy .told :: o) s b.method
        ⟨some proxy, if b.takesNative then [.ofCell c] else []⟩
        (.cell c :: .making host proxy .told :: o) (.cell c :: .making host proxy .broken :: o)
  | complete {o : List Owed} {s : State} {host proxy : Address} :
      Reason T (.making host proxy .told :: o) s s.bridge.helpers.afterConstruct
        ⟨some proxy, []⟩ (.making host proxy .told :: o) (.making host proxy .broken :: o)
  | undo {o : List Owed} {s : State} {host proxy : Address} :
      Reason T (.making host proxy .broken :: o) s s.bridge.helpers.disconnect
        ⟨some proxy, []⟩ (.making host proxy .broken :: o) (.making host proxy .broken :: o)
  | sever {o : List Owed} {s : State} {g : Grip} {proxy : Address} :
      Reason T (.severing g (some proxy) false :: o) s s.bridge.helpers.disconnect
        ⟨some proxy, []⟩ (.severing g (some proxy) true :: o) (.severing g (some proxy) true :: o)
  | nativePtr {o : List Owed} {s : State} {proxy : Address} (hr : T.ready o) :
      Reason T o s s.bridge.helpers.nativePtr ⟨some proxy, []⟩ o o
  | factory {o : List Owed} {s : State} {m : Nat} {args : List Address}
      (hr : T.ready o) (hm : m ∈ s.bridge.helpers.ofFactory) : Reason T o s m ⟨none, args⟩ o o
  | box {o : List Owed} {s : State} {name : String} {f : StructFactory} {m : Nat}
      {args : List Address} (hr : T.ready o) (hf : s.bridge.factories.get? name = some f)
      (hm : m = f.fromNative ∨ m = f.toNative) : Reason T o s m ⟨none, args⟩ o o
  | linked {o : List Owed} {s : State} {key : Redirector.Key} {r : Redirector} {l : Linkage}
      {m : Nat} {inv : Invocation} (hr : T.ready o) (hk : s.redirector? key = some r)
      (hl : r.binding = .linked l m) : Reason T o s m inv o o
  | direct {o : List Owed} {s : State} {m : Nat} {receiver : Option Address}
      {args : List Address} (hr : T.ready o) (h : T.mayAsk (.call m receiver args)) :
      Reason T o s m ⟨receiver, args⟩ o o

/-- A call of foreign code only changes the phases of what is owed. -/
theorem Reason.core {T : Terms} {o o' b : List Owed} {s : State} {m : Nat}
    {inv : Invocation} (h : Reason T o s m inv o' b) :
    o'.map Owed.core = o.map Owed.core ∧ b.map Owed.core = o.map Owed.core := by
  cases h <;> exact ⟨rfl, rfl⟩

/-- It neither begins nor ends a removal or a redirected call. -/
theorem Reason.counts {T : Terms} {o o' b : List Owed} {s : State} {m : Nat}
    {inv : Invocation} (h : Reason T o s m inv o' b) :
    o'.countP Owed.isSevering = o.countP Owed.isSevering ∧
      o'.countP Owed.isIdle = o.countP Owed.isIdle ∧
      o'.countP Owed.isFrame = o.countP Owed.isFrame := by
  cases h <;> exact ⟨rfl, rfl, rfl⟩

/-- Only two methods are called while a proxy and its host object do not know each other. -/
def Owed.Settled (o : List Owed) (s : State) (m : Nat) : Prop :=
  o.countP isOpen = 0 ∨ m = s.bridge.helpers.disconnect ∨ m = s.bridge.helpers.beforeConstruct

/-- No other method changes that. -/
theorem Reason.countP_isOpen {T : Terms} {o o' b : List Owed} {s : State} {m : Nat}
    {inv : Invocation} (h : Reason T o s m inv o' b) (hd : m ≠ s.bridge.helpers.disconnect)
    (hc : m ≠ s.bridge.helpers.beforeConstruct) :
    o'.countP Owed.isOpen = o.countP Owed.isOpen := by
  cases h with
  | connect => exact absurd rfl hc
  | sever => exact absurd rfl hd
  | _ => rfl

/-- A change that the bridge makes by itself, with what is owed before and after it. -/
inductive Change (T : Terms) : List Owed → State → List Owed → State → Prop
  | note {o : List Owed} {s : State} (journal : List Log.Event) (metrics : Metrics) :
      Change T o s o
        { s with journal := journal, bridge := { s.bridge with metrics := metrics } }
  | openCell {o : List Owed} {s : State} (v : Value) :
      Change T o s (.cell s.memory.next :: o) (s.allot v).2
  | closeCell {o : List Owed} {s : State} {c : Nat} (hb : T.base <:+ o) :
      Change T (.cell c :: o) s o (s.discard c)
  | write {o : List Owed} {s : State} {a : Address} (h : T.mayWrite a) (os : List Octet) :
      Change T o s o (s.writeAt a os)
  | store {o : List Owed} {s : State} {a : Address} (h : T.mayWrite a) (v : Value) :
      Change T o s o (s.storeAt a v)
  | string {o : List Owed} {s : State} (text : String) :
      Change T o s o (s.newString text).2
  | meetStruct {o : List Owed} {s : State} {info : StructInfo} {f : StructFactory}
      (hf : s.foreign.findFactory info = .ok f)
      (hn : s.bridge.factories.get? info.fullName = none) :
      Change T o s o { s with
        bridge := { s.bridge with factories := s.bridge.factories.insert info.fullName f } }
  | resolve {o : List Owed} {s : State} {classRef : Address} {b : ProxyBinding}
      (hb : s.resolveBinding classRef = .ok (.ok b))
      (hn : s.bridge.bindings.get? classRef = none) :
      Change T o s o { s with
        bridge := { s.bridge with bindings := s.bridge.bindings.insert classRef b } }
  | bind {o : List Owed} {s : State} {key : Redirector.Key} {r : Redirector} {b : Binding}
      (hr : s.redirector? key = some r) (hu : r.binding = .unbound)
      (hb : ∀ l m, b = .linked l m → r.resolve s.bridge.registry s.foreign = .ok (l, m)) :
      Change T o s o (s.modifyRedirector key fun r => { r with binding := b })
  | collect {o : List Owed} {s : State} (hr : T.ready o) (full : Bool) :
      Change T o s o (s.withHeap (s.heap.collect full))
  | clear {o : List Owed} {s : State} {host : Address} (hn : s.findProxy host = none) :
      Change T o s o (s.dropEntry host)
  | make {o : List Owed} {s : State} {host classRef : Address} {type : Nat}
      (hm : T.mayMake host) (hn : s.bridge.entries.get? host = none)
      (hc : s.host.classOf host = .ok classRef)
      (ht : s.foreign.isType type = true) :
      Change T o s (.making host (.foreign s.heap.nextObject) .raw :: o)
        (s.addProxy host type)
  | made {o : List Owed} {s : State} {host proxy : Address} {stage : Stage} (hb : T.base <:+ o)
      (hs : stage ≠ .raw) : Change T (.making host proxy stage :: o) s o s
  | unmake {o : List Owed} {s : State} {host proxy : Address} (hb : T.base <:+ o) :
      Change T (.making host proxy .broken :: o) s o (s.dropEntry host)
  | sever {o : List Owed} {s : State} {host : Address} {g : Grip} (hr : T.ready o)
      (hs : T.maySever host) (hg : s.bridge.entries.get? host = some g) :
      Change T o s
        (.severing g (g.target? s.heap) (g.target? s.heap).isNone :: o) (s.eraseEntry host)
  | severed {o : List Owed} {s : State} {g : Grip} {proxy : Option Address} (hb : T.base <:+ o) :
      Change T (.severing g proxy true :: o) s o (s.releaseGrip g)
  | enter {o : List Owed} {s : State} (key : Redirector.Key)
      (hk : ∃ r l m, s.redirector? key = some r ∧ r.binding = .linked l m) :
      Change T o s (.frame key :: o) (s.enter key)
  | leave {o : List Owed} {s : State} {key : Redirector.Key} (hb : T.base <:+ o) :
      Change T (.frame key :: o) s o (s.leave key)
  | frameCell {o : List Owed} {s : State} {key : Redirector.Key} (v : Value) :
      Change T (.frame key :: o) s (.frame key :: o) (s.frameCell v).2
  | root {o : List Owed} {s : State} {key : Redirector.Key} (a : Address) :
      Change T (.frame key :: o) s (.frame key :: o) (s.root a)
  | alone {o : List Owed} {s : State} {r : Request} {f : State → State} (hr : T.ready o)
      (h : T.mayAsk r) (hf : r.alone? = some f) : Change T o s o (f s)

/-! ## What only grows -/

/-- What the bridge has settled stays so: its library, what it found and what it linked. -/
structure State.Grows (s s' : State) : Prop where
  config : s'.bridge.config = s.bridge.config
  helpers : s'.bridge.helpers = s.bridge.helpers
  registry : s'.bridge.registry = s.bridge.registry
  binding : ∀ a b, s.bridge.bindings.get? a = some b → s'.bridge.bindings.get? a = some b
  factory : ∀ n f, s.bridge.factories.get? n = some f → s'.bridge.factories.get? n = some f
  linked : ∀ key r l m, s.redirector? key = some r → r.binding = .linked l m →
    ∃ r', s'.redirector? key = some r' ∧ r'.binding = .linked l m
  next : s.memory.next ≤ s'.memory.next

namespace State.Grows

variable {s s' s'' : State}

theorem refl (s : State) : s.Grows s :=
  ⟨rfl, rfl, rfl, fun _ _ h => h, fun _ _ h => h, fun _ r _ _ h hl => ⟨r, h, hl⟩, Nat.le_refl _⟩

theorem trans (h : s.Grows s') (h' : s'.Grows s'') : s.Grows s'' where
  config := h'.config.trans h.config
  helpers := h'.helpers.trans h.helpers
  registry := h'.registry.trans h.registry
  binding a b hb := h'.binding a b (h.binding a b hb)
  factory n f hf := h'.factory n f (h.factory n f hf)
  linked key r l m hr hl := by
    obtain ⟨r', hr', hl'⟩ := h.linked key r l m hr hl
    exact h'.linked key r' l m hr' hl'
  next := Nat.le_trans h.next h'.next

/-- A change that leaves the settled parts of the bridge alone. -/
theorem of_bridge (hb : s'.bridge.config = s.bridge.config ∧
    s'.bridge.helpers = s.bridge.helpers ∧ s'.bridge.registry = s.bridge.registry ∧
    s'.bridge.bindings = s.bridge.bindings ∧ s'.bridge.factories = s.bridge.factories ∧
    s'.bridge.redirectors = s.bridge.redirectors) (hn : s.memory.next ≤ s'.memory.next) :
    s.Grows s' := by
  obtain ⟨hc, hh, hr, hbs, hfs, hrs⟩ := hb
  refine ⟨hc, hh, hr, ?_, ?_, ?_, hn⟩
  · intro a b h
    rw [hbs, h]
  · intro n f h
    rw [hfs, h]
  · intro key r l m h hl
    refine ⟨r, ?_, hl⟩
    unfold State.redirector? at h ⊢
    rw [hrs, h]

/-- Redirectors change, but none that is linked is bound anew. -/
theorem of_modifyRedirector (key : Redirector.Key) {f : Redirector → Redirector}
    (hf : ∀ r l m, s.redirector? key = some r → r.binding = .linked l m →
      (f r).binding = .linked l m) : s.Grows (s.modifyRedirector key f) := by
  refine ⟨rfl, rfl, rfl, fun _ _ h => h, fun _ _ h => h, ?_, Nat.le_refl _⟩
  intro key' r l m hr hl
  have hget : (s.modifyRedirector key f).redirector? key' =
      if key = key' then (s.redirector? key').map f else s.redirector? key' := by
    simp only [redirector?, modifyRedirector, Table.get?_modify]
  by_cases hk : key = key'
  · subst hk
    exact ⟨f r, by rw [hget, if_pos rfl, hr]; rfl, hf r l m hr hl⟩
  · exact ⟨r, by rw [hget, if_neg hk, hr], hl⟩

end State.Grows

namespace State

theorem grows_writeAt (s : State) (a : Address) (os : List Octet) : s.Grows (s.writeAt a os) := by
  cases a <;> exact .of_bridge ⟨rfl, rfl, rfl, rfl, rfl, rfl⟩ (Nat.le_refl _)

theorem grows_storeAt (s : State) (a : Address) (v : Value) : s.Grows (s.storeAt a v) := by
  cases a <;> exact .of_bridge ⟨rfl, rfl, rfl, rfl, rfl, rfl⟩ (Nat.le_refl _)

theorem grows_dropEntry (s : State) (host : Address) : s.Grows (s.dropEntry host) := by
  unfold dropEntry
  split <;> exact .of_bridge ⟨rfl, rfl, rfl, rfl, rfl, rfl⟩ (Nat.le_refl _)

theorem grows_instantiate (s : State) (type : Nat) : s.Grows (s.instantiate type).2 := by
  unfold instantiate
  split <;> exact .of_bridge ⟨rfl, rfl, rfl, rfl, rfl, rfl⟩ (Nat.le_refl _)

theorem grows_enter (s : State) (key : Redirector.Key) : s.Grows (s.enter key) := by
  refine .trans (.of_modifyRedirector key (f := fun r => { r with depth := r.depth + 1 })
    fun r l m _ hl => hl) ?_
  exact .of_bridge ⟨rfl, rfl, rfl, rfl, rfl, rfl⟩ (Nat.le_refl _)

theorem next_foldl_discard (cells : List Nat) (m : Memory) :
    (cells.foldl Memory.discard m).next = m.next := by
  induction cells generalizing m with
  | nil => rfl
  | cons c cs ih => rw [List.foldl_cons, ih]; rfl

theorem grows_leave (s : State) (key : Redirector.Key) : s.Grows (s.leave key) := by
  refine .trans (.of_modifyRedirector key (f := fun r => { r with depth := r.depth - 1 })
    fun r l m _ hl => hl) ?_
  unfold leave
  dsimp only
  split
  · exact .refl _
  · refine .of_bridge ⟨rfl, rfl, rfl, rfl, rfl, rfl⟩ ?_
    show _ ≤ (List.foldl Memory.discard _ _).next
    exact Nat.le_of_eq (next_foldl_discard _ _).symm

theorem grows_frameCell (s : State) (v : Value) : s.Grows (s.frameCell v).2 :=
  .of_bridge ⟨rfl, rfl, rfl, rfl, rfl, rfl⟩ (Nat.le_succ _)

theorem grows_root (s : State) (a : Address) : s.Grows (s.root a) := by
  unfold root
  split <;> exact .of_bridge ⟨rfl, rfl, rfl, rfl, rfl, rfl⟩ (Nat.le_refl _)

end State

theorem Request.Outcome.grows {r : Request} {s s' : State} (h : r.Outcome s s') : s.Grows s' := by
  cases h with
  | allot => exact .of_bridge ⟨rfl, rfl, rfl, rfl, rfl, rfl⟩ (Nat.le_succ _)
  | redirect hn method =>
    exact ⟨rfl, rfl, rfl, fun _ _ h => h, fun _ _ h => h,
      fun _ r _ _ hr hl => ⟨r, State.redirector?_register hn method hr, hl⟩, Nat.le_refl _⟩
  | _ => exact .of_bridge ⟨rfl, rfl, rfl, rfl, rfl, rfl⟩ (Nat.le_refl _)

/-- Every change of the bridge keeps what is settled. -/
theorem Change.grows {T : Terms} {o o' : List Owed} {s s' : State} (h : Change T o s o' s') :
    s.Grows s' := by
  -- What is settled are the classes that were resolved, the structs that were met and the functions
  -- that were linked.
  cases h with
  | openCell => exact .of_bridge ⟨rfl, rfl, rfl, rfl, rfl, rfl⟩ (Nat.le_succ _)
  | write _ os => exact s.grows_writeAt _ os
  | store _ v => exact s.grows_storeAt _ v
  | @meetStruct _ _ info f _ hn =>
    refine ⟨rfl, rfl, rfl, fun _ _ h => h, ?_, fun _ r _ _ h hl => ⟨r, h, hl⟩, Nat.le_refl _⟩
    intro n g hg
    rw [Table.get?_insert, if_neg (by rintro rfl; rw [hn] at hg; cases hg), hg]
  | @resolve _ _ classRef b _ hn =>
    refine ⟨rfl, rfl, rfl, ?_, fun _ _ h => h, fun _ r _ _ h hl => ⟨r, h, hl⟩, Nat.le_refl _⟩
    intro a g hg
    rw [Table.get?_insert, if_neg (by rintro rfl; rw [hn] at hg; cases hg), hg]
  | bind hr hu _ =>
    refine .of_modifyRedirector _ fun r l m hr' hl => ?_
    rw [hr] at hr'
    cases hr'
    rw [hu] at hl
    cases hl
  | clear => exact s.grows_dropEntry _
  | @make _ _ host _ type =>
    refine (s.grows_instantiate type).trans ?_
    exact .of_bridge ⟨rfl, rfl, rfl, rfl, rfl, rfl⟩ (Nat.le_refl _)
  | made => exact .refl _
  | unmake => exact s.grows_dropEntry _
  | enter key => exact s.grows_enter key
  | leave => exact s.grows_leave _
  | frameCell v => exact s.grows_frameCell v
  | root a => exact s.grows_root a
  | alone _ _ hf => exact (Request.outcome hf s).grows
  | _ => exact .of_bridge ⟨rfl, rfl, rfl, rfl, rfl, rfl⟩ (Nat.le_refl _)

/-- Foreign methods keep what is settled, however they end. -/
def Invoker.Grows {σ : Type} (call : Invoker σ) : Prop :=
  ∀ m inv w, Ends (call m inv w) (fun _ v => w.state.Grows v.state)
    fun f v => f ≠ .exhausted → w.state.Grows v.state

/-! ## Laws -/

/-- A property of what is owed and of the world, with everything that keeps it: the changes that
the bridge makes, and the calls of foreign code for the reasons that it has. -/
structure Law (σ : Type) extends Terms where
  call : Invoker σ
  /-- The actions that it is about. -/
  course : Act.Course call
  holds : List Owed → World σ → Prop
  /-- What is said of the worlds in which foreign code is called. -/
  sees : List Owed → World σ → Prop := holds
  seen : ∀ {o : List Owed} {w : World σ}, holds o w → sees o w := by exact id
  grows : call.Grows
  ready_cons : ∀ {d : Owed} {o : List Owed}, d.isMaking = false → ready o → ready (d :: o)
  /-- A new cell may be written to. -/
  fresh : ∀ {o : List Owed} {w : World σ}, holds o w → ∀ offset,
    mayWrite (.cell w.state.memory.next offset)
  change : ∀ {o o' : List Owed} {w : World σ} {s' : State}, holds o w →
    Change toTerms o w.state o' s' → holds o' { w with state := s' }
  called : ∀ {o o' b : List Owed} {w : World σ} {m : Nat} {inv : Invocation}, holds o w →
    Reason toTerms o w.state m inv o' b →
    course.Runs (Act.callMethod m inv.receiver inv.args) w →
    Ends (call m inv w) (fun a v => holds (Owed.after a o' b) v)
      fun f v => f ≠ .exhausted → holds b v

theorem Law.ready_append {σ : Type} (L : Law σ) {x r : List Owed} (hr : L.ready r)
    (hx : x.countP Owed.isMaking = 0) : L.ready (x ++ r) := by
  induction x with
  | nil => exact hr
  | cons d x ih =>
    rw [List.countP_cons] at hx
    refine L.ready_cons ?_ (ih (by omega))
    cases hd : d.isMaking with
    | false => rfl
    | true => rw [hd] at hx; simp at hx

end TwinHeap
