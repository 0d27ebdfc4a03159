import TwinHeap.Proofs.Calls
import TwinHeap.Proofs.Grips

/-!
# Results — what a method produced, until it is copied

Nobody holds the object that a method returns, or those that it leaves in the slots of its outputs.
While one output is written back, foreign code may run a collection, and then the results that are
still to be copied are gone (`results_not_always_alive`). Nothing else takes them away: as long as no
collection was run, all that was alive when the method returned still is (`results_alive_unless_collected`).
-/

namespace TwinHeap

variable {σ : Type}

namespace State

/-- From one state to the other nothing died, unless a collection was run. -/
structure Survives (s s' : State) : Prop where
  le : s.heap.collections ≤ s'.heap.collections
  alive : s'.heap.collections = s.heap.collections →
    ∀ a, s.heap.isAlive a = true → s'.heap.isAlive a = true

namespace Survives

variable {s s' s'' : State}

theorem refl (s : State) : s.Survives s := ⟨Nat.le_refl _, fun _ _ h => h⟩

theorem trans (h : s.Survives s') (h' : s'.Survives s'') : s.Survives s'' := by
  refine ⟨Nat.le_trans h.le h'.le, fun heq a ha => ?_⟩
  have hle := h.le
  have hle' := h'.le
  exact h'.alive (by omega) a (h.alive (by omega) a ha)

/-- A change that runs no collection and lets nothing die. -/
theorem of_alive (hc : s'.heap.collections = s.heap.collections)
    (hl : ∀ a, s.heap.isAlive a = true → s'.heap.isAlive a = true) : s.Survives s' :=
  ⟨Nat.le_of_eq hc.symm, fun _ => hl⟩

/-- A change outside of the foreign heap. -/
theorem of_heap (hh : s'.heap = s.heap) : s.Survives s' :=
  .of_alive (congrArg _ hh) fun _ ha => hh ▸ ha

end Survives

theorem survives_releaseGrip (s : State) (g : Grip) : s.Survives (s.releaseGrip g) :=
  .of_alive (by obtain ⟨_ | k, st⟩ := g <;> rfl) fun a ha => (Heap.isAlive_release g _ a).trans ha

theorem survives_makeGrip (s : State) (target : Address) (st : Strength) :
    s.Survives (s.withHeap (Grip.make s.heap target st).2) :=
  .of_alive (by cases st <;> rfl) fun a ha => (Heap.isAlive_make _ _ st a).trans ha

theorem survives_setStrength (s : State) (g : Grip) (st : Strength) :
    s.Survives (s.withHeap (g.setStrength s.heap st).2) := by
  obtain he | ⟨he, -⟩ | ⟨target, -, he⟩ := Heap.setStrength_cases g s.heap st
  · rw [he]
    exact .refl _
  · rw [he]
    exact s.survives_releaseGrip g
  · rw [he]
    exact (s.survives_releaseGrip g).trans ((s.releaseGrip g).survives_makeGrip target st)

theorem survives_dropEntry (s : State) (host : Address) : s.Survives (s.dropEntry host) := by
  unfold dropEntry
  split
  · exact .refl _
  · rename_i g _
    exact (s.survives_releaseGrip g).trans (.of_heap rfl)

theorem survives_allocate (s : State) (m : Managed) :
    s.Survives (s.withHeap (s.heap.allocate m).2) :=
  .of_alive rfl fun _ ha => Heap.isAlive_allocate m ha

theorem survives_root (s : State) (a : Address) : s.Survives (s.root a) := by
  unfold root
  split
  · exact .refl _
  · exact (s.survives_makeGrip a .strong).trans (.of_heap rfl)

theorem survives_leave (s : State) (key : Redirector.Key) : s.Survives (s.leave key) := by
  unfold leave
  dsimp only
  split
  · exact .of_heap rfl
  · rename_i f fs _
    have hfold (rs : List Grip) (h : Heap) :
        (rs.foldl (fun h (g : Grip) => (g.release h).2) h).collections = h.collections := by
      induction rs generalizing h with
      | nil => rfl
      | cons r rs ih =>
        rw [List.foldl_cons, ih]
        obtain ⟨_ | k, st⟩ := r <;> rfl
    exact .of_alive (hfold f.roots s.heap) fun a ha => (Heap.isAlive_releaseAll _ _ a).trans ha

theorem survives_writeAt (s : State) (a : Address) (os : List Octet) :
    s.Survives (s.writeAt a os) := by
  cases a with
  | payload i => exact .of_alive rfl fun b hb => (Heap.isAlive_modify (.foreign i) _ b).trans hb
  | _ => exact .of_heap rfl

theorem survives_storeAt (s : State) (a : Address) (v : Value) : s.Survives (s.storeAt a v) :=
  .of_heap (by cases a <;> rfl)

/-- A collection is counted, whatever it takes. -/
theorem survives_collect (s : State) (full : Bool) :
    s.Survives (s.withHeap (s.heap.collect full)) :=
  ⟨Nat.le_succ _, fun heq => absurd heq (Nat.succ_ne_self _)⟩

end State

/-- Whatever is asked for, nothing dies but of a collection. -/
theorem Request.Outcome.survives {r : Request} {s s' : State} (h : r.Outcome s s') :
    s.Survives s' := by
  cases h with
  | payload i octets => exact s.survives_writeAt (.payload i) octets
  | allocate contents => exact s.survives_allocate contents
  | instantiate => exact s.survives_allocate _
  | setNative object native =>
    exact .of_alive (by cases object <;> rfl) fun b hb => (Heap.isAlive_modify object _ b).trans hb
  | collect full => exact s.survives_collect full
  | hold target strength => exact (s.survives_makeGrip target strength).trans (.of_heap rfl)
  | @regrip _ old _ strength => exact (s.survives_setStrength old strength).trans (.of_heap rfl)
  | @letGo _ old => exact (s.survives_releaseGrip old).trans (.of_heap rfl)
  | @setRooted _ old => exact (s.survives_setStrength old _).trans (.of_heap rfl)
  | _ => exact .of_heap rfl

/-- Nothing dies of a change but of a collection. -/
theorem Change.survives {T : Terms} {o o' : List Owed} {s s' : State} (hc : Change T o s o' s') :
    s.Survives s' := by
  cases hc with
  | write _ os => exact s.survives_writeAt _ os
  | store _ v => exact s.survives_storeAt _ v
  | string text => exact s.survives_allocate (.string text)
  | collect _ full => exact s.survives_collect full
  | clear => exact s.survives_dropEntry _
  | @make _ _ host _ _ _ _ _ ht =>
    rw [State.addProxy_of_isType ht]
    exact (s.survives_allocate _).trans ((State.survives_makeGrip _ _ .strong).trans (.of_heap rfl))
  | unmake => exact s.survives_dropEntry _
  | severed => exact s.survives_releaseGrip _
  | leave => exact s.survives_leave _
  | root a => exact s.survives_root a
  | alone _ _ hf => exact (Request.outcome hf s).survives
  | _ => exact .of_heap rfl

/-- Nothing dies but of collections, whatever foreign code does. -/
def survivalRealm (σ : Type) (old : State) : Realm σ :=
  .everywhere (fun _ w => old.Survives w.state) (fun _ h => h) (fun _ h => h)
    (fun _ _ h => h.trans (.of_heap rfl)) (fun _ h => h.trans (.of_heap rfl))
    fun h hc => h.trans hc.survives

/-! ## Every call -/

namespace Redirection

/-- Between two outputs nothing dies but of a collection. -/
theorem survives_writeBack {n i : Nat} {staged : List StagedArg} {params : List Parameter}
    {u v : World σ} (h : writeBack staged i params (callAt n) u = .ok () v) :
    u.state.Survives v.state := by
  have hobeys : (writeBack staged i params : Act σ Unit).Obeys
      ((survivalRealm σ u.state).law ((survivalRealm σ u.state).respected n)) .plain [] u :=
    writeBack_obeys fun _ _ _ _ _ _ => trivial
  exact ((hobeys List.nil_suffix trivial trivial (.refl _)).ok _ _ h).1

/-- Where all outputs are written back, each of them has been at some point. -/
theorem writeBack_take {call : Invoker σ} {i : Nat} {staged : List StagedArg}
    {params : List Parameter} {u v : World σ} (h : writeBack staged i params call u = .ok () v)
    (j : Nat) : ∃ v', writeBack staged i (params.take j) call u = .ok () v' := by
  induction params generalizing i j u with
  | nil => exact ⟨u, by rw [List.take_nil]; rfl⟩
  | cons param params ih =>
    cases j with
    | zero => exact ⟨u, rfl⟩
    | succ j =>
      rw [writeBack_cons] at h
      obtain ⟨_, u', hone, h⟩ := Act.ok_of_bind h
      obtain ⟨v', hv'⟩ := ih h j
      exact ⟨v', by rw [List.take_succ_cons, writeBack_cons, Act.bind_of_ok hone, hv']⟩

end Redirection

open Redirection in
/-- In a call that ends well, all that was alive when its method returned, in the world `u`, is alive
whenever the next output is to be copied, and when the result is, unless a collection was run by
then. -/
theorem results_alive_unless_collected {n : Nat} {key : Redirector.Key} {r : Redirector}
    {target result : Option Address} {stack rest : ArgStack} {w e : World σ}
    (h : invoke key r target stack result (callAt n) w = .ok (.ok (), rest) e) :
    ∃ l m params loaded pointers staged receiver called returned u copied left,
      Loads (callAt n) key r stack w l m params rest loaded ∧
      prepare r.function l target params (callAt n) loaded =
        .ok (pointers, staged, receiver) called ∧
      callAt n m ⟨receiver, pointers⟩ called = .ok (.ok returned) u ∧
      (∀ j, ∃ v, writeBack staged 0 (params.take j) (callAt n) u = .ok () v ∧
        (v.state.heap.collections = u.state.heap.collections →
          ∀ a, u.state.heap.isAlive a = true → v.state.heap.isAlive a = true)) ∧
      writeBack staged 0 params (callAt n) u = .ok () copied ∧
      (copied.state.heap.collections = u.state.heap.collections →
        ∀ a, u.state.heap.isAlive a = true → copied.state.heap.isAlive a = true) ∧
      copyResult r.function l returned result (callAt n) copied = .ok () left ∧
      e = { left with state := left.state.leave key } := by
  obtain ⟨f, hf⟩ | ⟨l, m, params, loaded, left, hloads, hattempt, rfl⟩ := loads_of_invoke h
  · cases hf
  have hrun := Act.ok_of_attempt hattempt
  rw [run_eq] at hrun
  obtain ⟨⟨pointers, staged, receiver⟩, called, hprepare, hrun⟩ := Act.ok_of_bind hrun
  obtain ⟨answer, u, hm, hrun⟩ := Act.ok_of_bind hrun
  cases answer with
  | error x =>
    obtain ⟨_, _, -, hrun⟩ := Act.ok_of_bind hrun
    obtain ⟨_, _, -, hrun⟩ := Act.ok_of_bind hrun
    obtain ⟨_, _, -, hrun⟩ := Act.ok_of_bind hrun
    cases hrun
  | ok returned =>
    obtain ⟨_, copied, hback, hcopy⟩ := Act.ok_of_bind hrun
    refine ⟨l, m, params, loaded, pointers, staged, receiver, called, returned, u, copied, left,
      hloads, hprepare, hm, fun j => ?_, hback, (survives_writeBack hback).alive, hcopy, rfl⟩
    obtain ⟨v, hv⟩ := writeBack_take hback j
    exact ⟨v, hv, (survives_writeBack hv).alive⟩

/-! ## A collection while an output is written back -/

namespace Sample

/-- A library that runs a collection whenever an array is read, and a method that returns a new
string. -/
def sellingBodies : List (Invocation → Program Unit) :=
  let idle (_ : Invocation) : Program Unit := .done none
  let collecting (_ : Invocation) : Program Unit := .ask (.collect true) fun _ => .done none
  let selling (_ : Invocation) : Program Unit := .ask (.allocate (.string "sold")) fun a => .done (some a)
  List.replicate 5 idle ++ collecting :: List.replicate 8 idle ++ [selling, selling]

def sellingStart : World Unit :=
  world [⟨"G", ⟨"", "T", "Sell", some ["T"]⟩, 1, 0⟩, ⟨"G", ⟨"", "T", "Give", some []⟩, 0, 0⟩]
    sellingBodies

def receipt (offset : Nat) : Property :=
  ⟨returnName, .string, 24, 8, offset, ⟨true, true, true, false, false⟩⟩

/-- A function that has an array for an output. -/
def sell : Redirector where
  function := ⟨"T", "Sell", ⟨true, true, true, false⟩,
    [⟨"Items", .arrayOf (.scalar .int8), 32, 8, 0, ⟨true, true, false, false, false⟩⟩, receipt 32],
    ⟨56, 8⟩⟩
  method := ⟨"G", ⟨"", "T", "Sell", some ["T"]⟩, [⟨"Items", true, false⟩, ⟨returnName, false, true⟩]⟩
  binding := .unbound
  depth := 0

/-- A function without outputs. -/
def give : Redirector where
  function := ⟨"T", "Give", ⟨true, true, true, false⟩, [receipt 0], ⟨24, 8⟩⟩
  method := ⟨"G", ⟨"", "T", "Give", some []⟩, [⟨returnName, false, true⟩]⟩
  binding := .unbound
  depth := 0

def itemStack : ArgStack := ⟨[⟨0, true⟩], 0⟩

/-- The returned object was alive, but is no longer when the outputs are written back. -/
def isLost (w : World Unit) : Bool :=
  match Redirection.linked ("T", "Sell") sell (callAt 2) w with
  | .ok (.ok (l, m)) v =>
    match Redirection.load ("T", "Sell") sell l itemStack (callAt 2)
      { v with state := v.state.enter ("T", "Sell") } with
    | .ok (params, _) loaded =>
      match Redirection.prepare sell.function l none params (callAt 2) loaded with
      | .ok (pointers, staged, receiver) called =>
        match callAt 2 m ⟨receiver, pointers⟩ called with
        | .ok (.ok (some object)) u =>
          match Redirection.writeBack staged 0 params (callAt 2) u with
          | .ok _ copied => u.state.heap.isAlive object && !copied.state.heap.isAlive object
          | .error _ _ => false
        | _ => false
      | .error _ _ => false
    | .error _ _ => false
  | _ => false

def offering : Program Unit :=
  .ask (.redirect sell.function sell.method) fun _ =>
  .ask (.redirect give.function give.method) fun _ =>
  .ask (.allot (.container .empty)) fun _ => .ask (.allot (.string "")) fun _ => .done none

/-- What the caller finds as the result of a call that ends well. -/
def received (key : Redirector.Key) (r : Redirector) (stack : ArgStack) (w : World Unit) :
    Option Value :=
  match Redirection.invoke key r none stack (some (.ofCell 1)) (callAt 2) w with
  | .ok (.ok (), _) e => some (e.state.valueAt (.ofCell 1))
  | _ => none

theorem run_offering : endsIn 1 offering sellingStart (fun w =>
      w.state.redirector? ("T", "Sell") == some sell && isLost w &&
      received ("T", "Sell") sell itemStack w == some (.string "") &&
      received ("T", "Give") give (.ofArgs []) w == some (.string "sold")) = true := by
  decide +kernel

theorem of_received {key : Redirector.Key} {r : Redirector} {stack : ArgStack} {w : World Unit}
    {text : String} (h : received key r stack w = some (.string text)) : ∃ rest e,
    Redirection.invoke key r none stack (some (.ofCell 1)) (callAt 2) w = .ok (.ok (), rest) e ∧
      e.state.valueAt (.ofCell 1) = .string text := by
  unfold received at h
  split at h
  · rename_i rest e hinvoke
    exact ⟨rest, e, hinvoke, Option.some.inj h⟩
  · cases h

end Sample

open Redirection in
/-- `results_alive_unless_collected` for a call that hands over the string which its method returns. -/
theorem results_alive_unless_collected_of_give :
    ∃ (w e : World Unit) (rest : ArgStack),
      Session.Sees (fun _ _ => True) (fun _ => True) Sample.sellingStart [] w ∧
      invoke ("T", "Give") Sample.give none (.ofArgs []) (some (.ofCell 1)) (callAt 2) w =
        .ok (.ok (), rest) e ∧
      e.state.valueAt (.ofCell 1) = .string "sold" ∧
      ∃ l m params loaded pointers staged receiver called returned u copied left,
        Loads (callAt 2) ("T", "Give") Sample.give (.ofArgs []) w l m params rest loaded ∧
        prepare Sample.give.function l none params (callAt 2) loaded =
          .ok (pointers, staged, receiver) called ∧
        callAt 2 m ⟨receiver, pointers⟩ called = .ok (.ok returned) u ∧
        (∀ j, ∃ v, writeBack staged 0 (params.take j) (callAt 2) u = .ok () v ∧
          (v.state.heap.collections = u.state.heap.collections →
            ∀ a, u.state.heap.isAlive a = true → v.state.heap.isAlive a = true)) ∧
        writeBack staged 0 params (callAt 2) u = .ok () copied ∧
        (copied.state.heap.collections = u.state.heap.collections →
          ∀ a, u.state.heap.isAlive a = true → copied.state.heap.isAlive a = true) ∧
        copyResult Sample.give.function l returned (some (.ofCell 1)) (callAt 2) copied =
          .ok () left ∧
        e = { left with state := left.state.leave ("T", "Give") } := by
  obtain ⟨w, a, -, hsees, hrun⟩ := Sample.sees_of_endsIn Sample.run_offering
  simp only [Bool.and_eq_true, beq_iff_eq] at hrun
  obtain ⟨rest, e, hinvoke, hvalue⟩ := Sample.of_received hrun.2
  exact ⟨w, e, rest, hsees, hinvoke, hvalue,
    results_alive_unless_collected hinvoke⟩

open Redirection in
/-- The object that a method returns may be gone when it is to be copied to the result, though it was
alive when the method returned. -/
theorem results_not_always_alive :
    ¬ ∀ (config : Config) (registry : Registry) (side : ForeignSide Unit)
      (start w loaded called u copied : World Unit) (key : Redirector.Key) (r : Redirector)
      (target : Option Address) (stack rest : ArgStack) (l : Linkage) (m : Nat)
      (params : List Parameter) (pointers : List Address) (staged : List StagedArg)
      (receiver : Option Address) (object : Address) (n : Nat),
      side.foreign.heap = .empty → World.connect config registry side () = .ok start →
      Session.Sees (fun _ _ => True) (fun _ => True) start [] w →
      w.state.redirector? key = some r →
      Loads (callAt n) key r stack w l m params rest loaded →
      prepare r.function l target params (callAt n) loaded =
        .ok (pointers, staged, receiver) called →
      callAt n m ⟨receiver, pointers⟩ called = .ok (.ok (some object)) u →
      u.state.heap.isAlive object = true →
      writeBack staged 0 params (callAt n) u = .ok () copied →
      copied.state.heap.isAlive object = true := by
  intro hall
  obtain ⟨w, a, -, hsees, hrun⟩ := Sample.sees_of_endsIn Sample.run_offering
  simp only [Bool.and_eq_true, beq_iff_eq] at hrun
  obtain ⟨⟨⟨hsell, hlost⟩, -⟩, -⟩ := hrun
  unfold Sample.isLost at hlost
  split at hlost
  · rename_i l m v hlinked
    split at hlost
    · rename_i params rest loaded hload
      split at hlost
      · rename_i pointers staged receiver called hprepare
        split at hlost
        · rename_i object u hm
          split at hlost
          · rename_i copied hback
            obtain ⟨halive, hgone⟩ := Bool.and_eq_true_iff.1 hlost
            have hkept := hall _ _ _ _ w loaded called u copied _ _ none _ rest l m params pointers
              staged receiver object 2 rfl (Sample.connect_world _ _) hsees hsell
              ⟨v, hlinked, hload⟩ hprepare hm halive hback
            rw [hkept] at hgone
            cases hgone
          · cases hlost
        · cases hlost
      · cases hlost
    · cases hlost
  · cases hlost

end TwinHeap
