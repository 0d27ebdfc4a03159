import TwinHeap.Proofs.Calls
import TwinHeap.Proofs.Failures

/-!
# Exceptions — what the caller of a redirected function finds after one

A foreign exception ends a call while its arguments are staged, in the method itself, while an output
is written back, or while the returned value is. Only the method's own exceptions reset the result,
and only if the method is linked to return something; only those of the last two kinds come after
outputs that were written already. Apart from that the cells of the caller are left alone.
-/

namespace TwinHeap

variable {σ : Type}

namespace Redirection

open Act

/-- Where the exception comes from that ends a call. -/
inductive Origin
  /-- The staging of an argument, or the making of the receiver. -/
  | staging
  | method
  /-- The writing back of the parameter at an index. -/
  | output (index : Nat)
  | result
deriving DecidableEq

/-- The parameters before this one were written back. -/
def Origin.written (function : Function) : Origin → Nat
  | staging | method => 0
  | output i => i
  | result => function.params.length

/-- The result is reset after an exception of the method itself. -/
def Origin.reset (function : Function) (l : Linkage) (result : Option Address) :
    Origin → State → State
  | method => resetResult function l result
  | _ => id

/-- The cells that the caller lends for the outputs among the first `n` parameters. -/
def Outputs (l : Linkage) (function : Function) (stack : ArgStack) (n : Nat) (c : Nat) : Prop :=
  ∃ i < n, ∃ arg a, l.forParam i = some arg ∧ arg.byRef = true ∧
    stack.argFor function.params i = some a ∧ a.byRef = true ∧ a.cell = c

/-- The part of a call that comes after its parameters were loaded ends with an exception. -/
inductive Throws (call : Invoker σ) (function : Function) (l : Linkage) (m : Nat)
    (target : Option Address) (params : List Parameter) (result : Option Address) (w : World σ)
    (x : ForeignException) : Origin → World σ → Prop
  | staging {v : World σ}
      (hx : prepare function l target params call w = .error (.error (.foreign x)) v) :
      Throws call function l m target params result w x .staging v
  | method {pointers : List Address} {staged : List StagedArg} {receiver : Option Address}
      {u u' v : World σ}
      (hp : prepare function l target params call w = .ok (pointers, staged, receiver) u)
      (hm : call m ⟨receiver, pointers⟩ u = .ok (.error x) u')
      (hx : finish function l params staged result (.error x) call u' =
        .error (.error (.foreign x)) v) :
      Throws call function l m target params result w x .method v
  | output {pointers : List Address} {staged : List StagedArg}
      {receiver returned : Option Address} {u u' u'' v : World σ} {i : Nat} {param : Parameter}
      (hp : prepare function l target params call w = .ok (pointers, staged, receiver) u)
      (hm : call m ⟨receiver, pointers⟩ u = .ok (.ok returned) u') (hi : params[i]? = some param)
      (hback : writeBack staged 0 (params.take i) call u' = .ok () u'')
      (hx : writeBackOne staged i param call u'' = .error (.error (.foreign x)) v) :
      Throws call function l m target params result w x (.output i) v
  | result {pointers : List Address} {staged : List StagedArg}
      {receiver returned : Option Address} {u u' u'' v : World σ}
      (hp : prepare function l target params call w = .ok (pointers, staged, receiver) u)
      (hm : call m ⟨receiver, pointers⟩ u = .ok (.ok returned) u')
      (hback : writeBack staged 0 params call u' = .ok () u'')
      (hx : copyResult function l returned result call u'' = .error (.error (.foreign x)) v) :
      Throws call function l m target params result w x .result v

variable {call : Invoker σ} {function : Function} {l : Linkage} {m n : Nat}
  {target receiver result : Option Address} {params : List Parameter} {w v : World σ}
  {x : ForeignException} {staged : List StagedArg} {pointers : List Address}

/-! ## Where exceptions come from -/

/-- An exception that ends the run of a call comes from one of its stages. -/
theorem throws_of_run (hc : ∀ m inv w e v, call m inv w ≠ .error (.error e) v)
    (h : run function l m target params result call w = .error (.error (.foreign x)) v) :
    ∃ origin, Throws call function l m target params result w x origin v := by
  rw [run_eq] at h
  obtain hx | ⟨⟨pointers, staged, receiver⟩, u, hp, h⟩ := error_of_bind h
  · exact ⟨.staging, .staging hx⟩
  obtain hx | ⟨answer, u', hm, h⟩ := error_of_bind h
  · exact absurd hx (hc m _ u _ v)
  cases answer with
  | error x' =>
    obtain rfl : x' = x := by
      obtain hx | ⟨_, _, _, hx⟩ := error_of_bind h
      · cases hx
      obtain hx | ⟨_, _, _, hx⟩ := error_of_bind hx
      · exact absurd hx (Contained.count _ _ _ _ _)
      cases hx
      rfl
    exact ⟨.method, .method hp hm h⟩
  | ok returned =>
    obtain hx | ⟨_, u'', hback, hx⟩ := error_of_bind h
    · obtain ⟨i, param, u'', hi, hback, hx⟩ := writeBack_failed hx
      exact ⟨.output i, .output hp hm hi hback (Nat.zero_add i ▸ hx)⟩
    · exact ⟨.result, .result hp hm hback hx⟩

section Depth

variable (hc : call.Grows)
include hc

theorem prepare_strict (function : Function) (l : Linkage) (target : Option Address)
    (params : List Parameter) (w : World σ) :
    (prepare function l target params : Act σ _).Strict call w := by
  have hobeys : (prepare function l target params : Act σ _).Obeys (.free call hc) .plain
      [.frame ("", "")] w :=
    prepare_obeys (Identity.makesProxies fun _ => trivial) function l target fun _ _ => trivial
  exact (hobeys List.nil_suffix trivial trivial trivial).strict

theorem writeBackOne_strict (staged : List StagedArg) (i : Nat) (param : Parameter)
    (w : World σ) : (writeBackOne staged i param : Act σ Unit).Strict call w := by
  unfold writeBackOne
  split
  · split
    · refine .bind (.of_const fun _ => rfl) fun s _ _ => ?_
      exact (Marshaller.toHost_obeys (L := .free call hc) (r := []) _ _ _ trivial List.nil_suffix
        trivial trivial trivial).strict
    · exact .of_const fun _ => rfl
  · exact .of_const fun _ => rfl

theorem writeBack_strict (staged : List StagedArg) (i : Nat) (params : List Parameter)
    (w : World σ) : (writeBack staged i params : Act σ Unit).Strict call w := by
  induction params generalizing i w with
  | nil => exact .of_const fun _ => rfl
  | cons param params ih =>
    rw [writeBack_cons]
    exact .bind (writeBackOne_strict hc _ _ _ w) fun _ v _ => ih _ v

theorem copyResult_strict (function : Function) (l : Linkage) (returned result : Option Address)
    (w : World σ) : (copyResult function l returned result : Act σ Unit).Strict call w := by
  unfold copyResult
  split
  · exact (Marshaller.copyReturn_obeys (L := .free call hc) (r := []) _ _ _ trivial
      List.nil_suffix trivial trivial trivial).strict
  · exact .of_const fun _ => rfl

/-- The same happens where calls may nest deeper. -/
theorem Throws.deeper {call' : Invoker σ} (ho : call'.Until .exhausted call) {origin : Origin}
    (h : Throws call' function l m target params result w x origin v) :
    Throws call function l m target params result w x origin v := by
  have hfatal := Failure.isFatal_exhausted
  have herror : Failure.error (.foreign x) ≠ .exhausted := by rintro ⟨⟩
  have hcall {inv : Invocation} {u u' : World σ} {a : Except ForeignException (Option Address)}
      (hm : call' m inv u = .ok a u') : call m inv u = .ok a u' :=
    ((ho m inv u).resolve_right (hm ▸ not_failedWith_ok)).symm.trans hm
  cases h with
  | staging hx => exact .staging ((prepare_strict hc _ _ _ _ w).error hfatal ho herror hx)
  | method hp hm hx =>
    refine .method ((prepare_strict hc _ _ _ _ w).ok hfatal ho hp) (hcall hm) ?_
    exact (finish_obeys (L := .free call hc) (o := []) function l (fun _ _ => trivial) _
      (fun _ _ => trivial) _ List.nil_suffix trivial trivial trivial).strict.error hfatal ho herror hx
  | output hp hm hi hback hx =>
    exact .output ((prepare_strict hc _ _ _ _ w).ok hfatal ho hp) (hcall hm) hi
      ((writeBack_strict hc _ _ _ _).ok hfatal ho hback)
      ((writeBackOne_strict hc _ _ _ _).error hfatal ho herror hx)
  | result hp hm hback hx =>
    exact .result ((prepare_strict hc _ _ _ _ w).ok hfatal ho hp) (hcall hm)
      ((writeBack_strict hc _ _ _ _).ok hfatal ho hback)
      ((copyResult_strict hc _ _ _ _ _).error hfatal ho herror hx)

end Depth

/-! ## What the caller finds -/

section Caller

variable {K : Nat → Prop} {old : State} {o : List Owed} {key : Redirector.Key}

theorem keeps_resetResult {s s' : State} (h : s.Keeps K s') (function : Function) (l : Linkage)
    (result : Option Address) :
    (resetResult function l result s).Keeps K (resetResult function l result s') := by
  unfold resetResult
  split
  · exact State.keeps_resetAt h _ _
  · exact h

/-- Resetting the result resets it in every cell that is guarded. -/
theorem guards_resetResult (h : w.Guards K old o) (function : Function) (l : Linkage)
    (result : Option Address) :
    World.Guards K (resetResult function l result old) o { w with
      state := resetResult function l result w.state } := by
  obtain ⟨hframes, hnext⟩ : (resetResult function l result w.state).frameCells =
      w.state.frameCells ∧ (resetResult function l result w.state).memory.next =
        w.state.memory.next := by
    unfold resetResult
    split
    · exact State.frameCells_storeAt _ _ _
    · exact ⟨rfl, rfl⟩
  refine ⟨fun c hc => hnext ▸ h.below c hc, ?_, h.owed, ?_⟩
  · exact keeps_resetResult h.keeps function l result
  · show ∀ cells ∈ (resetResult function l result _).frameCells.take _, _
    rw [hframes]
    exact h.frames

/-- An exception of the method resets the result and leaves all other cells alone. -/
theorem guards_finish (h : w.Guards K old o)
    (hx : finish function l params staged result (.error x) call w =
      .error (.error (.foreign x)) v) :
    v.Guards K (resetResult function l result old) o := by
  obtain hx | ⟨_, u, hreport, hx⟩ := error_of_bind hx
  · cases hx
  have hu : u.Guards K old o := by
    cases hreport
    exact h.noted ⟨_, w.state.bridge.metrics, rfl⟩
  obtain hx | ⟨_, u', hcount, hx⟩ := error_of_bind hx
  · exact absurd hx (Contained.count _ _ _ _ _)
  cases hx
  exact guards_resetResult (hu.noted (noted_of_count hcount)) function l result

/-- The arguments are staged, the method is called and answers: the cells of the caller are as they
were. -/
theorem guards_method {n : Nat} {u : World σ} {answer : Except ForeignException (Option Address)}
    (hw : w.Guards K old (.frame key :: o))
    (hlinked : ∃ r, w.state.redirector? key = some r ∧ r.binding = .linked l m)
    (hplaces : ∀ param ∈ params, param.place.Outside K)
    (hp : prepare function l target params (Invoker.guard (callAt n) K) w =
      .ok (pointers, staged, receiver) u)
    (hm : Invoker.guard (callAt n) K m ⟨receiver, pointers⟩ u = .ok answer v) :
    v.Guards K old (.frame key :: o) := by
  obtain ⟨hu, hg, -⟩ := (prepare_obeys (L := guardLaw n K old)
    (Identity.makesProxies fun _ => trivial) function l target hplaces List.nil_suffix trivial
    trivial hw).ok _ _ hp
  obtain ⟨r, hr, hl⟩ := hlinked
  obtain ⟨r', hr', hl'⟩ := hg.linked key r l m hr hl
  have hv := (ends_iff.1 ((guardLaw n K old).called hu (.linked trivial hr' hl') trivial)).1 _ _ hm
  rwa [Owed.after_self] at hv

/-- An output that was written back lies in a cell that the caller lends for it, or in the call's. -/
theorem output_outside {stack rest : ArgStack} {u : World σ} {i j : Nat} {param : Parameter}
    {t : StagedArg} (hloaded : Loaded function.params stack params rest)
    (hplaces : ∀ param ∈ params, param.place.Outside K)
    (hp : prepare function l target params call w = .ok (pointers, staged, receiver) u)
    (hj : j < i) (hparam : params[j]? = some param)
    (ht : (staged.find? fun t => t.arg.param == j) = some t) (hby : t.arg.byRef = true) :
    param.output.Outside fun c => K c ∧ ¬Outputs l function stack i c := by
  have hplace : param.place.Outside fun c => K c ∧ ¬Outputs l function stack i c :=
    (hplaces param (List.mem_of_getElem? hparam)).mono fun _ hc => hc.1
  have hout := hloaded.output hparam
  split at hout
  · exact hout ▸ hplace
  obtain ⟨a, ha, hout⟩ := hout
  rw [hout]
  split
  · rename_i hlent
    obtain ⟨_, hstages, -⟩ := stages_of_prepare hp
    rw [hstages.find?_eq (List.getElem?_eq_some_iff.1 hparam).1] at ht
    obtain ⟨arg, harg, rfl⟩ := Option.map_eq_some_iff.1 ht
    rintro c _ ⟨⟩ ⟨-, hc⟩
    exact hc ⟨j, hj, arg, a, harg, hby, ha, hlent, rfl⟩
  · exact hplace

theorem writeBackOne_fails {L : Law σ} (staged : List StagedArg) (i : Nat) (param : Parameter) :
    (writeBackOne staged i param : Act σ Unit).Fails L o w := by
  unfold writeBackOne
  split
  · split
    · exact .state_bind (Marshaller.toHost_fails _ _ _ _)
    · exact .of_moves (s := .plain) (y := []) (Q := fun _ _ => True) (.pure trivial)
  · exact .of_moves (s := .plain) (y := []) (Q := fun _ _ => True) (.pure trivial)

theorem copyResult_fails {L : Law σ} (function : Function) (l : Linkage)
    (returned result : Option Address) :
    (copyResult function l returned result : Act σ Unit).Fails L o w := by
  unfold copyResult
  split
  · exact Marshaller.copyReturn_fails _ _ _ _
  · exact .of_moves (s := .plain) (y := []) (Q := fun _ _ => True) (.pure trivial)

/-- Up to `i`, the outputs are written back to cells that the caller lends for them. -/
theorem guards_writeBack {n i : Nat} {stack rest : ArgStack} {u u' : World σ}
    (hloaded : Loaded function.params stack params rest)
    (hplaces : ∀ param ∈ params, param.place.Outside K)
    (hp : prepare function l target params call w = .ok (pointers, staged, receiver) u)
    (hu : u'.Guards K old o)
    (hback : writeBack staged 0 (params.take i) (Invoker.guard (callAt n) K) u' = .ok () v) :
    v.Guards (fun c => K c ∧ ¬Outputs l function stack i c) old o := by
  have hback' := (writeBack_strict (guardLaw n _ old).grows _ _ _ _).ok Failure.isFatal_exhausted
    (Invoker.guard_until_guard (callAt n) K fun c => ¬Outputs l function stack i c) hback
  refine ((writeBack_obeys (L := guardLaw n _ old) ?_ List.nil_suffix trivial trivial
    (hu.mono fun c hc => hc.1)).ok _ _ hback').1
  intro j param t hj ht hby
  rw [List.getElem?_take] at hj
  split at hj
  · exact output_outside hloaded hplaces hp ‹_› hj (Nat.zero_add j ▸ ht) hby
  · cases hj

/-- After an exception the cells of the caller are as they were, but for outputs that were written
before it and for the result, if it is reset. -/
theorem Throws.guards {n : Nat} {stack rest : ArgStack} {origin : Origin}
    (h : Throws (Invoker.guard (callAt n) K) function l m target params result w x origin v)
    (hw : w.Guards K old (.frame key :: o))
    (hlinked : ∃ r, w.state.redirector? key = some r ∧ r.binding = .linked l m)
    (hplaces : ∀ param ∈ params, param.place.Outside K)
    (hloaded : Loaded function.params stack params rest) :
    v.Guards (fun c => K c ∧ ¬Outputs l function stack (origin.written function) c)
      (origin.reset function l result old) (.frame key :: o) := by
  have herror : Failure.error (.foreign x) ≠ .exhausted := by rintro ⟨⟩
  have hfatal := Failure.isFatal_exhausted
  have hgrows (P : Nat → Prop) : Invoker.Grows (Invoker.guard (callAt n : Invoker σ) P) :=
    (guardLaw n P old).grows
  have hfewer := Invoker.guard_until_guard (callAt n : Invoker σ) K
  -- Up to where the exception comes from the call has written to its own storage and to outputs.
  cases h with
  | staging hx =>
    have hv := ((prepare_obeys (L := guardLaw n K old) (Identity.makesProxies fun _ => trivial)
      function l target hplaces List.nil_suffix trivial trivial hw).err _ _ hx herror).1
    exact World.Guards.mono hv fun c hc => hc.1
  | method hp hm hx =>
    exact (guards_finish (guards_method hw hlinked hplaces hp hm) hx).mono fun c hc => hc.1
  | output hp hm hi hback hx =>
    have hu := guards_writeBack hloaded hplaces hp (guards_method hw hlinked hplaces hp hm) hback
    exact writeBackOne_fails (L := guardLaw n _ old) _ _ _ List.nil_suffix trivial trivial hu _ _
      ((writeBackOne_strict (hgrows _) _ _ _ _).error hfatal (hfewer _) herror hx) herror
  | result hp hm hback hx =>
    rw [← List.take_length (l := params)] at hback
    have hu := guards_writeBack hloaded hplaces hp (guards_method hw hlinked hplaces hp hm) hback
    have hlength : params.length = function.params.length := by
      rw [← hloaded.properties, List.length_map]
    rw [hlength] at hu
    exact copyResult_fails (L := guardLaw n _ old) _ _ _ _ List.nil_suffix trivial trivial hu _ _
      ((copyResult_strict (hgrows _) _ _ _ _ _).error hfatal (hfewer _) herror hx) herror

end Caller

end Redirection

/-! ## Every call -/

open Redirection in
/-- Where a redirected call ends with a foreign exception, the cells `K` of the caller that foreign
code left alone are as they were before it, with two exceptions: the result is reset if the method
itself threw and is linked to return something, and outputs were written if the exception came after
they were. -/
theorem caller_after_exception {K : Nat → Prop} {n : Nat} {key : Redirector.Key} {r : Redirector}
    {target result : Option Address} {stack rest : ArgStack} {w v : World σ}
    {x : ForeignException} (hr : w.state.redirector? key = some r)
    (hK : ∀ c, K c → c < w.state.memory.next)
    (hcalls : (invoke key r target stack result).OnlyCalls (callAt n) w
      (Invoker.Spares (callAt n) K))
    (h : invoke key r target stack result (callAt n) w = .ok (.error (.foreign x), rest) v) :
    ∃ l m params u u' origin, Loads (callAt n) key r stack w l m params rest u ∧
      Throws (callAt n) r.function l m target params result u x origin u' ∧
      v = { u' with state := u'.state.leave key } ∧
      (origin.reset r.function l result w.state).Keeps
        (fun c => K c ∧ ¬Outputs l r.function stack (origin.written r.function) c) v.state := by
  have hguard : invoke key r target stack result (Invoker.guard (callAt n) K) w =
      .ok (.error (.foreign x), rest) v :=
    (hcalls _ fun m inv u hs => Invoker.guard_of_spares hs).trans h
  have hcontained (m : Nat) (inv : Invocation) (u : World σ) (e : BridgeError) (u' : World σ) :
      Invoker.guard (callAt n) K m inv u ≠ .error (.error e) u' :=
    fun he => callAt_contained n m inv u e u' (Invoker.error_of_guard he (by rintro ⟨⟩))
  obtain ⟨e, he⟩ | ⟨l, m, params, u, u', hloads, hattempt, rfl⟩ := loads_of_invoke hguard
  · cases he
  obtain ⟨origin, hthrows⟩ := throws_of_run hcontained (Act.error_of_attempt hattempt)
  obtain ⟨hu, hplaces, hlinked⟩ :=
    hloads.holds (L := guardLaw n K w.state) hr target result trivial List.nil_suffix trivial
      (.start hK)
  have huntil := Invoker.guard_until (callAt n : Invoker σ) K
  refine ⟨l, m, params, u, u', origin, hloads.deeper hr (callAt_grows n) huntil,
    hthrows.deeper (callAt_grows n) huntil, rfl, ?_⟩
  exact (hthrows.guards hu hlinked hplaces hloads.loaded).leave.keeps

/-! ## Methods that only return or throw -/

/-- Every method does nothing but return or throw. -/
def World.Idle (w : World σ) : Prop :=
  ∀ body ∈ w.bodies, ∀ inv, (∃ a, body inv = .done a) ∨ ∃ x, body inv = .throw x

/-- Such methods leave everything alone. -/
theorem World.Idle.call {w : World σ} (h : w.Idle) (n m : Nat) (inv : Invocation)
    {P : World σ → Prop} (hw : P w) (hcount : P (w.countCall m)) :
    Ends (callAt n m inv w) (fun _ v => P v) fun f v => f ≠ .exhausted → P v := by
  cases n with
  | zero => exact fun hne => absurd rfl hne
  | succ n =>
    rw [callAt_succ]
    cases hb : w.bodies[m]? with
    | none => exact fun _ => hw
    | some body =>
      show Ends ((body inv).run (callAt n) (w.countCall m)) _ _
      obtain ⟨a, ha⟩ | ⟨x, hx⟩ := h body (List.mem_of_getElem? hb) inv
      · rw [ha]
        exact hcount
      · rw [hx]
        exact hcount

def idleLaw (n : Nat) : Law σ where
  toTerms := .asking (fun _ => True) fun _ => True
  call := callAt n
  course := .any _
  holds _ := World.Idle
  grows := callAt_grows n
  ready_cons _ _ := trivial
  fresh _ _ := trivial
  change h _ := h
  called {o o' b w m inv} h _ _ := by
    have hcall := ends_iff.1 (h.call n m inv h h)
    exact ends_iff.2 ⟨fun a v hv => by cases a <;> exact hcall.1 _ v hv, hcall.2⟩

/-- Requests define no methods. -/
theorem World.Idle.meets {w : World σ} (h : w.Idle) (r : Request) (n : Nat) :
    r.perform.Meets (callAt n) w (fun _ _ v => v.Idle) (fun _ v => v.Idle)
      fun f v => f ≠ .exhausted → v.Idle := by
  have hobeys := Request.perform_obeys_of_asking (L := idleLaw n) rfl (fun _ => trivial) (r := r)
    trivial [] w List.nil_suffix trivial trivial h
  refine hobeys.mono ?_ (fun _ _ hv => hv.1) fun _ _ hv hf => (hv hf).1
  rintro m inv v ⟨_, _, _, -, -, hv, -⟩
  exact hv

/-- A call whose methods only return or throw leaves all cells to the bridge. -/
theorem World.Idle.onlyCalls {K : Nat → Prop} {key : Redirector.Key} {r : Redirector} {w : World σ}
    (h : w.Idle) (hr : w.state.redirector? key = some r) (n : Nat) (target : Option Address)
    (stack : ArgStack) (result : Option Address) :
    (Redirection.invoke key r target stack result).OnlyCalls (callAt n) w
      (Invoker.Spares (callAt n) K) := by
  refine (Redirection.invoke_obeys (L := idleLaw n) (o := [])
    (Identity.makesProxies fun _ => trivial) hr target (fun _ _ _ => trivial) (fun _ _ => trivial)
    List.nil_suffix trivial trivial h).only.mono ?_
  rintro m inv u ⟨_, _, _, -, -, hu, -⟩
  exact World.Idle.call hu n m inv (P := fun v => u.state.Keeps K v.state) (.refl _) fun _ _ => rfl

namespace Sample

/-- A library that makes no arrays, a method that throws, and one that takes an array. -/
def throwingMethods : List MethodInfo :=
  [⟨"G", ⟨"", "T", "Boom", some ["int&"]⟩, 1, 0⟩, ⟨"G", ⟨"", "T", "Fill", some ["T"]⟩, 1, 0⟩]

def throwingBodies : List (Invocation → Program Unit) :=
  let idle (_ : Invocation) : Program Unit := .done none
  let throwing (_ : Invocation) : Program Unit := .throw ⟨"no", ""⟩
  List.replicate 4 idle ++ throwing :: List.replicate 9 idle ++ [throwing, idle]

def throwingStart : World Unit := world throwingMethods throwingBodies

def result : Property := ⟨returnName, .scalar .int32, 4, 4, 32, ⟨true, true, true, false, false⟩⟩

/-- A function that is linked by reference to the method that throws. -/
def boom : Redirector where
  function := ⟨"T", "Boom", ⟨true, true, true, false⟩,
    [⟨"Value", .scalar .int32, 4, 4, 0, ⟨true, true, false, true, false⟩⟩, result], ⟨36, 4⟩⟩
  method := ⟨"G", ⟨"", "T", "Boom", some ["int&"]⟩,
    [⟨"Value", true, false⟩, ⟨returnName, false, true⟩]⟩
  binding := .unbound
  depth := 0

/-- A function that is passed an array. -/
def fill : Redirector where
  function := ⟨"T", "Fill", ⟨true, true, true, false⟩,
    [⟨"Items", .arrayOf (.scalar .int8), 32, 8, 0, ⟨true, false, false, false, false⟩⟩, result],
    ⟨40, 8⟩⟩
  method := ⟨"G", ⟨"", "T", "Fill", some ["T"]⟩,
    [⟨"Items", false, false⟩, ⟨returnName, false, true⟩]⟩
  binding := .unbound
  depth := 0

def five : Value := .plain ([5, 0, 0, 0].map .value)

/-- Registers both functions, with a cell for each argument and one for the result. -/
def redirecting : Program Unit :=
  .ask (.redirect boom.function boom.method) fun _ =>
  .ask (.redirect fill.function fill.method) fun _ =>
  .ask (.allot five) fun _ => .ask (.allot five) fun _ =>
  .ask (.allot (.container .empty)) fun _ => .done none

/-- Calls a function with a result of the caller; whether there was an exception, and what the caller
finds then. -/
def after (key : Redirector.Key) (r : Redirector) (stack : ArgStack) (w : World Unit) :
    Bool × List Value :=
  match Redirection.invoke key r none stack (some (.ofCell 1)) (callAt 2) w with
  | .ok (.error (.foreign _), _) v => (true, [v.state.valueAt (.ofCell 0), v.state.valueAt (.ofCell 1)])
  | _ => (false, [])

def isRedirecting (w : World Unit) : Bool :=
  w.state.redirector? ("T", "Boom") == some boom && w.state.redirector? ("T", "Fill") == some fill &&
    w.state.memory.next == 3 && w.state.valueAt (.ofCell 1) == five && w.bodies.length == 16 &&
    after ("T", "Boom") boom ⟨[⟨0, true⟩], 0⟩ w ==
      (true, [five, .plain (List.replicate 4 (.value 0))]) &&
    after ("T", "Fill") fill ⟨[⟨2, false⟩], 0⟩ w == (true, [five, five])

theorem run_redirecting : endsIn 1 redirecting throwingStart isRedirecting = true := by
  decide +kernel

theorem idle_of_run {p : Program Unit} {n : Nat} {w : World Unit}
    {a : Except ForeignException (Option Address)}
    (h : p.run (callAt n) throwingStart = .ok a w) (hlength : w.bodies.length = 16) :
    w.Idle := by
  have hbodies : throwingBodies = w.bodies :=
    (bodies_of_run h).eq_of_length (hlength.symm ▸ rfl)
  rw [World.Idle, ← hbodies]
  intro body hbody inv
  have hcases : body = (fun _ => .done none) ∨ body = fun _ => .throw ⟨"no", ""⟩ := by
    simp only [throwingBodies, List.mem_append, List.mem_cons, List.mem_replicate,
      List.not_mem_nil] at hbody
    grind
  obtain rfl | rfl := hcases
  · exact .inl ⟨_, rfl⟩
  · exact .inr ⟨_, rfl⟩

/-- Both functions throw at one point of a session: from one call to the other nothing differs but
where the exception comes from. -/
theorem sees_redirecting : ∃ w : World Unit,
    Session.Sees (fun _ _ => True) (fun _ => True) throwingStart [] w ∧ w.Idle ∧
      isRedirecting w = true := by
  obtain ⟨w, a, hr, hsees, hrun⟩ := sees_of_endsIn run_redirecting
  have hlength : w.bodies.length = 16 := by
    simp only [isRedirecting, Bool.and_eq_true, beq_iff_eq] at hrun
    exact hrun.1.1.2
  exact ⟨w, hsees,
    idle_of_run hr hlength, hrun⟩

/-- A call that ended with an exception, and what the caller finds after it. -/
theorem of_after {key : Redirector.Key} {r : Redirector} {stack : ArgStack} {w : World Unit}
    {values : List Value} (h : after key r stack w = (true, values)) : ∃ x rest v,
    Redirection.invoke key r none stack (some (.ofCell 1)) (callAt 2) w =
      .ok (.error (.foreign x), rest) v ∧
      values = [v.state.valueAt (.ofCell 0), v.state.valueAt (.ofCell 1)] := by
  unfold after at h
  split at h
  · rename_i x rest v hinvoke
    cases h
    exact ⟨x, rest, v, hinvoke, rfl⟩
  · cases h

end Sample

open Redirection in
/-- `caller_after_exception` where a method that is linked by reference throws. -/
theorem caller_after_exception_of_boom :
    ∃ (w v : World Unit) (rest : ArgStack) (x : ForeignException),
      Session.Sees (fun _ _ => True) (fun _ => True) Sample.throwingStart [] w ∧
      invoke ("T", "Boom") Sample.boom none ⟨[⟨0, true⟩], 0⟩ (some (.ofCell 1)) (callAt 2) w =
        .ok (.error (.foreign x), rest) v ∧
      ∃ l m params u u' origin,
        Loads (callAt 2) ("T", "Boom") Sample.boom ⟨[⟨0, true⟩], 0⟩ w l m params rest u ∧
        Throws (callAt 2) Sample.boom.function l m none params (some (.ofCell 1)) u x origin u' ∧
        v = { u' with state := u'.state.leave ("T", "Boom") } ∧
        (origin.reset Sample.boom.function l (some (.ofCell 1)) w.state).Keeps
          (fun c => c < 3 ∧ ¬Outputs l Sample.boom.function ⟨[⟨0, true⟩], 0⟩
            (origin.written Sample.boom.function) c) v.state := by
  obtain ⟨w, hw, hidle, hfacts⟩ := Sample.sees_redirecting
  simp only [Sample.isRedirecting, Bool.and_eq_true, beq_iff_eq] at hfacts
  obtain ⟨⟨⟨⟨⟨⟨hboom, -⟩, hnext⟩, -⟩, -⟩, hafter⟩, -⟩ := hfacts
  obtain ⟨x, rest, v, hinvoke, -⟩ := Sample.of_after hafter
  exact ⟨w, v, rest, x, hw, hinvoke, caller_after_exception hboom (fun c hc => hnext.symm ▸ hc)
    (hidle.onlyCalls hboom 2 none _ _) hinvoke⟩

/-- A foreign exception that is thrown while an array is staged leaves the result of the caller as it
was. -/
theorem result_not_always_reset :
    ¬ ∀ (config : Config) (registry : Registry) (side : ForeignSide Unit) (start w v : World Unit)
      (key : Redirector.Key) (r : Redirector) (target : Option Address) (stack rest : ArgStack)
      (place : Address) (p : Property) (x : ForeignException) (n : Nat),
      side.foreign.heap = .empty → World.connect config registry side () = .ok start →
      Session.Sees (fun _ _ => True) (fun _ => True) start [] w →
      w.state.redirector? key = some r → p ∈ r.function.params → p.isReturn = true →
      Redirection.invoke key r target stack (some place) (callAt n) w =
        .ok (.error (.foreign x), rest) v →
      v.state.valueAt place = (w.state.valueAt place).reset p := by
  intro hall
  obtain ⟨w, hw, -, hfacts⟩ := Sample.sees_redirecting
  simp only [Sample.isRedirecting, Bool.and_eq_true, beq_iff_eq] at hfacts
  obtain ⟨⟨⟨⟨⟨⟨-, hfill⟩, -⟩, hbefore⟩, -⟩, -⟩, hafter⟩ := hfacts
  obtain ⟨x, rest, v, hinvoke, hvalues⟩ := Sample.of_after hafter
  have hstart := Sample.connect_world Sample.throwingMethods Sample.throwingBodies
  have hreset := hall _ _ _ _ w v _ _ _ _ _ _ Sample.result x 2 rfl hstart hw hfill (by decide) rfl
    hinvoke
  simp only [List.cons.injEq] at hvalues
  rw [hbefore, ← hvalues.2.1] at hreset
  exact absurd hreset (by decide)

end TwinHeap
