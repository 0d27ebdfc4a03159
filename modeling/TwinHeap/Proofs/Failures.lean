import TwinHeap.Proofs.Runs

/-!
# Failures — errors of the bridge are answers

Whoever asks the bridge for something that can go wrong is answered with the error. So a method that
is called returns, throws, breaks a promise or is given up, but it never ends with an error of the
bridge that some request of its body came to.
-/

namespace TwinHeap

variable {σ α β : Type}

namespace Act

/-- The action does not end with an error of the bridge. -/
def Contained (act : Act σ α) (call : Invoker σ) : Prop :=
  ∀ w e v, act call w ≠ .error (.error e) v

namespace Contained

variable {act : Act σ α} {call : Invoker σ}

theorem pure (a : α) : (Pure.pure a : Act σ α).Contained call := by
  rintro _ _ _ ⟨⟩

theorem edit (f : State → State) : (Act.edit f : Act σ Unit).Contained call := by
  rintro _ _ _ ⟨⟩

theorem editGet (f : State → α × State) : (Act.editGet f : Act σ α).Contained call := by
  rintro _ _ _ ⟨⟩

theorem state : (Act.state : Act σ State).Contained call := by
  rintro _ _ _ ⟨⟩

theorem abandon (p : Panic) : (Act.abandon p : Act σ α).Contained call := by
  rintro _ _ _ ⟨⟩

theorem ofPanic (x : Except Panic α) : (Act.ofPanic x : Act σ α).Contained call := by
  cases x with
  | ok a => exact .pure a
  | error p => exact .abandon p

theorem ofOverflow (x : Except Overflow α) : (Act.ofOverflow x : Act σ α).Contained call := by
  cases x with
  | ok a => exact .pure a
  | error o => exact .abandon _

theorem bind {f : α → Act σ β} (h : act.Contained call) (hf : ∀ a, (f a).Contained call) :
    (act >>= f).Contained call := by
  intro w e v he
  obtain he | ⟨a, u, -, he⟩ := error_of_bind he
  · exact h w e v he
  · exact hf a u e v he

/-- An attempt answers with the error. -/
theorem attempt : act.attempt.Contained call := by
  intro w e v he
  unfold Act.attempt at he
  split at he
  · cases he
  · cases he
  · rename_i hne _
    cases he
    exact hne _ rfl

theorem ensuring {cleanup : State → State} (h : act.Contained call) :
    (Act.ensuring cleanup act).Contained call := by
  intro w e v he
  unfold Act.ensuring at he
  split at he
  · cases he
  · rename_i hact
    cases he
    exact h _ _ _ hact

theorem report (e : Log.Event) : (Act.report e : Act σ Unit).Contained call := .edit _

theorem count (name : String) (n : Nat) : (Act.count name n : Act σ Unit).Contained call :=
  .bind .state fun _ => .bind (.ofOverflow _) fun _ => .edit _

theorem recordTiming (name : String) : (Act.recordTiming name : Act σ Unit).Contained call :=
  .edit _

end Contained

end Act

open Act

variable {call : Invoker σ}

/-! ## Operations -/

theorem Engine.nativePtr_contained (hc : ∀ m inv w e v, call m inv w ≠ .error (.error e) v)
    (proxy : Address) : (nativePtr proxy).Contained call := by
  refine .bind .state fun s => .bind (hc _ _) ?_
  rintro (x | _ | boxed)
  · exact .bind (.report _) fun _ => .pure _
  · exact .pure _
  · exact .bind .state fun _ => .bind (.ofPanic _) fun _ => .pure _

theorem Engine.disconnect_contained (hc : ∀ m inv w e v, call m inv w ≠ .error (.error e) v)
    (proxy : Address) : (disconnect proxy).Contained call := by
  refine .bind .state fun s => .bind (hc _ _) ?_
  rintro (x | a)
  · exact .report _
  · exact .pure _

theorem Engine.structFactory_contained (info : StructInfo) :
    (structFactory info : Act σ _).Contained call := by
  refine .bind .state fun s => ?_
  split
  · exact .pure _
  · split
    · exact .pure _
    · exact .bind (.report _) fun _ => .bind (.edit _) fun _ => .pure _

namespace Identity

theorem bindingFor_contained (classRef : Address) :
    (bindingFor classRef : Act σ _).Contained call := by
  refine .bind .state fun s => ?_
  split
  · exact .pure _
  · refine .bind (.ofPanic _) fun info => .bind (.ofPanic _) ?_
    rintro (e | b)
    · exact .bind (.report _) fun _ => .bind (.count _ _) fun _ => .pure _
    · exact .bind (.report _) fun _ => .bind (.edit _) fun _ => .pure _

variable (hc : ∀ m inv w e v, call m inv w ≠ .error (.error e) v)
include hc

theorem severOne_contained (reason : String) (host : Address) :
    (severOne reason host).Contained call := by
  refine .bind .state fun s => ?_
  split
  · exact .pure _
  · refine .bind (.edit _) fun _ => .bind (.ensuring ?_) fun _ => .bind (.report _) fun _ => .pure _
    split
    · exact Engine.disconnect_contained hc _
    · exact .pure _

theorem sever_contained (reason : String) (hosts : List Address) :
    (sever reason hosts).Contained call := by
  refine .bind ?_ fun counts => .bind (.count _ _) fun _ => .pure _
  induction hosts with
  | nil => exact .pure _
  | cons host hosts ih =>
    rw [List.mapM_cons]
    exact .bind (severOne_contained hc reason host) fun _ => .bind ih fun _ => .pure _

theorem sweep_contained : (sweep : Act σ _).Contained call := by
  refine .ensuring (.bind .state fun s => .bind (sever_contained hc _ _) fun _ => ?_)
  refine .bind .state fun _ => .bind (.edit _) fun _ => .bind (.report _) fun _ => ?_
  refine .bind .state fun _ => .bind (.count _ _) fun _ => .bind (.recordTiming _) fun _ => ?_
  exact .bind (.report _) fun _ => .pure _

end Identity

namespace Redirection

theorem linked_contained (key : Redirector.Key) (r : Redirector) :
    (linked key r : Act σ _).Contained call := by
  unfold linked
  split
  · exact .pure _
  · exact .pure _
  · refine .bind .state fun s => .bind (.recordTiming _) fun _ => ?_
    split
    · exact .bind (.report _) fun _ => .bind (.edit _) fun _ => .pure _
    · exact .bind (.report _) fun _ => .bind (.count _ _) fun _ => .bind (.edit _) fun _ => .pure _

theorem loadParams_contained (block : Nat) (ps : List Property) (stack : ArgStack) :
    (loadParams block ps stack : Act σ _).Contained call := by
  induction ps generalizing stack with
  | nil => exact .pure _
  | cons p ps ih =>
    unfold loadParams
    refine .bind ?_ fun place => ?_
    · unfold paramPlace
      split
      · exact .pure _
      · exact .pure _
      · exact .bind (.editGet _) fun _ => .pure _
    · split
      · exact .bind (ih stack) fun _ => .pure _
      · exact .bind (.ofPanic _) fun _ => .bind (.edit _) fun _ => .bind (ih _) fun _ => .pure _

theorem checkFrame_contained (size align : Nat) :
    (checkFrame size align : Act σ Unit).Contained call := by
  unfold checkFrame
  split
  · exact .pure _
  · exact .abandon _
  · exact .abandon _

theorem invoke_contained (key : Redirector.Key) (r : Redirector) (target : Option Address)
    (stack : ArgStack) (result : Option Address) :
    (invoke key r target stack result : Act σ _).Contained call := by
  rw [invoke_eq]
  refine .bind (linked_contained key r) ?_
  rintro (e | ⟨l, m⟩)
  · exact .pure _
  refine .bind (.edit _) fun _ => .ensuring (.bind ?_ fun _ => .bind .attempt fun _ => .pure _)
  refine .bind .state fun _ => .bind (.report _) fun _ => .bind (.count _ _) fun _ => ?_
  refine .bind (checkFrame_contained _ _) fun _ => .bind (checkFrame_contained _ _) fun _ => ?_
  exact .bind (.editGet _) fun _ => loadParams_contained _ _ _

end Redirection

/-! ## Runs -/

theorem Request.perform_contained (hc : ∀ m inv w e v, call m inv w ≠ .error (.error e) v)
    (r : Request) : (r.perform : Act σ _).Contained call := by
  -- A request answers the errors of the bridge that it may meet; calls in between end with none.
  unfold perform
  cases r with
  | defineClass | spawn | intern | defineType | allocate => exact .editGet _
  | allot | instantiate | hold | setRooted | redirect => exact .editGet _
  | setReachable | discard | store | write => exact .edit _
  | setNative | collect | regrip | letGo => exact .edit _
  | call m receiver args => exact hc m _
  | hostOf object => exact Engine.nativePtr_contained hc object
  | sweep => exact Identity.sweep_contained hc
  | teardown root =>
    refine .bind .state fun s => .bind (Identity.sever_contained hc _ _) fun _ => ?_
    exact .bind (.report _) fun _ => .pure _
  | shutdown =>
    refine .bind .state fun s => .bind (Identity.sever_contained hc _ _) fun _ => ?_
    exact .bind (.report _) fun _ => .pure _
  | bind classRef => exact Identity.bindingFor_contained classRef
  | structFactory info => exact Engine.structFactory_contained info
  | link key =>
    refine .bind .state fun s => ?_
    split
    · exact .pure _
    · exact .bind (.bind (Redirection.linked_contained _ _) fun _ => .pure _) fun _ => .pure _
  | invoke key target stack result =>
    refine .bind .state fun s => ?_
    split
    · exact .pure _
    · exact .bind (Redirection.invoke_contained _ _ _ _ _) fun _ => .pure _
  | proxy | execute | broadcast | pass | addArgument | copy => exact .attempt

theorem Program.run_contained (hc : ∀ m inv w e v, call m inv w ≠ .error (.error e) v)
    (p : Program σ) : p.run.Contained call := by
  induction p with
  | done a => exact .pure _
  | throw x => exact .pure _
  | panic c => exact .abandon c
  | observe next ih => exact fun w => ih w.state w.memory w
  | remember memory next ih => exact fun w => ih { w with memory := memory }
  | define info body next _ ih => exact fun w => ih w.bodies.length (w.define info body)
  | ask r next ih => exact .bind (r.perform_contained hc) ih

/-- A method that is called does not end with an error of the bridge. -/
theorem callAt_contained (n m : Nat) (inv : Invocation) (w : World σ) (e : BridgeError)
    (v : World σ) : callAt n m inv w ≠ .error (.error e) v := by
  induction n generalizing m inv w e v with
  | zero => rintro ⟨⟩
  | succ n ih =>
    rw [callAt_succ]
    cases w.bodies[m]? with
    | none => rintro ⟨⟩
    | some body => exact (body inv).run_contained ih _ _ _

end TwinHeap
