import TwinHeap.Proofs.Pinned

/-!
# Lifetime — how long an object lives that was staged for a call

A redirected call holds the objects that it staged until it is left. So an object that was alive when
it was staged stays alive while later arguments are staged, in the method and in all that it calls,
and while the outputs are written back; it is let go however the call ends (`staged_until_left`).
-/

namespace TwinHeap

variable {σ : Type}

/-! ## Redirected calls in a session -/

/-- To perform the request from `x`, this redirected call is made from `w`: it was asked for, or it is
that of a delegate. -/
inductive Request.Redirects (call : Invoker σ) (x : World σ) :
    Request → Redirector.Key → Redirector → Option Address → ArgStack → Option Address →
      World σ → Prop
  | invoke {key : Redirector.Key} {r : Redirector} {target result : Option Address}
      {stack : ArgStack} (hr : x.state.redirector? key = some r) :
      Redirects call x (.invoke key target stack result) key r target stack result x
  | execute {d : Delegate} {key : Redirector.Key} {r : Redirector} {result : Option Address}
      {stack : ArgStack} (hb : d.isBound = true)
      (hd : x.state.resolveDelegate d = .ok (some (key, r))) :
      Redirects call x (.execute d stack result) key r d.object stack result x
  | broadcast {before after : Multicast} {d : Delegate} {supplied : List ArgStack} {called : Nat}
      {key : Redirector.Key} {r : Redirector} {w : World σ}
      (hbefore : Multicast.broadcast before supplied call x = .ok called w) (hb : d.isBound = true)
      (hd : w.state.resolveDelegate d = .ok (some (key, r))) :
      Redirects call x (.broadcast (before ++ d :: after) supplied) key r d.object
        ((supplied.drop before.length).headD (.ofArgs [])) none w

/-- The law holds where a redirected call begins. -/
theorem Request.Redirects.holds {L : Law σ} {q : Request} {key : Redirector.Key} {r : Redirector}
    {target result : Option Address} {stack : ArgStack} {x w : World σ} {o : List Owed}
    (h : q.Redirects L.call x key r target stack result w) (hproxies : L.MakesProxies)
    (hw : ∀ a, L.mayWrite a) (hrun : ∀ {α : Type} (act : Act σ α) v, L.course.Runs act v)
    (hb : L.base <:+ o) (hready : L.ready o) (ho : L.holds o x) :
    L.holds o w ∧ w.state.redirector? key = some r := by
  cases h with
  | invoke hr => exact ⟨ho, hr⟩
  | execute _ hd => exact ⟨ho, State.redirector?_of_resolveDelegate hd⟩
  | broadcast hbefore _ hd =>
    have hobeys (ds : Multicast) (supplied : List ArgStack) :
        (Multicast.broadcast ds supplied : Act σ Nat).Obeys L .redirected o x :=
      ds.broadcast_obeys hproxies fun _ _ _ _ _ => hw _
    exact ⟨((hobeys _ _ hb hready (hrun _ _) ho).ok _ _ hbefore).1,
      State.redirector?_of_resolveDelegate hd⟩

/-! ## The rest of a call -/

namespace Redirection

open Act

variable {call : Invoker σ} {w u v : World σ} {params : List Parameter} {scratch : Nat}
  {args after : List LinkedArg} {pointers : List Address} {staged : List StagedArg}

/-- Where some arguments have been staged, staging goes on with the others. -/
theorem stageArgs_append (params : List Parameter) (scratch : Nat) (before after : List LinkedArg) :
    (stageArgs params scratch (before ++ after) : Act σ _) = do
      let front ← stageArgs params scratch before
      let back ← stageArgs params scratch after
      return (front.1 ++ back.1, front.2 ++ back.2) := by
  induction before with
  | nil =>
    show _ = stageArgs params scratch after >>= fun back => pure ([] ++ back.1, [] ++ back.2)
    exact (bind_pure _).symm
  | cons a before ih =>
    rw [List.cons_append, stageArgs, stageArgs]
    cases params[a.param]? with
    | none => exact ih
    | some param =>
      simp only [ih, bind_assoc]
      refine bind_congr fun x => ?_
      cases x.2 <;> simp only [bind_assoc, pure_bind, List.cons_append]

/-- What is staged is what staging answers. -/
theorem Stages.stageArgs_eq (h : Stages call params scratch args w pointers staged u) :
    stageArgs params scratch args call w = .ok (pointers, staged) u := by
  induction h with
  | nil => rfl
  | skip hparam _ ih =>
    rw [stageArgs, hparam]
    exact ih
  | @cons a as w u v param pointer made pointers staged hparam hstage hrest ih =>
    rw [stageArgs, hparam]
    refine (bind_of_ok hstage).trans ?_
    cases made <;> exact bind_of_ok ih

/-- What is left of a call until its method has answered, where some arguments have been staged. -/
def attend (function : Function) (m : Nat) (target : Option Address) (params : List Parameter)
    (scratch : Nat) (args : List LinkedArg) (pointers : List Address) :
    Act σ (Except ForeignException (Option Address)) := do
  let more ← stageArgs params scratch args
  let receiver ← receiverOf function target
  callMethod m receiver (pointers ++ more.1)

/-- The arguments that are bound to a parameter, each in its own region of the scratch memory. -/
def regions (params : List Parameter) (scratch : Nat) (args : List LinkedArg) : List StagedArg :=
  (args.filter fun a => params[a.param]?.isSome).map fun a => ⟨a, ⟨scratch, a.scratchOffset⟩⟩

/-- Where the arguments lie is known beforehand. -/
theorem stageArgs_bind {α : Type} (f : List Address × List StagedArg → Act σ α) :
    (stageArgs params scratch args >>= f) =
      stageArgs params scratch args >>= fun more => f (more.1, regions params scratch args) := by
  funext call w
  cases h : stageArgs params scratch args call w with
  | error e v => rw [bind_of_error h, bind_of_error h]
  | ok more v =>
    obtain ⟨pointers, staged⟩ := more
    have hstaged : staged = regions params scratch args := (stages_of_stageArgs h).staged_eq
    rw [bind_of_ok h, bind_of_ok h, hstaged]

/-- What is left of a call that has staged some of its arguments. -/
def proceed (function : Function) (l : Linkage) (m : Nat) (target : Option Address)
    (params : List Parameter) (result : Option Address) (scratch : Nat) (args : List LinkedArg)
    (pointers : List Address) (staged : List StagedArg) : Act σ Unit := do
  let more ← stageArgs params scratch args
  let receiver ← receiverOf function target
  let answer ← callMethod m receiver (pointers ++ more.1)
  finish function l params (staged ++ more.2) result answer

/-- When the method has answered, the call is finished. -/
theorem proceed_eq_attend (function : Function) (l : Linkage) (m : Nat) (target : Option Address)
    (params : List Parameter) (result : Option Address) (scratch : Nat) (args : List LinkedArg)
    (pointers : List Address) (staged : List StagedArg) :
    (proceed function l m target params result scratch args pointers staged : Act σ Unit) =
      attend function m target params scratch args pointers >>=
        finish function l params (staged ++ regions params scratch args) result := by
  unfold proceed attend
  rw [stageArgs_bind]
  simp only [bind_assoc]

/-- A call proceeds from any of its arguments. -/
theorem run_eq_proceed {function : Function} {l : Linkage} (hargs : l.args = args ++ after)
    (h : Stages call params w.state.memory.next args
      { w with state := (w.state.frameCell (.plain [])).2 } pointers staged u)
    (m : Nat) (target result : Option Address) :
    run function l m target params result call w =
      proceed function l m target params result w.state.memory.next after pointers staged call u := by
  rw [run_eq]
  unfold prepare proceed
  rw [hargs]
  simp only [stageArgs_append, bind_assoc, pure_bind]
  exact (bind_of_ok (a := w.state.memory.next) rfl).trans (bind_of_ok h.stageArgs_eq)

theorem Stages.append {more : List LinkedArg} {pointers' : List Address}
    {staged' : List StagedArg} (h : Stages call params scratch args w pointers staged u)
    (hmore : Stages call params scratch more u pointers' staged' v) :
    Stages call params scratch (args ++ more) w (pointers ++ pointers') (staged ++ staged') v := by
  induction h with
  | nil => exact hmore
  | skip hparam _ ih => exact .skip hparam (ih hmore)
  | cons hparam hstage _ ih => exact .cons hparam hstage (ih hmore)

/-- The worlds between the steps of what is left of a call. -/
inductive Between (call : Invoker σ) (function : Function) (m : Nat) (target : Option Address)
    (params : List Parameter) (scratch : Nat) (args : List LinkedArg) (pointers : List Address)
    (staged : List StagedArg) (w : World σ) : World σ → Prop
  /-- Some more arguments have been staged. -/
  | staged {as bs : List LinkedArg} {ps : List Address} {ss : List StagedArg} {v : World σ}
      (hargs : args = as ++ bs) (h : Stages call params scratch as w ps ss v) :
      Between call function m target params scratch args pointers staged w v
  /-- The receiver has been found, so the method is called next. -/
  | received {ps : List Address} {ss : List StagedArg} {receiver : Option Address} {u v : World σ}
      (h : Stages call params scratch args w ps ss u)
      (hr : receiverOf function target call u = .ok receiver v) :
      Between call function m target params scratch args pointers staged w v
  /-- The method has answered. -/
  | answered {ps : List Address} {ss : List StagedArg} {receiver : Option Address}
      {answer : Except ForeignException (Option Address)} {u u' v : World σ}
      (h : Stages call params scratch args w ps ss u)
      (hr : receiverOf function target call u = .ok receiver u')
      (hm : call m ⟨receiver, pointers ++ ps⟩ u' = .ok answer v) :
      Between call function m target params scratch args pointers staged w v
  /-- The first `j` outputs have been written back. -/
  | written {ps : List Address} {ss : List StagedArg} {receiver returned : Option Address}
      {u u' u'' v : World σ} {j : Nat} (h : Stages call params scratch args w ps ss u)
      (hr : receiverOf function target call u = .ok receiver u')
      (hm : call m ⟨receiver, pointers ++ ps⟩ u' = .ok (.ok returned) u'')
      (hback : writeBack (staged ++ ss) 0 (params.take j) call u'' = .ok () v) :
      Between call function m target params scratch args pointers staged w v

section Laws

variable {L : Law σ} {o : List Owed} {key : Redirector.Key} {l : Linkage} {m : Nat}

theorem attend_obeys (hproxies : L.MakesProxies) (hw : ∀ a, L.mayWrite a)
    (hlinked : ∃ r, w.state.redirector? key = some r ∧ r.binding = .linked l m)
    (function : Function) (target : Option Address) :
    (attend function m target params scratch args pointers : Act σ _).Obeys L .plain
      (.frame key :: o) w := by
  unfold attend
  refine .seq (stageArgs_obeys hproxies (fun _ _ => hw _) (fun _ => hw _) args) fun _ _ hg => ?_
  refine .seq (receiverOf_obeys hproxies function target) fun _ v hg' => ?_
  obtain ⟨r, hk, hl⟩ := hlinked
  exact callMethod_obeys ((hg.trans hg').linked key r l m hk hl) _ _

theorem proceed_obeys (hproxies : L.MakesProxies) (hw : ∀ a, L.mayWrite a)
    (hlinked : ∃ r, w.state.redirector? key = some r ∧ r.binding = .linked l m)
    (function : Function) (target result : Option Address) :
    (proceed function l m target params result scratch args pointers staged : Act σ Unit).Obeys
      L .plain (.frame key :: o) w := by
  rw [proceed_eq_attend]
  refine .seq (attend_obeys hproxies hw hlinked function target) fun answer _ _ => ?_
  exact finish_obeys function l (fun _ _ => hw _) _ (fun _ _ => hw _) answer

/-- The law holds between all the steps. -/
theorem Between.holds {function : Function} {target : Option Address}
    (h : Between L.call function m target params scratch args pointers staged w v)
    (hproxies : L.MakesProxies) (hw : ∀ a, L.mayWrite a)
    (hrun : ∀ {α : Type} (act : Act σ α) v, L.course.Runs act v)
    (hlinked : ∃ r, w.state.redirector? key = some r ∧ r.binding = .linked l m)
    (hb : L.base <:+ .frame key :: o) (hready : L.ready (.frame key :: o))
    (ho : L.holds (.frame key :: o) w) : L.holds (.frame key :: o) v := by
  have hstages {as : List LinkedArg} {ps : List Address} {ss : List StagedArg} {u : World σ}
      (h : Stages L.call params scratch as w ps ss u) :
      L.holds (.frame key :: o) u ∧ w.state.Grows u.state := by
    have hobeys : (stageArgs params scratch as : Act σ _).Obeys L .plain (.frame key :: o) w :=
      stageArgs_obeys hproxies (fun _ _ => hw _) (fun _ => hw _) as
    obtain ⟨hu, hg, -⟩ := (hobeys hb hready (hrun _ _) ho).ok _ _ h.stageArgs_eq
    exact ⟨hu, hg⟩
  have hreceives {receiver : Option Address} {u u' : World σ}
      (hu : L.holds (.frame key :: o) u ∧ w.state.Grows u.state)
      (hr : receiverOf function target L.call u = .ok receiver u') :
      L.holds (.frame key :: o) u' ∧ w.state.Grows u'.state := by
    obtain ⟨hu', hg, -⟩ :=
      (receiverOf_obeys hproxies function target hb hready (hrun _ _) hu.1).ok _ _ hr
    exact ⟨hu', hu.2.trans hg⟩
  have hanswers {inv : Invocation} {answer : Except ForeignException (Option Address)}
      {u u' : World σ} (hu : L.holds (.frame key :: o) u ∧ w.state.Grows u.state)
      (hm : L.call m inv u = .ok answer u') : L.holds (.frame key :: o) u' := by
    obtain ⟨r, hk, hl⟩ := hlinked
    obtain ⟨r', hk', hl'⟩ := hu.2.linked key r l m hk hl
    have hcalled := (ends_iff.1 (L.called hu.1 (.linked hready hk' hl') (hrun _ _))).1 _ _ hm
    rwa [Owed.after_self] at hcalled
  -- Staging, the receiver, the method and writing back follow one another, and the law goes with each.
  cases h with
  | staged _ h => exact (hstages h).1
  | received h hr => exact (hreceives (hstages h) hr).1
  | answered h hr hm => exact hanswers (hreceives (hstages h) hr) hm
  | @written _ ss _ _ _ _ u _ j h hr hm hback =>
    have hobeys : (writeBack (staged ++ ss) 0 (params.take j) : Act σ Unit).Obeys L .plain
        (.frame key :: o) u := writeBack_obeys fun _ _ _ _ _ _ => hw _
    have hu := hanswers (hreceives (hstages h) hr) hm
    exact ((hobeys hb hready (hrun _ _) hu).ok _ _ hback).1

end Laws

/-- A call that has loaded its parameters has a frame right above those that were there before. -/
theorem Loads.pinned {n : Nat} {key : Redirector.Key} {r : Redirector} {stack rest : ArgStack}
    {l : Linkage} {m : Nat} {o : List Owed}
    (h : Loads (callAt n) key r stack w l m params rest u)
    (hr : w.state.redirector? key = some r) (hw : w.Tallied o) :
    u.Pinned w.state.bridge.frames [] (.frame key :: o) ∧
      ∃ r', u.state.redirector? key = some r' ∧ r'.binding = .linked l m := by
  have hlinked := (h.holds (L := (handleRealm σ).law ((handleRealm σ).respected n)) hr none none
    trivial List.nil_suffix trivial hw).2.2
  refine ⟨?_, hlinked⟩
  obtain ⟨v, hlink, hload⟩ := h
  have hlinks : (linked key r : Act σ _).Moves
      ((handleRealm σ).law ((handleRealm σ).respected n)) .plain o [] [] [] w _ := linked_moves hr
  obtain ⟨hv, -, hbinding⟩ := (hlinks List.nil_suffix trivial trivial hw).ok _ _ hlink
  obtain ⟨r', hr', hl'⟩ := hbinding l m rfl
  have henter : Change (handleRealm σ).terms o v.state (.frame key :: o) (v.state.enter key) :=
    .enter key ⟨r', l, m, hr', hl'⟩
  have hframes : (v.state.enter key).bridge.frames = ⟨key, [], []⟩ :: w.state.bridge.frames :=
    congrArg _ (apart_of_linked hlink).2
  have hpinned : World.Pinned w.state.bridge.frames [] (.frame key :: o)
      { v with state := v.state.enter key } :=
    ⟨henter.tallied hv, ⟨⟨⟨key, [], []⟩, ⟨[], hframes.symm⟩, nofun⟩, nofun⟩⟩
  have hloads : (load key r l stack : Act σ _).Moves
      (pinLaw (pinned_callAt σ n w.state.bridge.frames []) _ hpinned.above) .plain
      (.frame key :: o) [] [] [] { v with state := v.state.enter key } _ := load_moves r l stack
  exact ((hloads List.suffix_rfl trivial trivial hpinned).ok _ _ hload).1

/-- A redirected call from `w` in which an argument has just been staged as a foreign object. -/
structure StagedObject (call : Invoker σ) (key : Redirector.Key) (r : Redirector)
    (stack : ArgStack) (w : World σ) where
  linkage : Linkage
  method : Nat
  params : List Parameter
  rest : ArgStack
  /-- The world in which the parameters are loaded. -/
  loaded : World σ
  loads : Loads call key r stack w linkage method params rest loaded
  before : List LinkedArg
  arg : LinkedArg
  after : List LinkedArg
  args_eq : linkage.args = before ++ arg :: after
  pointers : List Address
  staged : List StagedArg
  /-- The world in which the arguments before this one are staged. -/
  turn : World σ
  stages : Stages call params loaded.state.memory.next before
    { loaded with state := (loaded.state.frameCell (.plain [])).2 } pointers staged turn
  param : Parameter
  param_eq : params[arg.param]? = some param
  pointer : Address
  object : Address
  /-- The world in which the object is made and nobody holds it yet. -/
  made : World σ
  stage_eq : arg.marshaller.stage param.property param.place
    ⟨loaded.state.memory.next, arg.scratchOffset⟩ arg.byRef call turn =
      .ok (pointer, some object) made

namespace StagedObject

variable {key : Redirector.Key} {r : Redirector} {stack : ArgStack}

/-- The handle by which the call holds the object. -/
def handle (s : StagedObject call key r stack w) : Nat := s.made.state.heap.nextHandle

/-- The world in which the call holds the object. -/
def held (s : StagedObject call key r stack w) : World σ := rooted (some s.object) s.made

/-- What is left of the call. -/
def action (s : StagedObject call key r stack w) (target result : Option Address) : Act σ Unit :=
  proceed r.function s.linkage s.method target s.params result s.loaded.state.memory.next s.after
    (s.pointers ++ [s.pointer])
    (s.staged ++ [⟨s.arg, ⟨s.loaded.state.memory.next, s.arg.scratchOffset⟩⟩])

/-- The worlds between the steps of what is left. -/
def Between (s : StagedObject call key r stack w) (target : Option Address) (v : World σ) : Prop :=
  Redirection.Between call r.function s.method target s.params s.loaded.state.memory.next s.after
    (s.pointers ++ [s.pointer])
    (s.staged ++ [⟨s.arg, ⟨s.loaded.state.memory.next, s.arg.scratchOffset⟩⟩]) s.held v

/-- The arguments up to this one are staged. -/
theorem stages_held (s : StagedObject call key r stack w) :
    Stages call s.params s.loaded.state.memory.next (s.before ++ [s.arg])
      { s.loaded with state := (s.loaded.state.frameCell (.plain [])).2 }
      (s.pointers ++ [s.pointer])
      (s.staged ++ [⟨s.arg, ⟨s.loaded.state.memory.next, s.arg.scratchOffset⟩⟩]) s.held :=
  s.stages.append (.cons s.param_eq s.stage_eq .nil)

/-- What is left of the call decides how it ends. -/
theorem invoke_eq (s : StagedObject call key r stack w) (target result : Option Address) :
    invoke key r target stack result call w =
      match (s.action target result).attempt call s.held with
      | .ok outcome v => .ok (outcome, s.rest) { v with state := v.state.leave key }
      | .error f v => .error f { v with state := v.state.leave key } := by
  have hargs : s.linkage.args = (s.before ++ [s.arg]) ++ s.after := by
    rw [s.args_eq, List.append_assoc]
    rfl
  have hrun : (run r.function s.linkage s.method target s.params result).attempt call s.loaded =
      (s.action target result).attempt call s.held := by
    unfold Act.attempt
    rw [run_eq_proceed hargs s.stages_held]
    rfl
  exact hrun ▸ s.loads.invoke_eq target result

/-- What a law says of the call with its parameters loaded, it says when the object is made. -/
theorem holds {L : Law σ} {o : List Owed} (s : StagedObject L.call key r stack w)
    (hproxies : L.MakesProxies) (hwrite : ∀ a, L.mayWrite a) (hbase : L.base <:+ .frame key :: o)
    (hready : L.ready (.frame key :: o))
    (hrun : ∀ {α : Type} (act : Act σ α) (v : World σ), L.course.Runs act v)
    (hloaded : L.holds (.frame key :: o) s.loaded) :
    L.holds (.frame key :: o) s.made ∧ s.loaded.state.Grows s.held.state := by
  have hframe := L.change hloaded (.frameCell (.plain []))
  have hstages : (stageArgs s.params s.loaded.state.memory.next s.before : Act σ _).Obeys L .plain
      (.frame key :: o) { s.loaded with state := (s.loaded.state.frameCell (.plain [])).2 } :=
    stageArgs_obeys hproxies (fun _ _ => hwrite _) (fun _ => hwrite _) _
  obtain ⟨hturn, hg, -⟩ :=
    (hstages hbase hready (hrun _ _) hframe).ok _ _ s.stages.stageArgs_eq
  have hstage : (s.arg.marshaller.stage s.param.property s.param.place
      ⟨s.loaded.state.memory.next, s.arg.scratchOffset⟩ s.arg.byRef : Act σ _).Obeys L .plain
      (.frame key :: o) s.turn :=
    Marshaller.stage_obeys hproxies _ _ (hwrite _) (hwrite _) (hwrite _) _
  obtain ⟨hmade, hg', -⟩ := (hstage hbase hready (hrun _ _) hturn).ok _ _ s.stage_eq
  exact ⟨hmade, (State.grows_frameCell s.loaded.state (.plain [])).trans
    (hg.trans (hg'.trans (State.grows_root _ s.object)))⟩

/-- From when the object is held until the call is left, the handle of the call pins it. -/
theorem pinned {n : Nat} {o : List Owed} (s : StagedObject (callAt n) key r stack w)
    (hr : w.state.redirector? key = some r) (hw : w.Tallied o)
    (halive : s.made.state.heap.isAlive s.object = true) :
    s.held.Pinned w.state.bridge.frames [(s.handle, s.object)] (.frame key :: o) ∧
      ∃ r', s.held.state.redirector? key = some r' ∧ r'.binding = .linked s.linkage s.method := by
  obtain ⟨hloaded, r', hr', hl'⟩ := s.loads.pinned hr hw
  let L := pinLaw (pinned_callAt σ n w.state.bridge.frames []) (.frame key :: o) hloaded.above
  obtain ⟨hmade, hgrows⟩ := holds (L := L) s (Identity.makesProxies fun _ => trivial)
    (fun _ => trivial) List.suffix_rfl trivial (fun _ _ => trivial) hloaded
  have hroot : Change L.toTerms (.frame key :: o) s.made.state (.frame key :: o)
      (s.made.state.root s.object) := .root s.object
  have hlength : s.made.state.bridge.frames.length = w.state.bridge.frames.length + 1 := by
    rw [hmade.tallied.frames, hw.frames]
    exact List.countP_cons_of_pos rfl
  refine ⟨⟨hroot.tallied hmade.tallied, hmade.state.root hmade.tallied.balanced hlength halive⟩, ?_⟩
  exact hgrows.linked key r' _ _ hr' hl'

end StagedObject

/-- A call is over that held an object by a handle: the object has not died of that, but the handle
is freed and only the frames from before the call are left. So the next collection keeps the object
for no other reason than a strong handle of an entry, of a call around, of foreign code, or of one of
the removals around, of which there are `removals`. -/
structure LetGo (old s : State) (handle : Nat) (object : Address) (removals : Nat) : Prop where
  alive : s.heap.isAlive object = true
  freed : s.heap.handles.get? handle = none
  frames : s.bridge.frames = old.bridge.frames
  collected : ∃ severed : List Nat, severed.length = removals ∧
    s.heap.handles.keys.Perm (s.entryHandles ++ (s.stagedHandles ++ s.ownHandles) ++ severed) ∧
    ∀ full, (s.heap.collect full).isAlive object = true ↔
      ∃ k ∈ s.entryHandles ++ (s.stagedHandles ++ s.ownHandles) ++ severed,
        s.heap.handles.get? k = some ⟨some object, false⟩

/-- The innermost call is left, and lets go of what it pinned. -/
theorem letGo_of_pinned {o : List Owed} {old : State} {k : Nat} {object : Address}
    {key : Redirector.Key} (h : v.Pinned old.bridge.frames [(k, object)] (.frame key :: o))
    (hold : old.bridge.frames.length = o.countP Owed.isFrame) (hidle : o.countP Owed.isIdle = 0) :
    LetGo old (v.state.leave key) k object (o.countP Owed.isSevering) := by
  have hlength : v.state.bridge.frames.length = old.bridge.frames.length + 1 := by
    rw [h.tallied.frames, hold]
    exact List.countP_cons_of_pos rfl
  obtain ⟨hframes, hpins⟩ := h.state.leave h.tallied.balanced hlength key
  obtain ⟨hfreed, halive⟩ := hpins _ List.mem_cons_self
  have hleave : Change (.asking (fun _ => True) fun _ => True) (.frame key :: o) v.state o
      (v.state.leave key) := .leave List.nil_suffix
  have htallied := hleave.tallied h.tallied
  obtain ⟨severed, hsevered, hperm⟩ := htallied.handles hidle
  refine ⟨halive, hfreed, hframes, severed, hsevered, hperm, fun full => ?_⟩
  have hbalanced := htallied.balanced
  rw [Heap.isAlive_collect, halive, Bool.true_and, List.contains_iff_mem,
    Heap.mem_roots_iff hbalanced.accounts.nodup]
  refine ⟨fun ⟨k', hk⟩ => ⟨k', hperm.mem_iff.1 (Table.mem_keys_of_get? hk), hk⟩, ?_⟩
  rintro ⟨k', -, hk⟩
  exact ⟨k', hk⟩

end Redirection

open Redirection in
/-- An object that a redirected call has staged for an argument, and that was alive when it was made,
stays alive until the call is left: between all its further steps, and wherever foreign code is in
control that the call has called for, at whatever depth and whatever it does there. When the call is
left, with whatever outcome, it lets go of the object. -/
theorem staged_until_left {config : Config} {registry : Registry} {side : ForeignSide σ}
    {memory : σ} {start x w : World σ} {rs : List Request} {n : Nat} {q : Request}
    {key : Redirector.Key} {r : Redirector} {target result : Option Address} {stack : ArgStack}
    (hside : side.foreign.heap = .empty)
    (hstart : World.connect config registry side memory = .ok start)
    (hx : Session.Sees (fun _ _ => True) (fun _ => True) start rs x)
    (hcall : q.Redirects (callAt n) x key r target stack result w)
    (s : StagedObject (callAt n) key r stack w)
    (halive : s.made.state.heap.isAlive s.object = true) :
    (∀ v, s.Between target v → v.state.heap.isAlive s.object = true) ∧
    (∀ m inv v, (s.action target result).Makes (callAt n) s.held m inv v →
      v.state.heap.isAlive s.object = true ∧ ∀ k body rs' v', n = k + 1 →
        v.bodies[m]? = some body →
        Program.Visits (fun _ _ => True) k (body inv) (v.countCall m) rs' v' →
        v'.state.heap.isAlive s.object = true) ∧
    Ends (invoke key r target stack result (callAt n) w)
      (fun _ v => LetGo w.state v.state s.handle s.object
        (rs.countP fun r => r.situation.isSevering))
      fun f v => f ≠ .exhausted → LetGo w.state v.state s.handle s.object
        (rs.countP fun r => r.situation.isSevering) := by
  obtain ⟨o, ho, hsevering, hidle, -⟩ :=
    Realm.sees (R := handleRealm σ) (World.tallied_connect hside hstart) hx
  obtain ⟨hw, hr⟩ := hcall.holds (L := (handleRealm σ).law ((handleRealm σ).respected n))
    (Identity.makesProxies fun _ => trivial) (fun _ => trivial) (fun _ _ => trivial)
    List.nil_suffix trivial ho
  -- From here on the handle of the call pins the object.
  obtain ⟨hheld, hlinked⟩ := s.pinned hr hw halive
  have hpinned {v : World σ} {o : List Owed}
      (hv : v.Pinned w.state.bridge.frames [(s.handle, s.object)] o) :
      v.state.heap.isAlive s.object = true := (hv.state.held _ List.mem_cons_self).2
  let L := pinLaw (pinned_callAt σ n w.state.bridge.frames [(s.handle, s.object)]) (.frame key :: o)
    hheld.above
  have hproxies : L.MakesProxies := Identity.makesProxies fun _ => trivial
  have haction : (s.action target result).Obeys L .plain (.frame key :: o) s.held :=
    proceed_obeys hproxies (fun _ => trivial) hlinked r.function target result
  have hmeets := haction List.suffix_rfl trivial trivial hheld
  refine ⟨fun v hv => ?_, fun m inv v hm => ?_, ?_⟩
  · have hholds : L.holds (.frame key :: o) v :=
      Between.holds hv hproxies (fun _ => trivial) (fun _ _ => trivial) hlinked List.suffix_rfl
        trivial hheld
    exact hpinned hholds
  · obtain ⟨t, -, -, -, -, hv, -⟩ := hmeets.only.of_makes hm
    refine ⟨hpinned hv, ?_⟩
    rintro k body rs' v' - - hvisits
    obtain ⟨o', hv'⟩ := hvisits.pinned (World.Pinned.countCall hv m)
    exact hpinned hv'
  · have hleft {v : World σ} (hv : L.holds (.frame key :: o) v) :
        LetGo w.state (v.state.leave key) s.handle s.object
          (rs.countP fun r => r.situation.isSevering) :=
      hsevering ▸ letGo_of_pinned hv hw.frames hidle
    rw [s.invoke_eq]
    have hattempt := haction.attempt (R := fun _ _ => True) (fun _ _ _ => trivial)
      (fun _ _ => trivial) List.suffix_rfl trivial trivial hheld
    cases ha : (s.action target result).attempt (callAt n) s.held with
    | ok outcome v => exact hleft (hattempt.ok _ _ ha).1
    | error f v => exact fun hf => hleft (hattempt.err _ _ ha hf).1

/-! ## A method that collects -/

namespace Sample

/-- A library, and a method that runs a collection and throws if one of its arguments is gone then. -/
def collectingBodies : List (Invocation → Program Unit) :=
  List.replicate 14 (fun _ => .done none) ++ [fun inv => .ask (.collect true) fun _ =>
    .observe fun s _ => if inv.args.all s.heap.isAlive then .done none else .throw ⟨"gone", ""⟩]

def collectingStart : World Unit :=
  world [⟨"G", ⟨"", "T", "Show", some ["string"]⟩, 1, 0⟩] collectingBodies

/-- A function that passes a text to that method. -/
def shows : Redirector where
  function := ⟨"T", "Show", ⟨true, true, false, false⟩,
    [⟨"Text", .string, 24, 8, 0, ⟨true, false, false, false, false⟩⟩], ⟨24, 8⟩⟩
  method := ⟨"G", ⟨"", "T", "Show", some ["string"]⟩, [⟨"Text", false, false⟩]⟩
  binding := .unbound
  depth := 0

def registering : Program Unit :=
  .ask (.redirect shows.function shows.method) fun _ =>
  .ask (.allot (.string "text")) fun _ => .done none

def textStack : ArgStack := ⟨[⟨0, false⟩], 0⟩

/-- The object that the first argument of a call is staged as, if it is alive. -/
def staged (w : World Unit) : Option Address :=
  match Redirection.linked ("T", "Show") shows (callAt 2) w with
  | .ok (.ok (l, _)) v =>
    match Redirection.load ("T", "Show") shows l textStack (callAt 2)
      { v with state := v.state.enter ("T", "Show") } with
    | .ok (params, _) u =>
      match l.args with
      | [] => none
      | a :: _ =>
        match params[a.param]? with
        | none => none
        | some param =>
          match a.marshaller.stage param.property param.place ⟨u.state.memory.next, a.scratchOffset⟩
            a.byRef (callAt 2) { u with state := (u.state.frameCell (.plain [])).2 } with
          | .ok (_, object) made => object.filter made.state.heap.isAlive
          | .error _ _ => none
    | .error _ _ => none
  | _ => none

theorem run_registering : endsIn 1 registering collectingStart (fun w =>
      w.state.redirector? ("T", "Show") == some shows &&
      staged w == some (.foreign 0) &&
      match Redirection.invoke ("T", "Show") shows none textStack none (callAt 2) w with
      | .ok (.ok (), _) v => v.state.heap.collections == 1
      | _ => false) = true := by
  decide +kernel

/-- What is staged is an object of the call. -/
theorem exists_stagedObject {w : World Unit} {object : Address} (h : staged w = some object) :
    ∃ s : Redirection.StagedObject (callAt 2) ("T", "Show") shows textStack w,
      s.object = object ∧ s.made.state.heap.isAlive s.object = true := by
  unfold staged at h
  split at h
  · rename_i l m v hlinked
    split at h
    · rename_i params rest u hload
      split at h
      · cases h
      · rename_i a as hargs
        split at h
        · cases h
        · rename_i param hparam
          split at h
          · rename_i pointer made? made hstage
            obtain ⟨rfl, halive⟩ := Option.filter_eq_some_iff.1 h
            exact ⟨⟨l, m, params, rest, u, ⟨v, hlinked, hload⟩, [], a, as, hargs, [], [], _, .nil,
              param, hparam, pointer, object, made, hstage⟩, rfl, halive⟩
          · cases h
    · cases h
  · cases h

end Sample

open Redirection in
/-- `staged_until_left` for a string that is passed to a method which runs a collection. -/
theorem staged_until_left_of_string :
    ∃ (w : World Unit) (s : StagedObject (callAt 2) ("T", "Show") Sample.shows Sample.textStack w),
      Session.Sees (fun _ _ => True) (fun _ => True) Sample.collectingStart [] w ∧
      s.object = .foreign 0 ∧ s.made.state.heap.isAlive s.object = true ∧
      (∀ v, s.Between none v → v.state.heap.isAlive s.object = true) ∧
      ∃ v rest, invoke ("T", "Show") Sample.shows none Sample.textStack none (callAt 2) w =
          .ok (.ok (), rest) v ∧
        v.state.heap.collections = 1 ∧ LetGo w.state v.state s.handle s.object 0 := by
  obtain ⟨w, a, -, hsees, hrun⟩ := Sample.sees_of_endsIn Sample.run_registering
  simp only [Bool.and_eq_true, beq_iff_eq] at hrun
  obtain ⟨⟨hshows, hstaged⟩, hinvoke⟩ := hrun
  obtain ⟨s, hobject, halive⟩ := Sample.exists_stagedObject hstaged
  have hcall : Request.Redirects (callAt 2) w (.invoke ("T", "Show") none Sample.textStack none)
      ("T", "Show") Sample.shows none Sample.textStack none w := .invoke hshows
  obtain ⟨hbetween, -, hends⟩ :=
    staged_until_left rfl (Sample.connect_world _ _) hsees hcall s halive
  refine ⟨w, s, hsees, hobject, halive, hbetween, ?_⟩
  split at hinvoke
  · rename_i rest v hv
    rw [hv] at hends
    exact ⟨v, rest, hv, beq_iff_eq.1 hinvoke, hends⟩
  · cases hinvoke

end TwinHeap
