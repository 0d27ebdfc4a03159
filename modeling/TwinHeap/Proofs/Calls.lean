import TwinHeap.Proofs.Storage

/-!
# Calls — a redirected call, stage by stage

What a call has loaded, staged and written back where it comes to its end, or to any of its stages:
one inversion a stage. The arguments of the stack, the native parameters and the foreign arguments
are counted separately; `ArgStack.argFor` and `Linkage.forParam` lead from one to the other.
-/

namespace TwinHeap

variable {σ : Type}

/-! ## Loading -/

/-- The argument that a stack supplies for the parameter at an index: each but the return value takes
the next one. -/
def ArgStack.argFor (stack : ArgStack) (ps : List Property) (i : Nat) : Option StackArg := do
  let p ← ps[i]?
  if p.isReturn then none
  else stack.args[stack.cursor + (ps.take i).countP fun p => !p.isReturn]?

namespace ArgStack

variable {stack : ArgStack} {p : Property} {ps : List Property}

theorem argFor_zero (stack : ArgStack) (ps : List Property) (hp : p.isReturn = false) :
    stack.argFor (p :: ps) 0 = stack.args[stack.cursor]? := by
  simp [argFor, hp]

/-- The return value takes no argument. -/
theorem argFor_succ_of_return (hp : p.isReturn = true) (i : Nat) :
    stack.argFor (p :: ps) (i + 1) = stack.argFor ps i := by
  simp [argFor, hp]

theorem argFor_succ (hp : p.isReturn = false) (i : Nat) :
    stack.argFor (p :: ps) (i + 1) =
      argFor { stack with cursor := stack.cursor + 1 } ps i := by
  simp [argFor, hp, Nat.add_assoc, Nat.add_comm 1]

end ArgStack

namespace Redirection

open Act

variable {call : Invoker σ} {w v : World σ}

/-- Linking changes what is noted and the redirector, and nothing else. It answers what the function was
bound to, or what resolving it finds now. -/
theorem linked_cases {key : Redirector.Key} {r : Redirector}
    {found : Except LinkError (Linkage × Nat)} (h : linked key r call w = .ok found v) :
    (∃ journal redirectors metrics, v = { w with state := { w.state with
      journal := journal
      bridge := { w.state.bridge with redirectors := redirectors, metrics := metrics } } }) ∧
    ((∃ l m, r.binding = .linked l m ∧ found = .ok (l, m)) ∨
      (∃ e, r.binding = .failed e ∧ found = .error e) ∨
      r.binding = .unbound ∧ found = r.resolve w.state.bridge.registry w.state.foreign) := by
  unfold linked at h
  cases hb : r.binding with
  | linked l m =>
    -- What is settled answers at once.
    rw [hb] at h
    cases h
    exact ⟨⟨_, _, _, rfl⟩, .inl ⟨l, m, rfl, rfl⟩⟩
  | failed e =>
    rw [hb] at h
    cases h
    exact ⟨⟨_, _, _, rfl⟩, .inr (.inl ⟨e, rfl, rfl⟩)⟩
  | unbound =>
    rw [hb] at h
    obtain ⟨_, _, hs, h⟩ := ok_of_bind h
    cases hs
    obtain ⟨_, _, hs, h⟩ := ok_of_bind h
    cases hs
    cases hres : r.resolve w.state.bridge.registry w.state.foreign with
    | ok lm =>
      rw [hres] at h
      obtain ⟨_, _, hs, h⟩ := ok_of_bind h
      cases hs
      cases h
      exact ⟨⟨_, _, _, rfl⟩, .inr (.inr ⟨rfl, rfl⟩)⟩
    | error e =>
      rw [hres] at h
      obtain ⟨_, _, hs, h⟩ := ok_of_bind h
      cases hs
      obtain ⟨_, _, hs, h⟩ := ok_of_bind h
      obtain ⟨_, _, rfl⟩ := noted_of_count hs
      cases h
      exact ⟨⟨_, _, _, rfl⟩, .inr (.inr ⟨rfl, rfl⟩)⟩

/-- Linking takes place outside of storage and of the running calls. -/
theorem apart_of_linked {key : Redirector.Key} {r : Redirector}
    {found : Except LinkError (Linkage × Nat)} (h : linked key r call w = .ok found v) :
    v.state.memory = w.state.memory ∧ v.state.bridge.frames = w.state.bridge.frames := by
  obtain ⟨⟨_, _, _, rfl⟩, -⟩ := linked_cases h
  exact ⟨rfl, rfl⟩

/-- The parameters that a call has loaded from a stack, and what it has left of it. -/
structure Loaded (ps : List Property) (stack : ArgStack) (params : List Parameter)
    (rest : ArgStack) : Prop where
  properties : params.map Parameter.property = ps
  rest : rest = { stack with cursor := stack.cursor + ps.countP fun p => !p.isReturn }
  /-- An output goes to the caller's own cell where the caller lends it. -/
  output : ∀ {i : Nat} {param : Parameter}, params[i]? = some param →
    if param.property.isReturn then param.output = param.place
    else ∃ a, stack.argFor ps i = some a ∧
      param.output = if a.byRef then .ofCell a.cell else param.place

theorem loaded_of_loadParams {block : Nat} {ps : List Property} {stack rest : ArgStack}
    {params : List Parameter} (h : loadParams block ps stack call w = .ok (params, rest) v) :
    Loaded ps stack params rest := by
  -- Each parameter but the return value takes the argument at the cursor, which moves on by one.
  induction ps generalizing stack params w with
  | nil =>
    cases h
    exact ⟨rfl, rfl, fun hi => by cases hi⟩
  | cons p ps ih =>
    unfold loadParams at h
    obtain ⟨place, u, -, h⟩ := ok_of_bind h
    cases hp : p.isReturn with
    | true =>
      rw [hp] at h
      obtain ⟨⟨params', rest'⟩, u', hrest, h⟩ := ok_of_bind h
      cases h
      obtain ⟨hprops, hrest, hout⟩ := ih hrest
      refine ⟨congrArg (p :: ·) hprops, ?_, ?_⟩
      · rw [hrest, List.countP_cons_of_neg (by simp [hp])]
      · intro i param hi
        cases i with
        | zero =>
          cases hi
          rw [if_pos hp]
        | succ i =>
          rw [ArgStack.argFor_succ_of_return hp]
          exact hout hi
    | false =>
      rw [hp] at h
      obtain ⟨⟨a, stack'⟩, u₁, hnext, h⟩ := ok_of_bind h
      obtain ⟨-, u₂, -, h⟩ := ok_of_bind h
      obtain ⟨⟨params', rest'⟩, u₃, hrest, h⟩ := ok_of_bind h
      cases h
      obtain ⟨ha, rfl⟩ := ArgStack.next_eq_ok.1 (ok_of_ofPanic hnext).1
      obtain ⟨hprops, hrest, hout⟩ := ih hrest
      refine ⟨congrArg (p :: ·) hprops, ?_, ?_⟩
      · rw [hrest, List.countP_cons_of_pos (by simp [hp])]
        simp [Nat.add_assoc, Nat.add_comm 1]
      · intro i param hi
        cases i with
        | zero =>
          cases hi
          rw [if_neg (by simp [hp]), ArgStack.argFor_zero _ _ hp]
          exact ⟨_, ha, rfl⟩
        | succ i =>
          rw [ArgStack.argFor_succ hp]
          exact hout hi

/-- A call from `w` has linked its function to a method and loaded its parameters. -/
def Loads (call : Invoker σ) (key : Redirector.Key) (r : Redirector) (stack : ArgStack)
    (w : World σ) (l : Linkage) (m : Nat) (params : List Parameter) (rest : ArgStack)
    (u : World σ) : Prop :=
  ∃ v, linked key r call w = .ok (.ok (l, m)) v ∧
    load key r l stack call { v with state := v.state.enter key } = .ok (params, rest) u

section Loads

variable {key : Redirector.Key} {r : Redirector} {target result : Option Address}
  {stack rest : ArgStack} {l : Linkage} {m : Nat} {params : List Parameter} {u : World σ}

theorem Loads.loaded (h : Loads call key r stack w l m params rest u) :
    Loaded r.function.params stack params rest := by
  obtain ⟨v, -, h⟩ := h
  unfold load at h
  obtain ⟨_, _, _, h⟩ := ok_of_bind h
  obtain ⟨_, _, _, h⟩ := ok_of_bind h
  obtain ⟨_, _, _, h⟩ := ok_of_bind h
  obtain ⟨_, _, _, h⟩ := ok_of_bind h
  obtain ⟨_, _, _, h⟩ := ok_of_bind h
  obtain ⟨_, _, _, h⟩ := ok_of_bind h
  exact loaded_of_loadParams h

/-- The stages of a call are determined by where it begins. -/
theorem Loads.unique {l' : Linkage} {m' : Nat} {params' : List Parameter} {rest' : ArgStack}
    {u' : World σ} (h : Loads call key r stack w l m params rest u)
    (h' : Loads call key r stack w l' m' params' rest' u') :
    l' = l ∧ m' = m ∧ params' = params ∧ rest' = rest ∧ u' = u := by
  obtain ⟨v, hlinked, hload⟩ := h
  obtain ⟨v', hlinked', hload'⟩ := h'
  cases hlinked.symm.trans hlinked'
  cases hload.symm.trans hload'
  exact ⟨rfl, rfl, rfl, rfl, rfl⟩

/-- What follows is up to the run, and the frame is left however it ends. -/
theorem Loads.invoke_eq (h : Loads call key r stack w l m params rest u)
    (target result : Option Address) :
    invoke key r target stack result call w =
      match (run r.function l m target params result).attempt call u with
      | .ok outcome v => .ok (outcome, rest) { v with state := v.state.leave key }
      | .error f v => .error f { v with state := v.state.leave key } := by
  obtain ⟨v, hlinked, hload⟩ := h
  rw [Redirection.invoke_eq, bind_of_ok hlinked]
  show ensuring (·.leave key) _ call { v with state := v.state.enter key } = _
  unfold ensuring
  rw [bind_of_ok hload]
  dsimp only
  cases ha : (run r.function l m target params result).attempt call u with
  | ok outcome v => rw [bind_of_ok ha]; rfl
  | error f v => rw [bind_of_error ha]

/-- A call that ends either could not be linked, and then that is all that happened, or has loaded its
parameters. -/
theorem linked_or_loads {outcome : Except BridgeError Unit}
    (h : invoke key r target stack result call w = .ok (outcome, rest) v) :
    (∃ e, linked key r call w = .ok (.error e) v ∧ outcome = .error (.link e) ∧ rest = stack) ∨
      ∃ l m params u u', Loads call key r stack w l m params rest u ∧
        (run r.function l m target params result).attempt call u = .ok outcome u' ∧
        v = { u' with state := u'.state.leave key } := by
  rw [Redirection.invoke_eq] at h
  obtain ⟨found, v₀, hlinked, h⟩ := ok_of_bind h
  cases found with
  | error e =>
    cases h
    exact .inl ⟨e, hlinked, rfl, rfl⟩
  | ok lm =>
    obtain ⟨l, m⟩ := lm
    change ensuring (·.leave key) _ call { v₀ with state := v₀.state.enter key } = _ at h
    unfold ensuring at h
    split at h
    · rename_i ha
      obtain ⟨⟨params, rest'⟩, u, hload, ha⟩ := ok_of_bind ha
      obtain ⟨outcome', u', hattempt, ha⟩ := ok_of_bind ha
      cases ha
      cases h
      exact .inr ⟨l, m, params, u, _, ⟨v₀, hlinked, hload⟩, hattempt, rfl⟩
    · cases h

theorem loads_of_invoke {outcome : Except BridgeError Unit}
    (h : invoke key r target stack result call w = .ok (outcome, rest) v) :
    (∃ e, outcome = .error (.link e)) ∨ ∃ l m params u u',
      Loads call key r stack w l m params rest u ∧
        (run r.function l m target params result).attempt call u = .ok outcome u' ∧
        v = { u' with state := u'.state.leave key } :=
  (linked_or_loads h).imp_left fun ⟨e, _, he, _⟩ => ⟨e, he⟩

end Loads

/-- The same happens where calls may nest deeper. -/
theorem Loads.deeper {call' : Invoker σ} {key : Redirector.Key} {r : Redirector}
    {stack rest : ArgStack} {l : Linkage} {m : Nat} {params : List Parameter} {u : World σ}
    (h : Loads call key r stack w l m params rest u) (hr : w.state.redirector? key = some r)
    (hc : call'.Grows) (ho : call.Until .exhausted call') :
    Loads call' key r stack w l m params rest u := by
  obtain ⟨v, hlinked, hload⟩ := h
  have hlinks : (linked key r : Act σ _).Moves (.free call' hc) .plain [] [] [] [] w _ :=
    linked_moves hr
  have hloads : (load key r l stack : Act σ _).Moves (.free call' hc) .plain [.frame key] [] [] []
      { v with state := v.state.enter key } _ := load_moves r l stack
  have hfatal := Failure.isFatal_exhausted
  exact ⟨v, (hlinks List.nil_suffix trivial trivial trivial).strict.ok hfatal ho hlinked,
    (hloads List.nil_suffix trivial trivial trivial).strict.ok hfatal ho hload⟩

/-- A call that has loaded its parameters keeps the law, with a frame of its own. -/
theorem Loads.holds {L : Law σ} {o : List Owed} {key : Redirector.Key} {r : Redirector}
    {stack rest : ArgStack} {l : Linkage} {m : Nat} {params : List Parameter} {u : World σ}
    (h : Loads L.call key r stack w l m params rest u) (hr : w.state.redirector? key = some r)
    (target result : Option Address)
    (hrun : L.course.Runs (invoke key r target stack result : Act σ _) w)
    (hb : L.base <:+ o) (hready : L.ready o) (ho : L.holds o w) :
    L.holds (.frame key :: o) u ∧ (∀ param ∈ params, L.mayWrite param.place) ∧
      ∃ r', u.state.redirector? key = some r' ∧ r'.binding = .linked l m := by
  obtain ⟨v, hlinked, hload⟩ := h
  have hlinks : (linked key r : Act σ _).Moves L .plain o [] [] [] w _ := linked_moves hr
  rw [Redirection.invoke_eq] at hrun
  have hlinks := hlinks hb hready (L.course.closed hrun (.first .here)) ho
  obtain ⟨hv, -, hbinding⟩ := hlinks.ok _ _ hlinked
  obtain ⟨r', hr', hl'⟩ := hbinding l m rfl
  have henter := L.change hv (.enter key ⟨r', l, m, hr', hl'⟩)
  have hb' : L.base <:+ .frame key :: o := hb.trans (List.suffix_cons _ _)
  have hcall := L.course.closed hrun (.next .here hlinks.strict hlinked)
  have hcall : L.course.Runs (edit (·.enter key) >>= fun _ => ensuring (·.leave key)
      (load key r l stack >>= fun loaded => attempt (run r.function l m target loaded.1 result) >>=
        fun outcome => pure (outcome, loaded.2)) : Act σ _) v := hcall
  have hframed := L.course.closed hcall
    (.next (a := ()) (u := { v with state := v.state.enter key }) .here (.of_const fun _ => rfl) rfl)
  have hload' := L.course.closed hframed (.first (.ensuring .here))
  obtain ⟨hu, hg, hparams⟩ :=
    (load_moves r l stack hb' (L.ready_cons rfl hready) hload' henter).ok _ _ hload
  refine ⟨hu, fun param hparam => (hparams param hparam).1, ?_⟩
  exact ((v.state.grows_enter key).trans hg).linked key r' l m hr' hl'

/-! ## Staging -/

/-- The world in which the object that an argument was staged as, if there is one, is held. -/
def rooted (made : Option Address) (w : World σ) : World σ :=
  match made with
  | some object => { w with state := w.state.root object }
  | none => w

/-- The arguments of a call are staged one after the other. -/
inductive Stages (call : Invoker σ) (params : List Parameter) (scratch : Nat) :
    List LinkedArg → World σ → List Address → List StagedArg → World σ → Prop
  | nil {w : World σ} : Stages call params scratch [] w [] [] w
  | skip {a : LinkedArg} {as : List LinkedArg} {w v : World σ} {pointers : List Address}
      {staged : List StagedArg} (hparam : params[a.param]? = none)
      (hrest : Stages call params scratch as w pointers staged v) :
      Stages call params scratch (a :: as) w pointers staged v
  | cons {a : LinkedArg} {as : List LinkedArg} {w u v : World σ} {param : Parameter}
      {pointer : Address} {made : Option Address} {pointers : List Address}
      {staged : List StagedArg} (hparam : params[a.param]? = some param)
      (hstage : a.marshaller.stage param.property param.place ⟨scratch, a.scratchOffset⟩ a.byRef
        call w = .ok (pointer, made) u)
      (hrest : Stages call params scratch as (rooted made u) pointers staged v) :
      Stages call params scratch (a :: as) w (pointer :: pointers)
        (⟨a, ⟨scratch, a.scratchOffset⟩⟩ :: staged) v

theorem stages_of_stageArgs {params : List Parameter} {scratch : Nat} {args : List LinkedArg}
    {pointers : List Address} {staged : List StagedArg}
    (h : stageArgs params scratch args call w = .ok (pointers, staged) v) :
    Stages call params scratch args w pointers staged v := by
  induction args generalizing w pointers staged with
  | nil =>
    cases h
    exact .nil
  | cons a as ih =>
    unfold stageArgs at h
    cases hparam : params[a.param]? with
    | none =>
      rw [hparam] at h
      exact .skip hparam (ih h)
    | some param =>
      rw [hparam] at h
      obtain ⟨⟨pointer, made⟩, u, hstage, h⟩ := ok_of_bind h
      have hrest : (stageArgs params scratch as >>= fun rest : List Address × List StagedArg =>
          pure (pointer :: rest.1, ⟨a, ⟨scratch, a.scratchOffset⟩⟩ :: rest.2)) call
            (rooted made u) = .ok (pointers, staged) v := by
        cases made <;> exact h
      obtain ⟨⟨pointers', staged'⟩, u', hrest, h⟩ := ok_of_bind hrest
      cases h
      exact .cons hparam hstage (ih hrest)

namespace Stages

variable {params : List Parameter} {scratch : Nat} {args : List LinkedArg}
  {pointers : List Address} {staged : List StagedArg}

theorem length (h : Stages call params scratch args w pointers staged v) :
    pointers.length = staged.length := by
  induction h with
  | nil => rfl
  | skip _ _ ih => exact ih
  | cons _ _ _ ih => exact congrArg (· + 1) ih

/-- Every argument that is bound to a parameter of the call is staged. -/
theorem staged_eq (h : Stages call params scratch args w pointers staged v) :
    staged = (args.filter fun a => params[a.param]?.isSome).map
      fun a => ⟨a, ⟨scratch, a.scratchOffset⟩⟩ := by
  induction h with
  | nil => rfl
  | skip hparam _ ih => rw [ih, List.filter_cons_of_neg (by simp [hparam])]
  | cons hparam _ _ ih => rw [ih, List.filter_cons_of_pos (by simp [hparam])]; rfl

/-- The argument that is bound to a parameter is staged in its own region. -/
theorem find?_eq (h : Stages call params scratch args w pointers staged v) {i : Nat}
    (hi : i < params.length) :
    (staged.find? fun t => t.arg.param == i) =
      (args.find? fun a => a.param == i).map fun a => ⟨a, ⟨scratch, a.scratchOffset⟩⟩ := by
  rw [h.staged_eq, List.find?_map, List.find?_filter]
  congr 2
  funext a
  by_cases ha : a.param = i
  · simp [ha, hi]
  · simp [ha]

end Stages

/-- The arguments of a call are staged, and its receiver is found. -/
theorem stages_of_prepare {function : Function} {l : Linkage} {target receiver : Option Address}
    {params : List Parameter} {pointers : List Address} {staged : List StagedArg}
    (h : prepare function l target params call w = .ok (pointers, staged, receiver) v) :
    ∃ u, Stages call params w.state.memory.next l.args
        { w with state := (w.state.frameCell (.plain [])).2 } pointers staged u ∧
      receiverOf function target call u = .ok receiver v := by
  unfold prepare at h
  obtain ⟨_, _, hcell, h⟩ := ok_of_bind h
  cases hcell
  obtain ⟨⟨pointers', staged'⟩, u, hstage, h⟩ := ok_of_bind h
  obtain ⟨receiver', u', hreceiver, h⟩ := ok_of_bind h
  cases h
  exact ⟨u, stages_of_stageArgs hstage, hreceiver⟩

/-! ## Writing back -/

/-- The output of one parameter is written back. -/
def writeBackOne (staged : List StagedArg) (i : Nat) (param : Parameter) : Act σ Unit :=
  match staged.find? fun t => t.arg.param == i with
  | some t =>
    if t.arg.byRef then do
      let foreign := (← state).addressAt t.slot.pointer
      t.arg.marshaller.toHost param.property param.output foreign
    else pure ()
  | none => pure ()

theorem writeBack_cons (staged : List StagedArg) (i : Nat) (param : Parameter)
    (params : List Parameter) :
    (writeBack staged i (param :: params) : Act σ Unit) =
      writeBackOne staged i param >>= fun _ => writeBack staged (i + 1) params := by
  unfold writeBackOne
  rw [writeBack]
  cases staged.find? fun t => t.arg.param == i with
  | none => rfl
  | some t => cases hby : t.arg.byRef <;> simp only [hby] <;> rfl

/-- Where writing back fails, the parameters before the one it fails at were written back. -/
theorem writeBack_failed {staged : List StagedArg} {i : Nat} {params : List Parameter}
    {f : Failure} (h : writeBack staged i params call w = .error f v) :
    ∃ j param u, params[j]? = some param ∧
      writeBack staged i (params.take j) call w = .ok () u ∧
      writeBackOne staged (i + j) param call u = .error f v := by
  induction params generalizing i w with
  | nil => cases h
  | cons param params ih =>
    rw [writeBack_cons] at h
    obtain h | ⟨_, u, hone, h⟩ := error_of_bind h
    · exact ⟨0, param, w, rfl, rfl, h⟩
    · obtain ⟨j, param', u', hj, hback, hfail⟩ := ih h
      refine ⟨j + 1, param', u', hj, ?_, Nat.add_right_comm i 1 j ▸ hfail⟩
      rw [List.take_succ_cons, writeBack_cons, bind_of_ok hone]
      exact hback

end Redirection

end TwinHeap
