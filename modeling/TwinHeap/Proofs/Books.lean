import TwinHeap.Proofs.Spots
import TwinHeap.Proofs.Tables

/-!
# Books — what is on record of linking and of redirected calls

The books of a bridge are its counts of calls and of failures to link, the events that tell of them,
and the bindings of its redirectors. `Books.Step` lists all that is ever entered in them. An operation
keeps a property of the books (`Act.Keeps`) if foreign code does and the entries that the operation
makes itself do, so a property that every entry keeps lasts for a whole session
(`Lasting.along`).
-/

namespace TwinHeap

variable {σ α β : Type}

namespace Log.Event

/-- A redirected call begins. -/
def isCall : Event → Bool
  | redirectCall _ _ => true
  | _ => false

/-- A function or a class could not be linked. -/
def isRefusal : Event → Bool
  | linkFailure _ _ => true
  | _ => false

end Log.Event

/-- What is on record of linking and of redirected calls. -/
structure Books where
  calls : Nat
  failures : Nat
  /-- How many timings of linking the window holds. -/
  timings : Nat
  /-- How often the journal says that a redirected call begins. -/
  entered : Nat
  /-- How often the journal says that something could not be linked. -/
  refused : Nat
  bindings : Table Redirector.Key Binding

/-- One more, unless a 64-bit count is full. -/
def bump (n : Nat) : Nat := if n + 1 < wordModulus then n + 1 else n

namespace Books

def refuse (b : Books) : Books :=
  { b with failures := bump b.failures, refused := b.refused + 1 }

def enter (b : Books) : Books := { b with calls := bump b.calls, entered := b.entered + 1 }

def time (b : Books) : Books :=
  { b with timings := if b.timings = windowSize then windowSize else b.timings + 1 }

def settle (b : Books) (key : Redirector.Key) (binding : Binding) : Books :=
  { b with bindings := b.bindings.modify key fun _ => binding }

/-- What is entered in the books. -/
inductive Step : Books → Books → Prop
  /-- A class has no proxy class, or linking has failed where that cannot be counted. -/
  | refuse {b : Books} : Step b b.refuse
  | register {b : Books} {key : Redirector.Key} (h : b.bindings.get? key = none) :
      Step b { b with bindings := b.bindings.insert key .unbound }
  | link {b : Books} {key : Redirector.Key} (h : b.bindings.get? key = some .unbound)
      (l : Linkage) (m : Nat) : Step b (b.time.settle key (.linked l m))
  | fail {b : Books} {key : Redirector.Key} (h : b.bindings.get? key = some .unbound)
      (e : LinkError) : Step b (b.time.refuse.settle key (.failed e))
  /-- Linking has failed, but the count of failures is full. -/
  | overflow {b : Books} {key : Redirector.Key} (h : b.bindings.get? key = some .unbound)
      (hfull : wordModulus ≤ b.failures + 1) : Step b b.time.refuse
  | enter {b : Books} : Step b b.enter

/-- A property that every entry keeps, whatever foreign code remembers. -/
def Lasts (P : Books → σ → Prop) : Prop := ∀ b b' m, P b m → b.Step b' → P b' m

end Books

namespace State

def books (s : State) : Books where
  calls := s.bridge.metrics.counter Counter.calls
  failures := s.bridge.metrics.counter Counter.linkFailures
  timings := s.bridge.metrics.sampleCount Counter.linkTime
  entered := s.journal.countP Log.Event.isCall
  refused := s.journal.countP Log.Event.isRefusal
  bindings := s.bridge.redirectors.mapValues fun _ r => r.binding

/-! ## Changes that are not entered in the books -/

/-- A change that leaves the journal, the metrics and the redirectors alone. -/
theorem books_of_bridge {s s' : State} (hm : s'.bridge.metrics = s.bridge.metrics)
    (hr : s'.bridge.redirectors = s.bridge.redirectors) (hj : s'.journal = s.journal) :
    s'.books = s.books := by
  unfold books
  rw [hm, hr, hj]

theorem books_writeAt (s : State) (a : Address) (os : List Octet) :
    (s.writeAt a os).books = s.books := by
  cases a <;> exact books_of_bridge rfl rfl rfl

theorem books_storeAt (s : State) (a : Address) (v : Value) : (s.storeAt a v).books = s.books := by
  cases a <;> exact books_of_bridge rfl rfl rfl

theorem books_dropEntry (s : State) (host : Address) : (s.dropEntry host).books = s.books := by
  unfold dropEntry
  split <;> exact books_of_bridge rfl rfl rfl

theorem books_instantiate (s : State) (type : Nat) : (s.instantiate type).2.books = s.books := by
  unfold instantiate
  split <;> exact books_of_bridge rfl rfl rfl

theorem books_root (s : State) (a : Address) : (s.root a).books = s.books := by
  unfold root
  split <;> exact books_of_bridge rfl rfl rfl

theorem books_frameCell (s : State) (v : Value) : (s.frameCell v).2.books = s.books :=
  books_of_bridge rfl rfl rfl

/-- What a redirector is bound to does not depend on how many of its calls are running. -/
theorem mapValues_modifyRedirector (s : State) (key : Redirector.Key) {f : Redirector → Redirector}
    (hf : ∀ r, (f r).binding = r.binding) :
    ((s.modifyRedirector key f).bridge.redirectors.mapValues fun _ r => r.binding) =
      s.bridge.redirectors.mapValues fun _ r => r.binding := by
  unfold modifyRedirector Table.modify Table.mapValues
  rw [List.map_map]
  congr 2
  funext e
  simp only [Function.comp]
  split
  · rw [hf]
  · rfl

theorem books_enter (s : State) (key : Redirector.Key) : (s.enter key).books = s.books := by
  unfold books
  rw [show (s.enter key).bridge.redirectors.mapValues _ = _ from
    s.mapValues_modifyRedirector key (f := fun r => { r with depth := r.depth + 1 }) fun _ => rfl]
  rfl

theorem books_leave (s : State) (key : Redirector.Key) : (s.leave key).books = s.books := by
  have hleft : (s.modifyRedirector key fun r => { r with depth := r.depth - 1 }).books =
      s.books := by
    unfold books
    rw [s.mapValues_modifyRedirector key (f := fun r => { r with depth := r.depth - 1 }) fun _ => rfl]
    rfl
  rw [← hleft]
  unfold leave
  dsimp only
  split
  · rfl
  · exact books_of_bridge rfl rfl rfl

/-- An event that does not tell of linking or of a call. -/
theorem books_report (s : State) {e : Log.Event} (hcall : e.isCall = false)
    (hrefusal : e.isRefusal = false) : (s.report e).books = s.books := by
  unfold books report
  rw [List.countP_cons_of_neg (by rw [hcall]; decide), List.countP_cons_of_neg (by rw [hrefusal]; decide)]

end State

/-- What the host or foreign code does by itself. -/
theorem Request.Outcome.books {r : Request} {s s' : State} (h : r.Outcome s s')
    (hr : ∀ function method, r ≠ .redirect function method) : s'.books = s.books := by
  cases h with
  | setRooted => rfl
  | redirect => exact absurd rfl (hr _ _)
  | _ => exact State.books_of_bridge rfl rfl rfl

namespace Metrics

variable {m m' : Metrics} {name other : String} {n : Nat}

/-- A sum that does not fit is not counted. -/
theorem add_eq (m : Metrics) (name : String) (n : Nat) : m.add name n =
    if m.counter name + n < wordModulus then
      .ok { m with counters := m.counters.insert name (m.counter name + n) }
    else .error .addition := by
  unfold add checkedAdd
  split <;> rfl

theorem fits_of_add (h : m.add name n = .ok m') : m.counter name + n < wordModulus := by
  rw [add_eq] at h
  split at h
  · assumption
  · cases h

theorem full_of_add {o : Overflow} (h : m.add name n = .error o) :
    wordModulus ≤ m.counter name + n := by
  rw [add_eq] at h
  split at h
  · cases h
  · omega

theorem counter_add (h : m.add name n = .ok m') :
    m'.counter other = if name = other then m.counter name + n else m.counter other := by
  rw [add_eq] at h
  split at h
  · cases h
    unfold counter
    rw [Table.get?_insert]
    split <;> rfl
  · cases h

theorem sampleCount_add (h : m.add name n = .ok m') : m'.sampleCount other = m.sampleCount other := by
  rw [add_eq] at h
  split at h
  · cases h
    rfl
  · cases h

theorem sampleCount_record (m : Metrics) (name other : String) (d : Duration) :
    (m.record name d).sampleCount other =
      if name = other then
        if m.sampleCount name = windowSize then windowSize else m.sampleCount name + 1
      else m.sampleCount other := by
  unfold record sampleCount
  rw [Table.get?_insert]
  by_cases hname : name = other
  · rw [if_pos hname, if_pos hname]
    unfold push
    split
    · rename_i hfull
      rw [Option.getD_some, List.length_append, List.length_drop, hfull]
      rfl
    · rw [Option.getD_some, List.length_append]
      rfl
  · rw [if_neg hname, if_neg hname]

end Metrics

namespace State

def withMetrics (s : State) (metrics : Metrics) : State :=
  { s with bridge := { s.bridge with metrics := metrics } }

/-- A failure that is reported and counted. -/
theorem books_refuse_of_ok {s : State} {name message : String} {metrics : Metrics}
    (h : s.bridge.metrics.add Counter.linkFailures 1 = .ok metrics) :
    ((s.report (.linkFailure name message)).withMetrics metrics).books = s.books.refuse := by
  unfold books Books.refuse withMetrics report bump
  dsimp only
  rw [Metrics.counter_add h, Metrics.counter_add h, Metrics.sampleCount_add h, if_neg (by decide),
    if_pos rfl, if_pos (Metrics.fits_of_add h),
    List.countP_cons_of_neg (by simp [Log.Event.isCall]), List.countP_cons_of_pos rfl]

/-- A failure that is reported, but cannot be counted. -/
theorem books_refuse_of_error {s : State} {name message : String} {o : Overflow}
    (h : s.bridge.metrics.add Counter.linkFailures 1 = .error o) :
    (s.report (.linkFailure name message)).books = s.books.refuse := by
  unfold books Books.refuse report bump
  dsimp only
  rw [if_neg (Nat.not_lt.2 (Metrics.full_of_add h)),
    List.countP_cons_of_neg (by simp [Log.Event.isCall]), List.countP_cons_of_pos rfl]

/-- A call that is reported and counted. -/
theorem books_enter_of_ok {s : State} {name : String} {depth : Nat} {metrics : Metrics}
    (h : s.bridge.metrics.add Counter.calls 1 = .ok metrics) :
    ((s.report (.redirectCall name depth)).withMetrics metrics).books = s.books.enter := by
  unfold books Books.enter withMetrics report bump
  dsimp only
  rw [Metrics.counter_add h, Metrics.counter_add h, Metrics.sampleCount_add h, if_pos rfl,
    if_neg (by decide), if_pos (Metrics.fits_of_add h), List.countP_cons_of_pos rfl,
    List.countP_cons_of_neg (by simp [Log.Event.isRefusal])]

/-- A call that is reported, but cannot be counted. -/
theorem books_enter_of_error {s : State} {name : String} {depth : Nat} {o : Overflow}
    (h : s.bridge.metrics.add Counter.calls 1 = .error o) :
    (s.report (.redirectCall name depth)).books = s.books.enter := by
  unfold books Books.enter report bump
  dsimp only
  rw [if_neg (Nat.not_lt.2 (Metrics.full_of_add h)), List.countP_cons_of_pos rfl,
    List.countP_cons_of_neg (by simp [Log.Event.isRefusal])]

end State

/-! ## What is entered in the books -/

namespace State

/-- The state after an attempt to link was timed. -/
def timed (s : State) : State := s.withMetrics (s.bridge.metrics.record Counter.linkTime 0)

/-- The state with a redirector bound for good. -/
def settle (s : State) (key : Redirector.Key) (b : Binding) : State :=
  s.modifyRedirector key fun r => { r with binding := b }

theorem books_timed (s : State) : s.timed.books = s.books.time := by
  unfold books timed withMetrics Books.time
  dsimp only
  rw [Metrics.sampleCount_record, if_pos rfl]
  rfl

theorem books_settle (s : State) (key : Redirector.Key) (b : Binding) :
    (s.settle key b).books = s.books.settle key b := by
  unfold books settle modifyRedirector Books.settle
  congr 1
  unfold Table.modify Table.mapValues
  simp only [List.map_map]
  congr 2
  funext e
  simp only [Function.comp]
  split <;> rfl

/-- What is on record of a function that is registered. -/
theorem get?_books {s : State} {key : Redirector.Key} {r : Redirector}
    (h : s.redirector? key = some r) : s.books.bindings.get? key = some r.binding := by
  unfold books
  rw [Table.get?_mapValues, show s.bridge.redirectors.get? key = some r from h]
  rfl

theorem books_redirect (s : State) (function : Function) (method : ForeignMethod) :
    (s.redirect function method).2.books = s.books ∨
      s.books.bindings.get? (Redirector.key function) = none ∧
      (s.redirect function method).2.books = { s.books with
        bindings := s.books.bindings.insert (Redirector.key function) .unbound } := by
  unfold redirect
  dsimp only
  split
  · exact .inl rfl
  · rename_i hnone
    refine .inr ⟨?_, ?_⟩
    · unfold books
      rw [Table.get?_mapValues, show s.bridge.redirectors.get? _ = none from hnone]
      rfl
    · unfold books
      congr 1
      exact Table.mapValues_insert _ _ _ _

end State

/-! ## Rules -/

/-- The books, and what foreign code remembers, are as `P` says. -/
def World.Records (w : World σ) (P : Books → σ → Prop) : Prop := P w.state.books w.memory

/-- Foreign code keeps the property, unless the run is given up. -/
def Invoker.Keeps (call : Invoker σ) (P : Books → σ → Prop) : Prop :=
  ∀ m inv w, w.Records P →
    Ends (call m inv w) (fun _ v => v.Records P) fun f v => f ≠ .exhausted → v.Records P

namespace Act

section

variable {call : Invoker σ} {w : World σ} {name : String} {n : Nat}

theorem count_of_ok {metrics : Metrics} (h : w.state.bridge.metrics.add name n = .ok metrics) :
    (Act.count name n : Act σ Unit) call w = .ok () { w with state := w.state.withMetrics metrics } := by
  unfold count
  rw [state_bind, h]
  rfl

theorem count_of_error {o : Overflow} (h : w.state.bridge.metrics.add name n = .error o) :
    (Act.count name n : Act σ Unit) call w = .error (.panic (.overflow o)) w := by
  unfold count
  rw [state_bind, h]
  rfl

variable {act : Act σ α} {v : World σ} {C : Calls σ} {Q : α → World σ → Prop}
  {E : Failure → World σ → Prop}

theorem Meets.state_bind {f : State → Act σ α} (h : (f w.state).Meets call w C Q E) :
    (Act.state >>= f).Meets call w C Q E :=
  ⟨h.only, h.strict, h.ok, h.err⟩

/-- An action that answers without calling foreign code. -/
theorem Meets.of_ok {a : α} (h : ∀ call, act call w = .ok a v) (hQ : Q a v) :
    act.Meets call w C Q E where
  only := .of_const fun call' => (h call').trans (h call).symm
  strict := .of_const fun call' => (h call').trans (h call).symm
  ok a' v' ha := by
    cases (h call).symm.trans ha
    exact hQ
  err f v' hf := by cases (h call).symm.trans hf

/-- An action that fails without calling foreign code. -/
theorem Meets.of_error {f : Failure} (h : ∀ call, act call w = .error f v) (hE : E f v) :
    act.Meets call w C Q E where
  only := .of_const fun call' => (h call').trans (h call).symm
  strict := .of_const fun call' => (h call').trans (h call).symm
  ok a v' ha := by cases (h call).symm.trans ha
  err f' v' hf := by
    cases (h call).symm.trans hf
    exact hE

end

/-- What is on record is as `P` says wherever the action calls foreign code, and when it ends. -/
def Yields (act : Act σ α) (P : Books → σ → Prop) (call : Invoker σ) (w : World σ) : Prop :=
  act.Meets call w (fun _ _ v => v.Records P) (fun _ v => v.Records P)
    fun f v => f ≠ .exhausted → v.Records P

/-- From `w` the action keeps the property. -/
def KeepsAt (act : Act σ α) (P : Books → σ → Prop) (call : Invoker σ) (w : World σ) : Prop :=
  w.Records P → act.Yields P call w

def Keeps (act : Act σ α) (P : Books → σ → Prop) (call : Invoker σ) : Prop :=
  ∀ w, act.KeepsAt P call w

namespace KeepsAt

variable {act : Act σ α} {P : Books → σ → Prop} {call : Invoker σ} {w : World σ}

theorem bind {f : α → Act σ β} (h : act.KeepsAt P call w) (hf : ∀ a, (f a).Keeps P call) :
    (act >>= f).KeepsAt P call w :=
  fun hw => Meets.bind (h hw) fun a v _ hv => hf a v hv

theorem edit_bind {f : State → State} {g : Unit → Act σ β} (hf : (f w.state).books = w.state.books)
    (hg : (g ()).KeepsAt P call { w with state := f w.state }) :
    (Act.edit f >>= g).KeepsAt P call w := by
  intro hw
  have hw' : ({ w with state := f w.state } : World σ).Records P := by
    show P (f w.state).books w.memory
    rw [hf]
    exact hw
  exact Meets.bind (.edit (Q := fun _ v => v = { w with state := f w.state }) rfl)
    fun _ v _ hv => hv ▸ hg hw'

theorem ofPanic_bind {x : Except Panic α} {f : α → Act σ β}
    (hf : ∀ a, x = .ok a → (f a).KeepsAt P call w) : (Act.ofPanic x >>= f).KeepsAt P call w := by
  intro hw
  cases x with
  | error p => exact Meets.bind (Q := fun _ _ => False) (.abandon fun _ => hw) (by rintro _ _ - ⟨⟩)
  | ok a =>
    refine Meets.bind (Q := fun b v => b = a ∧ v = w) (.pure ⟨rfl, rfl⟩) ?_
    rintro _ _ - ⟨rfl, rfl⟩
    exact hf _ rfl hw

end KeepsAt

namespace Keeps

variable {act : Act σ α} {P : Books → σ → Prop} {call : Invoker σ}

theorem pure (a : α) : (Pure.pure a : Act σ α).Keeps P call := fun _ hw => Meets.pure hw

theorem editGet {f : State → α × State} (hf : ∀ s, (f s).2.books = s.books) :
    (Act.editGet f : Act σ α).Keeps P call := by
  intro w hw
  refine Meets.editGet ?_
  show P (f w.state).2.books w.memory
  rw [hf]
  exact hw

theorem edit {f : State → State} (hf : ∀ s, (f s).books = s.books) :
    (Act.edit f : Act σ Unit).Keeps P call := by
  intro w hw
  refine Meets.edit ?_
  show P (f w.state).books w.memory
  rw [hf]
  exact hw

theorem state_bind {f : State → Act σ β} (hf : ∀ w : World σ, (f w.state).KeepsAt P call w) :
    (Act.state >>= f).Keeps P call :=
  fun w hw => Meets.state_bind (hf w hw)

theorem fail (e : BridgeError) : (Act.fail e : Act σ α).Keeps P call :=
  fun _ hw => Meets.fail fun _ => hw

theorem abandon (p : Panic) : (Act.abandon p : Act σ α).Keeps P call :=
  fun _ hw => Meets.abandon fun _ => hw

theorem ofPanic (x : Except Panic α) : (Act.ofPanic x : Act σ α).Keeps P call := by
  cases x with
  | ok a => exact .pure a
  | error p => exact .abandon p

theorem ofLink (x : Except LinkError α) : (Act.ofLink x : Act σ α).Keeps P call := by
  cases x with
  | ok a => exact .pure a
  | error e => exact .fail _

theorem ofForeign (x : Except ForeignException α) : (Act.ofForeign x : Act σ α).Keeps P call := by
  cases x with
  | ok a => exact .pure a
  | error e => exact .fail _

theorem bind {f : α → Act σ β} (h : act.Keeps P call) (hf : ∀ a, (f a).Keeps P call) :
    (act >>= f).Keeps P call :=
  fun w => (h w).bind hf

theorem seq {f : Act σ β} (h : act.Keeps P call) (hf : f.Keeps P call) :
    (act >>= fun _ => f).Keeps P call :=
  h.bind fun _ => hf

theorem discard (h : act.Keeps P call) : (Functor.discard act).Keeps P call := by
  have hmap : (Functor.discard act : Act σ _) = act >>= fun _ => Pure.pure () := by rfl
  exact hmap ▸ h.bind fun _ => .pure _

theorem map (h : act.Keeps P call) (f : α → β) : (f <$> act).Keeps P call := by
  have hmap : f <$> act = act >>= fun a => Pure.pure (f a) := by rfl
  exact hmap ▸ h.bind fun _ => .pure _

theorem attempt (h : act.Keeps P call) : act.attempt.Keeps P call :=
  fun w hw => Meets.attempt (Meets.mono (h w hw) (fun _ _ _ hv => hv) (fun _ _ hv => hv)
    fun _ _ hv => ⟨fun _ he => hv (by rintro rfl; cases he), fun _ => hv⟩)

theorem ensuring {cleanup : State → State} (hcleanup : ∀ s, (cleanup s).books = s.books)
    (h : act.Keeps P call) : (Act.ensuring cleanup act).Keeps P call := by
  have hclean (v : World σ) (hv : v.Records P) :
      ({ v with state := cleanup v.state } : World σ).Records P := by
    show P (cleanup v.state).books v.memory
    rw [hcleanup]
    exact hv
  exact fun w hw => Meets.ensuring (Meets.mono (h w hw) (fun _ _ _ hv => hv)
    (fun _ v hv => hclean v hv) fun _ v hv hf => hclean v (hv hf))

theorem callMethod (hc : call.Keeps P) (m : Nat) (receiver : Option Address) (args : List Address) :
    (Act.callMethod m receiver args : Act σ _).Keeps P call := by
  intro w hw
  obtain ⟨hok, herr⟩ := ends_iff.1 (hc m ⟨receiver, args⟩ w hw)
  exact Meets.callMethod hw hok herr

theorem report {e : Log.Event} (hcall : e.isCall = false) (hrefusal : e.isRefusal = false) :
    (Act.report e : Act σ Unit).Keeps P call :=
  .edit fun s => s.books_report hcall hrefusal

/-- What the books do not mention is counted. -/
theorem count {name : String} (hcalls : name ≠ Counter.calls)
    (hfailures : name ≠ Counter.linkFailures) (n : Nat) :
    (Act.count name n : Act σ Unit).Keeps P call := by
  intro w hw
  cases hadd : w.state.bridge.metrics.add name n with
  | error o => exact Meets.of_error (fun _ => count_of_error hadd) fun _ => hw
  | ok metrics =>
    refine Meets.of_ok (fun _ => count_of_ok hadd) ?_
    have hsame : (w.state.withMetrics metrics).books = w.state.books := by
      unfold State.books State.withMetrics
      dsimp only
      rw [Metrics.counter_add hadd, Metrics.counter_add hadd, Metrics.sampleCount_add hadd,
        if_neg hcalls, if_neg hfailures]
    show P (w.state.withMetrics metrics).books w.memory
    rw [hsame]
    exact hw

theorem recordTiming {name : String} (hname : name ≠ Counter.linkTime) :
    (Act.recordTiming name : Act σ Unit).Keeps P call := by
  refine .edit fun s => ?_
  unfold State.books
  dsimp only
  rw [Metrics.sampleCount_record, if_neg hname]
  rfl

theorem withCell {v : Value} {f : Address → Act σ α} (hf : ∀ a, (f a).Keeps P call) :
    (Act.withCell v f).Keeps P call :=
  .bind (.editGet fun _ => State.books_of_bridge rfl rfl rfl) fun _ =>
    .ensuring (fun _ => State.books_of_bridge rfl rfl rfl) (hf _)

/-- Something is reported and counted, and both are on record as `after` says. -/
theorem reportCount_yields {e : Log.Event} {name : String} {after : Books → Books}
    (hok : ∀ (s : State) metrics, s.bridge.metrics.add name 1 = .ok metrics →
      ((s.report e).withMetrics metrics).books = after s.books)
    (herr : ∀ (s : State) o, s.bridge.metrics.add name 1 = .error o →
      (s.report e).books = after s.books) {f : Unit → Act σ β} (hf : (f ()).Keeps P call)
    {w : World σ} (hw : P (after w.state.books) w.memory) :
    (Act.report e >>= fun _ => Act.count name 1 >>= f).Yields P call w := by
  refine Meets.bind (.edit (Q := fun _ v => v = { w with state := w.state.report e }) rfl) ?_
  rintro _ _ - rfl
  refine .bind (Q := fun _ v => v.Records P) ?_ fun _ v _ hv => hf v hv
  cases hadd : w.state.bridge.metrics.add name 1 with
  | ok metrics =>
    refine .of_ok (fun _ => count_of_ok hadd) ?_
    show P ((w.state.report _).withMetrics metrics).books w.memory
    rw [hok _ _ hadd]
    exact hw
  | error o =>
    refine .of_error (fun _ => count_of_error hadd) fun _ => ?_
    show P (w.state.report _).books w.memory
    rw [herr _ _ hadd]
    exact hw

/-- A failure to link is reported and counted. -/
theorem refuse (hrefuse : ∀ b m, P b m → P b.refuse m) {name message : String}
    {f : Unit → Act σ β} (hf : (f ()).Keeps P call) :
    (Act.report (.linkFailure name message) >>= fun _ =>
      Act.count Counter.linkFailures 1 >>= f).Keeps P call :=
  fun _ hw => reportCount_yields (fun _ _ => State.books_refuse_of_ok)
    (fun _ _ => State.books_refuse_of_error) hf (hrefuse _ _ hw)

theorem callForeign (hc : call.Keeps P) (m : Nat) (receiver : Option Address) (args : List Address) :
    (Act.callMethod m receiver args >>= Act.ofForeign : Act σ _).Keeps P call :=
  .bind (.callMethod hc m receiver args) .ofForeign

/-- A call whose answer does not matter, unless it is an exception. -/
theorem callDiscard (hc : call.Keeps P) (m : Nat) (receiver : Option Address) (args : List Address) :
    (Act.callMethod m receiver args >>= fun a =>
      Functor.discard (Act.ofForeign a) : Act σ Unit).Keeps P call :=
  .bind (.callMethod hc m receiver args) fun a => (Keeps.ofForeign a).discard

end Keeps

end Act

end TwinHeap
