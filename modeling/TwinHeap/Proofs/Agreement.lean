import TwinHeap.Proofs.Echo
import TwinHeap.Proofs.Offences

/-!
# Agreement — what becomes of the value that a method returns

Linking checks the return values that the method declares. A function that returns something can be
linked to a method that declares nothing, and what that method returns is dropped. So the result of a
call that succeeds shows what was returned if the method has declared it (`Redirection.Shown`), and is
left as it was if not.
-/

namespace TwinHeap

variable {σ : Type}

/-! ## What a delivery leaves behind -/

namespace Delivery

/-- What was delivered consists of octets, or of bits of one. -/
def inBlock : Delivery → Bool
  | value v => v.isPlain
  | _ => true

/-- A value is what was delivered, as far as that goes; what was there before does not matter. -/
def Shows (d : Delivery) (new : Value) : Prop :=
  match d with
  | octets os => new.read os.length = os
  | flag mask on => new.first.byte &&& mask = if on then mask else 0
  | value v => new = v

/-- A delivery does not change the form of a value. -/
theorem isPlain_put (d : Delivery) (offset : Nat) (old : Value) :
    (d.put offset old).isPlain = old.isPlain := by
  cases d with
  | value v => cases v <;> cases old <;> rfl
  | _ => cases old <;> rfl

theorem isPlain_into (d : Delivery) (place : Address) (c : Nat) (old : Value) :
    (d.into place c old).isPlain = old.isPlain := by
  unfold into
  split
  · split
    · exact d.isPlain_put _ old
    · rfl
  · rfl

end Delivery

/-- What a marshaller delivers shows in any value of its form. -/
theorem Marshaller.shows_put {m : Marshaller} {p : Property} {s : State} {f : Address} {old : Value}
    (hold : old.isPlain = (m.delivery p s f).inBlock) :
    (m.delivery p s f).Shows ((m.delivery p s f).put 0 old) := by
  have hoctets {os : List Octet} (hold : old.isPlain = true) :
      (Delivery.octets os).Shows ((Delivery.octets os).put 0 old) := by
    cases old with
    | plain old => exact Value.read_write os old
    | _ => cases hold
  have hvalue {v : Value} (hv : v.isPlain = false) (hold : old.isPlain = false) :
      (Delivery.value v).Shows ((Delivery.value v).put 0 old) :=
    Value.put_of_not_plain hold hv
  -- Octets replace those of a plain value and a flag one of its bits; all else replaces the whole
  -- value.
  cases m with
  | bool =>
    unfold delivery at hold ⊢
    dsimp only at hold ⊢
    cases hmask : p.flagMask with
    | error e =>
      rw [hmask] at hold
      exact hoctets hold
    | ok mask =>
      rw [hmask] at hold
      dsimp only
      generalize (s.readAt f 1).any Octet.isSet = on
      cases old with
      | plain os =>
        show (Value.first _).byte &&& mask = _
        rw [Value.first_eq_octetAt, Delivery.put_flag, Value.octetAt_splice]
        exact Octet.setBits_and mask on _
      | _ => cases hold
  | text | string | softReference | collection => exact hvalue rfl hold
  | _ => exact hoctets hold

/-! ## What writing back leaves alone -/

/-- The cells below `base` have kept their form, and those outside of `K` have not changed. -/
def World.PutsWithin (base : Nat) (K : Nat → Prop) (w v : World σ) : Prop :=
  ∃ g, w.Puts base g v ∧ (∀ c old, (g c old).isPlain = old.isPlain) ∧ ∀ c, ¬K c → g c = id

namespace World.PutsWithin

variable {base : Nat} {K : Nat → Prop} {w v u : World σ}

theorem refl (base : Nat) (K : Nat → Prop) (w : World σ) : w.PutsWithin base K w :=
  ⟨_, .refl base w, fun _ _ => rfl, fun _ _ => rfl⟩

theorem trans (h : w.PutsWithin base K v) (h' : v.PutsWithin base K u) : w.PutsWithin base K u := by
  obtain ⟨g, hv, hform, hg⟩ := h
  obtain ⟨g', hu, hform', hg'⟩ := h'
  refine ⟨_, hv.trans hu, fun c old => (hform' c _).trans (hform c old), fun c hc => ?_⟩
  rw [hg c hc, hg' c hc]
  rfl

end World.PutsWithin

namespace Redirection

open Act

variable {w v z : World σ} {n base : Nat} {K : Nat → Prop} {ps : List Property}
  {params : List Parameter} {param : Parameter} {staged : List StagedArg} {i : Nat}

/-- An output that was copied back was put where it belongs. -/
theorem putsWithin_of_writeBackOne (hw : v.WritesBack ps) (hn : v.state.heap.Numbered)
    (hb : base ≤ v.state.memory.next) (hp : param.property ∈ ps)
    (hout : ∃ c o, param.output = .cell c o ∧ K c)
    (h : writeBackOne staged i param (callAt (n + 1)) v = .ok () z) : v.PutsWithin base K z := by
  obtain ⟨c, o, hcell, hK⟩ := hout
  have hquiet (h : (pure () : Act σ Unit) (callAt (n + 1)) v = .ok () z) : v.PutsWithin base K z := by
    cases h
    exact .refl base K v
  unfold writeBackOne at h
  cases hfind : staged.find? fun t => t.arg.param == i with
  | none =>
    rw [hfind] at h
    exact hquiet h
  | some t =>
    rw [hfind] at h
    dsimp only at h
    split at h
    · obtain ⟨_, _, hs, h⟩ := Act.ok_of_bind h
      cases hs
      rw [hcell] at h
      -- What is delivered goes to the cell of the output and to no other.
      obtain ⟨d, hz, -⟩ := (ends_iff.1 (Marshaller.ends_toHost hw hn hb hp t.arg.marshaller _)).1 _ _ h
      refine ⟨_, hz, fun c old => d.isPlain_into _ c old, fun c' hc' => funext fun old =>
        d.into_cell_of_ne ?_ o old⟩
      rintro rfl
      exact hc' hK
    · exact hquiet h

theorem putsWithin_of_writeBack (hw : v.WritesBack ps) (hn : v.state.heap.Numbered)
    (hb : base ≤ v.state.memory.next) (hp : ∀ param ∈ params, param.property ∈ ps)
    (hout : ∀ param ∈ params, ∃ c o, param.output = .cell c o ∧ K c)
    (h : writeBack staged i params (callAt (n + 1)) v = .ok () z) : v.PutsWithin base K z := by
  induction params generalizing i v with
  | nil =>
    cases h
    exact .refl base K _
  | cons param params ih =>
    obtain ⟨hp, hps⟩ := List.forall_mem_cons.1 hp
    obtain ⟨hout, houts⟩ := List.forall_mem_cons.1 hout
    rw [writeBack_cons] at h
    obtain ⟨_, u, hone, h⟩ := Act.ok_of_bind h
    have hu := putsWithin_of_writeBackOne hw hn hb hp hout hone
    refine hu.trans ?_
    obtain ⟨_, hu, -⟩ := hu
    exact ih (hu.writesBack hw) (hu.numbered hn) (Nat.le_trans hb hu.next) hps houts h

/-! ## The outputs of a call -/

/-- A law of cells: only those are written to that were not there before. -/
def freshLaw (σ : Type) (n base : Nat) : Law σ where
  toTerms := { Terms.asking (fun _ => True) fun _ => True with
    mayWrite := fun a => ∃ c o, a = .cell c o ∧ base ≤ c }
  call := callAt n
  course := .any (callAt n)
  holds _ w := base ≤ w.state.memory.next
  grows := callAt_grows n
  ready_cons _ _ := trivial
  fresh hw offset := ⟨_, offset, rfl, hw⟩
  change hw hc := Nat.le_trans hw hc.grows.next
  called hw _ _ := (callAt_grows n _ _ _).mono (fun _ _ h => Nat.le_trans hw h.next)
    fun _ _ h hne => Nat.le_trans hw (h hne).next

variable {key : Redirector.Key} {r : Redirector} {stack rest : ArgStack} {l : Linkage} {m : Nat}
  {u v' x : World σ} {target receiver returned result : Option Address} {pointers : List Address}
  {c : Nat}

/-- An output goes to a cell of the call, or to one that the caller lends. -/
theorem Loads.output_cell (h : Loads (callAt n) key r stack w l m params rest u)
    (hr : w.state.redirector? key = some r) {param : Parameter} (hparam : param ∈ params) :
    ∃ c o, param.output = .cell c o ∧
      (w.state.memory.next ≤ c ∨ ∃ i, stack.argFor r.function.params i = some ⟨c, true⟩) := by
  obtain ⟨-, hplaces, -⟩ := h.holds (L := freshLaw σ n w.state.memory.next) (o := []) hr none none
    trivial List.nil_suffix trivial (Nat.le_refl _)
  obtain ⟨c, o, hplace, hle⟩ := hplaces param hparam
  obtain ⟨i, hi⟩ := List.mem_iff_getElem?.1 hparam
  have hout := h.loaded.output hi
  split at hout
  · exact ⟨c, o, hout.trans hplace, .inl hle⟩
  · obtain ⟨⟨cell, byRef⟩, harg, hout⟩ := hout
    cases byRef with
    | false => exact ⟨c, o, hout.trans hplace, .inl hle⟩
    | true => exact ⟨cell, 0, hout, .inr ⟨i, harg⟩⟩

/-! ## Calls that succeed -/

/-- What comes of a call after its parameters were loaded, if it succeeds: the method returns and
leaves the world `v'`, the outputs are copied back, and so is the result. -/
inductive Completes (call : Invoker σ) (function : Function) (l : Linkage) (m : Nat)
    (target : Option Address) (params : List Parameter) (result : Option Address) (u : World σ)
    (returned : Option Address) (v' y : World σ) : Prop
  | steps {pointers : List Address} {staged : List StagedArg} {receiver : Option Address}
      {v z : World σ}
      (hprepare : prepare function l target params call u = .ok (pointers, staged, receiver) v)
      (hcall : callMethod m receiver pointers call v = .ok (.ok returned) v')
      (hback : writeBack staged 0 params call v' = .ok () z)
      (hresult : copyResult function l returned result call z = .ok () y)

theorem completes_of_run {call : Invoker σ} {function : Function} {y : World σ}
    (h : run function l m target params result call u = .ok () y) :
    ∃ returned v', Completes call function l m target params result u returned v' y := by
  rw [run_eq] at h
  obtain ⟨⟨pointers, staged, receiver⟩, v, hprepare, h⟩ := Act.ok_of_bind h
  obtain ⟨answer, v', hcall, h⟩ := Act.ok_of_bind h
  cases answer with
  | error e =>
    obtain ⟨_, _, _, h⟩ := Act.ok_of_bind h
    obtain ⟨_, _, _, h⟩ := Act.ok_of_bind h
    obtain ⟨_, _, _, h⟩ := Act.ok_of_bind h
    cases h
  | ok returned =>
    obtain ⟨_, z, hback, hresult⟩ := Act.ok_of_bind h
    exact ⟨returned, v', .steps hprepare hcall hback hresult⟩

/-- What the caller finds where the result goes to, after a call that has succeeded. What was returned
shows there if the linkage has a place for it, and if not the method has left it like this. -/
structure Shown (function : Function) (l : Linkage) (stack : ArgStack) (c : Nat)
    (returned : Option Address) (left x : World σ) (old : Value) : Prop where
  declared : ∀ ret q value f, l.result = some ret → function.params[ret.param]? = some q →
    returned = some value →
    (if ret.marshaller.isReference then f = value else left.state.unbox value = .ok f) →
    old.isPlain = (ret.marshaller.delivery q left.state f).inBlock →
    ∃ new, x.state.memory.cells.get? c = some new ∧
      (ret.marshaller.delivery q left.state f).Shows new
  undeclared : l.result = none ∨ returned = none →
    (∀ i, stack.argFor function.params i ≠ some ⟨c, true⟩) →
    x.state.memory.cells.get? c = some old

variable {o : List Owed} {y : World σ}

/-- A call that has succeeded has shown what its method returned. -/
theorem Completes.shown
    (h : Completes (callAt n) r.function l m target params (some (.ofCell c)) u returned v' y)
    (hloads : Loads (callAt n) key r stack w l m params rest u)
    (hr : w.state.redirector? key = some r) (hw : w.Tallied o) (hc : c < w.state.memory.next)
    (hwrites : v'.WritesBack r.function.params) {old : Value}
    (hold : v'.state.memory.cells.get? c = some old)
    (hx : y.state.Keeps (fun c => c < w.state.memory.next) x.state) :
    Shown r.function l stack c returned v' x old := by
  obtain ⟨hprepare, hcall, hback, hresult⟩ := h
  rename_i pointers staged receiver v z
  obtain - | n := n
  · cases hcall
  obtain ⟨u', hstages, hreceiver⟩ := stages_of_prepare hprepare
  have hpinned := hloads.pinned_answered hr hw hstages hreceiver hcall
  have hnumbered := hpinned.tallied.balanced.numbered
  have hnext : w.state.memory.next ≤ v'.state.memory.next :=
    (hloads.lasting hr hstages hreceiver hcall).2.next
  have hproperty {param : Parameter} (hparam : param ∈ params) :
      param.property ∈ r.function.params :=
    hloads.loaded.properties ▸ List.mem_map_of_mem hparam
  -- Here `g c` is what writing the outputs back does to the cell `c`.
  obtain ⟨g, hz, hform, hg⟩ := putsWithin_of_writeBack hwrites hnumbered hnext (fun _ => hproperty)
    (fun param hparam => hloads.output_cell hr hparam) hback
  have hzold : z.state.memory.cells.get? c = some (g c old) := by rw [hz.cells c hc, hold]; rfl
  refine ⟨fun ret q value f hret hq hvalue hf hfits => ?_, fun hnone hunlent => ?_⟩
  · -- Writing back may have changed what is there, but not its form; the result is put on top.
    have hreturn : returnOf r.function l = some (q, ret.marshaller) := by
      unfold returnOf
      rw [hret]
      show (r.function.params[ret.param]?).bind _ = _
      rw [hq]
      rfl
    subst hvalue
    have hy := (ends_iff.1 (ends_copyResult_of_value (c := c) (n := n) hz hwrites hnumbered hreturn
      (List.mem_of_getElem? hq) hf)).1 _ _ hresult
    refine ⟨_, ?_, Marshaller.shows_put ((hform c old).trans hfits)⟩
    rw [hx c hc, hy.cells c (Nat.lt_of_lt_of_le hc (Nat.le_trans hnext hz.next)), hzold]
    exact congrArg some (Delivery.into_cell_self _ c 0 _)
  · -- Nothing is put, and only a cell that the caller lends is written back to.
    have hquiet : copyResult r.function l returned (some (.ofCell c)) = (pure () : Act σ Unit) := by
      unfold copyResult
      obtain hret | rfl := hnone
      · have hreturn : returnOf r.function l = none := by
          unfold returnOf
          rw [hret]
          rfl
        rw [hreturn]
      · cases returnOf r.function l <;> rfl
    rw [hquiet] at hresult
    cases hresult
    rw [hx c hc, hzold, hg c ?_]
    · rfl
    · rintro (hle | ⟨i, hlent⟩)
      · omega
      · exact hunlent i hlent

end Redirection

open Redirection Linkage in
/-- Linking binds every return value that the method declares to one of the function, and the last of
them is where the result goes. It does not ask for one, so a function that returns something may be
linked without a place for it. A call that succeeds has shown what its method returned where there is
one; where there is none the result is what the method has left there. -/
theorem return_as_declared {registry : Registry} {function : Function} {method : ForeignMethod}
    {l : Linkage} (h : Linkage.link registry function method = .ok l) :
    ((∀ arg ∈ method.args, ∃ i p, function.First arg.name i p ∧ arg.isReturn = p.isReturn) ∧
      Option.Rel (BindsReturn registry function) (lastReturn method.args) l.result ∧
      (l.result.isSome = true ↔ ∃ arg ∈ method.args, arg.isReturn = true) ∧
      (function.OneReturn → ∀ ret, l.result = some ret → ∀ i p, function.params[i]? = some p →
        p.isReturn = true → i = ret.param)) ∧
    ∀ {config : Config} {side : ForeignSide σ} {memory : σ} {start w x : World σ}
      {rs : List Request} {n : Nat} {key : Redirector.Key} {r : Redirector}
      {target : Option Address} {stack rest : ArgStack} {c : Nat},
      side.foreign.heap = .empty → World.connect config registry side memory = .ok start →
      Session.Sees (fun _ _ => True) (fun _ => True) start rs w →
      w.state.redirector? key = some r → r.function = function → r.method = method →
      c < w.state.memory.next →
      invoke key r target stack (some (.ofCell c)) (callAt n) w = .ok (.ok (), rest) x →
      ∃ m params u returned v' y, Loads (callAt n) key r stack w l m params rest u ∧
        Completes (callAt n) function l m target params (some (.ofCell c)) u returned v' y ∧
        (v'.WritesBack function.params → ∀ old, v'.state.memory.cells.get? c = some old →
          Shown function l stack c returned v' x old) := by
  obtain ⟨k, hk, rfl⟩ := exists_linker h
  have htraces := Linker.traces_of_link hk
  refine ⟨⟨htraces.agrees, htraces.result, htraces.isSome_result_iff,
    fun hone ret hret i p hp hpret => ?_⟩, ?_⟩
  · obtain ⟨_, -, hbinds⟩ := htraces.of_result hret
    obtain ⟨q, hq, hqret, -⟩ := hbinds.property
    exact hone.eq hp hq.get hpret hqret
  · rintro config side memory start w x rs n key r target stack rest c hside hstart hsees hr rfl rfl
      hc hinvoke
    obtain ⟨o, hw⟩ := hsees.tallied hside hstart
    obtain ⟨e, he⟩ | ⟨l, m, params, u, y, hloads, hattempt, rfl⟩ := loads_of_invoke hinvoke
    · cases he
    -- The linkage in use is the one that linking makes.
    have hlinkage : l = k.linkage := by
      obtain ⟨_, hlinked, -⟩ := hloads
      exact Except.ok.inj ((link_of_linked hstart hsees hr hlinked).symm.trans h)
    subst hlinkage
    have hrun : run r.function k.linkage m target params (some (.ofCell c)) (callAt n) u = .ok () y :=
      Act.ok_of_attempt hattempt
    obtain ⟨returned, v', hcompletes⟩ := completes_of_run hrun
    have hkeeps := hloads.leave_keeps hr target (some (.ofCell c))
    rw [hrun] at hkeeps
    exact ⟨m, params, u, returned, v', y, hloads, hcompletes, fun hwrites old hold =>
      hcompletes.shown hloads hr hw hc hwrites hold hkeeps⟩

/-! ## A number that is returned, and one that is not asked for -/

namespace Sample

/-- The stock library, and two methods that return a number in a box. -/
def answeringBodies : List (Invocation → Program Unit) :=
  (Library.engine config.engine).methods.map MethodDef.body ++ [answering, answering]
where
  answering (_ : Invocation) : Program Unit :=
    .ask (.allocate (Heap.box ([42, 0, 0, 0].map .value))) fun (box : Address) => .done (some box)

def answeringStart : World Unit := world [method "Ask", method "Mute"] answeringBodies
where
  method (name : String) : MethodInfo := ⟨"G", ⟨"", "T", name, some []⟩, 0, 0⟩

/-- A function that returns a number, for a method that declares these arguments. -/
def answering (name : String) (args : List ForeignArg) : Redirector where
  function := ⟨"T", name, ⟨true, true, false, false⟩,
    [⟨returnName, .scalar .int32, 4, 4, 0, ⟨true, true, true, false, false⟩⟩], ⟨4, 4⟩⟩
  method := ⟨"G", ⟨"", "T", name, some []⟩, args⟩
  binding := .unbound
  depth := 0

def ask : Redirector := answering "Ask" [⟨returnName, false, true⟩]

/-- Its method does not declare that it returns something. -/
def mute : Redirector := answering "Mute" []

def answeringLinkage : Linkage := ⟨[], some ⟨0, .scalar⟩⟩

/-- The result of the calls is a cell that holds another number. -/
def questioning : Program Unit :=
  .ask (.redirect ask.function ask.method) fun _ =>
  .ask (.redirect mute.function mute.method) fun _ =>
  .ask (.allot (.plain ([7, 0, 0, 0].map .value))) fun _ => .done none

/-- The call succeeds, and its method has returned the number in a box. -/
def hasAnswered (r : Redirector) (w : World Unit) : Bool :=
  match answered r ⟨[], 0⟩ w,
    Redirection.invoke ("T", r.function.name) r none ⟨[], 0⟩ (some (.ofCell 0)) (callAt 3) w with
  | some c, .ok (.ok (), _) _ => c.returned == some (.foreign 0) &&
      (c.left.state.unbox (.foreign 0)).toOption == some (.payload 0) &&
      c.left.state.readAt (.payload 0) 4 == [42, 0, 0, 0].map .value &&
      c.left.state.memory.cells.get? 0 == some (.plain ([7, 0, 0, 0].map .value))
  | _, _ => false

/-- The result still is the other number. -/
def isStaleNumber (w : World Unit) : Bool :=
  match Redirection.invoke ("T", "Mute") mute none ⟨[], 0⟩ (some (.ofCell 0)) (callAt 3) w with
  | .ok _ x => x.state.memory.cells.get? 0 == some (.plain ([7, 0, 0, 0].map .value))
  | .error _ _ => false

theorem run_questioning : endsIn 3 questioning answeringStart (fun w =>
      w.state.redirector? ("T", "Ask") == some ask &&
      w.state.redirector? ("T", "Mute") == some mute && w.state.memory.next == 1 &&
      hasAnswered ask w && hasAnswered mute w && isStaleNumber w) = true := by
  decide +kernel

theorem of_hasAnswered {r : Redirector} {w : World Unit} (h : hasAnswered r w = true) :
    ∃ c rest x, answered r ⟨[], 0⟩ w = some c ∧
      Redirection.invoke ("T", r.function.name) r none ⟨[], 0⟩ (some (.ofCell 0)) (callAt 3) w =
        .ok (.ok (), rest) x ∧
      c.returned = some (.foreign 0) ∧
      (c.left.state.unbox (.foreign 0)).toOption = some (.payload 0) ∧
      c.left.state.readAt (.payload 0) 4 = [42, 0, 0, 0].map .value ∧
      c.left.state.memory.cells.get? 0 = some (.plain ([7, 0, 0, 0].map .value)) := by
  unfold hasAnswered at h
  split at h
  · rename_i c rest x hc hinvoke
    simp only [Bool.and_eq_true, beq_iff_eq] at h
    obtain ⟨⟨⟨hreturned, hunbox⟩, hnumber⟩, hold⟩ := h
    exact ⟨c, rest, x, hc, hinvoke, hreturned, hunbox, hnumber, hold⟩
  · cases h

open Redirection in
/-- What is shown of a call that has succeeded is what was found in its steps. -/
theorem Answered.Steps.shown {r : Redirector} {stack rest : ArgStack} {w x : World Unit}
    {c : Answered} {l : Linkage} {cell : Nat} {old : Value} (hs : c.Steps r stack w)
    (hr : w.state.redirector? ("T", r.function.name) = some r)
    (hwrites : ∀ {v : World Unit}, w.bodies <+: v.bodies → w.state.Grows v.state →
      v.WritesBack r.function.params)
    (hold : c.left.state.memory.cells.get? cell = some old)
    (h : ∃ m params u returned v' y,
      Loads (callAt 3) ("T", r.function.name) r stack w l m params rest u ∧
      Completes (callAt 3) r.function l m none params (some (.ofCell cell)) u returned v' y ∧
      (v'.WritesBack r.function.params → ∀ old, v'.state.memory.cells.get? cell = some old →
        Shown r.function l stack cell returned v' x old)) :
    Shown r.function l stack cell c.returned c.left x old := by
  obtain ⟨m, params, u, returned, v', y, hloads, ⟨hprepare, hcall, -, -⟩, hshown⟩ := h
  obtain ⟨-, hloads', hprepared, hcalled⟩ := hs
  obtain ⟨rfl, rfl, rfl, -, rfl⟩ := hloads'.unique hloads
  cases hprepared.symm.trans hprepare
  cases hcalled.symm.trans hcall
  obtain ⟨_, hstages, hreceiver⟩ := stages_of_prepare hprepared
  obtain ⟨hbodies, hgrows⟩ := hloads.lasting hr hstages hreceiver hcall
  exact hshown (hwrites hbodies hgrows) old hold

end Sample

open Redirection in
/-- `return_as_declared` for a number that is returned in a box. -/
theorem return_as_declared_of_ask :
    ∃ (w x : World Unit) (rest : ArgStack) (new : Value),
      Session.Sees (fun _ _ => True) (fun _ => True) Sample.answeringStart [] w ∧
      Linkage.link .default Sample.ask.function Sample.ask.method = .ok Sample.answeringLinkage ∧
      invoke ("T", "Ask") Sample.ask none ⟨[], 0⟩ (some (.ofCell 0)) (callAt 3) w =
        .ok (.ok (), rest) x ∧
      x.state.memory.cells.get? 0 = some new ∧ new.read 4 = [42, 0, 0, 0].map .value := by
  obtain ⟨w, a, hr, hsees, hrun⟩ := Sample.sees_of_endsIn Sample.run_questioning
  simp only [Bool.and_eq_true, beq_iff_eq] at hrun
  obtain ⟨⟨⟨⟨⟨hask, -⟩, hnext⟩, hanswered⟩, -⟩, -⟩ := hrun
  have hlink : Linkage.link .default Sample.ask.function Sample.ask.method =
      .ok Sample.answeringLinkage := by
    decide +kernel
  obtain ⟨c, rest, x, hc, hinvoke, hreturned, hunbox, hnumber, hold⟩ :=
    Sample.of_hasAnswered hanswered
  have hkinds : ∀ p ∈ Sample.ask.function.params, ∀ info, p.kind ≠ .struct info := by
    intro p hp info hkind
    obtain rfl := List.mem_singleton.1 hp
    cases hkind
  obtain ⟨-, hcalls⟩ := return_as_declared (σ := Unit) hlink
  -- Methods are only ever added, so those of the stock library still write the result back.
  obtain ⟨hdeclared, -⟩ := (Sample.steps_of_answered hc).shown hask
    (fun hbodies hgrows => Sample.writesBack_of_stock
      ((List.prefix_append _ _).trans ((bodies_of_run hr).trans hbodies))
      (hgrows.helpers.trans hsees.grows.helpers) hkinds) hold
    (hcalls rfl (Sample.connect_world _ _) hsees hask rfl rfl (by rw [hnext]; decide) hinvoke)
  have hbox : c.left.state.unbox (.foreign 0) = .ok (.payload 0) := by
    cases hunboxed : c.left.state.unbox (.foreign 0) with
    | error e => rw [hunboxed] at hunbox; cases hunbox
    | ok f => rw [hunboxed] at hunbox; exact congrArg _ (Option.some.inj hunbox)
  obtain ⟨new, hnew, hshows⟩ := hdeclared ⟨0, .scalar⟩ _ _ _ rfl rfl hreturned hbox rfl
  refine ⟨w, x, rest, new, hsees, hlink, hinvoke, hnew, ?_⟩
  change new.read (c.left.state.readAt (.payload 0) 4).length = _ at hshows
  rw [hnumber] at hshows
  exact hshows

open Redirection in
/-- A function that returns a number is linked to a method that does not declare it. The method
returns one all the same, the call succeeds, and the caller finds what was there before. -/
theorem return_not_declared :
    Linkage.link .default Sample.mute.function Sample.mute.method = .ok ⟨[], none⟩ ∧
      (∃ p ∈ Sample.mute.function.params, p.isReturn = true) ∧
      (∀ arg ∈ Sample.mute.method.args, arg.isReturn = false) ∧
      ∃ (w x : World Unit) (rest : ArgStack) (c : Sample.Answered),
        Session.Sees (fun _ _ => True) (fun _ => True) Sample.answeringStart [] w ∧
        Sample.answered Sample.mute ⟨[], 0⟩ w = some c ∧ c.returned = some (.foreign 0) ∧
        c.left.state.readAt (.payload 0) 4 = [42, 0, 0, 0].map .value ∧
        invoke ("T", "Mute") Sample.mute none ⟨[], 0⟩ (some (.ofCell 0)) (callAt 3) w =
          .ok (.ok (), rest) x ∧
        x.state.memory.cells.get? 0 = some (.plain ([7, 0, 0, 0].map .value)) := by
  refine ⟨by decide +kernel, ⟨_, List.mem_singleton_self _, rfl⟩, nofun, ?_⟩
  obtain ⟨w, a, -, hsees, hrun⟩ := Sample.sees_of_endsIn Sample.run_questioning
  simp only [Bool.and_eq_true, beq_iff_eq] at hrun
  obtain ⟨⟨-, hanswered⟩, hstale⟩ := hrun
  obtain ⟨c, rest, x, hc, hinvoke, hreturned, -, hnumber, -⟩ := Sample.of_hasAnswered hanswered
  unfold Sample.isStaleNumber at hstale
  rw [show invoke ("T", "Mute") Sample.mute none ⟨[], 0⟩ (some (.ofCell 0)) (callAt 3) w = _
    from hinvoke] at hstale
  exact ⟨w, x, rest, c, hsees, hc, hreturned, hnumber, hinvoke, beq_iff_eq.1 hstale⟩

end TwinHeap
