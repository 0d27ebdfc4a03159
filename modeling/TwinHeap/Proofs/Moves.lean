import TwinHeap.Proofs.Conduct

/-!
# Moves — the rules by which an action keeps a law

`Act.Moves` follows what an action owes: `x` before it, `y` when it has answered, `z` when it was
abandoned, all on top of what lay there before. There is one rule a combinator.
-/

namespace TwinHeap

variable {σ α β : Type}

/-- Where an operation of the bridge stands when it calls foreign code. -/
inductive Situation
  | plain
  /-- In the middle of removing an entry. -/
  | severing
  /-- In the middle of a redirected call. -/
  | redirected
deriving DecidableEq

namespace Situation

/-- An entry is being removed. -/
def isSevering : Situation → Bool
  | severing => true
  | _ => false

/-- A redirected call is running. -/
def isRedirected : Situation → Bool
  | redirected => true
  | _ => false

/-- What is owed in the situation. -/
def Fits (sit : Situation) (t : List Owed) : Prop :=
  t.countP Owed.isSevering = sit.isSevering.toNat ∧ t.countP Owed.isIdle = 0 ∧
    t.countP Owed.isFrame = sit.isRedirected.toNat

theorem Fits.append {sit : Situation} {t x : List Owed} (ht : plain.Fits t)
    (hx : sit.Fits x) : sit.Fits (t ++ x) := by
  obtain ⟨hsev, hidle, hframe⟩ := ht
  unfold Fits at *
  rw [List.countP_append, List.countP_append, List.countP_append, hsev, hidle, hframe, hx.1,
    hx.2.1, hx.2.2]
  exact ⟨Nat.zero_add _, rfl, Nat.zero_add _⟩

end Situation

namespace Act

/-- In the runs that the law is about `act` keeps it, moving what is owed on top of `r` from `x` to
`y`, or to `z` if it fails. Foreign code is called in the situation `sit` only, for reasons that the
bridge has. -/
def Moves (act : Act σ α) (L : Law σ) (sit : Situation) (r x y z : List Owed) (w : World σ)
    (Q : α → World σ → Prop) : Prop :=
  L.base <:+ r → L.ready r → L.course.Runs act w → L.holds (x ++ r) w → act.Meets L.call w
    (fun m inv v => ∃ t o b, sit.Fits t ∧ Owed.Settled t v.state m ∧ L.sees (t ++ r) v ∧
      w.state.Grows v.state ∧ L.course.Runs (Act.callMethod m inv.receiver inv.args) v ∧
      Reason L.toTerms (t ++ r) v.state m inv o b)
    (fun a v => L.holds (y ++ r) v ∧ w.state.Grows v.state ∧ Q a v)
    (fun f v => f ≠ .exhausted → L.holds (z ++ r) v ∧ w.state.Grows v.state)

/-- `act` keeps the law and owes nothing of its own in the end. -/
abbrev Obeys (act : Act σ α) (L : Law σ) (sit : Situation) (r : List Owed) (w : World σ) : Prop :=
  act.Moves L sit r [] [] [] w fun _ _ => True

namespace Moves

variable {act : Act σ α} {L : Law σ} {sit : Situation} {r x y z : List Owed} {w : World σ}
  {Q : α → World σ → Prop}

theorem mono {Q' : α → World σ → Prop} (h : act.Moves L sit r x y z w Q)
    (hQ : ∀ a v, Q a v → Q' a v) : act.Moves L sit r x y z w Q' := by
  intro hb hready hrun ho
  exact (h hb hready hrun ho).mono (fun _ _ _ hC => hC)
    (fun a v hv => ⟨hv.1, hv.2.1, hQ a v hv.2.2⟩) fun _ _ hE => hE

/-- Only what an action does from `w` counts. -/
theorem congr {act' : Act σ α} (h : act'.Moves L sit r x y z w Q)
    (he : ∀ call, act call w = act' call w) : act.Moves L sit r x y z w Q := by
  intro hb hready hrun ho
  obtain ⟨honly, hstrict, hok, herr⟩ := h hb hready
    (L.course.closed hrun (.congr .here fun call => (he call).symm)) ho
  refine ⟨fun call' hc => ?_, fun f call' hf hc => ?_, fun a v ha => hok a v (he L.call ▸ ha),
    fun f v hf => herr f v (he L.call ▸ hf)⟩
  · rw [he, he, honly call' hc]
  · rw [he, he]
    exact hstrict f call' hf hc

/-- What is known where the action begins. -/
theorem of_ready (h : L.ready r → act.Moves L sit r x y z w Q) : act.Moves L sit r x y z w Q :=
  fun hb hready hrun ho => h hready hb hready hrun ho

theorem pure {a : α} (h : Q a w) : (Pure.pure a : Act σ α).Moves L sit r x x z w Q :=
  fun _ _ _ ho => .pure ⟨ho, .refl _, h⟩

/-- What an action does after the world has grown. -/
theorem after_grows {v : World σ} (h : act.Moves L sit r x y z v Q) (hb : L.base <:+ r)
    (hready : L.ready r) (hrun : L.course.Runs act v) (ho : L.holds (x ++ r) v)
    (hg : w.state.Grows v.state) :
    act.Meets L.call v
      (fun m inv u => ∃ t o b, sit.Fits t ∧ Owed.Settled t u.state m ∧ L.sees (t ++ r) u ∧
        w.state.Grows u.state ∧ L.course.Runs (Act.callMethod m inv.receiver inv.args) u ∧
        Reason L.toTerms (t ++ r) u.state m inv o b)
      (fun a u => L.holds (y ++ r) u ∧ w.state.Grows u.state ∧ Q a u)
      (fun f u => f ≠ .exhausted → L.holds (z ++ r) u ∧ w.state.Grows u.state) := by
  refine (h hb hready hrun ho).mono ?_ ?_ ?_
  · rintro m inv u ⟨t, o, b, ht, hs, hu, hgu, hr⟩
    exact ⟨t, o, b, ht, hs, hu, hg.trans hgu, hr⟩
  · rintro a u ⟨hu, hgu, hQ⟩
    exact ⟨hu, hg.trans hgu, hQ⟩
  · intro e u hE he
    exact ⟨(hE he).1, hg.trans (hE he).2⟩

/-- What follows an action knows how it was answered. -/
theorem bind_of_run {f : α → Act σ β} {y' : List Owed} {R : β → World σ → Prop}
    (h : act.Moves L sit r x y z w Q)
    (hf : ∀ a v, act L.call w = .ok a v → w.state.Grows v.state → Q a v →
      (f a).Moves L sit r y y' z v R) : (act >>= f).Moves L sit r x y' z w R := by
  intro hb hready hrun ho
  have hact := h hb hready (L.course.closed hrun (.first .here)) ho
  refine .bind hact ?_
  rintro a v ha ⟨hv, hg, hQ⟩
  exact (hf a v ha hg hQ).after_grows hb hready
    (L.course.closed hrun (.next .here hact.strict ha)) hv hg

theorem bind {f : α → Act σ β} {y' : List Owed} {R : β → World σ → Prop}
    (h : act.Moves L sit r x y z w Q)
    (hf : ∀ a v, w.state.Grows v.state → Q a v → (f a).Moves L sit r y y' z v R) :
    (act >>= f).Moves L sit r x y' z w R :=
  .bind_of_run h fun a v _ hg hQ => hf a v hg hQ

/-- One action after another, where nothing is known of the first one's answer. -/
theorem seq {f : α → Act σ β} {y' : List Owed} {R : β → World σ → Prop}
    (h : act.Moves L sit r x y z w fun _ _ => True)
    (hf : ∀ a v, w.state.Grows v.state → (f a).Moves L sit r y y' z v R) :
    (act >>= f).Moves L sit r x y' z w R :=
  .bind h fun a v hg _ => hf a v hg

theorem map {g : α → β} {R : β → World σ → Prop} (h : act.Moves L sit r x y z w Q)
    (hR : ∀ a v, Q a v → R (g a) v) : (g <$> act).Moves L sit r x y z w R := by
  have hm : g <$> act = act >>= fun a => Pure.pure (g a) := rfl
  rw [hm]
  exact .bind h fun a v _ hQ => .pure (hR a v hQ)

theorem discard {R : Unit → World σ → Prop} (h : act.Moves L sit r x y z w Q)
    (hR : ∀ a v, Q a v → R () v) : (Functor.discard act : Act σ Unit).Moves L sit r x y z w R := by
  have hm : (Functor.discard act : Act σ Unit) = act >>= fun _ => Pure.pure () := rfl
  rw [hm]
  exact .bind h fun a v _ hQ => .pure (hR a v hQ)

/-- Reading the state changes nothing. -/
theorem state_bind {f : State → Act σ α} (h : (f w.state).Moves L sit r x y z w Q) :
    (Act.state >>= f).Moves L sit r x y z w Q :=
  .congr h fun _ => rfl

theorem editGet {f : State → α × State}
    (hc : Change L.toTerms (x ++ r) w.state (y ++ r) (f w.state).2)
    (hQ : Q (f w.state).1 { w with state := (f w.state).2 }) :
    (Act.editGet f : Act σ α).Moves L sit r x y z w Q :=
  fun _ _ _ ho => .editGet ⟨L.change ho hc, hc.grows, hQ⟩

theorem edit {f : State → State} {Q : Unit → World σ → Prop}
    (hc : Change L.toTerms (x ++ r) w.state (y ++ r) (f w.state))
    (hQ : Q () { w with state := f w.state }) :
    (Act.edit f : Act σ Unit).Moves L sit r x y z w Q :=
  fun _ _ _ ho => .edit ⟨L.change ho hc, hc.grows, hQ⟩

/-- An edit that is no change of the bridge's own may keep the law all the same. -/
theorem edit_of_holds {f : State → State}
    (hf : L.holds (x ++ r) w → L.holds (y ++ r) { w with state := f w.state })
    (hg : w.state.Grows (f w.state)) :
    (Act.edit f : Act σ Unit).Moves L sit r x y z w fun _ _ => True :=
  fun _ _ _ ho => .edit ⟨hf ho, hg, trivial⟩

/-- A cell for the innermost call, which may be written to. -/
theorem frameCell {key : Redirector.Key} {v : Value} :
    (Act.editGet (·.frameCell v) : Act σ Nat).Moves L sit (.frame key :: r) [] [] z w
      fun c _ => ∀ offset, L.mayWrite (.cell c offset) := by
  intro hb hready hrun ho
  exact editGet (y := []) (.frameCell v) (L.fresh ho) hb hready hrun ho

/-- An edit that leaves the state as it is only gives an answer. -/
theorem editGet_bind_of_eq {f : State → β × State} {b : β} {k : β → Act σ α}
    (hf : f w.state = (b, w.state)) (h : (k b).Moves L sit r x y z w Q) :
    (Act.editGet f >>= k).Moves L sit r x y z w Q := by
  refine .congr h fun call => ?_
  show k (f w.state).1 call { w with state := (f w.state).2 } = _
  rw [hf]

theorem edit_bind {f : State → State} {act : Act σ α} {d : List Owed}
    (hc : Change L.toTerms (x ++ r) w.state (d ++ r) (f w.state))
    (h : act.Moves L sit r d y z { w with state := f w.state } Q) :
    (Act.edit f >>= fun _ => act).Moves L sit r x y z w Q := by
  refine .bind (.edit hc (Q := fun _ v => v = _) rfl) ?_
  rintro _ _ - rfl
  exact h

/-- Two edits in a row count as one change. -/
theorem edits_bind {f : State → β × State} {g : State → State} {k : β → Act σ α}
    {next : Act σ α} {d : List Owed} (hk : k (f w.state).1 = Act.edit g >>= fun _ => next)
    (hc : Change L.toTerms (x ++ r) w.state (d ++ r) (g (f w.state).2))
    (h : next.Moves L sit r d y z { w with state := g (f w.state).2 } Q) :
    (Act.editGet f >>= k).Moves L sit r x y z w Q := by
  have hedit : (Act.edit (fun s => g (f s).2) >>= fun _ => next).Moves L sit r x y z w Q :=
    .edit_bind hc h
  refine .congr hedit fun call => ?_
  show k (f w.state).1 call _ = _
  rw [hk]
  rfl

theorem fail {e : BridgeError} : (Act.fail e : Act σ α).Moves L sit r x y x w Q :=
  fun _ _ _ ho => .fail fun _ => ⟨ho, .refl _⟩

theorem abandon {p : Panic} : (Act.abandon p : Act σ α).Moves L sit r x y x w Q :=
  fun _ _ _ ho => .abandon fun _ => ⟨ho, .refl _⟩

theorem ofPanic {e : Except Panic α} (h : ∀ a, e = .ok a → Q a w) :
    (Act.ofPanic e : Act σ α).Moves L sit r x x x w Q := by
  cases e with
  | ok a => exact .pure (h a rfl)
  | error p => exact .abandon

theorem ofPanic_bind {e : Except Panic β} {f : β → Act σ α}
    (h : ∀ a, e = .ok a → (f a).Moves L sit r x y x w Q) :
    (Act.ofPanic e >>= f).Moves L sit r x y x w Q := by
  cases e with
  | ok a => exact .congr (h a rfl) fun _ => rfl
  | error p => exact .congr (.abandon (p := p)) fun _ => rfl

theorem ofOverflow_bind {e : Except Overflow β} {f : β → Act σ α}
    (h : ∀ a, e = .ok a → (f a).Moves L sit r x y x w Q) :
    (Act.ofOverflow e >>= f).Moves L sit r x y x w Q := by
  cases e with
  | ok a => exact .congr (h a rfl) fun _ => rfl
  | error o => exact .congr (.abandon (p := .overflow o)) fun _ => rfl

theorem ofLink_bind {e : Except LinkError β} {f : β → Act σ α}
    (h : ∀ a, e = .ok a → (f a).Moves L sit r x y x w Q) :
    (Act.ofLink e >>= f).Moves L sit r x y x w Q := by
  cases e with
  | ok a => exact .congr (h a rfl) fun _ => rfl
  | error l => exact .congr (.fail (e := .link l)) fun _ => rfl

theorem ofForeign {e : Except ForeignException α} (h : ∀ a, e = .ok a → Q a w) :
    (Act.ofForeign e : Act σ α).Moves L sit r x x x w Q := by
  cases e with
  | ok a => exact .pure (h a rfl)
  | error p => exact .fail

/-- An exception ends the operation, an answer is of no further interest. -/
theorem discard_ofForeign {e : Except ForeignException α} :
    (Functor.discard (Act.ofForeign e) : Act σ Unit).Moves L sit r x x x w fun _ _ => True :=
  .discard (Q := fun _ _ => True) (.ofForeign fun _ _ => trivial) fun _ _ _ => trivial

/-- An attempt fails only where what it tries is abandoned. -/
theorem attempt {R : Except BridgeError α → World σ → Prop} (h : act.Moves L sit r x y y w Q)
    (hok : ∀ a v, Q a v → R (.ok a) v) (herr : ∀ e v, R (.error e) v) :
    act.attempt.Moves L sit r x y y w R := by
  intro hb hready hrun ho
  have hact := h hb hready (L.course.closed hrun (.attempt .here)) ho
  refine .attempt (hact.mono (fun _ _ _ hC => hC) ?_ ?_)
  · rintro a v ⟨hv, hg, hQ⟩
    exact ⟨hv, hg, hok a v hQ⟩
  · intro f v hE
    refine ⟨?_, fun _ => hE⟩
    rintro e rfl
    obtain ⟨hv, hg⟩ := hE (by rintro ⟨⟩)
    exact ⟨hv, hg, herr e v⟩

theorem callMethod {m : Nat} {receiver : Option Address} {args : List Address}
    (hr : Reason L.toTerms (x ++ r) w.state m ⟨receiver, args⟩ (y ++ r) (y ++ r))
    (hx : sit.Fits x) (hs : Owed.Settled x w.state m) :
    (Act.callMethod m receiver args : Act σ _).Moves L sit r x y y w fun _ _ => True := by
  intro _ _ hrun ho
  have hcalled := ends_iff.1 (L.called ho hr hrun)
  have hgrows := ends_iff.1 (L.grows m ⟨receiver, args⟩ w)
  refine .callMethod ⟨x, y ++ r, y ++ r, hx, hs, L.seen ho, .refl _, hrun, hr⟩ ?_ ?_
  · intro a v ha
    have hv := hcalled.1 a v ha
    rw [Owed.after_self] at hv
    exact ⟨hv, hgrows.1 a v ha, trivial⟩
  · exact fun f v hf hne => ⟨hcalled.2 f v hf hne, hgrows.2 f v hf hne⟩

/-- A call whose exception ends the operation. -/
theorem callMethod_discard {m : Nat} {receiver : Option Address} {args : List Address}
    (hr : Reason L.toTerms (x ++ r) w.state m ⟨receiver, args⟩ (y ++ r) (z ++ r))
    (hx : sit.Fits x) (hs : Owed.Settled x w.state m) :
    (Act.callMethod m receiver args >>= fun a => Functor.discard (Act.ofForeign a) :
      Act σ Unit).Moves L sit r x y z w fun _ _ => True := by
  intro _ _ hrun ho
  have hrun := L.course.closed hrun (.first .here)
  have hcalled := ends_iff.1 (L.called ho hr hrun)
  have hgrows := ends_iff.1 (L.grows m ⟨receiver, args⟩ w)
  refine .bind (Q := fun a v => L.holds (Owed.after a (y ++ r) (z ++ r)) v ∧
    w.state.Grows v.state) (.callMethod ⟨x, _, _, hx, hs, L.seen ho, .refl _, hrun, hr⟩ ?_ ?_) ?_
  · exact fun a v ha => ⟨hcalled.1 a v ha, hgrows.1 a v ha⟩
  · exact fun f v hf hne => ⟨hcalled.2 f v hf hne, hgrows.2 f v hf hne⟩
  · rintro (e | a) v - ⟨hv, hg⟩
    · exact .fail fun _ => ⟨hv, hg⟩
    · exact .pure ⟨hv, hg, trivial⟩

/-- What was owed before an action that owes nothing of its own stays owed. -/
theorem lift {sit' : Situation} (h : act.Moves L sit' (x ++ r) [] [] [] w Q)
    (hfit : ∀ t, sit'.Fits t → sit.Fits (t ++ x)) (hx : x.countP Owed.isOpen = 0)
    (hm : x.countP Owed.isMaking = 0) :
    act.Moves L sit r x x x w Q := by
  intro hb hready hrun ho
  refine (h (hb.trans (List.suffix_append x r)) (L.ready_append hready hm) hrun ho).mono ?_
    (fun _ _ hQ => hQ) fun _ _ hE => hE
  rintro m inv v ⟨t, o, b, ht, hs, hv, hg, hcall, hr⟩
  rw [← List.append_assoc] at hv hr
  refine ⟨t ++ x, o, b, hfit t ht, ?_, hv, hg, hcall, hr⟩
  rcases hs with hs | hs
  · exact .inl (by rw [List.countP_append, hs, hx])
  · exact .inr hs

/-- A failure may settle debts by a change that leaves the state alone. -/
theorem settle {z' : List Owed} (h : act.Moves L sit r x y z w Q)
    (hz : ∀ s : State, L.base <:+ r → Change L.toTerms (z ++ r) s (z' ++ r) s) :
    act.Moves L sit r x y z' w Q := by
  intro hb hready hrun ho
  refine (h hb hready hrun ho).mono (fun _ _ _ hC => hC) (fun _ _ hQ => hQ) ?_
  intro f v hE hf
  exact ⟨L.change (hE hf).1 (hz v.state hb), (hE hf).2⟩

/-- So may an answer. -/
theorem settle_ok {y' : List Owed} (h : act.Moves L sit r x y z w Q)
    (hy : ∀ s : State, L.base <:+ r → Change L.toTerms (y ++ r) s (y' ++ r) s) :
    act.Moves L sit r x y' z w Q := by
  intro hb hready hrun ho
  refine (h hb hready hrun ho).mono (fun _ _ _ hC => hC) ?_ fun _ _ hE => hE
  intro a v hQ
  exact ⟨L.change hQ.1 (hy v.state hb), hQ.2⟩

/-- The clean-up gives back what the action still owes, however it ended. -/
theorem ensuring {cleanup : State → State} {y' z' : List Owed}
    (h : act.Moves L sit r x y z w fun _ _ => True)
    (hy : ∀ s, L.base <:+ r →
      Change L.toTerms (y ++ r) s (y' ++ r) (cleanup s))
    (hz : ∀ s, L.base <:+ r →
      Change L.toTerms (z ++ r) s (z' ++ r) (cleanup s)) :
    (Act.ensuring cleanup act).Moves L sit r x y' z' w fun _ _ => True := by
  intro hb hready hrun ho
  have hact := h hb hready (L.course.closed hrun (.ensuring .here)) ho
  refine .ensuring (hact.mono (fun _ _ _ hC => hC) ?_ ?_)
  · rintro a v ⟨hv, hg, -⟩
    exact ⟨L.change hv (hy v.state hb), hg.trans (hy v.state hb).grows, trivial⟩
  · intro f v hE hf
    obtain ⟨hv, hg⟩ := hE hf
    exact ⟨L.change hv (hz v.state hb), hg.trans (hz v.state hb).grows⟩

/-- An attempt goes on also where what it tries ended with an error. -/
theorem attempt_bind {k : Except BridgeError α → Act σ β} {y' z' : List Owed}
    {R : β → World σ → Prop} (h : act.Moves L sit r x y z w Q)
    (hok : ∀ a v, w.state.Grows v.state → Q a v → (k (.ok a)).Moves L sit r y y' z' v R)
    (herr : ∀ e v, w.state.Grows v.state → (k (.error e)).Moves L sit r z y' z' v R)
    (hz : ∀ s : State, L.base <:+ r → Change L.toTerms (z ++ r) s (z' ++ r) s) :
    (act.attempt >>= k).Moves L sit r x y' z' w R := by
  intro hb hready hrun ho
  have hact := h hb hready (L.course.closed hrun (.attempt (.first .here))) ho
  refine .bind (Q := fun a v => w.state.Grows v.state ∧
      (∀ b, a = .ok b → L.holds (y ++ r) v ∧ Q b v) ∧ ∀ e, a = .error e → L.holds (z ++ r) v)
    (.attempt (hact.mono (fun _ _ _ hC => hC) ?_ ?_)) ?_
  · rintro a v ⟨hv, hg, hQ⟩
    refine ⟨hg, ?_, by rintro _ ⟨⟩⟩
    rintro _ ⟨⟩
    exact ⟨hv, hQ⟩
  · intro f v hE
    refine ⟨?_, fun _ hf => ⟨L.change (hE hf).1 (hz v.state hb), (hE hf).2⟩⟩
    rintro e rfl
    obtain ⟨hv, hg⟩ := hE (by rintro ⟨⟩)
    exact ⟨hg, by rintro _ ⟨⟩, fun _ _ => hv⟩
  · rintro (e | a) v ha ⟨hg, hok', herr'⟩ <;>
      have hrun' := L.course.closed hrun (.next .here hact.strict.attempt ha)
    · exact (herr e v hg).after_grows hb hready hrun' (herr' e rfl) hg
    · obtain ⟨hv, hQ⟩ := hok' a rfl
      exact (hok a v hg hQ).after_grows hb hready hrun' hv hg

theorem withCell {v : Value} {act : Address → Act σ α}
    (h : (act (.ofCell w.state.memory.next)).Moves L sit r (.cell w.state.memory.next :: x)
      (.cell w.state.memory.next :: y) (.cell w.state.memory.next :: z)
      { w with state := (w.state.allot v).2 } fun _ _ => True) :
    (Act.withCell v act).Moves L sit r x y z w fun _ _ => True := by
  unfold Act.withCell
  refine .bind (y := .cell w.state.memory.next :: x) (Q := fun c v' =>
    c = w.state.memory.next ∧ v' = { w with state := (w.state.allot v).2 })
    (.editGet (.openCell v) ⟨rfl, rfl⟩) ?_
  rintro _ _ - ⟨rfl, rfl⟩
  refine .ensuring h ?_ ?_
  · intro s hb
    exact .closeCell (hb.trans (List.suffix_append y r))
  · intro s hb
    exact .closeCell (hb.trans (List.suffix_append z r))

end Moves

/-! ## Failures -/

/-- Where `act` fails the law holds as before, whatever `act` would do in the end. -/
def Fails (act : Act σ α) (L : Law σ) (r : List Owed) (w : World σ) : Prop :=
  L.base <:+ r → L.ready r → L.course.Runs act w → L.holds r w →
    ∀ f v, act L.call w = .error f v → f ≠ .exhausted → L.holds r v

namespace Fails

variable {act : Act σ α} {L : Law σ} {s : Situation} {r y : List Owed} {w : World σ}
  {Q : α → World σ → Prop}

theorem of_moves (h : act.Moves L s r [] y [] w Q) : act.Fails L r w :=
  fun hb hready hrun ho f v hf hne => ((h hb hready hrun ho).err f v hf hne).1

theorem edit {f : State → State} : (Act.edit f : Act σ Unit).Fails L r w := by
  intro _ _ _ _ e v he _
  cases he

/-- Reading the state does not fail. -/
theorem state_bind {f : State → Act σ α} (h : (f w.state).Fails L r w) :
    (Act.state >>= f).Fails L r w :=
  fun hb hready hrun =>
    h hb hready (L.course.closed hrun (.next .here (.of_const fun _ => rfl) rfl))

/-- What fails does not come to its last edit. -/
theorem bind_edit {g : α → State → State} (h : act.Moves L s r [] y [] w Q) :
    (act >>= fun a => Act.edit (g a)).Fails L r w := by
  intro hb hready hrun ho f v hf hne
  have hact := h hb hready (L.course.closed hrun (.first .here)) ho
  cases ha : act L.call w with
  | ok a u =>
    rw [bind_of_ok ha] at hf
    cases hf
  | error e u =>
    rw [bind_of_error ha] at hf
    cases hf
    exact (hact.err _ _ ha hne).1

theorem ofPanic_bind {e : Except Panic β} {f : β → Act σ α}
    (h : ∀ a, e = .ok a → (f a).Fails L r w) : (Act.ofPanic e >>= f).Fails L r w := by
  cases e with
  | ok a =>
    exact fun hb hready hrun => h a rfl hb hready (L.course.closed hrun (.congr .here fun _ => rfl))
  | error p =>
    intro _ _ _ ho f' v hf _
    cases hf
    exact ho

end Fails

/-! ## Notes -/

section Notes

variable {L : Law σ} {sit : Situation} {r x z : List Owed} {w : World σ}

/-- The parts of the state that notes leave alone: all but the journal and the metrics. -/
def Noted (w v : World σ) : Prop :=
  ∃ journal metrics, v = { w with state := { w.state with
    journal := journal, bridge := { w.state.bridge with metrics := metrics } } }

theorem report_moves (e : Log.Event) :
    (report e : Act σ Unit).Moves L sit r x x z w fun _ v => Noted w v :=
  .edit (.note (e :: w.state.journal) w.state.bridge.metrics) ⟨_, _, rfl⟩

theorem count_moves (name : String) (n : Nat) :
    (count name n : Act σ Unit).Moves L sit r x x x w fun _ v => Noted w v := by
  unfold count
  refine .state_bind (.ofOverflow_bind fun metrics _ => ?_)
  exact .edit (.note _ metrics) ⟨_, _, rfl⟩

theorem noted_of_count {call : Invoker σ} {name : String} {n : Nat} {v : World σ}
    (h : count name n call w = .ok () v) : Noted w v := by
  obtain ⟨_, _, hs, h⟩ := ok_of_bind h
  cases hs
  obtain ⟨metrics, u, hadd, h⟩ := ok_of_bind h
  cases h
  cases hm : w.state.bridge.metrics.add name n with
  | ok _ =>
    rw [hm] at hadd
    cases hadd
    exact ⟨w.state.journal, metrics, rfl⟩
  | error e =>
    rw [hm] at hadd
    cases hadd

theorem recordTiming_moves (name : String) :
    (recordTiming name : Act σ Unit).Moves L sit r x x z w fun _ v => Noted w v :=
  .edit (.note w.state.journal _) ⟨_, _, rfl⟩

end Notes

end Act

end TwinHeap
