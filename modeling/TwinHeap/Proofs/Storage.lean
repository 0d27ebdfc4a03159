import TwinHeap.Proofs.Runs
import TwinHeap.Proofs.Tables

/-!
# Storage — the cells that the bridge leaves alone

The bridge writes to cells of its own and to the places that it is told to write to. All other cells
stay as they are, as far as foreign code leaves them alone too: `guardLaw` is the law that says so,
for any set of cells.
-/

namespace TwinHeap

variable {σ : Type}

/-! ## Cells and frames -/

/-- The address does not lie in one of the cells. -/
def Address.Outside (K : Nat → Prop) (a : Address) : Prop := ∀ c n, a = .cell c n → ¬K c

theorem Address.Outside.mono {K K' : Nat → Prop} {a : Address} (h : a.Outside K)
    (hK : ∀ c, K' c → K c) : a.Outside K' :=
  fun c n ha hc => h c n ha (hK c hc)

namespace State

/-- The cells in `K` are as they were. -/
def Keeps (K : Nat → Prop) (s s' : State) : Prop :=
  ∀ c, K c → s'.memory.cells.get? c = s.memory.cells.get? c

/-- The cells of the running calls, the innermost first. -/
def frameCells (s : State) : List (List Nat) := s.bridge.frames.map CallFrame.cells

variable {K : Nat → Prop} {s s' s'' : State}

theorem Keeps.refl (s : State) : s.Keeps K s := fun _ _ => rfl

theorem Keeps.trans (h : s.Keeps K s') (h' : s'.Keeps K s'') : s.Keeps K s'' :=
  fun c hc => (h' c hc).trans (h c hc)

theorem Keeps.mono {K' : Nat → Prop} (h : s.Keeps K s') (hK : ∀ c, K' c → K c) : s.Keeps K' s' :=
  fun c hc => h c (hK c hc)

theorem keeps_of_memory (h : s'.memory = s.memory) : s.Keeps K s' := fun _ _ => by rw [h]

theorem keeps_allot (hb : ∀ c, K c → c < s.memory.next) {v : Value}
    (h : s'.memory = (s.memory.allot v).2) : s.Keeps K s' := by
  intro c hc
  rw [h]
  show (s.memory.cells.insert s.memory.next v).get? c = _
  rw [Table.get?_insert, if_neg (Nat.ne_of_gt (hb c hc))]

theorem keeps_discard {cell : Nat} (hn : ¬K cell) : s.Keeps K (s.discard cell) := by
  intro c hc
  show (s.memory.cells.erase cell).get? c = _
  rw [Table.get?_erase, if_neg (by rintro rfl; exact hn hc)]

theorem keeps_modify {cell : Nat} (hn : ¬K cell) {f : Value → Value}
    (h : s'.memory = s.memory.modify cell f) : s.Keeps K s' := by
  intro c hc
  rw [h]
  show (s.memory.cells.modify cell f).get? c = _
  rw [Table.get?_modify, if_neg (by rintro rfl; exact hn hc)]

theorem keeps_writeAt {a : Address} (ha : a.Outside K) (os : List Octet) :
    s.Keeps K (s.writeAt a os) := by
  cases a with
  | cell c n => exact keeps_modify (ha c n rfl) rfl
  | _ => exact keeps_of_memory rfl

theorem keeps_storeAt {a : Address} (ha : a.Outside K) (v : Value) :
    s.Keeps K (s.storeAt a v) := by
  cases a with
  | cell c n => exact keeps_modify (ha c n rfl) rfl
  | _ => exact keeps_of_memory rfl

/-- Storing a value makes no cell, and takes none from a call. -/
theorem frameCells_storeAt (s : State) (a : Address) (v : Value) :
    (s.storeAt a v).frameCells = s.frameCells ∧ (s.storeAt a v).memory.next = s.memory.next := by
  cases a <;> exact ⟨rfl, rfl⟩

/-- Where a cell is the same, resetting it gives the same. -/
theorem keeps_resetAt (h : s.Keeps K s') (p : Property) (a : Address) :
    (s.resetAt p a).Keeps K (s'.resetAt p a) := by
  cases a with
  | cell c n =>
    intro c' hc'
    show (s'.memory.cells.modify c _).get? c' = (s.memory.cells.modify c _).get? c'
    rw [Table.get?_modify, Table.get?_modify, h c' hc']
    by_cases hc : c = c'
    · subst hc
      have hvalue : s'.valueAt (.cell c n) = s.valueAt (.cell c n) := by
        show ((s'.memory.cells.get? c).getD _).skip n = ((s.memory.cells.get? c).getD _).skip n
        rw [h c hc']
      rw [if_pos rfl, if_pos rfl, hvalue]
    · rw [if_neg hc, if_neg hc]
  | _ => exact h

theorem memory_dropEntry (s : State) (host : Address) : (s.dropEntry host).memory = s.memory := by
  unfold dropEntry
  split <;> rfl

theorem memory_instantiate (s : State) (type : Nat) :
    (s.instantiate type).2.memory = s.memory ∧
      (s.instantiate type).2.bridge.frames = s.bridge.frames := by
  unfold instantiate
  split <;> exact ⟨rfl, rfl⟩

theorem frames_dropEntry (s : State) (host : Address) :
    (s.dropEntry host).bridge.frames = s.bridge.frames := by
  unfold dropEntry
  split <;> rfl

theorem keeps_leave {key : Redirector.Key}
    (hf : ∀ cells ∈ s.frameCells.take 1, ∀ c ∈ cells, ¬K c) : s.Keeps K (s.leave key) := by
  have hfold (cells : List Nat) (hcells : ∀ c ∈ cells, ¬K c) (m : Memory) (c : Nat) (hc : K c) :
      (cells.foldl Memory.discard m).cells.get? c = m.cells.get? c := by
    induction cells generalizing m with
    | nil => rfl
    | cons cell cells ih =>
      rw [List.foldl_cons, ih (fun c hc => hcells c (List.mem_cons_of_mem cell hc))]
      show (m.cells.erase cell).get? c = _
      rw [Table.get?_erase, if_neg (by rintro rfl; exact hcells cell List.mem_cons_self hc)]
  unfold leave
  dsimp only
  split
  · exact keeps_of_memory rfl
  · rename_i f fs hframes
    have hframes : s.bridge.frames = f :: fs := hframes
    refine fun c hc => hfold f.cells (hf _ ?_) s.memory c hc
    unfold frameCells
    rw [hframes]
    exact List.mem_cons_self

end State

/-! ## What changes do to them -/

theorem Request.Outcome.frames {r : Request} {s s' : State} (h : r.Outcome s s') :
    s'.bridge.frames = s.bridge.frames := by
  cases h <;> rfl

namespace Change

variable {T : Terms} {o o' : List Owed} {s s' : State}

/-- A frame is pushed when a redirected call begins and popped when it ends; in between only the
innermost one changes, and it lets go of no root. -/
theorem frames_cases (hc : Change T o s o' s') :
    (s'.bridge.frames = s.bridge.frames ∧ o'.countP Owed.isFrame = o.countP Owed.isFrame) ∨
      (∃ key, o' = .frame key :: o ∧ s'.bridge.frames = ⟨key, [], []⟩ :: s.bridge.frames) ∨
      (∃ key, o = .frame key :: o' ∧ T.base <:+ o' ∧ s'.bridge.frames = s.bridge.frames.tail) ∨
      ∃ key r f f' rest, o = .frame key :: r ∧ o' = o ∧ s.bridge.frames = f :: rest ∧
        s'.bridge.frames = f' :: rest ∧ f.roots ⊆ f'.roots ∧
          (f'.cells = f.cells ∨ f'.cells = s.memory.next :: f.cells) := by
  have hother {d : Owed} (hd : d.isFrame = false) (o : List Owed) :
      (d :: o).countP Owed.isFrame = o.countP Owed.isFrame :=
    List.countP_cons_of_neg (by simp [hd])
  -- Only the innermost frame is entered, left or added to.
  cases hc with
  | @write _ _ a => exact .inl ⟨by cases a <;> rfl, rfl⟩
  | @store _ _ a => exact .inl ⟨by cases a <;> rfl, rfl⟩
  | openCell => exact .inl ⟨rfl, hother rfl o⟩
  | closeCell => exact .inl ⟨rfl, (hother rfl o').symm⟩
  | clear => exact .inl ⟨s.frames_dropEntry _, rfl⟩
  | unmake => exact .inl ⟨s.frames_dropEntry _, (hother rfl o').symm⟩
  | make => exact .inl ⟨(s.memory_instantiate _).2, hother rfl o⟩
  | made => exact .inl ⟨rfl, (hother rfl o').symm⟩
  | sever => exact .inl ⟨rfl, hother rfl o⟩
  | severed => exact .inl ⟨rfl, (hother rfl o').symm⟩
  | enter key => exact .inr (.inl ⟨key, rfl, rfl⟩)
  | @leave _ _ key hb =>
    refine .inr (.inr (.inl ⟨key, rfl, hb, ?_⟩))
    unfold State.leave
    dsimp only
    split <;> rename_i hf
    · have hf : s.bridge.frames = [] := hf
      show s.bridge.frames = _
      rw [hf]
      rfl
    · have hf : s.bridge.frames = _ := hf
      rw [hf]
      rfl
  | @frameCell r _ key v =>
    cases hf : s.bridge.frames with
    | nil =>
      refine .inl ⟨?_, rfl⟩
      unfold State.frameCell
      simp only [hf]
    | cons f fs =>
      refine .inr (.inr (.inr ⟨key, r, f, { f with cells := s.memory.next :: f.cells }, fs, rfl, rfl,
        rfl, ?_, List.Subset.refl _, .inr rfl⟩))
      unfold State.frameCell
      simp only [hf]
      rfl
  | @root r _ key a =>
    cases hf : s.bridge.frames with
    | nil =>
      refine .inl ⟨?_, rfl⟩
      unfold State.root
      simp only [hf]
    | cons f fs =>
      refine .inr (.inr (.inr ⟨key, r, f, { f with roots := (Grip.make s.heap a .strong).1 :: f.roots },
        fs, rfl, rfl, rfl, ?_, List.subset_cons_self _ _, .inl rfl⟩))
      unfold State.root
      simp only [hf]
  | alone _ _ hf => exact .inl ⟨(Request.outcome hf s).frames, rfl⟩
  | _ => exact .inl ⟨rfl, rfl⟩

/-- In between, cells are added to the innermost frame only. -/
theorem frameCells_cases (hc : Change T o s o' s') :
    (s'.frameCells = s.frameCells ∧ o'.countP Owed.isFrame = o.countP Owed.isFrame) ∨
      (∃ key, o' = .frame key :: o ∧ s'.frameCells = [] :: s.frameCells) ∨
      (∃ key, o = .frame key :: o' ∧ s'.frameCells = s.frameCells.tail) ∨
      ∃ key r cells rest, o = .frame key :: r ∧ o' = o ∧ s.frameCells = cells :: rest ∧
        s'.frameCells = (s.memory.next :: cells) :: rest := by
  unfold State.frameCells
  obtain ⟨hf, ho⟩ | ⟨key, ho, hf⟩ | ⟨key, ho, -, hf⟩ |
    ⟨key, r, f, f', rest, ho, rfl, hold, hf, -, hcells⟩ := hc.frames_cases
  · exact .inl ⟨by rw [hf], ho⟩
  · exact .inr (.inl ⟨key, ho, by rw [hf]; rfl⟩)
  · exact .inr (.inr (.inl ⟨key, ho, by rw [hf, List.map_tail]⟩))
  · obtain hcells | hcells := hcells
    · exact .inl ⟨by rw [hf, hold, List.map_cons, hcells]; rfl, rfl⟩
    · refine .inr (.inr (.inr ⟨key, r, f.cells, rest.map CallFrame.cells, ho, rfl, ?_, ?_⟩))
      · rw [hold]
        rfl
      · rw [hf, List.map_cons, hcells]

/-- A change writes only where it may, and to cells of the bridge's own. -/
theorem keeps {K : Nat → Prop} (hc : Change T o s o' s')
    (hwrite : ∀ {a}, T.mayWrite a → a.Outside K)
    (hask : ∀ {r f}, T.mayAsk r → r.alone? = some f → s.Keeps K (f s))
    (hbelow : ∀ c, K c → c < s.memory.next) (howed : ∀ c, .cell c ∈ o → ¬K c)
    (hframes : ∀ cells ∈ s.frameCells.take (o.countP Owed.isFrame), ∀ c ∈ cells, ¬K c) :
    s.Keeps K s' := by
  cases hc with
  | openCell v => exact State.keeps_allot hbelow rfl
  | closeCell => exact State.keeps_discard (howed _ List.mem_cons_self)
  | write ha os => exact State.keeps_writeAt (hwrite ha) os
  | store ha v => exact State.keeps_storeAt (hwrite ha) v
  | clear => exact State.keeps_of_memory (s.memory_dropEntry _)
  | unmake => exact State.keeps_of_memory (s.memory_dropEntry _)
  | make => exact State.keeps_of_memory (s.memory_instantiate _).1
  | leave =>
    refine State.keeps_leave fun cells hcells => hframes cells ?_
    rw [List.countP_cons_of_pos rfl]
    exact List.take_subset_take_left _ (Nat.le_add_left 1 _) hcells
  | frameCell v => exact State.keeps_allot hbelow rfl
  | root a =>
    refine State.keeps_of_memory ?_
    unfold State.root
    split <;> rfl
  | alone _ ha hf => exact hask ha hf
  | _ => exact State.keeps_of_memory rfl

end Change

/-! ## Calls -/

theorem Owed.countP_isFrame_of_core {o o' : List Owed} (h : o'.map core = o.map core) :
    o'.countP isFrame = o.countP isFrame := by
  have hframe : isFrame ∘ core = isFrame := funext fun d => by cases d <;> rfl
  rw [← hframe, ← List.countP_map, h, List.countP_map]

/-- Beneath the frames that are owed lie the cells that lay there before. The frames themselves have
cells from `base` on. -/
structure World.Above (base : Nat) (cells : List (List Nat)) (o : List Owed) (w : World σ) : Prop where
  next : base ≤ w.state.memory.next
  frames : ∃ above, w.state.frameCells = above ++ cells ∧ above.length = o.countP Owed.isFrame ∧
    ∀ own ∈ above, ∀ c ∈ own, base ≤ c

namespace World.Above

variable {base : Nat} {cells : List (List Nat)} {o o' : List Owed} {w : World σ}

/-- The phases of operations do not matter for the frames. -/
theorem congr (hc : o'.map Owed.core = o.map Owed.core) (h : w.Above base cells o) :
    w.Above base cells o' := by
  obtain ⟨above, hcells, hlength, hown⟩ := h.frames
  exact ⟨h.next, above, hcells, hlength.trans (Owed.countP_isFrame_of_core hc).symm, hown⟩

theorem change {T : Terms} {s' : State} (h : w.Above base cells o) (hc : Change T o w.state o' s') :
    World.Above base cells o' { w with state := s' } := by
  refine ⟨Nat.le_trans h.next hc.grows.next, ?_⟩
  obtain ⟨above, hcells, hlength, hown⟩ := h.frames
  obtain ⟨hf, ho⟩ | ⟨key, rfl, hf⟩ | ⟨key, rfl, hf⟩ | ⟨key, r, first, rest, rfl, rfl, hold, hf⟩ :=
    hc.frameCells_cases
  · exact ⟨above, hf.trans hcells, hlength.trans ho.symm, hown⟩
  · refine ⟨[] :: above, by rw [hf, hcells]; rfl, ?_, List.forall_mem_cons.2 ⟨nofun, hown⟩⟩
    rw [List.countP_cons_of_pos rfl, ← hlength]
    rfl
  · rw [List.countP_cons_of_pos rfl] at hlength
    cases above with
    | nil => cases hlength
    | cons first above =>
      exact ⟨above, by rw [hf, hcells]; rfl, Nat.succ.inj hlength, (List.forall_mem_cons.1 hown).2⟩
  · rw [List.countP_cons_of_pos rfl] at hlength
    cases above with
    | nil => cases hlength
    | cons top above =>
      rw [hold] at hcells
      obtain ⟨rfl, rfl⟩ := List.cons.inj hcells
      obtain ⟨htop, habove⟩ := List.forall_mem_cons.1 hown
      refine ⟨(w.state.memory.next :: first) :: above, hf, ?_, ?_⟩
      · rw [List.countP_cons_of_pos rfl, ← hlength]
        rfl
      · exact List.forall_mem_cons.2 ⟨List.forall_mem_cons.2 ⟨h.next, htop⟩, habove⟩

/-- The innermost call is left: the cells from before it are not discarded. -/
theorem leave {key : Redirector.Key} (h : w.Above base cells (.frame key :: o)) :
    w.state.Keeps (fun c => c < base) (w.state.leave key) := by
  obtain ⟨above, hcells, hlength, hown⟩ := h.frames
  rw [List.countP_cons_of_pos rfl] at hlength
  cases above with
  | nil => cases hlength
  | cons top above =>
    refine State.keeps_leave fun own hmem c hc hlt => ?_
    rw [hcells] at hmem
    obtain rfl : own = top := by simpa using hmem
    exact Nat.not_lt_of_le ((List.forall_mem_cons.1 hown).1 c hc) hlt

end World.Above

/-- The cells of the running calls are the same wherever a call that they do not belong to ends. -/
def framesRealm (base : Nat) (cells : List (List Nat)) : Realm σ :=
  .everywhere (World.Above base cells) World.Above.congr (fun _ h => ⟨h.next, h.frames⟩)
    (fun _ _ h => ⟨h.next, h.frames⟩) (fun _ h => ⟨h.next, h.frames⟩) fun h hc => h.change hc

/-- Foreign code leaves the cells of the calls around it with them. -/
theorem frameCells_callAt (n m : Nat) (inv : Invocation) (w : World σ) :
    Ends (callAt n m inv w) (fun _ v => v.state.frameCells = w.state.frameCells)
      fun f v => f ≠ .exhausted → v.state.frameCells = w.state.frameCells := by
  have hend {v : World σ} (h : v.Above 0 w.state.frameCells []) :
      v.state.frameCells = w.state.frameCells := by
    obtain ⟨above, hcells, hlength, -⟩ := h.frames
    rw [hcells, List.eq_nil_of_length_eq_zero hlength]
    rfl
  apply ((framesRealm 0 w.state.frameCells).called (o := []) trivial trivial
    ⟨Nat.zero_le _, [], rfl, rfl, nofun⟩).mono
  · exact fun _ _ hv => hend hv
  · exact fun _ _ hv hne => hend (hv hne)

namespace Invoker

/-- Called so, a method leaves the cells in `K` alone. -/
def Spares (call : Invoker σ) (K : Nat → Prop) : Calls σ := fun m inv w =>
  Ends (call m inv w) (fun _ v => w.state.Keeps K v.state)
    fun f v => f ≠ .exhausted → w.state.Keeps K v.state

open Classical in
/-- Calls which are given up where they would not leave the cells in `K` alone. -/
noncomputable def guard (call : Invoker σ) (K : Nat → Prop) : Invoker σ := fun m inv w =>
  if call.Spares K m inv w then call m inv w else .error .exhausted w

variable {call : Invoker σ} {K : Nat → Prop} {m : Nat} {inv : Invocation} {w : World σ}

theorem guard_of_spares (h : call.Spares K m inv w) : call.guard K m inv w = call m inv w :=
  if_pos h

theorem error_of_guard {f : Failure} {v : World σ} (h : call.guard K m inv w = .error f v)
    (hf : f ≠ .exhausted) : call m inv w = .error f v := by
  by_cases hs : call.Spares K m inv w
  · exact (guard_of_spares hs).symm.trans h
  · rw [show call.guard K m inv w = .error .exhausted w from if_neg hs] at h
    cases h
    exact absurd rfl hf

theorem guard_until (call : Invoker σ) (K : Nat → Prop) : (call.guard K).Until .exhausted call := by
  intro m inv w
  by_cases h : call.Spares K m inv w
  · exact .inl (guard_of_spares h)
  · exact .inr ⟨w, if_neg h⟩

/-- Fewer cells are left alone more often. -/
theorem Spares.mono {K' : Nat → Prop} (h : call.Spares K m inv w) (hK : ∀ c, K' c → K c) :
    call.Spares K' m inv w := by
  obtain ⟨hok, herr⟩ := ends_iff.1 h
  exact ends_iff.2 ⟨fun a v hv => (hok a v hv).mono hK, fun f v hf hne => (herr f v hf hne).mono hK⟩

theorem guard_until_guard (call : Invoker σ) (K P : Nat → Prop) :
    (call.guard K).Until .exhausted (call.guard fun c => K c ∧ P c) := by
  intro m inv w
  by_cases h : call.Spares K m inv w
  · rw [guard_of_spares h]
    exact .inl (guard_of_spares (h.mono fun c hc => hc.1)).symm
  · exact .inr ⟨w, if_neg h⟩

/-- What holds of the calls that leave the cells alone holds of all that are not given up. -/
theorem ends_guard {Q : Except ForeignException (Option Address) → World σ → Prop}
    {E : World σ → Prop} (h : call.Spares K m inv w →
      Ends (call m inv w) Q fun f v => f ≠ .exhausted → E v) :
    Ends (call.guard K m inv w) Q fun f v => f ≠ .exhausted → E v := by
  by_cases hs : call.Spares K m inv w
  · rw [guard_of_spares hs]
    exact h hs
  · rw [show call.guard K m inv w = .error .exhausted w from if_neg hs]
    exact fun hne => absurd rfl hne

end Invoker

/-! ## The law -/

/-- The cells in `K` are not written to. -/
def Terms.guarding (K : Nat → Prop) : Terms where
  base := []
  mayAsk _ := False
  mayWrite := Address.Outside K
  mayMake _ := True
  maySever _ := True
  ready _ := True

/-- The cells in `K` are as they were in `old`, and nobody gives them back. -/
structure World.Guards (K : Nat → Prop) (old : State) (o : List Owed) (w : World σ) : Prop where
  below : ∀ c, K c → c < w.state.memory.next
  keeps : old.Keeps K w.state
  owed : ∀ c, .cell c ∈ o → ¬K c
  frames : ∀ cells ∈ w.state.frameCells.take (o.countP Owed.isFrame), ∀ c ∈ cells, ¬K c

namespace World.Guards

variable {K : Nat → Prop} {old : State} {o o' b : List Owed} {w v : World σ} {m : Nat}
  {inv : Invocation} {T : Terms}

theorem mono {K' : Nat → Prop} (h : w.Guards K old o) (hK : ∀ c, K' c → K c) :
    w.Guards K' old o where
  below c hc := h.below c (hK c hc)
  keeps := h.keeps.mono hK
  owed c hm hc := h.owed c hm (hK c hc)
  frames cells hm c hmem hc := h.frames cells hm c hmem (hK c hc)

theorem noted (h : w.Guards K old o) (hn : Act.Noted w v) : v.Guards K old o := by
  obtain ⟨journal, metrics, rfl⟩ := hn
  exact ⟨h.below, h.keeps, h.owed, h.frames⟩

/-- Cells that are there, before anything is owed. -/
theorem start (hK : ∀ c, K c → c < w.state.memory.next) : w.Guards K w.state [] where
  below := hK
  keeps := .refl _
  owed := nofun
  frames := nofun

theorem fresh (h : w.Guards K old o) (n : Nat) : (Address.cell w.state.memory.next n).Outside K := by
  rintro c _ ⟨⟩ hc
  exact absurd (h.below _ hc) (Nat.lt_irrefl _)

theorem change {s' : State} (h : w.Guards K old o) (hc : Change T o w.state o' s')
    (hwrite : ∀ {a}, T.mayWrite a → a.Outside K)
    (hask : ∀ {r f}, T.mayAsk r → r.alone? = some f → w.state.Keeps K (f w.state)) :
    World.Guards K old o' { w with state := s' } where
  below c hK := Nat.lt_of_lt_of_le (h.below c hK) hc.grows.next
  keeps := h.keeps.trans (hc.keeps hwrite hask h.below h.owed h.frames)
  owed := by
    have hnext : ¬K w.state.memory.next := h.fresh 0 _ 0 rfl
    have howed := h.owed
    cases hc with
    | openCell v =>
      intro c hm
      obtain hm | hm := List.mem_cons.1 hm
      · cases hm
        exact hnext
      · exact howed c hm
    | make | sever | enter => simpa using howed
    | closeCell | made | unmake | severed | leave =>
      exact fun c hm => howed c (List.mem_cons_of_mem _ hm)
    | _ => exact howed
  frames := by
    have hnext : ¬K w.state.memory.next := h.fresh 0 _ 0 rfl
    have hframes := h.frames
    show ∀ cells ∈ s'.frameCells.take _, _
    obtain ⟨hf, ho⟩ | ⟨key, rfl, hf⟩ | ⟨key, rfl, hf⟩ | ⟨key, r, cells, rest, rfl, rfl, hold, hf⟩ :=
      hc.frameCells_cases
    · rwa [hf, ho]
    · rw [hf, List.countP_cons_of_pos rfl, List.take_succ_cons]
      exact List.forall_mem_cons.2 ⟨nofun, hframes⟩
    · rw [List.countP_cons_of_pos rfl] at hframes
      rw [hf]
      intro cells hcells
      refine hframes cells ?_
      cases hfc : w.state.frameCells with
      | nil => rw [hfc] at hcells; simp at hcells
      | cons first rest =>
        rw [hfc] at hcells
        exact List.mem_cons_of_mem first hcells
    · rw [List.countP_cons_of_pos rfl, hold, List.take_succ_cons] at hframes
      rw [List.countP_cons_of_pos rfl, hf, List.take_succ_cons]
      obtain ⟨hfirst, hrest⟩ := List.forall_mem_cons.1 hframes
      refine List.forall_mem_cons.2 ⟨fun c hc => ?_, hrest⟩
      obtain rfl | hc := List.mem_cons.1 hc
      · exact hnext
      · exact hfirst c hc

/-- The cells of a call that is left were its own. -/
theorem leave {key : Redirector.Key} (h : w.Guards K old (.frame key :: o)) :
    World.Guards K old o { w with state := w.state.leave key } :=
  have hleave : Change (.guarding K) (.frame key :: o) w.state o (w.state.leave key) :=
    .leave List.nil_suffix
  h.change hleave id fun ha => ha.elim

/-- After a call that left the cells alone, and the cells of the running calls. -/
theorem called (h : w.Guards K old o) (hr : Reason T o w.state m inv o' b)
    (hk : w.state.Keeps K v.state) (hg : w.state.Grows v.state)
    (hf : v.state.frameCells = w.state.frameCells) : v.Guards K old o' ∧ v.Guards K old b := by
  have hcore {o' : List Owed} (hc : o'.map Owed.core = o.map Owed.core) : v.Guards K old o' := by
    refine ⟨fun c hK => Nat.lt_of_lt_of_le (h.below c hK) hg.next, h.keeps.trans hk, ?_, ?_⟩
    · intro c hm
      have hm : Owed.core (.cell c) ∈ o.map Owed.core := hc ▸ List.mem_map_of_mem hm
      obtain ⟨d, hd, heq⟩ := List.mem_map.1 hm
      cases d with
      | cell c' =>
        cases heq
        exact h.owed c hd
      | _ => cases heq
    · rw [hf, Owed.countP_isFrame_of_core hc]
      exact h.frames
  exact ⟨hcore hr.core.1, hcore hr.core.2⟩

/-- However a call ends that leaves the cells alone. -/
theorem ends_called {n : Nat} (h : w.Guards K old o) (hr : Reason T o w.state m inv o' b)
    (hs : (callAt n).Spares K m inv w) :
    Ends (callAt n m inv w) (fun a v => v.Guards K old (Owed.after a o' b))
      fun f v => f ≠ .exhausted → v.Guards K old b := by
  obtain ⟨hkeeps, hkeeps'⟩ := ends_iff.1 hs
  obtain ⟨hgrows, hgrows'⟩ := ends_iff.1 (callAt_grows n m inv w)
  obtain ⟨hframes, hframes'⟩ := ends_iff.1 (frameCells_callAt n m inv w)
  refine ends_iff.2 ⟨fun a v hv => ?_, fun f v hf hne =>
    (h.called hr (hkeeps' f v hf hne) (hgrows' f v hf hne) (hframes' f v hf hne)).2⟩
  have hafter := h.called hr (hkeeps a v hv) (hgrows a v hv) (hframes a v hv)
  cases a with
  | ok a => exact hafter.1
  | error x => exact hafter.2

end World.Guards

/-- The bridge leaves the cells in `K` alone, where foreign code does. -/
noncomputable def guardLaw (n : Nat) (K : Nat → Prop) (old : State) : Law σ where
  toTerms := .guarding K
  call := Invoker.guard (callAt n) K
  course := .any _
  holds := World.Guards K old
  grows m inv w := Invoker.ends_guard fun _ => callAt_grows n m inv w
  ready_cons _ _ := trivial
  fresh h := h.fresh
  change h hc := h.change hc id fun ha => ha.elim
  called h hr _ := Invoker.ends_guard fun hspares => h.ends_called hr hspares

end TwinHeap
