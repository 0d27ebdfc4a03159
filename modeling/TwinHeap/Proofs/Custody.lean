import Mathlib.Logic.ExistsUnique
import TwinHeap.Proofs.Anchors

/-!
# Custody — what becomes of proxy handles

Proxy handles are created on objects of the foreign heap, change their strength, are released and
dropped, while objects are allocated and collections run. `Custody.after` is what any such history
comes to. The invariant is `Custody.Kept`: the handles of the collector are those of the proxy handles
that are neither released nor dropped, one each, and each of them still says what its proxy handle was
created on. `handles_in_custody` is what follows from it.
-/

namespace TwinHeap

/-! ## One hold -/

namespace Grip

variable {g : Grip} {a : Address} {h h' : Heap} {s : Strength}

/-- A hold that was taken on `a` has a handle unless it was released. The handle is as weak as the hold
says and leads to `a` as long as that is alive, and a strong hold keeps it alive. -/
structure Keeps (g : Grip) (a : Address) (h : Heap) : Prop where
  handle : g.handle = none ↔ g.strength = .released
  entry : ∀ k, g.handle = some k →
    h.handles.get? k = some ⟨if h.isAlive a then some a else none, g.strength == .weak⟩
  alive : g.strength = .strong → h.isAlive a = true

theorem nextHandle_release (g : Grip) (h : Heap) : (g.release h).2.nextHandle = h.nextHandle := by
  obtain ⟨_ | k, s⟩ := g <;> rfl

theorem keeps_released (a : Address) (h : Heap) : Keeps ⟨none, .released⟩ a h :=
  ⟨iff_of_true rfl rfl, nofun, nofun⟩

/-- It depends on its own handle and on its object only. -/
theorem Keeps.congr (hk : g.Keeps a h) (hg : g.gcHandle? h' = g.gcHandle? h)
    (ha : h'.isAlive a = h.isAlive a) : g.Keeps a h' := by
  refine ⟨hk.handle, fun k hhandle => ?_, fun hs => ha ▸ hk.alive hs⟩
  have hget : h'.handles.get? k = h.handles.get? k := by
    rw [gcHandle?, gcHandle?, hhandle] at hg
    exact hg
  rw [hget, ha]
  exact hk.entry k hhandle

/-- The object held is the one that the hold was taken on. -/
theorem Keeps.target?_eq (hk : g.Keeps a h) :
    g.target? h = if g.strength ≠ .released ∧ h.isAlive a then some a else none := by
  rw [Grip.target?_eq, gcHandle?]
  cases hg : g.handle with
  | none =>
    rw [if_neg fun h => h.1 (hk.handle.1 hg)]
    rfl
  | some k =>
    have hheld : g.strength ≠ .released := fun hr => by
      cases hg.symm.trans (hk.handle.2 hr)
    rw [Option.bind_some, hk.entry k hg, Option.bind_some]
    by_cases ha : h.isAlive a = true
    · rw [if_pos ha, if_pos ⟨hheld, ha⟩, Option.filter_some_pos ha]
    · rw [if_neg ha, if_neg fun h => ha h.2, Option.filter_none]

theorem keeps_make (ha : h.isAlive a = true) (s : Strength) :
    (make h a s).1.Keeps a (make h a s).2 := by
  by_cases hs : s = .released
  · subst hs
    exact keeps_released a h
  · have halive := Heap.isAlive_make h a s a
    rw [Heap.make_eq h a hs] at halive ⊢
    refine ⟨iff_of_false nofun hs, ?_, fun _ => halive.trans ha⟩
    rintro k ⟨⟩
    rw [halive, ha, Table.get?_insert, if_pos rfl, if_pos rfl]

theorem Keeps.setStrength (hk : g.Keeps a h) (s : Strength) :
    (g.setStrength h s).1.Keeps a (g.setStrength h s).2 := by
  obtain he | ⟨he, -⟩ | ⟨target, ht, he⟩ := Heap.setStrength_cases g h s
  · rw [he]
    exact hk
  · rw [he]
    exact keeps_released a _
  · rw [hk.target?_eq] at ht
    split at ht
    case isFalse => cases ht
    case isTrue hlive =>
      cases ht
      rw [he]
      exact keeps_make ((Heap.isAlive_release g h a).trans hlive.2) s

/-- A hold that is to change its strength is taken anew as long as its object is alive. -/
theorem Keeps.setStrength_eq (hk : g.Keeps a h) (hheld : g.strength ≠ .released)
    (hs : s ≠ g.strength) : g.setStrength h s =
      if s ≠ .released ∧ h.isAlive a then make (g.release h).2 a s
      else (⟨none, .released⟩, (g.release h).2) := by
  have hmoves : ¬(decide (s = g.strength) || decide (g.strength = .released)) = true := by
    simp [hs, hheld]
  rw [Grip.setStrength, if_neg hmoves, hk.target?_eq]
  by_cases hr : s = .released
  · rw [if_pos hr, if_neg fun h => h.1 hr]
    rfl
  · rw [if_neg hr]
    by_cases ha : h.isAlive a = true
    · rw [if_pos ⟨hheld, ha⟩, if_pos ⟨hr, ha⟩]
    · rw [if_neg fun h => ha h.2, if_neg fun h => ha h.2]

/-- It gives its handle back. It keeps what it holds, or had nothing left to hold and is released. -/
theorem Keeps.change (hk : g.Keeps a h) (hlt : ∀ k, g.handle = some k → k < h.nextHandle)
    (hheld : g.strength ≠ .released) (hs : s ≠ g.strength) :
    ∃ old, g.handle = some old ∧ (g.setStrength h s).2.handles.get? old = none ∧
      (s ≠ .released → (g.setStrength h s).1.target? (g.setStrength h s).2 = g.target? h) ∧
      (g.setStrength h s).1.strength = if h.isAlive a then s else .released := by
  obtain ⟨old, hold⟩ : ∃ old, g.handle = some old :=
    Option.ne_none_iff_exists'.1 fun hnone => hheld (hk.handle.1 hnone)
  have hfreed : (g.release h).2.handles.get? old = none := by
    rw [Heap.handles_release, hold]
    exact (Table.get?_erase _ _ _).trans (if_pos rfl)
  refine ⟨old, hold, ?_, fun hs => Heap.target?_setStrength_self g h hs, ?_⟩ <;>
    rw [hk.setStrength_eq hheld hs]
  · split
    case isTrue hnew =>
      -- The new handle is none that was given before.
      have hne : (g.release h).2.nextHandle ≠ old := by
        rw [nextHandle_release]
        exact Nat.ne_of_gt (hlt old hold)
      rw [Heap.make_eq _ a hnew.1]
      exact (Table.get?_insert _ _ _ _).trans ((if_neg hne).trans hfreed)
    case isFalse => exact hfreed
  · split
    case isTrue hnew => rw [Heap.make_eq _ a hnew.1, if_pos hnew.2]
    case isFalse hnone =>
      by_cases ha : h.isAlive a = true
      · rw [if_pos ha, Classical.not_not.1 fun hr => hnone ⟨hr, ha⟩]
      · rw [if_neg ha]

theorem Keeps.collect (hk : g.Keeps a h) (full : Bool) : g.Keeps a (h.collect full) := by
  have hroot {k : Nat} (hg : g.handle = some k) (hs : g.strength = .strong) :
      (h.collect full).isAlive a = true := by
    have hentry := hk.entry k hg
    rw [if_pos (hk.alive hs), hs] at hentry
    rw [Heap.isAlive_collect, hk.alive hs, Bool.true_and]
    exact List.contains_iff_mem.2 (Heap.mem_roots hentry)
  refine ⟨hk.handle, fun k hg => ?_, fun hs => ?_⟩
  · rw [Heap.handles_collect, Table.get?_mapValues, hk.entry k hg, Option.map_some]
    refine congrArg some ?_
    cases hs : g.strength with
    | released => cases hg.symm.trans (hk.handle.2 hs)
    | strong => rw [Heap.settled_of_strong h rfl, hk.alive hs, hroot hg hs]
    | weak =>
      -- The target is alive or gone already, so nothing is missed where nothing dies.
      have htarget : (h.settled ⟨if h.isAlive a then some a else none, true⟩).target =
          if (h.collect full).isAlive a then some a else none := by
        rw [Heap.target_settled rfl (by cases ha : h.isAlive a <;> simp [Option.filter, ha])]
        show _ = if h.sweep.isAlive a then _ else _
        have hsub : h.sweep.isAlive a = true → h.isAlive a = true := fun hc =>
          (Bool.and_eq_true_iff.1 ((Heap.isAlive_collect h full a).symm.trans hc)).1
        by_cases hc : h.sweep.isAlive a = true
        · rw [if_pos hc, if_pos (hsub hc), Option.filter_some_pos hc]
        · rw [if_neg hc]
          cases h.isAlive a with
          | false => rfl
          | true => exact Option.filter_some_neg (Bool.eq_false_iff.2 hc)
      rw [← htarget]
      exact congrArg (GcHandle.mk _) (Heap.weak_settled h _)
  · cases hg : g.handle with
    | none => cases hs.symm.trans (hk.handle.1 hg)
    | some k => exact hroot hg hs

end Grip

/-! ## Histories -/

/-- A proxy handle: the object that it was created on, and the hold on it, until it is dropped. -/
structure Holder where
  object : Address
  grip : Option Grip
deriving DecidableEq, Repr

/-- It was neither released nor dropped. -/
def Holder.isLive (x : Holder) : Bool := x.grip.any fun g => g.strength ≠ .released

def Holder.handle? (x : Holder) : Option Nat := x.grip.bind Grip.handle

/-- The foreign heap with the proxy handles that were created, known by their places. -/
structure Custody where
  heap : Heap
  holders : List Holder
deriving DecidableEq, Repr

/-- What is done with proxy handles and beside them. -/
inductive Custody.Op
  | create (object : Address) (s : Strength)
  | setStrength (i : Nat) (s : Strength)
  | release (i : Nat)
  | drop (i : Nat)
  | collect (full : Bool)
  | allocate (m : Managed)

namespace Custody

def empty : Custody := ⟨.empty, []⟩

/-- Changes a proxy handle that was not dropped. -/
def update (c : Custody) (i : Nat) (f : Grip → Heap → Option Grip × Heap) : Custody :=
  match c.holders[i]? with
  | some ⟨a, some g⟩ => ⟨(f g c.heap).2, c.holders.set i ⟨a, (f g c.heap).1⟩⟩
  | _ => c

/-- Proxy handles are created on objects that are alive. -/
def apply (c : Custody) : Op → Custody
  | .create a s =>
    if c.heap.isAlive a then
      ⟨(Grip.make c.heap a s).2, c.holders ++ [⟨a, some (Grip.make c.heap a s).1⟩]⟩
    else c
  | .setStrength i s => c.update i fun g h => (some (g.setStrength h s).1, (g.setStrength h s).2)
  | .release i => c.update i fun g h => (some (g.release h).1, (g.release h).2)
  | .drop i => c.update i fun g h => (none, (g.release h).2)
  | .collect full => { c with heap := c.heap.collect full }
  | .allocate m => { c with heap := (c.heap.allocate m).2 }

/-- What a history comes to. -/
def after (c : Custody) (ops : List Op) : Custody := ops.foldl apply c

/-- The proxy handle at `i` was created on `a` and was not dropped, and this is its hold. -/
def Holds (c : Custody) (i : Nat) (a : Address) (g : Grip) : Prop :=
  c.holders[i]? = some ⟨a, some g⟩

/-- The proxy handle at `i` has this handle of the collector. -/
def Owns (c : Custody) (i k : Nat) : Prop := ∃ x, c.holders[i]? = some x ∧ x.handle? = some k

/-- The handles of the collector are those of the proxy handles, one each, and every one leads to what
its proxy handle was created on. -/
structure Kept (c : Custody) : Prop where
  accounts : c.heap.Accounts (c.holders.filterMap Holder.grip)
  numbered : c.heap.Numbered
  given : ∀ x ∈ c.holders, c.heap.Given x.object
  keeps : ∀ x ∈ c.holders, ∀ g, x.grip = some g → g.Keeps x.object c.heap

/-- What an operation does to the hold `g` on `a`, and that it leaves the others alone. -/
structure Changes (g : Grip) (a : Address) (h : Heap) (g' : Option Grip) (h' : Heap) : Prop where
  accounts : ∀ gs, h.Accounts (g :: gs) → h'.Accounts (g'.toList ++ gs)
  objects : h'.objects = h.objects ∧ h'.nextObject = h.nextObject
  others : ∀ gs, h.Accounts (g :: gs) → ∀ other ∈ gs, other.gcHandle? h' = other.gcHandle? h
  keeps : ∀ new, g' = some new → new.Keeps a h'
  /-- It has the handle that it had, or a new one. -/
  handle : ∀ k, g'.bind Grip.handle = some k → g.handle = some k ∨ h.nextHandle ≤ k
  next : h.nextHandle ≤ h'.nextHandle
  released : g.strength = .released → g' = some g ∨ g' = none

section Changes

variable {g : Grip} {a : Address} {h : Heap}

theorem changes_release (hk : g.Keeps a h) {g' : Option Grip}
    (hg : g' = none ∨ g' = some ⟨none, .released⟩) : Changes g a h g' (g.release h).2 := by
  refine ⟨fun gs ha => ?_, Heap.objects_release g h, fun gs ha other ho => Heap.gcHandle?_release ha ho,
    ?_, ?_, Nat.le_of_eq (g.nextHandle_release h).symm, fun hr => ?_⟩
  · obtain rfl | rfl := hg
    · exact ha.release
    · exact ha.release.make a .released
  · rintro new rfl
    obtain ⟨⟩ := hg.resolve_left nofun
    exact Grip.keeps_released a _
  · intro k hk
    obtain rfl | rfl := hg <;> cases hk
  · have hsame : g = ⟨none, .released⟩ := by
      rw [← hr, ← hk.handle.2 hr]
    exact hg.symm.imp_left fun hg => hg.trans (congrArg some hsame.symm)

theorem changes_setStrength (hk : g.Keeps a h) (s : Strength) :
    Changes g a h (some (g.setStrength h s).1) (g.setStrength h s).2 := by
  -- An entry keeps its handle, drops it, or takes the next one.
  have hnew : ((g.setStrength h s).1.handle = g.handle ∨ (g.setStrength h s).1.handle = none ∨
      (g.setStrength h s).1.handle = some h.nextHandle) ∧
      h.nextHandle ≤ (g.setStrength h s).2.nextHandle := by
    obtain he | ⟨he, -⟩ | ⟨target, -, he⟩ := Heap.setStrength_cases g h s
    · rw [he]
      exact ⟨.inl rfl, Nat.le_refl _⟩
    · rw [he]
      exact ⟨.inr (.inl rfl), Nat.le_of_eq (g.nextHandle_release h).symm⟩
    · rw [he, ← g.nextHandle_release h]
      by_cases hs : s = .released
      · subst hs
        exact ⟨.inr (.inl rfl), Nat.le_refl _⟩
      · rw [Heap.make_eq _ target hs]
        exact ⟨.inr (.inr rfl), Nat.le_succ _⟩
  refine ⟨fun gs ha => ha.setStrength s, Heap.objects_setStrength g h s,
    fun gs ha other ho => Heap.gcHandle?_setStrength ha ho s, ?_, fun k hk => ?_, hnew.2,
    fun hr => .inl (by rw [Heap.setStrength_of_released hr])⟩
  · rintro _ ⟨⟩
    exact hk.setStrength s
  · have hk : (g.setStrength h s).1.handle = some k := hk
    obtain hsame | hnone | hnext := hnew.1
    · exact .inl (hsame.symm.trans hk)
    · cases hnone.symm.trans hk
    · cases hnext.symm.trans hk
      exact .inr (Nat.le_refl _)

end Changes

/-- What one operation can do. -/
inductive Step (c : Custody) : Custody → Prop
  | stay : Step c c
  | create {a : Address} {s : Strength} (ha : c.heap.isAlive a = true) :
      Step c ⟨(Grip.make c.heap a s).2, c.holders ++ [⟨a, some (Grip.make c.heap a s).1⟩]⟩
  | collect {full : Bool} : Step c { c with heap := c.heap.collect full }
  | allocate {m : Managed} : Step c { c with heap := (c.heap.allocate m).2 }
  | change {i : Nat} {a : Address} {g : Grip} {g' : Option Grip} {h' : Heap} (hi : c.Holds i a g)
      (hg : g.Keeps a c.heap → Changes g a c.heap g' h') : Step c ⟨h', c.holders.set i ⟨a, g'⟩⟩

theorem step_update (c : Custody) (i : Nat) {f : Grip → Heap → Option Grip × Heap}
    (hf : ∀ g a, g.Keeps a c.heap → Changes g a c.heap (f g c.heap).1 (f g c.heap).2) :
    Step c (c.update i f) := by
  unfold update
  split
  case h_1 a g hi => exact .change hi (hf g a)
  case h_2 => exact .stay

theorem step_apply (c : Custody) (op : Op) : Step c (c.apply op) := by
  cases op with
  | create a s =>
    show Step c (if _ then _ else _)
    split
    case isTrue ha => exact .create ha
    case isFalse => exact .stay
  | setStrength i s =>
    exact c.step_update i (f := fun g h => (some (g.setStrength h s).1, (g.setStrength h s).2))
      fun g a hk => changes_setStrength hk s
  | release i =>
    exact c.step_update i (f := fun g h => (some (g.release h).1, (g.release h).2))
      fun g a hk => changes_release hk (.inr rfl)
  | drop i =>
    exact c.step_update i (f := fun g h => (none, (g.release h).2))
      fun g a hk => changes_release hk (.inl rfl)
  | collect full => exact .collect
  | allocate m => exact .allocate

theorem apply_setStrength {c : Custody} {i : Nat} {a : Address} {g : Grip} (hi : c.Holds i a g)
    (s : Strength) : c.apply (.setStrength i s) =
      ⟨(g.setStrength c.heap s).2, c.holders.set i ⟨a, some (g.setStrength c.heap s).1⟩⟩ := by
  have hi : c.holders[i]? = some ⟨a, some g⟩ := hi
  unfold apply update
  dsimp only
  rw [hi]

theorem grips_perm (l₁ l₂ : List Holder) (x : Holder) :
    ((l₁ ++ x :: l₂).filterMap Holder.grip).Perm
      (x.grip.toList ++ (l₁.filterMap Holder.grip ++ l₂.filterMap Holder.grip)) := by
  rw [List.filterMap_append]
  cases hx : x.grip with
  | none =>
    rw [List.filterMap_cons_none hx]
    exact .refl _
  | some g =>
    rw [List.filterMap_cons_some hx]
    exact List.perm_middle

namespace Kept

variable {c c' : Custody}

theorem empty : Custody.empty.Kept :=
  ⟨⟨.nil, .nil, nofun, nofun⟩, ⟨.nil, nofun⟩, nofun, nofun⟩

theorem create (hc : c.Kept) {a : Address} (ha : c.heap.isAlive a = true) (s : Strength) :
    Kept ⟨(Grip.make c.heap a s).2, c.holders ++ [⟨a, some (Grip.make c.heap a s).1⟩]⟩ := by
  have hgiven (b : Address) (hb : c.heap.Given b) : (Grip.make c.heap a s).2.Given b :=
    hb.mono (Nat.le_of_eq (Heap.objects_make c.heap a s).2.symm)
  refine ⟨?_, hc.numbered.make a s, fun x hx => ?_, fun x hx g hg => ?_⟩
  · refine (hc.accounts.make a s).congr ?_
    rw [List.filterMap_append]
    exact (List.perm_append_singleton _ _).symm
  · obtain hx | hx := List.mem_append.1 hx
    · exact hgiven _ (hc.given x hx)
    · obtain rfl := List.mem_singleton.1 hx
      exact hgiven _ (hc.numbered.given ha)
  · obtain hx | hx := List.mem_append.1 hx
    · exact (hc.keeps x hx g hg).congr
        (Heap.gcHandle?_make hc.accounts (List.mem_filterMap.2 ⟨x, hx, hg⟩) a s)
        (Heap.isAlive_make c.heap a s _)
    · obtain rfl := List.mem_singleton.1 hx
      cases hg
      exact Grip.keeps_make ha s

/-- A change of one proxy handle leaves the others what they are. -/
theorem change (hc : c.Kept) {i : Nat} {a : Address} {g : Grip} {g' : Option Grip} {h' : Heap}
    (hi : c.Holds i a g) (hg : Changes g a c.heap g' h') : Kept ⟨h', c.holders.set i ⟨a, g'⟩⟩ := by
  obtain ⟨hlt, hx⟩ := List.getElem?_eq_some_iff.1 hi
  obtain ⟨l₁, l₂, hl, -, hset⟩ : ∃ l₁ l₂, c.holders = l₁ ++ ⟨a, some g⟩ :: l₂ ∧ l₁.length = i ∧
      c.holders.set i ⟨a, g'⟩ = l₁ ++ ⟨a, g'⟩ :: l₂ :=
    hx ▸ List.exists_of_set hlt
  have haccounts : c.heap.Accounts (g :: (l₁.filterMap Holder.grip ++ l₂.filterMap Holder.grip)) :=
    hc.accounts.congr (hl ▸ grips_perm l₁ l₂ ⟨a, some g⟩)
  have hself : (⟨a, some g⟩ : Holder) ∈ c.holders := List.mem_of_getElem? hi
  have hother (x : Holder) (hx : x ∈ l₁ ++ l₂) : x ∈ c.holders :=
    hl ▸ List.perm_middle.mem_iff.2 (List.mem_cons_of_mem _ hx)
  rw [hset]
  refine ⟨(hg.accounts _ haccounts).congr (grips_perm l₁ l₂ ⟨a, _⟩).symm,
    hc.numbered.of_objects hg.objects.1 hg.objects.2, fun x hx => ?_, fun x hx new hnew => ?_⟩
  · obtain rfl | hx := List.mem_cons.1 (List.perm_middle.mem_iff.1 hx)
    · exact (hc.given _ hself).mono (Nat.le_of_eq hg.objects.2.symm)
    · exact (hc.given x (hother x hx)).mono (Nat.le_of_eq hg.objects.2.symm)
  · obtain rfl | hx := List.mem_cons.1 (List.perm_middle.mem_iff.1 hx)
    · exact hg.keeps new hnew
    · have hgrip : new ∈ l₁.filterMap Holder.grip ++ l₂.filterMap Holder.grip := by
        rw [← List.filterMap_append]
        exact List.mem_filterMap.2 ⟨x, hx, hnew⟩
      exact (hc.keeps x (hother x hx) new hnew).congr (hg.others _ haccounts new hgrip)
        (Heap.isAlive_congr hg.objects.1 x.object)

/-- One operation. -/
theorem step (hc : c.Kept) (h : Step c c') : c'.Kept := by
  cases h with
  | stay => exact hc
  | create ha => exact hc.create ha _
  | collect =>
    exact ⟨hc.accounts.collect _, hc.numbered.collect _, hc.given,
      fun x hx g hg => (hc.keeps x hx g hg).collect _⟩
  | @allocate m =>
    refine ⟨hc.accounts.of_handles rfl rfl, hc.numbered.allocate m, fun x hx => ?_, fun x hx g hg => ?_⟩
    · obtain ⟨i, hi, hlt⟩ := hc.given x hx
      exact ⟨i, hi, Nat.lt_succ_of_lt hlt⟩
    · exact (hc.keeps x hx g hg).congr rfl (Heap.isAlive_allocate_of_given m (hc.given x hx))
  | change hi hg => exact hc.change hi (hg (hc.keeps _ (List.mem_of_getElem? hi) _ rfl))

/-- A whole history. -/
theorem after (hc : c.Kept) (ops : List Op) : (c.after ops).Kept := by
  induction ops generalizing c with
  | nil => exact hc
  | cons op ops ih => exact ih (hc.step (c.step_apply op))

end Kept

/-! ## Who owns which handle -/

namespace Kept

variable {c : Custody} {i j k : Nat}

theorem mem_keys_iff (hc : c.Kept) : k ∈ c.heap.handles.keys ↔ ∃ i, c.Owns i k := by
  rw [hc.accounts.perm.mem_iff, List.filterMap_filterMap, List.mem_filterMap]
  constructor
  · rintro ⟨x, hx, hk⟩
    obtain ⟨i, hi⟩ := List.getElem?_of_mem hx
    exact ⟨i, x, hi, hk⟩
  · rintro ⟨i, x, hi, hk⟩
    exact ⟨x, List.mem_of_getElem? hi, hk⟩

/-- No two proxy handles have the same handle. -/
theorem owner_unique (hc : c.Kept) (hi : c.Owns i k) (hj : c.Owns j k) : i = j := by
  have hnodup : (c.holders.filterMap Holder.handle?).Nodup := by
    have hgrips := hc.accounts.perm.nodup_iff.1 hc.accounts.nodup
    rwa [List.filterMap_filterMap] at hgrips
  have hapart := List.pairwise_iff_getElem.1 (List.pairwise_filterMap.1 hnodup)
  have hnot {i j : Nat} (hi : c.Owns i k) (hj : c.Owns j k) : ¬i < j := by
    obtain ⟨x, hx, hxk⟩ := hi
    obtain ⟨y, hy, hyk⟩ := hj
    obtain ⟨hi, rfl⟩ := List.getElem?_eq_some_iff.1 hx
    obtain ⟨hj, rfl⟩ := List.getElem?_eq_some_iff.1 hy
    exact fun hlt => hapart i j hi hj hlt k hxk k hyk rfl
  exact Nat.le_antisymm (Nat.le_of_not_lt (hnot hj hi)) (Nat.le_of_not_lt (hnot hi hj))

theorem owns_lt (hc : c.Kept) (hi : c.Owns i k) : k < c.heap.nextHandle :=
  hc.accounts.below k (hc.mem_keys_iff.2 ⟨i, hi⟩)

/-- The handles are as many as the proxy handles that are neither released nor dropped. -/
theorem size_handles (hc : c.Kept) : c.heap.handles.size = c.holders.countP Holder.isLive := by
  have hlength : c.heap.handles.size = (c.holders.filterMap Holder.handle?).length := by
    have hperm := hc.accounts.perm.length_eq
    rw [List.filterMap_filterMap] at hperm
    exact (List.length_map _).symm.trans hperm
  rw [hlength, List.length_filterMap_eq_countP]
  refine List.countP_congr fun x hx => ?_
  rw [Holder.handle?, Holder.isLive]
  cases hg : x.grip with
  | none => rfl
  | some g =>
    rw [Option.bind_some, Option.any_some, Option.isSome_iff_ne_none, decide_eq_true_iff]
    exact not_congr (hc.keeps x hx g hg).handle

end Kept

section Runs

variable {c c' : Custody} {x y z : Holder} {i j k : Nat}

/-- What may become of a proxy handle: it stays on its object, and if it was released it stays so until
it is dropped for good. -/
structure Becomes (x y : Holder) : Prop where
  object : y.object = x.object
  ended : x.isLive = false → y = x ∨ y.grip = none

theorem Becomes.refl (x : Holder) : Becomes x x := ⟨rfl, fun _ => .inl rfl⟩

theorem Becomes.trans (h : Becomes x y) (h' : Becomes y z) : Becomes x z := by
  refine ⟨h'.object.trans h.object, fun hx => ?_⟩
  obtain rfl | hy := h.ended hx
  · exact h'.ended hx
  · obtain rfl | hz := h'.ended (by rw [Holder.isLive, hy]; rfl)
    · exact .inr hy
    · exact .inr hz

theorem Step.becomes (hc : c.Kept) (h : Step c c') (hx : c.holders[i]? = some x) :
    ∃ y, c'.holders[i]? = some y ∧ Becomes x y := by
  cases h with
  | stay | collect | allocate => exact ⟨x, hx, .refl x⟩
  | create =>
    have hlt := (List.getElem?_eq_some_iff.1 hx).1
    exact ⟨x, (List.getElem?_append_left hlt).trans hx, .refl x⟩
  | @change j a g g' h' hj hg =>
    rw [List.getElem?_set]
    by_cases hij : j = i
    · subst hij
      obtain rfl := Option.some.inj (hx.symm.trans hj)
      have hlt := (List.getElem?_eq_some_iff.1 hx).1
      refine ⟨⟨a, g'⟩, by rw [if_pos rfl, if_pos hlt], rfl, fun hended => ?_⟩
      have hreleased : g.strength = .released := by simpa [Holder.isLive] using hended
      exact ((hg (hc.keeps _ (List.mem_of_getElem? hj) g rfl)).released hreleased).imp_left
        fun hsame => congrArg (Holder.mk a) hsame
    · exact ⟨x, by rw [if_neg hij, hx], .refl x⟩

theorem becomes_after (hc : c.Kept) (ops : List Op) (hx : c.holders[i]? = some x) :
    ∃ y, (c.after ops).holders[i]? = some y ∧ Becomes x y := by
  induction ops generalizing c x with
  | nil => exact ⟨x, hx, .refl x⟩
  | cons op ops ih =>
    obtain ⟨y, hy, hxy⟩ := (c.step_apply op).becomes hc hx
    obtain ⟨z, hz, hyz⟩ := ih (hc.step (c.step_apply op)) hy
    exact ⟨z, hz, hxy.trans hyz⟩

/-- A handle that is owned was owned before, or is new. -/
theorem Step.owns (hc : c.Kept) (h : Step c c') : c.heap.nextHandle ≤ c'.heap.nextHandle ∧
    ∀ i k, c'.Owns i k → c.Owns i k ∨ c.heap.nextHandle ≤ k := by
  cases h with
  | stay | collect | allocate => exact ⟨Nat.le_refl _, fun _ _ h => .inl h⟩
  | @create a s ha =>
    have hmake : c.heap.nextHandle ≤ (Grip.make c.heap a s).2.nextHandle ∧
        ∀ k, (Grip.make c.heap a s).1.handle = some k → c.heap.nextHandle ≤ k := by
      by_cases hs : s = .released
      · subst hs
        exact ⟨Nat.le_refl _, nofun⟩
      · rw [Heap.make_eq _ a hs]
        exact ⟨Nat.le_succ _, fun k hk => Nat.le_of_eq (Option.some.inj hk)⟩
    refine ⟨hmake.1, fun i k => ?_⟩
    rintro ⟨x, hx, hk⟩
    by_cases hlt : i < c.holders.length
    · exact .inl ⟨x, (List.getElem?_append_left hlt).symm.trans hx, hk⟩
    · rw [List.getElem?_append_right (Nat.le_of_not_lt hlt)] at hx
      obtain rfl := List.mem_singleton.1 (List.mem_of_getElem? hx)
      exact .inr (hmake.2 k hk)
  | @change j a g g' h' hj hg =>
    have hchanges := hg (hc.keeps _ (List.mem_of_getElem? hj) g rfl)
    refine ⟨hchanges.next, fun i k => ?_⟩
    rintro ⟨x, hx, hk⟩
    rw [List.getElem?_set] at hx
    split at hx
    case isTrue hji =>
      subst hji
      split at hx
      · cases hx
        -- The holder that is changed keeps its handle or takes one that is new.
        exact (hchanges.handle k hk).imp_left fun hold => ⟨_, hj, hold⟩
      · cases hx
    case isFalse => exact .inl ⟨x, hx, hk⟩

theorem owns_after (hc : c.Kept) (ops : List Op) :
    c.heap.nextHandle ≤ (c.after ops).heap.nextHandle ∧
    ∀ i k, (c.after ops).Owns i k → c.Owns i k ∨ c.heap.nextHandle ≤ k := by
  induction ops generalizing c with
  | nil => exact ⟨Nat.le_refl _, fun _ _ h => .inl h⟩
  | cons op ops ih =>
    obtain ⟨hnext, howns⟩ := (c.step_apply op).owns hc
    obtain ⟨hnext', howns'⟩ := ih (hc.step (c.step_apply op))
    refine ⟨Nat.le_trans hnext hnext', fun i k hk => ?_⟩
    obtain hk | hk := howns' i k hk
    · exact howns i k hk
    · exact .inr (Nat.le_trans hnext hk)

end Runs

end Custody

end TwinHeap
