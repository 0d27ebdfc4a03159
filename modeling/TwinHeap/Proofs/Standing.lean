import TwinHeap.Proofs.Anchors
import TwinHeap.Proofs.Spots

/-!
# Standing — which instances stand for a host object

What an instance stands for is told to it by foreign code. The bridge itself makes objects that stand
for nothing and takes away those that nobody holds; `Heap.Alters` lists all that can happen to an object
on the way. So the instances that stand for a host object are those of before and those that foreign
code tells so (`Heap.StoodFor`), and an instance goes on standing for it until it is told otherwise
(`Heap.Loyal`).
-/

namespace TwinHeap

variable {σ : Type}

namespace Heap

/-- The ways in which a step alters the objects of the foreign heap: an instance is told what it stands
for only where `told` says so, and what is allocated is as `fresh` says. -/
inductive Alters (told : Address → Address → Prop) (fresh : Managed → Prop) (h : Heap) : Heap → Prop
  | same {h' : Heap} (ho : h'.objects = h.objects ∧ h'.nextObject = h.nextObject) :
      Alters told fresh h h'
  | modify (a : Address) {f : Managed → Managed} (hf : ∀ m, (f m).native? = m.native?) :
      Alters told fresh h (h.modify a f)
  | allocate {m : Managed} {h' : Heap} (hm : fresh m)
      (ho : h'.objects = (h.allocate m).2.objects ∧ h'.nextObject = (h.allocate m).2.nextObject) :
      Alters told fresh h h'
  | collect (full : Bool) : Alters told fresh h (h.collect full)
  | setNative {p a : Address} (ht : told p a) : Alters told fresh h (h.setNative p a)

/-- An object that stands for nothing, if it is an instance at all. -/
def Blank (m : Managed) : Prop := ∀ a, m.native? = some a → a = .null

/-- Only these instances stand for the host object. -/
def StoodFor (h : Heap) (host : Address) (among : Address → Prop) : Prop :=
  ∀ q, h.nativeOf q = some host → among q

/-- What lives at the address stands for the host object. -/
structure Loyal (h : Heap) (p host : Address) : Prop where
  given : h.Given p
  stands : h.isAlive p = true → h.nativeOf p = some host

variable {told told' : Address → Address → Prop} {fresh fresh' : Managed → Prop} {h h' : Heap}
  {p host : Address}

/-- A new instance stands for nothing yet. -/
theorem blank_object (type : Nat) : Blank (.object type .null) := fun _ ha => (Option.some.inj ha).symm

theorem Alters.mono (ha : h.Alters told fresh h') (ht : ∀ p a, told p a → told' p a)
    (hm : ∀ m, fresh m → fresh' m) : h.Alters told' fresh' h' := by
  cases ha with
  | same ho => exact .same ho
  | modify a hf => exact .modify a hf
  | allocate hfresh ho => exact .allocate (hm _ hfresh) ho
  | collect full => exact .collect full
  | setNative htold => exact .setNative (ht _ _ htold)

theorem nextObject_modify (h : Heap) (a : Address) (f : Managed → Managed) :
    (h.modify a f).nextObject = h.nextObject := by
  cases a <;> rfl

/-- No other instances come to stand for the host object. -/
theorem Alters.stoodFor {among : Address → Prop} (ha : h.Alters told fresh h') (hs : h.StoodFor host among)
    (htold : ∀ p, told p host → among p) (hfresh : ∀ m, fresh m → m.native? ≠ some host) :
    h'.StoodFor host among := by
  intro q hq
  cases ha with
  | same ho =>
    apply hs
    rwa [nativeOf_congr ho.1] at hq
  | modify a hf =>
    apply hs
    rwa [nativeOf_modify h a hf] at hq
  | @allocate m _ hm ho =>
    rw [nativeOf_congr ho.1, nativeOf_allocate] at hq
    split at hq
    · exact absurd hq (hfresh m hm)
    · exact hs q hq
  | collect full =>
    rw [nativeOf_collect] at hq
    split at hq
    · exact hs q hq
    · cases hq
  | @setNative p a ht =>
    rw [nativeOf_setNative] at hq
    split at hq
    · rename_i he
      -- The instance is told that it stands for the host object.
      obtain ⟨-, -, rfl⟩ := Option.map_eq_some_iff.1 hq
      exact he ▸ htold p ht
    · exact hs q hq

/-- An instance stands for what it stood for, unless it is told otherwise. -/
theorem Alters.loyal (ha : h.Alters told fresh h') (hl : h.Loyal p host)
    (htold : ∀ a, told p a → a = host) : h'.Loyal p host := by
  cases ha with
  | same ho =>
    refine ⟨hl.given.mono (Nat.le_of_eq ho.2.symm), fun halive => ?_⟩
    rw [isAlive_congr ho.1] at halive
    rw [nativeOf_congr ho.1]
    exact hl.stands halive
  | modify a hf =>
    refine ⟨hl.given.mono (Nat.le_of_eq (nextObject_modify h a _).symm), fun halive => ?_⟩
    rw [nativeOf_modify h a hf]
    exact hl.stands ((isAlive_modify a _ p).symm.trans halive)
  | @allocate m h' _ ho =>
    have hnext : (h.allocate m).2.nextObject = h.nextObject + 1 := rfl
    refine ⟨hl.given.mono (by omega), fun halive => ?_⟩
    rw [isAlive_congr ho.1, isAlive_allocate_of_given m hl.given] at halive
    -- A new object gets an address that was not given out before.
    have hne : p ≠ .foreign h.nextObject := by
      obtain ⟨i, rfl, hi⟩ := hl.given
      rintro ⟨⟩
      exact Nat.lt_irrefl _ hi
    rw [nativeOf_congr ho.1, nativeOf_allocate, if_neg hne]
    exact hl.stands halive
  | collect full =>
    -- What is left alive was alive before, and is as it was.
    refine ⟨hl.given, fun halive => ?_⟩
    rw [isAlive_collect, Bool.and_eq_true] at halive
    rw [nativeOf_collect, if_pos halive.2]
    exact hl.stands halive.1
  | @setNative q a ht =>
    have halive (hq : (h.setNative q a).isAlive p = true) : h.isAlive p = true :=
      (isAlive_modify q _ p).symm.trans hq
    refine ⟨hl.given.mono (Nat.le_of_eq (nextObject_modify h q _).symm), fun hq => ?_⟩
    rw [nativeOf_setNative, hl.stands (halive hq)]
    split
    · rename_i he
      rw [htold a (he ▸ ht)]
      rfl
    · rfl

end Heap

/-! ## What alters the objects -/

theorem State.alters_writeAt {told : Address → Address → Prop} {fresh : Managed → Prop} (s : State)
    (a : Address) (os : List Octet) : s.heap.Alters told fresh (s.writeAt a os).heap := by
  cases a with
  | payload i => exact .modify (.foreign i) fun m => by cases m <;> rfl
  | _ => exact .same ⟨rfl, rfl⟩

/-- A change that is foreign code's to ask for: it tells an instance what it stands for, or allocates
what it likes. -/
theorem Request.Outcome.alters {r : Request} {s s' : State} (h : r.Outcome s s') :
    s.heap.Alters (fun p a => r = .setNative p a) (fun m => r = .allocate m ∨ Heap.Blank m)
      s'.heap := by
  cases h with
  | payload i octets => exact s.alters_writeAt (.payload i) octets
  | allocate => exact .allocate (.inl rfl) ⟨rfl, rfl⟩
  | instantiate => exact .allocate (.inr (Heap.blank_object _)) ⟨rfl, rfl⟩
  | setNative => exact .setNative rfl
  | collect full => exact .collect full
  | hold target strength => exact .same (Heap.objects_make s.heap target strength)
  | @regrip _ old _ strength => exact .same (Heap.objects_setStrength old s.heap strength)
  | @letGo _ old => exact .same (Heap.objects_release old s.heap)
  | @setRooted _ old => exact .same (Heap.objects_setStrength old s.heap _)
  | _ => exact .same ⟨rfl, rfl⟩

/-- The bridge tells no instance what it stands for, and what it allocates stands for nothing. -/
theorem Change.alters {ready : List Owed → Prop} {o o' : List Owed} {s s' : State}
    (hc : Change (.asking Request.OfBridge ready) o s o' s') :
    s.heap.Alters (fun _ _ => False) Heap.Blank s'.heap := by
  cases hc with
  | write _ os => exact s.alters_writeAt _ os
  | @store _ _ a => exact .same (by cases a <;> exact ⟨rfl, rfl⟩)
  | string text => exact .allocate (m := .string text) (by rintro _ ⟨⟩) ⟨rfl, rfl⟩
  | collect _ full => exact .collect full
  | clear => exact .same (Identity.objects_dropEntry s _)
  | @make _ _ host _ type _ _ _ ht =>
    rw [State.addProxy_of_isType ht]
    refine .allocate (Heap.blank_object type) ?_
    exact Heap.objects_make _ (.foreign s.heap.nextObject) .strong
  | unmake => exact .same (Identity.objects_dropEntry s _)
  | severed => exact .same (Heap.objects_release _ s.heap)
  | leave =>
    refine .same ?_
    unfold State.leave
    dsimp only
    split
    · exact ⟨rfl, rfl⟩
    · exact Heap.objects_releaseAll _ s.heap
  | root a =>
    refine .same ?_
    unfold State.root
    split
    · exact ⟨rfl, rfl⟩
    · exact Heap.objects_make s.heap a .strong
  | @alone _ _ r f _ hr hf =>
    -- The bridge itself asks at once for strong holds only, and these alter no object.
    obtain hnone | ⟨a, rfl⟩ := hr
    · rw [hnone] at hf
      cases hf
    · refine (Request.outcome hf s).alters.mono (by rintro _ _ ⟨⟩) ?_
      rintro m (⟨⟨⟩⟩ | hm)
      exact hm
  | _ => exact .same ⟨rfl, rfl⟩

end TwinHeap
