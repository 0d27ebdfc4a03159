import Mathlib.Data.List.Basic
import TwinHeap.Proofs.Grips

/-!
# Collections — a collection frees exactly what no strong handle holds

The strong handles name the roots. A collection takes out every other object, and only if there was
one does it go through the weak handles. Whether it does or not, a handle leads to what it led to if
that survived and to nothing otherwise (`collect_frees_unrooted`). The roots are the same afterwards,
so there is nothing left to free.
-/

namespace TwinHeap.Heap

variable {h : Heap}

theorem mem_roots_iff_exists_entry {a : Address} :
    a ∈ h.roots ↔ ∃ k, (k, ⟨some a, false⟩) ∈ h.handles.entries := by
  unfold roots Table.values
  constructor
  · intro ha
    obtain ⟨⟨target, weak⟩, hmem, htarget⟩ := List.mem_filterMap.1 ha
    obtain ⟨hvalue, hstrong⟩ := List.mem_filter.1 hmem
    obtain ⟨⟨k, e⟩, hentry, rfl⟩ := List.mem_map.1 hvalue
    have htarget : target = some a := htarget
    have hweak : weak = false := by simpa using hstrong
    subst htarget hweak
    exact ⟨k, hentry⟩
  · rintro ⟨k, hentry⟩
    have hvalue : ⟨some a, false⟩ ∈ h.handles.entries.map Prod.snd := List.mem_map.2 ⟨_, hentry, rfl⟩
    exact List.mem_filterMap.2 ⟨_, List.mem_filter.2 ⟨hvalue, rfl⟩, rfl⟩

/-! ## What a collection leaves to the next -/

/-- Only weak handles lose targets, so the roots stay. -/
theorem roots_collect (h : Heap) (full : Bool) : (h.collect full).roots = h.roots := by
  have hvalues : (h.collect full).handles.values = h.handles.values.map h.settled := by
    rw [handles_collect]
    unfold Table.mapValues Table.values
    rw [List.map_map, List.map_map]
    rfl
  unfold roots
  rw [hvalues, List.filter_map, List.filterMap_map]
  have hweak : (fun e : GcHandle => !e.weak) ∘ h.settled = fun e => !e.weak :=
    funext fun e => congrArg Bool.not (weak_settled h e)
  rw [hweak]
  refine List.filterMap_congr fun e he => ?_
  have hstrong : e.weak = false := by simpa using (List.mem_filter.1 he).2
  exact congrArg GcHandle.target (settled_of_strong h hstrong)

theorem doomed_collect (h : Heap) (full : Bool) : (h.collect full).doomed = [] := by
  unfold doomed
  rw [roots_collect]
  refine List.filter_eq_nil_iff.2 fun i hi => ?_
  obtain ⟨e, he, rfl⟩ := List.mem_map.1 hi
  have hrooted : h.roots.contains (.foreign e.1) = true := (List.mem_filter.1 he).2
  simp only [hrooted, Bool.not_true, Bool.false_eq_true, not_false_eq_true]

/-- Where nothing is to be freed, a collection is counted and that is all. -/
theorem collect_of_isEmpty (hd : h.doomed.isEmpty = true) (full : Bool) :
    h.collect full = { h with collections := h.collections + 1, lastFull := some full } := by
  unfold collect
  dsimp only
  rw [if_pos hd, sweep_of_isEmpty hd]

/-- After a collection of any heap, with any handles, those objects are alive that were and that a
strong handle holds, and they are what they were. Every handle is there still, as strong as it was; it
leads to what it led to if that survived and to nothing otherwise. A second collection is counted and
changes nothing. -/
theorem collect_frees_unrooted (h : Heap) (full : Bool) :
    (∀ a, (h.collect full).isAlive a = true ↔
      h.isAlive a = true ∧ ∃ k, (k, ⟨some a, false⟩) ∈ h.handles.entries) ∧
    (∀ a, (h.collect full).isAlive a = true → (h.collect full).get? a = h.get? a) ∧
    (h.collect full).handles.keys = h.handles.keys ∧
    (∀ k, ((h.collect full).handles.get? k).map GcHandle.weak =
      (h.handles.get? k).map GcHandle.weak) ∧
    (∀ k, (h.collect full).target? k = (h.target? k).filter (h.collect full).isAlive) ∧
    ∀ again, (h.collect full).collect again =
      { h.collect full with collections := h.collections + 2, lastFull := some again } := by
  refine ⟨fun a => ?_, fun a ha => ?_, ?_, fun k => ?_, h.target?_collect_eq_filter full,
    fun again => ?_⟩
  · rw [isAlive_collect, Bool.and_eq_true, List.contains_iff_mem, mem_roots_iff_exists_entry]
  · rw [isAlive_collect, Bool.and_eq_true] at ha
    rw [get?_collect, if_pos ha.2]
  · rw [handles_collect, Table.keys_mapValues]
  · rw [handles_collect, Table.get?_mapValues, Option.map_map]
    exact congrArg (Option.map · _) (funext (weak_settled h))
  · -- The roots are those of the first collection, and nothing else is left.
    have hd : (h.collect full).doomed.isEmpty = true := List.isEmpty_iff.2 (h.doomed_collect full)
    exact collect_of_isEmpty hd again

end TwinHeap.Heap
