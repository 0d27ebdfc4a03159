import Mathlib.Algebra.GroupWithZero.Nat
import Mathlib.Algebra.Order.BigOperators.Group.List
import Mathlib.Algebra.Order.Group.Nat
import Mathlib.Data.List.DropRight
import Mathlib.Data.List.Induction
import Mathlib.Data.List.Pairwise
import TwinHeap.Metrics
import TwinHeap.Proofs.Rounding

/-!
# Windows — a timing describes the last durations of its name

The window of a name holds the last 1024 durations that were recorded for it since everything was
reset, whatever was recorded for other names (`timings_after`). What is computed of a window, in two
limbs and in double precision, is what is meant: the exact sum, its floored mean, the extremes and two
ranks (`ofWindow_describes`). Both together describe every timing (`timing_describes_window`).
-/

namespace TwinHeap

/-! ## Sums and quotients in two limbs -/

namespace Duration

theorem nanosPerSecond_pos : 0 < nanosPerSecond := by decide

theorem ofParts_seconds_subsecond (d : Duration) : ofParts d.seconds d.subsecond = d :=
  Nat.div_add_mod' d nanosPerSecond

theorem ofParts_carry (s n : Nat) :
    ofParts (s + n / nanosPerSecond) (n % nanosPerSecond) = ofParts s n := by
  rw [ofParts, ofParts, Nat.add_mul, Nat.add_assoc, Nat.div_add_mod']

/-- As many seconds as do not fit are too long for a duration. -/
theorem bound_le_ofParts {s : Nat} (h : ¬s < wordModulus) (n : Nat) : bound ≤ ofParts s n :=
  Nat.le_add_right_of_le (Nat.mul_le_mul_right nanosPerSecond (Nat.le_of_not_lt h))

theorem ofParts_lt_bound {s n : Nat} (hs : s < wordModulus) (hn : n < nanosPerSecond) :
    ofParts s n < bound := by
  have hseconds : (s + 1) * nanosPerSecond ≤ bound := Nat.mul_le_mul_right nanosPerSecond hs
  rw [Nat.succ_mul] at hseconds
  exact Nat.lt_of_lt_of_le (Nat.add_lt_add_left hn _) hseconds

namespace Partial

variable {t : Partial} {total : Nat}

/-- The sum has come to `total`, or it has failed because `total` is too long. -/
def Adds (total : Nat) : Except Overflow Partial → Prop
  | .ok t => t.seconds < wordModulus ∧ ofParts t.seconds t.nanos = total
  | .error e => bound ≤ total ∧ e = .durationSum

theorem addSeconds_adds (t : Partial) (n : Nat) :
    Adds (ofParts (t.seconds + n) t.nanos) (t.addSeconds n) := by
  rw [addSeconds]
  split
  case isTrue h => exact ⟨h, rfl⟩
  case isFalse h => exact ⟨bound_le_ofParts h t.nanos, rfl⟩

theorem carry_adds (t : Partial) : Adds (ofParts t.seconds t.nanos) t.carry := by
  rw [← ofParts_carry]
  exact addSeconds_adds _ _

theorem nanos_of_carry {t' : Partial} (h : t.carry = .ok t') : t'.nanos < nanosPerSecond := by
  rw [carry, addSeconds] at h
  split at h
  · cases h
    exact Nat.mod_lt _ nanosPerSecond_pos
  · cases h

/-- One step after another. -/
theorem Adds.bind {r : Except Overflow Partial} {f : Partial → Except Overflow Partial} {total' : Nat}
    (h : Adds total r) (hle : total ≤ total')
    (hf : ∀ t, t.seconds < wordModulus → ofParts t.seconds t.nanos = total → Adds total' (f t)) :
    Adds total' (r >>= f) := by
  cases r with
  | ok t => exact hf t h.1 h.2
  | error e => exact ⟨Nat.le_trans h.1 hle, h.2⟩

theorem makeRoom_adds (hs : t.seconds < wordModulus) (n : Nat) :
    Adds (ofParts t.seconds t.nanos) (t.makeRoom n) := by
  rw [makeRoom]
  split
  · exact ⟨hs, rfl⟩
  · exact carry_adds t

theorem add_adds (t : Partial) (d : Duration) :
    Adds (ofParts t.seconds t.nanos + d) (t.add d) := by
  have hsum : ofParts t.seconds t.nanos + d =
      ofParts (t.seconds + d.seconds) t.nanos + d.subsecond := calc
    _ = ofParts t.seconds t.nanos + ofParts d.seconds d.subsecond := by
      rw [ofParts_seconds_subsecond]
    _ = _ := by
      rw [ofParts, ofParts, ofParts, Nat.add_mul, Nat.add_assoc (_ + _) _ d.subsecond]
      exact Nat.add_add_add_comm _ _ _ _
  rw [hsum]
  refine (addSeconds_adds t d.seconds).bind (Nat.le_add_right _ _) fun t₁ hs₁ ht₁ => ?_
  rw [← ht₁]
  refine (makeRoom_adds hs₁ d.subsecond).bind (Nat.le_add_right _ _) fun t₂ hs₂ ht₂ => ?_
  rw [← ht₂]
  exact ⟨hs₂, (Nat.add_assoc _ _ _).symm⟩

theorem foldlM_adds (ds : List Duration) (hs : t.seconds < wordModulus) :
    Adds (ofParts t.seconds t.nanos + ds.sum) (ds.foldlM add t) := by
  induction ds generalizing t with
  | nil =>
    rw [List.sum_nil, Nat.add_zero]
    exact ⟨hs, rfl⟩
  | cons d ds ih =>
    rw [List.foldlM_cons, List.sum_cons, ← Nat.add_assoc]
    refine (add_adds t d).bind (Nat.le_add_right _ _) fun t' hs' ht' => ?_
    rw [← ht']
    exact ih hs'

end Partial

/-- Nothing is lost between the limbs: the sum is exact, and fails if it is no duration. -/
theorem sum_eq (ds : List Duration) :
    Duration.sum ds = if ds.sum < bound then .ok ds.sum else .error .durationSum := by
  -- The limbs and the carry are followed by one relation: they add up to the sum, or fail where it is
  -- no duration.
  have hfold := Partial.foldlM_adds (t := ⟨0, 0⟩) ds (by decide)
  rw [show ofParts 0 0 + ds.sum = ds.sum from Nat.zero_add _] at hfold
  have hcarried : Partial.Adds ds.sum (ds.foldlM Partial.add ⟨0, 0⟩ >>= Partial.carry) :=
    hfold.bind (Nat.le_refl _) fun t _ ht => ht ▸ Partial.carry_adds t
  have hsum : Duration.sum ds = ds.foldlM Partial.add ⟨0, 0⟩ >>= Partial.carry >>= fun t =>
      pure (ofParts t.seconds t.nanos) := (bind_assoc _ _ _).symm
  rw [hsum]
  cases hr : ds.foldlM Partial.add ⟨0, 0⟩ >>= Partial.carry with
  | error e =>
    rw [hr] at hcarried
    obtain ⟨hlong, rfl⟩ := hcarried
    rw [if_neg (Nat.not_lt_of_le hlong)]
    rfl
  | ok t =>
    have hnanos : t.nanos < nanosPerSecond := by
      cases hf : ds.foldlM Partial.add ⟨0, 0⟩ with
      | error e =>
        rw [hf] at hr
        cases hr
      | ok t' =>
        rw [hf] at hr
        exact Partial.nanos_of_carry hr
    rw [hr] at hcarried
    obtain ⟨hseconds, htotal⟩ := hcarried
    rw [if_pos (htotal ▸ ofParts_lt_bound hseconds hnanos), ← htotal]
    rfl

/-- Nor between the limbs of a quotient. -/
theorem divide_eq (d : Duration) {n : Nat} (hn : 0 < n) : d.divide n = d / n := by
  have hsplit : n * ofParts (d.seconds / n) (d.subsecond / n) +
      (d.seconds % n * nanosPerSecond + d.subsecond % n) = d := by
    conv_rhs => rw [← ofParts_seconds_subsecond d, ← Nat.div_add_mod d.seconds n,
      ← Nat.div_add_mod d.subsecond n]
    simp only [ofParts]
    grind
  conv_rhs => rw [← hsplit, Nat.mul_add_div hn]
  exact (Nat.add_assoc _ _ _).symm

end Duration

/-! ## What is said of a window -/

namespace Timing

variable {w w' sorted : List Duration} {t : Timing}

/-- `t` says of the durations in `w` what they are. -/
structure Describes (t : Timing) (w : List Duration) : Prop where
  count : t.count = w.length
  total : t.total = w.sum
  mean : t.mean = w.sum / w.length
  min_mem : t.min ∈ w
  min_le : ∀ d ∈ w, t.min ≤ d
  max_mem : t.max ∈ w
  le_max : ∀ d ∈ w, d ≤ t.max
  ranks : ∀ sorted : List Duration, sorted.Perm w → sorted.Pairwise (· ≤ ·) →
    sorted[w.length / 2]? = some t.p50 ∧ sorted[19 * w.length / 20]? = some t.p95

theorem pairwise_mergeSort (w : List Duration) : w.mergeSort.Pairwise (· ≤ ·) := by
  have hsorted : w.mergeSort.Pairwise fun a b => decide (a ≤ b) = true := by
    refine List.pairwise_mergeSort (fun a b c hab hbc => ?_) (fun a b => ?_) w
    · exact decide_eq_true (Nat.le_trans (of_decide_eq_true hab) (of_decide_eq_true hbc))
    · rcases Nat.le_total a b with h | h <;> simp [h]
  exact hsorted.imp fun h => of_decide_eq_true h

/-- Sorting leaves nothing to choose. -/
theorem eq_mergeSort (hperm : sorted.Perm w) (hsorted : sorted.Pairwise (· ≤ ·)) :
    sorted = w.mergeSort :=
  List.Perm.eq_of_pairwise (fun _ _ _ _ => Nat.le_antisymm) hsorted (pairwise_mergeSort w)
    (hperm.trans (List.mergeSort_perm _ _).symm)

theorem ofSamples_perm (h : w.Perm w') : ofSamples w = ofSamples w' := by
  have hsorted : w.mergeSort = w'.mergeSort :=
    eq_mergeSort ((List.mergeSort_perm _ _).trans h) (pairwise_mergeSort w)
  rw [ofSamples, ofSamples, hsorted, h.isEmpty_eq]

/-- The fraction is the number nearest to `a / b`, and the rank is the one that is meant. -/
theorem rank_eq {num den a b e : Nat} (hf : b * Double.ofFraction num den + e = a * Double.one)
    (he : 2 * e < a) (hab : a < b) (hne : sorted ≠ [])
    (hlen : sorted.length * (e + b) < Double.one) :
    sorted[sorted.length * a / b]? = some (rank sorted num den) := by
  have hpos : 0 < sorted.length := List.length_pos_iff.2 hne
  have hinside : sorted.length * a / b < sorted.length :=
    Nat.div_lt_of_lt_mul (Nat.mul_comm b _ ▸ Nat.mul_lt_mul_of_pos_left hab hpos)
  have hmin : Nat.min (sorted.length * a / b) (sorted.length - 1) = sorted.length * a / b :=
    Nat.min_eq_left (by omega)
  rw [rank, Double.portion_eq hf hlen he (Nat.le_of_lt hab), hmin, List.getD_eq_getElem?_getD,
    List.getElem?_eq_getElem hinside, Option.getD_some]

/-- One half is a binary fraction. -/
theorem rank_half (hne : sorted ≠ []) (hlen : sorted.length ≤ windowSize) :
    sorted[sorted.length / 2]? = some (rank sorted 50 100) := by
  have hsmall : sorted.length * (0 + 2) < Double.one :=
    Nat.lt_of_le_of_lt (Nat.mul_le_mul_right _ hlen) (by decide)
  rw [← rank_eq (a := 1) (b := 2) (by decide) (by decide) (by decide) hne hsmall, Nat.mul_one]

/-- Nineteen twentieths are not: the nearest one is 8/20 of its last digit too small. -/
theorem rank_nineteen_twentieths (hne : sorted ≠ []) (hlen : sorted.length ≤ windowSize) :
    sorted[19 * sorted.length / 20]? = some (rank sorted 95 100) := by
  have hsmall : sorted.length * (8 + 20) < Double.one :=
    Nat.lt_of_le_of_lt (Nat.mul_le_mul_right _ hlen) (by decide)
  rw [← rank_eq (a := 19) (b := 20) (by decide) (by decide) (by decide) hne hsmall, Nat.mul_comm]

/-- What is found out about a window that is not empty. -/
def ofWindow (w : List Duration) : Timing where
  count := w.length
  total := w.sum
  mean := w.sum / w.length
  min := w.mergeSort.headD 0
  max := w.mergeSort.getLastD 0
  p50 := rank w.mergeSort 50 100
  p95 := rank w.mergeSort 95 100

theorem ofSamples_eq (hne : w ≠ []) :
    ofSamples w = if w.sum < Duration.bound then .ok (ofWindow w) else .error .durationSum := by
  have hperm : w.mergeSort.Perm w := List.mergeSort_perm w _
  have hpos : 0 < w.length := List.length_pos_iff.2 hne
  have hempty : ¬w.isEmpty = true := fun h => hne (List.isEmpty_iff.1 h)
  simp only [ofSamples, if_neg hempty, Duration.sum_eq, hperm.sum_eq, hperm.length_eq,
    Duration.divide_eq _ hpos]
  split <;> rfl

theorem le_of_mem_cons {a : Duration} (h : (a :: sorted).Pairwise (· ≤ ·)) :
    ∀ d ∈ a :: sorted, a ≤ d :=
  List.forall_mem_cons.2 ⟨Nat.le_refl a, (List.pairwise_cons.1 h).1⟩

theorem le_of_mem_concat {a : Duration} (h : (sorted ++ [a]).Pairwise (· ≤ ·)) :
    ∀ d ∈ sorted ++ [a], d ≤ a := by
  intro d hd
  rcases List.mem_append.1 hd with hd | hd
  · exact (List.pairwise_append.1 h).2.2 d hd a List.mem_cons_self
  · exact Nat.le_of_eq (List.mem_singleton.1 hd)

theorem ofWindow_describes (hne : w ≠ []) (hlen : w.length ≤ windowSize) :
    (ofWindow w).Describes w := by
  have hperm : w.mergeSort.Perm w := List.mergeSort_perm w _
  have hpairwise : w.mergeSort.Pairwise (· ≤ ·) := pairwise_mergeSort w
  have hlength : w.mergeSort.length = w.length := hperm.length_eq
  have hsorted : w.mergeSort ≠ [] := fun h => hne (h ▸ hperm).nil_eq.symm
  have hmin : (ofWindow w).min ∈ w ∧ ∀ d ∈ w, (ofWindow w).min ≤ d := by
    obtain ⟨a, rest, hcons⟩ := List.exists_cons_of_ne_nil hsorted
    rw [hcons] at hperm hpairwise
    simp only [ofWindow, hcons, List.headD_cons, ← hperm.mem_iff]
    exact ⟨List.mem_cons_self, le_of_mem_cons hpairwise⟩
  have hmax : (ofWindow w).max ∈ w ∧ ∀ d ∈ w, d ≤ (ofWindow w).max := by
    obtain ⟨init, a, hconcat⟩ := (List.eq_nil_or_concat' _).resolve_left hsorted
    rw [hconcat] at hperm hpairwise
    simp only [ofWindow, hconcat, List.getLastD_concat, ← hperm.mem_iff]
    exact ⟨List.mem_append_right _ List.mem_cons_self, le_of_mem_concat hpairwise⟩
  refine ⟨rfl, rfl, rfl, hmin.1, hmin.2, hmax.1, hmax.2, fun sorted hp hs => ?_⟩
  rw [eq_mergeSort hp hs, ← hlength]
  exact ⟨rank_half hsorted (hlength ▸ hlen), rank_nineteen_twentieths hsorted (hlength ▸ hlen)⟩

/-- The extremes enclose the ranks and the mean. -/
theorem Describes.bounds (h : t.Describes w) (hne : w ≠ []) :
    t.min ≤ t.p50 ∧ t.p50 ≤ t.p95 ∧ t.p95 ≤ t.max ∧ t.min ≤ t.mean ∧ t.mean ≤ t.max := by
  have hpos : 0 < w.length := List.length_pos_iff.2 hne
  have hperm : w.mergeSort.Perm w := List.mergeSort_perm w _
  obtain ⟨hp50, hp95⟩ := h.ranks w.mergeSort hperm (pairwise_mergeSort w)
  have hranks : t.p50 ≤ t.p95 := by
    obtain ⟨hi, hp50⟩ := List.getElem?_eq_some_iff.1 hp50
    obtain ⟨hj, hp95⟩ := List.getElem?_eq_some_iff.1 hp95
    rw [← hp50, ← hp95]
    exact (pairwise_mergeSort w).rel_get_of_le (Fin.mk_le_mk.2 (by omega))
  refine ⟨h.min_le _ (hperm.mem_iff.1 (List.mem_of_getElem? hp50)), hranks,
    h.le_max _ (hperm.mem_iff.1 (List.mem_of_getElem? hp95)), ?_, ?_⟩
  · rw [h.mean, Nat.le_div_iff_mul_le hpos, Nat.mul_comm]
    exact List.card_nsmul_le_sum (M := Nat) w t.min h.min_le
  · rw [h.mean]
    exact Nat.div_le_of_le_mul (List.sum_le_card_nsmul (M := Nat) w t.max h.le_max)

end Timing

/-! ## Windows -/

namespace Metrics

variable {name : String} {d : Duration} {es : List Event}

/-- What is done to the timings. -/
inductive Event
  | record (name : String) (d : Duration)
  | reset
deriving DecidableEq, Repr

namespace Event

def apply (m : Metrics) : Event → Metrics
  | record name d => m.record name d
  | reset => m.reset

/-- The duration that is recorded for `name`. -/
def duration? (name : String) : Event → Option Duration
  | record name' d => if name' = name then some d else none
  | reset => none

end Event

/-- The metrics of a bridge after `es`. -/
def after (es : List Event) : Metrics := es.foldl Event.apply .empty

/-- The durations that were recorded for `name` since the last reset, the oldest first. -/
def recorded (name : String) (es : List Event) : List Duration :=
  (es.rtakeWhile fun e => e ≠ .reset).filterMap (Event.duration? name)

/-- The last of them, as many as are kept. -/
def window (name : String) (es : List Event) : List Duration :=
  (recorded name es).rtake windowSize

theorem recorded_reset (name : String) (es : List Event) : recorded name (es ++ [.reset]) = [] := by
  rw [recorded, List.rtakeWhile_concat]
  rfl

theorem recorded_record (name name' : String) (d : Duration) (es : List Event) :
    recorded name (es ++ [.record name' d]) =
      if name' = name then recorded name es ++ [d] else recorded name es := by
  have hkeep : decide (Event.record name' d ≠ .reset) = true := decide_eq_true nofun
  rw [recorded, List.rtakeWhile_concat, if_pos hkeep, List.filterMap_append, ← recorded]
  by_cases h : name' = name <;> simp [Event.duration?, h]

/-- The window moves by one duration. -/
theorem push_rtake (ds : List Duration) (d : Duration) :
    push (ds.rtake windowSize) d = (ds ++ [d]).rtake windowSize := by
  obtain ⟨n, hn⟩ : ∃ n, windowSize = n + 1 := ⟨windowSize - 1, by decide⟩
  rw [push, hn, List.rtake_concat_succ, List.rtake, List.rtake, List.length_drop]
  split
  case isTrue hfull =>
    have hdrop : ds.length - (n + 1) + 1 = ds.length - n := by omega
    rw [List.drop_drop, hdrop]
  case isFalse hroom =>
    have hdrop : ds.length - (n + 1) = ds.length - n := by omega
    rw [hdrop]

theorem timings_after (name : String) (es : List Event) :
    (after es).timings.get? name = if recorded name es = [] then none else some (window name es) := by
  induction es using List.reverseRecOn with
  | nil => rfl
  | append_singleton es e ih =>
    rw [after, List.foldl_append, ← after, window]
    cases e with
    | reset =>
      rw [recorded_reset, if_pos rfl]
      rfl
    | record name' d =>
      rw [recorded_record]
      show (Table.insert _ _ _).get? name = _
      rw [Table.get?_insert]
      by_cases h : name' = name
      · subst h
        have hkept : ((after es).timings.get? name').getD [] = window name' es := by
          rw [ih]
          split
          case isTrue hnone => rw [window, hnone, List.rtake_nil, Option.getD_none]
          case isFalse => rw [Option.getD_some]
        rw [if_pos rfl, if_pos rfl, if_neg (List.concat_ne_nil _ _), hkept, window, push_rtake]
      · rw [if_neg h, if_neg h, ih, window]

theorem length_window (name : String) (es : List Event) :
    (window name es).length = min windowSize (recorded name es).length := by
  rw [window, List.rtake, List.length_drop]
  omega

theorem window_ne_nil (h : recorded name es ≠ []) : window name es ≠ [] := by
  have hpos : 0 < (recorded name es).length := List.length_pos_iff.2 h
  rw [← List.length_pos_iff, length_window]
  exact Nat.lt_min.2 ⟨by decide, hpos⟩

/-- A timing is computed of the window alone. -/
theorem timing_eq (name : String) (es : List Event) :
    (after es).timing name =
      if window name es = [] then none else some (Timing.ofSamples (window name es)) := by
  rw [timing, timings_after]
  by_cases h : recorded name es = []
  · rw [if_pos h, window, h, List.rtake_nil, if_pos rfl]
    rfl
  · rw [if_neg h, if_neg (window_ne_nil h)]
    rfl

/-- A timing describes the last durations recorded for its name since the last reset: there is none if
nothing was recorded, and it fails if their sum is no duration. Nothing else counts: neither the order
of the durations nor what else was recorded. -/
theorem timing_describes_window (es : List Event) (name : String) :
    ((after es).timing name = none ↔ recorded name es = []) ∧
    (window name es).length = min windowSize (recorded name es).length ∧
    ((after es).timing name = some (.error .durationSum) ↔ Duration.bound ≤ (window name es).sum) ∧
    (recorded name es ≠ [] → (window name es).sum < Duration.bound →
      ∃ t, (after es).timing name = some (.ok t) ∧ t.Describes (window name es) ∧
        t.min ≤ t.p50 ∧ t.p50 ≤ t.p95 ∧ t.p95 ≤ t.max ∧ t.min ≤ t.mean ∧ t.mean ≤ t.max) ∧
    ∀ (es' : List Event) (name' : String), (window name es).Perm (window name' es') →
      (after es').timing name' = (after es).timing name := by
  have hlen : (window name es).length ≤ windowSize := length_window name es ▸ Nat.min_le_left _ _
  refine ⟨?_, length_window name es, ?_, fun hne hsum => ?_, fun es' name' hperm => ?_⟩
  · rw [timing_eq]
    constructor
    · intro h
      by_contra hne
      rw [if_neg (window_ne_nil hne)] at h
      cases h
    · intro h
      rw [window, h, List.rtake_nil, if_pos rfl]
  · rw [timing_eq]
    -- Nothing recorded is no duration that is too long.
    by_cases hne : window name es = []
    · rw [hne]
      decide
    · rw [if_neg hne, Timing.ofSamples_eq hne]
      split
      case isTrue hshort => simp [hshort]
      case isFalse hlong => simp [Nat.le_of_not_lt hlong]
  · have hwindow := window_ne_nil hne
    have hdescribes := Timing.ofWindow_describes hwindow hlen
    rw [timing_eq, if_neg hwindow, Timing.ofSamples_eq hwindow, if_pos hsum]
    exact ⟨_, rfl, hdescribes, hdescribes.bounds hwindow⟩
  · have hempty : window name' es' = [] ↔ window name es = [] := by
      rw [← List.isEmpty_iff, ← List.isEmpty_iff, hperm.isEmpty_eq]
    simp only [timing_eq, hempty, Timing.ofSamples_perm hperm]

end Metrics

end TwinHeap
