import TwinHeap.Proofs.Likeness
import TwinHeap.Proofs.Staging

/-!
# Hiding — what a call is not told

The storage that is lent for an output is hidden from the call. What is loaded from it may differ until
the argument is staged: then the value is reset, and nothing of it is left.
-/

namespace TwinHeap

variable {σ : Type}

/-! ## Octets that may differ -/

namespace Value

/-- Both consist of equally many octets, which are related one by one. -/
def Octetwise (R : Nat → Octet → Octet → Prop) (v v' : Value) : Prop :=
  ∃ os os', v = .plain os ∧ v' = .plain os' ∧ os.length = os'.length ∧
    ∀ k, R k (v.octetAt k) (v'.octetAt k)

namespace Octetwise

variable {R R' : Nat → Octet → Octet → Prop} {v v' : Value}

theorem plain (hR : ∀ k o, R k o o) (os : List Octet) :
    (Value.plain os).Octetwise R (.plain os) := ⟨os, os, rfl, rfl, rfl, fun k => hR k _⟩

theorem eq (h : v.Octetwise (fun _ o o' => o = o') v') : v = v' := by
  obtain ⟨os, os', rfl, rfl, hlength, hsame⟩ := h
  refine congrArg Value.plain (List.ext_getElem hlength fun k hk hk' => ?_)
  have hk := hsame k
  unfold octetAt octets at hk
  rwa [List.getElem?_eq_getElem ‹_›, List.getElem?_eq_getElem ‹_›] at hk

theorem mono (h : v.Octetwise R v') (hR : ∀ k o o', R k o o' → R' k o o') : v.Octetwise R' v' := by
  obtain ⟨os, os', hv, hv', hlength, hsame⟩ := h
  exact ⟨os, os', hv, hv', hlength, fun k => hR k _ _ (hsame k)⟩

/-- Octets are replaced in both. -/
theorem splice {offset : Nat} {os os' : List Octet} (h : v.Octetwise R v')
    (hlength : os.length = os'.length)
    (hin : ∀ j < os.length, R' (offset + j) (os[j]?.getD .zero) (os'[j]?.getD .zero))
    (hout : ∀ k, k < offset ∨ offset + os.length ≤ k → R k (v.octetAt k) (v'.octetAt k) →
      R' k (v.octetAt k) (v'.octetAt k)) :
    (v.splice offset os).Octetwise R' (v'.splice offset os') := by
  obtain ⟨old, old', rfl, rfl, hold, hsame⟩ := h
  refine ⟨_, _, rfl, rfl, ?_, fun k => ?_⟩
  · simp only [List.length_append, length_front, List.length_drop, hold, hlength]
  · rw [octetAt_splice, octetAt_splice, ← hlength]
    by_cases hk : offset ≤ k ∧ k < offset + os.length
    · rw [if_pos hk, if_pos hk]
      have hj := hin (k - offset) (by omega)
      rwa [Nat.add_sub_cancel' hk.1] at hj
    · rw [if_neg hk, if_neg hk]
      exact hout k (by omega) (hsame k)

end Octetwise

/-- The octets that assigning a value to what lies at an offset writes. -/
def assigned (p : Property) (v : Value) (offset : Nat) (src : Value) : List Octet :=
  match p.kind.storage with
  | .flag mask => [Octet.merge mask (v.octetAt offset) src.first]
  | _ => src.read p.size

/-- The octets that resetting what lies at an offset writes. -/
def wiped (p : Property) (v : Value) (offset : Nat) : List Octet :=
  match p.kind.storage with
  | .flag mask => [(v.octetAt offset).setBits mask false]
  | _ => List.replicate p.size .zero

variable {p : Property} {offset : Nat}

theorem put_assign (hin : p.inBlock = true) (old : List Octet) (src : Value) :
    (plain old).put offset (((plain old).skip offset).assign p src) =
      (plain old).splice offset (assigned p (plain old) offset src) := by
  unfold assign assigned
  obtain hs | ⟨mask, hs⟩ := Property.storage_of_inBlock hin
  · rw [hs]
    exact put_write _ _ _
  · rw [hs, first_eq_octetAt ((plain old).skip offset), octetAt_skip]
    exact put_write _ _ _

theorem put_reset (hin : p.inBlock = true) (old : List Octet) :
    (plain old).put offset (((plain old).skip offset).reset p) =
      (plain old).splice offset (wiped p (plain old) offset) := by
  unfold reset wiped
  obtain hs | ⟨mask, hs⟩ := Property.storage_of_inBlock hin
  · rw [hs]
    exact put_write _ _ _
  · rw [hs, first_eq_octetAt, octetAt_skip]
    exact put_write _ _ _

/-- A value that does not consist of octets takes none. -/
theorem put_assign_of_not_plain {v : Value} (hin : p.inBlock = true) (hv : v.isPlain = false)
    (src : Value) : v.put offset ((v.skip offset).assign p src) = v := by
  unfold assign
  obtain hs | ⟨mask, hs⟩ := Property.storage_of_inBlock hin <;> rw [hs] <;>
    cases v <;> first | rfl | cases hv

theorem assign_of_own (hin : p.inBlock = false) (v src : Value) : v.assign p src = src := by
  unfold Property.inBlock at hin
  unfold assign
  cases hs : p.kind.storage <;> rw [hs] at hin <;> first | rfl | cases hin

theorem reset_of_own (hin : p.inBlock = false) (v : Value) : v.reset p = default p := by
  unfold Property.inBlock at hin
  unfold reset
  cases hs : p.kind.storage <;> rw [hs] at hin <;> first | rfl | cases hin

end Value

/-- Clearing the bits of a mask forgets what they were. -/
theorem Octet.clear_merge (mask : UInt8) (o src : Octet) :
    setBits mask false (merge mask o src) = setBits mask false o := by
  have hbits (a b : UInt8) : ((a &&& ~~~mask) ||| (b &&& mask)) &&& ~~~mask = a &&& ~~~mask := by
    apply UInt8.toBitVec_inj.1
    ext i
    simp only [UInt8.toBitVec_and, UInt8.toBitVec_or, UInt8.toBitVec_not, BitVec.getElem_and,
      BitVec.getElem_or, BitVec.getElem_not]
    grind
  exact congrArg Octet.value (hbits o.byte src.byte)

/-- In the octets of the property anything may differ, in that of a flag only its own bits. -/
def Property.Hides (p : Property) (k : Nat) (o o' : Octet) : Prop :=
  match p.kind.storage with
  | .plain => p.offset ≤ k ∧ k < p.offset + p.size
  | .flag mask => k = p.offset ∧ o.setBits mask false = o'.setBits mask false
  | _ => False

theorem Property.Hides.range {p : Property} {k : Nat} {o o' : Octet} (h : p.Hides k o o') :
    p.inBlock = true ∧ p.offset ≤ k ∧ k < p.offset + p.extent := by
  unfold Hides at h
  unfold inBlock extent
  cases hs : p.kind.storage <;> rw [hs] at h
  case plain => exact ⟨rfl, h⟩
  case flag mask =>
    obtain ⟨rfl, -⟩ := h
    exact ⟨rfl, Nat.le_refl _, Nat.add_lt_add_left (Nat.le_max_right p.size 1) _⟩
  all_goals exact h.elim

/-! ## The veil of a call -/

namespace Veil

/-- Only the cells in `K` differ, and they hold what they hold in the two states. -/
def covering (K : Nat → Prop) (s s' : State) (V : Veil) : Veil := fun c v v' =>
  (K c → s.memory.cells.get? c = some v ∧ s'.memory.cells.get? c = some v') ∧ (¬K c → V c v v')

/-- Nothing is said of contents. -/
def any : Veil := fun _ _ _ => True

theorem le_any (V : Veil) (c : Nat) (v v' : Value) (_ : V c v v') : any c v v' := trivial

end Veil

namespace Redirection

open Act

/-- The octets of the block that differ belong to parameters that are still to be reset, and so do the
cells that differ. -/
def unsettled (block : Nat) (pending : List Parameter) : Veil := fun c v v' =>
  v = v' ∨
  (c = block ∧ v.Octetwise (fun k o o' => o = o' ∨ ∃ q ∈ pending, q.property.Hides k o o') v') ∨
  ((∃ q ∈ pending, q.property.inBlock = false ∧ q.place = .ofCell c) ∧
    v.isPlain = false ∧ v'.isPlain = false)

/-- What differs while outputs are loaded and reset. -/
def veil (K : Nat → Prop) (s s' : State) (block : Nat) (pending : List Parameter) : Veil :=
  .covering K s s' (unsettled block pending)

variable {K : Nat → Prop} {s s' : State} {block c : Nat} {pending pending' : List Parameter}
  {v v' : Value}

/-- When all are reset nothing differs any more. -/
theorem eq_of_unsettled (h : unsettled block [] c v v') : v = v' := by
  obtain hsame | ⟨-, hoctets⟩ | ⟨⟨q, hq, -⟩, -⟩ := h
  · exact hsame
  · refine (hoctets.mono fun k o o' => ?_).eq
    rintro (hsame | ⟨q, hq, -⟩)
    · exact hsame
    · cases hq
  · cases hq

/-- The parameters that the arguments passed by reference are bound to. -/
def outputsOf (params : List Parameter) (args : List LinkedArg) : List Parameter :=
  args.filterMap fun a => if a.byRef then params[a.param]? else none

/-- Where a parameter of a call lies. -/
def InCall (block : Nat) (q : Parameter) : Prop :=
  q.property.inBlock = true ∧ q.place = .cell block q.property.offset ∨
    q.property.inBlock = false ∧ ∃ c, q.place = .ofCell c ∧ block < c

variable {param : Parameter}

/-- A parameter that does not lie in a cell does not matter for it. -/
theorem unsettled_mono (hplace : ∀ q ∈ pending, InCall block q)
    (h : ∀ q ∈ pending, q ∈ pending' ∨ ∀ o, q.place ≠ .cell c o)
    (hv : unsettled block pending c v v') : unsettled block pending' c v v' := by
  obtain hsame | ⟨rfl, hoctets⟩ | ⟨⟨q, hq, hin, hown⟩, hplain⟩ := hv
  · exact .inl hsame
  · refine .inr (.inl ⟨rfl, hoctets.mono fun k o o' => ?_⟩)
    rintro (hsame | ⟨q, hq, hhides⟩)
    · exact .inl hsame
    · obtain hmem | hnot := h q hq
      · exact .inr ⟨q, hmem, hhides⟩
      · obtain ⟨-, hcell⟩ | ⟨hin, -⟩ := hplace q hq
        · exact absurd hcell (hnot _)
        · rw [hhides.range.1] at hin
          cases hin
  · obtain hmem | hnot := h q hq
    · exact .inr (.inr ⟨⟨q, hmem, hin, hown⟩, hplain⟩)
    · exact absurd hown (hnot 0)

/-- Outside of the call nothing differs. -/
theorem eq_of_below (hplace : ∀ q ∈ pending, InCall block q) (hc : c < block)
    (h : unsettled block pending c v v') : v = v' := by
  refine eq_of_unsettled (unsettled_mono hplace (fun q hq => .inr fun o hcell => ?_) h)
  obtain ⟨-, hblock⟩ | ⟨-, d, hown, hlt⟩ := hplace q hq
  · cases hcell.symm.trans hblock
    exact absurd hc (Nat.lt_irrefl _)
  · cases hcell.symm.trans hown
    omega

/-- A cell of its own that is not to be reset does not differ. -/
theorem eq_of_beside (hparam : param.place = .ofCell c) (hin : param.property.inBlock = false)
    (hbeside : ∀ q ∈ pending, param.Apart q) (hplace : ∀ q ∈ pending, InCall block q)
    (h : unsettled block pending c v v') : v = v' := by
  refine eq_of_unsettled (unsettled_mono hplace (fun q hq => .inr fun o hcell => ?_) h)
  obtain ⟨hin', -⟩ := hbeside q hq c 0 o hparam hcell
  rw [hin] at hin'
  cases hin'

/-- Contents of a block that differ in hidden octets only consist of octets. -/
theorem octetwise_of_unsettled (hplace : ∀ q ∈ pending, InCall block q)
    (h : unsettled block pending block v v') : (v = v' ∧ v.isPlain = false) ∨
      v.Octetwise (fun k o o' => o = o' ∨ ∃ q ∈ pending, q.property.Hides k o o') v' := by
  obtain rfl | ⟨-, hoctets⟩ | ⟨⟨q, hq, hin, hown⟩, -⟩ := h
  · cases v with
    | plain os => exact .inr (.plain (fun _ _ => .inl rfl) os)
    | _ => exact .inl ⟨rfl, rfl⟩
  · exact .inr hoctets
  · obtain ⟨hin', -⟩ | ⟨-, d, hd, hlt⟩ := hplace q hq
    · rw [hin] at hin'
      cases hin'
    · cases hown.symm.trans hd
      exact absurd hlt (Nat.lt_irrefl _)

/-- An octet of a parameter differs only if this one is to be reset itself. -/
theorem octet_within (hparam : param.place = .cell block param.property.offset)
    (hplace : ∀ q ∈ pending, InCall block q) (hsep : ∀ q ∈ pending, q = param ∨ param.Apart q)
    {k : Nat} {o o' : Octet} (h : o = o' ∨ ∃ q ∈ pending, q.property.Hides k o o')
    (hlo : param.property.offset ≤ k) (hhi : k < param.property.offset + param.property.extent) :
    o = o' ∨ param ∈ pending ∧ param.property.Hides k o o' := by
  refine h.imp_right ?_
  rintro ⟨q, hq, hhides⟩
  obtain rfl | hapart := hsep q hq
  · exact ⟨hq, hhides⟩
  · obtain ⟨hin, hlo', hhi'⟩ := hhides.range
    obtain ⟨-, hcell⟩ | ⟨hin', -⟩ := hplace q hq
    · obtain ⟨-, -, hrange⟩ := hapart block _ _ hparam hcell
      omega
    · rw [hin] at hin'
      cases hin'

/-- What lies in a parameter that is not to be reset does not differ. -/
theorem octetAt_of_beside (hplace : ∀ q ∈ pending, InCall block q)
    (hparam : param.place = .cell block param.property.offset)
    (hbeside : ∀ q ∈ pending, param.Apart q) (h : unsettled block pending block v v') {k : Nat}
    (hlo : param.property.offset ≤ k) (hhi : k < param.property.offset + param.property.extent) :
    v.octetAt k = v'.octetAt k := by
  obtain ⟨rfl, -⟩ | ⟨-, -, -, -, -, hoctets⟩ := octetwise_of_unsettled hplace h
  · rfl
  · obtain hsame | ⟨hmem, hhides⟩ :=
      octet_within hparam hplace (fun q hq => .inr (hbeside q hq)) (hoctets k) hlo hhi
    · exact hsame
    · obtain ⟨-, -, hrange⟩ := hbeside param hmem block _ _ hparam hparam
      omega

/-! ## Loading and resetting -/

/-- A flag that is to be reset differs in its own bits only. -/
theorem clear_within {mask : UInt8} (hs : param.property.kind.storage = .flag mask)
    (hparam : param.place = .cell block param.property.offset)
    (hplace : ∀ q ∈ pending, InCall block q) (hsep : ∀ q ∈ pending, q = param ∨ param.Apart q)
    {o o' : Octet} (h : o = o' ∨ ∃ q ∈ pending, q.property.Hides param.property.offset o o') :
    o.setBits mask false = o'.setBits mask false := by
  have hpos : 0 < param.property.extent := Property.one_le_extent hs
  obtain rfl | ⟨-, hhides⟩ :=
    octet_within hparam hplace hsep h (Nat.le_refl _) (Nat.lt_add_of_pos_right hpos)
  · rfl
  · unfold Property.Hides at hhides
    rw [hs] at hhides
    exact hhides.2

/-- What is assigned to the block differs in hidden octets only. -/
theorem unsettled_assign {x x' : Value} (hin : param.property.inBlock = true)
    (hparam : param.place = .cell block param.property.offset)
    (hplace : ∀ q ∈ pending, InCall block q) (hsep : ∀ q ∈ pending, q = param ∨ param.Apart q)
    (hsrc : param ∈ pending ∨ x = x') (h : unsettled block pending block v v') :
    unsettled block pending block
      (v.put param.property.offset ((v.skip param.property.offset).assign param.property x))
      (v'.put param.property.offset ((v'.skip param.property.offset).assign param.property x')) := by
  obtain ⟨rfl, hv⟩ | hoctetwise := octetwise_of_unsettled hplace h
  · rw [Value.put_assign_of_not_plain hin hv, Value.put_assign_of_not_plain hin hv]
    exact h
  obtain ⟨old, old', rfl, rfl, -, hoctets⟩ := id hoctetwise
  rw [Value.put_assign hin, Value.put_assign hin]
  refine .inr (.inl ⟨rfl, hoctetwise.splice ?_ (fun j hj => ?_) fun _ _ hk => hk⟩)
  · unfold Value.assigned
    obtain hs | ⟨mask, hs⟩ := Property.storage_of_inBlock hin <;> rw [hs]
    · exact (Value.length_read _ _).trans (Value.length_read _ _).symm
    · rfl
  by_cases hmem : param ∈ pending
  -- The parameter is still to be reset, so whatever its octets have become is hidden.
  · refine .inr ⟨param, hmem, ?_⟩
    unfold Value.assigned at hj ⊢
    unfold Property.Hides
    obtain hs | ⟨mask, hs⟩ := Property.storage_of_inBlock hin <;> rw [hs] at hj ⊢
    · rw [Value.length_read] at hj
      exact ⟨Nat.le_add_right _ _, Nat.add_lt_add_left hj _⟩
    · obtain rfl := Nat.lt_one_iff.1 hj
      refine ⟨rfl, ?_⟩
      show Octet.setBits mask false (Octet.merge mask _ _) =
        Octet.setBits mask false (Octet.merge mask _ _)
      rw [Octet.clear_merge, Octet.clear_merge]
      exact clear_within hs hparam hplace hsep (hoctets _)
  -- The same is assigned, and the bits beside a flag are those of no pending parameter.
  · obtain rfl := hsrc.resolve_left hmem
    have hbeside (q) (hq : q ∈ pending) : param.Apart q :=
      (hsep q hq).resolve_left (by rintro rfl; exact hmem hq)
    refine .inl ?_
    unfold Value.assigned
    obtain hs | ⟨mask, hs⟩ := Property.storage_of_inBlock hin <;> rw [hs]
    have hpos : 0 < param.property.extent := Property.one_le_extent hs
    dsimp only
    rw [octetAt_of_beside hplace hparam hbeside h (Nat.le_refl _) (Nat.lt_add_of_pos_right hpos)]

/-- What is reset in the block does not differ any more. -/
theorem unsettled_reset (hin : param.property.inBlock = true)
    (hparam : param.place = .cell block param.property.offset)
    (hplace : ∀ q ∈ pending, InCall block q) (hsep : ∀ q ∈ pending, q = param ∨ param.Apart q)
    (hrest : ∀ q ∈ pending, q = param ∨ q ∈ pending') (h : unsettled block pending block v v') :
    unsettled block pending' block
      (v.put param.property.offset ((v.skip param.property.offset).reset param.property))
      (v'.put param.property.offset ((v'.skip param.property.offset).reset param.property)) := by
  obtain ⟨rfl, hv⟩ | hoctetwise := octetwise_of_unsettled hplace h
  · exact .inl rfl
  obtain ⟨old, old', rfl, rfl, -, hoctets⟩ := id hoctetwise
  have hlength (os : List Octet) : (Value.wiped param.property (.plain os) param.property.offset).length =
      (Value.wiped param.property (.plain old) param.property.offset).length := by
    unfold Value.wiped
    obtain hs | ⟨mask, hs⟩ := Property.storage_of_inBlock hin <;> rw [hs]
    rfl
  rw [Value.put_reset hin, Value.put_reset hin]
  refine .inr (.inl ⟨rfl, hoctetwise.splice (hlength old').symm (fun j _ => .inl ?_) fun k hk hk' => ?_⟩)
  · unfold Value.wiped
    obtain hs | ⟨mask, hs⟩ := Property.storage_of_inBlock hin <;> rw [hs]
    dsimp only
    rw [clear_within hs hparam hplace hsep (hoctets _)]
  -- Outside of what is wiped only the other pending parameters hide anything.
  · refine hk'.imp_right ?_
    rintro ⟨q, hq, hhides⟩
    obtain rfl | hmem := hrest q hq
    · unfold Property.Hides at hhides
      unfold Value.wiped at hk
      obtain hs | ⟨mask, hs⟩ := Property.storage_of_inBlock hin <;> rw [hs] at hk hhides
      · rw [List.length_replicate] at hk
        omega
      · have hone : ([((Value.plain old).octetAt q.property.offset).setBits mask false]).length = 1 := rfl
        rw [hone] at hk
        omega
    · exact ⟨q, hmem, hhides⟩

variable {s₁ s₁' : State}

/-- An argument is assigned to its parameter. What differs is hidden if the parameter is to be reset. -/
theorem alike_assignAt {src : Address} (h : s₁.Alike (veil K s s' block pending) s₁')
    (hK : ∀ c, K c → c < block) (hparam : InCall block param)
    (hplace : ∀ q ∈ pending, InCall block q) (hsep : ∀ q ∈ pending, q = param ∨ param.Apart q)
    (hown : ∀ c, param.place = .ofCell c → param.property.inBlock = false →
      ∃ v, s₁.memory.cells.get? c = some v ∧ v.isPlain = false)
    (hsrc : param ∈ pending ∨ s₁.valueAt src = s₁'.valueAt src) :
    (s₁.assignAt param.property param.place src).Alike (veil K s s' block pending)
      (s₁'.assignAt param.property param.place src) := by
  unfold State.assignAt
  generalize s₁.valueAt src = x at hsrc ⊢
  generalize s₁'.valueAt src = x' at hsrc ⊢
  -- The parameter lies in the block of the call or has a cell of its own.
  obtain ⟨hin, hcell⟩ | ⟨hin, c, hcell, hlt⟩ := hparam
  · rw [hcell]
    refine h.modify (fun _ _ _ _ hv => hv) (fun v v' hget hget' hv => ⟨fun hc => ?_, fun hc => ?_⟩)
      fun _ _ _ hv => hv
    · exact absurd (hK _ hc) (Nat.lt_irrefl _)
    · rw [State.valueAt_of_get? hget, State.valueAt_of_get? hget']
      exact unsettled_assign hin hcell hplace hsep hsrc (hv.2 hc)
  · obtain ⟨old, hold, hplain⟩ := hown c hcell hin
    rw [hcell]
    refine h.modify (fun _ _ _ _ hv => hv) (fun v v' hget _ hv => ⟨fun hc => ?_, fun hc => ?_⟩)
      fun _ _ _ hv => hv
    · have := hK c hc
      omega
    · cases hold.symm.trans hget
      rw [Value.assign_of_own hin, Value.assign_of_own hin]
      have hdiffer := hv.2 hc
      by_cases hmem : param ∈ pending
      · refine .inr (.inr ⟨⟨param, hmem, hin, hcell⟩, Value.isPlain_put hplain x, ?_⟩)
        obtain rfl | ⟨rfl, -⟩ | ⟨-, -, hplain'⟩ := hdiffer
        · exact Value.isPlain_put hplain x'
        · exact absurd hlt (Nat.lt_irrefl _)
        · exact Value.isPlain_put hplain' x'
      · obtain rfl := hsrc.resolve_left hmem
        have hbeside (q) (hq : q ∈ pending) : param.Apart q :=
          (hsep q hq).resolve_left (by rintro rfl; exact hmem hq)
        rw [eq_of_beside hcell hin hbeside hplace hdiffer]
        exact .inl rfl

/-- A parameter that was reset does not differ any more. -/
theorem alike_resetAt (h : s₁.Alike (veil K s s' block pending) s₁')
    (hK : ∀ c, K c → c < block) (hparam : InCall block param)
    (hplace : ∀ q ∈ pending, InCall block q) (hsep : ∀ q ∈ pending, q = param ∨ param.Apart q)
    (hrest : ∀ q ∈ pending, q = param ∨ q ∈ pending') :
    (s₁.resetAt param.property param.place).Alike (veil K s s' block pending')
      (s₁'.resetAt param.property param.place) := by
  unfold State.resetAt
  -- In all other cells what differs stays hidden.
  have hother {d : Nat} (hd : ∀ o, param.place ≠ .cell d o) (v v' : Value)
      (hv : veil K s s' block pending d v v') : veil K s s' block pending' d v v' := by
    refine ⟨hv.1, fun hc => unsettled_mono hplace (fun q hq => ?_) (hv.2 hc)⟩
    obtain rfl | hmem := hrest q hq
    · exact .inr hd
    · exact .inl hmem
  have hfresh (c : Nat) (_ : s₁.memory.next ≤ c) (v : Value) (hv : veil K s s' block pending c v v) :
      veil K s s' block pending' c v v := ⟨hv.1, fun _ => .inl rfl⟩
  obtain ⟨hin, hcell⟩ | ⟨hin, c, hcell, hlt⟩ := hparam
  · rw [hcell] at hother ⊢
    refine h.modify (fun d hd => hother fun o hblock => hd (by cases hblock; rfl))
      (fun v v' hget hget' hv => ⟨fun hc => ?_, fun hc => ?_⟩) hfresh
    · exact absurd (hK _ hc) (Nat.lt_irrefl _)
    · rw [State.valueAt_of_get? hget, State.valueAt_of_get? hget']
      exact unsettled_reset hin hcell hplace hsep hrest (hv.2 hc)
  · rw [hcell] at hother ⊢
    refine h.modify (fun d hd => hother fun o hd' => hd (by cases hd'; rfl))
      (fun v v' _ _ hv => ⟨fun hc => ?_, fun hc => .inl ?_⟩) hfresh
    · have := hK c hc
      omega
    · rw [Value.reset_of_own hin, Value.reset_of_own hin]
      obtain rfl | ⟨rfl, -⟩ | ⟨-, hplain, hplain'⟩ := hv.2 hc
      · rfl
      · exact absurd hlt (Nat.lt_irrefl _)
      · rw [Value.put_of_not_plain hplain (Value.isPlain_default hin),
          Value.put_of_not_plain hplain' (Value.isPlain_default hin)]

end Redirection

end TwinHeap
