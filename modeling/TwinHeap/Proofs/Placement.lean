import TwinHeap.Proofs.Blocks
import TwinHeap.Proofs.Calls

/-!
# Placement — where a call keeps its parameters, and what lies there

Data lies in one block, at the offsets of the function's layout; a value that owns storage has a cell
of its own. `State.Holds` says which value lies at a place; it is kept by whatever changes other octets
only (`State.Touches`), so parameters that do not overlap (`Function.Apart`) do not disturb each other
while they are loaded.
-/

namespace TwinHeap

variable {σ : Type}

/-! ## Octets -/

namespace Value

/-- The octet at an index; memory that was never written reads as zero. -/
def octetAt (v : Value) (k : Nat) : Octet := v.octets[k]?.getD .zero

theorem getElem?_read (v : Value) (n k : Nat) :
    (v.read n)[k]? = if k < n then some (v.octetAt k) else none := by
  unfold read octetAt
  rw [List.getElem?_append, List.length_take]
  by_cases hl : k < min n v.octets.length
  · have hk : k < n := by omega
    have hlt : k < v.octets.length := by omega
    simp [hl, hk, hlt]
  · rw [if_neg hl, List.getElem?_replicate]
    by_cases hk : k < n
    · have hlt : k - min n v.octets.length < n - v.octets.length := by omega
      have hge : v.octets.length ≤ k := by omega
      simp [hk, hlt, hge]
    · have hlt : ¬k - min n v.octets.length < n - v.octets.length := by omega
      simp [hk, hlt]

/-- What is read is determined octet by octet. -/
theorem read_eq_iff {v v' : Value} {n : Nat} :
    v.read n = v'.read n ↔ ∀ k < n, v.octetAt k = v'.octetAt k := by
  constructor
  · intro h k hk
    have hget := congrArg (fun os => os[k]?) h
    simpa only [getElem?_read, if_pos hk, Option.some.injEq] using hget
  · intro h
    refine List.ext_getElem? fun k => ?_
    rw [getElem?_read, getElem?_read]
    by_cases hk : k < n
    · rw [if_pos hk, if_pos hk, h k hk]
    · rw [if_neg hk, if_neg hk]

@[simp] theorem skip_zero (v : Value) : v.skip 0 = v := by
  cases v <;> rfl

theorem octetAt_skip (v : Value) (offset k : Nat) :
    (v.skip offset).octetAt k = v.octetAt (offset + k) := by
  unfold octetAt skip
  cases v with
  | plain os => simp [octets]
  | _ => simp [octets]

theorem read_one (v : Value) : v.read 1 = [v.octetAt 0] := by
  unfold read octetAt
  cases v.octets <;> simp

theorem read_skip_one (v : Value) (i : Nat) : (v.skip i).read 1 = [v.octetAt i] := by
  rw [read_one, octetAt_skip, Nat.add_zero]

/-- Replacing octets replaces these octets. -/
theorem octetAt_splice (old os : List Octet) (offset k : Nat) :
    ((plain old).splice offset os).octetAt k =
      if offset ≤ k ∧ k < offset + os.length then os[k - offset]?.getD .zero
      else (plain old).octetAt k := by
  have hfront : (front old offset).length = offset := length_front old offset
  unfold octetAt splice
  simp only [octets]
  rw [List.getElem?_append, hfront]
  by_cases hk : k < offset
  · rw [if_pos hk, if_neg (by omega)]
    unfold front
    rw [List.getElem?_append, List.length_take]
    by_cases hl : k < old.length
    · have hlt : k < min offset old.length := by omega
      simp [hl, hlt]
    · have hge : ¬k < min offset old.length := by omega
      have hlt : k - min offset old.length < offset - old.length := by omega
      simp [hl, hge, hlt]
  · rw [if_neg hk, List.getElem?_append]
    by_cases hl : k - offset < os.length
    · rw [if_pos hl, if_pos (by omega)]
    · rw [if_neg hl, if_neg (by omega), List.getElem?_drop]
      congr 2
      omega

/-- Putting back what lies at an offset with its first octets replaced replaces these octets. -/
theorem put_write (old os : List Octet) (offset : Nat) :
    (plain old).put offset (((plain old).skip offset).write os) = (plain old).splice offset os := by
  have hskip : ((plain old).skip offset).write os =
      plain (os ++ old.drop (offset + os.length)) := by
    simp [skip, write, splice, front, List.drop_drop]
  rw [hskip]
  have hrest : old.drop (offset + (os ++ old.drop (offset + os.length)).length) = [] := by
    refine List.drop_eq_nil_of_le ?_
    rw [List.length_append, List.length_drop]
    omega
  show (plain old).splice offset _ = _
  unfold splice
  simp only [hrest, List.append_nil]

end Value

/-! ## Places -/

namespace Property

/-- Values of the property are data, and lie in the block of a call. -/
def inBlock (p : Property) : Bool :=
  match p.kind.storage with
  | .plain | .flag _ => true
  | _ => false

/-- The octets of the block that the property takes: a flag takes one at least. -/
def extent (p : Property) : Nat :=
  match p.kind.storage with
  | .plain => p.size
  | .flag _ => max p.size 1
  | _ => 0

/-- The two take no octet of the block in common. -/
def Apart (p q : Property) : Prop :=
  p.inBlock = true → q.inBlock = true →
    p.offset + p.extent ≤ q.offset ∨ q.offset + q.extent ≤ p.offset

end Property

theorem Property.storage_of_inBlock {p : Property} (h : p.inBlock = true) :
    p.kind.storage = .plain ∨ ∃ mask, p.kind.storage = .flag mask := by
  unfold inBlock at h
  cases hs : p.kind.storage with
  | plain => exact .inl rfl
  | flag mask => exact .inr ⟨mask, rfl⟩
  | _ => rw [hs] at h; cases h

section Storage

variable {p : Property} {mask : UInt8}

theorem Property.inBlock_of_plain (hs : p.kind.storage = .plain) : p.inBlock = true := by
  unfold inBlock
  rw [hs]

theorem Property.inBlock_of_flag (hs : p.kind.storage = .flag mask) : p.inBlock = true := by
  unfold inBlock
  rw [hs]

theorem Property.extent_of_plain (hs : p.kind.storage = .plain) : p.extent = p.size := by
  unfold extent
  rw [hs]

theorem Property.one_le_extent (hs : p.kind.storage = .flag mask) : 1 ≤ p.extent := by
  unfold extent
  rw [hs]
  exact Nat.le_max_right _ _

end Storage

/-- No two parameters of the function overlap. -/
def Function.Apart (f : Function) : Prop := f.params.Pairwise Property.Apart

theorem Kind.eq_bool_of_storage {k : Kind} {mask : UInt8} (h : k.storage = .flag mask) :
    k = .bool mask := by
  cases k <;> cases h
  rfl

/-- A property of its kind's size takes no more octets than that, if a flag takes one. -/
theorem Property.extent_le_size {layoutOf : Kind → Layout} {p : Property}
    (hflag : ∀ mask, 0 < (layoutOf (.bool mask)).size) (hsize : p.size = (layoutOf p.kind).size) :
    p.extent ≤ p.size := by
  unfold extent
  split
  · exact Nat.le_refl _
  · rename_i mask hmask
    have hpos := hflag mask
    rw [← Kind.eq_bool_of_storage hmask, ← hsize] at hpos
    omega
  · exact Nat.zero_le _

/-- In a function that was laid out no two parameters overlap. -/
theorem Function.apart_of_build {owner name : String} {flags : FunctionFlags}
    {layoutOf : Kind → Layout} {ds : List ParamDecl} {f : Function}
    (hflag : ∀ mask, 0 < (layoutOf (.bool mask)).size)
    (h : Function.build owner name flags layoutOf ds = .ok f) : f.Apart := by
  have harranged := Function.arranged_of_build h
  refine harranged.ordered.imp_of_mem fun {p q} hp _ hstop _ _ => .inl ?_
  have hextent := Property.extent_le_size hflag (harranged.size_eq hp)
  exact Nat.le_trans (Nat.add_le_add_left hextent _) hstop

namespace State

/-- A value of the property lies at a place. -/
def Holds (s : State) (p : Property) (place : Address) (v : Value) : Prop :=
  if p.inBlock then s.readAt place p.extent = v.read p.extent else s.valueAt place = v

/-- Of the cells in `K` nothing changes but `n` octets of the cell `c`, from `lo` on. -/
structure Touches (K : Nat → Prop) (c lo n : Nat) (s s' : State) : Prop where
  others : s.Keeps (fun d => K d ∧ d ≠ c) s'
  octets : ∀ k, k < lo ∨ lo + n ≤ k →
    (s'.memory.get c).octetAt k = (s.memory.get c).octetAt k
  plain : (∃ os, s.memory.cells.get? c = some (.plain os)) →
    ∃ os, s'.memory.cells.get? c = some (.plain os)

variable {K : Nat → Prop} {c lo n : Nat} {s s' s'' : State} {p : Property} {v : Value}

theorem Touches.trans (h : Touches K c lo n s s') (h' : Touches K c lo n s' s'') :
    Touches K c lo n s s'' where
  others := h.others.trans h'.others
  octets k hk := (h'.octets k hk).trans (h.octets k hk)
  plain hp := h'.plain (h.plain hp)

theorem touches_of_keeps (h : s.Keeps K s') (hc : K c) : Touches K c lo n s s' where
  others d hd := h d hd.1
  octets k _ := by
    unfold Memory.get
    rw [h c hc]
  plain := by rintro ⟨os, hos⟩; exact ⟨os, (h c hc).trans hos⟩

theorem Touches.mono {lo' n' : Nat} (h : Touches K c lo n s s') (hlo : lo' ≤ lo)
    (hn : lo + n ≤ lo' + n') : Touches K c lo' n' s s' where
  others := h.others
  octets k hk := h.octets k (by omega)
  plain := h.plain

/-- What lies beside the octets that change stays. -/
theorem Holds.of_touches {d o : Nat} (h : s.Holds p (.cell d o) v) (ht : Touches K c lo n s s')
    (hK : K d) (hclear : d = c → p.inBlock = true ∧ (o + p.extent ≤ lo ∨ lo + n ≤ o)) :
    s'.Holds p (.cell d o) v := by
  unfold Holds at h ⊢
  by_cases hd : d = c
  · subst hd
    obtain ⟨hin, hrange⟩ := hclear rfl
    rw [if_pos hin] at h ⊢
    rw [← h]
    refine Value.read_eq_iff.2 fun k hk => ?_
    rw [Value.octetAt_skip, Value.octetAt_skip]
    exact ht.octets _ (by omega)
  · have hsame : s'.memory.get d = s.memory.get d := by
      unfold Memory.get
      rw [ht.others d ⟨hK, hd⟩]
    unfold readAt valueAt at h ⊢
    dsimp only at h ⊢
    rwa [hsame]

theorem Holds.of_keeps {d o : Nat} (h : s.Holds p (.cell d o) v) (hk : s.Keeps K s') (hd : K d) :
    s'.Holds p (.cell d o) v := by
  have hsame : s'.memory.get d = s.memory.get d := by
    unfold Memory.get
    rw [hk d hd]
  unfold Holds readAt valueAt at h ⊢
  dsimp only at h ⊢
  rwa [hsame]

end State

/-! ## Values that are put there -/

namespace Octet

/-- Clearing the bits of a mask undoes setting them in a clear octet. -/
theorem setBits_merge (mask : UInt8) (o : Octet) :
    setBits mask false (merge mask .zero o) = .zero := by
  have hbits (b : UInt8) : ((0 &&& ~~~mask) ||| (b &&& mask)) &&& ~~~mask = 0 := by
    apply UInt8.toBitVec_inj.1
    ext i
    simp
  exact congrArg Octet.value (hbits o.byte)

end Octet

namespace Value

def isPlain : Value → Bool
  | plain _ => true
  | _ => false

/-- What a fresh place of a property holds after a value was assigned to it. -/
def loaded (p : Property) (src : Value) : Value := (default p).put 0 ((default p).assign p src)

/-- The octets that assigning a value writes to a clear place. -/
def incoming (p : Property) (src : Value) : List Octet :=
  match p.kind.storage with
  | .flag mask => [Octet.merge mask .zero src.first]
  | _ => src.read p.size

variable {p : Property} {v src : Value}

theorem first_eq_octetAt (v : Value) : v.first = v.octetAt 0 := by
  unfold first octetAt
  cases v.octets <;> rfl

theorem length_incoming_le (hin : p.inBlock = true) : (incoming p src).length ≤ p.extent := by
  unfold incoming Property.extent
  obtain hs | ⟨mask, hs⟩ := Property.storage_of_inBlock hin
  · rw [hs]
    exact Nat.le_of_eq (length_read src p.size)
  · rw [hs]
    exact Nat.le_max_right p.size 1

theorem assign_eq_write (hin : p.inBlock = true) (hv : 0 < p.extent → v.first = .zero) :
    v.assign p src = v.write (incoming p src) := by
  unfold Property.extent at hv
  unfold assign incoming
  obtain hs | ⟨mask, hs⟩ := Property.storage_of_inBlock hin
  · rw [hs]
  · rw [hs] at hv ⊢
    dsimp only at hv ⊢
    rw [hv (Nat.le_max_right p.size 1)]

/-- The octets that resetting writes. -/
def clearing (p : Property) (v : Value) : List Octet :=
  match p.kind.storage with
  | .flag mask => [v.first.setBits mask false]
  | _ => List.replicate p.size .zero

theorem reset_eq_write (hin : p.inBlock = true) : v.reset p = v.write (clearing p v) := by
  unfold reset clearing
  obtain hs | ⟨mask, hs⟩ := Property.storage_of_inBlock hin <;> rw [hs]

theorem length_clearing_le (hin : p.inBlock = true) : (clearing p v).length ≤ p.extent := by
  unfold clearing Property.extent
  obtain hs | ⟨mask, hs⟩ := Property.storage_of_inBlock hin
  · rw [hs]
    exact Nat.le_of_eq List.length_replicate
  · rw [hs]
    exact Nat.le_max_right p.size 1

theorem default_eq_plain (hin : p.inBlock = true) :
    default p = plain (List.replicate p.size .zero) := by
  unfold default
  obtain hs | ⟨mask, hs⟩ := Property.storage_of_inBlock hin <;> rw [hs]

theorem octetAt_replicate_zero (n k : Nat) :
    (plain (List.replicate n .zero)).octetAt k = .zero := by
  unfold octetAt
  simp only [octets, List.getElem?_replicate]
  split <;> rfl

/-- A fresh place of data holds the octets that were written to it, and is clear behind them. -/
theorem octetAt_loaded (hin : p.inBlock = true) (src : Value) (k : Nat) :
    (loaded p src).octetAt k = (incoming p src)[k]?.getD .zero := by
  have hfirst : (plain (List.replicate p.size .zero)).first = .zero := by
    rw [first_eq_octetAt, octetAt_replicate_zero]
  have hput := put_write (List.replicate p.size .zero) (incoming p src) 0
  unfold loaded
  rw [default_eq_plain hin, assign_eq_write hin fun _ => hfirst]
  rw [skip_zero] at hput
  rw [hput, octetAt_splice]
  by_cases hk : k < (incoming p src).length
  · simp [hk]
  · simp [hk, octetAt_replicate_zero]

theorem isPlain_default (hin : p.inBlock = false) : (default p).isPlain = false := by
  unfold Property.inBlock at hin
  unfold default
  cases hs : p.kind.storage <;> rw [hs] at hin <;> simp [isPlain] at hin ⊢

/-- After what was loaded is reset, all is clear. -/
theorem octetAt_cleared (hin : p.inBlock = true) (hv : 0 < p.extent →
    v.first = (loaded p src).octetAt 0) {k : Nat} (hk : k < p.extent) :
    (if k < (clearing p v).length then (clearing p v)[k]?.getD .zero
      else (loaded p src).octetAt k) = .zero := by
  have hfirst : v.first = (incoming p src)[0]?.getD .zero := by
    rw [hv (by omega), octetAt_loaded hin]
  rw [octetAt_loaded hin]
  unfold Property.extent at hk
  unfold incoming at hfirst ⊢
  unfold clearing
  obtain hs | ⟨mask, hs⟩ := Property.storage_of_inBlock hin <;> rw [hs] at hk hfirst ⊢ <;>
    simp at hk hfirst ⊢
  · simp [hk]
  · rw [hfirst, Octet.setBits_merge]
    cases k <;> simp

/-- What does not consist of octets never comes to. -/
theorem isPlain_put (hv : v.isPlain = false) (src : Value) : (v.put 0 src).isPlain = false := by
  cases v <;> cases src <;> exact hv

theorem put_of_not_plain (hv : v.isPlain = false) (hsrc : src.isPlain = false) :
    v.put 0 src = src := by
  cases v <;> cases src <;> first | rfl | exact Bool.noConfusion hv | exact Bool.noConfusion hsrc

theorem octetAt_of_not_plain (hv : v.isPlain = false) (k : Nat) : v.octetAt k = .zero := by
  cases v <;> first | rfl | exact Bool.noConfusion hv

theorem isPlain_loaded (hin : p.inBlock = false) (src : Value) :
    (loaded p src).isPlain = false :=
  isPlain_put (isPlain_default hin) _

end Value

/-! ## Putting them there -/

namespace State

variable {K : Nat → Prop} {c d o block lo n : Nat} {s s' : State} {p q : Property} {v : Value}

theorem get_eq {v : Value} (h : s.memory.cells.get? c = some v) : s.memory.get c = v := by
  unfold Memory.get
  rw [h]
  rfl

theorem valueAt_of_get? (h : s.memory.cells.get? c = some v) (o : Nat) :
    s.valueAt (.cell c o) = v.skip o :=
  congrArg (·.skip o) (get_eq h)

/-- Storing changes one cell. -/
theorem get?_storeAt (s : State) (c offset : Nat) (v : Value) (d : Nat) :
    (s.storeAt (.cell c offset) v).memory.cells.get? d =
      if c = d then (s.memory.cells.get? d).map fun old => old.put offset v
      else s.memory.cells.get? d :=
  Table.get?_modify _ _ _ _

/-- The value in a block whose octets from an offset on are replaced. -/
theorem get?_store_write {old os : List Octet} {offset : Nat}
    (hc : s.memory.cells.get? c = some (.plain old)) :
    (s.storeAt (.cell c offset) ((s.valueAt (.cell c offset)).write os)).memory.cells.get? c =
      some ((Value.plain old).splice offset os) := by
  rw [get?_storeAt, if_pos rfl, hc]
  show some ((Value.plain old).put offset (((s.memory.get c).skip offset).write os)) = _
  rw [get_eq hc, Value.put_write]

/-- A store touches no more than the octets that it replaces. -/
theorem touches_of_splice {old os : List Octet} {offset : Nat}
    (hc : s.memory.cells.get? c = some (.plain old))
    (hc' : s'.memory.cells.get? c = some ((Value.plain old).splice offset os))
    (hother : ∀ d, d ≠ c → s'.memory.cells.get? d = s.memory.cells.get? d) (hn : os.length ≤ n) :
    Touches K c offset n s s' where
  others d hd := hother d hd.2
  octets k hk := by
    rw [get_eq hc, get_eq hc', Value.octetAt_splice, if_neg (by omega)]
  plain _ := ⟨_, hc'⟩

theorem touches_store_write {old os : List Octet} {offset : Nat}
    (hc : s.memory.cells.get? c = some (.plain old)) (hn : os.length ≤ n) :
    Touches K c offset n s
      (s.storeAt (.cell c offset) ((s.valueAt (.cell c offset)).write os)) :=
  touches_of_splice hc (get?_store_write hc)
    (fun d hd => by rw [get?_storeAt, if_neg (Ne.symm hd)]) hn

/-- A cell of its own holds no octets before and after a store. -/
theorem touches_store (hc : s.memory.cells.get? c = some v) (hv : v.isPlain = false)
    (new : Value) : Touches K c 0 0 s (s.storeAt (.ofCell c) new) := by
  have hget : (s.storeAt (.ofCell c) new).memory.cells.get? c = some (v.put 0 new) := by
    rw [Address.ofCell, get?_storeAt, if_pos rfl, hc]
    rfl
  refine ⟨fun d hd => ?_, fun k _ => ?_, ?_⟩
  · rw [Address.ofCell, get?_storeAt, if_neg (Ne.symm hd.2)]
  · rw [get_eq hc, get_eq hget, Value.octetAt_of_not_plain hv,
      Value.octetAt_of_not_plain (Value.isPlain_put hv new)]
  · rintro ⟨os, hos⟩
    obtain rfl := Option.some.inj (hc.symm.trans hos)
    cases hv

/-- Which value lies in a block. -/
theorem holds_block (hin : p.inBlock = true) : s.Holds p (.cell c o) v ↔
    ∀ k < p.extent, (s.memory.get c).octetAt (o + k) = v.octetAt k := by
  unfold Holds
  rw [if_pos hin]
  show ((s.memory.get c).skip o).read _ = _ ↔ _
  rw [Value.read_eq_iff]
  simp only [Value.octetAt_skip]

/-- Which value lies in a cell of its own. -/
theorem holds_own (hin : p.inBlock = false) :
    s.Holds p (.ofCell c) v ↔ s.memory.get c = v := by
  unfold Holds
  rw [if_neg (by simp [hin])]
  show (s.memory.get c).skip 0 = v ↔ _
  rw [Value.skip_zero]

theorem get?_of_get (h : s.memory.get c = v) (hv : v.isPlain = false) :
    s.memory.cells.get? c = some v := by
  unfold Memory.get at h
  cases hc : s.memory.cells.get? c with
  | none =>
    rw [hc] at h
    subst h
    cases hv
  | some v' =>
    rw [hc] at h
    exact congrArg some h

/-- Assigning to a clear region of the block. -/
theorem assignAt_block {old : List Octet} (hin : p.inBlock = true)
    (hc : s.memory.cells.get? c = some (.plain old))
    (hclear : ∀ k < p.extent, (s.memory.get c).octetAt (o + k) = .zero) (src : Address) :
    (s.assignAt p (.cell c o) src).Holds p (.cell c o) (.loaded p (s.valueAt src)) ∧
      Touches K c o p.extent s (s.assignAt p (.cell c o) src) := by
  have hfirst (hpos : 0 < p.extent) : (s.valueAt (.cell c o)).first = .zero := by
    rw [Value.first_eq_octetAt]
    show ((s.memory.get c).skip o).octetAt 0 = _
    rw [Value.octetAt_skip]
    exact hclear 0 hpos
  unfold assignAt
  rw [Value.assign_eq_write hin hfirst]
  refine ⟨(holds_block hin).2 fun k hk => ?_, touches_store_write hc (Value.length_incoming_le hin)⟩
  have hzero := hclear k hk
  rw [get_eq hc] at hzero
  rw [get_eq (get?_store_write hc), Value.octetAt_splice, Value.octetAt_loaded hin, hzero]
  by_cases hl : k < (Value.incoming p (s.valueAt src)).length
  · rw [if_pos (by omega), Nat.add_sub_cancel_left]
  · rw [if_neg (by omega), List.getElem?_eq_none (by omega)]
    rfl

/-- Resetting what was loaded into the block. -/
theorem resetAt_block {old : List Octet} {src : Value} (hin : p.inBlock = true)
    (hc : s.memory.cells.get? c = some (.plain old))
    (hh : s.Holds p (.cell c o) (.loaded p src)) :
    (s.resetAt p (.cell c o)).Holds p (.cell c o) (.default p) ∧
      Touches K c o p.extent s (s.resetAt p (.cell c o)) := by
  have hold := (holds_block hin).1 hh
  have hfirst (hpos : 0 < p.extent) :
      (s.valueAt (.cell c o)).first = (Value.loaded p src).octetAt 0 := by
    rw [Value.first_eq_octetAt]
    show ((s.memory.get c).skip o).octetAt 0 = _
    rw [Value.octetAt_skip]
    exact hold 0 hpos
  unfold resetAt
  rw [Value.reset_eq_write hin]
  refine ⟨(holds_block hin).2 fun k hk => ?_, touches_store_write hc (Value.length_clearing_le hin)⟩
  have hcleared := Value.octetAt_cleared hin hfirst hk
  have hkept := hold k hk
  rw [get_eq hc] at hkept
  rw [get_eq (get?_store_write hc), Value.octetAt_splice, hkept, Value.default_eq_plain hin,
    Value.octetAt_replicate_zero, Nat.add_sub_cancel_left]
  refine Eq.trans ?_ hcleared
  by_cases hl : k < (Value.clearing p (s.valueAt (.cell c o))).length
  · rw [if_pos (by omega), if_pos hl]
  · rw [if_neg (by omega), if_neg hl]

/-- Assigning to a fresh cell of its own. -/
theorem assignAt_own (hin : p.inBlock = false)
    (hc : s.memory.cells.get? c = some (.default p)) (src : Address) :
    (s.assignAt p (.ofCell c) src).Holds p (.ofCell c) (.loaded p (s.valueAt src)) ∧
      Touches K c 0 0 s (s.assignAt p (.ofCell c) src) := by
  have hvalue : s.valueAt (.ofCell c) = .default p := by
    show (s.memory.get c).skip 0 = _
    rw [Value.skip_zero, get_eq hc]
  unfold assignAt
  rw [hvalue]
  refine ⟨(holds_own hin).2 (get_eq ?_), touches_store hc (Value.isPlain_default hin) _⟩
  rw [Address.ofCell, get?_storeAt, if_pos rfl, hc]
  rfl

/-- Resetting what was loaded into a cell of its own. -/
theorem resetAt_own {src : Value} (hin : p.inBlock = false)
    (hh : s.Holds p (.ofCell c) (.loaded p src)) :
    (s.resetAt p (.ofCell c)).Holds p (.ofCell c) (.default p) ∧
      Touches K c 0 0 s (s.resetAt p (.ofCell c)) := by
  have hloaded := Value.isPlain_loaded hin src
  have hc := get?_of_get ((holds_own hin).1 hh) hloaded
  have hreset : (s.valueAt (.ofCell c)).reset p = .default p := by
    unfold Property.inBlock at hin
    unfold Value.reset
    cases hs : p.kind.storage <;> rw [hs] at hin <;> simp at hin ⊢
  unfold resetAt
  rw [hreset]
  refine ⟨(holds_own hin).2 (get_eq ?_), touches_store hc hloaded _⟩
  rw [Address.ofCell, get?_storeAt, if_pos rfl, hc]
  exact congrArg some (Value.put_of_not_plain hloaded (Value.isPlain_default hin))

end State

/-! ## Loading the parameters -/

theorem ArgStack.mem_of_argFor {stack : ArgStack} {ps : List Property} {i : Nat} {a : StackArg}
    (h : stack.argFor ps i = some a) : a ∈ stack.args := by
  unfold argFor at h
  cases hp : ps[i]? with
  | none => rw [hp] at h; cases h
  | some p =>
    rw [hp] at h
    change (if p.isReturn then none else _) = _ at h
    split at h
    · cases h
    · exact List.mem_of_getElem? h

/-- No octet belongs to both parameters. -/
def Parameter.Apart (a b : Parameter) : Prop :=
  ∀ c o o', a.place = .cell c o → b.place = .cell c o' →
    a.property.inBlock = true ∧ b.property.inBlock = true ∧
      (o + a.property.extent ≤ o' ∨ o' + b.property.extent ≤ o)

theorem Parameter.Apart.symm {a b : Parameter} (h : a.Apart b) : b.Apart a := by
  intro c o o' hb ha
  obtain ⟨hina, hinb, hrange⟩ := h c o' o ha hb
  exact ⟨hinb, hina, hrange.symm⟩

namespace Redirection

open Act

/-- A parameter lies in the block, or in a cell that is not older than `next`. -/
def InPlace (block next : Nat) (s : State) (param : Parameter) : Prop :=
  if param.property.inBlock then param.place = .cell block param.property.offset
  else ∃ c, param.place = .ofCell c ∧ next ≤ c ∧ c < s.memory.next

/-- The parameters were loaded from a stack, starting from the state `s`. -/
structure Placed (block : Nat) (ps : List Property) (stack : ArgStack) (s : State)
    (params : List Parameter) (s' : State) : Prop where
  properties : params.map Parameter.property = ps
  place : ∀ param ∈ params, InPlace block s.memory.next s' param
  apart : params.Pairwise Parameter.Apart
  /-- Each holds what the caller supplied. -/
  holds : ∀ {i : Nat} {param : Parameter} {a : StackArg}, params[i]? = some param →
    stack.argFor ps i = some a →
    s'.Holds param.property param.place (.loaded param.property (s.valueAt (.ofCell a.cell)))
  plain : ∃ os, s'.memory.cells.get? block = some (.plain os)
  keeps : s.Keeps (fun c => c < s.memory.next ∧ c ≠ block) s'
  beside : ∀ k, (∀ p ∈ ps, p.inBlock = true → k < p.offset ∨ p.offset + p.extent ≤ k) →
    (s'.memory.get block).octetAt k = (s.memory.get block).octetAt k
  next : s.memory.next ≤ s'.memory.next

variable {call : Invoker σ} {w v : World σ} {block : Nat}

/-- One parameter is given its place, where nothing else lies. -/
structure Places (block : Nat) (p : Property) (s : State) (place : Address) (s' : State) : Prop where
  place : InPlace block s.memory.next s' ⟨p, place, place⟩
  plain : ∃ os, s'.memory.cells.get? block = some (.plain os)
  keeps : s.Keeps (fun c => c < s.memory.next ∧ c ≠ block) s'
  beside : ∀ k, (p.inBlock = true → k < p.offset ∨ p.offset + p.extent ≤ k) →
    (s'.memory.get block).octetAt k = (s.memory.get block).octetAt k
  next : s.memory.next ≤ s'.memory.next

/-- Data lies in the block; anything else is given a new cell. -/
theorem paramPlace_cases {p : Property} {place : Address}
    (h : paramPlace block p call w = .ok place v) :
    (p.inBlock = true ∧ place = .cell block p.offset ∧ v = w) ∨
      (p.inBlock = false ∧ place = .ofCell w.state.memory.next ∧
        v.state.memory = (w.state.memory.allot (.default p)).2) := by
  have hown (h : (do return Address.ofCell (← editGet (·.frameCell (Value.default p))) :
      Act σ Address) call w = .ok place v) : place = .ofCell w.state.memory.next ∧
        v.state.memory = (w.state.memory.allot (.default p)).2 := by
    obtain ⟨_, _, hcell, h⟩ := ok_of_bind h
    cases hcell
    cases h
    exact ⟨rfl, rfl⟩
  unfold paramPlace at h
  unfold Property.inBlock
  cases hs : p.kind.storage <;> rw [hs] at h
  case plain | flag =>
    cases h
    exact .inl ⟨rfl, rfl, rfl⟩
  all_goals exact .inr ⟨rfl, hown h⟩

theorem inPlace_block {p : Property} {out : Address} {next : Nat} {s : State}
    (hin : p.inBlock = true) : InPlace block next s ⟨p, .cell block p.offset, out⟩ := by
  unfold InPlace
  rw [if_pos hin]

theorem InPlace.grows {next : Nat} {s s' : State} {param : Parameter}
    (h : InPlace block next s param) (hn : s.memory.next ≤ s'.memory.next) :
    InPlace block next s' param := by
  unfold InPlace at h ⊢
  split at h
  · rwa [if_pos ‹_›]
  · obtain ⟨c, hplace, hc, hlt⟩ := h
    rw [if_neg ‹_›]
    exact ⟨c, hplace, hc, Nat.lt_of_lt_of_le hlt hn⟩

theorem InPlace.older {next next' : Nat} {s : State} {param : Parameter}
    (h : InPlace block next s param) (hn : next' ≤ next) : InPlace block next' s param := by
  unfold InPlace at h ⊢
  split at h
  · rwa [if_pos ‹_›]
  · obtain ⟨c, hplace, hc, hlt⟩ := h
    rw [if_neg ‹_›]
    exact ⟨c, hplace, Nat.le_trans hn hc, hlt⟩

/-- A parameter and one that is placed after it have no octet in common. -/
theorem InPlace.apart {next : Nat} {s s' : State} {a b : Parameter} (ha : InPlace block next s a)
    (hb : InPlace block s.memory.next s' b) (hblock : block < next)
    (hnext : next ≤ s.memory.next) (hapart : a.property.Apart b.property) : a.Apart b := by
  intro c o o' hplace hplace'
  unfold InPlace at ha hb
  split at ha
  · rename_i hina
    cases hplace.symm.trans ha
    split at hb
    · rename_i hinb
      cases hplace'.symm.trans hb
      exact ⟨hina, hinb, hapart hina hinb⟩
    · obtain ⟨d, hd, hle, -⟩ := hb
      cases hplace'.symm.trans hd
      omega
  · obtain ⟨d, hd, hle, hlt⟩ := ha
    cases hplace.symm.trans hd
    split at hb
    · cases hplace'.symm.trans hb
      omega
    · obtain ⟨d', hd', hle', -⟩ := hb
      cases hplace'.symm.trans hd'
      omega

theorem valueAt_of_keeps {K : Nat → Prop} {s s' : State} (h : s.Keeps K s') {c : Nat} (hc : K c) :
    s'.valueAt (.ofCell c) = s.valueAt (.ofCell c) := by
  show ((s'.memory.cells.get? c).getD _).skip 0 = ((s.memory.cells.get? c).getD _).skip 0
  rw [h c hc]

/-- A parameter is placed, and then the others. -/
theorem Placed.cons {p : Property} {ps : List Property} {place out : Address}
    {stack stack' : ArgStack} {s u s' : State} {params : List Parameter}
    (hone : Places block p s place u)
    (hhead : ∀ a, stack.argFor (p :: ps) 0 = some a →
      u.Holds p place (.loaded p (s.valueAt (.ofCell a.cell))))
    (hrest : ∀ i, stack.argFor (p :: ps) (i + 1) = stack'.argFor ps i)
    (hargs : ∀ a ∈ stack'.args, a.cell < s.memory.next ∧ a.cell ≠ block)
    (hblock : block < s.memory.next) (hapart : ∀ q ∈ ps, p.Apart q)
    (h : Placed block ps stack' u params s') :
    Placed block (p :: ps) stack s (⟨p, place, out⟩ :: params) s' where
  properties := congrArg (p :: ·) h.properties
  place := List.forall_mem_cons.2 ⟨hone.place.grows h.next,
    fun param hparam => (h.place param hparam).older hone.next⟩
  apart := by
    refine List.pairwise_cons.2 ⟨fun b hb => ?_, h.apart⟩
    have hq : b.property ∈ ps := h.properties ▸ List.mem_map_of_mem hb
    exact InPlace.apart hone.place (h.place b hb) hblock hone.next (hapart _ hq)
  holds := by
    intro i param a hi ha
    cases i with
    | zero =>
      cases hi
      have hu := hhead a ha
      have hplace := hone.place
      unfold InPlace at hplace
      split at hplace
      · -- What is loaded into the block after it lies beside it.
        rename_i hin
        obtain rfl : place = .cell block p.offset := hplace
        rw [State.holds_block hin] at hu ⊢
        intro k hk
        have hk : k < p.extent := hk
        refine (h.beside _ fun q hq hinq => ?_).trans (hu k hk)
        have := hapart q hq hin hinq
        omega
      · rename_i hin
        obtain ⟨c, rfl, hle, hlt⟩ : ∃ c, place = .ofCell c ∧ _ := hplace
        have hin : p.inBlock = false := eq_false_of_ne_true hin
        rw [State.holds_own hin] at hu ⊢
        have hkept := h.keeps c ⟨hlt, by omega⟩
        unfold Memory.get at hu ⊢
        rwa [hkept]
    | succ i =>
      rw [hrest i] at ha
      -- The argument lies outside of the block and below the new cells, so that placing the first one
      -- did not change it.
      have hold := h.holds hi ha
      obtain ⟨hlt, hne⟩ := hargs a (ArgStack.mem_of_argFor ha)
      rwa [valueAt_of_keeps hone.keeps ⟨hlt, hne⟩] at hold
  plain := h.plain
  keeps := hone.keeps.trans (h.keeps.mono fun c hc => ⟨Nat.lt_of_lt_of_le hc.1 hone.next, hc.2⟩)
  beside k hk := by
    obtain ⟨hp, hps⟩ := List.forall_mem_cons.1 hk
    exact (h.beside k hps).trans (hone.beside k hp)
  next := Nat.le_trans hone.next h.next

/-- The place of a parameter, as it is made. -/
theorem places_of_paramPlace {p : Property} {place : Address}
    (h : paramPlace block p call w = .ok place v)
    (hplain : ∃ os, w.state.memory.cells.get? block = some (.plain os))
    (hblock : block < w.state.memory.next) : Places block p w.state place v.state := by
  obtain ⟨hin, rfl, rfl⟩ | ⟨hin, rfl, hmemory⟩ := paramPlace_cases h
  · exact ⟨inPlace_block hin, hplain, .refl _, fun _ _ => rfl, Nat.le_refl _⟩
  · have hkeeps : w.state.Keeps (fun c => c < w.state.memory.next) v.state :=
      State.keeps_allot (fun c hc => hc) hmemory
    have hnext : v.state.memory.next = w.state.memory.next + 1 := by rw [hmemory]; rfl
    refine ⟨?_, ?_, hkeeps.mono fun c hc => hc.1, fun k _ => ?_, by omega⟩
    · unfold InPlace
      rw [if_neg (by simp [hin])]
      exact ⟨_, rfl, Nat.le_refl _, by omega⟩
    · rwa [hkeeps block hblock]
    · unfold Memory.get
      rw [hkeeps block hblock]

/-- An argument is put into the place of its parameter. -/
theorem places_of_assign {p : Property} {place : Address} (src : Address)
    (h : paramPlace block p call w = .ok place v)
    (hplain : ∃ os, w.state.memory.cells.get? block = some (.plain os))
    (hclear : p.inBlock = true → ∀ k < p.extent,
      (w.state.memory.get block).octetAt (p.offset + k) = .zero)
    (hblock : block < w.state.memory.next) :
    Places block p w.state place (v.state.assignAt p place src) ∧
      (v.state.assignAt p place src).Holds p place (.loaded p (v.state.valueAt src)) := by
  have hplace := places_of_paramPlace h hplain hblock
  have hnext : (v.state.assignAt p place src).memory.next = v.state.memory.next :=
    (State.frameCells_storeAt _ _ _).2
  -- The place is in the block of the call, or it is a cell of its own that was just opened.
  obtain ⟨hin, rfl, rfl⟩ | ⟨hin, rfl, hmemory⟩ := paramPlace_cases h
  · obtain ⟨os, hos⟩ := hplain
    obtain ⟨hholds, htouch⟩ :=
      State.assignAt_block (K := fun _ => True) (o := p.offset) hin hos (hclear hin) src
    refine ⟨⟨inPlace_block hin, htouch.plain ⟨os, hos⟩, ?_, ?_, Nat.le_of_eq hnext.symm⟩, hholds⟩
    · exact htouch.others.mono fun c hc => ⟨trivial, hc.2⟩
    · exact fun k hk => htouch.octets k (hk hin)
  · have hcell : v.state.memory.cells.get? w.state.memory.next = some (.default p) := by
      rw [hmemory]
      show (w.state.memory.cells.insert _ _).get? _ = _
      rw [Table.get?_insert, if_pos rfl]
    obtain ⟨hholds, htouch⟩ := State.assignAt_own (K := fun _ => True) hin hcell src
    have hkeeps : v.state.Keeps (fun c => c < w.state.memory.next) (v.state.assignAt p _ src) :=
      htouch.others.mono fun c hc => ⟨trivial, Nat.ne_of_lt hc⟩
    refine ⟨⟨hplace.place.grows (Nat.le_of_eq hnext.symm), ?_, ?_, fun k hk => ?_, ?_⟩, hholds⟩
    · obtain ⟨os, hos⟩ := hplace.plain
      exact ⟨os, (hkeeps block hblock).trans hos⟩
    · exact hplace.keeps.trans (hkeeps.mono fun c hc => hc.1)
    · refine Eq.trans ?_ (hplace.beside k hk)
      unfold Memory.get
      rw [hkeeps block hblock]
    · exact Nat.le_trans hplace.next (Nat.le_of_eq hnext.symm)

/-- Loading puts the value of each argument of the stack into the parameter that it is for. -/
theorem placed_of_loadParams {ps : List Property} {stack rest : ArgStack}
    {params : List Parameter} (h : loadParams block ps stack call w = .ok (params, rest) v)
    (hapart : ps.Pairwise Property.Apart)
    (hplain : ∃ os, w.state.memory.cells.get? block = some (.plain os))
    (hclear : ∀ p ∈ ps, p.inBlock = true → ∀ k < p.extent,
      (w.state.memory.get block).octetAt (p.offset + k) = .zero)
    (hblock : block < w.state.memory.next)
    (hargs : ∀ a ∈ stack.args, a.cell < w.state.memory.next ∧ a.cell ≠ block) :
    Placed block ps stack w.state params v.state := by
  induction ps generalizing stack params w with
  | nil =>
    cases h
    exact ⟨rfl, fun _ hp => absurd hp List.not_mem_nil, .nil, fun hparam => by simp at hparam, hplain,
      .refl _, fun _ _ => rfl, Nat.le_refl _⟩
  | cons p ps ih =>
    obtain ⟨hp, hapart⟩ := List.pairwise_cons.1 hapart
    obtain ⟨hclear, hclears⟩ := List.forall_mem_cons.1 hclear
    -- The others find the block as it was, but for this one's octets.
    have hothers {place : Address} {params' : List Parameter} (stack' : ArgStack) (u : World σ)
        (hone : Places block p w.state place u.state) (hsame : stack'.args = stack.args)
        (hrest : loadParams block ps stack' call u = .ok (params', rest) v) :
        Placed block ps stack' u.state params' v.state := by
      refine ih hrest hapart hone.plain (fun q hq hin k hk => ?_)
        (Nat.lt_of_lt_of_le hblock hone.next) fun a ha => ?_
      · rw [hone.beside _ fun hinp => ?_]
        · exact hclears q hq hin k hk
        · have := hp q hq hinp hin
          omega
      · obtain ⟨hlt, hne⟩ := hargs a (hsame ▸ ha)
        exact ⟨Nat.lt_of_lt_of_le hlt hone.next, hne⟩
    unfold loadParams at h
    obtain ⟨place, u, hplace, h⟩ := ok_of_bind h
    cases hret : p.isReturn with
    | true =>
      rw [hret] at h
      obtain ⟨⟨params', rest'⟩, u', hrest, h⟩ := ok_of_bind h
      cases h
      have hone := places_of_paramPlace hplace hplain hblock
      refine Placed.cons hone (fun a ha => ?_) (ArgStack.argFor_succ_of_return hret) hargs hblock hp
        (hothers stack u hone rfl hrest)
      simp [ArgStack.argFor, hret] at ha
    | false =>
      rw [hret] at h
      obtain ⟨⟨a, stack'⟩, u₁, hnext, h⟩ := ok_of_bind h
      obtain ⟨_, u₂, hassign, h⟩ := ok_of_bind h
      obtain ⟨⟨params', rest'⟩, u₃, hrest, h⟩ := ok_of_bind h
      cases h
      cases hassign
      obtain ⟨hnext', rfl⟩ := ok_of_ofPanic hnext
      obtain ⟨ha, rfl⟩ := ArgStack.next_eq_ok.1 hnext'
      have hmem := List.mem_of_getElem? ha
      obtain ⟨hone, hholds⟩ :=
        places_of_assign (.ofCell a.cell) hplace hplain hclear hblock
      rw [valueAt_of_keeps (places_of_paramPlace hplace hplain hblock).keeps (hargs _ hmem)]
        at hholds
      refine Placed.cons hone (fun b hb => ?_) (ArgStack.argFor_succ hret) hargs hblock hp
        (hothers { stack with cursor := stack.cursor + 1 }
          { u₁ with state := u₁.state.assignAt p place (.ofCell a.cell) } hone rfl hrest)
      rw [ArgStack.argFor_zero _ _ hret, ha] at hb
      cases hb
      exact hholds

/-! ## Loading as a whole -/

/-- A frame of a proper alignment can only be too large. -/
theorem ends_checkFrame {align : Nat} (ha : isPowerOfTwo (max align 1) = true) (size : Nat) :
    Ends (checkFrame size align call w) (fun _ v => v = w)
      fun f _ => ∃ o, f = .panic (.overflow o) := by
  unfold checkFrame
  cases hmake : Frame.make size align with
  | ok frame => exact rfl
  | error e =>
    cases e with
    | overflow o => exact ⟨o, rfl⟩
    | alignment =>
      unfold Frame.make at hmake
      dsimp only at hmake
      rw [if_pos ha] at hmake
      split at hmake
      · cases hmake
      · split at hmake <;> cases hmake

/-- A counter can only overflow. -/
theorem ends_count (name : String) (n : Nat) : Ends (Act.count name n call w)
    (fun _ v => v.state.memory = w.state.memory) fun f _ => ∃ o, f = .panic (.overflow o) := by
  show Ends ((Act.ofOverflow (w.state.bridge.metrics.add name n) >>= _) call w) _ _
  cases w.state.bridge.metrics.add name n with
  | ok metrics => exact rfl
  | error o => exact ⟨o, rfl⟩

/-- A stack that is long enough is not exhausted. -/
theorem ends_loadParams {ps : List Property} {stack : ArgStack}
    (hlength : stack.cursor + ps.countP (fun p => !p.isReturn) ≤ stack.args.length) :
    Ends (loadParams block ps stack call w) (fun _ _ => True) fun _ _ => False := by
  induction ps generalizing stack w with
  | nil => exact trivial
  | cons p ps ih =>
    unfold loadParams
    have hplace : Ends (paramPlace block p call w) (fun _ _ => True) fun _ _ => False := by
      unfold paramPlace
      cases p.kind.storage <;> exact trivial
    refine ends_bind hplace fun place v _ => ?_
    -- The result takes no argument off the stack.
    cases hret : p.isReturn with
    | true =>
      rw [List.countP_cons_of_neg (by simp [hret])] at hlength
      exact ends_bind (ih hlength) fun _ _ _ => trivial
    | false =>
      rw [List.countP_cons_of_pos (by simp [hret])] at hlength
      obtain ⟨a, ha⟩ : ∃ a, stack.args[stack.cursor]? = some a :=
        ⟨_, List.getElem?_eq_getElem (by omega)⟩
      have hrest : stack.cursor + 1 + ps.countP (fun p => !p.isReturn) ≤ stack.args.length := by omega
      rw [ArgStack.next_eq_ok.2 ⟨ha, rfl⟩]
      refine ends_bind (Q := fun next _ => next = (a, { stack with cursor := stack.cursor + 1 }))
        (by exact rfl) ?_
      rintro _ u rfl
      refine ends_bind (Q := fun _ _ => True) trivial fun _ u' _ => ?_
      exact ends_bind (ih hrest) fun _ _ _ => trivial

/-- What a call does before it loads its parameters: it is counted and given its block. -/
def openFrame (key : Redirector.Key) (r : Redirector) (l : Linkage) : Act σ Nat := do
  let depth := ((← state).redirector? key).elim 0 Redirector.depth
  report (.redirectCall r.function.qualifiedName depth)
  count Counter.calls 1
  checkFrame r.function.block.size r.function.block.align
  checkFrame l.scratchSize addressSize
  editGet (·.frameCell (.plain []))

theorem load_eq (key : Redirector.Key) (r : Redirector) (l : Linkage) (stack : ArgStack) :
    (load key r l stack : Act σ _) =
      openFrame key r l >>= fun block => loadParams block r.function.params stack := by
  unfold load openFrame
  simp only [bind_assoc]

/-- With proper alignment, a call is given a new block, or is too large. -/
theorem ends_openFrame {key : Redirector.Key} {r : Redirector} {l : Linkage}
    (ha : isPowerOfTwo (max r.function.block.align 1) = true) :
    Ends (openFrame key r l call w) (fun block u => block = w.state.memory.next ∧
        u.state.memory = (w.state.memory.allot (.plain [])).2)
      fun f _ => ∃ o, f = .panic (.overflow o) := by
  unfold openFrame
  refine ends_bind (Q := fun _ v => v = w) rfl fun s v hv => ?_
  refine ends_bind (Q := fun _ v => v.state.memory = w.state.memory) (by rw [hv]; exact rfl)
    fun _ v hv => ?_
  refine ends_bind (ends_count _ _) fun _ v₁ hv₁ => ?_
  refine ends_bind (ends_checkFrame ha _) fun _ v₂ hv₂ => ?_
  refine ends_bind (ends_checkFrame (by decide) _) fun _ v₃ hv₃ => ?_
  have hmemory : v₃.state.memory = w.state.memory := by rw [hv₃, hv₂, hv₁, hv]
  rw [← hmemory]
  exact ⟨rfl, rfl⟩

/-- With proper alignment and enough arguments, loading can only be too much. -/
theorem ends_load {key : Redirector.Key} {r : Redirector} {l : Linkage} {stack : ArgStack}
    (ha : isPowerOfTwo (max r.function.block.align 1) = true)
    (hlength : stack.cursor + r.function.params.countP (fun p => !p.isReturn) ≤ stack.args.length) :
    Ends (load key r l stack call w) (fun loaded v => ∃ u : World σ,
        u.state.memory = (w.state.memory.allot (.plain [])).2 ∧
        loadParams w.state.memory.next r.function.params stack call u = .ok loaded v)
      fun f _ => ∃ o, f = .panic (.overflow o) := by
  rw [load_eq]
  refine ends_bind (ends_openFrame ha) ?_
  rintro _ u ⟨rfl, hu⟩
  cases hloaded : loadParams w.state.memory.next r.function.params stack call u with
  | ok loaded v => exact ⟨u, hu, hloaded⟩
  | error f v =>
    have hends : Ends (loadParams w.state.memory.next r.function.params stack call u) _ _ :=
      ends_loadParams hlength
    rw [hloaded] at hends
    exact hends.elim

section Invoke

variable {key : Redirector.Key} {r : Redirector} {stack rest : ArgStack} {l : Linkage} {m : Nat}
  {params : List Parameter} {u : World σ} {target result : Option Address}

/-- A call that is linked loads its parameters, unless it is too large. -/
theorem loads_or_overflow (hlinked : linked key r call w = .ok (.ok (l, m)) v)
    (ha : isPowerOfTwo (max r.function.block.align 1) = true)
    (hlength : stack.cursor + r.function.params.countP (fun p => !p.isReturn) ≤ stack.args.length)
    (target result : Option Address) :
    (∃ o v', invoke key r target stack result call w = .error (.panic (.overflow o)) v') ∨
      ∃ params rest u, Loads call key r stack w l m params rest u := by
  have hends : Ends (load key r l stack call { v with state := v.state.enter key }) _ _ :=
    ends_load ha hlength
  cases hload : load key r l stack call { v with state := v.state.enter key } with
  | ok loaded u => exact .inr ⟨loaded.1, loaded.2, u, v, hlinked, hload⟩
  | error f u =>
    rw [hload] at hends
    obtain ⟨o, rfl⟩ := hends
    refine .inl ⟨o, { u with state := u.state.leave key }, ?_⟩
    rw [Redirection.invoke_eq, bind_of_ok hlinked]
    show ensuring (·.leave key) _ call { v with state := v.state.enter key } = _
    exact ensuring_of_error (bind_of_error hload)

/-- The parameters that a call has loaded are where they belong, and hold what the caller supplied. -/
theorem Loads.placed (h : Loads call key r stack w l m params rest u)
    (ha : isPowerOfTwo (max r.function.block.align 1) = true)
    (hlength : stack.cursor + r.function.params.countP (fun p => !p.isReturn) ≤ stack.args.length)
    (hapart : r.function.Apart) (hargs : ∀ a ∈ stack.args, a.cell < w.state.memory.next) :
    ∃ s : State, Placed w.state.memory.next r.function.params stack s params u.state ∧
      s.memory.next = w.state.memory.next + 1 ∧
      w.state.Keeps (fun c => c < w.state.memory.next) s := by
  obtain ⟨v, hlinked, hload⟩ := h
  obtain ⟨v', hmemory, hparams⟩ := (ends_iff.1 (ends_load ha hlength)).1 _ _ hload
  have hv := (apart_of_linked hlinked).1
  have hsame : ({ v with state := v.state.enter key } : World σ).state.memory = w.state.memory := hv
  rw [hsame] at hmemory hparams
  have hnext : v'.state.memory.next = w.state.memory.next + 1 := by rw [hmemory]; rfl
  have hcell : v'.state.memory.cells.get? w.state.memory.next = some (.plain []) := by
    rw [hmemory]
    show (w.state.memory.cells.insert _ _).get? _ = _
    rw [Table.get?_insert, if_pos rfl]
  refine ⟨v'.state, ?_, hnext, State.keeps_allot (fun c hc => hc) hmemory⟩
  refine placed_of_loadParams hparams hapart ⟨[], hcell⟩ (fun p _ _ k _ => ?_) (by omega)
    fun a hmem => ?_
  · rw [State.get_eq hcell]
    rfl
  · have := hargs a hmem
    omega

end Invoke

end Redirection

end TwinHeap
