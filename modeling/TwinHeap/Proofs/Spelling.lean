import TwinHeap.Proofs.Boxing
import TwinHeap.Proofs.Memos
import TwinHeap.Proofs.Startup

/-!
# Spelling — keys that are written and keys that are built

Methods are defined by texts that are read, and looked up by keys that are built from their parts. Reading
takes no notice of blanks around a class and in a type, and it cuts a class at dots, a key at its first
colon and a list at commas. So a name that has such characters in it can be defined and is not found.
`keys_agree` says which names they are.
-/

namespace TwinHeap

variable {σ : Type}

/-! ## Names that are read as they are written -/

namespace Text

/-- A name without the characters that reading takes notice of, dots apart. -/
def Plain (t : List Char) : Prop := ∀ c ∈ t, isBlank c = false ∧ c ≠ ',' ∧ c ≠ ':'

instance (t : List Char) : Decidable (Plain t) :=
  decidable_of_iff ((t.all fun c => !isBlank c && (c != ',' && c != ':')) = true)
    (by simp [Plain, List.all_eq_true])

/-- A class name that is read as it is written, behind a namespace. -/
def IsClass (t : List Char) : Prop := '.' ∉ t ∧ ':' ∉ t ∧ trimEnd t = t

instance (t : List Char) : Decidable (IsClass t) := inferInstanceAs (Decidable (_ ∧ _))

end Text

/-! ## Reading keys -/

namespace Signature

open Text

/-- Names that differ in blanks at their ends have different classes or namespaces. -/
theorem trim_eq_of_splitClass {t : List Char} (h : splitClass (trim t) = splitClass t) :
    trim t = t := by
  obtain ⟨hdot, hsplit⟩ | ⟨a, b, ht, hb, hsplit⟩ := splitClass_cases t
  · obtain ⟨-, hsplit'⟩ | ⟨a, b, ht', -, -⟩ := splitClass_cases (trim t)
    · rw [hsplit, hsplit'] at h
      exact congrArg Prod.snd h
    · exact absurd (mem_of_mem_trim (by rw [ht']; simp)) hdot
  · have hdot : '.' ∈ trim t := mem_trim (by decide) (by rw [ht]; simp)
    obtain ⟨hnot, -⟩ | ⟨a', b', ht', -, hsplit'⟩ := splitClass_cases (trim t)
    · exact absurd hdot hnot
    · rw [hsplit, hsplit'] at h
      cases h
      rw [ht', ← ht]

/-- A class and types that are read as they are written. -/
structure Faithful (full : String) (params : List String) : Prop where
  separator : ':' ∉ full.toList
  trimmed : trim full.toList = full.toList
  tokens : ∀ t ∈ params, IsToken t.toList

instance (full : String) (params : List String) : Decidable (Faithful full params) :=
  decidable_of_iff
    (':' ∉ full.toList ∧ trim full.toList = full.toList ∧ ∀ t ∈ params, IsToken t.toList)
    ⟨fun h => ⟨h.1, h.2.1, h.2.2⟩, fun h => ⟨h.separator, h.trimmed, h.tokens⟩⟩

variable {full name : String} {params : List String} {s : Signature}

theorem isSome_params_ofClass (full name : String) (params : List String) :
    (ofClass full name params).params.isSome = true := by
  unfold ofClass
  rfl

/-- Where a text is read as a key that is built of its class, the class is read as it is written. -/
theorem of_read_class {name' : String} {params' : List String} (hname : Readable name.toList)
    (h : parse (layout full name params) = .ok (.ofClass full name' params')) :
    ':' ∉ full.toList ∧ trim full.toList = full.toList ∧ name' = name ∧
      params' = tokens ([','].intercalate (params.map String.toList)) := by
  have hfull : ':' ∉ full.toList := by
    obtain ⟨hspace, hclass⟩ := separator_notMem_of_parse h
    unfold ofClass at hspace hclass
    rw [String.toList_ofList] at hspace hclass
    exact fun hm => (mem_splitClass (by decide) hm).elim hspace hclass
  have hread := of_parse_layout hfull hname h
  unfold ofClass at hread
  obtain ⟨hspace, hclass, hmethod, hparams⟩ := Signature.mk.inj hread
  refine ⟨hfull, trim_eq_of_splitClass ?_, hmethod, Option.some.inj hparams⟩
  exact Prod.ext (String.ofList_inj.1 hspace).symm (String.ofList_inj.1 hclass).symm

/-- The key that is read is the key that is built just if class and types are read as they are
written. -/
theorem read_eq_built_iff (hname : Readable name.toList)
    (h : parse (layout full name params) = .ok s) :
    s = .ofClass full name params ↔ Faithful full params := by
  constructor
  · rintro rfl
    obtain ⟨hfull, htrim, -, hparams⟩ := of_read_class hname h
    exact ⟨hfull, htrim, tokens_intercalate_iff.1 hparams.symm⟩
  · intro hf
    rw [of_parse_layout hf.separator hname h, hf.trimmed, tokens_intercalate_iff.2 hf.tokens]
    rfl

end Signature

/-! ## Finding what was defined -/

/-- A type that is in the list is found. -/
theorem Foreign.lookupType_defineTypes (f : Foreign) {ts : List (String × String)}
    {t : String × String} (h : t ∈ ts) :
    ∃ type, (f.defineTypes ts).lookupType t.1 t.2 = some type := by
  have hstays (ts : List (String × String)) (f : Foreign) : f.Evolves (f.defineTypes ts) := by
    induction ts generalizing f with
    | nil => exact .refl f
    | cons t ts ih => exact (f.evolves_defineType t.1 t.2).trans (ih _)
  induction ts generalizing f with
  | nil => cases h
  | cons first ts ih =>
    obtain rfl | h := List.mem_cons.1 h
    · obtain ⟨type, htype⟩ : ∃ type, (f.defineType t.1 t.2).2.lookupType t.1 t.2 = some type := by
        unfold defineType
        cases hfound : f.lookupType t.1 t.2 with
        | some type => exact ⟨type, hfound⟩
        | none => exact ⟨_, (Table.get?_insert ..).trans (if_pos rfl)⟩
      exact ⟨type, (hstays ts _).types _ _ htype⟩
    · exact ih _ h

/-- The methods of a side to which a definition was added. -/
theorem ForeignSide.of_define {side side' : ForeignSide σ} {m : MethodDef σ}
    (h : side.define m = .ok side') : ∃ info, m.info = .ok info ∧
      side'.foreign.types = side.foreign.types ∧
      side'.foreign.methods = side.foreign.methods ++ [info] := by
  obtain ⟨info, hinfo, h⟩ := ok_of_bind h
  cases h
  exact ⟨info, hinfo, rfl, rfl⟩

/-- The side with all methods and types of the definitions. -/
structure ForeignSide.Extends (side : ForeignSide σ) (d : Definitions σ) (side' : ForeignSide σ) :
    Prop where
  info : ∀ m ∈ d.methods, ∃ info ∈ side'.foreign.methods, m.info = .ok info
  methods : ∀ info ∈ side'.foreign.methods,
    info ∈ side.foreign.methods ∨ ∃ m ∈ d.methods, m.info = .ok info
  types : ∀ t ∈ d.types, ∃ type, side'.foreign.lookupType t.1 t.2 = some type

namespace ForeignSide

variable {side side' : ForeignSide σ} {d : Definitions σ}

theorem of_foldlM_define {ms : List (MethodDef σ)} (h : ms.foldlM define side = .ok side') :
    side'.foreign.types = side.foreign.types ∧ ∃ infos,
      side'.foreign.methods = side.foreign.methods ++ infos ∧
      (∀ m ∈ ms, ∃ info ∈ infos, m.info = .ok info) ∧
      ∀ info ∈ infos, ∃ m ∈ ms, m.info = .ok info := by
  induction ms generalizing side with
  | nil =>
    cases h
    refine ⟨rfl, [], (List.append_nil _).symm, ?_, ?_⟩ <;> rintro _ ⟨⟩
  | cons m ms ih =>
    rw [List.foldlM_cons] at h
    obtain ⟨mid, hd, hrest⟩ := ok_of_bind h
    obtain ⟨info, hinfo, htypes, hmethods⟩ := of_define hd
    obtain ⟨htypes', infos, hmethods', hall, honly⟩ := ih hrest
    refine ⟨htypes'.trans htypes, info :: infos, ?_, ?_, ?_⟩
    · rw [hmethods', hmethods, List.append_assoc, List.singleton_append]
    · rw [List.forall_mem_cons]
      refine ⟨⟨info, List.mem_cons_self, hinfo⟩, fun m hm => ?_⟩
      obtain ⟨info', hmem, hinfo'⟩ := hall m hm
      exact ⟨info', List.mem_cons_of_mem _ hmem, hinfo'⟩
    · rw [List.forall_mem_cons]
      refine ⟨⟨m, List.mem_cons_self, hinfo⟩, fun info' hmem => ?_⟩
      obtain ⟨m', hm', hinfo'⟩ := honly info' hmem
      exact ⟨m', List.mem_cons_of_mem _ hm', hinfo'⟩

theorem extends_of_install (h : side.install d = .ok side') : side.Extends d side' := by
  obtain ⟨htypes, infos, hmethods, hall, honly⟩ := of_foldlM_define h
  have hold : side'.foreign.methods = side.foreign.methods ++ infos := by
    rw [hmethods]
    exact congrArg (· ++ infos) (side.foreign.defineTypes_same d.types).2
  refine ⟨fun m hm => ?_, fun info hmem => ?_, fun t ht => ?_⟩
  · obtain ⟨info, hmem, hinfo⟩ := hall m hm
    exact ⟨info, hold ▸ List.mem_append_right _ hmem, hinfo⟩
  · rw [hold, List.mem_append] at hmem
    exact hmem.imp_right (honly info)
  · obtain ⟨type, htype⟩ := Foreign.lookupType_defineTypes side.foreign ht
    exact ⟨type, (congrArg (·.get? (t.1, t.2)) htypes).trans htype⟩

/-- No method of the assembly was defined. -/
def Lacks (side : ForeignSide σ) (assembly : String) : Prop :=
  ∀ info ∈ side.foreign.methods, info.assembly ≠ assembly

end ForeignSide

/-- A whole key finds a method just if one was defined with it. -/
theorem Foreign.exists_findMethod_iff {f : Foreign} {assembly : String} {key : Signature}
    (hk : key.params.isSome) : (∃ m, f.findMethod assembly key = .ok m) ↔
      ∃ info ∈ f.methods, info.assembly = assembly ∧ info.signature = key := by
  constructor
  · rintro ⟨m, hm⟩
    obtain ⟨hlt, hfound, -⟩ := List.findIdx?_eq_some_iff_getElem.1 (findMethod_eq_ok.1 hm)
    rw [Bool.and_eq_true, beq_iff_eq, Signature.accepts_iff_eq hk] at hfound
    exact ⟨_, List.getElem_mem hlt, hfound⟩
  · rintro ⟨info, hmem, hassembly, hsignature⟩
    have hsome : (f.lookupMethod assembly key).isSome = true := by
      unfold lookupMethod
      rw [List.findIdx?_isSome, List.any_eq_true]
      refine ⟨info, hmem, ?_⟩
      rw [hassembly, hsignature, Signature.accepts_self, beq_self_eq_true]
      rfl
    obtain ⟨m, hm⟩ := Option.isSome_iff_exists.1 hsome
    exact ⟨m, findMethod_eq_ok.2 hm⟩

namespace ForeignSide.Extends

variable {side side' : ForeignSide σ} {d : Definitions σ} {m : MethodDef σ} {key : Signature}

/-- A definition can be read, and its method is found by the key that is read. -/
theorem exists_parse (h : side.Extends d side') (hm : m ∈ d.methods) :
    ∃ s, Signature.parse m.key = .ok s ∧
      (s.params.isSome → ∃ i, side'.foreign.findMethod m.assembly s = .ok i) := by
  obtain ⟨info, hmem, hinfo⟩ := h.info m hm
  obtain ⟨hassembly, hparse⟩ := MethodDef.of_info hinfo
  exact ⟨_, hparse, fun hk => (Foreign.exists_findMethod_iff hk).2 ⟨info, hmem, hassembly, rfl⟩⟩

/-- What is found in an assembly that had no methods was defined with that key. -/
theorem of_findMethod (h : side.Extends d side') {assembly : String} (hnew : side.Lacks assembly)
    (hk : key.params.isSome) {i : Nat} (hi : side'.foreign.findMethod assembly key = .ok i) :
    ∃ m ∈ d.methods, Signature.parse m.key = .ok key := by
  obtain ⟨info, hmem, hassembly, rfl⟩ := (Foreign.exists_findMethod_iff hk).1 ⟨i, hi⟩
  obtain hold | ⟨m, hm, hinfo⟩ := h.methods info hmem
  · exact absurd hassembly (hnew info hold)
  · exact ⟨m, hm, (MethodDef.of_info hinfo).2⟩

/-- A definition that is read as it is written is found by the key that is built. -/
theorem finds (h : side.Extends d side') (hm : m ∈ d.methods) {full name : String}
    {params : List String} (hkey : m.key = Signature.layout full name params)
    (hname : Signature.Readable name.toList) (hf : Signature.Faithful full params) :
    ∃ i, side'.foreign.findMethod m.assembly (.ofClass full name params) = .ok i := by
  obtain ⟨s, hparse, hfound⟩ := h.exists_parse hm
  rw [hkey] at hparse
  obtain rfl := (Signature.read_eq_built_iff hname hparse).2 hf
  exact hfound (Signature.isSome_params_ofClass ..)

end ForeignSide.Extends

/-! ## What can be defined -/

/-- A method can be defined if its key is read and has a list. -/
theorem MethodDef.exists_info {m : MethodDef σ} {s : Signature} (h : Signature.parse m.key = .ok s)
    (hs : s.params.isSome) : ∃ info, m.info = .ok info := by
  obtain ⟨params, hparams⟩ := Option.isSome_iff_exists.1 hs
  unfold MethodDef.info Signature.arity
  rw [h]
  dsimp only
  rw [hparams]
  cases m.arity with
  | none => exact ⟨_, rfl⟩
  | some n => exact ⟨_, rfl⟩

theorem ForeignSide.exists_install {d : Definitions σ} (h : ∀ m ∈ d.methods, ∃ info, m.info = .ok info)
    (side : ForeignSide σ) : ∃ side', side.install d = .ok side' := by
  unfold install
  dsimp only
  generalize ({ side with foreign := _ } : ForeignSide σ) = side
  generalize d.methods = ms at h ⊢
  induction ms generalizing side with
  | nil => exact ⟨side, rfl⟩
  | cons m ms ih =>
    obtain ⟨hm, hms⟩ := List.forall_mem_cons.1 h
    obtain ⟨info, hinfo⟩ := hm
    rw [List.foldlM_cons]
    unfold define
    rw [hinfo]
    exact ih _ hms

/-! ## The library -/

namespace Library

variable {e : EngineBinding} {k k' : Entry}

theorem entry_unique (hk : k ∈ entries e) (hk' : k' ∈ entries e) (h : k.method = k'.method) :
    k = k' := by
  obtain ⟨i, hi⟩ := List.mem_iff_getElem?.1 hk
  obtain ⟨j, hj⟩ := List.mem_iff_getElem?.1 hk'
  have hname {i : Nat} {k : Entry} (hi : (entries e)[i]? = some k) : names[i]? = some k.method := by
    rw [← method_entries e, List.getElem?_map, hi]
    rfl
  have hij : i = j := by
    refine (List.getElem?_inj (List.getElem?_eq_some_iff.1 (hname hi)).1 (by decide)).1 ?_
    rw [hname hi, hname hj, h]
  subst hij
  exact Option.some.inj (hi.symm.trans hj)

theorem readable_of_mem_entries (hk : k ∈ entries e) : Signature.Readable k.method.toList :=
  name_readable _ (method_entries e ▸ List.mem_map_of_mem hk)

/-- Each entry has its definition. -/
theorem exists_method (hk : k ∈ entries e) : ∃ m ∈ (engine (σ := σ) e).methods,
    m.assembly = e.assembly ∧ m.key = Signature.layout (k.fullName e) k.method k.params := by
  have hmem := List.mem_map_of_mem (f := fun k : Entry =>
    (e.assembly, Signature.layout (k.fullName e) k.method k.params)) hk
  rw [← engine_entries (σ := σ), List.mem_map] at hmem
  obtain ⟨m, hm, heq⟩ := hmem
  obtain ⟨hassembly, hkey⟩ := Prod.mk.inj heq
  exact ⟨m, hm, hassembly, hkey⟩

/-- Each definition is that of an entry. -/
theorem exists_entry {m : MethodDef σ} (hm : m ∈ (engine e).methods) :
    ∃ k ∈ entries e, m.key = Signature.layout (k.fullName e) k.method k.params := by
  have hmem := List.mem_map_of_mem (f := fun m : MethodDef σ => (m.assembly, m.key)) hm
  rw [engine_entries, List.mem_map] at hmem
  obtain ⟨k, hk, heq⟩ := hmem
  exact ⟨k, hk, (Prod.mk.inj heq).2.symm⟩

end Library

/-- The names of a library that is found once it is defined. -/
structure EngineBinding.Spelled (e : EngineBinding) : Prop where
  nameSpace : Text.Plain e.nameSpace.toList
  objectClass : Text.IsClass e.objectClass.toList
  factoryClass : Text.IsClass e.factoryClass.toList

namespace Library

variable {e : EngineBinding} {k : Entry}

theorem params_of_mem_entries (hk : k ∈ entries e) :
    ∀ t ∈ k.params, t ∈ ["intptr", "System.Collections.IEnumerable"] ∨
      ∃ kind ∈ ["SoftObjectPtr", "SoftClassPtr"], t = dotted e ("I" ++ kind) := by
  simp only [entries, List.flatMap_cons, List.flatMap_nil, List.cons_append, List.nil_append,
    List.append_nil, List.mem_cons, List.not_mem_nil, or_false] at hk
  rcases hk with
    rfl | rfl | rfl | rfl | rfl | rfl | rfl | rfl | rfl | rfl | rfl | rfl | rfl | rfl <;> simp

theorem className_spelled (he : e.Spelled) (hk : k ∈ entries e) :
    Text.IsClass k.className.toList := by
  obtain h | h := className_of_mem_entries hk
  · exact h ▸ he.objectClass
  · exact h ▸ he.factoryClass

theorem faithful_of_spelled (he : e.Spelled) (hk : k ∈ entries e) :
    Signature.Faithful (k.fullName e) k.params := by
  obtain ⟨-, hcolon, hend⟩ := className_spelled he hk
  refine ⟨?_, ?_, fun t ht => ?_⟩
  · rw [Entry.toList_fullName, List.mem_append, List.mem_cons, not_or, not_or]
    exact ⟨fun hm => (he.nameSpace _ hm).2.2 rfl, by decide, hcolon⟩
  · rw [Entry.toList_fullName, Text.trim_dotted fun c hc => (he.nameSpace c hc).1, hend]
  · obtain ht | ⟨kind, hkind, rfl⟩ := params_of_mem_entries hk t ht
    · have hstock : ∀ t ∈ ["intptr", "System.Collections.IEnumerable"],
          Text.IsToken t.toList := by
        decide +kernel
      exact hstock t ht
    · have hname : ∀ kind ∈ ["SoftObjectPtr", "SoftClassPtr"],
          Text.IsToken ('.' :: ("I" ++ kind).toList) := by
        decide +kernel
      rw [toList_dotted]
      refine ⟨by simp, fun c hc => ?_⟩
      obtain hc | hc := List.mem_append.1 hc
      · exact ⟨(he.nameSpace c hc).1, (he.nameSpace c hc).2.1⟩
      · exact (hname kind hkind).2 c hc

/-- The key that the bridge builds is that of the class in full. -/
theorem key_eq_ofClass (h : '.' ∉ k.className.toList) :
    k.key e = .ofClass (k.fullName e) k.method k.params := by
  unfold Signature.ofClass
  rw [Entry.toList_fullName, Signature.splitClass_dotted h]
  simp [Entry.key]

/-- The library can be defined if its classes are set off and neither ends in a dot. -/
theorem exists_install (side : ForeignSide σ) (h : ∀ cls ∈ [e.objectClass, e.factoryClass],
      ':' ∉ (dotted e cls).toList ∧
        (Signature.splitClass (Text.trim (dotted e cls).toList)).2 ≠ []) :
    ∃ side', side.install (engine e) = .ok side' := by
  refine side.exists_install fun m hm => ?_
  obtain ⟨k, hk, hkey⟩ := exists_entry hm
  obtain ⟨hfull, hclass⟩ := h k.className (by simpa using className_of_mem_entries hk)
  have hparse := Signature.parse_layout k.params hfull (readable_of_mem_entries hk) hclass
  exact MethodDef.exists_info (hkey ▸ hparse) rfl

end Library

/-- Where each method of the library is found, the library is. -/
theorem Helpers.exists_find {f : Foreign} {e : EngineBinding}
    (h : ∀ k ∈ Library.entries e, ∃ m, f.findMethod e.assembly (k.key e) = .ok m) :
    ∃ helpers, find f e = .ok helpers := by
  simp only [Library.entries, List.flatMap_cons, List.flatMap_nil, List.cons_append,
    List.nil_append, List.append_nil, List.forall_mem_cons, List.not_mem_nil, false_implies,
    implies_true, and_true] at h
  obtain ⟨⟨m0, h0⟩, ⟨m1, h1⟩, ⟨m2, h2⟩, ⟨m3, h3⟩, ⟨m4, h4⟩, ⟨m5, h5⟩, ⟨m6, h6⟩, ⟨m7, h7⟩, ⟨m8, h8⟩,
    ⟨m9, h9⟩, ⟨m10, h10⟩, ⟨m11, h11⟩, ⟨m12, h12⟩, ⟨m13, h13⟩⟩ := h
  refine ⟨⟨m0, m1, m2, m3, m4, m5, m6, m7, m8, m9, m10, m11, m12, m13⟩, find_eq_ok_iff.2 ?_⟩
  simp only [Library.entries, all, ofFactory, List.flatMap_cons, List.flatMap_nil, List.cons_append,
    List.nil_append, List.append_nil, List.map_cons, List.map_nil, List.cons.injEq, and_true]
  exact ⟨h0, h1, h2, h3, h4, h5, h6, h7, h8, h9, h10, h11, h12, h13⟩

/-- Of a library that is found, each method is. -/
theorem Helpers.findMethod_of_mem {f : Foreign} {e : EngineBinding} {helpers : Helpers}
    (h : find f e = .ok helpers) {k : Library.Entry} (hk : k ∈ Library.entries e) :
    ∃ m, f.findMethod e.assembly (k.key e) = .ok m := by
  have hmem := List.mem_map_of_mem (f := fun k => f.findMethod e.assembly (k.key e)) hk
  rw [find_eq_ok_iff.1 h, List.mem_map] at hmem
  obtain ⟨m, -, hm⟩ := hmem
  exact ⟨m, hm.symm⟩

namespace ForeignSide.Extends

variable {side side' : ForeignSide σ} {e : EngineBinding}

/-- A library that is spelled so is found. -/
theorem find_of_spelled (h : side.Extends (Library.engine e) side') (he : e.Spelled) :
    ∃ helpers, Helpers.find side'.foreign e = .ok helpers := by
  refine Helpers.exists_find fun k hk => ?_
  obtain ⟨m, hm, hassembly, hkey⟩ := Library.exists_method (σ := σ) hk
  rw [Library.key_eq_ofClass (Library.className_spelled he hk).1, ← hassembly]
  exact h.finds hm hkey (Library.readable_of_mem_entries hk) (Library.faithful_of_spelled he hk)

/-- In an assembly that had no methods, each method of a library that is found was read as it is
written. -/
theorem read_of_find (h : side.Extends (Library.engine e) side') (hnew : side.Lacks e.assembly)
    {helpers : Helpers} (hf : Helpers.find side'.foreign e = .ok helpers) {k : Library.Entry}
    (hk : k ∈ Library.entries e) :
    ':' ∉ (k.fullName e).toList ∧
      Signature.splitClass (Text.trim (k.fullName e).toList) =
        (e.nameSpace.toList, k.className.toList) ∧
      ∀ t ∈ k.params, Text.IsToken t.toList := by
  have hread {k : Library.Entry} (hk : k ∈ Library.entries e) :
      ∃ k' ∈ Library.entries e,
        Signature.parse (Signature.layout (k'.fullName e) k'.method k'.params) = .ok (k.key e) := by
    obtain ⟨m, hm⟩ := Helpers.findMethod_of_mem hf hk
    obtain ⟨d, hd, hparse⟩ := h.of_findMethod hnew rfl hm
    obtain ⟨k', hk', hkey⟩ := Library.exists_entry hd
    exact ⟨k', hk', hkey ▸ hparse⟩
  have hcolon {k : Library.Entry} (hk : k ∈ Library.entries e) : ':' ∉ (k.fullName e).toList := by
    obtain ⟨_, -, hparse⟩ := hread hk
    obtain ⟨hspace, hclass⟩ := Signature.separator_notMem_of_parse hparse
    rw [Library.Entry.toList_fullName, List.mem_append, List.mem_cons, not_or, not_or]
    exact ⟨hspace, by decide, hclass⟩
  -- Without a colon in the classes, the text that was read has the name that is looked for.
  obtain ⟨k', hk', hparse⟩ := hread hk
  have hkey := Signature.of_parse_layout (hcolon hk') (Library.readable_of_mem_entries hk') hparse
  obtain ⟨hspace, hclass, hmethod, hparams⟩ := Signature.mk.inj hkey
  obtain rfl := Library.entry_unique hk hk' hmethod
  refine ⟨hcolon hk, Prod.ext ?_ ?_, Signature.tokens_intercalate_iff.1 (Option.some.inj hparams).symm⟩
  · exact String.toList_ofList.symm.trans (congrArg String.toList hspace.symm)
  · exact String.toList_ofList.symm.trans (congrArg String.toList hclass.symm)

/-- A library that is found in an assembly that had no methods is spelled so. -/
theorem spelled_of_find (h : side.Extends (Library.engine e) side') (hnew : side.Lacks e.assembly)
    {helpers : Helpers} (hf : Helpers.find side'.foreign e = .ok helpers) : e.Spelled := by
  have hspace : Text.Plain e.nameSpace.toList := by
    -- Of all signatures this one names the namespace in a parameter.
    have hk : ⟨e.factoryClass, "WriteSoftObjectPtr",
        ["intptr", Library.dotted e "ISoftObjectPtr"]⟩ ∈ Library.entries e := by
      simp [Library.entries]
    obtain ⟨hcolon, -, htokens⟩ := h.read_of_find hnew hf hk
    intro c hc
    obtain ⟨-, htoken⟩ := htokens (Library.dotted e "ISoftObjectPtr") (by simp)
    obtain ⟨hblank, hcomma⟩ := htoken c (by simp [Library.toList_dotted, hc])
    refine ⟨hblank, hcomma, ?_⟩
    rintro rfl
    exact hcolon (by simp [Library.Entry.toList_fullName, hc])
  have hclass {k : Library.Entry} (hk : k ∈ Library.entries e) :
      Text.IsClass k.className.toList := by
    obtain ⟨hcolon, hsplit, -⟩ := h.read_of_find hnew hf hk
    rw [Library.Entry.toList_fullName] at hcolon hsplit
    rw [Text.trim_dotted fun c hc => (hspace c hc).1] at hsplit
    -- The class is read back as it was meant just if it holds no dot of its own.
    obtain ⟨hdot, -⟩ | ⟨a, b, hcut, hb, hparts⟩ := Signature.splitClass_cases
        (e.nameSpace.toList ++ '.' :: Text.trimEnd k.className.toList)
    · exact absurd (by simp) hdot
    · rw [hsplit] at hparts
      cases hparts
      refine ⟨hb, fun hm => hcolon (by simp [hm]), ?_⟩
      simpa using hcut
  exact ⟨hspace, hclass (k := ⟨e.objectClass, "GetNativePtr", []⟩) (by simp [Library.entries]),
    hclass (k := ⟨e.factoryClass, "CreateArray", ["intptr", "intptr"]⟩)
      (by simp [Library.entries])⟩

end ForeignSide.Extends

/-! ## Structs -/

/-- The methods of a struct are read as they are written just if its name is plain. -/
theorem Signature.faithful_struct_iff {full : String} :
    Faithful full ["intptr", "int", full ++ "&"] ↔ Text.Plain full.toList := by
  constructor
  · rintro ⟨hcolon, -, htokens⟩ c hc
    obtain ⟨-, htoken⟩ := htokens (full ++ "&") (by simp)
    obtain ⟨hblank, hcomma⟩ := htoken c (by simp [hc])
    exact ⟨hblank, hcomma, fun h => hcolon (h ▸ hc)⟩
  · intro h
    refine ⟨fun hm => (h _ hm).2.2 rfl, Text.trim_of_notBlank fun c hc => (h c hc).1, ?_⟩
    simp only [List.forall_mem_cons, List.not_mem_nil, false_implies, implies_true, and_true]
    refine ⟨by decide, by decide, by simp, fun c hc => ?_⟩
    rw [String.toList_append, List.mem_append] at hc
    obtain hc | hc := hc
    · exact ⟨(h c hc).1, (h c hc).2.1⟩
    · obtain rfl := List.mem_singleton.1 hc
      decide

theorem Library.structType_methods (assembly full : String) (size : Nat) :
    (structType (σ := σ) assembly full size).methods.map (fun d => (d.assembly, d.key)) =
      [(assembly, Signature.layout full "FromNative" ["intptr", "int"]),
        (assembly, Signature.layout full "ToNative" ["intptr", "int", full ++ "&"])] := by
  have hpair {a b : String} (h : a.toList = b.toList) : (assembly, a) = (assembly, b) :=
    congrArg _ (String.toList_inj.1 h)
  simp only [structType, method, List.map_cons, List.map_nil, List.cons.injEq, and_true]
  refine ⟨hpair ?_, hpair ?_⟩
  all_goals
    rw [Signature.toList_layout]
    simp [toString]

theorem Foreign.exists_findFactory_iff {f : Foreign} {info : StructInfo} :
    (∃ factory, f.findFactory info = .ok factory) ↔
      (∃ m, f.findMethod info.assembly info.boxKey = .ok m) ∧
        ∃ m, f.findMethod info.assembly info.unboxKey = .ok m := by
  rw [findFactory_eq]
  constructor
  · rintro ⟨factory, h⟩
    obtain ⟨box, hbox, h⟩ := ok_of_bind h
    obtain ⟨unbox, hunbox, -⟩ := ok_of_bind h
    exact ⟨⟨box, hbox⟩, unbox, hunbox⟩
  · rintro ⟨⟨box, hbox⟩, unbox, hunbox⟩
    rw [hbox]
    dsimp only [bind, Except.bind]
    rw [hunbox]
    exact ⟨_, rfl⟩

theorem Foreign.Evolves.findFactory {f f' : Foreign} (h : f.Evolves f') (info : StructInfo) :
    Refinds (f.findFactory info) (f'.findFactory info) := by
  rw [findFactory_eq, findFactory_eq]
  exact (h.findMethod _ _).bind fun _ _ => (h.findMethod _ _).bind fun _ _ => .refl _

namespace ForeignSide.Extends

variable {side side' : ForeignSide σ} {info : StructInfo} {size : Nat}

/-- A struct with a plain name has its boxing methods. -/
theorem boxes_of_plain
    (h : side.Extends (Library.structType info.assembly info.fullName size) side')
    (hplain : Text.Plain info.fullName.toList) :
    ∃ factory, side'.foreign.findFactory info = .ok factory := by
  have hmethods := Library.structType_methods (σ := σ) info.assembly info.fullName size
  have hmem {name : String} {params : List String}
      (hk : (info.assembly, Signature.layout info.fullName name params) ∈
        (Library.structType (σ := σ) info.assembly info.fullName size).methods.map
          fun d => (d.assembly, d.key))
      (hname : Signature.Readable name.toList) (hf : Signature.Faithful info.fullName params) :
      ∃ i, side'.foreign.findMethod info.assembly (.ofClass info.fullName name params) = .ok i := by
    obtain ⟨m, hm, heq⟩ := List.mem_map.1 hk
    obtain ⟨hassembly, hkey⟩ := Prod.mk.inj heq
    exact hassembly ▸ h.finds hm hkey hname hf
  have hfaithful := Signature.faithful_struct_iff.2 hplain
  rw [hmethods] at hmem
  refine Foreign.exists_findFactory_iff.2 ⟨hmem (by simp) ?_ ?_, hmem (by simp) ?_ hfaithful⟩
  · decide
  · exact ⟨hfaithful.separator, hfaithful.trimmed,
      fun t ht => hfaithful.tokens t (List.mem_append_left [info.fullName ++ "&"] ht)⟩
  · decide

/-- A struct that is found to have boxing methods, in an assembly that had no methods, has a plain
name. -/
theorem plain_of_boxes
    (h : side.Extends (Library.structType info.assembly info.fullName size) side')
    (hnew : side.Lacks info.assembly) {factory : StructFactory}
    (hf : side'.foreign.findFactory info = .ok factory) : Text.Plain info.fullName.toList := by
  obtain ⟨-, i, hunbox⟩ := Foreign.exists_findFactory_iff.1 ⟨factory, hf⟩
  obtain ⟨m, hm, hparse⟩ := h.of_findMethod hnew (Signature.isSome_params_ofClass ..) hunbox
  have hmem := List.mem_map_of_mem (f := fun d : MethodDef σ => (d.assembly, d.key)) hm
  rw [Library.structType_methods, List.mem_cons, List.mem_singleton] at hmem
  obtain hm | hm := hmem
  · rw [(Prod.mk.inj hm).2] at hparse
    obtain ⟨-, -, hname, -⟩ := Signature.of_read_class (by decide) hparse
    exact absurd hname (by decide)
  · rw [(Prod.mk.inj hm).2] at hparse
    exact Signature.faithful_struct_iff.1
      ((Signature.read_eq_built_iff (by decide) hparse).1 rfl)

end ForeignSide.Extends

namespace Engine

variable {call : Invoker σ} {w : World σ} {info : StructInfo} {factory : StructFactory}

/-- A struct that has boxing methods is answered, be it remembered or not. -/
theorem structFactory_of_find (call : Invoker σ) (h : w.state.foreign.findFactory info = .ok factory) :
    ∃ factory v, structFactory info call w = .ok (.ok factory) v := by
  unfold structFactory
  rw [Act.state_bind, h]
  cases w.state.bridge.factories.get? info.fullName with
  | some factory => exact ⟨factory, w, rfl⟩
  | none => exact ⟨factory, _, rfl⟩

/-- What is answered newly was found. -/
theorem find_of_structFactory {v : World σ}
    (hnew : w.state.bridge.factories.get? info.fullName = none)
    (h : structFactory info call w = .ok (.ok factory) v) :
    w.state.foreign.findFactory info = .ok factory := by
  unfold structFactory at h
  rw [Act.state_bind, hnew] at h
  dsimp only at h
  cases hfind : w.state.foreign.findFactory info with
  | error e =>
    rw [hfind] at h
    cases h
  | ok found =>
    rw [hfind] at h
    cases h
    rfl

end Engine

/-! ## Proxy classes -/

theorem Library.proxyClass_methods (assembly full : String) :
    (proxyClass (σ := σ) assembly full).methods.map (fun d => (d.assembly, d.key)) =
      [(assembly, Signature.layout full ".ctor" ["intptr"])] := by
  have htext : s!"{full}:.ctor (intptr)" = Signature.layout full ".ctor" ["intptr"] := by
    apply String.toList_inj.1
    rw [Signature.toList_layout]
    simp [toString]
  exact congrArg (fun text => [(assembly, text)]) htext

theorem State.resolveBinding_native {s : State} {classRef : Address} {info : ClassInfo}
    (h : s.host.classInfo classRef = .ok info) (horigin : info.origin = .native) :
    s.resolveBinding classRef = .ok (s.foreign.findBinding info) := by
  unfold resolveBinding Host.lineage Host.proxyClass
  rw [h]
  dsimp only [bind, Except.bind]
  rw [horigin]
  rfl

theorem Foreign.exists_findBinding_iff {f : Foreign} {info : ClassInfo} :
    (∃ b, f.findBinding info = .ok b) ↔
      (∃ type, f.lookupType info.assembly info.foreignName = some type) ∧
        ∃ m, f.findMethod info.assembly
          (.ofClass info.foreignName ".ctor" (if !info.isLibrary then ["intptr"] else [])) =
            .ok m := by
  unfold findBinding
  dsimp only
  cases htype : f.lookupType info.assembly info.foreignName with
  | none =>
    constructor
    · rintro ⟨_, ⟨⟩⟩
    · rintro ⟨⟨_, ⟨⟩⟩, -⟩
  | some type =>
    dsimp only
    constructor
    · rintro ⟨b, hb⟩
      obtain ⟨m, hm, -⟩ := ok_of_bind hb
      exact ⟨⟨type, rfl⟩, m, hm⟩
    · rintro ⟨-, m, hm⟩
      rw [hm]
      exact ⟨_, rfl⟩

namespace ForeignSide.Extends

variable {side side' : ForeignSide σ} {info : ClassInfo}

/-- A class that is read as it is written has its binding. -/
theorem binds_of_faithful
    (h : side.Extends (Library.proxyClass info.assembly info.foreignName) side')
    (hlibrary : info.isLibrary = false) (hf : Signature.Faithful info.foreignName ["intptr"]) :
    ∃ b, side'.foreign.findBinding info = .ok b := by
  refine Foreign.exists_findBinding_iff.2 ⟨h.types _ List.mem_cons_self, ?_⟩
  rw [hlibrary]
  have hmem : (info.assembly, Signature.layout info.foreignName ".ctor" ["intptr"]) ∈
      (Library.proxyClass (σ := σ) info.assembly info.foreignName).methods.map
        fun d => (d.assembly, d.key) := by
    rw [Library.proxyClass_methods]
    exact List.mem_cons_self
  obtain ⟨m, hm, heq⟩ := List.mem_map.1 hmem
  obtain ⟨hassembly, hkey⟩ := Prod.mk.inj heq
  rw [← hassembly]
  exact h.finds hm hkey (by decide) hf

/-- A class that is bound to a proxy class, in an assembly that had no methods, is read as it is
written, and its proxies are given a host address. -/
theorem faithful_of_binds
    (h : side.Extends (Library.proxyClass info.assembly info.foreignName) side')
    (hnew : side.Lacks info.assembly) {b : ProxyBinding}
    (hb : side'.foreign.findBinding info = .ok b) :
    info.isLibrary = false ∧ Signature.Faithful info.foreignName ["intptr"] := by
  obtain ⟨-, i, hctor⟩ := Foreign.exists_findBinding_iff.1 ⟨b, hb⟩
  obtain ⟨m, hm, hparse⟩ := h.of_findMethod hnew (Signature.isSome_params_ofClass ..) hctor
  have hmem := List.mem_map_of_mem (f := fun d : MethodDef σ => (d.assembly, d.key)) hm
  rw [Library.proxyClass_methods, List.mem_singleton] at hmem
  rw [(Prod.mk.inj hmem).2] at hparse
  obtain ⟨hcolon, htrim, -, hparams⟩ :=
    Signature.of_read_class (by decide) hparse
  have htoken : ∀ t ∈ ["intptr"], Text.IsToken t.toList := by decide
  rw [Signature.tokens_intercalate_iff.2 htoken] at hparams
  refine ⟨?_, hcolon, htrim, htoken⟩
  cases hlibrary : info.isLibrary with
  | false => rfl
  | true =>
    rw [hlibrary] at hparams
    cases hparams

end ForeignSide.Extends

namespace Identity

variable {w : World σ} {classRef : Address} {b : ProxyBinding}

/-- A class that is resolved is answered, be it remembered or not. -/
theorem bindingFor_of_resolve (call : Invoker σ)
    (h : w.state.resolveBinding classRef = .ok (.ok b)) :
    ∃ b v, bindingFor classRef call w = .ok (.ok b) v := by
  obtain ⟨requested, _, hrequested, -⟩ := State.resolveBinding_eq_ok.1 h
  unfold bindingFor
  rw [Act.state_bind, hrequested, h]
  cases w.state.bridge.bindings.get? classRef with
  | some b => exact ⟨b, w, rfl⟩
  | none => exact ⟨b, _, rfl⟩

/-- What is answered newly was resolved. -/
theorem resolve_of_bindingFor {call : Invoker σ} {v : World σ}
    (hnew : w.state.bridge.bindings.get? classRef = none)
    (h : bindingFor classRef call w = .ok (.ok b) v) :
    w.state.resolveBinding classRef = .ok (.ok b) := by
  unfold bindingFor at h
  rw [Act.state_bind, hnew] at h
  dsimp only at h
  cases hrequested : w.state.host.classInfo classRef with
  | error p =>
    rw [hrequested] at h
    cases h
  | ok requested =>
    rw [hrequested] at h
    obtain ⟨_, _, ⟨⟩, h⟩ := Act.ok_of_bind h
    cases hresolve : w.state.resolveBinding classRef with
    | error p =>
      rw [hresolve] at h
      cases h
    | ok found =>
      rw [hresolve] at h
      obtain ⟨_, _, ⟨⟩, h⟩ := Act.ok_of_bind h
      -- A failure is counted and answered as one, so what is answered was found.
      cases found with
      | error e =>
        obtain ⟨_, _, -, h⟩ := Act.ok_of_bind h
        obtain ⟨_, _, -, h⟩ := Act.ok_of_bind h
        cases h
      | ok found =>
        cases h
        rfl

end Identity

/-! ## Where the keys agree -/

/-- A library that was found is found later, too. -/
theorem Foreign.Evolves.findHelpers {f f' : Foreign} (h : f.Evolves f') (e : EngineBinding) :
    Refinds (Helpers.find f e) (Helpers.find f' e) := by
  intro helpers hf
  rw [Helpers.find_eq_ok_iff, ← Helpers.find_eq_ok_iff.1 hf]
  refine List.map_congr_left fun k hk => ?_
  obtain ⟨m, hm⟩ := Helpers.findMethod_of_mem hf hk
  rw [hm]
  exact h.findMethod _ _ m hm

namespace Sample

/-- A host with one class, and the given foreign side. -/
def hosting (info : ClassInfo) (side : ForeignSide Unit) : World Unit :=
  let w := world [] []
  { w with state.host := (Host.empty.defineClass info none).2, state.foreign := side.foreign }

/-- A native class with a proxy class of this name. -/
def thing (foreignName : String) (isLibrary : Bool) : ClassInfo :=
  ⟨"Thing", foreignName, "Game", .native, isLibrary⟩

/-- A struct of two types. -/
def generic : StructInfo := ⟨"Game.Pair<A,B>", "Game", ⟨8, 4⟩⟩

/-- The stock library in a namespace with a blank in it. -/
def spaced : EngineBinding := { EngineBinding.default with nameSpace := "Game Engine" }

/-- The structs and classes of the samples can be defined. -/
theorem install_defined : ∀ d ∈ [Library.structType "Game" "Game.Vector" 12,
      Library.structType "Game" generic.fullName 8, Library.proxyClass "Game" "Game.Thing",
      Library.proxyClass "Game" " Game.Thing"],
    ∃ side, (.empty : ForeignSide Unit).install d = .ok side := by
  have h : ∀ d ∈ [Library.structType "Game" "Game.Vector" 12,
      Library.structType "Game" generic.fullName 8, Library.proxyClass "Game" "Game.Thing",
      Library.proxyClass "Game" " Game.Thing"],
      ((.empty : ForeignSide Unit).install d).isOk = true := by
    decide +kernel
  intro d hd
  cases hside : (.empty : ForeignSide Unit).install d with
  | ok side => exact ⟨side, rfl⟩
  | error p =>
    have hok := h d hd
    rw [hside] at hok
    cases hok

theorem find_of_bindingFor {info : ClassInfo} {side : ForeignSide Unit} {b : ProxyBinding}
    {v : World Unit} (horigin : info.origin = .native)
    (h : Identity.bindingFor (.hostClass 0) (callAt 0) (hosting info side) = .ok (.ok b) v) :
    side.foreign.findBinding info = .ok b := by
  have hresolve := Identity.resolve_of_bindingFor rfl h
  rw [State.resolveBinding_native rfl horigin] at hresolve
  exact Except.ok.inj hresolve

end Sample

end TwinHeap
