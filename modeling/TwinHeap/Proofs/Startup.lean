import TwinHeap.Proofs.Grammar
import TwinHeap.Proofs.Stock

/-!
# Startup — a bridge to the stock library

The library is written with method keys, and the bridge finds its methods by keys. Where all of them
are found, neither the namespace nor a class name of the library has a class separator in it, so each
key that was written means the method that it seems to mean, and the bridge has found the stock
bodies.
-/

namespace TwinHeap

variable {σ : Type}

/-! ## Keys -/

namespace Signature

open Text

/-- A class that was read from a key has no class separator in it. -/
theorem separator_notMem_of_parse {key : String} {s : Signature} (h : parse key = .ok s) :
    ':' ∉ s.nameSpace.toList ∧ ':' ∉ s.className.toList :=
  have htidy := (parse_eq_ok_iff.1 h).tidy
  ⟨htidy.space_colon, htidy.class_colon⟩

/-- A name that a key is read with as it is written. -/
def Readable (name : List Char) : Prop := name ≠ [] ∧ ∀ c ∈ name, isBlank c = false ∧ c ≠ '('

instance (name : List Char) : Decidable (Readable name) :=
  decidable_of_iff (name ≠ [] ∧ (name.all fun c => !isBlank c && c != '(') = true)
    (by simp [Readable, List.all_eq_true])

/-- What is read behind the class, if a list follows the method. -/
theorem parseMethod_of_readable (key : String) {name : List Char} (hname : Readable name)
    (inner : List Char) :
    parseMethod key (name ++ ' ' :: '(' :: (inner ++ [')'])) = .ok (name, some (tokens inner)) := by
  have hopen : '(' ∉ name := fun hm => (hname.2 _ hm).2 rfl
  have hread := (spellsMethod_spaced hopen inner).parse key
  rwa [trim_of_notBlank fun c hc => (hname.2 c hc).1, ← tokens_eq_listed] at hread

/-- The text of a key in the layout of the definitions. -/
def layout (full name : String) (params : List String) : String :=
  let list := String.intercalate "," params
  s!"{full}:{name} ({list})"

theorem toList_layout (full name : String) (params : List String) :
    (layout full name params).toList = full.toList ++ ':' :: (name.toList ++ ' ' :: '(' ::
      ([','].intercalate (params.map String.toList) ++ [')'])) := by
  simp [layout, toString]

variable {full name : String} {params : List String} {s : Signature}

variable (params) in
/-- What is read from a text in the layout of the definitions, if the class is set off. -/
theorem parse_layout (hfull : ':' ∉ full.toList) (hname : Readable name.toList)
    (hclass : (splitClass (trim full.toList)).2 ≠ []) :
    parse (layout full name params) =
      .ok ⟨String.ofList (splitClass (trim full.toList)).1,
        String.ofList (splitClass (trim full.toList)).2, name,
        some (tokens ([','].intercalate (params.map String.toList)))⟩ := by
  rw [parse_append (toList_layout full name params) hfull, if_neg hclass,
    parseMethod_of_readable _ hname]
  dsimp only
  rw [if_neg hname.1, String.ofList_toList]

theorem of_parse_layout (hfull : ':' ∉ full.toList) (hname : Readable name.toList)
    (h : parse (layout full name params) = .ok s) :
    s = ⟨String.ofList (splitClass (trim full.toList)).1,
      String.ofList (splitClass (trim full.toList)).2, name,
      some (tokens ([','].intercalate (params.map String.toList)))⟩ := by
  by_cases hclass : (splitClass (trim full.toList)).2 = []
  · rw [parse_append (toList_layout full name params) hfull, if_pos hclass] at h
    cases h
  · rw [parse_layout params hfull hname hclass] at h
    exact (Except.ok.inj h).symm

end Signature

/-! ## Installing definitions -/

namespace Foreign

/-- The runtime in which the types of a list were defined. -/
def defineTypes (f : Foreign) (ts : List (String × String)) : Foreign :=
  ts.foldl (fun f t => (f.defineType t.1 t.2).2) f

theorem defineTypes_same (f : Foreign) (ts : List (String × String)) :
    (f.defineTypes ts).heap = f.heap ∧ (f.defineTypes ts).methods = f.methods := by
  unfold defineTypes
  induction ts generalizing f with
  | nil => exact ⟨rfl, rfl⟩
  | cons t ts ih =>
    rw [List.foldl_cons, (ih _).1, (ih _).2]
    unfold defineType
    split <;> exact ⟨rfl, rfl⟩

end Foreign

/-- The definitions that a side has installed, in their order. -/
structure ForeignSide.Installs (side : ForeignSide σ) (ms : List (MethodDef σ)) : Prop where
  heap : side.foreign.heap = .empty
  bodies : side.bodies = ms.map MethodDef.body
  length : side.foreign.methods.length = ms.length
  info : ∀ {i : Nat} {m : MethodDef σ} {info : MethodInfo}, ms[i]? = some m →
    side.foreign.methods[i]? = some info → m.info = .ok info

namespace ForeignSide

variable {side side' : ForeignSide σ} {ms : List (MethodDef σ)}

theorem Installs.define {m : MethodDef σ} (h : side.Installs ms) (hd : side.define m = .ok side') :
    side'.Installs (ms ++ [m]) := by
  unfold ForeignSide.define at hd
  cases hm : m.info with
  | error p => rw [hm] at hd; cases hd
  | ok info =>
    rw [hm] at hd
    cases hd
    refine ⟨h.heap, ?_, ?_, ?_⟩
    · rw [List.map_append, ← h.bodies]
      rfl
    · rw [List.length_append, List.length_append, h.length]
      rfl
    · intro i m' info' hm' hinfo'
      obtain ⟨hm', hinfo'⟩ | ⟨rfl, rfl⟩ := getElem?_concat_cases h.length.symm hm' hinfo'
      · exact h.info hm' hinfo'
      · exact hm

theorem Installs.foldlM {ms' : List (MethodDef σ)} (h : side.Installs ms)
    (hf : ms'.foldlM ForeignSide.define side = .ok side') : side'.Installs (ms ++ ms') := by
  induction ms' generalizing side ms with
  | nil =>
    cases hf
    rwa [List.append_nil]
  | cons m ms' ih =>
    rw [List.foldlM_cons] at hf
    cases hd : side.define m with
    | error p => rw [hd] at hf; cases hf
    | ok mid =>
      rw [hd] at hf
      have hrest := ih (h.define hd) hf
      rwa [List.append_assoc, List.singleton_append] at hrest

/-- A fresh side in which definitions were installed. -/
theorem installs_of_install {d : Definitions σ} (h : empty.install d = .ok side) :
    side.Installs d.methods := by
  obtain ⟨hheap, hmethods⟩ := Foreign.empty.defineTypes_same d.types
  rw [← List.nil_append d.methods]
  refine Installs.foldlM ⟨hheap, rfl, congrArg List.length hmethods, ?_⟩ h
  intro i m info hm
  cases hm

end ForeignSide

/-- What is known of a method was read from its key. -/
theorem MethodDef.of_info {m : MethodDef σ} {info : MethodInfo} (h : m.info = .ok info) :
    info.assembly = m.assembly ∧ Signature.parse m.key = .ok info.signature := by
  unfold MethodDef.info at h
  split at h
  · cases h
  · rename_i s hs
    split at h
    · cases h
    · cases h
      exact ⟨rfl, hs⟩

theorem ForeignSide.Installs.parse {side : ForeignSide σ} {ms : List (MethodDef σ)}
    (h : side.Installs ms) {m : Nat} {info : MethodInfo}
    (hm : side.foreign.methods[m]? = some info) :
    ∃ d, ms[m]? = some d ∧ Signature.parse d.key = .ok info.signature := by
  have hlt : m < ms.length := h.length ▸ (List.getElem?_eq_some_iff.1 hm).1
  have hd := List.getElem?_eq_getElem hlt
  exact ⟨ms[m], hd, (MethodDef.of_info (h.info hd hm)).2⟩

/-! ## The bodies of the library are tame -/

theorem Code.tame_ofPanic {α : Type} {e : EngineBinding} {x : Except Panic α}
    {next : α → Program σ} (h : ∀ a, (next a).Tame e) : (Code.ofPanic x next).Tame e := by
  cases x with
  | error p => trivial
  | ok a => exact h a

namespace Library

variable {e : EngineBinding}

theorem tame_nativePtr (inv : Invocation) : (nativePtr (σ := σ) inv).toProgram.Tame e :=
  fun _ _ => ⟨nofun, fun _ => trivial⟩

theorem tame_createCollection (inv : Invocation) :
    (createCollection (σ := σ) inv).toProgram.Tame e :=
  Code.tame_ofPanic fun _ _ _ _ _ => ⟨nofun, fun _ => trivial⟩

theorem tame_writeCollection (inv : Invocation) :
    (writeCollection (σ := σ) inv).toProgram.Tame e :=
  Code.tame_ofPanic fun _ _ _ => Code.tame_ofPanic fun _ _ _ => ⟨trivial, fun _ => trivial⟩

theorem tame_createSoftReference (inv : Invocation) :
    (createSoftReference (σ := σ) inv).toProgram.Tame e :=
  Code.tame_ofPanic fun _ _ _ _ _ => ⟨nofun, fun _ => trivial⟩

theorem tame_writeSoftReference (inv : Invocation) :
    (writeSoftReference (σ := σ) inv).toProgram.Tame e :=
  Code.tame_ofPanic fun _ _ _ => Code.tame_ofPanic fun _ _ _ => ⟨trivial, fun _ => trivial⟩

/-! ## The methods of the library -/

/-- The names of the methods of the library, in their order. -/
def names : List String :=
  ["DisconnectFromNative", "GetNativePtr", "BeforeConstruct", "AfterConstruct", "CreateArray",
    "WriteArray", "CreateSet", "WriteSet", "CreateMap", "WriteMap", "CreateSoftObjectPtr",
    "WriteSoftObjectPtr", "CreateSoftClassPtr", "WriteSoftClassPtr"]

/-- A method of the library. -/
structure Entry where
  className : String
  method : String
  params : List String

/-- A name in the namespace of the library. -/
def dotted (e : EngineBinding) (name : String) : String := s!"{e.nameSpace}.{name}"

/-- The methods of the library, in their order. -/
def entries (e : EngineBinding) : List Entry :=
  [⟨e.objectClass, "DisconnectFromNative", []⟩,
    ⟨e.objectClass, "GetNativePtr", []⟩,
    ⟨e.objectClass, "BeforeConstruct", ["intptr"]⟩,
    ⟨e.objectClass, "AfterConstruct", []⟩] ++
  ["Array", "Set", "Map"].flatMap (fun kind =>
    [⟨e.factoryClass, "Create" ++ kind, ["intptr", "intptr"]⟩,
      ⟨e.factoryClass, "Write" ++ kind,
        ["intptr", "intptr", "System.Collections.IEnumerable"]⟩]) ++
  ["SoftObjectPtr", "SoftClassPtr"].flatMap fun kind =>
    [⟨e.factoryClass, "Create" ++ kind, ["intptr", "intptr"]⟩,
      ⟨e.factoryClass, "Write" ++ kind, ["intptr", dotted e ("I" ++ kind)]⟩]

/-- The class of an entry in full. -/
def Entry.fullName (e : EngineBinding) (k : Entry) : String := dotted e k.className

/-- The key by which the bridge looks for a method of the library. -/
def Entry.key (e : EngineBinding) (k : Entry) : Signature :=
  ⟨e.nameSpace, k.className, k.method, some k.params⟩

theorem toList_dotted (e : EngineBinding) (name : String) :
    (dotted e name).toList = e.nameSpace.toList ++ '.' :: name.toList := by
  simp [dotted, toString]

theorem Entry.toList_fullName (k : Entry) :
    (k.fullName e).toList = e.nameSpace.toList ++ '.' :: k.className.toList :=
  toList_dotted e _

/-- The library is written by its entries. -/
theorem engine_entries (e : EngineBinding) :
    (engine (σ := σ) e).methods.map (fun d => (d.assembly, d.key)) =
      (entries e).map fun k =>
        (e.assembly, Signature.layout (k.fullName e) k.method k.params) := by
  have hpair {a b : String} (h : a.toList = b.toList) : (e.assembly, a) = (e.assembly, b) :=
    congrArg _ (String.toList_inj.1 h)
  unfold engine entries
  simp only [List.map_cons, List.map_nil, List.flatMap_cons, List.flatMap_nil, List.cons_append,
    List.nil_append, List.append_nil, List.cons.injEq, and_true]
  refine ⟨?_, ?_, ?_, ?_, ?_, ?_, ?_, ?_, ?_, ?_, ?_, ?_, ?_, ?_⟩
  all_goals
    refine hpair ?_
    rw [Signature.toList_layout]
    simp [Entry.fullName, dotted, engine.lifecycle, engine.making, engine.object, engine.factory,
      method, toString]

theorem method_entries (e : EngineBinding) : (entries e).map Entry.method = names := rfl

theorem className_of_mem_entries {k : Entry} (hk : k ∈ entries e) :
    k.className = e.objectClass ∨ k.className = e.factoryClass := by
  simp only [entries, List.flatMap_cons, List.flatMap_nil, List.cons_append, List.nil_append,
    List.append_nil, List.mem_cons, List.not_mem_nil, or_false] at hk
  rcases hk with
    rfl | rfl | rfl | rfl | rfl | rfl | rfl | rfl | rfl | rfl | rfl | rfl | rfl | rfl <;> simp

theorem name_readable : ∀ name ∈ names, Signature.Readable name.toList := by decide +kernel

/-- Where the classes of the library have no class separator in them, the methods have its names. -/
theorem name_of_installs {side : ForeignSide σ}
    (hi : side.Installs (engine e).methods)
    (hfull : ∀ cls, cls = e.objectClass ∨ cls = e.factoryClass →
      ':' ∉ e.nameSpace.toList ++ '.' :: cls.toList) {m : Nat} {info : MethodInfo}
    (hm : side.foreign.methods[m]? = some info) : names[m]? = some info.signature.method := by
  obtain ⟨d, hd, hparse⟩ := hi.parse hm
  have hkeys := congrArg (·[m]?) (engine_entries (σ := σ) e)
  rw [List.getElem?_map, List.getElem?_map, hd] at hkeys
  obtain ⟨k, hk, hkey⟩ := Option.map_eq_some_iff.1 hkeys.symm
  have hname : names[m]? = some k.method := by
    rw [← method_entries e, List.getElem?_map, hk]
    rfl
  have hclass : ':' ∉ (k.fullName e).toList := by
    rw [Entry.toList_fullName]
    exact hfull _ (className_of_mem_entries (List.mem_of_getElem? hk))
  rw [← (Prod.mk.inj hkey).2] at hparse
  rw [hname, Signature.of_parse_layout hclass (name_readable _ (List.mem_of_getElem? hname)) hparse]

/-- All methods of the library but those that connect proxies are tame. -/
theorem tame_engine {m : Nat} {d : MethodDef σ} (hd : (engine e).methods[m]? = some d)
    (h0 : m ≠ 0) (h2 : m ≠ 2) (h3 : m ≠ 3) (inv : Invocation) : (d.body inv).Tame e := by
  match m, hd with
  | 0, _ => exact absurd rfl h0
  | 1, hd => cases hd; exact tame_nativePtr inv
  | 2, _ => exact absurd rfl h2
  | 3, _ => exact absurd rfl h3
  | 4, hd | 6, hd | 8, hd => cases hd; exact tame_createCollection inv
  | 5, hd | 7, hd | 9, hd => cases hd; exact tame_writeCollection inv
  | 10, hd | 12, hd => cases hd; exact tame_createSoftReference inv
  | 11, hd | 13, hd => cases hd; exact tame_writeSoftReference inv
  | _ + 14, hd => cases hd

end Library

/-! ## What the bridge finds -/

/-- A whole key finds a method that was declared with it. -/
theorem Foreign.signature_of_findMethod {f : Foreign} {assembly : String} {key : Signature}
    {m : Nat} (h : f.findMethod assembly key = .ok m) (hk : key.params.isSome) :
    ∃ info, f.methods[m]? = some info ∧ info.signature = key := by
  obtain ⟨info, hm, ha⟩ := methods_of_findMethod h
  exact ⟨info, hm, (Signature.accepts_iff_eq hk).1 ha⟩

namespace Helpers

variable {f : Foreign} {e : EngineBinding} {h : Helpers}

/-- All methods that the bridge calls, in the order of the entries of the library. -/
def all (h : Helpers) : List Nat :=
  [h.disconnect, h.nativePtr, h.beforeConstruct, h.afterConstruct] ++ h.ofFactory

/-- The library is found just if each of its methods is. -/
theorem find_eq_ok_iff :
    find f e = .ok h ↔ (Library.entries e).map (fun k => f.findMethod e.assembly (k.key e)) =
      h.all.map .ok := by
  simp only [Library.entries, all, ofFactory, List.flatMap_cons, List.flatMap_nil, List.cons_append,
    List.nil_append, List.append_nil, List.map_cons, List.map_nil, List.cons.injEq, and_true]
  constructor
  · intro hf
    unfold find at hf
    obtain ⟨_, h0, hf⟩ := ok_of_bind hf
    obtain ⟨_, h1, hf⟩ := ok_of_bind hf
    obtain ⟨_, h2, hf⟩ := ok_of_bind hf
    obtain ⟨_, h3, hf⟩ := ok_of_bind hf
    obtain ⟨_, h4, hf⟩ := ok_of_bind hf
    obtain ⟨_, h5, hf⟩ := ok_of_bind hf
    obtain ⟨_, h6, hf⟩ := ok_of_bind hf
    obtain ⟨_, h7, hf⟩ := ok_of_bind hf
    obtain ⟨_, h8, hf⟩ := ok_of_bind hf
    obtain ⟨_, h9, hf⟩ := ok_of_bind hf
    obtain ⟨_, h10, hf⟩ := ok_of_bind hf
    obtain ⟨_, h11, hf⟩ := ok_of_bind hf
    obtain ⟨_, h12, hf⟩ := ok_of_bind hf
    obtain ⟨_, h13, hf⟩ := ok_of_bind hf
    cases hf
    exact ⟨h0, h1, h2, h3, h4, h5, h6, h7, h8, h9, h10, h11, h12, h13⟩
  · rintro ⟨h0, h1, h2, h3, h4, h5, h6, h7, h8, h9, h10, h11, h12, h13⟩
    have hbind {α β : Type} {x : Except LinkError α} {a : α} {g : α → Except LinkError β}
        {b : β} (hx : x = .ok a) (hg : g a = .ok b) : x >>= g = .ok b := by
      rw [hx]
      exact hg
    exact hbind h0 <| hbind h1 <| hbind h2 <| hbind h3 <| hbind h4 <| hbind h5 <| hbind h6 <|
      hbind h7 <| hbind h8 <| hbind h9 <| hbind h10 <| hbind h11 <| hbind h12 <| hbind h13 rfl

/-- The methods of a library that is found. -/
theorem findMethod_of_find (hf : find f e = .ok h) :
    f.findMethod e.assembly ⟨e.nameSpace, e.objectClass, "DisconnectFromNative", some []⟩ =
        .ok h.disconnect ∧
      f.findMethod e.assembly ⟨e.nameSpace, e.objectClass, "GetNativePtr", some []⟩ =
        .ok h.nativePtr ∧
      f.findMethod e.assembly ⟨e.nameSpace, e.objectClass, "BeforeConstruct", some ["intptr"]⟩ =
        .ok h.beforeConstruct ∧
      f.findMethod e.assembly ⟨e.nameSpace, e.objectClass, "AfterConstruct", some []⟩ =
        .ok h.afterConstruct ∧
      ∀ m ∈ h.ofFactory, ∃ name params,
        name ∉ [".ctor", "BeforeConstruct", "AfterConstruct", "DisconnectFromNative"] ∧
        f.findMethod e.assembly ⟨e.nameSpace, e.factoryClass, name, some params⟩ = .ok m := by
  have hall := find_eq_ok_iff.1 hf
  simp only [Library.entries, all, ofFactory, List.flatMap_cons, List.flatMap_nil, List.cons_append,
    List.nil_append, List.append_nil, List.map_cons, List.map_nil, List.cons.injEq, and_true] at hall
  obtain ⟨h0, h1, h2, h3, h4, h5, h6, h7, h8, h9, h10, h11, h12, h13⟩ := hall
  refine ⟨h0, h1, h2, h3, ?_⟩
  simp only [ofFactory, List.forall_mem_cons, List.not_mem_nil, false_implies, implies_true,
    and_true]
  refine ⟨⟨_, _, ?_, h4⟩, ⟨_, _, ?_, h5⟩, ⟨_, _, ?_, h6⟩, ⟨_, _, ?_, h7⟩, ⟨_, _, ?_, h8⟩,
    ⟨_, _, ?_, h9⟩, ⟨_, _, ?_, h10⟩, ⟨_, _, ?_, h11⟩, ⟨_, _, ?_, h12⟩, ⟨_, _, ?_, h13⟩⟩
  all_goals
    dsimp only
    decide

end Helpers

namespace ForeignSide.Installs

variable {e : EngineBinding} {side : ForeignSide σ} {cls method : String} {params : List String}
  {m : Nat}

/-- A class whose methods are found has no class separator in it. -/
theorem separator_notMem {ms : List (MethodDef σ)} (h : side.Installs ms)
    (hm : side.foreign.findMethod e.assembly ⟨e.nameSpace, cls, method, some params⟩ = .ok m) :
    ':' ∉ e.nameSpace.toList ++ '.' :: cls.toList := by
  obtain ⟨info, hm, hs⟩ := Foreign.signature_of_findMethod hm rfl
  obtain ⟨d, -, hparse⟩ := h.parse hm
  obtain ⟨hspace, hcls⟩ := Signature.separator_notMem_of_parse hparse
  rw [hs] at hspace hcls
  rw [List.mem_append, List.mem_cons, not_or, not_or]
  exact ⟨hspace, by decide, hcls⟩

/-- Where all methods of the library are found, the methods have the names of the library. -/
theorem name {helpers : Helpers} (h : side.Installs (Library.engine e).methods)
    (hf : Helpers.find side.foreign e = .ok helpers) {info : MethodInfo}
    (hm : side.foreign.methods[m]? = some info) :
    Library.names[m]? = some info.signature.method := by
  obtain ⟨hobject, -, -, -, hfactory⟩ := Helpers.findMethod_of_find hf
  refine Library.name_of_installs h (fun cls hcls => ?_) hm
  obtain rfl | rfl := hcls
  · exact h.separator_notMem hobject
  · obtain ⟨_, _, -, hmake⟩ := hfactory _ List.mem_cons_self
    exact h.separator_notMem hmake

/-- What is found for the name of a method is that method. -/
theorem index {helpers : Helpers} (h : side.Installs (Library.engine e).methods)
    (hf : Helpers.find side.foreign e = .ok helpers)
    (hm : side.foreign.findMethod e.assembly ⟨e.nameSpace, cls, method, some params⟩ = .ok m)
    {i : Nat} (hi : Library.names[i]? = some method) : i = m := by
  obtain ⟨info, hm, hs⟩ := Foreign.signature_of_findMethod hm rfl
  have hname := h.name hf hm
  rw [hs, ← hi] at hname
  exact (List.getElem?_inj (List.getElem?_eq_some_iff.1 hi).1 (by decide)).1 hname.symm

/-- It has the body of that method. -/
theorem body {helpers : Helpers} (h : side.Installs (Library.engine e).methods)
    (hf : Helpers.find side.foreign e = .ok helpers)
    (hm : side.foreign.findMethod e.assembly ⟨e.nameSpace, cls, method, some params⟩ = .ok m)
    {i : Nat} (hi : Library.names[i]? = some method) {d : MethodDef σ}
    (hd : (Library.engine e).methods[i]? = some d) : side.bodies[m]? = some d.body := by
  rw [← h.index hf hm hi, h.bodies, List.getElem?_map, hd]
  rfl

end ForeignSide.Installs

/-- A method that is found by a reserved key. -/
theorem Foreign.reserves_of_findMethod {f : Foreign} {e : EngineBinding} {name : String}
    {params : List String} {m : Nat}
    (h : f.findMethod e.assembly ⟨e.nameSpace, e.objectClass, name, some params⟩ = .ok m)
    (hn : name = "BeforeConstruct" ∨ name = "AfterConstruct" ∨ name = "DisconnectFromNative") :
    ∃ info, f.methods[m]? = some info ∧ e.Reserves info.signature := by
  obtain ⟨info, hm, hs⟩ := signature_of_findMethod h rfl
  exact ⟨info, hm, by rw [hs]; exact .inr ⟨rfl, rfl, hn⟩⟩

/-- A bridge to a fresh side with the stock library is stocked. -/
theorem World.stocked_connect {config : Config} {registry : Registry} {side : ForeignSide σ}
    {memory : σ} {w : World σ}
    (hside : ForeignSide.empty.install (Library.engine config.engine) = .ok side)
    (hw : World.connect config registry side memory = .ok w) : w.Stocked config.engine := by
  have hi := ForeignSide.installs_of_install hside
  obtain ⟨helpers, hf, hw⟩ := ok_of_bind hw
  cases hw
  generalize config.engine = e at hi hf
  obtain ⟨hdisconnect, hnativePtr, hconnect, hcomplete, hfactory⟩ := Helpers.findMethod_of_find hf
  obtain ⟨info0, hm0, hr0⟩ := Foreign.reserves_of_findMethod hdisconnect (by decide)
  obtain ⟨info2, hm2, hr2⟩ := Foreign.reserves_of_findMethod hconnect (by decide)
  obtain ⟨info3, hm3, hr3⟩ := Foreign.reserves_of_findMethod hcomplete (by decide)
  refine ⟨?_, ?_, ?_, ?_, hi.body (i := 2) hf hconnect rfl rfl,
    hi.body (i := 3) hf hcomplete rfl rfl, hi.body (i := 0) hf hdisconnect rfl rfl,
    hi.body (i := 1) hf hnativePtr rfl rfl, ?_, nofun, nofun, nofun⟩
  · show side.bodies.length = side.foreign.methods.length
    rw [hi.bodies, hi.length, List.length_map]
  · intro m sig b hs hb hres inv
    obtain ⟨info, hm, rfl⟩ := Option.map_eq_some_iff.1 hs
    have hne {i n : Nat} {reserved : MethodInfo} (hin : i = n)
        (hn : side.foreign.methods[n]? = some reserved) (hr : e.Reserves reserved.signature) :
        m ≠ i := by
      rintro rfl
      rw [hin, hn] at hm
      cases hm
      exact hres hr
    have hb : side.bodies[m]? = some b := hb
    rw [hi.bodies, List.getElem?_map] at hb
    obtain ⟨d, hd, rfl⟩ := Option.map_eq_some_iff.1 hb
    exact Library.tame_engine hd (hne (hi.index (i := 0) hf hdisconnect rfl) hm0 hr0)
      (hne (hi.index (i := 2) hf hconnect rfl) hm2 hr2)
      (hne (hi.index (i := 3) hf hcomplete rfl) hm3 hr3) inv
  · intro m sig b hs _ hctor
    obtain ⟨info, hm, rfl⟩ := Option.map_eq_some_iff.1 hs
    have hname := List.mem_of_getElem? (hi.name hf hm)
    rw [hctor] at hname
    exact absurd hname (by decide)
  · simp only [List.forall_mem_cons, List.not_mem_nil, false_implies, implies_true, and_true]
    exact ⟨⟨_, Option.map_eq_some_iff.2 ⟨info2, hm2, rfl⟩, hr2⟩,
      ⟨_, Option.map_eq_some_iff.2 ⟨info3, hm3, rfl⟩, hr3⟩,
      ⟨_, Option.map_eq_some_iff.2 ⟨info0, hm0, rfl⟩, hr0⟩⟩
  · intro m hm
    obtain rfl | hm := List.mem_cons.1 hm
    · exact State.offers_of_findMethod hnativePtr (e.not_reserves (by decide))
    · obtain ⟨name, params, hn, hm⟩ := hfactory m hm
      exact State.offers_of_findMethod hm (e.not_reserves hn)

end TwinHeap
