import TwinHeap.Proofs.RoundTrip
import TwinHeap.Proofs.Succession
import Mathlib.Data.List.Nodup

/-!
# Names — texts that are interned keep their index

The host interns each text once, behind those that it knows, and it forgets none. So the tables of any
two spots of a session are in order, and an index means the same text in both (`Host.Interns`). On the
foreign side a name is a record without the index that it is shown by; the way back takes the index
that it is compared by for it, and for a name that was interned these are the same.
`names_keep_texts` is what follows for the names that a session obtains, wherever they were carried in
the meantime.
-/

namespace TwinHeap

variable {σ : Type}

/-! ## The table of names -/

namespace Host

variable {h h' h'' : Host} {text text' : String} {n n' : HostName}

/-- Texts were interned behind those that were known, and none of them for a second time. -/
structure Interns (h h' : Host) : Prop where
  names : h.names <+: h'.names
  nodup : h.names.Nodup → h'.names.Nodup

theorem Interns.of_eq (he : h'.names = h.names) : h.Interns h' :=
  ⟨he ▸ List.prefix_refl _, fun hn => he ▸ hn⟩

theorem Interns.trans (hi : h.Interns h') (hi' : h'.Interns h'') : h.Interns h'' :=
  ⟨hi.names.trans hi'.names, fun hn => hi'.nodup (hi.nodup hn)⟩

/-- A name keeps its text. -/
theorem Interns.nameText (hi : h.Interns h') (ht : h.nameText n = some text) :
    h'.nameText n = some text := by
  obtain ⟨more, hmore⟩ := hi.names
  unfold Host.nameText at ht ⊢
  rw [← hmore, List.getElem?_append_left (List.getElem?_eq_some_iff.1 ht).1]
  exact ht

/-- A text that is interned is found at its index. -/
theorem getElem?_intern (h : Host) (text : String) :
    (h.intern text).2.names[(h.intern text).1]? = some text := by
  unfold intern
  cases hfound : h.names.findIdx? (· == text) with
  | none => exact List.getElem?_concat_length
  | some i =>
    obtain ⟨hlt, htext, -⟩ := List.findIdx?_eq_some_iff_getElem.1 hfound
    exact List.getElem?_eq_some_iff.2 ⟨hlt, beq_iff_eq.1 htext⟩

/-- A text is only added where it is not known. -/
theorem interns_intern (h : Host) (text : String) : h.Interns (h.intern text).2 := by
  unfold intern
  cases hfound : h.names.findIdx? (· == text) with
  | some i => exact .of_eq rfl
  | none =>
    refine ⟨List.prefix_append _ _, fun hn => ?_⟩
    have hnew : text ∉ h.names := fun hm => by
      have := List.findIdx?_eq_none_iff.1 hfound text hm
      simp at this
    exact List.nodup_append'.2 ⟨hn, List.nodup_singleton _, by simpa using hnew⟩

/-- Where no text is twice, the texts of two names are the same just if they are compared as the
same. -/
theorem comparison_eq_iff (hn : h.names.Nodup) (ht : h.nameText n = some text)
    (ht' : h.nameText n' = some text') : n.comparison = n'.comparison ↔ text = text' := by
  unfold nameText at ht ht'
  constructor
  · intro heq
    rw [heq, ht'] at ht
    exact (Option.some.inj ht).symm
  · rintro rfl
    obtain ⟨hlt, htext⟩ := List.getElem?_eq_some_iff.1 ht
    obtain ⟨hlt', htext'⟩ := List.getElem?_eq_some_iff.1 ht'
    exact (hn.getElem_inj_iff).1 (htext.trans htext'.symm)

/-- Only interning concerns the names. -/
theorem interns_of_outcome {r : Request} {s s' : State} (h : r.Outcome s s') :
    Interns s.host s'.host := by
  cases h with
  | intern text => exact interns_intern s.host text
  | setReachable object => cases object <;> exact .of_eq rfl
  | _ => exact .of_eq rfl

theorem growth_interns : Growth Interns where
  refl _ := .of_eq rfl
  trans := Interns.trans
  alone hf s := interns_of_outcome (Request.outcome hf s)

end Host

/-! ## Octets of names -/

/-- A name of fields that fit into 32 bits. -/
def HostName.Fits (n : HostName) : Prop :=
  n.comparison < octetRange 4 ∧ n.display < octetRange 4 ∧ n.number < octetRange 4

/-- A count that fits is read back. -/
theorem wordAt_of_lt {v : Nat} (hv : v < octetRange 4) (os : List Octet) :
    wordAt (wordOctets v ++ os) 0 = v :=
  (wordAt_wordOctets v os).trans (Nat.mod_eq_of_lt hv)

theorem HostName.length_octets (n : HostName) : n.octets.length = 12 := by
  unfold octets
  simp only [List.length_append, length_wordOctets]

theorem HostName.Fits.ofOctets_octets {n : HostName} (hn : n.Fits) : .ofOctets n.octets = n := by
  obtain ⟨hcomparison, hdisplay, hnumber⟩ := hn
  unfold HostName.ofOctets HostName.octets
  rw [List.append_assoc, wordAt_of_lt hcomparison, wordAt_append _ _ 0, wordAt_of_lt hdisplay,
    wordAt_append _ _ 4, wordAt_append _ _ 0, ← List.append_nil (wordOctets n.number),
    wordAt_of_lt hnumber]

theorem HostName.Fits.ofOctets_record {n : HostName} (hn : n.Fits) :
    .ofOctets (NameRecord.ofHostName n).octets = NameRecord.ofHostName n := by
  obtain ⟨hcomparison, -, hnumber⟩ := hn
  unfold NameRecord.ofOctets NameRecord.octets NameRecord.ofHostName
  rw [wordAt_of_lt hcomparison, wordAt_append _ _ 0, ← List.append_nil (wordOctets n.number),
    wordAt_of_lt hnumber]

/-- The record of a name lacks nothing where the name is shown as it is compared. -/
theorem NameRecord.toHostName_ofHostName {n : HostName} (hn : n.display = n.comparison) :
    (ofHostName n).toHostName = n := by
  obtain ⟨comparison, display, number⟩ := n
  obtain rfl : display = comparison := hn
  rfl

/-! ## Crossing -/

namespace State

variable {s : State}

/-- The host stores the name at the address. -/
def Stores (s : State) (a : Address) (n : HostName) : Prop := s.readAt a 12 = n.octets

/-- What lies in the staging record of a slot is not touched by the pointer before it. -/
theorem readAt_staging_writeAt (slot : Slot) (a : Address) (n : Nat) :
    (s.writeAt slot.pointer a.octets).readAt slot.staging n = s.readAt slot.staging n := by
  refine Value.read_eq_iff.2 fun k _ => ?_
  rw [Value.octetAt_skip, Value.octetAt_skip]
  refine octetAt_writeAt (l := .cell slot.cell (slot.offset + addressSize + k)) fun j hj hsite => ?_
  rw [Address.length_octets] at hj
  have hsame : slot.offset + j = slot.offset + 8 + k := by
    simpa [Slot.pointer, Address.site, addressSize] using hsite
  omega

end State

namespace Marshaller

open Act

variable {p : Property} {host foreign : Address} {slot : Slot} {byRef : Bool} {call : Invoker σ}
  {w u : World σ} {n m : HostName} {r : NameRecord}

/-- A name that the host stores goes to the foreign side: it is copied to foreign memory, or passed in
a call, and this record is found there. An argument that is staged by reference carries nothing in. -/
inductive Departs (σ : Type) (n : HostName) (r : NameRecord) : Prop
  | copied {call : Invoker σ} {w u : World σ} {p : Property} {host foreign : Address}
      (hn : w.state.Stores host n) (hforeign : w.state.Writable foreign)
      (hcopy : name.copy p host foreign .hostToForeign call w = .ok () u)
      (hr : .ofOctets (u.state.readAt foreign 8) = r)
  | staged {call : Invoker σ} {w u : World σ} {p : Property} {host : Address} {slot : Slot}
      {pointer : Address} {made : Option Address}
      (hn : w.state.Stores host n) (hslot : w.state.Writable slot.staging)
      (hstage : name.stage p host slot false call w = .ok (pointer, made) u)
      (hr : .ofOctets (u.state.readAt pointer 8) = r)
  | passed {call : Invoker σ} {w u : World σ} {p : Property} {host : Address} {slot : Slot}
      {byRef : Bool} {pointer : Address} {made : Option Address}
      (hn : w.state.Stores host n) (hslot : w.state.Writable slot.staging)
      (hpass : name.pass p host slot byRef call w = .ok (pointer, made) u)
      (hr : .ofOctets (u.state.readAt pointer 8) = r)

/-- A record that is found on the foreign side comes to the host: it is copied from foreign memory, or
was returned from a call, in a box or as a pointer, and the host has this name then. -/
inductive Arrives (σ : Type) (r : NameRecord) (n : HostName) : Prop
  | copied {call : Invoker σ} {w u : World σ} {p : Property} {host foreign : Address}
      (hr : .ofOctets (w.state.readAt foreign 8) = r) (hhost : w.state.Writable host)
      (hcopy : name.copy p host foreign .foreignToHost call w = .ok () u)
      (hn : u.state.nameAt host = n)
  | returned {call : Invoker σ} {w u : World σ} {p : Property} {host foreign data : Address}
      (hdata : name.unwrap p foreign call w = .ok data w)
      (hr : .ofOctets (w.state.readAt data 8) = r) (hhost : w.state.Writable host)
      (hcopy : name.copy p host foreign .returnToHost call w = .ok () u)
      (hn : u.state.nameAt host = n)

/-- The name goes to the foreign side and comes back as the other one. -/
def Crosses (σ : Type) (n m : HostName) : Prop := ∃ r, Departs σ n r ∧ Arrives σ r m

variable (p host call) in
/-- A name is copied by one write of its record. -/
theorem copy_name_out (hforeign : w.state.Writable foreign) :
    name.copy p host foreign .hostToForeign call w = .ok () { w with
      state := w.state.writeAt foreign (NameRecord.ofHostName (w.state.nameAt host)).octets } := by
  show name.toForeign p host foreign call w = _
  unfold toForeign Property.data
  rw [hforeign.nonNull]
  rfl

variable (p host call w) in
/-- A record is copied back by one write, of the name that is shown as it is compared. -/
theorem copy_name_back (hforeign : foreign ≠ .null) :
    name.copy p host foreign .foreignToHost call w = .ok () { w with
      state := w.state.writeAt host (NameRecord.ofOctets (w.state.readAt foreign 8)).toHostName.octets } := by
  show name.toHost p host foreign call w = _
  unfold toHost
  rw [p.data_of_ne_null hforeign]
  rfl

theorem record_of_stores (hn : w.state.Stores host n) (hfits : n.Fits) {dest : Address}
    (hdest : w.state.Writable dest) : .ofOctets ((w.state.writeAt dest
      (NameRecord.ofHostName (w.state.nameAt host)).octets).readAt dest 8) =
        NameRecord.ofHostName n := by
  have hname : w.state.nameAt host = n := (congrArg HostName.ofOctets hn).trans hfits.ofOctets_octets
  have hread := hdest.readAt_writeAt (NameRecord.ofHostName (w.state.nameAt host)).octets
  rw [length_octets] at hread
  rw [hread, hname, hfits.ofOctets_record]

/-- On the foreign side a name is the record of its index and its number. -/
theorem Departs.record (h : Departs σ n r) (hfits : n.Fits) : r = NameRecord.ofHostName n := by
  have hpassed {call : Invoker σ} {w u : World σ} {p : Property} {host : Address} {slot : Slot}
      {byRef : Bool} {pointer : Address} {made : Option Address} (hn : w.state.Stores host n)
      (hslot : w.state.Writable slot.staging)
      (hpass : name.pass p host slot byRef call w = .ok (pointer, made) u) :
      .ofOctets (u.state.readAt pointer 8) = NameRecord.ofHostName n := by
    cases byRef with
    | false =>
      cases hpass
      exact record_of_stores hn hfits hslot
    | true =>
      cases hpass
      refine Eq.trans (congrArg NameRecord.ofOctets ?_) (record_of_stores hn hfits hslot)
      exact State.readAt_staging_writeAt slot slot.staging 8
  cases h with
  | copied hn hforeign hcopy hr =>
    rw [copy_name_out _ _ _ hforeign] at hcopy
    cases hcopy
    exact hr.symm.trans (record_of_stores hn hfits hforeign)
  | staged hn hslot hstage hr => exact hr.symm.trans (hpassed hn hslot hstage)
  | passed hn hslot hpass hr => exact hr.symm.trans (hpassed hn hslot hpass)

/-- The way back reconstructs the index that a name is shown by. -/
theorem Arrives.name_eq (h : Arrives σ r m) (hfits : r.toHostName.Fits) : m = r.toHostName := by
  have hcopied {call : Invoker σ} {w u : World σ} {p : Property} {host foreign : Address}
      (hr : .ofOctets (w.state.readAt foreign 8) = r) (hhost : w.state.Writable host)
      (hcopy : name.copy p host foreign .foreignToHost call w = .ok () u) :
      u.state.nameAt host = r.toHostName := by
    have hnull : foreign ≠ .null := by
      rintro rfl
      cases hcopy
    rw [copy_name_back p host call w hnull, hr] at hcopy
    cases hcopy
    have hread := hhost.readAt_writeAt r.toHostName.octets
    rw [HostName.length_octets] at hread
    exact (congrArg HostName.ofOctets hread).trans hfits.ofOctets_octets
  cases h with
  | copied hr hhost hcopy hn => exact hn.symm.trans (hcopied hr hhost hcopy)
  | returned hdata hr hhost hcopy hn =>
    rw [copy, bind_of_ok hdata] at hcopy
    exact hn.symm.trans (hcopied hr hhost hcopy)

/-- A name that is shown as it is compared comes back as it went. -/
theorem Crosses.name_eq (h : Crosses σ n m) (hfits : n.Fits) (hshown : n.display = n.comparison) :
    m = n := by
  obtain ⟨r, hout, hback⟩ := h
  have hsame := NameRecord.toHostName_ofHostName hshown
  obtain rfl := hout.record hfits
  exact (hback.name_eq (by rwa [hsame])).trans hsame

/-- However often it crosses. -/
theorem name_eq_of_crossings (h : Relation.ReflTransGen (Crosses σ) n m) (hfits : n.Fits)
    (hshown : n.display = n.comparison) : m = n := by
  induction h with
  | refl => rfl
  | tail _ hc ih =>
    subst ih
    exact hc.name_eq hfits hshown

/-- Between places that can be written to, a name can be copied to the foreign side and back. -/
theorem crosses_of_copies {back : Address} (p : Property) (call : Invoker σ)
    (hn : w.state.Stores host n) (hforeign : w.state.Writable foreign)
    (hback : w.state.Writable back) :
    ∃ u v, name.copy p host foreign .hostToForeign call w = .ok () u ∧
      name.copy p back foreign .foreignToHost call u = .ok () v ∧
      Crosses σ n (v.state.nameAt back) := by
  have hnull : foreign ≠ .null := by
    rintro rfl
    exact hforeign
  have hout := copy_name_out p host call hforeign
  have hhome := copy_name_back p back call { w with
    state := w.state.writeAt foreign (NameRecord.ofHostName (w.state.nameAt host)).octets } hnull
  exact ⟨_, _, hout, hhome, _, .copied hn hforeign hout rfl,
    .copied rfl (hback.writeAt foreign _) hhome rfl⟩

end Marshaller

/-! ## Names of a session -/

/-- A new host knows no names, classes and objects. -/
theorem World.host_connect {config : Config} {registry : Registry} {side : ForeignSide σ} {memory : σ}
    {w : World σ} (h : World.connect config registry side memory = .ok w) : w.state.host = .empty := by
  obtain ⟨helpers, rfl⟩ := World.started_of_connect h
  rfl

/-- The host is asked for the name of a text and a number at a spot of the session, and the run goes on
with this name at this spot. -/
inductive Obtains (start : World σ) (ps : List (Nat × Program σ)) (text : String) (number : Nat)
    (n : HostName) : Spot σ → Prop
  | mk {d : Nat} {es : List (Enclosing σ)} {next : HostName → Program σ} {w u : World σ}
      (hx : Along start ps ⟨d, es, .ask (.intern text number) next, w⟩)
      (hn : (Request.intern text number).perform (callAt d) w = .ok n u) :
      Obtains start ps text number n ⟨d, es, next n, u⟩

namespace Obtains

variable {start : World σ} {ps : List (Nat × Program σ)} {text : String} {number : Nat}
  {n : HostName} {x : Spot σ}

theorem along (h : Obtains start ps text number n x) : Along start ps x := by
  cases h with
  | mk hx hn => exact hx.step (.answered hn)

/-- A name that was obtained has its text and its number, and is shown as it is compared. -/
theorem named (h : Obtains start ps text number n x) :
    x.world.state.host.nameText n = some text ∧ n.number = number ∧ n.display = n.comparison := by
  cases h with
  | @mk d es next w u hx hn =>
    cases hn
    exact ⟨w.state.host.getElem?_intern text, rfl, rfl⟩

theorem fits (h : Obtains start ps text number n x) (hnumber : number < octetRange 4)
    (hnames : x.world.state.host.names.length ≤ octetRange 4) : n.Fits := by
  obtain ⟨htext, rfl, hshown⟩ := h.named
  have hlt : n.comparison < x.world.state.host.names.length := (List.getElem?_eq_some_iff.1 htext).1
  exact ⟨by omega, by omega, hnumber⟩

end Obtains

/-- The table of names of a session contains no text twice, and the tables of any two of its spots are
in order: the one begins with the other, and the later one is the longer. A name that was obtained for a
text and a number has that text from then on, and no other one before; it has that number, and is shown
as it is compared. The names of a session are compared as the same just if their texts are the same. All
this holds still after any crossings to the foreign side and back, where the texts that were interned
are at most as many as there are indices. -/
theorem names_keep_texts {config : Config} {registry : Registry} {side : ForeignSide σ} {memory : σ}
    {start : World σ} (hstart : World.connect config registry side memory = .ok start)
    {ps : List (Nat × Program σ)} :
    (∀ x, Along start ps x → x.world.state.host.names.Nodup) ∧
    (∀ x y, Along start ps x → Along start ps y →
      x.world.state.host.names <+: y.world.state.host.names ∨
        y.world.state.host.names <+: x.world.state.host.names) ∧
    (∀ x y, Precedes start ps x y → x.world.state.host.names <+: y.world.state.host.names) ∧
    ∀ text number n x, Obtains start ps text number n x → number < octetRange 4 →
      x.world.state.host.names.length ≤ octetRange 4 →
      ∀ m, Relation.ReflTransGen (Marshaller.Crosses σ) n m →
        m.number = number ∧ m.display = m.comparison ∧
        (∀ y, Precedes start ps x y → y.world.state.host.nameText m = some text) ∧
        (∀ y, Along start ps y → ∀ other, y.world.state.host.nameText m = some other → other = text) ∧
        ∀ text' number' n' x', Obtains start ps text' number' n' x' → number' < octetRange 4 →
          x'.world.state.host.names.length ≤ octetRange 4 →
          ∀ m', Relation.ReflTransGen (Marshaller.Crosses σ) n' m' →
            (m.comparison = m'.comparison ↔ text = text') := by
  have hnodup (x : Spot σ) (hx : Along start ps x) : x.world.state.host.names.Nodup := by
    refine (Host.growth_interns.along hx).nodup ?_
    rw [World.host_connect hstart]
    exact List.nodup_nil
  -- Two names are both known in the table of one of two spots.
  have hcompared {x x' : Spot σ} {n n' : HostName} {text text' : String} (hx : Along start ps x)
      (hx' : Along start ps x') (ht : x.world.state.host.nameText n = some text)
      (ht' : x'.world.state.host.nameText n' = some text') :
      n.comparison = n'.comparison ↔ text = text' := by
    obtain hle | hle := Host.growth_interns.ordered hx hx'
    · exact Host.comparison_eq_iff (hnodup x' hx') (hle.nameText ht) ht'
    · exact Host.comparison_eq_iff (hnodup x hx) ht (hle.nameText ht')
  refine ⟨hnodup, fun x y hx hy => ?_, fun x y hxy => (Host.growth_interns.precedes hxy).names, ?_⟩
  · exact (Host.growth_interns.ordered hx hy).imp Host.Interns.names Host.Interns.names
  intro text number n x hn hnumber hnames m hm
  obtain ⟨htext, hnumber', hshown⟩ := hn.named
  obtain rfl := Marshaller.name_eq_of_crossings hm (hn.fits hnumber hnames) hshown
  refine ⟨hnumber', hshown, fun y hy => (Host.growth_interns.precedes hy).nameText htext,
    fun y hy other hother => ?_, ?_⟩
  · exact (hcompared hy hn.along hother htext).1 rfl
  · intro text' number' n' x' hn' hnumber' hnames' m' hm'
    obtain ⟨htext', -, hshown'⟩ := hn'.named
    obtain rfl := Marshaller.name_eq_of_crossings hm' (hn'.fits hnumber' hnames') hshown'
    exact hcompared hn.along hn'.along htext htext'

namespace Sample

/-- Interns two texts, one after the other. -/
def naming : Program Unit :=
  .ask (.intern "Spawn" 3) fun _ => .ask (.intern "Idle" 0) fun _ => .done none

/-- A bridge with a name in cell 0, foreign memory in cell 1 and another name in cell 2. -/
def carrier : World Unit :=
  let w := world [] []
  { w with state.memory :=
    ⟨⟨[(0, .plain (HostName.octets ⟨0, 0, 3⟩)), (1, .plain (List.replicate 8 .zero)),
      (2, .plain (HostName.octets ⟨5, 5, 5⟩))]⟩, 3⟩ }

end Sample

/-- `names_keep_texts` for a name that is copied to foreign memory and back, with a text interned
meanwhile. -/
theorem names_keep_texts_of_naming :
    ∃ (x y : Spot Unit) (u v : World Unit),
      Obtains (Sample.world [] []) [(0, Sample.naming)] "Spawn" 3 ⟨0, 0, 3⟩ x ∧
      Obtains (Sample.world [] []) [(0, Sample.naming)] "Idle" 0 ⟨1, 1, 0⟩ y ∧
      Precedes (Sample.world [] []) [(0, Sample.naming)] x y ∧
      Marshaller.name.copy (.ofKind "Name" .name) (.ofCell 0) (.ofCell 1) .hostToForeign (callAt 0)
        Sample.carrier = .ok () u ∧
      Marshaller.name.copy (.ofKind "Name" .name) (.ofCell 2) (.ofCell 1) .foreignToHost (callAt 0)
        u = .ok () v ∧
      y.world.state.host.names.Nodup ∧
      (v.state.nameAt (.ofCell 2)).number = 3 ∧
      y.world.state.host.nameText (v.state.nameAt (.ofCell 2)) = some "Spawn" ∧
      (v.state.nameAt (.ofCell 2)).comparison ≠ 1 := by
  have hbegins : Along (Sample.world [] []) [(0, Sample.naming)] ⟨0, [], Sample.naming, _⟩ :=
    .begins .start (List.prefix_refl _)
  have hspawn : Obtains (Sample.world [] []) [(0, Sample.naming)] "Spawn" 3 ⟨0, 0, 3⟩ _ :=
    .mk hbegins rfl
  have hidle : Obtains (Sample.world [] []) [(0, Sample.naming)] "Idle" 0 ⟨1, 1, 0⟩ _ :=
    .mk hspawn.along rfl
  have hlater : Precedes (Sample.world [] []) [(0, Sample.naming)] _ _ :=
    .leads hspawn.along (.single (.answered (r := .intern "Idle" 0) rfl))
  have hstores : Sample.carrier.state.Stores (.ofCell 0) ⟨0, 0, 3⟩ := rfl
  have hforeign : Sample.carrier.state.Writable (.ofCell 1) := ⟨_, rfl⟩
  have hhost : Sample.carrier.state.Writable (.ofCell 2) := ⟨_, rfl⟩
  obtain ⟨u, v, hout, hback, hcrosses⟩ := Marshaller.crosses_of_copies (.ofKind "Name" .name)
    (callAt 0) hstores hforeign hhost
  obtain ⟨hnodup, -, -, hnames⟩ := names_keep_texts (Sample.connect_world [] [])
  obtain ⟨hnumber, -, htext, -, hcompared⟩ := hnames "Spawn" 3 _ _ hspawn (by decide) (by decide) _
    (.single hcrosses)
  have hdiffer := hcompared "Idle" 0 _ _ hidle (by decide) (by decide) _ .refl
  exact ⟨_, _, u, v, hspawn, hidle, hlater, hout, hback, hnodup _ hidle.along, hnumber,
    htext _ hlater, fun heq => absurd (hdiffer.1 heq) (by decide)⟩

end TwinHeap
