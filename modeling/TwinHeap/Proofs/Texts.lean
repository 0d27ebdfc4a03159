import TwinHeap.Text.Blank
import TwinHeap.Text.Split

/-!
# Texts — blanks at the ends, and separators

Trimming a text leaves the part between its blanks that neither starts nor ends with one
(`trim_eq_iff`), and loses no other character. A text has one cut at its first separator, one at its
last and one list of pieces between all of them, and a separator that is no blank can be looked for
before the blanks are dropped or afterwards.
-/

namespace TwinHeap.Text

/-- Nothing but blanks. -/
def Blanks (t : List Char) : Prop := ∀ c ∈ t, isBlank c = true

instance (t : List Char) : Decidable (Blanks t) :=
  decidable_of_iff (t.all isBlank = true) List.all_eq_true

/-- Whether the first character is a blank. -/
def startsBlank (t : List Char) : Bool := t.head?.any isBlank

/-- Whether the last character is a blank. -/
def endsBlank (t : List Char) : Bool := t.getLast?.any isBlank

/-- A type that is read as it is written. -/
def IsToken (t : List Char) : Prop := t ≠ [] ∧ ∀ c ∈ t, isBlank c = false ∧ c ≠ ','

instance (t : List Char) : Decidable (IsToken t) :=
  decidable_of_iff (t ≠ [] ∧ (t.all fun c => !isBlank c && c != ',') = true)
    (by simp [IsToken, List.all_eq_true])

variable {c : Char} {a b s t u : List Char}

theorem Blanks.append (ha : Blanks a) (hb : Blanks b) : Blanks (a ++ b) := fun c hc =>
  (List.mem_append.1 hc).elim (ha c) (hb c)

/-! ## The ends of a text -/

theorem endsBlank_eq (t : List Char) : endsBlank t = startsBlank t.reverse := by
  unfold endsBlank startsBlank
  rw [List.head?_reverse]

theorem startsBlank_append (ha : a ≠ []) : startsBlank (a ++ b) = startsBlank a := by
  obtain ⟨c, cs, rfl⟩ := List.exists_cons_of_ne_nil ha
  rfl

theorem endsBlank_append (hb : b ≠ []) : endsBlank (a ++ b) = endsBlank b := by
  rw [endsBlank_eq, endsBlank_eq, List.reverse_append]
  exact startsBlank_append fun h => hb (List.reverse_eq_nil_iff.1 h)

theorem startsBlank_of_notBlank (h : ∀ c ∈ t, isBlank c = false) : startsBlank t = false := by
  cases t with
  | nil => rfl
  | cons c cs => exact h c List.mem_cons_self

theorem endsBlank_of_notBlank (h : ∀ c ∈ t, isBlank c = false) : endsBlank t = false := by
  rw [endsBlank_eq]
  exact startsBlank_of_notBlank fun c hc => h c (List.mem_reverse.1 hc)

/-! ## Trimming at one end -/

theorem trimEnd_eq (t : List Char) : trimEnd t = (trimStart t.reverse).reverse := rfl

theorem trimStart_of_startsBlank (h : startsBlank t = false) : trimStart t = t := by
  cases t with
  | nil => rfl
  | cons c cs =>
    have hc : isBlank c = false := h
    unfold trimStart
    rw [List.dropWhile_cons, hc]
    rfl

theorem trimEnd_of_endsBlank (h : endsBlank t = false) : trimEnd t = t := by
  rw [trimEnd_eq, trimStart_of_startsBlank (endsBlank_eq t ▸ h), List.reverse_reverse]

theorem trimStart_append (ha : Blanks a) (t : List Char) : trimStart (a ++ t) = trimStart t :=
  List.dropWhile_append_of_pos ha

theorem trimEnd_append (t : List Char) (hb : Blanks b) : trimEnd (t ++ b) = trimEnd t := by
  rw [trimEnd_eq, List.reverse_append,
    trimStart_append (fun c hc => hb c (List.mem_reverse.1 hc)), ← trimEnd_eq]

theorem startsBlank_trimStart (t : List Char) : startsBlank (trimStart t) = false := by
  have h := List.head?_dropWhile_not isBlank t
  unfold startsBlank trimStart
  cases hhead : (t.dropWhile isBlank).head? with
  | none => rfl
  | some c =>
    rw [hhead] at h
    exact h

theorem endsBlank_trimEnd (t : List Char) : endsBlank (trimEnd t) = false := by
  rw [endsBlank_eq, trimEnd_eq, List.reverse_reverse]
  exact startsBlank_trimStart _

theorem exists_trimStart (t : List Char) : ∃ a, Blanks a ∧ t = a ++ trimStart t :=
  ⟨t.takeWhile isBlank, fun c hc => List.all_eq_true.1 List.all_takeWhile c hc,
    List.takeWhile_append_dropWhile.symm⟩

theorem exists_trimEnd (t : List Char) : ∃ b, Blanks b ∧ t = trimEnd t ++ b := by
  obtain ⟨a, ha, ht⟩ := exists_trimStart t.reverse
  refine ⟨a.reverse, fun c hc => ha c (List.mem_reverse.1 hc), ?_⟩
  rw [trimEnd_eq, ← List.reverse_append, ← ht, List.reverse_reverse]

/-- Blanks in front are dropped up to the first character that is none. -/
theorem trimStart_append_cons (hc : isBlank c = false) :
    trimStart (a ++ c :: s) = trimStart a ++ c :: s := by
  obtain ⟨b, hb, ha⟩ := exists_trimStart a
  have hstart : startsBlank (trimStart a ++ c :: s) = false := by
    by_cases hnil : trimStart a = []
    · rw [hnil]
      exact hc
    · rw [startsBlank_append hnil, startsBlank_trimStart]
  rw [ha, List.append_assoc, trimStart_append hb, trimStart_append hb,
    trimStart_of_startsBlank hstart, trimStart_of_startsBlank (startsBlank_trimStart a)]

/-- Blanks at the end are dropped behind the last character that is none. -/
theorem trimEnd_append_cons (hc : isBlank c = false) :
    trimEnd (a ++ c :: s) = a ++ c :: trimEnd s := by
  rw [trimEnd_eq, List.reverse_append, List.reverse_cons, List.append_assoc, List.singleton_append,
    trimStart_append_cons hc, trimEnd_eq]
  simp

/-! ## Trimming at both ends -/

theorem endsBlank_trim (t : List Char) : endsBlank (trim t) = false := endsBlank_trimEnd _

theorem startsBlank_trim (t : List Char) : startsBlank (trim t) = false := by
  obtain ⟨b, -, hb⟩ := exists_trimEnd (trimStart t)
  unfold trim
  by_cases hnil : trimEnd (trimStart t) = []
  · rw [hnil]
    rfl
  · rw [← startsBlank_append (b := b) hnil, ← hb, startsBlank_trimStart]

/-- What is left is the part between blanks that neither starts nor ends with one. -/
theorem trim_eq_iff : trim t = u ↔ startsBlank u = false ∧ endsBlank u = false ∧
    ∃ a b, Blanks a ∧ Blanks b ∧ t = a ++ (u ++ b) := by
  constructor
  · rintro rfl
    obtain ⟨a, ha, hstart⟩ := exists_trimStart t
    obtain ⟨b, hb, hend⟩ := exists_trimEnd (trimStart t)
    refine ⟨startsBlank_trim t, endsBlank_trim t, a, b, ha, hb, ?_⟩
    unfold trim
    rw [← hend, ← hstart]
  · rintro ⟨hstart, hend, a, b, ha, hb, rfl⟩
    unfold trim
    rw [trimStart_append ha]
    by_cases hnil : u = []
    · subst hnil
      rw [List.nil_append, ← List.append_nil b, trimStart_append hb]
      rfl
    · rw [trimStart_of_startsBlank ((startsBlank_append hnil).trans hstart), trimEnd_append _ hb,
        trimEnd_of_endsBlank hend]

theorem trim_eq_self_iff : trim t = t ↔ startsBlank t = false ∧ endsBlank t = false := by
  refine ⟨fun h => ⟨h ▸ startsBlank_trim t, h ▸ endsBlank_trim t⟩, fun h => ?_⟩
  exact trim_eq_iff.2 ⟨h.1, h.2, [], [], nofun, nofun, by simp⟩

/-- Blanks around a text do not matter. -/
theorem trim_append (ha : Blanks a) (hb : Blanks b) : trim (a ++ (t ++ b)) = trim t := by
  obtain ⟨hstart, hend, a', b', ha', hb', ht⟩ := trim_eq_iff.1 (rfl : trim t = trim t)
  refine trim_eq_iff.2 ⟨hstart, hend, a ++ a', b' ++ b, ha.append ha', hb'.append hb, ?_⟩
  calc a ++ (t ++ b) = a ++ (a' ++ (trim t ++ b') ++ b) := by rw [← ht]
    _ = a ++ a' ++ (trim t ++ (b' ++ b)) := by simp only [List.append_assoc]

theorem trim_trimStart (t : List Char) : trim (trimStart t) = trim t := by
  unfold trim
  rw [trimStart_of_startsBlank (startsBlank_trimStart t)]

theorem trim_of_notBlank (h : ∀ c ∈ t, isBlank c = false) : trim t = t :=
  trim_eq_self_iff.2 ⟨startsBlank_of_notBlank h, endsBlank_of_notBlank h⟩

/-- Around a character that is no blank, each end is trimmed by itself. -/
theorem trim_append_cons (hc : isBlank c = false) :
    trim (a ++ c :: s) = trimStart a ++ c :: trimEnd s := by
  unfold trim
  rw [trimStart_append_cons hc, trimEnd_append_cons hc]

/-- Behind a dot, only the end of a name is trimmed. -/
theorem trim_dotted (h : ∀ c ∈ a, isBlank c = false) :
    trim (a ++ '.' :: b) = a ++ '.' :: trimEnd b := by
  rw [trim_append_cons (by decide), trimStart_of_startsBlank (startsBlank_of_notBlank h)]

theorem mem_of_mem_trim (h : c ∈ trim t) : c ∈ t := by
  obtain ⟨-, -, a, b, -, -, ht⟩ := trim_eq_iff.1 (rfl : trim t = trim t)
  rw [ht]
  exact List.mem_append_right _ (List.mem_append_left _ h)

/-- Trimming loses nothing but blanks. -/
theorem mem_trim (hc : isBlank c = false) (h : c ∈ t) : c ∈ trim t := by
  obtain ⟨-, -, a, b, ha, hb, ht⟩ := trim_eq_iff.1 (rfl : trim t = trim t)
  have hblank {x : List Char} (hx : Blanks x) : c ∉ x := fun hm => by
    rw [hx c hm] at hc
    cases hc
  rw [ht, List.mem_append, List.mem_append] at h
  exact (h.resolve_left (hblank ha)).resolve_right (hblank hb)

/-! ## Separators -/

/-- There is one way to cut a text at its first separator. -/
theorem cutFirst_eq_some_iff : cutFirst c t = some (a, b) ↔ t = a ++ c :: b ∧ c ∉ a :=
  ⟨eq_append_of_cutFirst, by rintro ⟨rfl, h⟩; exact cutFirst_append h⟩

theorem cutLast_append (h : c ∉ b) : cutLast c (a ++ c :: b) = some (a, b) := by
  induction a with
  | nil =>
    rw [List.nil_append]
    unfold cutLast
    rw [cutLast_eq_none_iff.2 h]
    exact if_pos rfl
  | cons x rest ih =>
    rw [List.cons_append]
    unfold cutLast
    rw [ih]

/-- Whether a text ends with a character can be asked before the blanks behind it are dropped. -/
theorem dropFinal_trimEnd_eq_some_iff (hc : isBlank c = false) :
    dropFinal c (trimEnd t) = some a ↔ ∃ b, Blanks b ∧ t = a ++ c :: b := by
  -- The character comes off just if the text is what is left with the character behind it.
  have hdrop {t : List Char} : dropFinal c t = some a ↔ t = a ++ [c] := by
    unfold dropFinal
    constructor
    · intro h
      split at h
      case h_2 => cases h
      rename_i x hx
      obtain ⟨rest, rfl⟩ := List.getLast?_eq_some_iff.1 hx
      split at h
      case isFalse => cases h
      rename_i hxc
      rw [List.dropLast_concat] at h
      rw [Option.some.inj h, hxc]
    · rintro rfl
      rw [List.getLast?_concat, List.dropLast_concat]
      exact if_pos rfl
  rw [hdrop]
  constructor
  · intro h
    obtain ⟨b, hb, ht⟩ := exists_trimEnd t
    exact ⟨b, hb, by rw [ht, h, List.append_assoc]; rfl⟩
  · rintro ⟨b, hb, rfl⟩
    have hnil : trimEnd b = [] := trimEnd_append [] hb
    rw [trimEnd_append_cons hc, hnil]

theorem pieces_eq_splitOn (c : Char) (t : List Char) : pieces c t = t.splitOn c := by
  induction t with
  | nil => rfl
  | cons x rest ih =>
    obtain ⟨p, ps, hp⟩ := List.exists_cons_of_ne_nil (pieces_ne_nil c rest)
    rw [ih] at hp
    unfold List.splitOn at hp ⊢
    rw [List.splitOnP_cons_eq_if_modifyHead]
    unfold pieces
    rw [ih]
    unfold List.splitOn
    rw [hp]
    by_cases hx : x = c
    · rw [if_pos hx, if_pos (beq_iff_eq.2 hx)]
    · rw [if_neg hx, if_neg (by rwa [beq_iff_eq])]
      rfl

/-- No piece has the separator in it. -/
theorem notMem_of_mem_pieces {p : List Char} (h : p ∈ pieces c t) : c ∉ p := by
  induction t generalizing p with
  | nil =>
    rw [List.mem_singleton.1 h]
    exact List.not_mem_nil
  | cons x rest ih =>
    obtain ⟨q, qs, hq⟩ := List.exists_cons_of_ne_nil (pieces_ne_nil c rest)
    unfold pieces at h
    rw [hq] at h ih
    dsimp only at h
    by_cases hx : x = c
    · rw [if_pos hx] at h
      obtain rfl | h := List.mem_cons.1 h
      · exact List.not_mem_nil
      · exact ih h
    · rw [if_neg hx] at h
      obtain rfl | h := List.mem_cons.1 h
      · rw [List.mem_cons, not_or]
        exact ⟨Ne.symm hx, ih List.mem_cons_self⟩
      · exact ih (List.mem_cons_of_mem _ h)

/-- Blanks can be dropped from a list as a whole or from each of its pieces. -/
theorem pieces_squeeze (hc : isBlank c = false) (t : List Char) :
    pieces c (squeeze t) = (pieces c t).map squeeze := by
  induction t with
  | nil => rfl
  | cons x rest ih =>
    obtain ⟨p, ps, hp⟩ := List.exists_cons_of_ne_nil (pieces_ne_nil c rest)
    rw [hp, List.map_cons] at ih
    cases hx : isBlank x with
    | true =>
      -- A blank is not the separator, so it lies inside of a piece.
      have hne : x ≠ c := by
        rintro rfl
        rw [hc] at hx
        cases hx
      have hsqueeze (s : List Char) : squeeze (x :: s) = squeeze s :=
        List.filter_cons_of_neg (by simp [hx])
      rw [hsqueeze, ih, pieces, if_neg hne, hp]
      exact congrArg (· :: _) (hsqueeze p).symm
    | false =>
      have hsqueeze (s : List Char) : squeeze (x :: s) = x :: squeeze s :=
        List.filter_cons_of_pos (by simp [hx])
      rw [hsqueeze, pieces, pieces, hp, ih]
      by_cases hxc : x = c
      · rw [if_pos hxc, if_pos hxc]
        rfl
      · rw [if_neg hxc, if_neg hxc]
        exact congrArg (· :: _) (hsqueeze p).symm

end TwinHeap.Text
