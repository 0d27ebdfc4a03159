import TwinHeap.Proofs.Texts
import TwinHeap.Signature

/-!
# Grammar — what a method key is

`Signature.Spells` is the grammar of method keys, said on characters: a class part before the first colon,
a method behind it, and a list of types if a parenthesis is opened. The keys that can be read are those of
the grammar, any other text is refused for the first thing that is wrong with it, and blanks around and
inside of the parts make no difference (`key_grammar`).

A key in its plain layout is read as what it was written from, unless a part of it has a character that
another part begins or ends with, or blanks that reading drops (`printed_key_read`).
-/

namespace TwinHeap

namespace Signature

open Text

/-! ## The grammar -/

/-- A class part: a class, or a namespace, a dot and a class, with blanks around it. -/
def SpellsClass (text space cls : List Char) : Prop :=
  cls ≠ [] ∧ '.' ∉ cls ∧ (trim text = cls ∧ space = [] ∨ trim text = space ++ '.' :: cls)

/-- The types that a list consists of: what stands between its commas when its blanks are left out. -/
def listed (inner : List Char) : List String :=
  (((squeeze inner).splitOn ',').filter fun t => !t.isEmpty).map String.ofList

/-- A method with blanks around it, and its list of types, if there is one. -/
inductive SpellsMethod : List Char → List Char → Option (List String) → Prop
  | bare {text : List Char} (hopen : '(' ∉ text) : SpellsMethod text (trim text) none
  | listing {name inner rest : List Char} (hopen : '(' ∉ name) (hrest : Blanks rest) :
      SpellsMethod (name ++ '(' :: (inner ++ ')' :: rest)) (trim name) (some (listed inner))

/-- The text is a key with these parts. -/
inductive Spells (key : String) (s : Signature) : Prop
  | intro {before after : List Char} (hkey : key.toList = before ++ ':' :: after)
      (hcolon : ':' ∉ before) (hclass : SpellsClass before s.nameSpace.toList s.className.toList)
      (hmethod : SpellsMethod after s.method.toList s.params) (hne : s.method.toList ≠ [])

/-- The class part has no class: nothing is in it, or nothing behind its last dot. -/
def Classless (before : List Char) : Prop := trim before = [] ∨ (trim before).getLast? = some '.'

/-- A list is opened, and the text does not close it at its end. -/
def Unclosed (after : List Char) : Prop :=
  ∃ name list, after = name ++ '(' :: list ∧ '(' ∉ name ∧
    ¬∃ inner rest, Blanks rest ∧ list = inner ++ ')' :: rest

/-- There is no method in front of the list, or none at all. -/
def Nameless (after : List Char) : Prop := Blanks (after.takeWhile fun c => c ≠ '(')

/-- What is wrong with a text that is no key: of several things the one that comes first here. -/
inductive Refuses (key : String) : SignatureError → Prop
  | noSeparator (hcolon : ':' ∉ key.toList) : Refuses key (.missingClassSeparator key)
  | noClass {before after : List Char} (hkey : key.toList = before ++ ':' :: after)
      (hcolon : ':' ∉ before) (hclass : Classless before) : Refuses key (.emptyClassName key)
  | unclosed {before after : List Char} (hkey : key.toList = before ++ ':' :: after)
      (hcolon : ':' ∉ before) (hclass : ¬Classless before) (hopen : Unclosed after) :
      Refuses key (.unterminatedParameters key)
  | noMethod {before after : List Char} (hkey : key.toList = before ++ ':' :: after)
      (hcolon : ':' ∉ before) (hclass : ¬Classless before) (hopen : ¬Unclosed after)
      (hname : Nameless after) : Refuses key (.emptyMethodName key)

/-- The texts differ in blanks at their ends only. -/
def SameCore (t t' : List Char) : Prop :=
  ∃ u a b a' b', (Blanks a ∧ Blanks b ∧ t = a ++ (u ++ b)) ∧
    (Blanks a' ∧ Blanks b' ∧ t' = a' ++ (u ++ b'))

/-- The texts differ in blanks only, which stand around the class part, around the method, in the list
and behind it. -/
inductive Relaid : List Char → List Char → Prop
  | bare {before before' after after' : List Char} (hcolon : ':' ∉ before) (hopen : '(' ∉ after)
      (hbefore : SameCore before before') (hafter : SameCore after after') :
      Relaid (before ++ ':' :: after) (before' ++ ':' :: after')
  | listing {before before' name name' inner inner' rest rest' : List Char} (hcolon : ':' ∉ before)
      (hopen : '(' ∉ name) (hbefore : SameCore before before') (hname : SameCore name name')
      (hinner : squeeze inner = squeeze inner') (hrest : Blanks rest) (hrest' : Blanks rest') :
      Relaid (before ++ ':' :: (name ++ '(' :: (inner ++ ')' :: rest)))
        (before' ++ ':' :: (name' ++ '(' :: (inner' ++ ')' :: rest')))

/-! ## Reading a class part -/

theorem splitClass_plain {t : List Char} (h : '.' ∉ t) : splitClass t = ([], t) := by
  unfold splitClass
  rw [cutLast_eq_none_iff.2 h]
  rfl

theorem splitClass_dotted {a b : List Char} (h : '.' ∉ b) : splitClass (a ++ '.' :: b) = (a, b) := by
  unfold splitClass
  rw [cutLast_append h]
  rfl

/-- A name is its class, or its namespace and its class with a dot between them. -/
theorem splitClass_cases (t : List Char) :
    '.' ∉ t ∧ splitClass t = ([], t) ∨
      ∃ a b, t = a ++ '.' :: b ∧ '.' ∉ b ∧ splitClass t = (a, b) := by
  cases hcut : cutLast '.' t with
  | none =>
    have hdot := cutLast_eq_none_iff.1 hcut
    exact .inl ⟨hdot, splitClass_plain hdot⟩
  | some parts =>
    obtain ⟨a, b⟩ := parts
    obtain ⟨rfl, hb⟩ := eq_append_of_cutLast hcut
    exact .inr ⟨a, b, rfl, hb, splitClass_dotted hb⟩

theorem mem_of_mem_splitClass {c : Char} {full : List Char}
    (h : c ∈ (splitClass full).1 ∨ c ∈ (splitClass full).2) : c ∈ full := by
  obtain ⟨-, hsplit⟩ | ⟨a, b, rfl, -, hsplit⟩ := splitClass_cases full
  · rw [hsplit] at h
    exact h.resolve_left List.not_mem_nil
  · rw [hsplit] at h
    rw [List.mem_append, List.mem_cons]
    exact h.imp_right .inr

theorem mem_splitClass {c : Char} {t : List Char} (hc : c ≠ '.') (h : c ∈ t) :
    c ∈ (splitClass t).1 ∨ c ∈ (splitClass t).2 := by
  obtain ⟨-, hsplit⟩ | ⟨a, b, rfl, -, hsplit⟩ := splitClass_cases t
  · rw [hsplit]
    exact .inr h
  · rw [hsplit]
    rw [List.mem_append, List.mem_cons] at h
    exact h.imp_right fun h => h.resolve_left hc

theorem spellsClass_iff {text space cls : List Char} :
    SpellsClass text space cls ↔ splitClass (trim text) = (space, cls) ∧ cls ≠ [] := by
  constructor
  · rintro ⟨hne, hdot, ⟨htrim, rfl⟩ | htrim⟩
    · rw [htrim]
      exact ⟨splitClass_plain hdot, hne⟩
    · rw [htrim]
      exact ⟨splitClass_dotted hdot, hne⟩
  · rintro ⟨hsplit, hne⟩
    obtain ⟨hdot, hplain⟩ | ⟨a, b, htrim, hdot, hdotted⟩ := splitClass_cases (trim text)
    · rw [hplain] at hsplit
      obtain ⟨rfl, rfl⟩ := Prod.mk.inj hsplit
      exact ⟨hne, hdot, .inl ⟨rfl, rfl⟩⟩
    · rw [hdotted] at hsplit
      obtain ⟨rfl, rfl⟩ := Prod.mk.inj hsplit
      exact ⟨hne, hdot, .inr htrim⟩

theorem classless_iff {before : List Char} : Classless before ↔ (splitClass (trim before)).2 = [] := by
  unfold Classless
  obtain ⟨hdot, hsplit⟩ | ⟨a, b, htrim, hdot, hsplit⟩ := splitClass_cases (trim before)
  · rw [hsplit]
    exact ⟨fun h => h.resolve_right fun hlast => hdot (List.mem_of_getLast? hlast), .inl⟩
  · rw [hsplit, htrim]
    cases b with
    | nil => exact ⟨fun _ => rfl, fun _ => .inr List.getLast?_concat⟩
    | cons x xs =>
      have hlast : (a ++ '.' :: x :: xs).getLast? = (x :: xs).getLast? := by
        rw [List.getLast?_append, List.getLast?_cons_cons, List.getLast?_cons]
        rfl
      refine ⟨?_, nofun⟩
      rintro (h | h)
      · simp at h
      · exact absurd (List.mem_of_getLast? (hlast ▸ h)) hdot

/-! ## Reading a method -/

/-- Blanks in a list make no difference. -/
theorem tokens_eq_listed (inner : List Char) : tokens inner = listed inner := by
  unfold tokens listed
  rw [← pieces_eq_splitOn, pieces_squeeze (by decide)]

theorem parseMethod_bare (key : String) {text : List Char} (hopen : '(' ∉ text) :
    parseMethod key text = .ok (trim text, none) := by
  unfold parseMethod
  dsimp only
  rw [cutFirst_eq_none_iff.2 fun hm => hopen (mem_of_mem_trim hm)]

theorem parseMethod_listing (key : String) {name list : List Char} (hopen : '(' ∉ name) :
    parseMethod key (name ++ '(' :: list) =
      match dropFinal ')' (trimEnd list) with
      | none => .error (.unterminatedParameters key)
      | some inner => .ok (trim name, some (tokens inner)) := by
  have hnot : '(' ∉ trimStart name := fun hm => hopen ((List.dropWhile_sublist _).subset hm)
  unfold parseMethod
  rw [trim_append_cons (by decide)]
  dsimp only
  rw [cutFirst_append hnot]
  dsimp only
  rw [trimEnd_of_endsBlank (endsBlank_trimEnd list)]
  cases dropFinal ')' (trimEnd list) <;> simp only [trim_trimStart]

theorem SpellsMethod.parse {after name : List Char} {params : Option (List String)}
    (h : SpellsMethod after name params) (key : String) :
    parseMethod key after = .ok (name, params) := by
  cases h with
  | bare hopen => exact parseMethod_bare key hopen
  | @listing name inner rest hopen hrest =>
    have hdrop := (dropFinal_trimEnd_eq_some_iff (by decide)).2
      ⟨rest, hrest, (rfl : inner ++ ')' :: rest = _)⟩
    rw [parseMethod_listing key hopen, hdrop]
    dsimp only
    rw [tokens_eq_listed]

theorem Unclosed.parse {after : List Char} (h : Unclosed after) (key : String) :
    parseMethod key after = .error (.unterminatedParameters key) := by
  obtain ⟨name, list, rfl, hname, hclosed⟩ := h
  rw [parseMethod_listing key hname]
  cases hdrop : dropFinal ')' (trimEnd list) with
  | none => rfl
  | some inner => exact absurd ⟨inner, (dropFinal_trimEnd_eq_some_iff (by decide)).1 hdrop⟩ hclosed

/-- What follows the class is a method, or opens a list that is not closed. -/
theorem spellsMethod_or_unclosed (after : List Char) :
    (∃ name params, SpellsMethod after name params) ∨ Unclosed after := by
  cases hcut : cutFirst '(' after with
  | none => exact .inl ⟨_, _, .bare (cutFirst_eq_none_iff.1 hcut)⟩
  | some parts =>
    obtain ⟨name, list⟩ := parts
    obtain ⟨rfl, hname⟩ := cutFirst_eq_some_iff.1 hcut
    by_cases hclosed : ∃ inner rest, Blanks rest ∧ list = inner ++ ')' :: rest
    · obtain ⟨inner, rest, hrest, rfl⟩ := hclosed
      exact .inl ⟨_, _, .listing hname hrest⟩
    · exact .inr ⟨name, list, rfl, hname, hclosed⟩

theorem SpellsMethod.eq_nil_iff {after name : List Char} {params : Option (List String)}
    (h : SpellsMethod after name params) : name = [] ↔ Nameless after := by
  have htrim {t : List Char} : trim t = [] ↔ Blanks t := by
    refine trim_eq_iff.trans ⟨?_, fun ht => ⟨rfl, rfl, t, [], ht, nofun, by simp⟩⟩
    rintro ⟨-, -, a, b, ha, hb, rfl⟩
    exact ha.append hb
  have hfront {t : List Char} (rest : List Char) (hopen : '(' ∉ t) :
      (t ++ rest).takeWhile (fun c => c ≠ '(') = t ++ rest.takeWhile fun c => c ≠ '(' :=
    List.takeWhile_append_of_pos fun c hc => by
      rw [decide_eq_true_eq]
      rintro rfl
      exact hopen hc
  unfold Nameless
  cases h with
  | bare hopen =>
    have hall := hfront [] hopen
    rw [List.append_nil, List.takeWhile_nil, List.append_nil] at hall
    rw [hall, htrim]
  | listing hopen hrest =>
    rw [hfront _ hopen, List.takeWhile_cons_of_neg (by simp), List.append_nil, htrim]

/-! ## Reading a key -/

/-- What is read from a text with a class separator. -/
theorem parse_append {key : String} {before after : List Char}
    (hkey : key.toList = before ++ ':' :: after) (hcolon : ':' ∉ before) :
    parse key =
      if (splitClass (trim before)).2 = [] then .error (.emptyClassName key)
      else match parseMethod key after with
        | .error e => .error e
        | .ok (method, params) =>
          if method = [] then .error (.emptyMethodName key)
          else .ok ⟨String.ofList (splitClass (trim before)).1,
            String.ofList (splitClass (trim before)).2, String.ofList method, params⟩ := by
  unfold parse
  rw [hkey, cutFirst_append hcolon]
  dsimp only
  cases parseMethod key after with
  | error e => simp only [List.isEmpty_iff]
  | ok read =>
    obtain ⟨method, params⟩ := read
    simp only [List.isEmpty_iff]

theorem Spells.parse {key : String} {s : Signature} (h : Spells key s) : parse key = .ok s := by
  obtain ⟨hkey, hcolon, hclass, hmethod, hne⟩ := h
  obtain ⟨hsplit, hcls⟩ := spellsClass_iff.1 hclass
  rw [parse_append hkey hcolon, hsplit, if_neg hcls, hmethod.parse key]
  dsimp only
  rw [if_neg hne, String.ofList_toList, String.ofList_toList, String.ofList_toList]

theorem Refuses.parse {key : String} {e : SignatureError} (h : Refuses key e) :
    parse key = .error e := by
  cases h with
  | noSeparator hcolon =>
    unfold Signature.parse
    rw [cutFirst_eq_none_iff.2 hcolon]
  | noClass hkey hcolon hclass => rw [parse_append hkey hcolon, if_pos (classless_iff.1 hclass)]
  | unclosed hkey hcolon hclass hopen =>
    rw [parse_append hkey hcolon, if_neg (mt classless_iff.2 hclass), hopen.parse key]
  | @noMethod before after hkey hcolon hclass hopen hname =>
    obtain ⟨name, params, hspells⟩ := (spellsMethod_or_unclosed after).resolve_right hopen
    rw [parse_append hkey hcolon, if_neg (mt classless_iff.2 hclass), hspells.parse key]
    exact if_pos (hspells.eq_nil_iff.2 hname)

/-- Each text is a key, or something is wrong with it. -/
theorem spells_or_refuses (key : String) : (∃ s, Spells key s) ∨ ∃ e, Refuses key e := by
  cases hcut : cutFirst ':' key.toList with
  | none => exact .inr ⟨_, .noSeparator (cutFirst_eq_none_iff.1 hcut)⟩
  | some parts =>
    obtain ⟨before, after⟩ := parts
    obtain ⟨hkey, hcolon⟩ := cutFirst_eq_some_iff.1 hcut
    by_cases hclass : Classless before
    · exact .inr ⟨_, .noClass hkey hcolon hclass⟩
    by_cases hopen : Unclosed after
    · exact .inr ⟨_, .unclosed hkey hcolon hclass hopen⟩
    obtain ⟨name, params, hspells⟩ := (spellsMethod_or_unclosed after).resolve_right hopen
    by_cases hname : name = []
    · exact .inr ⟨_, .noMethod hkey hcolon hclass hopen (hspells.eq_nil_iff.1 hname)⟩
    · refine .inl ⟨⟨String.ofList (splitClass (trim before)).1,
        String.ofList (splitClass (trim before)).2, String.ofList name, params⟩,
        .intro hkey hcolon ?_ ?_ ?_⟩
      · rw [String.toList_ofList, String.toList_ofList]
        exact spellsClass_iff.2 ⟨rfl, mt classless_iff.2 hclass⟩
      · rwa [String.toList_ofList]
      · rwa [String.toList_ofList]

theorem parse_eq_ok_iff {key : String} {s : Signature} : parse key = .ok s ↔ Spells key s := by
  refine ⟨fun h => ?_, Spells.parse⟩
  obtain ⟨s', hs⟩ | ⟨e, he⟩ := spells_or_refuses key
  · rw [hs.parse] at h
    cases h
    exact hs
  · rw [he.parse] at h
    cases h

theorem parse_eq_error_iff {key : String} {e : SignatureError} :
    parse key = .error e ↔ Refuses key e := by
  refine ⟨fun h => ?_, Refuses.parse⟩
  obtain ⟨s, hs⟩ | ⟨e', he⟩ := spells_or_refuses key
  · rw [hs.parse] at h
    cases h
  · rw [he.parse] at h
    cases h
    exact he

/-! ## Blanks in other places -/

theorem SameCore.trim_eq {t t' : List Char} (h : SameCore t t') : trim t = trim t' := by
  obtain ⟨u, a, b, a', b', ⟨ha, hb, rfl⟩, ha', hb', rfl⟩ := h
  rw [trim_append ha hb, trim_append ha' hb']

theorem SameCore.notMem {c : Char} {t t' : List Char} (h : SameCore t t') (hc : isBlank c = false)
    (hm : c ∉ t) : c ∉ t' :=
  fun hm' => hm (mem_of_mem_trim (h.trim_eq ▸ mem_trim hc hm'))

/-- Texts with the same parts are cut into class parts and methods that are read alike. -/
theorem Relaid.parts {t t' : List Char} (h : Relaid t t') :
    ∃ before before' after after' method params, t = before ++ ':' :: after ∧ ':' ∉ before ∧
      t' = before' ++ ':' :: after' ∧ ':' ∉ before' ∧ trim before = trim before' ∧
      SpellsMethod after method params ∧ SpellsMethod after' method params := by
  cases h with
  | bare hcolon hopen hbefore hafter =>
    refine ⟨_, _, _, _, _, _, rfl, hcolon, rfl, hbefore.notMem (by decide) hcolon, hbefore.trim_eq,
      .bare hopen, ?_⟩
    rw [hafter.trim_eq]
    exact .bare (hafter.notMem (by decide) hopen)
  | @listing _ _ _ _ inner inner' _ _ hcolon hopen hbefore hname hinner hrest hrest' =>
    have hlisted : listed inner = listed inner' := by
      unfold listed
      rw [hinner]
    refine ⟨_, _, _, _, _, _, rfl, hcolon, rfl, hbefore.notMem (by decide) hcolon, hbefore.trim_eq,
      .listing hopen hrest, ?_⟩
    rw [hname.trim_eq, hlisted]
    exact .listing (hname.notMem (by decide) hopen) hrest'

theorem Relaid.parse_eq_ok_iff {key key' : String} (h : Relaid key.toList key'.toList)
    (s : Signature) : Signature.parse key = .ok s ↔ Signature.parse key' = .ok s := by
  obtain ⟨before, before', after, after', method, params, hkey, hcolon, hkey', hcolon', htrim, hmethod,
    hmethod'⟩ := h.parts
  rw [parse_append hkey hcolon, parse_append hkey' hcolon', htrim, hmethod.parse key,
    hmethod'.parse key']
  by_cases hclass : (splitClass (trim before')).2 = []
  · rw [if_pos hclass, if_pos hclass]
    exact ⟨nofun, nofun⟩
  · rw [if_neg hclass, if_neg hclass]
    dsimp only
    by_cases hname : method = []
    · rw [if_pos hname, if_pos hname]
      exact ⟨nofun, nofun⟩
    · rw [if_neg hname, if_neg hname]

/-- The keys that can be read are those of the grammar, with the parts that it gives them. Any other text
is refused, with the whole of it, for the first thing that is wrong. Blanks around the class part, around
the method, in the list and behind it can be added and left out without a change to what is read. -/
theorem key_grammar :
    (∀ key s, parse key = .ok s ↔ Spells key s) ∧
    (∀ key e, parse key = .error e ↔ Refuses key e) ∧
    ∀ key key' : String, Relaid key.toList key'.toList →
      ∀ s, parse key = .ok s ↔ parse key' = .ok s :=
  ⟨fun _ _ => parse_eq_ok_iff, fun _ _ => parse_eq_error_iff, fun _ _ h => h.parse_eq_ok_iff⟩

/-- `key_grammar` for a key with blanks in every place where they do not matter. -/
theorem key_grammar_of_spaced :
    Relaid "A.B:M (int,float)".toList " A.B\t: M(i nt, float )\n".toList ∧
      parse "A.B:M (int,float)" = .ok ⟨"A", "B", "M", some ["int", "float"]⟩ ∧
      parse " A.B\t: M(i nt, float )\n" = .ok ⟨"A", "B", "M", some ["int", "float"]⟩ := by
  have hclass : SameCore "A.B".toList " A.B\t".toList :=
    ⟨"A.B".toList, [], [], [' '], ['\t'], by decide, by decide⟩
  have hmethod : SameCore "M ".toList " M".toList :=
    ⟨['M'], [], [' '], [' '], [], by decide, by decide⟩
  have hspaced : Relaid
      ("A.B".toList ++ ':' :: ("M ".toList ++ '(' :: ("int,float".toList ++ [')'])))
      (" A.B\t".toList ++ ':' :: (" M".toList ++ '(' :: ("i nt, float ".toList ++ [')', '\n']))) :=
    .listing (by decide) (by decide) hclass hmethod (by decide) (by decide) (by decide)
  have hrelaid : Relaid "A.B:M (int,float)".toList " A.B\t: M(i nt, float )\n".toList :=
    hspaced
  have hplain : parse "A.B:M (int,float)" = .ok ⟨"A", "B", "M", some ["int", "float"]⟩ := rfl
  exact ⟨hrelaid, hplain, (key_grammar.2.2 _ _ hrelaid _).1 hplain⟩

/-! ## Printing and reading -/

/-- No type that is read from a list has a blank or a comma in it. -/
theorem isToken_of_mem_tokens {inner : List Char} {t : String} (h : t ∈ tokens inner) :
    IsToken t.toList := by
  obtain ⟨u, hu, rfl⟩ := List.mem_map.1 h
  obtain ⟨hu, hne⟩ := List.mem_filter.1 hu
  obtain ⟨p, hp, rfl⟩ := List.mem_map.1 hu
  rw [String.toList_ofList]
  refine ⟨fun hnil => ?_, fun c hc => ⟨isBlank_eq_false_of_mem_squeeze hc, ?_⟩⟩
  · rw [hnil] at hne
    cases hne
  · rintro rfl
    exact notMem_of_mem_pieces hp (List.mem_filter.1 hc).1

/-- A list of types is read as it is written just if each type is. -/
theorem tokens_intercalate_iff {ts : List String} :
    tokens ([','].intercalate (ts.map String.toList)) = ts ↔ ∀ t ∈ ts, IsToken t.toList := by
  constructor
  · exact fun h t ht => isToken_of_mem_tokens (h ▸ ht)
  · intro h
    by_cases hne : ts = []
    · rw [hne]
      rfl
    · -- A token has neither commas nor blanks, so the text falls apart just where it was put together.
      have hpieces : pieces ',' ([','].intercalate (ts.map String.toList)) =
          ts.map String.toList := by
        rw [pieces_eq_splitOn]
        refine List.splitOn_intercalate _ (fun p hp => ?_) (by simpa using hne)
        obtain ⟨t, ht, rfl⟩ := List.mem_map.1 hp
        exact fun hm => ((h t ht).2 _ hm).2 rfl
      have hsqueeze : (ts.map String.toList).map squeeze = ts.map String.toList := by
        rw [List.map_map]
        refine List.map_congr_left fun t ht => ?_
        refine List.filter_eq_self.2 fun c hc => ?_
        rw [((h t ht).2 c hc).1]
        rfl
      have hfilter : (ts.map String.toList).filter (fun t => !t.isEmpty) = ts.map String.toList := by
        refine List.filter_eq_self.2 fun p hp => ?_
        obtain ⟨t, ht, rfl⟩ := List.mem_map.1 hp
        rw [List.isEmpty_eq_false_iff.2 (h t ht).1]
        rfl
      unfold tokens
      rw [hpieces, hsqueeze, hfilter, List.map_map]
      exact List.map_id'' (fun t => String.ofList_toList) ts

/-- The parts of a key keep apart: none has a character that ends it too early, and none has blanks at an
end at which they are dropped, if there is a namespace. -/
structure Tidy (s : Signature) : Prop where
  class_ne : s.className.toList ≠ []
  class_dot : '.' ∉ s.className.toList
  class_colon : ':' ∉ s.className.toList
  class_end : endsBlank s.className.toList = false
  space_colon : ':' ∉ s.nameSpace.toList
  space_start : startsBlank s.nameSpace.toList = false
  method_ne : s.method.toList ≠ []
  method_open : '(' ∉ s.method.toList
  method_start : startsBlank s.method.toList = false
  method_end : endsBlank s.method.toList = false
  tokens : ∀ ps, s.params = some ps → ∀ p ∈ ps, IsToken p.toList

/-- The parts keep apart, and without a namespace the class has no blanks in front either. -/
structure Printable (s : Signature) : Prop extends Tidy s where
  class_start : s.nameSpace = "" → startsBlank s.className.toList = false

variable {key : String} {s : Signature}

theorem SpellsClass.ends {text space cls : List Char} (h : SpellsClass text space cls) :
    startsBlank space = false ∧ endsBlank cls = false := by
  obtain ⟨hne, -, ⟨htrim, rfl⟩ | htrim⟩ := h
  · exact ⟨rfl, htrim ▸ endsBlank_trim text⟩
  · have hstart := startsBlank_trim text
    have hend := endsBlank_trim text
    rw [htrim] at hstart hend
    refine ⟨?_, ?_⟩
    · by_cases hspace : space = []
      · rw [hspace]
        rfl
      · rwa [startsBlank_append hspace] at hstart
    · rwa [← List.singleton_append, ← List.append_assoc, endsBlank_append hne] at hend

theorem SpellsClass.subset {text space cls : List Char} (h : SpellsClass text space cls) {c : Char}
    (hc : c ∈ space ∨ c ∈ cls) : c ∈ text := by
  obtain ⟨hsplit, -⟩ := spellsClass_iff.1 h
  exact mem_of_mem_trim (mem_of_mem_splitClass (by rwa [hsplit]))

theorem SpellsMethod.tidy {after name : List Char} {params : Option (List String)}
    (h : SpellsMethod after name params) : '(' ∉ name ∧ startsBlank name = false ∧
      endsBlank name = false ∧ ∀ ps, params = some ps → ∀ p ∈ ps, IsToken p.toList := by
  cases h with
  | bare hopen =>
    exact ⟨fun hm => hopen (mem_of_mem_trim hm), startsBlank_trim _, endsBlank_trim _, nofun⟩
  | listing hopen hrest =>
    refine ⟨fun hm => hopen (mem_of_mem_trim hm), startsBlank_trim _, endsBlank_trim _, ?_⟩
    rintro ps ⟨⟩ p hp
    exact isToken_of_mem_tokens (tokens_eq_listed _ ▸ hp)

/-- The parts that a key is read as keep apart. -/
theorem Spells.tidy (h : Spells key s) : s.Tidy := by
  obtain ⟨hkey, hcolon, hclass, hmethod, hne⟩ := h
  obtain ⟨hstart, hend⟩ := hclass.ends
  obtain ⟨hopen, hmstart, hmend, htokens⟩ := hmethod.tidy
  exact ⟨hclass.1, hclass.2.1, fun hm => hcolon (hclass.subset (.inr hm)), hend,
    fun hm => hcolon (hclass.subset (.inl hm)), hstart, hne, hopen, hmstart, hmend, htokens⟩

/-- What is printed behind a method. -/
def printedList : Option (List String) → List Char
  | none => []
  | some ps => ' ' :: '(' :: ([','].intercalate (ps.map String.toList) ++ [')'])

theorem toList_fullClassName (s : Signature) : s.fullClassName.toList =
    if s.nameSpace = "" then s.className.toList
    else s.nameSpace.toList ++ '.' :: s.className.toList := by
  unfold fullClassName
  simp only [String.isEmpty_iff]
  split
  · rfl
  · simp [toString]

theorem toList_render (s : Signature) : s.render.toList =
    s.fullClassName.toList ++ ':' :: (s.method.toList ++ printedList s.params) := by
  obtain ⟨n, c, m, _ | ps⟩ := s <;> simp [render, printedList, toString]

theorem Tidy.colon_notMem (h : s.Tidy) : ':' ∉ s.fullClassName.toList := by
  rw [toList_fullClassName]
  split
  · exact h.class_colon
  · rw [List.mem_append, List.mem_cons]
    rintro (hm | heq | hm)
    · exact h.space_colon hm
    · cases heq
    · exact h.class_colon hm

/-- A class that is printed is read as it was, unless blanks in front of it are dropped. -/
theorem Tidy.spellsClass_iff (h : s.Tidy) :
    SpellsClass s.fullClassName.toList s.nameSpace.toList s.className.toList ↔
      (s.nameSpace = "" → startsBlank s.className.toList = false) := by
  rw [toList_fullClassName]
  by_cases hspace : s.nameSpace = ""
  · rw [if_pos hspace, hspace]
    constructor
    · rintro ⟨-, hdot, ⟨htrim, -⟩ | htrim⟩ -
      · exact (trim_eq_self_iff.1 htrim).1
      · refine absurd (mem_of_mem_trim (?_ : '.' ∈ trim s.className.toList)) hdot
        rw [htrim]
        exact List.mem_append_right _ List.mem_cons_self
    · exact fun hstart =>
        ⟨h.class_ne, h.class_dot, .inl ⟨trim_eq_self_iff.2 ⟨hstart rfl, h.class_end⟩, rfl⟩⟩
  · rw [if_neg hspace]
    refine ⟨fun _ he => absurd he hspace, fun _ => ⟨h.class_ne, h.class_dot, .inr ?_⟩⟩
    have hne : s.nameSpace.toList ≠ [] := fun hnil => hspace (String.toList_eq_nil_iff.1 hnil)
    refine trim_eq_self_iff.2 ⟨(startsBlank_append hne).trans h.space_start, ?_⟩
    rw [← List.singleton_append, ← List.append_assoc, endsBlank_append h.class_ne, h.class_end]

/-- A list that a blank sets off from the method, and with which the text ends. -/
theorem spellsMethod_spaced {name : List Char} (hopen : '(' ∉ name) (inner : List Char) :
    SpellsMethod (name ++ ' ' :: '(' :: (inner ++ [')'])) (trim name) (some (listed inner)) := by
  have hspaced : '(' ∉ name ++ [' '] := by
    rw [List.mem_append, not_or]
    exact ⟨hopen, by decide⟩
  have hlisting : SpellsMethod (name ++ [' '] ++ '(' :: (inner ++ [')'])) (trim (name ++ [' ']))
      (some (listed inner)) := .listing hspaced nofun
  have htrim : trim (name ++ [' ']) = trim name :=
    trim_append (a := []) nofun (b := [' ']) (by decide)
  rwa [htrim, List.append_assoc] at hlisting

/-- A method that is printed is read as it was. -/
theorem Tidy.spellsMethod (h : s.Tidy) :
    SpellsMethod (s.method.toList ++ printedList s.params) s.method.toList s.params := by
  have htrim : trim s.method.toList = s.method.toList :=
    trim_eq_self_iff.2 ⟨h.method_start, h.method_end⟩
  cases hparams : s.params with
  | none =>
    have hbare := SpellsMethod.bare h.method_open
    rw [htrim] at hbare
    rwa [printedList, List.append_nil]
  | some ps =>
    have hlisted : listed ([','].intercalate (ps.map String.toList)) = ps := by
      rw [← tokens_eq_listed]
      exact tokens_intercalate_iff.2 (h.tokens ps hparams)
    have hspaced := spellsMethod_spaced h.method_open ([','].intercalate (ps.map String.toList))
    rwa [htrim, hlisted] at hspaced

theorem Tidy.spells_render_iff (h : s.Tidy) : Spells s.render s ↔
    (s.nameSpace = "" → startsBlank s.className.toList = false) := by
  rw [← h.spellsClass_iff]
  refine ⟨?_, fun hclass => .intro (toList_render s) h.colon_notMem hclass h.spellsMethod h.method_ne⟩
  rintro ⟨hkey, hcolon, hclass, -, -⟩
  -- The printed key has its first colon behind the class.
  have hcut := cutFirst_append (b := s.method.toList ++ printedList s.params) h.colon_notMem
  rw [← toList_render, hkey, cutFirst_append hcolon] at hcut
  cases hcut
  exact hclass

/-- A key that is printed is read as it was just if its parts keep apart and no blanks in front of the
class are dropped. Where the key itself was read from a text, only the latter can go wrong. -/
theorem printed_key_read :
    (∀ s : Signature, parse s.render = .ok s ↔ s.Printable) ∧
    ∀ key s, parse key = .ok s → (parse s.render = .ok s ↔
      ¬(s.nameSpace = "" ∧ startsBlank s.className.toList = true)) := by
  have hblank (s : Signature) : (s.nameSpace = "" → startsBlank s.className.toList = false) ↔
      ¬(s.nameSpace = "" ∧ startsBlank s.className.toList = true) := by
    rw [not_and, Bool.not_eq_true]
  refine ⟨fun s => parse_eq_ok_iff.trans ⟨fun h => ?_, fun h => ?_⟩, fun key s h => ?_⟩
  · exact ⟨h.tidy, h.tidy.spells_render_iff.1 h⟩
  · exact h.toTidy.spells_render_iff.2 h.class_start
  · have htidy := (parse_eq_ok_iff.1 h).tidy
    rw [parse_eq_ok_iff, htidy.spells_render_iff, hblank]

/-- `printed_key_read` for a key that was read, and whose class begins with a blank. -/
theorem printed_key_read_of_dotted : parse ". B:M" = .ok ⟨"", " B", "M", none⟩ ∧
    parse (render ⟨"", " B", "M", none⟩) ≠ .ok ⟨"", " B", "M", none⟩ := by
  have hread : parse ". B:M" = .ok ⟨"", " B", "M", none⟩ := rfl
  exact ⟨hread, fun h => (printed_key_read.2 _ _ hread).1 h ⟨rfl, by decide⟩⟩

end Signature

end TwinHeap
