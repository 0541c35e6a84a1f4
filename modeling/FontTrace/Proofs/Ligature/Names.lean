import FontTrace.Replay.Ligature

/-!
# FontTrace.Proofs.Ligature.Names

The names that are made for ligatures out of the names of glyphs, which may be
any texts.  Two pairs of glyphs may share a lookup or a subtable, but never so
that the rules of one could be taken for those of the other:

* `LookupFamily.eq_of_name_eq` — a name tells the family of a lookup, and what it is made of;
* `PairContext.text_ne` — pairs that share a subtable have different contexts.
-/

namespace FontTrace

/-! ## lookups -/

/-- The families of lookups that ligatures are put into. -/
inductive LookupFamily where
  | plain | after | before | between | context
deriving DecidableEq, Repr

namespace LookupFamily

/-- What the names of a family start with. -/
def stem : LookupFamily → String
  | plain => "gsub_ligature_"
  | after => "gsub_single_after_"
  | before => "gsub_single_before_"
  | between => "gsub_multiple_between_"
  | context => "gsub_contextchain"

/-- The kind of the lookups of a family. -/
def kind : LookupFamily → LookupKind
  | plain => .gsubLigature
  | after | before => .gsubSingle
  | between => .gsubMultiple
  | context => .gsubContextChain

/-- The feature of a lookup; substitutions in context have none. -/
def feature (suffix : String) : LookupFamily → Option String
  | plain => some suffix
  | context => some "calt"
  | _ => none

/-- The lookup of a family with the given end of its name. -/
def spec (family : LookupFamily) (suffix : String) : LookupSpec where
  name := family.stem ++ suffix
  kind := family.kind
  feature := family.feature suffix

theorem eq_of_prefix_stem {family family' : LookupFamily}
    (h : family.stem.toList <+: family'.stem.toList) : family = family' := by
  revert h
  cases family <;> cases family' <;> decide

/-- A name tells the family of a lookup, and what it is made of. -/
theorem eq_of_name_eq {family family' : LookupFamily} {suffix suffix' : String}
    (h : (family.spec suffix).name = (family'.spec suffix').name) :
    family = family' ∧ suffix = suffix' := by
  have hlist := congrArg String.toList h
  simp only [spec, String.toList_append] at hlist
  have hprefix : family.stem.toList <+: family'.stem.toList ++ suffix'.toList :=
    hlist ▸ List.prefix_append _ _
  have hfamily : family = family' := by
    rcases List.prefix_or_prefix_of_prefix hprefix (List.prefix_append _ _) with h | h
    · exact eq_of_prefix_stem h
    · exact (eq_of_prefix_stem h).symm
  subst hfamily
  exact ⟨rfl, (String.append_right_inj _).mp h⟩

end LookupFamily

/-! ## pairs of names with a separator -/

/-- Two ways of reading a text as two parts around a separator: unless they are
the same, one of the first parts goes on with the separator behind the other one. -/
theorem splits_of_append_eq {sep : Char} {f f' s s' : List Char}
    (h : f ++ sep :: s = f' ++ sep :: s') :
    (f = f' ∧ s = s') ∨ (∃ x, f' = f ++ sep :: x) ∨ ∃ x, f = f' ++ sep :: x := by
  rcases List.append_eq_append_iff.mp h with ⟨x, hf, hs⟩ | ⟨x, hf, hs⟩
  · cases x with
    | nil => exact .inl ⟨(hf.trans (List.append_nil f)).symm, (List.cons.inj hs).2⟩
    | cons c x => exact .inr (.inl ⟨x, by rw [hf, (List.cons.inj hs).1]⟩)
  · cases x with
    | nil => exact .inl ⟨hf.trans (List.append_nil f'), (List.cons.inj hs).2.symm⟩
    | cons c x => exact .inr (.inr ⟨x, by rw [hf, (List.cons.inj hs).1]⟩)

/-- First parts without the separator are the same. -/
theorem eq_of_append_eq {sep : Char} {f f' s s' : List Char} (hf : sep ∉ f) (hf' : sep ∉ f')
    (h : f ++ sep :: s = f' ++ sep :: s') : f = f' ∧ s = s' := by
  rcases splits_of_append_eq h with hsame | ⟨x, hx⟩ | ⟨x, hx⟩
  · exact hsame
  · exact absurd (hx ▸ List.mem_append_right _ List.mem_cons_self) hf'
  · exact absurd (hx ▸ List.mem_append_right _ List.mem_cons_self) hf

/-- A text that stands in another one two characters further on. -/
theorem eq_cons_cons_of_shifted {x y : Char} {f a b : List Char}
    (h : f ++ a = x :: y :: (f ++ b)) :
    ∃ c d, a = c :: d :: b ∧ (c = x ∨ c = y) := by
  induction f generalizing x y with
  | nil => exact ⟨x, y, h, .inl rfl⟩
  | cons c f ih =>
      obtain ⟨rfl, hrest⟩ := List.cons.inj h
      obtain ⟨d, d', ha, hd⟩ := ih hrest
      exact ⟨d, d', ha, hd.symm⟩

/-! ## contexts -/

/-- A pair of glyphs in the context of which a lookup changes one of them. -/
@[ext]
structure PairContext where
  first : String
  second : String
  marksFirst : Bool
  lookup : String
deriving DecidableEq, Repr

namespace PairContext

/-- The context as a rule. -/
def text (k : PairContext) : String :=
  if k.marksFirst then s!"| {k.first} @<{k.lookup}> | {k.second}"
  else s!"{k.first} | {k.second} @<{k.lookup}> |"

/-- The glyph that is changed. -/
def marked (k : PairContext) : String := if k.marksFirst then k.first else k.second

theorem toList_text_of_first {k : PairContext} (h : k.marksFirst = true) :
    k.text.toList = '|' :: ' ' :: (k.first.toList ++ ' ' :: '@' :: '<' ::
      (k.lookup.toList ++ '>' :: ' ' :: '|' :: ' ' :: k.second.toList)) := by
  have htext : k.text = "| " ++ k.first ++ " @<" ++ k.lookup ++ "> | " ++ k.second := by
    rw [text, h]
    rfl
  rw [htext]
  simp

theorem toList_text_of_second {k : PairContext} (h : k.marksFirst = false) :
    k.text.toList = k.first.toList ++ ' ' :: '|' :: ' ' ::
      (k.second.toList ++ ' ' :: '@' :: '<' :: (k.lookup.toList ++ ['>', ' ', '|'])) := by
  have htext : k.text = k.first ++ " | " ++ k.second ++ " @<" ++ k.lookup ++ "> |" := by
    rw [text, h]
    rfl
  rw [htext]
  simp

/-- Where the first glyph of one pair goes on with `_` behind that of another
one, its context has `_` where the other one has a blank. -/
theorem text_ne_of_first {k k' : PairContext} {x : List Char}
    (h : k'.first.toList = k.first.toList ++ '_' :: x) : k.text ≠ k'.text := by
  intro htext
  have hlist := congrArg String.toList htext
  cases hk : k.marksFirst with
  | false =>
      rw [toList_text_of_second hk] at hlist
      cases hk' : k'.marksFirst with
      | false =>
          rw [toList_text_of_second hk', h, List.append_assoc, List.append_cancel_left_eq] at hlist
          exact absurd (List.cons.inj hlist).1 (by decide)
      | true =>
          rw [toList_text_of_first hk', h, List.append_assoc] at hlist
          obtain ⟨c, d, heq, -⟩ := eq_cons_cons_of_shifted hlist
          have hthird := (List.cons.inj (List.cons.inj (List.cons.inj heq).2).2).1
          exact absurd hthird (by decide)
  | true =>
      rw [toList_text_of_first hk] at hlist
      cases hk' : k'.marksFirst with
      | false =>
          rw [toList_text_of_second hk', h, List.append_assoc] at hlist
          obtain ⟨c, d, heq, hc⟩ := eq_cons_cons_of_shifted hlist.symm
          have hhead := (List.cons.inj heq).1
          rw [← hhead] at hc
          exact absurd hc (by decide)
      | true =>
          rw [toList_text_of_first hk', h, List.append_assoc] at hlist
          have hbehind := List.append_cancel_left (List.cons.inj (List.cons.inj hlist).2).2
          exact absurd (List.cons.inj hbehind).1 (by decide)

/-- Pairs that share a subtable have different contexts. -/
theorem text_ne {k k' : PairContext}
    (h : NamedLigature.contextSubtable k.first k.second =
      NamedLigature.contextSubtable k'.first k'.second)
    (hne : ¬(k.first = k'.first ∧ k.second = k'.second)) : k.text ≠ k'.text := by
  have hjoined : k.first.toList ++ '_' :: k.second.toList =
      k'.first.toList ++ '_' :: k'.second.toList := by
    have hlist : "gsub_contextchain_subtable_" ++ k.first ++ "_" ++ k.second =
        "gsub_contextchain_subtable_" ++ k'.first ++ "_" ++ k'.second := h
    simpa using congrArg String.toList hlist
  rcases splits_of_append_eq hjoined with ⟨hf, hs⟩ | ⟨x, hx⟩ | ⟨x, hx⟩
  · exact absurd ⟨String.toList_inj.mp hf, String.toList_inj.mp hs⟩ hne
  · exact text_ne_of_first hx
  · exact (text_ne_of_first hx).symm

/-- Whether none of the names in a context has a blank. -/
def Blankless (k : PairContext) : Prop :=
  ' ' ∉ k.first.toList ∧ ' ' ∉ k.second.toList ∧ ' ' ∉ k.lookup.toList

/-- Without blanks in the names, a text tells which glyph is marked. -/
theorem text_ne_of_sides {k k' : PairContext} (hb : k.Blankless) (hb' : k'.Blankless)
    (hk : k.marksFirst = false) (hk' : k'.marksFirst = true) : k.text ≠ k'.text := by
  intro htext
  have hlist := congrArg String.toList htext
  rw [toList_text_of_second hk, toList_text_of_first hk'] at hlist
  have hbar : ' ' ∉ ['|'] := by decide
  obtain ⟨-, hrest⟩ := eq_of_append_eq hb.1 hbar hlist
  obtain ⟨-, hrest⟩ := eq_of_append_eq hbar hb'.1 hrest
  have hcall : ' ' ∉ '@' :: '<' :: (k'.lookup.toList ++ ['>']) := by
    simp [hb'.2.2]
  have hrest' : k.second.toList ++ ' ' :: '@' :: '<' :: (k.lookup.toList ++ ['>', ' ', '|']) =
      ('@' :: '<' :: (k'.lookup.toList ++ ['>'])) ++ ' ' :: '|' :: ' ' :: k'.second.toList := by
    rw [hrest]
    simp
  obtain ⟨-, hbehind⟩ := eq_of_append_eq hb.2.1 hcall hrest'
  exact absurd (List.cons.inj hbehind).1 (by decide)

/-- Without blanks in the names, a text is that of one context only. -/
theorem eq_of_text_eq {k k' : PairContext} (hb : k.Blankless) (hb' : k'.Blankless)
    (h : k.text = k'.text) : k = k' := by
  have hlist := congrArg String.toList h
  cases hk : k.marksFirst with
  | false =>
      cases hk' : k'.marksFirst with
      | true => exact absurd h (text_ne_of_sides hb hb' hk hk')
      | false =>
          rw [toList_text_of_second hk, toList_text_of_second hk'] at hlist
          obtain ⟨hfirst, hrest⟩ := eq_of_append_eq hb.1 hb'.1 hlist
          have hrest := (List.cons.inj (List.cons.inj hrest).2).2
          obtain ⟨hsecond, hrest⟩ := eq_of_append_eq hb.2.1 hb'.2.1 hrest
          have hlookup := List.append_cancel_right (List.cons.inj (List.cons.inj hrest).2).2
          exact PairContext.ext (String.toList_inj.mp hfirst) (String.toList_inj.mp hsecond)
            (hk.trans hk'.symm) (String.toList_inj.mp hlookup)
  | true =>
      cases hk' : k'.marksFirst with
      | false => exact absurd h.symm (text_ne_of_sides hb' hb hk' hk)
      | true =>
          rw [toList_text_of_first hk, toList_text_of_first hk'] at hlist
          have hlist := (List.cons.inj (List.cons.inj hlist).2).2
          obtain ⟨hfirst, hrest⟩ := eq_of_append_eq hb.1 hb'.1 hlist
          have hrest := (List.cons.inj (List.cons.inj hrest).2).2
          have hclosed : ' ' ∉ k.lookup.toList ++ ['>'] := by simpa using hb.2.2
          have hclosed' : ' ' ∉ k'.lookup.toList ++ ['>'] := by simpa using hb'.2.2
          have hcalls : (k.lookup.toList ++ ['>']) ++ ' ' :: '|' :: ' ' :: k.second.toList =
              (k'.lookup.toList ++ ['>']) ++ ' ' :: '|' :: ' ' :: k'.second.toList := by
            simpa using hrest
          obtain ⟨hlookup, hrest⟩ := eq_of_append_eq hclosed hclosed' hcalls
          have hlookup := List.append_cancel_right hlookup
          have hsecond := (List.cons.inj (List.cons.inj hrest).2).2
          exact PairContext.ext (String.toList_inj.mp hfirst) (String.toList_inj.mp hsecond)
            (hk.trans hk'.symm) (String.toList_inj.mp hlookup)

end PairContext

end FontTrace
