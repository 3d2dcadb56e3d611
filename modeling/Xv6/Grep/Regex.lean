import Mathlib.Computability.Language
import Xv6.Grep

/-!
# The language of a pattern

A pattern is read as a caret or none, some items, and a dollar or none.  An item is a character or a
dot, with a star or without one, and stands for a set of strings.  `matchText` finds out whether the
text has a part in the language of the items in the right place.
-/

namespace Xv6.Grep

open Computability

/-! ## Patterns -/

/-- A character of a pattern, or a dot, which stands for any character; with or without a star. -/
inductive Item
  | one (c : UInt8)
  | many (c : UInt8)

/-- A pattern as it is read. -/
structure Pattern where
  anchored : Bool
  items : List Item
  toEnd : Bool

/-- The items and whether a dollar follows them.  A character has a star if the next one is a star;
a dollar is a character like others unless it is the last one. -/
def readItems : List UInt8 → List Item × Bool
  | [] => ([], false)
  | [c] => if c = dollar then ([], true) else ([.one c], false)
  | c :: d :: re =>
      if d = star then (.many c :: (readItems re).1, (readItems re).2)
      else (.one c :: (readItems (d :: re)).1, (readItems (d :: re)).2)

/-- What a pattern is read as. -/
def Pattern.read (re : List UInt8) : Pattern :=
  if re.head? = some caret then ⟨true, (readItems re.tail).1, (readItems re.tail).2⟩
  else ⟨false, (readItems re).1, (readItems re).2⟩

/-- What an item is written as. -/
def Item.text : Item → List UInt8
  | .one c => [c]
  | .many c => [c, star]

/-- What a pattern is written as. -/
def Pattern.text (p : Pattern) : List UInt8 :=
  (if p.anchored then [caret] else []) ++ p.items.flatMap Item.text ++ if p.toEnd then
    [dollar] else []

lemma text_readItems (re : List UInt8) :
    (readItems re).1.flatMap Item.text ++ (if (readItems re).2 then [dollar] else []) = re := by
  induction re using readItems.induct with
  | case1 => rfl
  | case2 => rfl
  | case3 c hc =>
      rw [readItems, if_neg hc]
      rfl
  | case4 c re ih =>
      rw [readItems, if_pos rfl, List.flatMap_cons, List.append_assoc, ih]
      rfl
  | case5 c d re hd ih =>
      rw [readItems, if_neg hd, List.flatMap_cons, List.append_assoc, ih]
      rfl

/-- Reading loses nothing. -/
lemma Pattern.text_read (re : List UInt8) : (Pattern.read re).text = re := by
  rw [Pattern.read]
  split
  · rename_i hcaret
    rw [Pattern.text, if_pos rfl, List.append_assoc, text_readItems]
    exact List.cons_head?_tail hcaret
  · exact text_readItems re

/-! ## Languages -/

/-- The character `c` of a pattern stands for the byte `b`. -/
def Stands (c b : UInt8) : Prop := c = dot ∨ c = b

/-- The strings of one byte that a character stands for. -/
def letters (c : UInt8) : Language UInt8 := {w | ∃ b, Stands c b ∧ w = [b]}

/-- The strings that an item stands for. -/
def Item.language : Item → Language UInt8
  | .one c => letters c
  | .many c => (letters c)∗

/-- The strings that some items stand for, one after the other. -/
def language (items : List Item) : Language UInt8 := (items.map Item.language).prod

lemma mem_letters {c : UInt8} {w : List UInt8} : w ∈ letters c ↔ ∃ b, Stands c b ∧ w = [b] :=
  Iff.rfl

lemma mem_kstar_letters {c : UInt8} {w : List UInt8} : w ∈ (letters c)∗ ↔ ∀ b ∈ w, Stands c b := by
  rw [Language.mem_kstar]
  constructor
  · rintro ⟨L, rfl, hL⟩ b hb
    obtain ⟨l, hl, hbl⟩ := List.mem_flatten.1 hb
    obtain ⟨b', hstands, rfl⟩ := mem_letters.1 (hL l hl)
    rwa [List.mem_singleton.1 hbl]
  · intro h
    refine ⟨w.map fun b => [b], ?_, fun y hy => ?_⟩
    · rw [← List.flatMap_def, List.flatMap_singleton']
    · obtain ⟨b, hb, rfl⟩ := List.mem_map.1 hy
      exact ⟨b, h b hb, rfl⟩

lemma mem_language_nil {w : List UInt8} : w ∈ language [] ↔ w = [] := Iff.rfl

lemma mem_language_cons {item : Item} {items : List Item} {w : List UInt8} :
    w ∈ language (item :: items) ↔ ∃ u ∈ item.language, ∃ v ∈ language items, u ++ v = w := by
  rw [language, List.map_cons, List.prod_cons, Language.mem_mul, language]

/-! ## Matching -/

lemma stands_iff {c b : UInt8} : (c == dot || c == b) = true ↔ Stands c b := by
  rw [Stands, Bool.or_eq_true, beq_iff_eq, beq_iff_eq]

/-- `matchstar` takes bytes that `c` stands for, as many as it needs. -/
lemma matchstar_iff {c : UInt8} {here : List UInt8 → Bool} {text : List UInt8} :
    matchstar c here text = true ↔ ∃ u rest, text = u ++ rest ∧ (∀ b ∈ u, Stands c b) ∧
    here rest = true := by
  induction text with
  | nil =>
      rw [matchstar]
      constructor
      · exact fun h => ⟨[], [], rfl, by simp, h⟩
      · rintro ⟨u, rest, heq, -, h⟩
        rwa [(List.append_eq_nil_iff.1 heq.symm).2] at h
  | cons b text ih =>
      have hstands : (b == c || c == dot) = true ↔ Stands c b := by
        rw [Bool.or_eq_true, beq_iff_eq, beq_iff_eq, Stands, or_comm, eq_comm (a := b)]
      rw [matchstar, Bool.or_eq_true, Bool.and_eq_true, hstands, ih]
      constructor
      · rintro (h | ⟨hb, u, rest, rfl, hu, h⟩)
        · exact ⟨[], b :: text, rfl, by simp, h⟩
        · exact ⟨b :: u, rest, rfl, List.forall_mem_cons.2 ⟨hb, hu⟩, h⟩
      · rintro ⟨u, rest, heq, hu, h⟩
        cases u with
        | nil =>
            rw [List.nil_append] at heq
            exact .inl (heq ▸ h)
        | cons b' u =>
            obtain ⟨rfl, rfl⟩ := List.cons.inj heq
            exact .inr ⟨hu b List.mem_cons_self, u, rest, rfl, fun x hx =>
              hu x (List.mem_cons_of_mem b hx), h⟩

/-- The text begins with a string of the language, and ends with it if there is a dollar. -/
def Begins (items : List Item) (toEnd : Bool) (text : List UInt8) : Prop :=
  ∃ w after, text = w ++ after ∧ w ∈ language items ∧ (toEnd = true → after = [])

/-- An item without a star takes one byte. -/
lemma begins_one {c : UInt8} {items : List Item} {toEnd : Bool} {text : List UInt8} :
    Begins (.one c :: items) toEnd text ↔ ∃ b rest, text = b :: rest ∧ Stands c b ∧
    Begins items toEnd rest := by
  constructor
  · rintro ⟨w, after, rfl, hw, hend⟩
    obtain ⟨u, ⟨b, hb, rfl⟩, v, hv, rfl⟩ := mem_language_cons.1 hw
    exact ⟨b, v ++ after, rfl, hb, v, after, rfl, hv, hend⟩
  · rintro ⟨b, rest, rfl, hb, v, after, rfl, hv, hend⟩
    exact ⟨b :: v, after, rfl, mem_language_cons.2 ⟨[b], ⟨b, hb, rfl⟩, v, hv, rfl⟩, hend⟩

/-- An item with a star takes any number of bytes. -/
lemma begins_many {c : UInt8} {items : List Item} {toEnd : Bool} {text : List UInt8} :
    Begins (.many c :: items) toEnd text ↔
      ∃ u rest, text = u ++ rest ∧ (∀ b ∈ u, Stands c b) ∧ Begins items toEnd rest := by
  constructor
  · rintro ⟨w, after, rfl, hw, hend⟩
    obtain ⟨u, hu, v, hv, rfl⟩ := mem_language_cons.1 hw
    exact ⟨u, v ++ after, List.append_assoc .., mem_kstar_letters.1 hu, v, after, rfl, hv, hend⟩
  · rintro ⟨u, rest, rfl, hu, v, after, rfl, hv, hend⟩
    exact ⟨u ++ v, after, (List.append_assoc ..).symm, mem_language_cons.2
      ⟨u, mem_kstar_letters.2 hu, v, hv, rfl⟩, hend⟩

lemma matchhere_singleton {c : UInt8} {text : List UInt8} : matchhere [c] text =
    if c = dollar then text.isEmpty else match text with
      | [] => false
      | b :: _ => c == dot || c == b := by
  rewrite [matchhere.eq_def]
  rfl

lemma matchhere_star {c : UInt8} {re text : List UInt8} :
    matchhere (c :: star :: re) text = matchstar c (matchhere re) text := by
  rw [matchhere.eq_def]
  exact if_pos rfl

lemma matchhere_cons {c d b : UInt8} {re text : List UInt8} (hd : d ≠ star) :
    matchhere (c :: d :: re) (b :: text) = ((c == dot || c == b) && matchhere (d :: re) text) := by
  rw [matchhere.eq_def]
  exact if_neg hd

lemma matchhere_cons_nil {c d : UInt8} {re : List UInt8} (hd : d ≠ star) : matchhere (c :: d :: re)
    [] = false := by
  rw [matchhere.eq_def]
  exact if_neg hd

/-- `matchhere` looks at the beginning of the text. -/
lemma matchhere_iff (re text : List UInt8) :
    matchhere re text = true ↔ Begins (readItems re).1 (readItems re).2 text := by
  induction re using readItems.induct generalizing text with
  | case1 => exact ⟨fun _ => ⟨[], text, rfl, rfl, by simp [readItems]⟩, fun _ => rfl⟩
  | case2 =>
      -- the dollar at the end
      rw [readItems, if_pos rfl, matchhere_singleton, if_pos rfl, List.isEmpty_iff]
      constructor
      · rintro rfl
        exact ⟨[], [], rfl, rfl, fun _ => rfl⟩
      · rintro ⟨w, after, rfl, hw, hend⟩
        rw [mem_language_nil.1 hw, hend rfl]
        rfl
  | case3 c hc =>
      rw [readItems, if_neg hc, matchhere_singleton, if_neg hc, begins_one]
      cases text with
      | nil => simp
      | cons b text =>
          rw [stands_iff]
          constructor
          · exact fun hb => ⟨b, text, rfl, hb, [], text, rfl, rfl, by simp⟩
          · rintro ⟨b', rest, heq, hb, -⟩
            rwa [(List.cons.inj heq).1]
  | case4 c re ih =>
      rw [readItems, if_pos rfl, matchhere_star, matchstar_iff, begins_many]
      simp only [ih]
  | case5 c d re hd ih =>
      rw [readItems, if_neg hd, begins_one]
      cases text with
      | nil => simp [matchhere_cons_nil hd]
      | cons b text =>
          rw [matchhere_cons hd, Bool.and_eq_true, stands_iff, ih]
          constructor
          · exact fun ⟨hb, h⟩ => ⟨b, text, rfl, hb, h⟩
          · rintro ⟨b', rest, heq, hb, h⟩
            obtain ⟨rfl, rfl⟩ := List.cons.inj heq
            exact ⟨hb, h⟩

/-- The loop of `match` looks at every suffix of the text. -/
lemma matchany_iff (re text : List UInt8) :
    matchany re text = true ↔ ∃ before rest, text = before ++ rest ∧ matchhere re rest = true := by
  induction text with
  | nil =>
      rw [matchany]
      constructor
      · exact fun h => ⟨[], [], rfl, h⟩
      · rintro ⟨before, rest, heq, h⟩
        rwa [(List.append_eq_nil_iff.1 heq.symm).2] at h
  | cons b text ih =>
      rw [matchany, Bool.or_eq_true, ih]
      constructor
      · rintro (h | ⟨before, rest, rfl, h⟩)
        · exact ⟨[], b :: text, rfl, h⟩
        · exact ⟨b :: before, rest, rfl, h⟩
      · rintro ⟨before, rest, heq, h⟩
        cases before with
        | nil =>
            rw [List.nil_append] at heq
            exact .inl (heq ▸ h)
        | cons b' before =>
            obtain ⟨rfl, rfl⟩ := List.cons.inj heq
            exact .inr ⟨before, rest, rfl, h⟩

/-- `match` returns 1 just if a part of the text belongs to the language of the items: one at the
start of the text if the pattern begins with a caret, and one at its end if it ends with a
dollar. -/
theorem matchText_iff (re text : List UInt8) :
    matchText re text = true ↔
      ∃ before w after, text = before ++ w ++ after ∧ w ∈ language (Pattern.read re).items ∧
        ((Pattern.read re).anchored = true → before = []) ∧ ((Pattern.read re).toEnd = true →
          after = []) := by
  rw [matchText, Pattern.read]
  split
  · rw [matchhere_iff]
    constructor
    · exact fun ⟨w, after, heq, hw, hend⟩ => ⟨[], w, after, heq, hw, fun _ => rfl, hend⟩
    · rintro ⟨before, w, after, heq, hw, hstart, hend⟩
      rw [hstart rfl] at heq
      exact ⟨w, after, heq, hw, hend⟩
  · rw [matchany_iff]
    constructor
    · rintro ⟨before, rest, rfl, h⟩
      obtain ⟨w, after, rfl, hw, hend⟩ := (matchhere_iff re rest).1 h
      exact ⟨before, w, after, (List.append_assoc ..).symm, hw, by simp, hend⟩
    · rintro ⟨before, w, after, rfl, hw, -, hend⟩
      exact ⟨before, w ++ after, List.append_assoc .., (matchhere_iff re _).2
        ⟨w, after, rfl, hw, hend⟩⟩

end Xv6.Grep
