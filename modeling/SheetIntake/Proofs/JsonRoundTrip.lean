import SheetIntake.Proofs.JsonNumbers
import SheetIntake.Proofs.JsonTexts

/-!
# Reading back what was written

A value without repeated member names is read back from its written form, in every layout. A
written value starts with a character that is neither a blank nor a closing bracket, so the blanks
that a layout puts between brackets, separators and items belong to none of them. Positions only
matter for faults: the statements leave them open.

* `read_write` — a value is read back from its text.
-/

namespace SheetIntake

open Assoc (keys put)

namespace Value

mutual

/-- Whether no object in a value has two members of one name. -/
def distinct : Value → Bool
  | .list items => distinctItems items
  | .object members => decide (Assoc.keys members).Nodup && distinctMembers members
  | .null | .bool _ | .int _ | .float _ | .str _ => true

def distinctItems : List Value → Bool
  | [] => true
  | v :: rest => distinct v && distinctItems rest

def distinctMembers : List (String × Value) → Bool
  | [] => true
  | (_, v) :: rest => distinct v && distinctMembers rest

end

theorem distinctItems_iff {items : List Value} : distinctItems items ↔ ∀ v ∈ items, v.distinct := by
  induction items with
  | nil => simp [distinctItems]
  | cons v rest ih => simp [distinctItems, ih]

theorem distinctMembers_iff {members : List (String × Value)} :
    distinctMembers members ↔ ∀ m ∈ members, m.2.distinct := by
  induction members with
  | nil => simp [distinctMembers]
  | cons m rest ih =>
    simp [distinctMembers, ih]

@[elab_as_elim]
theorem treeInduction {P : Value → Prop} (null : P .null) (bool : ∀ b, P (.bool b))
    (int : ∀ n, P (.int n)) (float : ∀ x, P (.float x)) (str : ∀ s, P (.str s))
    (list : ∀ items, (∀ v ∈ items, P v) → P (.list items))
    (object : ∀ members, (∀ m ∈ members, P m.2) → P (.object members)) (v : Value) : P v :=
  @Value.rec P (fun items => ∀ v ∈ items, P v) (fun members => ∀ m ∈ members, P m.2)
    (P ·.2) null bool int float str list object
    (List.forall_mem_nil _)
    (fun _ _ hv hitems => List.forall_mem_cons.mpr ⟨hv, hitems⟩)
    (List.forall_mem_nil _)
    (fun _ _ hm hmembers => List.forall_mem_cons.mpr ⟨hm, hmembers⟩) (fun _ _ hv => hv) v

end Value

theorem Assoc.put_of_not_mem {α β : Type} [DecidableEq α] {key : α} {entries : List (α × β)}
    (h : key ∉ keys entries) (value : β) :
    put key value entries = entries ++ [(key, value)] := by
  induction entries with
  | nil => rfl
  | cons e rest ih =>
    obtain ⟨hne, hrest⟩ := not_or.mp (List.mem_cons.not.mp h)
    rw [put, if_neg (Ne.symm hne), ih hrest]
    rfl

namespace Json

/-! ## Where a value starts and ends -/

/-- What can follow a value: nothing, a blank, a comma or a closing bracket. -/
def ValueEnd (rest : List Char) : Prop :=
  ∀ c ∈ rest.head?, isGap c = true ∨ c = ',' ∨ c = ']' ∨ c = '\x7d'

def Opens (c : Char) : Prop :=
  c.isDigit = true ∨ c ∈ ['n', 't', 'f', 'N', 'I', '-', '"', '[', '\x7b']

theorem isGap_iff {c : Char} : isGap c ↔ c = ' ' ∨ c = '\t' ∨ c = '\n' ∨ c = '\r' := by
  simp [isGap, or_assoc]

theorem ValueEnd.numberEnd {rest : List Char} (h : ValueEnd rest) : NumberEnd rest := by
  intro c hc
  rcases h c hc with hgap | rfl | rfl | rfl
  · rcases isGap_iff.mp hgap with rfl | rfl | rfl | rfl <;> decide
  all_goals decide

theorem ne_of_isDigit {c x : Char} (hc : c.isDigit) (hx : x.isDigit = false) : c ≠ x := by
  rintro rfl
  rw [hx] at hc
  exact Bool.false_ne_true hc

theorem Opens.ne {c : Char} (h : Opens c) :
    isGap c = false ∧ c ≠ ']' ∧ c ≠ '\x7d' ∧ c ≠ '\ufeff' := by
  rcases h with hdigit | hmem
  · have hne : ∀ x : Char, x.isDigit = false → c ≠ x := fun x => ne_of_isDigit hdigit
    refine ⟨?_, hne _ (by decide), hne _ (by decide), hne _ (by decide)⟩
    rw [Bool.eq_false_iff, Ne, isGap_iff]
    simp [hne]
  · simp only [List.mem_cons, List.not_mem_nil, or_false] at hmem
    rcases hmem with rfl | rfl | rfl | rfl | rfl | rfl | rfl | rfl | rfl <;> decide

theorem isGap_head {s : List Char} (hs : ∃ c cs, s = c :: cs ∧ Opens c) (rest : List Char) :
    ∀ c ∈ (s ++ rest).head?, isGap c = false := by
  obtain ⟨c, cs, rfl, hopens⟩ := hs
  rintro x ⟨⟩
  exact hopens.ne.1

theorem skipGaps_append {gaps text : List Char} (position : Nat)
    (hgaps : ∀ c ∈ gaps, isGap c) (htext : ∀ c ∈ text.head?, isGap c = false) :
    ∃ next, (Cursor.mk position (gaps ++ text)).skipGaps = ⟨next, text⟩ := by
  have hdrop : (gaps ++ text).dropWhile isGap = text := by
    rw [List.dropWhile_append_of_pos hgaps]
    cases text with
    | nil => rfl
    | cons c cs => exact List.dropWhile_cons_of_neg (by simp [htext c rfl])
  exact ⟨_, congrArg (Cursor.mk _) hdrop⟩

theorem skipGaps_self {text : List Char} (position : Nat)
    (htext : ∀ c ∈ text.head?, isGap c = false) :
    ∃ next, (Cursor.mk position text).skipGaps = ⟨next, text⟩ :=
  skipGaps_append position (List.forall_mem_nil _) htext

/-! ## Brackets -/

section

variable (layout : Layout) (level : Nat)

theorem isGap_lineBreak : ∀ c ∈ (lineBreak layout level).toList, isGap c := by
  intro c hc
  unfold lineBreak at hc
  split at hc
  · simp at hc
  · rw [String.toList_append, List.mem_append] at hc
    rcases hc with hc | hc
    · rw [List.mem_singleton.mp hc]
      decide
    · rw [String.toList_ofList] at hc
      rw [List.eq_of_mem_replicate hc]
      decide

theorem toList_separator :
    ∃ gaps, (separator layout level).toList = ',' :: gaps ∧ ∀ c ∈ gaps, isGap c := by
  unfold separator
  split
  · exact ⟨[' '], rfl, by simp [isGap]⟩
  · exact ⟨(lineBreak layout level).toList, by rw [String.toList_append]; rfl,
      isGap_lineBreak layout level⟩

/-- What follows the first of several items between brackets: the other ones, each after a
separator, then the closing bracket. -/
def afterFirst (bracket : Char) (rest : List Char) : List String → List Char
  | [] => (lineBreak layout level).toList ++ bracket :: rest
  | s :: texts =>
    (separator layout (level + 1)).toList ++ (s.toList ++ afterFirst bracket rest texts)

theorem toList_bracketed_nil (opening closing : String) :
    (bracketed layout level opening closing []).toList = opening.toList ++ closing.toList := by
  simp [bracketed]

theorem toList_bracketed (opening : String) (bracket : Char) (rest : List Char) (s : String)
    (texts : List String) :
    (bracketed layout level opening (String.singleton bracket) (s :: texts)).toList ++ rest =
      opening.toList ++ ((lineBreak layout (level + 1)).toList ++
        (s.toList ++ afterFirst layout level bracket rest texts)) := by
  unfold bracketed
  suffices hjoined : (String.intercalate (separator layout (level + 1)) (s :: texts)).toList ++
      ((lineBreak layout level).toList ++ bracket :: rest) =
        s.toList ++ afterFirst layout level bracket rest texts by
    simp [← hjoined]
  induction texts generalizing s with
  | nil => simp [afterFirst]
  | cons t texts ih =>
    rw [String.intercalate_cons_cons, afterFirst, ← ih t]
    simp

theorem valueEnd_afterFirst {bracket : Char} (hbracket : bracket = ']' ∨ bracket = '\x7d')
    (rest : List Char) (texts : List String) :
    ValueEnd (afterFirst layout level bracket rest texts) := by
  intro c hc
  cases texts with
  | nil =>
    rw [afterFirst] at hc
    cases hbreak : (lineBreak layout level).toList with
    | nil =>
      rw [hbreak] at hc
      cases hc
      exact .inr (.inr hbracket)
    | cons x xs =>
      rw [hbreak] at hc
      obtain rfl := Option.some.inj hc
      exact .inl (isGap_lineBreak layout level x (by simp [hbreak]))
  | cons t texts =>
    obtain ⟨gaps, hseparator, -⟩ := toList_separator layout (level + 1)
    rw [afterFirst, hseparator] at hc
    cases hc
    exact .inr (.inl rfl)

end

/-! ## Values -/

/-- A value is read back from its text, wherever the text stands. Twice as much fuel as there are
characters is enough, since a list or a member takes a character for every two calls. -/
def ReadsBack (layout : Layout) (v : Value) : Prop :=
  ∀ (fuel level position : Nat) (rest : List Char), ValueEnd rest →
    2 * ((form layout level v).toList ++ rest).length ≤ fuel + 1 →
    ∃ next, readValue fuel ⟨position, (form layout level v).toList ++ rest⟩ = .ok (v, ⟨next, rest⟩)

section

variable {layout : Layout} {level fuel position : Nat} {rest : List Char}

theorem signed_opens (negative : Bool) {c : Char} (hc : c.isDigit) (cs : List Char) :
    ∃ d ds, signed negative (c :: cs) = d :: ds ∧ Opens d := by
  cases negative with
  | true => exact ⟨'-', _, rfl, .inr (by simp)⟩
  | false => exact ⟨c, cs, rfl, .inl hc⟩

theorem toDigits_head (n : Nat) : ∃ c cs, Nat.toDigits 10 n = c :: cs ∧ c.isDigit := by
  obtain ⟨c, cs, hcs⟩ := List.exists_cons_of_ne_nil (@Nat.toDigits_ne_nil n 10)
  have hmem : c ∈ Nat.toDigits 10 n := by simp [hcs]
  exact ⟨c, cs, hcs, isDigit_toDigits c hmem⟩

theorem toList_text_finite (negative : Bool) (m : Nat) (e : Int) (h : Binary64.Canonical m e) :
    (numberForm (.finite negative m e h)).toList =
      signed negative ((Decimal.shortest m e).render .text) := by
  exact String.toList_ofList

theorem bracketed_opens (opening closing : String) {c : Char} (hopening : opening.toList = [c])
    (hc : Opens c) (texts : List String) :
    ∃ d ds, (bracketed layout level opening closing texts).toList = d :: ds ∧ Opens d := by
  unfold bracketed
  split <;> simp [hopening, hc]

theorem form_opens (layout : Layout) (level : Nat) (v : Value) :
    ∃ c cs, (form layout level v).toList = c :: cs ∧ Opens c := by
  cases v with
  | null =>
    rw [form]
    exact ⟨'n', _, rfl, .inr (by simp)⟩
  | bool b =>
    cases b <;> rw [form]
    · exact ⟨'f', _, rfl, .inr (by simp)⟩
    · exact ⟨'t', _, rfl, .inr (by simp)⟩
  | int n =>
    obtain ⟨c, cs, hcs, hc⟩ := toDigits_head n.natAbs
    rw [form, toList_toString_int, hcs]
    exact signed_opens _ hc cs
  | float x =>
    rw [form]
    cases x with
    | nan => exact ⟨'N', _, rfl, .inr (by simp)⟩
    | infinite negative =>
      cases negative with
      | true => exact ⟨'-', _, rfl, .inr (by simp)⟩
      | false => exact ⟨'I', _, rfl, .inr (by simp)⟩
    | finite negative m e h =>
      obtain ⟨c, cs, hcs, hc⟩ := render_head (Decimal.shortest m e)
      rw [toList_text_finite, hcs]
      exact signed_opens _ hc cs
  | str s =>
    rw [form, toList_textForm]
    exact ⟨'"', _, rfl, .inr (by simp)⟩
  | list items =>
    exact @bracketed_opens _ _ _ _ '[' rfl (.inr (by simp)) _
  | object members =>
    exact @bracketed_opens _ _ _ _ '\x7b' rfl (.inr (by simp)) _

/-! ### Atoms -/

theorem readValue_signed (negative : Bool) {c : Char} (hc : c.isDigit) (cs : List Char) :
    readValue (fuel + 1) ⟨position, signed negative (c :: cs)⟩ =
      readNumber ⟨position, signed negative (c :: cs)⟩ := by
  rw [← readAtom_signed negative position hc cs]
  cases negative with
  | true => rfl
  | false =>
    rw [readValue.eq_def]
    dsimp only
    split
    iterate 3 next heq => exact absurd (List.cons.inj heq).1 (ne_of_isDigit hc (by decide))
    rfl

theorem exists_fuel {v : Value}
    (h : 2 * ((form layout level v).toList ++ rest).length ≤ fuel + 1) : ∃ k, fuel = k + 1 := by
  obtain ⟨c, cs, hcs, -⟩ := form_opens layout level v
  rw [hcs, List.cons_append, List.length_cons] at h
  exact ⟨fuel - 1, by omega⟩

theorem readsBack_atom {v : Value} (text : String) (htext : ∀ level, form layout level v = text)
    (hread : ∀ (fuel position : Nat) (rest : List Char), ValueEnd rest →
      ∃ next, readValue (fuel + 1) ⟨position, text.toList ++ rest⟩ = .ok (v, ⟨next, rest⟩)) :
    ReadsBack layout v := by
  intro fuel level position rest hrest hfuel
  obtain ⟨fuel, rfl⟩ := exists_fuel hfuel
  rw [htext]
  exact hread fuel position rest hrest

theorem readsBack_null : ReadsBack layout .null :=
  readsBack_atom "null" (fun _ => rfl) fun _ _ _ _ => ⟨_, rfl⟩

theorem readsBack_bool (b : Bool) : ReadsBack layout (.bool b) := by
  cases b with
  | true => exact readsBack_atom "true" (fun _ => rfl) fun _ _ _ _ => ⟨_, rfl⟩
  | false => exact readsBack_atom "false" (fun _ => rfl) fun _ _ _ _ => ⟨_, rfl⟩

theorem readsBack_int (n : Int) : ReadsBack layout (.int n) := by
  refine readsBack_atom (toString n) (fun _ => rfl) fun fuel position rest hrest => ?_
  obtain ⟨next, hread⟩ := readNumber_int n position hrest.numberEnd
  refine ⟨next, ?_⟩
  rw [← hread]
  obtain ⟨c, cs, hcs, hc⟩ := toDigits_head n.natAbs
  have hsigned : (toString n).toList ++ rest = signed (decide (n < 0)) (c :: (cs ++ rest)) := by
    rw [toList_toString_int, hcs]
    unfold signed
    split <;> rfl
  rw [hsigned, readValue_signed _ hc]

theorem readsBack_float (x : Binary64) : ReadsBack layout (.float x) := by
  refine readsBack_atom (numberForm x) (fun _ => rfl) fun fuel position rest hrest => ?_
  cases x with
  | nan => exact ⟨_, rfl⟩
  | infinite negative => cases negative <;> exact ⟨_, rfl⟩
  | finite negative m e h =>
    obtain ⟨next, hread⟩ : ∃ next, readNumber ⟨position,
        signed negative ((Decimal.shortest m e).render .text ++ rest)⟩ = _ :=
      readNumber_render hrest.numberEnd
    refine ⟨next, ?_⟩
    obtain ⟨c, cs, hcs, hc⟩ := render_head (Decimal.shortest m e)
    have hsigned : (numberForm (.finite negative m e h)).toList ++ rest =
        signed negative (c :: (cs ++ rest)) := by
      rw [toList_text_finite, hcs]
      unfold signed
      split <;> rfl
    rw [hcs, Decimal.toBinary64_shortest negative h] at hread
    rw [hsigned, readValue_signed _ hc]
    exact hread

theorem readsBack_str (s : String) : ReadsBack layout (.str s) := by
  refine readsBack_atom (textForm layout s) (fun _ => rfl) fun fuel position rest hrest => ?_
  obtain ⟨next, hread⟩ := readText_textForm position (position + 1) layout s rest
  refine ⟨next, ?_⟩
  rw [toList_textForm] at hread ⊢
  rw [List.tail_cons] at hread
  rw [List.cons_append]
  simp only [readValue, hread]

/-! ### Between brackets -/

/-- How what stands between two brackets is read: one item after another, each of them taken into
what was read before. -/
structure Brackets (β : Type) where
  State : Type
  read : Nat → State → Cursor → Step Value
  start : State
  take : State → β → State
  result : State → Value
  opening : Char
  closing : Char
  closing_eq : closing = ']' ∨ closing = '\x7d'
  enter : ∀ {fuel position next : Nat} {c : Char} {tail cs : List Char},
    (Cursor.mk (position + 1) tail).skipGaps = ⟨next, c :: cs⟩ → c ≠ closing →
      readValue (fuel + 1) ⟨position, opening :: tail⟩ = read fuel start ⟨next, c :: cs⟩

def listBrackets : Brackets Value where
  State := List Value
  read := readItems
  start := []
  take done v := v :: done
  result done := .list done.reverse
  opening := '['
  closing := ']'
  closing_eq := .inl rfl
  enter hskip hc := by
    simp only [readValue, hskip]
    split
    · next heq => exact absurd (List.cons.inj heq).1 hc
    · rfl

def objectBrackets : Brackets (String × Value) where
  State := List (String × Value)
  read := readMembers
  start := []
  take done m := put m.1 m.2 done
  result := .object
  opening := '\x7b'
  closing := '\x7d'
  closing_eq := .inr rfl
  enter hskip hc := by
    simp only [readValue, hskip]
    split
    · next heq => exact absurd (List.cons.inj heq).1 hc
    · rfl

namespace Brackets

variable {β : Type} (brackets : Brackets β)

/-- An item is read from its text, and what comes after it decides whether the reading goes on. -/
def Takes (b : β) (text : List Char) : Prop :=
  ∀ (fuel position : Nat) (s : brackets.State) (after : List Char), ValueEnd after →
    2 * (text ++ after).length ≤ fuel + 1 →
    ∃ next, (∀ last tail, (Cursor.mk next after).skipGaps = ⟨last, brackets.closing :: tail⟩ →
        brackets.read (fuel + 1) s ⟨position, text ++ after⟩ =
          .ok (brackets.result (brackets.take s b), ⟨last + 1, tail⟩))
      ∧ ∀ comma tail, (Cursor.mk next after).skipGaps = ⟨comma, ',' :: tail⟩ →
        brackets.read (fuel + 1) s ⟨position, text ++ after⟩ =
          brackets.read fuel (brackets.take s b) (Cursor.mk (comma + 1) tail).skipGaps

variable {brackets} {text : β → String} (hopens : ∀ b, ∃ c cs, (text b).toList = c :: cs ∧ Opens c)
include hopens

theorem skipGaps_next (position : Nat) {bracket : Char} (b : β) (texts : List String) :
    ∃ comma next gaps,
      (Cursor.mk position (afterFirst layout level bracket rest (text b :: texts))).skipGaps =
          ⟨comma, ',' :: (gaps ++ ((text b).toList ++ afterFirst layout level bracket rest texts))⟩
        ∧ (Cursor.mk (comma + 1) (gaps ++
            ((text b).toList ++ afterFirst layout level bracket rest texts))).skipGaps =
          ⟨next, (text b).toList ++ afterFirst layout level bracket rest texts⟩ := by
  obtain ⟨gaps, hseparator, hgaps⟩ := toList_separator layout (level + 1)
  obtain ⟨next, hnext⟩ := skipGaps_append (position + 1) hgaps
    (isGap_head (hopens b) (afterFirst layout level bracket rest texts))
  refine ⟨position, next, gaps, ?_, hnext⟩
  rw [afterFirst, hseparator]
  rfl

theorem read_texts {b : β} {bs : List β} (h : ∀ x ∈ b :: bs, brackets.Takes x (text x).toList)
    (s : brackets.State) (hfuel : 2 * ((text b).toList ++
      afterFirst layout level brackets.closing rest (bs.map text)).length ≤ fuel + 1) :
    ∃ next, brackets.read (fuel + 1) s ⟨position, (text b).toList ++
        afterFirst layout level brackets.closing rest (bs.map text)⟩ =
      .ok (brackets.result ((b :: bs).foldl brackets.take s), ⟨next, rest⟩) := by
  induction bs generalizing b fuel s position with
  | nil =>
    obtain ⟨next, hlast, -⟩ := h b (.head _) fuel position s _
      (valueEnd_afterFirst layout level brackets.closing_eq rest []) hfuel
    have hclosing : isGap brackets.closing = false := by
      rcases brackets.closing_eq with heq | heq <;> rw [heq] <;> decide
    obtain ⟨last, hskip⟩ := skipGaps_append next (isGap_lineBreak layout level)
      (show ∀ c ∈ (brackets.closing :: rest).head?, isGap c = false by rintro c ⟨⟩; exact hclosing)
    exact ⟨last + 1, hlast last rest hskip⟩
  | cons d bs ih =>
    obtain ⟨next, -, hnext⟩ := h b (.head _) fuel position s _
      (valueEnd_afterFirst layout level brackets.closing_eq rest _) hfuel
    obtain ⟨comma, start, gaps, hskip, hstart⟩ := @skipGaps_next layout level rest β text hopens next
      brackets.closing d (bs.map text)
    obtain ⟨c, cs, hcs, -⟩ := hopens b
    obtain ⟨fuel, rfl, hshorter⟩ : ∃ k, fuel = k + 1 ∧ 2 * ((text d).toList ++
        afterFirst layout level brackets.closing rest (bs.map text)).length ≤ k + 1 := by
      rw [hcs, List.map_cons, afterFirst] at hfuel
      simp only [List.length_append, List.length_cons] at hfuel ⊢
      exact ⟨fuel - 1, by omega, by omega⟩
    obtain ⟨last, hlast⟩ := @ih fuel start d (fun x hx => h x (.tail b hx)) (brackets.take s b) hshorter
    exact ⟨last, by rw [hnext comma _ hskip, hstart, hlast]; rfl⟩

theorem readValue_bracketed {b : β} {bs : List β}
    (h : ∀ x ∈ b :: bs, brackets.Takes x (text x).toList)
    (hfuel : 2 * ((bracketed layout level (String.singleton brackets.opening)
      (String.singleton brackets.closing) ((b :: bs).map text)).toList ++ rest).length ≤ fuel + 1) :
    ∃ next, readValue fuel ⟨position, (bracketed layout level (String.singleton brackets.opening)
        (String.singleton brackets.closing) ((b :: bs).map text)).toList ++ rest⟩ =
      .ok (brackets.result ((b :: bs).foldl brackets.take brackets.start), ⟨next, rest⟩) := by
  obtain ⟨c, cs, hcs, hc⟩ := hopens b
  obtain ⟨start, hstart⟩ := skipGaps_append (position + 1) (isGap_lineBreak layout (level + 1))
    (isGap_head (hopens b) (afterFirst layout level brackets.closing rest (bs.map text)))
  have hne : c ≠ brackets.closing := by
    rcases brackets.closing_eq with heq | heq <;> rw [heq]
    exacts [hc.ne.2.1, hc.ne.2.2.1]
  rw [List.map_cons, toList_bracketed, String.toList_singleton, List.singleton_append] at hfuel ⊢
  obtain ⟨fuel, rfl, hshorter⟩ : ∃ k, fuel = k + 2 ∧ 2 * ((text b).toList ++
      afterFirst layout level brackets.closing rest (bs.map text)).length ≤ k + 1 := by
    rw [hcs] at hfuel ⊢
    simp only [List.length_append, List.length_cons] at hfuel ⊢
    exact ⟨fuel - 2, by omega, by omega⟩
  obtain ⟨next, hread⟩ := @read_texts layout level fuel start rest β brackets text hopens b bs h
    brackets.start hshorter
  refine ⟨next, ?_⟩
  rw [hcs, List.cons_append] at hstart hread ⊢
  rw [brackets.enter hstart hne, hread]

end Brackets

theorem formItems_eq (layout : Layout) (level : Nat) (items : List Value) :
    formItems layout level items = items.map (form layout level) := by
  induction items with
  | nil => rw [formItems, List.map_nil]
  | cons v rest ih => rw [formItems, List.map_cons, ih]

theorem takes_item {v : Value} (hv : ReadsBack layout v) :
    listBrackets.Takes v (form layout level v).toList := by
  intro fuel position done after hafter hfuel
  obtain ⟨next, hread⟩ := hv fuel level position after hafter hfuel
  refine ⟨next, fun last tail hskip => ?_, fun comma tail hskip => ?_⟩ <;>
  · simp only [listBrackets] at hskip ⊢
    simp only [readItems, hread, hskip]

theorem readsBack_list {items : List Value} (h : ∀ v ∈ items, ReadsBack layout v) :
    ReadsBack layout (.list items) := by
  intro fuel level position rest hrest hfuel
  obtain ⟨fuel, rfl⟩ := exists_fuel hfuel
  rw [form, formItems_eq] at hfuel ⊢
  cases items with
  | nil =>
    rw [List.map_nil, toList_bracketed_nil]
    exact ⟨_, rfl⟩
  | cons v items =>
    obtain ⟨next, hread⟩ := @listBrackets.readValue_bracketed layout level _ position rest _
      _ (form_opens layout (level + 1)) v items (fun w hw => takes_item (h w hw)) hfuel
    refine ⟨next, hread.trans ?_⟩
    simp [listBrackets]

def memberForm (layout : Layout) (level : Nat) (m : String × Value) : String :=
  textForm layout m.1 ++ ": " ++ form layout level m.2

theorem formMembers_eq (layout : Layout) (level : Nat) (members : List (String × Value)) :
    formMembers layout level members = members.map (memberForm layout level) := by
  induction members with
  | nil => rw [formMembers, List.map_nil]
  | cons m rest ih => rw [formMembers, List.map_cons, ih, memberForm]

theorem toList_memberForm (layout : Layout) (level : Nat) (m : String × Value) (after : List Char) :
    (memberForm layout level m).toList ++ after = '"' :: ((textForm layout m.1).toList.tail ++
        (':' :: ' ' :: ((form layout level m.2).toList ++ after))) := by
  rw [memberForm, String.toList_append, String.toList_append, toList_textForm]
  simp

theorem memberForm_opens (layout : Layout) (level : Nat) (m : String × Value) :
    ∃ c cs, (memberForm layout level m).toList = c :: cs ∧ Opens c := by
  have hform := toList_memberForm layout level m []
  rw [List.append_nil] at hform
  exact ⟨'"', _, hform, .inr (by simp)⟩

theorem takes_member {m : String × Value} (hm : ReadsBack layout m.2) :
    objectBrackets.Takes m (memberForm layout level m).toList := by
  intro fuel position done after hafter hfuel
  rw [toList_memberForm] at hfuel ⊢
  obtain ⟨named, hname⟩ := readText_textForm position (position + 1) layout m.1
    (':' :: ' ' :: ((form layout level m.2).toList ++ after))
  have hhead : ∀ x ∈ (':' :: ' ' :: ((form layout level m.2).toList ++ after)).head?,
      isGap x = false := by
    rintro x ⟨⟩
    decide
  obtain ⟨colon, hcolon⟩ := skipGaps_self named hhead
  obtain ⟨start, hstart⟩ := @skipGaps_append [' '] _ (colon + 1) (by simp [isGap])
    (isGap_head (form_opens layout level m.2) after)
  rw [List.singleton_append] at hstart
  obtain ⟨next, hvalue⟩ := hm fuel level start after hafter
    (by simp only [List.length_append, List.length_cons] at hfuel ⊢; omega)
  refine ⟨next, fun last tail hskip => ?_, fun comma tail hskip => ?_⟩ <;>
  · simp only [objectBrackets] at hskip ⊢
    simp only [readMembers, hname, hcolon, hstart, hvalue, hskip]

theorem foldl_put {done members : List (String × Value)} (h : (keys (done ++ members)).Nodup) :
    members.foldl (fun done m => put m.1 m.2 done) done = done ++ members := by
  induction members generalizing done with
  | nil => rw [List.foldl_nil, List.append_nil]
  | cons m members ih =>
    have hnew : m.1 ∉ keys done := by
      intro hmem
      rw [keys, List.map_append, List.map_cons] at h
      exact List.disjoint_of_nodup_append h hmem (.head _)
    rw [List.foldl_cons, Assoc.put_of_not_mem hnew, ih (by simpa using h)]
    simp

theorem readsBack_object {members : List (String × Value)} (h : ∀ m ∈ members, ReadsBack layout m.2)
    (hdistinct : (keys members).Nodup) : ReadsBack layout (.object members) := by
  intro fuel level position rest hrest hfuel
  obtain ⟨fuel, rfl⟩ := exists_fuel hfuel
  rw [form, formMembers_eq] at hfuel ⊢
  cases members with
  | nil =>
    rw [List.map_nil, toList_bracketed_nil]
    exact ⟨_, rfl⟩
  | cons m members =>
    obtain ⟨next, hread⟩ := @objectBrackets.readValue_bracketed layout level _ position rest _
      _ (memberForm_opens layout (level + 1)) m members (fun w hw => takes_member (h w hw)) hfuel
    refine ⟨next, hread.trans ?_⟩
    simp only [objectBrackets, @foldl_put [] _ hdistinct, List.nil_append]

end

theorem readsBack (layout : Layout) {v : Value} (hv : v.distinct) : ReadsBack layout v := by
  induction v using Value.treeInduction with
  | null => exact readsBack_null
  | bool b => exact readsBack_bool b
  | int n => exact readsBack_int n
  | float x => exact readsBack_float x
  | str s => exact readsBack_str s
  | list items ih =>
    rw [Value.distinct, Value.distinctItems_iff] at hv
    exact readsBack_list fun v hmem => ih v hmem (hv v hmem)
  | object members ih =>
    rw [Value.distinct, Bool.and_eq_true, decide_eq_true_eq, Value.distinctMembers_iff] at hv
    exact readsBack_object (fun m hmem => ih m hmem (hv.2 m hmem)) hv.1

theorem read_write (layout : Layout) {v : Value} (hv : v.distinct) :
    read (write layout v) = .ok v := by
  obtain ⟨c, cs, hcs, hopens⟩ := form_opens layout 0 v
  obtain ⟨start, hstart⟩ := skipGaps_self 0 (isGap_head (form_opens layout 0 v) [])
  obtain ⟨next, hread⟩ := readsBack layout hv (2 * (form layout 0 v).toList.length + 2) 0 start []
    (by rintro c ⟨⟩) (by rw [List.append_nil]; omega)
  rw [List.append_nil] at hread hstart
  have hchars : readChars (form layout 0 v).toList = .ok v := by
    unfold readChars
    split
    · next heq =>
      rw [hcs] at heq
      exact absurd (List.cons.inj heq).1 hopens.ne.2.2.2
    · rw [hstart, hread]
      rfl
  unfold read write
  rw [hchars]

end Json

end SheetIntake
