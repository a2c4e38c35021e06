import SheetIntake.Ddl.Example
import SheetIntake.Proofs.FormulaCells
import SheetIntake.Proofs.IntegerRange
import SheetIntake.Proofs.QuotedTexts
import SheetIntake.Proofs.SqlMeaning

/-!
# Translation keeps the meaning

`Expression` is the part of the formulas that SQL can express: numbers, truth values, texts, cells,
sums of a range, conditions, conjunctions and binary operators. An expression has a meaning of its
own, without a text in between.

## The statement

* **`translation_keeps_meaning`** — both, for every derivation of the text.
-/

namespace SheetIntake

open Formula (columnName columnNames toNumber corner translateAll translate_call_eq_ok)
open Outcome
open Binary64 (integerLimit isSome_ofInt? ofInt?)

universe u

/-! ## Expressions -/

/-- An expression. A sum has the corners of its range and the letters of the columns that follow the
first one; a conjunction has at least one part. -/
inductive Expression where
  | number (n : Nat)
  | logical (b : Bool)
  | text (s : String)
  | cell (key : String) (refKind : Value)
  | sum (first last : String) (firstKind lastKind : Value) (others : List String)
  | choice (test yes no : Expression)
  | all (first : Expression) (rest : List Expression)
  | binary (o : Sql.Operator) (left right : Expression)

namespace Expression

mutual

def formula : Expression → Formula
  | .number n => .number (.ok (.int n))
  | .logical b => .logical (.ok (.bool b))
  | .text s => .text (.ok (.str s))
  | .cell key refKind => .cell (.ok (.str key)) (.ok refKind)
  | .sum first last firstKind lastKind _ =>
    .call (.ok (.str "SUM")) [.range (.cell (.ok (.str first)) (.ok firstKind))
      (.cell (.ok (.str last)) (.ok lastKind))]
  | .choice test yes no => .call (.ok (.str "IF")) [formula test, formula yes, formula no]
  | .all first rest => .call (.ok (.str "AND")) (formula first :: formulas rest)
  | .binary o left right => .binary (.ok (.str o.symbol)) (formula left) (formula right)

def formulas : List Expression → List Formula
  | [] => []
  | e :: rest => formula e :: formulas rest

end

def capitals (key : String) : String :=
  String.ofList (key.toList.filter Char.isUpper)

def columnOf (columns : Value) (letters : String) : String :=
  match columns.member letters with
  | .ok (.str name) => name
  | _ => ""

mutual

/-- The meaning of an expression: a sum adds the columns of its range from the left, a conjunction
joins its parts from the left. -/
def meaning (columns : Value) : Expression → Sql.Meaning.{u}
  | .number n => fun _ I _ => I.number n
  | .logical b => fun _ I _ => I.truth b
  | .text s => fun _ I _ => I.text s
  | .cell key _ => fun _ _ row => row (columnOf columns (capitals key))
  | .sum first _ _ _ others =>
    Sql.fold .add (fun _ _ row => row (columnOf columns (capitals first)))
      ((others.map (columnOf columns)).map (fun name _ _ row => row name))
  | .choice test yes no => fun V I row =>
    I.choice (meaning columns test V I row) (meaning columns yes V I row) (meaning columns no V I row)
  | .all first rest => Sql.fold .and (meaning columns first) (meanings columns rest)
  | .binary o left right => fun V I row =>
    I.apply o (meaning columns left V I row) (meaning columns right V I row)

def meanings (columns : Value) : List Expression → List Sql.Meaning.{u}
  | [] => []
  | e :: rest => meaning columns e :: meanings columns rest

end

mutual

def numbers : Expression → List Nat
  | .number n => [n]
  | .logical _ => []
  | .text _ => []
  | .cell _ _ => []
  | .sum .. => []
  | .choice test yes no => numbers test ++ numbers yes ++ numbers no
  | .all first rest => numbers first ++ numbersOfAll rest
  | .binary _ left right => numbers left ++ numbers right

def numbersOfAll : List Expression → List Nat
  | [] => []
  | e :: rest => numbers e ++ numbersOfAll rest

end

def isNumber : Expression → Bool
  | .number _ => true
  | _ => false

/-- The key of a cell in capitals: letters, digits and marks. -/
def IsUpperKey (key : String) : Prop :=
  ∀ c ∈ key.toList, c.isUpper = true ∨ c.isDigit = true ∨ c = '$'

instance (key : String) : Decidable (IsUpperKey key) :=
  List.decidableBAll _ _

/-- The letters of a column that has a plain name. -/
def IsNamed (columns : Value) (letters : String) : Prop :=
  ∃ name, columns.member letters = .ok (.str name) ∧ Sql.IsPlainName name

/-- The conditions on an expression: texts have no quotes, keys are in capitals and their columns
named, the columns of a range are those on the way from its first to its last column, and no part of a
conjunction is a bare number. -/
inductive Supported (columns : Value) : Expression → Prop where
  | number (n : Nat) : Supported columns (.number n)
  | logical (b : Bool) : Supported columns (.logical b)
  | text {s : String} (hplain : Text.IsQuoteFree s.toList) : Supported columns (.text s)
  | cell {key : String} {refKind : Value} (hkey : IsUpperKey key)
      (hname : IsNamed columns (capitals key)) : Supported columns (.cell key refKind)
  | sum {first last : String} {firstKind lastKind : Value} {others : List String}
      (hfirst : IsUpperKey first) (hlast : IsUpperKey last)
      (hstretch : Columns.Stretch (capitals first) (capitals last) (capitals first :: others))
      (hnames : ∀ letters ∈ capitals first :: others, IsNamed columns letters) :
      Supported columns (.sum first last firstKind lastKind others)
  | choice {test yes no : Expression} (htest : Supported columns test)
      (hyes : Supported columns yes) (hno : Supported columns no) :
      Supported columns (.choice test yes no)
  | all {first : Expression} {rest : List Expression} (hfirst : Supported columns first)
      (hrest : ∀ e ∈ rest, Supported columns e) (hbare : ∀ e ∈ first :: rest, e.isNumber = false) :
      Supported columns (.all first rest)
  | binary {o : Sql.Operator} {left right : Expression} (hleft : Supported columns left)
      (hright : Supported columns right) : Supported columns (.binary o left right)

/-! ## Cells and ranges -/

theorem columnOf_eq {columns : Value} {letters name : String}
    (h : columns.member letters = .ok (.str name)) : columnOf columns letters = name := by
  rw [columnOf, h]

theorem IsNamed.member {columns : Value} {letters : String} (h : IsNamed columns letters) :
    columns.member letters = .ok (.str (columnOf columns letters)) := by
  obtain ⟨name, hmember, -⟩ := h
  rw [columnOf_eq hmember, hmember]

theorem IsNamed.isPlainName {columns : Value} {letters : String} (h : IsNamed columns letters) :
    Sql.IsPlainName (columnOf columns letters) := by
  obtain ⟨name, hmember, hplain⟩ := h
  rwa [columnOf_eq hmember]

theorem isCapital_capitals (key : String) : Columns.IsCapital (capitals key) := by
  intro c hc
  rw [capitals, String.toList_ofList, List.mem_filter] at hc
  exact hc.2

theorem ofCell_eq_capitals {key : String} (h : IsUpperKey key) :
    Columns.ofCell key = capitals key := by
  rw [Columns.ofCell, capitals]
  congr 1
  apply List.filter_congr
  intro c hc
  rcases h c hc with hupper | hmark
  · rw [hupper, Text.isLetter_of_isUpper hupper]
  · have hletter := Text.isLetter_of_mark hmark
    rw [hletter, eq_comm, Bool.eq_false_iff]
    exact fun hupper => Bool.false_ne_true (hletter.symm.trans (Text.isLetter_of_isUpper hupper))

theorem columnNames_eq {columns : Value} {letters : List String}
    (hnames : ∀ l ∈ letters, columns.member l = .ok (.str (columnOf columns l))) :
    columnNames columns letters = .ok ((letters.map (columnOf columns)).map .str, none) := by
  have hmembers : letters.mapM columns.member = .ok ((letters.map (columnOf columns)).map .str) := by
    rw [mapM_eq_ok, List.map_map, List.forall₂_map_right_iff, List.forall₂_same]
    exact hnames
  rw [columnNames, hmembers]

theorem formulas_eq_map (es : List Expression) : formulas es = es.map formula := by
  induction es with
  | nil => rfl
  | cons e es ih => rw [formulas, ih, List.map_cons]

/-! ## The translation of each form -/

/-- An expression is translated to a value whose text reads as its meaning; only for a bare number it
is not a text already. -/
def Faithful (columns : Value) (e : Expression) : Prop :=
  ∃ t v, e.formula.translate columns = .ok t ∧ t.sql = .ok v
    ∧ (e.isNumber = false → ∃ s, v = .str s) ∧ Sql.Reads.{u} v.text (e.meaning columns)

variable {columns : Value}

theorem faithful_number {n : Nat} (h : n < integerLimit) : Faithful.{u} columns (.number n) := by
  obtain ⟨x, hx⟩ := Option.isSome_iff_exists.mp ((isSome_ofInt? n).mpr h)
  have hnumber : toNumber (.int n) = .ok x := by rw [toNumber, hx]
  exact ⟨.number x (.int n), .int n, Formula.translate_number_eq_ok.mpr ⟨_, x, rfl, hnumber, rfl⟩, rfl,
    fun h => absurd h (by simp [isNumber]), Sql.Reads.number n⟩

theorem faithful_logical (b : Bool) : Faithful.{u} columns (.logical b) := by
  refine ⟨.logical b, .str (Translated.logicalSql b), ?_, rfl, fun _ => ⟨_, rfl⟩, Sql.Reads.truth b⟩
  cases b <;> rfl

theorem faithful_text {s : String} (h : Text.IsQuoteFree s.toList) :
    Faithful.{u} columns (.text s) := by
  have hsql : "'" ++ Text.replaceAll s "\"" "'" ++ "'" = "'" ++ s ++ "'" := by
    rw [← String.toList_inj, Sql.toList_quoted, Sql.quoted_of_not_mem h.2, String.toList_append,
      String.toList_append]
    rfl
  exact ⟨.text s ("'" ++ s ++ "'"), .str ("'" ++ s ++ "'"),
    Formula.translate_text_eq_ok.mpr ⟨s, rfl, congrArg _ hsql⟩, rfl, fun _ => ⟨_, rfl⟩,
    Sql.Reads.text h.1⟩

theorem faithful_cell {key : String} {refKind : Value} (hkey : IsUpperKey key)
    (hname : IsNamed columns (capitals key)) : Faithful.{u} columns (.cell key refKind) := by
  have hcolumn : columnName columns (Columns.ofCell key) =
      .ok (.str (columnOf columns (capitals key)), none) := by
    rw [ofCell_eq_capitals hkey, columnName, hname.member]
  exact ⟨_, .str (columnOf columns (capitals key)), Formula.translate_cellAt hcolumn, rfl,
    fun _ => ⟨_, rfl⟩, Sql.Reads.name hname.isPlainName⟩

section

variable {first last : String} {others : List String} (hfirst : IsUpperKey first)
  (hlast : IsUpperKey last)
  (hstretch : Columns.Stretch (capitals first) (capitals last) (capitals first :: others))
  (hnames : ∀ letters ∈ capitals first :: others, IsNamed columns letters)

include hfirst hlast hstretch hnames

theorem translate_range (firstKind lastKind : Value) :
    Formula.translate columns (.range (.cell (.ok (.str first)) (.ok firstKind))
      (.cell (.ok (.str last)) (.ok lastKind))) =
        .ok (.range (Text.replaceAll first "$" "") (Text.replaceAll last "$" "")
          (capitals first :: others)
          (((capitals first :: others).map (columnOf columns)).map .str) none) := by
  obtain ⟨members, rfl⟩ := Formula.exists_members_of_member (hnames _ (.head _)).member
  have hspan : Columns.span (Columns.ofCell first) (Columns.ofCell last) = capitals first :: others := by
    rw [ofCell_eq_capitals hfirst, ofCell_eq_capitals hlast,
      hstretch.eq_span (isCapital_capitals first)]
  rw [← hspan] at hnames ⊢
  exact Formula.translate_between (columnNames_eq fun l hl => (hnames l hl).member)

theorem faithful_sum {firstKind lastKind : Value} :
    Faithful.{u} columns (.sum first last firstKind lastKind others) := by
  let text := String.intercalate " + " ((capitals first :: others).map (columnOf columns))
  obtain ⟨hname, hothers⟩ := List.forall_mem_cons.mp hnames
  have htext : Sql.Reads.{u} text (meaning columns (.sum first last firstKind lastKind others)) := by
    apply Sql.Reads.sum hname.isPlainName
    exact List.forall_mem_map.mpr fun letters hletters => (hothers letters hletters).isPlainName
  exact ⟨_, .str text, Formula.translate_sum
    (translate_range hfirst hlast hstretch hnames firstKind lastKind) rfl, rfl, fun _ => ⟨_, rfl⟩,
    htext⟩

end

theorem faithful_choice {test yes no : Expression} (htest : Faithful.{u} columns test)
    (hyes : Faithful.{u} columns yes) (hno : Faithful.{u} columns no) :
    Faithful.{u} columns (.choice test yes no) := by
  obtain ⟨ta, va, hta, hva, -, hra⟩ := htest
  obtain ⟨tb, vb, htb, hvb, -, hrb⟩ := hyes
  obtain ⟨tc, vc, htc, hvc, -, hrc⟩ := hno
  let text := "CASE WHEN " ++ va.text ++ " THEN " ++ vb.text ++ " ELSE " ++ vc.text ++ " END"
  have harguments : translateAll columns [test.formula, yes.formula, no.formula] =
      .ok [ta, tb, tc] := by
    simp only [translateAll, hta, htb, htc, ok_bind]
    rfl
  have hsql : Sql.function "IF" ([ta, tb, tc].map Translated.operand) = .ok text := by
    exact Sql.condition_eq_ok.mpr ⟨_, _, _, Sql.argumentSql_eq_ok.mpr ⟨_, va, rfl, hva, rfl⟩,
      Sql.argumentSql_eq_ok.mpr ⟨_, vb, rfl, hvb, rfl⟩,
      Sql.argumentSql_eq_ok.mpr ⟨_, vc, rfl, hvc, rfl⟩, rfl⟩
  exact ⟨.call "IF" [ta, tb, tc] text, .str text,
    translate_call_eq_ok.mpr ⟨_, _, _, rfl, harguments, hsql, rfl⟩, rfl,
    fun _ => ⟨_, rfl⟩, hra.choice hrb hrc⟩

theorem exists_texts {es : List Expression} (h : ∀ e ∈ es, Faithful.{u} columns e)
    (hbare : ∀ e ∈ es, e.isNumber = false) : ∃ ts texts, translateAll columns (formulas es) = .ok ts
      ∧ List.Forall₂ (fun t s => t.sql = .ok (.str s)) ts texts
      ∧ List.Forall₂ Sql.Reads.{u} texts (meanings columns es) := by
  induction es with
  | nil => exact ⟨[], [], rfl, .nil, .nil⟩
  | cons e es ih =>
    obtain ⟨he, hes⟩ := List.forall_mem_cons.mp h
    obtain ⟨hbare, hbares⟩ := List.forall_mem_cons.mp hbare
    obtain ⟨t, v, ht, hv, htext, hreads⟩ := he
    obtain ⟨s, rfl⟩ := htext hbare
    obtain ⟨ts, texts, hts, htexts, hreadsAll⟩ := ih hes hbares
    refine ⟨t :: ts, s :: texts, ?_, .cons hv htexts, .cons hreads hreadsAll⟩
    rw [formulas, translateAll, ht, ok_bind, hts]
    rfl

theorem faithful_all {first : Expression} {rest : List Expression} (hfirst : Faithful.{u} columns first)
    (hrest : ∀ e ∈ rest, Faithful.{u} columns e) (hbare : ∀ e ∈ first :: rest, e.isNumber = false) :
    Faithful.{u} columns (.all first rest) := by
  obtain ⟨ts, texts, hts, htexts, hreads⟩ :=
    exists_texts (List.forall_mem_cons.mpr ⟨hfirst, hrest⟩) hbare
  have hsql : Sql.function "AND" (ts.map Translated.operand) =
      .ok (String.intercalate " AND " texts) := by
    exact Sql.conjunction_eq_ok.mpr ⟨texts, List.forall₂_map_left_iff.mpr htexts, rfl⟩
  refine ⟨.call "AND" ts _, .str (String.intercalate " AND " texts),
    translate_call_eq_ok.mpr ⟨_, _, _, rfl, hts, hsql, rfl⟩, rfl, fun _ => ⟨_, rfl⟩, ?_⟩
  cases hreads with
  | cons hhead htail => exact hhead.conjunction htail

theorem faithful_binary {o : Sql.Operator} {left right : Expression}
    (hleft : Faithful.{u} columns left) (hright : Faithful.{u} columns right) :
    Faithful.{u} columns (.binary o left right) := by
  obtain ⟨tl, vl, htl, hvl, -, hrl⟩ := hleft
  obtain ⟨tr, vr, htr, hvr, -, hrr⟩ := hright
  exact ⟨_, .str ("(" ++ vl.text ++ ") " ++ o.symbol ++ " (" ++ vr.text ++ ")"),
    Formula.translate_binary_eq_ok.mpr ⟨tl, tr, _, vl, vr, htl, htr, rfl, hvl, hvr, rfl⟩, rfl,
    fun _ => ⟨_, rfl⟩, hrl.operation o hrr⟩

/-! ## All expressions -/

theorem numbersOfAll_eq (es : List Expression) : numbersOfAll es = es.flatMap numbers := by
  induction es with
  | nil => rfl
  | cons e es ih => rw [numbersOfAll, ih, List.flatMap_cons]

/-- An expression with integers below the limit is translated to a text with its meaning. -/
theorem Supported.faithful {e : Expression} (h : Supported columns e)
    (hsmall : ∀ n ∈ e.numbers, n < integerLimit) : Faithful.{u} columns e := by
  induction h with
  | number n => exact faithful_number (hsmall n (List.mem_singleton_self n))
  | logical b => exact faithful_logical b
  | text hplain => exact faithful_text hplain
  | cell hkey hname => exact faithful_cell hkey hname
  | sum hfirst hlast hstretch hnames => exact faithful_sum hfirst hlast hstretch hnames
  | choice _ _ _ ihtest ihyes ihno =>
    simp only [numbers, List.mem_append, or_imp, forall_and] at hsmall
    exact faithful_choice (ihtest hsmall.1.1) (ihyes hsmall.1.2) (ihno hsmall.2)
  | all _ _ hbare ihfirst ihrest =>
    simp only [numbers, numbersOfAll_eq, List.mem_append, or_imp, forall_and] at hsmall
    refine faithful_all (ihfirst hsmall.1) (fun e he => ihrest e he ?_) hbare
    exact fun n hn => hsmall.2 n (List.mem_flatMap.mpr ⟨e, he, hn⟩)
  | binary _ _ ihleft ihright =>
    simp only [numbers, List.mem_append, or_imp, forall_and] at hsmall
    exact faithful_binary (ihleft hsmall.1) (ihright hsmall.2)

theorem translate_call_eq_error {arguments : List Formula} {fault : Fault} (name : String)
    (hall : ∀ f ∈ arguments, (∃ t, f.translate columns = .ok t) ∨ f.translate columns = .error fault)
    (hone : ∃ f ∈ arguments, f.translate columns = .error fault) :
    Formula.translate columns (.call (.ok (.str name)) arguments) = .error fault := by
  rw [Formula.translate, ok_bind, Formula.translateAll_eq_mapM, mapM_eq_error hall hone]
  rfl

/-- An expression with an integer from the limit on is a fault. -/
theorem Supported.translate_eq_error {e : Expression} (h : Supported columns e)
    (hbig : ∃ n ∈ e.numbers, integerLimit ≤ n) :
    e.formula.translate columns = .error .integerTooLarge := by
  -- a part is translated or is the fault
  have hpart {e : Expression} (he : Supported columns e)
      (ih : (∃ n ∈ e.numbers, integerLimit ≤ n) →
        e.formula.translate columns = .error .integerTooLarge) :
      (∃ t, e.formula.translate columns = .ok t)
        ∨ e.formula.translate columns = .error .integerTooLarge := by
    by_cases hbig : ∃ n ∈ e.numbers, integerLimit ≤ n
    · exact .inr (ih hbig)
    · simp only [not_exists, not_and, not_le] at hbig
      obtain ⟨t, -, ht, -⟩ := Supported.faithful.{0} he hbig
      exact .inl ⟨t, ht⟩
  induction h with
  | number n =>
    obtain ⟨m, hm, hle⟩ := hbig
    obtain rfl := List.mem_singleton.mp hm
    have hnone : ofInt? m = none := by
      rw [← Option.not_isSome_iff_eq_none, isSome_ofInt?]
      exact not_lt.mpr hle
    rw [formula, Formula.translate, ok_bind, toNumber, hnone]
    rfl
  | logical b | text hplain | cell hkey hname => exact absurd hbig (by simp [numbers])
  | sum hfirst hlast hstretch hnames => exact absurd hbig (by simp [numbers])
  | choice htest hyes hno ihtest ihyes ihno =>
    apply translate_call_eq_error
    · simp only [List.forall_mem_cons, List.not_mem_nil, false_implies, implies_true, and_true]
      exact ⟨hpart htest ihtest, hpart hyes ihyes, hpart hno ihno⟩
    · obtain ⟨n, hn, hle⟩ := hbig
      simp only [numbers, List.mem_append] at hn
      rcases hn with (hn | hn) | hn
      · exact ⟨_, by simp, ihtest ⟨n, hn, hle⟩⟩
      · exact ⟨_, by simp, ihyes ⟨n, hn, hle⟩⟩
      · exact ⟨_, by simp, ihno ⟨n, hn, hle⟩⟩
  | all hfirst hrest hbare ihfirst ihrest =>
    rw [formula, formulas_eq_map, ← List.map_cons]
    apply translate_call_eq_error
    · intro f hf
      obtain ⟨e, he, rfl⟩ := List.mem_map.mp hf
      rcases List.mem_cons.mp he with rfl | he
      · exact hpart hfirst ihfirst
      · exact hpart (hrest e he) (ihrest e he)
    · obtain ⟨n, hn, hle⟩ := hbig
      simp only [numbers, numbersOfAll_eq, List.mem_append, List.mem_flatMap] at hn
      rcases hn with hn | ⟨e, he, hn⟩
      · exact ⟨_, .head _, ihfirst ⟨n, hn, hle⟩⟩
      · exact ⟨_, List.mem_map_of_mem (.tail _ he), ihrest e he ⟨n, hn, hle⟩⟩
  | binary hleft hright ihleft ihright =>
    obtain ⟨n, hn, hle⟩ := hbig
    simp only [numbers, List.mem_append] at hn
    rw [formula, Formula.translate]
    rcases hpart hleft ihleft with ⟨t, ht⟩ | herror
    · -- the left side is translated, so the integer is on the right
      rw [ht, ok_bind]
      have hright : ∃ n ∈ _, integerLimit ≤ n := ⟨n, hn.resolve_left fun hn => ?_, hle⟩
      · rw [ihright hright, error_bind]
      · rw [ihleft ⟨n, hn, hle⟩] at ht
        cases ht
    · rw [herror, error_bind]

end Expression

/-- A request with a supported expression is answered by a text that the grammar of SQL accepts, and
however the text is derived, its value is the meaning of the expression, under every interpretation
and for every row. The one exception is an integer that has no floating point number. -/
theorem translation_keeps_meaning {request ast columns : Value} {e : Expression}
    (hast : request.member "ast" = .ok ast) (hcolumns : request.member "columns" = .ok columns)
    (hformula : Formula.ofValue ast = e.formula) (hsupported : e.Supported columns) :
    ((∀ n ∈ e.numbers, n < Binary64.integerLimit) →
      ∃ t v ts, translateRequest request = .ok t ∧ t.sql = .ok v ∧ Sql.tokens v.text = some ts
        ∧ (∃ tree, Sql.Derives 0 ts tree)
        ∧ ∀ tree, Sql.Derives 0 ts tree →
          ∀ (V : Type u) (I : Sql.Interpretation V) (row : String → V),
            tree.eval I row = e.meaning columns V I row)
      ∧ ((∃ n ∈ e.numbers, Binary64.integerLimit ≤ n) →
        translateRequest request = .error .integerTooLarge) := by
  rw [translateRequest, hast, ok_bind, hcolumns, ok_bind, hformula]
  refine ⟨fun hsmall => ?_, hsupported.translate_eq_error⟩
  obtain ⟨t, v, ht, hv, -, hreads⟩ := hsupported.faithful hsmall
  obtain ⟨ts, hts, hderives, hvalue⟩ := hreads.unique
  exact ⟨t, v, ts, ht, hv, hts, hderives, hvalue⟩

def ledgerNames : Value :=
  .object [("A", .str "net"), ("B", .str "tax"), ("C", .str "total")]

/-- `IF(AND($B$1 < A1, SUM(A1:C1) = 5), A1 * 2, "none")` -/
def ledgerAst : Value :=
  let net := Example.cell "relative" "A1"
  let sum := Example.call "SUM" [.object [("type", .str "cell-range"), ("left", net),
    ("right", Example.cell "relative" "C1")]]
  Example.call "IF" [Example.call "AND" [Example.binary "<" (Example.cell "absolute" "$B$1") net,
      Example.binary "=" sum (Example.number (.int 5))],
    Example.binary "*" net (Example.number (.int 2)), Example.text "none"]

def ledgerExpression : Expression :=
  let net : Expression := .cell "A1" (.str "relative")
  let sum : Expression := .sum "A1" "C1" (.str "relative") (.str "relative") ["B", "C"]
  .choice (.all (.binary .lt (.cell "$B$1" (.str "absolute")) net) [.binary .eq sum (.number 5)])
    (.binary .mul net (.number 2)) (.text "none")

theorem supported_ledger : ledgerExpression.Supported ledgerNames := by
  have hnet : Expression.IsNamed ledgerNames "A" := ⟨"net", rfl, by decide⟩
  have htax : Expression.IsNamed ledgerNames "B" := ⟨"tax", rfl, by decide⟩
  have htotal : Expression.IsNamed ledgerNames "C" := ⟨"total", rfl, by decide⟩
  have hstretch : Columns.Stretch "A" "C" ["A", "B", "C"] := .next (.next (.last "C"))
  have hkey {key : String} (h : key ∈ ["A1", "$B$1", "C1"]) : Expression.IsUpperKey key := by
    simp only [List.mem_cons, List.not_mem_nil, or_false] at h
    rcases h with rfl | rfl | rfl <;> decide
  have hcell : Expression.Supported ledgerNames (.cell "A1" (.str "relative")) :=
    .cell (hkey (by decide)) hnet
  refine .choice (.all (.binary (.cell (hkey (by decide)) htax) hcell) ?_ (by decide))
    (.binary hcell (.number 2)) (.text (by decide))
  intro e he
  obtain rfl := List.mem_singleton.mp he
  refine .binary (.sum (hkey (by decide)) (hkey (by decide)) hstretch ?_) (.number 5)
  intro letters hletters
  rcases List.mem_cons.mp hletters with rfl | hletters
  · exact hnet
  · simp only [List.mem_cons, List.not_mem_nil, or_false] at hletters
    rcases hletters with rfl | rfl
    · exact htax
    · exact htotal

/-- The formula is translated, and its text keeps the meaning. -/
theorem ledger_keeps_meaning :
    ∃ t v ts, translateRequest (.object [("ast", ledgerAst), ("columns", ledgerNames)]) = .ok t
      ∧ t.sql = .ok v ∧ Sql.tokens v.text = some ts ∧ (∃ tree, Sql.Derives 0 ts tree)
      ∧ ∀ tree, Sql.Derives 0 ts tree →
        ∀ (V : Type) (I : Sql.Interpretation V) (row : String → V),
          tree.eval I row = ledgerExpression.meaning ledgerNames V I row := by
  refine (translation_keeps_meaning rfl rfl rfl supported_ledger).1 ?_
  intro n hn
  have hsmall : ∀ n ∈ ledgerExpression.numbers, n < 6 := by decide
  exact (hsmall n hn).trans (by decide +kernel)

/-- A number of the fragment that is not translated: the least integer that is too large. -/
theorem integer_without_translation :
    Expression.Supported (.object []) (.number Binary64.integerLimit)
      ∧ translateRequest (.object [("ast", Example.number (.int Binary64.integerLimit)),
          ("columns", .object [])]) = .error .integerTooLarge := by
  have hrequest (n : Nat) : translateRequest (.object [("ast", Example.number (.int n)),
      ("columns", .object [])]) = (Expression.number n).formula.translate (.object []) := rfl
  refine ⟨.number _, ?_⟩
  rw [hrequest]
  exact (Expression.Supported.number _).translate_eq_error ⟨_, List.mem_singleton_self _, le_rfl⟩

end SheetIntake
