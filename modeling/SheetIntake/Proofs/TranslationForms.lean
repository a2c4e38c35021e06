import SheetIntake.Formula.Translation
import SheetIntake.Proofs.Outcome

/-!
# When a form is translated

For each form of formulas and each function of SQL: the parts that have to be there, and the result
that they make up.

* `Sql.argumentSql_eq_ok`, `Sql.condition_eq_ok`, `Sql.conjunction_eq_ok`, `Sql.sum_eq_ok` — the
  functions.
* `Formula.translate_number_eq_ok` … `Formula.translate_call_eq_ok` — the forms of formulas.
-/

namespace SheetIntake

open Outcome
open Columns (ofCell span)

/-! ## Values that have to be texts -/

namespace Value

theorem expectText_eq_ok {v : Value} {s : String} : v.expectText = .ok s ↔ v = .str s := by
  cases v <;> simp [expectText]

theorem receiveText_eq_ok {operation : String} {v : Value} {s : String} :
    v.receiveText operation = .ok s ↔ v = .str s := by
  cases v <;> simp [receiveText]

theorem mapM_expectText_eq_ok {vs : List Value} {ss : List String} :
    vs.mapM expectText = .ok ss ↔ vs = ss.map .str := by
  rw [mapM_eq_ok, ← List.forall₂_eq_eq_eq, List.forall₂_map_right_iff]
  simp only [expectText_eq_ok]

theorem joinTexts_list_eq_ok {separator s : String} {vs : List Value} :
    joinTexts separator (.list vs) = .ok s ↔
      ∃ ss, vs = ss.map .str ∧ String.intercalate separator ss = s := by
  simp only [joinTexts, elements, ok_bind, bind_eq_ok, mapM_expectText_eq_ok, pure_eq_ok]

end Value

/-! ## Functions -/

namespace Sql

variable {os : List Operand} {s : String}

theorem argument_eq (os : List Operand) (n : Nat) : argument os n = match os[n]? with
      | some o => .ok o
      | none => .error .outOfRange := by
  rw [argument, ← List.head?_drop]
  cases os.drop n <;> rfl

theorem argumentSql_eq_ok {n : Nat} :
    argumentSql os n = .ok s ↔ ∃ o v, os[n]? = some o ∧ o.sql = .ok v ∧ v.text = s := by
  rw [argumentSql, argument_eq]
  cases os[n]? with
  | none => simp
  | some o =>
    simp only [ok_bind, bind_eq_ok, pure_eq_ok, Option.some.injEq, exists_and_left, exists_eq_left']

theorem sum_cons (o : Operand) (os : List Operand) : sum (o :: os) = sum [o] := rfl

theorem sum_eq_ok {o : Operand} {names : List Value} (h : o.columns = .ok (.list names)) :
    sum (o :: os) = .ok s ↔ ∃ ss, names = ss.map .str ∧ String.intercalate " + " ss = s := by
  rw [← Value.joinTexts_list_eq_ok, sum, argument_eq]
  simp [h]

theorem condition_eq_ok :
    condition os = .ok s ↔ ∃ test yes no, argumentSql os 0 = .ok test ∧ argumentSql os 1 = .ok yes
      ∧ argumentSql os 2 = .ok no
      ∧ "CASE WHEN " ++ test ++ " THEN " ++ yes ++ " ELSE " ++ no ++ " END" = s := by
  simp only [condition, bind_eq_ok, pure_eq_ok, exists_and_left]

theorem conjunction_eq_ok : conjunction os = .ok s ↔
      ∃ ss, List.Forall₂ (fun o r => o.sql = .ok (.str r)) os ss ∧ String.intercalate " AND " ss = s := by
  simp only [conjunction, bind_eq_ok, Value.mapM_expectText_eq_ok, pure_eq_ok]
  constructor
  · rintro ⟨vs, hvs, ss, rfl, hs⟩
    rw [mapM_eq_ok, List.forall₂_map_right_iff] at hvs
    exact ⟨ss, hvs, hs⟩
  · rintro ⟨ss, hss, hs⟩
    refine ⟨ss.map .str, ?_, ss, rfl, hs⟩
    rw [mapM_eq_ok, List.forall₂_map_right_iff]
    exact hss

variable {name : String}

theorem function_eq_sum (h : Text.upper name = "SUM") : function name os = sum os := by
  rw [function, h]
  rfl

theorem function_eq_condition (h : Text.upper name = "IF") : function name os = condition os := by
  rw [function, h]
  rfl

theorem function_eq_conjunction (h : Text.upper name = "AND") :
    function name os = conjunction os := by
  rw [function, h]
  rfl

end Sql

/-! ## Forms of formulas -/

namespace Formula

variable {columns : Value} {t : Translated} {value : Field}

theorem translate_number_eq_ok : translate columns (.number value) = .ok t ↔
      ∃ v x, value = .ok v ∧ toNumber v = .ok x ∧ .number x v = t := by
  refine bind_eq_ok.trans ?_
  simp only [bind_eq_ok, pure_eq_ok, exists_and_left]

theorem translate_logical_eq_ok : translate columns (.logical value) = .ok t ↔
      ∃ v, value = .ok v ∧ .logical (Text.lowerBasic v.text = "true") = t := by
  refine bind_eq_ok.trans ?_
  simp only [pure_eq_ok]

theorem translate_text_eq_ok : translate columns (.text value) = .ok t ↔
      ∃ s, value = .ok (.str s) ∧ .text s ("'" ++ Text.replaceAll s "\"" "'" ++ "'") = t := by
  refine bind_eq_ok.trans ?_
  simp only [bind_eq_ok, pure_eq_ok, Value.receiveText_eq_ok]
  grind

theorem translateCell_eq_ok {key refKind : Field} {r : String × Value × Value × Option String} :
    translateCell columns key refKind = .ok r ↔
      ∃ k kind column error, key = .ok (.str k) ∧ refKind = .ok kind
        ∧ columnName columns (ofCell (Text.replaceAll k "$" "")) = .ok (column, error)
        ∧ (Text.replaceAll k "$" "", kind, column, error) = r := by
  simp only [translateCell, bind_eq_ok, pure_eq_ok, Value.receiveText_eq_ok, Prod.exists]
  grind

theorem translate_cell_eq_ok {key refKind : Field} : translate columns (.cell key refKind) = .ok t ↔
      ∃ name kind column error, translateCell columns key refKind = .ok (name, kind, column, error)
        ∧ .cell name kind column error = t := by
  refine bind_eq_ok.trans ?_
  simp only [pure_eq_ok, Prod.exists]

theorem translate_range_eq_ok {first last : Formula} :
    translate columns (.range first last) = .ok t ↔
      ∃ a b names error, corner columns first = .ok a ∧ corner columns last = .ok b
        ∧ columnNames columns (span (ofCell a) (ofCell b)) = .ok (names, error)
        ∧ .range a b (span (ofCell a) (ofCell b)) names error = t := by
  refine bind_eq_ok.trans ?_
  simp only [bind_eq_ok, pure_eq_ok, exists_and_left, Prod.exists]

theorem translate_binary_eq_ok {operator : Field} {left right : Formula} :
    translate columns (.binary operator left right) = .ok t ↔
      ∃ l r o v w, translate columns left = .ok l ∧ translate columns right = .ok r
        ∧ operator = .ok o ∧ l.sql = .ok v ∧ r.sql = .ok w
        ∧ .binary o l r ("(" ++ v.text ++ ") " ++ o.text ++ " (" ++ w.text ++ ")") = t := by
  refine bind_eq_ok.trans ?_
  simp only [bind_eq_ok, pure_eq_ok, exists_and_left]

theorem translate_call_eq_ok {name : Field} {arguments : List Formula} :
    translate columns (.call name arguments) = .ok t ↔
      ∃ n ts s, name = .ok (.str n) ∧ translateAll columns arguments = .ok ts
        ∧ Sql.function n (ts.map Translated.operand) = .ok s ∧ .call n ts s = t := by
  refine bind_eq_ok.trans ?_
  simp only [bind_eq_ok, pure_eq_ok, Value.receiveText_eq_ok]
  grind

theorem translateAll_eq_mapM (columns : Value) (fs : List Formula) :
    translateAll columns fs = fs.mapM (translate columns) := by
  induction fs with
  | nil => rfl
  | cons f fs ih => rw [translateAll, List.mapM_cons, ih]

end Formula

end SheetIntake
