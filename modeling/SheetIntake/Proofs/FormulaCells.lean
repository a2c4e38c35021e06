import SheetIntake.Proofs.ColumnNames
import SheetIntake.Proofs.PlainText
import SheetIntake.Proofs.TranslationForms

/-!
# The cells and ranges of a formula

* `Formula.cells`, `Formula.ranges` — the cells and ranges anywhere in a formula. The corners of a range
  are cells too.
* `Formula.usable_of_translate` — only formulas with all references are translated.
* `Formula.translate_cellAt`, `Formula.translate_between` — what becomes of a cell, and of a range, is
  decided by the names of its columns.
-/

namespace SheetIntake

open Outcome
open Columns (ofCell span)
open Text (isLetter replaceAll)

namespace Formula

@[elab_as_elim]
theorem treeInduction {P : Formula → Prop}
    (binary : ∀ operator left right, P left → P right → P (.binary operator left right))
    (call : ∀ name arguments, (∀ f ∈ arguments, P f) → P (.call name arguments))
    (range : ∀ first last, P first → P last → P (.range first last))
    (cell : ∀ key refKind, P (.cell key refKind)) (number : ∀ value, P (.number value))
    (logical : ∀ value, P (.logical value)) (text : ∀ value, P (.text value))
    (unknown : ∀ kind, P (.unknown kind)) (unreadable : ∀ fault, P (.unreadable fault))
    (f : Formula) : P f :=
  @Formula.rec P (fun fs => ∀ f ∈ fs, P f) binary call range cell number logical text unknown
    unreadable (List.forall_mem_nil _)
    (fun _ _ hf hfs => List.forall_mem_cons.mpr ⟨hf, hfs⟩) f

mutual

/-- The fields of the cells of a formula: the key, and how the cell is referred to. -/
def cells : Formula → List (Field × Field)
  | .binary _ left right => cells left ++ cells right
  | .call _ arguments => cellsOfAll arguments
  | .range first last => cells first ++ cells last
  | .cell key refKind => [(key, refKind)]
  | .number _ | .logical _ | .text _ | .unknown _ | .unreadable _ => []

def cellsOfAll : List Formula → List (Field × Field)
  | [] => []
  | f :: rest => cells f ++ cellsOfAll rest

end

mutual

def ranges : Formula → List (Formula × Formula)
  | .binary _ left right => ranges left ++ ranges right
  | .call _ arguments => rangesOfAll arguments
  | .range first last => (first, last) :: (ranges first ++ ranges last)
  | .cell _ _ | .number _ | .logical _ | .text _ | .unknown _ | .unreadable _ => []

def rangesOfAll : List Formula → List (Formula × Formula)
  | [] => []
  | f :: rest => ranges f ++ rangesOfAll rest

end

theorem cellsOfAll_eq (fs : List Formula) : cellsOfAll fs = fs.flatMap cells := by
  induction fs with
  | nil => rfl
  | cons f fs ih => rw [cellsOfAll, ih, List.flatMap_cons]

theorem rangesOfAll_eq (fs : List Formula) : rangesOfAll fs = fs.flatMap ranges := by
  induction fs with
  | nil => rfl
  | cons f fs ih => rw [rangesOfAll, ih, List.flatMap_cons]

end Formula

/-! ## Marks in a key -/

theorem Columns.ofCell_unmarked (key : String) : ofCell (replaceAll key "$" "") = ofCell key := by
  have hmark : isLetter '$' = false := Text.isLetter_of_lt (by decide)
  have hletters (cs : List Char) :
      (cs.flatMap (fun c => if c = '$' then [] else [c])).filter isLetter =
        cs.filter isLetter := by
    induction cs with
    | nil => rfl
    | cons c cs ih =>
      rw [List.flatMap_cons, List.filter_append, ih]
      by_cases hc : c = '$'
      · simp [hc, hmark]
      · by_cases hletter : isLetter c = true <;> simp [hc, hletter]
  rw [ofCell, ofCell, replaceAll, String.toList_ofList]
  exact congrArg String.ofList
    ((congrArg _ (Text.replaceChars_singleton '$' [] key.toList)).trans (hletters key.toList))

/-! ## The names of columns -/

namespace Formula

variable {columns : Value} {members : List (String × Value)} {l key first last : String}
  {v kind kind' : Value} {error : Option String}

theorem member_eq_ok : (Value.object members).member l = .ok v ↔ Assoc.get? l members = some v := by
  rw [Value.member]
  cases Assoc.get? l members <;> simp

theorem exists_members_of_member (h : columns.member l = .ok v) :
    ∃ members, columns = .object members := by
  cases columns with
  | object members => exact ⟨members, rfl⟩
  | _ => cases h

theorem columnName_of_get? (h : Assoc.get? l members = some v) :
    columnName (.object members) l = .ok (v, none) := by
  rw [columnName, Value.member, h]

theorem columnName_of_none (h : Assoc.get? l members = none) :
    columnName (.object members) l = .ok (.str "", some (Fault.missing (.str l)).inspect) := by
  rw [columnName, Value.member, h]

theorem exists_columnName (members : List (String × Value)) (letters : String) :
    ∃ r, columnName (.object members) letters = .ok r := by
  cases h : Assoc.get? letters members with
  | none => exact ⟨_, columnName_of_none h⟩
  | some name => exact ⟨_, columnName_of_get? h⟩

/-- A cell with its key and its way to refer. -/
abbrev cellAt (key : String) (kind : Value) : Formula :=
  .cell (.ok (.str key)) (.ok kind)

variable {f : Formula}

theorem exists_of_corner {name : String} (h : corner columns f = .ok name) :
    ∃ key kind, f = cellAt key kind ∧ replaceAll key "$" "" = name := by
  cases f with
  | cell key refKind =>
    obtain ⟨r, hr, hname⟩ := bind_eq_ok.mp h
    obtain ⟨k, kind, column, error, rfl, rfl, -, rfl⟩ := translateCell_eq_ok.mp hr
    exact ⟨k, kind, rfl, pure_eq_ok.mp hname⟩
  | _ => cases h

variable {t : Translated}

@[elab_as_elim]
theorem translateInduction {P : Formula → Translated → Prop}
    (binary : ∀ o left right l r v w, P left l → P right r → l.sql = .ok v → r.sql = .ok w →
      P (.binary (.ok o) left right)
        (.binary o l r ("(" ++ v.text ++ ") " ++ o.text ++ " (" ++ w.text ++ ")")))
    (call : ∀ name arguments ts sql, List.Forall₂ P arguments ts →
      Sql.function name (ts.map Translated.operand) = .ok sql →
      P (.call (.ok (.str name)) arguments) (.call name ts sql))
    (range : ∀ first last kind kind' names error,
      columnNames columns (span (ofCell first) (ofCell last)) = .ok (names, error) →
      P (.range (cellAt first kind) (cellAt last kind'))
        (.range (replaceAll first "$" "") (replaceAll last "$" "")
          (span (ofCell first) (ofCell last)) names error))
    (cell : ∀ key kind v error, columnName columns (ofCell key) = .ok (v, error) →
      P (cellAt key kind) (.cell (replaceAll key "$" "") kind v error))
    (number : ∀ v x, toNumber v = .ok x → P (.number (.ok v)) (.number x v))
    (logical : ∀ v, P (.logical (.ok v)) (.logical (Text.lowerBasic v.text = "true")))
    (text : ∀ s, P (.text (.ok (.str s))) (.text s ("'" ++ replaceAll s "\"" "'" ++ "'")))
    (h : translate columns f = .ok t) : P f t := by
  induction f using treeInduction generalizing t with
  | binary operator left right ihleft ihright =>
    obtain ⟨l, r, o, v, w, hl, hr, rfl, hv, hw, rfl⟩ := translate_binary_eq_ok.mp h
    exact binary o left right l r v w (ihleft hl) (ihright hr) hv hw
  | call name arguments ih =>
    obtain ⟨n, ts, sql, rfl, hts, hsql, rfl⟩ := translate_call_eq_ok.mp h
    rw [translateAll_eq_mapM, mapM_eq_ok] at hts
    -- argument by argument, each with its own translation
    have hpairs := (List.forall₂_and_left arguments ts).mpr ⟨ih, hts⟩
    exact call n arguments ts sql (hpairs.imp fun f t hft => hft.1 hft.2) hsql
  | range first last _ _ =>
    obtain ⟨a, b, names, error, ha, hb, hnames, rfl⟩ := translate_range_eq_ok.mp h
    obtain ⟨first, kind, rfl, rfl⟩ := exists_of_corner ha
    obtain ⟨last, kind', rfl, rfl⟩ := exists_of_corner hb
    rw [Columns.ofCell_unmarked, Columns.ofCell_unmarked] at hnames ⊢
    exact range first last kind kind' names error hnames
  | cell key refKind =>
    obtain ⟨name, kind, column, error, hcell, rfl⟩ := translate_cell_eq_ok.mp h
    obtain ⟨k, way, v, error', rfl, rfl, hcolumn, hparts⟩ := translateCell_eq_ok.mp hcell
    obtain ⟨rfl, rfl, rfl, rfl⟩ := by simpa using hparts
    exact cell k way v error' (Columns.ofCell_unmarked k ▸ hcolumn)
  | number value =>
    obtain ⟨v, x, rfl, hx, rfl⟩ := translate_number_eq_ok.mp h
    exact number v x hx
  | logical value =>
    obtain ⟨v, rfl, rfl⟩ := translate_logical_eq_ok.mp h
    exact logical v
  | text value =>
    obtain ⟨s, rfl, rfl⟩ := translate_text_eq_ok.mp h
    exact text s
  | unknown | unreadable => cases h

theorem translate_cellAt (h : columnName columns (ofCell key) = .ok (v, error)) :
    translate columns (cellAt key kind) = .ok (.cell (replaceAll key "$" "") kind v error) := by
  rw [← Columns.ofCell_unmarked] at h
  exact translate_cell_eq_ok.mpr ⟨_, _, _, _,
    translateCell_eq_ok.mpr ⟨_, _, _, _, rfl, rfl, h, rfl⟩, rfl⟩

theorem corner_cellAt :
    corner (.object members) (cellAt key kind) = .ok (replaceAll key "$" "") := by
  obtain ⟨⟨column, error⟩, h⟩ :=
    exists_columnName members (ofCell (replaceAll key "$" ""))
  rw [corner, translateCell_eq_ok.mpr ⟨_, _, column, error, rfl, rfl, h, rfl⟩]
  rfl

theorem translate_between {names : List Value} (h : columnNames (.object members)
      (span (ofCell first) (ofCell last)) = .ok (names, error)) :
    translate (.object members) (.range (cellAt first kind) (cellAt last kind')) =
      .ok (.range (replaceAll first "$" "") (replaceAll last "$" "")
        (span (ofCell first) (ofCell last)) names error) := by
  rw [← Columns.ofCell_unmarked first, ← Columns.ofCell_unmarked last] at h ⊢
  exact translate_range_eq_ok.mpr ⟨_, _, _, _, corner_cellAt, corner_cellAt, h, rfl⟩

theorem translate_sum {names : List String}
    (h : translate columns f = .ok t) (ht : t.columns = .ok (.list (names.map .str))) :
    translate columns (.call (.ok (.str "SUM")) [f]) =
      .ok (.call "SUM" [t] (String.intercalate " + " names)) := by
  have hsum : Sql.function "SUM" [t.operand] = .ok (String.intercalate " + " names) := by
    exact (Sql.sum_eq_ok ht).mpr ⟨names, rfl, rfl⟩
  exact translate_call_eq_ok.mpr ⟨_, [t], _, rfl, by rw [translateAll, h]; rfl, hsum, rfl⟩

/-! ## Cells that can be used -/

/-- The fields of a cell that can be used: a text, and some way to refer. -/
def Usable (c : Field × Field) : Prop :=
  ∃ key way, c = (.ok (.str key), .ok way)

theorem usable_of_translate (h : translate columns f = .ok t) : ∀ c ∈ f.cells, Usable c := by
  refine translateInduction ?binary ?call ?range ?cell ?number ?logical ?text h
  case binary => exact fun _ _ _ _ _ _ _ hl hr _ _ => List.forall_mem_append.mpr ⟨hl, hr⟩
  case call =>
    intro name arguments ts sql hpairs _ c hc
    rw [cells, cellsOfAll_eq] at hc
    obtain ⟨f, hf, hc⟩ := List.mem_flatMap.mp hc
    have husable := (List.forall₂_and_left _ _).mp (hpairs.imp fun _ _ h => ⟨h, trivial⟩)
    exact husable.1 f hf c hc
  case range => exact fun first last kind kind' _ _ _ => by simp [cells, Usable]
  case cell => exact fun key kind _ _ _ => List.forall_mem_singleton.mpr ⟨key, kind, rfl⟩
  case number => exact fun _ _ _ => List.forall_mem_nil _
  case logical | text => exact fun _ => List.forall_mem_nil _

end Formula

end SheetIntake
