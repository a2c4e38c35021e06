import SheetIntake.Proofs.ShownColumns

/-!
# Formulas that can be translated

The formulas of the supported forms are made of cells and ranges with names, constants, operators
and the three functions (`Supported`). Not all of them can be put into SQL: a sum looks for columns
in its first argument, which only a range has, and a conjunction joins texts, which the SQL of a
number is not. `renders` tells from the formula alone.

* `Supported.settles` — the translation, one form after the other.
* `supported_translates_iff` — which formulas of the supported forms are translated.
* `single_cell_has_no_sum` — two that are not.
-/

namespace SheetIntake

open Outcome
open Translated (operand)

namespace Formula

/-! ## Formulas of the supported forms -/

/-- A cell in a column that has a name. -/
inductive MappedCell (names : List (String × String)) : Formula → Prop where
  | intro {key name : String} (refKind : Value)
      (h : Assoc.get? (Columns.ofCell key) names = some name) :
      MappedCell names (.cell (.ok (.str key)) (.ok refKind))

/-- A range of columns that all have names. -/
inductive MappedRange (names : List (String × String)) : Formula → Prop where
  | intro {first last : String} (firstKind lastKind : Value)
      (h : ∀ l ∈ Columns.span (Columns.ofCell first) (Columns.ofCell last),
        ∃ name, Assoc.get? l names = some name) :
      MappedRange names (.range (.cell (.ok (.str first)) (.ok firstKind))
        (.cell (.ok (.str last)) (.ok lastKind)))

/-- The formulas of cells with names, constants, operators and the three functions. Ranges stand in
sums only. -/
inductive Supported (names : List (String × String)) : Formula → Prop where
  | cell {f : Formula} (h : MappedCell names f) : Supported names f
  | int (n : Int) : Supported names (.number (.ok (.int n)))
  | float (x : Binary64) : Supported names (.number (.ok (.float x)))
  | logical (v : Value) : Supported names (.logical (.ok v))
  | text (s : String) : Supported names (.text (.ok (.str s)))
  | binary {left right : Formula} (operator : Value) (hleft : Supported names left)
      (hright : Supported names right) : Supported names (.binary (.ok operator) left right)
  | choice {name : String} {test yes no : Formula} (hname : Text.upper name = "IF")
      (htest : Supported names test) (hyes : Supported names yes) (hno : Supported names no) :
      Supported names (.call (.ok (.str name)) [test, yes, no])
  | all {name : String} {arguments : List Formula} (hname : Text.upper name = "AND")
      (hne : arguments ≠ []) (harguments : ∀ f ∈ arguments, Supported names f) :
      Supported names (.call (.ok (.str name)) arguments)
  | sum {name : String} {arguments : List Formula} (hname : Text.upper name = "SUM")
      (hne : arguments ≠ [])
      (harguments : ∀ f ∈ arguments, MappedCell names f ∨ MappedRange names f) :
      Supported names (.call (.ok (.str name)) arguments)

/-- Whether the arguments of a function are of the kinds that it can put into SQL: a sum needs a
range in the first place, a conjunction takes no numbers. -/
def suits (name : String) (arguments : List Formula) : Bool :=
  if Text.upper name = "SUM" then arguments.head?.any (fun f => f.kind? = some .range)
  else if Text.upper name = "AND" then arguments.all (fun f => f.kind? ≠ some .number)
  else true

mutual

/-- Whether every function in a formula has suitable arguments, and every number is in range. -/
def renders : Formula → Bool
  | .binary _ left right => renders left && renders right
  | .call (.ok (.str name)) arguments => rendersAll arguments && suits name arguments
  | .number (.ok (.int n)) => (Binary64.ofInt? n).isSome
  | _ => true

/-- Whether all of several formulas do. -/
def rendersAll : List Formula → Bool
  | [] => true
  | f :: rest => renders f && rendersAll rest

end

theorem rendersAll_eq (fs : List Formula) : rendersAll fs = fs.all renders := by
  induction fs with
  | nil => rfl
  | cons f rest ih => rw [rendersAll, ih, List.all_cons]

/-- What a translation fails with: an argument has no columns, an argument is no text, a number is
out of range. -/
def slips : List Fault :=
  [.missing (.str "columns"), .wrongKind, .integerTooLarge]

variable {names : List (String × String)} {f : Formula} {t : Translated}

theorem MappedCell.exists_translate (h : MappedCell names f) : ∃ cell refKind column error,
    f.translate (columnMap names) = .ok (.cell cell refKind (.str column) error) := by
  obtain @⟨key, name, refKind, h⟩ := h
  exact ⟨_, _, name, none, translate_cellAt (by rw [columnName, member_columnMap, h])⟩

theorem MappedRange.exists_translate (h : MappedRange names f) : ∃ first last letters,
    ∃ columns : List String,
      f.translate (columnMap names) = .ok (.range first last letters (columns.map .str) none) := by
  obtain @⟨first, last, firstKind, lastKind, h⟩ := h
  exact ⟨_, _, _, _, translate_between (columnNames_columnMap h)⟩

/-- Every formula other than a range has SQL, which is a text unless the formula is a number. -/
theorem Supported.sql_of_translate (h : Supported names f)
    (ht : f.translate (columnMap names) = .ok t) :
    ∃ v, t.sql = .ok v ∧ (f.kind? ≠ some .number ↔ ∃ s, v = .str s) := by
  cases h with
  | cell h =>
    obtain ⟨_, _, column, _, hcell⟩ := h.exists_translate
    cases hcell.symm.trans ht
    cases h
    exact ⟨_, rfl, by simp [kind?]⟩
  | int | float =>
    obtain ⟨_, _, hv, -, rfl⟩ := translate_number_eq_ok.mp ht
    cases hv
    exact ⟨_, rfl, by simp [kind?]⟩
  | logical =>
    obtain ⟨_, -, rfl⟩ := translate_logical_eq_ok.mp ht
    exact ⟨_, rfl, by simp [kind?]⟩
  | text =>
    obtain ⟨_, -, rfl⟩ := translate_text_eq_ok.mp ht
    exact ⟨_, rfl, by simp [kind?]⟩
  | binary =>
    obtain ⟨_, _, _, _, _, -, -, -, -, -, rfl⟩ := translate_binary_eq_ok.mp ht
    exact ⟨_, rfl, by simp [kind?]⟩
  | choice | all | sum =>
    obtain ⟨_, _, _, -, -, -, rfl⟩ := translate_call_eq_ok.mp ht
    exact ⟨_, rfl, by simp [kind?]⟩

/-- A step succeeds exactly under a condition, and fails with a slip otherwise. -/
def Settles {α : Type} (condition : Bool) (result : Except Fault α) : Prop :=
  (condition = true ∧ ∃ a, result = .ok a)
    ∨ condition = false ∧ ∃ fault ∈ slips, result = .error fault

section

variable {α β : Type} {p q : Bool} {x : Except Fault α} {k : α → Except Fault β}

theorem Settles.bind (hx : Settles p x) (hk : ∀ a, x = .ok a → Settles q (k a)) :
    Settles (p && q) (x >>= k) := by
  rcases hx with ⟨rfl, a, rfl⟩ | ⟨rfl, fault, hfault, rfl⟩
  · exact hk a rfl
  · exact .inr ⟨rfl, fault, hfault, rfl⟩

theorem Settles.map (hx : Settles p x) (hk : ∀ a, x = .ok a → ∃ b, k a = .ok b) :
    Settles p (x >>= k) := by
  simpa using hx.bind (q := true) fun a ha => .inl ⟨rfl, hk a ha⟩

theorem settles_mapM {p : α → Bool} {xs : List α} (h : ∀ x ∈ xs, Settles (p x) (k x)) :
    Settles (xs.all p) (xs.mapM k) := by
  induction xs with
  | nil => exact .inl ⟨rfl, [], rfl⟩
  | cons x xs ih =>
    rw [List.all_cons, List.mapM_cons]
    refine (h x (.head _)).bind fun a _ => ?_
    exact (ih fun y hy => h y (.tail _ hy)).map fun as _ => ⟨_, rfl⟩

end

section Call

variable {name : String} {arguments : List Formula} {ts : List Translated}

theorem settles_call
    (harguments : ∀ f ∈ arguments, Settles f.renders (f.translate (columnMap names)))
    (hfunction : ∀ ts,
      List.Forall₂ (fun f t => f.translate (columnMap names) = .ok t) arguments ts →
        Settles (suits name arguments) (Sql.function name (ts.map operand))) :
    Settles (renders (.call (.ok (.str name)) arguments))
      (translate (columnMap names) (.call (.ok (.str name)) arguments)) := by
  rw [renders, translate, ok_bind, rendersAll_eq, translateAll_eq_mapM]
  refine (settles_mapM harguments).bind fun ts hts => ?_
  rw [Value.receiveText_eq_ok.mpr rfl, ok_bind]
  exact (hfunction ts (mapM_eq_ok.mp hts)).map fun s _ => ⟨_, rfl⟩

variable (hts : List.Forall₂ (fun f t => f.translate (columnMap names) = .ok t) arguments ts)
include hts

theorem translate_call : translate (columnMap names) (.call (.ok (.str name)) arguments) =
    Sql.function name (ts.map operand) >>= fun s => .ok (.call name ts s) := by
  rw [translate, ok_bind, translateAll_eq_mapM, mapM_eq_ok.mpr hts, ok_bind,
    Value.receiveText_eq_ok.mpr rfl, ok_bind]
  rfl

theorem settles_sum (hne : arguments ≠ [])
    (harguments : ∀ f ∈ arguments, MappedCell names f ∨ MappedRange names f) :
    Settles (arguments.head?.any (·.kind? = some .range))
      (Sql.sum (ts.map operand)) := by
  cases hts with
  | nil => exact absurd rfl hne
  | @cons f t fs ts ht =>
    rcases harguments f (by simp) with hcell | hrange
    · obtain ⟨_, _, _, _, hcell'⟩ := hcell.exists_translate
      cases hcell'.symm.trans ht
      cases hcell
      exact .inr ⟨rfl, _, by simp [slips], rfl⟩
    · obtain ⟨_, _, _, columns, hrange'⟩ := hrange.exists_translate
      cases hrange'.symm.trans ht
      cases hrange
      exact .inl ⟨rfl, _, (Sql.sum_eq_ok rfl).mpr ⟨columns, rfl, rfl⟩⟩

variable (harguments : ∀ f ∈ arguments, Supported names f)
include harguments

/-- What the arguments of a function are translated to has SQL. -/
theorem forall₂_sql :
    List.Forall₂ (fun f t => ∃ v, t.sql = .ok v ∧ (f.kind? ≠ some .number ↔ ∃ s, v = .str s))
      arguments ts :=
  ((List.forall₂_and_left _ _).mpr ⟨harguments, hts⟩).imp fun _ _ h => h.1.sql_of_translate h.2

theorem settles_conjunction : Settles (arguments.all (·.kind? ≠ some .number))
    (Sql.conjunction (ts.map operand)) := by
  have hparts : ∃ parts, (ts.map operand).mapM (·.sql) = .ok parts
      ∧ Settles (arguments.all (·.kind? ≠ some .number))
          (parts.mapM Value.expectText) := by
    have hsql := forall₂_sql hts harguments
    clear hts harguments
    induction hsql with
    | nil => exact ⟨[], rfl, .inl ⟨rfl, [], rfl⟩⟩
    | @cons f t fs ts h _ ih =>
      obtain ⟨v, hv, htext⟩ := h
      obtain ⟨parts, hparts, hsettles⟩ := ih
      refine ⟨v :: parts, ?_, ?_⟩
      · rw [List.map_cons, List.mapM_cons, hparts]
        exact congrArg (· >>= _) hv
      rw [List.all_cons, List.mapM_cons]
      refine Settles.bind ?_ fun s _ => hsettles.map fun ss _ => ⟨_, rfl⟩
      by_cases hkind : f.kind? ≠ some .number
      · obtain ⟨s, rfl⟩ := htext.mp hkind
        exact .inl ⟨by simp [hkind], s, rfl⟩
      · refine .inr ⟨by simp [hkind], .wrongKind, by simp [slips], ?_⟩
        cases v with
        | str s => exact absurd (htext.mpr ⟨s, rfl⟩) hkind
        | _ => rfl
  obtain ⟨parts, hparts, hsettles⟩ := hparts
  rw [Sql.conjunction, hparts, ok_bind]
  exact hsettles.map fun ss _ => ⟨_, rfl⟩

end Call

theorem Supported.settles (h : Supported names f) :
    Settles f.renders (f.translate (columnMap names)) := by
  induction h with
  | cell h =>
    obtain ⟨_, _, _, _, ht⟩ := h.exists_translate
    cases h
    exact .inl ⟨rfl, _, ht⟩
  | int n =>
    rw [renders, translate, ok_bind, toNumber]
    cases Binary64.ofInt? n with
    | none => exact .inr ⟨rfl, _, by simp [slips], rfl⟩
    | some x => exact .inl ⟨rfl, _, rfl⟩
  | float x | logical v | text s => exact .inl ⟨rfl, _, rfl⟩
  | binary operator hleft hright ihleft ihright =>
    refine ihleft.bind fun l hl => ihright.map fun r hr => ?_
    obtain ⟨v, hv, -⟩ := hleft.sql_of_translate hl
    obtain ⟨w, hw, -⟩ := hright.sql_of_translate hr
    rw [hv, hw]
    exact ⟨_, rfl⟩
  | choice hname htest hyes hno ihtest ihyes ihno =>
    refine settles_call (by simp [ihtest, ihyes, ihno]) fun ts hts => ?_
    obtain _ | ⟨⟨u, hu, -⟩, _ | ⟨⟨v, hv, -⟩, _ | ⟨⟨w, hw, -⟩, ⟨⟩⟩⟩⟩ :=
      forall₂_sql hts (by simp [htest, hyes, hno])
    rw [Sql.function_eq_condition hname]
    exact .inl ⟨by simp [suits, hname], _, Sql.condition_eq_ok.mpr ⟨_, _, _,
      Sql.argumentSql_eq_ok.mpr ⟨_, u, rfl, hu, rfl⟩,
      Sql.argumentSql_eq_ok.mpr ⟨_, v, rfl, hv, rfl⟩,
      Sql.argumentSql_eq_ok.mpr ⟨_, w, rfl, hw, rfl⟩, rfl⟩⟩
  | all hname hne harguments ih =>
    refine settles_call ih fun ts hts => ?_
    rw [Sql.function_eq_conjunction hname]
    simpa [suits, hname] using settles_conjunction hts harguments
  | sum hname hne harguments =>
    refine settles_call (fun f hf => ?_) fun ts hts => ?_
    · rcases harguments f hf with h | h
      all_goals
        obtain ⟨_, _, _, _, ht⟩ := h.exists_translate
        cases h
        exact .inl ⟨rfl, _, ht⟩
    · rw [Sql.function_eq_sum hname]
      simpa [suits, hname] using settles_sum hts hne harguments

end Formula

theorem translateRequest_eq (ast : Value) (names : List (String × String)) :
    translateRequest (.object [("ast", ast), ("columns", columnMap names)]) =
      (Formula.ofValue ast).translate (columnMap names) := rfl

/-- A formula of the supported forms is translated, and the translation has SQL, exactly if every
function has suitable arguments and every number is in range. -/
theorem supported_translates_iff {ast : Value} {names : List (String × String)}
    (h : (Formula.ofValue ast).Supported names) :
    ((∃ t sql, translateRequest (.object [("ast", ast), ("columns", columnMap names)]) = .ok t
        ∧ t.sql = .ok sql) ↔ (Formula.ofValue ast).renders = true)
      ∧ ((Formula.ofValue ast).renders = false → ∃ fault ∈ Formula.slips,
          translateRequest (.object [("ast", ast), ("columns", columnMap names)])
            = .error fault) := by
  rw [translateRequest_eq]
  rcases h.settles with ⟨hrenders, t, ht⟩ | ⟨hrenders, fault, hfault, hfails⟩
  · obtain ⟨sql, hsql, -⟩ := h.sql_of_translate ht
    rw [hrenders]
    exact ⟨iff_of_true ⟨t, sql, ht, hsql⟩ rfl, fun hnot => absurd hnot.symm Bool.false_ne_true⟩
  · rw [hrenders, hfails]
    refine ⟨iff_of_false ?_ Bool.false_ne_true, fun _ => ⟨fault, hfault, rfl⟩⟩
    rintro ⟨t, _, ht, -⟩
    exact error_ne_ok ht

/-- Names for the first five columns. -/
def fiveLetters : List (String × String) :=
  [("A", "col1"), ("B", "col2"), ("C", "col3"), ("D", "col4"), ("E", "col5")]

theorem mappedCell_fiveLetters (refKind : Value) : ∀ key ∈ ["A1", "B1", "E1"],
    Formula.MappedCell fiveLetters (.cell (.ok (.str key)) (.ok refKind)) := by
  have hmapped : ∀ key ∈ ["A1", "B1", "E1"],
      (Assoc.get? (Columns.ofCell key) fiveLetters).isSome := by decide +kernel
  intro key hkey
  obtain ⟨name, hname⟩ := Option.isSome_iff_exists.mp (hmapped key hkey)
  exact .intro refKind hname

/-- A sum over a range, a choice whose test is a conjunction of comparisons, and a quotient. -/
theorem nested_formula_translates :
    (Formula.ofValue Example.formula).Supported fiveLetters
      ∧ ∃ t sql, translateRequest (.object [("ast", Example.formula),
          ("columns", columnMap fiveLetters)]) = .ok t ∧ t.sql = .ok sql := by
  have hcell (refKind : Value) (key : String) (hkey : key ∈ ["A1", "B1", "E1"]) :
      Formula.Supported fiveLetters (.cell (.ok (.str key)) (.ok refKind)) :=
    .cell (mappedCell_fiveLetters refKind key hkey)
  have hspan : ∀ l ∈ Columns.span (Columns.ofCell "A1") (Columns.ofCell "$E$1"),
      (Assoc.get? l fiveLetters).isSome = true := by decide +kernel
  have hrange (kind other : Value) : Formula.MappedRange fiveLetters
      (.range (.cell (.ok (.str "A1")) (.ok kind)) (.cell (.ok (.str "$E$1")) (.ok other))) :=
    .intro _ _ fun l hl => Option.isSome_iff_exists.mp (hspan l hl)
  have hsupported : (Formula.ofValue Example.formula).Supported fiveLetters := by
    refine .binary _ (.binary _ (.sum rfl (List.cons_ne_nil _ _) ?_)
      (.choice rfl ?_ (.text _) (.text _))) (.binary _ (hcell _ _ (by simp)) (.float _))
    · exact List.forall_mem_singleton.mpr (.inr (hrange _ _))
    · refine .all rfl (List.cons_ne_nil _ _) ?_
      refine List.forall_mem_cons.mpr ⟨?_, List.forall_mem_singleton.mpr ?_⟩
      · exact .binary _ (hcell _ _ (by simp)) (.int 5)
      · exact .binary _ (hcell _ _ (by simp)) (.int 20)
  exact ⟨hsupported, (supported_translates_iff hsupported).1.mpr (by decide +kernel)⟩

/-- The sum of a single cell and a conjunction with a number are supported, but not translated. -/
theorem single_cell_has_no_sum :
    (Formula.ofValue (Example.call "SUM" [Example.cell "relative" "A1"])).Supported fiveLetters
      ∧ translateRequest (.object [("ast", Example.call "SUM" [Example.cell "relative" "A1"]),
          ("columns", columnMap fiveLetters)]) = .error (.missing (.str "columns"))
      ∧ (Formula.ofValue (Example.call "AND" [Example.number (.int 1)])).Supported fiveLetters
      ∧ translateRequest (.object [("ast", Example.call "AND" [Example.number (.int 1)]),
          ("columns", columnMap fiveLetters)]) = .error .wrongKind := by
  have hsum : Text.upper "SUM" = "SUM" := Text.upper_of_all_lt rfl
  have hand : Text.upper "AND" = "AND" := Text.upper_of_all_lt rfl
  have hcell : Formula.MappedCell fiveLetters (.cell (.ok (.str "A1")) (.ok (.str "relative"))) :=
    mappedCell_fiveLetters _ _ List.mem_cons_self
  refine ⟨.sum hsum (List.cons_ne_nil _ _) (List.forall_mem_singleton.mpr (.inl hcell)), ?_,
    .all hand (List.cons_ne_nil _ _) (List.forall_mem_singleton.mpr (.int 1)), ?_⟩
  · have hast : Formula.ofValue (Example.call "SUM" [Example.cell "relative" "A1"]) =
        .call (.ok (.str "SUM")) [.cell (.ok (.str "A1")) (.ok (.str "relative"))] := rfl
    obtain ⟨_, _, _, _, ht⟩ := hcell.exists_translate
    rw [translateRequest_eq, hast, Formula.translate_call (.cons ht .nil), Sql.function_eq_sum hsum]
    rfl
  · have hast : Formula.ofValue (Example.call "AND" [Example.number (.int 1)]) =
        .call (.ok (.str "AND")) [.number (.ok (.int 1))] := rfl
    obtain ⟨number, ht⟩ : ∃ number, Formula.translate (columnMap fiveLetters)
        (.number (.ok (.int 1))) = .ok (.number number (.int 1)) := ⟨_, rfl⟩
    rw [translateRequest_eq, hast, Formula.translate_call (.cons ht .nil),
      Sql.function_eq_conjunction hand]
    rfl

end SheetIntake
