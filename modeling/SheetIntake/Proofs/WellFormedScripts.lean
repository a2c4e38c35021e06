import SheetIntake.Proofs.ColumnLevels
import SheetIntake.Proofs.QuotedTexts
import SheetIntake.Proofs.ResolvedReferences
import SheetIntake.Proofs.SqlStatements

/-!
# Scripts and the grammar of SQL

The script of a family of formulas is a sequence of statements. What a column is generated from is an
expression, but it is never put in brackets of its own, which the grammar asks for: the SQL of an
operator starts and ends with a bracket, and these two are no pair.

## The statement

* **`script_grammatical_iff`** — a script is a sequence of statements, and the generated columns have
  their brackets only if there is none.
-/

namespace SheetIntake

open Outcome Text

/-! ## Numbers -/

namespace Sql

theorem isDigits_toDigits (n : Nat) : IsDigits (Nat.toDigits 10 n) :=
  ⟨Nat.toDigits_ne_nil, Json.isDigit_toDigits⟩

theorem isNumeral_int (n : Int) : IsNumeral (toString n).toList := by
  have hdigits : IsUnsigned (Nat.toDigits 10 n.natAbs) :=
    ⟨Nat.toDigits 10 n.natAbs, [], [], by simp, isDigits_toDigits _, .inl rfl, .inl rfl⟩
  rw [Json.toList_toString_int]
  unfold Json.signed
  split
  · exact .inr ⟨_, rfl, hdigits⟩
  · exact .inl hdigits

theorem isUnsigned_render (d : Decimal) : IsUnsigned (d.render .text) := by
  have hprinted := Json.printed_render d
  generalize d.render .text = cs at hprinted ⊢
  cases hprinted with
  | @pointed whole fraction hwhole _ hfraction =>
    exact ⟨whole, '.' :: fraction, [], (List.append_nil _).symm, hwhole, .inr ⟨_, rfl, hfraction⟩,
      .inl rfl⟩
  | @scaled c point fraction ds minus hc _ hpoint hds =>
    refine ⟨[c], point, _, rfl, ⟨by simp, by simpa using hc⟩, ?_, .inr ⟨_, ds, rfl, ?_, hds⟩⟩
    · rcases hpoint with ⟨rfl, -⟩ | ⟨rfl, hfraction⟩
      · exact .inl rfl
      · exact .inr ⟨fraction, rfl, hfraction⟩
    · cases minus
      · exact .inl rfl
      · exact .inr rfl

theorem isNumeral_finite (negative : Bool) {m : Nat} {e : Int} (h : Binary64.Canonical m e) :
    IsNumeral (Binary64.finite negative m e h).text.toList := by
  have hrender := isUnsigned_render (Decimal.shortest m e)
  rw [Binary64.text, String.toList_ofList]
  split
  · exact .inr ⟨_, rfl, hrender⟩
  · exact .inl hrender

end Sql

/-! ## Functions -/

namespace Sql

variable {os : List Operand} {s : String}

theorem Bare.argumentSql (h : ∀ o ∈ os, ∀ v, o.sql = .ok v → Bare v.text) {n : Nat}
    (hs : Sql.argumentSql os n = .ok s) : Bare s := by
  obtain ⟨o, v, ho, hv, rfl⟩ := argumentSql_eq_ok.mp hs
  exact h o (List.mem_of_getElem? ho) v hv

theorem Bare.function {name : String} (hname : Text.upper name = "IF" ∨ Text.upper name = "AND")
    (hne : os ≠ []) (h : ∀ o ∈ os, ∀ v, o.sql = .ok v → Bare v.text)
    (hs : Sql.function name os = .ok s) : Bare s := by
  rcases hname with hname | hname
  · rw [function_eq_condition hname] at hs
    obtain ⟨test, yes, no, htest, hyes, hno, rfl⟩ := condition_eq_ok.mp hs
    refine .of_head (.choice (Bare.argumentSql h htest).derivable (Bare.argumentSql h hyes).derivable
      (Bare.argumentSql h hno).derivable) ?_
    simp
  · rw [function_eq_conjunction hname] at hs
    obtain ⟨ss, hss, rfl⟩ := conjunction_eq_ok.mp hs
    refine .conjunction ?_ fun r hr => ?_
    · rintro rfl
      exact hne (List.forall₂_nil_right_iff.mp hss)
    · have hparts : os.mapM Operand.sql = .ok (ss.map .str) :=
        mapM_eq_ok.mpr (List.forall₂_map_right_iff.mpr hss)
      obtain ⟨o, ho, hsql⟩ := (mem_of_mapM_eq_ok hparts).mp (List.mem_map_of_mem hr)
      exact h o ho (.str r) hsql

end Sql

/-! ## Formulas that are expressions -/

namespace Formula

/-- Cells, finite numbers, truth values, texts without quotes, operators of SQL, conditions and
conjunctions with at least one part. -/
inductive Expressible : Formula → Prop where
  | cell (key refKind : Field) : Expressible (.cell key refKind)
  | int (n : Int) : Expressible (.number (.ok (.int n)))
  | float (negative : Bool) {m : Nat} {e : Int} (h : Binary64.Canonical m e) :
      Expressible (.number (.ok (.float (.finite negative m e h))))
  | logical (value : Field) : Expressible (.logical value)
  | text {s : String} (h : IsQuoteFree s.toList) : Expressible (.text (.ok (.str s)))
  | binary {o : String} {left right : Formula} (ho : o ∈ Sql.operators) (hleft : Expressible left)
      (hright : Expressible right) : Expressible (.binary (.ok (.str o)) left right)
  | call {name : String} {arguments : List Formula}
      (hname : Text.upper name = "IF" ∨ Text.upper name = "AND") (hne : arguments ≠ [])
      (harguments : ∀ f ∈ arguments, Expressible f) : Expressible (.call (.ok (.str name)) arguments)

theorem Expressible.bare {columns : Value} {f : Formula} {t : Translated} {v : Value}
    (h : f.Expressible) (ht : f.translate columns = .ok t)
    (hnames : ∀ w ∈ t.references, ∃ name, w = .str name ∧ Sql.IsPlainName name)
    (hv : t.sql = .ok v) : Sql.Bare v.text := by
  induction h generalizing t v with
  | cell key refKind =>
    obtain ⟨_, _, column, _, -, rfl⟩ := translate_cell_eq_ok.mp ht
    obtain rfl := Except.ok.inj hv
    obtain ⟨name, rfl, hname⟩ := hnames column (List.mem_singleton_self column)
    exact .of_head (.name hname) (Sql.head_ne_of_isFlat (Sql.isFlat_of_isPlainName hname))
  | int n =>
    obtain ⟨_, _, hvalue, -, rfl⟩ := translate_number_eq_ok.mp ht
    cases hvalue
    cases hv
    have hnumeral := Sql.isNumeral_int n
    exact .of_head (.numeral hnumeral) (Sql.head_ne_of_isFlat (Sql.isFlat_of_isNumeral hnumeral))
  | float negative h =>
    obtain ⟨_, _, hvalue, -, rfl⟩ := translate_number_eq_ok.mp ht
    cases hvalue
    cases hv
    have hnumeral := Sql.isNumeral_finite negative h
    exact .of_head (.numeral hnumeral) (Sql.head_ne_of_isFlat (Sql.isFlat_of_isNumeral hnumeral))
  | logical value =>
    obtain ⟨w, -, rfl⟩ := translate_logical_eq_ok.mp ht
    cases hv
    cases (decide (Text.lowerBasic w.text = "true")) <;>
      exact .of_head (.truth (by decide)) (by decide)
  | @text s h =>
    obtain ⟨_, hvalue, rfl⟩ := translate_text_eq_ok.mp ht
    obtain rfl := Value.str.inj (Except.ok.inj hvalue)
    cases hv
    have hquoted : "'" ++ Text.replaceAll s "\"" "'" ++ "'" = "'" ++ s ++ "'" := by
      refine String.toList_inj.mp ?_
      rw [Sql.toList_quoted, Sql.quoted_of_not_mem h.2]
      simp
    rw [Value.text, hquoted]
    exact .of_head (.literal h.1) (by simp)
  | @binary o left right ho _ _ ihleft ihright =>
    obtain ⟨l, r, _, a, b, hl, hr, hoperator, ha, hb, rfl⟩ := translate_binary_eq_ok.mp ht
    cases hoperator
    cases hv
    rw [Translated.references_binary, List.forall_mem_append] at hnames
    exact .operation ho (ihleft hl hnames.1 ha).derivable (ihright hr hnames.2 hb).derivable
  | @call name arguments hname hne _ ih =>
    obtain ⟨_, ts, s, hvalue, hts, hs, rfl⟩ := translate_call_eq_ok.mp ht
    obtain rfl := Value.str.inj (Except.ok.inj hvalue)
    cases hv
    rw [Translated.references_call] at hnames
    rw [translateAll_eq_mapM] at hts
    refine Sql.Bare.function hname ?_ (fun o ho w hw => ?_) hs
    · intro hnil
      rw [List.map_eq_nil_iff.mp hnil, mapM_eq_ok, List.forall₂_nil_right_iff] at hts
      exact hne hts
    · obtain ⟨u, hu, rfl⟩ := List.mem_map.mp ho
      obtain ⟨f, hf, hfu⟩ := (mem_of_mapM_eq_ok hts).mp hu
      exact ih f hf hfu (fun w hw => hnames w (List.mem_flatMap.mpr ⟨u, hu, hw⟩)) hw

end Formula

/-! ## The statements of a script -/

/-- The entry of a column has a plain type, and nothing that stands after it. -/
def Script.PlainlyTyped (types : Value) (name : String) : Prop :=
  ∃ entry type, types.member name = .ok (.object entry)
    ∧ Assoc.get? "type" entry = some (.str type) ∧ Assoc.get? "extra" entry = none
    ∧ Sql.IsPlainName type

theorem Script.PlainlyTyped.isPlainName {types : Value} {name type : String}
    (h : PlainlyTyped types name) (htype : columnType types name = .ok type) :
    Sql.IsPlainName type := by
  obtain ⟨entry, found, hentry, hfound, hextra, hplain⟩ := h
  rw [columnType, hentry, ok_bind, Value.member, hfound, ok_bind, Value.memberOr, hextra] at htype
  cases htype
  simpa [Value.text] using hplain

/-- A statement and others that are written on lines of their own. -/
theorem Sql.sequence_led (s : String) {gap : String} (hgap : gap.toList.all Char.isWhitespace)
    (ss : List String) :
    Sequence (s :: ss) (s ++ gap ++ String.join (ss.map ("\n" ++ ·))) := by
  induction ss generalizing s gap with
  | nil => exact .cons hgap .nil
  | cons r ss ih =>
    have hline : (gap ++ "\n").toList.all Char.isWhitespace := by
      rw [String.toList_append, List.all_append, hgap]
      rfl
    have hrest := Sequence.cons (s := s) hline (@ih r "" rfl)
    simpa [String.append_assoc] using hrest

theorem exists_declared {types : Value} {columns : List Column} {declarations : List String}
    (hcolumns : ∀ c ∈ columns, Sql.IsPlainName c.name ∧ Script.PlainlyTyped types c.name)
    (h : List.Forall₂ (fun c s => Script.declaration types c.name = .ok s) columns declarations) :
    ∃ pairs : List (String × String), pairs.map (fun c => c.1 ++ " " ++ c.2) = declarations
      ∧ ∀ c ∈ pairs, Sql.IsPlainName c.1 ∧ Sql.IsPlainName c.2 := by
  induction h with
  | nil => exact ⟨[], rfl, List.forall_mem_nil _⟩
  | @cons c s columns declarations hs _ ih =>
    obtain ⟨⟨hname, htyped⟩, hrest⟩ := List.forall_mem_cons.mp hcolumns
    obtain ⟨type, htype, rfl⟩ := Script.declaration_eq_ok.mp hs
    obtain ⟨pairs, rfl, hpairs⟩ := ih hrest
    exact ⟨(c.name, type) :: pairs, rfl,
      List.forall_mem_cons.mpr ⟨⟨hname, htyped.isPlainName htype⟩, hpairs⟩⟩

section Statements

variable {columns : List Column} {graph : DependencyGraph} {types : Value} {table : String}
  {script : Script}

theorem Script.statement_addition_iff {c : Column} {s : String} {sql : Value}
    {generation : String → Prop} (htable : Sql.IsPlainName table) (hname : Sql.IsPlainName c.name)
    (htyped : PlainlyTyped types c.name) (hs : addition types table c = .ok s)
    (hsql : c.sql = .ok sql) : Sql.Statement generation s ↔ generation sql.text := by
  obtain ⟨type, found, htype, hfound, rfl⟩ := addition_eq_ok.mp hs
  cases hsql.symm.trans hfound
  have hplain := htyped.isPlainName htype
  exact ⟨Sql.Statement.generation_of_add htable hname hplain, .add htable hname hplain⟩

variable (hne : columns ≠ []) (hgraph : DependencyGraph.ofColumns columns = .ok graph)
  (hscript : Script.ofGraph columns graph types table = .ok script) (htable : Sql.IsPlainName table)
  (hcolumns : ∀ c ∈ columns, Sql.IsPlainName c.name ∧ Script.PlainlyTyped types c.name)

include hne hgraph hscript htable hcolumns

/-- The statements that the text of a script consists of. The one that creates the table is always well
formed, since a family without cycles has a column to create. -/
theorem Script.exists_statements :
    ∃ first statements, Sql.Sequence (first :: statements) script.text
      ∧ (∀ generation, Sql.Statement generation first)
      ∧ (added columns graph).mapM (addition types table) = .ok statements := by
  obtain ⟨declarations, statements, hdeclarations, hstatements, hcreate, hadditions⟩ :=
    ofGraph_eq_ok hscript
  refine ⟨script.create, statements, ?_, fun generation => ?_, mapM_eq_ok.mpr hstatements⟩
  · rw [text_eq, hadditions]
    exact Sql.sequence_led script.create rfl statements
  · have hcreated := created_ne_nil hne hgraph (groups_of_ofGraph hscript).1
    obtain ⟨pairs, rfl, hpairs⟩ :=
      exists_declared (fun c hc => hcolumns c (mem_created.mp hc).1) hdeclarations
    have hsome : pairs ≠ [] := by
      rintro rfl
      exact hcreated (List.forall₂_nil_right_iff.mp hdeclarations)
    rw [hcreate, creation_of_ne_nil (by simpa using hsome)]
    exact .create htable hsome hpairs

/-- If the SQL of the columns are expressions that are not in brackets, the statements are well formed
but for the brackets that are missing. -/
theorem Script.isScript_of_bare
    (hbare : ∀ c ∈ columns, ∀ sql, c.sql = .ok sql → Sql.Bare sql.text) :
    Sql.IsScript (Sql.Derivable .expression) script.text
      ∧ ∀ inner : String → Prop, (∀ i, inner i → Sql.IsBalanced i) →
        (Sql.IsScript (Sql.Enclosed inner) script.text ↔ added columns graph = []) := by
  obtain ⟨first, statements, hsequence, hfirst, hstatements⟩ :=
    exists_statements hne hgraph hscript htable hcolumns
  -- what is known of the statement of an added column
  have hstatement {c : Column} (hc : c ∈ added columns graph) {s : String}
      (hs : addition types table c = .ok s) :
      ∃ e, Sql.Bare e ∧ ∀ generation, Sql.Statement generation s ↔ generation e := by
    have hmem := (mem_added.mp hc).1
    obtain ⟨_, sql, -, hsql, -⟩ := addition_eq_ok.mp hs
    exact ⟨sql.text, hbare c hmem sql hsql, fun generation =>
      statement_addition_iff htable (hcolumns c hmem).1 (hcolumns c hmem).2 hs hsql⟩
  have hall : ∀ s ∈ first :: statements, Sql.Statement (Sql.Derivable .expression) s := by
    refine List.forall_mem_cons.mpr ⟨hfirst _, fun s hs => ?_⟩
    obtain ⟨c, hc, hadd⟩ := (mem_of_mapM_eq_ok hstatements).mp hs
    obtain ⟨e, he, hiff⟩ := hstatement hc hadd
    exact (hiff _).mpr he.derivable
  refine ⟨⟨_, hsequence, hall⟩, fun inner hinner => ⟨?_, fun hnone => ?_⟩⟩
  · rintro ⟨ss, hss, hgenerated⟩
    -- both ways to cut the text give the same statements
    have hbalanced (e : String) (he : Sql.Enclosed inner e) : Sql.IsBalanced e := by
      obtain ⟨i, hi, rfl⟩ := he
      exact (hinner i hi).brackets
    obtain rfl := hss.unique hsequence rfl (fun s hs => (hgenerated s hs).terminated hbalanced)
      (fun s hs => (hall s hs).terminated fun e he => he.isBalanced)
    by_contra hsome
    obtain ⟨c, hc⟩ := List.exists_mem_of_ne_nil _ hsome
    obtain ⟨s, hs, hadd⟩ := exists_of_mapM_eq_ok hstatements hc
    obtain ⟨e, he, hiff⟩ := hstatement hc hadd
    obtain ⟨i, hi, hbrackets⟩ := (hiff _).mp (hgenerated s (.tail first hs))
    exact he.ne_brackets i (hinner i hi) hbrackets
  · rw [hnone] at hstatements
    cases hstatements
    exact ⟨_, hsequence, List.forall_mem_cons.mpr ⟨hfirst _, List.forall_mem_nil _⟩⟩

end Statements

/-! ## Families of formulas -/

section Families

variable {names : List (String × String)} {formulas : List (String × Value)}
  {family : List (String × Translated)} {graph : DependencyGraph}

theorem DependencyGraph.outgoing_ne_zero_iff_cells (hkeys : (family.map Prod.fst).Nodup)
    (hgraph : ofColumns (family.map Column.ofTranslated) = .ok graph) {f : Formula} {name : String}
    {t : Translated} (ht : f.translate (columnMap names) = .ok t) (hmem : (name, t) ∈ family) :
    graph.outgoing name ≠ 0 ↔ f.cells ≠ [] := by
  have hcolumn := List.mem_map_of_mem (f := Column.ofTranslated) hmem
  have hrange := (references_of_ofColumns hgraph hmem).1
  have hreferences {v : Value} :=
    mem_references_columnMap (v := v) ((Formula.hasRange_translate ht).mp hrange) ht
  rw [← Column.names_ofTranslated] at hkeys
  refine (outgoing_ne_zero_iff hkeys hgraph hcolumn).trans ?_
  constructor
  · rintro ⟨b, hmention⟩ hnil
    obtain ⟨key, way, hcell, -⟩ := hreferences.mp ((Translated.mentions_definition_iff hrange).mp hmention)
    rw [hnil] at hcell
    cases hcell
  · intro hcells
    obtain ⟨c, hc⟩ := List.exists_mem_of_ne_nil _ hcells
    obtain ⟨key, way, rfl⟩ := Formula.usable_of_translate ht c hc
    exact ⟨mappedName names key,
      (Translated.mentions_definition_iff hrange).mpr (hreferences.mpr ⟨key, way, hc, rfl⟩)⟩

theorem Formula.Expressible.bare_of_graph
    (hgraph : DependencyGraph.ofColumns (family.map Column.ofTranslated) = .ok graph)
    (hplain : ∀ e ∈ family, Sql.IsPlainName e.1) {f : Formula} (hf : f.Expressible) {name : String}
    {t : Translated} (ht : f.translate (columnMap names) = .ok t) (hmem : (name, t) ∈ family)
    {v : Value} (hv : t.sql = .ok v) : Sql.Bare v.text := by
  obtain ⟨hrange, hreferences⟩ := DependencyGraph.references_of_ofColumns hgraph hmem
  refine hf.bare ht (fun w hw => ?_) hv
  obtain ⟨key, way, -, rfl⟩ :=
    (mem_references_columnMap ((Formula.hasRange_translate ht).mp hrange) ht).mp hw
  obtain ⟨e, he, hname⟩ := List.mem_map.mp (hreferences _ hw)
  exact ⟨_, rfl, hname ▸ hplain e he⟩

end Families

/-- Take any family of at least one formula, built of cells, finite numbers, truth values, texts without
quotes, operators, conditions and conjunctions, and any map of columns. Let the names of the table and
of the columns and the types be plain, and let there be a script for them. Then its text is a sequence
of statements in which every generated column comes from an expression. Whatever texts, with brackets in
pairs and without semicolons, are taken for expressions inside of brackets: the text is a sequence of
statements in which every generated column comes from such a text in a pair of brackets exactly when no
formula has a cell, which is when no column is generated. -/
theorem script_grammatical_iff {names : List (String × String)} {formulas : List (String × Value)}
    {types : Value} {table : String} {script : Script} (hne : formulas ≠ [])
    (hkeys : (formulas.map Prod.fst).Nodup)
    (hformulas : ∀ f ∈ formulas, (Formula.ofValue f.2).Expressible)
    (htable : Sql.IsPlainName table)
    (hcolumns : ∀ f ∈ formulas, Sql.IsPlainName f.1 ∧ Script.PlainlyTyped types f.1)
    (h : (do Script.ofTranslated (← translateFamily (columnMap names) formulas) types table) =
      Except.ok script) :
    Sql.IsScript (Sql.Derivable .expression) script.text
      ∧ ∀ inner : String → Prop, (∀ i, inner i → Sql.IsBalanced i) →
        (Sql.IsScript (Sql.Enclosed inner) script.text ↔
          ∀ f ∈ formulas, (Formula.ofValue f.2).cells = []) := by
  obtain ⟨family, hfamily, hscript⟩ := bind_eq_ok.mp h
  rw [Script.ofTranslated, Script.ofColumns, Column.ofValue_family, ok_bind] at hscript
  obtain ⟨graph, hgraph, hscript⟩ := bind_eq_ok.mp hscript
  have hfirsts := names_of_translateFamily hfamily
  have hkeys' : (family.map Prod.fst).Nodup := hfirsts ▸ hkeys
  have hplain : ∀ e ∈ family, Sql.IsPlainName e.1 ∧ Script.PlainlyTyped types e.1 := by
    intro e he
    obtain ⟨f, hf, hname, -⟩ := exists_formula_of_mem hfamily he
    exact hname ▸ hcolumns f hf
  have hbare : ∀ c ∈ family.map Column.ofTranslated, ∀ sql, c.sql = .ok sql → Sql.Bare sql.text := by
    intro c hc sql hsql
    obtain ⟨e, he, rfl⟩ := List.mem_map.mp hc
    obtain ⟨f, hf, -, ht⟩ := exists_formula_of_mem hfamily he
    exact (hformulas f hf).bare_of_graph hgraph (fun e he => (hplain e he).1) ht he hsql
  have hsome : family.map Column.ofTranslated ≠ [] := by
    rintro hnil
    rw [List.map_eq_nil_iff.mp hnil, List.map_nil, eq_comm, List.map_eq_nil_iff] at hfirsts
    exact hne hfirsts
  obtain ⟨hderivable, henclosed⟩ := Script.isScript_of_bare hsome hgraph hscript htable
    (List.forall_mem_map.mpr hplain) hbare
  refine ⟨hderivable, fun inner hinner => (henclosed inner hinner).trans ⟨?_, ?_⟩⟩
  · intro hnone f hf
    obtain ⟨t, ht, he⟩ := exists_translated hfamily hf
    by_contra hcells
    have hlevel := (DependencyGraph.outgoing_ne_zero_iff_cells hkeys' hgraph ht he).mpr hcells
    have hadded := Script.mem_added.mpr ⟨List.mem_map_of_mem (f := Column.ofTranslated) he, hlevel⟩
    rw [hnone] at hadded
    exact absurd hadded List.not_mem_nil
  · intro hcells
    refine List.eq_nil_iff_forall_not_mem.mpr fun c hc => ?_
    obtain ⟨hmem, hlevel⟩ := Script.mem_added.mp hc
    obtain ⟨e, he, rfl⟩ := List.mem_map.mp hmem
    obtain ⟨f, hf, -, ht⟩ := exists_formula_of_mem hfamily he
    exact (DependencyGraph.outgoing_ne_zero_iff_cells hkeys' hgraph ht he).mp hlevel (hcells f hf)

theorem plainlyTyped_price {name : String} (h : name ∈ ["net", "gross", "rating"]) :
    Script.PlainlyTyped priceTypes name := by
  simp only [List.mem_cons, List.not_mem_nil, or_false] at h
  rcases h with rfl | rfl | rfl <;> exact ⟨_, "INTEGER", rfl, rfl, rfl, by decide⟩

theorem expressible_rated : ∀ f ∈ ratedFormulas, (Formula.ofValue f.2).Expressible := by
  have hif : Text.upper "IF" = "IF" := Text.upper_of_all_lt rfl
  have hand : Text.upper "AND" = "AND" := Text.upper_of_all_lt rfl
  have htest : (Formula.ofValue (Example.call "AND"
      [Example.binary ">" (Example.cell "absolute" "$B$1") (Example.cell "relative" "A1")])).Expressible :=
    .call (.inr hand) (List.cons_ne_nil _ _) (List.forall_mem_cons.mpr
      ⟨.binary (by decide) (.cell _ _) (.cell _ _), List.forall_mem_nil _⟩)
  have hrating := Formula.Expressible.call (.inl hif) (List.cons_ne_nil _ _)
    (List.forall_mem_cons.mpr ⟨htest, List.forall_mem_cons.mpr
      ⟨.text (s := "high") (by decide), List.forall_mem_cons.mpr
        ⟨.text (s := "low") (by decide), List.forall_mem_nil _⟩⟩⟩)
  exact List.forall_mem_cons.mpr ⟨.int 7, List.forall_mem_cons.mpr
    ⟨.binary (by decide) (.cell _ _) (.int 2), List.forall_mem_cons.mpr
      ⟨hrating, List.forall_mem_nil _⟩⟩⟩

/-- The script of the rated formulas is a sequence of statements, but the columns are generated from
expressions without brackets. -/
theorem rated_script_grammatical :
    ∃ script,
      (do Script.ofTranslated (← translateFamily (columnMap priceLetters) ratedFormulas)
            priceTypes "prices") = Except.ok script
        ∧ Sql.IsScript (Sql.Derivable .expression) script.text
        ∧ ¬ Sql.IsScript (Sql.Enclosed (Sql.Derivable .expression)) script.text := by
  have hacyclic : ∀ a, ¬ Relation.TransGen (RefersTo ratedFamily) a a :=
    no_cycle_of_length (by decide)
  obtain ⟨script, hscript⟩ :=
    settled_rated.exists_ofTranslated_eq_ok hacyclic typed_rated (by decide) "prices"
  have hsteps :
      (do Script.ofTranslated (← translateFamily (columnMap priceLetters) ratedFormulas)
            priceTypes "prices") = Except.ok script :=
    bind_eq_ok.mpr ⟨ratedFamily, translateFamily_rated, hscript⟩
  have hplain : ∀ f ∈ ratedFormulas, Sql.IsPlainName f.1 := by decide
  obtain ⟨hderivable, henclosed⟩ := script_grammatical_iff (by decide) (by decide) expressible_rated
    (by decide) (fun f hf => ⟨hplain f hf, plainlyTyped_price (List.mem_map_of_mem hf)⟩) hsteps
  refine ⟨script, hsteps, hderivable, fun hscript => ?_⟩
  have hcells := (henclosed _ fun i hi => hi.isBalanced).mp hscript _
    (List.mem_cons_of_mem _ List.mem_cons_self)
  exact absurd hcells (List.cons_ne_nil _ _)

/-- `a = 1`, `b = A1 + 2` -/
def stepFormulas : List (String × Value) :=
  [("a", Example.number (.int 1)),
   ("b", Example.binary "+" (Example.cell "relative" "A1") (Example.number (.int 2)))]

/-- A type for both columns. -/
def stepTypes : Value :=
  .object [("a", .object [("type", .str "INTEGER")]), ("b", .object [("type", .str "INTEGER")])]

/-- Their script. -/
def stepScript : Script where
  create := "CREATE TABLE IF NOT EXISTS t (a INTEGER);"
  additions := [(1, ["ALTER TABLE t ADD COLUMN b INTEGER GENERATED ALWAYS AS (a) + (2) STORED;"])]

set_option maxRecDepth 20000 in
theorem script_step :
    (do Script.ofTranslated (← translateFamily (columnMap [("A", "a")]) stepFormulas) stepTypes "t") =
      Except.ok stepScript := by
  with_unfolding_all rfl

def stepColumns : List Column :=
  [{ name := "a", definition := .constant, sql := .ok (.int 1) },
   { name := "b", definition := .binary (.cell (.ok (.str "a"))) .constant, sql := .ok (.str "(a) + (2)") }]

/-- Who refers to whom. -/
def stepGraph : DependencyGraph :=
  { names := ["a", "b"], edges := [("b", "a")] }

theorem bare_step : ∀ c ∈ stepColumns, ∀ sql, c.sql = .ok sql → Sql.Bare sql.text := by
  have hnumeral (n : Int) : Sql.Derivable .operand (toString n) := .numeral (Sql.isNumeral_int n)
  refine List.forall_mem_cons.mpr ⟨fun sql hsql => ?_, List.forall_mem_cons.mpr ⟨fun sql hsql => ?_,
    List.forall_mem_nil _⟩⟩
  · cases hsql
    exact .of_head (hnumeral 1) (by decide)
  · cases hsql
    exact .operation (o := "+") (a := "a") (b := toString (2 : Int)) (by decide)
      (.of_operand (.name (by decide))) (.of_operand (hnumeral 2))

set_option maxRecDepth 20000 in
/-- A script whose one generated column has no brackets around its expression. -/
theorem generated_without_brackets :
    (∀ f ∈ stepFormulas, (Formula.ofValue f.2).Expressible)
      ∧ (do Script.ofTranslated (← translateFamily (columnMap [("A", "a")]) stepFormulas) stepTypes
              "t") = Except.ok stepScript
      ∧ ¬ Sql.IsScript (Sql.Enclosed (Sql.Derivable .expression)) stepScript.text := by
  refine ⟨?_, script_step, fun hscript => ?_⟩
  · exact List.forall_mem_cons.mpr ⟨.int 1, List.forall_mem_cons.mpr
      ⟨.binary (by decide) (.cell _ _) (.int 2), fun f hf => absurd hf List.not_mem_nil⟩⟩
  · have hplain : ∀ c ∈ stepColumns, Sql.IsPlainName c.name ∧ Script.PlainlyTyped stepTypes c.name :=
      List.forall_mem_cons.mpr ⟨⟨by decide, _, "INTEGER", rfl, rfl, rfl, by decide⟩,
        List.forall_mem_cons.mpr ⟨⟨by decide, _, "INTEGER", rfl, rfl, rfl, by decide⟩,
          fun c hc => absurd hc List.not_mem_nil⟩⟩
    have hofGraph : Script.ofGraph stepColumns stepGraph stepTypes "t" = .ok stepScript := by
      with_unfolding_all rfl
    have hnone : Script.added stepColumns stepGraph = [] :=
      ((Script.isScript_of_bare (List.cons_ne_nil _ _) rfl hofGraph (by decide) hplain
        bare_step).2 _ fun i hi => hi.isBalanced).mp hscript
    -- the second column refers to the first
    have hadded : (stepColumns.get ⟨1, by decide⟩) ∈ Script.added stepColumns stepGraph :=
      Script.mem_added.mpr ⟨List.get_mem _ _, by decide⟩
    rw [hnone] at hadded
    exact absurd hadded List.not_mem_nil

end SheetIntake
