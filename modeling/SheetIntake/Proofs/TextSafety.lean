import SheetIntake.Ddl.Example
import SheetIntake.Proofs.QuotedTexts
import SheetIntake.Proofs.TranslationForms

/-!
# Texts inside of their literals

The SQL of a formula shows some of its texts, each between quotes. `Formula.hollow` is a formula with
its texts emptied: two formulas differ only in texts exactly when they are the same then.

* **`texts_are_literals_iff`** — the literals of the SQL are the texts of the formula exactly when no
  text has a quote; formulas that differ only in such texts have the same SQL outside of literals.
-/

namespace SheetIntake

open Outcome Text

/-! ## Formulas and their texts -/

/-- The arguments of a function whose SQL is part of its own: a condition with its two outcomes, or
all parts of a conjunction. -/
def Sql.shown {α : Type} (name : String) (arguments : List α) : List α :=
  let key := Text.upper name
  if key = "IF" then arguments.take 3 else if key = "AND" then arguments else []

namespace Formula

mutual

def texts : Formula → List String
  | .binary _ left right => texts left ++ texts right
  | .call (.ok (.str name)) arguments => (Sql.shown name (textsOfEach arguments)).flatten
  | .text (.ok (.str s)) => [s]
  | _ => []

def textsOfEach : List Formula → List (List String)
  | [] => []
  | f :: rest => texts f :: textsOfEach rest

end

mutual

def hollow : Formula → Formula
  | .binary operator left right => .binary operator (hollow left) (hollow right)
  | .call name arguments => .call name (hollowAll arguments)
  | .range first last => .range (hollow first) (hollow last)
  | .text (.ok (.str _)) => .text (.ok (.str ""))
  | f => f

/-- Formulas with their texts emptied. -/
def hollowAll : List Formula → List Formula
  | [] => []
  | f :: rest => hollow f :: hollowAll rest

end

/-- Operators have no quotes, and functions are among those that have a form in SQL. -/
inductive Regular : Formula → Prop where
  | binary {operator : Field} {left right : Formula}
      (hoperator : ∀ o, operator = .ok o → IsQuoteFree o.text.toList) (hleft : Regular left)
      (hright : Regular right) : Regular (.binary operator left right)
  | call {name : Field} {arguments : List Formula}
      (hname : ∀ s, name = .ok (.str s) → Text.upper s ∈ ["SUM", "IF", "AND"])
      (harguments : ∀ f ∈ arguments, Regular f) : Regular (.call name arguments)
  | other {f : Formula} (hbinary : f.kind? ≠ some .binary) (hcall : f.kind? ≠ some .call) : Regular f

end Formula

def HasPlainNames (columns : Value) : Prop :=
  ∀ letters name, columns.member letters = .ok name → IsQuoteFree name.text.toList

theorem hasPlainNames_object {members : List (String × Value)}
    (h : ∀ m ∈ members, IsQuoteFree m.2.text.toList) : HasPlainNames (.object members) := by
  intro letters name hmember
  simp only [Value.member] at hmember
  split at hmember
  · next hget =>
    cases hmember
    exact h (letters, _) (Assoc.mem_of_get? hget)
  · cases hmember

/-! ## Functions and their arguments -/

namespace Sql

/-- An argument and the same argument with its texts emptied: a sum takes the same names from both,
and the SQL of the first holds the texts. -/
structure Emptied (ts : List (List Char)) (o p : Operand) : Prop where
  sum_eq : sum [p] = sum [o]
  plain_sum : ∀ s, sum [o] = .ok s → IsQuoteFree s.toList
  text : ∀ s, o.sql = .ok (.str s) → ∃ r, p.sql = .ok (.str r)
  sql : ∀ v, o.sql = .ok v → ∃ w, p.sql = .ok w ∧ Laid ts v.text.toList w.text.toList

theorem Emptied.refl {o : Operand} (hsum : ∀ s, sum [o] = .ok s → IsQuoteFree s.toList)
    (hsql : ∀ v, o.sql = .ok v → IsQuoteFree v.text.toList) : Emptied [] o o where
  sum_eq := rfl
  plain_sum := hsum
  text s hs := ⟨s, hs⟩
  sql v hv := ⟨v, hv, .plain (hsql v hv)⟩

variable {s : String}

theorem Emptied.of_laid {o p : Operand} {fault : Fault} {ts : List (List Char)} {r : String}
    (ho : o = { sql := .ok (.str s), columns := .error fault })
    (hp : p = { sql := .ok (.str r), columns := .error fault }) (h : Laid ts s.toList r.toList) :
    Emptied ts o p := by
  subst ho hp
  refine ⟨rfl, nofun, fun _ _ => ⟨r, rfl⟩, ?_⟩
  intro v hv
  cases hv
  exact ⟨.str r, rfl, h⟩

/-- An argument with all that is known of it. -/
structure Part where
  full : Operand
  hollow : Operand
  texts : List (List Char)
  emptied : Emptied texts full hollow

variable {ps : List Part}

/-- What an argument shows is what the argument with its texts emptied shows, but for the texts. -/
theorem Part.argumentSql {n : Nat} (h : Sql.argumentSql (ps.map Part.full) n = .ok s) :
    ∃ p r, ps[n]? = some p ∧ Sql.argumentSql (ps.map Part.hollow) n = .ok r
      ∧ Laid p.texts s.toList r.toList := by
  obtain ⟨o, v, ho, hv, rfl⟩ := argumentSql_eq_ok.mp h
  rw [List.getElem?_map] at ho
  obtain ⟨p, hp, rfl⟩ := Option.map_eq_some_iff.mp ho
  obtain ⟨w, hw, hlaid⟩ := p.emptied.sql v hv
  refine ⟨p, w.text, hp, argumentSql_eq_ok.mpr ⟨p.hollow, w, ?_, hw, rfl⟩, hlaid⟩
  rw [List.getElem?_map, hp]
  rfl

theorem Part.sum (h : Sql.sum (ps.map Part.full) = .ok s) :
    ∃ r, Sql.sum (ps.map Part.hollow) = .ok r ∧ Laid [] s.toList r.toList := by
  cases ps with
  | nil => cases h
  | cons p ps =>
    exact ⟨s, p.emptied.sum_eq.trans h, .plain (p.emptied.plain_sum s h)⟩

theorem Part.condition (h : Sql.condition (ps.map Part.full) = .ok s) :
    ∃ r, Sql.condition (ps.map Part.hollow) = .ok r
      ∧ Laid ((ps.map Part.texts).take 3).flatten s.toList r.toList := by
  obtain ⟨test, yes, no, htest, hyes, hno, rfl⟩ := condition_eq_ok.mp h
  obtain ⟨a, ra, ha, hra, hlaidTest⟩ := Part.argumentSql htest
  obtain ⟨b, rb, hb, hrb, hlaidYes⟩ := Part.argumentSql hyes
  obtain ⟨c, rc, hc, hrc, hlaidNo⟩ := Part.argumentSql hno
  have htexts : ((ps.map Part.texts).take 3).flatten = [] ++ a.texts ++ b.texts ++ c.texts ++ [] := by
    simp [List.take_add_one, ha, hb, hc]
  refine ⟨_, condition_eq_ok.mpr ⟨ra, rb, rc, hra, hrb, hrc, rfl⟩, ?_⟩
  have hempty : Laid [] [] [] := .plain (by decide)
  have hwhen := hempty.join "CASE WHEN ".toList (by decide) (by decide) hlaidTest
  have hthen := hwhen.join " THEN ".toList (by decide) (by decide) hlaidYes
  have helse := hthen.join " ELSE ".toList (by decide) (by decide) hlaidNo
  have hend := helse.join " END".toList (by decide) (by decide) hempty
  rw [htexts]
  simpa using hend

theorem Part.conjunction (h : Sql.conjunction (ps.map Part.full) = .ok s) :
    ∃ r, Sql.conjunction (ps.map Part.hollow) = .ok r
      ∧ Laid (ps.map Part.texts).flatten s.toList r.toList := by
  obtain ⟨ss, hss, rfl⟩ := conjunction_eq_ok.mp h
  rw [List.forall₂_map_left_iff] at hss
  suffices hparts : ∃ rs, List.Forall₂ (fun p r => p.hollow.sql = .ok (.str r)) ps rs
      ∧ Laid (ps.map Part.texts).flatten (String.intercalate " AND " ss).toList
        (String.intercalate " AND " rs).toList by
    obtain ⟨rs, hrs, hlaid⟩ := hparts
    exact ⟨_, conjunction_eq_ok.mpr ⟨rs, List.forall₂_map_left_iff.mpr hrs, rfl⟩, hlaid⟩
  clear h
  -- along the parts: the word stands between two of them only, so the last one is a case of its own
  induction hss with
  | nil => exact ⟨[], .nil, .plain (by decide)⟩
  | @cons p s ps ss hs hss ih =>
    obtain ⟨rs, hrs, hlaid⟩ := ih
    obtain ⟨r, hr⟩ := p.emptied.text s hs
    obtain ⟨w, hw, hhead⟩ := p.emptied.sql (.str s) hs
    cases hr.symm.trans hw
    refine ⟨r :: rs, .cons hr hrs, ?_⟩
    cases hss with
    | nil =>
      obtain rfl := List.forall₂_nil_left_iff.mp hrs
      simpa [Value.text] using hhead
    | cons _ _ =>
      cases hrs with
      | cons _ _ =>
        have hjoined := hhead.join " AND ".toList (by decide) (by decide) hlaid
        simpa [Value.text, String.intercalate_cons_cons] using hjoined

theorem Part.function {name : String} (hname : Text.upper name ∈ ["SUM", "IF", "AND"])
    (h : Sql.function name (ps.map Part.full) = .ok s) :
    ∃ r, Sql.function name (ps.map Part.hollow) = .ok r
      ∧ Laid (Sql.shown name (ps.map Part.texts)).flatten s.toList r.toList := by
  simp only [List.mem_cons, List.not_mem_nil, or_false] at hname
  rcases hname with hkey | hkey | hkey
  · rw [function_eq_sum hkey] at h ⊢
    rw [shown, hkey]
    exact Part.sum h
  · rw [function_eq_condition hkey] at h ⊢
    rw [shown, hkey]
    exact Part.condition h
  · rw [function_eq_conjunction hkey] at h ⊢
    rw [shown, hkey]
    exact Part.conjunction h

end Sql

/-! ## The SQL of each form -/

namespace Formula

variable {columns : Value}

/-- If a formula is translated, it is with its texts emptied, and the texts are in its SQL. -/
def IsCut (columns : Value) (f : Formula) : Prop :=
  ∀ t, f.translate columns = .ok t → ∃ u, f.hollow.translate columns = .ok u
    ∧ Sql.Emptied (f.texts.map String.toList) t.operand u.operand

theorem isCut_number (value : Field) : IsCut columns (.number value) := by
  intro t ht
  refine ⟨t, ht, ?_⟩
  obtain ⟨v, x, -, hx, rfl⟩ := translate_number_eq_ok.mp ht
  refine .refl nofun (fun w hw => ?_)
  cases hw
  exact isQuoteFree_of_toNumber hx

theorem isCut_logical (value : Field) : IsCut columns (.logical value) := by
  intro t ht
  refine ⟨t, ht, ?_⟩
  obtain ⟨v, -, rfl⟩ := translate_logical_eq_ok.mp ht
  refine .refl nofun (fun w hw => ?_)
  cases hw
  unfold Translated.logicalSql
  split <;> decide

theorem isQuoteFree_of_columnName (hcolumns : HasPlainNames columns) {letters : String} {name : Value}
    {error : Option String} (h : columnName columns letters = .ok (name, error)) :
    IsQuoteFree name.text.toList := by
  unfold columnName at h
  split at h
  · next hmember =>
    cases h
    exact hcolumns _ _ hmember
  · -- a column without a name shows nothing
    cases h
    decide
  · cases h

theorem isCut_cell (hcolumns : HasPlainNames columns) (key refKind : Field) :
    IsCut columns (.cell key refKind) := by
  intro t ht
  refine ⟨t, ht, ?_⟩
  obtain ⟨name, kind, column, error, hcell, rfl⟩ := translate_cell_eq_ok.mp ht
  obtain ⟨k, kind', column', error', -, -, hcolumn, hparts⟩ := translateCell_eq_ok.mp hcell
  simp only [Prod.mk.injEq] at hparts
  refine .refl nofun (fun w hw => ?_)
  cases hw
  rw [← hparts.2.2.1]
  exact isQuoteFree_of_columnName hcolumns hcolumn

theorem hollow_of_corner {f : Formula} {name : String} (h : corner columns f = .ok name) :
    f.hollow = f := by
  cases f with
  | cell => rfl
  | _ => cases h

theorem isQuoteFree_of_columnNames (hcolumns : HasPlainNames columns) {letters : List String}
    {names : List Value} {error : Option String}
    (h : columnNames columns letters = .ok (names, error)) :
    ∀ name ∈ names, IsQuoteFree name.text.toList := by
  unfold columnNames at h
  split at h
  · next hmembers =>
    cases h
    intro name hname
    obtain ⟨letters, -, hmember⟩ := (mem_of_mapM_eq_ok hmembers).mp hname
    exact hcolumns letters name hmember
  · cases h
    exact fun name hname => absurd hname List.not_mem_nil
  · cases h

theorem isCut_range (hcolumns : HasPlainNames columns) (first last : Formula) :
    IsCut columns (.range first last) := by
  intro t ht
  obtain ⟨a, b, names, error, ha, hb, hnames, rfl⟩ := translate_range_eq_ok.mp ht
  refine ⟨_, ?_, .refl (fun s hs => ?_) (fun v hv => absurd hv error_ne_ok)⟩
  · rw [hollow, hollow_of_corner ha, hollow_of_corner hb, ht]
  · obtain ⟨texts, rfl, rfl⟩ := (Sql.sum_eq_ok rfl).mp hs
    refine isQuoteFree_intercalate (by decide) (fun text htext => ?_)
    exact isQuoteFree_of_columnNames hcolumns hnames (.str text) (List.mem_map_of_mem htext)

theorem isCut_text (value : Field) : IsCut columns (.text value) := by
  intro t ht
  obtain ⟨s, rfl, rfl⟩ := translate_text_eq_ok.mp ht
  refine ⟨.text "" "''", rfl, .of_laid rfl rfl ?_⟩
  rw [Sql.toList_quoted]
  exact .quoted s.toList

theorem isCut_binary {operator : Field} {left right : Formula}
    (hoperator : ∀ o, operator = .ok o → IsQuoteFree o.text.toList) (hleft : IsCut columns left)
    (hright : IsCut columns right) : IsCut columns (.binary operator left right) := by
  intro t ht
  obtain ⟨tl, tr, o, v, w, htl, htr, rfl, hv, hw, rfl⟩ := translate_binary_eq_ok.mp ht
  obtain ⟨ul, hul, hemptiedLeft⟩ := hleft tl htl
  obtain ⟨ur, hur, hemptiedRight⟩ := hright tr htr
  obtain ⟨v', hv', hlaidLeft⟩ := hemptiedLeft.sql v hv
  obtain ⟨w', hw', hlaidRight⟩ := hemptiedRight.sql w hw
  refine ⟨_, translate_binary_eq_ok.mpr ⟨ul, ur, o, v', w', hul, hur, rfl, hv', hw', rfl⟩,
    .of_laid rfl rfl ?_⟩
  -- the operator and the brackets around it stand between the two sides
  have hempty : Sql.Laid [] [] [] := .plain (by decide)
  have hmiddle : IsQuoteFree (") ".toList ++ o.text.toList ++ " (".toList) :=
    isQuoteFree_append.mpr ⟨isQuoteFree_append.mpr ⟨by decide, hoperator o rfl⟩, by decide⟩
  have hopen := hempty.join "(".toList (by decide) (by decide) hlaidLeft
  have hboth := hopen.join _ hmiddle (by simp) hlaidRight
  have hclose := hboth.join ")".toList (by decide) (by decide) hempty
  simpa [texts] using hclose

theorem exists_parts {fs : List Formula} (h : ∀ f ∈ fs, IsCut columns f) {ts : List Translated}
    (hts : translateAll columns fs = .ok ts) :
    ∃ us, ∃ ps : List Sql.Part, translateAll columns (hollowAll fs) = .ok us
      ∧ ps.map Sql.Part.full = ts.map Translated.operand
      ∧ ps.map Sql.Part.hollow = us.map Translated.operand
      ∧ ps.map Sql.Part.texts = (textsOfEach fs).map (List.map String.toList) := by
  induction fs generalizing ts with
  | nil =>
    cases hts
    exact ⟨[], [], rfl, rfl, rfl, rfl⟩
  | cons f fs ih =>
    obtain ⟨hf, hfs⟩ := List.forall_mem_cons.mp h
    simp only [translateAll, bind_eq_ok] at hts
    obtain ⟨t, ht, ts, hts, hcons⟩ := hts
    cases hcons
    obtain ⟨u, hu, hemptied⟩ := hf t ht
    obtain ⟨us, ps, hus, hfull, hhollow, htexts⟩ := ih hfs hts
    refine ⟨u :: us, ⟨t.operand, u.operand, _, hemptied⟩ :: ps, ?_, ?_, ?_, ?_⟩
    · rw [hollowAll, translateAll, hu, ok_bind, hus]
      rfl
    · rw [List.map_cons, hfull, List.map_cons]
    · rw [List.map_cons, hhollow, List.map_cons]
    · rw [List.map_cons, htexts, textsOfEach, List.map_cons]

theorem shown_map {α β : Type} (g : α → β) (name : String) (xs : List α) :
    Sql.shown name (xs.map g) = (Sql.shown name xs).map g := by
  simp only [Sql.shown]
  split
  · exact List.map_take.symm
  · split <;> rfl

theorem isCut_call {name : Field} {arguments : List Formula}
    (hname : ∀ s, name = .ok (.str s) → Text.upper s ∈ ["SUM", "IF", "AND"])
    (harguments : ∀ f ∈ arguments, IsCut columns f) : IsCut columns (.call name arguments) := by
  intro t ht
  obtain ⟨n, ts, s, rfl, hts, hs, rfl⟩ := translate_call_eq_ok.mp ht
  obtain ⟨us, ps, hus, hfull, hhollow, htexts⟩ := exists_parts harguments hts
  rw [← hfull] at hs
  obtain ⟨r, hr, hlaid⟩ := Sql.Part.function (hname n rfl) hs
  rw [hhollow] at hr
  rw [htexts, shown_map] at hlaid
  refine ⟨_, translate_call_eq_ok.mpr ⟨n, us, r, rfl, hus, hr, rfl⟩, .of_laid rfl rfl ?_⟩
  rwa [texts, List.map_flatten]

/-- The SQL of a formula holds its texts, and is that of the emptied formula without them. -/
theorem Regular.isCut (hcolumns : HasPlainNames columns) {f : Formula} (h : f.Regular) :
    IsCut columns f := by
  induction h with
  | binary hoperator _ _ ihleft ihright => exact isCut_binary hoperator ihleft ihright
  | call hname _ ih => exact isCut_call hname ih
  | @other f hbinary hcall =>
    cases f with
    | binary operator left right => exact absurd rfl hbinary
    | call name arguments => exact absurd rfl hcall
    | range first last => exact isCut_range hcolumns first last
    | cell key refKind => exact isCut_cell hcolumns key refKind
    | number value => exact isCut_number value
    | logical value => exact isCut_logical value
    | text value => exact isCut_text value
    | unknown kind | unreadable fault => exact fun t ht => absurd ht error_ne_ok

end Formula

/-! ## Requests -/

/-- A request with names of columns and a regular formula is answered by an SQL text. -/
structure Answered (request columns : Value) (f : Formula) (sql : String) : Prop where
  ast : ∃ ast, request.member "ast" = .ok ast ∧ Formula.ofValue ast = f
  columns_eq : request.member "columns" = .ok columns
  plain : HasPlainNames columns
  regular : f.Regular
  sql : ∃ t v, translateRequest request = .ok t ∧ t.sql = .ok v ∧ v.text = sql

theorem Answered.exists_laid {request columns : Value} {f : Formula} {sql : String}
    (h : Answered request columns f sql) : ∃ u w, f.hollow.translate columns = .ok u ∧ u.sql = .ok w
      ∧ Sql.Laid (f.texts.map String.toList) sql.toList w.text.toList := by
  obtain ⟨ast, hast, rfl⟩ := h.ast
  obtain ⟨t, v, ht, hv, rfl⟩ := h.sql
  rw [translateRequest, hast, ok_bind, h.columns_eq, ok_bind] at ht
  obtain ⟨u, hu, hemptied⟩ := h.regular.isCut h.plain t ht
  obtain ⟨w, hw, hlaid⟩ := hemptied.sql v hv
  exact ⟨u, w, hu, hw, hlaid⟩

/-- The literals in the SQL of a formula are its texts, in order, exactly when none of these has a
quote. The SQL of two formulas that differ only in such texts is the same outside of the literals. -/
theorem texts_are_literals_iff {request columns : Value} {f : Formula} {sql : String}
    (h : Answered request columns f sql) :
    (Sql.literals sql.toList = some (f.texts.map String.toList) ↔
        ∀ s ∈ f.texts, IsQuoteFree s.toList)
      ∧ ∀ {other : Value} {g : Formula} {otherSql : String}, Answered other columns g otherSql →
        g.hollow = f.hollow → (∀ s ∈ f.texts ++ g.texts, IsQuoteFree s.toList) →
          Sql.skeleton sql.toList = Sql.skeleton otherSql.toList := by
  have hmap {ss : List String} :
      (∀ cs ∈ ss.map String.toList, IsQuoteFree cs) ↔ ∀ s ∈ ss, IsQuoteFree s.toList :=
    List.forall_mem_map
  obtain ⟨u, w, hu, hw, hlaid⟩ := h.exists_laid
  refine ⟨hlaid.literals_eq_iff.trans hmap, ?_⟩
  intro other g otherSql hother hhollow hfree
  rw [List.forall_mem_append] at hfree
  obtain ⟨u', w', hu', hw', hlaid'⟩ := hother.exists_laid
  -- both formulas are the same with their texts emptied, and so is the SQL of that
  rw [hhollow] at hu'
  obtain rfl := Except.ok.inj (hu.symm.trans hu')
  obtain rfl := Except.ok.inj (hw.symm.trans hw')
  rw [hlaid.skeleton_eq (hmap.mpr hfree.1), hlaid'.skeleton_eq (hmap.mpr hfree.2)]

/-- `IF(A1 = s, r, B1)` -/
def statusAst (s r : String) : Value :=
  Example.call "IF" [Example.binary "=" (Example.cell "relative" "A1") (Example.text s),
    Example.text r, Example.cell "relative" "B1"]

/-- Names for its columns. -/
def statusNames : Value :=
  .object [("A", .str "status"), ("B", .str "note")]

theorem regular_status (s r : String) : (Formula.ofValue (statusAst s r)).Regular := by
  have hname : Text.upper "IF" ∈ ["SUM", "IF", "AND"] := by decide +kernel
  have hcell (key kind : Field) : (Formula.cell key kind).Regular := .other (by nofun) (by nofun)
  have htext (value : Field) : (Formula.text value).Regular := .other (by nofun) (by nofun)
  refine .call (fun n hn => ?_) (List.forall_mem_cons.mpr ⟨?_, List.forall_mem_cons.mpr ⟨htext _,
    List.forall_mem_cons.mpr ⟨hcell _ _, nofun⟩⟩⟩)
  · obtain rfl := Value.str.inj (Except.ok.inj hn)
    exact hname
  · refine .binary (fun o ho => ?_) (hcell _ _) (htext _)
    cases ho
    decide

theorem plainNames_status : HasPlainNames statusNames :=
  hasPlainNames_object (by decide)

set_option maxRecDepth 20000 in
theorem answered_open :
    Answered (.object [("ast", statusAst "open" "yes"), ("columns", statusNames)]) statusNames
      (Formula.ofValue (statusAst "open" "yes"))
      "CASE WHEN (status) = ('open') THEN 'yes' ELSE note END" :=
  ⟨⟨_, rfl, rfl⟩, rfl, plainNames_status, regular_status _ _, _, _, by with_unfolding_all rfl, rfl, rfl⟩

set_option maxRecDepth 20000 in
theorem answered_half_open :
    Answered (.object [("ast", statusAst "half open" ""), ("columns", statusNames)]) statusNames
      (Formula.ofValue (statusAst "half open" ""))
      "CASE WHEN (status) = ('half open') THEN '' ELSE note END" :=
  ⟨⟨_, rfl, rfl⟩, rfl, plainNames_status, regular_status _ _, _, _, by with_unfolding_all rfl, rfl, rfl⟩

/-- Texts without quotes are found again, and other ones leave the rest of the SQL as it is. -/
theorem status_texts_are_literals :
    Sql.literals "CASE WHEN (status) = ('open') THEN 'yes' ELSE note END".toList =
        some ["open".toList, "yes".toList]
      ∧ Sql.skeleton "CASE WHEN (status) = ('open') THEN 'yes' ELSE note END".toList =
        Sql.skeleton "CASE WHEN (status) = ('half open') THEN '' ELSE note END".toList := by
  have htexts (s r : String) : (Formula.ofValue (statusAst s r)).texts = [s, r] := by
    have hkey : Text.upper "IF" = "IF" := by decide +kernel
    show (Sql.shown "IF" [[s], [r], []]).flatten = _
    rw [Sql.shown, hkey]
    rfl
  have hopen := texts_are_literals_iff answered_open
  rw [htexts] at hopen
  refine ⟨hopen.1.mpr (by decide), hopen.2 answered_half_open rfl ?_⟩
  rw [htexts]
  decide

/-- A text with quotes that becomes two literals and an operator. -/
theorem text_leaves_its_literal :
    Answered (.object [("ast", Example.text "a' OR 'b"), ("columns", .object [])]) (.object [])
        (.text (.ok (.str "a' OR 'b"))) "'a' OR 'b'"
      ∧ Sql.literals "'a' OR 'b'".toList = some ["a".toList, "b".toList]
      ∧ Sql.literals "'a' OR 'b'".toList ≠
        some ((Formula.text (.ok (.str "a' OR 'b"))).texts.map String.toList) :=
  ⟨⟨⟨_, rfl, rfl⟩, rfl, hasPlainNames_object nofun, .other (by nofun) (by nofun), _, _,
    by with_unfolding_all rfl, rfl, rfl⟩, by decide, by decide⟩

end SheetIntake
