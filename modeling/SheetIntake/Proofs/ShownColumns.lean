import SheetIntake.Proofs.ResolvedReferences
import SheetIntake.Proofs.TextSafety

/-!
# Columns in the SQL of a formula

A function has its own choice of arguments to show: a sum the first one, a condition three, a
conjunction all, and a function without a form in SQL none. What is shown of a formula keeps its
columns: the name of each stands in the SQL as an operand, between brackets, operators and words of SQL
and not inside of a literal.

## The statement

* **`shown_columns_are_operands`** — the names of the shown columns are operands of the SQL.
-/

namespace SheetIntake

open Outcome Text

/-! ## Operands of a text -/

namespace Sql

/-- The signs and words of SQL that an operand can follow. -/
def openers : List String :=
  ["(", "CASE WHEN ", " THEN ", " ELSE ", " AND ", " + "]

/-- The signs and words of SQL that can follow an operand. -/
def closers : List String :=
  [")", " THEN ", " ELSE ", " END", " AND ", " + "]

/-- The text ends where an operand can start. -/
def IsOpening (s : String) : Prop :=
  ∃ w ∈ openers, w.toList <:+ s.toList

/-- The text starts where an operand can end. -/
def IsClosing (s : String) : Prop :=
  ∃ w ∈ closers, w.toList <+: s.toList

/-- No literal of the text is left open. -/
def IsClosed (s : String) : Prop :=
  (scan s.toList).isSome

/-- A name stands in a text where an operand can stand; under the given condition this is outside of
literals. -/
def IsOperand (quiet : Prop) (name s : String) : Prop :=
  ∃ before after, s = before ++ name ++ after ∧ (before = "" ∨ IsOpening before)
    ∧ (after = "" ∨ IsClosing after) ∧ (quiet → IsClosed before)

theorem isOpening_of_mem {w : String} (h : w ∈ openers) : IsOpening w :=
  ⟨w, h, List.suffix_rfl⟩

theorem isClosing_of_mem {w : String} (h : w ∈ closers) : IsClosing w :=
  ⟨w, h, List.prefix_rfl⟩

theorem isClosed_of_isQuoteFree {s : String} (h : IsQuoteFree s.toList) : IsClosed s := by
  rw [IsClosed, scan_plain h.1]
  rfl

theorem IsClosed.join {a b w : String} (ha : IsClosed a) (hw : IsQuoteFree w.toList) (hne : w ≠ "")
    (hb : IsClosed b) : IsClosed (a ++ w ++ b) := by
  obtain ⟨ps, hps⟩ := Option.isSome_iff_exists.mp ha
  obtain ⟨qs, hqs⟩ := Option.isSome_iff_exists.mp hb
  exact Option.isSome_iff_exists.mpr ⟨_, scan_join hps hw.1 hne hqs⟩

/-- All names are operands of the text, which under the condition leaves no literal open. -/
structure Carries (quiet : Prop) (names : List String) (s : String) : Prop where
  closed : quiet → IsClosed s
  operand : ∀ name ∈ names, IsOperand quiet name s

variable {quiet : Prop}

theorem Carries.plain {s : String} (h : quiet → IsQuoteFree s.toList) : Carries quiet [] s :=
  ⟨fun hq => isClosed_of_isQuoteFree (h hq), List.forall_mem_nil _⟩

theorem Carries.name {s : String} (h : quiet → IsQuoteFree s.toList) : Carries quiet [s] s := by
  refine ⟨(Carries.plain h).closed, fun name hname => ?_⟩
  rw [List.mem_singleton.mp hname]
  exact ⟨"", "", by simp, .inl rfl, .inl rfl, fun _ => isClosed_of_isQuoteFree (by decide)⟩

/-- Operands stay operands around a separator, if it closes those before it and opens those behind. -/
theorem Carries.join {ms ns : List String} {a b : String} (ha : Carries quiet ms a) (w : String)
    (hw : quiet → IsQuoteFree w.toList) (hne : w ≠ "") (hclosing : ms ≠ [] → IsClosing w)
    (hopening : ns ≠ [] → IsOpening w) (hb : Carries quiet ns b) :
    Carries quiet (ms ++ ns) (a ++ w ++ b) := by
  refine ⟨fun hq => (ha.closed hq).join (hw hq) hne (hb.closed hq), fun name hname => ?_⟩
  rcases List.mem_append.mp hname with hname | hname
  · obtain ⟨before, after, rfl, hbefore, hafter, hclosed⟩ := ha.operand name hname
    refine ⟨before, after ++ w ++ b, by simp only [String.append_assoc], hbefore, .inr ?_, hclosed⟩
    rcases hafter with rfl | ⟨c, hc, hstart⟩
    · obtain ⟨c, hc, hstart⟩ := hclosing (List.ne_nil_of_mem hname)
      refine ⟨c, hc, ?_⟩
      simpa using hstart.trans (List.prefix_append _ _)
    · refine ⟨c, hc, ?_⟩
      simpa using hstart.trans (List.prefix_append _ _)
  · obtain ⟨before, after, rfl, hbefore, hafter, hclosed⟩ := hb.operand name hname
    refine ⟨a ++ w ++ before, after, by simp only [String.append_assoc], .inr ?_, hafter,
      fun hq => (ha.closed hq).join (hw hq) hne (hclosed hq)⟩
    rcases hbefore with rfl | ⟨c, hc, hend⟩
    · obtain ⟨c, hc, hend⟩ := hopening (List.ne_nil_of_mem hname)
      refine ⟨c, hc, ?_⟩
      simpa using hend.trans (List.suffix_append _ _)
    · refine ⟨c, hc, ?_⟩
      rw [String.toList_append]
      exact hend.trans (List.suffix_append _ _)

theorem Carries.intercalate {w : String} (hw : IsQuoteFree w.toList) (hne : w ≠ "")
    (hclosing : IsClosing w) (hopening : IsOpening w) {nss : List (List String)} {ss : List String}
    (h : List.Forall₂ (Carries quiet) nss ss) :
    Carries quiet nss.flatten (String.intercalate w ss) := by
  induction h with
  | nil => exact .plain (fun _ => ⟨List.not_mem_nil, List.not_mem_nil⟩)
  | @cons ns s nss ss hs hss ih =>
    cases hss with
    | nil => simpa using hs
    | cons _ _ =>
      rw [String.intercalate_cons_cons, List.flatten_cons]
      exact hs.join w (fun _ => hw) hne (fun _ => hclosing) (fun _ => hopening) ih

theorem Carries.binary {ms ns : List String} {a b operator : String}
    (hoperator : quiet → IsQuoteFree operator.toList) (ha : Carries quiet ms a)
    (hb : Carries quiet ns b) :
    Carries quiet (ms ++ ns) ("(" ++ a ++ ") " ++ operator ++ " (" ++ b ++ ")") := by
  have hempty : Carries quiet [] "" := .plain fun _ => by decide
  -- the operator and the brackets around it stand between the two sides
  have hmiddle (hq : quiet) : IsQuoteFree (") " ++ operator ++ " (").toList := by
    rw [String.toList_append, String.toList_append, isQuoteFree_append, isQuoteFree_append]
    exact ⟨⟨by decide, hoperator hq⟩, by decide⟩
  have hopen := hempty.join "(" (fun _ => by decide) (by decide) (absurd rfl ·)
    (fun _ => isOpening_of_mem (by decide)) ha
  have hboth := hopen.join (") " ++ operator ++ " (") hmiddle (by simp)
    (fun _ => ⟨")", by decide, by simp⟩)
    (fun _ => ⟨"(", by decide, (") " ++ operator ++ " ").toList, by simp⟩) hb
  have hclose := hboth.join ")" (fun _ => by decide) (by decide)
    (fun _ => isClosing_of_mem (by decide)) (absurd rfl ·) hempty
  simpa [String.append_assoc] using hclose

/-! ## Functions and their arguments -/

/-- The arguments that the SQL of a function is made of. -/
def taken {α : Type} (name : String) (arguments : List α) : List α :=
  if Text.upper name = "SUM" then arguments.take 1 else shown name arguments

theorem taken_map {α β : Type} (g : α → β) (name : String) (xs : List α) :
    taken name (xs.map g) = (taken name xs).map g := by
  unfold taken
  split
  · exact List.map_take.symm
  · exact Formula.shown_map g name xs

theorem taken_subset {α : Type} (name : String) (xs : List α) : taken name xs ⊆ xs := by
  simp only [taken, shown]
  split_ifs
  · exact List.take_subset 1 xs
  · exact List.take_subset 3 xs
  · exact List.Subset.refl xs
  · exact List.nil_subset xs

/-- An argument that shows some names: in its SQL, or as the columns that a sum adds. -/
structure Shows (quiet : Prop) (names : List String) (o : Operand) : Prop where
  sql : ∀ v, o.sql = .ok v → Carries quiet names v.text
  columns : ∀ v, o.columns = .ok v → v = .list (names.map .str) ∧ (quiet → ∀ n ∈ names, IsQuoteFree n.toList)

theorem Shows.of_sql {o : Operand} {fault : Fault} {v : Value} {names : List String}
    (ho : o = { sql := .ok v, columns := .error fault }) (h : Carries quiet names v.text) :
    Shows quiet names o := by
  subst ho
  refine ⟨fun u hu => ?_, fun u hu => absurd hu error_ne_ok⟩
  cases hu
  exact h

section Arguments

variable {nss : List (List String)} {os : List Operand} {s : String}
  (h : List.Forall₂ (Shows quiet) nss os)

include h

theorem Shows.argumentSql {n : Nat} (hs : Sql.argumentSql os n = .ok s) : ∃ ns, nss[n]? = some ns ∧ Carries quiet ns s := by
  obtain ⟨o, v, ho, hv, rfl⟩ := argumentSql_eq_ok.mp hs
  obtain ⟨hn, rfl⟩ := List.getElem?_eq_some_iff.mp ho
  have hn' : n < nss.length := h.length_eq ▸ hn
  exact ⟨nss[n], List.getElem?_eq_getElem hn', (h.get hn' hn).sql v hv⟩

theorem Shows.sum (hs : Sql.sum os = .ok s) : Carries quiet (nss.take 1).flatten s := by
  cases h with
  | nil => cases hs
  | @cons ns o nss os ho hos =>
    obtain ⟨v, hv, hjoin⟩ : ∃ v, o.columns = .ok v ∧ v.joinTexts " + " = .ok s := bind_eq_ok.mp hs
    obtain ⟨rfl, hfree⟩ := ho.columns v hv
    obtain ⟨ss, hss, rfl⟩ := Value.joinTexts_list_eq_ok.mp hjoin
    obtain rfl : ns = ss := (List.map_injective_iff.mpr (fun _ _ => Value.str.inj)) hss
    -- each name of the sum carries itself
    have hnames : List.Forall₂ (Carries quiet) (ns.map fun n => [n]) ns := by
      rw [List.forall₂_map_left_iff, List.forall₂_same]
      exact fun n hn => .name fun hq => hfree hq n hn
    have hflat : ((ns :: nss).take 1).flatten = (ns.map fun n => [n]).flatten := by
      rw [← List.flatMap_def, List.flatMap_singleton']
      simp
    rw [hflat]
    exact .intercalate (by decide) (by decide) (isClosing_of_mem (by decide))
      (isOpening_of_mem (by decide)) hnames

theorem Shows.condition (hs : Sql.condition os = .ok s) : Carries quiet (nss.take 3).flatten s := by
  obtain ⟨test, yes, no, htest, hyes, hno, rfl⟩ := condition_eq_ok.mp hs
  obtain ⟨as, has, hcarriesTest⟩ := Shows.argumentSql h htest
  obtain ⟨bs, hbs, hcarriesYes⟩ := Shows.argumentSql h hyes
  obtain ⟨cs, hcs, hcarriesNo⟩ := Shows.argumentSql h hno
  have hnames : (nss.take 3).flatten = [] ++ as ++ bs ++ cs ++ [] := by
    simp [List.take_add_one, has, hbs, hcs]
  have hempty : Carries quiet [] "" := .plain fun _ => by decide
  have hwhen := hempty.join "CASE WHEN " (fun _ => by decide) (by decide) (absurd rfl ·)
    (fun _ => isOpening_of_mem (by decide)) hcarriesTest
  have hthen := hwhen.join " THEN " (fun _ => by decide) (by decide)
    (fun _ => isClosing_of_mem (by decide))
    (fun _ => isOpening_of_mem (by decide)) hcarriesYes
  have helse := hthen.join " ELSE " (fun _ => by decide) (by decide)
    (fun _ => isClosing_of_mem (by decide))
    (fun _ => isOpening_of_mem (by decide)) hcarriesNo
  have hend := helse.join " END" (fun _ => by decide) (by decide)
    (fun _ => isClosing_of_mem (by decide)) (absurd rfl ·) hempty
  rw [hnames]
  simpa using hend

theorem Shows.conjunction (hs : Sql.conjunction os = .ok s) : Carries quiet nss.flatten s := by
  obtain ⟨ss, hss, rfl⟩ := conjunction_eq_ok.mp hs
  refine .intercalate (by decide) (by decide) (isClosing_of_mem (by decide))
    (isOpening_of_mem (by decide)) ?_
  clear hs
  induction h generalizing ss with
  | nil =>
    obtain rfl := List.forall₂_nil_left_iff.mp hss
    exact .nil
  | cons ho _ ih =>
    obtain ⟨r, rs, hr, hrs, rfl⟩ := List.forall₂_cons_left_iff.mp hss
    exact .cons (ho.sql (.str r) hr) (ih rs hrs)

theorem Shows.function {name : String} (hname : quiet → IsQuoteFree name.toList)
    (hs : Sql.function name os = .ok s) : Carries quiet (taken name nss).flatten s := by
  simp only [Sql.function] at hs
  simp only [taken, shown]
  split_ifs at hs ⊢
  · exact Shows.sum h hs
  · exact Shows.condition h hs
  · exact Shows.conjunction h hs
  · cases hs
    refine .plain fun hq => ?_
    rw [String.toList_append, String.toList_append, isQuoteFree_append, isQuoteFree_append]
    exact ⟨⟨by decide, hname hq⟩, by decide⟩

end Arguments

end Sql

/-! ## The columns of a formula -/

namespace Formula

mutual

/-- The letters of the columns that a formula refers to, with a choice of the arguments that count. A
range refers to the columns between its corners. -/
def lettersIn (choose : String → List (List String) → List (List String)) : Formula → List String
  | .binary _ left right => lettersIn choose left ++ lettersIn choose right
  | .call (.ok (.str name)) arguments => (choose name (lettersInEach choose arguments)).flatten
  | .range (.cell (.ok (.str first)) _) (.cell (.ok (.str last)) _) =>
    Columns.span (Columns.ofCell first) (Columns.ofCell last)
  | .cell (.ok (.str key)) _ => [Columns.ofCell key]
  | _ => []

def lettersInEach (choose : String → List (List String) → List (List String)) :
    List Formula → List (List String)
  | [] => []
  | f :: rest => lettersIn choose f :: lettersInEach choose rest

end

def letters (f : Formula) : List String :=
  f.lettersIn (fun _ arguments => arguments)

/-- The columns that a formula refers to in arguments that its SQL is made of. -/
def shownLetters (f : Formula) : List String :=
  f.lettersIn Sql.taken

theorem lettersInEach_eq (choose : String → List (List String) → List (List String))
    (fs : List Formula) : lettersInEach choose fs = fs.map (lettersIn choose) := by
  induction fs with
  | nil => rfl
  | cons f fs ih => rw [lettersInEach, ih, List.map_cons]

mutual

def words : Formula → List String
  | .binary (.ok operator) left right => operator.text :: (words left ++ words right)
  | .call (.ok (.str name)) arguments => name :: wordsOfAll arguments
  | .text (.ok (.str s)) => [s]
  | _ => []

def wordsOfAll : List Formula → List String
  | [] => []
  | f :: rest => words f ++ wordsOfAll rest

end

theorem wordsOfAll_eq (fs : List Formula) : wordsOfAll fs = fs.flatMap words := by
  induction fs with
  | nil => rfl
  | cons f fs ih => rw [wordsOfAll, ih, List.flatMap_cons]

def shownNames (names : List (String × String)) (f : Formula) : List String :=
  f.shownLetters.filterMap (Assoc.get? · names)

section Translation

variable {quiet : Prop} {names : List (String × String)} {f : Formula} {t : Translated}

theorem shownLetters_subset {columns : Value} (h : translate columns f = .ok t) :
    f.shownLetters ⊆ f.letters := by
  unfold shownLetters letters
  refine translateInduction ?binary ?call ?range ?cell ?number ?logical ?text h
  case binary =>
    intro _ _ _ _ _ _ _ hl hr _ _
    rw [lettersIn, lettersIn, List.append_subset]
    exact ⟨List.subset_append_of_subset_left _ hl, List.subset_append_of_subset_right _ hr⟩
  case call =>
    intro n arguments ts _ hpairs _ l hl
    rw [lettersIn, lettersInEach_eq] at hl ⊢
    rw [Sql.taken_map] at hl
    obtain ⟨ls, hls, hl⟩ := List.mem_flatten.mp hl
    obtain ⟨f, hf, rfl⟩ := List.mem_map.mp hls
    have hargument : f ∈ arguments := Sql.taken_subset n arguments hf
    have hsubset := (List.forall₂_and_left _ _).mp (hpairs.imp fun _ _ h => ⟨h, trivial⟩)
    exact List.mem_flatten.mpr ⟨_, List.mem_map_of_mem hargument, hsubset.1 f hargument hl⟩
  case range | cell =>
    intros
    simp [lettersIn]
  case number => exact fun _ _ _ => List.nil_subset _
  case logical | text => exact fun _ => List.nil_subset _

theorem columnNames_columnMap {letters : List String}
    (h : ∀ l ∈ letters, ∃ name, Assoc.get? l names = some name) :
    columnNames (columnMap names) letters =
      .ok ((letters.filterMap (Assoc.get? · names)).map .str, none) := by
  have hmembers : letters.mapM (columnMap names).member =
      .ok ((letters.filterMap (Assoc.get? · names)).map .str) := by
    induction letters with
    | nil => rfl
    | cons l letters ih =>
      obtain ⟨⟨name, hname⟩, hrest⟩ := List.forall_mem_cons.mp h
      rw [List.mapM_cons, member_columnMap, hname, ih hrest, List.filterMap_cons, hname]
      rfl
  rw [columnNames, hmembers]

/-- A translated formula shows the names of the columns in chosen arguments. -/
theorem shows_translate (hnames : quiet → ∀ e ∈ names, IsQuoteFree e.2.toList)
    (hwords : quiet → ∀ w ∈ f.words, IsQuoteFree w.toList)
    (hmapped : ∀ l ∈ f.letters, ∃ name, Assoc.get? l names = some name)
    (h : f.translate (columnMap names) = .ok t) :
    Sql.Shows quiet (f.shownNames names) t.operand := by
  have hplain {l name : String} (hl : Assoc.get? l names = some name) (hq : quiet) :
      IsQuoteFree name.toList :=
    hnames hq (l, name) (Assoc.mem_of_get? hl)
  unfold shownNames shownLetters
  unfold letters at hmapped
  revert hwords hmapped
  refine translateInduction ?binary ?call ?range ?cell ?number ?logical ?text h
  case binary =>
    intro o left right l r v w hl hr hv hw hwords hmapped
    rw [lettersIn, List.forall_mem_append] at hmapped
    simp only [words, List.forall_mem_cons, List.forall_mem_append] at hwords
    have hleft := (hl (fun hq => (hwords hq).2.1) hmapped.1).sql v hv
    have hright := (hr (fun hq => (hwords hq).2.2) hmapped.2).sql w hw
    rw [lettersIn, List.filterMap_append]
    exact .of_sql rfl (.binary (fun hq => (hwords hq).1) hleft hright)
  case call =>
    intro n arguments ts s hpairs hs hwords hmapped
    rw [words, wordsOfAll_eq] at hwords
    rw [lettersIn, lettersInEach_eq] at hmapped
    have hpairs := (List.forall₂_and_left _ _).mpr ⟨fun f hf => hf, hpairs⟩
    have hshows : List.Forall₂ (Sql.Shows quiet)
        (arguments.map fun f => (f.lettersIn Sql.taken).filterMap (Assoc.get? · names))
        (ts.map Translated.operand) := by
      rw [List.forall₂_map_left_iff, List.forall₂_map_right_iff]
      refine hpairs.imp fun f t hft => hft.2 (fun hq w hw => ?_) (fun l hl => ?_)
      · exact hwords hq w (.tail _ (List.mem_flatMap.mpr ⟨f, hft.1, hw⟩))
      · exact hmapped l (List.mem_flatten.mpr ⟨_, List.mem_map_of_mem hft.1, hl⟩)
    have hcarries := Sql.Shows.function hshows (fun hq => hwords hq n (.head _)) hs
    rw [Sql.taken_map] at hcarries
    rw [lettersIn, lettersInEach_eq, Sql.taken_map, List.filterMap_flatten, List.map_map]
    exact .of_sql rfl hcarries
  case range =>
    intro first last _ _ ns _ hns _ hmapped
    rw [lettersIn] at hmapped ⊢
    rw [columnNames_columnMap hmapped] at hns
    obtain ⟨rfl, -⟩ := Prod.mk.inj (Except.ok.inj hns)
    refine ⟨fun u hu => absurd hu error_ne_ok, fun u hu => ?_⟩
    cases hu
    refine ⟨rfl, fun hq name hname => ?_⟩
    obtain ⟨l, -, hl⟩ := List.mem_filterMap.mp hname
    exact hplain hl hq
  case cell =>
    intro key kind v error hv _ hmapped
    obtain ⟨name, hname⟩ := hmapped (Columns.ofCell key) (List.mem_singleton_self _)
    rw [columnName, member_columnMap, hname] at hv
    cases hv
    rw [lettersIn, List.filterMap_cons, hname]
    exact .of_sql rfl (.name (hplain hname))
  case number => exact fun _ _ hx _ _ => .of_sql rfl (.plain fun _ => isQuoteFree_of_toNumber hx)
  case logical =>
    intro v _ _
    refine .of_sql rfl (.plain fun _ => ?_)
    unfold Translated.logicalSql
    split <;> decide
  case text =>
    intro s hwords _
    refine .of_sql rfl ⟨fun hq => ?_, List.forall_mem_nil _⟩
    have hfree : IsQuoteFree s.toList := hwords hq s (List.mem_singleton_self s)
    rw [Value.text, Sql.IsClosed, Sql.toList_quoted, Sql.quoted_of_not_mem hfree.2]
    exact Option.isSome_iff_exists.mpr ⟨_, Sql.scan_quoted hfree.1⟩

end Translation

end Formula

/-! ## Requests -/

/-- Take any formula and any map that has a name for every column which the formula refers to. If the
formula has an SQL text, then each column in arguments that its functions take, however deep these are
nested, has its name in that text as an operand. If neither the names nor the operators, functions and
texts of the formula have quotes, the operand stands outside of literals. -/
theorem shown_columns_are_operands {ast : Value} {names : List (String × String)} {t : Translated}
    {s : String}
    (h : translateRequest (.object [("ast", ast), ("columns", columnMap names)]) = .ok t)
    (hs : t.sql = .ok (.str s))
    (hmapped : ∀ l ∈ (Formula.ofValue ast).letters, ∃ name, Assoc.get? l names = some name) :
    ∀ l ∈ (Formula.ofValue ast).shownLetters, ∃ name, Assoc.get? l names = some name
      ∧ Sql.IsOperand
        (∀ w ∈ (Formula.ofValue ast).words ++ names.map Prod.snd, IsQuoteFree w.toList) name s := by
  have ht : (Formula.ofValue ast).translate (columnMap names) = .ok t := h
  intro l hl
  obtain ⟨name, hname⟩ := hmapped l (Formula.shownLetters_subset ht hl)
  refine ⟨name, hname, ?_⟩
  have hshows : Sql.Shows
      (∀ w ∈ (Formula.ofValue ast).words ++ names.map Prod.snd, IsQuoteFree w.toList)
      ((Formula.ofValue ast).shownNames names) t.operand :=
    Formula.shows_translate
      (fun hquiet e he => hquiet e.2 (List.mem_append_right _ (List.mem_map_of_mem he)))
      (fun hquiet w hw => hquiet w (List.mem_append_left _ hw)) hmapped ht
  exact (hshows.sql (.str s) hs).operand name (List.mem_filterMap.mpr ⟨l, hl, hname⟩)

def feeNames : List (String × String) :=
  [("A", "net"), ("B", "gross"), ("C", "fee")]

def rangeAst (first last : String) : Value :=
  .object [("type", .str "cell-range"), ("left", Example.cell "relative" first),
    ("right", Example.cell "relative" last)]

/-- `IF(AND($B$1 > A1, B2), SUM(A1:C1), ROUND(C1))` -/
def feeAst : Value :=
  Example.call "IF"
    [Example.call "AND" [Example.binary ">" (Example.cell "absolute" "$B$1")
      (Example.cell "relative" "A1"), Example.cell "relative" "B2"],
     Example.call "SUM" [rangeAst "A1" "C1"], Example.call "ROUND" [Example.cell "relative" "C1"]]

set_option maxRecDepth 20000 in
/-- The third column is shown once as a part of the sum, where it is an operand. -/
theorem fee_is_operand :
    ∃ t, translateRequest (.object [("ast", feeAst), ("columns", columnMap feeNames)]) = .ok t
      ∧ t.sql = .ok (.str ("CASE WHEN (gross) > (net) AND gross THEN net + gross + fee " ++
        "ELSE UNSUPPORTED_FUNCTION(ROUND) END"))
      ∧ (Formula.ofValue feeAst).letters = ["B", "A", "B", "A", "B", "C", "C"]
      ∧ (Formula.ofValue feeAst).shownLetters = ["B", "A", "B", "A", "B", "C"]
      ∧ Sql.IsOperand True "fee" ("CASE WHEN (gross) > (net) AND gross THEN net + gross + fee " ++
        "ELSE UNSUPPORTED_FUNCTION(ROUND) END") := by
  have hletters : (Formula.ofValue feeAst).letters = ["B", "A", "B", "A", "B", "C", "C"] := by
    with_unfolding_all rfl
  have hshown : (Formula.ofValue feeAst).shownLetters = ["B", "A", "B", "A", "B", "C"] := by
    with_unfolding_all rfl
  have hwords : (Formula.ofValue feeAst).words = ["IF", "AND", ">", "SUM", "ROUND"] := by
    with_unfolding_all rfl
  obtain ⟨t, ht, hs⟩ : ∃ t,
      translateRequest (.object [("ast", feeAst), ("columns", columnMap feeNames)]) = .ok t
      ∧ t.sql = .ok (.str ("CASE WHEN (gross) > (net) AND gross THEN net + gross + fee " ++
        "ELSE UNSUPPORTED_FUNCTION(ROUND) END")) :=
    ⟨_, by with_unfolding_all rfl, by with_unfolding_all rfl⟩
  refine ⟨t, ht, hs, hletters, hshown, ?_⟩
  have hmapped : ∀ l ∈ (Formula.ofValue feeAst).letters,
      ∃ name, Assoc.get? l feeNames = some name := by
    rw [hletters]
    intro l hl
    exact Option.isSome_iff_exists.mp (List.all_eq_true.mp (by decide :
      ["B", "A", "B", "A", "B", "C", "C"].all (fun l => (Assoc.get? l feeNames).isSome) = true) l hl)
  obtain ⟨name, hname, before, after, htext, hbefore, hafter, hclosed⟩ :=
    shown_columns_are_operands ht hs hmapped "C" (by rw [hshown]; decide)
  obtain rfl : "fee" = name := Option.some.inj hname
  refine ⟨before, after, htext, hbefore, hafter, fun _ => hclosed ?_⟩
  rw [hwords]
  decide

def leavingOut : List (Value × String) :=
  [(Example.binary "+" (Example.cell "relative" "A1")
      (Example.call "ROUND" [Example.cell "relative" "B1"]),
    "(net) + (UNSUPPORTED_FUNCTION(ROUND))"),
   (Example.call "SUM" [rangeAst "A1" "A1", rangeAst "B1" "B1"], "net"),
   (Example.call "IF" [Example.cell "relative" "A1", Example.text "a", Example.text "b",
      Example.cell "relative" "B1"],
    "CASE WHEN net THEN 'a' ELSE 'b' END")]

set_option maxRecDepth 20000 in
/-- The argument of a function without a form in SQL, a second sum and a fourth argument of a condition
are left out: the formulas refer to two columns that have names, and the SQL lacks the second one. -/
theorem column_left_out :
    Assoc.get? "A" feeNames = some "net" ∧ Assoc.get? "B" feeNames = some "gross"
      ∧ ∀ e ∈ leavingOut, (Formula.ofValue e.1).letters = ["A", "B"]
        ∧ (∃ t, translateRequest (.object [("ast", e.1), ("columns", columnMap feeNames)]) = .ok t
          ∧ t.sql = .ok (.str e.2))
        ∧ ¬ "gross".toList <:+: e.2.toList := by
  refine ⟨rfl, rfl, List.forall_mem_cons.mpr ⟨?_, List.forall_mem_cons.mpr ⟨?_,
    List.forall_mem_cons.mpr ⟨?_, fun e he => absurd he List.not_mem_nil⟩⟩⟩⟩
  all_goals
    exact ⟨by with_unfolding_all rfl, ⟨_, by with_unfolding_all rfl, by with_unfolding_all rfl⟩,
      by decide⟩

end SheetIntake
