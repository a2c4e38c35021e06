import SheetIntake.Proofs.FormulaCells
import SheetIntake.Proofs.MessageTrees

/-!
# From messages of the formula service to translations

The service answers with messages, which are made into documents, which are read as formulas. What
becomes of a message on that way is known node by node: everything arrives but one thing, how a cell
is referred to.

* `Message.references_kept_iff` — the way from a message to a translation is clear exactly when there
  is no cell.
-/

namespace SheetIntake

open Outcome
open Translated (operand)

/-! ## Fields that are missing -/

namespace Formula

theorem columnName_ne_missing {columns key : Value} {letters : String} :
    columnName columns letters ≠ .error (.missing key) := by
  unfold columnName
  split
  · exact error_ne_ok.symm
  · exact error_ne_ok.symm
  · rename_i fault hmissing _
    intro h
    exact hmissing key (Except.error.inj h)

theorem translateCell_error (members : List (String × Value)) (key : String) (fault : Fault) :
    translateCell (.object members) (.ok (.str key)) (.error fault) = .error fault := by
  obtain ⟨r, hr⟩ := exists_columnName members (Columns.ofCell (Text.replaceAll key "$" ""))
  rw [translateCell, ok_bind, show (Value.str key).receiveText "replace" = .ok key from rfl,
    ok_bind]
  dsimp only
  rw [hr]
  rfl

end Formula

/-! ## Faults of functions -/

namespace Sql

/-- What can be wrong with the arguments of a function. -/
def argumentFaults : List Fault :=
  [.outOfRange, .wrongKind, .missing (.str "sql"), .missing (.str "columns")]

variable {fault : Fault}

theorem fault_of_argument {os : List Operand} {n : Nat} (h : argument os n = .error fault) :
    fault = .outOfRange := by
  rw [argument_eq] at h
  cases hn : os[n]? with
  | none => rw [hn] at h; exact (Except.error.inj h).symm
  | some o => rw [hn] at h; cases h.symm

theorem mem_of_argument {os : List Operand} {n : Nat} {o : Operand} (h : argument os n = .ok o) :
    o ∈ os := by
  rw [argument_eq] at h
  cases hn : os[n]? with
  | none => rw [hn] at h; cases h
  | some a =>
    rw [hn] at h
    cases h
    exact List.mem_of_getElem? hn

theorem fault_of_sql {t : Translated} (h : t.sql = .error fault) :
    fault = .missing (.str "sql") := by
  cases t with
  | range => exact (Except.error.inj h).symm
  | _ => cases h.symm

theorem fault_of_columns {t : Translated} (h : t.columns = .error fault) :
    fault = .missing (.str "columns") := by
  cases t with
  | range => cases h.symm
  | _ => exact (Except.error.inj h).symm

theorem fault_of_expectText {vs : List Value} (h : vs.mapM Value.expectText = .error fault) :
    fault = .wrongKind := by
  obtain ⟨v, -, hv⟩ := exists_of_mapM_eq_error h
  cases v with
  | str s => cases hv.symm
  | _ => exact (Except.error.inj hv).symm

variable {ts : List Translated}

theorem fault_of_operand {o : Operand} (ho : o ∈ ts.map operand)
    (h : o.sql = .error fault) : fault = .missing (.str "sql") := by
  obtain ⟨t, -, rfl⟩ := List.mem_map.mp ho
  exact fault_of_sql h

theorem fault_of_argumentSql {n : Nat}
    (h : argumentSql (ts.map operand) n = .error fault) : fault ∈ argumentFaults := by
  rcases bind_eq_error.mp h with h | ⟨o, ho, h⟩
  · simp [fault_of_argument h, argumentFaults]
  rcases bind_eq_error.mp h with h | ⟨v, -, h⟩
  · simp [fault_of_operand (mem_of_argument ho) h, argumentFaults]
  · cases h.symm

theorem fault_of_sum (h : sum (ts.map operand) = .error fault) : fault ∈ argumentFaults := by
  rcases bind_eq_error.mp h with h | ⟨o, ho, h⟩
  · simp [fault_of_argument h, argumentFaults]
  obtain ⟨t, -, rfl⟩ := List.mem_map.mp (mem_of_argument ho)
  rcases bind_eq_error.mp h with h | ⟨v, hv, h⟩
  · simp [fault_of_columns h, argumentFaults]
  -- only a range has columns, and they are a list
  cases t with
  | range first last letters columns error =>
    cases hv
    rcases bind_eq_error.mp h with h | ⟨items, -, h⟩
    · cases h.symm
    rcases bind_eq_error.mp h with h | ⟨texts, -, h⟩
    · simp [fault_of_expectText h, argumentFaults]
    · cases h.symm
  | _ => cases hv

theorem fault_of_condition (h : condition (ts.map operand) = .error fault) :
    fault ∈ argumentFaults := by
  rcases bind_eq_error.mp h with h | ⟨test, -, h⟩
  · exact fault_of_argumentSql h
  rcases bind_eq_error.mp h with h | ⟨yes, -, h⟩
  · exact fault_of_argumentSql h
  rcases bind_eq_error.mp h with h | ⟨no, -, h⟩
  · exact fault_of_argumentSql h
  · cases h.symm

theorem fault_of_conjunction (h : conjunction (ts.map operand) = .error fault) :
    fault ∈ argumentFaults := by
  rcases bind_eq_error.mp h with h | ⟨parts, -, h⟩
  · obtain ⟨o, ho, h⟩ := exists_of_mapM_eq_error h
    simp [fault_of_operand ho h, argumentFaults]
  rcases bind_eq_error.mp h with h | ⟨texts, -, h⟩
  · simp [fault_of_expectText h, argumentFaults]
  · cases h.symm

theorem fault_of_function {name : String}
    (h : function name (ts.map operand) = .error fault) : fault ∈ argumentFaults := by
  unfold function at h
  dsimp only at h
  split at h
  · exact fault_of_sum h
  split at h
  · exact fault_of_condition h
  split at h
  · exact fault_of_conjunction h
  · cases h.symm

end Sql

namespace FormulaService.Message

/-! ## Well formed messages -/

/-- A node that the service may answer with: of a known kind, a cell with a known way to refer, a
range between two cells. -/
structure Proper (m : Message) : Prop where
  known : (kindName? m.kind).isSome = true
  reference : m.kind = 4 → (refKindName? m.refKind).isSome = true
  corners : m.kind = 2 → m.left.kind = 4 ∧ m.right.kind = 4

/-- A message of which all visited nodes are proper. -/
def WellFormed (m : Message) : Prop :=
  ∀ n ∈ m.visited, n.Proper

def cells (m : Message) : List Message :=
  m.visited.filter (fun n => n.kind = 4)

theorem mem_visited_self (m : Message) : m ∈ m.visited := by
  rw [visited_eq]
  exact (.head _)

theorem kind_cases {k : Int} (h : (kindName? k).isSome) :
    k = 1 ∨ k = 2 ∨ k = 3 ∨ k = 4 ∨ k = 5 ∨ k = 6 ∨ k = 7 := by
  unfold kindName? at h
  split at h <;> simp_all

variable {m : Message}

theorem WellFormed.self (h : m.WellFormed) : m.Proper :=
  h m m.mem_visited_self

theorem WellFormed.children (h : m.WellFormed) : ∀ c ∈ m.children, c.WellFormed := by
  intro c hc n hn
  refine h n ?_
  rw [visited_eq]
  exact .tail _ (List.mem_flatMap.mpr ⟨c, hc, hn⟩)

/-! ## What a message is read as -/

mutual

/-- The formula that a message is read as after it was made into a document. The way to refer to a
cell does not arrive. -/
def formula : Message → Formula
  | .empty => .unreadable (.unknownNode 0)
  | .node kind operator left right name arguments _ key number logical text =>
    match kind with
    | 1 => .binary (.ok (.str operator)) (formula left) (formula right)
    | 2 => .range (formula left) (formula right)
    | 3 => .call (.ok (.str name)) (formulas arguments)
    | 4 => .cell (.ok (.str key)) (.error (.missing (.str "refType")))
    | 5 => .number (.ok (.float number))
    | 6 => .logical (.ok (.bool logical))
    | 7 => .text (.ok (.str text))
    | kind => .unreadable (.unknownNode kind)

def formulas : List Message → List Formula
  | [] => []
  | m :: rest => formula m :: formulas rest

end

theorem formulas_eq_map (ms : List Message) : formulas ms = ms.map formula := by
  induction ms with
  | nil => rfl
  | cons m ms ih => rw [formulas, ih, List.map_cons]

theorem document_of_wellFormed (m : Message) (h : m.WellFormed) :
    ∃ v, m.document = .ok v ∧ Formula.ofValue v = m.formula := by
  induction m using visitInduction with
  | node m ih =>
    replace ih := fun c hc => ih c hc (h.children c hc)
    cases m with
    | empty => cases h.self.known
    | node kind operator left right name arguments refKind key =>
      rcases kind_cases h.self.known with hk | hk | hk | hk | hk | hk | hk <;>
        (change kind = _ at hk; subst hk)
      -- an operator and a range have two sides
      iterate 2
        obtain ⟨l, hl, hlf⟩ := ih left (.head _)
        obtain ⟨r, hr, hrf⟩ := ih right (.tail _ (.head _))
        refine ⟨_, by rw [document, hl, hr]; rfl, ?_⟩
        rw [formula, ← hlf, ← hrf]
        rfl
      · have harguments : ∃ vs, documents arguments = .ok vs
            ∧ Formula.ofItems vs = formulas arguments := by
          clear h
          induction arguments with
          | nil => exact ⟨[], rfl, rfl⟩
          | cons m ms ihms =>
            obtain ⟨⟨v, hv, hf⟩, hrest⟩ := List.forall_mem_cons.mp ih
            obtain ⟨vs, hvs, hfs⟩ := ihms hrest
            refine ⟨v :: vs, by rw [documents, hv, hvs]; rfl, ?_⟩
            rw [formulas, ← hf, ← hfs]
            rfl
        obtain ⟨vs, hvs, hf⟩ := harguments
        refine ⟨_, by rw [document, hvs]; rfl, ?_⟩
        rw [formula, ← hf]
        rfl
      · -- the number of the way to refer is kept only where it has no name
        obtain ⟨way, hway⟩ := Option.isSome_iff_exists.mp (h.self.reference rfl)
        change refKindName? refKind = some way at hway
        refine ⟨.object [("type", .str "cell"), ("key", .str key)], ?_, rfl⟩
        rw [document, hway]
        rfl
      all_goals exact ⟨_, rfl, rfl⟩

/-! ## The cells of a message -/

def cellFields (m : Message) : Field × Field :=
  (.ok (.str m.key), .error (.missing (.str "refType")))

theorem cells_of_children (hk : m.kind ≠ 4) : m.cells = m.children.flatMap cells := by
  rw [cells, visited_eq, List.filter_cons_of_neg (by simpa using hk), List.filter_flatMap]
  rfl

theorem cells_of_sides (hk : m.kind = 1 ∨ m.kind = 2) :
    m.cells = m.left.cells ++ m.right.cells := by
  rw [cells_of_children (by omega), Message.children, if_pos hk]
  simp

theorem mem_cells_of_child {c n : Message} (hc : c ∈ m.children) (hn : n ∈ c.cells) :
    n ∈ m.cells := by
  rw [cells, List.mem_filter] at hn ⊢
  rw [visited_eq]
  exact ⟨.tail _ (List.mem_flatMap.mpr ⟨c, hc, hn.1⟩), hn.2⟩

theorem mem_cells_self (hk : m.kind = 4) : m ∈ m.cells :=
  List.mem_filter.mpr ⟨mem_visited_self m, by simpa using hk⟩

theorem formula_of_cell (hk : m.kind = 4) : m.formula = .cell m.cellFields.1 m.cellFields.2 := by
  cases m with
  | empty => cases hk
  | node kind => change kind = 4 at hk; subst hk; rfl

theorem cells_formula (m : Message) (h : m.WellFormed) :
    m.formula.cells = m.cells.map cellFields := by
  induction m using visitInduction with
  | node m ih =>
    replace ih := fun c hc => ih c hc (h.children c hc)
    cases m with
    | empty => rfl
    | node kind operator left right name arguments =>
      rcases kind_cases h.self.known with hk | hk | hk | hk | hk | hk | hk <;>
        (change kind = _ at hk; subst hk)
      · rw [cells_of_sides (.inl rfl), List.map_append, formula, Formula.cells,
          ih left (.head _), ih right (.tail _ (.head _))]
        rfl
      · rw [cells_of_sides (.inr rfl), List.map_append, formula, Formula.cells,
          ih left (.head _), ih right (.tail _ (.head _))]
        rfl
      · rw [cells_of_children (by simp [Message.kind]), List.map_flatMap, formula, Formula.cells,
          Formula.cellsOfAll_eq, formulas_eq_map, List.flatMap_map]
        exact List.flatMap_congr ih
      all_goals rfl

/-! ## The translation -/

/-- The fields of a formula that can be missing in a translation: the way to refer to a cell. The
other two are fields of translations, where a function gets an argument of another form. -/
def Lacks (cells : List Message) (fault : Fault) : Prop :=
  ∀ key, fault = .missing key →
    key = .str "sql" ∨ key = .str "columns" ∨ key = .str "refType" ∧ cells ≠ []

variable {cells : List Message} {fault : Fault}

theorem Lacks.of_child {c : Message} (hc : c ∈ m.children) (h : Lacks c.cells fault) :
    Lacks m.cells fault := by
  intro key hkey
  refine (h key hkey).imp_right (Or.imp_right fun hr => ⟨hr.1, ?_⟩)
  obtain ⟨n, hn⟩ := List.exists_mem_of_ne_nil _ hr.2
  exact List.ne_nil_of_mem (mem_cells_of_child hc hn)

theorem lacks_of_argumentFault (h : fault ∈ Sql.argumentFaults) : Lacks cells fault := by
  intro key hkey
  subst hkey
  simp only [Sql.argumentFaults, List.mem_cons, Fault.missing.injEq, reduceCtorEq, false_or,
    List.not_mem_nil, or_false] at h
  rcases h with h | h
  · exact .inl h
  · exact .inr (.inl h)

variable {columns : Value}

theorem lacks_of_translateCell {key : String} (hcells : cells ≠ [])
    (h : Formula.translateCell columns (.ok (.str key)) (.error (.missing (.str "refType"))) =
      .error fault) : Lacks cells fault := by
  intro k hk
  subst hk
  rw [Formula.translateCell, ok_bind, show (Value.str key).receiveText "replace" = .ok key from rfl,
    ok_bind] at h
  rcases bind_eq_error.mp h with h | ⟨⟨column, error⟩, -, h⟩
  · exact absurd h Formula.columnName_ne_missing
  · exact .inr (.inr ⟨(Fault.missing.inj (Except.error.inj h)).symm, hcells⟩)

/-- A translation never lacks another field of a formula than the way to refer to a cell. -/
theorem lacks_of_translate (m : Message) (hm : m.WellFormed)
    (h : m.formula.translate columns = .error fault) : Lacks m.cells fault := by
  induction m using visitInduction generalizing fault with
  | node m ih =>
    have ih {c : Message} (hc : c ∈ m.children) {fault : Fault}
        (h : c.formula.translate columns = .error fault) : Lacks m.cells fault :=
      (ih c hc (hm.children c hc) h).of_child hc
    cases m with
    | empty => cases hm.self.known
    | node kind operator left right name arguments =>
      rcases kind_cases hm.self.known with hk | hk | hk | hk | hk | hk | hk <;>
        (change kind = _ at hk; subst hk)
      · rcases bind_eq_error.mp h with h | ⟨l, -, h⟩
        · exact ih (.head _) h
        rcases bind_eq_error.mp h with h | ⟨r, -, h⟩
        · exact ih (.tail _ (.head _)) h
        rcases bind_eq_error.mp h with h | ⟨o, -, h⟩
        · cases h.symm
        rcases bind_eq_error.mp h with h | ⟨v, -, h⟩
        · exact lacks_of_argumentFault (by simp [Sql.fault_of_sql h, Sql.argumentFaults])
        rcases bind_eq_error.mp h with h | ⟨w, -, h⟩
        · exact lacks_of_argumentFault (by simp [Sql.fault_of_sql h, Sql.argumentFaults])
        · cases h.symm
      · -- the first end is a cell, and no cell is translated
        have hleft : left.kind = 4 := (hm.self.corners rfl).1
        rw [formula, Formula.translate, formula_of_cell hleft] at h
        rcases bind_eq_error.mp h with h | ⟨first, hfirst, -⟩
        · rcases bind_eq_error.mp h with h | ⟨r, -, h⟩
          · exact lacks_of_translateCell (List.ne_nil_of_mem
              (mem_cells_of_child (.head _) (mem_cells_self hleft))) h
          · cases h.symm
        · obtain ⟨_, _, hcell, -⟩ := Formula.exists_of_corner hfirst
          cases (Formula.cell.inj hcell).2
      · rcases bind_eq_error.mp h with h | ⟨n, hn, h⟩
        · cases h.symm
        cases hn
        rcases bind_eq_error.mp h with h | ⟨ts, -, h⟩
        · rw [Formula.translateAll_eq_mapM, formulas_eq_map] at h
          obtain ⟨f, hf, h⟩ := exists_of_mapM_eq_error h
          obtain ⟨c, hc, rfl⟩ := List.mem_map.mp hf
          exact ih hc h
        rcases bind_eq_error.mp h with h | ⟨n, -, h⟩
        · cases h.symm
        rcases bind_eq_error.mp h with h | ⟨s, -, h⟩
        · exact lacks_of_argumentFault (Sql.fault_of_function h)
        · cases h.symm
      · rcases bind_eq_error.mp h with h | ⟨r, -, h⟩
        · exact lacks_of_translateCell (List.ne_nil_of_mem (mem_cells_self rfl)) h
        · cases h.symm
      all_goals cases h.symm

/-! ## From the message to the translation -/

def request (document columns : Value) : Value :=
  .object [("ast", document), ("columns", columns)]

theorem translateRequest_request (document columns : Value) :
    translateRequest (request document columns) = (Formula.ofValue document).translate columns := rfl

/-- The fields of the nodes of a formula. -/
def nodeFields : List String :=
  ["refType", "key", "left", "right", "operator", "name", "value"]

/-- A document whose cells are those of a message, each with its key and the name of the way in which
it is referred to. -/
def CarriesCells (m : Message) (document : Value) : Prop :=
  List.Forall₂ (fun c fields => ∃ way, refKindName? c.refKind = some way ∧
    fields = (.ok (.str c.key), .ok (.str way))) m.cells (Formula.ofValue document).cells

/-- A document in which no translation misses a field of a node. -/
def Complete (document : Value) : Prop :=
  ∀ columns, ∀ field ∈ nodeFields,
    translateRequest (request document columns) ≠ .error (.missing (.str field))

theorem field_of_missing {field : String} (hm : m.WellFormed) (hfield : field ∈ nodeFields)
    (h : m.formula.translate columns = .error (.missing (.str field))) :
    field = "refType" ∧ m.cells ≠ [] := by
  rcases lacks_of_translate m hm h _ rfl with hkey | hkey | ⟨hkey, hcells⟩
  · rw [Value.str.inj hkey] at hfield
    exact absurd hfield (by decide)
  · rw [Value.str.inj hkey] at hfield
    exact absurd hfield (by decide)
  · exact ⟨Value.str.inj hkey, hcells⟩

theorem not_usable_cellFields (m : Message) : ¬ Formula.Usable m.cellFields := by
  rintro ⟨key, way, h⟩
  exact error_ne_ok (congrArg Prod.snd h)

theorem translate_ne_ok {t : Translated} (hm : m.WellFormed) (hcells : m.cells ≠ []) :
    m.formula.translate columns ≠ .ok t := by
  intro h
  obtain ⟨c, hc⟩ := List.exists_mem_of_ne_nil _ hcells
  have hmem : c.cellFields ∈ m.formula.cells := by
    rw [cells_formula m hm]
    exact List.mem_map_of_mem hc
  exact not_usable_cellFields c (Formula.usable_of_translate h _ hmem)

/-- The document of a well formed message carries the references of its cells, and is complete, only
where there is no cell to refer to. The keys of cells are kept, and no other field of a node is ever
missing in a translation; but nothing that has a cell can be translated. -/
theorem references_kept_iff (m : Message) (hm : m.WellFormed) :
    ∃ v, m.document = .ok v
      ∧ (CarriesCells m v ∧ Complete v ↔ m.cells = [])
      ∧ (Formula.ofValue v).cells.map Prod.fst = m.cells.map (fun c => .ok (.str c.key))
      ∧ (∀ columns, ∀ field ∈ nodeFields,
          translateRequest (request v columns) = .error (.missing (.str field)) →
            field = "refType" ∧ m.cells ≠ [])
      ∧ (m.cells ≠ [] → ∀ columns t, translateRequest (request v columns) ≠ .ok t) := by
  obtain ⟨v, hv, hf⟩ := document_of_wellFormed m hm
  have hcells := cells_formula m hm
  refine ⟨v, hv, ⟨?_, ?_⟩, ?_, ?_, ?_⟩
  · rintro ⟨hcarries, -⟩
    rw [CarriesCells, hf, hcells, List.forall₂_map_right_iff] at hcarries
    cases hm : m.cells with
    | nil => rfl
    | cons c cs =>
      rw [hm] at hcarries
      obtain ⟨way, -, hway⟩ := (List.forall₂_cons.mp hcarries).1
      exact absurd ⟨_, _, hway⟩ (not_usable_cellFields c)
  · intro hnil
    refine ⟨?_, fun columns field hfield h => ?_⟩
    · rw [CarriesCells, hf, hcells, hnil]
      exact .nil
    · rw [translateRequest_request, hf] at h
      exact (field_of_missing hm hfield h).2 hnil
  · rw [hf, hcells, List.map_map]
    rfl
  · intro columns field hfield h
    rw [translateRequest_request, hf] at h
    exact field_of_missing hm hfield h
  · intro hne columns t
    rw [translateRequest_request, hf]
    exact translate_ne_ok hm hne

/-! ## One cell, and a formula with several -/

instance (m : Message) : Decidable m.Proper :=
  decidable_of_iff ((kindName? m.kind).isSome = true
      ∧ (m.kind = 4 → (refKindName? m.refKind).isSome = true)
      ∧ (m.kind = 2 → m.left.kind = 4 ∧ m.right.kind = 4))
    ⟨fun h => ⟨h.1, h.2.1, h.2.2⟩, fun h => ⟨h.known, h.reference, h.corners⟩⟩

instance (m : Message) : Decidable m.WellFormed :=
  inferInstanceAs (Decidable (∀ n ∈ m.visited, n.Proper))

def cellMessage (refKind : Int) (key : String) : Message :=
  .node 4 "" .empty .empty "" [] refKind key (.zero false) false ""

def textMessage (text : String) : Message :=
  .node 7 "" .empty .empty "" [] 0 "" (.zero false) false text

/-- The message of `IF(A1 = "x", SUM(A1:$B$1), "y")`. -/
def conditionMessage : Message :=
  .node 3 "" .empty .empty "IF"
    [.node 1 "=" (cellMessage 1 "A1") (textMessage "x") "" [] 0 "" (.zero false) false "",
      .node 3 "" .empty .empty "SUM"
        [.node 2 "" (cellMessage 1 "A1") (cellMessage 2 "$B$1") "" [] 0 "" (.zero false) false ""]
        0 "" (.zero false) false "",
      textMessage "y"] 0 "" (.zero false) false ""

theorem references_lost_in_condition :
    conditionMessage.WellFormed ∧ conditionMessage.cells.length = 3
      ∧ ∃ v, conditionMessage.document = .ok v ∧ ¬ (CarriesCells conditionMessage v ∧ Complete v)
        ∧ ∀ columns t, translateRequest (request v columns) ≠ .ok t := by
  have hm : conditionMessage.WellFormed := by decide
  have hlength : conditionMessage.cells.length = 3 := by decide
  have hne : conditionMessage.cells ≠ [] := List.ne_nil_of_length_pos (by rw [hlength]; decide)
  obtain ⟨v, hv, hiff, -, -, hnone⟩ := references_kept_iff conditionMessage hm
  exact ⟨hm, hlength, v, hv, fun h => hne (hiff.mp h), hnone hne⟩

/-- A relative cell loses its reference, and cannot be translated for that. -/
theorem relative_reference_is_dropped :
    (cellMessage 1 "A1").document = .ok (.object [("type", .str "cell"), ("key", .str "A1")])
      ∧ translateRequest (request (.object [("type", .str "cell"), ("key", .str "A1")])
          (.object [("A", .str "price")])) = .error (.missing (.str "refType")) := by
  refine ⟨rfl, ?_⟩
  have hread : Formula.ofValue (.object [("type", .str "cell"), ("key", .str "A1")]) =
      .cell (.ok (.str "A1")) (.error (.missing (.str "refType"))) := rfl
  rw [translateRequest_request, hread, Formula.translate, Formula.translateCell_error]
  rfl

end FormulaService.Message

end SheetIntake
