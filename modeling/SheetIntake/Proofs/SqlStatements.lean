import SheetIntake.Proofs.PlainText
import SheetIntake.Proofs.SqlTokens

/-!
# The grammar of SQL statements

The statements of a script and the expressions in them, as texts. Brackets and semicolons count only
outside of string literals, so both are looked at in the pieces of a text.

## The parts
-/

namespace SheetIntake.Sql

/-! ## Brackets -/

/-- What a piece adds to the number of open brackets. -/
def Piece.weight : Piece → Int
  | .plain c => if c = '(' then 1 else if c = ')' then -1 else 0
  | .literal _ => 0

/-- How many brackets are open after some pieces. -/
def height : List Piece → Int
  | [] => 0
  | p :: ps => p.weight + height ps

@[simp]
theorem height_nil : height [] = 0 := rfl

@[simp]
theorem height_cons (p : Piece) (ps : List Piece) : height (p :: ps) = p.weight + height ps := rfl

@[simp]
theorem height_append (ps qs : List Piece) : height (ps ++ qs) = height ps + height qs := by
  induction ps with
  | nil => exact (Int.zero_add _).symm
  | cons p ps ih => rw [List.cons_append, height_cons, height_cons, ih, Int.add_assoc]

/-- Every bracket has a partner: no more are closed than were opened, and in the end all are. -/
structure Balanced (ps : List Piece) : Prop where
  closed : height ps = 0
  open_nonneg : ∀ qs, qs <+: ps → 0 ≤ height qs

variable {ps : List Piece}

theorem balanced_of_flat (h : ∀ p ∈ ps, p.weight = 0) : Balanced ps := by
  have hheight {qs : List Piece} (hqs : ∀ p ∈ qs, p.weight = 0) : height qs = 0 := by
    induction qs with
    | nil => rfl
    | cons q qs ih =>
      obtain ⟨hq, hqs⟩ := List.forall_mem_cons.mp hqs
      rw [height_cons, hq, ih hqs]
      rfl
  exact ⟨hheight h, fun qs hqs => Int.le_of_eq (hheight fun p hp => h p (hqs.subset hp)).symm⟩

theorem Balanced.append {qs : List Piece} (hps : Balanced ps) (hqs : Balanced qs) :
    Balanced (ps ++ qs) := by
  refine ⟨by rw [height_append, hps.closed, hqs.closed]; rfl, fun rs hrs => ?_⟩
  rcases List.prefix_or_prefix_of_prefix hrs (List.prefix_append ps qs) with hin | ⟨ts, rfl⟩
  · exact hps.open_nonneg rs hin
  · rw [height_append, hps.closed, Int.zero_add]
    exact hqs.open_nonneg ts ((List.prefix_append_right_inj ps).mp hrs)

theorem weight_opening : Piece.weight (.plain '(') = 1 := rfl

theorem weight_closing : Piece.weight (.plain ')') = -1 := rfl

theorem Balanced.brackets (h : Balanced ps) : Balanced (.plain '(' :: (ps ++ [.plain ')'])) := by
  have hall : height (.plain '(' :: (ps ++ [.plain ')'])) = 0 := by
    simp [h.closed, weight_opening, weight_closing]
  refine ⟨hall, fun qs hqs => ?_⟩
  rcases List.prefix_cons_iff.mp hqs with rfl | ⟨rs, rfl, hrs⟩
  · exact Int.le_refl 0
  rcases List.prefix_concat_iff.mp hrs with rfl | hrs
  · exact Int.le_of_eq hall.symm
  · have hinner := h.open_nonneg rs hrs
    rw [height_cons, weight_opening]
    omega

/-- A balanced beginning of a longer text is no beginning of a bracketed one: the first bracket of this
is open up to its end. -/
theorem Balanced.ne_brackets {xs ys inner : List Piece} (hxs : Balanced xs) (hne : xs ≠ [])
    (hys : ys ≠ []) (hinner : Balanced inner) :
    xs ++ ys ≠ .plain '(' :: (inner ++ [.plain ')']) := by
  intro heq
  cases xs with
  | nil => exact hne rfl
  | cons x xs =>
    obtain ⟨rfl, htail⟩ := List.cons.inj heq
    have hinside : xs <+: inner := by
      rcases List.prefix_concat_iff.mp ⟨ys, htail⟩ with rfl | hinside
      · exact absurd (List.append_right_eq_self.mp htail) hys
      · exact hinside
    have hopen := hinner.open_nonneg xs hinside
    have hclosed := hxs.closed
    rw [height_cons, weight_opening] at hclosed
    omega

/-! ## Balanced texts -/

/-- Characters other than brackets, semicolons and quotes. -/
def isFlatChar (c : Char) : Bool :=
  !(['(', ')', ';', '\''].contains c)

/-- A text without brackets, semicolons and quotes. -/
def IsFlat (s : String) : Prop :=
  s.toList.all isFlatChar = true

instance (s : String) : Decidable (IsFlat s) :=
  inferInstanceAs (Decidable (_ = true))

/-- A text with no literal left open, with every bracket closed and without a semicolon, all of this
outside of literals. -/
def IsBalanced (s : String) : Prop :=
  ∃ ps, scan s.toList = some ps ∧ Balanced ps ∧ Piece.plain ';' ∉ ps

variable {a b : String}

theorem isFlat_append : IsFlat (a ++ b) ↔ IsFlat a ∧ IsFlat b := by
  rw [IsFlat, String.toList_append, List.all_append, Bool.and_eq_true, IsFlat, IsFlat]

variable {s : String}

theorem IsFlat.not_mem (h : IsFlat s) {c : Char} (hc : isFlatChar c = false) : c ∉ s.toList :=
  fun hmem => absurd (List.all_eq_true.mp h c hmem) (by simp [hc])

theorem isFlat_of_forall {p : Char → Bool} (h : ∀ c ∈ s.toList, p c)
    (hp : [p '(', p ')', p ';', p '\''] = [false, false, false, false]) : IsFlat s := by
  refine List.all_eq_true.mpr fun c hc => ?_
  by_contra hflat
  simp only [isFlatChar, Bool.not_eq_true', Bool.not_eq_false, List.contains_iff_mem, List.mem_cons,
    List.not_mem_nil, or_false] at hflat
  rcases hflat with rfl | rfl | rfl | rfl <;> simp_all

theorem IsFlat.pieces (h : IsFlat s) :
    Balanced (s.toList.map .plain) ∧ Piece.plain ';' ∉ s.toList.map Piece.plain := by
  constructor
  · apply balanced_of_flat
    intro p hp
    obtain ⟨c, hc, rfl⟩ := List.mem_map.mp hp
    have hopen : c ≠ '(' := fun heq => h.not_mem (by decide) (heq ▸ hc)
    have hclose : c ≠ ')' := fun heq => h.not_mem (by decide) (heq ▸ hc)
    simp [Piece.weight, hopen, hclose]
  · intro hmem
    obtain ⟨c, hc, hpiece⟩ := List.mem_map.mp hmem
    obtain rfl := Piece.plain.inj hpiece
    exact h.not_mem (by decide) hc

theorem IsFlat.isBalanced (h : IsFlat s) : IsBalanced s :=
  ⟨_, scan_plain (h.not_mem (by decide)), h.pieces⟩

variable {w : String}

theorem IsBalanced.join (ha : IsBalanced a) (hw : IsFlat w) (hne : w ≠ "") (hb : IsBalanced b) :
    IsBalanced (a ++ w ++ b) := by
  obtain ⟨ps, hps, hbalanced, hend⟩ := ha
  obtain ⟨qs, hqs, hbalanced', hend'⟩ := hb
  refine ⟨_, scan_join hps (hw.not_mem (by decide)) hne hqs,
    hbalanced.append (hw.pieces.1.append hbalanced'), ?_⟩
  simpa [List.mem_append, hend, hend'] using hw.not_mem (c := ';') (by decide)

theorem scan_brackets (h : scan s.toList = some ps) :
    scan ("(" ++ s ++ ")").toList = some (.plain '(' :: (ps ++ [.plain ')'])) := by
  have hopen : scan ("(" ++ s).toList = some (.plain '(' :: ps) := by
    rw [String.toList_append, scan_plain_append (by decide), h]
    rfl
  rw [String.toList_append, scan_append hopen (by decide), scan_plain (by decide)]
  rfl

theorem IsBalanced.brackets (h : IsBalanced s) : IsBalanced ("(" ++ s ++ ")") := by
  obtain ⟨ps, hps, hbalanced, hend⟩ := h
  exact ⟨_, scan_brackets hps, hbalanced.brackets, by simp [hend]⟩

theorem isBalanced_quoted (h : '\'' ∉ s.toList) : IsBalanced ("'" ++ s ++ "'") := by
  have hlist : ("'" ++ s ++ "'").toList = '\'' :: (s.toList ++ ['\'']) := by simp
  refine ⟨[.literal s.toList], by rw [hlist, scan_quoted h], balanced_of_flat ?_, by simp⟩
  simp [Piece.weight]

/-! ## Expressions -/

def IsDigits (cs : List Char) : Prop :=
  cs ≠ [] ∧ ∀ c ∈ cs, c.isDigit = true

/-- A number without a sign: digits, perhaps with a point and more digits behind them, and perhaps with
an exponent. -/
def IsUnsigned (cs : List Char) : Prop :=
  ∃ whole fraction exponent, cs = whole ++ fraction ++ exponent ∧ IsDigits whole
    ∧ (fraction = [] ∨ ∃ ds, fraction = '.' :: ds ∧ IsDigits ds)
    ∧ (exponent = [] ∨ ∃ c ds, exponent = 'e' :: c :: ds ∧ (c = '+' ∨ c = '-') ∧ IsDigits ds)

def IsNumeral (cs : List Char) : Prop :=
  IsUnsigned cs ∨ ∃ ds, cs = '-' :: ds ∧ IsUnsigned ds

def operators : List String :=
  ["+", "-", "*", "/", "^", "&", "=", "<>", "<", ">", "<=", ">="]

/-- What stands in the place of an operand, beside an operator, or anywhere. -/
inductive Level where
  | operand
  | operation
  | expression

/-- The texts of expressions. Operands of operators are simple or in brackets, so no operator has to
bind before another one; only conjunctions go without brackets. -/
inductive Derivable : Level → String → Prop where
  | name {s : String} (h : IsPlainName s) : Derivable .operand s
  | numeral {s : String} (h : IsNumeral s.toList) : Derivable .operand s
  | truth {s : String} (h : s ∈ ["TRUE", "FALSE"]) : Derivable .operand s
  | literal {s : String} (h : '\'' ∉ s.toList) : Derivable .operand ("'" ++ s ++ "'")
  | brackets {e : String} (h : Derivable .expression e) : Derivable .operand ("(" ++ e ++ ")")
  | choice {test yes no : String} (htest : Derivable .expression test)
      (hyes : Derivable .expression yes) (hno : Derivable .expression no) :
      Derivable .operand ("CASE WHEN " ++ test ++ " THEN " ++ yes ++ " ELSE " ++ no ++ " END")
  | single {e : String} (h : Derivable .operand e) : Derivable .operation e
  | operation {o a b : String} (ho : o ∈ operators) (ha : Derivable .operand a)
      (hb : Derivable .operand b) : Derivable .operation (a ++ " " ++ o ++ " " ++ b)
  | part {e : String} (h : Derivable .operation e) : Derivable .expression e
  | conjunction {a b : String} (ha : Derivable .operation a) (hb : Derivable .expression b) :
      Derivable .expression (a ++ " AND " ++ b)

variable {e : String}

theorem Derivable.of_operand (h : Derivable .operand e) : Derivable .expression e :=
  .part (.single h)

theorem Derivable.and (ha : Derivable .expression a) (hb : Derivable .expression b) :
    Derivable .expression (a ++ " AND " ++ b) := by
  generalize hlevel : Level.expression = level at ha
  induction ha with
  | part h _ => exact .conjunction h hb
  | conjunction ha _ _ ih =>
    have hall := Derivable.conjunction ha (ih hlevel)
    simp only [String.append_assoc] at hall ⊢
    exact hall
  | _ => cases hlevel

theorem IsPlainName.isWordChar (h : IsPlainName s) : ∀ c ∈ s.toList, Sql.isWordChar c := by
  have hparts := h.1
  rw [isNameWord, Bool.and_eq_true] at hparts
  exact List.all_eq_true.mp hparts.1

theorem isFlat_of_isPlainName (h : IsPlainName s) : IsFlat s :=
  isFlat_of_forall h.isWordChar (by decide)

variable {cs : List Char}

theorem IsUnsigned.isNumberChar (h : IsUnsigned cs) : ∀ c ∈ cs, Decimal.isNumberChar c := by
  obtain ⟨whole, fraction, exponent, rfl, hwhole, hfraction, hexponent⟩ := h
  have hdigits {ds : List Char} (hds : IsDigits ds) : ∀ c ∈ ds, Decimal.isNumberChar c :=
    fun c hc => Decimal.isNumberChar_of_isDigit (hds.2 c hc)
  simp only [List.forall_mem_append]
  refine ⟨⟨hdigits hwhole, ?_⟩, ?_⟩
  · rcases hfraction with rfl | ⟨ds, rfl, hds⟩
    · exact List.forall_mem_nil _
    · exact List.forall_mem_cons.mpr ⟨rfl, hdigits hds⟩
  · rcases hexponent with rfl | ⟨c, ds, rfl, hc, hds⟩
    · exact List.forall_mem_nil _
    · refine List.forall_mem_cons.mpr ⟨rfl, List.forall_mem_cons.mpr ⟨?_, hdigits hds⟩⟩
      rcases hc with rfl | rfl <;> rfl

theorem IsNumeral.isNumberChar (h : IsNumeral cs) : ∀ c ∈ cs, Decimal.isNumberChar c := by
  rcases h with h | ⟨ds, rfl, h⟩
  · exact h.isNumberChar
  · exact List.forall_mem_cons.mpr ⟨rfl, h.isNumberChar⟩

theorem IsNumeral.ne_nil (h : IsNumeral cs) : cs ≠ [] := by
  rcases h with ⟨whole, fraction, exponent, rfl, hwhole, -⟩ | ⟨ds, rfl, -⟩
  · simp [hwhole.1]
  · exact List.cons_ne_nil _ _

theorem isFlat_of_isNumeral (h : IsNumeral s.toList) : IsFlat s :=
  isFlat_of_forall h.isNumberChar (by decide)

theorem isFlat_of_mem_operators {o : String} (h : o ∈ operators) : IsFlat (" " ++ o ++ " ") := by
  have hall : operators.all (fun o => (" " ++ o ++ " ").toList.all isFlatChar) := by decide
  exact List.all_eq_true.mp hall o h

theorem Derivable.isBalanced {level : Level} (h : Derivable level e) : IsBalanced e := by
  have hempty : IsBalanced "" := IsFlat.isBalanced (by decide)
  induction h with
  | name h => exact (isFlat_of_isPlainName h).isBalanced
  | numeral h => exact (isFlat_of_isNumeral h).isBalanced
  | @truth s h =>
    have hall : ["TRUE", "FALSE"].all (·.toList.all isFlatChar) := by decide
    exact IsFlat.isBalanced (List.all_eq_true.mp hall s h)
  | literal h => exact isBalanced_quoted h
  | brackets _ ih => exact ih.brackets
  | choice _ _ _ ihtest ihyes ihno =>
    have hwhen := hempty.join (w := "CASE WHEN ") (by decide) (by decide) ihtest
    have hthen := hwhen.join (w := " THEN ") (by decide) (by decide) ihyes
    have helse := hthen.join (w := " ELSE ") (by decide) (by decide) ihno
    have hend := helse.join (w := " END") (by decide) (by decide) hempty
    simpa using hend
  | single _ ih => exact ih
  | @operation o a b ho _ _ iha ihb =>
    have hjoin := iha.join (isFlat_of_mem_operators ho) (by simp) ihb
    simp only [String.append_assoc] at hjoin ⊢
    exact hjoin
  | part _ ih => exact ih
  | conjunction _ _ iha ihb => exact iha.join (w := " AND ") (by decide) (by decide) ihb

theorem Derivable.ne_empty {level : Level} (h : Derivable level e) : e ≠ "" := by
  induction h with
  | name h =>
    rintro rfl
    exact absurd h (by decide)
  | numeral h => exact fun hempty => h.ne_nil (String.toList_eq_nil_iff.mpr hempty)
  | truth h =>
    rintro rfl
    exact absurd h (by decide)
  | single _ ih | part _ ih => exact ih
  | _ => simp

/-! ## Expressions that are not in brackets -/

theorem IsBalanced.ne_brackets {x i : String} (hx : IsBalanced x) (hxne : x ≠ "") (hw : IsFlat w)
    (hwne : w ≠ "") (hb : IsBalanced b) (hi : IsBalanced i) : x ++ w ++ b ≠ "(" ++ i ++ ")" := by
  intro heq
  obtain ⟨xs, hxs, hbalanced, -⟩ := hx
  obtain ⟨qs, hqs, -⟩ := hb
  obtain ⟨inner, hinner, hbalanced', -⟩ := hi
  have hjoin := scan_join hxs (hw.not_mem (by decide)) hwne hqs
  rw [heq, scan_brackets hinner] at hjoin
  refine hbalanced.ne_brackets ?_ (by simpa using fun h => absurd h hwne) hbalanced'
    (Option.some.inj hjoin).symm
  rintro rfl
  exact hxne (String.toList_eq_nil_iff.mp (pieces_scan hxs).symm)

/-- An expression that is not enclosed in one pair of brackets. -/
structure Bare (e : String) : Prop where
  derivable : Derivable .expression e
  ne_brackets : ∀ i, IsBalanced i → e ≠ "(" ++ i ++ ")"

theorem Bare.of_head {e : String} (h : Derivable .operand e) (hhead : e.toList.head? ≠ some '(') :
    Bare e := by
  refine ⟨h.of_operand, fun i _ heq => hhead ?_⟩
  rw [heq, String.toList_append, String.toList_append]
  rfl

theorem head_ne_of_isFlat (h : IsFlat e) : e.toList.head? ≠ some '(' :=
  fun hhead => h.not_mem (by decide) (List.mem_of_mem_head? hhead)

theorem Bare.operation {o a b : String} (ho : o ∈ operators) (ha : Derivable .expression a)
    (hb : Derivable .expression b) : Bare ("(" ++ a ++ ") " ++ o ++ " (" ++ b ++ ")") := by
  have htext : "(" ++ a ++ ") " ++ o ++ " (" ++ b ++ ")" =
      "(" ++ a ++ ")" ++ (" " ++ o ++ " ") ++ ("(" ++ b ++ ")") := String.toList_inj.mp (by simp)
  rw [htext]
  refine ⟨.part ?_, fun i hi => ?_⟩
  · have hboth := Derivable.operation ho (.brackets ha) (.brackets hb)
    simp only [String.append_assoc] at hboth ⊢
    exact hboth
  · exact ha.isBalanced.brackets.ne_brackets (by simp) (isFlat_of_mem_operators ho) (by simp)
      hb.isBalanced.brackets hi

theorem Bare.conjunction {es : List String} (hne : es ≠ []) (h : ∀ e ∈ es, Bare e) :
    Bare (String.intercalate " AND " es) := by
  induction es with
  | nil => exact absurd rfl hne
  | cons e es ih =>
    obtain ⟨he, hes⟩ := List.forall_mem_cons.mp h
    cases es with
    | nil => simpa using he
    | cons r es =>
      have hrest := (ih (List.cons_ne_nil r es) hes).derivable
      rw [String.intercalate_cons_cons]
      exact ⟨he.derivable.and hrest, fun i hi => he.derivable.isBalanced.ne_brackets
        he.derivable.ne_empty (by decide) (by decide) hrest.isBalanced hi⟩

/-! ## Statements -/

/-- A statement that creates a table of named columns with types, or adds a generated column. What the
column is generated from has to meet a condition. -/
inductive Statement (generation : String → Prop) : String → Prop where
  | create {table : String} {columns : List (String × String)} (htable : IsPlainName table)
      (hne : columns ≠ []) (hcolumns : ∀ c ∈ columns, IsPlainName c.1 ∧ IsPlainName c.2) :
      Statement generation ("CREATE TABLE IF NOT EXISTS " ++ table ++ " (" ++
        String.intercalate ", " (columns.map fun c => c.1 ++ " " ++ c.2) ++ ");")
  | add {table name type e : String} (htable : IsPlainName table) (hname : IsPlainName name)
      (htype : IsPlainName type) (he : generation e) :
      Statement generation ("ALTER TABLE " ++ table ++ " ADD COLUMN " ++ (name ++ " " ++ type) ++
        " GENERATED ALWAYS AS " ++ e ++ " STORED;")

def Enclosed (inner : String → Prop) (e : String) : Prop :=
  ∃ i, inner i ∧ e = "(" ++ i ++ ")"

/-- Statements one after the other, with blanks behind each of them. -/
inductive Sequence : List String → String → Prop where
  | nil : Sequence [] ""
  | cons {s gap rest : String} {ss : List String} (hgap : gap.toList.all Char.isWhitespace = true)
      (h : Sequence ss rest) : Sequence (s :: ss) (s ++ gap ++ rest)

def IsScript (generation : String → Prop) (text : String) : Prop :=
  ∃ ss, Sequence ss text ∧ ∀ s ∈ ss, Statement generation s

/-- A text with a semicolon at its end, and none before it outside of literals. It starts with
something else than a blank. -/
def Terminated (s : String) : Prop :=
  ∃ body ps, s = body ++ ";" ∧ scan body.toList = some ps ∧ Piece.plain ';' ∉ ps
    ∧ ∃ c, s.toList.head? = some c ∧ c.isWhitespace = false

theorem IsBalanced.terminated {body : String} (h : IsBalanced body) {c : Char}
    (hhead : body.toList.head? = some c) (hc : c.isWhitespace = false) : Terminated (body ++ ";") := by
  obtain ⟨ps, hps, -, hend⟩ := h
  refine ⟨body, ps, rfl, hps, hend, c, ?_, hc⟩
  rw [String.toList_append, List.head?_append, hhead]
  rfl

variable {ss : List String}

theorem isFlat_intercalate (hw : IsFlat w) (h : ∀ s ∈ ss, IsFlat s) :
    IsFlat (String.intercalate w ss) := by
  induction ss with
  | nil => rfl
  | cons s ss ih =>
    obtain ⟨hs, hss⟩ := List.forall_mem_cons.mp h
    cases ss with
    | nil => simpa using hs
    | cons r ss =>
      rw [String.intercalate_cons_cons, isFlat_append, isFlat_append]
      exact ⟨⟨hs, hw⟩, ih hss⟩

theorem isFlat_declaration {name type : String} (hname : IsPlainName name) (htype : IsPlainName type) :
    IsFlat (name ++ " " ++ type) := by
  rw [isFlat_append, isFlat_append]
  exact ⟨⟨isFlat_of_isPlainName hname, by decide⟩, isFlat_of_isPlainName htype⟩

variable {generation : String → Prop}

theorem Statement.terminated
    (hgeneration : ∀ e, generation e → IsBalanced e) (h : Statement generation s) :
    Terminated s := by
  have hempty : IsBalanced "" := IsFlat.isBalanced (by decide)
  cases h with
  | @create table columns htable _ hcolumns =>
    have hstart : IsFlat ("CREATE TABLE IF NOT EXISTS " ++ table ++ " ") := by
      rw [isFlat_append, isFlat_append]
      exact ⟨⟨by decide, isFlat_of_isPlainName htable⟩, by decide⟩
    have hinner : IsFlat (String.intercalate ", " (columns.map fun c => c.1 ++ " " ++ c.2)) := by
      refine isFlat_intercalate (by decide) (List.forall_mem_map.mpr fun c hc => ?_)
      exact isFlat_declaration (hcolumns c hc).1 (hcolumns c hc).2
    have hbody := hempty.join hstart (by simp) hinner.isBalanced.brackets
    have hterminated := hbody.terminated (c := 'C') (by simp) (by decide)
    convert hterminated using 1
    exact String.toList_inj.mp (by simp)
  | @add table name type e htable hname htype he =>
    have hstart : IsFlat ("ALTER TABLE " ++ table ++ " ADD COLUMN " ++ (name ++ " " ++ type) ++
        " GENERATED ALWAYS AS ") := by
      rw [isFlat_append, isFlat_append, isFlat_append, isFlat_append]
      exact ⟨⟨⟨⟨by decide, isFlat_of_isPlainName htable⟩, by decide⟩,
        isFlat_declaration hname htype⟩, by decide⟩
    have hbody := (hempty.join hstart (by simp) (hgeneration e he)).join (w := " STORED") (by decide)
      (by decide) hempty
    have hterminated := hbody.terminated (c := 'A') (by simp) (by decide)
    convert hterminated using 1
    exact String.toList_inj.mp (by simp)

/-! ## Cutting a text into statements -/

/-- The parts before and behind the first place of a separator. -/
theorem cut_unique {α : Type} {x : α} {a b r t : List α} (ha : x ∉ a) (hb : x ∉ b)
    (h : a ++ x :: r = b ++ x :: t) : a = b ∧ r = t := by
  -- one of the two starts with the other, and what it has beyond that would start with the mark
  rcases List.append_eq_append_iff.mp h with ⟨_ | _, rfl, _⟩ | ⟨_ | _, rfl, _⟩ <;> simp_all

theorem Terminated.unique {r : String} (hs : Terminated s) (hr : Terminated r)
    (ha : ∃ ps, scan a.toList = some ps) (hb : ∃ ps, scan b.toList = some ps)
    (h : s ++ a = r ++ b) : s = r ∧ a = b := by
  obtain ⟨body, ps, rfl, hps, hend, -⟩ := hs
  obtain ⟨body', ps', rfl, hps', hend', -⟩ := hr
  obtain ⟨qs, hqs⟩ := ha
  obtain ⟨qs', hqs'⟩ := hb
  have hscan {body a : String} {ps qs : List Piece} (hps : scan body.toList = some ps)
      (hqs : scan a.toList = some qs) :
      scan (body ++ ";" ++ a).toList = some (ps ++ .plain ';' :: qs) :=
    scan_join hps (by decide) (by decide) hqs
  have hpieces := hscan hps hqs
  rw [h, hscan hps' hqs'] at hpieces
  obtain ⟨rfl, -⟩ := cut_unique hend' hend (Option.some.inj hpieces)
  -- the pieces of a text make it up
  have hbody : body.toList = body'.toList := (pieces_scan hps).symm.trans (pieces_scan hps')
  obtain rfl := String.toList_inj.mp hbody
  exact ⟨rfl, (String.append_right_inj _).mp h⟩

variable {text : String}

section

variable (h : Sequence ss text) (hss : ∀ s ∈ ss, Terminated s) {gap : String}
  (hgap : gap.toList.all Char.isWhitespace = true)

include h hss hgap

theorem Sequence.exists_scan : ∃ ps, scan (gap ++ text).toList = some ps := by
  have hplain {gap : String} (hgap : gap.toList.all Char.isWhitespace) : '\'' ∉ gap.toList :=
    fun hc => absurd (List.all_eq_true.mp hgap '\'' hc) (by decide)
  induction h generalizing gap with
  | nil =>
    rw [String.append_empty]
    exact ⟨_, scan_plain (hplain hgap)⟩
  | @cons s after rest ss hafter _ ih =>
    obtain ⟨⟨body, ps, rfl, hps, -⟩, htail⟩ := List.forall_mem_cons.mp hss
    obtain ⟨qs, hqs⟩ := ih htail hafter
    rw [String.toList_append, scan_plain_append (hplain hgap), String.append_assoc,
      scan_join hps (by decide) (by decide) hqs]
    exact ⟨_, rfl⟩

/-- Behind the blanks there is a statement or nothing. -/
theorem Sequence.dropWhile_gap :
    (gap ++ text).toList.dropWhile Char.isWhitespace = text.toList := by
  rw [String.toList_append, List.dropWhile_append_of_pos (List.all_eq_true.mp hgap)]
  cases h with
  | nil => rfl
  | @cons s gap rest ss _ _ =>
    obtain ⟨_, _, -, -, -, c, hhead, hc⟩ := hss s (.head _)
    obtain ⟨cs, hcs⟩ := List.head?_eq_some_iff.mp hhead
    rw [String.toList_append, String.toList_append, hcs, List.cons_append, List.cons_append,
      List.dropWhile_cons_of_neg (by simp [hc])]

end

theorem Sequence.unique {rs : List String} {other : String} (h : Sequence ss text)
    (k : Sequence rs other) (heq : text = other) (hss : ∀ s ∈ ss, Terminated s)
    (hrs : ∀ r ∈ rs, Terminated r) : ss = rs := by
  -- a statement is not empty
  have hne {s a b : String} (hs : Terminated s) : s ++ a ++ b ≠ "" := by
    obtain ⟨body, _, rfl, -⟩ := hs
    simp
  induction h generalizing rs other with
  | nil =>
    cases k with
    | nil => rfl
    | cons _ _ => exact absurd heq.symm (hne (hrs _ (.head _)))
  | @cons s gap rest ss hgap hrest ih =>
    cases k with
    | nil => exact absurd heq (hne (hss _ (.head _)))
    | @cons r gap' rest' rs hgap' hrest' =>
      obtain ⟨hs, hsrest⟩ := List.forall_mem_cons.mp hss
      obtain ⟨hr, hrrest⟩ := List.forall_mem_cons.mp hrs
      rw [String.append_assoc, String.append_assoc] at heq
      obtain ⟨rfl, hgaps⟩ :=
        hs.unique hr (hrest.exists_scan hsrest hgap) (hrest'.exists_scan hrrest hgap') heq
      have hrests : rest.toList = rest'.toList := by
        rw [← hrest.dropWhile_gap hsrest hgap, hgaps, hrest'.dropWhile_gap hrrest hgap']
      rw [ih hrest' (String.toList_inj.mp hrests) hsrest hrrest]

/-! ## What a column is generated from -/

theorem IsPlainName.rest_unique {r t : String} (ha : IsPlainName a) (hb : IsPlainName b)
    (h : a ++ (" " ++ r) = b ++ (" " ++ t)) : r = t := by
  have hblank {s : String} (hs : IsPlainName s) : ' ' ∉ s.toList :=
    fun hc => absurd (hs.isWordChar ' ' hc) (by decide)
  have hlist : a.toList ++ ' ' :: r.toList = b.toList ++ ' ' :: t.toList := by
    simpa using congrArg String.toList h
  exact String.toList_inj.mp (cut_unique (hblank ha) (hblank hb) hlist).2

theorem Statement.generation_of_add {table name type : String}
    (htable : IsPlainName table) (hname : IsPlainName name) (htype : IsPlainName type)
    (h : Statement generation ("ALTER TABLE " ++ table ++ " ADD COLUMN " ++ (name ++ " " ++ type) ++
      " GENERATED ALWAYS AS " ++ e ++ " STORED;")) : generation e := by
  have hwords (table name type e : String) :
      "ALTER TABLE " ++ table ++ " ADD COLUMN " ++ (name ++ " " ++ type) ++ " GENERATED ALWAYS AS " ++
        e ++ " STORED;" = "ALTER TABLE " ++ (table ++ (" " ++ ("ADD COLUMN " ++ (name ++ (" " ++
          (type ++ (" " ++ ("GENERATED ALWAYS AS " ++ (e ++ " STORED;"))))))))) :=
    String.toList_inj.mp (by simp)
  rw [hwords] at h
  generalize htext : "ALTER TABLE " ++ _ = text at h
  cases h with
  | create _ _ _ =>
    have hlist := congrArg String.toList htext
    simp at hlist
  | @add table' name' type' e' htable' hname' htype' he =>
    rw [hwords, String.append_right_inj] at htext
    have hcolumn := (String.append_right_inj _).mp (htable.rest_unique htable' htext)
    have hexpression := htype.rest_unique htype' (hname.rest_unique hname' hcolumn)
    have heq : e = e' := (String.append_left_inj _).mp ((String.append_right_inj _).mp hexpression)
    exact heq ▸ he

end SheetIntake.Sql
