/-!
# String literals in SQL

A string literal runs from a quote to the next quote that is not doubled, and a doubled quote inside
it stands for one. `scan` cuts a text into its literals and the characters outside of them, in one
pass of a machine with three modes.

* `run_append` — the pass over two parts is the pass over one after the other.
* `scan_quoted` — a text without quotes, put between quotes, is one literal.
-/

namespace SheetIntake.Sql

/-! ## The scanner -/

/-- A piece of a text: a character outside of literals, or the content of a literal. -/
inductive Piece where
  | plain (c : Char)
  | literal (content : List Char)
  deriving DecidableEq, Repr

/-- Where the scanner is: outside of literals, inside one, or behind a quote inside one, which closes
the literal unless another quote follows. -/
inductive Mode where
  | outside
  | inside (content : List Char)
  | closing (content : List Char)
  deriving DecidableEq, Repr

namespace Mode

/-- The mode after a character, and the pieces that are complete with it. -/
def step : Mode → Char → Mode × List Piece
  | .outside, c => if c = '\'' then (.inside [], []) else (.outside, [.plain c])
  | .inside content, c =>
    if c = '\'' then (.closing content, []) else (.inside (content ++ [c]), [])
  | .closing content, c =>
    if c = '\'' then (.inside (content ++ ['\'']), []) else (.outside, [.literal content, .plain c])

/-- The mode after several characters, and the pieces that are complete with them. -/
def run : Mode → List Char → Mode × List Piece
  | m, [] => (m, [])
  | m, c :: cs =>
    let next := m.step c
    let rest := run next.1 cs
    (rest.1, next.2 ++ rest.2)

/-- The last piece at the end of a text; a literal has to be closed there. -/
def finish : Mode → Option (List Piece)
  | .outside => some []
  | .inside _ => none
  | .closing content => some [.literal content]

end Mode

/-- The pieces of a text; none if its last literal is not closed. -/
def scan (cs : List Char) : Option (List Piece) :=
  let r := Mode.run .outside cs
  r.1.finish.map (r.2 ++ ·)

def Piece.content? : Piece → Option (List Char)
  | .plain _ => none
  | .literal content => some content

def contents (ps : List Piece) : List (List Char) :=
  ps.filterMap Piece.content?

@[simp]
theorem contents_plain (c : Char) (ps : List Piece) : contents (.plain c :: ps) = contents ps := rfl

@[simp]
theorem contents_literal (content : List Char) (ps : List Piece) :
    contents (.literal content :: ps) = content :: contents ps := rfl

def literals (cs : List Char) : Option (List (List Char)) :=
  (scan cs).map contents

/-- A piece without the content of a literal. -/
def Piece.hollow : Piece → Piece
  | .plain c => .plain c
  | .literal _ => .literal []

/-- A text outside of its literals: only their places are kept. -/
def skeleton (cs : List Char) : Option (List Piece) :=
  (scan cs).map (·.map Piece.hollow)

/-! ## Writing the pieces again -/

/-- The content of a literal as it is written: quotes are doubled. -/
def doubled (content : List Char) : List Char :=
  content.flatMap (fun c => if c = '\'' then ['\'', '\''] else [c])

/-- A piece as it is written. -/
def Piece.chars : Piece → List Char
  | .plain c => [c]
  | .literal content => '\'' :: doubled content ++ ['\'']

/-- What was read of a piece that is not complete. -/
def Mode.pending : Mode → List Char
  | .outside => []
  | .inside content => '\'' :: doubled content
  | .closing content => '\'' :: doubled content ++ ['\'']

/-- A step keeps what was read: it is in the complete pieces or pending. -/
theorem Mode.pending_step (m : Mode) (c : Char) :
    m.pending ++ [c] = (m.step c).2.flatMap Piece.chars ++ (m.step c).1.pending := by
  by_cases hc : c = '\''
  · subst hc
    cases m <;> simp [step, pending, doubled]
  · cases m <;> simp [step, pending, Piece.chars, doubled, hc]

theorem Mode.pending_run (m : Mode) (cs : List Char) :
    m.pending ++ cs = (m.run cs).2.flatMap Piece.chars ++ (m.run cs).1.pending := by
  induction cs generalizing m with
  | nil => simp [run]
  | cons c cs ih =>
    rw [run, List.flatMap_append, List.append_assoc, ← ih, ← List.append_assoc, ← pending_step]
    simp

variable {cs : List Char} {ps : List Piece}

theorem pieces_scan (h : scan cs = some ps) : ps.flatMap Piece.chars = cs := by
  have hrun := Mode.pending_run .outside cs
  unfold scan at h
  rcases hm : Mode.run .outside cs with ⟨m, qs⟩
  rw [hm] at h hrun
  obtain ⟨last, hlast, rfl⟩ := Option.map_eq_some_iff.mp h
  cases m with
  | outside =>
    cases hlast
    simpa [Mode.pending] using hrun.symm
  | inside content => cases hlast
  | closing content =>
    cases hlast
    simpa [Mode.pending, Piece.chars] using hrun.symm

/-! ## Cutting part by part -/

theorem Mode.run_append (m : Mode) (a b : List Char) :
    m.run (a ++ b) = (((m.run a).1.run b).1, (m.run a).2 ++ ((m.run a).1.run b).2) := by
  induction a generalizing m with
  | nil => simp [run]
  | cons c a ih => simp [run, ih]

theorem Mode.run_plain (h : '\'' ∉ cs) : Mode.run .outside cs = (.outside, cs.map .plain) := by
  induction cs with
  | nil => rfl
  | cons c cs ih =>
    rw [List.mem_cons, not_or] at h
    simp [run, step, Ne.symm h.1, ih h.2]

theorem scan_plain (h : '\'' ∉ cs) : scan cs = some (cs.map .plain) := by
  simp [scan, Mode.run_plain h, Mode.finish]

theorem scan_plain_append {a : List Char} (h : '\'' ∉ a) (b : List Char) :
    scan (a ++ b) = (scan b).map (a.map .plain ++ ·) := by
  unfold scan
  simp only [Mode.run_append, Mode.run_plain h, Option.map_map, Function.comp_def, List.append_assoc]

theorem scan_append {a b : List Char} (ha : scan a = some ps) (hb : b.head? ≠ some '\'') :
    scan (a ++ b) = (scan b).map (ps ++ ·) := by
  unfold scan at ha ⊢
  rcases hm : Mode.run .outside a with ⟨m, qs⟩
  rw [hm] at ha
  obtain ⟨last, hlast, rfl⟩ := Option.map_eq_some_iff.mp ha
  simp only [Mode.run_append, hm, Option.map_map, Function.comp_def]
  cases m with
  | outside =>
    cases hlast
    simp
  | inside content => cases hlast
  | closing content =>
    cases hlast
    -- the first character of `b` shows that the literal was closed before it
    cases b with
    | nil => simp [Mode.run, Mode.finish]
    | cons c b =>
      have hc : c ≠ '\'' := fun h => hb (by rw [h]; rfl)
      simp [Mode.run, Mode.step, if_neg hc]

theorem scan_join {a w b : String} {qs : List Piece} (ha : scan a.toList = some ps)
    (hw : '\'' ∉ w.toList) (hne : w ≠ "") (hb : scan b.toList = some qs) :
    scan (a ++ w ++ b).toList = some (ps ++ (w.toList.map .plain ++ qs)) := by
  have hhead : (w.toList ++ b.toList).head? ≠ some '\'' := by
    cases hcs : w.toList with
    | nil => exact absurd (String.toList_eq_nil_iff.mp hcs) hne
    | cons c cs =>
      intro hc
      cases hc
      exact hw (hcs ▸ List.mem_cons_self)
  rw [String.toList_append, String.toList_append, List.append_assoc, scan_append ha hhead,
    scan_plain_append hw, hb]
  rfl

theorem Mode.run_inside (h : '\'' ∉ cs) (content : List Char) :
    Mode.run (.inside content) cs = (.inside (content ++ cs), []) := by
  induction cs generalizing content with
  | nil => simp [run]
  | cons c cs ih =>
    rw [List.mem_cons, not_or] at h
    simp [run, step, Ne.symm h.1, ih h.2]

theorem scan_quoted {content : List Char} (h : '\'' ∉ content) :
    scan ('\'' :: (content ++ ['\''])) = some [.literal content] := by
  simp [scan, Mode.run, Mode.step, Mode.run_append, Mode.run_inside h, Mode.finish]

end SheetIntake.Sql
