import SheetIntake.Proofs.SqlGrammar

/-!
# What a text of SQL means

Expressions are evaluated under any interpretation of numbers, truth values, texts, operators and
case distinctions in which conjunction is associative, and with any values of the columns. A text
`Reads` as a meaning when it is an expression with that value under all of them.

* `Reads.name`, `Reads.operation`, `Reads.choice` and so on — the meaning of each form of text, from
  the meanings of its parts.
-/

namespace SheetIntake.Sql

universe u

/-- An interpretation of expressions. -/
structure Interpretation (V : Type u) where
  number : Nat → V
  truth : Bool → V
  text : String → V
  apply : Operator → V → V → V
  choice : V → V → V → V
  and_assoc : ∀ a b c, apply .and (apply .and a b) c = apply .and a (apply .and b c)

/-- The value of an expression, with values for the columns. -/
def Tree.eval {V : Type u} (I : Interpretation V) (row : String → V) : Tree → V
  | .number n => I.number n
  | .truth b => I.truth b
  | .text s => I.text s
  | .name s => row s
  | .operation o left right => I.apply o (left.eval I row) (right.eval I row)
  | .choice test yes no => I.choice (test.eval I row) (yes.eval I row) (no.eval I row)

/-- A meaning: a value for every interpretation and row. -/
abbrev Meaning : Type (u + 1) :=
  (V : Type u) → Interpretation V → (String → V) → V

/-- The text is an expression, and its value is always the given one. -/
def Reads (s : String) (meaning : Meaning.{u}) : Prop :=
  ∃ ts tree, tokens s = some ts ∧ Derives 0 ts tree
    ∧ ∀ (V : Type u) (I : Interpretation V) (row : String → V), tree.eval I row = meaning V I row

variable {s : String}

theorem Reads.unique {meaning : Meaning.{u}} (h : Reads s meaning) :
    ∃ ts, tokens s = some ts ∧ (∃ tree, Derives 0 ts tree)
      ∧ ∀ tree, Derives 0 ts tree → ∀ (V : Type u) (I : Interpretation V) (row : String → V),
        tree.eval I row = meaning V I row := by
  obtain ⟨ts, tree, htokens, hderives, heval⟩ := h
  refine ⟨ts, htokens, ⟨tree, hderives⟩, fun other hother => ?_⟩
  rw [hother.unique hderives]
  exact heval

/-! ## Single tokens -/

theorem Derives.mono {r k : Nat} (hle : r ≤ k) {ts : List Token} {t : Tree} (h : Derives k ts t) :
    Derives r ts t := by
  induction hle with
  | refl => exact h
  | step _ ih => exact ih h.lift

theorem Reads.leaf {token : Token} {tree : Tree} (htokens : tokens s = some [token])
    (hleaf : token.leaf? = some tree) : Reads.{u} s (fun _ I row => tree.eval I row) :=
  ⟨[token], tree, htokens, .mono (Nat.zero_le 4) (.leaf hleaf), fun _ _ _ => rfl⟩

theorem Reads.number (n : Nat) : Reads.{u} (toString n) (fun _ I _ => I.number n) :=
  .leaf (tokens_number n) rfl

theorem Reads.truth (b : Bool) :
    Reads.{u} (if b then "TRUE" else "FALSE") (fun _ I _ => I.truth b) := by
  have htokens : tokens (if b then "TRUE" else "FALSE") = some [.truth b] := by cases b <;> rfl
  exact .leaf htokens rfl

theorem Reads.text {s : String} (h : '\'' ∉ s.toList) :
    Reads.{u} ("'" ++ s ++ "'") (fun _ I _ => I.text s) :=
  .leaf (tokens_quoted h) rfl

theorem Reads.name (h : IsPlainName s) : Reads.{u} s (fun _ _ row => row s) :=
  .leaf (tokens_name h) rfl

/-! ## Operators and case distinctions -/

theorem tokens_brackets {ts : List Token} (h : tokens s = some ts) :
    tokens ("(" ++ (s ++ ")")) = some (.opening :: (ts ++ [.closing])) := by
  have hopening : tokens "(" = some [.opening] := rfl
  have hclosing : tokens ")" = some [.closing] := rfl
  exact tokens_append_of_frame hopening (tokens_append h hclosing rfl rfl) (by decide) rfl rfl

variable {a b : String}

theorem head?_toList_append {c : Char} (h : a.toList.head? = some c) :
    (a ++ b).toList.head? = some c := by
  rw [String.toList_append, List.head?_append, h]
  rfl

theorem Reads.operation {a b : String} {left right : Meaning.{u}} (o : Operator)
    (ha : Reads a left) (hb : Reads b right) :
    Reads ("(" ++ a ++ ") " ++ o.symbol ++ " (" ++ b ++ ")")
      (fun V I row => I.apply o (left V I row) (right V I row)) := by
  obtain ⟨ts, l, hts, hl, hleft⟩ := ha
  obtain ⟨us, r, hus, hr, hright⟩ := hb
  have hsymbol : tokens (" " ++ o.symbol ++ " ") = some [.operator o] := by cases o <;> rfl
  have hplain : '\'' ∉ (" " ++ o.symbol ++ " ").toList := by cases o <;> decide
  have hend : (" " ++ o.symbol ++ " ").toList.getLast? = some ' ' := by cases o <;> rfl
  have htext : "(" ++ a ++ ") " ++ o.symbol ++ " (" ++ b ++ ")" =
      ("(" ++ (a ++ ")")) ++ ((" " ++ o.symbol ++ " ") ++ ("(" ++ (b ++ ")"))) := by
    rw [show ") " = ")" ++ " " from rfl, show " (" = " " ++ "(" from rfl]
    simp only [String.append_assoc]
  -- in brackets both sides are operands of the highest rank, so they fit beside any operator
  refine ⟨_, .operation o l r, ?_, .mono (Nat.zero_le _) (.operation
    (.mono o.rank_lt.le (.brackets hl)) (.mono o.rank_lt (.brackets hr))), fun V I row => ?_⟩
  · rw [htext]
    have htail := tokens_append_of_frame hsymbol (tokens_brackets hus) hplain hend rfl
    exact tokens_append (tokens_brackets hts) htail
      (head?_toList_append (head?_toList_append (head?_toList_append rfl))) rfl
  · rw [Tree.eval, hleft, hright]

theorem Reads.choice {c : String} {test yes no : Meaning.{u}} (ha : Reads a test) (hb : Reads b yes)
    (hc : Reads c no) : Reads ("CASE WHEN " ++ a ++ " THEN " ++ b ++ " ELSE " ++ c ++ " END")
      (fun V I row => I.choice (test V I row) (yes V I row) (no V I row)) := by
  obtain ⟨as, ta, has, hta, htest⟩ := ha
  obtain ⟨bs, tb, hbs, htb, hyes⟩ := hb
  obtain ⟨cs, tc, hcs, htc, hno⟩ := hc
  have htext : "CASE WHEN " ++ a ++ " THEN " ++ b ++ " ELSE " ++ c ++ " END" =
      "CASE WHEN " ++ (a ++ (" THEN " ++ (b ++ (" ELSE " ++ (c ++ " END"))))) := by
    simp only [String.append_assoc]
  refine ⟨_, .choice ta tb tc, ?_, .mono (Nat.zero_le 4) (.choice hta htb htc), fun V I row => ?_⟩
  · rw [htext]
    have hstart : tokens "CASE WHEN " = some [.caseStart, .caseWhen] := rfl
    have hthen : tokens " THEN " = some [.caseThen] := rfl
    have helse : tokens " ELSE " = some [.caseElse] := rfl
    have hend : tokens " END" = some [.caseEnd] := rfl
    -- from the end: each part ends where the word after it starts
    have h := tokens_append hcs hend rfl rfl
    have h := tokens_append_of_frame helse h (by decide) rfl rfl
    have h := tokens_append hbs h (head?_toList_append rfl) rfl
    have h := tokens_append_of_frame hthen h (by decide) rfl rfl
    have h := tokens_append has h (head?_toList_append rfl) rfl
    exact tokens_append_of_frame hstart h (by decide) rfl rfl
  · rw [Tree.eval, htest, hyes, hno]

/-! ## Conjunctions and sums -/

theorem Operator.eq_and_of_rank {o : Operator} (h : o.rank = 0) : o = .and := by
  cases o <;> first | rfl | cases h

/-- Two conjunctions without brackets group to the left, with the same value. -/
theorem Derives.graft {a b : List Token} {l r : Tree} {k : Nat} (ha : Derives 0 a l)
    (hb : Derives k b r) (hk : k = 0) : ∃ t, Derives 0 (a ++ .operator .and :: b) t
      ∧ ∀ (V : Type u) (I : Interpretation V) (row : String → V),
        t.eval I row = I.apply .and (l.eval I row) (r.eval I row) := by
  induction hb with
  | @operation o b c m r _ hright ih _ =>
    -- the right side is a conjunction: its left part is grafted, its right part comes last
    obtain rfl := Operator.eq_and_of_rank hk
    obtain ⟨t, ht, heval⟩ := ih rfl
    refine ⟨.operation .and t r, ?_, fun V I row => ?_⟩
    · rw [← List.cons_append, ← List.append_assoc]
      exact .operation (o := .and) ht hright
    · rw [Tree.eval, heval, I.and_assoc]
      rfl
  | @lift _ b r h _ =>
    subst hk
    exact ⟨.operation .and l r, .operation (o := .and) ha h, fun _ _ _ => rfl⟩
  | _ => cases hk

theorem Reads.and {left right : Meaning.{u}} (ha : Reads a left) (hb : Reads b right) :
    Reads (a ++ " AND " ++ b) (fun V I row => I.apply .and (left V I row) (right V I row)) := by
  obtain ⟨ts, l, hts, hl, hleft⟩ := ha
  obtain ⟨us, r, hus, hr, hright⟩ := hb
  obtain ⟨t, ht, heval⟩ := hl.graft hr rfl
  have hand : tokens " AND " = some [.operator .and] := rfl
  refine ⟨_, t, ?_, ht, fun V I row => by rw [heval, hleft, hright]⟩
  rw [String.append_assoc]
  exact tokens_append hts (tokens_append_of_frame hand hus (by decide) rfl rfl)
    (head?_toList_append rfl) rfl

/-- Several values joined by an operator, from the left. -/
def fold (o : Operator) (first : Meaning.{u}) (rest : List Meaning.{u}) : Meaning.{u} :=
  fun V I row => rest.foldl (fun value m => I.apply o value (m V I row)) (first V I row)

theorem and_fold {V : Type u} (I : Interpretation V) (row : String → V) (value : V)
    (first : Meaning.{u}) (rest : List Meaning.{u}) :
    I.apply .and value (fold .and first rest V I row) =
      rest.foldl (fun v m => I.apply .and v (m V I row)) (I.apply .and value (first V I row)) := by
  unfold fold
  generalize first V I row = start
  induction rest generalizing start with
  | nil => rfl
  | cons m rest ih => rw [List.foldl_cons, List.foldl_cons, ih, I.and_assoc]

theorem Reads.conjunction {meaning : Meaning.{u}} (h : Reads s meaning) {texts : List String}
    {meanings : List Meaning.{u}} (hrest : List.Forall₂ Reads texts meanings) :
    Reads (String.intercalate " AND " (s :: texts)) (fold .and meaning meanings) := by
  induction hrest generalizing s meaning with
  | nil => exact h
  | @cons t m texts meanings ht _ ih =>
    rw [String.intercalate_cons_cons]
    obtain ⟨ts, tree, htokens, hderives, heval⟩ := h.and (ih ht)
    exact ⟨ts, tree, htokens, hderives,
      fun V I row => (heval V I row).trans (and_fold I row _ m meanings)⟩

theorem tokens_sum (h : IsPlainName s) {names : List String}
    (hnames : ∀ name ∈ names, IsPlainName name) : tokens (String.intercalate " + " (s :: names)) =
      some (.name s :: names.flatMap (fun name => [.operator .add, .name name])) := by
  induction names generalizing s with
  | nil => exact tokens_name h
  | cons name names ih =>
    obtain ⟨hname, hnames⟩ := List.forall_mem_cons.mp hnames
    have hplus : tokens " + " = some [.operator .add] := rfl
    have htail := tokens_append_of_frame hplus (ih hname hnames) (by decide) rfl rfl
    rw [String.intercalate_cons_cons, String.append_assoc]
    exact tokens_append (tokens_name h) htail (head?_toList_append rfl) rfl

theorem Derives.add_names {a : List Token} {t : Tree} (h : Derives 2 a t) (names : List String) :
    Derives 2 (a ++ names.flatMap (fun name => [.operator .add, .name name]))
      (names.foldl (fun t name => .operation .add t (.name name)) t) := by
  induction names generalizing a t with
  | nil => rwa [List.flatMap_nil, List.append_nil]
  | cons name names ih =>
    have hname : Derives 3 [.name name] (.name name) := .lift (.leaf rfl)
    rw [List.flatMap_cons, ← List.append_assoc]
    exact ih (.operation (o := .add) h hname)

theorem Tree.eval_foldl_add {V : Type u} (I : Interpretation V) (row : String → V) (t : Tree)
    (names : List String) :
    (names.foldl (fun t name => .operation .add t (.name name)) t).eval I row =
      names.foldl (fun value name => I.apply .add value (row name)) (t.eval I row) := by
  induction names generalizing t with
  | nil => rfl
  | cons name names ih => exact ih (.operation .add t (.name name))

theorem Reads.sum (h : IsPlainName s) {names : List String}
    (hnames : ∀ name ∈ names, IsPlainName name) : Reads.{u} (String.intercalate " + " (s :: names))
      (fold .add (fun _ _ row => row s) (names.map (fun name _ _ row => row name))) := by
  have hfirst : Derives 2 [.name s] (.name s) := .mono (by decide : 2 ≤ 4) (.leaf rfl)
  refine ⟨_, _, tokens_sum h hnames, .mono (Nat.zero_le 2) (hfirst.add_names names), fun V I row => ?_⟩
  rw [Tree.eval_foldl_add, fold, List.foldl_map]
  rfl

end SheetIntake.Sql
