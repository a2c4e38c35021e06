import SheetIntake.Proofs.SqlTokens

/-!
# The grammar of SQL expressions

`Derives` is the usual grammar of expressions: products bind before sums, sums before comparisons,
comparisons before conjunctions, and operators of one rank group to the left.

## No text has two trees

A rule that starts with its own rank cannot be followed from left to right. `Reading` is the same
grammar in a form that can: an operand of the next rank, and then a tail of operators with their
right sides.
-/

namespace SheetIntake.Sql

/-- An expression of SQL. -/
inductive Tree where
  | number (n : Nat)
  | truth (b : Bool)
  | text (s : String)
  | name (s : String)
  | operation (o : Operator) (left right : Tree)
  | choice (test yes no : Tree)
  deriving DecidableEq, Repr

/-- The expression that a token is by itself. -/
def Token.leaf? : Token → Option Tree
  | .number n => some (.number n)
  | .truth b => some (.truth b)
  | .text s => some (.text s)
  | .name s => some (.name s)
  | _ => none

/-- The expressions of each rank: those of rank four are operands of every operator, those of rank
zero are all. -/
inductive Derives : Nat → List Token → Tree → Prop where
  | leaf {token : Token} {t : Tree} (h : token.leaf? = some t) : Derives 4 [token] t
  | brackets {ts : List Token} {t : Tree} (h : Derives 0 ts t) :
      Derives 4 (.opening :: (ts ++ [.closing])) t
  | choice {a b c : List Token} {test yes no : Tree} (htest : Derives 0 a test)
      (hyes : Derives 0 b yes) (hno : Derives 0 c no) :
      Derives 4 (.caseStart :: .caseWhen :: (a ++ .caseThen :: (b ++ .caseElse :: (c ++ [.caseEnd]))))
        (.choice test yes no)
  | operation {o : Operator} {a b : List Token} {left right : Tree}
      (hleft : Derives o.rank a left) (hright : Derives (o.rank + 1) b right) :
      Derives o.rank (a ++ .operator o :: b) (.operation o left right)
  | lift {r : Nat} {ts : List Token} {t : Tree} (h : Derives (r + 1) ts t) : Derives r ts t

/-! ## The grammar from left to right -/

/-- What is read: an operand of a rank, or what follows the left side of operators of a rank. -/
inductive Phrase where
  | operand (r : Nat)
  | tail (r : Nat) (left : Tree)

def Phrase.rank : Phrase → Nat
  | .operand r => r
  | .tail r _ => r

/-- The tokens of a phrase and the tree that they give. -/
inductive Reading : Phrase → List Token → Tree → Prop where
  | leaf {token : Token} {t : Tree} (h : token.leaf? = some t) : Reading (.operand 4) [token] t
  | brackets {ts : List Token} {t : Tree} (h : Reading (.operand 0) ts t) :
      Reading (.operand 4) (.opening :: (ts ++ [.closing])) t
  | choice {a b c : List Token} {test yes no : Tree} (htest : Reading (.operand 0) a test)
      (hyes : Reading (.operand 0) b yes) (hno : Reading (.operand 0) c no) :
      Reading (.operand 4)
        (.caseStart :: .caseWhen :: (a ++ .caseThen :: (b ++ .caseElse :: (c ++ [.caseEnd]))))
        (.choice test yes no)
  | chain {r : Nat} {a b : List Token} {left t : Tree} (hr : r < 4)
      (hfirst : Reading (.operand (r + 1)) a left) (htail : Reading (.tail r left) b t) :
      Reading (.operand r) (a ++ b) t
  | stop {r : Nat} {left : Tree} : Reading (.tail r left) [] left
  | more {r : Nat} {o : Operator} {a b : List Token} {left right t : Tree} (ho : o.rank = r)
      (hright : Reading (.operand (r + 1)) a right)
      (htail : Reading (.tail r (.operation o left right)) b t) :
      Reading (.tail r left) (.operator o :: (a ++ b)) t

/-- No operator of a rank, or of one that binds more strongly, comes first. -/
def Stops (r : Nat) (ts : List Token) : Prop :=
  ∀ o, ts.head? = some (.operator o) → o.rank < r

variable {r : Nat} {t : Tree} {ts : List Token}

theorem stops_cons {token : Token} (h : ∀ o, token ≠ .operator o) : Stops r (token :: ts) := by
  intro o ho
  exact absurd (Option.some.inj ho) (h o)

/-- Before a tail, with something after it that ends the tail, stands an operand of the next rank. -/
theorem Reading.stops {left : Tree} {rest : List Token} (h : Reading (.tail r left) ts t)
    (hrest : Stops r rest) : Stops (r + 1) (ts ++ rest) := by
  cases h with
  | stop =>
    intro o ho
    exact Nat.lt_succ_of_lt (hrest o ho)
  | more ho _ _ =>
    intro o' ho'
    obtain rfl := Token.operator.inj (Option.some.inj ho')
    omega

theorem Reading.unique {p : Phrase} {a : List Token} (h : Reading p a t) :
    ∀ {b ra rb : List Token} {u : Tree}, Reading p b u → a ++ ra = b ++ rb → Stops p.rank ra →
      Stops p.rank rb → a = b ∧ t = u := by
  -- the first token decides which rule was followed, and what comes after its parts ends them
  induction h with
  | leaf hleaf =>
    intro b ra rb u k heq _ _
    cases k with
    | leaf kleaf =>
      obtain ⟨rfl, -⟩ := List.cons.inj heq
      exact ⟨rfl, Option.some.inj (hleaf.symm.trans kleaf)⟩
    | brackets _ | choice _ _ _ =>
      obtain ⟨rfl, -⟩ := List.cons.inj heq
      cases hleaf
    | chain hr _ _ => omega
  | brackets _ ih =>
    intro b ra rb u k heq _ _
    cases k with
    | leaf kleaf =>
      obtain ⟨rfl, -⟩ := List.cons.inj heq
      cases kleaf
    | brackets k =>
      simp only [List.cons_append, List.append_assoc, List.nil_append, List.cons.injEq, true_and] at heq
      obtain ⟨rfl, rfl⟩ := ih k heq (stops_cons nofun) (stops_cons nofun)
      exact ⟨rfl, rfl⟩
    | choice _ _ _ => cases (List.cons.inj heq).1
    | chain hr _ _ => omega
  | choice _ _ _ ihtest ihyes ihno =>
    intro b ra rb u k heq _ _
    cases k with
    | leaf kleaf =>
      obtain ⟨rfl, -⟩ := List.cons.inj heq
      cases kleaf
    | brackets _ => cases (List.cons.inj heq).1
    | choice ktest kyes kno =>
      -- each part is ended by the word after it, so they are compared one after the other
      simp only [List.cons_append, List.append_assoc, List.nil_append, List.cons.injEq, true_and] at heq
      obtain ⟨rfl, rfl⟩ := ihtest ktest heq (stops_cons nofun) (stops_cons nofun)
      obtain ⟨-, heq⟩ := List.cons.inj (List.append_cancel_left heq)
      obtain ⟨rfl, rfl⟩ := ihyes kyes heq (stops_cons nofun) (stops_cons nofun)
      obtain ⟨-, heq⟩ := List.cons.inj (List.append_cancel_left heq)
      obtain ⟨rfl, rfl⟩ := ihno kno heq (stops_cons nofun) (stops_cons nofun)
      exact ⟨rfl, rfl⟩
    | chain hr _ _ => omega
  | chain hr _ htail ihfirst ihtail =>
    intro b ra rb u k heq hra hrb
    cases k with
    | chain _ kfirst ktail =>
      -- a tail is empty or starts with an operator, so in both readings it ends the first operand
      rw [List.append_assoc, List.append_assoc] at heq
      obtain ⟨rfl, rfl⟩ := ihfirst kfirst heq (htail.stops hra) (ktail.stops hrb)
      obtain ⟨rfl, rfl⟩ := ihtail ktail (List.append_cancel_left heq) hra hrb
      exact ⟨rfl, rfl⟩
    | _ => omega
  | stop =>
    intro b ra rb u k heq hra _
    cases k with
    | stop => exact ⟨rfl, rfl⟩
    | more ko _ _ =>
      -- the operator would have been a reason to go on
      have hlt := hra _ (by rw [show ra = _ from heq]; rfl)
      exact absurd ko (Nat.ne_of_lt hlt)
  | more ho _ htail ihright ihtail =>
    intro b ra rb u k heq hra hrb
    cases k with
    | stop =>
      have hlt := hrb _ (by rw [show rb = _ from heq.symm]; rfl)
      exact absurd ho (Nat.ne_of_lt hlt)
    | more _ kright ktail =>
      simp only [List.cons_append, List.append_assoc, List.cons.injEq, Token.operator.injEq] at heq
      obtain ⟨rfl, heq⟩ := heq
      obtain ⟨rfl, rfl⟩ := ihright kright heq (htail.stops hra) (ktail.stops hrb)
      obtain ⟨rfl, rfl⟩ := ihtail ktail (List.append_cancel_left heq) hra hrb
      exact ⟨rfl, rfl⟩

/-! ## Every derivation is read -/

theorem Operator.rank_lt (o : Operator) : o.rank < 4 := by
  cases o <;> decide

theorem Derives.rank_le (h : Derives r ts t) : r ≤ 4 := by
  induction h with
  | operation _ _ _ ih | lift _ ih => omega
  | _ => exact le_rfl

theorem Reading.tail_four {left : Tree} (h : Reading (.tail 4 left) ts t) : ts = [] ∧ t = left := by
  cases h with
  | stop => exact ⟨rfl, rfl⟩
  | @more _ o _ _ _ _ _ ho _ _ => exact absurd ho (Nat.ne_of_lt o.rank_lt)

theorem Derives.reading (h : Derives r ts t) :
    ∀ {rest : List Token} {u : Tree}, Reading (.tail r t) rest u →
      Reading (.operand r) (ts ++ rest) u := by
  induction h with
  | leaf hleaf =>
    intro rest u k
    -- no operator has this rank, so nothing follows
    obtain ⟨rfl, rfl⟩ := k.tail_four
    exact .leaf hleaf
  | brackets _ ih =>
    intro rest u k
    obtain ⟨rfl, rfl⟩ := k.tail_four
    have hinner := ih .stop
    rw [List.append_nil] at hinner ⊢
    exact .brackets hinner
  | choice _ _ _ ihtest ihyes ihno =>
    intro rest u k
    obtain ⟨rfl, rfl⟩ := k.tail_four
    have htest := ihtest .stop
    have hyes := ihyes .stop
    have hno := ihno .stop
    rw [List.append_nil] at htest hyes hno ⊢
    exact .choice htest hyes hno
  | operation _ _ ihleft ihright =>
    intro rest u k
    -- the operator and its right side go to the tail of the left side
    have hright := ihright .stop
    rw [List.append_nil] at hright
    rw [List.append_assoc, List.cons_append]
    exact ihleft (.more rfl hright k)
  | lift h ih =>
    intro rest u k
    have hfirst := ih .stop
    rw [List.append_nil] at hfirst
    exact .chain h.rank_le hfirst k

theorem Derives.unique {u : Tree} (h : Derives 0 ts t) (k : Derives 0 ts u) : t = u := by
  have hends : Stops 0 [] := by nofun
  obtain ⟨-, htree⟩ := (h.reading .stop).unique (k.reading .stop)
    (rfl : ts ++ [] ++ [] = ts ++ [] ++ []) hends hends
  exact htree

end SheetIntake.Sql
