import Mathlib.Data.List.SplitBy
import SheetIntake.Assoc
import SheetIntake.Proofs.Literals

/-!
# Tokens of SQL expressions

A text is cut at its string literals first. Outside of them, the longest runs of word characters and
the longest runs of operator characters are tokens, and so is every bracket; blanks only separate.

* `tokens_word` — a word is one token, `tokens_number` and `tokens_name` say which.
-/

namespace SheetIntake.Sql

/-- The operators between two expressions. -/
inductive Operator where
  | and
  | eq
  | ne
  | lt
  | gt
  | le
  | ge
  | add
  | sub
  | mul
  | div
  deriving DecidableEq, Repr

namespace Operator

def symbol : Operator → String
  | .and => "AND"
  | .eq => "="
  | .ne => "<>"
  | .lt => "<"
  | .gt => ">"
  | .le => "<="
  | .ge => ">="
  | .add => "+"
  | .sub => "-"
  | .mul => "*"
  | .div => "/"

/-- How strongly an operator binds: products before sums, sums before comparisons, comparisons before
conjunctions. -/
def rank : Operator → Nat
  | .and => 0
  | .eq => 1
  | .ne => 1
  | .lt => 1
  | .gt => 1
  | .le => 1
  | .ge => 1
  | .add => 2
  | .sub => 2
  | .mul => 3
  | .div => 3

end Operator

/-- A token. The five words of a case distinction are tokens of their own. -/
inductive Token where
  | number (n : Nat)
  | truth (b : Bool)
  | text (s : String)
  | name (s : String)
  | operator (o : Operator)
  | opening
  | closing
  | caseStart
  | caseWhen
  | caseThen
  | caseElse
  | caseEnd
  deriving DecidableEq, Repr

def fixedTokens : List (String × Token) :=
  [("AND", .operator .and), ("=", .operator .eq), ("<>", .operator .ne), ("<", .operator .lt),
   (">", .operator .gt), ("<=", .operator .le), (">=", .operator .ge), ("+", .operator .add),
   ("-", .operator .sub), ("*", .operator .mul), ("/", .operator .div), ("(", .opening),
   (")", .closing), ("TRUE", .truth true), ("FALSE", .truth false), ("CASE", .caseStart),
   ("WHEN", .caseWhen), ("THEN", .caseThen), ("ELSE", .caseElse), ("END", .caseEnd)]

/-! ## Cutting a text into tokens -/

/-- The characters of names, numbers and reserved words. -/
def isWordChar (c : Char) : Bool :=
  c.isAlphanum || c == '_'

def isOperatorChar (c : Char) : Bool :=
  ['+', '-', '*', '/', '=', '<', '>'].contains c

/-- Whether two neighbours belong to one token. -/
def joins : Piece → Piece → Bool
  | .plain a, .plain b => (isWordChar a && isWordChar b) || (isOperatorChar a && isOperatorChar b)
  | _, _ => false

def Piece.isBlank : Piece → Bool
  | .plain c => c.isWhitespace
  | .literal _ => false

def Piece.char? : Piece → Option Char
  | .plain c => some c
  | .literal _ => none

/-- Whether the characters form the name of a column: a word that does not start with a digit. -/
def isNameWord (cs : List Char) : Bool :=
  cs.all isWordChar && !(cs.take 1).all Char.isDigit

/-- The token that characters form. Reserved words may be written in either case. -/
def wordToken? (cs : List Char) : Option Token :=
  if cs.all Char.isDigit then some (.number (Nat.ofDigitChars 10 cs 0))
  else
    match Assoc.get? (String.ofList (cs.map Char.toUpper)) fixedTokens with
    | some token => some token
    | none => if isNameWord cs then some (.name (String.ofList cs)) else none

/-- The token that a run of pieces forms. -/
def token? : List Piece → Option Token
  | [.literal content] => some (.text (String.ofList content))
  | run => wordToken? (run.filterMap Piece.char?)

def tokensOfPieces (ps : List Piece) : Option (List Token) :=
  ((ps.splitBy joins).filter (fun run => !run.all Piece.isBlank)).mapM token?

/-- The tokens of a text; none if there is something in it that is no token. -/
def tokens (s : String) : Option (List Token) :=
  (scan s.toList).bind tokensOfPieces

/-! ## Texts with a gap between them -/

/-- The characters that belong to no token of several characters. -/
def isGap (c : Char) : Bool :=
  c == ' ' || c == '(' || c == ')'

variable {c : Char}

theorem joins_gap (h : isGap c) (p : Piece) :
    joins (.plain c) p = false ∧ joins p (.plain c) = false := by
  simp only [isGap, Bool.or_eq_true, beq_iff_eq] at h
  cases p with
  | literal content => exact ⟨rfl, rfl⟩
  | plain d => rcases h with (rfl | rfl) | rfl <;> simp [joins, isWordChar, isOperatorChar]

variable {ts us : List Token}

theorem tokensOfPieces_append {ps qs : List Piece}
    (hgap : ∀ p ∈ ps.getLast?, ∀ q ∈ qs.head?, joins p q = false)
    (hps : tokensOfPieces ps = some ts) (hqs : tokensOfPieces qs = some us) :
    tokensOfPieces (ps ++ qs) = some (ts ++ us) := by
  unfold tokensOfPieces at hps hqs ⊢
  rw [List.splitBy_append hgap, List.filter_append, List.mapM_append, hps, hqs]
  rfl

theorem tokens_append {a b : String} (ha : tokens a = some ts) (hb : tokens b = some us)
    (hstart : b.toList.head? = some c) (hgap : isGap c) : tokens (a ++ b) = some (ts ++ us) := by
  obtain ⟨ps, hps, hts⟩ := Option.bind_eq_some_iff.mp ha
  obtain ⟨qs, hqs, hus⟩ := Option.bind_eq_some_iff.mp hb
  have hquote : c ≠ '\'' := by
    rintro rfl
    cases hgap
  -- the first piece of the second text is the character of the gap
  have hhead : qs.head? = some (.plain c) := by
    obtain ⟨cs, hcs⟩ : ∃ cs, b.toList = [c] ++ cs := by
      cases hlist : b.toList with
      | nil => rw [hlist] at hstart; cases hstart
      | cons d cs => rw [hlist] at hstart; exact ⟨cs, by rw [Option.some.inj hstart]; rfl⟩
    rw [hcs, scan_plain_append (by simpa using hquote.symm)] at hqs
    obtain ⟨rest, -, rfl⟩ := Option.map_eq_some_iff.mp hqs
    rfl
  have hscan : scan (a ++ b).toList = some (ps ++ qs) := by
    rw [String.toList_append, scan_append hps (by simpa [hstart] using hquote), hqs]
    rfl
  rw [tokens, hscan, Option.bind_some]
  apply tokensOfPieces_append _ hts hus
  intro p _ q hq
  rw [hhead] at hq
  cases hq
  exact (joins_gap hgap p).2

theorem tokens_append_of_frame {a b : String} (ha : tokens a = some ts) (hb : tokens b = some us)
    (hplain : '\'' ∉ a.toList) (hend : a.toList.getLast? = some c) (hgap : isGap c) :
    tokens (a ++ b) = some (ts ++ us) := by
  obtain ⟨ps, hps, hts⟩ := Option.bind_eq_some_iff.mp ha
  obtain ⟨qs, hqs, hus⟩ := Option.bind_eq_some_iff.mp hb
  have hpieces : ps = a.toList.map .plain := Option.some.inj (hps.symm.trans (scan_plain hplain))
  have hscan : scan (a ++ b).toList = some (ps ++ qs) := by
    rw [String.toList_append, scan_plain_append hplain, hqs, hpieces]
    rfl
  rw [tokens, hscan, Option.bind_some]
  apply tokensOfPieces_append _ hts hus
  intro p hp q _
  rw [hpieces, List.getLast?_map, hend] at hp
  cases hp
  exact (joins_gap hgap q).1

/-! ## Single tokens -/

theorem not_quote_of_isWordChar (h : isWordChar c) : '\'' ≠ c := by
  rintro rfl
  cases h

theorem not_blank_of_isWordChar (h : isWordChar c) : c.isWhitespace = false := by
  cases hc : c.isWhitespace with
  | false => rfl
  | true =>
    simp only [Char.isWhitespace, Bool.or_eq_true, decide_eq_true_eq] at hc
    rcases hc with ((rfl | rfl) | rfl) | rfl <;> cases h

variable {s : String}

theorem tokens_word (hne : s.toList ≠ []) (hword : ∀ c ∈ s.toList, isWordChar c) :
    tokens s = (wordToken? s.toList).map ([·]) := by
  have hquote : '\'' ∉ s.toList := fun h => not_quote_of_isWordChar (hword _ h) rfl
  -- neighbours in a word belong together, so there is one run
  have hpairs : (s.toList.map Piece.plain).Pairwise (fun p q => joins p q) := by
    rw [List.pairwise_map]
    apply List.pairwise_of_forall_mem_list
    intro a ha b hb
    simp [joins, hword a ha, hword b hb]
  have hrun : (s.toList.map Piece.plain).splitBy joins = [s.toList.map Piece.plain] :=
    List.splitBy_of_isChain (by simpa using hne) hpairs.isChain
  have hblank : (s.toList.map Piece.plain).all Piece.isBlank = false := by
    obtain ⟨c, hc⟩ := List.exists_mem_of_ne_nil _ hne
    rw [List.all_eq_false]
    exact ⟨.plain c, List.mem_map_of_mem hc, by simp [Piece.isBlank, not_blank_of_isWordChar (hword c hc)]⟩
  have htoken : token? (s.toList.map Piece.plain) = wordToken? s.toList := by
    have hchars : (s.toList.map Piece.plain).filterMap Piece.char? = s.toList := by
      rw [List.filterMap_map]
      exact List.filterMap_some
    rw [token?, hchars]
    intro content h
    obtain ⟨c, -, hc⟩ := List.mem_map.mp (h ▸ List.mem_singleton_self (Piece.literal content))
    cases hc
  rw [tokens, scan_plain hquote, Option.bind_some, tokensOfPieces, hrun]
  simp only [List.filter_cons, hblank, Bool.not_false, if_true, List.filter_nil, List.mapM_cons,
    List.mapM_nil, htoken]
  cases wordToken? s.toList <;> rfl

theorem isWordChar_of_isDigit (h : c.isDigit) : isWordChar c := by
  simp [isWordChar, Char.isAlphanum, h]

theorem tokens_number (n : Nat) : tokens (toString n) = some [.number n] := by
  have hdigits : (toString n).toList = Nat.toDigits 10 n := Nat.toList_repr
  have hall : ∀ c ∈ (toString n).toList, c.isDigit := by
    intro c hc
    rw [hdigits] at hc
    exact Nat.isDigit_of_mem_toDigits (b := 10) (by decide) (by decide) hc
  rw [tokens_word (by rw [hdigits]; exact Nat.toDigits_ne_nil)
    (fun c hc => isWordChar_of_isDigit (hall c hc)), wordToken?,
    if_pos (List.all_eq_true.mpr hall), hdigits, Nat.ofDigitChars_ten_toDigits]
  rfl

/-- The plain names of columns: words that do not start with a digit and are not reserved. -/
def IsPlainName (s : String) : Prop :=
  isNameWord s.toList = true ∧
    Assoc.get? (String.ofList (s.toList.map Char.toUpper)) fixedTokens = none

instance (s : String) : Decidable (IsPlainName s) :=
  inferInstanceAs (Decidable (_ ∧ _))

theorem tokens_name (h : IsPlainName s) : tokens s = some [.name s] := by
  obtain ⟨hname, hfree⟩ := h
  have hparts := hname
  rw [isNameWord, Bool.and_eq_true, List.all_eq_true, Bool.not_eq_true', List.all_eq_false] at hparts
  obtain ⟨hword, c, hc, hdigit⟩ := hparts
  have hmem : c ∈ s.toList := List.mem_of_mem_take hc
  have hnumber : s.toList.all Char.isDigit = false := List.all_eq_false.mpr ⟨c, hmem, hdigit⟩
  rw [tokens_word (List.ne_nil_of_mem hmem) hword, wordToken?, hnumber,
    if_neg Bool.false_ne_true, hfree]
  simp [hname]

theorem tokens_quoted (h : '\'' ∉ s.toList) : tokens ("'" ++ s ++ "'") = some [.text s] := by
  have hlist : ("'" ++ s ++ "'").toList = '\'' :: (s.toList ++ ['\'']) := by
    simp [String.toList_append]
  rw [tokens, hlist, scan_quoted h, Option.bind_some]
  simp [tokensOfPieces, List.splitBy, List.splitBy.loop, Piece.isBlank, token?]

end SheetIntake.Sql
