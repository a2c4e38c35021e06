import SheetIntake.Proofs.Literals
import SheetIntake.Proofs.PlainText

/-!
# Texts put between quotes

A translated text stands between quotes as it is, but for its double quotes, which become single
ones. Nothing in it is doubled, so whether the scanner finds it again depends on the quotes in it.

`Laid ts a b` says that the SQL text `a` holds the texts `ts`, and that `b` is the same SQL text with
nothing between its quotes.
-/

namespace SheetIntake.Sql

open Text

/-! ## Writing texts -/

/-- A text between quotes, its double quotes made single. -/
def quoted (content : List Char) : List Char :=
  '\'' :: (content.map (fun c => if c = '"' then '\'' else c) ++ ['\''])

def Piece.written : Piece → List Char
  | .plain c => [c]
  | .literal content => quoted content

/-- Pieces in which literals stand apart, and in which no character outside of them is a quote. -/
inductive Apart : List Piece → Prop where
  | nil : Apart []
  | plain {c : Char} {ps : List Piece} (hc : IsQuoteFree [c]) (h : Apart ps) : Apart (.plain c :: ps)
  | last (content : List Char) : Apart [.literal content]
  | literal (content : List Char) {c : Char} {ps : List Piece} (hc : IsQuoteFree [c])
      (h : Apart ps) : Apart (.literal content :: .plain c :: ps)

theorem toList_quoted (s : String) :
    ("'" ++ Text.replaceAll s "\"" "'" ++ "'").toList = quoted s.toList := by
  have hreplaced : (Text.replaceAll s "\"" "'").toList =
      s.toList.map (fun c => if c = '"' then '\'' else c) := by
    rw [List.map_eq_flatMap, Text.replaceAll, String.toList_ofList]
    refine (Text.replaceChars_singleton '"' ['\''] s.toList).trans ?_
    congr 1
    funext c
    split <;> rfl
  rw [String.toList_append, String.toList_append, hreplaced]
  rfl

theorem quoted_of_not_mem {content : List Char} (h : '"' ∉ content) :
    quoted content = '\'' :: (content ++ ['\'']) := by
  have hne : ∀ c ∈ content, c ≠ '"' := fun c hc heq => h (heq ▸ hc)
  rw [quoted, List.map_congr_left (fun c hc => if_neg (hne c hc)), List.map_id']

theorem not_double_mem_quoted (content : List Char) : '"' ∉ quoted content := by
  simp only [quoted, List.mem_cons, List.mem_append, List.mem_map, List.not_mem_nil, or_false,
    not_or, not_exists, not_and]
  refine ⟨by decide, ?_, by decide⟩
  intro c _ hc
  split at hc
  · cases hc
  · next hne => exact hne hc

/-! ## Finding texts without quotes -/

variable {ps : List Piece}

theorem scan_written (h : Apart ps) (hfree : ∀ content ∈ contents ps, IsQuoteFree content) :
    scan (ps.flatMap Piece.written) = some ps := by
  induction h with
  | nil => rfl
  | @plain c ps hc _ ih =>
    rw [List.flatMap_cons, Piece.written, scan_plain_append hc.1, ih hfree]
    rfl
  | last content =>
    have hcontent := hfree content (List.mem_singleton_self content)
    rw [List.flatMap_cons, Piece.written, quoted_of_not_mem hcontent.2]
    simp [scan_quoted hcontent.1]
  | @literal content c ps hc _ ih =>
    obtain ⟨hcontent, hrest⟩ := List.forall_mem_cons.mp hfree
    rw [List.flatMap_cons, List.flatMap_cons]
    simp only [Piece.written]
    rw [quoted_of_not_mem hcontent.2, scan_append (scan_quoted hcontent.1)]
    · rw [scan_plain_append hc.1, ih hrest]
      rfl
    · -- the character after the literal does not continue it
      intro hhead
      exact hc.1 (List.mem_singleton.mpr (Option.some.inj hhead).symm)

/-! ## Counting quotes -/

theorem count_doubled (content : List Char) :
    (doubled content).count '\'' = 2 * content.count '\'' := by
  induction content with
  | nil => rfl
  | cons c content ih =>
    rw [doubled, List.flatMap_cons, List.count_append, ← doubled, ih]
    by_cases hc : c = '\''
    · rw [if_pos hc, hc, List.count_cons_self]
      simp only [List.count_cons_self, List.count_nil]
      omega
    · rw [if_neg hc, List.count_cons_of_ne hc, List.count_cons_of_ne hc]
      simp

theorem le_count_chars (ps : List Piece) : 2 * (contents ps).length
        + 2 * (contents ps).flatten.count '\'' ≤ (ps.flatMap Piece.chars).count '\'' := by
  induction ps with
  | nil => exact Nat.le_refl 0
  | cons p ps ih =>
    rw [List.flatMap_cons, List.count_append]
    cases p with
    | plain c => exact Nat.le_trans ih (Nat.le_add_left _ _)
    | literal content =>
      have hchars : (Piece.chars (.literal content)).count '\'' = 2 + 2 * content.count '\'' := by
        simp only [Piece.chars, List.cons_append, List.count_cons_self, List.count_append,
          count_doubled, List.count_nil]
        omega
      rw [hchars, contents_literal, List.flatten_cons, List.count_append, List.length_cons]
      omega

theorem count_written (h : Apart ps) (hdouble : '"' ∉ (contents ps).flatten) :
    (ps.flatMap Piece.written).count '\'' = 2 * (contents ps).length
        + (contents ps).flatten.count '\'' := by
  have hquoted {content : List Char} (hcontent : '"' ∉ content) :
      (quoted content).count '\'' = 2 + content.count '\'' := by
    rw [quoted_of_not_mem hcontent, List.count_cons_self, List.count_append,
      List.count_singleton_self]
    omega
  have hplain {c : Char} (hc : IsQuoteFree [c]) : [c].count '\'' = 0 := List.count_eq_zero.mpr hc.1
  induction h with
  | nil => rfl
  | plain hc _ ih =>
    rw [List.flatMap_cons, List.count_append, Piece.written, hplain hc, Nat.zero_add]
    exact ih hdouble
  | last content =>
    have hcontent : '"' ∉ content := fun hmem => hdouble (List.mem_append_left _ hmem)
    simp [contents, Piece.content?, Piece.written, hquoted hcontent]
  | @literal content c ps hc _ ih =>
    rw [contents_literal, contents_plain, List.flatten_cons, List.mem_append, not_or] at hdouble
    rw [List.flatMap_cons, List.flatMap_cons, List.count_append, List.count_append, Piece.written,
      Piece.written, hquoted hdouble.1, hplain hc, ih hdouble.2, contents_literal, contents_plain,
      List.flatten_cons, List.count_append, List.length_cons]
    omega

theorem not_double_mem_written (h : Apart ps) : '"' ∉ ps.flatMap Piece.written := by
  induction h with
  | nil => exact List.not_mem_nil
  | plain hc _ ih => exact fun hmem => (List.mem_append.mp hmem).elim hc.2 ih
  | last content => simpa [Piece.written] using not_double_mem_quoted content
  | literal content hc _ ih =>
    exact fun hmem => (List.mem_append.mp hmem).elim (not_double_mem_quoted content)
      (fun hmem => (List.mem_append.mp hmem).elim hc.2 ih)

theorem mem_doubled {c : Char} {content : List Char} (h : c ∈ content) : c ∈ doubled content := by
  refine List.mem_flatMap.mpr ⟨c, h, ?_⟩
  split
  · next hc => rw [hc]; exact (.head _)
  · exact (.head _)

/-- If the literals are the texts that were put between quotes, these have no quotes. -/
theorem isQuoteFree_of_literals (h : Apart ps)
    (hliterals : literals (ps.flatMap Piece.written) = some (contents ps)) :
    ∀ content ∈ contents ps, IsQuoteFree content := by
  obtain ⟨qs, hscan, hcontents⟩ := Option.map_eq_some_iff.mp hliterals
  have hpieces := pieces_scan hscan
  -- a double quote in a literal would stand in the SQL text
  have hdouble : '"' ∉ (contents ps).flatten := by
    intro hmem
    rw [← hcontents] at hmem
    obtain ⟨content, hcontent, hmem⟩ := List.mem_flatten.mp hmem
    obtain ⟨q, hq, hqcontent⟩ := List.mem_filterMap.mp hcontent
    apply not_double_mem_written h
    rw [← hpieces]
    refine List.mem_flatMap.mpr ⟨q, hq, ?_⟩
    cases q with
    | plain c => cases hqcontent
    | literal content' =>
      cases hqcontent
      exact .tail _ (List.mem_append_left _ (mem_doubled hmem))
  -- single quotes would have to be there twice
  have hsingle : '\'' ∉ (contents ps).flatten := by
    have hmany := le_count_chars qs
    rw [hpieces, hcontents, count_written h hdouble] at hmany
    rw [← List.count_eq_zero]
    omega
  exact fun content hcontent => ⟨fun hmem => hsingle (List.mem_flatten_of_mem hcontent hmem),
    fun hmem => hdouble (List.mem_flatten_of_mem hcontent hmem)⟩

/-! ## Laid out texts -/

/-- The SQL text `a` holds the texts `ts` between quotes, and `b` is `a` with nothing between them. -/
def Laid (ts : List (List Char)) (a b : List Char) : Prop :=
  ∃ ps, Apart ps ∧ contents ps = ts ∧ a = ps.flatMap Piece.written
    ∧ b = (ps.map Piece.hollow).flatMap Piece.written

theorem apart_plain {cs : List Char} (h : IsQuoteFree cs) (hps : Apart ps) :
    Apart (cs.map .plain ++ ps) := by
  induction cs with
  | nil => exact hps
  | cons c cs ih =>
    obtain ⟨hc, hcs⟩ := isQuoteFree_append.mp (show IsQuoteFree ([c] ++ cs) from h)
    exact .plain hc (ih hcs)

/-- A character between two parts keeps their literals apart. -/
theorem Apart.append {qs : List Piece} (hps : Apart ps) {c : Char} (hc : IsQuoteFree [c])
    (hqs : Apart qs) : Apart (ps ++ .plain c :: qs) := by
  induction hps with
  | nil => exact .plain hc hqs
  | plain hd _ ih => exact .plain hd ih
  | last content => exact .literal content hc hqs
  | literal content hd _ ih => exact .literal content hd ih

theorem Apart.hollow (h : Apart ps) : Apart (ps.map Piece.hollow) := by
  induction h with
  | nil => exact .nil
  | plain hc _ ih => exact .plain hc ih
  | last content => exact .last []
  | literal content hc _ ih => exact .literal [] hc ih

theorem contents_append (ps qs : List Piece) : contents (ps ++ qs) = contents ps ++ contents qs :=
  List.filterMap_append

theorem contents_map_plain (cs : List Char) : contents (cs.map .plain) = [] := by
  induction cs with
  | nil => rfl
  | cons c cs ih => rw [List.map_cons, contents_plain, ih]

theorem flatMap_written_plain (cs : List Char) :
    (cs.map Piece.plain).flatMap Piece.written = cs := by
  rw [List.flatMap_map]
  exact List.flatMap_singleton' cs

theorem map_hollow_plain (cs : List Char) :
    (cs.map Piece.plain).map Piece.hollow = cs.map Piece.plain := by
  rw [List.map_map]
  rfl

theorem Laid.plain {cs : List Char} (h : IsQuoteFree cs) : Laid [] cs cs := by
  refine ⟨cs.map .plain, ?_, contents_map_plain cs, (flatMap_written_plain cs).symm, ?_⟩
  · simpa using apart_plain h .nil
  · rw [map_hollow_plain, flatMap_written_plain]

theorem Laid.quoted (content : List Char) : Laid [content] (Sql.quoted content) (Sql.quoted []) :=
  ⟨[.literal content], .last content, rfl, (List.append_nil _).symm, (List.append_nil _).symm⟩

variable {ts : List (List Char)} {a b : List Char}

theorem Laid.join {us : List (List Char)} {c d : List Char} (hleft : Laid ts a b) (sep : List Char)
    (hsep : IsQuoteFree sep) (hne : sep ≠ []) (hright : Laid us c d) :
    Laid (ts ++ us) (a ++ sep ++ c) (b ++ sep ++ d) := by
  obtain ⟨ps, hps, rfl, rfl, rfl⟩ := hleft
  obtain ⟨qs, hqs, rfl, rfl, rfl⟩ := hright
  refine ⟨ps ++ sep.map .plain ++ qs, ?_, ?_, ?_, ?_⟩
  · cases sep with
    | nil => exact absurd rfl hne
    | cons x sep =>
      obtain ⟨hx, hrest⟩ := isQuoteFree_append.mp (show IsQuoteFree ([x] ++ sep) from hsep)
      rw [List.append_assoc]
      exact hps.append hx (apart_plain hrest hqs)
  · rw [contents_append, contents_append, contents_map_plain, List.append_nil]
  · rw [List.flatMap_append, List.flatMap_append, flatMap_written_plain]
  · rw [List.map_append, List.map_append, map_hollow_plain, List.flatMap_append,
      List.flatMap_append, flatMap_written_plain]

theorem Laid.literals_eq_iff (h : Laid ts a b) :
    literals a = some ts ↔ ∀ t ∈ ts, IsQuoteFree t := by
  obtain ⟨ps, hps, rfl, rfl, -⟩ := h
  refine ⟨isQuoteFree_of_literals hps, fun hfree => ?_⟩
  rw [literals, scan_written hps hfree]
  rfl

/-- Texts without quotes do not show outside of the literals. -/
theorem Laid.skeleton_eq (h : Laid ts a b) (hfree : ∀ t ∈ ts, IsQuoteFree t) :
    skeleton a = skeleton b := by
  obtain ⟨ps, hps, rfl, rfl, rfl⟩ := h
  have hempty : ∀ content ∈ contents (ps.map Piece.hollow), content = [] := by
    intro content hcontent
    obtain ⟨q, hq, hqcontent⟩ := List.mem_filterMap.mp hcontent
    obtain ⟨p, -, rfl⟩ := List.mem_map.mp hq
    cases p with
    | plain c => cases hqcontent
    | literal d => exact (Option.some.inj hqcontent).symm
  have hscan : scan ((ps.map Piece.hollow).flatMap Piece.written) = some (ps.map Piece.hollow) := by
    refine scan_written hps.hollow (fun content hcontent => ?_)
    rw [hempty content hcontent]
    decide
  have hhollow : Piece.hollow ∘ Piece.hollow = Piece.hollow := by
    funext p
    cases p <;> rfl
  rw [skeleton, skeleton, scan_written hps hfree, hscan, Option.map_some, Option.map_some,
    List.map_map, hhollow]

end SheetIntake.Sql
