import SheetIntake.Proofs.Interleaving
import SheetIntake.Proofs.Outcome
import SheetIntake.Proofs.SchemaHistory

/-!
# Two workers on one schema history

Both operations on a history look for its document first and write later, from what they have seen.
Nothing keeps another worker from writing in between.

* `serial_iff_no_conflict` — two workers are safe unless one overtakes the other in a conflict.
-/

namespace SheetIntake.Registry

open Plan

/-! ## Operations on a history -/

/-- What a worker does to the history of an import name. -/
inductive Operation where
  | save (schema : Document) (now : String)
  | remove (now : String)

/-- The active schema of an import name, and the releases. -/
structure History where
  active : Value
  releases : List Value
  deriving DecidableEq

/-- The requests that change the registry. -/
def Request.changes : Request → Bool
  | .insert _ | .update _ _ => true
  | .findFirst _ | .find _ | .count _ => false

/-- A schema becomes active and the last release. -/
def pushing (schema : Document) (now : String) : Change where
  set := [("active_schema", .object schema), ("created_at", .str now)]
  push := [("schemas_releases", release (.object schema))]

/-- A schema becomes active, and the last release is dropped. -/
def popping (schema : Value) (now : String) : Change where
  set := [("active_schema", schema), ("created_at", .str now)]
  pop := ["schemas_releases"]

namespace Operation

def plan (name : String) : Operation → Plan protocol (Except Fault Value)
  | .save schema now => ExceptT.run (saveSchema (.object schema) (.str name) now)
  | .remove now => ExceptT.run (removeSchema (.str name) now)

/-- The change that an operation makes when it has seen a history. -/
def change? (name : String) : Operation → Option History → Option Request
  | .save schema now, none => some (.insert (firstDocument (.str name) (.object schema) now))
  | .save schema now, some seen =>
    if seen.active.alike (.object schema) then none
    else some (.update (named (.str name)) (pushing schema now))
  | .remove _, none => none
  | .remove now, some seen =>
    seen.releases.getLast?.map (fun last => .update (named (.str name)) (popping last now))

end Operation

/-! ## What an operation sees decides what it does -/

/-- A registry that can be reached and has at least a number of documents. -/
def Store.Since (n : Nat) (s : Store) : Prop :=
  s.reachable = true ∧ n ≤ s.documents.length

theorem length_updateFirst {filter : Document} {change : Change} {ds ds' : List Document}
    {result : UpdateResult} (h : Store.updateFirst filter change ds = .ok (result, ds')) :
    ds'.length = ds.length := by
  induction ds generalizing result ds' with
  | nil =>
    cases h
    rfl
  | cons d rest ih =>
    unfold Store.updateFirst at h
    by_cases hd : accepts filter d
    · rw [if_pos hd] at h
      obtain ⟨changed, -, h⟩ := Outcome.bind_eq_ok.mp h
      cases h
      rfl
    · rw [if_neg hd] at h
      obtain ⟨⟨result, rest'⟩, hrest, h⟩ := Outcome.bind_eq_ok.mp h
      cases h
      rw [List.length_cons, List.length_cons, ih hrest]

theorem steady_servers (n : Nat) : Steady servers Request.changes (Store.Since n) where
  look := by
    intro request s hlook
    unfold servers
    split
    · cases request with
      | insert | update => cases hlook.symm
      | _ => rfl
    · rfl
  keep := by
    rintro request s ⟨hreachable, hlength⟩
    rw [servers_of_reachable hreachable]
    cases request with
    | insert document =>
      refine ⟨hreachable, ?_⟩
      show n ≤ (s.documents ++ [document]).length
      rw [List.length_append]
      omega
    | update filter change =>
      unfold Store.respond
      dsimp only
      cases hupdate : Store.updateFirst filter change s.documents with
      | error fault => exact ⟨hreachable, hlength⟩
      | ok r =>
        refine ⟨hreachable, ?_⟩
        rw [length_updateFirst (hupdate.trans rfl)]
        exact hlength
    | _ => exact ⟨hreachable, hlength⟩

def Store.documentsOf (s : Store) (name : String) : List Document :=
  s.documents.filter (accepts (named (.str name)))

/-- The history of an import name that an operation sees in a registry. -/
def Store.Sees (s : Store) (name : String) : Option History → Prop
  | none => s.documentOf? name = none
  | some h => ∃ d, s.documentOf? name = some d ∧ Assoc.get? "active_schema" d = some h.active
      ∧ Assoc.get? "schemas_releases" d = some (.list (h.releases.map release))

variable {s : Store} {name : String}

theorem servers_findFirst (hreachable : s.reachable) :
    (servers (.findFirst (named (.str name))) s).1 = .ok (s.documentOf? name) := by
  rw [servers_of_reachable hreachable]
  rfl

theorem servers_count (hreachable : s.reachable) :
    (servers (.count []) s).1 = .ok s.documents.length := by
  have hcount := congrArg Prod.fst (run_count_all hreachable)
  exact hcount

theorem length_pos_of_documentOf? {d : Document} (h : s.documentOf? name = some d) :
    0 < s.documents.length :=
  List.length_pos_of_mem (List.mem_of_find?_eq_some h)

theorem commits_update {filter : Document} {change : Change} {answer : UpdateResult → Value} :
    Commits servers Request.changes (Store.Since s.documents.length)
      (ExceptT.run (do let result ← update filter change; return answer result))
      (some (.update filter change)) := by
  refine .change rfl fun result => ?_
  cases result with
  | ok r | error fault => exact ⟨_, rfl⟩

variable {h : Option History}

/-- An operation looks for the document of an import name, and then makes the change for a history. -/
def Operation.Commits (operation : Operation) (name : String) (s : Store) (h : Option History) :
    Prop :=
  ∃ next, operation.plan name = .ask (.findFirst (named (.str name))) next
    ∧ Plan.Commits servers Request.changes (Store.Since s.documents.length)
        (next (servers (.findFirst (named (.str name))) s).1) (operation.change? name h)

theorem commits_save (hreachable : s.reachable) (hsees : s.Sees name h) (schema : Document)
    (now : String) : (Operation.save schema now).Commits name s h := by
  refine ⟨_, rfl, ?_⟩
  rw [servers_findFirst hreachable]
  cases h with
  | none =>
    rw [show s.documentOf? name = none from hsees]
    refine .look rfl fun t ht => ?_
    rw [servers_count ht.1]
    refine .change rfl fun result => ?_
    cases result with
    | ok r | error fault => exact ⟨_, rfl⟩
  | some seen =>
    obtain ⟨d, hd, hactive, -⟩ := hsees
    have hmember : (Value.object d).member "active_schema" = .ok seen.active := by
      rw [Value.member, hactive]
    rw [hd]
    refine .look rfl fun t ht => ?_
    -- the document that was found is still there when the documents are counted
    have hcount : decide (t.documents.length = 0) = false :=
      decide_eq_false (Nat.ne_of_gt (Nat.lt_of_lt_of_le (length_pos_of_documentOf? hd) ht.2))
    rw [servers_count ht.1]
    dsimp only [Plan.bind, ExceptT.bindCont]
    rw [hcount]
    dsimp only
    rw [hmember]
    show Commits _ _ _ (ExceptT.run (ite (seen.active.alike (.object schema)) _ _)) _
    unfold Operation.change?
    dsimp only
    split
    · exact .done _
    · exact commits_update

theorem commits_remove (hreachable : s.reachable) (hsees : s.Sees name h) (now : String) :
    (Operation.remove now).Commits name s h := by
  refine ⟨_, rfl, ?_⟩
  rw [servers_findFirst hreachable]
  cases h with
  | none =>
    rw [show s.documentOf? name = none from hsees]
    exact .done _
  | some seen =>
    obtain ⟨d, hd, -, hreleases⟩ := hsees
    rw [hd]
    dsimp only [Plan.bind, ExceptT.bindCont]
    rw [hreleases, Option.getD_some]
    unfold Operation.change?
    dsimp only
    rcases List.eq_nil_or_concat' seen.releases with hnil | ⟨earlier, last, hlast⟩
    · rw [hnil]
      exact .done _
    · rw [hlast, List.getLast?_concat, truthy_releases, lastRelease_concat]
      exact commits_update

/-- What an operation does depends on what it sees first, and on nothing that happens after it. -/
theorem Operation.commits (hreachable : s.reachable) (hsees : s.Sees name h)
    (operation : Operation) : operation.Commits name s h := by
  cases operation with
  | save schema now => exact commits_save hreachable hsees schema now
  | remove now => exact commits_remove hreachable hsees now

/-! ## The document of a history -/

/-- A document has a history, and is otherwise as another one. -/
structure Revision (base d : Document) (h : History) : Prop where
  active : Assoc.get? "active_schema" d = some h.active
  releases : Assoc.get? "schemas_releases" d = some (.list (h.releases.map release))
  rest : ∀ key ∉ ["created_at", "active_schema", "schemas_releases"],
    Assoc.get? key d = Assoc.get? key base

/-- Two documents with the same members, but for the date. -/
def SameButTime (d e : Document) : Prop :=
  ∀ key ≠ "created_at", Assoc.get? key d = Assoc.get? key e

/-- Two registries with the same documents, but for dates. -/
def Store.SameButTimes (s t : Store) : Prop :=
  List.Forall₂ SameButTime s.documents t.documents

namespace Revision

variable {base d e : Document} {h g : History}

theorem revised (hd : Revision base d h) (active : Value) (now : String) (releases : List Value) :
    Revision base (revised d active now releases) ⟨active, releases⟩ where
  active := get?_active_schema_revised d
  releases := get?_schemas_releases_revised d
  rest := by
    intro key hkey
    simp only [List.mem_cons, List.not_mem_nil, or_false, not_or] at hkey
    obtain ⟨hdate, hactive, hreleases⟩ := hkey
    unfold Registry.revised
    rw [Assoc.get?_put_of_ne hreleases, Assoc.get?_put_of_ne hdate, Assoc.get?_put_of_ne hactive]
    exact hd.rest key (by simp [hdate, hactive, hreleases])

theorem sameButTime_iff (hd : Revision base d h) (he : Revision base e g) :
    SameButTime d e ↔ h = g := by
  constructor
  · intro hsame
    have hactive := hsame "active_schema" (by decide)
    have hreleases := hsame "schemas_releases" (by decide)
    rw [hd.active, he.active] at hactive
    rw [hd.releases, he.releases] at hreleases
    have hlist := Value.list.inj (Option.some.inj hreleases)
    obtain ⟨active, releases⟩ := h
    rw [show active = g.active from Option.some.inj hactive,
      show releases = g.releases from List.map_injective_iff.mpr release_injective hlist]
  · rintro rfl key hkey
    by_cases hactive : key = "active_schema"
    · rw [hactive, hd.active, he.active]
    by_cases hreleases : key = "schemas_releases"
    · rw [hreleases, hd.releases, he.releases]
    have hrest : key ∉ ["created_at", "active_schema", "schemas_releases"] := by
      simp [hkey, hactive, hreleases]
    rw [hd.rest key hrest, he.rest key hrest]

end Revision

/-! ## The place of an import name -/

/-- The place in the registry that the document of an import name has, or will have: the documents
before and after it, and what it holds apart from its history. -/
structure Place (name : String) where
  before : List Document
  after : List Document
  base : Document
  importName : Assoc.get? "import_name" base = some (.str name)
  before_not : ∀ d ∈ before, accepts (named (.str name)) d = false
  after_not : ∀ d ∈ after, accepts (named (.str name)) d = false

namespace Place

variable (place : Place name)

/-- A registry that can be reached, with a history at a place. A document that is not there yet will
be the last one. -/
def Shows (s : Store) : Option History → Prop
  | none => s.reachable = true ∧ s.documents = place.before ∧ place.after = []
      ∧ ∀ schema now, Revision place.base (firstDocument (.str name) schema now) ⟨schema, []⟩
  | some h => s.reachable = true
      ∧ ∃ d, Revision place.base d h ∧ s.documents = place.before ++ d :: place.after

variable {place} {t : Store} {g : Option History} {d : Document}

theorem accepts_of_revision {h : History} (hd : Revision place.base d h) :
    accepts (named (.str name)) d := by
  rw [accepts_named, hd.rest "import_name" (by decide)]
  exact place.importName

theorem Shows.reachable (hs : place.Shows s h) : s.reachable := by
  cases h with
  | none | some h => exact hs.1

theorem Shows.sees (hs : place.Shows s h) : s.Sees name h := by
  have hnone : place.before.find? (accepts (named (.str name))) = none :=
    List.find?_eq_none.mpr fun d hd => by simp [place.before_not d hd]
  cases h with
  | none =>
    obtain ⟨-, hdocuments, -⟩ := hs
    show s.documents.find? _ = none
    rw [hdocuments, hnone]
  | some h =>
    obtain ⟨-, d, hd, hdocuments⟩ := hs
    refine ⟨d, ?_, hd.active, hd.releases⟩
    show s.documents.find? _ = some d
    rw [hdocuments, List.find?_append, hnone, Option.none_or,
      List.find?_cons_of_pos (accepts_of_revision hd)]

theorem Shows.length_documentsOf_le (hs : place.Shows s h) : (s.documentsOf name).length ≤ 1 := by
  have hbefore : place.before.filter (accepts (named (.str name))) = [] :=
    List.filter_eq_nil_iff.mpr fun d hd => by simp [place.before_not d hd]
  have hafter : place.after.filter (accepts (named (.str name))) = [] :=
    List.filter_eq_nil_iff.mpr fun d hd => by simp [place.after_not d hd]
  unfold Store.documentsOf
  cases h with
  | none =>
    rw [hs.2.1, hbefore]
    exact Nat.zero_le 1
  | some h =>
    obtain ⟨-, d, hd, hdocuments⟩ := hs
    rw [hdocuments, List.filter_append, hbefore, List.nil_append,
      List.filter_cons_of_pos (accepts_of_revision hd), hafter]
    exact Nat.le_refl 1

theorem forall₂_sameButTime_refl (ds : List Document) : List.Forall₂ SameButTime ds ds :=
  List.forall₂_same.mpr fun _ _ _ _ => rfl

theorem forall₂_middle {e : Document} {before after : List Document} :
    List.Forall₂ SameButTime (before ++ d :: after) (before ++ e :: after) ↔ SameButTime d e := by
  induction before with
  | nil =>
    rw [List.nil_append, List.nil_append, List.forall₂_cons]
    exact and_iff_left (forall₂_sameButTime_refl after)
  | cons f before ih =>
    rw [List.cons_append, List.cons_append, List.forall₂_cons, ih]
    exact and_iff_right fun _ _ => rfl

/-- Registries that differ at one place only are the same, but for dates, when they show the same
history there. -/
theorem Shows.sameButTimes_iff (hs : place.Shows s h) (ht : place.Shows t g) :
    s.SameButTimes t ↔ h = g := by
  have hshorter (d : Document) : place.before.length ≠ (place.before ++ d :: place.after).length := by
    simp
  unfold Store.SameButTimes
  cases h with
  | none =>
    obtain ⟨-, hdocuments, -, -⟩ := hs
    cases g with
    | none =>
      rw [hdocuments, ht.2.1]
      exact iff_of_true (forall₂_sameButTime_refl _) rfl
    | some g =>
      obtain ⟨-, e, he, hdocuments'⟩ := ht
      rw [hdocuments, hdocuments']
      exact iff_of_false (fun hsame => hshorter e hsame.length_eq) (by simp)
  | some h =>
    obtain ⟨-, d, hd, hdocuments⟩ := hs
    cases g with
    | none =>
      rw [hdocuments, ht.2.1]
      exact iff_of_false (fun hsame => hshorter d hsame.length_eq.symm) (by simp)
    | some g =>
      obtain ⟨-, e, he, hdocuments'⟩ := ht
      rw [hdocuments, hdocuments', forall₂_middle, hd.sameButTime_iff he, Option.some.injEq]

/-! ## What operations make of a history -/

theorem Shows.update {current next : History} {change : Change} (hs : place.Shows s (some current))
    (happly : ∀ d, Revision place.base d current →
      ∃ e, change.apply d = .ok e ∧ Revision place.base e next) :
    place.Shows (settle servers (some (.update (named (.str name)) change)) s) (some next) := by
  obtain ⟨hreachable, d, hd, hdocuments⟩ := hs
  obtain ⟨e, he, hrevision⟩ := happly d hd
  have hbefore : ∀ e ∈ place.before, !accepts (named (.str name)) e := fun e he => by
    simp [place.before_not e he]
  have hupdate := updateFirst_split change place.after (accepts_of_revision hd) hbefore
  rw [he] at hupdate
  have hsettle : settle servers (some (.update (named (.str name)) change)) s =
      { s with documents := place.before ++ e :: place.after } := by
    show (servers (.update (named (.str name)) change) s).2 = _
    rw [servers_of_reachable hreachable]
    unfold Store.respond
    dsimp only
    rw [hdocuments, hupdate]
    rfl
  rw [hsettle]
  exact ⟨hreachable, e, hrevision, rfl⟩

end Place

namespace Operation

/-- What an operation makes of the current history of an import name when it has seen a history. -/
def effect : Operation → (seen current : History) → History
  | .save schema _, seen, current =>
    if seen.active.alike (.object schema) then current
    else ⟨.object schema, current.releases ++ [.object schema]⟩
  | .remove _, seen, current =>
    match seen.releases.getLast? with
    | none => current
    | some last => ⟨last, current.releases.dropLast⟩

section

variable {seen : History} (current : History) (now : String)

theorem effect_save_of_alike {schema : Document} (h : seen.active.alike (.object schema)) :
    (save schema now).effect seen current = current := if_pos h

theorem effect_save_of_not_alike {schema : Document}
    (h : seen.active.alike (.object schema) = false) : (save schema now).effect seen current =
      ⟨.object schema, current.releases ++ [.object schema]⟩ :=
  if_neg (by rw [h]; exact Bool.false_ne_true)

theorem effect_remove_of_nil (h : seen.releases = []) : (remove now).effect seen current = current := by
  rw [effect, h]
  rfl

theorem effect_remove_of_last {earlier : List Value} {last : Value}
    (h : seen.releases = earlier ++ [last]) :
    (remove now).effect seen current = ⟨last, current.releases.dropLast⟩ := by
  rw [effect, h, List.getLast?_concat]

end

/-- What an operation makes of a history when nothing happens in between. -/
def apply : Operation → Option History → Option History
  | .save schema _, none => some ⟨.object schema, []⟩
  | .remove _, none => none
  | operation, some h => some (operation.effect h h)

end Operation

namespace Place

variable {place : Place name} {t : Store}

theorem Shows.settle_effect {seen current : History} (hs : place.Shows s (some current))
    (operation : Operation) : place.Shows (settle servers (operation.change? name (some seen)) s)
      (some (operation.effect seen current)) := by
  unfold Operation.change? Operation.effect
  cases operation with
  | save schema now =>
    dsimp only
    split
    · exact hs
    · exact hs.update fun d hd => ⟨_, apply_push hd.releases (.object schema) now, hd.revised ..⟩
  | remove now =>
    dsimp only
    cases seen.releases.getLast? with
    | none => exact hs
    | some last =>
      exact hs.update fun d hd => ⟨_, apply_pop hd.releases last now, hd.revised ..⟩

theorem settle_save (hreachable : s.reachable) (name : String) (schema : Document) (now : String) :
    settle servers ((Operation.save schema now).change? name none) s =
      { s with documents := s.documents ++ [firstDocument (.str name) (.object schema) now] } := by
  show (servers (.insert _) s).2 = _
  rw [servers_of_reachable hreachable]
  rfl

theorem Shows.settle_apply (hs : place.Shows s h) (operation : Operation) :
    place.Shows (settle servers (operation.change? name h) s) (operation.apply h) := by
  cases h with
  | some h => cases operation <;> exact hs.settle_effect _
  | none =>
    obtain ⟨hreachable, hdocuments, hafter, hfirst⟩ := hs
    cases operation with
    | remove now => exact ⟨hreachable, hdocuments, hafter, hfirst⟩
    | save schema now =>
      rw [settle_save hreachable]
      refine ⟨hreachable, _, hfirst (.object schema) now, ?_⟩
      rw [hdocuments, hafter]

end Place

/-! ## Conflicts -/

/-- What comes of two operations when both see the history before either of them changes it. -/
def overlapped (first second : Operation) (h : History) : History :=
  second.effect h (first.effect h h)

/-- What comes of two operations, one after the other. -/
def inTurn (first second : Operation) (h : History) : History :=
  second.effect (first.effect h h) (first.effect h h)

/-- What comes of the two at once does not come of them one after the other. -/
def Differs (first second : Operation) (h : History) : Prop :=
  overlapped first second h ≠ inTurn first second h
    ∧ overlapped first second h ≠ inTurn second first h

/-- Two operations that both see a history, and make of it what they would not make of it one after
the other, where the change of the first one is made first. -/
def Conflict : Option History → (first second : Operation) → Prop
  | none, .save _ _, .save _ _ => True
  | none, _, _ => False
  | some h, .save a _, .save b _ =>
    h.active.alike (.object a) = false ∧ h.active.alike (.object b) = false
      ∧ (Value.object a).alike (.object b) = true
  | some h, .save a _, .remove _ =>
    h.active.alike (.object a) = false ∧ h.releases.getLast? ≠ some (.object a)
  | some h, .remove _, .save a _ =>
    h.active.alike (.object a) = false
      ∧ ∃ last, h.releases.getLast? = some last ∧ last.alike (.object a) = true ∧ last ≠ .object a
  | some h, .remove _, .remove _ =>
    ∃ earlier previous last, h.releases = earlier ++ [previous, last] ∧ previous ≠ last

section

open Operation

variable {h : History}

theorem conflict_save_save (a b : Document) (now later : String) :
    Conflict (some h) (.save a now) (.save b later) ↔ Differs (.save a now) (.save b later) h := by
  show h.active.alike (.object a) = false ∧ h.active.alike (.object b) = false
    ∧ (Value.object a).alike (.object b) ↔ _
  unfold Differs overlapped inTurn
  cases ha : h.active.alike (.object a) with
  | true => simp [effect_save_of_alike _ _ ha]
  | false =>
    cases hb : h.active.alike (.object b) with
    | true => simp [effect_save_of_alike _ _ hb]
    | false =>
      rw [effect_save_of_not_alike _ _ ha, effect_save_of_not_alike _ _ hb,
        effect_save_of_not_alike _ _ hb]
      cases hab : (Value.object a).alike (.object b) with
      | false => simp [effect_save_of_not_alike, hab]
      | true =>
        -- of two schemas that are alike only one is saved in turn, and both are saved here
        cases hba : (Value.object b).alike (.object a) with
        | true => simp [effect_save_of_alike, hab, hba]
        | false =>
          have hne : a ≠ b := by
            rintro rfl
            exact Bool.false_ne_true (hba.symm.trans hab)
          simp [effect_save_of_alike, effect_save_of_not_alike, hab, hba, hne]

variable {earlier : List Value} {last : Value} (hlast : h.releases = earlier ++ [last])
include hlast

theorem conflict_save_remove (a : Document) (now later : String) :
    Conflict (some h) (.save a now) (.remove later) ↔ Differs (.save a now) (.remove later) h := by
  show h.active.alike (.object a) = false ∧ h.releases.getLast? ≠ some (.object a) ↔ _
  unfold Differs overlapped inTurn
  cases ha : h.active.alike (.object a) with
  | true => simp [effect_save_of_alike _ _ ha]
  | false =>
    rw [effect_save_of_not_alike _ _ ha, effect_remove_of_last _ _ hlast,
      effect_remove_of_last _ _ hlast, effect_remove_of_last _ _ rfl, List.dropLast_concat,
      hlast, List.getLast?_concat, List.dropLast_concat]
    -- the removal makes the earlier release active, not the schema that is saved
    cases hla : last.alike (.object a) with
    | true => simp [effect_save_of_alike, hla]
    | false => simp [effect_save_of_not_alike, hla]

theorem conflict_remove_save (a : Document) (now later : String) :
    Conflict (some h) (.remove later) (.save a now) ↔ Differs (.remove later) (.save a now) h := by
  show h.active.alike (.object a) = false ∧ (∃ last, h.releases.getLast? = some last
    ∧ last.alike (.object a) ∧ last ≠ .object a) ↔ _
  unfold Differs overlapped inTurn
  cases ha : h.active.alike (.object a) with
  | true => simp [effect_save_of_alike _ _ ha]
  | false =>
    rw [effect_remove_of_last _ _ hlast, effect_save_of_not_alike _ _ ha,
      effect_save_of_not_alike _ _ ha, effect_remove_of_last _ _ rfl, List.dropLast_concat, hlast,
      List.getLast?_concat, List.dropLast_concat]
    cases hla : last.alike (.object a) with
    | true => simp [effect_save_of_alike, hla, @eq_comm _ last]
    | false => simp [effect_save_of_not_alike, hla]

theorem conflict_remove_remove (now later : String) :
    Conflict (some h) (.remove now) (.remove later) ↔ Differs (.remove now) (.remove later) h := by
  show (∃ earlier previous last, h.releases = earlier ++ [previous, last] ∧ previous ≠ last) ↔ _
  unfold Differs overlapped inTurn
  rw [effect_remove_of_last _ _ hlast, effect_remove_of_last _ _ hlast,
    effect_remove_of_last _ _ hlast, hlast, List.dropLast_concat]
  rcases List.eq_nil_or_concat' earlier with rfl | ⟨rest, previous, rfl⟩
  · -- there is one release only, and the second removal finds none
    refine iff_of_false ?_ (by simp [effect_remove_of_nil])
    rintro ⟨rest, previous, last', heq, -⟩
    have hlength := congrArg List.length heq
    simp at hlength
  · have hlasts : (∃ earlier' previous' last', rest ++ [previous] ++ [last] =
        earlier' ++ [previous', last'] ∧ previous' ≠ last') ↔ previous ≠ last := by
      constructor
      · rintro ⟨earlier', previous', last', heq, hne⟩
        rw [List.append_assoc] at heq
        obtain ⟨rfl, htail⟩ := List.cons.inj (List.append_inj' heq rfl).2
        rw [(List.cons.inj htail).1]
        exact hne
      · exact fun hne => ⟨rest, previous, last, by rw [List.append_assoc]; rfl, hne⟩
    rw [hlasts, effect_remove_of_last _ _ rfl, effect_remove_of_last _ _ rfl]
    simp [@eq_comm _ last]

end

theorem conflict_some_iff {h : History} (hreleases : h.releases ≠ []) (first second : Operation) :
    Conflict (some h) first second ↔ Differs first second h := by
  obtain ⟨earlier, last, hlast⟩ := (List.eq_nil_or_concat' h.releases).resolve_left hreleases
  cases first with
  | save a now =>
    cases second with
    | save b later => exact conflict_save_save a b now later
    | remove later => exact conflict_save_remove hlast a now later
  | remove now =>
    cases second with
    | save b later => exact conflict_remove_save hlast b later now
    | remove later => exact conflict_remove_remove hlast now later

/-! ## Two workers -/

/-- The registry after an operation that is not interrupted. -/
def Operation.runOn (operation : Operation) (name : String) (s : Store) : Store :=
  (Plan.run servers (operation.plan name) s).2

/-- At most one document for an import name, and otherwise what would have come of two operations one
after the other. -/
def Serial (name : String) (first second : Operation) (s t : Store) : Prop :=
  (t.documentsOf name).length ≤ 1
    ∧ (t.SameButTimes (second.runOn name (first.runOn name s))
      ∨ t.SameButTimes (first.runOn name (second.runOn name s)))

theorem Serial.symm {first second : Operation} {t : Store} (h : Serial name first second s t) :
    Serial name second first s t :=
  ⟨h.1, h.2.symm⟩

namespace Place

variable {place : Place name} {t : Store}
  {first second : Operation}

theorem Shows.runOn_eq (hs : place.Shows s h) (operation : Operation) :
    operation.runOn name s = settle servers (operation.change? name h) s := by
  obtain ⟨next, hplan, hcommits⟩ := operation.commits hs.reachable hs.sees
  unfold Operation.runOn
  rw [hplan]
  exact Interleaving.run_of_look rfl hcommits (steady_servers _) ⟨hs.reachable, Nat.le_refl _⟩

theorem Shows.runOn (hs : place.Shows s h) (operation : Operation) :
    place.Shows (operation.runOn name s) (operation.apply h) := by
  rw [hs.runOn_eq]
  exact hs.settle_apply operation

theorem Shows.serial_runOn (hs : place.Shows s h) (first second : Operation) :
    Serial name first second s (second.runOn name (first.runOn name s)) := by
  have hshows := (hs.runOn first).runOn second
  exact ⟨hshows.length_documentsOf_le, .inl ((hshows.sameButTimes_iff hshows).mpr rfl)⟩

/-- Where there is no document yet, two saves that both see that each make one. -/
theorem not_serial_of_saves (hreachable : s.reachable) (a b : Document) (now later : String) :
    ¬ Serial name (.save a now) (.save b later) s
      (settle servers ((Operation.save b later).change? name none)
        (settle servers ((Operation.save a now).change? name none) s)) := by
  have haccepts (schema : Document) (now : String) :
      accepts (named (.str name)) (firstDocument (.str name) (.object schema) now) :=
    accepts_named.mpr rfl
  rintro ⟨hlength, -⟩
  rw [settle_save hreachable, settle_save (by exact hreachable)] at hlength
  simp [Store.documentsOf, List.filter_append, haccepts] at hlength

/-- Changes that were both planned at the start are serial exactly when they do not conflict. -/
theorem Shows.serial_settle_iff (hs : place.Shows s h)
    (hreleases : ∀ g, h = some g → g.releases ≠ []) : Serial name first second s
        (settle servers (second.change? name h) (settle servers (first.change? name h) s)) ↔
      ¬ Conflict h first second := by
  cases h with
  | some h =>
    have hover : place.Shows (settle servers (second.change? name (some h))
        (settle servers (first.change? name (some h)) s)) (some (overlapped first second h)) :=
      (hs.settle_effect first).settle_effect second
    have hturn : ∀ first second : Operation, place.Shows (second.runOn name (first.runOn name s))
        (some (inTurn first second h)) := by
      intro first second
      have hrun := (hs.runOn first).runOn second
      cases first <;> cases second <;> exact hrun
    unfold Serial
    rw [hover.sameButTimes_iff (hturn first second), hover.sameButTimes_iff (hturn second first),
      and_iff_right hover.length_documentsOf_le, conflict_some_iff (hreleases h rfl), Differs,
      Option.some.injEq, Option.some.injEq]
    tauto
  | none =>
    have hidle : ∀ now, (Operation.remove now).runOn name s = s := fun now => hs.runOn_eq _
    cases first with
    | remove now =>
      refine iff_of_true ?_ (by cases second <;> exact id)
      have hserial := hs.serial_runOn (.remove now) second
      rwa [hidle, hs.runOn_eq] at hserial
    | save a now =>
      cases second with
      | remove later =>
        have hserial := (hs.serial_runOn (.remove later) (.save a now)).symm
        rw [hidle, hs.runOn_eq] at hserial
        exact iff_of_true hserial id
      | save b later =>
        exact iff_of_false (not_serial_of_saves hs.reachable a b now later) (not_not_intro trivial)

end Place

/-- The documents of an import name that two operations start with: none, or one that has releases. -/
def Store.Starts (s : Store) (name : String) : Option History → Prop
  | none => s.documentsOf name = []
  | some h => h.releases ≠ [] ∧ ∃ d, s.documentsOf name = [d]
      ∧ Assoc.get? "active_schema" d = some h.active
      ∧ Assoc.get? "schemas_releases" d = some (.list (h.releases.map release))

theorem revision_firstDocument (name schema : Value) (now : String) :
    Revision (firstDocument name .null "") (firstDocument name schema now) ⟨schema, []⟩ where
  active := rfl
  releases := rfl
  rest := by
    intro key hkey
    simp only [List.mem_cons, List.not_mem_nil, or_false, not_or] at hkey
    obtain ⟨hdate, hactive, hreleases⟩ := hkey
    unfold firstDocument Assoc.get?
    simp [Assoc.get?, Ne.symm hdate, Ne.symm hactive]

theorem Store.Starts.exists_place (hstart : s.Starts name h) (hreachable : s.reachable) :
    ∃ place : Place name, place.Shows s h := by
  cases h with
  | none =>
    refine ⟨⟨s.documents, [], firstDocument (.str name) .null "", rfl, fun d hd => ?_,
      fun d hd => absurd hd List.not_mem_nil⟩, hreachable, rfl, rfl, revision_firstDocument _⟩
    have hnot := List.filter_eq_nil_iff.mp hstart d hd
    simpa using hnot
  | some h =>
    obtain ⟨-, d, hdocuments, hactive, hreleases⟩ := hstart
    obtain ⟨before, after, hsplit, hbefore, hd, hafter⟩ := List.filter_eq_cons_iff.mp hdocuments
    refine ⟨⟨before, after, d, accepts_named.mp hd, fun e he => by simpa using hbefore e he,
      fun e he => ?_⟩, hreachable, d, ⟨hactive, hreleases, fun _ _ => rfl⟩, hsplit⟩
    have hnot := List.filter_eq_nil_iff.mp hafter e he
    simpa using hnot

/-- Two workers save and remove for one import name, their requests in any order. There is still at
most one document, and it is as if one of them had waited for the other, unless one makes its change
after the other has looked and the two conflict. -/
theorem serial_iff_no_conflict {s t : Store} {name : String} {h : Option History}
    {first second : Operation} {log : List (Side × Request)} {answer answer' : Except Fault Value}
    (hreachable : s.reachable = true) (hstart : s.Starts name h)
    (hrun : Interleaving servers (first.plan name) (second.plan name) s log (answer, answer', t)) :
    Serial name first second s t ↔ ¬ ∃ side, Overtakes Request.changes side log
      ∧ Conflict h (side.pick first second) (side.other.pick first second) := by
  obtain ⟨place, hs⟩ := hstart.exists_place hreachable
  have hreleases : ∀ g, h = some g → g.releases ≠ [] := by
    rintro g rfl
    exact hstart.1
  obtain ⟨next, hplan, hcommits⟩ := first.commits hreachable hs.sees
  obtain ⟨next', hplan', hcommits'⟩ := second.commits hreachable hs.sees
  rw [hplan, hplan'] at hrun
  obtain ⟨hleft, hright, hneither⟩ := hrun.cases_of_looks rfl rfl hcommits hcommits'
    (steady_servers _) ⟨hreachable, Nat.le_refl _⟩
  constructor
  · rintro hserial ⟨side, hovertakes, hconflict⟩
    cases side with
    | left =>
      rw [show t = _ from hleft hovertakes] at hserial
      exact (hs.serial_settle_iff hreleases).mp hserial hconflict
    | right =>
      rw [show t = _ from hright hovertakes] at hserial
      exact (hs.serial_settle_iff hreleases).mp hserial.symm hconflict
  · intro hnone
    by_cases hl : Overtakes Request.changes .left log
    · rw [show t = _ from hleft hl]
      exact (hs.serial_settle_iff hreleases).mpr fun hconflict => hnone ⟨.left, hl, hconflict⟩
    by_cases hr : Overtakes Request.changes .right log
    · rw [show t = _ from hright hr]
      exact ((hs.serial_settle_iff hreleases).mpr fun hconflict =>
        hnone ⟨.right, hr, hconflict⟩).symm
    · rw [← hplan, ← hplan'] at hneither
      rcases hneither hl hr with hserial | hserial
      · rw [show t = _ from hserial]
        exact hs.serial_runOn first second
      · rw [show t = _ from hserial]
        exact (hs.serial_runOn second first).symm

/-- A registry with a schema for tables that was released once, and a document of another name. -/
def releasedOnce : Store where
  documents := [firstDocument (.str "other") (.object (typeSchema "null")) "1",
    revised (firstDocument (.str "imp") (.object (typeSchema "object")) "2")
      (.object (typeSchema "array")) "3" [.object (typeSchema "array")]]

/-- Two different schemas are saved, one after the other has looked: nothing is lost. -/
theorem overtaken_save_is_kept :
    ∃ run, interleave servers [.left, .right, .left, .left, .right, .right]
        (Operation.plan "imp" (.save (typeSchema "string") "4"))
        (Operation.plan "imp" (.save (typeSchema "number") "5")) releasedOnce = some run
      ∧ Overtakes Request.changes .left run.1
      ∧ Serial "imp" (.save (typeSchema "string") "4") (.save (typeSchema "number") "5")
          releasedOnce run.2.2.2 := by
  have hstart : releasedOnce.Starts "imp"
      (some ⟨.object (typeSchema "array"), [.object (typeSchema "array")]⟩) :=
    ⟨by decide, _, rfl, rfl, rfl⟩
  have hovertakes : ∃ run, interleave servers [.left, .right, .left, .left, .right, .right]
      (Operation.plan "imp" (.save (typeSchema "string") "4"))
      (Operation.plan "imp" (.save (typeSchema "number") "5")) releasedOnce = some run
        ∧ Overtakes Request.changes .left run.1 :=
    ⟨_, rfl, [(.left, .findFirst _), (.right, .findFirst _), (.left, .count [])], _, _, rfl, rfl,
      by decide, (.right, .findFirst _), List.mem_cons_of_mem _ List.mem_cons_self, rfl⟩
  obtain ⟨run, hrun, hovertakes⟩ := hovertakes
  refine ⟨run, hrun, hovertakes, ?_⟩
  refine (serial_iff_no_conflict rfl hstart (interleaving_of_interleave hrun)).mpr ?_
  rintro ⟨side, -, hconflict⟩
  cases side with
  | left => exact absurd hconflict.2.2 (by decide)
  | right => exact absurd hconflict.2.2 (by decide)

/-- Two workers save for a name without a document, and both look before either of them saves: there
are two documents. -/
theorem saved_twice :
    ∃ run, interleave servers [.left, .left, .right, .right, .right, .left]
        (Operation.plan "imp" (.save (typeSchema "object") "1"))
        (Operation.plan "imp" (.save (typeSchema "array") "2")) {} = some run
      ∧ (run.2.2.2.documentsOf "imp").length = 2
      ∧ ¬ Serial "imp" (.save (typeSchema "object") "1") (.save (typeSchema "array") "2") {}
          run.2.2.2 := by
  refine ⟨_, rfl, rfl, ?_⟩
  rintro ⟨hlength, -⟩
  exact absurd hlength (by decide)

end SheetIntake.Registry
