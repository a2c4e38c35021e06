import SheetIntake.Proofs.AkinValues
import SheetIntake.Proofs.Outcome
import SheetIntake.Schema.Validation

/-!
# What keywords find under akin schemas

Of what a keyword finds, it counts whether there is anything: the verdict is that nothing is found,
that something is found, or that the search fails. The messages and their order do not count, and so
the verdict of a keyword depends on what its schema and its value say, not on how they are written.
-/

namespace SheetIntake.Schema

open Value
open Outcome (ok_bind)
open Assoc (get? keys)

/-! ## Verdicts -/

namespace Findings

/-- Whether nothing is found; none where the search fails. -/
def verdict (fs : Findings) : Option Bool :=
  match fs.fault with
  | some _ => none
  | none => some fs.found.isEmpty

@[simp]
theorem verdict_clean : clean.verdict = some true := rfl

@[simp]
theorem verdict_one (f : Finding) : (one f).verdict = some false := rfl

theorem ofExcept_pure (fs : Findings) : ofExcept (pure fs) = fs := rfl

@[simp]
theorem verdict_under (step : Step) (fs : Findings) : (fs.under step).verdict = fs.verdict := by
  unfold verdict under
  cases fs.fault <;> simp

section

variable {α β : Type} {f : α → Findings} {g : β → Findings} {xs : List α} {ys : List β} {r : Bool}

theorem verdict_each_cons (f : α → Findings) (x : α) (xs : List α) :
    (each f (x :: xs)).verdict = (do return (← (f x).verdict) && (← (each f xs).verdict)) := by
  rw [each]
  unfold verdict
  cases hfault : (f x).fault with
  | some fault => simp [hfault]
  | none =>
    cases (each f xs).fault with
    | some fault => rfl
    | none => cases (f x).found <;> simp

/-- All searches have a verdict, and nothing is found if none of them finds anything. -/
theorem verdict_each_eq_some : (each f xs).verdict = some r ↔
    (∀ x ∈ xs, ∃ q, (f x).verdict = some q) ∧ (r ↔ ∀ x ∈ xs, (f x).verdict = some true) := by
  induction xs generalizing r with
  | nil => simp [each, eq_comm]
  | cons x xs ih =>
    rw [verdict_each_cons, List.forall_mem_cons, List.forall_mem_cons]
    cases hfirst : (f x).verdict with
    | none => simp
    | some p =>
      cases hrest : (each f xs).verdict with
      | none =>
        refine iff_of_false (by simp) fun h => ?_
        cases hrest.symm.trans (ih.mpr ⟨h.1.2, decide_eq_true_iff⟩)
      | some q =>
        obtain ⟨hall, htrue⟩ := ih.mp hrest
        simp only [Option.pure_def, Option.bind_eq_bind, Option.bind_some, Option.some.injEq,
          exists_eq', true_and, ← htrue, and_iff_right hall]
        cases p <;> cases q <;> cases r <;> simp

end

/-- A search has the verdict of another, if that one has a verdict. -/
def Foretells (fs gs : Findings) : Prop :=
  ∀ r, fs.verdict = some r → gs.verdict = some r

namespace Foretells

variable {fs gs : Findings}

theorem of_eq (h : fs.verdict = gs.verdict) : fs.Foretells gs := fun _ hr => h ▸ hr

theorem of_none (h : fs.verdict = none) : fs.Foretells gs := fun _ hr => nomatch h.symm.trans hr

protected theorem refl (fs : Findings) : fs.Foretells fs := fun _ hr => hr

variable {α β : Type} {f : α → Findings} {g : β → Findings} {xs : List α} {ys : List β}

theorem each (hleft : ∀ x ∈ xs, ∃ y ∈ ys, (f x).Foretells (g y))
    (hright : ∀ y ∈ ys, ∃ x ∈ xs, (f x).Foretells (g y)) : (each f xs).Foretells (each g ys) := by
  intro r hr
  obtain ⟨hall, htrue⟩ := verdict_each_eq_some.mp hr
  refine verdict_each_eq_some.mpr ⟨fun y hy => ?_, htrue.trans ⟨fun h y hy => ?_, fun h x hx => ?_⟩⟩
  · obtain ⟨x, hx, hxy⟩ := hright y hy
    obtain ⟨q, hq⟩ := hall x hx
    exact ⟨q, hxy q hq⟩
  · obtain ⟨x, hx, hxy⟩ := hright y hy
    exact hxy true (h x hx)
  · obtain ⟨y, hy, hxy⟩ := hleft x hx
    obtain ⟨q, hq⟩ := hall x hx
    rw [hq, ← hxy q hq, h y hy]

theorem each_forall₂ (h : List.Forall₂ (fun x y => (f x).Foretells (g y)) xs ys) :
    (Findings.each f xs).Foretells (Findings.each g ys) := by
  induction h with
  | nil => exact .refl _
  | cons hfirst _ ih =>
    intro r hr
    rw [verdict_each_cons, Option.bind_eq_bind, Option.bind_eq_some_iff] at hr
    obtain ⟨p, hp, hr⟩ := hr
    obtain ⟨q, hq, hr⟩ := Option.bind_eq_some_iff.mp hr
    rw [verdict_each_cons, hfirst p hp, ih q hq]
    exact hr

end Foretells

/-- A search that fails has found nothing before. -/
def Settled (fs : Findings) : Prop :=
  fs.fault.isSome = true → fs.found = []

theorem Settled.cases {fs : Findings} (h : fs.Settled) :
    (∃ fault, fs = failed fault) ∨ ∃ r, fs.verdict = some r := by
  obtain ⟨found, fault⟩ := fs
  cases fault with
  | none => exact .inr ⟨_, rfl⟩
  | some fault =>
    obtain rfl : found = [] := h rfl
    exact .inl ⟨fault, rfl⟩

theorem isClean_eq {fs : Findings} {r : Bool} (h : fs.verdict = some r) : fs.isClean = .ok r := by
  obtain ⟨_ | _, _ | _⟩ := fs <;> cases h <;> rfl

theorem complete_cases (fs : Findings) : (∃ fault, fs.complete = .error fault ∧ fs.verdict = none) ∨
      ∃ found, fs.complete = .ok found ∧ fs.verdict = some found.isEmpty := by
  obtain ⟨found, _ | fault⟩ := fs
  · exact .inr ⟨found, rfl, rfl⟩
  · exact .inl ⟨fault, rfl, rfl⟩

end Findings

open Findings (Foretells)

/-- A computation that succeeds makes another one succeed, with a related result. -/
def Forecasts {α β : Type} (r : α → β → Prop) (x : Except Fault α) (y : Except Fault β) : Prop :=
  ∀ a, x = .ok a → ∃ b, y = .ok b ∧ r a b

namespace Forecasts

variable {α β γ δ : Type} {r : α → β → Prop} {t : γ → δ → Prop} {x : Except Fault α}
  {y : Except Fault β}

theorem ok {a : α} {b : β} (h : r a b) : Forecasts r (.ok a) (.ok b) := by
  rintro _ ⟨⟩
  exact ⟨b, rfl, h⟩

theorem bind (h : Forecasts r x y) {f : α → Except Fault γ} {g : β → Except Fault δ}
    (hnext : ∀ a b, r a b → Forecasts t (f a) (g b)) : Forecasts t (x >>= f) (y >>= g) := by
  intro c hc
  obtain ⟨a, ha, hc⟩ := Outcome.bind_eq_ok.mp hc
  obtain ⟨b, rfl, hab⟩ := h a ha
  exact hnext a b hab c hc

theorem foretells (h : Forecasts r x y) {f : α → Except Fault Findings}
    {g : β → Except Fault Findings}
    (hnext : ∀ a b, r a b → (Findings.ofExcept (f a)).Foretells (.ofExcept (g b))) :
    (Findings.ofExcept (x >>= f)).Foretells (.ofExcept (y >>= g)) := by
  cases x with
  | error fault => exact .of_none rfl
  | ok a =>
    obtain ⟨b, rfl, hab⟩ := h a rfl
    exact hnext a b hab

theorem complete {fs gs : Findings} (h : fs.Foretells gs) :
    Forecasts (fun found found' => found.isEmpty = found'.isEmpty) fs.complete gs.complete := by
  intro found hfound
  rcases fs.complete_cases with ⟨fault, hx, -⟩ | ⟨more, hx, hverdict⟩
  · cases hx.symm.trans hfound
  · cases hx.symm.trans hfound
    have hsame := h _ hverdict
    rcases gs.complete_cases with ⟨fault, -, hnone⟩ | ⟨found', hy, hverdict'⟩
    · cases hnone.symm.trans hsame
    · exact ⟨found', hy, Option.some.inj (hsame.symm.trans hverdict')⟩

end Forecasts

/-! ## Relations that pass to parts -/

/-- Objects with related members. -/
structure Named (r : Value → Value → Prop) (a b : Value) : Prop where
  akin : Akin a b
  left {name : String} {x : Value} :
    (name, x) ∈ membersOf a → ∃ y, (name, y) ∈ membersOf b ∧ r x y
  right {name : String} {y : Value} :
    (name, y) ∈ membersOf b → ∃ x, (name, x) ∈ membersOf a ∧ r x y

/-- A relation between akin values that passes to the items of lists. -/
structure Listed (r : Value → Value → Prop) : Prop where
  akin {a b : Value} : r a b → Akin a b
  items {xs ys : List Value} : r (.list xs) (.list ys) → List.Forall₂ r xs ys

/-- A relation between akin values that passes to their items and to their members. -/
structure Parts (r : Value → Value → Prop) : Prop extends Listed r where
  member {xs ys : List (String × Value)} {name : String} {x y : Value} :
    r (.object xs) (.object ys) → Assoc.get? name xs = some x → Assoc.get? name ys = some y → r x y
  named {a b : Value} : r a b → Named r a b

theorem parts_eq : Parts Eq where
  akin h := h ▸ .same _
  items h := Value.list.inj h ▸ List.forall₂_same.mpr fun _ _ => rfl
  member h hx hy := Option.some.inj (hx.symm.trans (Value.object.inj h ▸ hy))
  named h := ⟨h ▸ .same _, fun hx => ⟨_, h ▸ hx, rfl⟩, fun hy => ⟨_, h ▸ hy, rfl⟩⟩

variable {a b : Value}

theorem named_of_members {r : Value → Value → Prop} (h : Akin a b)
    (hleft : ∀ xs ys name x, a = .object xs → b = .object ys → (name, x) ∈ xs →
      ∃ y, (name, y) ∈ ys ∧ r x y)
    (hright : ∀ xs ys name y, a = .object xs → b = .object ys → (name, y) ∈ ys →
      ∃ x, (name, x) ∈ xs ∧ r x y) : Named r a b := by
  refine ⟨h, fun {name x} hx => ?_, fun {name y} hy => ?_⟩
  · cases h.shape with
    | object xs ys => exact hleft xs ys name x rfl rfl hx
    | _ => cases hx
  · cases h.shape with
    | object xs ys => exact hright xs ys name y rfl rfl hy
    | _ => cases hy

theorem named_akin (h : Akin a b) : Named Akin a b := by
  refine named_of_members h (fun xs ys name x hxs hys hx => ?_) fun xs ys name y hxs hys hy => ?_
  · subst hxs hys
    obtain ⟨y, hy, hxy, -⟩ := h.exists_mem hx
    exact ⟨y, hy, hxy⟩
  · subst hxs hys
    obtain ⟨x, hx, hyx, -⟩ := h.symm.exists_mem hy
    exact ⟨x, hx, hyx.symm⟩

theorem parts_akin : Parts Akin where
  akin h := h
  items h := Akin.list_iff.mp h
  member h hx hy := h.member hx hy
  named h := named_akin h

theorem Listed.forall₂_itemsOf {r : Value → Value → Prop} (hr : Listed r) (h : r a b) :
    List.Forall₂ r (itemsOf a) (itemsOf b) := by
  cases (hr.akin h).shape with
  | list xs ys => exact hr.items h
  | _ => exact .nil

section

variable {r : Value → Value → Prop}

theorem foretells_onText (h : Akin a b) {f g : String → Findings}
    (hfind : ∀ s, (f s).Foretells (g s)) : (onText a f).Foretells (onText b g) := by
  cases h.shape with
  | text s => exact hfind s
  | _ => exact .refl _

theorem Listed.foretells_onList (hr : Listed r) (h : r a b) {f g : List Value → Findings}
    (hfind : ∀ xs ys, List.Forall₂ r xs ys → (f xs).Foretells (g ys)) :
    (onList a f).Foretells (onList b g) := by
  cases (hr.akin h).shape with
  | list xs ys => exact hfind xs ys (hr.items h)
  | _ => exact .refl _

theorem Parts.foretells_onObject (hr : Parts r) (h : r a b) {f g : List (String × Value) → Findings}
    (hfind : ∀ xs ys, r (.object xs) (.object ys) → (f xs).Foretells (g ys)) :
    (onObject a f).Foretells (onObject b g) := by
  cases (hr.akin h).shape with
  | object xs ys => exact hfind xs ys h
  | _ => exact .refl _

theorem get?_cases {xs ys : List (String × Value)} (h : Akin (.object xs) (.object ys))
    (name : String) : (get? name xs = none ∧ get? name ys = none)
      ∨ ∃ x y, get? name xs = some x ∧ get? name ys = some y := by
  have hsome := h.isSome_get? name
  cases hx : get? name xs with
  | none =>
    rw [hx] at hsome
    exact .inl ⟨rfl, Option.isNone_iff_eq_none.mp (by simpa using hsome)⟩
  | some x =>
    rw [hx, Option.isSome_some] at hsome
    obtain ⟨y, hy⟩ := Option.isSome_iff_exists.mp hsome.symm
    exact .inr ⟨x, y, rfl, hy⟩

theorem Named.foretells_filter (h : Named r a b) (test : String → Bool)
    {f g : String × Value → Findings}
    (hfind : ∀ name x y, r x y → (f (name, x)).Foretells (g (name, y))) :
    (Findings.each f ((membersOf a).filter fun m => test m.1)).Foretells
      (Findings.each g ((membersOf b).filter fun m => test m.1)) := by
  refine .each (fun p hp => ?_) (fun q hq => ?_)
  · obtain ⟨hp, htest⟩ := List.mem_filter.mp hp
    obtain ⟨y, hy, hxy⟩ := h.left hp
    exact ⟨_, List.mem_filter.mpr ⟨hy, htest⟩, hfind p.1 p.2 y hxy⟩
  · obtain ⟨hq, htest⟩ := List.mem_filter.mp hq
    obtain ⟨x, hx, hxy⟩ := h.right hq
    exact ⟨_, List.mem_filter.mpr ⟨hx, htest⟩, hfind q.1 x q.2 hxy⟩

theorem Named.foretells_each (h : Named r a b) {f g : String × Value → Findings}
    (hfind : ∀ name x y, r x y → (f (name, x)).Foretells (g (name, y))) :
    (Findings.each f (membersOf a)).Foretells (Findings.each g (membersOf b)) := by
  simpa using h.foretells_filter (fun _ => true) hfind

end

/-! ## Related keywords -/

/-- What is known of all keywords, whichever draft they belong to, is known of those of a draft. -/
theorem Check.of_table {P : String × (Check → Value → Findings) → Prop}
    (h : ∀ e ∈ common ++ sinceSeven ++ untilSeven ++ sinceLatest, P e) {draft : Draft}
    {name : String} {find : Check → Value → Findings}
    (hfind : get? name (table draft) = some find) : P (name, find) := by
  refine h _ ?_
  have hmem := Assoc.mem_of_get? hfind
  cases draft <;> simp only [table, List.mem_append] at hmem ⊢ <;> tauto

/-- Keywords at work under related schemas and on related values. One applies schemas inside with
verdicts that foretell those of the other. -/
structure Related (s v : Value → Value → Prop) (c c' : Check) : Prop where
  schemas : Listed s
  values : Parts v
  texts : ∀ t, v (.str t) (.str t)
  draft : c.draft = c'.draft
  formats : c.formats = c'.formats
  members : Akin (.object c.members) (.object c'.members)
  branch {name : String} {x y : Value} : name = "then" ∨ name = "else" →
    Assoc.get? name c.members = some x → Assoc.get? name c'.members = some y → s x y
  value : v c.value c'.value
  types : ∀ name, isType c.draft c.value name = isType c'.draft c'.value name
  apply {a b x y : Value} : s a b → v x y → (c.apply a x).Foretells (c'.apply b y)

namespace Related

variable {s v : Value → Value → Prop} {c c' : Check}

theorem foretells_ensure {keyword keyword' : String} {holds holds' : Bool}
    {message message' : Unit → String} (heq : holds = holds') :
    (c.ensure keyword holds message).Foretells (c'.ensure keyword' holds' message') := by
  subst heq
  cases holds
  · exact .of_eq rfl
  · exact .refl _

theorem foretells_reportWith {keyword keyword' message message' : String}
    {context context' : List Finding} :
    (c.reportWith keyword message context).Foretells (c'.reportWith keyword' message' context') :=
  .of_eq rfl

@[simp]
theorem verdict_applyAt (c : Check) (step : Step) (schema part : Value) :
    (c.applyAt step schema part).verdict = (c.apply schema part).verdict := by
  unfold Check.applyAt
  split
  · rfl
  · rw [Findings.verdict_under]

variable {xs ys : List Value}

theorem any_eq {r : Value → Value → Prop} {p q : Value → Bool} (hlist : List.Forall₂ r xs ys)
    (htest : ∀ x y, r x y → p x = q y) : xs.any p = ys.any q := by
  induction hlist with
  | nil => rfl
  | cons hfirst _ ih => rw [List.any_cons, List.any_cons, htest _ _ hfirst, ih]

theorem allDistinct_eq {r : Value → Value → Prop} (hr : Parts r) (hlist : List.Forall₂ r xs ys) :
    Check.allDistinct xs = Check.allDistinct ys := by
  induction hlist with
  | nil => rfl
  | cons hfirst hrest ih =>
    rw [Check.allDistinct, Check.allDistinct, ih,
      any_eq hrest fun x y hxy => (hr.akin hfirst).equal_congr (hr.akin hxy)]

variable {α β : Type} {r : α → β → Prop}

theorem isEmpty_eq {xs : List α} {ys : List β} (hlist : List.Forall₂ r xs ys) :
    xs.isEmpty = ys.isEmpty := by
  cases hlist <;> rfl

theorem forall₂_zipIdx {xs : List α} {ys : List β} (hlist : List.Forall₂ r xs ys) (k : Nat) :
    List.Forall₂ (fun p q => r p.1 q.1 ∧ p.2 = q.2) (xs.zipIdx k) (ys.zipIdx k) := by
  induction hlist generalizing k with
  | nil => exact .nil
  | cons hfirst _ ih => exact .cons ⟨hfirst, rfl⟩ (ih (k + 1))

theorem forall₂_zip {γ δ : Type} {t : γ → δ → Prop} {xs : List α} {ys : List β} {us : List γ}
    {vs : List δ} (hlist : List.Forall₂ r xs ys) (hother : List.Forall₂ t us vs) :
    List.Forall₂ (fun p q => r p.1 q.1 ∧ t p.2 q.2) (xs.zip us) (ys.zip vs) := by
  induction hlist generalizing us vs with
  | nil => exact .nil
  | cons hfirst _ ih =>
    cases hother with
    | nil => exact .nil
    | cons hu hus => exact .cons ⟨hfirst, hu⟩ (ih hus)

theorem isObject_eq (hab : Akin a b) : isObject a = isObject b := by
  cases hab.shape with
  | _ => rfl

theorem perm_keys_membersOf (hab : Akin a b) : (keys (membersOf a)).Perm (keys (membersOf b)) := by
  cases hab.shape with
  | object xs ys => exact hab.perm_keys
  | _ => exact .refl _

theorem intercalate_eq_empty_iff {patterns : List String} :
    String.intercalate "|" patterns = "" ↔ patterns = [] ∨ patterns = [""] := by
  rcases patterns with _ | ⟨first, _ | ⟨second, rest⟩⟩ <;> simp

theorem intercalate_of_perm {xs ys : List String} (hperm : xs.Perm ys)
    (hempty : String.intercalate "|" xs = "") : String.intercalate "|" ys = "" := by
  rw [intercalate_eq_empty_iff] at hempty ⊢
  rcases hempty with rfl | rfl
  · exact .inl (List.perm_nil.mp hperm.symm)
  · exact .inr (List.perm_singleton.mp hperm.symm)

theorem isNone_get?_of_perm {xs ys : List (String × Value)}
    (hperm : (keys xs).Perm (keys ys)) (name : String) :
    (get? name xs).isNone = (get? name ys).isNone := by
  rw [← Option.not_isSome, ← Option.not_isSome]
  congr 1
  rw [Bool.eq_iff_iff, Assoc.isSome_get?_iff, Assoc.isSome_get?_iff, hperm.mem_iff]

theorem isEmpty_filter {xs ys : List (String × Value)}
    (hperm : (keys xs).Perm (keys ys)) (test : String → Bool) :
    (xs.filter fun m => test m.1).isEmpty = (ys.filter fun m => test m.1).isEmpty := by
  have hkeys (zs : List (String × Value)) :
      (zs.filter fun m => test m.1).isEmpty = !(keys zs).any test := by
    rw [Bool.eq_iff_iff]
    simp [keys]
  rw [hkeys, hkeys, hperm.any_eq]

variable (h : Related s v c c')

include h

theorem akin_getD (name : String) (default : Value) : Akin ((get? name c.members).getD default)
      ((get? name c'.members).getD default) := by
  rcases get?_cases h.members name with ⟨hx, hy⟩ | ⟨x, y, hx, hy⟩
  · rw [hx, hy]
    exact .same default
  · rw [hx, hy]
    exact h.members.member hx hy

theorem isNumber_eq : c.isNumber = c'.isNumber := h.types "number"

theorem foretells_multipleOf
    (hmultiple : Check.isMultiple c.value a = Check.isMultiple c'.value b) :
    (c.multipleOf a).Foretells (c'.multipleOf b) := by
  unfold Check.multipleOf
  rw [h.isNumber_eq, hmultiple]
  split
  · exact .refl _
  · split
    · exact foretells_ensure rfl
    · exact .refl _

theorem prefixLength_eq : c.prefixLength = c'.prefixLength :=
  (parts_akin.forall₂_itemsOf (h.akin_getD "prefixItems" .null)).length_eq

section

variable (hab : s a b)

include hab

theorem akin : Akin a b := h.schemas.akin hab

theorem applyAt {x y : Value} (hxy : v x y) (step : Step) :
    (c.applyAt step a x).Foretells (c'.applyAt step b y) := by
  intro r hr
  rw [verdict_applyAt] at hr ⊢
  exact h.apply hab hxy r hr

/-! ### Types, constants and limits -/

theorem isOfType_eq : c.isOfType a = c'.isOfType b := by
  cases (h.akin hab).shape with
  | text name => exact h.types name
  | _ => rfl

theorem foretells_type : (c.type a).Foretells (c'.type b) := by
  refine foretells_ensure ?_
  have hone : [a].any c.isOfType = [b].any c'.isOfType :=
    any_eq (.cons hab .nil) fun x y hxy => h.isOfType_eq hxy
  cases (h.akin hab).shape with
  | list xs ys => exact any_eq (h.schemas.items hab) fun x y hxy => h.isOfType_eq hxy
  | _ => exact hone

theorem foretells_enum : (c.enum a).Foretells (c'.enum b) :=
  foretells_ensure (any_eq (h.schemas.forall₂_itemsOf hab) fun _ _ hxy =>
    (h.akin hxy).equal_congr (h.values.akin h.value))

theorem foretells_const : (c.const a).Foretells (c'.const b) :=
  foretells_ensure ((h.values.akin h.value).equal_congr (h.akin hab))

theorem foretells_minimum : (c.minimum a).Foretells (c'.minimum b) := by
  unfold Check.minimum
  rw [h.isNumber_eq, h.draft, (h.akin_getD "exclusiveMinimum" .null).truthy_eq]
  have hvalue := h.values.akin h.value
  split
  · exact .refl _
  · split
    · exact foretells_ensure (congrArg _ (hvalue.lessOrEqual_eq (h.akin hab)))
    · exact foretells_ensure (congrArg _ (hvalue.less_eq (h.akin hab)))

theorem foretells_maximum : (c.maximum a).Foretells (c'.maximum b) := by
  unfold Check.maximum
  rw [h.isNumber_eq, h.draft, (h.akin_getD "exclusiveMaximum" .null).truthy_eq]
  have hvalue := h.values.akin h.value
  split
  · exact .refl _
  · split
    · exact foretells_ensure (congrArg _ ((h.akin hab).lessOrEqual_eq hvalue))
    · exact foretells_ensure (congrArg _ ((h.akin hab).less_eq hvalue))

theorem foretells_exclusiveMinimum : (c.exclusiveMinimum a).Foretells (c'.exclusiveMinimum b) := by
  refine foretells_ensure ?_
  rw [h.isNumber_eq, (h.values.akin h.value).lessOrEqual_eq (h.akin hab)]

theorem foretells_exclusiveMaximum : (c.exclusiveMaximum a).Foretells (c'.exclusiveMaximum b) := by
  refine foretells_ensure ?_
  rw [h.isNumber_eq, (h.akin hab).lessOrEqual_eq (h.values.akin h.value)]

/-! ### Sizes and texts -/

theorem foretells_atLeast {size size' : Nat} (hsize : size = size') (keyword otherwise : String) :
    (c.atLeast keyword size a otherwise).Foretells (c'.atLeast keyword size' b otherwise) :=
  foretells_ensure (congrArg _ (hsize ▸ (Akin.same _).less_eq (h.akin hab)))

theorem foretells_atMost {size size' : Nat} (hsize : size = size') (keyword otherwise : String) :
    (c.atMost keyword size a otherwise).Foretells (c'.atMost keyword size' b otherwise) :=
  foretells_ensure (congrArg _ (hsize ▸ (h.akin hab).less_eq (Akin.same _)))

theorem foretells_minLength : (c.minLength a).Foretells (c'.minLength b) :=
  foretells_onText (h.values.akin h.value) fun _ => h.foretells_atLeast hab rfl _ _

theorem foretells_maxLength : (c.maxLength a).Foretells (c'.maxLength b) :=
  foretells_onText (h.values.akin h.value) fun _ => h.foretells_atMost hab rfl _ _

theorem foretells_minItems : (c.minItems a).Foretells (c'.minItems b) :=
  h.values.foretells_onList h.value fun _ _ hitems => h.foretells_atLeast hab hitems.length_eq _ _

theorem foretells_maxItems : (c.maxItems a).Foretells (c'.maxItems b) :=
  h.values.foretells_onList h.value fun _ _ hitems => h.foretells_atMost hab hitems.length_eq _ _

theorem foretells_minProperties : (c.minProperties a).Foretells (c'.minProperties b) :=
  h.values.foretells_onObject h.value fun _ _ hmembers =>
    h.foretells_atLeast hab (h.values.akin hmembers).length_eq _ _

theorem foretells_maxProperties : (c.maxProperties a).Foretells (c'.maxProperties b) :=
  h.values.foretells_onObject h.value fun _ _ hmembers =>
    h.foretells_atMost hab (h.values.akin hmembers).length_eq _ _

theorem foretells_pattern : (c.pattern a).Foretells (c'.pattern b) :=
  foretells_onText (h.values.akin h.value) fun _ =>
    foretells_onText (h.akin hab) fun _ => foretells_ensure rfl

theorem foretells_format : (c.format a).Foretells (c'.format b) :=
  foretells_onText (h.akin hab) fun _ =>
    foretells_onText (h.values.akin h.value) fun _ => foretells_ensure (by rw [h.formats])

/-! ### Lists -/

theorem foretells_uniqueItems : (c.uniqueItems a).Foretells (c'.uniqueItems b) := by
  refine h.values.foretells_onList h.value fun xs ys hitems => foretells_ensure ?_
  rw [(h.akin hab).truthy_eq, allDistinct_eq h.values hitems]

theorem foretells_applyToItems (start : Nat) (hitems : List.Forall₂ v xs ys) :
    (c.applyToItems a start xs).Foretells (c'.applyToItems b start ys) := by
  refine .each_forall₂ ((forall₂_zipIdx hitems 0).imp fun p q hpq => ?_)
  rw [hpq.2]
  exact h.applyAt hab hpq.1 _

variable {as bs : List Value}

omit hab in
theorem foretells_applyInTurn (hschemas : List.Forall₂ s as bs) (hitems : List.Forall₂ v xs ys) :
    (c.applyInTurn as xs).Foretells (c'.applyInTurn bs ys) := by
  refine .each_forall₂ ((forall₂_zipIdx (forall₂_zip hschemas hitems) 0).imp fun p q hpq => ?_)
  rw [hpq.2]
  exact h.applyAt hpq.1.1 hpq.1.2 _

theorem foretells_prefixItems : (c.prefixItems a).Foretells (c'.prefixItems b) :=
  h.values.foretells_onList h.value fun _ _ hitems =>
    h.schemas.foretells_onList hab fun _ _ hschemas => h.foretells_applyInTurn hschemas hitems

theorem foretells_restItems (hitems : List.Forall₂ v xs ys) :
    (c.restItems a xs).Foretells (c'.restItems b ys) := by
  unfold Check.restItems
  rw [h.prefixLength_eq]
  have hrest := List.forall₂_drop c'.prefixLength hitems
  dsimp only
  rw [isEmpty_eq hrest]
  split
  · exact .refl _
  · split
    · next hfalse =>
      rw [if_pos (((h.akin hab).eq_bool_iff false).mp hfalse)]
      exact foretells_reportWith
    · next hfalse =>
      rw [if_neg fun hb => hfalse (((h.akin hab).eq_bool_iff false).mpr hb)]
      exact h.foretells_applyToItems hab _ hrest

theorem foretells_items : (c.items a).Foretells (c'.items b) := by
  refine h.values.foretells_onList h.value fun xs ys hitems => ?_
  rw [h.draft]
  split
  · exact h.foretells_restItems hab hitems
  · have hall := h.foretells_applyToItems hab 0 hitems
    cases (h.akin hab).shape with
    | list as bs => exact h.foretells_applyInTurn (h.schemas.items hab) hitems
    | _ => exact hall

theorem foretells_additionalItems : (c.additionalItems a).Foretells (c'.additionalItems b) := by
  refine h.values.foretells_onList h.value fun xs ys hitems => ?_
  have hown := h.akin_getD "items" (.object [])
  revert hown
  generalize (get? "items" c.members).getD (.object []) = own
  generalize (get? "items" c'.members).getD (.object []) = own'
  intro hown
  cases hown.shape with
  | list as bs =>
    -- as many items have a schema of their own
    dsimp only
    rw [(Akin.list_iff.mp hown).length_eq, isObject_eq (h.akin hab)]
    have hdrop := List.forall₂_drop bs.length hitems
    split
    · exact h.foretells_applyToItems hab _ hdrop
    · refine foretells_ensure ?_
      rw [(h.akin hab).truthy_eq, isEmpty_eq hdrop]
  | _ => exact .refl _

end

/-! ### Searches that stop early -/

omit h in
/-- A search that stops at the first finding does not see a failure after it. Here there is none. -/
def Strict (c : Check) : Prop :=
  ∀ a x, (c.apply a x).Settled

theorem isClean (hstrict : Strict c) (hab : s a b) {x y : Value} (hxy : v x y) :
    Forecasts Eq (c.apply a x).isClean (c'.apply b y).isClean := by
  rcases (hstrict a x).cases with ⟨fault, hx⟩ | ⟨r, hr⟩
  · rw [hx]
    rintro _ ⟨⟩
  · rw [Findings.isClean_eq hr, Findings.isClean_eq (h.apply hab hxy r hr)]
    exact .ok rfl

theorem countAccepted (hstrict : Strict c) (hab : s a b) {bound bound' : Value}
    (hbound : Akin bound bound') (hitems : List.Forall₂ v xs ys) (n : Nat) :
    Forecasts Eq (c.countAccepted a bound n xs) (c'.countAccepted b bound' n ys) := by
  induction hitems generalizing n with
  | nil => exact .ok rfl
  | cons hxy _ ih =>
    refine (h.isClean hstrict hab hxy).bind fun accepted _ hsame => ?_
    subst hsame
    cases accepted with
    | false => exact ih n
    | true =>
      rw [hbound.less_eq (.same _), if_pos rfl, if_pos rfl]
      split
      · exact .ok rfl
      · exact ih (n + 1)

theorem foretells_contains (hstrict : Strict c) (hab : s a b) :
    (c.contains a).Foretells (c'.contains b) := by
  refine h.values.foretells_onList h.value fun xs ys hitems => ?_
  have hleast := h.akin_getD "minContains" (.int 1)
  have hmost := h.akin_getD "maxContains" (.int ys.length)
  dsimp only
  rw [h.draft, hitems.length_eq]
  split
  · refine (h.countAccepted hstrict hab hmost hitems 0).foretells fun counted _ hsame => ?_
    subst hsame
    obtain ⟨count, tooMany⟩ := counted
    cases tooMany with
    | true => exact foretells_reportWith
    | false =>
      rw [if_neg Bool.false_ne_true, if_neg Bool.false_ne_true, (Akin.same _).less_eq hleast]
      split
      · split
        · exact foretells_reportWith
        · exact foretells_reportWith
      · exact .refl _
  · refine (h.countAccepted hstrict hab (.same (.int 0)) hitems 0).foretells fun counted _ hsame => ?_
    subst hsame
    rw [Findings.ofExcept_pure, Findings.ofExcept_pure]
    exact foretells_ensure rfl

/-! ### Objects -/

theorem foretells_properties (hab : Named s a b) :
    (c.properties a).Foretells (c'.properties b) := by
  refine h.values.foretells_onObject h.value fun xs ys hmembers => ?_
  refine hab.foretells_each fun name p q hpq => ?_
  rcases get?_cases (h.values.akin hmembers) name with ⟨hx, hy⟩ | ⟨x, y, hx, hy⟩
  · rw [hx, hy]
    exact .refl _
  · rw [hx, hy]
    exact h.applyAt hpq (h.values.member hmembers hx hy) _

theorem foretells_patternProperties (hab : Named s a b) :
    (c.patternProperties a).Foretells (c'.patternProperties b) := by
  refine h.values.foretells_onObject h.value fun xs ys hmembers => ?_
  refine hab.foretells_each fun pattern p q hpq => ?_
  refine (h.values.named hmembers).foretells_each fun name x y hxy => ?_
  split
  · exact h.applyAt hpq hxy _
  · exact .refl _

theorem foretells_propertyNames (hab : s a b) :
    (c.propertyNames a).Foretells (c'.propertyNames b) :=
  h.values.foretells_onObject h.value fun _ _ hmembers =>
    (h.values.named hmembers).foretells_each fun name _ _ _ => h.apply hab (h.texts name)

theorem isAdditional_eq (name : String) : c.isAdditional name = c'.isAdditional name := by
  have hnamed := perm_keys_membersOf (h.akin_getD "properties" .null)
  have hpatterns := perm_keys_membersOf (h.akin_getD "patternProperties" .null)
  have husable := not_congr
    ⟨intercalate_of_perm hpatterns, intercalate_of_perm hpatterns.symm⟩
  unfold Check.isAdditional
  dsimp only
  rw [isNone_get?_of_perm hnamed, hpatterns.any_eq, decide_eq_decide.mpr husable]

theorem foretells_additionalProperties (hab : s a b) :
    (c.additionalProperties a).Foretells (c'.additionalProperties b) := by
  refine h.values.foretells_onObject h.value fun xs ys hmembers => ?_
  rw [isObject_eq (h.akin hab), funext h.isAdditional_eq]
  split
  · exact (h.values.named hmembers).foretells_filter _ fun name x y hxy => h.applyAt hab hxy _
  · refine foretells_ensure ?_
    rw [(h.akin hab).truthy_eq, isEmpty_filter (h.values.akin hmembers).perm_keys]

theorem hasMember_eq {xs ys : List (String × Value)} (hxy : v (.object xs) (.object ys))
    (hab : Akin a b) : Check.hasMember xs a = Check.hasMember ys b := by
  cases hab.shape with
  | text name => exact (h.values.akin hxy).isSome_get? name
  | _ => rfl

theorem foretells_required (hab : s a b) : (c.required a).Foretells (c'.required b) := by
  refine h.values.foretells_onObject h.value fun xs ys hmembers => ?_
  refine h.schemas.foretells_onList hab fun as bs hnames => ?_
  exact .each_forall₂ (hnames.imp fun p q hpq =>
    foretells_ensure (h.hasMember_eq hmembers (h.akin hpq)))

theorem foretells_dependency {xs ys : List (String × Value)} (hxy : v (.object xs) (.object ys))
    (hnames : List.Forall₂ s as bs) (keyword name : String) :
    (c.dependency keyword name xs as).Foretells (c'.dependency keyword name ys bs) :=
  .each_forall₂ (hnames.imp fun _ _ hpq =>
    foretells_ensure (h.hasMember_eq hxy (h.akin hpq)))

theorem foretells_dependencies (keyword : String) (hab : Named s a b) :
    (c.dependencies keyword a).Foretells (c'.dependencies keyword b) := by
  refine h.values.foretells_onObject h.value fun xs ys hmembers => ?_
  refine hab.foretells_each fun name p q hpq => ?_
  have hwhole := h.apply hpq h.value
  rw [← Option.not_isSome, ← Option.not_isSome, (h.values.akin hmembers).isSome_get? name]
  split
  · exact .refl _
  · split
    · exact hwhole
    · cases (h.akin hpq).shape with
      | list as bs => exact h.foretells_dependency hmembers (h.schemas.items hpq) keyword name
      | _ => exact hwhole

/-! ### Combinations -/

theorem foretells_allOf (hab : s a b) : (c.allOf a).Foretells (c'.allOf b) :=
  .each_forall₂ ((h.schemas.forall₂_itemsOf hab).imp fun _ _ hpq => h.apply hpq h.value)

omit h in
/-- The search for a schema that accepts the value ends in the same way. -/
inductive SameEnd (s : Value → Value → Prop) :
    (end₁ end₂ : Except (List Finding) (Value × List Value)) → Prop where
  | none (all all' : List Finding) : SameEnd s (.error all) (.error all')
  | some {x y : Value} {xs ys : List Value} (hrest : List.Forall₂ s xs ys) :
      SameEnd s (.ok (x, xs)) (.ok (y, ys))

theorem firstAccepting (hschemas : List.Forall₂ s as bs) (found found' : List Finding) :
    Forecasts (SameEnd s) (c.firstAccepting as found) (c'.firstAccepting bs found') := by
  induction hschemas generalizing found found' with
  | nil => exact .ok (.none found found')
  | cons hxy hrest ih =>
    refine (Forecasts.complete (h.apply hxy h.value)).bind fun more more' hsame => ?_
    cases more with
    | nil =>
      obtain rfl := List.isEmpty_iff.mp hsame.symm
      exact .ok (.some hrest)
    | cons f fs =>
      cases more' with
      | nil => cases hsame
      | cons g gs => exact ih _ _

theorem foretells_anyOf (hab : s a b) : (c.anyOf a).Foretells (c'.anyOf b) := by
  refine (h.firstAccepting (h.schemas.forall₂_itemsOf hab) [] []).foretells fun _ _ hend => ?_
  cases hend with
  | none => exact foretells_reportWith
  | some => exact .refl _

theorem filterAuxM (hstrict : Strict c) (hschemas : List.Forall₂ s as bs)
    (hlength : xs.length = ys.length) :
    Forecasts (fun us vs => us.length = vs.length)
      (as.filterAuxM (fun schema => (c.apply schema c.value).isClean) xs)
      (bs.filterAuxM (fun schema => (c'.apply schema c'.value).isClean) ys) := by
  induction hschemas generalizing xs ys with
  | nil => exact .ok hlength
  | cons hxy _ ih =>
    refine (h.isClean hstrict hxy h.value).bind fun accepted _ hsame => ?_
    subst hsame
    cases accepted with
    | true => exact ih (congrArg (· + 1) hlength)
    | false => exact ih hlength

theorem foretells_oneOf (hstrict : Strict c) (hab : s a b) :
    (c.oneOf a).Foretells (c'.oneOf b) := by
  refine (h.firstAccepting (h.schemas.forall₂_itemsOf hab) [] []).foretells fun _ _ hend => ?_
  cases hend with
  | none => exact foretells_reportWith
  | some hrest =>
    have hfurther := (h.filterAuxM hstrict hrest (Eq.refl ([] : List Value).length)).bind
      (t := fun us vs => us.isEmpty = vs.isEmpty) (f := (pure ·.reverse)) (g := (pure ·.reverse))
      fun us vs hlength => .ok (by
        rw [List.isEmpty_reverse, List.isEmpty_reverse, Bool.eq_iff_iff,
          List.isEmpty_iff_length_eq_zero, List.isEmpty_iff_length_eq_zero, hlength])
    refine hfurther.foretells fun us vs hempty => ?_
    rw [hempty]
    split
    · exact .refl _
    · exact foretells_reportWith

theorem foretells_not (hstrict : Strict c) (hab : s a b) : (c.not a).Foretells (c'.not b) := by
  refine (h.isClean hstrict hab h.value).foretells fun accepted _ hsame => ?_
  subst hsame
  rw [Findings.ofExcept_pure, Findings.ofExcept_pure]
  exact foretells_ensure rfl

theorem foretells_conditional (hstrict : Strict c) (hab : s a b) :
    (c.conditional a).Foretells (c'.conditional b) := by
  refine (h.isClean hstrict hab h.value).foretells fun accepted _ hsame => ?_
  subst hsame
  have hbranch : (if accepted then "then" else "else") = "then"
      ∨ (if accepted then "then" else "else") = "else" := by
    cases accepted
    · exact .inr rfl
    · exact .inl rfl
  rcases get?_cases h.members (if accepted then "then" else "else") with ⟨hx, hy⟩ | ⟨x, y, hx, hy⟩
  · rw [hx, hy]
    exact .refl _
  · rw [hx, hy]
    exact h.apply (h.branch hbranch hx hy) h.value

/-! ### Dispatch -/

omit h in
/-- The keywords whose value names schemas. -/
def namers : List String :=
  ["properties", "patternProperties", "dependencies", "dependentRequired", "dependentSchemas"]

omit h in
/-- The keywords whose search stops at the first finding. -/
def hasty : List String :=
  ["contains", "if", "not", "oneOf"]

/-- What is asked of the values that one keyword has in related schemas. -/
structure Fits (s : Value → Value → Prop) (c c' : Check) (name : String) (a b : Value) : Prop where
  whole : name ∉ namers → s a b
  named : name ∈ namers → Named s a b
  strict : name ∈ hasty → Strict c
  divisor : name = "multipleOf" → Check.isMultiple c.value a = Check.isMultiple c'.value b
  reference : name = "$ref" ∨ name = "$dynamicRef" → (c.reference a).Foretells (c'.reference b)

omit h in
theorem Fits.sure {name : String} (k : Fits s c c' name a b) (hname : name ∉ namers := by decide) :
    s a b :=
  k.whole hname

-- Keyword by keyword, in the order of the tables.
theorem foretells_entry :
    ∀ e ∈ Check.common ++ Check.sinceSeven ++ Check.untilSeven ++ Check.sinceLatest,
      Fits s c c' e.1 a b → (e.2 c a).Foretells (e.2 c' b) := by
  simp only [Check.common, Check.sinceSeven, Check.untilSeven, Check.sinceLatest, List.cons_append,
    List.nil_append, List.forall_mem_cons]
  exact ⟨fun k => k.reference (.inl rfl), fun k => h.foretells_additionalProperties k.sure,
    fun k => h.foretells_allOf k.sure, fun k => h.foretells_anyOf k.sure,
    fun k => h.foretells_enum k.sure, fun k => h.foretells_format k.sure,
    fun k => h.foretells_items k.sure, fun k => h.foretells_maxItems k.sure,
    fun k => h.foretells_maxLength k.sure, fun k => h.foretells_maxProperties k.sure,
    fun k => h.foretells_maximum k.sure, fun k => h.foretells_minItems k.sure,
    fun k => h.foretells_minLength k.sure, fun k => h.foretells_minProperties k.sure,
    fun k => h.foretells_minimum k.sure, fun k => h.foretells_multipleOf (k.divisor rfl),
    fun k => h.foretells_not (k.strict (by decide)) k.sure,
    fun k => h.foretells_oneOf (k.strict (by decide)) k.sure, fun k => h.foretells_pattern k.sure,
    fun k => h.foretells_patternProperties (k.named (by decide)),
    fun k => h.foretells_properties (k.named (by decide)), fun k => h.foretells_required k.sure,
    fun k => h.foretells_type k.sure, fun k => h.foretells_uniqueItems k.sure,
    fun k => h.foretells_const k.sure, fun k => h.foretells_contains (k.strict (by decide)) k.sure,
    fun k => h.foretells_exclusiveMaximum k.sure, fun k => h.foretells_exclusiveMinimum k.sure,
    fun k => h.foretells_conditional (k.strict (by decide)) k.sure,
    fun k => h.foretells_propertyNames k.sure, fun k => h.foretells_additionalItems k.sure,
    fun k => h.foretells_dependencies _ (k.named (by decide)), fun k => k.reference (.inr rfl),
    fun k => h.foretells_dependencies _ (k.named (by decide)),
    fun k => h.foretells_dependencies _ (k.named (by decide)),
    fun k => h.foretells_prefixItems k.sure, List.forall_mem_nil _⟩

theorem foretells_keyword {name : String} (hfits : Fits s c c' name a b) :
    (c.keyword name a).Foretells (c'.keyword name b) := by
  unfold Check.keyword
  rw [h.draft]
  cases hfind : get? name (Check.table c'.draft) with
  | none => exact .refl _
  | some find => exact Check.of_table h.foretells_entry hfind hfits

end Related

end SheetIntake.Schema
