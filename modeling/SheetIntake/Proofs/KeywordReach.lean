import SheetIntake.Proofs.SchemaChecks

/-!
# How far a search reaches

A keyword applies the schemas inside it to the value itself or to a part of the value, and a part is
nested less deep. So a search needs no more depth than the schemas and the value ask for, and with
that much it finds the same whatever depth is left.
-/

namespace SheetIntake

open Assoc (get?)

namespace Value

/-! ## Nesting -/

mutual

def nesting : Value → Nat
  | .list items => nestingOfItems items + 1
  | .object members => nestingOfMembers members + 1
  | _ => 0

def nestingOfItems : List Value → Nat
  | [] => 0
  | v :: rest => max v.nesting (nestingOfItems rest)

def nestingOfMembers : List (String × Value) → Nat
  | [] => 0
  | (_, v) :: rest => max v.nesting (nestingOfMembers rest)

end

theorem nesting_item_lt {v : Value} {items : List Value} (h : v ∈ items) :
    v.nesting < (Value.list items).nesting := by
  induction items with
  | nil => cases h
  | cons w rest ih =>
    simp only [nesting, nestingOfItems] at ih ⊢
    rcases List.mem_cons.mp h with rfl | h
    · omega
    · have hrest := ih h
      omega

theorem nesting_member_lt {m : String × Value} {members : List (String × Value)}
    (h : m ∈ members) : m.2.nesting < (Value.object members).nesting := by
  induction members with
  | nil => cases h
  | cons w rest ih =>
    simp only [nesting, nestingOfMembers] at ih ⊢
    rcases List.mem_cons.mp h with rfl | h
    · omega
    · have hrest := ih h
      omega

end Value

namespace Schema

/-! ## Schemas inside keywords -/

/-- The schemas that a keyword applies to the value itself. -/
def inPlace (members : List (String × Value)) (name : String) (v : Value) : List Value :=
  if name = "not" then [v]
  else if name = "if" then
    v :: (Assoc.get? "then" members).toList ++ (Assoc.get? "else" members).toList
  else if name ∈ ["allOf", "anyOf", "oneOf"] then itemsOf v
  else if name ∈ ["dependencies", "dependentRequired", "dependentSchemas"] then
    (membersOf v).map Prod.snd
  else []

/-- The schemas that a keyword applies to parts of the value. -/
def inside (name : String) (v : Value) : List Value :=
  if name ∈ ["additionalItems", "additionalProperties", "contains", "propertyNames"] then [v]
  else if name = "items" then v :: itemsOf v
  else if name = "prefixItems" then itemsOf v
  else if name ∈ ["properties", "patternProperties"] then (membersOf v).map Prod.snd
  else []

/-- The keywords that name another schema. -/
def referrers : List String :=
  ["$ref", "$dynamicRef"]

theorem Findings.each_congr {α : Type} {f g : α → Findings} {xs : List α}
    (h : ∀ x ∈ xs, f x = g x) : each f xs = each g xs := by
  induction xs with
  | nil => rfl
  | cons x xs ih =>
    rw [each, each, h x (.head _), ih (fun y hy => h y (.tail x hy))]

theorem onList_congr {v : Value} {f g : List Value → Findings}
    (h : ∀ items, v = .list items → (∀ x ∈ items, x.nesting < v.nesting) → f items = g items) :
    onList v f = onList v g := by
  cases v with
  | list items => exact h items rfl fun _ => Value.nesting_item_lt
  | _ => rfl

theorem onObject_congr {v : Value} {f g : List (String × Value) → Findings}
    (h : ∀ members, 0 < v.nesting → (∀ m ∈ members, m.2.nesting < v.nesting) →
      f members = g members) : onObject v f = onObject v g := by
  cases v with
  | object members =>
    exact h members (by simp [Value.nesting]) fun _ => Value.nesting_member_lt
  | _ => rfl

namespace Check

/-- A check that applies schemas in another way. -/
def applying (c : Check) (apply : Value → Value → Findings)
    (applyReference : String → Value → Findings) : Check :=
  { c with apply, applyReference }

variable {c : Check} {f : Value → Value → Findings} {g : String → Value → Findings}
  {v schema : Value}

@[simp]
theorem apply_applying : (c.applying f g).apply = f := rfl

@[simp]
theorem value_applying : (c.applying f g).value = c.value := rfl

@[simp]
theorem members_applying : (c.applying f g).members = c.members := rfl

theorem applyAt_applying {step : Step} {part : Value} (h : f schema part = c.apply schema part) :
    (c.applying f g).applyAt step schema part = c.applyAt step schema part := by
  unfold applyAt
  split
  · exact h
  · exact congrArg (Findings.under step) h

variable {items : List Value}

theorem applyToItems_applying {start : Nat} (h : ∀ x ∈ items, f schema x = c.apply schema x) :
    (c.applying f g).applyToItems schema start items = c.applyToItems schema start items :=
  Findings.each_congr (fun p hp => applyAt_applying (h p.1 (List.fst_mem_of_mem_zipIdx hp)))

variable {schemas : List Value}

theorem applyInTurn_applying (h : ∀ schema ∈ schemas, ∀ x ∈ items, f schema x = c.apply schema x) :
    (c.applying f g).applyInTurn schemas items = c.applyInTurn schemas items := by
  refine Findings.each_congr (fun p hp => applyAt_applying ?_)
  have hzip := List.fst_mem_of_mem_zipIdx hp
  exact h p.1.1 (List.of_mem_zip hzip).1 p.1.2 (List.of_mem_zip hzip).2

theorem countAccepted_applying {bound : Value} (h : ∀ x ∈ items, f schema x = c.apply schema x)
    (n : Nat) : (c.applying f g).countAccepted schema bound n items
      = c.countAccepted schema bound n items := by
  induction items generalizing n with
  | nil => rfl
  | cons x rest ih =>
    simp only [countAccepted, apply_applying, h x (.head _), ih (fun y hy => h y (.tail x hy))]

theorem firstAccepting_applying (h : ∀ schema ∈ schemas, f schema c.value = c.apply schema c.value)
    (found : List Finding) : (c.applying f g).firstAccepting schemas found
      = c.firstAccepting schemas found := by
  induction schemas generalizing found with
  | nil => rfl
  | cons schema rest ih =>
    have hrest := ih (fun other hother => h other (.tail schema hother))
    simp only [firstAccepting, apply_applying, value_applying, h schema (.head _), hrest]

theorem mem_of_firstAccepting {rest : List Value} {found : List Finding} {first : Value}
    (h : c.firstAccepting schemas found = .ok (.ok (first, rest))) (hschema : schema ∈ rest) :
    schema ∈ schemas := by
  induction schemas generalizing found with
  | nil => cases Except.ok.inj h
  | cons other others ih =>
    obtain ⟨more, -, h⟩ := Outcome.bind_eq_ok.mp h
    cases more with
    | nil =>
      cases h
      exact .tail _ hschema
    | cons f fs => exact .tail _ (ih h)

theorem filterAuxM_applying (h : ∀ schema ∈ schemas, f schema c.value = c.apply schema c.value)
    (kept : List Value) : schemas.filterAuxM (fun schema => (f schema c.value).isClean) kept
      = schemas.filterAuxM (fun schema => (c.apply schema c.value).isClean) kept := by
  induction schemas generalizing kept with
  | nil => rfl
  | cons schema rest ih =>
    have hrest := ih (fun other hother => h other (.tail schema hother))
    simp only [List.filterAuxM, h schema (.head _), hrest]

/-! ## Keywords that apply schemas -/

theorem not_applying (h : f v c.value = c.apply v c.value) : (c.applying f g).not v = c.not v := by
  unfold Check.not
  rw [apply_applying, value_applying, h]
  rfl

theorem conditional_applying (h : ∀ schema ∈ v :: (get? "then" c.members).toList ++
      (get? "else" c.members).toList, f schema c.value = c.apply schema c.value) :
    (c.applying f g).conditional v = c.conditional v := by
  unfold conditional
  rw [apply_applying, value_applying, members_applying, h v (by simp)]
  cases (c.apply v c.value).isClean with
  | error fault => rfl
  | ok accepted =>
    rw [Outcome.ok_bind, Outcome.ok_bind]
    cases hbranch : get? (if accepted then "then" else "else") c.members with
    | none => rfl
    | some schema =>
      -- the branch that is taken is one of the two
      have hschema : f schema c.value = c.apply schema c.value := by
        refine h schema ?_
        cases accepted <;> simp_all
      exact congrArg Findings.ofExcept (congrArg Except.ok hschema)

section

variable (h : ∀ schema ∈ itemsOf v, f schema c.value = c.apply schema c.value)

include h

theorem allOf_applying : (c.applying f g).allOf v = c.allOf v :=
  Findings.each_congr h

theorem anyOf_applying : (c.applying f g).anyOf v = c.anyOf v := by
  unfold anyOf
  rw [firstAccepting_applying h]
  rfl

theorem oneOf_applying : (c.applying f g).oneOf v = c.oneOf v := by
  unfold oneOf
  rw [firstAccepting_applying h]
  cases hfirst : c.firstAccepting (itemsOf v) [] with
  | error fault => rfl
  | ok first =>
    cases first with
    | error found => rfl
    | ok first =>
      -- what comes after the first that accepts is still in the list
      rw [Outcome.ok_bind, Outcome.ok_bind, apply_applying, value_applying]
      dsimp only
      unfold List.filterM
      rw [filterAuxM_applying fun schema hschema => h schema (mem_of_firstAccepting hfirst hschema)]
      rfl

end

theorem dependencies_applying {keyword : String}
    (h : ∀ schema ∈ (membersOf v).map Prod.snd, f schema c.value = c.apply schema c.value) :
    (c.applying f g).dependencies keyword v = c.dependencies keyword v := by
  refine onObject_congr (fun members _ _ => Findings.each_congr (fun p hp => ?_))
  obtain ⟨name, schema⟩ := p
  have hschema := h schema (List.mem_map_of_mem hp)
  cases schema with
  | list needed =>
    rw [apply_applying, value_applying, hschema]
    rfl
  | _ => simp only [apply_applying, value_applying, hschema]

/-- A search agrees with the one of a check on what is nested inside its value. -/
def AgreesInside (c : Check) (f : Value → Value → Findings) (schema : Value) : Prop :=
  ∀ x : Value, x.nesting < c.value.nesting → f schema x = c.apply schema x

theorem prefixItems_applying (h : ∀ schema ∈ itemsOf v, c.AgreesInside f schema) :
    (c.applying f g).prefixItems v = c.prefixItems v := by
  refine onList_congr (fun items _ hitems => onList_congr (fun schemas hschemas _ => ?_))
  refine applyInTurn_applying (fun schema hschema x hx => h schema ?_ x (hitems x hx))
  rw [hschemas]
  exact hschema

theorem items_applying (h : ∀ schema ∈ v :: itemsOf v, c.AgreesInside f schema) :
    (c.applying f g).items v = c.items v := by
  refine onList_congr (fun items _ hitems => ?_)
  have hwhole (rest : List Value) (hrest : ∀ x ∈ rest, x ∈ items) :
      ∀ x ∈ rest, f v x = c.apply v x :=
    fun x hx => h v (.head _) x (hitems x (hrest x hx))
  have hdraft : (c.applying f g).draft = c.draft := rfl
  rw [hdraft]
  split
  · unfold restItems
    have hstart : (c.applying f g).prefixLength = c.prefixLength := rfl
    have hrest := hwhole (items.drop c.prefixLength) (fun x => List.mem_of_mem_drop)
    simp only [hstart, applyToItems_applying hrest]
    rfl
  · cases v with
    | list schemas =>
      exact applyInTurn_applying (fun schema hschema x hx => h schema (.tail _ hschema) x (hitems x hx))
    | _ => exact applyToItems_applying (hwhole items (fun x hx => hx))

theorem additionalItems_applying (h : c.AgreesInside f v) :
    (c.applying f g).additionalItems v = c.additionalItems v := by
  refine onList_congr (fun items _ hitems => ?_)
  rw [members_applying]
  cases (get? "items" c.members).getD (.object []) with
  | list schemas =>
    have hrest : ∀ x ∈ items.drop schemas.length, f v x = c.apply v x :=
      fun x hx => h x (hitems x (List.mem_of_mem_drop hx))
    simp only [applyToItems_applying hrest]
    rfl
  | _ => rfl

theorem contains_applying (h : c.AgreesInside f v) :
    (c.applying f g).contains v = c.contains v := by
  refine onList_congr (fun items _ hitems => ?_)
  have hcount (bound : Value) : (c.applying f g).countAccepted v bound 0 items
      = c.countAccepted v bound 0 items :=
    countAccepted_applying (fun x hx => h x (hitems x hx)) 0
  simp only [hcount]
  rfl

theorem properties_applying (h : ∀ schema ∈ (membersOf v).map Prod.snd, c.AgreesInside f schema) :
    (c.applying f g).properties v = c.properties v := by
  refine onObject_congr (fun members _ hmembers => Findings.each_congr (fun p hp => ?_))
  cases hpart : get? p.1 members with
  | none => rfl
  | some part =>
    exact applyAt_applying (h p.2 (List.mem_map_of_mem hp) part (hmembers _ (Assoc.mem_of_get? hpart)))

theorem patternProperties_applying (h : ∀ schema ∈ (membersOf v).map Prod.snd, c.AgreesInside f schema) :
    (c.applying f g).patternProperties v = c.patternProperties v := by
  refine onObject_congr (fun members _ hmembers => Findings.each_congr (fun p hp =>
    Findings.each_congr (fun m hm => ?_)))
  split
  · exact applyAt_applying (h p.2 (List.mem_map_of_mem hp) m.2 (hmembers m hm))
  · rfl

theorem propertyNames_applying (h : c.AgreesInside f v) :
    (c.applying f g).propertyNames v = c.propertyNames v :=
  onObject_congr (fun _ hpos _ => Findings.each_congr (fun _ _ => h _ hpos))

theorem additionalProperties_applying (h : c.AgreesInside f v) :
    (c.applying f g).additionalProperties v = c.additionalProperties v := by
  refine onObject_congr (fun members _ hmembers => ?_)
  have hothers : Findings.each (fun m => (c.applying f g).applyAt (.name m.1) v m.2)
        (members.filter (c.isAdditional ·.1))
      = Findings.each (fun m => c.applyAt (.name m.1) v m.2)
        (members.filter (c.isAdditional ·.1)) :=
    Findings.each_congr (fun m hm =>
      applyAt_applying (h m.2 (hmembers m (List.mem_of_mem_filter hm))))
  have hadditional : (c.applying f g).isAdditional = c.isAdditional := rfl
  simp only [hadditional, hothers]
  rfl

theorem reference_applying (h : ∀ s, v = .str s → g s c.value = c.applyReference s c.value) :
    (c.applying f g).reference v = c.reference v := by
  cases v with
  | str s => exact h s rfl
  | _ => rfl

/-! ## Dispatch -/

/-- Another check applies the schemas of a keyword in the same way. -/
structure Retains (c : Check) (f : Value → Value → Findings)
    (g : String → Value → Findings) (name : String) (v : Value) : Prop where
  inPlace : ∀ schema ∈ Schema.inPlace c.members name v,
    f schema c.value = c.apply schema c.value
  inside : ∀ schema ∈ Schema.inside name v, ∀ x : Value, x.nesting < c.value.nesting →
    f schema x = c.apply schema x
  reference : name ∈ referrers → ∀ s, v = .str s →
    g s c.value = c.applyReference s c.value

-- Keyword by keyword, in the order of the tables.
theorem entry_applying : ∀ e ∈ common ++ sinceSeven ++ untilSeven ++ sinceLatest,
    c.Retains f g e.1 v → e.2 (c.applying f g) v = e.2 c v := by
  simp only [common, sinceSeven, untilSeven, sinceLatest, List.cons_append, List.nil_append,
    List.forall_mem_cons]
  exact ⟨fun h => reference_applying (h.reference (by decide)),
    fun h => additionalProperties_applying (h.inside v (.head _)),
    fun h => allOf_applying h.inPlace, fun h => anyOf_applying h.inPlace, fun _ => rfl,
    fun _ => rfl, fun h => items_applying h.inside, fun _ => rfl, fun _ => rfl, fun _ => rfl,
    fun _ => rfl, fun _ => rfl, fun _ => rfl, fun _ => rfl, fun _ => rfl, fun _ => rfl,
    fun h => not_applying (h.inPlace v (.head _)), fun h => oneOf_applying h.inPlace,
    fun _ => rfl, fun h => patternProperties_applying h.inside,
    fun h => properties_applying h.inside, fun _ => rfl, fun _ => rfl, fun _ => rfl, fun _ => rfl,
    fun h => contains_applying (h.inside v (.head _)), fun _ => rfl, fun _ => rfl,
    fun h => conditional_applying h.inPlace,
    fun h => propertyNames_applying (h.inside v (.head _)),
    fun h => additionalItems_applying (h.inside v (.head _)),
    fun h => dependencies_applying h.inPlace,
    fun h => reference_applying (h.reference (by decide)),
    fun h => dependencies_applying h.inPlace, fun h => dependencies_applying h.inPlace,
    fun h => prefixItems_applying h.inside,
    List.forall_mem_nil _⟩

/-- A keyword finds the same where the schemas inside it are applied in the same way. -/
theorem keyword_applying {name : String} (h : c.Retains f g name v) :
    (c.applying f g).keyword name v = c.keyword name v := by
  have hdraft : (c.applying f g).draft = c.draft := rfl
  unfold keyword
  rw [hdraft]
  cases hfind : get? name (table c.draft) with
  | none => rfl
  | some find => exact of_table entry_applying hfind h

end Check

/-! ## Depth that is enough -/

/-- Schemas in two scopes for which a depth is known that is enough for every value, up to `step` for
each level of the value. The schemas inside them need less depth; those for parts of the value may
need more, as the value is nested less deep there. -/
structure Settling (step : Nat) (enough : Nat → Scope → Scope → Value → Prop) : Prop where
  pos {k : Nat} {σ σ' : Scope} {a : Value} : enough k σ σ' a → 0 < k
  draft {k : Nat} {σ σ' : Scope} {a : Value} : enough k σ σ' a →
    Draft.ofSchema σ.draft a = Draft.ofSchema σ'.draft a
  inPlace {k : Nat} {σ σ' : Scope} {members : List (String × Value)} {name : String}
      {v schema : Value} :
    enough (k + 1) σ σ' (.object members) → (name, v) ∈ members →
    schema ∈ Schema.inPlace members name v →
    enough k (σ.within (.object members)) (σ'.within (.object members)) schema
  inside {k : Nat} {σ σ' : Scope} {members : List (String × Value)} {name : String}
      {v schema : Value} :
    enough (k + 1) σ σ' (.object members) → (name, v) ∈ members →
    schema ∈ Schema.inside name v →
    enough (k + step) (σ.within (.object members)) (σ'.within (.object members)) schema
  reference {k : Nat} {σ σ' : Scope} {members : List (String × Value)} {name address : String} :
    enough (k + 1) σ σ' (.object members) → (name, .str address) ∈ members → name ∈ referrers →
    (∃ fault, resolve (σ.within (.object members)) address = .error fault
        ∧ resolve (σ'.within (.object members)) address = .error fault)
      ∨ ∃ τ τ' schema, resolve (σ.within (.object members)) address = .ok (τ, schema)
        ∧ resolve (σ'.within (.object members)) address = .ok (τ', schema) ∧ enough k τ τ' schema

theorem draft_within (σ : Scope) (a : Value) : (σ.within a).draft = Draft.ofSchema σ.draft a := by
  unfold Scope.within Scope.enter
  split <;> rfl

section

variable {step : Nat} {enough : Nat → Scope → Scope → Value → Prop}
  (hsettling : Settling step enough) (formats : Bool) {k n : Nat} {σ σ' : Scope} {x : Value}
  {apply apply' : Scope → Value → Value → Findings}
  (happly : ∀ {k : Nat} {τ τ' : Scope} {b y : Value}, enough k τ τ' b →
    k + step * y.nesting ≤ n → apply' τ' b y = apply τ b y)

include hsettling happly

theorem retains_of_settling {members : List (String × Value)} {name : String} {v : Value}
    (h : enough (k + 1) σ σ' (.object members)) (hn : k + step * x.nesting ≤ n)
    (hv : (name, v) ∈ members) :
    (checkIn apply formats (σ.within (.object members)) members x).Retains
      (apply' (σ'.within (.object members)))
      (checkIn apply' formats (σ'.within (.object members)) members x).applyReference name v where
  inPlace schema hschema := happly (hsettling.inPlace h hv hschema) hn
  inside schema hschema y hy := by
    -- a level of the value is left behind, which pays for the deeper schema
    refine happly (hsettling.inside h hv hschema) ?_
    have hlevel : step * (y.nesting + 1) ≤ step * x.nesting := Nat.mul_le_mul_left step hy
    rw [Nat.mul_succ] at hlevel
    omega
  reference hname s hs := by
    subst hs
    rcases hsettling.reference h hv hname with
      ⟨fault, hleft, hright⟩ | ⟨τ, τ', schema, hleft, hright, hplace⟩
    · simp only [checkIn, hleft, hright]
    · simp only [checkIn, hleft, hright]
      exact happly hplace hn

theorem findingsBy_eq_of_settling {a : Value} (h : enough (k + 1) σ σ' a)
    (hn : k + step * x.nesting ≤ n) :
    findingsBy apply' formats σ' a x = findingsBy apply formats σ a x := by
  have hdraft := hsettling.draft h
  cases a with
  | bool b => cases b <;> rfl
  | object members =>
    -- the two checks differ only in how they apply schemas
    rw [← draft_within, ← draft_within] at hdraft
    have hcheck : checkIn apply' formats (σ'.within (.object members)) members x
        = (checkIn apply formats (σ.within (.object members)) members x).applying
            (apply' (σ'.within (.object members)))
            (checkIn apply' formats (σ'.within (.object members)) members x).applyReference := by
      unfold checkIn Check.applying
      rw [hdraft]
    unfold findingsBy
    dsimp only
    rw [hdraft, hcheck]
    refine Findings.each_congr (fun m hm => Check.keyword_applying ?_)
    exact retains_of_settling hsettling formats happly h hn (mem_of_mem_applicable hm)
  | str s | list items =>
    have hsame : σ.draft = σ'.draft := hdraft
    unfold findingsBy
    rw [hsame]
  | _ => rfl

end

/-- A search finds the same at every depth that is enough. -/
theorem findings_eq_of_settling {step : Nat} {enough : Nat → Scope → Scope → Value → Prop}
    (hsettling : Settling step enough) (formats : Bool) {k n m : Nat} {σ σ' : Scope} {a x : Value}
    (h : enough k σ σ' a) (hn : k + step * x.nesting ≤ n) (hm : k + step * x.nesting ≤ m) :
    findings formats m σ' a x = findings formats n σ a x := by
  have hpos := hsettling.pos h
  induction n generalizing k m σ σ' a x with
  | zero => omega
  | succ n ih =>
    obtain ⟨m, rfl⟩ : ∃ l, m = l + 1 := ⟨m - 1, by omega⟩
    obtain ⟨k, rfl⟩ : ∃ l, k = l + 1 := ⟨k - 1, by omega⟩
    -- the induction is on one depth, but the schemas inside are looked at with both
    have hleast : k + step * x.nesting ≤ min n m := by omega
    refine findingsBy_eq_of_settling hsettling formats ?_ h hleast
    intro k τ τ' b y hplace hdepth
    exact ih hplace (by omega) (by omega) (hsettling.pos hplace)

end Schema

end SheetIntake
