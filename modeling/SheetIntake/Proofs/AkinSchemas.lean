import SheetIntake.Proofs.KeywordVerdicts

/-!
# Validation under akin schemas

A value is looked at in the same way under two schemas that are akin: the same keywords see related
schemas, and references lead to related parts. Only two things tell akin schemas apart. An anchor
that two parts have names the first of them, and a search that stops at the first finding does not
see a failure after it. So anchors have to be apart, and the check must not fail anywhere.
-/

namespace SheetIntake.Schema

open Value

/-! ## Texts in akin values -/

section

variable {a b : Value} (h : Akin a b)

include h

theorem akin_get?_cases (name : String) : (a.get? name = none ∧ b.get? name = none)
      ∨ ∃ x y, a.get? name = some x ∧ b.get? name = some y ∧ Akin x y := by
  cases h.shape with
  | object xs ys =>
    rcases get?_cases h name with hnone | ⟨x, y, hx, hy⟩
    · exact .inl hnone
    · exact .inr ⟨x, y, hx, hy, h.member hx hy⟩
  | _ => exact .inl ⟨rfl, rfl⟩

theorem isSome_get?_eq (name : String) :
    (a.get? name).isSome = (b.get? name).isSome := by
  rcases akin_get?_cases h name with ⟨ha, hb⟩ | ⟨x, y, ha, hb, -⟩
  · rw [ha, hb]
  · rw [ha, hb]
    rfl

theorem get?_eq_text_iff (name text : String) :
    a.get? name = some (.str text) ↔ b.get? name = some (.str text) := by
  rcases akin_get?_cases h name with ⟨ha, hb⟩ | ⟨x, y, ha, hb, hxy⟩
  · rw [ha, hb]
  · rw [ha, hb, Option.some.injEq, Option.some.injEq, hxy.eq_str_iff]

theorem ofSchema_eq (default : Draft) :
    Draft.ofSchema default a = Draft.ofSchema default b := by
  unfold Draft.ofSchema
  rcases akin_get?_cases h "$schema" with ⟨ha, hb⟩ | ⟨x, y, ha, hb, hxy⟩
  · rw [ha, hb]
  · rw [ha, hb]
    cases hxy.shape with
    | _ => rfl

theorem ownAddress?_eq (draft : Draft) :
    Scope.ownAddress? draft a = Scope.ownAddress? draft b := by
  unfold Scope.ownAddress?
  rw [isSome_get?_eq h]
  split
  · rfl
  · rcases akin_get?_cases h draft.idKeyword with ⟨ha, hb⟩ | ⟨x, y, ha, hb, hxy⟩
    · rw [ha, hb]
    · rw [ha, hb]
      cases hxy.shape with
      | _ => rfl

end

theorem hasAnchor_eq {xs ys : List (String × Value)} (h : Akin (.object xs) (.object ys))
    (draft : Draft) (name : String) : hasAnchor draft name xs = hasAnchor draft name ys := by
  have htext (member text : String) :
      decide (Assoc.get? member xs = some (.str text)) =
        decide (Assoc.get? member ys = some (.str text)) :=
    decide_eq_decide.mpr (get?_eq_text_iff h member text)
  cases draft with
  | latest =>
    unfold hasAnchor
    rw [htext, htext]
  | _ => exact htext _ _

/-! ## Anchors -/

/-- A part of a value that has an anchor. -/
inductive Anchored (draft : Draft) (name : String) (part : Value) : Value → Prop where
  | here {members : List (String × Value)} (hpart : part = .object members)
      (h : hasAnchor draft name members = true) : Anchored draft name part (.object members)
  | item {items : List Value} {v : Value} (hmem : v ∈ items) (h : Anchored draft name part v) :
      Anchored draft name part (.list items)
  | member {members : List (String × Value)} {key : String} {v : Value}
      (hmem : (key, v) ∈ members) (h : Anchored draft name part v) :
      Anchored draft name part (.object members)

section

variable {draft : Draft} {name : String}

theorem findAnchorInItems?_eq (items : List Value) :
    findAnchorInItems? draft name items = items.findSome? (findAnchor? draft name) := by
  induction items with
  | nil => rfl
  | cons v rest ih =>
    rw [findAnchorInItems?, List.findSome?_cons, ih]
    cases findAnchor? draft name v <;> rfl

theorem findAnchorInMembers?_eq (members : List (String × Value)) :
    findAnchorInMembers? draft name members =
      members.findSome? (findAnchor? draft name ·.2) := by
  induction members with
  | nil => rfl
  | cons m rest ih =>
    rw [findAnchorInMembers?, List.findSome?_cons, ih]
    cases findAnchor? draft name m.2 <;> rfl

theorem anchored_of_findAnchor? {v part : Value} (h : findAnchor? draft name v = some part) :
    Anchored draft name part v := by
  induction v using treeInduction with
  | list items ih =>
    rw [findAnchor?, findAnchorInItems?_eq] at h
    obtain ⟨w, hw, hfound⟩ := List.exists_of_findSome?_eq_some h
    exact .item hw (ih w hw hfound)
  | object members ih =>
    rw [findAnchor?, findAnchorInMembers?_eq] at h
    split at h
    · next hhas => exact .here (Option.some.inj h).symm hhas
    · obtain ⟨m, hm, hfound⟩ := List.exists_of_findSome?_eq_some h
      exact .member hm (ih m hm hfound)
  | _ => cases h

theorem not_anchored {v part : Value} (hnone : findAnchor? draft name v = none) :
    ¬Anchored draft name part v := by
  intro h
  induction h with
  | here _ hhas =>
    rw [findAnchor?, if_pos hhas] at hnone
    cases hnone
  | item hmem _ ih =>
    rw [findAnchor?, findAnchorInItems?_eq, List.findSome?_eq_none_iff] at hnone
    exact ih (hnone _ hmem)
  | member hmem _ ih =>
    rw [findAnchor?, findAnchorInMembers?_eq] at hnone
    split at hnone
    · cases hnone
    · exact ih (List.findSome?_eq_none_iff.mp hnone _ hmem)

end

theorem Anchored.exists_akin {draft : Draft} {name : String} {part a b : Value}
    (h : Anchored draft name part a) (hab : Akin a b) :
    ∃ part', Anchored draft name part' b ∧ Akin part part' := by
  induction h generalizing b with
  | @here members hpart hhas =>
    cases hab.shape with
    | object xs ys => exact ⟨_, .here rfl (hasAnchor_eq hab draft name ▸ hhas), hpart ▸ hab⟩
  | @item items v hmem _ ih =>
    cases hab.shape with
    | list xs ys =>
      obtain ⟨i, hi⟩ := List.getElem?_of_mem hmem
      obtain ⟨hlength, hitems⟩ := forall₂_iff_getElem?.mp (Akin.list_iff.mp hab)
      obtain ⟨w, hw⟩ := Akin.exists_getElem? hlength.symm hi
      obtain ⟨part', hpart', hakin⟩ := ih (hitems i v w hi hw)
      exact ⟨part', .item (List.mem_of_getElem? hw) hpart', hakin⟩
  | @member members key v hmem _ ih =>
    cases hab.shape with
    | object xs ys =>
      obtain ⟨w, hw, hvw, -⟩ := hab.exists_mem hmem
      obtain ⟨part', hpart', hakin⟩ := ih hvw
      exact ⟨part', .member hw hpart', hakin⟩

theorem Anchored.trans {draft draft' : Draft} {name name' : String} {part part' v : Value}
    (h : Anchored draft name part v) (h' : Anchored draft' name' part' part) :
    Anchored draft' name' part' v := by
  induction h with
  | here hpart => exact hpart ▸ h'
  | item hmem _ ih => exact .item hmem ih
  | member hmem _ ih => exact .member hmem ih

/-- No two parts of a schema have the same anchor. -/
def AnchorsApart (v : Value) : Prop :=
  ∀ draft name u w, Anchored draft name u v → Anchored draft name w v → u = w

theorem AnchorsApart.part {v w : Value} (h : AnchorsApart v)
    (hpart : ∀ {draft name u}, Anchored draft name u w → Anchored draft name u v) :
    AnchorsApart w :=
  fun draft name u u' hu hu' => h draft name u u' (hpart hu) (hpart hu')

/-! ## Twins -/

/-- Schemas that are the same, or akin and without an anchor that names two parts. -/
def Twin (a b : Value) : Prop :=
  a = b ∨ Akin a b ∧ AnchorsApart a

namespace Twin

variable {a b : Value}

theorem akin (h : Twin a b) : Akin a b := by
  rcases h with rfl | ⟨hakin, -⟩
  · exact .same a
  · exact hakin

theorem items {xs ys : List Value} (h : Twin (.list xs) (.list ys)) : List.Forall₂ Twin xs ys := by
  rcases h with h | ⟨hakin, hapart⟩
  · exact Value.list.inj h ▸ List.forall₂_same.mpr fun x _ => Or.inl rfl
  · rw [Akin.list_iff, forall₂_iff_getElem?] at hakin
    exact forall₂_iff_getElem?.mpr ⟨hakin.1, fun i x y hx hy =>
      .inr ⟨hakin.2 i x y hx hy, hapart.part (.item (List.mem_of_getElem? hx))⟩⟩

section

variable {xs ys : List (String × Value)} {name : String} {x y : Value}

theorem isMultiple_eq (hxy : Akin x y) (hdivisor : x.amount?.isSome → x = y) (v : Value) :
    Check.isMultiple v x = Check.isMultiple v y := by
  cases hxy with
  | same => rfl
  | number h =>
    obtain ⟨amount, hx, -⟩ := sameNumber_iff.mp h
    rw [hdivisor (by rw [hx]; rfl)]
  | list | object => cases v <;> rfl

variable (h : Twin (.object xs) (.object ys))

include h

theorem of_mem (hx : (name, x) ∈ xs) (hxy : Akin x y) :
    Twin x y ∨ xs = ys := by
  rcases h with h | ⟨-, hapart⟩
  · exact .inr (Value.object.inj h)
  · exact .inl (.inr ⟨hxy, hapart.part (.member hx)⟩)

theorem member (hx : Assoc.get? name xs = some x)
    (hy : Assoc.get? name ys = some y) : Twin x y := by
  rcases h.of_mem (Assoc.mem_of_get? hx) (h.akin.member hx hy) with htwin | rfl
  · exact htwin
  · exact .inl (Option.some.inj (hx.symm.trans hy))

theorem exists_right (hx : (name, x) ∈ xs) :
    ∃ y, (name, y) ∈ ys ∧ Twin x y
      ∧ (name = "multipleOf" → ∀ v, Check.isMultiple v x = Check.isMultiple v y) := by
  obtain ⟨y, hy, hxy, hdivisor⟩ := h.akin.exists_mem hx
  rcases h.of_mem hx hxy with htwin | rfl
  · exact ⟨y, hy, htwin, fun hname => isMultiple_eq hxy (hdivisor hname)⟩
  · exact ⟨x, hx, .inl rfl, fun _ _ => rfl⟩

theorem exists_left (hy : (name, y) ∈ ys) :
    ∃ x, (name, x) ∈ xs ∧ Twin x y
      ∧ (name = "multipleOf" → ∀ v, Check.isMultiple v x = Check.isMultiple v y) := by
  obtain ⟨x, hx, hyx, hdivisor⟩ := h.akin.symm.exists_mem hy
  rcases h.of_mem hx hyx.symm with htwin | rfl
  · exact ⟨x, hx, htwin, fun hname v => (isMultiple_eq hyx (hdivisor hname) v).symm⟩
  · exact ⟨y, hy, .inl rfl, fun _ _ => rfl⟩

end

theorem named (h : Twin a b) : Named Twin a b := by
  refine named_of_members h.akin (fun xs ys name x hxs hys hx => ?_)
    fun xs ys name y hxs hys hy => ?_
  · subst hxs hys
    obtain ⟨y, hy, hxy, -⟩ := h.exists_right hx
    exact ⟨y, hy, hxy⟩
  · subst hxs hys
    obtain ⟨x, hx, hxy, -⟩ := h.exists_left hy
    exact ⟨x, hx, hxy⟩

theorem parts : Parts Twin where
  akin := akin
  items := items
  member := member
  named := named

theorem findAnchor? (h : Twin a b) {draft : Draft} {name : String} {u : Value}
    (hu : findAnchor? draft name a = some u) :
    ∃ w, Schema.findAnchor? draft name b = some w ∧ Twin u w := by
  rcases h with rfl | ⟨hakin, hapart⟩
  · exact ⟨u, hu, .inl rfl⟩
  · have hanchored := anchored_of_findAnchor? hu
    cases hw : Schema.findAnchor? draft name b with
    | none =>
      obtain ⟨w, hw', -⟩ := hanchored.exists_akin hakin
      exact absurd hw' (not_anchored hw)
    | some w =>
      -- the part found there is akin to a part here that has the anchor, and there is one only
      obtain ⟨u', hu', hakin'⟩ := (anchored_of_findAnchor? hw).exists_akin hakin.symm
      obtain rfl := hapart draft name u u' hanchored hu'
      exact ⟨w, rfl, .inr ⟨hakin'.symm, hapart.part hanchored.trans⟩⟩

end Twin

/-! ## References -/

variable {r : Value → Value → Prop}

theorem follow_eq_ok (hr : Parts r) {segments : List String}
    {a b u : Value} (hab : r a b) (hu : follow segments a = .ok (some u)) :
    ∃ w, follow segments b = .ok (some w) ∧ r u w := by
  induction segments generalizing a b with
  | nil =>
    rw [follow, Except.ok.injEq, Option.some.injEq] at hu
    exact ⟨b, by rw [follow], hu ▸ hab⟩
  | cons segment rest ih =>
    cases a with
    | object xs =>
      obtain ⟨ys, rfl⟩ : ∃ ys, b = .object ys := by
        cases (hr.akin hab).shape with
        | object _ ys => exact ⟨ys, rfl⟩
      rw [follow] at hu ⊢
      rcases get?_cases (hr.akin hab) (unescapedSegment segment) with ⟨hx, -⟩ | ⟨x, y, hx, hy⟩
      · rw [hx] at hu
        cases hu
      · rw [hx] at hu
        rw [hy]
        exact ih (hr.member hab hx hy) hu
    | list xs =>
      obtain ⟨ys, rfl⟩ : ∃ ys, b = .list ys := by
        cases (hr.akin hab).shape with
        | list _ ys => exact ⟨ys, rfl⟩
      obtain ⟨hlength, hitems⟩ := forall₂_iff_getElem?.mp (hr.items hab)
      rw [follow] at hu ⊢
      cases hn : Decimal.readInt? segment with
      | none =>
        rw [hn] at hu
        cases hu
      | some n =>
        rw [hn] at hu
        dsimp only at hu ⊢
        rw [hlength] at hu
        -- a position may be counted from the end
        generalize (if n < 0 then n + (ys.length : Int) else n) = i at hu ⊢
        split at hu
        · cases hu
        · next hpos =>
          rw [if_neg hpos]
          cases hx : xs[i.toNat]? with
          | none =>
            rw [hx] at hu
            cases hu
          | some x =>
            rw [hx] at hu
            obtain ⟨y, hy⟩ := Akin.exists_getElem? hlength.symm hx
            rw [hy]
            exact ih (hitems _ x y hx hy) hu
    | _ => cases hu

theorem resolvePointer_eq_ok (hr : Parts r) {pointer : String}
    {a b u : Value} (hab : r a b) (hu : resolvePointer a pointer = .ok u) :
    ∃ w, resolvePointer b pointer = .ok w ∧ r u w := by
  unfold resolvePointer at hu ⊢
  dsimp only at hu ⊢
  obtain ⟨found, hfound, hu⟩ := Outcome.bind_eq_ok.mp hu
  cases found with
  | none => cases hu
  | some found =>
    cases hu
    obtain ⟨w, hw, huw⟩ := follow_eq_ok hr hab hfound
    exact ⟨w, by rw [hw]; rfl, huw⟩

/-- Scopes in which references lead to related parts. -/
structure Aligned (σ σ' : Scope) : Prop where
  draft : σ.draft = σ'.draft
  base : σ.base = σ'.base
  root : Twin σ.root σ'.root
  outermost : Twin σ.outermost σ'.outermost

namespace Aligned

variable {σ σ' τ : Scope} {a b : Value}

theorem start (hab : Twin a b) (draft : Draft) :
    Aligned (Scope.start draft a) (Scope.start draft b) :=
  ⟨rfl, by rw [Scope.start, Scope.start, ownAddress?_eq hab.akin], hab, hab⟩

variable (h : Aligned σ σ')

include h

theorem enter (hab : Twin a b) : Aligned (σ.enter a) (σ'.enter b) := by
  unfold Scope.enter
  rw [h.draft, ownAddress?_eq hab.akin]
  split
  · exact ⟨rfl, by rw [h.base], hab, h.outermost⟩
  · exact h

theorem within (hab : Twin a b) : Aligned (σ.within a) (σ'.within b) := by
  refine enter ⟨?_, h.base, h.root, h.outermost⟩ hab
  rw [h.draft, ofSchema_eq hab.akin]

theorem resolveDocument {reference address : String}
    (hτ : resolveDocument σ reference address = .ok τ) :
    ∃ τ', Schema.resolveDocument σ' reference address = .ok τ' ∧ Aligned τ τ' := by
  unfold Schema.resolveDocument at hτ ⊢
  rw [h.base] at hτ
  by_cases hempty : address = ""
  · rw [if_pos hempty] at hτ ⊢
    cases hτ
    exact ⟨σ', rfl, h⟩
  · rw [if_neg hempty] at hτ ⊢
    dsimp only at hτ ⊢
    by_cases hbase : Draft.withoutFragment σ'.base = Scope.join σ'.base address
    · rw [if_pos hbase] at hτ ⊢
      cases hτ
      exact ⟨σ', rfl, h⟩
    · rw [if_neg hbase] at hτ ⊢
      cases hdocument : Assoc.get? (Scope.join σ'.base address) Metaschema.documents with
      | none =>
        rw [hdocument] at hτ
        cases hτ
      | some document =>
        rw [hdocument] at hτ
        cases hτ
        exact ⟨_, rfl, h.draft, rfl, .inl rfl, h.outermost⟩

theorem resolveAnchor {name : String} {u : Value}
    (hu : resolveAnchor σ name = .ok (τ, u)) :
    ∃ τ' w, Schema.resolveAnchor σ' name = .ok (τ', w) ∧ Aligned τ τ' ∧ Twin u w := by
  unfold Schema.resolveAnchor at hu ⊢
  cases hfound : findAnchor? σ.draft name σ.root with
  | none =>
    rw [hfound] at hu
    dsimp only at hu
    split at hu <;> cases hu
  | some found =>
    obtain ⟨found', hfound', htwin⟩ := h.root.findAnchor? hfound
    rw [h.draft] at hfound'
    have hdynamic {v v' : Value} (htwin : Twin v v') :
        decide (v.get? "$dynamicAnchor" = some (.str name)) =
          decide (v'.get? "$dynamicAnchor" = some (.str name)) :=
      decide_eq_decide.mpr (get?_eq_text_iff htwin.akin _ _)
    rw [hfound] at hu
    rw [hfound']
    dsimp only at hu ⊢
    split at hu
    · next hboth =>
      rw [hdynamic htwin, hdynamic h.outermost] at hboth
      rw [if_pos hboth]
      cases hu
      exact ⟨_, _, rfl, enter ⟨h.draft, h.base, h.outermost, h.outermost⟩ h.outermost, h.outermost⟩
    · next hboth =>
      rw [hdynamic htwin, hdynamic h.outermost] at hboth
      rw [if_neg hboth]
      cases hu
      exact ⟨σ', found', rfl, h, htwin⟩

/-- A reference leads to related schemas in related scopes. -/
theorem resolve {reference : String} {u : Value}
    (hu : resolve σ reference = .ok (τ, u)) :
    ∃ τ' w, Schema.resolve σ' reference = .ok (τ', w) ∧ Aligned τ τ' ∧ Twin u w := by
  unfold Schema.resolve at hu ⊢
  generalize Scope.splitFragment reference = parts at hu ⊢
  obtain ⟨address, fragment⟩ := parts
  dsimp only at hu ⊢
  obtain ⟨ρ, hρ, hu⟩ := Outcome.bind_eq_ok.mp hu
  obtain ⟨ρ', hρ', hρρ'⟩ := h.resolveDocument hρ
  rw [hρ', Outcome.ok_bind]
  by_cases hwhole : fragment = ""
  · rw [if_pos hwhole] at hu ⊢
    cases hu
    exact ⟨ρ', ρ'.root, rfl, hρρ', hρρ'.root⟩
  · rw [if_neg hwhole] at hu ⊢
    by_cases hpointer : Text.startsWith fragment "/"
    · rw [if_pos hpointer] at hu ⊢
      obtain ⟨v, hv, hu⟩ := Outcome.bind_eq_ok.mp hu
      cases hu
      obtain ⟨w, hw, htwin⟩ := resolvePointer_eq_ok Twin.parts hρρ'.root hv
      exact ⟨ρ', w, by rw [hw]; rfl, hρρ', htwin⟩
    · rw [if_neg hpointer] at hu ⊢
      exact hρρ'.resolveAnchor hu

end Aligned

/-! ## The search -/

namespace Findings

/-- A search with nothing found before it fails. -/
def settle (fs : Findings) : Findings :=
  match fs.fault with
  | some fault => failed fault
  | none => fs

theorem settled_settle (fs : Findings) : fs.settle.Settled := by
  obtain ⟨found, _ | fault⟩ := fs
  · exact fun h => nomatch h
  · exact fun _ => rfl

theorem verdict_settle (fs : Findings) : fs.settle.verdict = fs.verdict := by
  obtain ⟨found, _ | fault⟩ := fs <;> rfl

end Findings

open Findings (Foretells)

section

variable {apply apply' : Scope → Value → Value → Findings} {formats : Bool} {σ σ' : Scope}
  {s v : Value → Value → Prop}

theorem foretells_each_keyword {c c' : Check} (h : Related s v c c') {xs ys : List (String × Value)}
    (hleft : ∀ name a, (name, a) ∈ xs → ∃ b, (name, b) ∈ ys ∧ Related.Fits s c c' name a b)
    (hright : ∀ name b, (name, b) ∈ ys → ∃ a, (name, a) ∈ xs ∧ Related.Fits s c c' name a b) :
    (Findings.each (fun m => c.keyword m.1 m.2) xs).Foretells
      (Findings.each (fun m => c'.keyword m.1 m.2) ys) := by
  refine .each (fun p hp => ?_) (fun q hq => ?_)
  · obtain ⟨b, hb, hfits⟩ := hleft p.1 p.2 hp
    exact ⟨_, hb, h.foretells_keyword hfits⟩
  · obtain ⟨a, ha, hfits⟩ := hright q.1 q.2 hq
    exact ⟨_, ha, h.foretells_keyword hfits⟩

/-- One step of the search: akin schemas that are no objects say the same, and of objects the
keywords count. -/
theorem foretells_findingsBy {a b x y : Value} (hab : Akin a b)
    (hobject : ∀ xs ys, a = .object xs → b = .object ys →
      (Findings.each (fun m => (checkIn apply formats (σ.within a) xs x).keyword m.1 m.2)
          (applicable (σ.within a).draft xs)).Foretells
        (Findings.each (fun m => (checkIn apply' formats (σ'.within b) ys y).keyword m.1 m.2)
          (applicable (σ'.within b).draft ys))) :
    (findingsBy apply formats σ a x).Foretells (findingsBy apply' formats σ' b y) := by
  cases hab.shape with
  | bool accept =>
    cases accept with
    | true => exact .refl _
    | false => exact .of_eq ((Findings.verdict_one _).trans (Findings.verdict_one _).symm)
  | object xs ys => exact hobject xs ys rfl rfl
  | _ => exact .of_none rfl

end

theorem Twin.applicable {xs ys : List (String × Value)} (h : Twin (.object xs) (.object ys))
    (draft : Draft) : (applicable draft xs = xs ∧ Schema.applicable draft ys = ys)
      ∨ ∃ p q, Schema.applicable draft xs = [("$ref", p)]
        ∧ Schema.applicable draft ys = [("$ref", q)] ∧ Twin p q := by
  unfold Schema.applicable
  split
  · rcases get?_cases h.akin "$ref" with ⟨hx, hy⟩ | ⟨p, q, hx, hy⟩
    · rw [hx, hy]
      exact .inl ⟨rfl, rfl⟩
    · have hpq := h.member hx hy
      rw [hx, hy]
      cases hpq.akin.shape with
      | null => exact .inl ⟨rfl, rfl⟩
      | _ => exact .inr ⟨_, _, rfl, rfl, hpq⟩
  · exact .inl ⟨rfl, rfl⟩

section

-- schemas are applied with no failure after a finding on the one side, and as foretold on the other
variable {apply apply' : Scope → Value → Value → Findings} (formats : Bool)
  (hsettled : ∀ τ p w, (apply τ p w).Settled)
  (happly : ∀ {τ τ' : Scope} {p q : Value} (w : Value), Aligned τ τ' → Twin p q →
    (apply τ p w).Foretells (apply' τ' q w))
  {τ τ' : Scope} {xs ys : List (String × Value)} (v : Value)

include happly

theorem related_checkIn (hscope : Aligned τ τ') (hmembers : Twin (.object xs) (.object ys)) :
    Related Twin Eq (checkIn apply formats τ xs v) (checkIn apply' formats τ' ys v) where
  schemas := Twin.parts.toListed
  values := parts_eq
  texts _ := rfl
  draft := hscope.draft
  formats := rfl
  members := hmembers.akin
  branch _ hx hy := hmembers.member hx hy
  value := rfl
  types name := congrArg (isType · v name) hscope.draft
  apply hpq hxy := hxy ▸ happly _ hscope hpq

theorem foretells_reference (hscope : Aligned τ τ') {p q : Value} (hpq : Twin p q) :
    ((checkIn apply formats τ xs v).reference p).Foretells
      ((checkIn apply' formats τ' ys v).reference q) := by
  refine foretells_onText hpq.akin fun address => ?_
  unfold checkIn
  dsimp only
  cases htarget : resolve τ address with
  | error fault => exact .of_none rfl
  | ok target =>
    obtain ⟨ρ, w, hw, hρ, htwin⟩ := hscope.resolve htarget
    rw [hw]
    exact happly v hρ htwin

include hsettled

theorem fits_checkIn (hscope : Aligned τ τ') {name : String} {p q : Value} (hpq : Twin p q)
    (hdivisor : name = "multipleOf" → ∀ v, Check.isMultiple v p = Check.isMultiple v q) :
    Related.Fits Twin (checkIn apply formats τ xs v) (checkIn apply' formats τ' ys v) name p q where
  whole _ := hpq
  named _ := hpq.named
  strict _ _ _ := hsettled _ _ _
  divisor hname := hdivisor hname v
  reference _ := foretells_reference formats happly v hscope hpq

theorem foretells_findingsBy_twin {σ σ' : Scope} {a b : Value} (hscope : Aligned σ σ')
    (hab : Twin a b) :
    (findingsBy apply formats σ a v).Foretells (findingsBy apply' formats σ' b v) := by
  refine foretells_findingsBy hab.akin fun xs ys hxs hys => ?_
  have hinner := hscope.within hab
  subst hxs hys
  have hrelated := related_checkIn formats happly v hinner hab
  rw [← hinner.draft]
  rcases hab.applicable (σ.within (.object xs)).draft with ⟨hx, hy⟩ | ⟨p, q, hx, hy, hpq⟩
  · rw [hx, hy]
    refine foretells_each_keyword hrelated (fun name p hp => ?_) (fun name q hq => ?_)
    · obtain ⟨q, hq, hpq, hdivisor⟩ := hab.exists_right hp
      exact ⟨q, hq, fits_checkIn formats hsettled happly v hinner hpq hdivisor⟩
    · obtain ⟨p, hp, hpq, hdivisor⟩ := hab.exists_left hq
      exact ⟨p, hp, fits_checkIn formats hsettled happly v hinner hpq hdivisor⟩
  · rw [hx, hy]
    -- a reference is looked at alone
    have hfits : Related.Fits Twin (checkIn apply formats (σ.within (.object xs)) xs v)
        (checkIn apply' formats (σ'.within (.object ys)) ys v) "$ref" p q :=
      fits_checkIn formats hsettled happly v hinner hpq fun hname => absurd hname (by decide)
    refine foretells_each_keyword hrelated (fun name u hu => ?_) (fun name u hu => ?_)
    all_goals
      cases List.mem_singleton.mp hu
      exact ⟨_, List.mem_singleton_self _, hfits⟩

end

/-- What is found about a value under a schema, where a failure inside is a failure of the whole,
also where a finding comes before it. -/
def strictFindings (formats : Bool) : Nat → Scope → Value → Value → Findings
  | 0, _, _, _ => .failed .endlessRecursion
  | depth + 1, scope, schema, value =>
    findingsBy (fun scope schema value => (strictFindings formats depth scope schema value).settle)
      formats scope schema value

/-- What the strict search says of a value under a schema, the search says under every twin. -/
theorem foretells_findings (formats : Bool) (depth : Nat) {σ σ' : Scope} {a b : Value} (v : Value)
    (hscope : Aligned σ σ') (hab : Twin a b) :
    (strictFindings formats depth σ a v).Foretells (findings formats depth σ' b v) := by
  induction depth generalizing σ σ' a b v with
  | zero => exact .of_none rfl
  | succ depth ih =>
    refine foretells_findingsBy_twin formats (fun _ _ _ => Findings.settled_settle _) ?_ v hscope
      hab
    intro τ τ' p q w hτ hpq r hr
    rw [Findings.verdict_settle] at hr
    exact ih w hτ hpq r hr

end SheetIntake.Schema
