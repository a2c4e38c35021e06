import SheetIntake.Proofs.Outcome
import SheetIntake.Proofs.SchemaHistory

/-!
# The documents after any calls

Schemas are saved and taken back for many import names, in any order, with a registry that cannot
always be reached. A call makes at most one change, and it makes it to the one document of its import
name: `SchemaCall.Makes` lists what a call that gives a result can do, and a call that fails does
nothing (`ends_job`).

* `Store.updateFirst_eq_ok` — which document an update changes.
* `schemas_consistent` — the documents after any calls.
-/

namespace SheetIntake.Registry

open Assoc

variable {documents documents' : List Document} {d : Document}

/-! ## Documents -/

theorem Store.updateFirst_eq_ok {filter : Document} {change : Change} {result : UpdateResult}
    (h : Store.updateFirst filter change documents = .ok (result, documents'))
    (hfound : documents.find? (accepts filter) = some d) :
    ∃ before after d', documents = before ++ d :: after ∧ change.apply d = .ok d'
      ∧ documents' = before ++ d' :: after := by
  obtain ⟨haccepts, before, after, rfl, hbefore⟩ := List.find?_eq_some_iff_append.mp hfound
  rw [updateFirst_split change after haccepts hbefore] at h
  obtain ⟨d', happly, h⟩ := Outcome.map_eq_ok.mp h
  exact ⟨before, after, d', rfl, happly, (Prod.mk.inj h).2.symm⟩

theorem Store.respond_update_eq_ok {s t : Store} {filter : Document} {change : Change}
    {result : UpdateResult} (h : s.respond (.update filter change) = (.ok result, t))
    (hfound : s.documents.find? (accepts filter) = some d) :
    ∃ before after d', s.documents = before ++ d :: after ∧ change.apply d = .ok d'
      ∧ t = { s with documents := before ++ d' :: after } := by
  rw [Store.respond] at h
  split at h
  · next hupdate =>
    obtain ⟨before, after, d', hsplit, happly, rfl⟩ := Store.updateFirst_eq_ok hupdate hfound
    exact ⟨before, after, d', hsplit, happly, (Prod.mk.inj h).2.symm⟩
  · cases h

theorem Store.respond_error {s t : Store} {request : Request} {fault : Fault}
    (h : s.respond request = (.error fault, t)) : t = s := by
  cases request with
  | update filter change =>
    rw [Store.respond] at h
    split at h
    · cases (Prod.mk.inj h).1.symm
    · exact (Prod.mk.inj h).2.symm
  | _ => cases (Prod.mk.inj h).1.symm

theorem Store.reachable_respond (request : Request) (s : Store) :
    (s.respond request).2.reachable = s.reachable := by
  cases request with
  | update filter change =>
    rw [Store.respond]
    split <;> rfl
  | _ => rfl

/-- A document tells its import name, its active schema and its releases. -/
structure Describes (d : Document) (name : String) (active : Value) (releases : List Value) :
    Prop where
  name : Assoc.get? "import_name" d = some (.str name)
  active : Assoc.get? "active_schema" d = some active
  releases : Assoc.get? "schemas_releases" d = some (.list (releases.map release))

def documentsOf (documents : List Document) (name : String) : List Document :=
  documents.filter (accepts (named (.str name)))

section

variable {name now : String} {schema active : Value} {releases : List Value}

theorem describes_firstDocument (name : String) (schema : Value) (now : String) :
    Describes (firstDocument (.str name) schema now) name schema [] := ⟨rfl, rfl, rfl⟩

theorem Describes.revise (h : Describes d name active releases) (schema : Value) (now : String)
    (later : List Value) : Describes (revised d schema now later) name schema later :=
  ⟨(get?_import_name_revised d).trans h.name, get?_active_schema_revised d,
    get?_schemas_releases_revised d⟩

theorem Describes.name_eq {other : String} (h : Describes d name active releases)
    (haccepts : accepts (named (.str other)) d) : name = other :=
  Value.str.inj (Option.some.inj (h.name.symm.trans (accepts_named.mp haccepts)))

theorem Describes.releases_eq {other : String} {active' : Value} {releases' : List Value}
    (h : Describes d name active releases) (h' : Describes d other active' releases') :
    releases = releases' := by
  have hlists := Value.list.inj (Option.some.inj (h.releases.symm.trans h'.releases))
  exact List.map_injective_iff.mpr release_injective hlists

end

/-! ## Calls -/

/-- A call of one of the two operations, at a moment. -/
inductive SchemaCall where
  | save (schema : Value) (name now : String)
  | remove (name now : String)

namespace SchemaCall

def importName : SchemaCall → String
  | .save _ name _ => name
  | .remove name _ => name

def job : SchemaCall → Job protocol Value
  | .save schema name now => saveSchema schema (.str name) now
  | .remove name now => removeSchema (.str name) now

/-- The documents before and after a call that gives a result. -/
inductive Makes : List Document → SchemaCall → List Document → Prop where
  | same {documents d schema name now active releases} (hd : d ∈ documents)
      (hdescribes : Describes d name active releases) (halike : active.alike schema = true) :
      Makes documents (.save schema name now) documents
  | first {documents schema name now} (hnone : documentsOf documents name = []) :
      Makes documents (.save schema name now)
        (documents ++ [firstDocument (.str name) schema now])
  | next {before d after schema name now active releases}
      (hdescribes : Describes d name active releases) :
      Makes (before ++ d :: after) (.save schema name now)
        (before ++ revised d schema now (releases ++ [schema]) :: after)
  | absent {documents name now} (hnone : documentsOf documents name = []) :
      Makes documents (.remove name now) documents
  | back {before d after name now active releases last}
      (hdescribes : Describes d name active (releases ++ [last])) :
      Makes (before ++ d :: after) (.remove name now)
        (before ++ revised d last now releases :: after)

end SchemaCall

/-! ## Saving and taking back, request by request -/

/-- Servers answer a request as a registry with their documents does, or they fail and change no
document. -/
def Serves {σ : Type} (srv : Servers protocol σ) (docs : σ → List Document) : Prop :=
  ∀ (request : Request) (s : σ), Job.Ends srv (Job.ask (p := protocol) request) s
    (fun answer t => Store.respond { documents := docs s } request =
      (.ok answer, { documents := docs t }))
    (fun _ t => docs t = docs s)

theorem serves_servers : Serves servers Store.documents := by
  intro request s
  obtain ⟨documents, reachable⟩ := s
  cases reachable with
  | false => exact Job.ends_of_run_error rfl rfl
  | true =>
    have hreach := Store.reachable_respond request { documents }
    rcases hrespond : Store.respond { documents } request with ⟨fault | answer, t⟩
    · exact Job.ends_of_run_error hrespond (congrArg Store.documents (Store.respond_error hrespond))
    · rw [hrespond] at hreach
      obtain ⟨documents', reachable⟩ := t
      obtain rfl : reachable := hreach
      exact Job.ends_of_run_ok hrespond rfl

theorem copied_eq_ok {schema copy : Value} (h : copied schema = .ok copy) : copy = schema := by
  unfold copied at h
  split at h
  · exact (Except.ok.inj h).symm
  · exact (Except.ok.inj h).symm
  · cases h

section

variable {σ : Type} {srv : Servers protocol σ} {docs : σ → List Document} (hsrv : Serves srv docs)
  {s : σ}

include hsrv

section

-- The documents stay the same until the last request of a call.
variable (hs : docs s = documents)

include hs

theorem ends_findFirst (filter : Document) : Job.Ends srv (findFirst filter) s
      (fun found t => found = documents.find? (accepts filter) ∧ docs t = documents)
      (fun _ t => docs t = documents) := by
  subst hs
  refine (hsrv _ s).imp (fun found t hanswer => ?_) (fun _ _ h => h)
  obtain ⟨hfound, hdocuments⟩ := Prod.mk.inj hanswer
  exact ⟨(Except.ok.inj hfound).symm, (congrArg Store.documents hdocuments).symm⟩

theorem ends_count :
    Job.Ends srv (count []) s (fun total t => total = documents.length ∧ docs t = documents)
      (fun _ t => docs t = documents) := by
  subst hs
  refine (hsrv _ s).imp (fun total t hanswer => ?_) (fun _ _ h => h)
  obtain ⟨htotal, hdocuments⟩ := Prod.mk.inj hanswer
  have hfilter : (docs s).filter (accepts []) = docs s :=
    List.filter_eq_self.mpr (fun _ _ => rfl)
  refine ⟨?_, (congrArg Store.documents hdocuments).symm⟩
  rw [← Except.ok.inj htotal, ← hfilter]
  simp

theorem ends_insert (d : Document) :
    Job.Ends srv (insert d) s (fun _ t => docs t = documents ++ [d])
      (fun _ t => docs t = documents) := by
  subst hs
  refine (hsrv _ s).imp (fun _ t hanswer => ?_) (fun _ _ h => h)
  exact (congrArg Store.documents (Prod.mk.inj hanswer).2).symm

theorem ends_update {filter : Document} {change : Change}
    (hfound : documents.find? (accepts filter) = some d) : Job.Ends srv (update filter change) s
      (fun _ t => ∃ before after d', documents = before ++ d :: after ∧ change.apply d = .ok d'
        ∧ docs t = before ++ d' :: after) (fun _ t => docs t = documents) := by
  subst hs
  refine (hsrv _ s).imp (fun result t hanswer => ?_) (fun _ _ h => h)
  obtain ⟨before, after, d', hsplit, happly, ht⟩ := Store.respond_update_eq_ok hanswer hfound
  exact ⟨before, after, d', hsplit, happly, congrArg Store.documents ht⟩

end

variable {importName schema : Value} {now : String}

/-- A schema that cannot be saved leaves the documents as they were. One that can be is alike to the
active one, or the first of its import name, or it takes the place of the active one. -/
theorem ends_saveSchema {good : List Document → Prop}
    (hsame : ∀ d active, (docs s).find? (accepts (named importName)) = some d →
      (Value.object d).member "active_schema" = .ok active → active.alike schema → good (docs s))
    (hfirst : copied schema = .ok schema → (docs s).find? (accepts (named importName)) = none →
      good (docs s ++ [firstDocument importName schema now]))
    (hnext : copied schema = .ok schema → ∀ before d after d', docs s = before ++ d :: after →
      accepts (named importName) d →
      Change.apply { set := [("active_schema", schema), ("created_at", .str now)]
                     push := [("schemas_releases", release schema)] } d = .ok d' →
      good (before ++ d' :: after)) :
    Job.Ends srv (saveSchema schema importName now) s (fun _ t => good (docs t))
      (fun _ t => docs t = docs s) := by
  refine (ends_findFirst hsrv rfl _).bind fun found t ht => ?_
  obtain ⟨hfound, ht⟩ := ht
  refine (ends_count hsrv ht).bind fun total u hu => ?_
  obtain ⟨htotal, hu⟩ := hu
  cases found with
  | none =>
    refine Job.ends_ofExcept_bind (fun copy hcopy => ?_) (fun _ _ => hu)
    obtain rfl := copied_eq_ok hcopy
    refine (ends_insert hsrv hu _).bind fun _ v hv => Job.ends_of_run_ok rfl ?_
    exact hv ▸ hfirst hcopy hfound.symm
  | some d =>
    -- there is a document, so that the registry is not empty
    have hmem : d ∈ docs s := List.mem_of_find?_eq_some hfound.symm
    have hpos : decide (total = 0) = false :=
      decide_eq_false (htotal ▸ (List.length_pos_of_mem hmem).ne')
    rw [hpos]
    refine Job.ends_ofExcept_bind (fun active hactive => ?_) (fun _ _ => hu)
    split
    · next halike => exact Job.ends_of_run_ok rfl (hu ▸ hsame d active hfound.symm hactive halike)
    · refine Job.ends_ofExcept_bind (fun copy hcopy => ?_) (fun _ _ => hu)
      obtain rfl := copied_eq_ok hcopy
      refine (ends_update hsrv hu hfound.symm).bind fun _ v hv => Job.ends_of_run_ok rfl ?_
      obtain ⟨before, after, d', hsplit, happly, hv⟩ := hv
      exact hv ▸ hnext hcopy before d after d' hsplit (List.find?_some hfound.symm) happly

/-- A schema that cannot be taken back leaves the documents as they were. Where one can be, the last
release takes the place of the active schema. -/
theorem ends_removeSchema {good : Value → List Document → Prop}
    (hnone : (docs s).find? (accepts (named importName)) = none → good .null (docs s))
    (hback : ∀ before d after d' last schema, docs s = before ++ d :: after →
      accepts (named importName) d →
      lastRelease ((Assoc.get? "schemas_releases" d).getD (.list [])) = .ok last →
      last.memberOr "schema" (.object []) = .ok schema →
      Change.apply { set := [("active_schema", schema), ("created_at", .str now)]
                     pop := ["schemas_releases"] } d = .ok d' → ∀ result : UpdateResult,
      good (.object (("status", .str "Active Schema Replaced with Last Release") :: result.members))
        (before ++ d' :: after)) :
    Job.Ends srv (removeSchema importName now) s (fun v t => good v (docs t))
      (fun _ t => docs t = docs s) := by
  refine (ends_findFirst hsrv rfl _).bind fun found t ht => ?_
  obtain ⟨hfound, ht⟩ := ht
  cases found with
  | none => exact Job.ends_of_run_ok rfl (ht ▸ hnone hfound.symm)
  | some d =>
    dsimp only
    split
    · exact Job.ends_of_run_error rfl ht
    · refine Job.ends_ofExcept_bind (fun last hlast => ?_) (fun _ _ => ht)
      refine Job.ends_ofExcept_bind (fun schema hschema => ?_) (fun _ _ => ht)
      refine (ends_update hsrv ht hfound.symm).bind fun result v hv => Job.ends_of_run_ok rfl ?_
      obtain ⟨before, after, d', hsplit, happly, hv⟩ := hv
      exact hv ▸ hback before d after d' last schema hsplit (List.find?_some hfound.symm) hlast
        hschema happly result

end

theorem pop_cases {d' : Document} {last schema : Value} {releases : List Value} {now : String}
    (hreleases : Assoc.get? "schemas_releases" d = some (.list (releases.map release)))
    (hlast : lastRelease ((Assoc.get? "schemas_releases" d).getD (.list [])) = .ok last)
    (hschema : last.memberOr "schema" (.object []) = .ok schema)
    (happly : Change.apply { set := [("active_schema", schema), ("created_at", .str now)]
                             pop := ["schemas_releases"] } d = .ok d') :
    ∃ earlier, releases = earlier ++ [schema] ∧ d' = revised d schema now earlier := by
  rw [hreleases, Option.getD_some] at hlast
  rcases List.eq_nil_or_concat' releases with rfl | ⟨earlier, latest, rfl⟩
  · cases hlast
  · rw [lastRelease_concat] at hlast
    cases hlast
    cases hschema
    have hd := Except.ok.inj (happly.symm.trans (apply_pop hreleases latest now))
    rw [List.dropLast_concat] at hd
    exact ⟨earlier, rfl, hd⟩

/-! ## A registry that cannot always be reached -/

/-- A registry that can be reached or not at each request, as a schedule tells. After the schedule it
can be reached. -/
def wavering : Servers protocol (List Document × List Bool) := fun request s =>
  let r := servers request { documents := s.1, reachable := s.2.headD true }
  (r.1, r.2.documents, s.2.tail)

theorem serves_wavering : Serves wavering Prod.fst := by
  intro request s
  rcases serves_servers request ⟨s.1, s.2.headD true⟩ with ⟨a, t, hrun, ht⟩ | ⟨fault, t, hrun, ht⟩
  · exact .inl ⟨a, (t.documents, s.2.tail), congrArg (fun r => (r.1, r.2.documents, s.2.tail)) hrun, ht⟩
  · exact .inr ⟨fault, (t.documents, s.2.tail),
      congrArg (fun r => (r.1, r.2.documents, s.2.tail)) hrun, ht⟩

def AllDescribed (documents : List Document) : Prop :=
  ∀ d ∈ documents, ∃ name active releases, Describes d name active releases

/-! ## What a call does -/

theorem documentsOf_eq_nil {name : String}
    (h : documents.find? (accepts (named (.str name))) = none) : documentsOf documents name = [] :=
  List.filter_eq_nil_iff.mpr (List.find?_eq_none.mp h)

section

variable {s : List Document × List Bool}

theorem ends_save (hall : AllDescribed s.1) (schema : Value) (name now : String) :
    Job.Ends wavering (saveSchema schema (.str name) now) s
      (fun _ t => SchemaCall.Makes s.1 (.save schema name now) t.1) (fun _ t => t.1 = s.1) := by
  refine ends_saveSchema serves_wavering (fun d active hfound hactive halike => ?_)
    (fun _ hnone => .first (documentsOf_eq_nil hnone))
    (fun _ before d after d' hsplit haccepts happly => ?_)
  · have hmem := List.mem_of_find?_eq_some hfound
    obtain ⟨other, active', releases, hdescribes⟩ := hall d hmem
    obtain rfl := hdescribes.name_eq (List.find?_some hfound)
    rw [Value.member, hdescribes.active] at hactive
    cases hactive
    exact .same hmem hdescribes halike
  · obtain ⟨other, active, releases, hdescribes⟩ := hall d (hsplit ▸ by simp)
    obtain rfl := hdescribes.name_eq haccepts
    cases happly.symm.trans (apply_push hdescribes.releases schema now)
    exact hsplit ▸ .next hdescribes

theorem ends_remove (hall : AllDescribed s.1) (name now : String) :
    Job.Ends wavering (removeSchema (.str name) now) s
      (fun _ t => SchemaCall.Makes s.1 (.remove name now) t.1) (fun _ t => t.1 = s.1) := by
  refine ends_removeSchema serves_wavering (fun hnone => .absent (documentsOf_eq_nil hnone))
    (fun before d after d' last schema hsplit haccepts hlast hschema happly _ => ?_)
  obtain ⟨other, active, releases, hdescribes⟩ := hall d (hsplit ▸ by simp)
  obtain rfl := hdescribes.name_eq haccepts
  obtain ⟨earlier, rfl, rfl⟩ := pop_cases hdescribes.releases hlast hschema happly
  exact hsplit ▸ .back hdescribes

theorem ends_job (hall : AllDescribed s.1) (call : SchemaCall) :
    Job.Ends wavering call.job s (fun _ t => call.Makes s.1 t.1) (fun _ t => t.1 = s.1) := by
  cases call with
  | save schema name now => exact ends_save hall schema name now
  | remove name now => exact ends_remove hall name now

end

/-! ## What calls keep -/

/-- There is one document at most for an import name, and all its schemas were passed to calls that
save for that name. -/
structure Consistent (calls : List SchemaCall) (documents : List Document) : Prop where
  names : (documents.map (Assoc.get? "import_name")).Nodup
  schemas : ∀ d ∈ documents, ∃ name active releases, Describes d name active releases
    ∧ ∀ schema ∈ active :: releases, ∃ now, SchemaCall.save schema name now ∈ calls

section

variable {calls : List SchemaCall} {call : SchemaCall}

theorem Consistent.allDescribed (h : Consistent calls documents) : AllDescribed documents := by
  intro d hd
  obtain ⟨name, active, releases, hdescribes, -⟩ := h.schemas d hd
  exact ⟨name, active, releases, hdescribes⟩

theorem Consistent.mono {later : List SchemaCall} (h : Consistent calls documents)
    (hsub : calls ⊆ later) : Consistent later documents := by
  refine ⟨h.names, fun d hd => ?_⟩
  obtain ⟨name, active, releases, hdescribes, hpassed⟩ := h.schemas d hd
  refine ⟨name, active, releases, hdescribes, fun schema hschema => ?_⟩
  obtain ⟨now, hmem⟩ := hpassed schema hschema
  exact ⟨now, hsub hmem⟩

theorem Consistent.replace {before after : List Document} {d' : Document} {name : String}
    {active active' : Value} {releases releases' : List Value}
    (h : Consistent calls (before ++ d :: after)) (hd : Describes d name active releases)
    (hd' : Describes d' name active' releases')
    (hpassed : (∀ schema ∈ active :: releases, ∃ now, SchemaCall.save schema name now ∈ calls) →
      ∀ schema ∈ active' :: releases', ∃ now, SchemaCall.save schema name now ∈ calls) :
    Consistent calls (before ++ d' :: after) := by
  constructor
  · have hnames := h.names
    rw [List.map_append, List.map_cons, hd.name] at hnames
    rwa [List.map_append, List.map_cons, hd'.name]
  · intro e he
    rcases List.mem_append.mp he with hbefore | htail
    · exact h.schemas e (List.mem_append_left _ hbefore)
    rcases List.mem_cons.mp htail with rfl | hafter
    · obtain ⟨other, a, rs, hother, hall⟩ := h.schemas d (by simp)
      -- what a document tells is determined by it
      obtain rfl := hother.name_eq (accepts_named.mpr hd.name)
      cases hother.active.symm.trans hd.active
      obtain rfl := hother.releases_eq hd
      exact ⟨_, active', releases', hd', hpassed hall⟩
    · exact h.schemas e (List.mem_append_right _ (.tail _ hafter))

theorem Consistent.insert_first {schema : Value} {name : String} (h : Consistent calls documents)
    (hnone : documentsOf documents name = []) (now : String)
    (hpassed : SchemaCall.save schema name now ∈ calls) :
    Consistent calls (documents ++ [firstDocument (.str name) schema now]) := by
  have hfirst := describes_firstDocument name schema now
  constructor
  · rw [List.map_append, List.map_singleton, hfirst.name]
    refine List.nodup_append.mpr ⟨h.names, List.pairwise_singleton _ _, ?_⟩
    intro found hfound new hnew heq
    obtain ⟨d, hd, rfl⟩ := List.mem_map.mp hfound
    have hname := heq.trans (List.mem_singleton.mp hnew)
    exact List.filter_eq_nil_iff.mp hnone d hd (accepts_named.mpr hname)
  · intro d hd
    rcases List.mem_append.mp hd with hold | hnew
    · exact h.schemas d hold
    · obtain rfl := List.mem_singleton.mp hnew
      refine ⟨name, schema, [], hfirst, fun passed hmem => ?_⟩
      obtain rfl := List.mem_singleton.mp hmem
      exact ⟨now, hpassed⟩

theorem Consistent.step (h : Consistent calls documents) (hmakes : call.Makes documents documents') :
    Consistent (calls ++ [call]) documents' := by
  have hlater : Consistent (calls ++ [call]) documents := h.mono (List.subset_append_left _ _)
  have hlast : call ∈ calls ++ [call] := by simp
  cases hmakes with
  | same hd hdescribes halike | absent hnone => exact hlater
  | first hnone => exact hlater.insert_first hnone _ hlast
  | next hdescribes =>
    refine hlater.replace hdescribes (hdescribes.revise _ _ _) fun hpassed schema hmem => ?_
    -- the saved schema is the active one and the last release
    simp only [List.mem_cons, List.mem_append, List.not_mem_nil, or_false] at hmem
    rcases hmem with rfl | hold | rfl
    · exact ⟨_, hlast⟩
    · exact hpassed schema (.tail _ hold)
    · exact ⟨_, hlast⟩
  | back hdescribes =>
    refine hlater.replace hdescribes (hdescribes.revise _ _ _) fun hpassed schema hmem => ?_
    -- the active schema was the last release
    refine hpassed schema (List.mem_cons_of_mem _ ?_)
    rcases List.mem_cons.mp hmem with rfl | hold
    · simp
    · exact List.mem_append_left _ hold

theorem SchemaCall.Makes.documentsOf_eq {other : String} (hmakes : call.Makes documents documents')
    (hother : other ≠ call.importName) : documentsOf documents' other = documentsOf documents other := by
  -- a document of the call's import name is not one of the other name
  have hskip : ∀ {d name active releases}, Describes d name active releases → other ≠ name →
      ¬accepts (named (.str other)) d := by
    intro d name active releases hdescribes hne haccepts
    exact hne (hdescribes.name_eq haccepts).symm
  unfold documentsOf
  cases hmakes with
  | same hd hdescribes halike | absent hnone => rfl
  | @first _ schema name now hnone =>
    have hfirst := describes_firstDocument name schema now
    rw [List.filter_append, List.filter_cons_of_neg (hskip hfirst hother),
      List.filter_nil, List.append_nil]
  | next hdescribes | back hdescribes =>
    rw [List.filter_append, List.filter_append, List.filter_cons_of_neg (hskip hdescribes hother),
      List.filter_cons_of_neg (hskip (hdescribes.revise _ _ _) hother)]

theorem SchemaCall.Makes.saved {schema : Value} {name now : String}
    (hmakes : (SchemaCall.save schema name now).Makes documents documents') :
    ∃ d ∈ documents', ∃ active releases, Describes d name active releases
      ∧ (active = schema ∨ active.alike schema) := by
  cases hmakes with
  | same hd hdescribes halike => exact ⟨_, hd, _, _, hdescribes, .inr halike⟩
  | first hnone =>
    exact ⟨_, List.mem_append_right _ (List.mem_singleton_self _), _, _,
      describes_firstDocument _ _ _, .inl rfl⟩
  | next hdescribes =>
    exact ⟨_, List.mem_append_right _ (.head _), _, _, hdescribes.revise _ _ _, .inl rfl⟩

end

/-! ## Runs -/

/-- The answers to calls from an empty registry, and the state after them. -/
def afterCalls (schedule : List Bool) (calls : List SchemaCall) :
    List (Except Fault Value) × List Document × List Bool :=
  Job.runEach wavering (calls.map SchemaCall.job) ([], schedule)

def documentsAfter (schedule : List Bool) (calls : List SchemaCall) : List Document :=
  (afterCalls schedule calls).2.1

section

variable {schedule : List Bool} {calls : List SchemaCall} {call : SchemaCall}

theorem afterCalls_concat {result : Except Fault Value} {t : List Document × List Bool}
    (h : Job.run wavering call.job (afterCalls schedule calls).2 = (result, t)) :
    afterCalls schedule (calls ++ [call]) = ((afterCalls schedule calls).1 ++ [result], t) := by
  unfold afterCalls
  rw [List.map_append]
  exact Job.runEach_append rfl (Job.runEach_cons h rfl)

theorem makes_or_fails (hall : AllDescribed (documentsAfter schedule calls)) (call : SchemaCall) :
    call.Makes (documentsAfter schedule calls) (documentsAfter schedule (calls ++ [call]))
      ∨ (∃ fault, (afterCalls schedule (calls ++ [call])).1.getLast? = some (.error fault))
        ∧ documentsAfter schedule (calls ++ [call]) = documentsAfter schedule calls := by
  unfold documentsAfter
  rcases ends_job hall call with ⟨answer, t, hrun, hmakes⟩ | ⟨fault, t, hrun, hsame⟩
  · rw [afterCalls_concat hrun]
    exact .inl hmakes
  · rw [afterCalls_concat hrun, List.getLast?_concat]
    exact .inr ⟨⟨fault, rfl⟩, hsame⟩

theorem Consistent.concat {earlier : List SchemaCall}
    (h : Consistent earlier (documentsAfter schedule calls)) :
    Consistent (earlier ++ [call]) (documentsAfter schedule (calls ++ [call])) := by
  rcases makes_or_fails h.allDescribed call with hmakes | ⟨-, hsame⟩
  · exact h.step hmakes
  · rw [hsame]
    exact h.mono (List.subset_append_left _ _)

theorem consistent_documentsAfter (schedule : List Bool) (calls : List SchemaCall) :
    Consistent calls (documentsAfter schedule calls) := by
  induction calls using List.reverseRecOn with
  | nil => exact ⟨List.nodup_nil, List.forall_mem_nil _⟩
  | append_singleton calls call ih => exact ih.concat

end

/-- However often the registry could be reached during some calls, an import name has one document at
most, its active schema and its releases were passed to calls that save for that name, and one more call
leaves the documents of the other import names as they are. A save that gives a result is found in the
document of its import name. -/
theorem schemas_consistent (schedule : List Bool) (calls : List SchemaCall) :
    ((documentsAfter schedule calls).map (Assoc.get? "import_name")).Nodup
      ∧ (∀ d ∈ documentsAfter schedule calls, ∃ name active releases,
          Describes d name active releases
            ∧ ∀ schema ∈ active :: releases, ∃ now, SchemaCall.save schema name now ∈ calls)
      ∧ (∀ call other, other ≠ SchemaCall.importName call →
          documentsOf (documentsAfter schedule (calls ++ [call])) other
            = documentsOf (documentsAfter schedule calls) other)
      ∧ ∀ schema name now answer,
          (afterCalls schedule (calls ++ [.save schema name now])).1.getLast? = some (.ok answer) →
            ∃ d ∈ documentsAfter schedule (calls ++ [.save schema name now]), ∃ active releases,
              Describes d name active releases ∧ (active = schema ∨ active.alike schema = true) := by
  have h := consistent_documentsAfter schedule calls
  refine ⟨h.names, h.schemas, ?_, ?_⟩
  · intro call other hother
    rcases makes_or_fails h.allDescribed call with hmakes | ⟨-, hsame⟩
    · exact hmakes.documentsOf_eq hother
    · rw [hsame]
  · intro schema name now answer hanswer
    rcases makes_or_fails h.allDescribed (.save schema name now) with hmakes | ⟨⟨fault, hfault⟩, -⟩
    · exact hmakes.saved
    · exact absurd (Option.some.inj (hfault.symm.trans hanswer)) Outcome.error_ne_ok

-- The first save cannot reach the registry for its second request, the second one inserts, and there is
-- no release that could be taken back.
example : documentsAfter [true, false] [.save (.object []) "people" "first",
    .save (.object []) "people" "second", .remove "people" "third"] =
      [firstDocument (.str "people") (.object []) "second"] := rfl

end SheetIntake.Registry
