import SheetIntake.Proofs.Deliveries
import SheetIntake.Proofs.RecordSchemas

/-!
# Schemas that become active

A schema becomes active when a worker saves it, and again when a later one is taken back. Either way
it was made from a body that was delivered (`Reached.upholds`). Only a document that is taken as it
is gets checked on the way, with the metaschema of draft seven. A document that lists members is
wrapped into a record without a look at the members, so that record is as well formed as they are.

* `checkSchema_record_seven_iff`, `admitted_record_iff` — what the two checks ask of a record.
* `active_schema_well_formed_iff` — the active schemas that are well formed.
* `number_becomes_active` — a record with a number for a member becomes active.
-/

namespace SheetIntake.Schema

open Metaschema (seven latest applicator ref mapOf typeKeyword simpleTypes stringArray whole)

variable {n : Nat} {x schema : Value} {properties : List (String × Value)}

/-! ## Records under draft seven -/

/-- Where the references lead that matter for records. -/
def referencesOfSeven : List (String × Value) :=
  [("#", seven), ("#/definitions/simpleTypes", simpleTypes),
    ("#/definitions/stringArray", stringArray)]

theorem resolve_seven :
    ∀ q ∈ referencesOfSeven, resolve (origin .seven) q.1 = .ok (origin .seven, q.2) := by
  rw [← List.forall_iff_forall_mem]
  exact ⟨rfl, rfl, rfl⟩

theorem accepts_seven_iff : Accepts true (n + 1) (origin .seven) seven x ↔ isSchema x
      ∧ ∀ p ∈ propertiesOf seven, ∀ y, x.get? p.1 = some y →
        Accepts true n (origin .seven) p.2 y := by
  have hkeywords : (membersOf seven).filter (·.1 ∉ Check.words)
      = [("type", Metaschema.texts ["object", "boolean"]),
        ("properties", .object (propertiesOf seven))] := rfl
  have hscope : (origin .seven).within (.object (membersOf seven)) = origin .seven :=
    within_origin .seven
  have hdescribed := @accepts_described_iff n (origin .seven) x _ _ (applicable_of_get?_none rfl)
    hkeywords
  rwa [hscope] at hdescribed

theorem accepts_reference_seven {address : String} (hq : (address, schema) ∈ referencesOfSeven) :
    Accepts true (n + 1) (origin .seven) (ref address) x
      ↔ Accepts true n (origin .seven) schema x :=
  accepts_reference (.inl rfl) (resolve_seven (address, schema) hq)

theorem accepts_seven_bool (b : Bool) : Accepts true (n + 1) (origin .seven) seven (.bool b) := by
  refine accepts_seven_iff.mpr ⟨rfl, ?_⟩
  exact fun _ _ y hy => absurd hy (Option.some_ne_none y).symm

/-- Of the keywords of a record the metaschema asks something of its members only. -/
theorem accepts_record_seven_iff (hkeys : (Assoc.keys properties).Nodup) :
    Accepts true (n + 4) (origin .seven) seven (record properties)
      ↔ ∀ m ∈ properties, Accepts true (n + 1) (origin .seven) seven m.2 := by
  have hdescribed : ∀ p ∈ propertiesOf seven, p.1 ∈ recordNames →
      p ∈ [("type", typeKeyword "#/definitions/simpleTypes"), ("properties", mapOf (ref "#")),
        ("required", ref "#/definitions/stringArray"), ("additionalProperties", ref "#")] := by
    decide
  have hlisted : ("properties", mapOf (ref "#")) ∈ propertiesOf seven := by decide
  have hmembers : Accepts true (n + 3) (origin .seven) (mapOf (ref "#")) (.object properties)
      ↔ ∀ m ∈ properties, Accepts true (n + 1) (origin .seven) seven m.2 := by
    rw [accepts_mapOf_iff rfl]
    exact forall₂_congr (fun m _ => accepts_reference_seven (.head _))
  rw [accepts_seven_iff, ← hmembers]
  refine ⟨fun h => h.2 _ hlisted _ rfl, fun h => ⟨rfl, fun p hp y hy => ?_⟩⟩
  -- the values of the other three keywords are always the same kind, and accepted
  have hcases := hdescribed p hp (mem_recordNames hy)
  simp only [List.mem_cons, List.not_mem_nil, or_false] at hcases
  rcases hcases with rfl | rfl | rfl | rfl
  · obtain rfl : y = .str "object" := by simpa using get?_record hy
    have hname : "object" ∈ typeNames := by decide
    refine accepts_typeKeyword ((accepts_reference_seven ?_).mpr (accepts_simpleTypes hname))
    exact .tail _ (.head _)
  · obtain rfl : y = .object properties := by simpa using get?_record hy
    exact h
  · obtain rfl : y = .list ((Assoc.keys properties).map .str) := by simpa using get?_record hy
    refine (accepts_reference_seven ?_).mpr (accepts_stringArray hkeys)
    exact .tail _ (.tail _ (.head _))
  · obtain rfl : y = .bool false := by simpa using get?_record hy
    exact (accepts_reference_seven (.head _)).mpr (accepts_seven_bool false)

theorem checkSchema_record_seven_iff (hkeys : (Assoc.keys properties).Nodup) :
    checkSchema .seven (record properties) = .ok ()
      ↔ ∀ m ∈ properties, Accepts true (depthLimit - 3) (origin .seven) seven m.2 := by
  rw [checkSchema_eq_ok_iff]
  exact @accepts_record_seven_iff (depthLimit - 4) properties hkeys

/-! ## Records under the latest draft -/

theorem accepts_member_of_record
    (h : Accepts true (n + 6) (origin .latest) latest (record properties)) :
    ∀ m ∈ properties, Accepts true (n + 1) (origin .latest) latest m.2 := by
  have hlisted : ("properties", mapOf whole) ∈ propertiesOf applicator := by decide
  have hvocabulary : ("meta/applicator", "applicator", applicator) ∈ vocabularies :=
    .tail _ (.head _)
  have hpart : Accepts true (n + 4) (partScope "applicator" applicator) applicator _ :=
    (accepts_reference (.inl rfl) (resolve_vocabularies _ hvocabulary)).mp
      ((accepts_latest_iff.mp h).1 _ hvocabulary)
  intro m hm
  exact accepts_whole_iff.mp
    ((accepts_mapOf_iff rfl).mp ((accepts_part_iff.mp hpart).2 _ hlisted _ rfl) m hm)

theorem admitted_record_iff (hkeys : (Assoc.keys properties).Nodup) :
    (∃ draft, admitted (record properties) = .ok draft)
      ↔ ∀ m ∈ properties, Accepts true (depthLimit - 5) (origin .latest) latest m.2 := by
  have hcheck : checkSchema .latest (record properties) = .ok ()
      ↔ Accepts true depthLimit (origin .latest) latest (record properties) := checkSchema_eq_ok_iff
  constructor
  · rintro ⟨draft, h⟩
    obtain ⟨hdraft, h⟩ := admitted_eq_ok_iff.mp h
    cases hdraft
    exact @accepts_member_of_record (depthLimit - 6) properties (hcheck.mp h)
  · intro h
    refine ⟨.latest, admitted_eq_ok_iff.mpr ⟨rfl, hcheck.mpr ?_⟩⟩
    exact (@shaped_record (depthLimit - 7) properties hkeys h).accepts_latest

/-! ## Rows and the check of a schema -/

theorem admitted_seven_iff (h : Draft.ofSchema .latest schema = .seven) :
    admitted schema = .ok .seven ↔ checkSchema .seven schema = .ok () := by
  have hdraft : draftOf schema = .ok .seven := by
    cases schema with
    | null | int | float => cases h
    | _ => exact congrArg Except.ok h
  rw [admitted_eq_ok_iff, and_iff_right hdraft]

/-- Under a schema that is not well formed every item is reported, for the same reason. -/
theorem reasons_of_refused {fault : Fault} (h : admitted schema = .error fault)
    (items : List Value) :
    (chunkErrors schema items).map ItemError.reason = items.map (fun _ => unexpected fault) := by
  unfold chunkErrors
  rw [h]
  show (items.zipIdx.filterMap (fun p => some (ItemError.mk p.2 (unexpected fault)))).map _ = _
  rw [List.filterMap_eq_map', List.map_map, ← List.zipIdx_map_fst 0 items, List.map_map]
  simp

end SheetIntake.Schema

namespace SheetIntake.Registry

/-! ## Properties of all schemas in the registry -/

/-- The active schema and all releases of a document have a property. -/
structure Upholds (P : Value → Prop) (d : Document) : Prop where
  active : ∃ schema, Assoc.get? "active_schema" d = some schema ∧ P schema
  releases : ∃ releases : List Value,
    Assoc.get? "schemas_releases" d = some (.list (releases.map release))
      ∧ ∀ schema ∈ releases, P schema

variable {P Q : Value → Prop} {d d' : Document} {schema importName : Value} {now : String}
  {s : Store}

theorem Upholds.mono (h : Upholds P d) (hPQ : ∀ schema, P schema → Q schema) : Upholds Q d := by
  obtain ⟨⟨schema, hactive, hschema⟩, releases, hreleases, hall⟩ := h
  exact ⟨⟨schema, hactive, hPQ schema hschema⟩, releases, hreleases,
    fun schema hmem => hPQ schema (hall schema hmem)⟩

theorem forall_mem_revised {before after : List Document} {releases : List Value}
    (h : ∀ e ∈ before ++ d :: after, Upholds P e) (hschema : P schema)
    (hreleases : ∀ schema ∈ releases, P schema) :
    ∀ e ∈ before ++ revised d schema now releases :: after, Upholds P e := by
  obtain ⟨hbefore, hrest⟩ := List.forall_mem_append.mp h
  refine List.forall_mem_append.mpr
    ⟨hbefore, List.forall_mem_cons.mpr ⟨?_, (List.forall_mem_cons.mp hrest).2⟩⟩
  exact ⟨⟨schema, get?_active_schema_revised d, hschema⟩, releases,
    get?_schemas_releases_revised d, hreleases⟩

theorem ends_saveSchema_upholds (hs : ∀ d ∈ s.documents, Upholds P d) (hschema : P schema) :
    Job.Ends servers (saveSchema schema importName now) s
      (fun _ t => ∀ d ∈ t.documents, Upholds P d) (fun _ t => t = s) := by
  refine ends_unchanged (@ends_saveSchema _ _ _ serves_servers s importName schema now
    (fun ds => ∀ d ∈ ds, Upholds P d) (fun _ _ _ _ _ => hs) (fun _ _ => ?_)
    (fun _ before d after d' hsplit _ happly => ?_))
  · have hfirst : Upholds P (firstDocument importName schema now) :=
      ⟨⟨schema, rfl, hschema⟩, [], rfl, List.forall_mem_nil _⟩
    exact List.forall_mem_append.mpr ⟨hs, List.forall_mem_singleton.mpr hfirst⟩
  · rw [hsplit] at hs
    obtain ⟨releases, hreleases, hall⟩ := (hs d (by simp)).releases
    cases (apply_push hreleases schema now).symm.trans happly
    refine forall_mem_revised hs hschema ?_
    exact List.forall_mem_append.mpr ⟨hall, List.forall_mem_singleton.mpr hschema⟩

/-- What is made active by taking a schema back was a release. -/
theorem ends_removeSchema_upholds (hs : ∀ d ∈ s.documents, Upholds P d) :
    Job.Ends servers (removeSchema importName now) s
      (fun _ t => ∀ d ∈ t.documents, Upholds P d) (fun _ t => t = s) := by
  refine ends_unchanged (@ends_removeSchema _ _ _ serves_servers s importName now
    (fun _ ds => ∀ d ∈ ds, Upholds P d) (fun _ => hs)
    (fun before d after d' last schema hsplit _ hlast hmember happly _ => ?_))
  rw [hsplit] at hs
  obtain ⟨releases, hreleases, hall⟩ := (hs d (by simp)).releases
  obtain ⟨earlier, rfl, rfl⟩ := pop_cases hreleases hlast hmember happly
  obtain ⟨hearlier, hschema⟩ := List.forall_mem_append.mp hall
  exact forall_mem_revised hs (hschema schema (List.mem_singleton_self _)) hearlier

end SheetIntake.Registry

namespace SheetIntake.Worker

open Service Schema
open Registry (Upholds)

/-! ## Schemas that workers make active -/

/-- A body has a document for a schema, which is to be taken as it is or not. -/
def Gives (body : List UInt8) (raw : Bool) (given : Value) : Prop :=
  ∃ message flag, readMessage body = .ok message ∧ message.member "schema" = .ok given
    ∧ message.memberOr "raw" (.bool false) = .ok flag ∧ flag.truthy = raw

/-- A schema was made from one of some bodies. -/
def MadeFrom (bodies : List (List UInt8)) (schema : Value) : Prop :=
  ∃ body ∈ bodies, ∃ raw given, Gives body raw given ∧ Schema.create raw given = .ok schema

/-- The servers after messages were delivered to the worker one by one, starting with a registry
without documents. In the meantime anything else but the documents may change. -/
inductive Reached : List (List UInt8) → Stores → Prop
  | start {s : Stores} (h : s.registry.documents = []) : Reached [] s
  | delivered {bodies : List (List UInt8)} {s : Stores} (tag : Nat) (body : List UInt8)
    (now : Moment) (h : Reached bodies s) :
    Reached (body :: bodies) ((handleSchema tag body now).run servers s).2
  | meanwhile {bodies : List (List UInt8)} {s t : Stores} (h : Reached bodies s)
    (hsame : t.registry.documents = s.registry.documents) : Reached bodies t

section

variable {s : Stores} {message task : Value} {body : List UInt8} {workers : Nat} {now : Moment}
  {e : Errand} {v : Verdict} {registry : Registry.Store} {P : Value → Prop}

theorem registry_after (tag : Nat) (body : List UInt8) (now : Moment) (s : Stores) :
    ((handleSchema tag body now).run servers s).2.registry = s.registry
      ∨ ∃ message task e v, Asks .schemas body message task e
        ∧ e.verdict message 0 now s.registry = .ok v
        ∧ ((handleSchema tag body now).run servers s).2.registry = v.registry := by
  rcases handling_run .schemas tag body 0 now s with
    ⟨t, message, task, e, outcome, hasks, hout, hrun⟩ | ⟨t, hbad, hrun⟩
  all_goals
    have hrun : (handleSchema tag body now).run servers s = _ := hrun
    rw [hrun]
  · exact .inr ⟨message, task, e, _, hasks, hout.verdict, rfl⟩
  · rcases hbad with ⟨-, rfl⟩ | ⟨message, task, e, hasks, hgiven⟩
    · exact .inl rfl
    · refine hgiven.registry_cases.imp id (fun hunsent => ?_)
      exact ⟨message, task, e, _, hasks, hunsent.2, rfl⟩

theorem Verdict.upholds_ofAttempt {job : Job Registry.protocol Value}
    (h : Job.Ends Registry.servers job registry (fun _ t => ∀ d ∈ t.documents, Upholds P d)
      (fun _ t => t = registry)) (hregistry : ∀ d ∈ registry.documents, Upholds P d) :
    ∀ d ∈ (ofAttempt (job.run Registry.servers registry)).registry.documents, Upholds P d := by
  rcases h with ⟨v, t, hrun, ht⟩ | ⟨fault, t, hrun, rfl⟩
  · rw [hrun]
    exact ht
  · rw [hrun]
    exact hregistry

section

variable (hregistry : ∀ d ∈ registry.documents, Upholds P d)
  (hmade : ∀ raw given schema, Gives body raw given → Schema.create raw given = .ok schema →
    P schema)

include hregistry hmade

theorem upholds_of_uploadVerdict (h : uploadVerdict message now registry = .ok v)
    (hread : readMessage body = .ok message) : ∀ d ∈ v.registry.documents, Upholds P d := by
  obtain ⟨importName, -, h⟩ := Outcome.bind_eq_ok.mp h
  obtain ⟨flag, hflag, h⟩ := Outcome.bind_eq_ok.mp h
  obtain ⟨made, hmakes, h⟩ := Outcome.bind_eq_ok.mp h
  obtain ⟨given, hgiven, hmakes⟩ := Outcome.bind_eq_ok.mp hmakes
  cases made with
  | none =>
    cases h
    exact hregistry
  | some schema =>
    cases h
    have hcreate : Schema.create flag.truthy given = .ok schema := by
      split at hmakes
      · next hcreate => rw [hcreate, Option.some.inj (Except.ok.inj hmakes)]
      · cases hmakes
      · cases hmakes
    have hschema := hmade _ given schema ⟨message, flag, hread, hgiven, hflag, rfl⟩ hcreate
    exact Verdict.upholds_ofAttempt (Registry.ends_saveSchema_upholds hregistry hschema) hregistry

theorem upholds_of_verdict (hasks : Asks .schemas body message task e)
    (hverdict : e.verdict message workers now registry = .ok v) :
    ∀ d ∈ v.registry.documents, Upholds P d := by
  cases e with
  | upload => exact upholds_of_uploadVerdict hregistry hmade hverdict hasks.read
  | removal =>
    obtain ⟨importName, -, hverdict⟩ := Outcome.bind_eq_ok.mp hverdict
    cases hverdict
    exact Verdict.upholds_ofAttempt (Registry.ends_removeSchema_upholds hregistry) hregistry
  | check => cases worker_of_errandOf? hasks.errand

end

/-- All schemas in the registry were made from bodies that were delivered. -/
theorem Reached.upholds {bodies : List (List UInt8)} (h : Reached bodies s) :
    ∀ d ∈ s.registry.documents, Upholds (MadeFrom bodies) d := by
  induction h with
  | start h =>
    rw [h]
    exact List.forall_mem_nil _
  | @delivered bodies s tag body now _ ih =>
    have hbefore : ∀ d ∈ s.registry.documents, Upholds (MadeFrom (body :: bodies)) d := by
      refine fun d hd => (ih d hd).mono ?_
      rintro schema ⟨earlier, hmem, hmade⟩
      exact ⟨earlier, .tail body hmem, hmade⟩
    rcases registry_after tag body now s with hsame | ⟨message, task, e, v, hasks, hverdict, hafter⟩
    · rwa [hsame]
    · rw [hafter]
      refine upholds_of_verdict hbefore (fun raw given schema hgives hcreate => ?_) hasks hverdict
      exact ⟨body, .head _, raw, given, hgives, hcreate⟩
  | meanwhile _ hsame ih => rwa [hsame]

end

theorem Gives.nodup_keys {body : List UInt8} {raw : Bool} {properties : List (String × Value)}
    (h : Gives body raw (.object properties)) : (Assoc.keys properties).Nodup := by
  obtain ⟨message, flag, hread, hgiven, -⟩ := h
  have hdistinct := Value.distinct_of_member (distinct_of_readMessage hread) hgiven
  exact (Value.distinct_object_iff.mp hdistinct).1

theorem create_cases {raw : Bool} {given schema : Value}
    (h : Schema.create raw given = .ok schema) :
    (raw ∧ given = schema ∧ checkSchema .seven schema = .ok ())
      ∨ raw = false ∧ ∃ properties, given = .object properties ∧ schema = record properties := by
  cases raw with
  | true =>
    obtain ⟨⟨⟩, hcheck, h⟩ := Outcome.bind_eq_ok.mp h
    cases h
    exact .inl ⟨rfl, rfl, hcheck⟩
  | false =>
    cases given with
    | object properties => exact .inr ⟨rfl, properties, rfl, (Except.ok.inj h).symm⟩
    | _ => cases h

theorem active_schema_well_formed_iff {bodies : List (List UInt8)} {s : Stores}
    (h : Reached bodies s) (d : Registry.Document) (hd : d ∈ s.registry.documents) :
    ∃ schema, Assoc.get? "active_schema" d = some schema
      ∧ ((∃ body ∈ bodies, Gives body true schema ∧ checkSchema .seven schema = .ok ())
        ∨ ∃ body ∈ bodies, ∃ properties, Gives body false (.object properties)
          ∧ schema = record properties
          ∧ (checkSchema .seven schema = .ok () ↔ ∀ m ∈ properties,
              Accepts true (depthLimit - 3) (origin .seven) Metaschema.seven m.2)
          ∧ ((∃ draft, admitted schema = .ok draft) ↔ ∀ m ∈ properties,
              Accepts true (depthLimit - 5) (origin .latest) Metaschema.latest m.2))
      ∧ (Draft.ofSchema .latest schema = .seven →
          (admitted schema = .ok .seven ↔ checkSchema .seven schema = .ok ()))
      ∧ ∀ fault, admitted schema = .error fault → ∀ items,
          (chunkErrors schema items).map ItemError.reason
            = items.map (fun _ => unexpected fault) := by
  obtain ⟨schema, hactive, body, hbody, raw, given, hgives, hcreate⟩ := (h.upholds d hd).active
  refine ⟨schema, hactive, ?_, admitted_seven_iff, fun fault => reasons_of_refused⟩
  rcases create_cases hcreate with ⟨rfl, rfl, hcheck⟩ | ⟨rfl, properties, rfl, rfl⟩
  · exact .inl ⟨body, hbody, hgives, hcheck⟩
  · exact .inr ⟨body, hbody, properties, hgives, rfl,
      checkSchema_record_seven_iff hgives.nodup_keys, admitted_record_iff hgives.nodup_keys⟩

theorem reached_handedIn {properties : List (String × Value)}
    (h : (Value.object properties).distinct) :
    ∃ t, Reached [handedInBody (.object properties) false] t ∧ t.registry.documents =
          [Registry.firstDocument (.str "people") (record properties) (Moment.mk 20).text] := by
  obtain ⟨t, hregistry, hrun⟩ := handling_run_of_verdict 1 (asks_handedIn h) rfl tracks_expecting
    (show Errand.upload.verdict (handedIn (.object properties) false) 0 ⟨20⟩ expecting.registry =
      .ok ⟨true, ⟨[Registry.firstDocument (.str "people") (record properties) _], true⟩⟩ from rfl)
    (fun _ => rfl)
  have hrun : (handleSchema 1 (handedInBody (.object properties) false) ⟨20⟩).run servers expecting
      = (.ok (), settled (.accepted 1) t) := hrun
  have hreached := Reached.delivered 1 (handedInBody (.object properties) false) ⟨20⟩
    (Reached.start (show expecting.registry.documents = [] from rfl))
  rw [hrun] at hreached
  exact ⟨_, hreached, congrArg Registry.Store.documents hregistry⟩

theorem gives_handedIn {properties : List (String × Value)}
    (h : (Value.object properties).distinct) {raw : Bool} {given : Value}
    (hgives : Gives (handedInBody (.object properties) false) raw given) :
    raw = false ∧ given = .object properties := by
  obtain ⟨message, flag, hread, hgiven, hflag, rfl⟩ := hgives
  have hasks := @asks_handedIn (.object properties) false h
  cases hasks.read.symm.trans hread
  cases hflag
  exact ⟨rfl, (Except.ok.inj hgiven).symm⟩

def anyMember : List (String × Value) :=
  [("note", .bool true)]

theorem any_member_stays_well_formed : ∃ t d,
    Reached [handedInBody (.object anyMember) false] t ∧ d ∈ t.registry.documents
      ∧ Assoc.get? "active_schema" d = some (record anyMember)
      ∧ checkSchema .seven (record anyMember) = .ok () := by
  have hdistinct : (Value.object anyMember).distinct = true := by decide
  obtain ⟨t, hreached, hdocuments⟩ := reached_handedIn hdistinct
  have hmem : Registry.firstDocument (.str "people") (record anyMember) (Moment.mk 20).text
      ∈ t.registry.documents := hdocuments ▸ List.mem_singleton_self _
  obtain ⟨schema, hactive, hsource, -⟩ := active_schema_well_formed_iff hreached _ hmem
  obtain rfl : record anyMember = schema := Option.some.inj hactive
  refine ⟨t, _, hreached, hmem, rfl, ?_⟩
  rcases hsource with ⟨body, hbody, -, hcheck⟩ | ⟨body, hbody, properties, hgives, -, hiff, -⟩
  · exact hcheck
  · rw [List.mem_singleton.mp hbody] at hgives
    obtain rfl := Value.object.inj (gives_handedIn hdistinct hgives).2
    refine hiff.mpr (List.forall_mem_singleton.mpr ?_)
    have hdepth : depthLimit - 3 = depthLimit - 4 + 1 := rfl
    rw [hdepth]
    exact accepts_seven_bool true

def numberMember : List (String × Value) :=
  [("a", .int 5)]

theorem number_becomes_active : ∃ t d fault,
    Reached [handedInBody (.object numberMember) false] t ∧ d ∈ t.registry.documents
      ∧ Assoc.get? "active_schema" d = some (record numberMember)
      ∧ checkSchema .seven (record numberMember) ≠ .ok ()
      ∧ chunkErrors (record numberMember) [.object [("a", .int 1)]] = [⟨0, unexpected fault⟩] := by
  obtain ⟨t, hreached, hdocuments⟩ := @reached_handedIn numberMember (by decide)
  cases hadmitted : admitted (record numberMember) with
  | ok draft =>
    have hmember := (admitted_record_iff (by decide)).mp ⟨draft, hadmitted⟩ _ List.mem_cons_self
    exact absurd (accepts_latest_iff.mp hmember).2.1 Bool.false_ne_true
  | error fault =>
    refine ⟨t, _, fault, hreached, hdocuments ▸ List.mem_singleton_self _, rfl, ?_, ?_⟩
    · intro hcheck
      have hmember := (checkSchema_record_seven_iff (by decide)).mp hcheck _ List.mem_cons_self
      exact absurd (accepts_seven_iff.mp hmember).1 Bool.false_ne_true
    · unfold chunkErrors
      rw [hadmitted]
      rfl

end SheetIntake.Worker
