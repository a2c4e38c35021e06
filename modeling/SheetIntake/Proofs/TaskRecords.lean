import SheetIntake.Cache.Task
import SheetIntake.Proofs.JsonRoundTrip
import SheetIntake.Proofs.Outcome
import SheetIntake.Proofs.PlanViews

/-!
# Task records in the cache

A record is kept as fields whose texts are read back as its parts. As long as the fields tell a
record with an object for its data, updates succeed, and the record that is kept afterwards is the
updated one.

* `run_getTask` — such a record is read back.
-/

namespace SheetIntake

open Assoc (get? get?_put_of_ne get?_put_self keys merge put)
open Value (object str truthy)

namespace Assoc

variable {α β : Type} [DecidableEq α]

theorem get?_put (key other : α) (value : β) (entries : List (α × β)) :
    get? other (put key value entries) = if other = key then some value else get? other entries := by
  split
  · next h => rw [h, get?_put_self]
  · next h => rw [get?_put_of_ne h]

theorem keys_put (key : α) (value : β) (entries : List (α × β)) : keys (put key value entries) =
      if key ∈ keys entries then keys entries else keys entries ++ [key] := by
  induction entries with
  | nil => rfl
  | cons e rest ih =>
    obtain ⟨k, v⟩ := e
    rw [put]
    by_cases hk : k = key
    · rw [if_pos hk, if_pos (by simp [keys, hk])]
      rfl
    · rw [if_neg hk]
      have hcons : keys ((k, v) :: put key value rest) = k :: keys (put key value rest) := rfl
      have hrest : keys ((k, v) :: rest) = k :: keys rest := rfl
      rw [hcons, hrest, ih]
      by_cases hmem : key ∈ keys rest
      · rw [if_pos hmem, if_pos (.tail k hmem)]
      · have hnot : key ∉ k :: keys rest := by simp [hmem, Ne.symm hk]
        rw [if_neg hmem, if_neg hnot]
        rfl

theorem nodup_keys_put {key : α} {value : β} {entries : List (α × β)} (h : (keys entries).Nodup) :
    (keys (put key value entries)).Nodup := by
  rw [keys_put]
  split
  · exact h
  · next hmem => exact h.append (List.nodup_singleton key) (by simpa using hmem)

theorem mem_put {key : α} {value : β} {entries : List (α × β)} {e : α × β}
    (h : e ∈ put key value entries) : e ∈ entries ∨ e.2 = value := by
  induction entries with
  | nil => exact .inr (by rw [List.mem_singleton.mp h])
  | cons first rest ih =>
    rw [put] at h
    split at h
    · rcases List.mem_cons.mp h with rfl | h
      · exact .inr rfl
      · exact .inl (.tail _ h)
    · rcases List.mem_cons.mp h with rfl | h
      · exact .inl (.head _)
      · exact (ih h).imp (.tail _) id

end Assoc

theorem Value.distinct_object_iff {members : List (String × Value)} :
    (object members).distinct ↔ (keys members).Nodup ∧ ∀ m ∈ members, m.2.distinct := by
  rw [Value.distinct, Bool.and_eq_true, decide_eq_true_eq, Value.distinctMembers_iff]

theorem Value.distinct_merge {present added : List (String × Value)}
    (hpresent : (object present).distinct) (hadded : ∀ m ∈ added, m.2.distinct) :
    (object (merge present added)).distinct := by
  induction added generalizing present with
  | nil => exact hpresent
  | cons m rest ih =>
    obtain ⟨hfirst, hrest⟩ := List.forall_mem_cons.mp hadded
    refine ih ?_ hrest
    obtain ⟨hnodup, hvalues⟩ := Value.distinct_object_iff.mp hpresent
    refine Value.distinct_object_iff.mpr ⟨Assoc.nodup_keys_put hnodup, fun e he => ?_⟩
    rcases Assoc.mem_put he with he | he
    · exact hvalues e he
    · rw [he]
      exact hfirst

namespace TaskRecord

def dataMembers (r : TaskRecord) : List (String × Value) :=
  match r.data with
  | .object members => members
  | _ => []

/-- The record with a message, unless that is empty, and with data added to the present ones or put
in their place. -/
def revised (r : TaskRecord) (message : String) (added : List (String × Value)) (reset : Bool) :
    TaskRecord :=
  { r with
    message := if message = "" then r.message else message
    data := .object (Assoc.merge (if reset then [] else r.dataMembers) added) }

end TaskRecord

namespace Cache

/-! ## The store, key by key -/

namespace Store

variable {c : Store} {key other : String} {content : Content}

@[simp]
theorem content?_replace_self : (c.replace key content).content? key = some content := by
  unfold replace content?
  rw [get?_put_self]
  rfl

theorem content?_replace_of_ne (h : other ≠ key) :
    (c.replace key content).content? other = c.content? other := by
  unfold replace content?
  rw [get?_put_of_ne h]

@[simp]
theorem reachable_replace : (c.replace key content).reachable = c.reachable := rfl

theorem membersOf_congr {c' : Store} (h : c'.content? key = c.content? key) :
    c'.membersOf key = c.membersOf key := by
  rw [membersOf, membersOf, h]

theorem fieldsOf_of_content? {fields : List (String × String)}
    (h : c.content? key = some (.fields fields)) : c.fieldsOf key = .ok fields := by
  rw [fieldsOf, h]

end Store

theorem servers_of_reachable {c : Store} (h : c.reachable) (request : Request) :
    servers request c = c.respond request := if_pos h

theorem servers_setFields {c : Store} (hc : c.reachable) {key : String}
    {fields texts : List (String × String)} {added : List (String × Value)}
    (hfields : c.fieldsOf key = .ok fields)
    (hadded : added.mapM (fun f => do return (f.1, ← stored f.2)) = .ok texts) :
    servers (.setFields key added) c = (.ok (), c.replace key (.fields (merge fields texts))) := by
  rw [servers_of_reachable hc]
  unfold Store.respond
  dsimp only
  rw [hadded, Outcome.ok_bind, Store.withFields, hfields]
  rfl

theorem servers_addMember {c : Store} (hc : c.reachable) {key : String}
    {members : List String} (hmembers : c.membersOf key = .ok members) (text : String) :
    servers (.addMember key (.str text)) c =
      (.ok (), c.replace key (.members (if text ∈ members then members else members ++ [text]))) := by
  rw [servers_of_reachable hc]
  unfold Store.respond stored
  dsimp only
  rw [Outcome.ok_bind, Store.withMembers, hmembers]
  rfl

theorem taskKey_ne_importKey (endpoint task name : String) :
    taskKey endpoint task ≠ importKey endpoint name := by
  unfold taskKey importKey
  intro h
  have hchars := congrArg String.toList h
  simp at hchars

/-! ## Records -/

/-- The fields of a record, whose data are an object. -/
structure Tells (fields : List (String × String)) (r : TaskRecord) : Prop where
  status : Assoc.get? "status" fields = some r.status
  code : ∃ text, Assoc.get? "code" fields = some text ∧ Form.integer? (.str text) = some r.code
  message : Assoc.get? "message" fields = some r.message
  data : ∃ text, Assoc.get? "data" fields = some text ∧ Json.read text = .ok r.data
  object : ∃ members, r.data = .object members
  distinct : r.data.distinct = true

variable {fields : List (String × String)} {r : TaskRecord}

theorem Tells.ofMembers (h : Tells fields r) :
    ∃ members, recordMembers fields = .ok members ∧ TaskRecord.ofMembers members = .ok r := by
  obtain ⟨text, htext, hread⟩ := h.data
  obtain ⟨code, hcode, hinteger⟩ := h.code
  obtain ⟨members, hmembers⟩ := h.object
  refine ⟨put "data" r.data (fields.map (fun f => (f.1, str f.2))), ?_, ?_⟩
  · unfold recordMembers
    rw [htext]
    simp only [parsed, hread]
    rfl
  · have hget : ∀ name, name ≠ "data" → get? name
        (put "data" r.data (fields.map (fun f => (f.1, str f.2)))) =
          (get? name fields).map str := by
      intro name hname
      rw [get?_put_of_ne hname, Assoc.get?_map (fun _ => str)]
    unfold TaskRecord.ofMembers Form.required
    rw [hget "status" (by decide), hget "code" (by decide), hget "message" (by decide),
      get?_put_self, h.status, hcode, h.message, hmembers]
    simp only [Option.map_some, Option.bind_some, Form.text?, hinteger, TaskRecord.dataOf?,
      Form.fill, Form.result]
    rw [← hmembers]

theorem Tells.put_status (h : Tells fields r) (status : String) :
    Tells (put "status" status fields) { r with status } := by
  refine ⟨get?_put_self .., ?_, ?_, ?_, h.object, h.distinct⟩
  · rw [get?_put_of_ne (by decide)]; exact h.code
  · rw [get?_put_of_ne (by decide)]; exact h.message
  · rw [get?_put_of_ne (by decide)]; exact h.data

theorem Tells.put_message (h : Tells fields r) (message : String) :
    Tells (put "message" message fields) { r with message } := by
  refine ⟨?_, ?_, get?_put_self .., ?_, h.object, h.distinct⟩
  · rw [get?_put_of_ne (by decide)]; exact h.status
  · rw [get?_put_of_ne (by decide)]; exact h.code
  · rw [get?_put_of_ne (by decide)]; exact h.data

theorem tells_put_data (hstatus : get? "status" fields = some r.status)
    (hcode : ∃ text, get? "code" fields = some text ∧ Form.integer? (.str text) = some r.code)
    (hmessage : get? "message" fields = some r.message) {members : List (String × Value)}
    (hmembers : (object members).distinct) :
    Tells (put "data" (Json.write .line (.object members)) fields)
      { r with data := .object members } := by
  refine ⟨?_, ?_, ?_, ⟨_, get?_put_self .., Json.read_write .line hmembers⟩, ⟨members, rfl⟩,
    hmembers⟩
  · rw [get?_put_of_ne (by decide)]; exact hstatus
  · rw [get?_put_of_ne (by decide)]; exact hcode
  · rw [get?_put_of_ne (by decide)]; exact hmessage

/-- A record is kept under a key. -/
def Store.Holds (c : Store) (key : String) (r : TaskRecord) : Prop :=
  ∃ fields, c.content? key = some (.fields fields) ∧ Tells fields r

variable {c : Store} {task endpoint : String}

theorem run_fields (hc : c.reachable) {key : String} {found : List (String × String)}
    (hfound : c.fieldsOf key = .ok found) : (Cache.fields key).run servers c = (.ok found, c) :=
  (servers_of_reachable hc (.fields key)).trans (congrArg (Prod.mk · c) hfound)

theorem run_getTask (hc : c.reachable) (h : c.Holds (taskKey endpoint task) r) :
    (getTask task endpoint).run servers c = (.ok (some r), c) := by
  obtain ⟨found, hfound, htells⟩ := h
  obtain ⟨members, hmembers, hrecord⟩ := htells.ofMembers
  unfold getTask
  rw [Job.run_bind_ok (run_fields hc (Store.fieldsOf_of_content? hfound)), hmembers,
    Job.run_bind_ok (Job.run_ofExcept _ _), hrecord]
  rfl

def statusUpdate (status message : String) (added : List (String × Value)) (reset : Bool) :
    TaskUpdate :=
  { value := .str status, message := .str message, data := .object added, resetData := reset }

/-- The part of an update that sets the message, unless it is empty. -/
def updateMessage (key : String) (message : Value) : Job protocol Unit :=
  if message.truthy then setFields key [("message", message)] else pure ()

/-- The part of an update that puts data into the present ones or in their place. -/
def updateData (task : Value) (endpoint : String) (u : TaskUpdate) : Job protocol Unit :=
  if u.data.truthy then do
    let present ← if u.resetData then pure (.object []) else do
      match ← getTask task.text endpoint with
      | some record => pure record.data
      | none => throw (.noSuchOperation "NoneType" "data")
    let present ← Job.ofExcept (dataMembers present)
    let added ← Job.ofExcept (dataMembers u.data)
    setFields (taskKey endpoint task.text)
      [("data", .str (Json.write .line (.object (Assoc.merge present added))))]
  else pure ()

/-- An update that sets a field to a text, in its three parts. -/
theorem updateTask_of_text {u : TaskUpdate} {text : String} (hvalue : u.value = .str text)
    (task endpoint : String) :
    updateTask (.str task) endpoint u = (do
      setFields (taskKey endpoint task) [(u.field, .str text)]
      updateMessage (taskKey endpoint task) u.message
      updateData (.str task) endpoint u) := by
  unfold updateTask updateMessage
  rw [hvalue]
  cases hmessage : u.message.truthy with
  | true | false => rfl

theorem updateTask_eq (task endpoint status message : String) (added : List (String × Value))
    (reset : Bool) :
    updateTask (.str task) endpoint (statusUpdate status message added reset) = (do
      setFields (taskKey endpoint task) [("status", .str status)]
      updateMessage (taskKey endpoint task) (.str message)
      updateData (.str task) endpoint (statusUpdate status message added reset)) :=
  updateTask_of_text rfl task endpoint

theorem run_setField (hc : c.reachable) {key name text : String}
    {found : List (String × String)} (hfound : c.content? key = some (.fields found)) :
    (setFields key [(name, .str text)]).run servers c =
      (.ok (), c.replace key (.fields (put name text found))) :=
  @servers_setFields c hc key found [(name, text)] [(name, .str text)]
    (Store.fieldsOf_of_content? hfound) rfl

/-- A job succeeds and leaves a record under a key. -/
def Store.Becomes (c : Store) (job : Job protocol Unit) (key : String) (r : TaskRecord) : Prop :=
  ∃ c', job.run servers c = (.ok (), c') ∧ c'.reachable = true ∧ c'.Holds key r

section

variable (hc : c.reachable = true) (h : c.Holds (taskKey endpoint task) r)

include hc h

theorem run_updateMessage (message : String) :
    c.Becomes (updateMessage (taskKey endpoint task) (.str message)) (taskKey endpoint task)
      { r with message := if message = "" then r.message else message } := by
  unfold updateMessage
  by_cases hempty : message = ""
  · rw [if_neg (by simp [truthy, hempty]), if_pos hempty]
    exact ⟨c, rfl, hc, h⟩
  · obtain ⟨found, hfound, htells⟩ := h
    rw [if_pos (by simpa [truthy] using hempty), if_neg hempty]
    exact ⟨c.replace (taskKey endpoint task) (.fields (put "message" message found)),
      run_setField hc hfound, hc, _, Store.content?_replace_self, htells.put_message message⟩

variable (status message : String) {added : List (String × Value)} (hne : added ≠ [])
  (hadded : ∀ m ∈ added, m.2.distinct = true) (reset : Bool)

include hne hadded

theorem run_updateData :
    c.Becomes (updateData (.str task) endpoint (statusUpdate status message added reset))
      (taskKey endpoint task)
      { r with data := .object (merge (if reset then [] else r.dataMembers) added) } := by
  have htruthy : (object added).truthy := by simp [truthy, hne]
  have hget := run_getTask hc h
  obtain ⟨found, hfound, htells⟩ := h
  obtain ⟨present, hpresent⟩ := htells.object
  have hdistinct : (object present).distinct := hpresent ▸ htells.distinct
  have hmembers : r.dataMembers = present := by rw [TaskRecord.dataMembers, hpresent]
  -- What is kept does not depend on where the data come from, as long as their names are distinct.
  have hstore : ∀ base : List (String × Value), (object base).distinct →
      c.Becomes (setFields (taskKey endpoint task)
          [("data", .str (Json.write .line (.object (merge base added))))])
        (taskKey endpoint task) { r with data := .object (merge base added) } := by
    intro base hbase
    exact ⟨_, run_setField hc hfound, hc, _, Store.content?_replace_self,
      tells_put_data htells.status htells.code htells.message (Value.distinct_merge hbase hadded)⟩
  unfold updateData statusUpdate
  rw [if_pos htruthy]
  cases reset with
  | true => exact hstore [] rfl
  | false =>
    obtain ⟨c', hrun, hrest⟩ := hstore present hdistinct
    rw [hmembers]
    refine ⟨c', ?_, hrest⟩
    refine (Job.run_bind_ok hget).trans ?_
    dsimp only
    rw [hpresent]
    exact hrun

theorem run_updateTask :
    c.Becomes (updateTask (.str task) endpoint (statusUpdate status message added reset))
      (taskKey endpoint task) ({ r with status }.revised message added reset) := by
  obtain ⟨found, hfound, htells⟩ := h
  have hstatus : (c.replace (taskKey endpoint task)
      (.fields (put "status" status found))).Holds (taskKey endpoint task) { r with status } :=
    ⟨_, Store.content?_replace_self, htells.put_status status⟩
  have hreach : (c.replace (taskKey endpoint task)
      (.fields (put "status" status found))).reachable := hc
  obtain ⟨c₁, hmessage, hc₁, h₁⟩ := run_updateMessage hreach hstatus message
  obtain ⟨c₂, hdata, hc₂, h₂⟩ := run_updateData hc₁ h₁ status message hne hadded reset
  refine ⟨c₂, ?_, hc₂, h₂⟩
  rw [updateTask_eq, Job.run_bind_ok (run_setField hc hfound), Job.run_bind_ok hmessage, hdata]

end

/-- The fields of a new record, as they are handed to the cache. -/
def recordFields (r : TaskRecord) : List (String × Value) :=
  [("status", .str r.status), ("code", .int r.code), ("message", .str r.message),
    ("data", .str (Json.write .line r.data))]

theorem servers_setRecord (hc : c.reachable) {key : String} {found : List (String × String)}
    (hfound : c.fieldsOf key = .ok found) {members : List (String × Value)}
    (hdata : r.data = .object members) (hdistinct : r.data.distinct) :
    ∃ fields, servers (.setFields key (recordFields r)) c = (.ok (), c.replace key (.fields fields))
      ∧ Tells fields r := by
  refine ⟨_, @servers_setFields c hc key found [("status", r.status), ("code", toString r.code),
    ("message", r.message), ("data", Json.write .line r.data)] _ hfound rfl, ?_⟩
  have hget : ∀ name, get? name (merge found [("status", r.status),
      ("code", toString r.code), ("message", r.message), ("data", Json.write .line r.data)]) =
      if name = "data" then some (Json.write .line r.data)
      else if name = "message" then some r.message
      else if name = "code" then some (toString r.code)
      else if name = "status" then some r.status
      else get? name found := by
    intro name
    simp only [merge, List.foldl_cons, List.foldl_nil, Assoc.get?_put]
  exact ⟨hget "status", ⟨_, hget "code", Json.readInt?_toString r.code⟩, hget "message",
    ⟨_, hget "data", Json.read_write .line hdistinct⟩, ⟨members, hdata⟩, hdistinct⟩

end Cache

end SheetIntake
