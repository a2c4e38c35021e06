import SheetIntake.Proofs.SchemaTasks

/-!
# Records that were read

The cache may hold anything under the key of a task. An update reads the record before it writes new
data, so an update that succeeds has met a record, and leaves one.

* `Json.distinct_of_read` — what is read from a text has no repeated names.
* `run_getTask_eq_some` — the fields from which a record was read.
-/

namespace SheetIntake

open Outcome (error_ne_ok)
open Assoc (get? get?_put_self put)
open Value (distinct distinct_merge object str)

/-! ## Values that were read -/

namespace Json

theorem distinct_of_readNumber {c next : Cursor} {v : Value} (h : readNumber c = .ok (v, next)) :
    v.distinct := by
  have hunsigned : ∀ (negative : Bool) (position : Nat) (start : List Char),
      readUnsigned negative position start = .ok (v, next) → v.distinct := by
    intro negative position start hread
    unfold readUnsigned at hread
    dsimp only at hread
    split at hread
    · cases hread
    split at hread
    · split at hread <;> cases hread <;> rw [distinct]
    · cases hread
      rw [distinct]
  unfold readNumber at h
  split at h <;> exact hunsigned _ _ _ h

theorem distinct_of_readAtom {c next : Cursor} {v : Value} (h : readAtom c = .ok (v, next)) :
    v.distinct := by
  have hwords : ∀ w ∈ words, w.2.distinct := by simp [words, distinct]
  unfold readAtom at h
  split at h
  · next word value hfind =>
    cases h
    exact hwords _ (List.mem_of_find?_eq_some hfind)
  · exact distinct_of_readNumber h

/-- What the readers give with some fuel has no repeated names, if what they were given has none. -/
structure DistinctAt (fuel : Nat) : Prop where
  value : ∀ {c next v}, readValue fuel c = .ok (v, next) → v.distinct = true
  items : ∀ {done c next v}, (∀ w ∈ done, w.distinct = true) →
    readItems fuel done c = .ok (v, next) → v.distinct = true
  members : ∀ {done c next v}, (Value.object done).distinct = true →
    readMembers fuel done c = .ok (v, next) → v.distinct = true

section

variable {fuel : Nat} {c next : Cursor} {v : Value}

theorem DistinctAt.readValue (ih : DistinctAt fuel) (h : readValue (fuel + 1) c = .ok (v, next)) :
    v.distinct := by
  rw [Json.readValue] at h
  split at h
  · split at h
    · cases h
      rw [distinct]
    · cases h
  · dsimp only at h
    split at h
    · cases h
      rfl
    · exact ih.items (List.forall_mem_nil _) h
  · dsimp only at h
    split at h
    · cases h
      rfl
    · exact ih.members rfl h
  · exact distinct_of_readAtom h

theorem DistinctAt.readItems (ih : DistinctAt fuel) {done : List Value}
    (hdone : ∀ w ∈ done, w.distinct) (h : readItems (fuel + 1) done c = .ok (v, next)) :
    v.distinct := by
  rw [Json.readItems] at h
  split at h
  · cases h
  · next w after hw =>
    have hitems : ∀ x ∈ w :: done, x.distinct :=
      List.forall_mem_cons.mpr ⟨ih.value hw, hdone⟩
    dsimp only at h
    split at h
    · cases h
      rw [distinct, Value.distinctItems_iff]
      exact fun x hx => hitems x (List.mem_reverse.mp hx)
    · exact ih.items hitems h
    · cases h

theorem DistinctAt.readMembers (ih : DistinctAt fuel) {done : List (String × Value)}
    (hdone : (object done).distinct)
    (h : readMembers (fuel + 1) done c = .ok (v, next)) : v.distinct := by
  -- A name that was there before keeps its place, so putting a member never repeats a name.
  have hput : ∀ {name w position rest after},
      Json.readValue fuel (Cursor.mk position rest).skipGaps = .ok (w, after) →
        (object (put name w done)).distinct := by
    intro name w position rest after hw
    exact @distinct_merge done [(name, w)] hdone (by simpa using ih.value hw)
  rw [Json.readMembers] at h
  split at h
  · split at h
    · cases h
    · dsimp only at h
      split at h
      · split at h
        · cases h
        · next hw =>
          split at h
          · cases h
            exact hput hw
          · exact ih.members (hput hw) h
          · cases h
      · cases h
  · cases h

end

theorem distinctAt (fuel : Nat) : DistinctAt fuel := by
  induction fuel with
  | zero =>
    refine ⟨fun h => ?_, fun _ h => ?_, fun _ h => ?_⟩
    · cases h
    · cases h
    · cases h
  | succ fuel ih => exact ⟨ih.readValue, ih.readItems, ih.readMembers⟩

theorem distinct_of_read {text : String} {v : Value} (h : read text = .ok v) : v.distinct := by
  have hchars : readChars text.toList = .ok v := by
    unfold read at h
    split at h
    · next w hw =>
      cases h
      exact hw
    · cases h
  unfold readChars at hchars
  split at hchars
  · cases hchars
  · split at hchars
    · cases hchars
    · next w next hw =>
      dsimp only at hchars
      split at hchars
      · cases hchars
        exact (distinctAt _).value hw
      · cases hchars

end Json

/-! ## Forms and records -/

namespace Form

variable {α β : Type}

theorem fill_eq_ok {x : Checked α} {f : Checked (α → β)} {b : β} :
    fill x f = .ok b ↔ ∃ g a, f = .ok g ∧ x = .ok a ∧ g a = b := by
  unfold fill
  cases f <;> cases x <;> simp

theorem required_eq_ok {members : List (String × Value)} {name : String} {read : Value → Option α}
    {a : α} : required members name read = .ok a ↔ (get? name members).bind read = some a := by
  unfold required
  cases (get? name members).bind read <;> simp

theorem result_eq_ok {x : Checked α} {a : α} : result x = .ok a ↔ x = .ok a := by
  cases x <;> simp [result]

end Form

namespace TaskRecord

theorem distinct_of_pairs? {items : List Value} {pairs : List (String × Value)}
    (h : pairs? items = some pairs) (hitems : ∀ v ∈ items, v.distinct) :
    ∀ m ∈ pairs, m.2.distinct := by
  induction items generalizing pairs with
  | nil =>
    cases h
    exact List.forall_mem_nil _
  | cons item rest ih =>
    unfold pairs? at h
    split at h
    · next heq => exact absurd heq (List.cons_ne_nil _ _)
    · next k v tail heq =>
      obtain ⟨rfl, rfl⟩ := List.cons.inj heq
      obtain ⟨more, hmore, rfl⟩ := Option.map_eq_some_iff.mp h
      obtain ⟨hpair, hrest⟩ := List.forall_mem_cons.mp hitems
      rw [distinct, Value.distinctItems_iff] at hpair
      exact List.forall_mem_cons.mpr ⟨hpair v (by simp), ih hmore hrest⟩
    · cases h

theorem distinct_of_dataOf? {given data : Value} (h : dataOf? given = some data)
    (hgiven : given.distinct) : data.distinct := by
  unfold dataOf? at h
  split at h
  · cases h
    exact hgiven
  · cases h
    exact hgiven
  · cases h
    rfl
  · next items =>
    obtain ⟨pairs, hpairs, rfl⟩ := Option.map_eq_some_iff.mp h
    rw [distinct, Value.distinctItems_iff] at hgiven
    exact distinct_merge rfl (distinct_of_pairs? hpairs hgiven)
  · cases h

theorem ofMembers_eq_ok {members : List (String × Value)} {r : TaskRecord}
    (h : ofMembers members = .ok r) : (get? "status" members).bind Form.text? = some r.status
      ∧ (get? "code" members).bind Form.integer? = some r.code
      ∧ (get? "message" members).bind Form.text? = some r.message
      ∧ ∀ given, get? "data" members = some given → dataOf? given = some r.data := by
  unfold ofMembers at h
  obtain ⟨ofData, data, hofData, hdata, rfl⟩ := Form.fill_eq_ok.mp (Form.result_eq_ok.mp h)
  obtain ⟨ofMessage, message, hofMessage, hmessage, rfl⟩ := Form.fill_eq_ok.mp hofData
  obtain ⟨ofCode, code, hofCode, hcode, rfl⟩ := Form.fill_eq_ok.mp hofMessage
  obtain ⟨ofStatus, status, hofStatus, hstatus, rfl⟩ := Form.fill_eq_ok.mp hofCode
  cases hofStatus
  refine ⟨Form.required_eq_ok.mp hstatus, Form.required_eq_ok.mp hcode,
    Form.required_eq_ok.mp hmessage, fun given hgiven => ?_⟩
  rw [hgiven] at hdata
  have hread := Form.required_eq_ok.mp hdata
  rw [hgiven] at hread
  exact hread

end TaskRecord

namespace Cache

/-- The fields of a record, whatever is known of its data. -/
structure Names (fields : List (String × String)) (r : TaskRecord) : Prop where
  status : Assoc.get? "status" fields = some r.status
  code : ∃ text, Assoc.get? "code" fields = some text ∧ Form.integer? (.str text) = some r.code
  message : Assoc.get? "message" fields = some r.message
  distinct : r.data.distinct = true

variable {members : List (String × Value)}

theorem names_of_ofMembers {fields : List (String × String)}
    {r : TaskRecord} (hmembers : recordMembers fields = .ok members)
    (hrecord : TaskRecord.ofMembers members = .ok r) : Names fields r := by
  obtain ⟨data, rfl, hdistinct⟩ : ∃ data,
      members = put "data" data (fields.map (fun f => (f.1, str f.2)))
        ∧ data.distinct := by
    unfold recordMembers at hmembers
    split at hmembers
    · next text htext =>
      obtain ⟨data, hdata, hput⟩ := Outcome.bind_eq_ok.mp hmembers
      unfold parsed at hdata
      split at hdata
      · next v hv =>
        cases hdata
        exact ⟨_, (Except.ok.inj hput).symm, Json.distinct_of_read hv⟩
      · cases hdata
    · exact ⟨_, (Except.ok.inj hmembers).symm, rfl⟩
  have hget : ∀ name, name ≠ "data" → get? name
      (put "data" data (fields.map (fun f => (f.1, str f.2)))) =
        (get? name fields).map str := by
    intro name hname
    rw [Assoc.get?_put_of_ne hname, Assoc.get?_map (fun _ => str)]
  obtain ⟨hstatus, hcode, hmessage, hread⟩ := TaskRecord.ofMembers_eq_ok hrecord
  rw [hget _ (by decide)] at hstatus hcode hmessage
  refine ⟨?_, ?_, ?_, TaskRecord.distinct_of_dataOf? (hread data (get?_put_self ..)) hdistinct⟩
  · cases htext : get? "status" fields with
    | none => simp [htext] at hstatus
    | some text => simpa [htext, Form.text?] using hstatus
  · cases htext : get? "code" fields with
    | none => simp [htext] at hcode
    | some text => exact ⟨text, rfl, by simpa [htext] using hcode⟩
  · cases htext : get? "message" fields with
    | none => simp [htext] at hmessage
    | some text => simpa [htext, Form.text?] using hmessage

theorem dataMembers_eq_ok {v : Value} : dataMembers v = .ok members ↔ v = .object members := by
  cases v <;> simp [dataMembers]

variable {c c' : Store} {task endpoint : String}

theorem run_getTask_eq_some {r : TaskRecord}
    (h : (getTask task endpoint).run servers c = (.ok (some r), c')) :
    c' = c ∧ ∃ found, c.fieldsOf (taskKey endpoint task) = .ok found ∧ Names found r := by
  obtain ⟨found, c₁, hfields, hrest⟩ := Job.run_bind_eq_ok.mp h
  obtain ⟨members, c₂, hread, hlast⟩ := Job.run_bind_eq_ok.mp hrest
  obtain ⟨hmembers, rfl⟩ := Prod.mk.inj hread
  obtain ⟨hfound, rfl⟩ : c.fieldsOf (taskKey endpoint task) = .ok found ∧ c₁ = c := by
    change servers (.fields (taskKey endpoint task)) c = _ at hfields
    unfold servers at hfields
    split at hfields
    · exact ⟨(Prod.mk.inj hfields).1, (Prod.mk.inj hfields).2.symm⟩
    · cases hfields
  split at hlast
  · next record hrecord =>
    obtain ⟨heq, rfl⟩ := Prod.mk.inj hlast
    cases heq
    exact ⟨rfl, found, hfound, names_of_ofMembers hmembers hrecord⟩
  · cases Except.ok.inj (Prod.mk.inj hlast).1

theorem run_setField_eq_ok {key name text : String}
    (h : (setFields key [(name, .str text)]).run servers c = (.ok (), c')) :
    c.reachable ∧ ∃ found, c.fieldsOf key = .ok found
      ∧ c' = c.replace key (.fields (put name text found)) := by
  change servers (.setFields key [(name, .str text)]) c = _ at h
  have htexts : [(name, str text)].mapM (fun f => do return (f.1, ← stored f.2)) =
      .ok [(name, text)] := rfl
  cases hreach : c.reachable with
  | false =>
    unfold servers at h
    rw [if_neg (by simp [hreach])] at h
    cases h
  | true =>
    cases hfound : c.fieldsOf key with
    | ok found =>
      have hset := servers_setFields hreach hfound htexts
      exact ⟨rfl, found, rfl, (Prod.mk.inj (h.symm.trans hset)).2⟩
    | error fault =>
      rw [servers_of_reachable hreach] at h
      unfold Store.respond at h
      dsimp only at h
      rw [htexts, Outcome.ok_bind, Store.withFields, hfound] at h
      cases h

theorem tracks_of_run_updateTask {status message : String} {added : List (String × Value)}
    (hne : added ≠ []) (hadded : ∀ m ∈ added, m.2.distinct)
    (h : (updateTask (.str task) endpoint (statusUpdate status message added false)).run servers c =
      (.ok (), c')) : c'.Tracks (taskKey endpoint task) status := by
  rw [updateTask_eq] at h
  obtain ⟨_, c₁, hstatus, hrest⟩ := Job.run_bind_eq_ok.mp h
  obtain ⟨_, c₂, hmessage, hdata⟩ := Job.run_bind_eq_ok.mp hrest
  -- The status is set first, and the message does not touch it.
  obtain ⟨hc, found, -, rfl⟩ := run_setField_eq_ok hstatus
  obtain ⟨hc₂, fields, hfields, hget⟩ : c₂.reachable ∧ ∃ fields,
      c₂.fieldsOf (taskKey endpoint task) = .ok fields
        ∧ get? "status" fields = some status := by
    have hset := @Store.fieldsOf_of_content? (c.replace (taskKey endpoint task)
      (.fields (put "status" status found))) _ _ Store.content?_replace_self
    unfold updateMessage at hmessage
    split at hmessage
    · obtain ⟨hc₁, fields, hfields, rfl⟩ := run_setField_eq_ok hmessage
      cases hset.symm.trans hfields
      refine ⟨hc₁, _, Store.fieldsOf_of_content? Store.content?_replace_self, ?_⟩
      rw [Assoc.get?_put_of_ne (by decide), get?_put_self]
    · cases hmessage
      exact ⟨hc, _, hset, get?_put_self ..⟩
  -- The record is read before its data are written, so it is one, and its status is the new one.
  unfold updateData statusUpdate at hdata
  rw [if_pos (by simp [Value.truthy, hne]), if_neg Bool.false_ne_true] at hdata
  obtain ⟨answer, c₃, hget', hwrite⟩ := Job.run_bind_eq_ok.mp hdata
  cases answer with
  | none => cases hwrite
  | some record =>
    obtain ⟨rfl, fields', hfields', hnames⟩ := run_getTask_eq_some hget'
    cases hfields.symm.trans hfields'
    obtain rfl : record.status = status := Option.some.inj (hnames.status.symm.trans hget)
    obtain ⟨data, hpure, hrest⟩ := Job.run_ofExcept_bind_eq_ok.mp hwrite
    obtain ⟨present, hpresent, hrest⟩ := Job.run_ofExcept_bind_eq_ok.mp hrest
    obtain ⟨pairs, hpairs, hset⟩ := Job.run_ofExcept_bind_eq_ok.mp hrest
    cases hpure
    cases hpairs
    obtain ⟨-, fields', hfields', rfl⟩ := run_setField_eq_ok hset
    cases hfields.symm.trans hfields'
    have hobject := dataMembers_eq_ok.mp hpresent
    have hdistinct : (object present).distinct := hobject ▸ hnames.distinct
    exact ⟨hc₂, _, ⟨_, Store.content?_replace_self,
      tells_put_data hnames.status hnames.code hnames.message
        (distinct_merge hdistinct hadded)⟩, rfl⟩

end Cache

end SheetIntake
