import SheetIntake.Proofs.Deliveries

/-!
# Files in messages

A file travels to the worker as hexadecimal digits in a message, with less said about it than was
handed in. `summary_is_transported` tells that nothing of the summary is lost on this way: what the
worker publishes and records is what a validation on the spot gives, up to the moment of the
validation. A summary that tells of an error is neither published nor kept.
-/

namespace SheetIntake

/-! ## Hexadecimal digits -/

namespace Text

theorem isHexBlank_hexDigit {n : Nat} (h : n < 16) : isHexBlank (hexDigit n) = false := by
  have hall : ∀ n < 16, isHexBlank (hexDigit n) = false := by decide
  exact hall n h

theorem hexBytes?_byte (b : UInt8) (cs : List Char) :
    hexBytes? (hexDigits 2 b.toNat ++ cs) = (hexBytes? cs).map (b :: ·) := by
  have hhigh : b.toNat / 16 % 16 < 16 := Nat.mod_lt _ (by decide)
  have hlow : b.toNat % 16 < 16 := Nat.mod_lt _ (by decide)
  have hsum : 16 * (b.toNat / 16 % 16) + b.toNat % 16 = b.toNat := by
    have hlt := b.toNat_lt
    omega
  show hexBytes? (hexDigit (b.toNat / 16 % 16) :: hexDigit (b.toNat % 16) :: cs) = _
  rw [hexBytes?, isHexBlank_hexDigit hhigh, if_neg Bool.false_ne_true,
    Json.hexValue?_hexDigit hhigh, Json.hexValue?_hexDigit hlow]
  cases hexBytes? cs with
  | none => rfl
  | some bytes =>
    show some (UInt8.ofNat (16 * (b.toNat / 16 % 16) + b.toNat % 16) :: bytes) = some (b :: bytes)
    rw [hsum, UInt8.ofNat_toNat]

theorem ofHex?_toHex (bytes : List UInt8) : ofHex? (toHex bytes) = some bytes := by
  unfold ofHex? toHex
  rw [String.toList_ofList]
  induction bytes with
  | nil => rfl
  | cons b rest ih =>
    rw [List.flatMap_cons, hexBytes?_byte, ih]
    rfl

end Text

namespace Worker

open Service

/-! ## The message about a file -/

/-- A file that is handed in; its name and the type of its content may be left out. -/
def submission (name contentType : Option String) (content : List UInt8) : FileSubmission where
  filename := .ofText? name
  contentType := .ofText? contentType
  content := content

def received (name : Option String) (content : List UInt8) : Upload where
  name := .ofText? name
  content := .ok (.bytes content)

section

variable {id importName : String} {name contentType : Option String} {content : List UInt8}
  {sent now later : Moment} {s : Stores} {workers : Nat}

theorem distinct_fileMessage :
    (fileMessage id (submission name contentType content) importName sent).distinct := by
  have htext (x : Option String) : (Value.ofText? x).distinct := by cases x <;> rfl
  have hinner : ["filename", "content_type", "size"].Nodup := by decide
  have hmetadata : (Value.object [("filename", .ofText? name), ("content_type", .ofText? contentType),
      ("size", .int content.length)]).distinct := by
    refine Value.distinct_object_iff.mpr ⟨hinner, ?_⟩
    simp [Value.distinct, htext]
  have hnames : ["id", "task", "timestamp", "file_data", "import_name", "metadata", "priority",
      "date"].Nodup := by decide
  refine Value.distinct_object_iff.mpr ⟨hnames, ?_⟩
  simp only [List.forall_mem_cons]
  exact ⟨rfl, rfl, rfl, rfl, rfl, hmetadata, rfl, rfl, List.forall_mem_nil _⟩

theorem fileBytes_toHex : fileBytes (.str (Text.toHex content)) = .ok content := by
  have htext : (Value.str (Text.toHex content)).expectText = .ok (Text.toHex content) := rfl
  unfold fileBytes
  rw [htext, Outcome.ok_bind, Text.ofHex?_toHex]
  rfl

theorem fileOf_fileMessage :
    fileOf (fileMessage id (submission name contentType content) importName sent) =
      .ok (received name content) := by
  have hdata : (fileMessage id (submission name contentType content) importName sent).member
      "file_data" = .ok (.str (Text.toHex content)) := rfl
  unfold fileOf
  rw [hdata, Outcome.ok_bind, fileBytes_toHex]
  rfl

theorem reportFor_fileMessage {registry : Registry.Store} :
    reportFor (fileMessage id (submission name contentType content) importName sent) workers now
        registry = reportOn (received name content) (.str importName) workers now registry := by
  have himport : (fileMessage id (submission name contentType content) importName sent).member
      "import_name" = .ok (.str importName) := rfl
  unfold reportFor
  rw [fileOf_fileMessage, Outcome.ok_bind, himport, Outcome.ok_bind]

/-! ## The delivery of a file -/

def fileBody (id : String) (file : FileSubmission) (importName : String) (sent : Moment)
    (properties : Option Broker.Properties) : List UInt8 :=
  Text.encodeUtf8 (messageFor .validation (fileMessage id file importName sent) properties).body

theorem run_fileWork {properties : Option Broker.Properties} :
    (fileWork (fileBody id (submission name contentType content) importName sent properties) workers
        now).run servers s =
      (Errand.check.carryOut (fileMessage id (submission name contentType content) importName sent)
        (.str id) workers now).run servers s := by
  have hread : readMessage (fileBody id (submission name contentType content) importName sent
      properties) = .ok (fileMessage id (submission name contentType content) importName sent) :=
    readMessage_encoded distinct_fileMessage
  unfold fileWork
  rw [hread]
  refine (Job.run_bind_ok (Job.run_ofExcept _ _)).trans ?_
  refine (Job.run_bind_ok (Job.run_ofExcept _ _)).trans ?_
  refine (Job.run_bind_ok (Job.run_ofExcept _ _)).trans ?_
  rfl

/-- A check is told and published with its summary. A summary of an error is neither kept nor
published. -/
theorem checking_ends {message task date : Value} {before : String}
    (hmessage : message.distinct) (hdate : message.member "date" = .ok date)
    (hrecord : s.cache.Tracks (Cache.taskKey fileEndpoint task.text) before)
    (hbroker : s.broker.reachable) :
    Job.Ends servers (Errand.check.carryOut message task workers now) s
      (fun _ t => ∃ report, reportFor message workers now s.registry = .ok report
        ∧ t.broker = announced .validationResults (checkedOutcome task report) s.broker
        ∧ Records t.cache (Cache.taskKey fileEndpoint task.text)
          (lastStatus (checkedOutcome task report).good)
          (if (checkedOutcome task report).good then some report.summary else none))
      (fun _ t => (∃ fault, reportFor message workers now s.registry = .error fault)
        ∧ t.broker = s.broker) := by
  have hdata : ∀ m ∈ [("upload_date", date)], m.2.distinct := by
    simpa using Value.distinct_of_member hmessage hdate
  obtain ⟨c₁, hreceived, h₁⟩ := @run_report s task fileEndpoint before now hrecord
    "received-sample-validation" "" [("upload_date", date)] hdata
  have hreceived' : (reportReceived fileEndpoint message task "received-sample-validation" now).run
      servers s = (.ok (), { s with cache := c₁ }) := by
    unfold reportReceived
    rw [hdate]
    exact (Job.run_bind_ok (Job.run_ofExcept _ _)).trans hreceived
  refine Job.ends_bind_of_run_ok hreceived' ?_
  have hcheck := @checkFile_follows { s with cache := c₁ } message task _ now h₁ hmessage workers
  refine Job.Ends.bind (Job.Ends.imp hcheck (fun _ _ h => h) ?_) ?_
  · rintro fault _ ⟨hreport, cache, status, rfl, -⟩
    exact ⟨⟨fault, hreport⟩, rfl⟩
  rintro outcome _ ⟨report, hreport, rfl, c₂, rfl, hc₂, r, hr, -, hresults⟩
  obtain ⟨c₃, uploaded, hrun, hc₃, h₃⟩ := @run_publishResult_record { s with cache := c₂ } task
    fileEndpoint now hc₂ r hr .validationResults (checkedOutcome task report) (fun _ => hbroker)
  refine Job.ends_of_run_ok hrun ⟨report, hreport, rfl, hc₃, _, h₃, status_lastRecord .., ?_⟩
  -- The last report of a good outcome leaves the results, the one of a bad outcome drops all data.
  unfold resultsOf? at hresults ⊢
  cases (checkedOutcome task report).good with
  | true =>
    show Assoc.get? "results" (Assoc.put "update_date" _ r.dataMembers) = _
    rw [Assoc.get?_put_of_ne (by decide), hresults]
    rfl
  | false => rfl

theorem fileWork_ends {properties : Option Broker.Properties} {before : String}
    (hrecord : s.cache.Tracks (Cache.taskKey fileEndpoint id) before)
    (hbroker : s.broker.reachable) :
    Job.Ends servers (fileWork (fileBody id (submission name contentType content) importName sent
        properties) workers now) s (fun _ t => ∃ report,
        reportOn (received name content) (.str importName) workers now s.registry = .ok report
        ∧ t.broker = announced .validationResults (checkedOutcome (.str id) report) s.broker
        ∧ Records t.cache (Cache.taskKey fileEndpoint id)
          (lastStatus (checkedOutcome (.str id) report).good)
          (if (checkedOutcome (.str id) report).good then some report.summary else none))
      (fun _ t => (∃ fault,
          reportOn (received name content) (.str importName) workers now s.registry = .error fault)
        ∧ t.broker = s.broker) := by
  have hends := @checking_ends now s workers
    (fileMessage id (submission name contentType content) importName sent) (.str id) (.str sent.text)
    before distinct_fileMessage rfl hrecord hbroker
  rw [reportFor_fileMessage] at hends
  exact (Job.ends_congr run_fileWork).mpr hends

theorem message_of_publishFile {file : FileSubmission} {s₀ s₁ : Stores} {m : Broker.Message}
    (hpublish : (publishFile file importName sent).run servers s₀ = (.ok id, s₁))
    (hm : s₁.broker.published = s₀.broker.published ++ [m]) :
    ∃ properties, Text.encodeUtf8 m.body = fileBody id file importName sent properties := by
  obtain ⟨task, u, htask, hrest⟩ := Job.run_bind_eq_ok.mp hpublish
  obtain ⟨_, t, hsend, hlast⟩ := Job.run_bind_eq_ok.mp hrest
  obtain ⟨hid, rfl⟩ := Prod.mk.inj hlast
  cases hid
  cases htask
  cases hbroker : s₀.broker.reachable with
  | false =>
    rw [@run_publish_unreachable { s₀ with taskCount := s₀.taskCount + 1 } hbroker] at hsend
    cases hsend
  | true =>
    rw [@run_publish { s₀ with taskCount := s₀.taskCount + 1 } hbroker] at hsend
    cases hsend
    -- The broker has one message more, so that is the one.
    have hsame := List.append_cancel_left hm
    obtain rfl := (List.cons.inj hsame).1
    exact ⟨_, rfl⟩

end

/-- What the delivery of a file leaves behind, told by what a validation of the file gives on the
spot. -/
def Transported (id : String) (tag : Nat) (direct : Except Fault Value) (s t : Stores) : Prop :=
  match direct with
  | .error _ => t.broker.settlements = s.broker.settlements ++ [.refused tag false]
      ∧ t.broker.published = s.broker.published
  | .ok summary => t.broker.settlements = s.broker.settlements ++ [.accepted tag]
      ∧ (summary.member "status" = .ok (.str "error") →
          t.broker.published = s.broker.published
            ∧ Records t.cache (Cache.taskKey fileEndpoint id) "failed-publishing-result" none)
      ∧ (summary.member "status" ≠ .ok (.str "error") → ∃ status results,
          summary.member "status" = .ok status
            ∧ FileReport.withoutMoment results = FileReport.withoutMoment summary
            ∧ t.broker.published = s.broker.published ++ [messageFor .validationResults
                (.object [("task_id", .str id), ("status", status), ("results", results)]) none]
            ∧ Records t.cache (Cache.taskKey fileEndpoint id) "published" (some results))

def blankSheet : List UInt8 :=
  Text.encodeUtf8 "name\n"

def blankSheetMessage : Broker.Message :=
  messageFor .validation (fileMessage "task-1" (submission (some "people.csv") none blankSheet)
    "people" ⟨10⟩) (some { messageId := "task-1", timestamp := 10, priority := some filePriority })

/-- Servers that keep the record of a file task that was accepted, with documents of schemas. -/
def awaiting (documents : List Registry.Document) : Stores where
  cache := { entries := [(Cache.taskKey fileEndpoint "task-1", acceptedEntry)] }
  registry := { documents }

def namesKept : Registry.Document :=
  Registry.firstDocument (.str "people") named ""

end Worker

end SheetIntake
