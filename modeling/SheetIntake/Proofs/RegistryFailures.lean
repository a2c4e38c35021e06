import SheetIntake.Proofs.SchemaConsistency
import SheetIntake.Proofs.TaskRecords

/-!
# What fails in the registry changes nothing

A registry that cannot be reached stays so, and each request to one that can be is one step. So a
schema that could not be saved (`ends_saveSchema_unchanged`) or not be taken back
(`ends_removeSchema_distinct`) has left the registry as it was, whatever was in it.
-/

namespace SheetIntake.Registry

theorem reachable_servers (request : Request) (s : Store) :
    (servers request s).2.reachable = s.reachable := by
  unfold servers
  split
  · exact Store.reachable_respond request s
  · rfl

theorem reachable_run {α : Type} (plan : Plan protocol α) (s : Store) :
    (plan.run servers s).2.reachable = s.reachable := by
  induction plan generalizing s with
  | done a => rfl
  | ask request next ih => exact (ih _ _).trans (reachable_servers request s)

section

variable {α : Type} {job : Job protocol α} {s : Store} {good : α → Store → Prop}

theorem eq_of_run {t : Store} {result : Except Fault α} (hrun : job.run servers s = (result, t))
    (h : t.documents = s.documents) : t = s := by
  have hreach := reachable_run (ExceptT.run job) s
  obtain ⟨documents, reachable⟩ := t
  obtain rfl : documents = s.documents := h
  obtain rfl : reachable = s.reachable := (congrArg (·.2.reachable) hrun).symm.trans hreach
  rfl

theorem ends_unchanged (h : Job.Ends servers job s good (fun _ t => t.documents = s.documents)) :
    Job.Ends servers job s good (fun _ t => t = s) := by
  rcases h with ⟨a, t, hrun, ht⟩ | ⟨fault, t, hrun, ht⟩
  · exact Job.ends_of_run_ok hrun ht
  · exact Job.ends_of_run_error hrun (eq_of_run hrun ht)

end

variable {importName schema : Value} {now : String} {s : Store}

theorem ends_activeSchema :
    Job.Ends servers (activeSchema importName) s (fun _ t => t = s) (fun _ t => t = s) := by
  have hends : Job.Ends servers (activeSchema importName) s
      (fun _ t => t.documents = s.documents) (fun _ t => t.documents = s.documents) := by
    refine (ends_findFirst serves_servers rfl _).bind fun found t ht => ?_
    cases found <;> exact Job.ends_of_run_ok rfl ht.2
  rcases hends with ⟨a, t, hrun, ht⟩ | ⟨fault, t, hrun, ht⟩
  · exact Job.ends_of_run_ok hrun (eq_of_run hrun ht)
  · exact Job.ends_of_run_error hrun (eq_of_run hrun ht)

theorem ends_saveSchema_unchanged : Job.Ends servers (saveSchema schema importName now) s
    (fun _ _ => True) (fun _ t => t = s) :=
  ends_unchanged (@ends_saveSchema _ _ _ serves_servers s importName schema now (fun _ => True)
    (fun _ _ _ _ _ => trivial) (fun _ _ => trivial) (fun _ _ _ _ _ _ _ _ => trivial))

theorem distinct_answer (status : String) (result : UpdateResult) :
    (Value.object (("status", .str status) :: result.members)).distinct := by
  have hnames : ["status", "n", "nModified", "ok", "updatedExisting"].Nodup := by decide
  refine Value.distinct_object_iff.mpr ⟨hnames, ?_⟩
  simp [UpdateResult.members, Value.distinct]

theorem ends_removeSchema_distinct : Job.Ends servers (removeSchema importName now) s
    (fun v _ => v.distinct) (fun _ t => t = s) :=
  ends_unchanged (@ends_removeSchema _ _ _ serves_servers s importName now
    (fun v _ => v.distinct) (fun _ => rfl)
    (fun _ _ _ _ _ _ _ _ _ _ _ result => distinct_answer _ result))

end SheetIntake.Registry
