import SheetIntake.FormulaService.Node
import SheetIntake.Proofs.Outcome

/-!
# The tree of a message

A message is made into a document node by node. What is looked at is the message itself, both sides of
an operator or a range, and the arguments of a function; anything else that a message has is left out.

* `Message.visitInduction` — induction over them.
* `Message.document_exists_iff` — there is a document if all these nodes are known, and it has the same
  tree. Else the first unknown one is told.
-/

namespace SheetIntake

open Outcome

namespace FormulaService.Message

/-! ## Fields -/

def kind : Message → Int
  | .empty => 0
  | .node kind .. => kind

def operator : Message → String
  | .empty => ""
  | .node _ operator .. => operator

def left : Message → Message
  | .empty => .empty
  | .node _ _ left .. => left

def right : Message → Message
  | .empty => .empty
  | .node _ _ _ right .. => right

def name : Message → String
  | .empty => ""
  | .node _ _ _ _ name .. => name

def arguments : Message → List Message
  | .empty => []
  | .node _ _ _ _ _ arguments .. => arguments

/-- The number of the way in which a message refers to a cell. -/
def refKind : Message → Int
  | .empty => 0
  | .node _ _ _ _ _ _ refKind .. => refKind

def key : Message → String
  | .empty => ""
  | .node _ _ _ _ _ _ _ key .. => key

def number : Message → Binary64
  | .empty => .zero false
  | .node _ _ _ _ _ _ _ _ number .. => number

def logical : Message → Bool
  | .empty => false
  | .node _ _ _ _ _ _ _ _ _ logical _ => logical

def text : Message → String
  | .empty => ""
  | .node _ _ _ _ _ _ _ _ _ _ text => text

/-! ## The nodes that are visited -/

mutual

/-- The nodes of a message that are looked at: the message itself, both children of an operator or a
range, and the arguments of a function. -/
def visited : Message → List Message
  | .empty => [.empty]
  | .node kind operator left right name arguments refKind key number logical text =>
    .node kind operator left right name arguments refKind key number logical text ::
      match kind with
      | 1 | 2 => visited left ++ visited right
      | 3 => visitedOfAll arguments
      | _ => []

def visitedOfAll : List Message → List Message
  | [] => []
  | m :: rest => visited m ++ visitedOfAll rest

end

/-- The messages right below a message that are looked at. -/
def children (m : Message) : List Message :=
  if m.kind = 1 ∨ m.kind = 2 then [m.left, m.right] else if m.kind = 3 then m.arguments else []

@[elab_as_elim]
theorem visitInduction {P : Message → Prop} (node : ∀ m : Message, (∀ c ∈ m.children, P c) → P m)
    (m : Message) : P m := by
  refine @Message.rec P (fun ms => ∀ m ∈ ms, P m) (node .empty fun c hc => ?_) ?_
    (List.forall_mem_nil _) (fun m ms hm hms => List.forall_mem_cons.mpr ⟨hm, hms⟩) m
  · cases hc
  · intro kind operator left right name arguments refKind key number logical text hleft hright hall
    refine node _ fun c hc => ?_
    unfold children at hc
    split at hc
    · rcases List.mem_pair.mp hc with rfl | rfl
      · exact hleft
      · exact hright
    split at hc
    · exact hall c hc
    · cases hc

theorem visitedOfAll_eq (ms : List Message) : visitedOfAll ms = ms.flatMap visited := by
  induction ms with
  | nil => rfl
  | cons m ms ih => rw [visitedOfAll, ih, List.flatMap_cons]

theorem visited_eq (m : Message) : m.visited = m :: m.children.flatMap visited := by
  cases m with
  | empty => rfl
  | node kind operator left right name arguments =>
    by_cases hsides : kind = 1 ∨ kind = 2
    · rcases hsides with rfl | rfl <;>
        exact congrArg _ (congrArg (left.visited ++ ·) (List.append_nil _).symm)
    by_cases hcall : kind = 3
    · subst hcall
      exact congrArg _ (visitedOfAll_eq arguments)
    · obtain ⟨hbinary, hrange⟩ := not_or.mp hsides
      simp [visited, children, Message.kind, hbinary, hrange, hcall]

/-! ## Documents with the same tree -/

def Known (m : Message) : Prop :=
  1 ≤ m.kind ∧ m.kind ≤ 7

instance (m : Message) : Decidable m.Known :=
  inferInstanceAs (Decidable (_ ∧ _))

/-- A document that has the tree of a message: nodes of the same kinds and in the same order, with
their operators, names, keys and values. A cell may also have the number of its way to refer. -/
inductive Depicts : Message → Value → Prop where
  | binary {m : Message} {left right : Value} (h : m.kind = 1) (hleft : Depicts m.left left)
      (hright : Depicts m.right right) :
      Depicts m (.object [("type", .str "binary-expression"), ("operator", .str m.operator),
        ("left", left), ("right", right)])
  | range {m : Message} {left right : Value} (h : m.kind = 2) (hleft : Depicts m.left left)
      (hright : Depicts m.right right) :
      Depicts m (.object [("type", .str "cell-range"), ("left", left), ("right", right)])
  | call {m : Message} {vs : List Value} (h : m.kind = 3)
      (harguments : List.Forall₂ Depicts m.arguments vs) :
      Depicts m (.object [("type", .str "function"), ("name", .str m.name), ("arguments", .list vs)])
  | cell {m : Message} {more : List (String × Value)} (h : m.kind = 4)
      (hmore : ∀ e ∈ more, e = ("refType", .int m.refKind)) :
      Depicts m (.object ([("type", .str "cell"), ("key", .str m.key)] ++ more))
  | number {m : Message} (h : m.kind = 5) :
      Depicts m (.object [("type", .str "number"), ("value", .float m.number)])
  | logical {m : Message} (h : m.kind = 6) :
      Depicts m (.object [("type", .str "logical"), ("value", .bool m.logical)])
  | text {m : Message} (h : m.kind = 7) :
      Depicts m (.object [("type", .str "text"), ("value", .str m.text)])

theorem documents_eq_mapM (ms : List Message) : documents ms = ms.mapM document := by
  induction ms with
  | nil => rfl
  | cons m ms ih => rw [documents, List.mapM_cons, ih]

variable {m : Message}

theorem exists_document_eq (h : m.Known) :
    ∃ f : List Value → Value, m.document = (m.children.mapM document >>= fun vs => .ok (f vs))
      ∧ ∀ vs, List.Forall₂ Depicts m.children vs → Depicts m (f vs) := by
  cases m with
  | empty => exact absurd h (by decide)
  | node kind operator left right name arguments =>
    have hkind : kind = 1 ∨ kind = 2 ∨ kind = 3 ∨ kind = 4 ∨ kind = 5 ∨ kind = 6 ∨ kind = 7 := by
      obtain ⟨hlow, hhigh⟩ : 1 ≤ kind ∧ kind ≤ 7 := h
      omega
    have hsides (f : Value → Value → Value) :
        (left.document >>= fun l => right.document >>= fun r => .ok (f l r)) =
          ([left, right].mapM document >>= fun vs => .ok (f (vs.headD .null) (vs.getLastD .null))) := by
      rw [List.mapM_cons, List.mapM_cons, List.mapM_nil]
      cases left.document <;> cases right.document <;> rfl
    rcases hkind with rfl | rfl | rfl | rfl | rfl | rfl | rfl
    · refine ⟨_, hsides _, ?_⟩
      rintro _ (_ | ⟨hl, _ | ⟨hr, ⟨⟩⟩⟩)
      exact .binary rfl hl hr
    · refine ⟨_, hsides _, ?_⟩
      rintro _ (_ | ⟨hl, _ | ⟨hr, ⟨⟩⟩⟩)
      exact .range rfl hl hr
    · refine ⟨_, by rw [document, documents_eq_mapM]; rfl, fun vs hvs => ?_⟩
      exact .call rfl hvs
    · refine ⟨fun _ => _, rfl, fun _ _ => .cell rfl fun e he => ?_⟩
      split at he
      · cases he
      · exact List.mem_singleton.mp he
    · exact ⟨fun _ => _, rfl, fun _ _ => .number rfl⟩
    · exact ⟨fun _ => _, rfl, fun _ _ => .logical rfl⟩
    · exact ⟨fun _ => _, rfl, fun _ _ => .text rfl⟩

theorem document_of_unknown (h : ¬ m.Known) : m.document = .error (.unknownNode m.kind) := by
  cases m with
  | empty => rfl
  | node kind =>
    have hkind : ¬ (1 ≤ kind ∧ kind ≤ 7) := h
    rw [document]
    · rfl
    all_goals omega

/-- Going through nodes gives a good result if all are known, and else tells the first that is not. -/
def Settled {α : Type} (nodes : List Message) (result : Except Fault α) (good : α → Prop) : Prop :=
  (nodes.find? (fun n => ¬ n.Known) = none ∧ ∃ a, result = .ok a ∧ good a)
    ∨ ∃ n, nodes.find? (fun n => ¬ n.Known) = some n ∧ result = .error (.unknownNode n.kind)

theorem settled_mapM {ms : List Message} (h : ∀ m ∈ ms, Settled m.visited m.document (Depicts m)) :
    Settled (ms.flatMap visited) (ms.mapM document) (List.Forall₂ Depicts ms) := by
  induction ms with
  | nil => exact .inl ⟨rfl, [], rfl, .nil⟩
  | cons m ms ih =>
    obtain ⟨hm, hms⟩ := List.forall_mem_cons.mp h
    rw [List.mapM_cons, List.flatMap_cons, Settled, List.find?_append]
    rcases hm with ⟨hnone, v, hv, hd⟩ | ⟨n, hn, herror⟩
    · rw [hnone, Option.none_or, hv, ok_bind]
      rcases ih hms with ⟨hrest, vs, hvs, hds⟩ | ⟨n, hn, herror⟩
      · exact .inl ⟨hrest, v :: vs, by rw [hvs]; rfl, .cons hd hds⟩
      · exact .inr ⟨n, hn, by rw [herror]; rfl⟩
    · exact .inr ⟨n, by rw [hn]; rfl, by rw [herror]; rfl⟩

theorem settled (m : Message) : Settled m.visited m.document (Depicts m) := by
  induction m using visitInduction with
  | node m ih =>
    rw [visited_eq, Settled]
    by_cases hknown : m.Known
    · obtain ⟨f, hdocument, hf⟩ := exists_document_eq hknown
      rw [List.find?_cons_of_neg (by simpa using hknown), hdocument]
      rcases settled_mapM ih with ⟨hnone, vs, hvs, hds⟩ | ⟨n, hn, herror⟩
      · exact .inl ⟨hnone, f vs, by rw [hvs]; rfl, hf vs hds⟩
      · exact .inr ⟨n, hn, by rw [herror]; rfl⟩
    · rw [List.find?_cons_of_pos (by simpa using hknown)]
      exact .inr ⟨m, rfl, document_of_unknown hknown⟩

/-- There is a document of a message exactly if every node that is looked at is of one of the seven
kinds. The document has the tree of these nodes; without one, the error tells the kind of the first
node that is unknown. -/
theorem document_exists_iff (m : Message) :
    ((∃ v, m.document = .ok v) ↔ ∀ n ∈ m.visited, 1 ≤ n.kind ∧ n.kind ≤ 7)
      ∧ (∀ v, m.document = .ok v → Depicts m v)
      ∧ ∀ fault, m.document = .error fault →
        ∃ n, m.visited.find? (fun n => ¬ (1 ≤ n.kind ∧ n.kind ≤ 7)) = some n
          ∧ fault.kind = "ValueError" ∧ fault.message = "Unknown AST type: " ++ toString n.kind := by
  rcases m.settled with ⟨hnone, v, hv, hd⟩ | ⟨n, hn, herror⟩
  · refine ⟨iff_of_true ⟨v, hv⟩ ?_, fun w hw => ?_, fun fault hfault => ?_⟩
    · simpa [Known] using List.find?_eq_none.mp hnone
    · obtain rfl := Except.ok.inj (hv.symm.trans hw)
      exact hd
    · exact absurd (hfault.symm.trans hv) error_ne_ok
  · refine ⟨iff_of_false ?_ fun hall => ?_, fun v hv => ?_, fun fault hfault => ?_⟩
    · rintro ⟨v, hv⟩
      exact error_ne_ok (herror.symm.trans hv)
    · have hunknown : ¬ n.Known := by simpa using List.find?_some hn
      exact hunknown (hall n (List.mem_of_find?_eq_some hn))
    · exact absurd (herror.symm.trans hv) error_ne_ok
    · obtain rfl := Except.error.inj (herror.symm.trans hfault)
      exact ⟨n, hn, rfl, rfl⟩

end FormulaService.Message

end SheetIntake
