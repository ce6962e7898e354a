import Mailbox.Service.Calls

/-!
# Calls with a list of message IDs

`bulk.go`: each of these calls is one loop over the single-message call it is named after, with a
look at the context before every message.  Once the context is cancelled, the messages that are left
are reported with its error.

What such a call does is what the single calls do, one after the other (`state_bulkOp`).
-/

namespace Mailbox.Service

/-- `OperationResult`; an operation without an error has succeeded. -/
structure OperationResult where
  id : String
  err : Option Error

/-- `BulkResult.Err` returns an error if there are failures. -/
def bulkError (results : List OperationResult) : Option Error :=
  match results.countP (·.err.isSome) with
  | 0 => none
  | failures =>
    some (.text s!"mailbox: bulk operation failed for {failures} of {results.length} items")

inductive BulkCall where
  | updateFlags (flags : Flags)
  | move (folderID : String) (opts : MoveOptions)
  | delete
  | permanentlyDelete
  | addTag (tagID : String)
  | removeTag (tagID : String)

/-- The single call that the bulk call stands for. -/
def BulkCall.mutation : BulkCall → String → Mutation
  | .updateFlags flags, id => .updateFlags id flags
  | .move folderID opts, id => .moveToFolder id folderID opts
  | .delete, id => .delete id
  | .permanentlyDelete, id => .permanentlyDelete id
  | .addTag tagID, id => .addTag id tagID
  | .removeTag tagID, id => .removeTag id tagID

namespace MemoryMailbox

variable (m : MemoryMailbox)

/-- The single call, made for one ID. -/
def bulkSingle : BulkCall → String → Instance → Reply Result
  | .updateFlags flags, id => m.updateFlags id flags
  | .move folderID opts, id => m.moveToFolder id folderID opts
  | .delete, id => m.delete id
  | .permanentlyDelete, id => m.permanentlyDelete id
  | .addTag tagID, id => m.addTag id tagID
  | .removeTag tagID, id => m.removeTag id tagID

/-- The loop of `bulkOp`, at the `n`-th message; `ctxErr` is the error of the context then. -/
def bulkLoop (op : String → Instance → Reply Result) (ctxErr : ℕ → Option Error) :
    ℕ → List String → Instance → Reply (List OperationResult)
  | _, [], i => ⟨[], i, []⟩
  | n, id :: ids, i =>
    match ctxErr n with
    | some e => ⟨(id :: ids).map fun remaining => ⟨remaining, some e⟩, i, []⟩
    | none =>
      let r := op id i
      let rest := bulkLoop op ctxErr (n + 1) ids r.state
      let err := match r.result with | .ok _ => none | .error e => some e
      ⟨⟨id, err⟩ :: rest.result, rest.state, r.published ++ rest.published⟩

/-- `bulkOp` applies an operation to each message ID, collecting results. -/
def bulkOp (c : BulkCall) (ctxErr : ℕ → Option Error) (messageIDs : List String) (i : Instance) :
    Reply (List OperationResult × Option Error) :=
  match m.checkAccess with
  | .error e => ⟨([], some e), i, []⟩
  | .ok _ =>
    let r := bulkLoop (m.bulkSingle c) ctxErr 0 messageIDs i
    ⟨(r.result, bulkError r.result), r.state, r.published⟩

/-! ## One call after the other -/

section Loop

variable {op : String → Instance → Reply Result} {ctxErr : ℕ → Option Error}

lemma state_bulkLoop (n : ℕ) (ids : List String) (i : Instance) :
    ∃ k, (bulkLoop op ctxErr n ids i).state
      = (ids.take k).foldl (fun i id => (op id i).state) i := by
  induction ids generalizing n i with
  | nil => exact ⟨0, rfl⟩
  | cons id ids ih =>
    rw [bulkLoop]
    cases ctxErr n with
    | some => exact ⟨0, rfl⟩
    | none =>
      obtain ⟨k, hk⟩ := ih (n + 1) (op id i).state
      exact ⟨k + 1, hk⟩

end Loop

variable {m}

/-- **A bulk call is single calls**, one for each ID up to the one at which the context is
cancelled. -/
theorem state_bulkOp (c : BulkCall) (ctxErr : ℕ → Option Error) (messageIDs : List String)
    (order : Memory.Ranges) (fuel : ℕ) (i : Instance) :
    ∃ k, (m.bulkOp c ctxErr messageIDs i).state = ((messageIDs.take k).map c.mutation).foldl
          (fun i mutation => (m.mutate order fuel i mutation).state) i := by
  rw [bulkOp]
  cases m.checkAccess with
  | error => exact ⟨0, rfl⟩
  | ok =>
    obtain ⟨k, hk⟩ := state_bulkLoop 0 messageIDs i
    refine ⟨k, hk.trans ?_⟩
    rw [List.foldl_map]
    cases c <;> rfl

lemma bulkOp_induction {P : Instance → Prop} {i : Instance} (hi : P i) (c : BulkCall)
    (h : ∀ i id, P i → P (m.mutate inOrder 0 i (c.mutation id)).state)
    (ctxErr : ℕ → Option Error) (messageIDs : List String) :
    P (m.bulkOp c ctxErr messageIDs i).state := by
  obtain ⟨k, hk⟩ := m.state_bulkOp c ctxErr messageIDs inOrder 0 i
  rw [hk, List.foldl_map]
  clear hk
  generalize messageIDs.take k = ids
  induction ids generalizing i with
  | nil => exact hi
  | cons id ids ih => exact ih (h i id hi)

end MemoryMailbox

end Mailbox.Service
