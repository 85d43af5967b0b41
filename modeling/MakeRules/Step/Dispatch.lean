import MakeRules.Step.Reader

/-! Reading a whole log: each record that no step before it took, and what it begins. -/

set_option autoImplicit false

namespace MakeRules

structure Dispatch where
  record : Record
  outcome : Outcome
  deriving DecidableEq, Repr

namespace Dispatch

def diagnostics (file : Text) (dispatch : Dispatch) : List Diagnostic :=
  match dispatch.outcome with
  | .skipped kind fault =>
    [{ code := fault.code
       message := fault.message kind
       span := ⟨file, (fault.blamed dispatch.record).line⟩ }]
  | _ => []

end Dispatch

namespace Log

/-- Read on in a log of whose records the first few are taken. -/
def dispatchFrom : (taken : Nat) → Log → List Dispatch
  | _, [] => []
  | taken + 1, _ :: rest => dispatchFrom taken rest
  | 0, record :: rest =>
    let outcome := classify record rest
    ⟨record, outcome⟩ :: dispatchFrom outcome.taken.length rest

/-- The records that begin a step or belong to none, blank records among them. -/
def dispatch (log : Log) : List Dispatch :=
  dispatchFrom 0 log

theorem dispatchFrom_eq_dispatch_drop (taken : Nat) (log : Log) :
    dispatchFrom taken log = dispatch (log.drop taken) := by
  induction log generalizing taken with
  | nil => cases taken <;> rfl
  | cons record rest ih =>
    cases taken with
    | zero => rfl
    | succ taken => simpa [dispatchFrom] using ih taken

@[simp] theorem dispatch_nil : dispatch [] = [] := rfl

/-- What a record takes is passed over before the next one is dispatched. -/
theorem dispatch_cons (record : Record) (rest : Log) :
    dispatch (record :: rest) =
      ⟨record, classify record rest⟩ ::
        dispatch (rest.drop (classify record rest).taken.length) := by
  rw [← dispatchFrom_eq_dispatch_drop]
  rfl

end Log

/-- Dispatch the next record, and go on where the reading of its step leaves the cursor. -/
def Cursor.dispatch? (cursor : Cursor) : Option (Dispatch × Cursor) :=
  match cursor.next with
  | (none, _) => none
  | (some record, behind) =>
    let (outcome, cursor) := behind.readOutcome record
    some (⟨record, outcome⟩, cursor)

end MakeRules
