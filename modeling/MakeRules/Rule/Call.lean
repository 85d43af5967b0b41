import MakeRules.Rule.Table

/-! The calls of a table, and what each is answered. -/

set_option autoImplicit false

namespace MakeRules.RuleTable

inductive Call where
  | register (rule : Rule)
  | has (target : Text)
  | get (target : Text)
  | addLinkedProduct (target : Text)
  deriving DecidableEq, Repr

inductive Answer where
  /-- Whether the table keeps what it was given. -/
  | kept (new : Bool)
  | known (held : Bool)
  | found (rule : Option Rule)
  deriving DecidableEq, Repr

def answer (table : RuleTable) : Call → Answer
  | .register rule => .kept (!table.has rule.target)
  | .has target => .known (table.has target)
  | .get target => .found (table.get? target)
  | .addLinkedProduct target => .kept (table.acceptsProduct target)

/-- The table behind a call. -/
def after (table : RuleTable) : Call → RuleTable
  | .register rule => table.register rule
  | .addLinkedProduct target => table.addLinkedProduct target
  | .has _ | .get _ => table

end MakeRules.RuleTable
