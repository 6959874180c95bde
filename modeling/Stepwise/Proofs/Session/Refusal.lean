import Stepwise.Proofs.Rule.Reduction
import Stepwise.Proofs.Session.InPlace

namespace Stepwise

namespace Registry

variable {registry : Registry} {ref : RuleRef} {rule : Rule}

end Registry

namespace Workspace

variable {w : Workspace} {e : Failure}

end Workspace

namespace Workspace

variable {w : Workspace} {e : Failure}

end Workspace

end Stepwise
