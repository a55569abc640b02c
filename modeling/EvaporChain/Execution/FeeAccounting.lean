import EvaporChain.Execution.Outcomes

/-!
# Fee accounting

What the fee step of a transaction takes from its sender.
-/

namespace EvaporChain

open Core

namespace Parallel

variable (env : ExecEnv) (cfg : ExecConfig) (epoch : ℕ)

end Parallel

end EvaporChain
