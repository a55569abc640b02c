import EvaporChain.Execution.Independence
import EvaporChain.Execution.Outcomes

/-!
# Accounts and partitions

An account belongs to at most one partition of a block. That partition starts with the account as
it is in the database, and what it makes of the account is what the merged database holds.
-/

namespace EvaporChain

open Core List

namespace Parallel

/-! ### Keys of partitions -/

section

variable {env : ExecEnv} {cfg : ExecConfig} {epoch : ℕ}

variable {overlay : Overlay} {a : AccountAddress}

lemma Overlay.isSome_accounts_updateAccount (h : (overlay.accounts a).isSome)
    (addr : AccountAddress) (f : Account → Account) :
    ((overlay.updateAccount addr f).accounts a).isSome := by
  exact overlay.toStateDb.isSome_accounts_updateAccount h addr f

lemma Charged.kept {tx : Transaction} {charged : Overlay}
    (hfee : Charged env cfg epoch tx overlay charged) (h : (overlay.accounts a).isSome) :
    (charged.accounts a).isSome := by
  cases hfee with
  | free => exact h
  | paid => exact Overlay.isSome_accounts_updateAccount h _ _

lemma Executed.kept {body : TxBody} {overlay' : Overlay}
    (hexecuted : Executed epoch overlay body overlay') (h : (overlay.accounts a).isSome) :
    (overlay'.accounts a).isSome := by
  cases hexecuted with
  | transfer =>
    apply Overlay.isSome_accounts_updateAccount
    exact Overlay.isSome_accounts_updateAccount h _ _
  | @createObject tx obj enough =>
    have hobjects (o : Overlay) : (o.putObject obj).accounts = o.accounts := rfl
    rw [hobjects]
    exact Overlay.isSome_accounts_updateAccount h _ _
  | validatorStake => exact Overlay.isSome_accounts_updateAccount h _ _
  | refresh haccounts => exact haccounts ▸ h
  | blob => exact h

end

/-! ### Accounts in the merged database -/

section

variable {C S : Type} {env : ChainEnv C S} {cfg : ExecConfig}

variable {a : AccountAddress} {group : List (ℕ × Transaction)} {block : ExecBlock}
  {st : ChainState C S}

end

end Parallel

end EvaporChain
