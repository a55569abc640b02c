import EvaporChain.Core.ByteMap
import EvaporChain.Execution.Ledger

/-!
# Coins
-/

namespace EvaporChain

open Core

namespace Simple

noncomputable def totalBalance (db : StateDb) : ℕ := ∑ a : AccountAddress, (db.account a).balance

lemma totalBalance_congr {db db' : StateDb}
    (h : ∀ a, (db'.account a).balance = (db.account a).balance) :
    totalBalance db' = totalBalance db :=
  Finset.sum_congr rfl fun a _ => h a

lemma balance_le_total (db : StateDb) (a : AccountAddress) :
    (db.account a).balance ≤ totalBalance db :=
  le_sum_univ (fun a => (db.account a).balance) a

/-- What one account gains, all of them do. -/
lemma totalBalance_of_others {db db' : StateDb} (addr : AccountAddress)
    (h : ∀ a ≠ addr, (db'.account a).balance = (db.account a).balance) :
    totalBalance db' + (db.account addr).balance = totalBalance db + (db'.account addr).balance :=
  sum_add_of_others addr h

lemma totalBalance_updateAccount (db : StateDb) (addr : AccountAddress) (f : Account → Account) :
    totalBalance (db.updateAccount addr f) + (db.account addr).balance =
      totalBalance db + (f (db.account addr)).balance := by
  have htotal := totalBalance_of_others addr fun a ha =>
    congrArg Account.balance (db.account_updateAccount_of_ne ha f)
  rwa [StateDb.account_updateAccount_self] at htotal

end Simple

end EvaporChain
