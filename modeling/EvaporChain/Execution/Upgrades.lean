import EvaporChain.Execution.Effects

/-!
# Who may upgrade a script

An upgrade without a signature of the administrator has to be endorsed by stake. The stakes are
numbers in the transaction; the stake records of the chain are not looked at.
-/

namespace EvaporChain

open Core

/-! ### Authority -/

/-- A stake that counts: neither slashed nor unbonding. -/
def StakeRecord.Sound (stake : StakeRecord) : Prop :=
  stake.slashedAmount = 0 ∧ stake.unbondingEpoch = none

instance (stake : StakeRecord) : Decidable stake.Sound := inferInstanceAs (Decidable (_ ∧ _))

/-- Stake that counts, of the validators that endorse something. -/
def Ledger.endorsingStake (db : Ledger) (endorses : ℕ → Bool) : ℕ :=
  (((db.stakes.entries.filter fun entry => endorses entry.1 && decide entry.2.Sound).map
    fun entry => entry.2.stakedAmount)).sum

namespace Simple

variable {C S : Type} (env : ChainEnv C S)

def AdminSigned (tx : UpgradeContractTx) (engine : S) : Prop :=
  ∃ admin sig pk, env.scripts.admin engine tx.contractId = some (some admin) ∧
    tx.adminSignature = some sig ∧ tx.adminPublicKey = some pk ∧
    addressFromPubkey env.toExecEnv pk = admin ∧ env.mlDsaVerify (upgradePayload tx) sig pk = true

/-- The chain stands behind an upgrade: by the administrator of the script, or by a quorum of the
stake of those who endorse it. -/
def UpgradeAuthorised (endorses : ℕ → Bool) (quorum : ℕ) (tx : UpgradeContractTx)
    (st : ChainState C S) : Prop :=
  AdminSigned env tx st.scriptEngine ∨ quorum ≤ st.db.endorsingStake endorses

/-! ### What is checked -/

variable {env} {epoch : ℕ} {tx : UpgradeContractTx}

lemma upgradeAuth_ok {contractAdmin : Option AccountAddress} {auth : UpgradeAuth}
    (h : upgradeAuth env tx contractAdmin = .ok auth) :
    (∃ admin sig pk, contractAdmin = some admin ∧ tx.adminSignature = some sig ∧
        tx.adminPublicKey = some pk ∧ addressFromPubkey env.toExecEnv pk = admin ∧
        env.mlDsaVerify (upgradePayload tx) sig pk = true) ∨
      tx.adminSignature = none ∧ 0 < tx.requiredStake ∧
        tx.requiredStake ≤ satSum tx.endorserStakes := by
  unfold upgradeAuth at h
  split at h
  next sig hsig =>
    split at h
    · cases h
    · cases h
    next pk admin hpk =>
      dsimp only at h
      split_ifs at h with hderived hverify
      · refine .inl ⟨admin, sig, pk, rfl, hsig, hpk, not_not.mp hderived, ?_⟩
        simpa using hverify
  next hsig =>
    dsimp only at h
    split_ifs at h with htotal hzero
    · exact .inr ⟨hsig, pos_of_ne_zero hzero, not_lt.mp htotal⟩

lemma upgradeScript_ok {engine engine' : S} (h : upgradeScript env tx engine = .ok engine') :
    AdminSigned env tx engine ∨ tx.adminSignature = none ∧ 0 < tx.requiredStake ∧
        tx.requiredStake ≤ satSum tx.endorserStakes := by
  simp only [upgradeScript] at h
  split_ifs at h
  split at h
  · cases h
  next contractAdmin hadmin =>
    split at h
    · cases h
    next auth hauth =>
      rcases upgradeAuth_ok hauth with ⟨admin, sig, pk, rfl, hsigned⟩ | hstakes
      · exact .inl ⟨admin, sig, pk, hadmin, hsigned⟩
      · exact .inr hstakes

variable (env epoch tx) in
/-- The chain stands behind an upgrade that was carried out, whoever endorses it and whatever the
quorum, if and only if it carries a signature of the administrator. -/
theorem upgradeAuthorised_iff (st st' : ChainState C S)
    (h : executeUpgradeContract env epoch tx st = (.ok (), st')) :
    (∀ endorses quorum, 0 < quorum → UpgradeAuthorised env endorses quorum tx st) ↔
      tx.adminSignature.isSome := by
  constructor
  · intro hauthorised
    rcases hauthorised (fun _ => false) 1 one_pos with ⟨_, sig, _, -, hsig, -⟩ | hnobody
    · rw [hsig]
      rfl
    · simp [Ledger.endorsingStake] at hnobody
  · intro hsome endorses quorum _
    obtain ⟨-, engine, hengine, -⟩ := executeUpgradeContract_ok h
    rcases upgradeScript_ok hengine with hsigned | ⟨hnone, -⟩
    · exact .inl hsigned
    · rw [hnone] at hsome
      cases hsome

def scriptChain : ChainEnv Unit (String × Option AccountAddress) :=
  chainOf simpleChain.contracts
    { deploy := fun engine _ _ => .ok engine
      call := fun engine _ _ => .ok engine
      admin := fun engine id => if id = 0 then some engine.2 else none
      upgrade := fun engine _ source auth =>
        match auth with
        | .admin caller =>
          if engine.2 = some caller then .ok (source, engine.2) else .error "not the admin"
        | .governance => .ok (source, engine.2)
      tick := fun engine _ => engine }

def scriptState (db : Ledger) : ChainState Unit (String × Option AccountAddress) :=
  { freshState db with scriptEngine := ("old", some (addressOf 9)) }

/-- An upgrade to an empty script that names a stake of one coin. -/
def endorsedUpgrade : UpgradeContractTx where
  owner := addressOf 2
  contractId := 0
  newBytecode := []
  newBytecodeHash := scriptChain.blake3 []
  nonce := 0
  adminSignature := none
  adminPublicKey := none
  endorserStakes := [1]
  requiredStake := 1
  governanceApproved := false

/-- The administrator, whose key is the byte 9, signs the upgrade. -/
theorem upgradeAuthorised_signed :
    let st : ChainState Unit (String × Option AccountAddress) :=
      { scriptState .empty with scriptEngine := ("old", some (addressFromPubkey plainEnv [9])) }
    let tx := { endorsedUpgrade with adminSignature := some [1], adminPublicKey := some [9] }
    ∃ st', executeUpgradeContract scriptChain 1 tx st = (.ok (), st') ∧
      st'.scriptEngine.1 = "" ∧
      ∀ endorses quorum, 0 < quorum → UpgradeAuthorised scriptChain endorses quorum tx st := by
  intro st tx
  exact ⟨_, rfl, rfl, (upgradeAuthorised_iff scriptChain 1 tx st _ rfl).mpr rfl⟩

/-- A validator has a stake and does not endorse anything, and a stranger replaces the script. -/
theorem stranger_upgrades_script :
    let st := scriptState (Ledger.empty.putStake ⟨7, addressOf 7, 1, 0, none, 0⟩)
    ∃ st', executeUpgradeContract scriptChain 1 endorsedUpgrade st = (.ok (), st') ∧
      st'.scriptEngine = ("", some (addressOf 9)) ∧
      ¬ UpgradeAuthorised scriptChain (fun _ => false) endorsedUpgrade.requiredStake
        endorsedUpgrade st := by
  refine ⟨_, rfl, rfl, ?_⟩
  rintro (⟨_, sig, _, -, hsig, -⟩ | hnobody)
  · cases hsig
  · cases hnobody

end Simple

end EvaporChain
