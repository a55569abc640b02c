import EvaporChain.Core.Codec
import EvaporChain.Execution.Signable

/-!
# What the signed bytes say

The fields of a transaction are concatenated, some of them without their length and some not at all.
Besides the bytes one has to know where these fields end and what the missing ones are; then the
body of the transaction can be read off.
-/

namespace EvaporChain

open Core Transaction List

/-! ### Fields -/

/-- A 64-bit word. -/
def IsU64 (n : ℕ) : Prop := n < 2 ^ 64

instance (n : ℕ) : Decidable (IsU64 n) := inferInstanceAs (Decidable (n < 2 ^ 64))

lemma IsU64.lt {n : ℕ} (h : IsU64 n) : n < 256 ^ 8 := by
  exact h

lemma hash_append_iff {a b : Hash} {xs ys : Bytes} :
    a.toList ++ xs = b.toList ++ ys ↔ a = b ∧ xs = ys := (delimits_hash a b).append_iff

lemma word_append_iff {m n : ℕ} {xs ys : Bytes} (hm : IsU64 m) (hn : IsU64 n) :
    leBytes 8 m ++ xs = leBytes 8 n ++ ys ↔ m = n ∧ xs = ys := (delimits_u64 hm hn).append_iff

lemma word_eq_iff {m n : ℕ} (hm : IsU64 m) (hn : IsU64 n) : leBytes 8 m = leBytes 8 n ↔ m = n :=
  ⟨(delimits_u64 hm hn).eq, congrArg _⟩

/-- Texts of the same length. -/
lemma delimits_text {s t : String} (h : (utf8Bytes s).length = (utf8Bytes t).length) :
    Delimits utf8Bytes s t := delimits_of_length h fun heq => toUTF8_toList_injective heq

/-- A byte string after its length, if the length is known beyond its lower four bytes. -/
lemma delimits_sized {a b : Bytes} (h : a.length / 2 ^ 32 = b.length / 2 ^ 32) :
    Delimits sized a b := by
  intro xs ys heq
  simp only [sized, append_assoc] at heq
  obtain ⟨hlength, hrest⟩ := append_inj heq (by simp)
  have hmod := congrArg leValue hlength
  rw [leValue_leBytes, leValue_leBytes] at hmod
  exact append_inj hrest (by omega)

/-! ### Guards and actions -/

def TemporalGuard.Fits : TemporalGuard → Prop
  | .afterEpoch epoch => IsU64 epoch
  | .beforeEpoch epoch => IsU64 epoch
  | .energyBelow _ threshold => IsU64 threshold
  | .energyAbove _ threshold => IsU64 threshold
  | .objectEvaporated _ => True
  | .contractInPhase contractId _ => IsU64 contractId

def TemporalGuard.phaseLength : TemporalGuard → ℕ
  | .contractInPhase _ phase => (utf8Bytes phase).length
  | _ => 0

lemma TemporalGuard.delimits {g g' : TemporalGuard} (hg : g.Fits) (hg' : g'.Fits)
    (h : g.phaseLength = g'.phaseLength) : Delimits TemporalGuard.signableBytes g g' := by
  intro xs ys heq
  cases g <;> cases g' <;> simp only [TemporalGuard.signableBytes, cons_append,
    append_assoc, List.cons.injEq, true_and] at heq
  case contractInPhase.contractInPhase contractId phase contractId' phase' =>
    obtain ⟨rfl, hphase⟩ := delimits_u64 hg hg' _ _ heq
    obtain ⟨rfl, hrest⟩ := delimits_text h _ _ hphase
    exact ⟨rfl, hrest⟩
  all_goals simp_all [TemporalGuard.Fits, hash_append_iff, word_append_iff]

/-- The kind of an action is told by its tag. -/
def GovernanceAction.Fits : GovernanceAction → Prop
  | .createProposal _ _ _ votingEpochs => IsU64 votingEpochs
  | .castVote proposalId _ => IsU64 proposalId

/-! ### Bodies -/

/-- The words of a transaction have the width of their types. -/
def Transaction.Fits (tx : Transaction) : Prop :=
  match tx.body with
  | .transfer t => IsU64 t.amount ∧ IsU64 t.nonce
  | .refresh t => IsU64 t.energyDeposit
  | .createObject t => IsU64 t.energy ∧ IsU64 t.halfLife
  | .deployContract t => IsU64 t.energy ∧ IsU64 t.halfLife
  | .callContract t => IsU64 t.contractId
  | .deployScript t => IsU64 t.energy ∧ IsU64 t.halfLife
  | .callScript t => IsU64 t.contractId
  | .validatorStake t => IsU64 t.stakeAmount ∧ IsU64 t.validatorId ∧ IsU64 t.nonce
  | .validatorExit t => IsU64 t.validatorId ∧ IsU64 t.nonce
  | .validatorClaimStake t => IsU64 t.validatorId ∧ IsU64 t.nonce
  | .shield _ => True
  | .unshield _ => True
  | .privateTransfer _ _ => tx.rest.length = 72
  | .deferred t => IsU64 t.nonce ∧ IsU64 t.deposit ∧ ∀ g ∈ t.guards, g.Fits
  | .blob t => IsU64 t.nonce ∧ IsU64 t.namespaceId
  | .governance t => IsU64 t.nonce ∧ t.action.Fits
  | .multiSig t => IsU64 t.nonce
  | .userOp t => IsU64 t.nonce ∧ IsU64 t.callGasLimit
  | .upgradeContract t => IsU64 t.contractId ∧ IsU64 t.nonce ∧ IsU64 t.requiredStake ∧
      ∀ stake ∈ t.endorserStakes, IsU64 stake
  | .delegate t => IsU64 t.validatorId ∧ IsU64 t.amount ∧ IsU64 t.nonce
  | .undelegate t => IsU64 t.validatorId ∧ IsU64 t.amount ∧ IsU64 t.nonce
  | .rotateValidatorKey t => IsU64 t.validatorId ∧ IsU64 t.effectiveEpoch ∧ IsU64 t.nonce
  | .claimDelegation t => IsU64 t.validatorId ∧ IsU64 t.nonce
  | .refund t => IsU64 t.sourceBlockHeight ∧ IsU64 t.sourceObservationIdx ∧
      IsU64 t.amount ∧ IsU64 t.settleBlockHeight
  | .deployTemplate t => t.templateClass < 2 ^ 32 ∧ IsU64 t.nonce ∧ IsU64 t.submittedAtEpoch

/-- The body without signatures and public keys. -/
def TxBody.unsigned : TxBody → TxBody
  | .validatorStake t => .validatorStake { t with vrfPublicKey := none }
  | .multiSig t => .multiSig { t with signatures := [] }
  | .userOp t => .userOp { t with paymasterSignature := none, paymasterPublicKey := none }
  | .upgradeContract t => .upgradeContract { t with adminSignature := none, adminPublicKey := none }
  | body => body

/-- Everything of a transaction that execution reads but signatures and public keys. The fields of
a shielded transaction are in `rest`. -/
def Transaction.content (tx : Transaction) : TxBody × Bytes :=
  (tx.body.unsigned, match tx.body with
    | .shield _ | .unshield _ | .privateTransfer _ _ => tx.rest
    | _ => [])

/-- What the signed bytes do not say: where fields without a length end, and the fields that are not
written. -/
inductive Layout
  | plain
  | createObject (dataLength : ℕ) (ladMode : Option LadMode)
  | deployContract (templateLength : ℕ) (rules : Option String)
  | call (methodLength epoch : ℕ)
  | privateTransfer (nullifiers : ℕ)
  | deferred (phaseLengths : List ℕ) (gasLimit : ℕ)
  | createProposal (titleLength keyLength : ℕ)
  | multiSig (signers : ℕ)
  | userOp (hasPaymaster : Bool) (paymasterNonce : Option ℕ)
  | upgradeContract (stakes : ℕ)
  /-- The written lengths are four bytes wide. -/
  | rotateValidatorKey (keyLength oldLength newLength : ℕ)
deriving DecidableEq

def TxBody.layout : TxBody → Layout
  | .createObject t => .createObject t.data.length t.ladMode
  | .deployContract t => .deployContract (utf8Bytes t.template).length t.rules
  | .callContract t => .call (utf8Bytes t.method).length t.epoch
  | .callScript t => .call (utf8Bytes t.method).length t.epoch
  | .privateTransfer inputNullifiers _ => .privateTransfer inputNullifiers.length
  | .deferred t => .deferred (t.guards.map (·.phaseLength)) t.gasLimit
  | .governance t =>
    match t.action with
    | .createProposal title paramKey _ _ =>
      .createProposal (utf8Bytes title).length (utf8Bytes paramKey).length
    | .castVote _ _ => .plain
  | .multiSig t => .multiSig t.signers.length
  | .userOp t => .userOp t.paymaster.isSome t.paymasterNonce
  | .upgradeContract t => .upgradeContract t.endorserStakes.length
  | .rotateValidatorKey t => .rotateValidatorKey (t.newBlsPublicKey.length / 2 ^ 32)
      (t.blsPopOld.length / 2 ^ 32) (t.blsPopNew.length / 2 ^ 32)
  | _ => .plain

/-! ### Kinds -/

/-- The byte in front. -/
def TxBody.tag : TxBody → UInt8
  | .transfer _ => 0x01
  | .refresh _ => 0x02
  | .createObject _ => 0x03
  | .deployContract _ => 0x04
  | .callContract _ => 0x05
  | .deployScript _ => 0x06
  | .callScript _ => 0x07
  | .validatorStake _ => 0x08
  | .validatorExit _ => 0x09
  | .validatorClaimStake _ => 0x0F
  | .shield _ => 0x0A
  | .unshield _ => 0x0B
  | .privateTransfer _ _ => 0x0C
  | .deferred _ => 0x0D
  | .blob _ => 0x0E
  | .governance _ => 0x10
  | .multiSig _ => 0x11
  | .userOp _ => 0x12
  | .upgradeContract _ => 0x13
  | .delegate _ => 0x14
  | .undelegate _ => 0x15
  | .rotateValidatorKey _ => 0x16
  | .claimDelegation _ => 0x17
  | .refund _ => 0x18
  | .deployTemplate _ => 0x19

lemma Transaction.signableBytes_head (curveJson : DecayCurve → Bytes) (tx : Transaction) :
    (tx.signableBytes curveJson).head? = some tx.body.tag := by
  unfold signableBytes
  cases tx.body <;> rfl

/-! ### Reading a body -/

section Read

variable {curveJson : DecayCurve → Bytes} {a b : Transaction}

/-- The text of a decay curve, if there is one, at the end. -/
lemma decayCurve_eq (hinj : Function.Injective curveJson) (hne : ∀ curve, curveJson curve ≠ [])
    {c c' : Option DecayCurve} (h : (c.map curveJson).getD [] = (c'.map curveJson).getD []) :
    c = c' := by
  cases c with
  | none =>
    cases c' with
    | none => rfl
    | some curve' => exact absurd h.symm (hne curve')
  | some curve =>
    cases c' with
    | none => exact absurd h (hne curve)
    | some curve' => rw [hinj h]

lemma GovernanceAction.eq_of_signableBytes {act act' : GovernanceAction} (hfits : act.Fits)
    (hfits' : act'.Fits)
    (hlayout : ∀ sender nonce, (TxBody.governance ⟨act, sender, nonce⟩).layout =
      (TxBody.governance ⟨act', sender, nonce⟩).layout)
    (h : act.signableBytes = act'.signableBytes) : act = act' := by
  have hlayout := hlayout default 0
  cases act with
  | createProposal title paramKey paramValue votingEpochs =>
    cases act' with
    | castVote proposalId vote => cases hlayout
    | createProposal title' paramKey' paramValue' votingEpochs' =>
      obtain ⟨htitle, hkey⟩ := Layout.createProposal.inj hlayout
      simp only [GovernanceAction.signableBytes, cons_append, List.cons.injEq, true_and] at h
      obtain ⟨htexts, rfl⟩ := leBytes_suffix hfits.lt hfits'.lt h
      rw [append_assoc, append_assoc] at htexts
      obtain ⟨rfl, hrest⟩ := delimits_text htitle _ _ htexts
      obtain ⟨rfl, hvalue⟩ := delimits_text hkey _ _ hrest
      rw [toUTF8_toList_injective hvalue]
  | castVote proposalId vote =>
    cases act' with
    | createProposal title' paramKey' paramValue' votingEpochs' => cases hlayout
    | castVote proposalId' vote' =>
      simp only [GovernanceAction.signableBytes, cons_append, List.cons.injEq, true_and] at h
      obtain ⟨rfl, hvote⟩ := delimits_u64 hfits hfits' _ _ h
      cases vote <;> simp_all

/-- The same number of arrays. -/
lemma delimits_hashes {l l' : List Hash} (h : l.length = l'.length) :
    Delimits (fun l => l.flatMap List.Vector.toList) l l' :=
  delimits_flatMap (forall₂_of_length h fun x _ y _ => delimits_hash x y)

lemma delimits_guards {l l' : List TemporalGuard} (hl : ∀ g ∈ l, g.Fits) (hl' : ∀ g ∈ l', g.Fits)
    (h : l.map (·.phaseLength) = l'.map (·.phaseLength)) :
    Delimits (fun l => l.flatMap TemporalGuard.signableBytes) l l' := by
  apply delimits_flatMap
  induction l generalizing l' with
  | nil =>
    cases l' with
    | nil => exact .nil
    | cons g' l' => cases h
  | cons g l ih =>
    cases l' with
    | nil => cases h
    | cons g' l' =>
      obtain ⟨hhead, htail⟩ := List.cons_eq_cons.mp h
      obtain ⟨hg, hl⟩ := List.forall_mem_cons.mp hl
      obtain ⟨hg', hl'⟩ := List.forall_mem_cons.mp hl'
      exact .cons (TemporalGuard.delimits hg hg' hhead) (ih hl hl' htail)

/-- The same number of words at the end. -/
lemma stakes_suffix {l l' : List ℕ} {xs ys : Bytes} (hl : ∀ stake ∈ l, IsU64 stake)
    (hl' : ∀ stake ∈ l', IsU64 stake) (hlength : l.length = l'.length)
    (h : xs ++ l.flatMap (leBytes 8) = ys ++ l'.flatMap (leBytes 8)) : xs = ys ∧ l = l' := by
  obtain ⟨hrest, hwords⟩ := List.append_inj' h (by simp [hlength])
  have hdelimits := delimits_flatMap (forall₂_of_length hlength fun m hm n hn => delimits_u64 (hl m
    hm) (hl' n hn))
  exact ⟨hrest, hdelimits.eq hwords⟩

/-- Whether there is a paymaster tells where the call ends. -/
lemma callData_paymaster_eq {callData callData' : Bytes} {p p' : Option AccountAddress}
    (hsome : p.isSome = p'.isSome) (h : callData ++ (p.map List.Vector.toList).getD [] =
      callData' ++ (p'.map List.Vector.toList).getD []) : callData = callData' ∧ p = p' := by
  cases p with
  | none =>
    cases p' with
    | none => exact ⟨by simpa using h, rfl⟩
    | some addr' => cases hsome
  | some addr =>
    cases p' with
    | none => cases hsome
    | some addr' =>
      obtain ⟨hcall, haddr⟩ := hash_suffix h
      exact ⟨hcall, congrArg some haddr⟩

/-- Transactions with these bodies and the same layout are read off their signed bytes. -/
def Readable (curveJson : DecayCurve → Bytes) (body body' : TxBody) : Prop :=
  ∀ a b : Transaction, a.body = body → b.body = body' → a.Fits → b.Fits →
    body.layout = body'.layout → a.signableBytes curveJson = b.signableBytes curveJson →
      a.content = b.content

lemma readable_deployScript (t t') : Readable curveJson (.deployScript t) (.deployScript t') := by
  rintro ⟨_, _, _, _⟩ ⟨_, _, _, _⟩ rfl rfl hfits hfits' - h
  cases t
  simp only [signableBytes, List.cons.injEq, true_and] at h
  obtain ⟨h₁, rfl⟩ := leBytes_suffix hfits.2.lt hfits'.2.lt h
  obtain ⟨h₂, rfl⟩ := leBytes_suffix hfits.1.lt hfits'.1.lt h₁
  obtain ⟨rfl, h₃⟩ := delimits_hash _ _ _ _ h₂
  obtain rfl := toUTF8_toList_injective h₃
  rfl

/-- The length of the parameters is the rest of the length of the message. -/
lemma readable_deployTemplate (t t') :
    Readable curveJson (.deployTemplate t) (.deployTemplate t') := by
  rintro ⟨_, _, _, _⟩ ⟨_, _, _, _⟩ rfl rfl hfits hfits' - h
  cases t
  simp only [signableBytes, List.cons.injEq, true_and] at h
  obtain ⟨h₁, rfl⟩ := leBytes_suffix hfits.2.2.lt hfits'.2.2.lt h
  obtain ⟨h₂, rfl⟩ := leBytes_suffix hfits.2.1.lt hfits'.2.1.lt h₁
  rw [append_assoc, append_assoc] at h₂
  obtain ⟨rfl, h₃⟩ := delimits_hash _ _ _ _ h₂
  obtain ⟨rfl, h₄⟩ := delimits_leBytes hfits.1 hfits'.1 _ _ h₃
  obtain ⟨-, rfl⟩ := append_inj h₄ (by simp)
  rfl

lemma readable_createObject (hinj : Function.Injective curveJson)
    (hne : ∀ curve, curveJson curve ≠ []) (t t') :
    Readable curveJson (.createObject t) (.createObject t') := by
  rintro ⟨_, _, _, _⟩ ⟨_, _, _, _⟩ rfl rfl hfits hfits' hlayout h
  cases t
  obtain ⟨hdata, rfl⟩ := Layout.createObject.inj hlayout
  simp only [signableBytes, append_assoc, List.cons.injEq, true_and] at h
  obtain ⟨rfl, h₁⟩ := delimits_hash _ _ _ _ h
  obtain ⟨rfl, h₂⟩ := delimits_hash _ _ _ _ h₁
  obtain ⟨rfl, h₃⟩ := delimits_u64 hfits.1 hfits'.1 _ _ h₂
  obtain ⟨rfl, h₄⟩ := delimits_u64 hfits.2 hfits'.2 _ _ h₃
  obtain ⟨rfl, h₅⟩ := append_inj h₄ hdata
  obtain rfl := decayCurve_eq hinj hne h₅
  rfl

lemma readable_deployContract (t t') :
    Readable curveJson (.deployContract t) (.deployContract t') := by
  rintro ⟨_, _, _, _⟩ ⟨_, _, _, _⟩ rfl rfl hfits hfits' hlayout h
  cases t
  obtain ⟨htemplate, rfl⟩ := Layout.deployContract.inj hlayout
  simp only [signableBytes, List.cons.injEq, true_and] at h
  obtain ⟨h₁, rfl⟩ := leBytes_suffix hfits.2.lt hfits'.2.lt h
  obtain ⟨h₂, rfl⟩ := leBytes_suffix hfits.1.lt hfits'.1.lt h₁
  rw [append_assoc, append_assoc] at h₂
  obtain ⟨rfl, h₃⟩ := delimits_hash _ _ _ _ h₂
  obtain ⟨rfl, h₄⟩ := delimits_text htemplate _ _ h₃
  obtain rfl := toUTF8_toList_injective h₄
  rfl

lemma readable_deferred (t t') : Readable curveJson (.deferred t) (.deferred t') := by
  rintro ⟨_, _, _, _⟩ ⟨_, _, _, _⟩ rfl rfl hfits hfits' hlayout h
  cases t
  obtain ⟨hguards, rfl⟩ := Layout.deferred.inj hlayout
  simp only [signableBytes, append_assoc, List.cons.injEq, true_and] at h
  obtain ⟨rfl, h₁⟩ := delimits_hash _ _ _ _ h
  obtain ⟨rfl, h₂⟩ := delimits_u64 hfits.1 hfits'.1 _ _ h₁
  obtain ⟨rfl, h₃⟩ := delimits_u64 hfits.2.1 hfits'.2.1 _ _ h₂
  obtain ⟨rfl, h₄⟩ := delimits_guards hfits.2.2 hfits'.2.2 hguards _ _ h₃
  subst h₄
  rfl

lemma readable_governance (t t') : Readable curveJson (.governance t) (.governance t') := by
  rintro ⟨_, _, _, _⟩ ⟨_, _, _, _⟩ rfl rfl hfits hfits' hlayout h
  cases t
  simp only [signableBytes, append_assoc, List.cons.injEq, true_and] at h
  obtain ⟨rfl, h₁⟩ := delimits_hash _ _ _ _ h
  obtain ⟨rfl, h₂⟩ := delimits_u64 hfits.1 hfits'.1 _ _ h₁
  obtain rfl := GovernanceAction.eq_of_signableBytes hfits.2 hfits'.2 (fun _ _ => hlayout) h₂
  rfl

lemma readable_multiSig (t t') : Readable curveJson (.multiSig t) (.multiSig t') := by
  rintro ⟨_, _, _, _⟩ ⟨_, _, _, _⟩ rfl rfl hfits hfits' hlayout h
  cases t
  simp only [signableBytes, append_assoc, List.cons.injEq, true_and] at h
  obtain ⟨rfl, h₁⟩ := delimits_hash _ _ _ _ h
  obtain ⟨rfl, h₂⟩ := delimits_u64 hfits hfits' _ _ h₁
  obtain ⟨rfl, h₃⟩ := List.cons_eq_cons.mp h₂
  obtain ⟨rfl, h₄⟩ := delimits_hashes (Layout.multiSig.inj hlayout) _ _ h₃
  subst h₄
  rfl

lemma readable_userOp (t t') : Readable curveJson (.userOp t) (.userOp t') := by
  rintro ⟨_, _, _, _⟩ ⟨_, _, _, _⟩ rfl rfl hfits hfits' hlayout h
  cases t
  obtain ⟨hpaymaster, rfl⟩ := Layout.userOp.inj hlayout
  simp only [signableBytes, append_assoc, List.cons.injEq, true_and] at h
  obtain ⟨rfl, h₁⟩ := delimits_hash _ _ _ _ h
  obtain ⟨rfl, h₂⟩ := delimits_u64 hfits.1 hfits'.1 _ _ h₁
  obtain ⟨rfl, h₃⟩ := delimits_u64 hfits.2 hfits'.2 _ _ h₂
  obtain ⟨rfl, rfl⟩ := callData_paymaster_eq hpaymaster h₃
  rfl

lemma readable_upgradeContract (t t') :
    Readable curveJson (.upgradeContract t) (.upgradeContract t') := by
  rintro ⟨_, _, _, _⟩ ⟨_, _, _, _⟩ rfl rfl hfits hfits' hlayout h
  obtain ⟨_, _, _, _, _, _, _, _, _, approved⟩ := t
  obtain ⟨_, _, _, _, _, _, _, _, _, approved'⟩ := t'
  simp only [signableBytes, append_assoc, List.cons.injEq, true_and] at h
  obtain ⟨rfl, h₁⟩ := delimits_hash _ _ _ _ h
  obtain ⟨rfl, h₂⟩ := delimits_u64 hfits.1 hfits'.1 _ _ h₁
  obtain ⟨rfl, h₃⟩ := delimits_u64 hfits.2.1 hfits'.2.1 _ _ h₂
  obtain ⟨happroved, h₄⟩ := List.cons_eq_cons.mp h₃
  simp only [← append_assoc] at h₄
  obtain ⟨h₅, rfl⟩ := leBytes_suffix hfits.2.2.1.lt hfits'.2.2.1.lt h₄
  obtain ⟨h₆, rfl⟩ := stakes_suffix hfits.2.2.2 hfits'.2.2.2 (Layout.upgradeContract.inj hlayout) h₅
  obtain ⟨h₇, -⟩ := List.append_inj' h₆ (by simp)
  obtain ⟨rfl, rfl⟩ := hash_suffix h₇
  obtain rfl : approved = approved' := by
    cases approved <;> simp_all
  rfl

lemma readable_rotateValidatorKey (t t') :
    Readable curveJson (.rotateValidatorKey t) (.rotateValidatorKey t') := by
  rintro ⟨_, _, _, _⟩ ⟨_, _, _, _⟩ rfl rfl hfits hfits' hlayout h
  cases t
  obtain ⟨hkey, hold, hnew⟩ := Layout.rotateValidatorKey.inj hlayout
  simp only [signableBytes, append_assoc, List.cons.injEq, true_and] at h
  obtain ⟨rfl, h₁⟩ := delimits_hash _ _ _ _ h
  obtain ⟨rfl, h₂⟩ := delimits_u64 hfits.1 hfits'.1 _ _ h₁
  obtain ⟨rfl, h₃⟩ := delimits_sized hkey _ _ h₂
  obtain ⟨rfl, h₄⟩ := delimits_sized hold _ _ h₃
  obtain ⟨rfl, h₅⟩ := delimits_sized hnew _ _ h₄
  obtain ⟨rfl, h₆⟩ := delimits_u64 hfits.2.1 hfits'.2.1 _ _ h₅
  obtain rfl := (delimits_u64 hfits.2.2 hfits'.2.2).eq h₆
  rfl

lemma readable_privateTransfer (i o i' o') :
    Readable curveJson (.privateTransfer i o) (.privateTransfer i' o') := by
  rintro ⟨_, _, _, rest⟩ ⟨_, _, _, rest'⟩ rfl rfl hfits hfits' hlayout h
  have hlength : rest.length = 72 := hfits
  have hlength' : rest'.length = 72 := hfits'
  simp only [signableBytes, List.cons.injEq, true_and] at h
  obtain ⟨hfields, hdrop⟩ := List.append_inj' h (by simp [hlength, hlength'])
  rw [append_assoc, append_assoc] at hfields
  obtain ⟨htake, harrays⟩ := append_inj hfields (by simp [hlength, hlength'])
  obtain ⟨rfl, houtputs⟩ := delimits_hashes (Layout.privateTransfer.inj hlayout) _ _ harrays
  have hcount := congrArg List.length houtputs
  simp only [length_flatMap, List.Vector.toList_length, List.map_const', sum_replicate,
    smul_eq_mul] at hcount
  obtain rfl := (delimits_hashes (by omega)).eq houtputs
  have hrest : rest = rest' := by
    rw [← take_append_drop 40 rest, htake, hdrop, take_append_drop]
  subst hrest
  rfl

/-- The tag tells the kind. -/
lemma readable_of_tag (hinj : Function.Injective curveJson) (hne : ∀ curve, curveJson curve ≠ [])
    {body body' : TxBody} (h : body.tag = body'.tag) : Readable curveJson body body' := by
  cases body <;> cases body' <;> try exact absurd h (of_decide_eq_false rfl)
  case createObject.createObject => exact readable_createObject hinj hne _ _
  case deployContract.deployContract => exact readable_deployContract _ _
  case deployScript.deployScript => exact readable_deployScript _ _
  case privateTransfer.privateTransfer => exact readable_privateTransfer _ _ _ _
  case deferred.deferred => exact readable_deferred _ _
  case governance.governance => exact readable_governance _ _
  case multiSig.multiSig => exact readable_multiSig _ _
  case userOp.userOp => exact readable_userOp _ _
  case upgradeContract.upgradeContract => exact readable_upgradeContract _ _
  case rotateValidatorKey.rotateValidatorKey => exact readable_rotateValidatorKey _ _
  case deployTemplate.deployTemplate => exact readable_deployTemplate _ _
  case shield.shield | unshield.unshield =>
    rintro ⟨_, _, _, _⟩ ⟨_, _, _, _⟩ rfl rfl - - - h
    simp_all [signableBytes, content, hash_append_iff]
  case callContract.callContract t t' | callScript.callScript t t' =>
    rintro ⟨_, _, _, _⟩ ⟨_, _, _, _⟩ rfl rfl hfits hfits' hlayout h
    cases t
    obtain ⟨hmethod, rfl⟩ := Layout.call.inj hlayout
    simp only [signableBytes, append_assoc, List.cons.injEq, true_and] at h
    obtain ⟨rfl, h₁⟩ := delimits_hash _ _ _ _ h
    obtain ⟨rfl, h₂⟩ := delimits_u64 hfits hfits' _ _ h₁
    obtain ⟨rfl, h₃⟩ := delimits_text hmethod _ _ h₂
    obtain rfl := toUTF8_toList_injective h₃
    rfl
  -- the remaining kinds consist of arrays and words, and the key a stake ends with is not read
  all_goals
    rename_i t t'
    rintro ⟨_, _, _, _⟩ ⟨_, _, _, _⟩ rfl rfl hfits hfits' - h
    cases t
    simp_all [Transaction.Fits, signableBytes, content, TxBody.unsigned,
      hash_append_iff, word_append_iff, word_eq_iff]

lemma TxBody.layout_unsigned (body : TxBody) : body.unsigned.layout = body.layout := by
  cases body <;> rfl

/-- Two transactions with the same signed bytes have the same content exactly if their fields end at
the same places and agree where nothing is written. -/
theorem signableBytes_content_iff (hinj : Function.Injective curveJson)
    (hne : ∀ curve, curveJson curve ≠ []) (ha : a.Fits) (hb : b.Fits)
    (h : a.signableBytes curveJson = b.signableBytes curveJson) :
    a.content = b.content ↔ a.body.layout = b.body.layout := by
  constructor
  · intro hcontent
    have hunsigned : a.body.unsigned = b.body.unsigned := congrArg Prod.fst hcontent
    rw [← TxBody.layout_unsigned a.body, hunsigned, TxBody.layout_unsigned]
  · intro hlayout
    have hhead := congrArg List.head? h
    rw [signableBytes_head, signableBytes_head] at hhead
    exact readable_of_tag hinj hne (Option.some.inj hhead) a b rfl rfl ha hb hlayout h

end Read

/-! ### Examples -/

instance encodableUInt8 : Encodable UInt8 :=
  Encodable.ofLeftInverse UInt8.toNat UInt8.ofNat (by simp)

deriving instance Encodable for DecayCurve

def unaryJson (curve : DecayCurve) : Bytes := List.replicate (Encodable.encode curve + 1) 0

lemma unaryJson_injective : Function.Injective unaryJson := by
  intro curve curve' h
  have hlength := congrArg List.length h
  simp only [unaryJson, length_replicate, Nat.add_right_cancel_iff] at hlength
  exact Encodable.encode_injective hlength

/-- A sponsored operation with a call and the signature of its paymaster. -/
def signedOp (signature : Bytes) : Transaction where
  body := .userOp ⟨default, [4, 2], some (.replicate 32 9), 3, 50000, some 6, some signature, none⟩
  signatureField := some signature
  publicKeyField := none
  rest := []

/-- Only the signatures differ. -/
theorem signableBytes_content_signedOp : (signedOp [1]).content = (signedOp [2]).content := by
  have hwords : IsU64 3 ∧ IsU64 50000 := by decide
  have hfits : ∀ signature, (signedOp signature).Fits := fun _ => hwords
  have hiff := signableBytes_content_iff unaryJson_injective (fun _ => cons_ne_nil _ _)
    (hfits [1]) (hfits [2]) rfl
  exact hiff.mpr rfl

def callOf (method args : String) : Transaction where
  body := .callContract ⟨default, 7, method, args, 0⟩
  signatureField := none
  publicKeyField := none
  rest := []

def deferredWith (gasLimit : ℕ) : Transaction where
  body := .deferred ⟨default, 0, 100, [.afterEpoch 5], [1, 2, 3], gasLimit⟩
  signatureField := none
  publicKeyField := none
  rest := []

/-- Method and arguments run together, and the gas limit is not written. -/
theorem signableBytes_ambiguous :
    (callOf "ab" "c").signableBytes unaryJson = (callOf "a" "bc").signableBytes unaryJson ∧
    (callOf "ab" "c").content ≠ (callOf "a" "bc").content ∧
    (deferredWith 1).signableBytes unaryJson = (deferredWith 1000000).signableBytes unaryJson ∧
    (deferredWith 1).content ≠ (deferredWith 1000000).content := by
  refine ⟨?_, by decide, rfl, by decide⟩
  have htexts : utf8Bytes "ab" ++ utf8Bytes "c" = utf8Bytes "a" ++ utf8Bytes "bc" := by
    decide +kernel
  simp [signableBytes, callOf, htexts]

end EvaporChain
