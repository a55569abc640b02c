import EvaporChain.Consensus.Engine

/-!
# What block and parent hashes commit to

The hash that is voted on covers the whole block, as far as the length of the VRF proof fits its
four-byte field. The hash in the parent field of the next block covers four fields of the header.
-/

namespace EvaporChain

open Core TendermintConsensus List

/-! ### The block hash -/

structure Block.Fits (block : Block) : Prop where
  number : block.number < 2 ^ 64
  epoch : block.epoch < 2 ^ 64
  timestamp : block.timestamp < 2 ^ 64
  producerId : ∀ producer ∈ block.producerId, producer < 2 ^ 64

/-- Serialised transactions have at least the two bytes of an empty object, and a length of four
bytes. -/
def Block.Serialised (block : Block) : Prop :=
  ∀ tx ∈ block.transactions, 2 ≤ tx.length ∧ tx.length < 2 ^ 32

/-- The part of a block that its successor's parent hash covers. -/
structure SameHeader (b b' : Block) : Prop where
  number : b.number = b'.number
  epoch : b.epoch = b'.epoch
  stateRoot : b.stateRoot = b'.stateRoot
  parentHash : b.parentHash = b'.parentHash

/-- The part of a block that only the block hash covers. -/
structure SameBody (b b' : Block) : Prop where
  timestamp : b.timestamp = b'.timestamp
  producerId : b.producerId = b'.producerId
  vrfOutput : b.vrfOutput = b'.vrfOutput
  vrfProof : b.vrfProof = b'.vrfProof
  dataRoot : b.dataRoot = b'.dataRoot
  transactions : b.transactions = b'.transactions
  postStateRoot : b.postStateRoot = b'.postStateRoot

variable {b b' : Block}

lemma blockHashInput_congr (hheader : SameHeader b b') (hbody : SameBody b b') :
    blockHashInput b = blockHashInput b' := by
  obtain ⟨hnumber, hepoch, hroot, hparent⟩ := hheader
  obtain ⟨htimestamp, hproducer, houtput, hproof, hdata, htxs, hpost⟩ := hbody
  simp [blockHashInput, *]

/-- The untagged post-state root behind the transactions. -/
private def postRootBytes (root : Option Hash) : Bytes :=
  (root.map fun root => 1 :: root.toList).getD []

private lemma postRootBytes_length_le (root : Option Hash) : (postRootBytes root).length ≤ 33 := by
  cases root <;> simp [postRootBytes]

private lemma postRootBytes_injective : Function.Injective postRootBytes := by
  intro a b h
  cases a <;> cases b <;> simp [postRootBytes] at h ⊢
  exact List.Vector.toList_injective h

/-- A post-state root is too short for a transaction whose length ends in the byte 1. -/
private lemma postRootBytes_ne {root : Option Hash} {tx rest : Bytes} (h : 2 ≤ tx.length) :
    postRootBytes root ≠ lengthPrefixed tx ++ rest := by
  intro heq
  have hlength : tx.length ≤ 29 := by
    have hle := postRootBytes_length_le root
    rw [heq] at hle
    simp only [lengthPrefixed, length_append, leBytes_length] at hle
    omega
  cases root with
  | none => simp [postRootBytes, lengthPrefixed, leBytes] at heq
  | some root =>
    have hhead : (1 : UInt8) = UInt8.ofNat (tx.length % 256) :=
      (List.cons.inj (heq : 1 :: root.toList = _)).1
    have hnat := congrArg UInt8.toNat hhead
    simp only [UInt8.toNat_ofNat', UInt8.reduceToNat] at hnat
    omega

/-- The list of transactions and the optional root behind it are read back. -/
private lemma transactions_tail {txs txs' : List Bytes} {root root' : Option Hash}
    (htxs : ∀ tx ∈ txs, 2 ≤ tx.length ∧ tx.length < 2 ^ 32)
    (htxs' : ∀ tx ∈ txs', 2 ≤ tx.length ∧ tx.length < 2 ^ 32)
    (h : (txs.map lengthPrefixed).flatten ++ postRootBytes root =
      (txs'.map lengthPrefixed).flatten ++ postRootBytes root') : txs = txs' ∧ root = root' := by
  induction txs generalizing txs' with
  | nil =>
    cases txs' with
    | nil => exact ⟨rfl, postRootBytes_injective h⟩
    | cons tx' txs' =>
      simp only [map_cons,
        flatten_cons, append_assoc] at h
      exact absurd h (postRootBytes_ne (htxs' tx' (.head _)).1)
  | cons tx txs ih =>
    cases txs' with
    | nil =>
      simp only [map_cons,
        flatten_cons, append_assoc] at h
      exact absurd h.symm (postRootBytes_ne (htxs tx (.head _)).1)
    | cons tx' txs' =>
      simp only [map_cons, flatten_cons, append_assoc] at h
      obtain ⟨hhead, htail⟩ := List.forall_mem_cons.mp htxs
      obtain ⟨hhead', htail'⟩ := List.forall_mem_cons.mp htxs'
      obtain ⟨rfl, hrest⟩ := delimits_lengthPrefixed_of_lt hhead.2 hhead'.2 _ _ h
      obtain ⟨rfl, rfl⟩ := ih htail htail' hrest
      exact ⟨rfl, rfl⟩

/-- The bytes behind the VRF proof. -/
private def blockHashTail (block : Block) : Bytes :=
  tagged (block.dataRoot.map List.Vector.toList) ++
    ((block.transactions.map lengthPrefixed).flatten ++ postRootBytes block.postStateRoot)

/-- The fields in front of the VRF proof are read back. -/
private lemma blockHashInput_front (hfits : b.Fits) (hfits' : b'.Fits)
    (h : blockHashInput b = blockHashInput b') :
    SameHeader b b' ∧ b.timestamp = b'.timestamp ∧ b.producerId = b'.producerId ∧
      b.vrfOutput = b'.vrfOutput ∧ tagged (b.vrfProof.map lengthPrefixed) ++ blockHashTail b =
        tagged (b'.vrfProof.map lengthPrefixed) ++ blockHashTail b' := by
  have hout (x y : Hash) : Delimits (fun out : Hash => lengthPrefixed out.toList) x y :=
    delimits_of_length (by simp [lengthPrefixed]) fun heq =>
      List.Vector.toList_injective (lengthPrefixed_injective heq)
  simp only [blockHashInput, append_assoc] at h
  obtain ⟨hnumber, h⟩ := delimits_u64 hfits.number hfits'.number _ _ h
  obtain ⟨hepoch, h⟩ := delimits_u64 hfits.epoch hfits'.epoch _ _ h
  obtain ⟨hparent, h⟩ := delimits_hash _ _ _ _ h
  obtain ⟨hroot, h⟩ := delimits_hash _ _ _ _ h
  obtain ⟨htimestamp, h⟩ := delimits_u64 hfits.timestamp hfits'.timestamp _ _ h
  obtain ⟨hproducer, h⟩ := delimits_tagged (fun x hx y hy =>
    delimits_u64 (hfits.producerId x hx) (hfits'.producerId y hy)) _ _ h
  obtain ⟨houtput, h⟩ := delimits_tagged (fun x _ y _ => hout x y) _ _ h
  exact ⟨⟨hnumber, hepoch, hroot, hparent⟩, htimestamp, hproducer, houtput, h⟩

/-- Every field is read back if the proofs have the same length. -/
lemma blockHashInput_inj (hfits : b.Fits) (hfits' : b'.Fits) (htxs : b.Serialised)
    (htxs' : b'.Serialised) (hproof : b.vrfProof.map List.length = b'.vrfProof.map List.length)
    (h : blockHashInput b = blockHashInput b') : SameHeader b b' ∧ SameBody b b' := by
  obtain ⟨hheader, htimestamp, hproducer, houtput, h⟩ := blockHashInput_front hfits hfits' h
  obtain ⟨hvrf, h⟩ := delimits_tagged (fun x hx y hy => delimits_lengthPrefixed (by
    rw [Option.mem_def.mp hx, Option.mem_def.mp hy] at hproof
    exact Option.some.inj hproof)) _ _ h
  obtain ⟨hdata, h⟩ := delimits_tagged (fun x _ y _ => delimits_hash x y) _ _ h
  obtain ⟨htransactions, hpost⟩ := transactions_tail htxs htxs' h
  exact ⟨hheader, ⟨htimestamp, hproducer, houtput, hvrf, hdata, htransactions, hpost⟩⟩

def Block.ShortProof (block : Block) : Prop := ∀ proof ∈ block.vrfProof, proof.length < 2 ^ 32

/-- Short proofs are read back. -/
lemma vrfProof_eq (hfits : b.Fits) (hfits' : b'.Fits) (hproof : b.ShortProof)
    (hproof' : b'.ShortProof) (h : blockHashInput b = blockHashInput b') :
    b.vrfProof = b'.vrfProof := by
  obtain ⟨-, -, -, -, h⟩ := blockHashInput_front hfits hfits' h
  exact (delimits_tagged (fun x hx y hy =>
    delimits_lengthPrefixed_of_lt (hproof x hx) (hproof' y hy)) _ _ h).1

/-- Blocks with the same hash have the same contents exactly if their VRF proofs are equally long,
which short proofs are. -/
theorem blockHash_contents_iff {T : Type} (serdeJson : T → Bytes)
    (hserde : Function.Injective serdeJson) (env : Env) (b b' : Block) (txs txs' : List T)
    (htxs : b.transactions = txs.map serdeJson) (htxs' : b'.transactions = txs'.map serdeJson)
    (hlength : ∀ tx ∈ txs ++ txs', 2 ≤ (serdeJson tx).length ∧ (serdeJson tx).length < 2 ^ 32)
    (hfits : b.Fits) (hfits' : b'.Fits)
    (hblake3 : CollisionFree env.blake3 [blockHashInput b, blockHashInput b'])
    (h : blockHash env b = blockHash env b') :
    ((SameHeader b b' ∧ SameBody b b' ∧ txs = txs') ↔
      b.vrfProof.map List.length = b'.vrfProof.map List.length) ∧
    (b.ShortProof → b'.ShortProof → b.vrfProof.map List.length = b'.vrfProof.map List.length) := by
  have hinput := hblake3 _ mem_cons_self _ (.tail _ (.head _)) h
  have hserialised : b.Serialised := by
    intro tx htx
    rw [htxs] at htx
    obtain ⟨t, ht, rfl⟩ := List.mem_map.mp htx
    exact hlength t (mem_append_left _ ht)
  have hserialised' : b'.Serialised := by
    intro tx htx
    rw [htxs'] at htx
    obtain ⟨t, ht, rfl⟩ := List.mem_map.mp htx
    exact hlength t (mem_append_right _ ht)
  refine ⟨⟨fun hsame => ?_, fun hproof => ?_⟩, fun hshort hshort' => ?_⟩
  · rw [hsame.2.1.vrfProof]
  · obtain ⟨hheader, hbody⟩ :=
      blockHashInput_inj hfits hfits' hserialised hserialised' hproof hinput
    refine ⟨hheader, hbody, (List.map_injective_iff.mpr hserde) ?_⟩
    rw [← htxs, ← htxs', hbody.transactions]
  · rw [vrfProof_eq hfits hfits' hshort hshort' hinput]

def emptyBlock : Block where
  number := 1
  epoch := 1
  parentHash := Hash.zero
  stateRoot := Hash.zero
  transactions := []
  timestamp := 0
  chainId := []
  producerId := none
  vrfOutput := none
  vrfProof := none
  dataRoot := none
  daCertificate := none
  commitCertificate := none
  novaProof := none
  protocolVersion := 0
  daRowRoots := []
  daColRoots := []
  postStateRoot := none

def oneTxBlock : Block := { emptyBlock with transactions := [[123, 125]] }

/-- The same block as a later version of the protocol sends it. -/
def oneTxBlockUpgraded : Block := { oneTxBlock with protocolVersion := 1 }

theorem blockHash_contents_oneTx : oneTxBlock ≠ oneTxBlockUpgraded ∧
    SameHeader oneTxBlock oneTxBlockUpgraded ∧ SameBody oneTxBlock oneTxBlockUpgraded ∧
      [[123, 125]] = [([123, 125] : Bytes)] := by
  have hfits : oneTxBlock.Fits := ⟨by decide, by decide, by decide, fun _ h => by cases h⟩
  have hiff := blockHash_contents_iff id Function.injective_id transparentEnv oneTxBlock
    oneTxBlockUpgraded [[123, 125]] [[123, 125]] rfl rfl (by decide) hfits
    ⟨by decide, by decide, by decide, fun _ h => by cases h⟩ (by decide +kernel) rfl
  exact ⟨by decide, hiff.1.mpr (hiff.2 (fun _ h => by cases h) (fun _ h => by cases h))⟩

/-- A block with an empty proof, one transaction and a post-state root. -/
def fullBlock (n : ℕ) : Block :=
  { emptyBlock with
    vrfProof := some []
    transactions := [List.replicate n 0]
    postStateRoot := some Hash.zero }

/-- A block without transactions whose proof has the bytes of `fullBlock` but the last. -/
def bareBlock (n : ℕ) : Block :=
  { emptyBlock with
    vrfProof := some (0 :: leBytes 4 n ++ List.replicate n 0 ++ 1 :: List.replicate 31 0) }

/-- The length of the proof wraps to that of the empty one. -/
lemma blockHashInput_bareBlock {n : ℕ} (h : leBytes 4 (n + 37) = leBytes 4 0) :
    blockHashInput (bareBlock n) = blockHashInput (fullBlock n) := by
  have hzero : Hash.zero.toList = List.replicate 31 0 ++ [0] := rfl
  have hlength : (0 :: leBytes 4 n ++ List.replicate n 0 ++ 1 :: List.replicate 31 0).length =
      n + 37 := by
    simp only [length_append, length_cons, length_replicate, leBytes_length]
    omega
  simp only [blockHashInput, bareBlock, fullBlock, emptyBlock, Option.map_some, Option.map_none,
    lengthPrefixed, hlength, h, tagged, map_nil, flatten_nil, map_cons,
    flatten_cons, Option.getD_some, Option.getD_none, length_nil, length_replicate,
    hzero]
  simp

/-- A proof of four gigabytes hides the transactions of a block. -/
theorem blockHash_hidden_transactions :
    ∃ b b' : Block, b.Fits ∧ b'.Fits ∧ b.Serialised ∧ b'.Serialised ∧
      b.transactions ≠ b'.transactions ∧ b.vrfProof ≠ b'.vrfProof ∧
      ∀ env, blockHash env b = blockHash env b' := by
  refine ⟨bareBlock (2 ^ 32 - 37), fullBlock (2 ^ 32 - 37),
    ⟨by decide, by decide, by decide, fun _ h => by cases h⟩,
    ⟨by decide, by decide, by decide, fun _ h => by cases h⟩, ?_, ?_, ?_, ?_, fun env => ?_⟩
  · intro tx htx
    cases htx
  · intro tx htx
    rw [List.mem_singleton.mp htx, length_replicate]
    decide
  · exact (cons_ne_nil _ _).symm
  · exact fun h => cons_ne_nil _ _ (Option.some.inj h)
  · exact congrArg env.blake3 (blockHashInput_bareBlock (by decide))

/-! ### The parent hash -/

/-- The bytes hashed for the parent field of the next block. -/
def parentHashInput (block : Block) : Bytes :=
  leBytes 8 block.number ++ leBytes 8 block.epoch ++ block.stateRoot.toList ++
    block.parentHash.toList

lemma parentHashInput_inj (hfits : b.Fits) (hfits' : b'.Fits)
    (h : parentHashInput b = parentHashInput b') : SameHeader b b' := by
  obtain ⟨hnumber, h⟩ := delimits_u64 hfits.number hfits'.number _ _ h
  obtain ⟨hepoch, h⟩ := delimits_u64 hfits.epoch hfits'.epoch _ _ h
  obtain ⟨hroot, h⟩ := delimits_hash _ _ _ _ h
  exact ⟨hnumber, hepoch, hroot, List.Vector.toList_injective h⟩

namespace TendermintConsensus

variable {env : Env} {c : TendermintConsensus}

@[simp] lemma height_onBlockCommitted (input : CommitInput) :
    (c.onBlockCommitted env input).height = c.height + 1 := by
  simp only [onBlockCommitted]
  split <;> rfl

/-- A node that applies one block after the other. -/
def commitAll (env : Env) (c : TendermintConsensus) (inputs : List CommitInput) :
    TendermintConsensus := inputs.foldl (fun c input => c.onBlockCommitted env input) c

lemma commitAll_concat (inputs : List CommitInput) (input : CommitInput) :
    c.commitAll env (inputs ++ [input]) = (c.commitAll env inputs).onBlockCommitted env input := by
  simp [commitAll]

/-- Every block names the parent hash its node holds. -/
def Linked (env : Env) : TendermintConsensus → List CommitInput → Prop
  | _, [] => True
  | c, input :: inputs =>
    input.block.parentHash = c.parentHash ∧ Linked env (c.onBlockCommitted env input) inputs

variable {inputs : List CommitInput}

lemma linked_concat {input : CommitInput} :
    Linked env c (inputs ++ [input]) ↔
      Linked env c inputs ∧ input.block.parentHash = (c.commitAll env inputs).parentHash := by
  induction inputs generalizing c with
  | nil => simp [Linked, commitAll]
  | cons first inputs ih => simp [Linked, ih, and_assoc, commitAll]

lemma height_commitAll (inputs : List CommitInput) :
    (c.commitAll env inputs).height = c.height + inputs.length := by
  induction inputs generalizing c with
  | nil => rfl
  | cons input inputs ih =>
    have hrest := @ih (c.onBlockCommitted env input)
    rw [height_onBlockCommitted, add_right_comm] at hrest
    exact hrest

/-- All that is hashed when blocks are applied. -/
def hashedInputs (inputs : List CommitInput) : List Bytes :=
  inputs.flatMap fun input => [parentHashInput input.block, blockHashInput input.block]

lemma mem_hashedInputs {input : CommitInput} (h : input ∈ inputs) :
    parentHashInput input.block ∈ hashedInputs inputs ∧
      blockHashInput input.block ∈ hashedInputs inputs := by
  constructor <;> exact List.mem_flatMap.mpr ⟨input, h, by simp⟩

lemma hashedInputs_subset {inputs' : List CommitInput} (h : inputs ⊆ inputs') :
    hashedInputs inputs ⊆ hashedInputs inputs' := by
  intro x hx
  obtain ⟨input, hinput, hx⟩ := List.mem_flatMap.mp hx
  exact List.mem_flatMap.mpr ⟨input, h hinput, hx⟩

/-- Linked runs that end with the same parent hash have the same headers. -/
lemma sameHeaders_of_parentHash {inputs' : List CommitInput}
    (hlength : inputs.length = inputs'.length) (hlinked : Linked env c inputs)
    (hlinked' : Linked env c inputs') (hfits : ∀ input ∈ inputs ++ inputs', input.block.Fits)
    (hblake3 : CollisionFree env.blake3 (hashedInputs (inputs ++ inputs')))
    (h : (c.commitAll env inputs).parentHash = (c.commitAll env inputs').parentHash) :
    List.Forall₂ (fun input input' => SameHeader input.block input'.block) inputs inputs' := by
  -- from the last block backwards
  induction inputs using List.reverseRecOn generalizing inputs' with
  | nil =>
    rw [List.length_eq_zero_iff.mp hlength.symm]
    exact .nil
  | append_singleton inputs input ih =>
    obtain rfl | ⟨inputs', input', rfl⟩ := inputs'.eq_nil_or_concat'
    · simp at hlength
    rw [commitAll_concat, commitAll_concat] at h
    have hinput : input ∈ inputs ++ [input] ++ (inputs' ++ [input']) := by simp
    have hinput' : input' ∈ inputs ++ [input] ++ (inputs' ++ [input']) := by simp
    have hheader := parentHashInput_inj (hfits _ hinput) (hfits _ hinput') (hblake3 _
      (mem_hashedInputs hinput).1 _ (mem_hashedInputs hinput').1 h)
    obtain ⟨hlinked, hparent⟩ := linked_concat.mp hlinked
    obtain ⟨hlinked', hparent'⟩ := linked_concat.mp hlinked'
    have hsub : inputs ++ inputs' ⊆ inputs ++ [input] ++ (inputs' ++ [input']) := by
      intro x hx
      simp only [mem_append] at hx ⊢
      tauto
    refine rel_append (ih ?_ hlinked hlinked' (fun x hx => hfits x (hsub hx)) ?_ ?_)
      (.cons hheader .nil)
    · simpa using hlength
    · exact hblake3.mono (hashedInputs_subset hsub)
    · rw [← hparent, ← hparent', hheader.parentHash]

end TendermintConsensus

/-- A block whose hash is read back. -/
structure Block.Readable (block : Block) : Prop where
  fits : block.Fits
  serialised : block.Serialised
  shortProof : block.ShortProof

/-- Another run of the node that ends at the same height with the same parent hash. -/
structure TendermintConsensus.SameTip (env : Env) (c : TendermintConsensus)
    (inputs inputs' : List CommitInput) : Prop where
  linked : c.Linked env inputs'
  readable : ∀ input ∈ inputs', input.block.Readable
  height : (c.commitAll env inputs).height = (c.commitAll env inputs').height
  parentHash : (c.commitAll env inputs).parentHash = (c.commitAll env inputs').parentHash

/-- One more transaction in the last block. -/
lemma TendermintConsensus.sameTip_concat {env : Env} {c : TendermintConsensus}
    {inputs : List CommitInput} {input : CommitInput} (hlinked : c.Linked env (inputs ++ [input]))
    (hread : ∀ i ∈ inputs ++ [input], i.block.Readable) :
    c.SameTip env (inputs ++ [input]) (inputs ++ [{ input with block := { input.block with
      transactions := [123, 125] :: input.block.transactions } }]) where
  linked := by
    obtain ⟨hfirst, hparent⟩ := linked_concat.mp hlinked
    exact linked_concat.mpr ⟨hfirst, hparent⟩
  readable := by
    intro i hi
    obtain hi | hi := mem_append.mp hi
    · exact hread i (mem_append_left _ hi)
    · obtain ⟨hfits, htxs, hproof⟩ := hread input (by simp)
      rw [mem_singleton.mp hi]
      exact ⟨⟨hfits.number, hfits.epoch, hfits.timestamp, hfits.producerId⟩,
        forall_mem_cons.mpr ⟨by decide, htxs⟩, hproof⟩
  height := by simp [height_commitAll]
  parentHash := by
    rw [commitAll_concat, commitAll_concat]
    rfl

/-- What a parent hash says of the chain behind it: the headers are the same. Nothing is said of the
transactions, for any run with a block: the blocks are the same ones exactly if their bodies are. -/
theorem parentHash_commits_iff (env : Env) (c : TendermintConsensus) (inputs : List CommitInput)
    (hlinked : c.Linked env inputs) (hread : ∀ input ∈ inputs, input.block.Readable) :
    ((∀ inputs', c.SameTip env inputs inputs' →
      inputs.map (·.block.transactions) = inputs'.map (·.block.transactions)) ↔ inputs = []) ∧
    ∀ inputs', c.SameTip env inputs inputs' →
      CollisionFree env.blake3 (TendermintConsensus.hashedInputs (inputs ++ inputs')) →
      List.Forall₂ (fun input input' => SameHeader input.block input'.block) inputs inputs' ∧
      (List.Forall₂ (fun input input' => blockHash env input.block = blockHash env input'.block)
          inputs inputs' ↔
        List.Forall₂ (fun input input' => SameBody input.block input'.block) inputs inputs') := by
  refine ⟨⟨fun h => ?_, ?_⟩, fun inputs' htip hblake3 => ?_⟩
  · obtain rfl | ⟨inputs, input, rfl⟩ := inputs.eq_nil_or_concat'
    · rfl
    · have hsame := h _ (sameTip_concat hlinked hread)
      simp at hsame
  · rintro rfl inputs' htip
    have hheight := htip.height
    rw [height_commitAll, height_commitAll, length_nil] at hheight
    rw [length_eq_zero_iff.mp (Nat.add_left_cancel hheight).symm]
  have hlength : inputs.length = inputs'.length := by
    have hheight := htip.height
    rw [height_commitAll, height_commitAll] at hheight
    exact Nat.add_left_cancel hheight
  have hreads : ∀ input ∈ inputs ++ inputs', input.block.Readable := fun input hinput =>
    (mem_append.mp hinput).elim (hread input) (htip.readable input)
  have hheaders := sameHeaders_of_parentHash hlength hlinked htip.linked
    (fun input hinput => (hreads input hinput).fits) hblake3 htip.parentHash
  refine ⟨hheaders, fun hhashes => ?_, fun hbodies => ?_⟩
  · simp only [forall₂_iff_get] at hhashes ⊢
    refine ⟨hlength, fun i hi hi' => ?_⟩
    have hinput : inputs.get ⟨i, hi⟩ ∈ inputs ++ inputs' :=
      mem_append_left _ (get_mem _ _)
    have hinput' : inputs'.get ⟨i, hi'⟩ ∈ inputs ++ inputs' :=
      mem_append_right _ (get_mem _ _)
    have heq := hblake3 _ (mem_hashedInputs hinput).2 _
      (mem_hashedInputs hinput').2 (hhashes.2 i hi hi')
    obtain ⟨hfits, htxs, hshort⟩ := hreads _ hinput
    obtain ⟨hfits', htxs', hshort'⟩ := hreads _ hinput'
    have hproof := vrfProof_eq hfits hfits' hshort hshort' heq
    exact (blockHashInput_inj hfits hfits' htxs htxs' (by rw [hproof]) heq).2
  · simp only [forall₂_iff_get] at hheaders hbodies ⊢
    refine ⟨hlength, fun i hi hi' => ?_⟩
    exact congrArg env.blake3 (blockHashInput_congr (hheaders.2 i hi hi') (hbodies.2 i hi hi'))

/-- A hash of the length and the first byte, enough for small chains. -/
def sizedEnv : Env :=
  { transparentEnv with
    blake3 := fun bytes =>
      List.Vector.replicate 32 (UInt8.ofNat bytes.length + bytes.headD 0) }

/-- Apply a block; the executor arrives at some state root. -/
def commitOf (block : Block) (stateRoot : Hash) : CommitInput :=
  ⟨0, block, stateRoot, fourKeyed, []⟩

/-- Two linked blocks, the second with the given transactions. -/
def twoCommits (txs : List Bytes) : List CommitInput :=
  [commitOf oneTxBlock Hash.zero,
    commitOf { emptyBlock with
      number := 2, parentHash := List.Vector.replicate 32 81, transactions := txs } Hash.zero]

lemma readable_twoCommits : ∀ txs ∈ [[], [[123, 125]]], ∀ input ∈ twoCommits txs,
    input.block.Readable := by
  simp only [twoCommits, mem_cons, not_mem_nil, or_false, forall_eq_or_imp, forall_eq]
  refine ⟨⟨?_, ?_⟩, ?_, ?_⟩ <;>
    exact ⟨⟨by decide, by decide, by decide, fun _ h => by cases h⟩,
      by unfold Block.Serialised; decide, fun _ h => by cases h⟩

/-- Runs with different transactions at the second height have the same headers, and different
blocks. -/
theorem parentHash_commits_twoCommits :
    List.Forall₂ (fun input input' => SameHeader input.block input'.block)
      (twoCommits []) (twoCommits [[123, 125]]) ∧
    ¬ ∀ inputs', (fourNode 1).SameTip sizedEnv (twoCommits []) inputs' →
      (twoCommits []).map (·.block.transactions) = inputs'.map (·.block.transactions) := by
  have hcommits := parentHash_commits_iff sizedEnv (fourNode 1) (twoCommits [])
    ⟨by decide, by decide, trivial⟩ (readable_twoCommits [] (by decide))
  refine ⟨(hcommits.2 (twoCommits [[123, 125]]) ⟨⟨by decide, by decide, trivial⟩,
    readable_twoCommits _ (by decide), by decide +kernel, by decide +kernel⟩
    (by decide +kernel)).1, fun h => ?_⟩
  exact absurd (hcommits.1.mp h) (by decide)

/-- Blocks with and without transactions lead to the same parent hash. -/
theorem parentHash_misses_transactions :
    ∃ (c : TendermintConsensus) (i i' : CommitInput),
      (∀ env, c.Linked env [i] ∧ c.Linked env [i'] ∧
        (c.commitAll env [i]).parentHash = (c.commitAll env [i']).parentHash) ∧
      i.block.transactions ≠ i'.block.transactions ∧
      ∀ env, CollisionFree env.blake3 (TendermintConsensus.hashedInputs [i, i']) →
        blockHash env i.block ≠ blockHash env i'.block := by
  refine ⟨fourNode 1, commitOf emptyBlock Hash.zero, commitOf oneTxBlock Hash.zero,
    fun env => ⟨⟨rfl, trivial⟩, ⟨rfl, trivial⟩, rfl⟩, by decide, fun env hblake3 heq => ?_⟩
  have hinput := hblake3 _ (mem_hashedInputs (.head _)).2 _
    (mem_hashedInputs (.tail _ (.head _))).2 heq
  exact absurd hinput (by decide +kernel)

end EvaporChain
