import EvaporChain.Core.WriteBack
import EvaporChain.Crypto.EnergyVerkleMap
import EvaporChain.State.InMemory

/-!
# The state root

The trie of a database stands for the stored objects and accounts except those that are marked, so
that a root computed after the marked ones are written is the root of a trie built from scratch.
Compression keeps this, until a key is written or deleted whose path ends in a compressed subtree.
-/

namespace EvaporChain

open Core VerkleScheme List EnergyVerkleTrie
open WriteBack (Agrees)
open EnergyVerkleTrie (Represents Clear)

variable {H F G : Type} [Ring F] [AddCommGroup G] [Module F G] {S : VerkleScheme H F G}
  {blake3 : Bytes → Hash}

namespace InMemoryStateDb

/-! ### Entries -/

abbrev Entry := ObjectId ⊕ AccountAddress

/-- Where an entry is in the trie. -/
def entryKey (blake3 : Bytes → Hash) : Entry → Hash
  | .inl id => trieKeyForObject blake3 id
  | .inr addr => trieKeyForAccount blake3 addr

/-- What the trie should have for an entry. -/
def entryValue (blake3 : Bytes → Hash) (db : InMemoryStateDb H) : Entry → Option Hash
  | .inl id => (db.objects.lookup id).map (trieValueForObject blake3)
  | .inr addr => (db.accounts.lookup addr).map (trieValueForAccount blake3)

def dirty (db : InMemoryStateDb H) : Set Entry :=
  { e | e ∈ db.dirtyObjects.map Sum.inl ++ db.dirtyAccounts.map Sum.inr }

@[simp] lemma inl_mem_dirty {db : InMemoryStateDb H} {id : ObjectId} :
    .inl id ∈ db.dirty ↔ id ∈ db.dirtyObjects := by simp [dirty]

variable {addr : AccountAddress}

@[simp] lemma inr_mem_dirty {db : InMemoryStateDb H} :
    .inr addr ∈ db.dirty ↔ addr ∈ db.dirtyAccounts := by simp [dirty]

/-! ### Operations -/

/-- An operation of the database, a mutable reference together with the change made through it. -/
inductive Op
  | putObject (obj : StateObject)
  | changeObject (id : ObjectId) (change : StateObject → StateObject)
  | deleteObject (id : ObjectId)
  | putAccount (acc : Account)
  | changeAccount (addr : AccountAddress) (change : Account → Account)
  | createAccount (addr : AccountAddress) (change : Account → Account)
  | deleteAccount (addr : AccountAddress)
  | compressColdSubtrees
  | computeStateRoot

def Op.apply (S : VerkleScheme H F G) (blake3 : Bytes → Hash) (db : InMemoryStateDb H) :
    Op → InMemoryStateDb H
  | .putObject obj => db.putObject blake3 obj
  | .changeObject id change => db.changeObject id change
  | .deleteObject id => db.deleteObject blake3 id
  | .putAccount acc => db.putAccount blake3 acc
  | .changeAccount addr change => db.changeAccount addr change
  | .createAccount addr change => db.createAccount blake3 addr change
  | .deleteAccount addr => db.deleteAccount blake3 addr
  | .compressColdSubtrees => (db.compressColdSubtrees S blake3).1
  | .computeStateRoot => (db.computeStateRoot S blake3).1

def Op.names : Op → Set Entry
  | .putObject obj => {.inl obj.id}
  | .changeObject id _ => {.inl id}
  | .deleteObject id => {.inl id}
  | .putAccount acc => {.inr acc.address}
  | .changeAccount addr _ => {.inr addr}
  | .createAccount addr _ => {.inr addr}
  | .deleteAccount addr => {.inr addr}
  | .compressColdSubtrees => ∅
  | .computeStateRoot => ∅

/-- No key is written to the trie or deleted from it whose path ends in a compressed subtree, and an
object keeps its id. -/
def Op.Undisturbed (blake3 : Bytes → Hash) (db : InMemoryStateDb H) : Op → Prop
  | .putObject obj => db.trie.Clear (trieKeyForObject blake3 obj.id)
  | .changeObject id change => ∀ obj, db.objects.lookup id = some obj → (change obj).id = id
  | .deleteObject id => db.trie.Clear (trieKeyForObject blake3 id)
  | .putAccount acc => db.trie.Clear (trieKeyForAccount blake3 acc.address)
  | .changeAccount _ _ => True
  | .createAccount addr _ =>
    db.accounts.lookup addr = none → db.trie.Clear (trieKeyForAccount blake3 addr)
  | .deleteAccount addr => db.trie.Clear (trieKeyForAccount blake3 addr)
  | .compressColdSubtrees => ∀ e ∈ db.dirty, db.trie.Clear (entryKey blake3 e)
  | .computeStateRoot => ∀ e ∈ db.dirty, db.trie.Clear (entryKey blake3 e)

/-- The database after a sequence of operations. -/
def run (S : VerkleScheme H F G) (blake3 : Bytes → Hash) (ops : List Op) : InMemoryStateDb H :=
  ops.foldl (Op.apply S blake3) new

/-- All operations of a sequence are undisturbed. -/
def AllUndisturbed (S : VerkleScheme H F G) (blake3 : Bytes → Hash) :
    InMemoryStateDb H → List Op → Prop
  | _, [] => True
  | db, op :: ops => op.Undisturbed blake3 db ∧ AllUndisturbed S blake3 (op.apply S blake3 db) ops

/-! ### The invariant -/

/-- The trie stands for the entries that are not marked. `N` has all entries that are ever named. -/
structure Tracks (S : VerkleScheme H F G) (blake3 : Bytes → Hash) (N : Set Entry)
    (db : InMemoryStateDb H) (plain : VerkleTrie) : Prop where
  represents : Represents S db.trie plain
  valid : plain.Valid
  keyed : db.objects.KeyedBy (·.id)
  agrees : Agrees (entryKey blake3) N plain.get (entryValue blake3 db) db.dirty
  stored : ∀ e, (entryValue blake3 db e).isSome → e ∈ N
  marked : db.dirty ⊆ N
  /-- A deleted account is not marked. -/
  accounts : ∀ addr ∈ db.dirtyAccounts, (db.accounts.lookup addr).isSome

variable {N : Set Entry} {db db' : InMemoryStateDb H} {plain plain' : VerkleTrie}

lemma tracks_new : Tracks S blake3 N new VerkleTrie.new where
  represents := represents_new
  valid := VerkleTrie.valid_new
  keyed := Dict.KeyedBy.empty
  agrees := by
    refine ⟨fun e _ _ => ?_, fun k _ => VerkleTrie.get_new k⟩
    cases e <;> rfl
  stored := by
    intro e he
    cases e <;> simp [entryValue, new] at he
  marked := by
    intro e he
    cases e <;> simp [new] at he
  accounts := by simp [new]

/-- An entry is written to the trie or deleted from it. -/
lemma Tracks.write (h : Tracks S blake3 N db plain) (hkey : Set.InjOn (entryKey blake3) N)
    {e : Entry}
    (he : e ∈ N) (hrepresents : Represents S db'.trie plain') (hvalid : plain'.Valid)
    (hget : ∀ k, plain'.get k =
      if k = entryKey blake3 e then entryValue blake3 db' e else plain.get k)
    (hvalue : ∀ e' ≠ e, entryValue blake3 db' e' = entryValue blake3 db e')
    (hkeyed : db'.objects.KeyedBy (·.id)) (hdirty : ∀ e' ≠ e, e' ∈ db.dirty → e' ∈ db'.dirty)
    (hmarked : db'.dirty ⊆ db.dirty)
    (haccounts : ∀ addr ∈ db'.dirtyAccounts, (db'.accounts.lookup addr).isSome) :
    Tracks S blake3 N db' plain' where
  represents := hrepresents
  valid := hvalid
  keyed := hkeyed
  agrees := h.agrees.write hkey he hget hvalue hdirty
  stored := by
    intro e' he'
    by_cases heq : e' = e
    · exact heq ▸ he
    · exact h.stored e' (hvalue e' heq ▸ he')
  marked := hmarked.trans h.marked
  accounts := haccounts

section Writes

variable (h : Tracks S blake3 N db plain) (hkey : Set.InjOn (entryKey blake3) N)

include h hkey

lemma Tracks.putObject {obj : StateObject} (hobj : .inl obj.id ∈ N)
    (hclear : db.trie.Clear (trieKeyForObject blake3 obj.id)) :
    ∃ plain', Tracks S blake3 N (db.putObject blake3 obj) plain' := by
  refine ⟨_, h.write hkey hobj (h.represents.insert hclear ..) (h.valid.insert ..) ?_ ?_
    (h.keyed.insert obj) (fun _ _ he => he) (fun _ he => he) h.accounts⟩
  · simp [h.valid.get_insert, entryKey, entryValue, InMemoryStateDb.putObject]
  · rintro (id | addr) hne <;>
      simp_all [entryValue, InMemoryStateDb.putObject]

lemma Tracks.deleteObject {id : ObjectId} (hid : .inl id ∈ N)
    (hclear : db.trie.Clear (trieKeyForObject blake3 id)) :
    ∃ plain', Tracks S blake3 N (db.deleteObject blake3 id) plain' := by
  refine ⟨_, h.write hkey hid (h.represents.delete hclear) (h.valid.delete _) ?_ ?_
    (h.keyed.erase id) (fun _ _ he => he) (fun _ he => he) h.accounts⟩
  · simp [h.valid.get_delete, entryKey, entryValue, InMemoryStateDb.deleteObject]
  · rintro (id' | addr) hne <;>
      simp_all [entryValue, InMemoryStateDb.deleteObject]

lemma Tracks.putAccount {acc : Account} (hacc : .inr acc.address ∈ N)
    (hclear : db.trie.Clear (trieKeyForAccount blake3 acc.address)) :
    ∃ plain', Tracks S blake3 N (db.putAccount blake3 acc) plain' := by
  refine ⟨_, h.write hkey hacc (h.represents.insert hclear ..) (h.valid.insert ..) ?_ ?_
    h.keyed (fun _ _ he => he) (fun _ he => he) ?_⟩
  · simp [h.valid.get_insert, entryKey, entryValue, InMemoryStateDb.putAccount]
  · rintro (id | addr) hne <;>
      simp_all [entryValue, InMemoryStateDb.putAccount]
  · intro addr haddr
    have hsome := h.accounts addr haddr
    simp only [InMemoryStateDb.putAccount, Dict.lookup_insert_apply]
    split_ifs
    · rfl
    · exact hsome

lemma Tracks.deleteAccount (haddr : .inr addr ∈ N)
    (hclear : db.trie.Clear (trieKeyForAccount blake3 addr)) :
    ∃ plain', Tracks S blake3 N (db.deleteAccount blake3 addr) plain' := by
  refine ⟨_, h.write hkey haddr (h.represents.delete hclear) (h.valid.delete _) ?_ ?_ h.keyed
    ?_ ?_ ?_⟩
  · simp [h.valid.get_delete, entryKey, entryValue, InMemoryStateDb.deleteAccount]
  · rintro (id | addr') hne <;>
      simp_all [entryValue, InMemoryStateDb.deleteAccount]
  · rintro (id | addr') hne hmem <;> simp_all [InMemoryStateDb.deleteAccount]
  · rintro (id | addr') hmem <;> simp_all [InMemoryStateDb.deleteAccount]
  · intro addr' haddr'
    have hsome := h.accounts addr'
    simp_all [InMemoryStateDb.deleteAccount]

end Writes

/-! ### Changes in place -/

section

variable (h : Tracks S blake3 N db plain)

include h

/-- An entry is marked instead of written. -/
lemma Tracks.mark {e : Entry} (he : e ∈ N)
    (htrie : db'.trie = db.trie) (hkeyed : db'.objects.KeyedBy (·.id))
    (hvalue : ∀ e' ≠ e, entryValue blake3 db' e' = entryValue blake3 db e')
    (hdirty : ∀ e', e' ∈ db'.dirty ↔ e' = e ∨ e' ∈ db.dirty)
    (haccounts : ∀ addr ∈ db'.dirtyAccounts, (db'.accounts.lookup addr).isSome) :
    Tracks S blake3 N db' plain where
  represents := htrie ▸ h.represents
  valid := h.valid
  keyed := hkeyed
  agrees := h.agrees.mark hvalue (fun e' he' => (hdirty e').mpr (.inr he'))
    (.inl ((hdirty e).mpr (.inl rfl)))
  stored := by
    intro e' he'
    by_cases heq : e' = e
    · exact heq ▸ he
    · exact h.stored e' (hvalue e' heq ▸ he')
  marked := by
    intro e' he'
    rcases (hdirty e').mp he' with rfl | he'
    · exact he
    · exact h.marked he'
  accounts := haccounts

lemma Tracks.changeObject {id : ObjectId} {change : StateObject → StateObject} (hid : .inl id ∈ N)
    (hchange : ∀ obj, db.objects.lookup id = some obj → (change obj).id = id) :
    Tracks S blake3 N (db.changeObject id change) plain := by
  unfold InMemoryStateDb.changeObject
  cases hobj : db.objects.lookup id with
  | none => exact h
  | some obj =>
    refine h.mark hid rfl ?_ ?_ ?_ h.accounts
    · have hkeyed := h.keyed.insert (change obj)
      rwa [hchange obj hobj] at hkeyed
    · rintro (id' | addr) hne <;> simp_all [entryValue]
    · rintro (id' | addr) <;> simp

lemma Tracks.changeAccount (change : Account → Account)
    (haddr : .inr addr ∈ N) : Tracks S blake3 N (db.changeAccount addr change) plain := by
  unfold InMemoryStateDb.changeAccount
  cases hacc : db.accounts.lookup addr with
  | none => exact h
  | some acc =>
    refine h.mark haddr rfl h.keyed ?_ ?_ ?_
    · rintro (id | addr') hne <;> simp_all [entryValue]
    · rintro (id | addr') <;> simp
    · intro addr' haddr'
      simp only [Dict.lookup_insert_apply]
      split_ifs with heq
      · rfl
      · exact h.accounts addr' ((List.mem_insert_iff.mp haddr').resolve_left heq)

lemma Tracks.createAccount (hkey : Set.InjOn (entryKey blake3) N)
    (change : Account → Account) (haddr : .inr addr ∈ N)
    (hclear : db.accounts.lookup addr = none → db.trie.Clear (trieKeyForAccount blake3 addr)) :
    ∃ plain', Tracks S blake3 N (db.createAccount blake3 addr change) plain' := by
  unfold InMemoryStateDb.createAccount
  cases hacc : db.accounts.lookup addr with
  | some acc => exact ⟨plain, h.changeAccount change haddr⟩
  | none =>
    obtain ⟨plain', h'⟩ : ∃ plain',
        Tracks S blake3 N (db.putAccount blake3 (Account.empty addr)) plain' :=
      h.putAccount hkey haddr (hclear hacc)
    exact ⟨plain', h'.changeAccount change haddr⟩

end

/-! ### Writing the marked entries -/

def syncEntry (blake3 : Bytes → Hash) (db : InMemoryStateDb H) (trie : EnergyVerkleTrie H) :
    Entry → EnergyVerkleTrie H
  | .inl id => db.syncObject blake3 trie id
  | .inr addr => db.syncAccount blake3 trie addr

lemma syncEntry_spec (db : InMemoryStateDb H) {trie : EnergyVerkleTrie H}
    (hrepresents : Represents S trie plain)
    (hvalid : plain.Valid) {e : Entry} (hclear : trie.Clear (entryKey blake3 e))
    (haccount : ∀ addr, e = .inr addr → (db.accounts.lookup addr).isSome) :
    ∃ plain', Represents S (db.syncEntry blake3 trie e) plain' ∧ plain'.Valid ∧
      (∀ k, plain'.get k = if k = entryKey blake3 e then entryValue blake3 db e else plain.get k) ∧
      ∀ k, trie.Clear k → (db.syncEntry blake3 trie e).Clear k := by
  cases e with
  | inl id =>
    simp only [syncEntry, syncObject, entryValue]
    cases db.objects.lookup id with
    | some obj =>
      exact ⟨_, hrepresents.insert hclear .., hvalid.insert .., fun k => hvalid.get_insert ..,
        fun k hk => hk.apply (.insert ..) hclear⟩
    | none =>
      exact ⟨_, hrepresents.delete hclear, hvalid.delete _, fun k => hvalid.get_delete ..,
        fun k hk => hk.apply (.delete _) hclear⟩
  | inr addr =>
    obtain ⟨acc, hacc⟩ := Option.isSome_iff_exists.mp (haccount addr rfl)
    simp only [syncEntry, syncAccount, entryValue, hacc]
    exact ⟨_, hrepresents.insert hclear .., hvalid.insert .., fun k => hvalid.get_insert ..,
      fun k hk => hk.apply (.insert ..) hclear⟩

lemma syncEntries_spec (hkey : Set.InjOn (entryKey blake3) N) {l : List Entry}
    {trie : EnergyVerkleTrie H} {marks : Set Entry} (hrepresents : Represents S trie plain)
    (hvalid : plain.Valid)
    (hagrees : Agrees (entryKey blake3) N plain.get (entryValue blake3 db) marks)
    (hl : ∀ e ∈ l, e ∈ N ∧ trie.Clear (entryKey blake3 e))
    (haccounts : ∀ addr, .inr addr ∈ l → (db.accounts.lookup addr).isSome) :
    ∃ plain', Represents S (l.foldl (db.syncEntry blake3) trie) plain' ∧ plain'.Valid ∧
      Agrees (entryKey blake3) N plain'.get (entryValue blake3 db) (marks \ { e | e ∈ l }) := by
  induction l generalizing trie plain marks with
  | nil =>
    refine ⟨plain, hrepresents, hvalid, ?_⟩
    simpa using hagrees
  | cons e l ih =>
    obtain ⟨⟨he, hclear⟩, hl⟩ := List.forall_mem_cons.mp hl
    obtain ⟨plain', hrepresents', hvalid', hget, hclears⟩ := syncEntry_spec db hrepresents hvalid
      hclear fun addr haddr => haccounts addr (by simp [haddr])
    have hagrees' : Agrees (entryKey blake3) N plain'.get (entryValue blake3 db) (marks \ {e}) :=
      hagrees.write hkey he hget (fun _ _ => rfl) fun e' hne hmem => ⟨hmem, hne⟩
    obtain ⟨plain'', hrepresents'', hvalid'', hagrees''⟩ := ih hrepresents' hvalid' hagrees'
      (fun e' he' => ⟨(hl e' he').1, hclears _ (hl e' he').2⟩)
      (fun addr haddr => haccounts addr (.tail _ haddr))
    refine ⟨plain'', hrepresents'', hvalid'', ?_⟩
    have hmarks : marks \ { e' | e' ∈ e :: l } = (marks \ {e}) \ { e' | e' ∈ l } := by
      ext e'
      simp [and_assoc]
    rwa [hmarks]

lemma syncDirtyToTrie_of_nil (hobjects : db.dirtyObjects = []) (haccounts : db.dirtyAccounts = []) :
    db.syncDirtyToTrie blake3 = db := by
  cases db
  subst hobjects haccounts
  simp [InMemoryStateDb.syncDirtyToTrie]

section

variable (h : Tracks S blake3 N db plain)

include h

/-- After the marked entries are written no entry is marked. -/
lemma Tracks.syncDirtyToTrie (hkey : Set.InjOn (entryKey blake3) N)
    (hclear : ∀ e ∈ db.dirty, db.trie.Clear (entryKey blake3 e)) :
    ∃ plain', Tracks S blake3 N (db.syncDirtyToTrie blake3) plain' := by
  have hmem : ∀ e, e ∈ (db.dirtyObjects.mergeSort bytesLe).map Sum.inl ++
      (db.dirtyAccounts.mergeSort bytesLe).map Sum.inr ↔ e ∈ db.dirty := by
    rintro (id | addr) <;> simp
  obtain ⟨plain', hrepresents, hvalid, hagrees⟩ := syncEntries_spec hkey h.represents h.valid
    h.agrees (fun e he => ⟨h.marked ((hmem e).mp he), hclear e ((hmem e).mp he)⟩)
    (fun addr haddr => h.accounts addr (inr_mem_dirty.mp ((hmem _).mp haddr)))
  have hnone : (db.syncDirtyToTrie blake3).dirty = ∅ := by
    ext (id | addr) <;> simp [InMemoryStateDb.syncDirtyToTrie]
  refine ⟨plain', ?_, hvalid, h.keyed, ?_, h.stored, ?_, ?_⟩
  · rw [foldl_append, foldl_map, foldl_map] at hrepresents
    exact hrepresents
  · have hdiff : db.dirty \ { e | e ∈ (db.dirtyObjects.mergeSort bytesLe).map Sum.inl ++
        (db.dirtyAccounts.mergeSort bytesLe).map Sum.inr } = ∅ := by
      ext e
      simp only [Set.mem_sdiff, Set.mem_ofPred_eq, hmem e, Set.mem_empty_iff_false, and_not_self]
    rw [hnone, ← hdiff]
    exact hagrees
  · rw [hnone]
    exact Set.empty_subset N
  · simp [InMemoryStateDb.syncDirtyToTrie]

/-! ### Runs -/

lemma Tracks.apply (hkey : Set.InjOn (entryKey blake3) N) {op : Op}
    (hnames : op.names ⊆ N) (hop : op.Undisturbed blake3 db) :
    ∃ plain', Tracks S blake3 N (op.apply S blake3 db) plain' := by
  cases op with
  | putObject obj => exact h.putObject hkey (hnames rfl) hop
  | changeObject id change => exact ⟨plain, h.changeObject (hnames rfl) hop⟩
  | deleteObject id => exact h.deleteObject hkey (hnames rfl) hop
  | putAccount acc => exact h.putAccount hkey (hnames rfl) hop
  | changeAccount addr change => exact ⟨plain, h.changeAccount change (hnames rfl)⟩
  | createAccount addr change => exact h.createAccount hkey change (hnames rfl) hop
  | deleteAccount addr => exact h.deleteAccount hkey (hnames rfl) hop
  | computeStateRoot => exact h.syncDirtyToTrie hkey hop
  | compressColdSubtrees =>
    obtain ⟨plain', h'⟩ := h.syncDirtyToTrie hkey hop
    exact ⟨plain', h'.represents.compressCold, h'.valid, h'.keyed, h'.agrees, h'.stored, h'.marked,
      h'.accounts⟩

lemma Tracks.foldl (hkey : Set.InjOn (entryKey blake3) N)
    {ops : List Op} (hnames : ∀ op ∈ ops, op.names ⊆ N) (hops : AllUndisturbed S blake3 db ops) :
    ∃ plain', Tracks S blake3 N (ops.foldl (Op.apply S blake3) db) plain' := by
  induction ops generalizing db plain with
  | nil => exact ⟨plain, h⟩
  | cons op ops ih =>
    obtain ⟨hnamesOp, hnames⟩ := List.forall_mem_cons.mp hnames
    obtain ⟨plain', h'⟩ := h.apply hkey hnamesOp hops.1
    exact ih h' hnames hops.2

end

def named (ops : List Op) : Set Entry := { e | ∃ op ∈ ops, e ∈ op.names }

lemma exists_tracks {ops : List Op} (hkey : Set.InjOn (entryKey blake3) (named ops))
    (hops : AllUndisturbed S blake3 new ops) :
    ∃ plain, Tracks S blake3 (named ops) (run S blake3 ops) plain :=
  tracks_new.foldl hkey (fun op hop _ he => ⟨op, hop, he⟩) hops

/-- What a root stands for: a trie with the values of the stored entries. -/
lemma exists_root {ops : List Op} (hkey : Set.InjOn (entryKey blake3) (named ops))
    (hops : AllUndisturbed S blake3 new ops)
    (hroot : Op.Undisturbed blake3 (run S blake3 ops) .computeStateRoot) :
    ∃ plain : VerkleTrie, plain.Valid ∧
      ((run S blake3 ops).computeStateRoot S blake3).2 = plain.rootHash S ∧
      ∀ k v, plain.get k = some v ↔
        ∃ e, entryKey blake3 e = k ∧ entryValue blake3 (run S blake3 ops) e = some v := by
  obtain ⟨plain, h⟩ := exists_tracks hkey hops
  obtain ⟨plain', h'⟩ := h.syncDirtyToTrie hkey hroot
  have hnone : ((run S blake3 ops).syncDirtyToTrie blake3).dirty = ∅ := by
    ext (id | addr) <;> simp [InMemoryStateDb.syncDirtyToTrie]
  have hagrees := h'.agrees
  rw [hnone] at hagrees
  exact ⟨plain', h'.valid, h'.represents.rootHash, hagrees.get_eq_some h'.stored⟩

/-! ### The rebuilt trie -/

/-- The leaves of the trie built from scratch, in the order of insertion. -/
def leaves (blake3 : Bytes → Hash) (objects : List StateObject)
    (accounts : List (AccountAddress × Account)) : List EnergyLeaf :=
  accounts.map (fun entry => ⟨trieKeyForAccount blake3 entry.1, trieValueForAccount blake3 entry.2,
      2 ^ 64 - 1, 2 ^ 64 - 1, 0⟩) ++
    objects.map fun obj => ⟨trieKeyForObject blake3 obj.id, trieValueForObject blake3 obj,
      obj.energy, obj.halfLife, obj.lastRefreshed⟩

def insertLeaf (l : EnergyLeaf) : EnergyVerkleTrie.Op :=
  .insert l.key l.value l.energy l.halfLife l.epoch

lemma buildEnergyTrie_eq_run (objects : List StateObject)
    (accounts : List (AccountAddress × Account)) :
    buildEnergyTrie blake3 objects accounts =
      EnergyVerkleTrie.run H ((leaves blake3 objects accounts).map insertLeaf) := by
  rw [EnergyVerkleTrie.run, foldl_map, leaves, foldl_append, foldl_map,
    foldl_map]
  rfl

lemma foldl_insertLeaf {l : List EnergyLeaf} (hl : (l.map (·.key)).Nodup)
    (map : Hash → Option Hash) (k v : Hash) :
    (l.map insertLeaf).foldl EnergyVerkleTrie.Op.effect map k = some v ↔
      (∃ leaf ∈ l, leaf.key = k ∧ leaf.value = v) ∨ k ∉ l.map (·.key) ∧ map k = some v := by
  induction l generalizing map with
  | nil => simp
  | cons leaf l ih =>
    obtain ⟨hleaf, hl⟩ := List.nodup_cons.mp hl
    rw [map_cons, foldl_cons, ih hl]
    simp only [insertLeaf, EnergyVerkleTrie.Op.effect]
    by_cases hk : k = leaf.key
    · subst hk
      have hnone : ¬ ∃ leaf' ∈ l, leaf'.key = leaf.key ∧ leaf'.value = v := by
        rintro ⟨leaf', hmem, hkey, -⟩
        exact hleaf (List.mem_map.mpr ⟨leaf', hmem, hkey⟩)
      simp [hleaf, hnone]
    · simp [hk, Ne.symm hk]

section Rebuild

variable {objects : List StateObject} {accounts : List (AccountAddress × Account)}

/-- The maps read in some order. -/
structure Lists (db : InMemoryStateDb H) (objects : List StateObject)
    (accounts : List (AccountAddress × Account)) : Prop where
  objects : objects.Perm (db.objects.entries.map (·.2))
  accounts : accounts.Perm (db.accounts.entries.map fun entry => (entry.1, entry.2))

variable (h : Lists db objects accounts)

include h

lemma Lists.mem_objects (hkeyed : db.objects.KeyedBy (·.id))
    {obj : StateObject} : obj ∈ objects ↔ db.objects.lookup obj.id = some obj := by
  rw [h.objects.mem_iff]
  exact ⟨hkeyed.lookup_of_mem, Dict.mem_values_of_lookup⟩

lemma Lists.mem_accounts {acc : Account} :
    (addr, acc) ∈ accounts ↔ db.accounts.lookup addr = some acc := by
  rw [h.accounts.mem_iff, mem_map]
  constructor
  · rintro ⟨⟨addr', acc'⟩, hmem, heq⟩
    cases heq
    exact AList.mem_lookup_iff.mpr hmem
  · intro hlookup
    exact ⟨⟨addr, acc⟩, AList.mem_lookup_iff.mp hlookup, rfl⟩

/-- The leaves are the stored entries. -/
lemma Lists.mem_leaves (hkeyed : db.objects.KeyedBy (·.id)) (k v : Hash) :
    (∃ leaf ∈ leaves blake3 objects accounts, leaf.key = k ∧ leaf.value = v) ↔
      ∃ e, entryKey blake3 e = k ∧ entryValue blake3 db e = some v := by
  constructor
  · rintro ⟨leaf, hleaf, rfl, rfl⟩
    rcases List.mem_append.mp hleaf with hleaf | hleaf
    · obtain ⟨⟨addr, acc⟩, hmem, rfl⟩ := List.mem_map.mp hleaf
      exact ⟨.inr addr, rfl, by rw [entryValue, h.mem_accounts.mp hmem]; rfl⟩
    · obtain ⟨obj, hmem, rfl⟩ := List.mem_map.mp hleaf
      exact ⟨.inl obj.id, rfl, by rw [entryValue, (h.mem_objects hkeyed).mp hmem]; rfl⟩
  · rintro ⟨id | addr, rfl, hvalue⟩
    · obtain ⟨obj, hobj, rfl⟩ := Option.map_eq_some_iff.mp hvalue
      have hid : obj.id = id := hkeyed id obj hobj
      subst hid
      refine ⟨_, mem_append_right _ (mem_map_of_mem ((h.mem_objects hkeyed).mpr hobj)),
        rfl, rfl⟩
    · obtain ⟨acc, hacc, rfl⟩ := Option.map_eq_some_iff.mp hvalue
      exact ⟨_, mem_append_left _ (mem_map_of_mem (h.mem_accounts.mpr hacc)), rfl, rfl⟩

lemma Lists.nodup_leaves (hkeyed : db.objects.KeyedBy (·.id)) (hkey : Set.InjOn (entryKey blake3) N)
    (hstored : ∀ e, (entryValue blake3 db e).isSome → e ∈ N) :
    ((leaves blake3 objects accounts).map (·.key)).Nodup := by
  have hmap : (leaves blake3 objects accounts).map (·.key) =
      (accounts.map (fun entry => (Sum.inr entry.1 : Entry)) ++
        objects.map fun obj => (Sum.inl obj.id : Entry)).map (entryKey blake3) := by
    simp only [leaves, map_append, map_map]
    rfl
  have hmem : ∀ e ∈ accounts.map (fun entry => (Sum.inr entry.1 : Entry)) ++
      objects.map (fun obj => (Sum.inl obj.id : Entry)), e ∈ N := by
    intro e he
    apply hstored
    rcases List.mem_append.mp he with he | he
    · obtain ⟨⟨addr, acc⟩, hacc, rfl⟩ := List.mem_map.mp he
      rw [entryValue, h.mem_accounts.mp hacc]
      rfl
    · obtain ⟨obj, hobj, rfl⟩ := List.mem_map.mp he
      rw [entryValue, (h.mem_objects hkeyed).mp hobj]
      rfl
  rw [hmap]
  refine List.Nodup.map_on (fun e he e' he' => hkey (hmem e he) (hmem e' he')) ?_
  refine List.Nodup.append ?_ ?_ ?_
  · have hkeys : (accounts.map (·.1)).Nodup := by
      rw [(h.accounts.map _).nodup_iff, map_map]
      exact db.accounts.keys_nodup
    have hentries := hkeys.map (f := Sum.inr) (@Sum.inr_injective ObjectId AccountAddress)
    rwa [map_map] at hentries
  · have hids : (objects.map (·.id)).Nodup := by
      rw [(h.objects.map _).nodup_iff]
      exact hkeyed.nodup_keys
    have hentries := hids.map (f := Sum.inl) (@Sum.inl_injective ObjectId AccountAddress)
    rwa [map_map] at hentries
  · intro e he he'
    obtain ⟨_, -, rfl⟩ := List.mem_map.mp he
    obtain ⟨_, -, heq⟩ := List.mem_map.mp he'
    cases heq

end Rebuild

/-- If no key is written or deleted in a compressed subtree, the root of a database is the root of a
trie built from scratch, and databases with the same objects and accounts have the same root. -/
theorem state_root_eq_rebuild (S : VerkleScheme H F G) (blake3 : Bytes → Hash) (ops : List Op)
    (hkey : Set.InjOn (entryKey blake3) (named ops)) (hops : AllUndisturbed S blake3 new ops)
    (hroot : Op.Undisturbed blake3 (run S blake3 ops) .computeStateRoot) :
    (∀ objects accounts, Lists (run S blake3 ops) objects accounts →
        ((run S blake3 ops).computeStateRoot S blake3).2 =
          (buildEnergyTrie blake3 objects accounts).rootHash S) ∧
      ∀ ops' : List Op, Set.InjOn (entryKey blake3) (named ops') →
        AllUndisturbed S blake3 new ops' →
        Op.Undisturbed blake3 (run S blake3 ops') .computeStateRoot →
        (∀ id, (run S blake3 ops).objects.lookup id = (run S blake3 ops').objects.lookup id) →
        (∀ addr, (run S blake3 ops).accounts.lookup addr =
          (run S blake3 ops').accounts.lookup addr) →
        ((run S blake3 ops).computeStateRoot S blake3).2 =
          ((run S blake3 ops').computeStateRoot S blake3).2 := by
  obtain ⟨plain, hvalid, hhash, hget⟩ := exists_root hkey hops hroot
  rw [hhash]
  constructor
  · intro objects accounts hlists
    obtain ⟨_, htracks⟩ := exists_tracks hkey hops
    obtain ⟨plain', h'⟩ :=
      exists_mirrors S ((leaves blake3 objects accounts).map insertLeaf)
    have hnodup := hlists.nodup_leaves htracks.keyed hkey htracks.stored
    have heq : plain = plain' := by
      refine hvalid.eq_of_get h'.valid fun k => Option.ext fun v => ?_
      rw [h'.get, EnergyVerkleTrie.finalMap, foldl_insertLeaf hnodup,
        hlists.mem_leaves htracks.keyed, hget]
      simp
    rw [buildEnergyTrie_eq_run, h'.represents.rootHash, heq]
  · intro ops' hkey' hops' hroot' hobjects haccounts
    obtain ⟨plain', hvalid', hhash', hget'⟩ := exists_root hkey' hops' hroot'
    have hvalue : entryValue blake3 (run S blake3 ops) = entryValue blake3 (run S blake3 ops') := by
      funext e
      cases e with
      | inl id => simp only [entryValue, hobjects]
      | inr addr => simp only [entryValue, haccounts]
    have heq : plain = plain' := by
      refine hvalid.eq_of_get hvalid' fun k => Option.ext fun v => ?_
      rw [hget, hget', hvalue]
    rw [hhash', heq]

/-! ### A small database -/

/-- A stand-in for the hash that drops three bytes, so that the key of an object is its id. -/
def dropTag (bytes : Bytes) : Hash :=
  ⟨(bytes.drop 3 ++ List.replicate 32 0).take 32, by simp⟩

/-- An object with the given first two bytes of its id. -/
def sampleObject (first second : UInt8) (energy : ℕ) : StateObject where
  id := ⟨first :: second :: List.replicate 30 0, by simp⟩
  owner := Hash.zero
  energy := energy
  halfLife := 10
  createdAt := 0
  lastRefreshed := 0
  state := .active
  graceEpoch := none
  data := []
  decayCurve := none
  ladMode := none

/-- Two objects without energy below one node, and one with energy. -/
def threeObjects : List Op :=
  [.putObject (sampleObject 0 0 0), .putObject (sampleObject 0 1 0),
   .putObject (sampleObject 1 0 5)]

/-- The two objects are compressed, and then the other one is replaced. -/
def replacedOutside : List Op :=
  threeObjects ++ [.compressColdSubtrees, .putObject (sampleObject 1 0 4)]

theorem state_root_eq_rebuild_outside :
    ((run VerkleScheme.free dropTag replacedOutside).computeStateRoot VerkleScheme.free dropTag).2 =
      (buildEnergyTrie dropTag [sampleObject 1 0 4, sampleObject 0 1 0, sampleObject 0 0 0]
        []).rootHash VerkleScheme.free := by
  have hnone (db : InMemoryStateDb ℕ) (h : db.dirtyObjects = []) (h' : db.dirtyAccounts = []) :
      ∀ e ∈ db.dirty, db.trie.Clear (entryKey dropTag e) := by
    simp [h, h']
  have hnamed : ∀ e ∈ named replacedOutside, e ∈ [Sum.inl (sampleObject 0 0 0).id,
      .inl (sampleObject 0 1 0).id, .inl (sampleObject 1 0 0).id] := by
    rintro e ⟨op, hop, he⟩
    simp only [replacedOutside, threeObjects, cons_append, nil_append, mem_cons,
      not_mem_nil, or_false] at hop
    rcases hop with rfl | rfl | rfl | rfl | rfl <;> simp_all [Op.names, sampleObject]
  have hdistinct : ∀ e ∈ [Sum.inl (sampleObject 0 0 0).id, .inl (sampleObject 0 1 0).id,
      .inl (sampleObject 1 0 0).id], ∀ e' ∈ [Sum.inl (sampleObject 0 0 0).id,
      .inl (sampleObject 0 1 0).id, .inl (sampleObject 1 0 0).id],
      entryKey dropTag e = entryKey dropTag e' → e = e' := by decide +kernel
  refine (state_root_eq_rebuild free dropTag replacedOutside
    (fun e he e' he' => hdistinct e (hnamed e he) e' (hnamed e' he'))
    ⟨rfl, rfl, rfl, hnone _ rfl rfl, ?_, trivial⟩ (hnone _ rfl rfl)).1 _ _ ⟨.refl _, .refl _⟩
  show EnergyVerkleTrie.hitsCompressed _ _ _ = false
  decide +kernel

/-- One of the compressed objects is deleted. -/
def deletedInside : List Op :=
  threeObjects ++ [.compressColdSubtrees, .deleteObject (sampleObject 0 0 0).id]

/-- The root still has the object that was deleted from a compressed subtree. -/
theorem state_root_keeps_deleted :
    Lists (run VerkleScheme.free dropTag deletedInside)
      [sampleObject 1 0 5, sampleObject 0 1 0] [] ∧
      ((run VerkleScheme.free dropTag deletedInside).computeStateRoot VerkleScheme.free dropTag).2 ≠
        (buildEnergyTrie dropTag [sampleObject 1 0 5, sampleObject 0 1 0] []).rootHash
          VerkleScheme.free := by
  refine ⟨⟨.refl _, .refl _⟩, ?_⟩
  -- the compressed trie stands for all three objects, and the deletion does nothing
  obtain ⟨plain, h⟩ := exists_mirrors free ((leaves dropTag
    [sampleObject 0 0 0, sampleObject 0 1 0, sampleObject 1 0 5] []).map insertLeaf)
  obtain ⟨plain', h'⟩ := exists_mirrors free ((leaves dropTag
    [sampleObject 1 0 5, sampleObject 0 1 0] []).map insertLeaf)
  have hcompressed : Represents free
      (run free dropTag (threeObjects ++ [.compressColdSubtrees])).trie plain := by
    have hsync : (run free dropTag threeObjects).syncDirtyToTrie dropTag =
        run free dropTag threeObjects := syncDirtyToTrie_of_nil rfl rfl
    have hcompress := h.represents.compressCold
    show Represents _ (((run free dropTag threeObjects).syncDirtyToTrie
      dropTag).trie.compressCold free).1 plain
    rw [hsync]
    exact hcompress
  have hhit : EnergyVerkleTrie.hitsCompressed (trieKeyForObject dropTag (sampleObject 0 0 0).id)
      Verkle.maxDepth (run free dropTag
        (threeObjects ++ [.compressColdSubtrees])).trie.root = true := by decide +kernel
  have hdeleted : (run free dropTag deletedInside).trie.root =
      (run free dropTag (threeObjects ++ [.compressColdSubtrees])).trie.root :=
    congrArg Prod.fst (EnergyNode.deleteRecursive_of_hits hhit)
  intro hroot
  have hhash : plain.rootHash free = plain'.rootHash free := by
    rw [← hcompressed.rootHash, ← h'.represents.rootHash, ← buildEnergyTrie_eq_run, ← hroot,
      EnergyVerkleTrie.rootHash, ← hdeleted, computeStateRoot, syncDirtyToTrie_of_nil rfl rfl]
    rfl
  have heq := Verkle.nodeHash_injective free_ideal hhash
  have hget := h.get (sampleObject 0 0 0).id
  rw [VerkleTrie.get, heq, ← VerkleTrie.get, h'.get] at hget
  revert hget
  decide +kernel

end InMemoryStateDb

end EvaporChain
