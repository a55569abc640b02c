import EvaporChain.Core.Dict
import EvaporChain.Crypto.EnergyVerkle
import EvaporChain.Execution.Types

/-!
# The in-memory database and its trie

Objects and accounts are mirrored in an energy-annotated trie under hashed keys. What is stored or
deleted is written to the trie at once; what is changed through a mutable reference is marked, and
written before the next root.
-/

namespace EvaporChain

open Core

/-! ### Keys and values of the trie -/

section Derivation

variable (blake3 : Bytes → Hash)

/-- `b"acct"` before the address. -/
def trieKeyForAccount (addr : AccountAddress) : Hash := blake3 ([97, 99, 99, 116] ++ addr.toList)

def trieValueForAccount (acc : Account) : Hash :=
  blake3 (leBytes 8 acc.balance ++ leBytes 8 acc.nonce)

/-- `b"obj"` before the id. -/
def trieKeyForObject (id : ObjectId) : Hash := blake3 ([111, 98, 106] ++ id.toList)

def objectStateToU8 : ObjectState → UInt8
  | .active => 0
  | .grace => 1
  | .ghost => 2
  | .resurrected => 3

def trieValueForObject (obj : StateObject) : Hash :=
  blake3 (leBytes 8 obj.energy ++ [objectStateToU8 obj.state])

variable {H : Type} (trie : EnergyVerkleTrie H)

/-- Accounts have all the energy and never decay. -/
def insertAccount (addr : AccountAddress) (acc : Account) : EnergyVerkleTrie H :=
  trie.insert (trieKeyForAccount blake3 addr) (trieValueForAccount blake3 acc)
    (2 ^ 64 - 1) (2 ^ 64 - 1) 0

def insertObject (id : ObjectId) (obj : StateObject) : EnergyVerkleTrie H :=
  trie.insert (trieKeyForObject blake3 id) (trieValueForObject blake3 obj)
    obj.energy obj.halfLife obj.lastRefreshed

/-- The trie built from scratch; the maps are read in any order. -/
def buildEnergyTrie (objects : List StateObject) (accounts : List (AccountAddress × Account)) :
    EnergyVerkleTrie H :=
  let trie := accounts.foldl (fun trie entry => insertAccount blake3 trie entry.1 entry.2)
    EnergyVerkleTrie.new
  objects.foldl (fun trie obj => insertObject blake3 trie obj.id obj) trie

end Derivation

/-! ### The database -/

structure InMemoryStateDb (H : Type) where
  objects : Dict ObjectId StateObject
  accounts : Dict AccountAddress Account
  trie : EnergyVerkleTrie H
  /-- Objects changed through a mutable reference; a set. -/
  dirtyObjects : List ObjectId
  /-- Accounts changed through a mutable reference; a set. -/
  dirtyAccounts : List AccountAddress

namespace InMemoryStateDb

variable {H F G : Type} [Ring F] [AddCommGroup G] [Module F G] (S : VerkleScheme H F G)
  (blake3 : Bytes → Hash)

def new : InMemoryStateDb H := ⟨∅, ∅, EnergyVerkleTrie.new, [], []⟩

/-- Byte arrays are compared lexicographically. -/
def bytesLe (a b : Hash) : Bool := decide (a.toList.map UInt8.toNat ≤ b.toList.map UInt8.toNat)

variable (db : InMemoryStateDb H) (trie : EnergyVerkleTrie H)

def syncObject (id : ObjectId) : EnergyVerkleTrie H :=
  match db.objects.lookup id with
  | some obj => insertObject blake3 trie id obj
  | none => (trie.delete (trieKeyForObject blake3 id)).1

def syncAccount (addr : AccountAddress) : EnergyVerkleTrie H :=
  match db.accounts.lookup addr with
  | some acc => insertAccount blake3 trie addr acc
  | none => trie

/-- Write the marked entries to the trie, in sorted order. -/
def syncDirtyToTrie : InMemoryStateDb H :=
  let trie := (db.dirtyObjects.mergeSort bytesLe).foldl (syncObject blake3 db) db.trie
  let trie := (db.dirtyAccounts.mergeSort bytesLe).foldl (syncAccount blake3 db) trie
  { db with trie := trie, dirtyObjects := [], dirtyAccounts := [] }

/-! ### Objects -/

/-- `get_object_mut` followed by a change in place. -/
def changeObject (id : ObjectId) (change : StateObject → StateObject) : InMemoryStateDb H :=
  match db.objects.lookup id with
  | some obj =>
    { db with
      objects := db.objects.insert id (change obj)
      dirtyObjects := db.dirtyObjects.insert id }
  | none => db

def putObject (obj : StateObject) : InMemoryStateDb H :=
  { db with
    trie := insertObject blake3 db.trie obj.id obj
    objects := db.objects.insert obj.id obj }

def deleteObject (id : ObjectId) : InMemoryStateDb H :=
  { db with
    trie := (db.trie.delete (trieKeyForObject blake3 id)).1
    objects := db.objects.erase id }

/-! ### Accounts -/

/-- `get_account_mut` followed by a change in place. -/
def changeAccount (addr : AccountAddress) (change : Account → Account) : InMemoryStateDb H :=
  match db.accounts.lookup addr with
  | some acc =>
    { db with
      accounts := db.accounts.insert addr (change acc)
      dirtyAccounts := db.dirtyAccounts.insert addr }
  | none => db

def putAccount (acc : Account) : InMemoryStateDb H :=
  { db with
    trie := insertAccount blake3 db.trie acc.address acc
    accounts := db.accounts.insert acc.address acc }

def deleteAccount (addr : AccountAddress) : InMemoryStateDb H :=
  { db with
    trie := (db.trie.delete (trieKeyForAccount blake3 addr)).1
    dirtyAccounts := db.dirtyAccounts.filter (· ≠ addr)
    accounts := db.accounts.erase addr }

/-- `get_or_create_account` followed by a change in place. -/
def createAccount (addr : AccountAddress) (change : Account → Account) : InMemoryStateDb H :=
  let db := match db.accounts.lookup addr with
    | some _ => db
    | none => putAccount blake3 db (Account.empty addr)
  changeAccount db addr change

/-! ### Roots -/

def computeStateRoot : InMemoryStateDb H × H :=
  let db := syncDirtyToTrie blake3 db
  (db, db.trie.rootHash S)

def compressColdSubtrees : InMemoryStateDb H × ℕ :=
  let db := syncDirtyToTrie blake3 db
  let (trie, count) := db.trie.compressCold S
  ({ db with trie := trie }, count)

end InMemoryStateDb

end EvaporChain
