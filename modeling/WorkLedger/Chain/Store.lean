import WorkLedger.Ledger.Json

/-!
# A chain of blocks in memory

A `Store` holds a chain's blocks in order. Appending accepts only the block whose number is the
chain's height and, after the first block, whose previous hash is the head's hash, so block `i`
has number `i` and links to block `i - 1`. Looking a block up by hash goes through the hash
index, which keeps for each hash the number of the last block stored with it, and then looks
that number up.

The index is the blocks' hashes inserted in order (`Store.index`): each append inserts the new
block's hash (`IndexedStore`, the chain with the index it keeps), and loading a saved chain
inserts them all again.
-/

namespace WorkLedger

/-- For a hash, the number of the block stored under it. -/
def HashIndex : Type := Digest → Option UInt64

namespace HashIndex

/-- The index of no block. -/
def empty : HashIndex := fun _ => none

/-- Stores the number `n` under the hash `h`, in place of what was stored under it. -/
def insert (m : HashIndex) (h : Digest) (n : UInt64) : HashIndex :=
  fun k => if k = h then some n else m k

end HashIndex

/-- The blocks of a chain, first block first. -/
structure Store where
  blocks : List Block
  deriving Inhabited

namespace Store

/-- The hash index of the chain: each block's number under its hash, inserted in the order of the
blocks, so that a later block with the same hash takes the place of an earlier one. -/
def index (s : Store) : HashIndex :=
  s.blocks.foldl (fun m b => m.insert b.hash b.blockNumber) HashIndex.empty

/-- The chain without blocks. -/
def empty : Store := ⟨[]⟩

/-- The number of blocks. -/
def height (s : Store) : Nat := s.blocks.length

/-- The last block. -/
def head? (s : Store) : Option Block := s.blocks.getLast?

/-- Block number `n`. -/
def block? (s : Store) (n : Nat) : Option Block := s.blocks[n]?

/-- The header of block number `n`. -/
def header? (s : Store) (n : Nat) : Option Header := (s.block? n).map (·.header)

/-- The block found through the hash index: the number stored under hash `h`, looked up by
number. -/
def blockByHash? (s : Store) (h : Digest) : Option Block :=
  (s.index h).bind fun n => s.block? n.toNat

/-- The headers of the last `count` blocks, oldest first. -/
def recentHeaders (s : Store) (count : Nat) : List Header :=
  (s.blocks.drop (s.height - count)).map (·.header)

/-- Appends a block that continues the chain: its number must be the height, and after the
first block its previous hash must be the head's hash. -/
def append (s : Store) (b : Block) : Except LedgerError Store :=
  if b.blockNumber.toNat ≠ s.height then
    .error (.illegalArgument ("block #" ++ toString b.blockNumber ++ " cannot follow a chain of " ++
      toString s.height ++ " blocks"))
  else
    match s.head? with
    | some head =>
      if 0 < s.height ∧ b.header.previousHash ≠ head.hash then
        .error (.illegalArgument ("block #" ++ toString b.blockNumber ++ " does not link to head " ++
          head.hash.hex))
      else .ok ⟨s.blocks ++ [b]⟩
    | none => .ok ⟨s.blocks ++ [b]⟩

/-- Appends blocks in order, stopping at the first refusal. -/
def appendAll (s : Store) (bs : List Block) : Except LedgerError Store :=
  bs.foldlM append s

/-- The chain as saved: an object with the list of blocks. -/
def toJson (s : Store) : Json := .obj [("blocks", .arr (s.blocks.map Block.toJson))]

def shape : Json.Shape := .record "MemoryChain" [("blocks", .list Block.shape)]

def ofDatum (d : Json.Datum) : Store := ⟨(d.field 0).itemsD.map Block.ofDatum⟩

/-- The chain as saved text: its JSON written compactly. -/
def save (s : Store) : String := s.toJson.compact

/-- The chain read back from saved text. The blocks are taken as they stand, without checks. -/
def load (text : String) : Except String Store := loadEntity "chain" shape ofDatum text

/-- Whether every block is found through the hash index as itself. -/
def indexed (s : Store) : Bool := s.blocks.all fun b => s.blockByHash? b.hash == some b

/-- The chain of its first `n` blocks. -/
def rewind (s : Store) (n : Nat) : Store := ⟨s.blocks.take n⟩

end Store

/-- A chain with the hash index kept beside it as appending keeps it: each block appended inserts
its hash, and nothing else touches the index. -/
structure IndexedStore where
  store : Store
  byHash : HashIndex

namespace IndexedStore

/-- The chain without blocks, with an empty index. -/
def empty : IndexedStore := ⟨Store.empty, HashIndex.empty⟩

/-- Appends a block to the chain and, when that succeeds, inserts its number under its hash. -/
def append (c : IndexedStore) (b : Block) : Except LedgerError IndexedStore :=
  match c.store.append b with
  | .ok s => .ok ⟨s, c.byHash.insert b.hash b.blockNumber⟩
  | .error e => .error e

/-- The chain after an append call, which leaves it as it was when the append fails. -/
def tryAppend (c : IndexedStore) (b : Block) : IndexedStore :=
  match c.append b with
  | .ok c' => c'
  | .error _ => c

/-- The block found through the kept index. -/
def blockByHash? (c : IndexedStore) (h : Digest) : Option Block :=
  (c.byHash h).bind fun n => c.store.block? n.toNat

end IndexedStore

end WorkLedger
