import Amberchain.Base.LittleEndian
import Amberchain.Params
import Mathlib.Data.Finmap

/-!
# Permission rows, database and ledger

The records of the permission store: the ledger rows with their per-key links,
the database with one row per key, and the block records that share the ledger
row layout.
-/

namespace Amberchain

namespace Permission

/-- A `MC_PTP_` bit mask. -/
abbrev PermType := BitVec 32

def MC_PTP_CONNECT : PermType := 0x00000001
def MC_PTP_SEND : PermType := 0x00000002
def MC_PTP_RECEIVE : PermType := 0x00000004
def MC_PTP_WRITE : PermType := 0x00000008
def MC_PTP_ISSUE : PermType := 0x00000010
def MC_PTP_CREATE : PermType := 0x00000020
def MC_PTP_MINE : PermType := 0x00000100
def MC_PTP_ADMIN : PermType := 0x00001000
def MC_PTP_ACTIVATE : PermType := 0x00002000
def MC_PTP_UPGRADE : PermType := 0x00010000
def MC_PTP_BLOCK_MINER : PermType := 0x01000000
def MC_PTP_BLOCK_INDEX : PermType := 0x02000000
def MC_PTP_GLOBAL_ALL : PermType := 0x00003137

def MC_PFL_IS_SCRIPTHASH : BitVec 32 := 0x00000001
def MC_PFL_ENTITY_GENESIS : BitVec 32 := 0x00000002

def MC_PFB_MINED_BEFORE : BitVec 32 := 0x00000001
def MC_PFB_GOVERNANCE_CHANGE : BitVec 32 := 0x00000002

def MC_PLS_SIZE_OFFSETS_PER_ROW : ℕ := 6

def MC_PRM_DECIMAL_GRANULARITY : ℕ := 1000000

def nullEntity : Hash256 := 0

/-- First byte `MC_PSE_UPGRADE`, the rest zero. -/
def upgradeEntity : Hash256 := 0x01

/-- The part of a row that identifies a permission. -/
structure PermKey where
  entity : Hash256
  address : Hash160
  type : PermType
deriving DecidableEq

/-- Value part of `mc_PermissionDBRow`. -/
structure DBRow where
  blockFrom : ℕ
  blockTo : ℕ
  ledgerRow : ℕ
  flags : BitVec 32
deriving DecidableEq

/-- `mc_PermissionLedgerRow`.  `mc_BlockLedgerRow` overlays it: there
`consensus` and `flags` hold the admin and miner counts, `offset` holds the
block flags, and the 32 bytes from `admin` to `timestamp` hold the block
hash. -/
structure LedgerRow where
  key : PermKey
  prevRow : ℕ
  blockFrom : ℕ
  blockTo : ℕ
  consensus : BitVec 32
  flags : BitVec 32
  admin : Hash160
  grantFrom : ℕ
  grantTo : ℕ
  timestamp : ℕ
  offset : BitVec 32
  blockReceived : ℕ
  thisRow : ℕ
deriving DecidableEq

namespace LedgerRow

/-- `Zero()` with the key filled in. -/
def zero (key : PermKey) : LedgerRow where
  key := key
  prevRow := 0
  blockFrom := 0
  blockTo := 0
  consensus := 0
  flags := 0
  admin := 0
  grantFrom := 0
  grantTo := 0
  timestamp := 0
  offset := 0
  blockReceived := 0
  thisRow := 0

/-- `m_AdminCount` of the block row overlay. -/
def adminCount (row : LedgerRow) : BitVec 32 := row.consensus

/-- `m_MinerCount` of the block row overlay. -/
def minerCount (row : LedgerRow) : BitVec 32 := row.flags

/-- `m_BlockFlags` of the block row overlay. -/
def blockFlags (row : LedgerRow) : BitVec 32 := row.offset

def setCounts (row : LedgerRow) (adminCount minerCount : BitVec 32) : LedgerRow :=
  { row with consensus := adminCount, flags := minerCount }

/-- Writes `m_CommitHash` of the block row overlay. -/
def setCommitHash (row : LedgerRow) (hash : Hash256) : LedgerRow :=
  { row with
    admin := hash.extractLsb' 0 160
    grantFrom := (hash.extractLsb' 160 32).toNat
    grantTo := (hash.extractLsb' 192 32).toNat
    timestamp := (hash.extractLsb' 224 32).toNat }

/-- The database row that `Commit` and `RollBack` derive from a ledger row. -/
def toDBRow (row : LedgerRow) (ledgerRow : ℕ) : DBRow where
  blockFrom := row.blockFrom
  blockTo := row.blockTo
  ledgerRow := ledgerRow
  flags := row.flags

end LedgerRow

end Permission

end Amberchain
