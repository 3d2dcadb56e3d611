import Xv6.Bio

/-!
# The redo log (`log.c`)

The log holds at most one transaction at a time.  `logWrite` copies a modified block into
the log area, `commitTrans` writes the header (the real commit), installs the logged blocks
at their home locations and erases the header, and `recoverFromLog` does the last two steps
again for a header that a crash has left behind.
-/

namespace Xv6

open Lib

/-- Change the in-memory log. -/
def modifyLog (f : Log → Log) : Blk Unit := fun k => .ok () { k with log := f k.log }

/-! ## The header block -/

/-- The header that the bytes of a block hold, over a header whose entries from `n` on stay. -/
def LogHeader.decode (old : LogHeader) (d : Block) : LogHeader where
  n := d.getInt 0
  sector i := if i < (d.getInt 0).toNat then d.get32 (4 + 4 * i) else old.sector i

/-- Store the first `n` entries of a header in a block, and leave its other bytes. -/
def LogHeader.encode (lh : LogHeader) (d : Block) : Block :=
  (List.range lh.n.toNat).foldl (fun d i => d.set32 (4 + 4 * i) (lh.sector i)) (d.setInt 0 lh.n)

/-- Read the log header from disk into the in-memory log header. -/
def readHead : Blk Unit := do
  let k ← get
  let b ← bread k.log.dev k.log.start
  let k ← get
  modifyLog fun log => { log with lh := log.lh.decode (k.buf b).data }
  brelse b

/-- Write the in-memory log header to disk.  This is the true point at which the current
transaction commits. -/
def writeHead : Blk Unit := do
  let k ← get
  let b ← bread k.log.dev k.log.start
  let k ← get
  setData b (k.log.lh.encode (k.buf b).data)
  bwrite b
  brelse b

/-! ## Installing and recovering -/

/-- The body of the loop of `installTrans`: copy the logged block of one position to its home
location. -/
def installBlock (tail : ℕ) : Blk Unit := do
  let k ← get
  let lbuf ← bread k.log.dev (k.log.start + tail + 1)
  let dbuf ← bread k.log.dev (k.log.lh.sector tail)
  let k ← get
  setData dbuf (k.buf lbuf).data
  bwrite dbuf
  brelse lbuf
  brelse dbuf

/-- The loop of `installTrans` over the given positions. -/
def installLoop : List ℕ → Blk Unit
  | [] => pure ()
  | tail :: rest => do
      installBlock tail
      installLoop rest

/-- Copy committed blocks from the log to their home locations. -/
def installTrans : Blk Unit := do
  let k ← get
  installLoop (List.range k.log.lh.n.toNat)

/-- `log.lh.n = 0`. -/
def clearHead : Blk Unit := modifyLog fun log => { log with lh := { log.lh with n := 0 } }

/-- If the header says that a transaction committed, install it; then clear the log. -/
def recoverFromLog : Blk Unit := do
  readHead
  installTrans
  clearHead
  writeHead

/-! ## Transactions -/

/-- Wait until no transaction is active and start one. -/
def beginTrans : Blk Unit := fun k =>
  if k.log.busy = true then .error .sleep k
  else .ok () { k with log := { k.log with busy := true } }

/-- Commit the transaction: write the header, install the blocks and erase the header, unless
nothing has been logged. -/
def commitTrans : Blk Unit := do
  let k ← get
  if 0 < k.log.lh.n then
    writeHead
    installTrans
    clearHead
    writeHead
  modifyLog fun log => { log with busy := false }

/-- The position in the log of a block: that of its sector if it is logged already (log
absorption), and the next free one otherwise. -/
def LogHeader.slot (lh : LogHeader) (sector : ℕ) : ℕ :=
  ((List.range lh.n.toNat).find? fun i => lh.sector i == sector).getD lh.n.toNat

/-- Append a block that the caller has modified to the log, and mark its buffer dirty so that
it stays in the cache. -/
def logWrite (b : BufId) : Blk Unit := do
  let k ← get
  if (LOGSIZE : ℤ) ≤ k.log.lh.n ∨ (k.log.size : ℤ) - 1 ≤ k.log.lh.n then
    panic "too big a transaction"
  else if k.log.busy = false then
    panic "write outside of trans"
  else
    let i := k.log.lh.slot (k.buf b).sector
    modifyLog fun log =>
      { log with lh := { log.lh with
          sector := Function.update log.lh.sector i (k.buf b).sector } }
    let lbuf ← bread (k.buf b).dev (k.log.start + i + 1)
    let k ← get
    setData lbuf (k.buf b).data
    bwrite lbuf
    brelse lbuf
    modifyLog fun log =>
      { log with lh := { log.lh with n := if (i : ℤ) = log.lh.n then log.lh.n + 1 else log.lh.n } }
    modify fun k => k.setBuf b { k.buf b with dirty := true }

/-- The typical use of `logWrite`: get the buffer of a sector, modify its data, log it and
release it. -/
def logUpdate (sector : ℕ) (f : Block → Block) : Blk Unit := do
  let b ← bread ROOTDEV sector
  let k ← get
  setData b (f (k.buf b).data)
  logWrite b
  brelse b

/-- The block updates of a transaction, in order. -/
abbrev Trans : Type := List (ℕ × (Block → Block))

/-- Perform the updates of a transaction. -/
def logUpdates : Trans → Blk Unit
  | [] => pure ()
  | (s, f) :: rest => do
      logUpdate s f
      logUpdates rest

/-- A whole transaction. -/
def runTrans (t : Trans) : Blk Unit := do
  beginTrans
  logUpdates t
  commitTrans

/-- Transactions one after another. -/
def runAll : List Trans → Blk Unit
  | [] => pure ()
  | t :: ts => do
      runTrans t
      runAll ts

end Xv6
