import Caching.Linked.Chain

/-!
# Sequences

A sequence is a chain with a pool of its own. A value is named by the handle that its insertion returned, and
the name holds until the value is erased, whatever happens to the others; after that it may name another
value.
-/

namespace Caching.Linked

structure Sequence (α : Type) where
  pool : Pool α := .empty
  chain : Chain := .empty

namespace Sequence

variable {α : Type}

def empty : Sequence α := {}

instance : Inhabited (Sequence α) := ⟨empty⟩

def length (s : Sequence α) : Nat := s.chain.length

def pushFirst (s : Sequence α) (v : α) : Handle × Sequence α :=
  let (h, pool) := s.pool.insert v
  let (chain, pool) := s.chain.attachFirst pool h
  (h, { pool, chain })

def pushLast (s : Sequence α) (v : α) : Handle × Sequence α :=
  let (h, pool) := s.pool.insert v
  let (chain, pool) := s.chain.attachLast pool h
  (h, { pool, chain })

def erase (s : Sequence α) (h : Handle) : Option α × Sequence α :=
  match s.chain.detach s.pool h with
  | (false, chain, pool) => (none, { pool, chain })
  | (true, chain, pool) =>
    let (v?, pool) := pool.erase h
    (v?, { pool, chain })

def popFirst (s : Sequence α) : Option α × Sequence α :=
  match s.chain.detachFirst s.pool with
  | (none, chain, pool) => (none, { pool, chain })
  | (some h, chain, pool) =>
    let (v?, pool) := pool.erase h
    (v?, { pool, chain })

def popLast (s : Sequence α) : Option α × Sequence α :=
  match s.chain.detachLast s.pool with
  | (none, chain, pool) => (none, { pool, chain })
  | (some h, chain, pool) =>
    let (v?, pool) := pool.erase h
    (v?, { pool, chain })

def moveToFirst (s : Sequence α) (h : Handle) : Sequence α :=
  let (chain, pool) := s.chain.moveToFirst s.pool h
  { pool, chain }

def get? (s : Sequence α) (h : Handle) : Option α := s.pool.get? h

def modifyValue (s : Sequence α) (h : Handle) (f : α → α) : Sequence α :=
  { s with pool := s.pool.modifyValue h f }

/-- Puts a new value under a handle and returns the old one. This is how a caller that may change the value
overwrites it. -/
def replace (s : Sequence α) (h : Handle) (v : α) : Option α × Sequence α :=
  let (old?, pool) := s.pool.replace h v
  (old?, { s with pool })

def clear (s : Sequence α) : Sequence α := { pool := s.pool.clear }

/-- The values from first to last. -/
def toList (s : Sequence α) : List α := (s.chain.handles s.pool).filterMap s.pool.get?

end Sequence

end Caching.Linked
