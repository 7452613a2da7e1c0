/-!
# The write lock

All frames of a message are written under one lock, which is granted first come, first served.

## Contents
- **Parties.** `Party`: the caller of the link, and its workers.
- **The lock.** `WriteLock.request` and `WriteLock.release`. A released lock passes straight to the
  party that has waited longest.
-/

namespace HeadLink

/-- Who may hold the write lock. -/
inductive Party where
  /-- Whoever calls into the link from outside. -/
  | caller
  | worker (id : Nat)
  deriving DecidableEq

/-- A lock and the parties that wait for it. -/
structure WriteLock where
  holder : Option Party := none
  /-- Longest waiting first. -/
  waiting : List Party := []
  deriving DecidableEq

namespace WriteLock

/-- Takes a free lock, or joins those that wait for it. -/
def request (l : WriteLock) (p : Party) : WriteLock :=
  match l.holder with
  | none => { l with holder := some p }
  | some _ => { l with waiting := l.waiting ++ [p] }

/-- Passes the lock on. -/
def release (l : WriteLock) : WriteLock where
  holder := l.waiting.head?
  waiting := l.waiting.tail

end WriteLock

end HeadLink
