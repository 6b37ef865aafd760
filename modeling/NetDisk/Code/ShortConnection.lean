import Mathlib.Logic.Function.Basic

/-!
# `short_connection.cpp` and `mpthread.cpp`

The main thread accepts connections and writes their descriptors into the pipes of the workers; a
worker reads one, and runs `recvClientMsg` on it. There are `k` workers.
-/

namespace NetDisk

namespace ShortConnection

/-- What a descriptor stands for: a connection, which has a number of its own, or a file of the server. -/
inductive Target where
  | client (c : Nat)
  | server
deriving DecidableEq

/-- What `recvClientMsg` does with `client_fd`. -/
inductive Use where
  | recv
  | process
  | close
deriving DecidableEq

/-- Where a worker is in `recvClientMsg`, and its `client_fd`. -/
inductive Phase where
  | idle
  | got (clientFd : Int)
  | received (clientFd : Int)
  | processed (clientFd : Int)
deriving DecidableEq

/-- A use of a descriptor, and what it stood for then. -/
structure Touch (k : Nat) where
  worker : Fin k
  use : Use
  target : Option Target
deriving DecidableEq

structure State (k : Nat) where
  /-- The descriptors that are open. -/
  table : Int → Option Target
  pipe : Fin k → List Int
  phase : Fin k → Phase
  /-- The workers that the accepted connections were handed to; `none` where that failed. -/
  accepted : List (Option (Fin k))
  log : List (Touch k)

/-- The files of the server are open. -/
def start {k : Nat} (own : Int → Bool) : State k where
  table fd := if own fd = true then some .server else none
  pipe _ := []
  phase _ := .idle
  accepted := []
  log := []

inductive Act (k : Nat) where
  /-- `mainConnectByClient`, with the descriptor from `accept`, the worker from `rand`, and whether `write` succeeds. -/
  | accept (clientFd : Int) (i : Fin k) (written : Bool)
  /-- `mainConnectByClient` when `accept` fails. -/
  | refuse
  | read (i : Fin k)
  /-- `read` fails, and `client_fd` has the value that was on the stack. -/
  | readFails (i : Fin k) (garbage : Int)
  /-- `recv`, and whether it succeeds. -/
  | recv (i : Fin k) (ok : Bool)
  /-- `Control::Process`, with the `send` in it. -/
  | process (i : Fin k)
  | close (i : Fin k)
  /-- Other threads open and close descriptors of their own. -/
  | openOwn (fd : Int)
  | closeOwn (fd : Int)
deriving DecidableEq

variable {k : Nat}

namespace State

def touch (s : State k) (i : Fin k) (use : Use) (fd : Int) (phase : Phase) : State k :=
  { s with phase := Function.update s.phase i phase, log := s.log ++ [⟨i, use, s.table fd⟩] }

/-- The state after a step, if it can be made. -/
def step (s : State k) : Act k → Option (State k)
  | .accept fd i written =>
    -- The number is not in use, and nothing looks at what `write` returns.
    if s.table fd = none then
      some { s with
        table := Function.update s.table fd (some (.client s.accepted.length))
        pipe := if written = true then Function.update s.pipe i (s.pipe i ++ [fd]) else s.pipe
        accepted := s.accepted ++ [if written = true then some i else none] }
    else none
  | .refuse => some s
  | .read i =>
    match s.phase i, s.pipe i with
    | .idle, fd :: rest =>
      some { s with pipe := Function.update s.pipe i rest, phase := Function.update s.phase i (.got fd) }
    | _, _ => none
  | .readFails i garbage =>
    match s.phase i with
    | .idle => some { s with phase := Function.update s.phase i (.got garbage) }
    | _ => none
  | .recv i _ =>
    -- A failed `recv` is only logged.
    match s.phase i with
    | .got fd => some (s.touch i .recv fd (.received fd))
    | _ => none
  | .process i =>
    match s.phase i with
    | .received fd => some (s.touch i .process fd (.processed fd))
    | _ => none
  | .close i =>
    match s.phase i with
    | .processed fd => some { s.touch i .close fd .idle with table := Function.update s.table fd none }
    | _ => none
  | .openOwn fd => if s.table fd = none then some { s with table := Function.update s.table fd (some .server) } else none
  | .closeOwn fd =>
    if s.table fd = some .server then some { s with table := Function.update s.table fd none } else none

def run (s : State k) (acts : List (Act k)) : Option (State k) := acts.foldlM step s

end State

end ShortConnection

end NetDisk
