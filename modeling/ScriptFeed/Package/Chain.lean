import ScriptFeed.Path

/-!
The chain of packages to install: different paths in the order they were asked for, behind the
script that asked first, and a cursor that only moves forward.
-/

namespace ScriptFeed.Package

structure Chain where
  entries : List Path := []
  cursor : Nat := 0
deriving DecidableEq, Repr

namespace Chain

def contains (c : Chain) (p : Path) : Bool := c.entries.any (·.same p)

def seed (c : Chain) (origin : Path) : Chain :=
  if c.entries = [] then { c with entries := [origin] } else c

def enqueue (c : Chain) (origin package : Path) : Bool × Chain :=
  let c := c.seed origin
  if c.contains package then (false, c)
  else (true, { c with entries := c.entries ++ [package] })

def advance (c : Chain) : Option Path × Chain :=
  match c.entries[c.cursor + 1]? with
  | some p => (some p, { c with cursor := c.cursor + 1 })
  | none => (none, { c with cursor := c.entries.length })

def origin? (c : Chain) : Option Path := c.entries.head?

def size (c : Chain) : Nat := c.entries.length

def isEmpty (c : Chain) : Bool := c.entries.isEmpty

def isExhausted (c : Chain) : Bool := c.entries.length ≤ c.cursor + 1

end Chain

end ScriptFeed.Package
