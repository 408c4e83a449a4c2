import ScriptFeed.Path

namespace ScriptFeed

abbrev Marked := Path → Nat → Bool

structure Breakpoints where
  -- the files with marked lines, each with these lines in ascending order
  files : List (Path × List Nat) := []
deriving DecidableEq, Repr

namespace Breakpoints

def lines (b : Breakpoints) (file : Path) : List Nat :=
  match b.files.find? (·.1.same file) with
  | some entry => entry.2
  | none => []

def contains (b : Breakpoints) (file : Path) (line : Nat) : Bool := (b.lines file).contains line

def insertLine (line : Nat) : List Nat → List Nat
  | [] => [line]
  | n :: r =>
    if line < n then line :: n :: r
    else if line = n then n :: r
    else n :: insertLine line r

def mark (file : Path) (line : Nat) : List (Path × List Nat) → List (Path × List Nat)
  | [] => [(file, [line])]
  | (f, ns) :: r =>
    if f.same file then (f, insertLine line ns) :: r else (f, ns) :: mark file line r

def unmark (file : Path) (line : Nat) : List (Path × List Nat) → List (Path × List Nat)
  | [] => []
  | (f, ns) :: r =>
    if f.same file then
      let left := ns.filter (· ≠ line)
      if left = [] then r else (f, left) :: r
    else (f, ns) :: unmark file line r

def add (b : Breakpoints) (file : Path) (line : Nat) : Bool × Breakpoints :=
  (!b.contains file line, ⟨mark file line b.files⟩)

def remove (b : Breakpoints) (file : Path) (line : Nat) : Bool × Breakpoints :=
  (b.contains file line, ⟨unmark file line b.files⟩)

def clear (_ : Breakpoints) : Breakpoints := {}

def size (b : Breakpoints) : Nat := b.files.foldr (fun entry n => entry.2.length + n) 0

def isEmpty (b : Breakpoints) : Bool := b.files.isEmpty

def marked (b : Breakpoints) : Marked := b.contains

def ofList (l : List (Path × Nat)) : Breakpoints := l.foldl (fun b m => (b.add m.1 m.2).2) {}

end Breakpoints

end ScriptFeed
