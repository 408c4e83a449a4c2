import ScriptFeed.Path
import ScriptFeed.Text.Word

namespace ScriptFeed

structure Roots where
  home : Path
  scripts : Path
deriving DecidableEq, Repr

namespace Roots

def isDrive : Text → Bool
  | c :: ':' :: '/' :: _ => Text.isLetter c
  | _ => false

def unquoted (name : Text) : Text :=
  match name with
  | '"' :: r => if r.getLast? == some '"' then r.dropLast else name
  | _ => name

def cleaned (name : Text) : Text :=
  (Text.trim (unquoted (Text.trim name))).map fun c => if c = '\\' then '/' else c

def withoutSlashes (t : Text) : Path := ⟨t.dropWhile (· == '/')⟩

def place (r : Roots) (name : Text) : Path :=
  match Text.after? "<>".toList name with
  | some rest => r.home.join (withoutSlashes rest)
  | none =>
    match Text.after? "<scriptpath>".toList name with
    | some rest => r.scripts.join (withoutSlashes rest)
    | none => if isDrive name then ⟨name⟩ else r.scripts.join ⟨name⟩

def resolve? (r : Roots) (name ext : Text) : Option Path :=
  match cleaned name with
  | [] => none
  | name =>
    let p := r.place name
    some (if p.extension?.isNone then p.withExtension (ext.dropWhile (· == '.')) else p)

end Roots

end ScriptFeed
