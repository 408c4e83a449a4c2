import ScriptFeed.Path
import ScriptFeed.Text.Search
import ScriptFeed.Version

namespace ScriptFeed.CommandLine

structure Stop where
  file : Option Text
  line : Nat
deriving DecidableEq, Repr

inductive Config where
  | search
  | skip
  | file (path : Path)
deriving DecidableEq, Repr

structure Args where
  script : Text
  install : Bool
  yes : Bool
  verbose : Bool
  stops : List Stop
  config : Config
deriving DecidableEq, Repr

inductive BadStop where
  | notNumber (text : Text)
  | zero
deriving DecidableEq, Repr

def BadStop.message : BadStop → String
  | notNumber text => "invalid line number: " ++ String.ofList text
  | zero => "line numbers start at 1"

inductive Usage where
  | missingScript
  | unknown
  | badStop (cause : BadStop)
  | noValue
  | conflict
  | extraValue
  | help
  | version
deriving DecidableEq, Repr

def Stop.parse (t : Text) : Except BadStop Stop :=
  let (file, number) :=
    match Text.cutLast ':' t with
    | some (file, number) => if file = [] then (none, t) else (some file, number)
    | none => (none, t)
  match Version.readNumber (Nat.pow 2 64) number with
  | .error _ => .error (.notNumber number)
  | .ok 0 => .error .zero
  | .ok line => .ok { file, line }

inductive Switch where
  | install
  | noConfig
  | yes
  | verbose
  | help
  | version
deriving DecidableEq, Repr

inductive Setting where
  | stop
  | config
deriving DecidableEq, Repr

inductive Flag where
  | switch (s : Switch)
  | setting (s : Setting)
deriving DecidableEq, Repr

def ofLetter? : Char → Option Flag
  | 'i' => some (.switch .install)
  | 'n' => some (.switch .noConfig)
  | 'y' => some (.switch .yes)
  | 'v' => some (.switch .verbose)
  | 'h' => some (.switch .help)
  | 'V' => some (.switch .version)
  | 'b' => some (.setting .stop)
  | 'c' => some (.setting .config)
  | _ => none

def ofWord? (name : Text) : Option Flag :=
  [("install", Flag.switch .install), ("no-config", .switch .noConfig), ("yes", .switch .yes),
    ("verbose", .switch .verbose), ("help", .switch .help), ("version", .switch .version),
    ("break", .setting .stop), ("config", .setting .config)].findSome?
      fun (w, f) => if w.toList = name then some f else none

structure Parse where
  script : Option Text := none
  switches : List Switch := []
  stops : List Stop := []
  config : Option Path := none
  -- an option whose value, if it has come, is not looked at yet
  waiting : Option (Setting × Option Text) := none
  -- the option at the end of the last word still takes the next one
  takesNext : Bool := false
  trailing : Bool := false
deriving DecidableEq, Repr

namespace Parse

def give (p : Parse) (s : Setting) (value : Text) : Except Usage Parse :=
  match s with
  | .stop =>
    match Stop.parse value with
    | .ok stop => .ok { p with stops := p.stops ++ [stop] }
    | .error cause => .error (.badStop cause)
  | .config =>
    if p.config.isSome then .error .conflict
    else if value = [] then .error .noValue
    else .ok { p with config := some ⟨value⟩ }

def settle (p : Parse) : Except Usage Parse :=
  match p.waiting with
  | none => .ok p
  | some (_, none) => .error .noValue
  | some (s, some value) => { p with waiting := none, takesNext := false }.give s value

def turnOn (p : Parse) (s : Switch) : Except Usage Parse := do
  let p ← p.settle
  match s with
  | .help => .error .help
  | .version => .error .version
  | _ =>
    if p.switches.contains s then .error .conflict
    else .ok { p with switches := s :: p.switches }

def begin (p : Parse) (s : Setting) (attached : Option Text) : Except Usage Parse := do
  let p ← p.settle
  match attached with
  | some value => p.give s value
  | none => .ok { p with waiting := some (s, none), takesNext := true }

def letters : Parse → Text → Except Usage Parse
  | p, [] => .ok p
  | p, c :: r =>
    match ofLetter? c with
    | none => .error .unknown
    | some (.switch s) => do letters (← p.turnOn s) r
    | some (.setting s) =>
      match r with
      | [] => p.begin s none
      | '=' :: value => p.begin s (some value)
      | value => p.begin s (some value)

def word (p : Parse) (t : Text) : Except Usage Parse :=
  let (name, attached) :=
    match Text.cutAt '=' t with
    | some (name, value) => (name, some value)
    | none => (t, none)
  match ofWord? name, attached with
  | none, _ => .error .unknown
  | some (.setting s), _ => p.begin s attached
  | some (.switch s), none => p.turnOn s
  | some (.switch _), some _ => .error .extraValue

def positional (p : Parse) (t : Text) : Except Usage Parse :=
  if p.script.isSome then .error .unknown
  else do
    let p ← p.settle
    .ok { p with script := some t }

def plain (p : Parse) (t : Text) : Except Usage Parse :=
  match p.takesNext, p.waiting with
  | true, some (s, _) => .ok { p with waiting := some (s, some t), takesNext := false }
  | _, _ => p.positional t

def take (p : Parse) (t : Text) : Except Usage Parse :=
  if p.trailing then p.positional t
  else
    match t with
    | ['-', '-'] => .ok { p with trailing := true }
    | '-' :: '-' :: r => p.word r
    | '-' :: c :: r => p.letters (c :: r)
    | _ => p.plain t

def result (p : Parse) : Except Usage Args := do
  let p ← p.settle
  if p.config.isSome && p.switches.contains .noConfig then .error .conflict
  else
    match p.script with
    | none => .error .missingScript
    | some script =>
      .ok { script
            install := p.switches.contains .install
            yes := p.switches.contains .yes
            verbose := p.switches.contains .verbose
            stops := p.stops
            config :=
              match p.config with
              | some path => .file path
              | none => if p.switches.contains .noConfig then .skip else .search }

end Parse

def parse (words : List Text) : Except Usage Args := do
  (← words.foldlM Parse.take {}).result

end ScriptFeed.CommandLine
