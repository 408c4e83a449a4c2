import ScriptFeed.Article
import ScriptFeed.Layout
import ScriptFeed.Processor.Install

namespace ScriptFeed.Processor

open Package

def writeHelp (line : Text) : Action Unit := do
  let p ← get
  match p.session with
  | none => pure ()
  | some s =>
    let (body, reader) ← lift (Article.readBody p.files line s.reader)
    modify (setReader reader)
    let p ← get
    let package := p.current.id
    let articles := Article.collect body package
    match articles.first? with
    | none => set (p.emit (.articlesMissing package))
    | some id =>
      let path := Article.pathOf p.settings.docs id
      let (outcome, files) := Article.save p.files p.settings.docs id articles.document
      let p := { p with files }
      set p
      match outcome with
      | .error cause => throw (.cannotWrite line path cause)
      | .ok () =>
        let i := p.current
        let help := i.help.getD id
        set ((({ p with installation := some { i with help := some help } }.emit
          (.documentationWritten path)).request (.linkHelp package help)).request
            (.indexDocument path))

def saveLayout (line : Text) (layout : Layout) : Action Text := do
  modify fun p => if layout.complete then p else p.emit (.layoutOpen layout.file)
  let p ← get
  let path := layout.path p.settings.roots
  match p.files.write path (Utf8.encode layout.render) with
  | .error cause => throw (.cannotWrite line path cause)
  | .ok files =>
    set ({ p with files }.emit (.layoutWritten path (layout.body.length + 1)))
    return Layout.command path

def writeLayout (line : Text) : Action (Option Text) := do
  match Layout.parse? line with
  | none => return none
  | some layout =>
    let p ← get
    match p.session with
    | none => return some (← saveLayout line layout)
    | some s =>
      let (layout, reader) ← lift (layout.readBody p.files s.reader)
      modify (setReader reader)
      return some (← saveLayout line layout)

end ScriptFeed.Processor
