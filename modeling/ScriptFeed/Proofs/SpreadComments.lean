import ScriptFeed.Comment.Notes
import ScriptFeed.Proofs.ClosedComments

namespace ScriptFeed.Comment

variable {a body s t first last : Text} {middle : List Text}

structure Cleared where
  text : Option Text
  active : Bool
deriving DecidableEq, Repr

def clearLine (active : Bool) (notes : Notes) (line : Text) : Cleared × Notes :=
  if active then
    (⟨(resumeWith line true notes).1.rest, (resumeWith line true notes).1.active⟩,
      (resumeWith line true notes).2)
  else (⟨some (stripBlock line false false).1, (stripBlock line false false).2⟩, notes)

def clearLines : (active : Bool) → Notes → List Text → List Cleared × Notes
  | _, notes, [] => ([], notes)
  | active, notes, line :: lines =>
    let c := clearLine active notes line
    let rest := clearLines c.1.active c.2 lines
    (c.1 :: rest.1, rest.2)

def Notes.taking (notes : Notes) (lines : List Text) : Notes :=
  if notes.isEmpty then notes else ⟨notes.text ++ lines.flatMap (· ++ ['\n'])⟩

theorem Notes.taking_nil (notes : Notes) : notes.taking [] = notes := by
  simp [taking]

theorem Notes.taking_cons (notes : Notes) (line : Text) (lines : List Text) :
    notes.taking (line :: lines) = (notes.append line).taking lines := by
  by_cases h : notes.isEmpty = true
  · rw [taking, if_pos h, append, if_pos h, taking, if_pos h]
  · have hpush : (notes.push line).isEmpty = false := by simp [isEmpty, push]
    rw [taking, if_neg h, append, if_neg h, taking, hpush]
    simp [push]

theorem resume_within (h : ¬blockClose <:+: t) (active : Bool) :
    resume t active = ⟨t, none, active⟩ := by
  rw [resume, Text.cut_eq_none.mpr h]

theorem resume_last (h : ¬blockClose <:+: last) (s : Text) (active : Bool) :
    resume (last ++ blockClose ++ s) active =
      ⟨last ++ blockClose, if s = [] then none else some s, false⟩ := by
  have hcut : Text.cut blockClose (last ++ (blockClose ++ s)) = some (last, s) :=
    Text.cut_first (by decide) h s
  rw [resume, List.append_assoc, hcut]

theorem clearLines_within (hmiddle : ∀ t ∈ middle, ¬blockClose <:+: t)
    (hlast : ¬blockClose <:+: last) (s : Text) (notes : Notes) :
    clearLines true notes (middle ++ [last ++ blockClose ++ s]) =
      (middle.map (fun _ => ⟨none, true⟩) ++ [⟨if s = [] then none else some s, false⟩],
        notes.taking (middle ++ [last ++ blockClose])) := by
  induction middle generalizing notes with
  | nil =>
    simp only [List.nil_append, clearLines, clearLine, resumeWith, resume_last hlast, if_true,
      List.map_nil, Notes.taking_cons, Notes.taking_nil]
  | cons t middle ih =>
    obtain ⟨ht, hmiddle⟩ := List.forall_mem_cons.mp hmiddle
    have hline : clearLine true notes t = (⟨none, true⟩, notes.append t) := by
      rw [clearLine, if_pos rfl, resumeWith, resume_within ht]
    rw [List.cons_append, clearLines, hline, ih hmiddle, List.map_cons, List.cons_append,
      List.cons_append, Notes.taking_cons]

theorem stripBlock_opened (heven : quotes a % 2 = 0) (ha : Unopened a) (ht : ¬blockClose <:+: t)
    (active : Bool) : stripBlock (a ++ blockOpen ++ t) false active = (a, true) := by
  have hseam : ¬(a.getLast? = some '#' ∧ (blockOpen ++ t).head? = some '*') := by simp [blockOpen]
  rw [stripBlock_scan, scanBlock, List.append_assoc, dropBlocks_unopened ha.within hseam,
    quotedThrough_even heven, dropBlocks_open, dropBlocks_unclosed ht]
  simp

theorem stripBlock_enclosed (heven : quotes a % 2 = 0) (ha : Unopened a)
    (hbody : ¬blockClose <:+: body) (hs : ¬blockOpen <:+: s) (active : Bool) :
    stripBlock (a ++ blockOpen ++ body ++ blockClose ++ s) false active = (a ++ s, active) := by
  have hline : a ++ blockOpen ++ body ++ blockClose ++ s =
      a ++ (blockOpen ++ (body ++ blockClose ++ s)) := by simp
  have hseam : ¬(a.getLast? = some '#' ∧
      (blockOpen ++ (body ++ blockClose ++ s)).head? = some '*') := by simp [blockOpen]
  rw [stripBlock_scan, scanBlock, hline, dropBlocks_unopened ha.within hseam,
    quotedThrough_even heven, dropBlocks_open, dropBlocks_inside hbody, dropBlocks_unmarked hs]
  simp

/-- The lines of a comment: `first` stands on the line that it begins on, `last` on the one that
it ends on, and the lines between hold nothing else. -/
def spread (a first : Text) (middle : List Text) (last s : Text) : List Text :=
  (a ++ blockOpen ++ first) :: (middle ++ [last ++ blockClose ++ s])

theorem clearLines_spread (heven : quotes a % 2 = 0) (ha : Unopened a)
    (hbody : ¬blockClose <:+: first ++ middle.flatten ++ last) (s : Text) (notes : Notes) :
    clearLines false notes (spread a first middle last s) =
      (⟨some a, true⟩ :: (middle.map (fun _ => ⟨none, true⟩) ++
        [⟨if s = [] then none else some s, false⟩]),
        notes.taking (middle ++ [last ++ blockClose])) := by
  have hfirst : ¬blockClose <:+: first := by
    intro h
    exact hbody (h.trans ⟨[], middle.flatten ++ last, by simp⟩)
  have hlast : ¬blockClose <:+: last := by
    intro h
    exact hbody (h.trans ⟨first ++ middle.flatten, [], by simp⟩)
  have hmiddle : ∀ t ∈ middle, ¬blockClose <:+: t := by
    intro t ht h
    exact hbody ((h.trans (List.infix_of_mem_flatten ht)).trans ⟨first, last, rfl⟩)
  have hopened : clearLine false notes (a ++ blockOpen ++ first) = (⟨some a, true⟩, notes) := by
    rw [clearLine, stripBlock_opened heven ha hfirst]
    rfl
  rw [spread, clearLines, hopened, clearLines_within hmiddle hlast]

/-- Line by line a comment leaves the text before it, then nothing, then the text behind it, and
it is open between its first line and its last. Together this is what it leaves where it stands on
one line; notes that were begun take up its lines from the second one on. -/
theorem spread_comment_cleared (a first last s : Text) (middle : List Text) (notes : Notes)
    (heven : quotes a % 2 = 0) (ha : Unopened a)
    (hbody : ¬blockClose <:+: first ++ middle.flatten ++ last) (hs : ¬blockOpen <:+: s) :
    let cleared := clearLines false notes (spread a first middle last s)
    cleared.1 = ⟨some a, true⟩ :: (middle.map (fun _ => ⟨none, true⟩) ++
      [⟨if s = [] then none else some s, false⟩]) ∧
    stripBlock (a ++ blockOpen ++ (first ++ middle.flatten ++ last) ++ blockClose ++ s)
        false false =
      ((cleared.1.filterMap (·.text)).flatten, false) ∧
    cleared.2 = if notes.isEmpty then notes
      else ⟨notes.text ++ (middle ++ [last ++ blockClose]).flatMap (· ++ ['\n'])⟩ := by
  intro cleared
  have hcleared := clearLines_spread heven ha hbody s notes
  have hlines := congrArg Prod.fst hcleared
  refine ⟨hlines, ?_, congrArg Prod.snd hcleared⟩
  rw [stripBlock_enclosed heven ha hbody hs, hlines]
  by_cases he : s = []
  · simp [he]
  · simp [he]

theorem spread_comment_cleared_marks :
    clearLines false ⟨"##! n\n".toList⟩
        ["\"#*\" ##*#*".toList, "*".toList, "\" *".toList, "**#*# x".toList] =
      ([⟨some "\"#*\" #".toList, true⟩, ⟨none, true⟩, ⟨none, true⟩, ⟨some "*# x".toList, false⟩],
        ⟨"##! n\n*\n\" *\n**#\n".toList⟩) ∧
    stripBlock "\"#*\" ##*#**\" ***#*# x".toList false false = ("\"#*\" #*# x".toList, false) := by
  have h := spread_comment_cleared "\"#*\" #".toList "#*".toList "*".toList "*# x".toList
    ["*".toList, "\" *".toList] ⟨"##! n\n".toList⟩ (by decide) (by decide)
    (Text.contains_eq_false.mp (by decide)) (Text.contains_eq_false.mp (by decide))
  exact ⟨Prod.ext h.1 h.2.2, h.2.1⟩

end ScriptFeed.Comment
