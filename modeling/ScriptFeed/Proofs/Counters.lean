import ScriptFeed.Proofs.Echoes

namespace ScriptFeed

namespace LineReader

variable {σ : Type} {fs : Files} {r : LineReader} {k : Nat}

def ahead (k : Nat) (r : LineReader) : LineReader := { r with line := r.line + k }

theorem fetch_ahead (fs : Files) (r : LineReader) (k : Nat) :
    (r.ahead k).fetch fs = (r.fetch fs).map (ahead k) := by
  obtain ⟨path, stream, buffer, line, ended⟩ := r
  cases stream <;> rfl

theorem prepare_ahead (fs : Files) (r : LineReader) (k : Nat) :
    (r.ahead k).prepare fs = (r.prepare fs).map (ahead k) := by
  unfold prepare
  rw [fetch_ahead]
  change (if r.buffer.contains newline then _ else _) = _
  split <;> rfl

theorem next_ahead (fs : Files) (r : LineReader) (k : Nat) :
    (r.ahead k).next fs = (r.next fs).map (Prod.map id (ahead k)) := by
  unfold next
  rw [prepare_ahead]
  change (if r.ended then _ else _) = _
  split
  · rfl
  · cases r.prepare fs with
    | error e => rfl
    | ok x =>
      have hcount : x.line + k + 1 = x.line + 1 + k := by omega
      change (if x.buffer = [] then _ else _) = Except.map _ (if x.buffer = [] then _ else _)
      split
      · rfl
      · simp only [ahead, hcount, Except.map, Prod.map, id_eq]

theorem atEnd_ahead (fs : Files) (r : LineReader) (k : Nat) :
    (r.ahead k).atEnd fs = ((r.atEnd fs).1, (r.atEnd fs).2.ahead k) := by
  unfold atEnd
  rw [fetch_ahead]
  change (if r.ended then _ else if r.buffer ≠ [] then _ else _) = _
  split
  · rfl
  · split
    · rfl
    · cases r.fetch fs <;> rfl

theorem gatherWithin_ahead (more : σ → Bool) (add : σ → Text → σ) (fuel : Nat) (s : σ)
    (r : LineReader) : gatherWithin fs more add fuel s (r.ahead k) =
      (gatherWithin fs more add fuel s r).map (Prod.map id (ahead k)) := by
  induction fuel generalizing s r with
  | zero => rfl
  | succ fuel ih =>
    unfold gatherWithin
    rw [next_ahead]
    split
    · cases r.next fs with
      | error e => rfl
      | ok x =>
        obtain ⟨_ | t, r'⟩ := x
        · rfl
        · exact ih (add s t) r'
    · rfl

theorem gather_ahead (more : σ → Bool) (add : σ → Text → σ) (s : σ) (r : LineReader) :
    (r.ahead k).gather fs more add s =
      (r.gather fs more add s).map (Prod.map id (ahead k)) :=
  gatherWithin_ahead more add _ s r

theorem through_ahead (stop : Text → Bool) (r : LineReader) :
    (r.ahead k).through fs stop = (r.through fs stop).map (Prod.map id (ahead k)) :=
  gather_ahead _ _ _ r

def Counted (k : Nat) (marked : Marked) : Prop := k = 0 ∨ ∀ path n, marked path n = false

def LogicalLine.ahead (k : Nat) (l : LogicalLine) : LogicalLine := { l with line := l.line + k }

theorem nextLogical_ahead {marked : Marked} (h : Counted k marked) (r : LineReader) :
    (r.ahead k).nextLogical fs marked =
      (r.nextLogical fs marked).map (Prod.map (Option.map (LogicalLine.ahead k)) (ahead k)) := by
  have hmarked (path : Path) (n : Nat) : marked path (n + k) = marked path n := by
    rcases h with rfl | h
    · rfl
    · rw [h, h]
  unfold nextLogical
  rw [next_ahead]
  cases r.next fs with
  | error e => rfl
  | ok x =>
    obtain ⟨_ | t, r₁⟩ := x
    · rfl
    · have hline : marked (r₁.ahead k).path (r₁.ahead k).line = marked r₁.path r₁.line :=
        hmarked _ _
      simp only [Except.map, Prod.map, id_eq, gather_ahead, hline]
      cases r₁.gather fs continues continued t <;> rfl

end LineReader

theorem Article.readBody_ahead (fs : Files) (line : Text) (r : LineReader) (k : Nat) :
    Article.readBody fs line (r.ahead k) =
      (Article.readBody fs line r).map (Prod.map id (LineReader.ahead k)) := by
  unfold Article.readBody
  rw [LineReader.through_ahead]
  split
  · rfl
  · cases r.through fs fun t => Text.contains fileClose (Comment.stripLine t false) <;> rfl

theorem Layout.readBody_ahead (fs : Files) (l : Layout) (r : LineReader) (k : Nat) :
    l.readBody fs (r.ahead k) = (l.readBody fs r).map (Prod.map id (LineReader.ahead k)) := by
  unfold Layout.readBody
  rw [LineReader.through_ahead]
  split
  · rfl
  · cases r.through fs (Text.contains endKeyword) <;> rfl

def Session.ahead (k : Nat) (s : Session) : Session := { s with reader := s.reader.ahead k }

theorem Session.ahead_reader (s : Session) (k : Nat) : (s.ahead k).reader = s.reader.ahead k := rfl

theorem Session.map_ahead_zero (o : Option Session) : o.map (Session.ahead 0) = o := by
  cases o <;> rfl

end ScriptFeed
