import ScriptFeed.Proofs.Installations
import ScriptFeed.Proofs.Parallel

namespace ScriptFeed.Processor

open Package Comment Keyword

variable {m : Marked} {D : Nat → Prop} {p q start : Processor} {notes notes' : Notes} {b : Bool}

def plain (p : Processor) : Processor := { p with marked := fun _ _ => false }

theorem alike_plain (D : Nat → Prop) (p : Processor) : Alike p.marked D p p.plain :=
  ⟨p.files, p.events, rfl, rfl, .refl D p.files, List.forall₂_same.mpr fun e _ => .refl e⟩

def sources (p : Processor) : List Nat :=
  (p.session.bind (·.reader.file?)).toList ++ (p.inclusion.bind (·.reader.file?)).toList

def Logs (p : Processor) (id : Nat) : Prop :=
  ∃ notes q r, Reached p notes q ∧ q.record? = some r ∧ r.file = id

/-- The marked lines of a run are breakable, and no log is read. -/
structure Undisturbed (m : Marked) (start : Processor) : Prop where
  lines : ∀ notes q, Reached start notes q → q.clear m notes = true
  logs : ∀ notes q, Reached start notes q → ∀ id ∈ q.sources, ¬ Logs start id

def Shown (b : Bool) (t t' : Text) (_ : Processor) : Prop :=
  t = markedIf b t' ∧ (b = true → t' ≠ [])

theorem settle_parallel {t : Text} (h : Alike m D p q) (ha : Away D p) (ht : b = true → t ≠ []) :
    Parallel m D (Shown b) (settle (.ok (markedIf b t) p)) (settle (.ok t q)) := by
  unfold settle
  rcases closeAtEnd_parallel h ha with
    ⟨e, e', p', q', hx, hy, he, hpq⟩ | ⟨u, u', p', q', hx, hy, -, hpq⟩
  · simp only [hx, hy]
    exact .inl ⟨e, e', _, _, rfl, rfl, he, hpq.abort he⟩
  · simp only [hx, hy]
    exact .inr ⟨_, t, p', q', rfl, rfl, ⟨rfl, ht⟩, hpq⟩

theorem Parallel.turn {x y : Outcome Turn} (h : Parallel m D (Turn.Shows D b) x y) :
    (∃ n p q, x = .ok (.more n) p ∧ y = .ok (.more n) q ∧ Alike m D p q) ∨
      ∃ o o', x = lastTurn o ∧ y = lastTurn o' ∧ Parallel m D (Shown b) (settle o) (settle o') := by
  rcases h with ⟨e, e', p, q, rfl, rfl, he, hpq⟩ | ⟨x, x', p, q, rfl, rfl, ⟨rfl, hx⟩, hpq⟩
  · exact .inr ⟨.error e p, .error e' q, rfl, rfl, .inl ⟨e, e', _, _, rfl, rfl, he, hpq.abort he⟩⟩
  · cases x' with
    | more n => exact .inl ⟨n, p, q, rfl, rfl, hpq⟩
    | command t =>
      obtain ⟨hne, ha⟩ := hx t rfl
      exact .inr ⟨.ok (markedIf b t) p, .ok t q, rfl, rfl, settle_parallel hpq ha hne⟩

theorem Reached.settle {o : Outcome Text} (h : Reached start notes p)
    (ht : turn notes p = lastTurn o)
    (ho : (stateOf (settle o)).isOpen = true) : Reached start {} (stateOf (settle o)) := by
  have hclosed (e : Failure) (q : Processor) : (q.abort e).isOpen = false := rfl
  cases o with
  | error e q => exact absurd ho (by simp [Processor.settle, stateOf, hclosed])
  | ok t q =>
    simp only [Processor.settle] at ho ⊢
    cases hc : closeAtEnd q with
    | error e r =>
      rw [hc] at ho
      exact absurd ho (by simp [stateOf, hclosed])
    | ok u r => exact .command h ht hc

def Paired (S : Notes → Processor → Processor → Prop)
    (R : Processor → Processor → Outcome Text → Outcome Text → Prop) : Prop :=
  ∀ notes p q, S notes p q →
    (∃ n p' q', turn notes p = .ok (.more n) p' ∧ turn notes q = .ok (.more n) q' ∧ S n p' q') ∨
      ∃ o o', turn notes p = lastTurn o ∧ turn notes q = lastTurn o' ∧ R p q o o'

section Pairs

variable {S : Notes → Processor → Processor → Prop}
  {R : Processor → Processor → Outcome Text → Outcome Text → Prop} {o : Outcome Text}

theorem Paired.flip (h : Paired S R) :
    Paired (fun n p q => S n q p) (fun p q o o' => R q p o' o) := by
  intro notes p q hS
  rcases h notes q p hS with ⟨n, q', p', hq, hp, hS'⟩ | ⟨o', o, hq, hp, hR⟩
  · exact .inl ⟨n, p', q', hp, hq, hS'⟩
  · exact .inr ⟨o, o', hp, hq, hR⟩

theorem Paired.feeds {p' : Processor} (h : Paired S R) (hf : Feeds notes p notes' p')
    (hS : S notes p q) : ∃ q', Feeds notes q notes' q' ∧ S notes' p' q' := by
  induction hf with
  | refl => exact ⟨q, .refl _ q, hS⟩
  | tail _ ht ih =>
    obtain ⟨q₁, hq₁, hS₁⟩ := ih hS
    rcases h _ _ _ hS₁ with ⟨n, p₂, q₂, hp₂, hq₂, hS₂⟩ | ⟨o, o', ho, -⟩
    · obtain ⟨hn, rfl⟩ := EStateM.Result.ok.inj (ht.symm.trans hp₂)
      obtain rfl := Turn.more.inj hn
      exact ⟨q₂, hq₁.tail hq₂, hS₂⟩
    · exact absurd (ho.symm.trans ht) (lastTurn_ne_more o _ _)

theorem Paired.last (h : Paired S R) (hf : Fed notes p o) (hS : S notes p q) :
    ∃ notes' p' q' o', Feeds notes p notes' p' ∧ Feeds notes q notes' q' ∧ S notes' p' q' ∧
      turn notes' p' = lastTurn o ∧ turn notes' q' = lastTurn o' ∧ R p' q' o o' := by
  obtain ⟨notes', p', hp', ho⟩ := hf
  obtain ⟨q', hq', hS'⟩ := h.feeds hp' hS
  rcases h notes' p' q' hS' with ⟨n, p₂, q₂, hp₂, -⟩ | ⟨o₁, o', ho₁, ho', hR⟩
  · exact absurd (ho.symm.trans hp₂) (lastTurn_ne_more o _ _)
  · obtain rfl : o₁ = o := lastTurn_injective (ho₁.symm.trans ho)
    exact ⟨notes', p', q', o', hp', hq', hS', ho, ho', hR⟩

theorem Paired.feed? (h : Paired S R) (notes : Notes) (hS : S notes p q) :
    (feed? notes p = none ∧ feed? notes q = none) ∨
      ∃ notes' p' q' o o', feed? notes p = some o ∧ feed? notes q = some o' ∧
        Feeds notes q notes' q' ∧ turn notes' q' = lastTurn o' ∧ S notes' p' q' ∧ R p' q' o o' := by
  cases hp : Processor.feed? notes p with
  | some o =>
    obtain ⟨notes', p', q', o', -, hq', hS', -, hto', hR⟩ := h.last (feed?_eq_some.mp hp) hS
    have hq := feed?_eq_some.mpr ⟨notes', q', hq', hto'⟩
    exact .inr ⟨notes', p', q', o, o', rfl, hq, hq', hto', hS', hR⟩
  | none =>
    cases hq : Processor.feed? notes q with
    | none => exact .inl ⟨rfl, rfl⟩
    | some o' =>
      obtain ⟨notes', q', p', o, -, hp', -, -, hto, -⟩ := h.flip.last (feed?_eq_some.mp hq) hS
      exact absurd (feed?_eq_some.mpr ⟨notes', p', hp', hto⟩) (by simp [hp])

end Pairs

def LastPlace (p q : Processor) : Prop := ∃ notes o, Feeds {} p notes q ∧ turn notes q = lastTurn o

namespace Undisturbed

variable (h : Undisturbed m start)
include h

theorem paired : Paired (fun notes p q => Alike m (Logs start) p q ∧ Reached start notes q)
    (fun _ q o o' => Parallel m (Logs start) (Shown (q.breaks m)) (settle o) (settle o')) := by
  rintro notes p q ⟨hpq, hr⟩
  have hsources := h.logs notes q hr
  have hparted : Parted (Logs start) p := by
    refine ⟨?_, ?_, ?_⟩
    · intro s hs id hid
      refine hsources id (List.mem_append_left _ ?_)
      simp [hpq.session, hs, hid]
    · intro i hi id hid
      refine hsources id (List.mem_append_right _ ?_)
      simp [hpq.inclusion, hi, hid]
    · intro r hrecord
      exact ⟨notes, q, r, hr, hpq.record?.trans hrecord, rfl⟩
  rcases (turn_parallel hpq hparted (h.lines notes q hr)).turn with
    ⟨n, p', q', hx, hy, hpq'⟩ | hlast
  · exact .inl ⟨n, p', q', hx, hy, hpq', hr.more hy⟩
  · exact .inr hlast

theorem next (hpq : Alike m (Logs start) p q) (hr : Reached start {} q) (ho : q.isOpen = true) :
    (p.next? = none ∧ q.next? = none) ∨ ∃ r r' q', p.next? = some r ∧ q.next? = some r' ∧
      LastPlace q q' ∧ Parallel m (Logs start) (Shown (q'.breaks m)) r r' ∧
      ((stateOf r').isOpen = true → Reached start {} (stateOf r')) := by
  have hp : p.next? = (feed? {} p).map settle := by rw [next?, if_pos (hpq.isOpen ▸ ho)]
  have hq : q.next? = (feed? {} q).map settle := by rw [next?, if_pos ho]
  rw [hp, hq]
  rcases h.paired.feed? {} ⟨hpq, hr⟩ with
    ⟨hfp, hfq⟩ | ⟨notes, p', q', o, o', hfp, hfq, hq', hto', ⟨-, hr'⟩, hR⟩
  · rw [hfp, hfq]
    exact .inl ⟨rfl, rfl⟩
  · rw [hfp, hfq]
    exact .inr ⟨_, _, q', rfl, rfl, ⟨notes, o', hq', hto'⟩, hR, hr'.settle hto'⟩

end Undisturbed

theorem Parallel.state {α : Type} {R : α → α → Processor → Prop} {x y : Outcome α}
    (h : Parallel m D R x y) : Alike m D (stateOf x) (stateOf y) := by
  rcases h with ⟨e, e', p, q, rfl, rfl, -, hpq⟩ | ⟨a, a', p, q, rfl, rfl, -, hpq⟩
  · exact hpq
  · exact hpq

/-- The answers to calls, with breakpoints and without: the mark shows where the line that a command
is made of is marked. -/
inductive Observed (m : Marked) (D : Nat → Prop) :
    Processor → List (Outcome Text) → List (Outcome Text) → Prop
  | nil (p : Processor) : Observed m D p [] []
  | cons {p q : Processor} {r r' : Outcome Text} {rs rs' : List (Outcome Text)} (hl : LastPlace p q)
      (ha : Parallel m D (Shown (q.breaks m)) r r') (h : Observed m D (stateOf r') rs rs') :
      Observed m D p (r :: rs) (r' :: rs')

def executed? : Outcome Text → Option Text
  | .ok t _ => if t = [] then none else some t
  | .error _ _ => none

def commands (rs : List (Outcome Text)) : List Text := rs.filterMap executed?

theorem executed?_ok {t : Text} (h : t ≠ []) (p : Processor) : executed? (.ok t p) = some t :=
  if_neg h

theorem Observed.commands {rs rs' : List (Outcome Text)} (h : Observed m D p rs rs') :
    List.Forall₂ Text.Bears (commands rs) (commands rs') := by
  induction h with
  | nil => exact .nil
  | @cons _ place _ _ _ _ _ ha _ ih =>
    rcases ha with ⟨e, e', p, q, rfl, rfl, -⟩ | ⟨t, t', p, q, rfl, rfl, ⟨rfl, hne⟩, -⟩
    · exact ih
    · by_cases ht : t' = []
      · obtain rfl := ht
        have hb : place.breaks m = false := Bool.eq_false_iff.mpr fun hb => hne hb rfl
        rw [hb]
        exact ih
      · have hbears := Text.bears_markedIf (b := place.breaks m) fun _ => ht
        have hmarked := hbears.nonempty ht
        rw [Processor.commands, Processor.commands,
          List.filterMap_cons_some (executed?_ok hmarked p),
          List.filterMap_cons_some (executed?_ok ht q)]
        exact .cons hbears ih

namespace Undisturbed

variable (h : Undisturbed m start) {r : Processor} {rs : List (Outcome Text)}
include h

theorem drains (hd : Drains p rs r) (hpq : Alike m (Logs start) p q)
    (hr : q.isOpen = true → Reached start {} q) : ∃ rs' r', Drains q rs' r' ∧
      Observed m (Logs start) q rs rs' ∧ Alike m (Logs start) r r' := by
  induction hd generalizing q with
  | @done p ho => exact ⟨[], q, .done (hpq.isOpen.trans ho), .nil q, hpq⟩
  | @call p _ o rs ho hn _ ih =>
    have hoq : q.isOpen = true := hpq.isOpen.trans ho
    rcases h.next hpq (hr hoq) hoq with ⟨hp, -⟩ | ⟨o₁, o', q', hp, hq, hl, hR, hreach⟩
    · exact absurd (hn.symm.trans hp) (by simp)
    · obtain rfl : o₁ = o := Option.some.inj (hp.symm.trans hn)
      obtain ⟨rs', r', hd', hobs, halike⟩ := ih hR.state hreach
      exact ⟨o' :: rs', r', .call hoq hq hd', .cons hl hR hobs, halike⟩

theorem drains_plain (hd : Drains q rs r) (hpq : Alike m (Logs start) p q)
    (hr : q.isOpen = true → Reached start {} q) : ∃ rs' r', Drains p rs' r' ∧
      Observed m (Logs start) q rs' rs ∧ Alike m (Logs start) r' r := by
  induction hd generalizing p with
  | @done q ho => exact ⟨[], p, .done (hpq.isOpen.symm.trans ho), .nil q, hpq⟩
  | @call q _ o rs ho hn _ ih =>
    rcases h.next hpq (hr ho) ho with ⟨-, hq⟩ | ⟨o', o₁, q', hp, hq, hl, hR, hreach⟩
    · exact absurd (hn.symm.trans hq) (by simp)
    · obtain rfl : o₁ = o := Option.some.inj (hq.symm.trans hn)
      obtain ⟨rs', r', hd', hobs, halike⟩ := ih hR.state hreach
      exact ⟨o' :: rs', r', .call (hpq.isOpen.symm.trans ho) hp hd', .cons hl hR hobs, halike⟩

end Undisturbed

def drainWithin : (fuel : Nat) → Processor → Option (List (Outcome Text) × Processor)
  | 0, _ => none
  | fuel + 1, p =>
    if p.isOpen then
      (callWithin fuel {} p).bind fun o =>
        (drainWithin fuel (stateOf (settle o))).map fun x => (settle o :: x.1, x.2)
    else some ([], p)

theorem drains_of_drainWithin {fuel : Nat} {x : List (Outcome Text) × Processor}
    (h : drainWithin fuel p = some x) : Drains p x.1 x.2 := by
  induction fuel generalizing p x with
  | zero => simp [drainWithin] at h
  | succ fuel ih =>
    unfold drainWithin at h
    by_cases ho : p.isOpen = true
    · rw [if_pos ho] at h
      obtain ⟨o, hcall, hrest⟩ := Option.bind_eq_some_iff.mp h
      obtain ⟨y, hy, rfl⟩ := Option.map_eq_some_iff.mp hrest
      refine .call ho ?_ (ih hy)
      rw [next?, if_pos ho, feed?_of_callWithin hcall]
      rfl
    · rw [if_neg ho] at h
      obtain rfl := Option.some.inj h
      exact .done (by simpa using ho)

theorem Reached.within {k : Nat} (h : Reached p notes q) (hc : Coherent p)
    (ho : (onTurn^[k] ({}, p)).2.isOpen = false) :
    ∃ j < k + 2, onTurn^[j] ({}, p) = (notes, q) := by
  obtain ⟨j, hj⟩ := h.iterate
  by_cases hlt : j < k + 2
  · exact ⟨j, hlt, hj⟩
  · obtain ⟨d, rfl⟩ := Nat.exists_eq_add_of_le' (show k + 1 ≤ j by omega)
    have hck := Moves.coherent (iterate_moves ({}, p) k hc) hc
    have hend : onTurn^[k + 1] ({}, p) = ({}, (onTurn^[k] ({}, p)).2) := by
      rw [Function.iterate_succ_apply', onTurn_closed hck ho]
    have hfixed : onTurn ({}, (onTurn^[k] ({}, p)).2) = ({}, (onTurn^[k] ({}, p)).2) :=
      onTurn_closed hck ho
    rw [Function.iterate_add_apply, hend, Function.iterate_fixed hfixed] at hj
    exact ⟨k + 1, Nat.lt_succ_self _, hend.trans hj⟩

theorem undisturbed_of_iterates {k : Nat} (files : List Nat) (hc : Coherent p)
    (ho : (onTurn^[k] ({}, p)).2.isOpen = false)
    (hlines : ∀ j < k + 2, (onTurn^[j] ({}, p)).2.clear m (onTurn^[j] ({}, p)).1 = true)
    (hread : ∀ j < k + 2, ∀ id ∈ (onTurn^[j] ({}, p)).2.sources, id ∈ files)
    (hlogs : ∀ j < k + 2, ∀ r ∈ (onTurn^[j] ({}, p)).2.record?, r.file ∉ files) :
    Undisturbed m p := by
  constructor
  · intro notes q hr
    obtain ⟨j, hj, hq⟩ := hr.within hc ho
    simpa only [hq] using hlines j hj
  · rintro notes q hr id hid ⟨notes', q', r, hr', hrecord, rfl⟩
    obtain ⟨i, hi, hq⟩ := hr.within hc ho
    obtain ⟨j, hj, hq'⟩ := hr'.within hc ho
    have hin := hread i hi r.file (by rwa [hq])
    exact hlogs j hj r (by rw [hq']; exact hrecord) hin

def withBreakpoints (p : Processor) (marks : List (String × Nat)) : Processor :=
  { p with marked := (Breakpoints.ofList (marks.map fun x => (⟨x.1.toList⟩, x.2))).marked }

theorem openedMain_coherent (installMode : Bool) (scripts : List (String × String))
    (marks : List (String × Nat)) :
    Coherent ((openedMain installMode scripts).withBreakpoints marks).plain := by
  have hopened : Coherent (openedMain installMode scripts) :=
    Call.run_coherent (.openScript _)
      (after_coherent [.setInstallMode installMode] (fresh_coherent _ _))
  generalize openedMain installMode scripts = p at hopened
  exact hopened.congr rfl rfl rfl rfl rfl

/-- Draining a script with breakpoints on breakable lines comes to the same commands and failures,
host actions and files as draining it without breakpoints, up to the mark. -/
theorem breakpoints_observed (p : Processor) (h : Undisturbed p.marked p.plain) :
    (∀ rs r, Drains p rs r → ∃ rs' r', Drains p.plain rs' r' ∧
      Observed p.marked (Logs p.plain) p.plain rs rs' ∧
      List.Forall₂ Text.Bears (commands rs) (commands rs') ∧
      r'.actions = r.actions ∧ Alike p.marked (Logs p.plain) r r') ∧
    ∀ rs' r', Drains p.plain rs' r' → ∃ rs r, Drains p rs r ∧
      Observed p.marked (Logs p.plain) p.plain rs rs' ∧
      List.Forall₂ Text.Bears (commands rs) (commands rs') ∧
      r'.actions = r.actions ∧ Alike p.marked (Logs p.plain) r r' := by
  have hstart := alike_plain (Logs p.plain) p
  constructor
  · intro rs r hd
    obtain ⟨rs', r', hd', hobs, halike⟩ := h.drains hd hstart fun _ => .start
    exact ⟨rs', r', hd', hobs, hobs.commands, halike.actions, halike⟩
  · intro rs' r' hd'
    obtain ⟨rs, r, hd, hobs, halike⟩ := h.drains_plain hd' hstart fun _ => .start
    exact ⟨rs, r, hd, hobs, hobs.commands, halike.actions, halike⟩

def markedPackage : Processor := withBreakpoints
  (openedMain true
    [("main.nscr", "<install><info>flags=ENABLE_FULL_LOGGING<endinfo>\na\n@inc\n<endinstall>"),
    ("inc.nscr", "rest\ndefine b")]) [("s/main.nscr", 2), ("s/inc.nscr", 2)]

theorem breakpoints_observed_package : ∃ rs r rs' r', Drains markedPackage rs r ∧
    Drains markedPackage.plain rs' r' ∧
    Observed markedPackage.marked (Logs markedPackage.plain) markedPackage.plain rs rs' ∧
    List.Forall₂ Text.Bears (commands rs) (commands rs') ∧
    commands rs' = ["a".toList, "define b".toList] ∧
    Alike markedPackage.marked (Logs markedPackage.plain) r r' := by
  have hc : Coherent markedPackage.plain := openedMain_coherent _ _ _
  have hrun : Undisturbed markedPackage.marked markedPackage.plain :=
    undisturbed_of_iterates (k := 7) [0, 1] hc (by decide +kernel) (by decide +kernel)
      (by decide +kernel) (by decide +kernel)
  have hcommands : (drainWithin 9 markedPackage.plain).map (fun x => commands x.1) =
      some ["a".toList, "define b".toList] := by decide +kernel
  obtain ⟨⟨rs', r'⟩, hd, hcs⟩ := Option.map_eq_some_iff.mp hcommands
  have hd' := drains_of_drainWithin hd
  obtain ⟨rs, r, hdr, hobs, hbears, -, halike⟩ :=
    (breakpoints_observed markedPackage hrun).2 rs' r' hd'
  exact ⟨rs, r, rs', r', hdr, hd', hobs, hbears, hcs, halike⟩

def markedSection : Processor := withBreakpoints
  (openedMain false [("main.nscr", "<install>\na\n<endinstall>\nb\n")]) [("s/main.nscr", 1)]

theorem marked_section_executed : ∃ rs r rs' r', Drains markedSection rs r ∧
    Drains markedSection.plain rs' r' ∧
    commands rs = ["|> <install>".toList, "a".toList, "b".toList] ∧ commands rs' = ["b".toList] ∧
    ¬ List.Forall₂ Text.Bears (commands rs) (commands rs') := by
  have hmarked : (drainWithin 9 markedSection).map (fun x => commands x.1) =
      some ["|> <install>".toList, "a".toList, "b".toList] := by decide +kernel
  have hplain : (drainWithin 9 markedSection.plain).map (fun x => commands x.1) =
      some ["b".toList] := by decide +kernel
  obtain ⟨⟨rs, r⟩, hd, hcs⟩ := Option.map_eq_some_iff.mp hmarked
  obtain ⟨⟨rs', r'⟩, hd', hcs'⟩ := Option.map_eq_some_iff.mp hplain
  refine ⟨rs, r, rs', r', drains_of_drainWithin hd, drains_of_drainWithin hd', hcs, hcs', ?_⟩
  intro hbears
  have hlength := hbears.length_eq
  rw [hcs, hcs'] at hlength
  simp at hlength

end ScriptFeed.Processor
