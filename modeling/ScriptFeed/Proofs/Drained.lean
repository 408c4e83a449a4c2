import ScriptFeed.Proofs.Kindred

namespace ScriptFeed.Processor

open Comment

variable {p q : Processor} {notes : Notes} {cs : List Text} {es : List Failure} {fs : Files}

theorem Feeds.cases_head {n n' : Notes} {p' q' : Processor} (hf : Feeds notes p n' q')
    (ht : turn notes p = .ok (.more n) p') : (n' = notes ∧ q' = p) ∨ Feeds n p' n' q' := by
  induction hf with
  | refl => exact .inl ⟨rfl, rfl⟩
  | tail _ hlast ih =>
    rcases ih ht with ⟨rfl, rfl⟩ | hf
    · obtain ⟨hn, rfl⟩ := EStateM.Result.ok.inj (ht.symm.trans hlast)
      obtain rfl := Turn.more.inj hn
      exact .inr (.refl _ _)
    · exact .inr (hf.tail hlast)

theorem feed?_turn {n : Notes} (ht : turn notes p = .ok (.more n) q) :
    feed? notes p = feed? n q := by
  ext o
  constructor
  · intro h
    obtain ⟨n', q', hf, hlast⟩ := feed?_eq_some.mp h
    rcases hf.cases_head ht with ⟨rfl, rfl⟩ | hf
    · exact absurd (hlast.symm.trans ht) (lastTurn_ne_more o n q)
    · exact feed?_eq_some.mpr ⟨n', q', hf, hlast⟩
  · intro h
    exact feed?_more ht h

theorem feed?_congr (h : turn notes p = turn notes q) : feed? notes p = feed? notes q := by
  cases hp : turn notes p with
  | error e p' => rw [feed?_last (r := .error e p') hp, feed?_last (r := .error e p') (h ▸ hp)]
  | ok x p' =>
    cases x with
    | command c => rw [feed?_last (r := .ok c p') hp, feed?_last (r := .ok c p') (h ▸ hp)]
    | more n => exact (feed?_turn hp).trans (feed?_turn (h ▸ hp)).symm

def Comes (p : Processor) (cs : List Text) (es : List Failure) (fs : Files) : Prop :=
  ∃ rs r, Drains p rs r ∧ commands rs = cs ∧ rs.filterMap failure? = es ∧ r.files = fs

theorem Drains.unique {rs rs' : List (Outcome Text)} {r r' : Processor} (h : Drains p rs r)
    (h' : Drains p rs' r') : rs = rs' ∧ r = r' := by
  induction h generalizing rs' with
  | done ho =>
    cases h' with
    | done => exact ⟨rfl, rfl⟩
    | call ho' => exact absurd (ho'.symm.trans ho) (by simp)
  | call ho hn _ ih =>
    cases h' with
    | done ho' => exact absurd (ho.symm.trans ho') (by simp)
    | call _ hn' hd' =>
      obtain rfl := Option.some.inj (hn.symm.trans hn')
      obtain ⟨rfl, rfl⟩ := ih hd'
      exact ⟨rfl, rfl⟩

theorem Comes.unique {cs' : List Text} {es' : List Failure} {fs' : Files} (h : Comes p cs es fs)
    (h' : Comes p cs' es' fs') : cs = cs' ∧ es = es' ∧ fs = fs' := by
  obtain ⟨rs, r, hd, rfl, rfl, rfl⟩ := h
  obtain ⟨rs', r', hd', rfl, rfl, rfl⟩ := h'
  obtain ⟨rfl, rfl⟩ := hd.unique hd'
  exact ⟨rfl, rfl, rfl⟩

theorem comes_of_drainWithin (fuel : Nat)
    (h : (drainWithin fuel p).map (fun x => (commands x.1, x.1.filterMap failure?, x.2.files)) =
      some (cs, es, fs)) : Comes p cs es fs := by
  obtain ⟨⟨rs, r⟩, hd, he⟩ := Option.map_eq_some_iff.mp h
  simp only [Prod.mk.injEq] at he
  exact ⟨rs, r, drains_of_drainWithin hd, he⟩

theorem comes_closed (ho : p.isOpen = false) :
    Comes p cs es fs ↔ cs = [] ∧ es = [] ∧ p.files = fs := by
  constructor
  · rintro ⟨rs, r, hd, rfl, rfl, rfl⟩
    cases hd with
    | done => exact ⟨rfl, rfl, rfl⟩
    | call ho' => exact absurd (ho'.symm.trans ho) (by simp)
  · rintro ⟨rfl, rfl, rfl⟩
    exact ⟨[], p, .done ho, rfl, rfl, rfl⟩

theorem commands_cons (o : Outcome Text) (rs : List (Outcome Text)) :
    commands (o :: rs) = (executed? o).toList ++ commands rs := by
  unfold commands
  cases h : executed? o <;> simp [h]

theorem failures_cons (o : Outcome Text) (rs : List (Outcome Text)) :
    (o :: rs).filterMap failure? = (failure? o).toList ++ rs.filterMap failure? := by
  cases h : failure? o <;> simp [h]

theorem comes_call (ho : p.isOpen = true) : Comes p cs es fs ↔
    ∃ o cs' es', p.next? = some o ∧ cs = (executed? o).toList ++ cs' ∧
      es = (failure? o).toList ++ es' ∧ Comes (stateOf o) cs' es' fs := by
  constructor
  · rintro ⟨rs, r, hd, rfl, rfl, rfl⟩
    cases hd with
    | done ho' => exact absurd (ho.symm.trans ho') (by simp)
    | @call _ _ o rs _ hn hd =>
      exact ⟨o, commands rs, rs.filterMap failure?, hn, commands_cons o rs, failures_cons o rs,
        rs, r, hd, rfl, rfl, rfl⟩
  · rintro ⟨o, cs', es', hn, rfl, rfl, rs, r, hd, rfl, rfl, rfl⟩
    exact ⟨o :: rs, r, .call ho hn hd, commands_cons o rs, failures_cons o rs, rfl⟩

theorem comes_given {c : Text} (ho : p.isOpen = true) (h : p.next? = some (.ok c q)) :
    Comes p cs es fs ↔
      ∃ cs', cs = (executed? (.ok c q)).toList ++ cs' ∧ Comes q cs' es fs := by
  rw [comes_call ho]
  constructor
  · rintro ⟨o, cs', es', ho', rfl, rfl, hrest⟩
    obtain rfl := Option.some.inj (h.symm.trans ho')
    exact ⟨cs', rfl, hrest⟩
  · rintro ⟨cs', rfl, hrest⟩
    exact ⟨_, cs', es, h, rfl, rfl, hrest⟩

theorem comes_failed {e : Failure} (ho : p.isOpen = true) (h : p.next? = some (.error e q))
    (hq : q.isOpen = false) : Comes p cs es fs ↔ cs = [] ∧ es = [e] ∧ q.files = fs := by
  rw [comes_call ho]
  constructor
  · rintro ⟨o, cs', es', ho', rfl, rfl, hrest⟩
    obtain rfl := Option.some.inj (h.symm.trans ho')
    obtain ⟨rfl, rfl, hfiles⟩ := (comes_closed hq).mp hrest
    exact ⟨rfl, rfl, hfiles⟩
  · rintro ⟨rfl, rfl, hfiles⟩
    exact ⟨_, [], [], h, rfl, rfl, (comes_closed hq).mpr ⟨rfl, rfl, hfiles⟩⟩

theorem comes_congr (hp : p.isOpen = true) (hq : q.isOpen = true) (h : p.next? = q.next?) :
    Comes p cs es fs ↔ Comes q cs es fs := by
  rw [comes_call hp, comes_call hq, h]

theorem comes_turn (hp : p.isOpen = true) (hq : q.isOpen = true)
    (h : turn {} p = .ok (.more {}) q) : Comes p cs es fs ↔ Comes q cs es fs := by
  apply comes_congr hp hq
  rw [next?, next?, if_pos hp, if_pos hq, feed?_turn h]

def Concurring (S : Processor → Processor → Prop) : Prop :=
  ∀ p q, S p q → q.isOpen = p.isOpen ∧ q.files = p.files ∧ ∀ o, p.next? = some o →
    ∃ o', q.next? = some o' ∧ executed? o' = executed? o ∧ failure? o' = failure? o ∧
      S (stateOf o) (stateOf o')

theorem Concurring.comes {S : Processor → Processor → Prop} (hS : Concurring S) (h : S p q)
    (hp : Comes p cs es fs) : Comes q cs es fs := by
  obtain ⟨rs, r, hd, rfl, rfl, rfl⟩ := hp
  induction hd generalizing q with
  | @done p ho =>
    obtain ⟨hopen, hfiles, -⟩ := hS p q h
    exact (comes_closed (hopen.trans ho)).mpr ⟨rfl, rfl, hfiles⟩
  | @call p _ o rs ho hn _ ih =>
    obtain ⟨hopen, -, hnext⟩ := hS p q h
    obtain ⟨o', hn', hcommand, hfailure, hstate⟩ := hnext o hn
    refine (comes_call (hopen.trans ho)).mpr ⟨o', _, _, hn', ?_, ?_, ih hstate⟩
    · rw [commands_cons, hcommand]
    · rw [failures_cons, hfailure]

theorem Tallies.shows {o o' : Outcome Text} (h : Tallies o o') :
    executed? o' = executed? o ∧ failure? o' = failure? o := by
  rcases h with ⟨e, p, q, rfl, rfl, -⟩ | ⟨t, p, q, rfl, rfl, -⟩ <;> exact ⟨rfl, rfl⟩

theorem Kindred.comes (h : Kindred p q) : Comes p cs es fs ↔ Comes q cs es fs := by
  have hforth : Concurring Kindred := by
    rintro p q h
    obtain ⟨k, hk⟩ := id h
    refine ⟨hk.isOpen, hk.files, fun o ho => ?_⟩
    rcases h.next? with ⟨hp, -⟩ | ⟨o₁, o', hp, hq, ht⟩
    · exact absurd (ho.symm.trans hp) (by simp)
    · obtain rfl := Option.some.inj (hp.symm.trans ho)
      exact ⟨o', hq, ht.shows.1, ht.shows.2, ht.state⟩
  have hback : Concurring fun q p => Kindred p q := by
    rintro q p h
    obtain ⟨k, hk⟩ := id h
    refine ⟨hk.isOpen.symm, hk.files.symm, fun o' ho' => ?_⟩
    rcases h.next? with ⟨-, hq⟩ | ⟨o, o₁, hp, hq, ht⟩
    · exact absurd (ho'.symm.trans hq) (by simp)
    · obtain rfl := Option.some.inj (hq.symm.trans ho')
      exact ⟨o, hp, ht.shows.1.symm, ht.shows.2.symm, ht.state⟩
  exact ⟨hforth.comes h, hback.comes h⟩

theorem comes_events (ho : p.isOpen = true) (events : List Event) :
    Comes { p with events } cs es fs ↔ Comes p cs es fs := by
  have htold : Kindred { p with events } p :=
    ⟨0, rfl, (Session.map_ahead_zero _).symm, .refl _, rfl, fun _ _ => rfl, .inl rfl, fun _ => ho⟩
  exact htold.comes

theorem comes_counter {r : LineReader} {b : Bool} (hm : ∀ path n, p.marked path n = false)
    (hs : p.session = some ⟨r, b⟩) (n : Nat) :
    Comes p cs es fs ↔ Comes { p with session := some ⟨{ r with line := n }, b⟩ } cs es fs := by
  -- both counters are ahead of one that stands at zero
  let base : Processor := { p with session := some ⟨{ r with line := 0 }, b⟩ }
  have hkindred (q : Processor) (n : Nat)
      (hq : q = { p with session := some ⟨{ r with line := n }, b⟩ }) : Kindred base q := by
    subst hq
    refine ⟨n, rfl, ?_, .refl _, rfl, fun _ _ => rfl, .inr hm, fun _ => rfl⟩
    simp [base, Session.ahead, LineReader.ahead]
  have hp := hkindred p r.line (by rw [← hs])
  have hq := hkindred _ n rfl
  exact hp.comes.symm.trans hq.comes

end ScriptFeed.Processor
