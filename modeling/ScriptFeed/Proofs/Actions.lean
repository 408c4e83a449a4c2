import ScriptFeed.Processor.Feed

/-!
Running actions. The equations `_run` execute one step of an action; `Ends x p Q E` says that `x`,
run from `p`, ends with `Q` or fails with `E`, and is taken apart along the sequence of `x`.
-/

namespace ScriptFeed.Processor

variable {α β : Type}

theorem bind_run (x : Action β) (f : β → Action α) (p : Processor) :
    (x >>= f) p = match x p with
      | .ok b q => f b q
      | .error e q => .error e q := by
  change EStateM.bind x f p = _
  unfold EStateM.bind
  cases x p <;> rfl

theorem bind_ok {x : Action β} {p q : Processor} {b : β} (h : x p = .ok b q) (f : β → Action α) :
    (x >>= f) p = f b q := by rw [bind_run, h]

theorem bind_error {x : Action β} {p q : Processor} {e : Failure} (h : x p = .error e q)
    (f : β → Action α) : (x >>= f) p = .error e q := by rw [bind_run, h]

theorem bind_eq_ok {x : Action β} {f : β → Action α} {p q : Processor} {a : α}
    (h : (x >>= f) p = .ok a q) : ∃ b r, x p = .ok b r ∧ f b r = .ok a q := by
  rw [bind_run] at h
  cases hx : x p with
  | error e r => simp [hx] at h
  | ok b r =>
    simp only [hx] at h
    exact ⟨b, r, rfl, h⟩

theorem pure_run (a : α) (p : Processor) : (pure a : Action α) p = .ok a p := rfl

theorem get_run (p : Processor) : (get : Action Processor) p = .ok p p := rfl

theorem set_run (p q : Processor) : (set q : Action PUnit) p = .ok ⟨⟩ q := rfl

theorem modify_run (f : Processor → Processor) (p : Processor) :
    (modify f : Action PUnit) p = .ok ⟨⟩ (f p) := rfl

def Ends (x : Action α) (p : Processor) (Q : α → Processor → Prop)
    (E : Failure → Processor → Prop) : Prop :=
  match x p with
  | .ok a q => Q a q
  | .error e q => E e q

variable {x : Action α} {p : Processor} {Q Q' : α → Processor → Prop}
  {E E' : Failure → Processor → Prop}

theorem Ends.mono (h : Ends x p Q E) (hQ : ∀ a q, Q a q → Q' a q) (hE : ∀ e q, E e q → E' e q) :
    Ends x p Q' E' := by
  unfold Ends at *
  cases hx : x p with
  | ok a q => simp only [hx] at h ⊢; exact hQ a q h
  | error e q => simp only [hx] at h ⊢; exact hE e q h

theorem ends_of_run (hok : ∀ a q, x p = .ok a q → Q a q) (herr : ∀ e q, x p = .error e q → E e q) :
    Ends x p Q E := by
  unfold Ends
  cases hx : x p with
  | ok a q => exact hok a q hx
  | error e q => exact herr e q hx

theorem Ends.ok (h : Ends x p Q E) {a : α} {q : Processor} (hx : x p = .ok a q) : Q a q := by
  simpa [Ends, hx] using h

theorem Ends.error (h : Ends x p Q E) {e : Failure} {q : Processor} (hx : x p = .error e q) :
    E e q := by
  simpa [Ends, hx] using h

theorem ends_of_ok {a : α} {q : Processor} (hx : x p = .ok a q) (h : Q a q) : Ends x p Q E := by
  simpa [Ends, hx] using h

theorem Ends.and (h : Ends x p Q E) (h' : Ends x p Q' E') :
    Ends x p (fun a q => Q a q ∧ Q' a q) (fun e q => E e q ∧ E' e q) :=
  ends_of_run (fun _ _ hx => ⟨h.ok hx, h'.ok hx⟩) (fun _ _ hx => ⟨h.error hx, h'.error hx⟩)

@[simp] theorem ends_bind (x : Action β) (f : β → Action α) :
    Ends (x >>= f) p Q E ↔ Ends x p (fun b q => Ends (f b) q Q E) E := by
  change (match EStateM.bind x f p with | .ok a q => Q a q | .error e q => E e q) ↔ _
  unfold EStateM.bind Ends
  cases x p <;> rfl

@[simp] theorem ends_pure (a : α) : Ends (pure a) p Q E ↔ Q a p := Iff.rfl

@[simp] theorem ends_get {Q : Processor → Processor → Prop} : Ends get p Q E ↔ Q p p := Iff.rfl

@[simp] theorem ends_set {Q : PUnit → Processor → Prop} (q : Processor) :
    Ends (set q) p Q E ↔ Q ⟨⟩ q := Iff.rfl

@[simp] theorem ends_modify {Q : PUnit → Processor → Prop} (f : Processor → Processor) :
    Ends (modify f) p Q E ↔ Q ⟨⟩ (f p) := Iff.rfl

end ScriptFeed.Processor
