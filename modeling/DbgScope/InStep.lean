import DbgScope.Run

/-!
# Two runs of one computation

The same computation is run from two states that `R` relates, and the runs are in step as long as
they return the same and leave related states. The first of them may be told to stop: it winds up
(`Settles`), the second one goes on, and `D` is what remains between the two. `InStep R D E P m`
says that `m` keeps to this, the first run stopping with a result that satisfies `P`.
-/

namespace DbgScope.Run

theorem fold_over {ε W β γ : Type} {body : β → γ → Run ε W β} {b : β}
    (h : ∀ x, body b x = pure b) (xs : List γ) : Run.fold body xs b = pure b := by
  induction xs with
  | nil => rfl
  | cons x xs ih =>
    show body b x >>= (fun b' => Run.fold body xs b') = _
    rw [h x]
    exact ih

variable {ε W α β σ : Type} {R D : W → W → Prop} {E E' : ε → Prop}

def Settles (D : W → W → Prop) (P : α → Prop) (m : Run ε W α) : Prop :=
  ∀ l u, D l u → ∃ a l', m l = (.ok a, l') ∧ P a ∧ D l' u

/-- The two runs stay in step, or the first one stops. -/
structure InStep (R D : W → W → Prop) (E : ε → Prop) (P : α → Prop) (m : Run ε W α) : Prop where
  step : ∀ l u, R l u →
    (∃ r l' u', m l = (r, l') ∧ m u = (r, u') ∧ R l' u' ∧ ∀ e, r = .error e → E e) ∨
    ∃ a l', m l = (.ok a, l') ∧ P a ∧ Ends (fun _ => D l') (fun e u' => E e ∧ D l' u') (m u)
  goes : ∀ l, Keeps (D l) (fun e u' => E e ∧ D l u') m

/-- The first run is told nothing. -/
abbrev Quiet (R D : W → W → Prop) (E : ε → Prop) (m : Run ε W α) : Prop :=
  InStep R D E (fun _ => False) m

namespace Settles

variable {P : α → Prop} {Q : β → Prop}

theorem pure {a : α} (h : P a) : Settles D P (Pure.pure a : Run ε W α) :=
  fun l _ hd => ⟨a, l, rfl, h, hd⟩

theorem modify {f : W → W} (h : ∀ l u, D l u → D (f l) u) :
    Settles D (fun _ => True) (Run.modify f : Run ε W Unit) :=
  fun l u hd => ⟨(), f l, rfl, trivial, h l u hd⟩

theorem read {f : W → α} (h : ∀ l u, D l u → P (f l)) : Settles D P (Run.read f : Run ε W α) :=
  fun l u hd => ⟨f l, l, rfl, h l u hd, hd⟩

theorem bind {m : Run ε W α} {f : α → Run ε W β} (hm : Settles D P m)
    (hf : ∀ a, P a → Settles D Q (f a)) : Settles D Q (m >>= f) := by
  intro l u hd
  obtain ⟨a, l', hl, ha, hd'⟩ := hm l u hd
  obtain ⟨b, l'', hl', hb, hd''⟩ := hf a ha l' u hd'
  exact ⟨b, l'', by rw [bind_of_ok hl, hl'], hb, hd''⟩

theorem ite {c : Prop} [Decidable c] {m m' : Run ε W α} (h : c → Settles D P m)
    (h' : ¬ c → Settles D P m') : Settles D P (if c then m else m') := by
  split
  · next hc => exact h hc
  · next hc => exact h' hc

end Settles

namespace InStep

variable {P P' : α → Prop} {Q : β → Prop}

theorem imp {m : Run ε W α} (h : InStep R D E P m) (hP : ∀ a, P a → P' a) :
    InStep R D E P' m where
  step l u hr := by
    rcases h.step l u hr with hsame | ⟨a, l', hl, ha, hu⟩
    · exact Or.inl hsame
    · exact Or.inr ⟨a, l', hl, hP a ha, hu⟩
  goes := h.goes

theorem relax {m : Run ε W α} (h : InStep R D E P m) (hE : ∀ e, E e → E' e) :
    InStep R D E' P m where
  step l u hr := by
    rcases h.step l u hr with ⟨r, l', u', hl, hu, hr', he⟩ | ⟨a, l', hl, ha, hu⟩
    · exact Or.inl ⟨r, l', u', hl, hu, hr', fun e hr => hE e (he e hr)⟩
    · exact Or.inr ⟨a, l', hl, ha, hu.imp (fun _ _ hd => hd) fun e _ hd => ⟨hE e hd.1, hd.2⟩⟩
  goes l := (h.goes l).imp (fun _ hd => hd) (fun _ _ hd => hd) fun e _ hd => ⟨hE e hd.1, hd.2⟩

theorem pure (a : α) : InStep R D E P (Pure.pure a : Run ε W α) where
  step l u hr := Or.inl ⟨.ok a, l, u, rfl, rfl, hr, nofun⟩
  goes _ := Keeps.pure a

theorem fail {e : ε} (h : E e) : InStep R D E P (Run.fail e : Run ε W α) where
  step l u hr := Or.inl ⟨.error e, l, u, rfl, rfl, hr, fun _ he => Except.error.inj he ▸ h⟩
  goes _ := Keeps.fail fun _ hd => ⟨h, hd⟩

theorem modify {f : W → W} (hr : ∀ l u, R l u → R (f l) (f u)) (hd : ∀ l u, D l u → D l (f u))
    {P : Unit → Prop} : InStep R D E P (Run.modify f : Run ε W Unit) where
  step l u h := Or.inl ⟨.ok (), f l, f u, rfl, rfl, hr l u h, nofun⟩
  goes l := Keeps.modify (hd l)

theorem read {f : W → α} (hr : ∀ l u, R l u → f l = f u) :
    InStep R D E P (Run.read f : Run ε W α) where
  step l u h := Or.inl ⟨.ok (f l), l, u, rfl, by rw [read_apply, hr l u h], h, nofun⟩
  goes _ := Keeps.read f

theorem ite {c : Prop} [Decidable c] {m m' : Run ε W α} (h : c → InStep R D E P m)
    (h' : ¬ c → InStep R D E P m') : InStep R D E P (if c then m else m') := by
  split
  · next hc => exact h hc
  · next hc => exact h' hc

/-- Where the first run has stopped, what follows is to settle. -/
theorem bind_of {m : Run ε W α} {f : α → Run ε W β} {Y : α → Prop} (hm : InStep R D E P m)
    (hy : Yields m Y) (hf : ∀ a, Y a → InStep R D E Q (f a)) (hs : ∀ a, P a → Settles D Q (f a)) :
    InStep R D E Q (m >>= f) where
  step l u hr := by
    rcases hm.step l u hr with ⟨r, l', u', hl, hu, hr', herror⟩ | ⟨a, l', hl, ha, hu⟩
    · cases r with
      | ok a =>
        rw [bind_of_ok hl, bind_of_ok hu]
        exact (hf a (hy.of_ok hl)).step l' u' hr'
      | error e =>
        rw [bind_of_error hl, bind_of_error hu]
        exact Or.inl ⟨_, l', u', rfl, rfl, hr', fun _ he => Except.error.inj he ▸ herror e rfl⟩
    · rw [bind_of_ok hl]
      rcases hrun : m u with ⟨r, u'⟩
      rw [hrun] at hu
      cases r with
      | ok b =>
        obtain ⟨c, l'', hl', hc, hd⟩ := hs a ha l' u' hu
        rw [bind_of_ok hrun]
        exact Or.inr ⟨c, l'', hl', hc, (hf b (hy.of_ok hrun)).goes l'' u' hd⟩
      | error e =>
        obtain ⟨c, l'', hl', hc, hd⟩ := hs a ha l' u' hu.2
        rw [bind_of_error hrun]
        exact Or.inr ⟨c, l'', hl', hc, hu.1, hd⟩
  goes l u hd := by
    have hgoes := hm.goes l u hd
    rcases hrun : m u with ⟨r, u'⟩
    rw [hrun] at hgoes
    cases r with
    | ok b =>
      rw [bind_of_ok hrun]
      exact (hf b (hy.of_ok hrun)).goes l u' hgoes
    | error e =>
      rw [bind_of_error hrun]
      exact hgoes

theorem bind {m : Run ε W α} {f : α → Run ε W β} (hm : InStep R D E P m)
    (hf : ∀ a, InStep R D E Q (f a)) (hs : ∀ a, P a → Settles D Q (f a)) :
    InStep R D E Q (m >>= f) := hm.bind_of (Yields.always m) (fun a _ => hf a) hs

theorem bind_quiet {m : Run ε W α} {f : α → Run ε W β} (hm : Quiet R D E m)
    (hf : ∀ a, InStep R D E Q (f a)) : InStep R D E Q (m >>= f) :=
  hm.bind hf fun _ ha => absurd ha not_false

theorem attempt_bind {m : Run ε W α} {f : Except ε α → Run ε W β} (hm : InStep R D E' P m)
    (hok : ∀ a, InStep R D E Q (f (.ok a))) (herror : ∀ e, E' e → InStep R D E Q (f (.error e)))
    (hs : ∀ a, P a → Settles D Q (f (.ok a))) : InStep R D E Q (Run.attempt m >>= f) := by
  -- the second run goes on with what it is handed
  have hgoes : ∀ l u, Ends (fun _ => D l) (fun e u' => E' e ∧ D l u') (m u) →
      Ends (fun _ => D l) (fun e u' => E e ∧ D l u') ((Run.attempt m >>= f) u) := by
    intro l u hu
    rw [attempt_bind_apply]
    rcases hrun : m u with ⟨r, u'⟩
    rw [hrun] at hu
    cases r with
    | ok a => exact (hok a).goes l u' hu
    | error e => exact (herror e hu.1).goes l u' hu.2
  refine ⟨fun l u hr => ?_, fun l u hd => hgoes l u (hm.goes l u hd)⟩
  rcases hm.step l u hr with ⟨r, l', u', hl, hu, hr', he⟩ | ⟨a, l', hl, ha, hu⟩
  · rw [attempt_bind_apply, attempt_bind_apply, hl, hu]
    cases r with
    | ok a => exact (hok a).step l' u' hr'
    | error e => exact (herror e (he e rfl)).step l' u' hr'
  · have hleft : Ends (fun _ => D l') (fun _ => D l') (m u) :=
      hu.imp (fun _ _ hd => hd) fun _ _ hd => hd.2
    obtain ⟨b, l'', hl', hb, hd'⟩ := hs a ha l' _ hleft.anyway
    refine Or.inr ⟨b, l'', ?_, hb, hgoes l'' u ?_⟩
    · rw [attempt_bind_apply, hl, hl']
    · rcases hrun : m u with ⟨r, u'⟩
      rw [hrun] at hu hd'
      cases r with
      | ok _ => exact hd'
      | error e => exact ⟨hu.1, hd'⟩

/-- A loop whose first run leaves it when it is told to stop. -/
theorem loop {body : σ → Run ε W (Flow σ β)} {out : σ → β}
    (hbody : ∀ s, InStep R D E (Flow.Holds (fun _ => False) Q) (body s)) (rounds : ℕ) (s : σ) :
    InStep R D E Q (Run.loop body out rounds s) := by
  induction rounds generalizing s with
  | zero => exact pure _
  | succ rounds ih =>
    unfold Run.loop
    refine (hbody s).bind (fun flow => ?_) fun flow hflow => ?_
    · cases flow with
      | again s' => exact ih s'
      | stop b => exact pure b
    · cases flow with
      | again s' => exact absurd hflow not_false
      | stop b => exact Settles.pure hflow

theorem fold {γ : Type} {body : β → γ → Run ε W β} (hbody : ∀ b x, InStep R D E Q (body b x))
    (hover : ∀ b x, Q b → body b x = Pure.pure b) (xs : List γ) (b : β) :
    InStep R D E Q (Run.fold body xs b) := by
  induction xs generalizing b with
  | nil => exact pure b
  | cons x xs ih =>
    refine (hbody b x).bind ih fun b' hb' => ?_
    rw [fold_over fun x => hover b' x hb']
    exact Settles.pure hb'

theorem alone {I S : W → Prop} {m : Run ε W α} (h : InStep R D E P m)
    (hstart : ∀ w, I w → ∃ u, R w u) (hR : ∀ l u, R l u → I l) (hD : ∀ l u, D l u → S l) :
    Triple I m (fun a w => I w ∨ S w ∧ P a) fun e w => E e ∧ I w := by
  intro w hw
  obtain ⟨u, hu⟩ := hstart w hw
  rcases h.step w u hu with ⟨r, l', u', hl, -, hr, he⟩ | ⟨a, l', hl, ha, hends⟩
  · rw [hl]
    cases r with
    | ok a => exact .inl (hR _ _ hr)
    | error e => exact ⟨he e rfl, hR _ _ hr⟩
  · rw [hl]
    have hleft : Ends (fun _ => D l') (fun _ => D l') (m u) :=
      hends.imp (fun _ _ hd => hd) fun _ _ hd => hd.2
    exact .inr ⟨hD _ _ hleft.anyway, ha⟩

theorem refl {m : Run ε W α} (h : Keeps (fun _ => True) (fun e _ => E e) m) :
    InStep Eq (fun _ _ => True) E P m where
  step l u hlu := by
    subst hlu
    exact .inl ⟨_, _, _, rfl, rfl, rfl, fun e he => h.of_error trivial he⟩
  goes _ := h.imp (fun _ hw => hw) (fun _ _ hw => hw) fun _ _ he => ⟨he, trivial⟩

end InStep

end DbgScope.Run
