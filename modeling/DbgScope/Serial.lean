import Mathlib.Tactic

/-!
# Machines that serve one call at a time

State behind a lock serves its callers one at a time, so an interleaving of any number of callers is
the order in which their calls are served. A run is that list of calls, the newest first: `after` is
the state it leaves and `answers` is what the calls were told. A property of every run is proved by
what one call preserves (`always_of_step`).
-/

namespace DbgScope

/-- A machine that serves calls one at a time: what a call is told and the state it leaves. -/
structure Serial (σ call answer : Type) where
  start : σ
  serve : call → σ → answer × σ

namespace Serial

variable {σ call answer : Type} (m : Serial σ call answer)

def after : List call → σ
  | [] => m.start
  | c :: past => (m.serve c (after past)).2

/-- What the calls of a run were told, newest first. -/
def answers : List call → List answer
  | [] => []
  | c :: past => (m.serve c (m.after past)).1 :: answers past

def Throughout (P : σ → call → Prop) : List call → Prop
  | [] => True
  | c :: past => Throughout P past ∧ P (m.after past) c

/-- The property holds in every state the run went through. -/
def Always (I : σ → Prop) : List call → Prop
  | [] => I m.start
  | c :: past => Always I past ∧ I (m.after (c :: past))

instance decidableThroughout (P : σ → call → Prop) [∀ s c, Decidable (P s c)] :
    ∀ calls, Decidable (m.Throughout P calls)
  | [] => .isTrue trivial
  | c :: past =>
    have := decidableThroughout P past
    inferInstanceAs (Decidable (m.Throughout P past ∧ P (m.after past) c))

@[simp] theorem after_nil : m.after [] = m.start := rfl

@[simp] theorem after_cons (c : call) (past : List call) :
    m.after (c :: past) = (m.serve c (m.after past)).2 := rfl

@[simp] theorem answers_nil : m.answers [] = [] := rfl

@[simp] theorem answers_cons (c : call) (past : List call) :
    m.answers (c :: past) = (m.serve c (m.after past)).1 :: m.answers past := rfl

variable {m}

theorem Always.now {I : σ → Prop} {calls : List call} (h : m.Always I calls) :
    I (m.after calls) := by
  cases calls with
  | nil => exact h
  | cons c past => exact h.2

theorem Throughout.append {P : σ → call → Prop} {later past : List call}
    (h : m.Throughout P (later ++ past)) : m.Throughout P past := by
  induction later with
  | nil => exact h
  | cons c later ih => exact ih h.1

theorem throughout_true (calls : List call) : m.Throughout (fun _ _ => True) calls := by
  induction calls with
  | nil => trivial
  | cons c past ih => exact ⟨ih, trivial⟩

theorem always_of_step {P : σ → call → Prop} {I : σ → Prop} (hstart : I m.start)
    (hstep : ∀ s c, I s → P s c → I (m.serve c s).2) {calls : List call}
    (h : m.Throughout P calls) : m.Always I calls := by
  induction calls with
  | nil => exact hstart
  | cons c past ih => exact ⟨ih h.1, hstep _ _ (ih h.1).now h.2⟩

/-- A property each call keeps exactly when it meets `P` holds in every state of a run exactly
when every call of the run meets `P`. `J` is what holds in every run of calls that meet `L`. -/
theorem always_iff_throughout {L P : σ → call → Prop} {I J : σ → Prop} (hstart : I m.start)
    {calls : List call} (hL : m.Throughout L calls) (hJ : m.Always J calls)
    (hstep : ∀ s c, J s → L s c → I s → (I (m.serve c s).2 ↔ P s c)) :
    m.Always I calls ↔ m.Throughout P calls := by
  induction calls with
  | nil => exact ⟨fun _ => trivial, fun _ => hstart⟩
  | cons c past ih =>
    have hpast := ih hL.1 hJ.1
    rw [Always, Throughout, hpast]
    constructor
    · rintro ⟨h, hnow⟩
      exact ⟨h, (hstep _ c hJ.1.now hL.2 (hpast.mpr h).now).mp hnow⟩
    · rintro ⟨h, hc⟩
      exact ⟨h, (hstep _ c hJ.1.now hL.2 (hpast.mpr h).now).mpr hc⟩

theorem answers_split {calls : List call} {later past : List answer} {a : answer}
    (h : m.answers calls = later ++ a :: past) :
    ∃ laterCalls c pastCalls, calls = laterCalls ++ c :: pastCalls ∧
      m.answers pastCalls = past ∧ (m.serve c (m.after pastCalls)).1 = a := by
  induction calls generalizing later with
  | nil => simp at h
  | cons c calls ih =>
    cases later with
    | nil =>
      simp only [answers_cons, List.nil_append, List.cons.injEq] at h
      exact ⟨[], c, calls, rfl, h.2, h.1⟩
    | cons b later =>
      simp only [answers_cons, List.cons_append, List.cons.injEq] at h
      obtain ⟨laterCalls, c', pastCalls, rfl, hrest⟩ := ih h.2
      exact ⟨c :: laterCalls, c', pastCalls, rfl, hrest⟩

end Serial

end DbgScope
