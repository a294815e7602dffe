import DbgScope.Serial

/-!
# What the engine's records share

Errors of the debug engine's wrapper and the counters its ids are minted from.
-/

namespace DbgScope.Engine

abbrev HResult := ℕ

inductive DbgEngError
  | context (operation : String) (source : HResult)
  | operationFailed (source : HResult)
  | commandFailed (source : HResult)
  | liveTargetTimeout
  | liveTargetInterrupted
  deriving DecidableEq, Repr

/-- The next value of a 64-bit counter. Past the largest word the addition panics in a build with
overflow checks, which is `none`, and wraps in one without. -/
def mint (checks : Bool) (minted : ℕ) : Option ℕ :=
  if minted + 1 < 2 ^ 64 then some (minted + 1) else if checks then none else some 0

theorem mint_eq_some {checks : Bool} {minted next : ℕ} (h : mint checks minted = some next) :
    next = minted + 1 ∨ checks = false ∧ 2 ^ 64 ≤ minted + 1 := by
  unfold mint at h
  split at h
  · exact .inl (Option.some.inj h).symm
  · cases checks with
    | true => simp at h
    | false => exact .inr ⟨rfl, by omega⟩

section Counters

variable {σ call answer : Type} {m : Serial σ call answer}

def Mints (checks : Bool) (counter : σ → ℕ) (handed : answer → Option ℕ)
    (m : Serial σ call answer) (c : call) (w : σ) : Prop :=
  (∃ next, handed (m.serve c w).1 = some next ∧ mint checks (counter w) = some next ∧
    counter (m.serve c w).2 = next) ∨
  handed (m.serve c w).1 = none ∧ counter (m.serve c w).2 = counter w

/-- The ids a run hands out count up from one for as long as the counter does not wrap. -/
theorem handed_eq {checks : Bool} {counter : σ → ℕ} {handed : answer → Option ℕ}
    (hstart : counter m.start = 0) (hserve : ∀ c w, Mints checks counter handed m c w)
    {calls : List call}
    (h : checks = true ∨ ((m.answers calls).filterMap handed).length < 2 ^ 64) :
    (m.answers calls).filterMap handed =
      (List.range' 1 (counter (m.after calls))).reverse := by
  induction calls with
  | nil => simp [hstart]
  | cons c past ih =>
    rw [Serial.answers_cons] at h ⊢
    rw [Serial.after_cons]
    rcases hserve c (m.after past) with ⟨next, hanswer, hmint, hcounter⟩ | ⟨hanswer, hcounter⟩
    · rw [List.filterMap_cons_some hanswer] at h ⊢
      have hids := ih (h.imp_right Nat.lt_of_succ_lt)
      -- the counter is as far as the ids handed out, so it has not reached the wrap
      have hnext : next = counter (m.after past) + 1 := by
        rcases mint_eq_some hmint with hid | ⟨rfl, hwrap⟩
        · exact hid
        · rw [List.length_cons, hids, List.length_reverse, List.length_range'] at h
          simp only [Bool.false_eq_true, false_or] at h
          omega
      rw [hids, hcounter, hnext, List.range'_1_concat, List.reverse_append]
      simp [Nat.add_comm]
    · rw [List.filterMap_cons_none hanswer] at h ⊢
      rw [hcounter, ih h]

theorem handed_next {checks : Bool} {counter : σ → ℕ} {handed : answer → Option ℕ}
    (hstart : counter m.start = 0) (hserve : ∀ c w, Mints checks counter handed m c w)
    {calls : List call}
    (h : checks = true ∨ ((m.answers calls).filterMap handed).length < 2 ^ 64) :
    m.Throughout (fun w c => ∀ next, handed (m.serve c w).1 = some next → next = counter w + 1)
      calls := by
  induction calls with
  | nil => trivial
  | cons c past ih =>
    have hpast : checks = true ∨ ((m.answers past).filterMap handed).length < 2 ^ 64 := by
      refine h.imp_right (lt_of_le_of_lt ?_)
      rw [Serial.answers_cons, List.filterMap_cons]
      split <;> simp
    refine ⟨ih hpast, fun next hnext => ?_⟩
    have hlen := congrArg List.length (handed_eq hstart hserve h)
    have hhead := congrArg List.head? (handed_eq hstart hserve h)
    rw [Serial.answers_cons, List.filterMap_cons_some hnext] at hlen hhead
    rw [handed_eq hstart hserve hpast] at hlen
    simp only [List.length_cons, List.length_reverse, List.length_range'] at hlen
    rw [← hlen, List.range'_1_concat, List.reverse_append] at hhead
    simpa [Nat.add_comm] using hhead

end Counters

end DbgScope.Engine
