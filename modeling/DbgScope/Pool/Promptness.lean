import DbgScope.Pool.Observing
import DbgScope.Pool.Frozen

/-!
# How promptly the free-chunk evidence can be stopped

Reading a heap's free-chunk state asks whether it may go on before each slot, each tree, each node
and each bucket. The heads of the delay-free lists are read without asking: a list with nothing on
it never enters the loop that polls. So the reads between two polls are bounded by the number of
roots that carry such a list and not by a constant.
-/

namespace DbgScope.Pool

open Run

variable {S α β : Type}

/-- A guarded read asks for its region first, and asks once. -/
def Event.isRead : Event → Bool
  | .validRegion _ _ _ => true
  | _ => false

def Event.isPoll : Event → Bool
  | .poll _ => true
  | _ => false

/-- The reads since a poll last let the walk go on. -/
def unpolled (events : History) : ℕ :=
  events.foldl (fun reads event => match event with
    | .poll none => 0
    | .validRegion _ _ _ => reads + 1
    | _ => reads) 0

/-- No stretch of the run holds more reads than `bound` unless a poll lets the walk go on within
it: neither between two polls, nor once every poll that is still made ends the walk. -/
def Prompt (bound : ℕ) (events : History) : Prop :=
  ∀ stretch, stretch <:+: events → Event.poll none ∉ stretch → stretch.countP Event.isRead ≤ bound

theorem unpolled_append_of_not_mem (before : History) {stretch : History}
    (h : Event.poll none ∉ stretch) :
    unpolled (before ++ stretch) = unpolled before + stretch.countP Event.isRead := by
  induction stretch using List.reverseRecOn with
  | nil => simp
  | append_singleton stretch event ih =>
    have hstretch := ih fun hmem => h (by simp [hmem])
    have hevent : event ≠ .poll none := fun heq => h (by simp [heq])
    rw [← List.append_assoc]
    unfold unpolled at hstretch ⊢
    rw [List.foldl_append, hstretch, List.countP_append]
    match event with
    | .poll none => exact absurd rfl hevent
    | .poll (some _) | .validRegion _ _ _ | .readExact _ _ _ | .committedRun _ | .fault _ _
    | .dropped _ _ | .capped _ | .decoded _ _ | .filed _ _ => rfl

theorem Prompt.concat {bound : ℕ} {events : History} {event : Event} (h : Prompt bound events)
    (hlast : unpolled (events ++ [event]) ≤ bound) : Prompt bound (events ++ [event]) := by
  intro stretch hwithin hnone
  rcases List.infix_concat_iff.mp hwithin with hsuffix | hearlier
  · obtain ⟨before, hbefore⟩ := hsuffix
    rw [← hbefore, unpolled_append_of_not_mem before hnone] at hlast
    omega
  · exact h stretch hearlier hnone

/-! ## Pace -/

/-- The run since `start` has been prompt, with at most `k` reads since the last poll. -/
def Paced (start : History) (k : ℕ) (w : World S) : Prop :=
  ∃ events, w.history = start ++ events ∧ Prompt 16 events ∧ unpolled events ≤ k

/-- The computation is prompt, and takes a walk `k` reads past its last poll to one `l` past it. -/
def Paces (start : History) (k l : ℕ) (m : Walk S α) : Prop :=
  Triple (Paced start k) m (fun _ => Paced start l) fun _ => Paced start 16

variable {start : History} {k l : ℕ}

theorem Paced.le {w : World S} (h : Paced start k w) (hkl : k ≤ l) : Paced start l w := by
  obtain ⟨events, hhistory, hprompt, hreads⟩ := h
  exact ⟨events, hhistory, hprompt, hreads.trans hkl⟩

theorem Paced.note {w : World S} (h : Paced start k w) (event : Event) (hl : l ≤ 16)
    (hevent : ∀ events, unpolled events ≤ k → unpolled (events ++ [event]) ≤ l) :
    Paced start l (w.note event) := by
  obtain ⟨events, hhistory, hprompt, hreads⟩ := h
  have hnow := hevent events hreads
  exact ⟨events ++ [event], by simp [hhistory], hprompt.concat (hnow.trans hl), hnow⟩

variable (memory : PoolMemory) (layout : PoolLayout)

theorem checkBudget_paces (hk : k ≤ 16) : Paces start k 0 (checkBudget memory : Walk S Unit) := by
  intro w hw
  unfold checkBudget
  cases pollOutcome memory w.history with
  | ok u => exact hw.note _ (Nat.zero_le 16) fun events _ => by simp [unpolled, failureOf]
  | error e => exact (hw.le hk).note _ le_rfl fun events h => by simpa [unpolled, failureOf] using h

theorem guardedBytes_paces (address size : ℕ) (hk : k < 16) :
    Triple (Paced start k) (guardedBytes memory address size : Walk S (List UInt8))
      (fun _ => Paced start (k + 1)) fun _ => Paced start (k + 1) := by
  refine Triple.ite (fun _ => Triple.pure fun w hw => hw.le (Nat.le_succ k)) fun _ => ?_
  refine Triple.bind (Q := fun _ => Paced start (k + 1)) (fun w hw => ?_) fun valid => ?_
  · have hnoted := hw.note (.validRegion address size
      (failureOf (memory.validRegion w.history address size))) (l := k + 1) hk
      fun events h => by simpa [unpolled] using h
    unfold callValidRegion
    cases hp : memory.validRegion w.history address size with
    | ok valid => rw [hp] at hnoted; exact hnoted
    | error e => rw [hp] at hnoted; exact hnoted
  · refine Triple.ite (fun _ => Triple.fail fun w hw => hw) fun _ w hw => ?_
    have hnoted := hw.note (.readExact address size
      (failureOf (memory.readExact w.history address size))) (l := k + 1) hk
      fun events h => by simpa [unpolled] using h
    unfold callReadExact
    cases hp : memory.readExact w.history address size with
    | ok bytes => rw [hp] at hnoted; exact hnoted
    | error e => rw [hp] at hnoted; exact hnoted

theorem observed_paces {read : Walk S α} (address size : ℕ) (hk : k ≤ 16)
    (h : Triple (Paced start l) read (fun _ => Paced start k) fun _ => Paced start k) :
    Triple (Paced start l) (observed address size read) (fun _ => Paced start k)
      fun _ => Paced start k := by
  intro w hw
  have hends := h w hw
  unfold observed
  rcases hr : read w with ⟨r, w'⟩
  rw [hr] at hends
  cases r with
  | ok a => exact hends
  | error e => exact Paced.note hends _ hk fun events h => by simpa [unpolled] using h

theorem guardedRead_paces (address size : ℕ) (hk : k < 16) :
    Triple (Paced start k) (guardedRead memory address size : Walk S (List UInt8))
      (fun _ => Paced start (k + 1)) fun _ => Paced start (k + 1) :=
  observed_paces address size hk (guardedBytes_paces memory address size hk)

theorem scalar_paces (address size : ℕ) (hk : k < 16) :
    Triple (Paced start k) (scalar memory address size : Walk S ℕ)
      (fun _ => Paced start (k + 1)) fun _ => Paced start (k + 1) := by
  refine observed_paces address size hk
    (Triple.bind (guardedBytes_paces memory address size hk) fun bytes => ?_)
  intro w hw
  rw [Run.lift_apply]
  cases scalarOf size bytes with
  | ok value => exact hw
  | error e => exact hw

theorem paced_counting :
    Counting (· ≤ 16) (Paced start) (Paced start) (fun _ => Paced start 16) memory where
  fewer hkl hl := hkl.trans hl
  mono hkl hw := hw.le hkl
  weaken hw := hw
  poll hk := checkBudget_paces memory hk
  read address size hk := guardedRead_paces memory address size hk
  scalar address size hk := scalar_paces memory address size hk
  again address size hk := scalar_paces memory address size hk
  report _ hw := hw
  dropped _ _ hk hw := hw.note _ hk fun events h => by simpa [unpolled] using h
  capped hk _ hw _ := hw.note _ hk fun events h => by simpa [unpolled] using h

/-! ## Evidence -/

/-- A schema that keeps the free-chunk state in affinity slots. -/
def slotLayout : PoolLayout where
  globals _ := none
  types
    | .heapVsContext => some { size := 0x40, fields := fun
      | .slotMapRef => some 0
      | .affinityMask => some 2
      | _ => none }
    | .heapVsAffinitySlot => some { size := 0x40, fields := fun
      | .vsContext => some 0
      | .freeChunkTree => some 8
      | .delayFreeContext => some 0x18
      | _ => none }
    | _ => some { size := 0x10, fields := fun
      | .encoded | .region | .buckets => some 8
      | _ => some 0 }

/-- A context at `0x1000` whose slots, from `0x1140` on, have empty trees and empty lists, and a
lookaside of one unused bucket at `0x2000`. -/
def emptySlots (affinityMask : UInt8) (address : ℕ) : UInt8 :=
  if address = 0x1000 ∨ address = 0x2000 then 1
  else if address = 0x1002 then affinityMask
  else if address < 0x1140 ∧ address % 16 = 0 then UInt8.ofNat ((address - 0x1000) / 16 + 1)
  else if 0x1140 ≤ address ∧ address < 0x2000 ∧ address % 64 = 1 then 0x10
  else 0

end DbgScope.Pool
