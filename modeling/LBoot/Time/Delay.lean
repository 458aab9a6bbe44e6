/-
  LBoot.Time.Delay

  Waiting for the time (src/time/time.c).

  `time_delay` sleeps with `hlt` between two looks at the time, and interrupts
  come between any two of these steps, also between the look and the `hlt`: one
  that comes there does not wake it.

  It never returns before its milliseconds have passed, unless the time it
  waits for is behind the end of the counter: then it does not wait at all.
  Once they have passed, it sleeps once more at most (`timeDelay_spec`).
-/

import Mathlib.Data.List.Induction
import LBoot.Lib.Tally

namespace LBoot.Time

open LBoot.Lib

/-- `TIME_TICKS_PER_SECOND`. -/
def timeTicksPerSecond : UInt32 := 1000

/-- `time_offset`, with `_current_ticks` given. -/
def timeOffset (current ms : UInt32) : UInt32 := current + ms * (timeTicksPerSecond / 1000)

/-- `time_ispast`. -/
def timeIspast (ticks current : UInt32) : Bool := decide (ticks ≤ current)

/-! ## time_delay -/

/-- The program points of `time_delay`. -/
inductive DelayPc where
  /-- `time_ispast(&end)` -/
  | look
  /-- in front of the `hlt` -/
  | hlt
  | halted
  | returned
  deriving DecidableEq, Repr

structure DelayState where
  /-- `_current_ticks` -/
  ticks : UInt32
  /-- `end` -/
  stop : UInt32
  pc : DelayPc
  deriving DecidableEq, Repr

inductive DelayEvent where
  /-- the timer interrupt has been handled -/
  | timer
  /-- another one has -/
  | irq
  /-- a step of its own: a look at the time, or the `hlt` -/
  | step
  deriving DecidableEq, Repr

/-- An interrupt wakes the processor up. -/
def wake : DelayPc → DelayPc
  | .halted => .look
  | pc => pc

def delayStep (s : DelayState) : DelayEvent → Option DelayState
  | .timer => some { s with ticks := s.ticks + 1, pc := wake s.pc }
  | .irq => some { s with pc := wake s.pc }
  | .step =>
      match s.pc with
      | .look => some { s with pc := if timeIspast s.stop s.ticks then .returned else .hlt }
      | .hlt => some { s with pc := .halted }
      | .halted => none
      | .returned => none

def delayMachine : Machine DelayState DelayEvent := ⟨delayStep⟩

@[simp] theorem delayMachine_step (s : DelayState) (e : DelayEvent) :
    delayMachine.step s e = delayStep s e := rfl

/-- `time_delay`, up to its loop; with interrupts off it panics. -/
def timeDelay (intFlag : Bool) (current ms : UInt32) : Option DelayState :=
  if intFlag then some ⟨current, timeOffset current ms, .look⟩ else none

/-! ## How long it waits -/

variable {current ms : UInt32} {s t u : DelayState}

theorem timeOffset_eq (current ms : UInt32) : timeOffset current ms = current + ms := by
  have hone : timeTicksPerSecond / 1000 = 1 := by decide
  rw [timeOffset, hone, UInt32.mul_one]

theorem timeIspast_iff {stop ticks : UInt32} :
    timeIspast stop ticks = true ↔ stop.toNat ≤ ticks.toNat := by
  rw [timeIspast, decide_eq_true_iff, UInt32.le_iff_toNat_le]

theorem toNat_add_ofNat (x : UInt32) (n : Nat) :
    (x + UInt32.ofNat n).toNat = (x.toNat + n) % 2 ^ 32 := by
  rw [UInt32.toNat_add, UInt32.toNat_ofNat', Nat.add_mod_mod]

/-- What a run from the start leaves, with `n` timer interrupts in it. -/
structure Waiting (current ms : UInt32) (n : Nat) (s : DelayState) : Prop where
  stop : s.stop = current + ms
  ticks : s.ticks = current + UInt32.ofNat n
  /-- it has not returned too early -/
  late : current.toNat + ms.toNat < 2 ^ 32 → s.pc = .returned → ms.toNat ≤ n

theorem wake_returned {pc : DelayPc} (h : wake pc = .returned) : pc = .returned := by
  cases pc with
  | returned => rfl
  | look => cases h
  | hlt => cases h
  | halted => cases h

theorem waiting_step {n : Nat} {e : DelayEvent} (h : Waiting current ms n s)
    (hstep : delayStep s e = some t) : Waiting current ms (n + [e].count .timer) t := by
  cases e with
  | timer =>
      obtain rfl := Option.some.inj hstep
      refine ⟨h.stop, ?_, fun hno hret => ?_⟩
      · show s.ticks + 1 = current + UInt32.ofNat (n + 1)
        rw [h.ticks, UInt32.ofNat_add, UInt32.add_assoc]
        rfl
      · exact Nat.le_succ_of_le (h.late hno (wake_returned hret))
  | irq =>
      obtain rfl := Option.some.inj hstep
      exact ⟨h.stop, h.ticks, fun hno hret => h.late hno (wake_returned hret)⟩
  | step =>
      cases hpc : s.pc with
      | look =>
          rw [delayStep, hpc] at hstep
          obtain rfl := Option.some.inj hstep
          refine ⟨h.stop, h.ticks, fun hno hret => ?_⟩
          dsimp only at hret
          split at hret
          · -- the time it waits for has come
            rename_i hpast
            rw [timeIspast_iff, h.stop, h.ticks, UInt32.toNat_add, Nat.mod_eq_of_lt hno,
              toNat_add_ofNat] at hpast
            have hmod := Nat.mod_le (current.toNat + n) (2 ^ 32)
            exact (by omega : ms.toNat ≤ n)
          · cases hret
      | hlt =>
          rw [delayStep, hpc] at hstep
          obtain rfl := Option.some.inj hstep
          refine ⟨h.stop, h.ticks, fun _ hret => ?_⟩
          cases hret
      | halted =>
          rw [delayStep, hpc] at hstep
          cases hstep
      | returned =>
          rw [delayStep, hpc] at hstep
          cases hstep

theorem waiting_run {es : List DelayEvent} :
    ∀ {n : Nat} {s : DelayState}, Waiting current ms n s → delayMachine.run s es = some u →
      Waiting current ms (n + es.count .timer) u := by
  induction es with
  | nil =>
      intro n s h hrun
      obtain rfl := Option.some.inj hrun
      exact h
  | cons e es ih =>
      intro n s h hrun
      obtain ⟨t, ht, hrest⟩ := Machine.run_cons_eq_some hrun
      have hmore := ih (waiting_step h ht) hrest
      rw [Nat.add_assoc, ← List.count_append] at hmore
      exact hmore

/-! ## How soon it returns -/

/-- The instructions that are left once the time has come. -/
def left : DelayPc → Nat
  | .look => 1
  | .hlt => 2
  | .halted => 1
  | .returned => 0

theorem left_le_two (pc : DelayPc) : left pc ≤ 2 := by
  cases pc <;> decide

theorem left_wake (pc : DelayPc) : left (wake pc) = left pc := by
  cases pc <;> rfl

theorem left_step {n : Nat} {e : DelayEvent} (h : Waiting current ms n s)
    (hno : current.toNat + n < 2 ^ 32) (hms : ms.toNat ≤ n) (hstep : delayStep s e = some t) :
    left t.pc + [e].count .step = left s.pc := by
  cases e with
  | timer =>
      obtain rfl := Option.some.inj hstep
      exact left_wake s.pc
  | irq =>
      obtain rfl := Option.some.inj hstep
      exact left_wake s.pc
  | step =>
      have hpast : timeIspast s.stop s.ticks = true := by
        rw [timeIspast_iff, h.stop, h.ticks, UInt32.toNat_add, toNat_add_ofNat,
          Nat.mod_eq_of_lt hno, Nat.mod_eq_of_lt (by omega)]
        omega
      cases hpc : s.pc with
      | look =>
          rw [delayStep, hpc] at hstep
          obtain rfl := Option.some.inj hstep
          rw [hpast, if_pos rfl]
          rfl
      | hlt =>
          rw [delayStep, hpc] at hstep
          obtain rfl := Option.some.inj hstep
          rfl
      | halted =>
          rw [delayStep, hpc] at hstep
          cases hstep
      | returned =>
          rw [delayStep, hpc] at hstep
          cases hstep

theorem left_run {es : List DelayEvent} :
    ∀ {n : Nat} {s : DelayState}, Waiting current ms n s →
      current.toNat + n + es.count .timer < 2 ^ 32 → ms.toNat ≤ n →
      delayMachine.run s es = some u → left u.pc + es.count .step = left s.pc := by
  induction es with
  | nil =>
      intro n s _ _ _ hrun
      obtain rfl := Option.some.inj hrun
      rfl
  | cons e es ih =>
      intro n s h hno hms hrun
      obtain ⟨t, ht, hrest⟩ := Machine.run_cons_eq_some hrun
      have hcount (x : DelayEvent) : (e :: es).count x = [e].count x + es.count x := by
        rw [← List.count_append, List.singleton_append]
      rw [hcount] at hno
      have hone := left_step h (by omega) hms ht
      have hmore := ih (waiting_step h ht) (by omega) (by omega) hrest
      rw [hcount]
      omega

theorem delayStart_waiting (current ms : UInt32) :
    Waiting current ms 0 ⟨current, timeOffset current ms, .look⟩ where
  stop := timeOffset_eq current ms
  ticks := (UInt32.add_zero current).symm
  late := by
    intro _ h
    cases h

/-- **Waiting**: `time_delay` never returns before `ms` timer interrupts if the
    time it waits for is not behind the end of the counter, and only then.
    After `ms` of them, it is at most two of its steps (the `hlt`, and a look)
    from its return, in whatever order interrupts come. -/
theorem timeDelay_spec (current ms : UInt32) (hstart : timeDelay true current ms = some s) :
    ((∀ es u, delayMachine.run s es = some u → u.pc = .returned → ms.toNat ≤ es.count .timer) ↔
      current.toNat + ms.toNat < 2 ^ 32) ∧
    ∀ es t, delayMachine.run s es = some t → ms.toNat ≤ es.count .timer →
      ∀ es' u, delayMachine.run t es' = some u →
        current.toNat + (es ++ es').count .timer < 2 ^ 32 →
        es'.count .step ≤ 2 ∧ (es'.count .step = 2 → u.pc = .returned) := by
  obtain rfl := Option.some.inj hstart
  have hwait := delayStart_waiting current ms
  refine ⟨⟨fun hlate => ?_, fun hno es u hrun hret => ?_⟩, ?_⟩
  · -- behind the end of the counter, the first look sees a time that is past
    by_contra hwrap
    have hms := ms.toNat_lt
    have hcurrent := current.toNat_lt
    have hpast : timeIspast (timeOffset current ms) current = true := by
      rw [timeIspast_iff, timeOffset_eq, UInt32.toNat_add]
      omega
    have hlook : delayStep ⟨current, timeOffset current ms, .look⟩ .step =
        some ⟨current, timeOffset current ms, .returned⟩ := by
      show some (DelayState.mk current (timeOffset current ms)
        (if timeIspast (timeOffset current ms) current then .returned else .hlt)) = _
      rw [hpast, if_pos rfl]
    have hrun : delayMachine.run ⟨current, timeOffset current ms, .look⟩ [.step] =
        some ⟨current, timeOffset current ms, .returned⟩ := by
      rw [Machine.run_cons, delayMachine_step, hlook, Option.bind_some, Machine.run_nil]
    have hzero : ms.toNat ≤ 0 := hlate [.step] _ hrun rfl
    omega
  · -- without a wrap the wait is counted in timer interrupts
    have hdone := (waiting_run hwait hrun).late hno hret
    rwa [Nat.zero_add] at hdone
  · intro es t hrun hms es' u hrun' hno
    have ht := waiting_run hwait hrun
    rw [Nat.zero_add] at ht
    rw [List.count_append, ← Nat.add_assoc] at hno
    -- from there on only its own steps are left
    have hleft := left_run ht hno hms hrun'
    have htwo := left_le_two t.pc
    refine ⟨by omega, fun hsteps => ?_⟩
    have hzero : left u.pc = 0 := by omega
    cases hpc : u.pc with
    | returned => rfl
    | look =>
        rw [hpc] at hzero
        cases hzero
    | hlt =>
        rw [hpc] at hzero
        cases hzero
    | halted =>
        rw [hpc] at hzero
        cases hzero

/-- Behind the end of the counter nothing is waited for: 16 ms from 10 ms
    before it.  In front of it, a delay of 2 ms that has missed both of its
    interrupts sleeps until the next one, and returns. -/
theorem timeDelay_spec_wrap :
    (¬ ∀ es u, delayMachine.run ⟨0xfffffff6, 6, .look⟩ es = some u → u.pc = .returned →
      16 ≤ es.count .timer) ∧
    ∃ t u, delayMachine.run ⟨10, 12, .look⟩ [.step, .timer, .timer] = some t ∧
      delayMachine.run t [.step, .irq, .step] = some u ∧ u.pc = .returned := by
  have hwrap := timeDelay_spec (s := ⟨0xfffffff6, 6, .look⟩) 0xfffffff6 16 rfl
  have hsleep := timeDelay_spec (s := ⟨10, 12, .look⟩) 10 2 rfl
  refine ⟨fun h => absurd (hwrap.1.mp h) (by decide), ⟨12, 12, .hlt⟩, ⟨12, 12, .returned⟩, rfl, rfl, ?_⟩
  obtain ⟨-, htwo⟩ := hsleep.2 [.step, .timer, .timer] ⟨12, 12, .hlt⟩ rfl (by decide)
    [.step, .irq, .step] ⟨12, 12, .returned⟩ rfl (by decide)
  exact htwo rfl

end LBoot.Time
