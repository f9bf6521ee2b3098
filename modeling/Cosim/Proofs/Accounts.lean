import Cosim.Proofs.Endings
import Cosim.Proofs.Supervision

/-!
# What an account can say

A supervised run hands out an account when its caller has been told that the run has
ended.  The caller may also be interrupted from outside while it waits, and then hands out
an error.

* `Outcome.Consistent` says how outcome, watchdog and exit code belong together.
* `Interruptible` is a supervised run whose caller may be interrupted, and
  `Interruptible.Move` lists what can happen to it.
* `Interruptible.Inv.move` is the step lemma and `Interruptible.Inv.reach` the run lemma:
  whoever has been told of the end knows the outcome that stays.
-/

namespace Cosim

/-! ## Outcome and exit code -/

/-- Outcome, flags and exit code of a run of so many cores under an instruction ceiling. -/
structure Outcome.Consistent (limit : UInt64) (cores : Nat) (o : Outcome) (info : EndInfo) :
    Prop where
  regular : o.Regular
  /-- The ceiling ended the run exactly when there is one and every core has crossed it. -/
  limited_iff : o.cause = some .instrLimit ↔
    limit ≠ 0 ∧ ∀ core < cores, info.trapped.getD core false = true
  exit_zero_iff : o.exitCode = 0 ↔ o.status ≠ .failed
  exit_trap : o.cause = some .trapCode → o.exitCode = min (o.trapCode + 1) 255
  exit_other : o.status = .failed → o.cause ≠ some .trapCode → o.exitCode = 1

theorem Run.Regular.consistent {limit : UInt64} {cores : Nat} {r : Run}
    (h : r.Regular limit cores) : r.outcome.Consistent limit cores r.watchdog.info where
  regular := h.outcome
  limited_iff := h.cause_eq_instrLimit_iff
  exit_zero_iff := h.outcome.exitCode_eq_zero_iff
  exit_trap := by
    intro hcause
    rw [h.outcome.exitCode_eq, if_pos (h.outcome.failed_of_trapCode hcause), if_pos hcause]
  exit_other := by
    intro hfailed hcause
    rw [h.outcome.exitCode_eq, if_pos hfailed, if_neg hcause]

/-- Trap codes of the design are bytes. -/
theorem Line.trapState_bounds (l : Line) :
    -1 ≤ Oracle.trapState l ∧ Oracle.trapState l ≤ 255 := by
  simp only [Oracle.trapState, Checker.trapState]
  split
  · rename_i state _
    have hbyte := state.trap.code.toNat_lt
    omega
  · decide

/-! ## Supervised runs -/

namespace Supervision

variable {batch : Nat} {s s' : Supervision}

/-- Whatever happens under supervision is a critical section of the run. -/
theorem Move.change (h : Move batch s s') : ∃ k, s.session.run.Change Line k s'.session.run := by
  cases h with
  | @report before e later _ =>
    exact ⟨0, (s.withDevice { s.device with failures := before ++ later }).session.change_abort e⟩
  | late hloop hrun => exact ⟨0, Session.change_dump hrun⟩
  | conclude hloop =>
    obtain ⟨k, -, hchange⟩ := s.session.change_conclude _ s.caller.cancelled
    exact ⟨k, hchange⟩
  | finish hloop => exact ⟨0, s.session.change_finish⟩
  | feed | feedOver | reader | assembler | again | leave | enter | batchOver | begin | take
  | takeFailed | giveUp | copy | reset | giveBack | check | wake | cancel | join | halt
  | collect => exact ⟨0, .rest⟩

end Supervision

/-- What the caller has been told is how the run has ended. -/
def Caller.Informed (r : Run) : Caller → Prop
  | .waiting => True
  | .woken outcome | .joining outcome | .stopping outcome _ =>
    r.isRunning = false ∧ outcome = r.outcome
  | .done result =>
    r.isRunning = false ∧ result.outcome = r.outcome ∧ result.info = r.watchdog.info

namespace Caller.Informed

variable {caller : Caller} {r r' : Run} {k : Nat}

theorem change (h : caller.Informed r) (hchange : r.Change Line k r') : caller.Informed r' := by
  have hkept : r.isRunning = false →
      r'.isRunning = false ∧ r'.outcome = r.outcome ∧ r'.watchdog = r.watchdog := by
    intro hend
    obtain ⟨houtcome, hwatchdog, -⟩ := hchange.frozen hend
    refine ⟨?_, houtcome, hwatchdog⟩
    rwa [Run.isRunning, houtcome]
  cases caller with
  | waiting => trivial
  | woken | joining | stopping =>
    obtain ⟨hend, houtcome⟩ := h
    obtain ⟨hend', hsame, -⟩ := hkept hend
    exact ⟨hend', houtcome.trans hsame.symm⟩
  | done result =>
    obtain ⟨hend, houtcome, hinfo⟩ := h
    obtain ⟨hend', hsame, hsame'⟩ := hkept hend
    exact ⟨hend', houtcome.trans hsame.symm, by rw [hinfo, hsame']⟩

/-- A caller learns of the end when there is one, and keeps that to the account. -/
theorem move {batch : Nat} {s s' : Supervision}
    (hhalted : s.session.run.halted = !s.session.run.isRunning)
    (h : s.caller.Informed s.session.run) (hmove : s.Move batch s') :
    s'.caller.Informed s'.session.run := by
  obtain ⟨k, hchange⟩ := hmove.change
  cases hmove with
  | wake hcaller hwait =>
    cases hsignal : s.session.run.halted with
    | false => simp [Run.waitOutcomes, hsignal] at hwait
    | true =>
      simp only [Run.waitOutcomes, hsignal, if_true, Bool.false_eq_true, if_false,
        List.append_nil, List.mem_singleton, Prod.mk.injEq, and_true] at hwait
      rw [hsignal, Bool.true_eq, Bool.not_eq_true'] at hhalted
      exact ⟨hhalted, hwait⟩
  | cancel hcaller | join hcaller _ | halt hcaller =>
    rw [hcaller] at h
    exact h
  | collect hcaller =>
    rw [hcaller] at h
    exact ⟨h.1, h.2, rfl⟩
  | feed | feedOver | reader | assembler | report | again | leave | enter | batchOver | begin | late
  | take | takeFailed | giveUp | copy | reset | giveBack | check | conclude | finish =>
    exact h.change hchange

end Caller.Informed

/-! ## Interruptions -/

/-- A supervised run whose caller may be interrupted from outside. -/
structure Interruptible where
  supervision : Supervision
  /-- The caller is interrupted. -/
  interrupted : Bool := false
  /-- What the wait for the end failed with. -/
  refusal : Option Error := none

namespace Interruptible

/-- What can happen: anything that happens without an interruption, the interruption, and
what loop and caller do about it. -/
inductive Move (batch : Nat) : Interruptible → Interruptible → Prop where
  | own {s t} (h : s.supervision.Move batch t) : Move batch s { s with supervision := t }
  | interrupt {s} :
      Move batch s
        { s with
          supervision := s.supervision.withDevice s.supervision.device.abandon
          interrupted := true }
  | leave {s} (hinterrupted : s.interrupted = true) (hloop : s.supervision.loop = .head) :
      Move batch s { s with supervision := { s.supervision with loop := .finishing } }
  | batchOver {s left} (hinterrupted : s.interrupted = true)
      (hloop : s.supervision.loop = .batch left) :
      Move batch s { s with supervision := { s.supervision with loop := .head } }
  | giveUp {s left} (hinterrupted : s.interrupted = true)
      (hloop : s.supervision.loop = .taking left) :
      Move batch s
        { s with supervision := { s.supervision with loop := .judging (.error .cancelled) left } }
  | conclude {s result left} (hinterrupted : s.interrupted = true)
      (hloop : s.supervision.loop = .judging result left) :
      Move batch s
        { s with
          supervision :=
            { s.supervision with
              session := s.supervision.session.conclude result true
              loop := .batch left } }
  | refuse {s outcome e} (hcaller : s.supervision.caller = .waiting)
      (hwait : (outcome, some e) ∈ s.supervision.session.run.waitOutcomes s.interrupted) :
      Move batch s
        { s with supervision := { s.supervision with caller := .woken outcome }, refusal := some e }

/-- Any number of moves, in any order. -/
abbrev Reach (batch : Nat) : Interruptible → Interruptible → Prop :=
  Relation.ReflTransGen (Move batch)

/-- What the caller hands out, when it has come to its end. -/
def returned (s : Interruptible) : Option (Except Error RunResult) :=
  match s.supervision.caller with
  | .done result =>
    match s.refusal with
    | some e => some (.error e)
    | none => some (.ok result)
  | _ => none

/-- The run is regular, and a caller that has been told of its end knows the outcome. -/
structure Inv (limit : UInt64) (cores : Nat) (s : Interruptible) : Prop where
  regular : s.supervision.session.run.Regular limit cores
  informed : s.refusal = none → s.supervision.caller.Informed s.supervision.session.run

variable {limit : UInt64} {cores batch : Nat} {s s' : Interruptible}

theorem Inv.move (inv : s.Inv limit cores) (hmove : s.Move batch s') : s'.Inv limit cores := by
  cases hmove with
  | own h =>
    obtain ⟨k, hchange⟩ := h.change
    exact ⟨inv.regular.change Line.trapState_bounds hchange,
      fun hnone => (inv.informed hnone).move inv.regular.halted_eq h⟩
  | conclude hinterrupted hloop =>
    obtain ⟨k, -, hchange⟩ := s.supervision.session.change_conclude _ true
    exact ⟨inv.regular.change Line.trapState_bounds hchange,
      fun hnone => (inv.informed hnone).change hchange⟩
  | refuse hcaller hwait => exact ⟨inv.regular, fun hnone => by cases hnone⟩
  | interrupt | leave | batchOver | giveUp => exact ⟨inv.regular, inv.informed⟩

theorem Inv.reach (inv : s.Inv limit cores) (hreach : Reach batch s s') : s'.Inv limit cores := by
  induction hreach with
  | refl => exact inv
  | tail _ hmove ih => exact ih.move hmove

/-- An account is one of a run that has ended. -/
theorem Inv.returned_consistent (inv : s.Inv limit cores) {result : RunResult}
    (hreturned : s.returned = some (.ok result)) :
    result.outcome.Consistent limit cores result.info ∧ result.outcome.status ≠ .running := by
  unfold returned at hreturned
  split at hreturned
  · rename_i account hcaller
    split at hreturned
    · cases hreturned
    · rename_i hnone
      cases hreturned
      have hinformed := inv.informed hnone
      rw [hcaller] at hinformed
      obtain ⟨hend, houtcome, hinfo⟩ := hinformed
      rw [houtcome, hinfo]
      refine ⟨inv.regular.consistent, fun hrunning => ?_⟩
      simp [Run.isRunning, hrunning] at hend
  · cases hreturned

end Interruptible

end Cosim
