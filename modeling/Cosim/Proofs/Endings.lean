import Cosim.Proofs.Sections
import Cosim.Proofs.Watchdog

/-!
# How a run can stand

Status, cause, trap code and error of a run are set together, in a few places.  This file
says which combinations there are and what they mean for the exit code.

* `Outcome.Regular` lists the six combinations.
* `Run.Regular` adds what ties the outcome to the watchdog: the ceiling is the cause
  exactly when all cores are flagged.
* `Run.Regular.change` is the step lemma: critical sections keep a run regular.
-/

namespace Cosim

/-! ## Outcomes -/

/-- The combinations of status, trap code, cause and error. -/
inductive Outcome.Regular : Outcome → Prop where
  | running (steps : UInt64) :
      Regular { status := .running, trapCode := -1, cause := none, failure := none, steps }
  | goodTrap (steps : UInt64) :
      Regular { status := .done, trapCode := 0, cause := some .goodTrap, failure := none, steps }
  | instrLimit (steps : UInt64) :
      Regular { status := .done, trapCode := -1, cause := some .instrLimit, failure := none, steps }
  | trapCode (code : Int) (steps : UInt64) (hlow : 1 ≤ code) (hhigh : code ≤ 255) :
      Regular
        { status := .failed, trapCode := code, cause := some .trapCode
          failure := some (.trapCode code), steps }
  | mismatch (steps : UInt64) :
      Regular
        { status := .failed, trapCode := -1, cause := some .mismatch
          failure := some (.mismatch steps), steps }
  | fatal (step : Option UInt64) (e : Error) (steps : UInt64) :
      Regular
        { status := .failed, trapCode := -1, cause := some .fatal
          failure := some (.fatal step e), steps }

namespace Outcome.Regular

variable {o : Outcome}

/-- While the run goes on only the number of steps is known. -/
theorem undecided (h : o.Regular) (hrun : o.status = .running) : o = { steps := o.steps } := by
  cases h with
  | running steps => rfl
  | goodTrap | instrLimit | trapCode | mismatch | fatal => cases hrun

/-- The exit code is zero unless the run failed, and tells the trap code of one that failed by
a trap. -/
theorem exitCode_eq (h : o.Regular) :
    o.exitCode =
      if o.status = .failed then if o.cause = some .trapCode then min (o.trapCode + 1) 255 else 1
      else 0 := by
  cases h with
  | running | goodTrap | instrLimit | mismatch | fatal => rfl
  | trapCode code steps hlow hhigh =>
    -- The code and its successor are far from the ends of the 64-bit integers.
    have hsmall : (code + 1).bmod (Nat.pow 2 64) = code + 1 := by
      rw [show Nat.pow 2 64 = 18446744073709551616 from rfl]
      exact Int.bmod_eq_of_le (by omega) (by omega)
    simp only [Outcome.exitCode, hsmall, if_true]
    rw [if_pos (by omega)]

theorem exitCode_eq_zero_iff (h : o.Regular) : o.exitCode = 0 ↔ o.status ≠ .failed := by
  rw [h.exitCode_eq]
  cases h with
  | running | goodTrap | instrLimit | mismatch | fatal => simp
  | trapCode code steps hlow hhigh => simp; omega

theorem failed_of_trapCode (h : o.Regular) (hcause : o.cause = some .trapCode) :
    o.status = .failed := by
  cases h with
  | trapCode => rfl
  | running | goodTrap | instrLimit | mismatch | fatal => cases hcause

end Outcome.Regular

/-! ## Runs -/

/-- The outcome of the run is one of the known ones, whoever waits has been told of the end,
and the ceiling is the cause of the end exactly when every core has crossed it. -/
structure Run.Regular (limit : UInt64) (cores : Nat) (r : Run) : Prop where
  outcome : r.outcome.Regular
  halted_eq : r.halted = !r.isRunning
  limit_eq : r.watchdog.limit = limit
  cores_eq : r.watchdog.cores = cores
  tallied : r.watchdog.Tallied
  limited_iff : r.outcome.cause = some .instrLimit ↔ r.watchdog.allTrapped = true

namespace Run

variable {σ : Type} [Oracle σ] {r r' : Run} {limit : UInt64} {cores k : Nat}

/-- A run that has ended keeps its end. -/
theorem Change.frozen (h : r.Change σ k r') (hend : r.isRunning = false) :
    r'.outcome = r.outcome ∧ r'.watchdog = r.watchdog ∧ r'.halted = r.halted := by
  cases h with
  | rest => exact ⟨rfl, rfl, rfl⟩
  | shown => exact ⟨rfl, rfl, rfl⟩
  | aborted _ hrun | failed _ _ hrun | mismatched _ hrun | trapped _ _ hrun | passed hrun
  | watched _ hrun | limited _ hrun => simp [hend] at hrun

namespace Regular

theorem undecided (h : r.Regular limit cores) (hrun : r.isRunning = true) :
    r.outcome = { steps := r.outcome.steps } ∧ r.watchdog.allTrapped = false := by
  have hundecided := h.outcome.undecided (status_of_isRunning hrun)
  refine ⟨hundecided, Bool.eq_false_iff.mpr fun hall => ?_⟩
  have hcause := h.limited_iff.mpr hall
  rw [hundecided] at hcause
  cases hcause

/-- Being regular is about the outcome, the signal and the watchdog. -/
theorem congr (h : r.Regular limit cores) (houtcome : r'.outcome = r.outcome)
    (hhalted : r'.halted = r.halted) (hwatchdog : r'.watchdog = r.watchdog) :
    r'.Regular limit cores where
  outcome := houtcome ▸ h.outcome
  halted_eq := by rw [hhalted, h.halted_eq, isRunning, isRunning, houtcome]
  limit_eq := hwatchdog ▸ h.limit_eq
  cores_eq := hwatchdog ▸ h.cores_eq
  tallied := hwatchdog ▸ h.tallied
  limited_iff := by rw [houtcome, hwatchdog, h.limited_iff]

theorem count (h : r.Regular limit cores) (hrun : r.isRunning = true) :
    r.count.Regular limit cores where
  outcome := by
    rw [Run.count, (h.undecided hrun).1]
    exact .running _
  halted_eq := h.halted_eq
  limit_eq := h.limit_eq
  cores_eq := h.cores_eq
  tallied := h.tallied
  limited_iff := h.limited_iff

/-- An end with another cause than the ceiling, while some core is below it. -/
theorem close (h : r.Regular limit cores) (hrun : r.isRunning = true) {status : RunStatus}
    {code : Int} {cause : Cause} {failure : Option Error} (hcause : cause ≠ .instrLimit)
    (hstatus : status ≠ .running)
    (houtcome : Outcome.Regular
      { status, trapCode := code, cause := some cause, failure, steps := r.outcome.steps }) :
    (r.close status code cause failure).Regular limit cores where
  outcome := houtcome
  halted_eq := by
    rw [isRunning_close hstatus]
    rfl
  limit_eq := h.limit_eq
  cores_eq := h.cores_eq
  tallied := h.tallied
  limited_iff := by simp [Run.close, hcause, (h.undecided hrun).2]

/-- What a trap can make of the run, if trap codes are bytes. -/
theorem closeByTrap (h : r.Regular limit cores) (hrun : r.isRunning = true) {code : Int}
    (hcode : code ≠ trapRunning) (hlow : -1 ≤ code) (hhigh : code ≤ 255) :
    (r.closeByTrap code).Regular limit cores := by
  unfold Run.closeByTrap
  split
  · rename_i hgood
    subst hgood
    exact h.close hrun (by simp) (by simp) (.goodTrap _)
  · rename_i hbad
    unfold trapGood at hbad
    unfold trapRunning at hcode
    exact h.close hrun (by simp) (by simp) (.trapCode code _ (by omega) hhigh)

/-- A check that leaves some core below the ceiling. -/
theorem noteTrips (h : r.Regular limit cores) (hrun : r.isRunning = true)
    (hon : r.watchdog.enabled = true) {events : Nat → Except Fault TrapEvent}
    (hsome : (r.watchdog.check events).watchdog.allTrapped = false) :
    (r.noteTrips (r.watchdog.check events)).Regular limit cores where
  outcome := h.outcome
  halted_eq := h.halted_eq
  limit_eq := (Watchdog.limit_check hon).1.trans h.limit_eq
  cores_eq := (Watchdog.limit_check hon).2.trans h.cores_eq
  tallied := h.tallied.check hon
  limited_iff := by
    have hcause : r.outcome.cause = none := by rw [(h.undecided hrun).1]
    simp [Run.noteTrips, hcause, hsome]

/-- Critical sections keep a run regular, if trap codes are bytes. -/
theorem change (hstate : ∀ o : σ, -1 ≤ Oracle.trapState o ∧ Oracle.trapState o ≤ 255)
    (h : r.Regular limit cores) (hchange : r.Change σ k r') : r'.Regular limit cores := by
  cases hchange with
  | rest => exact h
  | shown final hend hfresh hsize => exact h.congr rfl rfl rfl
  | aborted e hrun => exact h.close hrun (by simp) (by simp) (.fatal none e _)
  | failed e final hrun hsize =>
    exact (h.close hrun (by simp) (by simp) (.fatal (some (r.outcome.steps + 1)) e _)).congr
      rfl rfl rfl
  | mismatched final hrun hsize =>
    exact ((h.count hrun).close hrun (by simp) (by simp) (.mismatch _)).congr rfl rfl rfl
  | trapped oracle events hrun hcode hlength =>
    obtain ⟨hlow, hhigh⟩ := hstate oracle
    have hnoted : (r.count.noteTraps (Oracle.trapState oracle) events).Regular limit cores :=
      (h.count hrun).congr rfl rfl rfl
    exact hnoted.closeByTrap hrun hcode hlow hhigh
  | passed hrun hoff => exact h.count hrun
  | watched event hrun hon hsome => exact (h.count hrun).noteTrips hrun hon hsome
  | limited event hrun hon hall =>
    refine ⟨.instrLimit _, rfl, ?_, ?_, h.tallied.check hon, ?_⟩
    · exact (Watchdog.limit_check hon).1.trans h.limit_eq
    · exact (Watchdog.limit_check hon).2.trans h.cores_eq
    · exact iff_of_true rfl hall

end Regular

/-- A run begins with nothing decided and no core flagged. -/
theorem regular_create {cores : Int} {trace : Option Trace}
    (hcreate : Run.create limit cores trace = .ok r) : r.Regular limit cores.toNat := by
  obtain ⟨w, hw, rfl⟩ := Run.create_eq_ok hcreate
  obtain ⟨htallied, hlimit, hpos, hcores, -, hfree⟩ := Watchdog.tallied_create hw
  refine ⟨.running 0, rfl, hlimit, hcores, htallied, iff_of_false (by simp) fun hall => ?_⟩
  have hfirst := ((Watchdog.allTrapped_iff htallied).mp hall).2 0 (by omega)
  simp [hfree] at hfirst

/-- The ceiling is the cause of the end exactly when there is one and every core has
crossed it. -/
theorem Regular.cause_eq_instrLimit_iff (h : r.Regular limit cores) :
    r.outcome.cause = some .instrLimit ↔
      limit ≠ 0 ∧ ∀ core < cores, r.watchdog.isTrapped core = true := by
  rw [h.limited_iff, Watchdog.allTrapped_iff h.tallied, h.cores_eq, Watchdog.enabled, h.limit_eq]
  simp

end Run

end Cosim
