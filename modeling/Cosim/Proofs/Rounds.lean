import Cosim.Proofs.Sections
import Cosim.Supervisor

/-!
# The rounds of a supervised run

`Supervisor.run` lets the workers run until both wait, lets the loop go on as far as there
are snapshots, and repeats that for a number of rounds that it fixes beforehand.

* `Rounds` says what these rounds rest on.  A run that goes on is further with every answer,
  there is an answer when the workers wait, and the run cannot be further than a bound.
* `Rounds.fly` says what becomes of the steps in flight, `Rounds.settle_go` that they all
  come to an end, and `Rounds.drive` that the run does.
* `Rounds.complete` says so of a whole run.
-/

namespace Cosim

theorem Session.isRunning_abort {σ : Type} (s : Session σ) (e : Error) :
    (s.abort e).run.isRunning = false := by
  cases hrun : s.run.isRunning with
  | true =>
    rw [abort, run_transition hrun]
    rfl
  | false => rw [abort, transition_of_ended hrun, hrun]

namespace Line

variable {l : Line} {x x' : Exchange} {t : Ticket}

/-! ## What a step in flight is told -/

theorem poll_of_none (htake : l.device.exchange.take = none) : Oracle.poll l false = none := by
  simp [Oracle.poll, poll, Checker.step, htake]

theorem poll_of_sealed (htake : l.device.exchange.take = some (.error .exchangeSealed, x))
    (cancelled : Bool) :
    Oracle.poll l cancelled = some
      { oracle := { l with device := { l.device with exchange := x } }
        result := .error (.streamEnded l.checker.steps) } := by
  simp only [Oracle.poll, poll, Checker.step, htake]

/-- A snapshot that can be given back is taken in. -/
theorem poll_of_taken (htake : l.device.exchange.take = some (.ok t, x))
    (hback : (x.reset t).giveBack t = .done x') (cancelled : Bool) :
    Oracle.poll l cancelled = some
      { oracle :=
          { device := { l.device with exchange := x' }
            checker := (l.checker.accept (x.snapshot t)).1 }
        result := .ok (l.checker.accept (x.snapshot t)).2.1
        notes := (l.checker.accept (x.snapshot t)).2.2 } := by
  simp only [Oracle.poll, poll, Checker.step, htake, hback]

/-- Who has given up is told at once. -/
theorem exists_poll (l : Line) : ∃ answer, Oracle.poll l true = some answer := by
  simp only [Oracle.poll, poll]
  split
  · exact ⟨_, rfl⟩
  · exact ⟨_, rfl⟩

end Line

namespace Pipeline

/-! ## Complaints of the workers -/

/-- Of the complaints that settled workers have, the first ends the run. -/
theorem settleDevice_eq (p : Pipeline) :
    p.device.settle.failures = [] ∧ p.settleDevice = p.withDevice p.device.settle ∨
      ∃ e, p.settleDevice = (p.withDevice { p.device.settle with failures := [] }).abort e := by
  have hlater : ∀ (e : Error) (errors : List Error) (q : Pipeline),
      errors.foldl Stepper.abort (q.abort e) = q.abort e := by
    intro e errors q
    induction errors with
    | nil => rfl
    | cons e' errors ih =>
      have hsame : (q.abort e).abort e' = q.abort e := by
        simp only [Stepper.abort]
        rw [Session.abort, Session.transition_of_ended (q.session.isRunning_abort e)]
      rw [List.foldl_cons, hsame, ih]
  cases hfailures : p.device.settle.failures with
  | nil =>
    refine .inl ⟨rfl, ?_⟩
    simp only [settleDevice, hfailures, List.foldl_nil]
    rw [← hfailures]
  | cons e errors =>
    refine .inr ⟨e, ?_⟩
    simp only [settleDevice, hfailures]
    exact hlater e errors _

theorem flight_settleDevice (p : Pipeline) : p.settleDevice.flight = p.flight := by
  rcases p.settleDevice_eq with ⟨-, hsame⟩ | ⟨e, hsame⟩
  · rw [hsame]
    rfl
  · rw [hsame]
    rfl

end Pipeline

namespace Supervisor

variable {bound k left : Nat} {Stands : Nat → Session Line → Prop} {session : Session Line}
  {p : Pipeline}

/-- `Stands k session` says how far a run is: it has ended, or it is `k` steps on. -/
structure Rounds (bound : Nat) (Stands : Nat → Session Line → Prop) : Prop where
  mono : ∀ {k k' : Nat} {session : Session Line}, Stands k' session → k ≤ k' → Stands k session
  halted_eq : ∀ {k : Nat} {session : Session Line}, Stands k session →
    session.run.halted = !session.run.isRunning
  le_bound : ∀ {k : Nat} {session : Session Line}, Stands k session →
    session.run.isRunning = true → k ≤ bound
  /-- A run that has ended is as far as one likes, and its statistics may be shown. -/
  late : ∀ {k : Nat} {session : Session Line}, Stands k session → session.run.isRunning = false →
    ∀ (k' : Nat) (t : Session Line), t.run = session.run → Stands k' t ∧ Stands k' t.dump
  /-- A step in flight waits for a snapshot, or takes the run further. -/
  poll : ∀ {k : Nat} {session : Session Line}, Stands k session → session.run.isRunning = true →
    (Oracle.poll session.oracle false = none ∧ session.oracle.device.exchange.take = none) ∨
      ∃ answer, Oracle.poll session.oracle false = some answer ∧
        Stands (k + 1) (({ session with oracle := answer.oracle }.log answer.notes).conclude
          answer.result false)
  /-- Workers that wait leave something to take. -/
  settle : ∀ {k : Nat} {p : Pipeline}, Stands k p.session →
    Stands k p.settleDevice.session ∧ (p.settleDevice.session.run.isRunning = true →
      ∃ taken, p.settleDevice.device.exchange.take = some taken)

/-- What becomes of the step in flight and the `left` steps after it. -/
inductive Flown (Stands : Nat → Session Line → Prop) (k left : Nat) (session : Session Line) :
    Session Line × Option Nat → Prop where
  /-- A step has to wait for a snapshot. -/
  | waits {session' : Session Line} {left' : Nat} (hs : Stands k session')
      (hrun : session'.run.isRunning = true) (htake : session'.oracle.device.exchange.take = none)
      (hleft : left' < left ∨ left' = left ∧ session' = session) :
      Flown Stands k left session (session', some left')
  /-- All of them have been taken, or one has ended the run. -/
  | lands {session' : Session Line} (hs : Stands (k + 1) session') :
      Flown Stands k left session (session', none)

/-- Nothing is in flight. -/
def Landed (Stands : Nat → Session Line → Prop) (k : Nat) (p : Pipeline) : Prop :=
  p.flight = none ∧ Stands k p.session

namespace Rounds

/-- A step in flight does not wait for anything once the run has ended. -/
theorem answers (hr : Rounds bound Stands) (hs : Stands k session) :
    (Oracle.poll session.oracle session.run.halted = none ∧ session.run.isRunning = true ∧
        session.oracle.device.exchange.take = none) ∨
      ∃ answer, Oracle.poll session.oracle session.run.halted = some answer ∧
        Stands (k + 1) (({ session with oracle := answer.oracle }.log answer.notes).conclude
          answer.result false) := by
  rw [hr.halted_eq hs]
  cases hrun : session.run.isRunning with
  | true =>
    rcases hr.poll hs hrun with ⟨hwaits, htake⟩ | hanswer
    · exact .inl ⟨hwaits, rfl, htake⟩
    · exact .inr hanswer
  | false =>
    obtain ⟨answer, hpoll⟩ := session.oracle.exists_poll
    obtain ⟨-, hdumped⟩ :=
      hr.late hs hrun (k + 1) ({ session with oracle := answer.oracle }.log answer.notes) rfl
    refine .inr ⟨answer, hpoll, ?_⟩
    rw [Session.conclude_of_ended]
    · exact hdumped
    · exact hrun

/-- A flight that follows a step is a flight with that step. -/
theorem after_step (hr : Rounds bound Stands) {session₁ : Session Line}
    {flown : Session Line × Option Nat} (hf : Flown Stands (k + 1) left session₁ flown) :
    Flown Stands k (left + 1) session flown := by
  cases hf with
  | waits hs hrun htake hleft =>
    exact .waits (hr.mono hs (by omega)) hrun htake (.inl (by omega))
  | lands hs => exact .lands (hr.mono hs (by omega))

/-- Steps in flight go on until one has to wait, ends the run, or was the last. -/
theorem fly (hr : Rounds bound Stands) (hs : Stands k session) :
    Flown Stands k left session (session.fly false left) := by
  induction left generalizing k session with
  | zero =>
    rw [Session.fly, Bool.false_or]
    rcases hr.answers hs with ⟨hwaits, hrun, htake⟩ | ⟨answer, hpoll, hnext⟩
    · simp only [hwaits]
      exact .waits hs hrun htake (.inr ⟨rfl, rfl⟩)
    · simp only [hpoll]
      exact .lands hnext
  | succ left ih =>
    rw [Session.fly, Bool.false_or]
    rcases hr.answers hs with ⟨hwaits, hrun, htake⟩ | ⟨answer, hpoll, hnext⟩
    · simp only [hwaits]
      exact .waits hs hrun htake (.inr ⟨rfl, rfl⟩)
    · simp only [hpoll, Bool.not_false, Bool.and_true]
      split
      · have hlaunched : Stands (k + 1) (Session.launch _) := hnext
        exact hr.after_step (ih hlaunched)
      · exact .lands hnext

/-! ## Settling -/

/-- Where nothing is in flight, only the workers go on. -/
theorem settle_landed (hr : Rounds bound Stands) (hp : Landed Stands k p) (fuel : Nat) :
    Landed Stands k (Pipeline.settle.go fuel p) := by
  cases fuel with
  | zero => exact hp
  | succ fuel =>
    obtain ⟨hflight, hs⟩ := hp
    have hnone : p.settleDevice.flight = none := p.flight_settleDevice.trans hflight
    have hresume : p.settleDevice.resume = p.settleDevice := by simp only [Stepper.resume, hnone]
    simp only [Pipeline.settle.go, hresume, Nat.lt_irrefl, if_false]
    exact ⟨hnone, (hr.settle hs).1⟩

/-- Steps in flight come to their end, at least one of them with an answer. -/
theorem settle_go (hr : Rounds bound Stands) {fuel : Nat} (hs : Stands k p.session)
    (hflight : p.flight = some { left, cancelled := false }) (hfuel : left < fuel) :
    Landed Stands (k + 1) (Pipeline.settle.go fuel p) := by
  induction fuel generalizing p left with
  | zero => omega
  | succ fuel ih =>
    obtain ⟨hs', htakes⟩ := hr.settle hs
    have hflight' := p.flight_settleDevice.trans hflight
    simp only [Pipeline.settle.go]
    generalize p.settleDevice = q at *
    have hwanted : q.wanted = left + 1 := by simp only [Stepper.wanted, hflight']
    have hresume : q.resume = Stepper.landed false (q.session.fly false left) := by
      simp only [Stepper.resume, hflight']
    have hflown : Flown Stands k left q.session (q.session.fly false left) := hr.fly hs'
    rw [hresume, hwanted]
    generalize q.session.fly false left = flown at hflown
    cases hflown with
    | @waits session' left' hwaits hrun htake hleft =>
      rcases hleft with hless | ⟨rfl, rfl⟩
      · have hshort : (Stepper.landed false (session', some left')).wanted < left + 1 := by
          simp only [Stepper.landed, Stepper.wanted, Option.map_some]
          omega
        rw [if_pos hshort]
        exact ih (p := Stepper.landed false (session', some left')) hwaits rfl (by omega)
      · -- The workers wait, so the loop would have got an answer.
        obtain ⟨taken, hanswer⟩ := htakes hrun
        have : some taken = none := hanswer.symm.trans htake
        cases this
    | @lands session' hlands =>
      have hshort : (Stepper.landed false (session', none)).wanted < left + 1 := Nat.succ_pos left
      rw [if_pos hshort]
      exact hr.settle_landed (p := Stepper.landed false (session', none)) ⟨rfl, hlands⟩ fuel

/-- A batch of steps, settled, has taken the run further or ended it. -/
theorem settle_steps (hr : Rounds bound Stands) {batch : Int} (hs : Stands k p.session)
    (hrun : p.session.run.isRunning = true) (hbatch : 1 ≤ batch) :
    Landed Stands (k + 1) (Pipeline.settle (p.steps batch false)) := by
  have hflown : Flown Stands k (batch.toNat - 1) p.session
      (p.session.fly false (batch.toNat - 1)) := hr.fly hs
  have hsteps : p.session.steps batch false = p.session.fly false (batch.toNat - 1) := by
    have hpos : (0 < batch) = True := by simp; omega
    simp only [Session.steps, hpos, hrun, decide_true, Bool.not_false, Bool.and_true, if_true]
    rfl
  rw [Stepper.steps, hsteps, Pipeline.settle]
  generalize p.session.fly false (batch.toNat - 1) = flown at hflown
  cases hflown with
  | @waits session' left' hwaits _ _ _ =>
    refine hr.settle_go (p := Stepper.landed false (session', some left')) hwaits rfl ?_
    simp only [Stepper.landed, Stepper.wanted, Option.map_some]
    omega
  | @lands session' hlands =>
    exact hr.settle_landed (p := Stepper.landed false (session', none)) ⟨rfl, hlands⟩ _

/-! ## Driving -/

/-- Stepping ends the run, given more turns than it can go on for. -/
theorem drive (hr : Rounds bound Stands) {batch : Int} (hbatch : 1 ≤ batch) {fuel : Nat}
    (hp : Landed Stands k p) (hfuel : bound < k + fuel) :
    Landed Stands k (Supervisor.drive batch fuel p) ∧
      (Supervisor.drive batch fuel p).session.run.isRunning = false := by
  induction fuel generalizing k p with
  | zero =>
    refine ⟨hp, Bool.eq_false_iff.mpr fun hrun => ?_⟩
    have hle := hr.le_bound hp.2 hrun
    omega
  | succ fuel ih =>
    cases hrun : p.session.run.isRunning with
    | false =>
      rw [Supervisor.drive, if_neg (by simp [hrun])]
      exact ⟨hp, hrun⟩
    | true =>
      simp only [Supervisor.drive, hrun, if_true]
      obtain ⟨⟨hflight, hs⟩, hend⟩ := ih (hr.settle_steps hp.2 hrun hbatch) (by omega)
      exact ⟨⟨hflight, hr.mono hs (by omega)⟩, hend⟩

/-- The account of a whole run is that of a run that has ended. -/
theorem complete (hr : Rounds bound Stands) {batch : Int} (hbatch : 1 ≤ batch)
    (hflight : p.flight = none) (hs : Stands 0 (p.withDevice p.device.start).session)
    (hfuel : bound < patience p) :
    ∃ q : Pipeline, Supervisor.complete p batch = account q ∧ Stands 0 q.session ∧
      q.session.run.isRunning = false := by
  have hstart : Landed Stands 0 (p.withDevice p.device.start) := ⟨hflight, hs⟩
  have hsettled : Landed Stands 0 (p.withDevice p.device.start).settle := hr.settle_landed hstart _
  obtain ⟨⟨hnone, hdriven⟩, hend⟩ := hr.drive hbatch hsettled
    (show bound < 0 + patience p by omega)
  simp only [Supervisor.complete]
  generalize Supervisor.drive batch _ _ = q at hnone hdriven hend ⊢
  have hfinish : q.session.finish = q.session.dump := by simp [Session.finish, hend]
  have hover : q.session.dump.run.isRunning = false :=
    (Session.goesOn_of_decided q.session.decided_dump).isRunning_eq.trans hend
  -- Stopping the device cannot set the run going again.
  have hstopped : ∀ d : Device, Landed Stands (bound + 1)
      (Pipeline.withDevice { q with session := q.session.finish } d).settle := by
    intro d
    refine hr.settle_landed ?_ _
    rw [hfinish]
    obtain ⟨-, hdumped⟩ := hr.late hdriven hend 0 q.session rfl
    exact ⟨hnone, (hr.late hdumped hover (bound + 1)
      (Pipeline.withDevice { q with session := q.session.dump } d).session rfl).1⟩
  refine ⟨_, rfl, hr.mono (hstopped _).2 (Nat.zero_le _), Bool.eq_false_iff.mpr fun hrun => ?_⟩
  have hle := hr.le_bound (hstopped _).2 hrun
  omega

end Rounds

end Supervisor

end Cosim
