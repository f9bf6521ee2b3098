import Cosim.Proofs.Sections

/-!
# Oracles with something beside them

To see what a session does with its oracle, the oracle is replaced by a twin, which behaves in the
same way and keeps something of its own beside it.

* `Oracle.Twin τ σ` says that `τ` is such a twin of `σ`.
* `Session.Mirrors` relates a session to one over a twin.  The calls of a session keep it.
* `Control.Mirrors.reach` says that every run has a twin.
-/

namespace Cosim

/-- An oracle over `τ` is an oracle over `σ` with something beside it.  Only what it notes in the
journal may differ. -/
class Oracle.Twin (τ : Type) (σ : outParam Type) [Oracle τ] [Oracle σ] where
  own : τ → σ
  /-- Exchange the oracle, and keep what is beside it. -/
  replace : τ → σ → τ
  own_replace : ∀ o inner, own (replace o inner) = inner
  own_begin : ∀ o, own (Oracle.begin o) = Oracle.begin (own o)
  poll_eq : ∀ o cancelled,
    (Oracle.poll o cancelled).map (fun answer => (own answer.oracle, answer.result)) =
      (Oracle.poll (own o) cancelled).map fun answer => (answer.oracle, answer.result)
  trapState_own : ∀ o, Oracle.trapState (own o) = Oracle.trapState o
  event_own : ∀ o core, Oracle.event (own o) core = Oracle.event o core
  own_display : ∀ o core, own (Oracle.display o core).1 = (Oracle.display (own o) core).1

open Oracle (Twin)

namespace Session

variable {τ σ : Type} [Oracle τ] [Oracle σ] [Twin τ σ]

/-- A session over a twin goes through the same run. -/
structure Mirrors (m : Session τ) (s : Session σ) : Prop where
  run_eq : m.run = s.run
  oracle_eq : Twin.own m.oracle = s.oracle

variable {m : Session τ} {s : Session σ}

namespace Mirrors

theorem log (h : m.Mirrors s) (entries entries' : Journal) :
    (m.log entries).Mirrors (s.log entries') := ⟨h.run_eq, h.oracle_eq⟩

theorem withRun (h : m.Mirrors s) (r : Run) : { m with run := r }.Mirrors { s with run := r } :=
  ⟨rfl, h.oracle_eq⟩

theorem foldl {α : Type} {f : Session τ → α → Session τ}
    {g : Session σ → α → Session σ} (hstep : ∀ m s a, Mirrors m s → (f m a).Mirrors (g s a))
    (h : m.Mirrors s) (l : List α) : (l.foldl f m).Mirrors (l.foldl g s) := by
  induction l generalizing m s with
  | nil => exact h
  | cons a l ih => exact ih (hstep m s a h)

theorem transition (h : m.Mirrors s) (status : RunStatus) (code : Int) (cause : Cause)
    (failure : Option Error) :
    (m.transition status code cause failure).Mirrors (s.transition status code cause failure) := by
  refine ⟨?_, by rw [oracle_transition, oracle_transition, h.oracle_eq]⟩
  cases hrun : s.run.isRunning with
  | true => rw [run_transition hrun, run_transition (h.run_eq ▸ hrun), h.run_eq]
  | false => rw [transition_of_ended hrun, transition_of_ended (h.run_eq ▸ hrun), h.run_eq]

theorem abort (h : m.Mirrors s) (e : Error) : (m.abort e).Mirrors (s.abort e) := h.transition ..

theorem setFinal (h : m.Mirrors s) (core : Nat) (event : TrapEvent) :
    (m.setFinal core event).Mirrors (s.setFinal core event) :=
  ⟨by simp only [Session.setFinal, h.run_eq], h.oracle_eq⟩

theorem traced (h : m.Mirrors s) (f : Trace → Trace) : (m.traced f).Mirrors (s.traced f) :=
  ⟨by simp only [Session.traced, h.run_eq], h.oracle_eq⟩

theorem trapState_eq (h : m.Mirrors s) : Oracle.trapState m.oracle = Oracle.trapState s.oracle := by
  rw [← h.oracle_eq, Twin.trapState_own]

theorem event_eq (h : m.Mirrors s) (core : Nat) :
    Oracle.event m.oracle core = Oracle.event s.oracle core := by
  rw [← h.oracle_eq, Twin.event_own]

theorem present (h : m.Mirrors s) (core : Nat) : (m.present core).Mirrors (s.present core) := by
  refine ⟨h.run_eq, (Twin.own_display m.oracle core).trans ?_⟩
  rw [h.oracle_eq]
  rfl

theorem launch (h : m.Mirrors s) : m.launch.Mirrors s.launch := by
  refine ⟨h.run_eq, (Twin.own_begin m.oracle).trans ?_⟩
  rw [h.oracle_eq]
  rfl

theorem replace (h : m.Mirrors s) (oracle : σ) :
    { m with oracle := Twin.replace m.oracle oracle }.Mirrors { s with oracle } :=
  ⟨h.run_eq, Twin.own_replace m.oracle oracle⟩

/-- The twin is answered when the oracle is. -/
theorem poll_eq_none (h : m.Mirrors s) {cancelled : Bool}
    (hpoll : Oracle.poll s.oracle cancelled = none) : Oracle.poll m.oracle cancelled = none := by
  have hsame := Twin.poll_eq m.oracle cancelled
  rw [h.oracle_eq, hpoll] at hsame
  exact Option.map_eq_none_iff.mp hsame

theorem poll_eq_some (h : m.Mirrors s) {cancelled : Bool} {answer : Answer σ}
    (hpoll : Oracle.poll s.oracle cancelled = some answer) :
    ∃ twin, Oracle.poll m.oracle cancelled = some twin ∧ Twin.own twin.oracle = answer.oracle ∧
      twin.result = answer.result := by
  have hsame := Twin.poll_eq m.oracle cancelled
  rw [h.oracle_eq, hpoll] at hsame
  obtain ⟨twin, hpoll', hpair⟩ := Option.map_eq_some_iff.mp hsame
  exact ⟨twin, hpoll', Prod.ext_iff.mp hpair⟩

theorem dump (h : m.Mirrors s) : m.dump.Mirrors s.dump := by
  unfold Session.dump
  rw [h.run_eq]
  split
  · exact h
  · refine foldl (fun m s core h => ?_) (h.withRun _) _
    rw [h.event_eq]
    exact (h.setFinal core _).present core

theorem finish (h : m.Mirrors s) : m.finish.Mirrors s.finish := by
  unfold Session.finish
  rw [h.run_eq]
  split
  · exact h
  · exact h.dump

theorem noteTrap (h : m.Mirrors s) (code : Int) (core : Nat) :
    (m.noteTrap code core).Mirrors (s.noteTrap code core) := by
  unfold Session.noteTrap
  rw [h.event_eq, h.run_eq]
  exact (((h.setFinal core _).log _ _).traced _).present core

theorem endByTrap (h : m.Mirrors s) (code : Int) :
    (m.endByTrap code).Mirrors (s.endByTrap code) := by
  have hnoted := foldl (fun m s core h => noteTrap h code core)
    (h.withRun { s.run with dumped := true }) (List.range s.run.cores)
  unfold Session.endByTrap
  dsimp only
  rw [h.run_eq]
  split
  · exact hnoted.transition ..
  · exact hnoted.transition ..

theorem noteTrip (h : m.Mirrors s) (trip : Trip) : (m.noteTrip trip).Mirrors (s.noteTrip trip) := by
  unfold Session.noteTrip
  rw [h.run_eq]
  exact (((h.setFinal trip.core _).log _ _).traced _).present trip.core

theorem watch (h : m.Mirrors s) : m.watch.Mirrors s.watch := by
  unfold Session.watch
  simp only [h.run_eq, h.event_eq]
  split
  · have hnoted := foldl (fun m s trip h => noteTrip h trip)
      (h.withRun { s.run with
        watchdog := (s.run.watchdog.check fun core => .ok (Oracle.event s.oracle core)).watchdog })
      (s.run.watchdog.check fun core => .ok (Oracle.event s.oracle core)).trips
    rw [hnoted.run_eq]
    split
    · exact (hnoted.withRun _).transition ..
    · exact hnoted
  · exact h

theorem conclude (h : m.Mirrors s) (result : Except Error Bool) (cancelled : Bool) :
    (m.conclude result cancelled).Mirrors (s.conclude result cancelled) := by
  unfold Session.conclude
  rw [h.run_eq]
  split
  · exact h.dump
  · cases result with
    | error e =>
      dsimp only
      split
      · exact h
      · exact (h.transition ..).dump
    | ok differs =>
      dsimp only
      rw [h.trapState_eq]
      have hcounted := h.withRun s.run.count
      split
      · exact (hcounted.transition ..).dump
      · split
        · exact hcounted.endByTrap _
        · exact hcounted.watch

end Mirrors

end Session

namespace Control

variable {τ σ : Type} [Oracle τ] [Oracle σ] [Twin τ σ] {m : Control τ} {c c' : Control σ}

/-- A control over a twin is at the same place. -/
structure Mirrors (m : Control τ) (c : Control σ) : Prop where
  session : m.session.Mirrors c.session
  position_eq : m.position = c.position
  calls_eq : m.calls = c.calls

/-- Every move has a twin. -/
theorem Mirrors.move (h : m.Mirrors c) (hmove : Move c c') : ∃ m', Move m m' ∧ m'.Mirrors c' := by
  have hrun := h.session.run_eq
  cases hmove with
  | enter hpos hgoing =>
    exact ⟨_, .enter (h.position_eq.trans hpos) (hrun ▸ hgoing), h.session, rfl, h.calls_eq⟩
  | enterLate hpos hend =>
    exact ⟨_, .enterLate (h.position_eq.trans hpos) (hrun ▸ hend), h.session.dump, h.position_eq,
      h.calls_eq⟩
  | begin hpos =>
    exact ⟨_, .begin (h.position_eq.trans hpos), h.session.launch, rfl, congrArg (· + 1) h.calls_eq⟩
  | @answer given cancelled hpos hpoll =>
    obtain ⟨twin, htwin, hown, hresult⟩ := h.session.poll_eq_some hpoll
    rw [← hrun] at htwin
    exact ⟨_, .answer cancelled (h.position_eq.trans hpos) htwin, ⟨hrun, hown⟩,
      congrArg Position.answered hresult, h.calls_eq⟩
  | conclude cancelled hpos =>
    exact ⟨_, .conclude cancelled (h.position_eq.trans hpos), h.session.conclude _ cancelled, rfl,
      h.calls_eq⟩
  | finish hpos =>
    exact ⟨_, .finish (h.position_eq.trans hpos), h.session.finish, h.position_eq, h.calls_eq⟩
  | abort e => exact ⟨_, .abort e, h.session.abort e, h.position_eq, h.calls_eq⟩
  | work oracle =>
    exact ⟨_, .work (Twin.replace m.session.oracle oracle), h.session.replace oracle, h.position_eq,
      h.calls_eq⟩

theorem Mirrors.reach (h : m.Mirrors c) (hreach : Reach c c') :
    ∃ m', Reach m m' ∧ m'.Mirrors c' := by
  induction hreach with
  | refl => exact ⟨m, .refl, h⟩
  | tail _ hmove ih =>
    obtain ⟨t, hreach, ht⟩ := ih
    obtain ⟨u, hmove', hu⟩ := ht.move hmove
    exact ⟨u, hreach.tail hmove', hu⟩

end Control

end Cosim
