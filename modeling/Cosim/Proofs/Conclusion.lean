import Cosim.Proofs.Accounts
import Cosim.Proofs.Completion

/-!
# A run over a stream that ends comes to its end

Whatever the stream holds, well-formed or not, the rounds of `Supervisor.run` are enough if
the stream ends: each of them takes a snapshot, and there are no more snapshots than records.

* `Session.oracle_conclude` and `Session.ended_of_error` say what drawing consequences
  leaves alone, and that an error ends the run.
* `Supervisor.Stands` says that the run has ended or that so many snapshots have been
  taken, and `Supervisor.rounds` that the rounds of `run` rest on it.
* `Supervisor.complete_ended` is the result, and `Supervisor.outcomes_consistent` collects
  what holds of every outcome, in whatever way the run is driven.
-/

namespace Cosim

namespace Session

variable {σ : Type} {s : Session σ}

variable [Oracle σ]

section Showing

variable (hshow : ∀ (o : σ) (core : Nat), (Oracle.display o core).1 = o)

include hshow

theorem oracle_present (s : Session σ) (core : Nat) : (s.present core).oracle = s.oracle :=
  hshow s.oracle core

theorem oracle_dump (s : Session σ) : s.dump.oracle = s.oracle := by
  unfold dump
  split
  · rfl
  · exact foldl_keeps Session.oracle
      (f := fun s core => (s.setFinal core (Oracle.event s.oracle core)).present core)
      (fun s core => oracle_present hshow _ core) _ _

theorem oracle_endByTrap (s : Session σ) (code : Int) : (s.endByTrap code).oracle = s.oracle := by
  have hnoted := foldl_keeps Session.oracle (f := noteTrap code)
    (fun s core => oracle_present hshow _ core) (List.range s.run.cores)
    { s with run := { s.run with dumped := true } }
  unfold endByTrap
  dsimp only
  split
  · exact (oracle_transition _ _ _ _ _).trans hnoted
  · exact (oracle_transition _ _ _ _ _).trans hnoted

theorem oracle_watch (s : Session σ) : s.watch.oracle = s.oracle := by
  unfold watch
  split
  · dsimp only
    have hnoted := foldl_keeps Session.oracle (f := noteTrip)
      (fun s trip => oracle_present hshow _ trip.core)
      (s.run.watchdog.check fun core => .ok (Oracle.event s.oracle core)).trips
      { s with run := { s.run with
        watchdog := (s.run.watchdog.check fun core => .ok (Oracle.event s.oracle core)).watchdog } }
    split
    · exact (oracle_transition _ _ _ _ _).trans hnoted
    · exact hnoted
  · rfl

/-- Drawing consequences does not change an oracle that only shows its statistics. -/
theorem oracle_conclude (s : Session σ) (result : Except Error Bool) (cancelled : Bool) :
    (s.conclude result cancelled).oracle = s.oracle := by
  unfold conclude
  split
  · exact oracle_dump hshow s
  · cases result with
    | error e =>
      dsimp only
      split
      · rfl
      · exact (oracle_dump hshow _).trans (oracle_transition _ _ _ _ _)
    | ok differs =>
      dsimp only
      split
      · exact (oracle_dump hshow _).trans (oracle_transition _ _ _ _ _)
      · split
        · exact oracle_endByTrap hshow _ _
        · exact oracle_watch hshow _

end Showing

/-- An error ends the run, unless its caller has given up. -/
theorem ended_of_error (hrun : s.run.isRunning = true) (e : Error) :
    (s.conclude (.error e) false).run.isRunning = false := by
  obtain ⟨final, -, hfail⟩ := run_fail hrun .fatal (.fatal (some (s.run.outcome.steps + 1)) e)
  simp only [conclude, hrun, Bool.not_true, Bool.false_eq_true, if_false, hfail]
  rfl

end Session

namespace Supervisor

variable {limit : UInt64} {cores k : Nat} {stream : List UInt8} {session : Session Line}
  {p : Pipeline}

/-- At least `k` snapshots have been taken, and nothing more is to come from the hardware. -/
def Flows (cores : Nat) (stream : List UInt8) (k : Nat) (session : Session Line) : Prop :=
  session.oracle.device.source.tail ≠ .opened ∧
    ∃ h, session.oracle.device.Sound cores stream [] h ∧ h.taker = .idle ∧ k ≤ h.taken.length

/-- The run has ended, or at least `k` snapshots have been taken. -/
structure Stands (limit : UInt64) (cores : Nat) (stream : List UInt8) (k : Nat)
    (session : Session Line) : Prop where
  regular : session.run.Regular limit cores
  flows : session.run.isRunning = true → Flows cores stream k session

/-- There are no more snapshots than records. -/
theorem Flows.le_records (h : Flows cores stream k session) :
    k ≤ stream.length / chunkSize := by
  obtain ⟨-, h, hd, -, hle⟩ := h
  have hpublished := hd.published_le
  have hfirst : Stream.firstBad cores (Stream.records stream) ≤ _ := Stream.firstBad_le
  rw [Stream.length_records] at hfirst
  have hdiv := Nat.div_le_self (Stream.firstBad cores (Stream.records stream)) cores
  rw [← hd.inv.order, List.length_append] at hpublished
  omega

namespace Stands

theorem mono {k' : Nat} (hs : Stands limit cores stream k' session) (hle : k ≤ k') :
    Stands limit cores stream k session := by
  refine ⟨hs.regular, fun hrun => ?_⟩
  obtain ⟨htail, h, hd, hidle, htaken⟩ := hs.flows hrun
  exact ⟨htail, h, hd, hidle, by omega⟩

theorem of_ended (hregular : session.run.Regular limit cores)
    (hend : session.run.isRunning = false) : Stands limit cores stream k session :=
  ⟨hregular, fun hrun => by simp [hend] at hrun⟩

theorem conclude (hs : Stands limit cores stream k session) (result : Except Error Bool) :
    Stands limit cores stream k (session.conclude result false) := by
  obtain ⟨n, -, hchange⟩ := session.change_conclude result false
  refine ⟨hs.regular.change Line.trapState_bounds hchange, fun hrun => ?_⟩
  have hgoing : session.run.isRunning = true := by
    by_contra hend
    rw [Bool.not_eq_true] at hend
    rw [Run.isRunning, (hchange.frozen hend).1] at hrun
    exact absurd hrun (by rw [← Run.isRunning, hend]; simp)
  rw [Flows, Session.oracle_conclude (fun _ _ => rfl)]
  exact hs.flows hgoing

theorem conclude_error (hregular : session.run.Regular limit cores)
    (hrun : session.run.isRunning = true) (e : Error) :
    Stands limit cores stream k (session.conclude (.error e) false) := by
  obtain ⟨n, -, hchange⟩ := session.change_conclude (.error e) false
  exact of_ended (hregular.change Line.trapState_bounds hchange) (Session.ended_of_error hrun e)

/-- A step in flight waits, or takes another snapshot, or ends the run. -/
theorem poll (hs : Stands limit cores stream k session) (hrun : session.run.isRunning = true) :
    (Oracle.poll session.oracle false = none ∧ session.oracle.device.exchange.take = none) ∨
      ∃ answer, Oracle.poll session.oracle false = some answer ∧
        Stands limit cores stream (k + 1)
          (({ session with oracle := answer.oracle }.log answer.notes).conclude answer.result
            false) := by
  obtain ⟨htail, h, hd, hidle, hle⟩ := hs.flows hrun
  cases htake : session.oracle.device.exchange.take with
  | none => exact .inl ⟨Line.poll_of_none htake, rfl⟩
  | some taken =>
    right
    obtain ⟨result, x⟩ := taken
    cases result with
    | error e =>
      have htake' : h.exchange.take = some (.error e, x) := by rw [hd.exchange_eq]; exact htake
      obtain ⟨rfl, -, -, -⟩ := hd.inv.take_error htake'
      refine ⟨_, Line.poll_of_sealed htake false, ?_⟩
      refine conclude_error ?_ ?_ _
      · exact hs.regular
      · exact hrun
    | ok t =>
      have hd₁ := hd.take hidle htake
      have hd₂ := hd₁.reset rfl
      have hback := hd₂.giveBack_eq rfl
      have hd₃ := hd₂.giveBack rfl hback
      have hback' : (x.reset t).giveBack t = .done { x.reset t with empty := some t } := hback
      refine ⟨_, Line.poll_of_taken htake hback' false, ?_⟩
      refine conclude ⟨?_, fun _ => ?_⟩ _
      · exact hs.regular
      · exact ⟨htail, _, hd₃, rfl, by simpa [Handover.taken, Except.toOption] using hle⟩

end Stands

/-- Settled workers wait for the loop and leave it something to take, or they have complained
and ended the run. -/
theorem Stands.settleDevice (hs : Stands limit cores stream k p.session) :
    Stands limit cores stream k p.settleDevice.session ∧
      (p.settleDevice.session.run.isRunning = true →
        ∃ taken, p.settleDevice.device.exchange.take = some taken) := by
  rcases p.settleDevice_eq with ⟨-, hsame⟩ | ⟨e, hsame⟩
  · have hflows : p.session.run.isRunning = true →
        Flows cores stream k (p.withDevice p.device.settle).session ∧
          ∃ taken, p.device.settle.exchange.take = some taken := by
      intro hrun
      obtain ⟨htail, h, hd, hidle, hle⟩ := hs.flows hrun
      obtain ⟨h', hd', htaker, htakes, hk, hreader, hassembler⟩ := hd.settle
      have htail' : p.device.settle.source.tail ≠ .opened := hk.tail_eq ▸ htail
      obtain ⟨result, x, htake⟩ :=
        hd'.take_answers hreader hassembler htail' (htaker.trans hidle)
      exact ⟨⟨htail', h', hd', htaker.trans hidle,
        by simpa only [Handover.taken, htakes] using hle⟩, (result, x), htake⟩
    rw [hsame]
    exact ⟨⟨hs.regular, fun hrun => (hflows hrun).1⟩, fun hrun => (hflows hrun).2⟩
  · rw [hsame]
    let q : Pipeline := p.withDevice { p.device.settle with failures := [] }
    have hended : (q.abort e).session.run.isRunning = false := q.session.isRunning_abort e
    have hregular : (q.abort e).session.run.Regular limit cores :=
      hs.regular.change Line.trapState_bounds (q.session.change_abort e)
    exact ⟨.of_ended hregular hended, fun hrun => absurd (hended.symm.trans hrun) (by simp)⟩

/-- Every round takes another snapshot or ends the run. -/
theorem rounds (limit : UInt64) (cores : Nat) (stream : List UInt8) :
    Rounds (stream.length / chunkSize) (Stands limit cores stream) where
  mono := fun hs hle => hs.mono hle
  halted_eq := fun hs => hs.regular.halted_eq
  le_bound := fun hs hrun => (hs.flows hrun).le_records
  late := by
    intro k session hs hend k' t hrun
    have hregular : t.run.Regular limit cores := hrun ▸ hs.regular
    have hover : t.run.isRunning = false := hrun ▸ hend
    have hchange := Session.change_dump hover
    refine ⟨.of_ended hregular hover, .of_ended (hregular.change Line.trapState_bounds hchange) ?_⟩
    rw [Run.isRunning, (hchange.frozen hover).1]
    exact hover
  poll := fun hs hrun => hs.poll hrun
  settle := fun hs => hs.settleDevice

/-- A pipeline over a stream that ends is run to its end. -/
theorem complete_ended {batch : Int} (hbatch : 1 ≤ batch) (hflight : p.flight = none)
    (hs : Stands limit cores p.device.source.queue 0 (p.withDevice p.device.start).session) :
    (complete p batch).outcome.Consistent limit cores (complete p batch).info ∧
      (complete p batch).outcome.status ≠ .running := by
  have hfuel : p.device.source.queue.length / chunkSize < patience p := by
    simp only [patience]
    omega
  obtain ⟨q, hcomplete, hstands, hend⟩ := (rounds limit cores _).complete hbatch hflight hs hfuel
  rw [hcomplete]
  refine ⟨hstands.regular.consistent, fun hrunning => ?_⟩
  simp only [account] at hrunning
  simp [Run.isRunning, hrunning] at hend

end Supervisor

/-! ## Preparation -/

/-- What it takes to make a device. -/
theorem Device.create_bounds {source : Source} {cores depth : Int} {d : Device}
    (hcreate : Device.create source cores depth = .ok d) :
    1 ≤ cores ∧ cores ≤ maxCores ∧ 1 ≤ depth ∧ Pool.checkRoom depth chunkSize = .ok () := by
  obtain ⟨pool, x, -, hpool, hexchange, -⟩ := Device.create_parts hcreate
  obtain ⟨snapshot, hsnapshot, -⟩ := bind_eq_ok hexchange
  obtain ⟨hdepth, hsize, -⟩ := Pool.create_eq_ok hpool
  unfold Pool.create at hpool
  rw [if_neg (by omega), if_neg (by omega)] at hpool
  obtain ⟨_, hroom, -⟩ := bind_eq_ok hpool
  unfold Snapshot.create at hsnapshot
  split at hsnapshot
  · rename_i hcores
    exact ⟨hcores.1, hcores.2, hdepth, hroom⟩
  · cases hsnapshot

namespace Supervisor

/-- What a pipeline is made of. -/
theorem prepare_parts {files : Files} {config : Config} {known : Bool} {p : Pipeline}
    (hprepare : prepare files config known = .ok (.ok p)) :
    ∃ source notes device checker run, openDevice files config.image = .ok (source, notes) ∧
      Device.create source config.cores config.poolDepth = .ok device ∧
      Run.create config.maxInstrs config.cores (Trace.create config.traceLevel) = .ok run ∧
      p = { session := { run, oracle := { device, checker } } } := by
  unfold prepare at hprepare
  split at hprepare
  · cases hprepare
  · rename_i source notes hopen
    obtain ⟨reference, -, hprepare⟩ := bind_eq_ok hprepare
    cases reference with
    | error e => cases hprepare
    | ok golden =>
      obtain ⟨made, hcreate, hmade⟩ := bind_eq_ok hprepare
      cases hmade
      obtain ⟨device, hdevice, hcreate⟩ := bind_eq_ok hcreate
      obtain ⟨checker, -, hcreate⟩ := bind_eq_ok hcreate
      obtain ⟨run, hrun, hcreate⟩ := bind_eq_ok hcreate
      cases hcreate
      exact ⟨source, notes, device, checker, run, hopen, hdevice, hrun, rfl⟩

/-- A new pipeline over a stream that ends has taken nothing yet. -/
theorem stands_start {source : Source} {cores depth : Int} {device : Device} {checker : Checker}
    {trace : Option Trace} {run : Run} (hdevice : Device.create source cores depth = .ok device)
    (hrun : Run.create limit cores trace = .ok run) (hopen : source.isClosed = false)
    (htail : source.tail = .ended .finished) :
    let p : Pipeline := { session := { run, oracle := { device, checker } } }
    Stands limit cores.toNat p.device.source.queue 0 (p.withDevice p.device.start).session := by
  intro p
  obtain ⟨hlow, hhigh, hdepth, hroom⟩ := Device.create_bounds hdevice
  obtain ⟨d, hcreate, hsource, -, hd⟩ := Device.create_sound source [] hlow hhigh hdepth hroom hopen
    (.inr ⟨htail, rfl⟩)
  obtain rfl : device = d := Except.ok.inj (hdevice.symm.trans hcreate)
  refine ⟨Run.regular_create hrun, fun _ => ?_⟩
  have hstarted : device.start.source = source := by
    rw [← hsource]
    unfold Device.start
    split <;> rfl
  have hstream : source.queue ++ [] = p.device.source.queue := by
    rw [List.append_nil, ← hsource]
    rfl
  rw [hstream] at hd
  refine ⟨?_, _, hd, rfl, Nat.zero_le _⟩
  show device.start.source.tail ≠ .opened
  rw [hstarted, htail]
  simp

/-- What `run` hands out. -/
theorem run_parts {files : Files} {config : Config} {known cancelled : Bool} {result : RunResult}
    (hrun : run files config known cancelled = .ok (.ok result)) :
    ∃ p, prepare files config known = .ok (.ok p) ∧ result = complete p config.stepBatch := by
  obtain ⟨prepared, hprepare, hrun⟩ := bind_eq_ok hrun
  cases prepared with
  | error e => cases hrun
  | ok p =>
    cases cancelled with
    | true => cases hrun
    | false =>
      have hreturned : (.ok (.ok (complete p config.stepBatch)) :
          Except Fault (Except Error RunResult)) = .ok (.ok result) := hrun
      exact ⟨p, hprepare, (Except.ok.inj (Except.ok.inj hreturned)).symm⟩

/-! ## Outcome and exit code -/

/-- However a run is stepped, aborted and shown, outcome, flags and exit code belong
together, and the exit code of a run that has ended stays. -/
theorem consistent_of_reach {σ : Type} [Oracle σ]
    (hstate : ∀ o : σ, -1 ≤ Oracle.trapState o ∧ Oracle.trapState o ≤ 255) {cores : Int}
    {trace : Option Trace} {oracle : σ} {run : Run} (hrun : Run.create limit cores trace = .ok run)
    {c : Control σ} (hreach : Control.Reach { session := { run, oracle } } c) :
    c.session.run.outcome.Consistent limit cores.toNat c.session.run.watchdog.info ∧
      (c.session.run.outcome.status ≠ .running → ∀ c', Control.Reach c c' →
        c'.session.run.outcome.exitCode = c.session.run.outcome.exitCode) := by
  have hregular : c.session.run.Regular limit cores.toNat :=
    Control.keeps_of_reach (fun _ _ _ h hchange => h.change hstate hchange) hreach
      (Run.regular_create hrun)
  refine ⟨hregular.consistent, fun hend c' hlater => ?_⟩
  have hover : c.session.run.isRunning = false := by simpa [Run.isRunning] using hend
  have hsame := (Control.evolves_of_reach hlater).frozen hover
  simp only [Session.decided, Prod.mk.injEq] at hsame
  rw [hsame.1]

/-- Whoever takes turns with whom, an account is one of a run that has ended. -/
theorem consistent_of_returned {files : Files} {config : Config} {known : Bool} {p : Pipeline}
    (hprepare : prepare files config known = .ok (.ok p)) {pending : List UInt8}
    {s : Interruptible} {batch : Nat}
    (hreach : Interruptible.Reach batch { supervision := Supervision.start p pending } s)
    {result : RunResult} (hreturned : s.returned = some (.ok result)) :
    result.outcome.Consistent config.maxInstrs config.cores.toNat result.info ∧
      result.outcome.status ≠ .running := by
  obtain ⟨source, notes, device, checker, run, -, -, hrun, rfl⟩ := prepare_parts hprepare
  have inv : Interruptible.Inv config.maxInstrs config.cores.toNat
      { supervision :=
          Supervision.start { session := { run, oracle := { device, checker } } } pending } :=
    ⟨Run.regular_create hrun, fun _ => trivial⟩
  exact (inv.reach hreach).returned_consistent hreturned

/-- Over a stream that ends, `run` hands out the account of a run that has ended. -/
theorem consistent_of_run {files : Files} {config : Config} {known cancelled : Bool}
    {source : Source} {notes : Journal}
    (hopen : openDevice files config.image = .ok (source, notes))
    (htail : source.tail = .ended .finished) (hbatch : 1 ≤ config.stepBatch) {result : RunResult}
    (hrun : run files config known cancelled = .ok (.ok result)) :
    result.outcome.Consistent config.maxInstrs config.cores.toNat result.info ∧
      result.outcome.status ≠ .running := by
  obtain ⟨p, hprepare, rfl⟩ := run_parts hrun
  obtain ⟨source', notes', device, checker, run, hopen', hdevice, hcreate, rfl⟩ :=
    prepare_parts hprepare
  obtain ⟨rfl, rfl⟩ : source' = source ∧ notes' = notes := by
    rw [hopen'] at hopen
    simpa using hopen
  exact complete_ended hbatch rfl (stands_start hdevice hcreate (openDevice_open hopen') htail)

/-- Outcome, flags and exit code belong together in every state that steps, aborts and shows
of statistics can reach, over every oracle with bytes for trap codes.  An account of a
supervised run is one of a run that has ended: however hardware, workers, loop, caller and an
interruption from outside take turns, and in the order of `run` when the stream ends. -/
theorem outcomes_consistent :
    (∀ {σ : Type} [Oracle σ],
      (∀ o : σ, -1 ≤ Oracle.trapState o ∧ Oracle.trapState o ≤ 255) →
      ∀ (limit : UInt64) (cores : Int) (level : String) (oracle : σ) (run : Run),
        Run.create limit cores (Trace.create level) = .ok run →
        ∀ c : Control σ, Control.Reach { session := { run, oracle } } c →
          c.session.run.outcome.Consistent limit cores.toNat c.session.run.watchdog.info ∧
          (c.session.run.outcome.status ≠ .running → ∀ c', Control.Reach c c' →
            c'.session.run.outcome.exitCode = c.session.run.outcome.exitCode)) ∧
    (∀ (files : Files) (config : Config) (known : Bool) (p : Pipeline),
      prepare files config known = .ok (.ok p) →
      ∀ (pending : List UInt8) (s : Interruptible),
        Interruptible.Reach config.stepBatch.toNat
          { supervision := Supervision.start p pending } s →
        ∀ result, s.returned = some (.ok result) →
          result.outcome.Consistent config.maxInstrs config.cores.toNat result.info ∧
            result.outcome.status ≠ .running) ∧
    (∀ (files : Files) (config : Config) (known cancelled : Bool) (source : Source)
      (notes : Journal), openDevice files config.image = .ok (source, notes) →
      source.tail = .ended .finished → 1 ≤ config.stepBatch →
      ∀ result, run files config known cancelled = .ok (.ok result) →
        result.outcome.Consistent config.maxInstrs config.cores.toNat result.info ∧
          result.outcome.status ≠ .running) := by
  refine ⟨?_, ?_, ?_⟩
  · intro σ _ hstate limit cores level oracle run hrun c hreach
    exact consistent_of_reach hstate hrun hreach
  · intro files config known p hprepare pending s hreach result hreturned
    exact consistent_of_returned hprepare hreach hreturned
  · intro files config known cancelled source notes hopen htail hbatch result hrun
    exact consistent_of_run hopen htail hbatch hrun

/-- A session that is aborted before its first step, and a supervised run over a stream that
stops inside a record: both fail, with exit code 1.  A supervised run in which core 1 traps
with code 3 fails with exit code 4. -/
theorem outcomes_consistent_failures :
    let files : Files := { entries := [(["image"], .regular [1, 2, 3])] }
    let trapping : Files :=
      { entries := [(["image"], .regular (CoreState.encodeChunk 0 {} ++
          CoreState.encodeChunk 1 { trap := { hasTrap := true, code := 3 } }))] }
    let config : Config := { image := "image", cores := 2, poolDepth := 3, stepBatch := 1 }
    (∃ (run : Run) (c : Control Line), Run.create 5 2 (Trace.create "none") = .ok run ∧
      Control.Reach { session := { run, oracle := default } } c ∧
      c.session.run.outcome.cause = some .fatal ∧ c.session.run.outcome.exitCode = 1) ∧
    (∃ result, run files config true false = .ok (.ok result) ∧
      result.outcome.status ≠ .running ∧
      result.outcome.Consistent config.maxInstrs config.cores.toNat result.info) ∧
    ∃ result, run trapping config true false = .ok (.ok result) ∧
      result.outcome.cause = some .trapCode ∧ result.outcome.exitCode = 4 ∧
      result.outcome.Consistent config.maxInstrs config.cores.toNat result.info := by
  intro files trapping config
  refine ⟨?_, ?_, ?_⟩
  · let run : Run :=
      { watchdog := { limit := 5, info := { trapped := #[false, false], cpi := #[0, 0] } }
        final := #[{}, {}] }
    have hrun : Run.create 5 2 (Trace.create "none") = .ok run := rfl
    have haborted := Relation.ReflTransGen.single (Control.Move.abort
      (c := { session := { run, oracle := (default : Line) } }) (.text "worker failed"))
    have hconsistent := (outcomes_consistent.1 Line.trapState_bounds 5 2 "none" default run hrun _
      haborted).1
    exact ⟨run, _, hrun, haborted, rfl, hconsistent.exit_other rfl (by decide)⟩
  · have hfind : files.find config.image = .ok (.regular [1, 2, 3]) := by decide +kernel
    obtain ⟨notes, hopen⟩ := openDevice_regular hfind
    have hready : (prepare files config true).toOption.bind Except.toOption |>.isSome := by
      decide +kernel
    obtain ⟨result, hresult⟩ : ∃ result, run files config true false = .ok (.ok result) := by
      cases hprepare : prepare files config true with
      | error fault => simp [hprepare, Except.toOption] at hready
      | ok prepared =>
        cases prepared with
        | error e => simp [hprepare, Except.toOption] at hready
        | ok p =>
          refine ⟨complete p config.stepBatch, ?_⟩
          simp only [run, hprepare, bind, Except.bind]
          rfl
    obtain ⟨hconsistent, hended⟩ := outcomes_consistent.2.2 files config true false _ notes hopen
      rfl (by decide) result hresult
    exact ⟨result, hresult, hended, hconsistent⟩
  · let image := CoreState.encodeChunk 0 {} ++
      CoreState.encodeChunk 1 { trap := { hasTrap := true, code := 3 } }
    have hfind : trapping.find config.image = .ok (.regular image) := by decide +kernel
    obtain ⟨notes, hopen⟩ := openDevice_regular hfind
    have hw : Stream.WellFormed 2 (image ++ []) := by decide +kernel
    have hverdict : (Verdict.ofBlocks 2 (Golden.recordsOf none) config.maxInstrs
        (Stream.blocks 2 (Stream.records (image ++ [])))).outcome =
          { status := .failed, trapCode := 3, cause := some .trapCode
            failure := some (.trapCode 3), steps := 1 } := by
      decide +kernel
    have hgolden : referenceOf trapping config true = .ok (.ok none) := rfl
    obtain ⟨p, -, -, hrun⟩ := prepare_verdict (by decide) (by decide) (by decide) (by decide)
      (by decide) hopen (.inr ⟨rfl, rfl⟩) hgolden hw
    obtain ⟨result, hresult, hdescribes⟩ := hrun rfl
    obtain ⟨hconsistent, -⟩ := outcomes_consistent.2.2 trapping config true false _ notes hopen rfl
      (by decide) result hresult
    have houtcome := hdescribes.outcome_eq.trans hverdict
    have hcause : result.outcome.cause = some .trapCode := by rw [houtcome]
    refine ⟨result, hresult, hcause, ?_, hconsistent⟩
    rw [hconsistent.exit_trap hcause, houtcome]
    rfl

end Supervisor

end Cosim
