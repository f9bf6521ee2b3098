import Cosim.Proofs.Delivery

/-!
# Nobody waits for ever

A checker that takes snapshots from a device and drains them is never left waiting,
however shallow the pool is.  Between two of its calls the hardware and the workers
take steps in any order:

* `Intake.Background` is such a step.
* `Inevitable` says that a goal is reached whichever steps are taken.
* `Intake.Live` collects what the checker may rely on, and `Intake.live_of_reach` says
  that it holds at every moment.
-/

namespace Cosim

/-- Whichever steps are taken, the goal is reached. -/
inductive Inevitable {α : Type} (step : α → α → Prop) (goal : α → Prop) : α → Prop where
  /-- It has been reached. -/
  | now {a} (hgoal : goal a) : Inevitable step goal a
  /-- Some step can be taken, and after each of them it is still inevitable. -/
  | later {a} (hcan : ∃ b, step a b) (hall : ∀ b, step a b → Inevitable step goal b) :
      Inevitable step goal a

/-- Where every step makes a measure smaller, and nothing but the goal leaves no step
to take, the goal is inevitable. -/
theorem inevitable_of_measure {α : Type} {step : α → α → Prop} {goal : α → Prop}
    (inv : α → Prop) (measure : α → Nat) (hkeeps : ∀ a b, inv a → step a b → inv b)
    (hless : ∀ a b, inv a → step a b → measure b < measure a)
    (hstuck : ∀ a, inv a → (∀ b, ¬ step a b) → goal a) {a : α} (ha : inv a) :
    Inevitable step goal a := by
  induction hn : measure a using Nat.strong_induction_on generalizing a with
  | _ n ih =>
    by_cases hcan : ∃ b, step a b
    · refine .later hcan fun b hstep => ?_
      exact ih (measure b) (hn ▸ hless a b ha hstep) (hkeeps a b ha hstep) rfl
    · exact .now (hstuck a ha (not_exists.mp hcan))

theorem Exchange.isSome_take {x : Exchange} :
    x.take.isSome ↔ x.full.isSome ∨ x.isSealed = true := by
  cases hfull : x.full with
  | none => cases hsealed : x.isSealed <;> simp [take_none hfull, hsealed]
  | some t =>
    rw [take, hfull]
    by_cases hcomplete : (x.snapshot t).complete <;> simp [hcomplete]

/-- Filing a record leaves the places of the exchange alone. -/
theorem Exchange.put_places {x x' : Exchange} {t : Ticket} {core : Int} {state : CoreState}
    (hput : x.put t core state = .ok x') : x'.full = x.full ∧ x'.isSealed = x.isSealed := by
  unfold Exchange.put at hput
  cases hs : (x.snapshot t).put core state with
  | error e => simp [hs, bind, Except.bind] at hput
  | ok s =>
    simp only [hs, bind, Except.bind, pure, Except.pure, Except.ok.injEq] at hput
    subst hput
    exact ⟨rfl, rfl⟩

/-- So does numbering a snapshot. -/
theorem Exchange.stamp_places {x x' : Exchange} {t : Ticket} (hstamp : x.stamp t = .ok x') :
    x'.full = x.full ∧ x'.isSealed = x.isSealed := by
  unfold Exchange.stamp at hstamp
  dsimp only at hstamp
  split at hstamp
  · cases hstamp
    exact ⟨rfl, rfl⟩
  · cases hstamp

/-- The assembler does not take a snapshot back that it has handed over. -/
theorem Assembler.full_of_next {signals : Signals} {a a' : Assembler} {pool pool' : Pool}
    {x x' : Exchange} (hmem : (a', pool', x') ∈ a.next signals pool x) :
    (x.full.isSome → x'.full.isSome) ∧ x'.isSealed = x.isSealed := by
  have hreleasing : ∀ {h : Nat} {phase : Phase} {failure : Error → Error},
      (a', pool', x') = a.releasing pool x h phase failure → x' = x := by
    intro h phase failure heq
    unfold Assembler.releasing at heq
    split at heq <;> simp_all
  unfold Assembler.next at hmem
  cases hphase : a.phase with
  | idle | returned => simp [hphase] at hmem
  | start | count | failed =>
    simp only [hphase, List.mem_singleton, Prod.mk.injEq] at hmem
    simp [hmem]
  | acquire =>
    simp only [hphase, List.mem_append, List.mem_map] at hmem
    rcases hmem with ⟨o, -, heq⟩ | hcancelled
    · split at heq <;> simp_all
    · split at hcancelled <;> simp_all
  | inspect h =>
    simp only [hphase] at hmem
    split at hmem
    · simp [hreleasing (List.mem_singleton.mp hmem)]
    · simp_all
  | claim h core =>
    simp only [hphase, List.mem_append] at hmem
    rcases hmem with hclaim | hcancelled
    · unfold Exchange.claim at hclaim
      cases hempty : x.empty <;> simp_all
    · split at hcancelled
      · simp [hreleasing (List.mem_singleton.mp hcancelled)]
      · simp at hcancelled
  | unpack h core =>
    simp only [hphase] at hmem
    simp [hreleasing (List.mem_singleton.mp hmem)]
  | file core state =>
    simp only [hphase] at hmem
    split at hmem
    · simp at hmem
    · split at hmem
      · simp_all
      · rename_i x₁ hput
        obtain ⟨hfull, hsealed⟩ := Exchange.put_places hput
        split at hmem
        · rename_i x₂ hstamp
          obtain ⟨hfull', hsealed'⟩ := Exchange.stamp_places hstamp
          simp_all
        · simp_all
  | deliver =>
    simp only [hphase] at hmem
    split at hmem
    · simp at hmem
    · rename_i t _
      rw [Exchange.offer] at hmem
      cases hsealed : x.isSealed <;> cases hfull : x.full <;> simp_all

namespace Intake

/-- A step of the hardware or of a worker. -/
def Background (s s' : Intake) : Prop :=
  Move s s' ∧ s'.checker = s.checker ∧ s'.takes = s.takes

/-- What the checker may rely on at any moment. -/
structure Live (s : Intake) : Prop where
  /-- Workers that cannot move, with all bytes delivered, do not wait for each other: a
  complete snapshot is there to be taken, or the exchange is sealed. -/
  no_deadlock : s.checker = .idle → s.device.source.tail ≠ .opened → s.device.next = [] →
    (∃ t, s.device.exchange.full = some t ∧ (s.device.exchange.snapshot t).complete = true) ∨
      s.device.exchange.isSealed = true
  /-- While the checker does nothing, the others come to an end. -/
  background_ends : ¬ Endless Background s
  /-- A checker that wants a snapshot gets an answer, whatever the others do. -/
  take_inevitable : s.checker = .idle →
    Inevitable Background (fun s' => s'.device.exchange.take.isSome) s
  /-- An answer that is there stays until the checker comes for it. -/
  take_stays : s.device.exchange.take.isSome → ∀ s', Background s s' →
    s'.device.exchange.take.isSome
  /-- A checker that drains its snapshot does not wait. -/
  drain_done : ∀ t, s.checker = .reading t →
    ∃ x, (s.device.exchange.reset t).giveBack t = .done x
  /-- Nor does it wait once it has forgotten the records. -/
  giveBack_done : ∀ t, s.checker = .returning t → ∃ x, s.device.exchange.giveBack t = .done x

variable {cores : Nat} {stream : List UInt8} {s s' : Intake}

/-- When neither the hardware nor a worker can move, all bytes have been delivered. -/
theorem settled_of_background (hstuck : ∀ s', ¬ Background s s') :
    s.device.source.tail ≠ .opened ∧ s.device.next = [] := by
  constructor
  · intro hopen
    by_cases hpending : s.pending = []
    · exact hstuck _ ⟨.finish hpending hopen, rfl, rfl⟩
    · exact hstuck _ ⟨.feed (List.append_nil _).symm hpending, rfl, rfl⟩
  · refine List.eq_nil_iff_forall_not_mem.mpr fun d hnext => ?_
    rcases List.mem_append.mp hnext with hreader | hassembler
    · exact hstuck _ ⟨.reader hreader, rfl, rfl⟩
    · exact hstuck _ ⟨.assembler hassembler, rfl, rfl⟩

theorem Inv.no_deadlock (inv : s.Inv cores stream) (hidle : s.checker = .idle)
    (htail : s.device.source.tail ≠ .opened) (hnext : s.device.next = []) :
    (∃ t, s.device.exchange.full = some t ∧ (s.device.exchange.snapshot t).complete = true) ∨
      s.device.exchange.isSealed = true := by
  obtain ⟨-, -, h, hd, hchecker, -⟩ := inv
  obtain ⟨hreader, hassembler⟩ := List.append_eq_nil_iff.mp hnext
  cases hfull : s.device.exchange.full with
  | some t =>
    have hheld := hfull
    rw [← hd.exchange_eq] at hheld ⊢
    obtain ⟨rfl, -⟩ := hd.inv.owned.of_full hheld
    exact .inl ⟨0, rfl, (hd.inv.handed (.inl hheld)).2.1⟩
  | none =>
    have hdone := hd.drained hreader hassembler htail (hchecker.trans hidle) hfull
    exact .inr (hd.exchange_sealed.mpr (by simp [hdone]))

theorem Background.take_stays (hstep : Background s s')
    (htake : s.device.exchange.take.isSome) : s'.device.exchange.take.isSome := by
  obtain ⟨hmove, hchecker, htakes⟩ := hstep
  rw [Exchange.isSome_take] at htake ⊢
  cases hmove with
  | feed | finish => exact htake
  | reader hnext => rwa [(Device.readerNext_frame hnext).1]
  | assembler hnext =>
    rcases Device.mem_assemblerNext hnext with ⟨a, p, x, hmem, rfl⟩ | ⟨-, -, ⟨-, rfl⟩ | ⟨-, rfl⟩⟩
    · obtain ⟨hfull, hsealed⟩ := Assembler.full_of_next hmem
      exact htake.imp hfull hsealed.trans
    · exact .inr rfl
    · exact htake
  | take | takeFailed => simp at htakes
  | reset hreading => simp [hreading] at hchecker
  | giveBack hreturning => simp [hreturning] at hchecker

theorem Inv.live (inv : s.Inv cores stream) : s.Live where
  no_deadlock := inv.no_deadlock
  background_ends := not_endless effort (fun _ _ inv hstep => inv.move hstep.1)
    (fun _ _ inv hstep => inv.effort_lt hstep.1) inv
  take_inevitable := by
    intro hidle
    refine inevitable_of_measure (fun s => s.Inv cores stream ∧ s.checker = .idle) effort
      (fun _ _ inv hstep => ⟨inv.1.move hstep.1, hstep.2.1.trans inv.2⟩)
      (fun _ _ inv hstep => inv.1.effort_lt hstep.1) (fun a inv hstuck => ?_) ⟨inv, hidle⟩
    obtain ⟨htail, hnext⟩ := settled_of_background hstuck
    rcases inv.1.no_deadlock inv.2 htail hnext with ⟨t, hfull, -⟩ | hsealed
    · exact Exchange.isSome_take.mpr (.inl (by simp [hfull]))
    · exact Exchange.isSome_take.mpr (.inr hsealed)
  take_stays := fun htake _ hstep => hstep.take_stays htake
  drain_done := by
    intro t hreading
    obtain ⟨-, -, h, hd, hchecker, -⟩ := inv
    exact ⟨_, (hd.reset (hchecker.trans hreading)).giveBack_eq rfl⟩
  giveBack_done := by
    intro t hreturning
    obtain ⟨-, -, h, hd, hchecker, -⟩ := inv
    exact ⟨_, hd.giveBack_eq (hchecker.trans hreturning)⟩

/-- Whatever the stream, the depth of the pool and the order of steps, a checker that
takes and drains never waits for ever. -/
theorem live_of_reach (cores depth : Int) (hlow : 1 ≤ cores) (hhigh : cores ≤ maxCores)
    (hdepth : 1 ≤ depth) (hroom : Pool.checkRoom depth chunkSize = .ok ()) (maxRead : Nat)
    (stream : List UInt8) :
    ∃ s₀, start cores depth maxRead stream = .ok s₀ ∧ ∀ s, Reach s₀ s → s.Live := by
  obtain ⟨s₀, hstart, inv⟩ := start_inv hlow hhigh hdepth hroom maxRead stream
  exact ⟨s₀, hstart, fun s hreach => (inv.reach hreach).live⟩

/-- Two cores share a single chunk, the second record repeats the core of the first, and
the stream ends inside a third: the checker gets an answer all the same. -/
theorem live_of_reach_single_chunk :
    ∃ s₀, start 2 1 0 (List.replicate 600 0) = .ok s₀ ∧
      Inevitable Background (fun s => s.device.exchange.take.isSome) s₀ := by
  obtain ⟨s₀, hstart, hlive⟩ := live_of_reach 2 1 (by decide) (by decide) (by decide) (by decide) 0
    (List.replicate 600 0)
  refine ⟨s₀, hstart, (hlive s₀ .refl).take_inevitable ?_⟩
  cases hstart
  rfl

end Intake

end Cosim
