import Cosim.Proofs.Acts
import Cosim.Proofs.Progress
import Mathlib.Logic.Relation

/-!
# The workers cannot go on for ever

Even if the hardware never runs out of bytes, the workers of a device do: a chunk goes
around only if the assembler files its record, and there are only so many places for
records in the snapshots of the exchange.

* `Exchange.room` counts these places, and `Device.budget` what the workers can do with
  them and with the chunks at hand.
* `Device.budget_lt` says that every step of a worker takes from the budget, in whatever
  state the device is.
* `Device.run_settle_go` says that `Device.settle` comes to the end of the budget.
-/

namespace Cosim

/-! ## Room for records -/

/-- The number of cores that have not reported. -/
def Snapshot.room (s : Snapshot) : Nat := s.slots.toList.countP Option.isNone

/-- A record that is filed takes a place. -/
theorem Snapshot.room_put {s s' : Snapshot} {core : Int} {state : CoreState}
    (hput : s.put core state = .ok s') : s'.room + 1 = s.room ∧ s'.cores = s.cores := by
  unfold put at hput
  split at hput
  · cases hput
  · rename_i hrange
    split at hput
    · cases hput
    · rename_i hnot
      obtain rfl := (Except.ok.inj hput).symm
      have hcore : core.toNat < s.slots.size := by
        rw [cores] at hrange
        omega
      have hnone : s.slots[core.toNat] = none := by
        rw [has, Array.getD_eq_getD_getElem?, Array.getElem?_eq_getElem hcore] at hnot
        have hpos : 0 ≤ core := by omega
        simpa [hpos] using hnot
      have hpos : 0 < s.slots.toList.countP Option.isNone :=
        List.countP_pos_iff.mpr ⟨none, hnone ▸ Array.getElem_mem_toList hcore, rfl⟩
      refine ⟨?_, by simp [cores]⟩
      simp only [room, Array.set!_eq_setIfInBounds, Array.toList_setIfInBounds]
      rw [List.countP_set (by simpa using hcore)]
      simp only [Array.getElem_toList, hnone, Option.isNone_none, Option.isNone_some, if_true]
      simp only [Bool.false_eq_true, if_false]
      omega

/-- How many entries of some kind there are after a list is replaced in a list of lists. -/
theorem countP_flatMap_set {α β : Type} (p : β → Bool) (f : α → List β) (l : List α) (i : Nat)
    (b : α) (hi : i < l.length) :
    ((l.set i b).flatMap f).countP p + (f l[i]).countP p =
      (l.flatMap f).countP p + (f b).countP p := by
  induction l generalizing i with
  | nil => simp at hi
  | cons a rest ih =>
    cases i with
    | zero =>
      simp only [List.set_cons_zero, List.flatMap_cons, List.countP_append, List.getElem_cons_zero]
      omega
    | succ i =>
      have hrest := ih i (by simpa using hi)
      simp only [List.set_cons_succ, List.flatMap_cons, List.countP_append, List.getElem_cons_succ]
      omega

namespace Exchange

variable {x x' : Exchange} {t : Ticket}

/-- The slots of all snapshots. -/
def slots (x : Exchange) : List (Option CoreState) :=
  x.snapshots.toList.flatMap fun s => s.slots.toList

/-- The number of records that can still be filed. -/
def room (x : Exchange) : Nat := x.slots.countP Option.isNone

/-- The number of records that the snapshots can hold. -/
def capacity (x : Exchange) : Nat := x.slots.length

theorem room_le (x : Exchange) : x.room ≤ x.capacity := List.countP_le_length

theorem countP_slots_update (x : Exchange) (p : Option CoreState → Bool) (s : Snapshot)
    (ht : t < x.snapshots.size) :
    (x.update t s).slots.countP p + (x.snapshot t).slots.toList.countP p =
      x.slots.countP p + s.slots.toList.countP p := by
  have hset := countP_flatMap_set p (fun s : Snapshot => s.slots.toList) x.snapshots.toList t s ht
  simpa [slots, update, snapshot, Array.getD_eq_getD_getElem?, ht] using hset

theorem update_of_le (x : Exchange) (s : Snapshot) (ht : x.snapshots.size ≤ t) :
    x.update t s = x := by
  simp [update, Array.setIfInBounds, Nat.not_lt.mpr ht]

/-- Snapshots do not change in size. -/
theorem capacity_update {s : Snapshot} (hcores : s.cores = (x.snapshot t).cores) :
    (x.update t s).capacity = x.capacity := by
  by_cases ht : t < x.snapshots.size
  · have hcount := x.countP_slots_update (fun _ => true) s ht
    simp only [Snapshot.cores] at hcores
    simp only [List.countP_true, Array.length_toList, hcores] at hcount
    exact Nat.add_right_cancel hcount
  · rw [update_of_le x s (Nat.le_of_not_lt ht)]

/-- A record that is filed takes a place in one of the snapshots. -/
theorem room_put {core : Int} {state : CoreState} (hput : x.put t core state = .ok x') :
    x'.room + 1 = x.room ∧ x'.capacity = x.capacity := by
  unfold Exchange.put at hput
  cases hs : (x.snapshot t).put core state with
  | error e => simp [hs, bind, Except.bind] at hput
  | ok s =>
    simp only [hs, bind, Except.bind, pure, Except.pure, Except.ok.injEq] at hput
    subst hput
    obtain ⟨hroom, hcores⟩ := Snapshot.room_put hs
    refine ⟨?_, capacity_update hcores⟩
    -- There is no room in a snapshot that the exchange does not have.
    have ht : t < x.snapshots.size := by
      by_contra hnot
      have hsnapshot : x.snapshot t = { slots := #[] } := by
        rw [snapshot, Array.getD_eq_getD_getElem?, Array.getElem?_eq_none (Nat.le_of_not_lt hnot)]
        rfl
      simp [hsnapshot, Snapshot.room] at hroom
    have hcount := x.countP_slots_update Option.isNone s ht
    simp only [Snapshot.room] at hroom
    simp only [room]
    omega

/-- Numbering a snapshot leaves its records alone. -/
theorem room_stamp (hstamp : x.stamp t = .ok x') :
    x'.room = x.room ∧ x'.capacity = x.capacity := by
  unfold Exchange.stamp at hstamp
  dsimp only at hstamp
  split at hstamp
  · obtain rfl := (Except.ok.inj hstamp).symm
    refine ⟨?_, capacity_update rfl⟩
    by_cases ht : t < x.snapshots.size
    · exact Nat.add_right_cancel (x.countP_slots_update Option.isNone _ ht)
    · rw [update_of_le x _ (Nat.le_of_not_lt ht)]
      rfl
  · cases hstamp

/-- Taking a snapshot leaves the snapshots as they are. -/
theorem snapshots_take {result : Except Error Ticket} (htake : x.take = some (result, x')) :
    x'.snapshots = x.snapshots := by
  unfold take at htake
  split at htake
  · dsimp only at htake
    split at htake
    · cases htake
      rfl
    · cases htake
      rfl
  · split at htake
    · cases htake
      rfl
    · cases htake

theorem snapshots_giveBack (hback : x.giveBack t = .done x') : x'.snapshots = x.snapshots := by
  unfold giveBack at hback
  split at hback
  · cases hback
  · cases hback
    rfl

theorem capacity_take {result : Except Error Ticket} (htake : x.take = some (result, x')) :
    x'.capacity = x.capacity := by
  rw [capacity, slots, snapshots_take htake]
  rfl

theorem capacity_giveBack (hback : x.giveBack t = .done x') : x'.capacity = x.capacity := by
  rw [capacity, slots, snapshots_giveBack hback]
  rfl

theorem capacity_create {cores : Int} (hcreate : create cores = .ok x) : x.capacity ≤ maxCores := by
  by_cases hrange : 1 ≤ cores ∧ cores ≤ maxCores
  · obtain ⟨s, hs, hok⟩ := create_ok hrange.1 hrange.2
    obtain rfl := Except.ok.inj (hok.symm.trans hcreate)
    rw [Snapshot.create, if_pos hrange] at hs
    obtain rfl := Except.ok.inj hs
    simp only [capacity, slots, List.flatMap_cons, List.flatMap_nil, List.append_nil,
      Array.length_toList, Array.size_replicate]
    omega
  · simp [create, Snapshot.create, hrange, bind, Except.bind] at hcreate

end Exchange

/-! ## The budget -/

/-- What the reader can do before it needs another chunk. -/
def Reader.Phase.budget (size : Nat) : Reader.Phase → Nat
  | .idle | .returned _ => 0
  | .stopped _ _ => 1
  | .acquire => 2
  | .enter => 3
  | .start => 4
  | .count => 5
  | .publish _ => 14
  | .fill _ got => 15 + (size - got)

/-- What the assembler can do before it needs another record.  A chunk that it gives
back is paid for in advance, and the payment for the next one comes with the record
that is filed. -/
def Assembler.Phase.budget (size : Nat) : Assembler.Phase → Nat
  | .idle | .returned _ => 0
  | .failed _ => 1
  | .file _ _ => 6
  | .acquire => size + 16
  | .start => size + 17
  | .count => size + 18
  | .deliver => size + 19
  | .unpack _ _ => size + 21
  | .claim _ _ => size + 22
  | .inspect _ => size + 23

/-- A step of the reader uses up a chunk, or brings it closer to the busy queue. -/
theorem Reader.budget_lt {signals : Signals} {r r' : Reader} {source source' : Source}
    {pool pool' : Pool} (hmem : (r', source', pool') ∈ r.next signals source pool) :
    pool'.size = pool.size ∧
      (pool.size + 14) * pool'.free.length + 8 * pool'.busy.length + r'.phase.budget pool.size <
        (pool.size + 14) * pool.free.length + 8 * pool.busy.length + r.phase.budget pool.size := by
  cases hphase : r.phase with
  | idle | returned => simp [next, hphase] at hmem
  | start =>
    simp only [next, hphase, List.mem_singleton, Prod.mk.injEq] at hmem
    obtain ⟨rfl, rfl, rfl⟩ := hmem
    split <;> simp [goto, Phase.budget]
  | enter =>
    simp only [next, hphase, List.mem_singleton, Prod.mk.injEq] at hmem
    obtain ⟨rfl, rfl, rfl⟩ := hmem
    split <;> simp [goto, Phase.budget]
  | acquire =>
    simp only [next, hphase, List.mem_append, List.mem_map] at hmem
    rcases hmem with ⟨o, ho, heq⟩ | hcancelled
    · rcases Pool.mem_freeOutcomes.mp ho with ⟨-, rfl⟩ | ⟨h, rest, hfree, rfl⟩
      · cases heq
        simp [goto, Phase.budget]
      · cases heq
        refine ⟨rfl, ?_⟩
        simp only [goto, Phase.budget, Pool.updateSlot, hfree, List.length_cons, Nat.mul_succ]
        omega
    · split at hcancelled <;> simp_all [goto, Phase.budget]
  | fill h got =>
    simp only [next, hphase] at hmem
    split at hmem
    · simp only [List.mem_singleton, Prod.mk.injEq] at hmem
      obtain ⟨rfl, rfl, rfl⟩ := hmem
      refine ⟨rfl, ?_⟩
      simp only [goto, Phase.budget]
      omega
    · rename_i hmore
      split at hmem
      · simp at hmem
      · rename_i data source₁ hread
        simp only [List.mem_singleton, Prod.mk.injEq] at hmem
        obtain ⟨rfl, rfl, rfl⟩ := hmem
        have hlength := Source.length_read hread (by omega)
        refine ⟨rfl, ?_⟩
        simp only [goto, Phase.budget, Pool.write, Pool.updateSlot]
        omega
      · simp only [List.mem_singleton, Prod.mk.injEq] at hmem
        obtain ⟨rfl, rfl, rfl⟩ := hmem
        refine ⟨rfl, ?_⟩
        simp only [goto, Phase.budget]
        omega
  | stopped got how =>
    simp only [next, hphase, List.mem_singleton, Prod.mk.injEq] at hmem
    obtain ⟨rfl, rfl, rfl⟩ := hmem
    simp [goto, Phase.budget]
  | publish h =>
    simp only [next, hphase] at hmem
    split at hmem
    · rename_i pool₁ hok
      simp only [List.mem_singleton, Prod.mk.injEq] at hmem
      obtain ⟨rfl, rfl, rfl⟩ := hmem
      obtain ⟨h', -, -, -, -, -, rfl⟩ := Pool.publish_eq_ok hok
      refine ⟨rfl, ?_⟩
      simp only [goto, Phase.budget, Pool.updateSlot, List.length_append, List.length_singleton]
      omega
    · simp only [List.mem_singleton, Prod.mk.injEq] at hmem
      obtain ⟨rfl, rfl, rfl⟩ := hmem
      simp [goto, Phase.budget]
    · simp only [List.mem_singleton, Prod.mk.injEq] at hmem
      obtain ⟨rfl, rfl, rfl⟩ := hmem
      simp [goto, Phase.budget]
  | count =>
    simp only [next, hphase, List.mem_singleton, Prod.mk.injEq] at hmem
    obtain ⟨rfl, rfl, rfl⟩ := hmem
    simp [Phase.budget]

/-- A chunk that is given back has been paid for. -/
theorem Assembler.budget_releasing {a a' : Assembler} {pool pool' : Pool} {x x' : Exchange}
    {h : Nat} {phase : Phase} {failure : Error → Error}
    (hphase : phase.budget pool.size + (pool.size + 14) < a.phase.budget pool.size)
    (heq : (a', pool', x') = a.releasing pool x h phase failure) :
    pool'.size = pool.size ∧ x'.capacity = x.capacity ∧
      (pool.size + 14) * (pool'.free.length + x'.room) + 8 * pool'.busy.length +
          a'.phase.budget pool.size <
        (pool.size + 14) * (pool.free.length + x.room) + 8 * pool.busy.length +
          a.phase.budget pool.size := by
  unfold releasing at heq
  split at heq
  · rename_i pool₁ hok
    simp only [Prod.mk.injEq] at heq
    obtain ⟨rfl, rfl, rfl⟩ := heq
    obtain ⟨h', -, -, -, rfl⟩ := Pool.release_eq_ok hok
    refine ⟨rfl, rfl, ?_⟩
    simp only [goto, Pool.updateSlot, List.length_append, List.length_singleton, Nat.mul_add,
      Nat.mul_one]
    omega
  · simp only [Prod.mk.injEq] at heq
    obtain ⟨rfl, rfl, rfl⟩ := heq
    refine ⟨rfl, rfl, Nat.add_lt_add_left ?_ _⟩
    rw [show (a.goto (.failed _)).phase.budget pool'.size = 1 from rfl]
    omega

/-- A step of the assembler uses up a place for a record, or brings the record in hand
closer to its snapshot. -/
theorem Assembler.budget_lt {signals : Signals} {a a' : Assembler} {pool pool' : Pool}
    {x x' : Exchange} (hmem : (a', pool', x') ∈ a.next signals pool x) :
    pool'.size = pool.size ∧ x'.capacity = x.capacity ∧
      (pool.size + 14) * (pool'.free.length + x'.room) + 8 * pool'.busy.length +
          a'.phase.budget pool.size <
        (pool.size + 14) * (pool.free.length + x.room) + 8 * pool.busy.length +
          a.phase.budget pool.size := by
  cases hphase : a.phase with
  | idle | returned => simp [next, hphase] at hmem
  | start | count | failed =>
    simp only [next, hphase, List.mem_singleton, Prod.mk.injEq] at hmem
    obtain ⟨rfl, rfl, rfl⟩ := hmem
    refine ⟨rfl, rfl, Nat.add_lt_add_left ?_ _⟩
    cases signals.running <;> cases signals.cancelled <;> simp [goto, Phase.budget]
  | acquire =>
    simp only [next, hphase, List.mem_append, List.mem_map] at hmem
    rcases hmem with ⟨o, ho, heq⟩ | hcancelled
    · rcases Pool.mem_busyOutcomes.mp ho with ⟨-, rfl⟩ | ⟨h, rest, hbusy, rfl⟩ | ⟨-, -, rfl⟩
      · cases heq
        simp [goto, Phase.budget]
      · cases heq
        refine ⟨rfl, rfl, ?_⟩
        simp only [goto, Phase.budget, Pool.updateSlot, hbusy, List.length_cons]
        omega
      · cases heq
        simp [goto, Phase.budget]
    · split at hcancelled <;> simp_all [goto, Phase.budget]
  | inspect h =>
    simp only [next, hphase] at hmem
    split at hmem
    · rw [← hphase]
      rw [List.mem_singleton] at hmem
      exact budget_releasing (by simp only [hphase, Phase.budget]; omega) hmem
    · simp only [List.mem_singleton, Prod.mk.injEq] at hmem
      obtain ⟨rfl, rfl, rfl⟩ := hmem
      refine ⟨rfl, rfl, Nat.add_lt_add_left ?_ _⟩
      cases a.current <;> simp [goto, Phase.budget]
  | claim h core =>
    simp only [next, hphase, List.mem_append] at hmem
    rcases hmem with hclaim | hcancelled
    · unfold Exchange.claim at hclaim
      cases hempty : x.empty with
      | none => simp [hempty] at hclaim
      | some t =>
        simp only [hempty, Option.map_some, List.mem_singleton, Prod.mk.injEq] at hclaim
        obtain ⟨rfl, rfl, rfl⟩ := hclaim
        exact ⟨rfl, rfl, Nat.add_lt_add_left (by simp [Phase.budget]) _⟩
    · split at hcancelled
      · rw [← hphase]
        rw [List.mem_singleton] at hcancelled
        exact budget_releasing (by simp only [hphase, Phase.budget]; omega) hcancelled
      · simp at hcancelled
  | unpack h core =>
    simp only [next, hphase] at hmem
    rw [← hphase]
    rw [List.mem_singleton] at hmem
    exact budget_releasing (by simp only [hphase, Phase.budget]; omega) hmem
  | file core state =>
    simp only [next, hphase] at hmem
    cases hcurrent : a.current with
    | none => simp [hcurrent] at hmem
    | some t =>
      cases hput : x.put t core state with
      | error e =>
        simp only [hcurrent, hput, List.mem_singleton, Prod.mk.injEq] at hmem
        obtain ⟨rfl, rfl, rfl⟩ := hmem
        simp [goto, Phase.budget]
      | ok x₁ =>
        obtain ⟨hroom, hcapacity⟩ := Exchange.room_put hput
        cases hstamp : x₁.stamp t with
        | error e =>
          simp only [hcurrent, hput, hstamp, List.mem_singleton, Prod.mk.injEq] at hmem
          obtain ⟨rfl, rfl, rfl⟩ := hmem
          refine ⟨rfl, hcapacity, ?_⟩
          simp only [goto, Phase.budget, ← hroom, Nat.mul_add]
          omega
        | ok x₂ =>
          obtain ⟨hsame, hcapacity'⟩ := Exchange.room_stamp hstamp
          simp only [hcurrent, hput, hstamp, List.mem_singleton, Prod.mk.injEq] at hmem
          obtain ⟨rfl, rfl, rfl⟩ := hmem
          refine ⟨rfl, hcapacity'.trans hcapacity, ?_⟩
          simp only [goto, Phase.budget, hsame, ← hroom, Nat.mul_add]
          omega
  | deliver =>
    simp only [next, hphase] at hmem
    cases hcurrent : a.current with
    | none => simp [hcurrent] at hmem
    | some t =>
      simp only [hcurrent, Exchange.offer] at hmem
      cases hsealed : x.isSealed <;> cases hfull : x.full <;>
        simp_all [Phase.budget, Exchange.room, Exchange.capacity, Exchange.slots]

theorem Reader.Phase.budget_le (size : Nat) (phase : Reader.Phase) :
    phase.budget size ≤ size + 15 := by
  cases phase <;> simp only [budget] <;> omega

theorem Assembler.Phase.budget_le (size : Nat) (phase : Assembler.Phase) :
    phase.budget size ≤ size + 23 := by
  cases phase <;> simp only [budget] <;> omega

/-- What the workers can do with the chunks and the snapshots at hand, however many
bytes there are. -/
def Device.budget (d : Device) : Nat :=
  (d.pool.size + 14) * (d.pool.free.length + d.exchange.room) + 8 * d.pool.busy.length +
    d.reader.phase.budget d.pool.size + d.readerExit.rank +
    d.assembler.phase.budget d.pool.size + d.assemblerExit.rank

namespace Device

variable {d d' : Device}

/-- Every step of a worker takes from the budget. -/
theorem budget_lt (hnext : d' ∈ d.next) : d'.budget < d.budget := by
  rcases List.mem_append.mp hnext with hreader | hassembler
  · rcases mem_readerNext hreader with ⟨r, s, p, hmem, rfl⟩ | ⟨failure, hphase, hexit⟩
    · obtain ⟨hsize, hlt⟩ := Reader.budget_lt hmem
      simp only [budget, hsize, Nat.mul_add]
      omega
    · rcases hexit with ⟨hpending, rfl⟩ | ⟨hclosing, rfl⟩
      · simp [budget, Pool.finish, hpending, Exit.rank]
      · simp [budget, hclosing, Exit.rank]
  · rcases mem_assemblerNext hassembler with ⟨a, p, x, hmem, rfl⟩ | ⟨failure, hphase, hexit⟩
    · obtain ⟨hsize, -, hlt⟩ := Assembler.budget_lt hmem
      simp only [budget, hsize]
      omega
    · rcases hexit with ⟨hpending, rfl⟩ | ⟨hclosing, rfl⟩
      · simp [budget, hpending, Exit.rank, Exchange.room, Exchange.slots]
      · simp [budget, hclosing, Exit.rank]

/-- One step of either worker. -/
def Step (d d' : Device) : Prop := d' ∈ d.next

/-- Steps of the workers, in any order. -/
abbrev Run : Device → Device → Prop := Relation.ReflTransGen Step

/-- Every schedule of the workers ends. -/
theorem step_ends (d : Device) : ¬ Endless Step d :=
  @not_endless _ Step (fun _ => True) budget (fun _ _ _ _ => trivial)
    (fun _ _ _ hstep => budget_lt hstep) d trivial

/-- Settling is a schedule of the workers; with enough fuel it goes on to its end. -/
theorem run_settle_go (fuel : Nat) (d : Device) :
    Run d (settle.go fuel d) ∧ (d.budget ≤ fuel → (settle.go fuel d).next = []) := by
  induction fuel generalizing d with
  | zero =>
    refine ⟨.refl, fun hbudget => List.eq_nil_iff_forall_not_mem.mpr fun d' hnext => ?_⟩
    have : d'.budget < d.budget := budget_lt hnext
    omega
  | succ fuel ih =>
    cases hadvance : d.advance with
    | none =>
      obtain ⟨hreader, hassembler⟩ := next_of_advance hadvance
      simp only [settle.go, hadvance]
      exact ⟨.refl, fun _ => by simp [next, hreader, hassembler]⟩
    | some d' =>
      have hnext : d' ∈ d.next := List.mem_append.mpr (mem_next_of_advance hadvance)
      obtain ⟨hrun, hend⟩ := ih d'
      simp only [settle.go, hadvance]
      refine ⟨.head hnext hrun, fun hbudget => hend ?_⟩
      have := budget_lt hnext
      omega

end Device

end Cosim
