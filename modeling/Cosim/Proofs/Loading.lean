import Cosim.Golden
import Cosim.Proofs.Codec
import Cosim.Proofs.Histories
import Mathlib.Algebra.BigOperators.Group.Finset.Piecewise

/-!
# Loading a golden trace

A golden trace is a stream of records that is sorted by core.  Loading reads record after record
and stops at the first that it cannot take: a whole record of a core that there is not, or what is
left of a record at the end of the stream.

* `Golden.sorted` puts records into the lanes of their cores, and `Golden.lane_sorted` says that
  each lane gets the history of its core.
* `Golden.loadFrom_cases` says where reading a stream ends.
* `Golden.Loaded` and `Golden.Refused` say what comes out of it, and `Golden.loadFrom_answers` when;
  `Golden.load_sorts_records` is the main statement.
-/

namespace Cosim

/-! ## Records and bytes -/

namespace Stream

variable {bytes : List UInt8} {i : Nat}

/-- The bytes that are too few for a record hold none. -/
theorem records_eq_nil (hshort : bytes.length < chunkSize) : records bytes = [] := by
  rw [records, Nat.div_eq_of_lt hshort]
  rfl

/-- Record `i` is decoded from the bytes at its place, and names the core in the byte after
them. -/
theorem getElem?_records_decode {r : Record} (hr : (records bytes)[i]? = some r) :
    CoreState.decode ((bytes.drop (chunkSize * i)).take recordSize) = .ok r.2 ∧
      (bytes[chunkSize * i + recordSize]?).map UInt8.toNat = some r.1 := by
  obtain ⟨hi, hget⟩ := List.getElem?_eq_some_iff.mp hr
  rw [length_records] at hi
  have hlong : (i + 1) * chunkSize ≤ bytes.length := Nat.mul_le_of_le_div chunkSize (i + 1) _ hi
  simp only [records, List.getElem_map, List.getElem_range, parse_take] at hget
  subst hget
  simp only [chunkSize, recordSize] at hlong ⊢
  constructor
  · exact CoreState.decode_eq (by rw [List.length_take, List.length_drop]; omega)
  · have hbyte : 297 * i + 296 < bytes.length := by omega
    simp [List.getD_eq_getElem?_getD, hbyte]

/-- The stream of these records, as they are written. -/
def written (pairs : List (UInt8 × CoreState)) : List UInt8 :=
  pairs.flatMap fun p => CoreState.encodeChunk p.1 p.2

theorem written_cons (p : UInt8 × CoreState) (pairs : List (UInt8 × CoreState)) :
    written (p :: pairs) = CoreState.encodeChunk p.1 p.2 ++ written pairs := rfl

theorem length_encodeChunk (p : UInt8 × CoreState) :
    (CoreState.encodeChunk p.1 p.2).length = chunkSize := by
  simp [CoreState.encodeChunk, chunkSize]

theorem whole_written (pairs : List (UInt8 × CoreState)) : chunkSize ∣ (written pairs).length := by
  induction pairs with
  | nil => exact Nat.dvd_zero chunkSize
  | cons p pairs ih =>
    rw [written_cons, List.length_append, length_encodeChunk]
    exact Nat.dvd_add (Nat.dvd_refl chunkSize) ih

/-- Written records are read back. -/
theorem records_written (pairs : List (UInt8 × CoreState)) :
    records (written pairs) = pairs.map fun p => (p.1.toNat, p.2) := by
  induction pairs with
  | nil => rfl
  | cons p pairs ih =>
    have hlength := length_encodeChunk p
    have hparse : parse (CoreState.encodeChunk p.1 p.2) = (p.1.toNat, p.2) := by
      have hencode := p.2.length_encode
      simp only [parse, CoreState.encodeChunk, recordSize, List.take_left' hencode,
        CoreState.ofBytes_encode]
      simp [List.getD_eq_getElem?_getD, hencode]
    rw [written_cons, records_cons (by simp [hlength]), List.take_left' hlength,
      List.drop_left' hlength, hparse, ih, List.map_cons]

theorem history_written (core : Nat) (pairs : List (UInt8 × CoreState)) :
    history core (records (written pairs)) =
      (pairs.filter fun p => p.1.toNat == core).map Prod.snd := by
  rw [records_written, history, List.filter_map, List.map_map]
  rfl

/-- Every record belongs to the history of one core. -/
theorem total_history {cores : Nat} {rs : List Record} (hlt : ∀ r ∈ rs, r.1 < cores) :
    (List.range cores).foldl (fun total core => total + (history core rs).length) 0 =
      rs.length := by
  have hsum : ∀ (f : Nat → Nat) (k : Nat), (List.range k).foldl (fun total i => total + f i) 0 =
      ∑ i ∈ Finset.range k, f i := by
    intro f k
    induction k with
    | zero => rfl
    | succ k ih =>
      rw [List.range_succ, List.foldl_append, ih, Finset.sum_range_succ]
      rfl
  rw [hsum]
  induction rs with
  | nil => simp
  | cons r rs ih =>
    have hfirst : ∑ core ∈ Finset.range cores, (if r.1 = core then [r.2] else []).length = 1 := by
      simp only [apply_ite List.length, List.length_singleton, List.length_nil, Finset.sum_ite_eq,
        Finset.mem_range, hlt r (.head _), if_true]
    simp only [history_cons, List.length_append, Finset.sum_add_distrib]
    rw [hfirst, ih fun r' hr' => hlt r' (.tail _ hr'), List.length_cons, Nat.add_comm]

end Stream

namespace Golden

variable {cores : Int} {n : Nat} {g : Golden} {bytes : List UInt8}

/-! ## Sorting -/

/-- The trace with these records added, each to the lane of its core. -/
def sorted (g : Golden) (rs : List Stream.Record) : Golden :=
  rs.foldl (fun g r => { g with lanes := g.lanes.modify r.1 (·.push r.2) }) g

@[simp] theorem released_sorted (g : Golden) (rs : List Stream.Record) :
    (g.sorted rs).released = g.released := by
  induction rs generalizing g with
  | nil => rfl
  | cons r rs ih => exact ih _

@[simp] theorem size_sorted (g : Golden) (rs : List Stream.Record) :
    (g.sorted rs).lanes.size = g.lanes.size := by
  induction rs generalizing g with
  | nil => rfl
  | cons r rs ih => exact (ih _).trans Array.size_modify

/-- Each lane gets what its core reports, in order, and is otherwise as it was. -/
theorem lane_sorted (g : Golden) (rs : List Stream.Record) (core : Nat) :
    (g.sorted rs).lanes[core]? = g.lanes[core]?.map fun l =>
      { l with records := l.records ++ (Stream.history core rs).toArray } := by
  induction rs generalizing g with
  | nil => cases hlane : g.lanes[core]? <;> simp [sorted, hlane]
  | cons r rs ih =>
    have hfirst : g.sorted (r :: rs) =
        { g with lanes := g.lanes.modify r.1 (·.push r.2) }.sorted rs := rfl
    rw [hfirst, ih, Array.getElem?_modify, Stream.history_cons]
    by_cases hsame : r.1 = core
    · cases hlane : g.lanes[core]? <;> simp [hsame, GoldenLane.push]
    · simp [hsame]

/-- A stream is read up to its first bad record, else up to what is left over, else to its end. -/
theorem loadFrom_cases (cores : Int) (n : Nat) (g : Golden) (bytes : List UInt8) :
    (∃ i r, (Stream.records bytes)[i]? = some r ∧ cores ≤ r.1 ∧
        (∀ r' ∈ (Stream.records bytes).take i, r'.1 < cores) ∧
        loadFrom cores n g bytes = .error (.within s!"record {n + i}" (.goldenCore r.1 cores))) ∨
      (∀ r ∈ Stream.records bytes, r.1 < cores) ∧
        loadFrom cores n g bytes =
          if chunkSize ∣ bytes.length then .ok (g.sorted (Stream.records bytes))
          else .error (.within s!"record {n + (Stream.records bytes).length}" .unexpectedEnd) := by
  fun_induction loadFrom cores n g bytes with
  | case1 n g => exact .inr ⟨by simp [Stream.records], by simp [Stream.records, sorted]⟩
  | case2 n g bytes hne hshort =>
    rw [Stream.records_eq_nil hshort]
    refine .inr ⟨by simp, ?_⟩
    rw [if_neg, List.length_nil, Nat.add_zero]
    intro hwhole
    exact hne (List.length_eq_zero_iff.mp (Nat.eq_zero_of_dvd_of_lt hwhole hshort))
  | case3 n g bytes hne hlong core hcore =>
    refine .inl ⟨0, (core, CoreState.ofBytes (bytes.take recordSize)), ?_, hcore, by simp, rfl⟩
    rw [Stream.records_cons (Nat.le_of_not_lt hlong), Stream.parse_take]
    rfl
  | case4 n g bytes hne hlong core hcore state ih =>
    have hrecords : Stream.records bytes =
        (core, state) :: Stream.records (bytes.drop chunkSize) := by
      rw [Stream.records_cons (Nat.le_of_not_lt hlong), Stream.parse_take]
    have hgood : (core : Int) < cores := by omega
    rw [hrecords]
    rcases ih with ⟨i, r, hr, hbad, hbefore, hload⟩ | ⟨hall, hload⟩
    · refine .inl ⟨i + 1, r, hr, hbad, ?_, ?_⟩
      · intro r' hr'
        rcases List.mem_cons.mp hr' with rfl | hr'
        · exact hgood
        · exact hbefore r' hr'
      · rw [hload, Nat.add_right_comm, Nat.add_assoc]
    · refine .inr ⟨?_, ?_⟩
      · intro r hr
        rcases List.mem_cons.mp hr with rfl | hr
        · exact hgood
        · exact hall r hr
      · have hwhole : chunkSize ∣ (bytes.drop chunkSize).length ↔ chunkSize ∣ bytes.length := by
          rw [List.length_drop, Nat.dvd_sub_self_right]
          refine or_iff_left_of_imp fun hle => ?_
          rw [Nat.le_antisymm hle (Nat.le_of_not_lt hlong)]
        have hnumber : n + 1 + (Stream.records (bytes.drop chunkSize)).length =
            n + ((core, state) :: Stream.records (bytes.drop chunkSize)).length := by
          rw [List.length_cons, Nat.add_right_comm, Nat.add_assoc]
        rw [hload, hnumber]
        simp only [hwhole]
        rfl

/-! ## What comes out of it -/

/-- A trace that is not given up has the lanes of its cores. -/
theorem lane_eq (hheld : g.released = false) {core : Nat} (hcore : core < g.lanes.size) :
    g.lane core = .ok (g.lanes.getD core {}) := by
  simp only [lane, hheld, Bool.false_eq_true, if_false, Fault.checkIndex_of_lt hcore, bind,
    Except.bind]
  rfl

theorem remaining_eq (hheld : g.released = false) {core : Nat} (hcore : core < g.lanes.size) :
    g.remaining core = .ok (g.lanes.getD core {}).remaining := by
  rw [remaining, lane_eq hheld hcore]
  rfl

/-- The trace as it is right after loading the stream: the records of each core in order, and none
of them compared. -/
structure Loaded (g : Golden) (cores : Nat) (bytes : List UInt8) : Prop where
  held : g.released = false
  size_eq : g.lanes.size = cores
  decoded : ∀ i r, (Stream.records bytes)[i]? = some r →
    CoreState.decode ((bytes.drop (chunkSize * i)).take recordSize) = .ok r.2 ∧
      (bytes[chunkSize * i + recordSize]?).map UInt8.toNat = some r.1
  lane_eq : ∀ core < cores, g.lanes[core]? =
    some { records := (Stream.history core (Stream.records bytes)).toArray }
  remaining_eq : ∀ core : Nat, core < cores →
    g.remaining core = .ok (Stream.history core (Stream.records bytes)).length
  /-- No record is lost, and none is there twice. -/
  total_eq : g.lanes.toList.foldl (fun total lane => total + lane.remaining) 0 =
    bytes.length / chunkSize

theorem loaded_sorted {cores : Nat} (hlt : ∀ r ∈ Stream.records bytes, r.1 < cores) :
    (sorted { lanes := Array.replicate cores {} } (Stream.records bytes)).Loaded cores bytes := by
  generalize hg : sorted { lanes := Array.replicate cores {} } (Stream.records bytes) = g
  have hsize : g.lanes.size = cores := by
    rw [← hg, size_sorted, Array.size_replicate]
  have hheld : g.released = false := by
    rw [← hg, released_sorted]
  have hlane : ∀ core < cores, g.lanes[core]? =
      some { records := (Stream.history core (Stream.records bytes)).toArray } := by
    intro core hcore
    rw [← hg, lane_sorted]
    simp [hcore]
  refine ⟨hheld, hsize, fun _ _ hr => Stream.getElem?_records_decode hr, hlane, ?_, ?_⟩
  · intro core hcore
    rw [remaining_eq hheld (by omega), Array.getD_eq_getD_getElem?, hlane core hcore]
    rfl
  · have hlanes : g.lanes.toList = (List.range cores).map fun core =>
        { records := (Stream.history core (Stream.records bytes)).toArray } := by
      refine List.ext_getElem (by simp [hsize]) fun core hcore _ => ?_
      rw [Array.length_toList] at hcore
      have hget := hlane core (hsize ▸ hcore)
      rw [Array.getElem?_eq_getElem hcore, Option.some.injEq] at hget
      simp [hget]
    rw [hlanes, List.foldl_map, ← Stream.length_records, ← Stream.total_history hlt]
    simp [GoldenLane.remaining]

theorem Loaded.lane_getD {cores core : Nat} (h : g.Loaded cores bytes) (hcore : core < cores) :
    g.lanes.getD core {} =
      { records := (Stream.history core (Stream.records bytes)).toArray } := by
  rw [Array.getD_eq_getD_getElem?, h.lane_eq core hcore, Option.getD_some]

theorem Loaded.lane_of_ge {cores core : Nat} (h : g.Loaded cores bytes) (hcore : cores ≤ core) :
    g.lanes.getD core {} = {} := by
  rw [Array.getD_eq_getD_getElem?, Array.getElem?_eq_none (by rw [h.size_eq]; exact hcore),
    Option.getD_none]

/-- The error names the first record that cannot be taken. -/
structure Refused (cores : Int) (bytes : List UInt8) (e : Error) : Prop where
  bad_core : ∀ i r, (Stream.records bytes)[i]? = some r → cores ≤ r.1 →
    (∀ r' ∈ (Stream.records bytes).take i, r'.1 < cores) →
    e = .within s!"record {i}" (.goldenCore r.1 cores)
  left_over : (∀ r ∈ Stream.records bytes, r.1 < cores) →
    ¬ chunkSize ∣ bytes.length ∧ e = .within s!"record {bytes.length / chunkSize}" .unexpectedEnd

/-- What loading a stream answers. -/
structure Answers (cores : Int) (bytes : List UInt8) (answer : Except Error Golden) : Prop where
  ok_iff : (∃ g, answer = .ok g) ↔
    chunkSize ∣ bytes.length ∧ ∀ r ∈ Stream.records bytes, r.1 < cores
  loaded : ∀ g, answer = .ok g → g.Loaded cores.toNat bytes
  refused : ∀ e, answer = .error e → Refused cores bytes e

theorem loadFrom_answers (hcores : 0 ≤ cores) (bytes : List UInt8) :
    Answers cores bytes (loadFrom cores 0 { lanes := Array.replicate cores.toNat {} } bytes) := by
  rcases loadFrom_cases cores 0 { lanes := Array.replicate cores.toNat {} } bytes with
    ⟨i, r, hr, hbad, hbefore, hload⟩ | ⟨hall, hload⟩
  · have hnot : ¬ ∀ r' ∈ Stream.records bytes, (r'.1 : Int) < cores := by
      intro hall
      have := hall r (List.mem_of_getElem? hr)
      omega
    rw [hload]
    refine ⟨iff_of_false (by simp) fun hboth => hnot hboth.2, by simp, fun e he => ?_⟩
    refine ⟨fun j r' hr' hbad' hbefore' => ?_, fun hall => absurd hall hnot⟩
    -- Only one record can be the first bad one.
    have hsame : i = j := by
      rcases Nat.lt_trichotomy i j with hlt | heq | hgt
      · have := hbefore' r (List.mem_of_getElem? (by rw [List.getElem?_take_of_lt hlt, hr]))
        omega
      · exact heq
      · have := hbefore r' (List.mem_of_getElem? (by rw [List.getElem?_take_of_lt hgt, hr']))
        omega
    subst hsame
    obtain rfl : r = r' := Option.some.inj (hr.symm.trans hr')
    rw [← Except.error.inj he, Nat.zero_add]
  · rw [hload]
    have hlt : ∀ r ∈ Stream.records bytes, r.1 < cores.toNat := by
      intro r hr
      have := hall r hr
      omega
    by_cases hwhole : chunkSize ∣ bytes.length
    · rw [if_pos hwhole]
      refine ⟨iff_of_true ⟨_, rfl⟩ ⟨hwhole, hall⟩, fun g hg => ?_, by simp⟩
      obtain rfl := Except.ok.inj hg
      exact loaded_sorted hlt
    · rw [if_neg hwhole]
      refine ⟨iff_of_false (by simp) fun hboth => hwhole hboth.1, by simp, fun e he => ?_⟩
      refine ⟨fun i r hr hbad _ => ?_, fun _ => ⟨hwhole, ?_⟩⟩
      · have := hall r (List.mem_of_getElem? hr)
        omega
      · rw [← Except.error.inj he, Nat.zero_add, Stream.length_records]

/-- A trace whose lanes fit into memory is loaded or refused, and one whose lanes do not fit is not
even begun. -/
theorem load_eq (hcores : 0 ≤ cores) (bytes : List UInt8) :
    load cores bytes =
      if cores * laneWidth ≤ Fault.addressable then
        .ok (loadFrom cores 0 { lanes := Array.replicate cores.toNat {} } bytes)
      else .error .allocation := by
  by_cases hfits : cores * laneWidth ≤ Fault.addressable
  · rw [if_pos hfits]
    simp only [load, empty, Fault.checkAllocation_of_fits hcores hfits, bind, Except.bind]
    rfl
  · rw [if_neg hfits]
    simp only [load, empty, Fault.checkAllocation_of_exceeds (Int.lt_of_not_ge hfits), bind,
      Except.bind]

/-- What has been loaded is as the stream says. -/
theorem loaded_of_load (hload : load cores bytes = .ok (.ok g)) : g.Loaded cores.toNat bytes := by
  have hcores : 0 ≤ cores := by
    by_contra hneg
    have hfault : Fault.checkAllocation cores laneWidth = .error .allocation :=
      if_pos (.inl (Int.lt_of_not_ge hneg))
    simp [load, empty, hfault, bind, Except.bind] at hload
  rw [load_eq hcores] at hload
  split at hload
  · exact (loadFrom_answers hcores bytes).loaded g (Except.ok.inj hload)
  · cases hload

/-- For every number of cores: if their lanes fit into memory, a stream is accepted exactly if it
is made of whole records of these cores, and is then sorted by core without loss, so that written
records come back; otherwise the error names the first record that could not be taken.  Lanes that
do not fit are a fault, whatever the stream. -/
theorem load_sorts_records (cores : Int) (hcores : 0 ≤ cores) :
    (cores * laneWidth ≤ Fault.addressable →
      (∀ bytes, ∃ answer, load cores bytes = .ok answer ∧ Answers cores bytes answer) ∧
      ∀ pairs : List (UInt8 × CoreState), (∀ p ∈ pairs, (p.1.toNat : Int) < cores) →
        ∃ g, load cores (Stream.written pairs) = .ok (.ok g) ∧ ∀ core < cores.toNat,
          (g.lanes.getD core {}).records.toList =
            (pairs.filter fun p => p.1.toNat == core).map Prod.snd) ∧
    (Fault.addressable < cores * laneWidth → ∀ bytes, load cores bytes = .error .allocation) := by
  refine ⟨fun hfits => ⟨fun bytes => ?_, fun pairs hlt => ?_⟩, fun hexceeds bytes => ?_⟩
  · exact ⟨_, by rw [load_eq hcores, if_pos hfits], loadFrom_answers hcores bytes⟩
  · have hanswers := loadFrom_answers hcores (Stream.written pairs)
    have hall : ∀ r ∈ Stream.records (Stream.written pairs), (r.1 : Int) < cores := by
      intro r hr
      rw [Stream.records_written] at hr
      obtain ⟨p, hp, rfl⟩ := List.mem_map.mp hr
      exact hlt p hp
    obtain ⟨g, hg⟩ := hanswers.ok_iff.mpr ⟨Stream.whole_written pairs, hall⟩
    refine ⟨g, by rw [load_eq hcores, if_pos hfits, hg], fun core hcore => ?_⟩
    rw [(hanswers.loaded g hg).lane_getD hcore, Stream.history_written]
  · rw [load_eq hcores, if_neg (Int.not_le_of_gt hexceeds)]

/-- Two cores.  Three records come back sorted; a stream with a record of a third core and half a
record after it is refused for the record. -/
theorem load_sorts_records_two_cores :
    let first : CoreState := { trap := { pc := 1 } }
    let second : CoreState := { trap := { pc := 2 } }
    let broken := Stream.written [(0, first), (2, second), (3, second)] ++ [7, 7]
    (0 : Int) ≤ 2 ∧
      (∃ g, load 2 (Stream.written [(1, first), (0, second), (1, second)]) = .ok (.ok g) ∧
        (g.lanes.getD 1 {}).records.toList = [first, second]) ∧
      load 2 broken = .ok (.error (.within "record 1" (.goldenCore 2 2))) := by
  intro first second broken
  obtain ⟨hanswer, hwritten⟩ := (load_sorts_records 2 (by decide)).1 (by decide)
  refine ⟨by decide, ?_, ?_⟩
  · obtain ⟨g, hload, hlanes⟩ := hwritten [(1, first), (0, second), (1, second)] (by decide)
    exact ⟨g, hload, hlanes 1 (by decide)⟩
  · have hrecord : (Stream.records broken)[1]? = some (2, second) := by decide +kernel
    obtain ⟨answer, hload, hanswers⟩ := hanswer broken
    cases answer with
    | ok g =>
      have hlt := (hanswers.ok_iff.mp ⟨g, rfl⟩).2 _ (List.mem_of_getElem? hrecord)
      exact absurd hlt (by decide)
    | error e =>
      rw [hload, (hanswers.refused e rfl).bad_core 1 _ hrecord (by decide) (by decide +kernel)]
      rfl

/-- The lanes of very many cores do not fit into memory, so that not even the empty stream, which
has no bad record and nothing left over, can be loaded. -/
theorem load_faults_beyond_memory :
    let cores : Int := 4611686018427387904
    0 ≤ cores ∧ chunkSize ∣ ([] : List UInt8).length ∧
      (∀ r ∈ Stream.records [], (r.1 : Int) < cores) ∧ load cores [] = .error .allocation ∧
      ¬ ∃ g, load cores [] = .ok (.ok g) := by
  intro cores
  have hload : load cores [] = .error .allocation := rfl
  refine ⟨by decide, by decide, by simp [Stream.records], hload, ?_⟩
  rintro ⟨g, hg⟩
  cases hload.symm.trans hg

end Golden

end Cosim
