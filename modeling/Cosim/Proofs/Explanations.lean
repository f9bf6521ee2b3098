import Cosim.Proofs.Comparison
import Cosim.Proofs.Numerals
import Mathlib.Data.List.FinRange

/-!
# What is said about a difference

A comparison looks at the commit and at 32 words: the registers and the program counter.  Each word
that differs is noted as an error, with the value of the design and the value of the reference.  The
commit is compared, but nothing is noted about it.

* `Part` is a word that is compared, and `Part.entry` what is noted about it.
* `Golden.explain_eq` says that a difference is explained by the entries of the parts that differ.
* `Part.entry_inj` says that an entry tells the core, the part and both values.
* `Golden.Explained` collects what follows for one comparison, and
  `Golden.explains_differing_words` is the main statement, for every loaded trace and any calls
  before.
* `Golden.differing_commit_unexplained` is a difference about which nothing is said.
-/

namespace Cosim

/-! ## The parts and their entries -/

/-- A word of a state that is compared. -/
inductive Part where
  | register (i : Fin numRegs)
  | pc
deriving DecidableEq, Repr

namespace Part

/-- Registers are numbered from 1. -/
def name : Part → String
  | register i => s!"x{i.val + 1}"
  | pc => "pc"

/-- The part of a state. -/
def value (s : CoreState) : Part → UInt64
  | register i => s.regs[i]
  | pc => s.trap.pc

/-- The parts in the order in which they are compared. -/
def all : List Part := (List.finRange numRegs).map register ++ [pc]

theorem mem_all (p : Part) : p ∈ all := by
  cases p with
  | register i => simp [all]
  | pc => simp [all]

/-- What is noted about a part that differs. -/
def entry (core : Nat) (want got : CoreState) (p : Part) : Entry where
  level := .error
  message := s!"{p.name} different: dut={Text.hex (p.value got)} ref={Text.hex (p.value want)}"
  fields := [("core", .int core)]

/-! ## What an entry tells -/

theorem toList_name_register (i : Fin numRegs) :
    (register i).name.toList = 'x' :: Nat.toDigits 10 (i.val + 1) := by
  change ("x" ++ (i.val + 1).repr).toList = _
  rw [String.toList_append, Nat.toList_repr]
  rfl

theorem name_register_ne_pc (i : Fin numRegs) : (register i).name ≠ pc.name := by
  intro hsame
  have hchars := congrArg String.toList hsame
  rw [toList_name_register] at hchars
  exact absurd (List.cons.inj hchars).1 (by decide)

theorem name_inj {p q : Part} (hsame : p.name = q.name) : p = q := by
  cases p with
  | register i =>
    cases q with
    | register j =>
      have hnumber : (i.val + 1).repr = (j.val + 1).repr := (String.append_right_inj _).mp hsame
      have hij := Golden.repr_inj hnumber
      rw [Fin.ext (by omega : i.val = j.val)]
    | pc => exact absurd hsame (name_register_ne_pc i)
  | pc =>
    cases q with
    | register j => exact absurd hsame.symm (name_register_ne_pc j)
    | pc => rfl

theorem blank_notMem_toDigits {base n : Nat} (hbase : 1 < base) (hle : base ≤ 16) :
    ' ' ∉ Nat.toDigits base n := by
  intro hblank
  obtain ⟨d, hd, hchar⟩ := Numeral.exists_of_mem_toDigits hbase hblank
  have hd' : d < 16 := by omega
  interval_cases d <;> exact absurd hchar (by decide)

theorem blank_notMem_name (p : Part) : ' ' ∉ p.name.toList := by
  cases p with
  | register i =>
    rw [toList_name_register, List.mem_cons, not_or]
    exact ⟨by decide, blank_notMem_toDigits (by omega) (by omega)⟩
  | pc => decide

theorem blank_notMem_hex (w : UInt64) : ' ' ∉ (Text.hex w).toList := by
  rw [Text.toList_hex, List.mem_cons, not_or, List.mem_cons, not_or]
  exact ⟨by decide, by decide, blank_notMem_toDigits (by omega) (by omega)⟩

theorem hex_inj {v w : UInt64} (hsame : Text.hex v = Text.hex w) : v = w := by
  have hread := Hex.parse_hex v
  rw [hsame, Hex.parse_hex w] at hread
  exact (Except.ok.inj hread).symm

/-- A text ends where the first blank stands. -/
theorem split_at_blank {as bs rest rest' : List Char} (has : ' ' ∉ as) (hbs : ' ' ∉ bs)
    (hsame : as ++ ' ' :: rest = bs ++ ' ' :: rest') : as = bs ∧ rest = rest' := by
  induction as generalizing bs with
  | nil =>
    cases bs with
    | nil => exact ⟨rfl, (List.cons.inj hsame).2⟩
    | cons b bs => exact absurd (by rw [(List.cons.inj hsame).1]; exact List.mem_cons_self) hbs
  | cons a as ih =>
    cases bs with
    | nil => exact absurd (by rw [(List.cons.inj hsame).1]; exact List.mem_cons_self) has
    | cons b bs =>
      obtain ⟨rfl, htail⟩ := List.cons.inj hsame
      obtain ⟨rfl, hrest⟩ := ih (fun h => has (List.mem_cons_of_mem _ h))
        (fun h => hbs (List.mem_cons_of_mem _ h)) htail
      exact ⟨rfl, hrest⟩

theorem toList_message (core : Nat) (want got : CoreState) (p : Part) :
    (p.entry core want got).message.toList =
      p.name.toList ++ ' ' :: ("different:".toList ++
        ' ' :: ("dut=".toList ++ (Text.hex (p.value got)).toList ++
          ' ' :: ("ref=".toList ++ (Text.hex (p.value want)).toList))) := by
  change (p.name ++ " different: dut=" ++ Text.hex (p.value got) ++ " ref=" ++
    Text.hex (p.value want)).toList = _
  simp

/-- An entry tells the core, the part, and its value on either side. -/
theorem entry_inj {core core' : Nat} {want want' got got' : CoreState} {p q : Part}
    (hsame : p.entry core want got = q.entry core' want' got') :
    core = core' ∧ p = q ∧ p.value got = q.value got' ∧ p.value want = q.value want' := by
  have hcore : core = core' := by
    have hfields := congrArg Entry.fields hsame
    simpa [entry] using hfields
  have hmessage := congrArg (fun e => e.message.toList) hsame
  simp only [toList_message] at hmessage
  obtain ⟨hname, hvalues⟩ := split_at_blank (blank_notMem_name p) (blank_notMem_name q) hmessage
  have hvalues := (split_at_blank (by decide) (by decide) hvalues).2
  have hmark : ∀ w, ' ' ∉ "dut=".toList ++ (Text.hex w).toList := by
    intro w
    rw [List.mem_append, not_or]
    exact ⟨by decide, blank_notMem_hex w⟩
  obtain ⟨hgot, hwant⟩ := split_at_blank (hmark _) (hmark _) hvalues
  exact ⟨hcore, name_inj (String.toList_injective hname),
    hex_inj (String.toList_injective (List.append_cancel_left hgot)),
    hex_inj (String.toList_injective (List.append_cancel_left hwant))⟩

end Part

namespace Golden

/-! ## What a comparison notes -/

theorem getD_regs (s : CoreState) (i : Fin numRegs) :
    s.regs.toList.getD i 0 = (Part.register i).value s := by
  rw [List.getD_eq_getElem _ _ (by simp)]
  simp [Part.value]

/-- A difference is explained by the entries of the parts that differ. -/
theorem explain_eq (core : Nat) (want got : CoreState) :
    explain core want got =
      (Part.all.filter fun p => p.value want ≠ p.value got).map (Part.entry core want got) := by
  rw [explain, Part.all, List.filter_append, List.map_append]
  congr 1
  · rw [← List.map_coe_finRange_eq_range, List.filterMap_map, ← List.filterMap_eq_map,
      List.filterMap_filter, List.filterMap_map]
    refine List.filterMap_congr fun i _ => ?_
    simp only [Function.comp_apply, getD_regs]
    by_cases hsame : (Part.register i).value want = (Part.register i).value got
    · simp [hsame]
    · rw [if_neg hsame, if_pos (by simpa using hsame)]
      rfl
  · by_cases hsame : want.trap.pc = got.trap.pc
    · simp [Part.value, hsame]
    · simp only [List.filter_cons, Part.value, ne_eq, hsame, not_false_eq_true,
        decide_true, if_true, List.filter_nil, List.map_cons, List.map_nil]
      rfl

/-- The commit and all the parts are what is compared. -/
theorem agrees_iff {want got : CoreState} :
    agrees want got = true ↔
      want.commit = got.commit ∧ ∀ p : Part, p.value want = p.value got := by
  simp only [agrees, decide_eq_true_eq]
  constructor
  · rintro ⟨hcommit, hregs, hpc⟩
    refine ⟨hcommit, fun p => ?_⟩
    cases p with
    | register i => simp only [Part.value, hregs]
    | pc => exact hpc
  · rintro ⟨hcommit, hparts⟩
    exact ⟨hcommit, Vector.ext fun i hi => hparts (.register ⟨i, hi⟩), hparts .pc⟩

/-- The errors among the entries. -/
def errors (notes : Journal) : Journal := notes.filter (·.level == .error)

theorem errors_explain (core : Nat) (want got : CoreState) :
    errors (explain core want got) =
      (Part.all.filter fun p => p.value want ≠ p.value got).map (Part.entry core want got) := by
  rw [← explain_eq]
  refine List.filter_eq_self.mpr fun e he => ?_
  rw [level_of_mem_explain he]
  rfl

theorem mem_errors_explain {core : Nat} {want got : CoreState} {e : Entry} :
    e ∈ errors (explain core want got) ↔
      ∃ p : Part, p.value want ≠ p.value got ∧ p.entry core want got = e := by
  simp [errors_explain, Part.mem_all]

theorem errors_explain_eq_nil_iff {core : Nat} {want got : CoreState} :
    errors (explain core want got) = [] ↔ ∀ p : Part, p.value want = p.value got := by
  simp [errors_explain, Part.mem_all]

/-- The entries of a part that differs can be read in one way only. -/
theorem read_of_mem_errors {core core' : Nat} {want want' got got' : CoreState} {p : Part}
    (hmem : p.entry core' want' got' ∈ errors (explain core want got)) :
    core' = core ∧ p.value want ≠ p.value got ∧ p.value want' = p.value want ∧
      p.value got' = p.value got := by
  obtain ⟨q, hdiffers, hsame⟩ := mem_errors_explain.mp hmem
  obtain ⟨rfl, rfl, hgot, hwant⟩ := Part.entry_inj hsame
  exact ⟨rfl, hdiffers, hwant.symm, hgot.symm⟩

/-- What a comparison of a core with this record, if there is one, answers and notes. -/
structure Explained (core : Nat) (record : Option CoreState) (got : CoreState) (same : Bool)
    (notes : Journal) : Prop where
  same_iff : same = true ↔ ∀ want ∈ record,
    want.commit = got.commit ∧ ∀ p : Part, p.value want = p.value got
  /-- The parts that differ are named, each once and in order, and nothing else. -/
  errors_eq : ∀ want ∈ record, errors notes =
    (Part.all.filter fun p => p.value want ≠ p.value got).map (Part.entry core want got)
  /-- An error tells the core, a part that differs and its two values. -/
  told : ∀ want ∈ record, ∀ (p : Part) (core' : Nat) (want' got' : CoreState),
    p.entry core' want' got' ∈ errors notes →
      core' = core ∧ p.value want ≠ p.value got ∧ p.value want' = p.value want ∧
        p.value got' = p.value got
  /-- Agreement goes without an error. -/
  silent : same = true → errors notes = []
  /-- A difference does so only where it is in the commit alone. -/
  unexplained_iff : same = false ∧ errors notes = [] ↔
    ∃ want ∈ record, want.commit ≠ got.commit ∧ ∀ p : Part, p.value want = p.value got

theorem explained_same {core : Nat} {want got : CoreState} (hagrees : agrees want got = true) :
    Explained core (some want) got true [] := by
  have hsame := agrees_iff.mp hagrees
  have hnone : (Part.all.filter fun p => p.value want ≠ p.value got) = [] := by
    simp [hsame.2]
  refine ⟨by simpa using hsame, ?_, ?_, fun _ => rfl, by simpa using fun h => absurd hsame.1 h⟩
  · rintro _ ⟨⟩
    rw [hnone]
    rfl
  · intro _ _ _ _ _ _ hmem
    cases hmem

theorem explained_different {core : Nat} {want got : CoreState}
    (hdiffers : agrees want got = false) :
    Explained core (some want) got false (explain core want got) := by
  have hnot : ¬ (want.commit = got.commit ∧ ∀ p : Part, p.value want = p.value got) := by
    rw [← agrees_iff, hdiffers]
    decide
  refine ⟨by simpa using hnot, ?_, ?_, by simp, ?_⟩
  · rintro _ ⟨⟩
    exact errors_explain core want got
  · rintro _ ⟨⟩ p core' want' got' hmem
    exact read_of_mem_errors hmem
  · rw [errors_explain_eq_nil_iff]
    simp only [Option.mem_some_iff, exists_eq_left', true_and]
    exact ⟨fun hparts => ⟨fun hcommit => hnot ⟨hcommit, hparts⟩, hparts⟩, And.right⟩

/-- Past the records there is nothing to differ from. -/
theorem explained_past_end {core : Nat} {got : CoreState} {notes : Journal}
    (hnotes : errors notes = []) : Explained core none got true notes :=
  ⟨by simp, by simp, by simp, fun _ => hnotes, by simp⟩

theorem explained_notesAt (core : Nat) (records : List CoreState) (k : Nat) (got : CoreState) :
    Explained core records[k]? got (agreesAt records k got) (notesAt core records k got) := by
  unfold agreesAt notesAt
  cases records[k]? with
  | none =>
    apply explained_past_end
    dsimp only
    split <;> rfl
  | some want =>
    dsimp only
    cases hagrees : agrees want got with
    | true => exact explained_same hagrees
    | false => exact explained_different hagrees

/-- A comparison on a loaded trace is with the next record of the core. -/
theorem compare_of_load {cores : Int} {bytes : List UInt8} {g : Golden}
    (hload : load cores bytes = .ok (.ok g)) (before : List Call) {core : Nat}
    (hcore : core < cores.toNat) (got : CoreState) :
    let records := Stream.history core (Stream.records bytes)
    let k := (callsOf core before).length
    ∃ g', (g.after before).compare core got =
      .ok (g', agreesAt records k got, notesAt core records k got) := by
  intro records k
  rw [standing_of_loaded (loaded_of_load hload), after_standing, compare_standing hcore]
  simp only [Nat.zero_add]
  exact ⟨_, rfl⟩

/-- On every loaded trace, whatever calls were made before: a comparison that fails notes an error
for each register that differs, and for the program counter, and one that succeeds notes none.  Of
the commit nothing is said. -/
theorem explains_differing_words (cores : Int) (bytes : List UInt8) (g : Golden)
    (hload : load cores bytes = .ok (.ok g)) (before : List Call) (core : Nat)
    (hcore : core < cores.toNat) (got : CoreState) :
    ∃ g' same notes, (g.after before).compare core got = .ok (g', same, notes) ∧
      Explained core (Stream.history core (Stream.records bytes))[(callsOf core before).length]?
        got same notes := by
  obtain ⟨g', hcompare⟩ := compare_of_load hload before hcore got
  exact ⟨g', _, _, hcompare, explained_notesAt _ _ _ _⟩

/-- Written records of cores that there are can be loaded. -/
theorem exists_load_written {cores : Int} (hcores : 0 ≤ cores)
    (hfits : cores * laneWidth ≤ Fault.addressable) (pairs : List (UInt8 × CoreState))
    (hlt : ∀ p ∈ pairs, (p.1.toNat : Int) < cores) :
    ∃ g, load cores (Stream.written pairs) = .ok (.ok g) := by
  have hall : ∀ r ∈ Stream.records (Stream.written pairs), (r.1 : Int) < cores := by
    intro r hr
    rw [Stream.records_written] at hr
    obtain ⟨p, hp, rfl⟩ := List.mem_map.mp hr
    exact hlt p hp
  obtain ⟨g, hg⟩ := (loadFrom_answers hcores _).ok_iff.mpr ⟨Stream.whole_written pairs, hall⟩
  exact ⟨g, by rw [load_eq hcores, if_pos hfits, hg]⟩

/-- The second record of core 1 differs in `x31`, in the program counter and in the commit: there
are two errors. -/
theorem explains_differing_words_core_one :
    let want : CoreState := { trap := { pc := 4 }, commit := { valid := true, count := 1 } }
    let got : CoreState := { trap := { pc := 8 }, regs := want.regs.set 30 255 }
    ∃ g g' notes, load 2 (Stream.written [(1, want), (0, want), (1, want)]) = .ok (.ok g) ∧
      (g.after [(1, got), (0, got)]).compare 1 got = .ok (g', false, notes) ∧
      (errors notes).map Entry.message =
        ["x31 different: dut=0xff ref=0x0", "pc different: dut=0x8 ref=0x4"] := by
  intro want got
  have hcores : (0 : Int) ≤ 2 := by decide
  obtain ⟨g, hload⟩ := exists_load_written hcores (by decide) [(1, want), (0, want), (1, want)]
    (by simp)
  obtain ⟨g', same, notes, hcompare, hexplained⟩ :=
    explains_differing_words 2 _ g hload [(1, got), (0, got)] 1 (by decide) got
  rw [Stream.history_written] at hexplained
  have hdiffers : Part.value want .pc ≠ Part.value got .pc := by decide
  have hsame : same = false := by
    rw [Bool.eq_false_iff, Ne, hexplained.same_iff]
    exact fun hall => hdiffers ((hall want rfl).2 .pc)
  refine ⟨g, g', notes, hload, hsame ▸ hcompare, ?_⟩
  rw [hexplained.errors_eq want rfl]
  decide +kernel

/-- A record that differs in the commit alone is rejected without a word. -/
theorem differing_commit_unexplained :
    let want : CoreState := { commit := { valid := true, count := 1 } }
    let got : CoreState := { commit := { valid := false, count := 1 } }
    ∃ g g', load 1 (Stream.written [(0, want)]) = .ok (.ok g) ∧
      g.compare 0 got = .ok (g', false, []) := by
  intro want got
  have hcores : (0 : Int) ≤ 1 := by decide
  obtain ⟨g, hload⟩ := exists_load_written hcores (by decide) [(0, want)] (by simp)
  obtain ⟨g', hcompare⟩ := compare_of_load hload [] (Nat.zero_lt_one) got
  rw [Stream.history_written] at hcompare
  exact ⟨g, g', hload, hcompare⟩

end Golden

end Cosim
