import Cosim.Assembler
import Cosim.Proofs.Handover
import Cosim.Proofs.Supply

/-!
# What the assembler makes of the line

The assembler takes the records of a stream off the line, one at a time and in
order, and files them in the snapshot that it fills.  As the party of an exchange
it is a filler: each of its steps is a move of a hand-over, or none.

* `Assembler.inHand` is the record that is off the line and not yet filed.
* `Assembly` is the invariant: the records filed so far are the first ones of the
  stream, none of them is bad, every whole block of them has been published, and
  the rest is in the snapshot being filled.
* `Assembled.next` is its step lemma.
-/

namespace Cosim

namespace Assembler

/-- The chunk that the assembler reads. -/
def Phase.hand : Phase → List Nat
  | .inspect h | .claim h _ | .unpack h _ => [h]
  | _ => []

/-- The assembler files nothing more. -/
def Phase.isOver : Phase → Bool
  | .failed _ | .returned _ => true
  | _ => false

/-- The core that the record in hand was found to name. -/
def Phase.core : Phase → Option Nat
  | .claim _ core | .unpack _ core | .file core _ => some core
  | _ => none

/-- The phase works on a snapshot. -/
def Phase.files : Phase → Bool
  | .unpack _ _ | .file _ _ | .deliver => true
  | _ => false

/-- The record that is off the line and not yet filed. -/
def inHand (a : Assembler) (pool : Pool) : Option Stream.Record :=
  match a.phase with
  | .inspect h | .claim h _ | .unpack h _ => some (Stream.parse (pool.slot h).bytes)
  | .file core state => some (core, state)
  | _ => none

/-- Where the assembler stands as the filler of an exchange. -/
def filler (a : Assembler) (isSealed : Bool) : Filler :=
  if isSealed then .gone a.current
  else
    match a.current with
    | none => .idle
    | some t => if a.phase = .deliver then .sending t else .filling t

theorem ticket_filler (a : Assembler) (isSealed : Bool) :
    (a.filler isSealed).ticket = a.current := by
  unfold filler
  split
  · rfl
  · cases a.current with
    | none => rfl
    | some t => by_cases h : a.phase = .deliver <;> simp [h, Filler.ticket]

end Assembler

/-- The records filed so far, `filed` in number, are the first ones of the stream:
whole blocks are published, the rest is in the snapshot being filled. -/
structure Assembly (cores : Nat) (rs : List Stream.Record) (signals : Signals) (calm : Prop)
    (a : Assembler) (pool : Pool) (h : Handover) (acquired filed : Nat) : Prop where
  started : a.phase ≠ .idle
  cores_eq : a.cores = cores
  filler_eq : h.filler = a.filler h.exchange.isSealed
  filed_le : filed ≤ rs.length
  good : ∀ i < filed, Stream.isBad cores rs i = false
  acquired_le : acquired ≤ rs.length
  in_hand : ∀ r, a.inHand pool = some r → rs[filed]? = some r ∧ acquired = filed + 1
  hand_empty : a.inHand pool = none → a.phase.isOver = false → acquired = filed
  core_eq : ∀ core, a.phase.core = some core →
    core < cores ∧ (a.inHand pool).map Prod.fst = some core
  holding : a.phase.files = true → a.current = some 0
  claiming : ∀ chunk core, a.phase = .claim chunk core → a.current = none
  between : a.current = none → filed % cores = 0
  filling : a.current = some 0 → a.phase ≠ .deliver → h.puts = Stream.before cores rs filed
  delivering : a.phase = .deliver →
    filed % cores = 0 ∧ h.puts = Stream.block cores rs h.published.length
  published_length : h.published.length + (if a.phase = .deliver then 1 else 0) = filed / cores
  published_holds : ∀ (k : Nat) (s : Snapshot), h.published[k]? = some s →
    s.Holds cores (Stream.block cores rs k)
  failed : ∀ e, a.phase = .failed e →
    e = .cancelled ∧ signals.cancelled = true ∨
      Stream.isBad cores rs filed = true ∧ Stream.refusal cores rs = some e
  refused : ∀ e, a.phase = .returned (some e) →
    Stream.isBad cores rs filed = true ∧ Stream.refusal cores rs = some e
  finished : a.phase = .returned none → calm → filed = rs.length ∧ pool.isSealed = true

/-- The assembler keeps its promise on a line that the reader keeps. -/
def Assembled (cores : Nat) (stream pending : List UInt8) (signals : Signals) (calm : Prop)
    (r : Reader) (source : Source) (a : Assembler) (pool : Pool) (h : Handover) : Prop :=
  ∃ acquired filed, Supplied chunkSize stream pending calm a.phase.hand acquired r source pool ∧
    Assembly cores (Stream.records stream) signals calm a pool h acquired filed

namespace Assembly

variable {cores : Nat} {rs : List Stream.Record} {signals : Signals} {calm : Prop}
  {a a' : Assembler} {pool pool' : Pool} {h : Handover} {acquired filed : Nat}

/-- What happens to the rest of the pool does not concern the assembler. -/
theorem of_pool {signals' : Signals} {calm' : Prop}
    (ha : Assembly cores rs signals calm a pool h acquired filed)
    (hbytes : ∀ g ∈ a.phase.hand, (pool'.slot g).bytes = (pool.slot g).bytes)
    (hsealed : pool.isSealed = true → pool'.isSealed = true)
    (hsignals : signals.cancelled = true → signals'.cancelled = true) (himp : calm' → calm) :
    Assembly cores rs signals' calm' a pool' h acquired filed := by
  have hhand : a.inHand pool' = a.inHand pool := by
    cases hphase : a.phase with
    | inspect g | claim g | unpack g =>
      simp only [Assembler.inHand, hphase, hbytes g (by simp [hphase, Assembler.Phase.hand])]
    | _ => simp only [Assembler.inHand, hphase]
  exact
    { ha with
      in_hand := hhand ▸ ha.in_hand
      hand_empty := hhand ▸ ha.hand_empty
      core_eq := hhand ▸ ha.core_eq
      failed := fun e hphase => (ha.failed e hphase).imp_left fun hc => ⟨hc.1, hsignals hc.2⟩
      finished := fun hphase hcalm =>
        ⟨(ha.finished hphase (himp hcalm)).1, hsealed (ha.finished hphase (himp hcalm)).2⟩ }

/-- What the taker does does not concern the assembler. -/
theorem of_handover {h' : Handover} (ha : Assembly cores rs signals calm a pool h acquired filed)
    (hfiller : h'.filler = a.filler h'.exchange.isSealed) (hputs : h'.puts = h.puts)
    (hpublished : h'.published = h.published) :
    Assembly cores rs signals calm a pool h' acquired filed :=
  { ha with
    filler_eq := hfiller
    filling := hputs ▸ ha.filling
    delivering := by
      rw [hputs, hpublished]
      exact ha.delivering
    published_length := hpublished ▸ ha.published_length
    published_holds := hpublished ▸ ha.published_holds }

/-- The assembler goes on with the record in hand, or with none, and with the
snapshot it has. -/
theorem goOn (ha : Assembly cores rs signals calm a pool h acquired filed)
    (hcores : a'.cores = a.cores) (hcurrent : a'.current = a.current)
    (hover : a.phase.isOver = false) (hover' : a'.phase.isOver = false)
    (hidle : a'.phase ≠ .idle) (hdeliver : a.phase ≠ .deliver) (hdeliver' : a'.phase ≠ .deliver)
    (hhand : a'.inHand pool' = a.inHand pool)
    (hcore : ∀ core, a'.phase.core = some core →
      core < cores ∧ (a'.inHand pool').map Prod.fst = some core)
    (hfiles : a'.phase.files = true → a'.current = some 0)
    (hclaim : ∀ chunk core, a'.phase = .claim chunk core → a'.current = none) :
    Assembly cores rs signals calm a' pool' h acquired filed where
  started := hidle
  cores_eq := hcores.trans ha.cores_eq
  filler_eq := by
    rw [ha.filler_eq]
    simp only [Assembler.filler, hcurrent, hdeliver, hdeliver', if_false]
  filed_le := ha.filed_le
  good := ha.good
  acquired_le := ha.acquired_le
  in_hand := by
    rw [hhand]
    exact ha.in_hand
  hand_empty := fun hnone _ => ha.hand_empty (hhand ▸ hnone) hover
  core_eq := hcore
  holding := hfiles
  claiming := hclaim
  between := hcurrent ▸ ha.between
  filling := fun hc _ => ha.filling (hcurrent ▸ hc) hdeliver
  delivering := fun hd => absurd hd hdeliver'
  published_length := by
    rw [if_neg hdeliver']
    simpa [hdeliver] using ha.published_length
  published_holds := ha.published_holds
  failed := by
    rintro e he
    simp [he, Assembler.Phase.isOver] at hover'
  refused := by
    rintro e he
    simp [he, Assembler.Phase.isOver] at hover'
  finished := by
    intro he
    simp [he, Assembler.Phase.isOver] at hover'

/-- The assembler stops with the snapshot it has. -/
theorem giveUp (ha : Assembly cores rs signals calm a pool h acquired filed)
    {phase : Assembler.Phase} (hover : phase.isOver = true) (hdeliver : a.phase ≠ .deliver)
    (hfailed : ∀ e, phase = .failed e →
      e = .cancelled ∧ signals.cancelled = true ∨
        Stream.isBad cores rs filed = true ∧ Stream.refusal cores rs = some e)
    (hrefused : ∀ e, phase = .returned (some e) →
      Stream.isBad cores rs filed = true ∧ Stream.refusal cores rs = some e)
    (hfinished : phase = .returned none → calm → filed = rs.length ∧ pool'.isSealed = true) :
    Assembly cores rs signals calm (a.goto phase) pool' h acquired filed := by
  have hdeliver' : phase ≠ .deliver := by
    rintro rfl
    cases hover
  have hquiet : phase ≠ .idle ∧ phase.core = none ∧ phase.files = false ∧
      (a.goto phase).inHand pool' = none ∧ ∀ chunk core, phase ≠ .claim chunk core := by
    cases phase with
    | failed | returned => simp [Assembler.Phase.core, Assembler.Phase.files, Assembler.inHand,
        Assembler.goto]
    | _ => cases hover
  exact
    { started := hquiet.1
      cores_eq := ha.cores_eq
      filler_eq := by
        rw [ha.filler_eq]
        simp only [Assembler.filler, Assembler.goto, hdeliver, hdeliver', if_false]
      filed_le := ha.filed_le
      good := ha.good
      acquired_le := ha.acquired_le
      in_hand := by simp [hquiet]
      hand_empty := fun _ hnot => by simp [Assembler.goto, hover] at hnot
      core_eq := by simp [Assembler.goto, hquiet]
      holding := by simp [Assembler.goto, hquiet]
      claiming := by simp [Assembler.goto, hquiet]
      between := ha.between
      filling := fun hc _ => ha.filling hc hdeliver
      delivering := fun hd => absurd hd hdeliver'
      published_length := by
        rw [if_neg (show (a.goto phase).phase ≠ .deliver from hdeliver')]
        simpa [hdeliver] using ha.published_length
      published_holds := ha.published_holds
      failed := hfailed
      refused := hrefused
      finished := hfinished }

/-- A record comes off the line. -/
theorem acquire (ha : Assembly cores rs signals calm a pool h acquired filed)
    (hphase : a.phase = .acquire) {chunk : Nat}
    (hrecord : rs[acquired]? = some (Stream.parse (pool'.slot chunk).bytes)) :
    Assembly cores rs signals calm (a.goto (.inspect chunk)) pool' h (acquired + 1) filed := by
  have hsame : acquired = filed :=
    ha.hand_empty (by simp [Assembler.inHand, hphase]) (by simp [hphase, Assembler.Phase.isOver])
  have hlt := (List.getElem?_eq_some_iff.mp hrecord).1
  have hlength := ha.published_length
  simp only [hphase, reduceCtorEq, if_false] at hlength
  exact
    { started := by simp [Assembler.goto]
      cores_eq := ha.cores_eq
      filler_eq := by
        rw [ha.filler_eq]
        simp [Assembler.filler, Assembler.goto, hphase]
      filed_le := ha.filed_le
      good := ha.good
      acquired_le := hlt
      in_hand := by
        rintro r hr
        cases hr
        exact ⟨hsame ▸ hrecord, by rw [hsame]⟩
      hand_empty := fun hnone => by simp [Assembler.inHand, Assembler.goto] at hnone
      core_eq := by simp [Assembler.goto, Assembler.Phase.core]
      holding := by simp [Assembler.goto, Assembler.Phase.files]
      claiming := by simp [Assembler.goto]
      between := ha.between
      filling := fun hc _ => ha.filling hc (by simp [hphase])
      delivering := by simp [Assembler.goto]
      published_length := by simpa [Assembler.goto] using hlength
      published_holds := ha.published_holds
      failed := by simp [Assembler.goto]
      refused := by simp [Assembler.goto]
      finished := by simp [Assembler.goto] }

/-- The snapshot that the assembler has, if any, is the one there is. -/
theorem current_eq (ha : Assembly cores rs signals calm a pool h acquired filed)
    (inv : h.Inv cores) (hcurrent : a.current ≠ none) : a.current = some 0 := by
  obtain ⟨t, ht⟩ := Option.ne_none_iff_exists'.mp hcurrent
  have howned := inv.owned
  rw [ha.filler_eq, Assembler.ticket_filler, ht] at howned
  rw [ht, howned.of_claimed.1]

/-- The snapshot that the assembler claims is empty, as the block is. -/
theorem claim (ha : Assembly cores rs signals calm a pool h acquired filed) (inv : h.Inv cores)
    {chunk core : Nat} (hphase : a.phase = .claim chunk core) {t : Ticket} {x : Exchange}
    (hclaim : h.exchange.claim = some (t, x)) (hopen : h.exchange.isSealed = false) :
    h.filler = .idle ∧
      Assembly cores rs signals calm { a with phase := .unpack chunk core, current := some t } pool
        { h with exchange := x, filler := .filling t, puts := [] } acquired filed := by
  obtain ⟨rfl, hempty, rfl, -⟩ := inv.owned.claim hclaim
  have hnone : a.current = none := by
    rw [← a.ticket_filler h.exchange.isSealed, ← ha.filler_eq]
    exact (inv.owned.of_empty hempty).2.1
  have hlength := ha.published_length
  simp only [hphase, reduceCtorEq, if_false] at hlength
  refine ⟨by simp [ha.filler_eq, Assembler.filler, hopen, hnone], ?_⟩
  exact
    { started := by simp
      cores_eq := ha.cores_eq
      filler_eq := by simp [Assembler.filler, hopen]
      filed_le := ha.filed_le
      good := ha.good
      acquired_le := ha.acquired_le
      in_hand := by simpa [Assembler.inHand, hphase] using ha.in_hand
      hand_empty := by simp [Assembler.inHand]
      core_eq := by simpa [Assembler.inHand, Assembler.Phase.core, hphase] using ha.core_eq
      holding := fun _ => rfl
      claiming := by simp
      between := by simp
      filling := fun _ _ => by simp [Stream.before, ha.between hnone]
      delivering := by simp
      published_length := by simpa using hlength
      published_holds := ha.published_holds
      failed := by simp
      refused := by simp
      finished := by simp }

/-- What the assembler knows when it files a record. -/
theorem to_file (ha : Assembly cores rs signals calm a pool h acquired filed) (inv : h.Inv cores)
    {core : Nat} {state : CoreState} (hphase : a.phase = .file core state) :
    a.current = some 0 ∧ h.puts = Stream.before cores rs filed ∧
      (h.exchange.snapshot 0).Holds cores (Stream.before cores rs filed) ∧
      rs[filed]? = some (core, state) ∧ acquired = filed + 1 ∧ core < cores := by
  have hcurrent := ha.holding (by simp [hphase, Assembler.Phase.files])
  have hputs := ha.filling hcurrent (by simp [hphase])
  have hholds := inv.claimed (by rw [ha.filler_eq, Assembler.ticket_filler, hcurrent])
  obtain ⟨hrecord, hacquired⟩ := ha.in_hand (core, state) (by simp [Assembler.inHand, hphase])
  exact ⟨hcurrent, hputs, hputs ▸ hholds, hrecord, hacquired,
    (ha.core_eq core (by simp [hphase, Assembler.Phase.core])).1⟩

/-- A record that the snapshot refuses repeats a core of its block. -/
theorem put_error (ha : Assembly cores rs signals calm a pool h acquired filed) (inv : h.Inv cores)
    {core : Nat} {state : CoreState} (hphase : a.phase = .file core state) {e : Error}
    (hput : h.exchange.put 0 core state = .error e) :
    Stream.isBad cores rs filed = true ∧ Stream.refusal cores rs = some e := by
  obtain ⟨-, -, hholds, hrecord, -, hlt⟩ := ha.to_file inv hphase
  unfold Exchange.put at hput
  cases hs : (h.exchange.snapshot 0).put core state with
  | ok s => simp [hs, bind, Except.bind, pure, Except.pure] at hput
  | error e' =>
    simp only [hs, bind, Except.bind, Except.error.injEq] at hput
    subst hput
    rcases hholds.put_error hs with ⟨-, hrange⟩ | ⟨rfl, -, -, old, hold⟩
    · omega
    · have hbad : Stream.isBad cores rs filed = true :=
        (Stream.isBad_iff hrecord).mpr (.inr ⟨old, by simpa using hold⟩)
      refine ⟨hbad, ?_⟩
      rw [Stream.refusal_of_isBad hrecord ha.good hbad, if_neg (by simpa using hlt)]
      simp

/-- A record that is filed is good. -/
theorem put_ok (ha : Assembly cores rs signals calm a pool h acquired filed) (inv : h.Inv cores)
    {core : Nat} {state : CoreState} (hphase : a.phase = .file core state) {x : Exchange}
    (hput : h.exchange.put 0 core state = .ok x) :
    Stream.isBad cores rs filed = false ∧ x.isSealed = h.exchange.isSealed ∧
      (x.snapshot 0).Holds cores (Stream.before cores rs filed ++ [(core, state)]) := by
  obtain ⟨-, -, hholds, hrecord, -, hlt⟩ := ha.to_file inv hphase
  unfold Exchange.put at hput
  cases hs : (h.exchange.snapshot 0).put core state with
  | error e => simp [hs, bind, Except.bind] at hput
  | ok s =>
    simp only [hs, bind, Except.bind, pure, Except.pure, Except.ok.injEq] at hput
    subst hput
    obtain ⟨-, -, hfresh, hholds'⟩ := hholds.put_ok hs
    refine ⟨?_, rfl, ?_⟩
    · rw [← Bool.not_eq_true, Stream.isBad_iff hrecord]
      rintro (hge | ⟨old, hold⟩)
      · exact absurd hlt (Nat.not_lt.mpr hge)
      · exact hfresh old (by simpa using hold)
    · rw [inv.owned.snapshot_update]
      simpa using hholds'

/-- A record that does not complete its block joins it. -/
theorem file (ha : Assembly cores rs signals calm a pool h acquired filed) (inv : h.Inv cores)
    {core : Nat} {state : CoreState} (hphase : a.phase = .file core state) {x : Exchange}
    (hput : h.exchange.put 0 core state = .ok x) (hmod : (filed + 1) % cores ≠ 0) :
    Assembly cores rs signals calm (a.goto .start) pool
      { h with exchange := x, puts := h.puts ++ [(core, state)] } acquired (filed + 1) := by
  obtain ⟨hcurrent, hputs, -, hrecord, hacquired, -⟩ := ha.to_file inv hphase
  obtain ⟨hgood, hsealed, -⟩ := ha.put_ok inv hphase hput
  have hlength := ha.published_length
  simp only [hphase, reduceCtorEq, if_false] at hlength
  exact
    { started := by simp [Assembler.goto]
      cores_eq := ha.cores_eq
      filler_eq := by
        rw [ha.filler_eq]
        simp [Assembler.filler, Assembler.goto, hphase, hsealed]
      filed_le := (List.getElem?_eq_some_iff.mp hrecord).1
      good := fun i hi => by
        rcases Nat.lt_succ_iff_lt_or_eq.mp hi with hlt | rfl
        · exact ha.good i hlt
        · exact hgood
      acquired_le := ha.acquired_le
      in_hand := by simp [Assembler.inHand, Assembler.goto]
      hand_empty := fun _ _ => hacquired
      core_eq := by simp [Assembler.goto, Assembler.Phase.core]
      holding := by simp [Assembler.goto, Assembler.Phase.files]
      claiming := by simp [Assembler.goto]
      between := by simp [Assembler.goto, hcurrent]
      filling := fun _ _ => by rw [Stream.before_succ hrecord hmod, hputs]
      delivering := by simp [Assembler.goto]
      published_length := by
        rw [Stream.succ_div_of_mod_ne_zero hmod]
        simpa [Assembler.goto] using hlength
      published_holds := ha.published_holds
      failed := by simp [Assembler.goto]
      refused := by simp [Assembler.goto]
      finished := by simp [Assembler.goto] }

/-- The record that completes its block makes a snapshot of it. -/
theorem fileLast (ha : Assembly cores rs signals calm a pool h acquired filed) (inv : h.Inv cores)
    {core : Nat} {state : CoreState} (hphase : a.phase = .file core state) {x x' : Exchange}
    (hput : h.exchange.put 0 core state = .ok x) (hopen : h.exchange.isSealed = false)
    (hsealed' : x'.isSealed = x.isSealed) (hmod : (filed + 1) % cores = 0) :
    Assembly cores rs signals calm (a.goto .deliver) pool
      { h with exchange := x', filler := .sending 0, puts := h.puts ++ [(core, state)] } acquired
      (filed + 1) := by
  obtain ⟨hcurrent, hputs, -, hrecord, hacquired, -⟩ := ha.to_file inv hphase
  obtain ⟨hgood, hsealed, -⟩ := ha.put_ok inv hphase hput
  have hlength := ha.published_length
  simp only [hphase, reduceCtorEq, if_false, Nat.add_zero] at hlength
  exact
    { started := by simp [Assembler.goto]
      cores_eq := ha.cores_eq
      filler_eq := by
        simp [Assembler.filler, Assembler.goto, hsealed', hsealed, hopen, hcurrent]
      filed_le := (List.getElem?_eq_some_iff.mp hrecord).1
      good := fun i hi => by
        rcases Nat.lt_succ_iff_lt_or_eq.mp hi with hlt | rfl
        · exact ha.good i hlt
        · exact hgood
      acquired_le := ha.acquired_le
      in_hand := by simp [Assembler.inHand, Assembler.goto]
      hand_empty := fun _ _ => hacquired
      core_eq := by simp [Assembler.goto, Assembler.Phase.core]
      holding := fun _ => hcurrent
      claiming := by simp [Assembler.goto]
      between := by simp [Assembler.goto, hcurrent]
      filling := by simp [Assembler.goto]
      delivering := fun _ => ⟨hmod, by rw [hlength, Stream.block_of_succ hrecord hmod, hputs]⟩
      published_length := by
        rw [(Stream.succ_div_of_mod_eq_zero hmod).1]
        simpa [Assembler.goto] using hlength
      published_holds := ha.published_holds
      failed := by simp [Assembler.goto]
      refused := by simp [Assembler.goto]
      finished := by simp [Assembler.goto] }

/-- A complete snapshot goes to the taker. -/
theorem deliver (ha : Assembly cores rs signals calm a pool h acquired filed) (inv : h.Inv cores)
    (hphase : a.phase = .deliver) (hopen : h.exchange.isSealed = false) :
    h.filler = .sending 0 ∧ a.current = some 0 ∧
      h.exchange.offer 0 = .done { h.exchange with full := some 0 } ∧
      Assembly cores rs signals calm { a with phase := .count, current := none } pool
        { h with
          exchange := { h.exchange with full := some 0 }, filler := .idle
          published := h.published ++ [h.exchange.snapshot 0] } acquired filed := by
  have hcurrent := ha.holding (by simp [hphase, Assembler.Phase.files])
  have hfiller : h.filler = .sending 0 := by
    simp [ha.filler_eq, Assembler.filler, hopen, hcurrent, hphase]
  have howned := inv.owned
  simp only [hfiller, Filler.ticket] at howned
  obtain ⟨hmod, hputs⟩ := ha.delivering hphase
  have hholds := inv.claimed (by simp [hfiller, Filler.ticket])
  rw [hputs] at hholds
  have hlength := ha.published_length
  rw [if_pos hphase] at hlength
  refine ⟨hfiller, hcurrent, (howned.offer hopen).1, ?_⟩
  exact
    { started := by simp
      cores_eq := ha.cores_eq
      filler_eq := by simp [Assembler.filler, hopen]
      filed_le := ha.filed_le
      good := ha.good
      acquired_le := ha.acquired_le
      in_hand := by simp [Assembler.inHand]
      hand_empty := fun _ _ => ha.hand_empty (by simp [Assembler.inHand, hphase])
        (by simp [hphase, Assembler.Phase.isOver])
      core_eq := by simp [Assembler.Phase.core]
      holding := by simp [Assembler.Phase.files]
      claiming := by simp
      between := fun _ => hmod
      filling := by simp
      delivering := by simp
      published_length := by simpa using hlength
      published_holds := by
        intro k s hk
        rcases Nat.lt_trichotomy k h.published.length with hlt | rfl | hgt
        · rw [List.getElem?_append_left hlt] at hk
          exact ha.published_holds k s hk
        · rw [List.getElem?_concat_length, Option.some.injEq] at hk
          exact hk ▸ hholds
        · rw [List.getElem?_eq_none (by simp; omega)] at hk
          cases hk
      failed := by simp
      refused := by simp
      finished := by simp }

end Assembly

namespace Assembled

variable {cores : Nat} {stream pending : List UInt8} {signals : Signals} {calm : Prop}
  {r : Reader} {source : Source} {a a' : Assembler} {pool pool' : Pool} {h : Handover}
  {x : Exchange}

/-- What a step of the assembler leads to: some moves of the filler, and nothing
for the taker. -/
def Steps (cores : Nat) (stream pending : List UInt8) (signals : Signals) (calm : Prop) (r : Reader)
    (source : Source) (pool : Pool) (h : Handover) (a' : Assembler) (pool' : Pool)
    (x : Exchange) : Prop :=
  ∃ h', Handover.Reach h h' ∧ h'.exchange = x ∧ h'.taker = h.taker ∧ h'.takes = h.takes ∧
    Assembled cores stream pending signals calm r source a' pool' h' ∧ pool.Frame pool' ∧
    x.isSealed = h.exchange.isSealed

/-- A step that leaves pool and exchange alone. -/
theorem Steps.stay (ha : Assembled cores stream pending signals calm r source a' pool h) :
    Steps cores stream pending signals calm r source pool h a' pool h.exchange :=
  ⟨h, .refl, rfl, rfl, rfl, ha, ⟨rfl, rfl, rfl, rfl⟩, rfl⟩

/-- The chunk in hand can be given back, whatever comes next. -/
theorem releasing {acquired filed chunk : Nat} {phase : Assembler.Phase} {failure : Error → Error}
    (hs : Supplied chunkSize stream pending calm [chunk] acquired r source pool)
    (hhand : phase.hand = [])
    (ha : ∀ pool', Assembly cores (Stream.records stream) signals calm (a.goto phase) pool' h
      acquired filed)
    (heq : (a', pool', x) = a.releasing pool h.exchange chunk phase failure) :
    Steps cores stream pending signals calm r source pool h a' pool' x := by
  obtain ⟨pool₁, hok, hs', -, hframe⟩ := hs.release (List.mem_singleton_self chunk)
  simp only [Assembler.releasing, hok, Prod.mk.injEq] at heq
  obtain ⟨rfl, rfl, rfl⟩ := heq
  refine ⟨h, .refl, rfl, rfl, rfl, ⟨acquired, filed, ?_, ha _⟩, hframe, rfl⟩
  rw [show (a.goto phase).phase.hand = phase.hand from rfl, hhand]
  rwa [List.erase_cons_head] at hs'

theorem start (ha : Assembled cores stream pending signals calm r source a pool h)
    (hcalm : calm → signals.running = true) (hphase : a.phase = .start)
    (hmem : (a', pool', x) ∈ a.next signals pool h.exchange) :
    Steps cores stream pending signals calm r source pool h a' pool' x := by
  obtain ⟨acquired, filed, hs, ha⟩ := ha
  rw [hphase] at hs
  simp only [Assembler.next, hphase, List.mem_singleton, Prod.mk.injEq] at hmem
  obtain ⟨rfl, rfl, rfl⟩ := hmem
  split
  · refine .stay ⟨acquired, filed, hs, ?_⟩
    exact ha.goOn rfl rfl (by simp [hphase, Assembler.Phase.isOver]) rfl (by simp [Assembler.goto])
      (by simp [hphase]) (by simp [Assembler.goto])
      (by simp [Assembler.inHand, Assembler.goto, hphase])
      (by simp [Assembler.goto, Assembler.Phase.core])
      (by simp [Assembler.goto, Assembler.Phase.files]) (by simp [Assembler.goto])
  · rename_i hrun
    refine .stay ⟨acquired, filed, hs, ?_⟩
    exact ha.giveUp rfl (by simp [hphase]) (by simp) (by simp)
      fun _ hc => absurd (hcalm hc) hrun

theorem acquire (ha : Assembled cores stream pending signals calm r source a pool h)
    (hcalm : calm → signals.cancelled = false ∧ pool.isClosed = false)
    (hsealed : pool.isSealed = true → ∃ failure, r.phase = .returned failure)
    (hphase : a.phase = .acquire) (hmem : (a', pool', x) ∈ a.next signals pool h.exchange) :
    Steps cores stream pending signals calm r source pool h a' pool' x := by
  obtain ⟨acquired, filed, hs, ha⟩ := ha
  rw [hphase] at hs
  have hleave : (calm → filed = (Stream.records stream).length ∧ pool.isSealed = true) →
      Steps cores stream pending signals calm r source pool h (a.goto (.returned none)) pool
        h.exchange := fun hdone =>
    .stay ⟨acquired, filed, hs, ha.giveUp rfl (by simp [hphase]) (by simp) (by simp)
      fun _ => hdone⟩
  simp only [Assembler.next, hphase, List.mem_append, List.mem_map] at hmem
  rcases hmem with ⟨o, ho, heq⟩ | hcancelled
  · rcases Pool.mem_busyOutcomes.mp ho with ⟨hclosed, rfl⟩ | ⟨chunk, rest, hbusy, rfl⟩ |
      ⟨hbusy, hs', rfl⟩
    · cases heq
      exact hleave fun hc => by simp [(hcalm hc).2] at hclosed
    · cases heq
      obtain ⟨hs', hlength, ⟨_, hline⟩, -, hframe⟩ := hs.acquireBusy hbusy rfl
      have hrecord := Stream.getElem?_records hline hlength
      exact ⟨h, .refl, rfl, rfl, rfl, ⟨acquired + 1, filed, hs', ha.acquire hphase hrecord⟩, hframe,
        rfl⟩
    · cases heq
      refine hleave fun hc => ?_
      have hsame : acquired = filed := ha.hand_empty (by simp [Assembler.inHand, hphase])
        (by simp [hphase, Assembler.Phase.isOver])
      obtain ⟨failure, hreturned⟩ := hsealed hs'
      have hall := (hs.returned hreturned hc (by simpa using ha.acquired_le)).1
      exact ⟨by simpa [hbusy, hsame] using hall, hs'⟩
  · split at hcancelled
    · rename_i hsignal
      simp only [List.mem_singleton, Prod.mk.injEq] at hcancelled
      obtain ⟨rfl, rfl, rfl⟩ := hcancelled
      exact hleave fun hc => by simp [(hcalm hc).1] at hsignal
    · simp at hcancelled

theorem inspect (ha : Assembled cores stream pending signals calm r source a pool h)
    (inv : h.Inv cores) {chunk : Nat} (hphase : a.phase = .inspect chunk)
    (hmem : (a', pool', x) ∈ a.next signals pool h.exchange) :
    Steps cores stream pending signals calm r source pool h a' pool' x := by
  obtain ⟨acquired, filed, hs, ha⟩ := ha
  rw [hphase] at hs
  have hrecord := (ha.in_hand (Stream.parse (pool.slot chunk).bytes)
    (by simp only [Assembler.inHand, hphase])).1
  simp only [Assembler.next, hphase] at hmem
  split at hmem
  · rename_i hcore
    rw [List.mem_singleton] at hmem
    have hcore' : cores ≤ (Stream.parse (pool.slot chunk).bytes).1 := by
      simpa [ha.cores_eq, Stream.parse] using hcore
    have hbad := (Stream.isBad_iff hrecord).mpr (.inl hcore')
    refine releasing hs rfl (fun pool' => ha.giveUp rfl (by simp [hphase]) ?_ (by simp) (by simp))
      hmem
    rintro e he
    cases he
    refine .inr ⟨hbad, ?_⟩
    rw [Stream.refusal_of_isBad hrecord ha.good hbad, if_pos hcore', ha.cores_eq]
    rfl
  · rename_i hcore
    simp only [List.mem_singleton, Prod.mk.injEq] at hmem
    obtain ⟨rfl, rfl, rfl⟩ := hmem
    have hcore' : ((pool'.slot chunk).bytes.getD recordSize 0).toNat < cores := by
      have := ha.cores_eq
      omega
    split
    · rename_i hsome
      have hcurrent := ha.current_eq inv (Option.isSome_iff_ne_none.mp hsome)
      refine .stay ⟨acquired, filed, hs, ?_⟩
      refine ha.goOn rfl rfl (by simp [hphase, Assembler.Phase.isOver]) rfl
        (by simp [Assembler.goto]) (by simp [hphase]) (by simp [Assembler.goto])
        (by simp [Assembler.inHand, Assembler.goto, hphase]) ?_ (fun _ => hcurrent)
        (by simp [Assembler.goto])
      rintro core hc
      cases hc
      exact ⟨hcore', rfl⟩
    · rename_i hnone
      refine .stay ⟨acquired, filed, hs, ?_⟩
      refine ha.goOn rfl rfl (by simp [hphase, Assembler.Phase.isOver]) rfl
        (by simp [Assembler.goto]) (by simp [hphase]) (by simp [Assembler.goto])
        (by simp [Assembler.inHand, Assembler.goto, hphase]) ?_
        (by simp [Assembler.goto, Assembler.Phase.files])
        fun _ _ _ => Option.not_isSome_iff_eq_none.mp hnone
      rintro core hc
      cases hc
      exact ⟨hcore', rfl⟩

theorem claim (ha : Assembled cores stream pending signals calm r source a pool h)
    (inv : h.Inv cores) (hopen : h.exchange.isSealed = false) {chunk core : Nat}
    (hphase : a.phase = .claim chunk core)
    (hmem : (a', pool', x) ∈ a.next signals pool h.exchange) :
    Steps cores stream pending signals calm r source pool h a' pool' x := by
  obtain ⟨acquired, filed, hs, ha⟩ := ha
  rw [hphase] at hs
  simp only [Assembler.next, hphase, List.mem_append] at hmem
  rcases hmem with hclaim | hcancelled
  · split at hclaim
    · rename_i t x₁ hx
      simp only [List.mem_singleton, Prod.mk.injEq] at hclaim
      obtain ⟨rfl, rfl, rfl⟩ := hclaim
      obtain ⟨hidle, ha'⟩ := ha.claim inv hphase hx hopen
      obtain ⟨-, -, hclaimed, -⟩ := inv.owned.claim hx
      exact ⟨_, .single (.claim hidle hx), rfl, rfl, rfl, ⟨acquired, filed, hs, ha'⟩,
        ⟨rfl, rfl, rfl, rfl⟩, by rw [hclaimed]⟩
    · simp at hclaim
  · split at hcancelled
    · rename_i hsignal
      rw [List.mem_singleton] at hcancelled
      refine releasing hs rfl (fun pool' => ha.giveUp rfl (by simp [hphase]) ?_ (by simp) (by simp))
        hcancelled
      rintro e he
      cases he
      exact .inl ⟨rfl, hsignal⟩
    · simp at hcancelled

theorem unpack (ha : Assembled cores stream pending signals calm r source a pool h)
    {chunk core : Nat} (hphase : a.phase = .unpack chunk core)
    (hmem : (a', pool', x) ∈ a.next signals pool h.exchange) :
    Steps cores stream pending signals calm r source pool h a' pool' x := by
  obtain ⟨acquired, filed, hs, ha⟩ := ha
  rw [hphase] at hs
  simp only [Assembler.next, hphase, List.mem_singleton] at hmem
  obtain ⟨hlt, hcore⟩ := ha.core_eq core (by simp [hphase, Assembler.Phase.core])
  simp only [Assembler.inHand, hphase, Option.map_some, Option.some.injEq] at hcore
  have hfile : ∀ pool', Assembly cores (Stream.records stream) signals calm
      (a.goto (.file core (CoreState.ofBytes ((pool.slot chunk).bytes.take recordSize)))) pool' h
      acquired filed := by
    intro pool'
    refine ha.goOn rfl rfl (by simp [hphase, Assembler.Phase.isOver]) rfl (by simp [Assembler.goto])
      (by simp [hphase]) (by simp [Assembler.goto]) ?_ ?_
      (fun _ => ha.holding (by simp [hphase, Assembler.Phase.files])) (by simp [Assembler.goto])
    · simp only [Assembler.inHand, Assembler.goto, hphase, ← hcore]
      rfl
    · rintro core' hc
      cases hc
      exact ⟨hlt, rfl⟩
  exact releasing hs rfl hfile hmem

theorem file (ha : Assembled cores stream pending signals calm r source a pool h)
    (inv : h.Inv cores) (hopen : h.exchange.isSealed = false) {core : Nat} {state : CoreState}
    (hphase : a.phase = .file core state)
    (hmem : (a', pool', x) ∈ a.next signals pool h.exchange) :
    Steps cores stream pending signals calm r source pool h a' pool' x := by
  obtain ⟨acquired, filed, hs, ha⟩ := ha
  rw [hphase] at hs
  obtain ⟨hcurrent, hputs, -, hrecord, -, -⟩ := ha.to_file inv hphase
  have hfiller : h.filler = .filling 0 := by
    simp [ha.filler_eq, Assembler.filler, hopen, hcurrent, hphase]
  simp only [Assembler.next, hphase, hcurrent] at hmem
  cases hput : h.exchange.put 0 core state with
  | error e =>
    simp only [hput, List.mem_singleton, Prod.mk.injEq] at hmem
    obtain ⟨rfl, rfl, rfl⟩ := hmem
    refine .stay ⟨acquired, filed, hs, ha.giveUp rfl (by simp [hphase]) ?_ (by simp) (by simp)⟩
    rintro e' he
    cases he
    exact .inr (ha.put_error inv hphase hput)
  | ok x₁ =>
    have hmove := Handover.Move.put core state hfiller hput
    rw [Int.toNat_natCast] at hmove
    obtain ⟨-, hsealed, hholds⟩ := ha.put_ok inv hphase hput
    have hlen : (Stream.before cores (Stream.records stream) filed).length = filed % cores :=
      Stream.length_before ha.filed_le
    have hcomplete : (x₁.snapshot 0).complete = true ↔ (filed + 1) % cores = 0 := by
      rw [hholds.complete_iff, List.length_append, hlen, List.length_singleton,
        Stream.succ_mod_eq_zero_iff]
    simp only [hput] at hmem
    cases hstamp : x₁.stamp 0 with
    | ok x₂ =>
      simp only [hstamp, List.mem_singleton, Prod.mk.injEq] at hmem
      obtain ⟨rfl, rfl, rfl⟩ := hmem
      obtain ⟨hdone, hsame⟩ := Exchange.stamp_ok hstamp
      exact ⟨_, (Relation.ReflTransGen.single hmove).tail (.stamp hfiller hstamp), rfl, rfl, rfl,
        ⟨acquired, filed + 1, hs, ha.fileLast inv hphase hput hopen hsame (hcomplete.mp hdone)⟩,
        ⟨rfl, rfl, rfl, rfl⟩, hsame.trans hsealed⟩
    | error e =>
      simp only [hstamp, List.mem_singleton, Prod.mk.injEq] at hmem
      obtain ⟨rfl, rfl, rfl⟩ := hmem
      have hmore := mt hcomplete.mpr (Exchange.stamp_error hstamp)
      exact ⟨_, .single hmove, rfl, rfl, rfl,
        ⟨acquired, filed + 1, hs, ha.file inv hphase hput hmore⟩, ⟨rfl, rfl, rfl, rfl⟩, hsealed⟩

theorem deliver (ha : Assembled cores stream pending signals calm r source a pool h)
    (inv : h.Inv cores) (hopen : h.exchange.isSealed = false) (hphase : a.phase = .deliver)
    (hmem : (a', pool', x) ∈ a.next signals pool h.exchange) :
    Steps cores stream pending signals calm r source pool h a' pool' x := by
  obtain ⟨acquired, filed, hs, ha⟩ := ha
  rw [hphase] at hs
  obtain ⟨hfiller, hcurrent, hoffer, ha'⟩ := ha.deliver inv hphase hopen
  simp only [Assembler.next, hphase, hcurrent, hoffer, List.mem_singleton, Prod.mk.injEq] at hmem
  obtain ⟨rfl, rfl, rfl⟩ := hmem
  exact ⟨_, .single (.send hfiller hoffer), rfl, rfl, rfl, ⟨acquired, filed, hs, ha'⟩,
    ⟨rfl, rfl, rfl, rfl⟩, rfl⟩

/-- A step of the assembler files the next record of the stream, or brings it
closer to that. -/
theorem next (ha : Assembled cores stream pending signals calm r source a pool h)
    (inv : h.Inv cores) (hopen : h.exchange.isSealed = false)
    (hcalm : calm → signals.running = true ∧ signals.cancelled = false ∧ pool.isClosed = false)
    (hsealed : pool.isSealed = true → ∃ failure, r.phase = .returned failure)
    (hmem : (a', pool', x) ∈ a.next signals pool h.exchange) :
    Steps cores stream pending signals calm r source pool h a' pool' x := by
  cases hphase : a.phase with
  | idle | returned => simp [Assembler.next, hphase] at hmem
  | start => exact ha.start (fun hc => (hcalm hc).1) hphase hmem
  | acquire => exact ha.acquire (fun hc => (hcalm hc).2) hsealed hphase hmem
  | inspect chunk => exact ha.inspect inv hphase hmem
  | claim chunk core => exact ha.claim inv hopen hphase hmem
  | unpack chunk core => exact ha.unpack hphase hmem
  | file core state => exact ha.file inv hopen hphase hmem
  | deliver => exact ha.deliver inv hopen hphase hmem
  | count =>
    obtain ⟨acquired, filed, hs, ha⟩ := ha
    rw [hphase] at hs
    simp only [Assembler.next, hphase, List.mem_singleton, Prod.mk.injEq] at hmem
    obtain ⟨rfl, rfl, rfl⟩ := hmem
    refine .stay ⟨acquired, filed, hs, ?_⟩
    exact ha.goOn rfl rfl (by simp [hphase, Assembler.Phase.isOver]) rfl (by simp)
      (by simp [hphase]) (by simp) (by simp [Assembler.inHand, hphase])
      (by simp [Assembler.Phase.core]) (by simp [Assembler.Phase.files]) (by simp)
  | failed e =>
    obtain ⟨acquired, filed, hs, ha⟩ := ha
    rw [hphase] at hs
    simp only [Assembler.next, hphase, List.mem_singleton, Prod.mk.injEq] at hmem
    obtain ⟨rfl, rfl, rfl⟩ := hmem
    split
    · rename_i hsignal
      refine .stay ⟨acquired, filed, hs, ?_⟩
      exact ha.giveUp rfl (by simp [hphase]) (by simp) (by simp)
        fun _ hc => by simp [(hcalm hc).2.1] at hsignal
    · rename_i hsignal
      refine .stay ⟨acquired, filed, hs, ?_⟩
      refine ha.giveUp rfl (by simp [hphase]) (by simp) ?_ (by simp)
      rintro e' he
      cases he
      rcases ha.failed e hphase with ⟨-, hcancelled⟩ | hbad
      · exact absurd hcancelled hsignal
      · exact hbad

end Assembled

end Cosim
