import Infera.Kvd.SsdTiers
import Infera.Kvd.StoreEffects
import Infera.Kvd.TablespaceRuns

/-! Which copy of a block a lookup serves. RAM shadows the tiers below, but a
write reaches them only as a long write-through or as the spill of an evicted
short row. A copy left below by an earlier write comes back once the newer row
has been evicted, unless every write supersedes what it finds there. -/

namespace Infera.Kvd
open Option
namespace HostStore
open Function
variable {σ ρ : Type} [Region σ] [Region ρ] [LawfulRegion σ] [LawfulRegion ρ] {st' : HostStore σ ρ}
  (st : HostStore σ ρ) (clk : Clock) (c : Composite)
open LawfulRegion

def IsLast (last : Composite → Option Bytes) (c : Composite) (value : Bytes) : Prop :=
  last c = some value

/-- No tier keeps another block for `c` than the one written: it holds none or the same, or the
write goes through to it. -/
def Supersedes (value : Bytes) (retention : Retention) (metadata : Metadata) : Prop :=
  BothTiers (fun r => ∀ v, held r c = some v → v = value)
    (fun r => (∀ v, held r c = some v → v = value) ∨ retention = .long ∧
      ∀ clk, ∃ reason, (Region.put r clk c value .long metadata).2 = .ok (true, reason)) st

/-- Without an arena, every row and every block below is the last accepted one. -/
structure Coherent (last : Composite → Option Bytes) (st : HostStore σ ρ) : Prop where
  wellFormed : st.WellFormed
  unwired : st.sharedArena = none
  rows : ∀ c e, st.entries.get? c = some e →
    last c = some (st.resolveValue e) ∧ e.metadata.encodable = true ∧ Separate σ ρ c
  tiers : BothTiers (Holds (IsLast last)) (Holds (IsLast last)) st

section
variable {last : Composite → Option Bytes} {st : HostStore σ ρ} {value : Bytes} {c : Composite}

theorem Holds.superseded {τ : Type} [Region τ] [LawfulRegion τ] {r : τ}
    (holds : Holds (IsLast last) r) (own : ∀ v, held r c = some v → v = value) :
    Holds (IsLast (update last c (some value))) r := by
  refine { holds with block := fun c' v found => ?_ }
  by_cases same : c' = c
  · subst same
    rw [IsLast, update_self, own v found]
  · rw [IsLast, update_of_ne same]
    exact holds.block c' v found

theorem Holds.through {τ : Type} [Region τ] [LawfulRegion τ] {r : τ}
    (holds : Holds (IsLast last) r) {clk : Clock} {metadata : Metadata} {reason : Option String}
    (apart : Apart τ c) (encodable : metadata.encodable = true)
    (accepted : (Region.put r clk c value .long metadata).2 = .ok (true, reason)) :
    Holds (IsLast (update last c (some value))) (Region.put r clk c value .long metadata).1 := by
  refine ⟨put_valid r clk c value .long metadata holds.valid apart,
    clean_put r clk c value .long metadata holds.clean encodable, fun c' v found => ?_⟩
  by_cases same : c' = c
  · subst same
    have now := put_own r clk c' value .long metadata holds.valid apart
    rw [accepted, PutLeaves] at now
    rw [IsLast, update_self, ← now, found]
  · rw [IsLast, update_of_ne same]
    rcases held_put holds.valid apart found with old | ⟨eq, -⟩
    · exact holds.block c' v old
    · exact absurd eq same

section
variable (coherent : Coherent last st)
include coherent

theorem Coherent.left (wf : st'.WellFormed) (left : Left st st') : Coherent last st' := by
  have unwired := left.unwired coherent.unwired
  refine ⟨wf, unwired, fun c e found => ?_,
    coherent.tiers.congr left.tiers.spillover left.tiers.longRegion⟩
  have same : st'.resolveValue e = st.resolveValue e :=
    resolveValue_congr (unwired.trans coherent.unwired.symm) e
  rw [same]
  exact coherent.rows c e (left.rows c e found)

theorem Coherent.sameRam (ram : SameRam st st')
    (tiers : BothTiers (Holds (IsLast last)) (Holds (IsLast last)) st') : Coherent last st' := by
  refine ⟨coherent.wellFormed.sameRam ram, ram.sharedArena.trans coherent.unwired, ?_, tiers⟩
  intro c e found
  rw [resolveValue_congr ram.sharedArena]
  exact coherent.rows c e (ram.entries ▸ found)

theorem Coherent.tiers_took {w : Write}
    (took : Took w st st') (separate : Separate σ ρ w.c) (encodable : w.metadata.encodable = true)
    (supersedes : st.Supersedes w.c w.value w.retention w.metadata)
    (through : ∀ region, st.longRegion = some region → w.retention = .long →
      ∃ clk, st'.longRegion = some (Region.put region clk w.c w.value .long w.metadata).1) :
    BothTiers (Holds (IsLast (update last w.c (some w.value))))
      (Holds (IsLast (update last w.c (some w.value)))) st' := by
  have spilled : ∀ (r : σ) clk s e, SpillOf st s e → s.composite ≠ w.c →
      Holds (IsLast (update last w.c (some w.value))) r →
      Holds (IsLast (update last w.c (some w.value)))
        (Region.put r clk s.composite s.value .short s.metadata).1 := by
    intro r clk s e spill other holds
    obtain ⟨block, clean, apart⟩ := coherent.rows s.composite e spill.row
    refine holds.put clk apart.1 ?_ .short (spill.metadata ▸ clean)
    rw [IsLast, update_of_ne other, spill.value, block]
  have spillover : BothTiers (Holds (IsLast (update last w.c (some w.value)))) (fun _ => True) st :=
    ⟨fun r wired => (coherent.tiers.spillover r wired).superseded (supersedes.spillover r wired),
      fun _ _ => trivial⟩
  refine ⟨(took.tiers spillover spilled fun _ _ _ _ => trivial).spillover, fun r' wired' => ?_⟩
  by_cases written : ∃ region, st.longRegion = some region ∧ w.retention = .long ∧
      ∀ clk, ∃ reason, (Region.put region clk w.c w.value .long w.metadata).2 = .ok (true, reason)
  · obtain ⟨region, wired, long, accepts⟩ := written
    obtain ⟨clk, now⟩ := through region wired long
    obtain ⟨reason, accepted⟩ := accepts clk
    obtain rfl := some.inj (wired'.symm.trans now)
    exact (coherent.tiers.longRegion region wired).through separate.2 encodable accepted
  · have longRegion : BothTiers (fun _ => True)
        (Holds (IsLast (update last w.c (some w.value)))) st := by
      refine ⟨fun _ _ => trivial, fun r wired => ?_⟩
      rcases supersedes.longRegion r wired with own | reaches
      · exact (coherent.tiers.longRegion r wired).superseded own
      · exact absurd ⟨r, wired, reaches⟩ written
    refine (took.tiers longRegion (fun _ _ _ _ _ _ _ => trivial) fun r clk _ holds => ?_).longRegion
      r' wired'
    exact holds.put clk separate.2 (update_self _ _ _) .long encodable

theorem Coherent.set (clk : Clock)
    {retention : Retention} {metadata : Metadata} (ttl : Option ℚ) (separate : Separate σ ρ c)
    (encodable : metadata.encodable = true)
    (supersedes : st.Supersedes c value retention metadata) :
    let result := st.set clk c value retention metadata ttl
    Coherent last result.1 ∧ (∀ reason, result.2 = .ok (true, reason) → ∃ t, ttl = some t ∧ t ≤ 0) ∨
      Coherent (update last c (some value)) result.1 ∧ result.2 = .ok (true, none) := by
  intro result
  have wf : result.1.WellFormed := coherent.wellFormed.set clk c value retention metadata ttl
  rcases coherent.wellFormed.set_effect clk c value retention metadata ttl with
    ⟨left, refused⟩ | ⟨took, positive, answer⟩
  · exact .inl ⟨coherent.left wf left, refused⟩
  have accepted : result.2 = .ok (true, none) := by
    rcases answer with ⟨err, raised⟩ | accepted
    · refine absurd raised (coherent.wellFormed.set_ok clk c value retention ttl
        (fun c e row => (coherent.rows c e row).2.1) encodable ?_ err)
      intro base spills expiresAt room err'
      have unwired := (room.thinned (coherent.wellFormed.stats _)).1.arena.unwired coherent.unwired
      rw [storeBytes_of_no_arena unwired]
      simp
    · exact accepted
  have unwired := took.unwired coherent.unwired
  refine .inr ⟨⟨wf, unwired, fun c' e found => ?_, ?_⟩, accepted⟩
  · by_cases same : c' = c
    · subst same
      obtain ⟨-, sameMetadata, -, block⟩ := took.own e found
      rw [update_self, block, sameMetadata]
      exact ⟨rfl, encodable, separate⟩
    · have row := coherent.rows c' e (took.others c' e same found)
      have sameArena : result.1.sharedArena = st.sharedArena := unwired.trans coherent.unwired.symm
      rw [update_of_ne same, resolveValue_congr sameArena]
      exact row
  · refine coherent.tiers_took took separate encodable supersedes fun region wired long => ?_
    obtain ⟨e, present⟩ := ne_none_iff_exists'.mp (took.present coherent.unwired)
    have live : result = st.setLive clk c value retention metadata (ttl.map (clk 0 + ·)) :=
      st.set_eq_setLive clk c value retention metadata positive
    change ∃ clk', result.1.longRegion = _
    change result.1.entries.get? c = some e at present
    rw [live] at accepted present ⊢
    exact coherent.wellFormed.setLive_through
      ⟨clk, c, value, retention, metadata, ttl.map (clk 0 + ·)⟩ long wired accepted present

theorem Coherent.supersedes_self
    (current : last c = some value) (retention : Retention) (metadata : Metadata) :
    st.Supersedes c value retention metadata := by
  have same : ∀ v, IsLast last c v → v = value := fun v is =>
    some.inj (is.symm.trans current)
  exact ⟨fun r wired v found => same v ((coherent.tiers.spillover r wired).block c v found),
    fun r wired => .inl fun v found => same v ((coherent.tiers.longRegion r wired).block c v found)⟩

end

theorem coherent_touches (last : Composite → Option Bytes) :
    Touches (Coherent last : HostStore σ ρ → Prop) where
  stats _ stats coherent :=
    ⟨coherent.wellFormed.stats stats, coherent.unwired, coherent.rows, coherent.tiers.congr rfl rfl⟩
  remove st c e coherent row := by
    have wf := wellFormed_sheds.removeEntry c e coherent.wellFormed
    refine coherent.left wf ⟨fun c' e' found => ?_, (SameTiers.sheds st).removeEntry c e (.refl st),
      unwired_sheds.removeEntry c e⟩
    rw [get?_removeEntry] at found
    split_ifs at found
    exact found
  touch st c e t coherent row := by
    refine ⟨coherent.wellFormed.touch row t, coherent.unwired, fun c' e' found => ?_,
      coherent.tiers.congr rfl rfl⟩
    rcases Dict.get?_set_cases found with ⟨rfl, rfl⟩ | ⟨-, found⟩
    · exact coherent.rows c' e row
    · exact coherent.rows c' e' found

theorem coherent_reads (last : Composite → Option Bytes) :
    Reads (Separate σ ρ) (fun c f => last c = some f.value ∧ f.metadata.encodable = true)
      (fun _ (st : HostStore σ ρ) => Coherent last st) where
  ram _ := coherent_touches last
  weaken _ _ coherent := coherent
  oid _ _ coherent :=
    ⟨coherent.wellFormed.skipOid, coherent.unwired, coherent.rows, coherent.tiers.congr rfl rfl⟩
  fetchLong _ st clk c coherent _ :=
    have fetched := coherent.tiers.fetchLong clk c
    ⟨coherent.sameRam (st.sameRam_fetchLong clk c) fetched.1, fetched.2⟩
  fetchSpill _ st clk c coherent _ :=
    have fetched := coherent.tiers.fetchSpill clk c
    ⟨coherent.sameRam (st.sameRam_fetchSpill clk c) fetched.1, fetched.2⟩
  batch _ st clk misses coherent _ nodup :=
    have read := coherent.tiers.readBatch clk misses nodup
    ⟨coherent.sameRam (st.sameRam_readBatch clk misses) read.1,
      fun vals answer i c value mem found => ⟨read.2 vals answer i c value mem found, rfl⟩⟩
  promote _ st clk c f ttl coherent separate good := by
    rcases coherent.set clk ttl separate good.2
      (coherent.supersedes_self good.1 f.retention f.metadata) with ⟨kept, -⟩ | ⟨stored, -⟩
    · exact kept
    · rwa [← good.1, update_eq_self] at stored

theorem Coherent.clear (coherent : Coherent last st) (model compatKey : String) :
    Coherent last (st.clear model compatKey).1 := by
  have unwired := unwired_clear coherent.unwired model compatKey
  refine ⟨coherent.wellFormed.clear model compatKey, unwired, fun c e found => ?_,
    coherent.tiers.clear model compatKey (fun r holds => ⟨holds.clear, holds.clearNamespace _ _⟩)
      fun r holds => ⟨holds.clear, holds.clearNamespace _ _⟩⟩
  rw [resolveValue_congr (unwired.trans coherent.unwired.symm)]
  exact coherent.rows c e (get?_clear found)

end

def isAccepted : Except PyErr (Bool × Option String) → Bool
  | .ok (accepted, _) => accepted
  | .error _ => false

omit [LawfulRegion σ] [LawfulRegion ρ] in
def served : Except PyErr (Option Bytes) :=
  (st.get clk c).2.map fun found => found.map (st.get clk c).1.resolveValue

omit [LawfulRegion σ] [LawfulRegion ρ] in
theorem served_eq_some {st : HostStore σ ρ} {clk : Clock} {c : Composite} {value : Bytes}
    (hit : st.served clk c = .ok (some value)) :
    ∃ e, (st.get clk c).2 = .ok (some e) ∧ (st.get clk c).1.resolveValue e = value := by
  unfold served at hit
  match answer : (st.get clk c).2 with
  | .error err | .ok none => simp [answer, Except.map] at hit
  | .ok (some e) => exact ⟨e, rfl, by simpa [answer, Except.map] using hit⟩

end HostStore

structure Tracked (σ ρ : Type) where
  store : HostStore σ ρ
  last : Composite → Option Bytes

namespace Tracked
variable {σ ρ : Type} [Region σ] [Region ρ]
open HostStore

inductive Op where
  | set (clk : Clock) (c : Composite) (value : Bytes) (retention : Retention) (metadata : Metadata)
  | get (clk : Clock) (c : Composite)
  | getMany (clk : Clock) (cs : List Composite)
  | exists (clk : Clock) (cs : List Composite)
  | warmFromSsd (clk : Clock) (c : Composite) (ttl : ℚ)
  | clear (model compatKey : String)

def step (s : Tracked σ ρ) : Op → Tracked σ ρ
  | .set clk c value retention metadata =>
    let stored := s.store.set clk c value retention metadata none
    ⟨stored.1, if isAccepted stored.2 then Function.update s.last c (some value) else s.last⟩
  | .get clk c => ⟨(s.store.get clk c).1, s.last⟩
  | .getMany clk cs => ⟨(s.store.getMany clk cs).1, s.last⟩
  | .exists clk cs => ⟨(s.store.existsKeys clk cs).1, s.last⟩
  | .warmFromSsd clk c ttl => ⟨(s.store.warmFromSsd clk c ttl).1, s.last⟩
  | .clear model compatKey => ⟨(s.store.clear model compatKey).1, s.last⟩

variable [LawfulRegion σ] [LawfulRegion ρ] {s : Tracked σ ρ}

/-- No rows, and tiers that hold nothing older than the last accepted blocks. -/
def Fresh (s : Tracked σ ρ) : Prop :=
  ∃ maxBytes spillover longRegion accepted,
    s.store = HostStore.new maxBytes none spillover longRegion accepted ∧
      BothTiers (Holds (IsLast s.last)) (Holds (IsLast s.last)) s.store

/-- Whatever a lookup now returns is the last accepted block. -/
def ServesLast (s : Tracked σ ρ) : Prop :=
  ∀ clk c value, Separate σ ρ c → s.store.served clk c = .ok (some value) → s.last c = some value

/-- Every write supersedes what the tiers hold for its composite, and its metadata can be written;
the composites in use have names of their own in the tiers. -/
def Superseding (s : Tracked σ ρ) : Op → Prop
  | .set _ c value retention metadata =>
    Separate σ ρ c ∧ metadata.encodable = true ∧ s.store.Supersedes c value retention metadata
  | .get _ c => Separate σ ρ c
  | .getMany _ cs => ∀ c ∈ cs, Separate σ ρ c
  | .exists _ _ => True
  | .warmFromSsd _ c _ => Separate σ ρ c
  | .clear _ _ => True

theorem coherent_of_fresh (fresh : Fresh s) : Coherent s.last s.store := by
  obtain ⟨maxBytes, spillover, longRegion, accepted, eq, tiers⟩ := fresh
  have booted : Server.Booted s.store :=
    ⟨maxBytes, none, spillover, longRegion, accepted, by simp, eq⟩
  refine ⟨booted.wellFormed, by rw [eq]; rfl, fun c e found => ?_, tiers⟩
  rw [eq] at found
  simp [HostStore.new] at found

theorem coherent_step (coherent : Coherent s.last s.store) (op : Op)
    (meets : Superseding s op) : Coherent (s.step op).last (s.step op).store := by
  have reads := coherent_reads (σ := σ) (ρ := ρ) s.last
  cases op with
  | set clk c value retention metadata =>
    obtain ⟨separate, encodable, supersedes⟩ := meets
    rcases coherent.set clk none separate encodable supersedes with ⟨kept, refused⟩ | ⟨stored, ok⟩
    · have unaccepted : isAccepted (s.store.set clk c value retention metadata none).2 = false := by
        match answer : (s.store.set clk c value retention metadata none).2 with
        | .ok (true, reason) =>
          obtain ⟨t, none, -⟩ := refused reason answer
          simp at none
        | .ok (false, _) => rfl
        | .error _ => rfl
      simpa [step, unaccepted] using kept
    · simpa [step, ok, isAccepted] using stored
  | get clk c => exact reads.get (n := 0) coherent clk meets
  | getMany clk cs => exact reads.getMany (n := 0) coherent clk meets
  | «exists» clk cs => exact (coherent_touches s.last).existsKeys coherent clk cs
  | warmFromSsd clk c ttl =>
    exact reads.warmFromSsd (fun _ _ _ good => ⟨good.1, rfl⟩) (n := 0) coherent clk meets ttl
  | clear model compatKey => exact coherent.clear model compatKey

theorem servesLast_of_coherent (coherent : Coherent s.last s.store) : ServesLast s := by
  intro clk c value separate hit
  have reads := coherent_reads (σ := σ) (ρ := ρ) s.last
  obtain ⟨e, answer, rfl⟩ := served_eq_some hit
  rcases reads.get_answer (n := 0) coherent separate answer with row | ⟨f, good, inline, value⟩
  · exact ((reads.get (n := 0) coherent clk separate).rows c e row).1
  · rw [HostStore.resolveValue, if_pos inline, value]
    exact good.1

/-- In every run whose writes supersede the copies below, a lookup returns the last accepted
block or misses. -/
theorem serves_last_of_superseding {s : Tracked σ ρ}
    (reached : Reaches Fresh step Superseding s) : ServesLast s :=
  servesLast_of_coherent (reached.invariant (fun _ fresh => coherent_of_fresh fresh)
    fun _ op coherent meets => coherent_step coherent op meets)

abbrev SpilloverTier := SsdTier SpilloverRegion.policy

def threeBytes (spillover : Option SpilloverTier) : Tracked SpilloverTier TablespaceLongRegion :=
  ⟨HostStore.new 3 none spillover (some (.blank (TablespaceLongRegion.fourByteSlots 2))) [],
    fun _ => none⟩

open TablespaceLongRegion in
theorem threeBytes_fresh {spillover : Option SpilloverTier}
    (empty : ∀ r, spillover = some r → r.region.entries = .empty) :
    Fresh (threeBytes spillover) := by
  refine ⟨3, spillover, _, [], rfl, fun r wired => ?_, fun r wired => ?_⟩
  · have none : ∀ c e, r.region.entries.get? c ≠ some e := by simp [empty r wired]
    refine ⟨fun c e found => absurd found (none c e), fun c e found => absurd found (none c e),
      fun c v found => ?_⟩
    obtain ⟨e, indexed, -⟩ := bind_eq_some_iff.mp found
    exact absurd indexed (none c e)
  · obtain rfl := some.inj wired
    refine ⟨valid_blank _, clean_blank _, fun c v found => ?_⟩
    have nothing := held_blank (fourByteSlots 2) c
    exact absurd (nothing.symm.trans found) (by simp)

def write (key : UInt8) (value : Bytes) (retention : Retention) : Op :=
  .set (fun _ => 0) ⟨"m", "", [key]⟩ value retention .empty

def evictedTwice : Tracked SpilloverTier TablespaceLongRegion :=
  [write 1 [1] .long, write 2 [2, 2, 2] .long, write 2 [2] .long, write 1 [9] .short,
    write 3 [3, 3] .short].foldl step (threeBytes none)

theorem separate_write (key : UInt8) :
    Separate SpilloverTier TablespaceLongRegion ⟨"m", "", [key]⟩ :=
  ⟨⟨by simp, by simp⟩, trivial⟩

/-- The lookup serves the first write's copy from the long region. -/
theorem long_copy_served_after_short_write :
    Reaches Fresh step (fun _ _ => True) evictedTwice ∧ ¬ServesLast evictedTwice := by
  refine ⟨Reaches.unconditional _ (threeBytes_fresh (by simp)), fun serves => ?_⟩
  have stale : evictedTwice.store.served (fun _ => 0) ⟨"m", "", [1]⟩ = .ok (some [1]) := by
    decide +kernel
  have last : evictedTwice.last ⟨"m", "", [1]⟩ = some [9] := by decide +kernel
  have current := serves _ _ _ (separate_write 1) stale
  rw [last] at current
  simp at current

/-- An empty spillover region, whose first write fails. -/
def emptySpillover : SpilloverTier :=
  ⟨⟨64, .empty, 0, .empty⟩, fun i =>
    (Recorded.stillWall, if i = 0 then some (.data "ENOSPC") else none)⟩

/-- A long write over a long copy goes through to the region, and a short row evicted by the next
is spilled: every block is served, or lost with the write that fails. -/
theorem long_copy_superseded :
    ServesLast ([write 1 [1] .long, write 1 [9] .long, write 2 [2, 2] .short,
      write 3 [3, 3] .short].foldl step (threeBytes (some emptySpillover))) := by
  have begun : Reaches Fresh step Superseding (threeBytes (some emptySpillover)) :=
    .start (threeBytes_fresh (by rintro r ⟨⟩; rfl))
  have blankBelow : ∀ s : Tracked SpilloverTier TablespaceLongRegion,
      ∀ key value retention, s.store.spillover.map SsdTier.region = some emptySpillover.region →
      (∀ r, s.store.longRegion = some r → LawfulRegion.held r ⟨"m", "", [key]⟩ = none ∨
        retention = .long ∧ ∀ clk,
          (Region.put r clk ⟨"m", "", [key]⟩ value .long .empty).2 = .ok (true, none)) →
      Superseding s (write key value retention) := by
    intro s key value retention spills long
    refine ⟨separate_write key, rfl, fun r wired v found => ?_, fun r wired => ?_⟩
    · rw [wired] at spills
      obtain ⟨e, indexed, -⟩ := bind_eq_some_iff.mp found
      rw [some.inj spills] at indexed
      exact absurd indexed (by simp [emptySpillover])
    · refine (long r wired).imp (fun none v found => ?_) fun through => ⟨through.1, fun clk =>
        ⟨_, through.2 clk⟩⟩
      exact absurd (none.symm.trans found) (by simp)
  have first := begun.next (write 1 [1] .long) (blankBelow _ 1 [1] .long rfl
    fun r wired => .inr ⟨rfl, fun clk => by cases wired; rfl⟩)
  have second := first.next (write 1 [9] .long) (blankBelow _ 1 [9] .long rfl
    fun r wired => .inr ⟨rfl, fun clk => by cases wired; rfl⟩)
  have third := second.next (write 2 [2, 2] .short) (blankBelow _ 2 [2, 2] .short rfl
    fun r wired => .inl (by cases wired; rfl))
  exact serves_last_of_superseding (third.next (write 3 [3, 3] .short) (blankBelow _ 3 [3, 3] .short
    rfl fun r wired => .inl (by cases wired; rfl)))

end Tracked
end Infera.Kvd
