import Infera.Handoff.Store
import Infera.Runs

/-! What every history of a handoff's directory keeps. A version directory is
made once and never taken away, its content is set once and only its agent
changes it, and its manifest comes from a rename whose digest was taken from that
content. Each operation is shown to evolve the directory in this sense; the facts
a call relies on between its operations survive what the other calls do. -/

namespace Infera.Handoff
open Dict List Option Call

def Describes (m : Manifest) (content : Option Entries) : Prop :=
  ∃ entries, content = some entries ∧ treeDigest entries = some m.digest

/-- What an operation makes of one version directory. -/
structure VersionDir.Evolves (v v' : VersionDir) : Prop where
  content : ∀ entries, v.content = some entries → v'.content = some entries
  pending : ∀ m, v'.pending = some m → v.pending = some m ∨ Describes m v'.content
  manifest : ∀ m, v'.manifest = some m → v.manifest = some m ∨ Describes m v'.content
  published : v.manifest.isSome = true → v'.manifest.isSome = true

theorem VersionDir.Evolves.refl (v : VersionDir) : v.Evolves v :=
  ⟨fun _ same => same, fun _ same => .inl same, fun _ same => .inl same, id⟩

variable {v v' : VersionDir}

theorem VersionDir.Evolves.filled (evolves : v.Evolves v') (filled : v.content.isSome = true) :
    v'.content.isSome = true := by
  obtain ⟨entries, content⟩ := isSome_iff_exists.mp filled
  rw [evolves.content entries content]
  rfl

theorem VersionDir.Evolves.describes (evolves : v.Evolves v') {m : Manifest}
    (describes : Describes m v.content) : Describes m v'.content := by
  obtain ⟨entries, content, digest⟩ := describes
  exact ⟨entries, evolves.content entries content, digest⟩

namespace Directory

/-- Versions stay and evolve; a manifest is new only through a seal or over a directory that had
no content. -/
structure Evolves (d d' : Directory) : Prop where
  version : ∀ n v, d.versions.get? n = some v → ∃ v', d'.versions.get? n = some v' ∧ v.Evolves v' ∧
      (v'.manifest.isSome = true → v.manifest.isSome = true ∨ n ∈ d'.sealed ∨ v.content = none)
  fresh : ∀ n v', d.versions.get? n = none → d'.versions.get? n = some v' →
    ∀ m, v'.manifest = some m → Describes m v'.content
  sealed : d.sealed ⊆ d'.sealed

variable {d d' : Directory}

theorem Evolves.of_same (versions : d'.versions = d.versions)
    (sealed : d'.sealed = d.sealed) : d.Evolves d' where
  version n v found := ⟨v, versions ▸ found, .refl v, .inl⟩
  fresh n v' absent found := by
    rw [versions, absent] at found
    cases found
  sealed _ mem := sealed ▸ mem

theorem Evolves.set {n : ℕ} (versions : d'.versions = d.versions.set n v') (sealed : d.sealed ⊆ d'.sealed)
    (own : ∀ v, d.versions.get? n = some v → v.Evolves v' ∧
      (v'.manifest.isSome = true → v.manifest.isSome = true ∨ n ∈ d'.sealed ∨ v.content = none))
    (fresh : d.versions.get? n = none → ∀ m, v'.manifest = some m → Describes m v'.content) :
    d.Evolves d' where
  version := by
    intro other v found
    by_cases same : other = n
    · subst same
      exact ⟨v', by rw [versions, get?_set_self], own v found⟩
    · exact ⟨v, by rw [versions, get?_set_of_ne same, found], .refl v, .inl⟩
  fresh := by
    intro other found absent listed
    rcases get?_set_cases (versions ▸ listed) with ⟨rfl, rfl⟩ | ⟨-, before⟩
    · exact fresh absent
    · cases absent.symm.trans before
  sealed := sealed

theorem Evolves.change {n : ℕ} (found : d.versions.get? n = some v) (versions : d'.versions = d.versions.set n v')
    (sealed : d.sealed ⊆ d'.sealed) (evolves : v.Evolves v') (origin : v'.manifest.isSome = true →
      v.manifest.isSome = true ∨ n ∈ d'.sealed ∨ v.content = none) : d.Evolves d' := by
  refine .set versions sealed (fun _ found' => ?_) fun absent => nomatch found.symm.trans absent
  cases found.symm.trans found'
  exact ⟨evolves, origin⟩

/-- No two calls own the same directory. -/
def Sole (own : Call → Option ℕ) (calls : Dict ℕ Call) : Prop :=
  ∀ id id' c c' n, calls.get? id = some c → calls.get? id' = some c' →
    own c = some n → own c' = some n → id = id'

end Directory

namespace Call

def version? : Call → Option ℕ
  | .making n | .granting n => some n
  | _ => none

def stage? : Call → Option ℕ
  | .copying _ n | .hashing _ n | .recording _ n _ | .voting n | .moving n | .cleaning n => some n
  | _ => none

/-- What a call relies on between its operations. -/
def Ok (d : Directory) : Call → Prop
  | .making n => ∃ v, d.versions.get? n = some v
  | .granting n => n ∉ d.handed ∧ ∃ v, d.versions.get? n = some v ∧ v.content.isSome = true ∧
    (v.manifest.isSome = true → n ∈ d.sealed)
  | .judging n _ digest | .writing n _ digest => ∃ v entries, d.versions.get? n = some v ∧
    v.content = some entries ∧ treeDigest entries = some digest
  | .publishing n => ∃ v, d.versions.get? n = some v ∧ v.content.isSome = true ∧
    ∀ m, v.pending = some m → Describes m v.content
  | .copying _ n | .hashing _ n | .cleaning n => ∃ stage, d.stages.get? n = some stage
  | .recording _ n digest => ∃ stage entries, d.stages.get? n = some stage ∧
    stage.content = some entries ∧ treeDigest entries = some digest
  | .voting n | .moving n => ∃ stage m, d.stages.get? n = some stage ∧
    stage.manifest = some m ∧ Describes m stage.content
  | _ => True

variable {d d' : Directory} {c : Call}

theorem Ok.evolves (ok : c.Ok d) (evolves : d.Evolves d')
    (handed : ∀ n, c = .granting n → n ∉ d.handed → n ∉ d'.handed)
    (stages : ∀ n, c.stage? = some n → d'.stages.get? n = d.stages.get? n) : c.Ok d' := by
  cases c with
  | making n =>
    obtain ⟨v, found⟩ := ok
    obtain ⟨v', found', -⟩ := evolves.version n v found
    exact ⟨v', found'⟩
  | granting n =>
    obtain ⟨unhanded, v, found, content, published⟩ := ok
    obtain ⟨v', found', evolved, origin⟩ := evolves.version n v found
    refine ⟨handed n rfl unhanded, v', found', evolved.filled content, fun now => ?_⟩
    rcases origin now with before | sealed | empty
    · exact evolves.sealed (published before)
    · exact sealed
    · rw [empty] at content
      cases content
  | judging n producer digest | writing n producer digest =>
    obtain ⟨v, entries, found, content, digest⟩ := ok
    obtain ⟨v', found', evolved, -⟩ := evolves.version n v found
    exact ⟨v', entries, found', evolved.content entries content, digest⟩
  | publishing n =>
    obtain ⟨v, found, content, pending⟩ := ok
    obtain ⟨v', found', evolved, -⟩ := evolves.version n v found
    refine ⟨v', found', evolved.filled content, fun m now => ?_⟩
    rcases evolved.pending m now with before | describes
    · exact evolved.describes (pending m before)
    · exact describes
  | copying producer n | hashing producer n | cleaning n =>
    obtain ⟨stage, found⟩ := ok
    exact ⟨stage, (stages n rfl).trans found⟩
  | recording producer n digest =>
    obtain ⟨stage, entries, found, rest⟩ := ok
    exact ⟨stage, entries, (stages n rfl).trans found, rest⟩
  | voting n | moving n =>
    obtain ⟨stage, m, found, rest⟩ := ok
    exact ⟨stage, m, (stages n rfl).trans found, rest⟩
  | _ => trivial

theorem Ok.versioned (ok : c.Ok d) {n : ℕ} (own : c.version? = some n) :
    ∃ v, d.versions.get? n = some v := by
  cases c with
  | making m =>
    cases own
    exact ok
  | granting m =>
    cases own
    obtain ⟨-, v, found, -⟩ := ok
    exact ⟨v, found⟩
  | _ => cases own

theorem Ok.staged (ok : c.Ok d) {n : ℕ} (own : c.stage? = some n) :
    ∃ stage, d.stages.get? n = some stage := by
  cases c with
  | copying producer m | hashing producer m | cleaning m =>
    cases own
    exact ok
  | recording producer m digest =>
    cases own
    obtain ⟨stage, entries, found, -⟩ := ok
    exact ⟨stage, found⟩
  | voting m | moving m =>
    cases own
    obtain ⟨stage, manifest, found, -⟩ := ok
    exact ⟨stage, found⟩
  | _ => cases own

end Call

namespace Directory
variable {c' : Call} {n : ℕ}

structure Sound (d : Directory) : Prop where
  made : ∀ n ∈ d.handed, ∃ v, d.versions.get? n = some v ∧ v.content.isSome = true
  once : d.handed.Nodup
  returned : d.allocated ⊆ d.handed
  digests : ∀ n v m, d.versions.get? n = some v → v.manifest = some m → Describes m v.content
  sealed : ∀ n ∈ d.allocated, ∀ v, d.versions.get? n = some v → v.manifest.isSome = true →
    n ∈ d.sealed
  calls : ∀ id c, d.calls.get? id = some c → c.Ok d
  versionOwner : ∀ id id' c c' n, d.calls.get? id = some c → d.calls.get? id' = some c' →
    c.version? = some n → c'.version? = some n → id = id'
  stageOwner : ∀ id id' c c' n, d.calls.get? id = some c → d.calls.get? id' = some c' →
    c.stage? = some n → c'.stage? = some n → id = id'

/-- What one operation of a call does, for the call itself and for the others. -/
structure Turned (d : Directory) (c : Call) (t : Turn) : Prop where
  evolves : d.Evolves t.1
  calls : t.1.calls = d.calls
  next : ∀ c', t.2 = some c' → c'.Ok t.1 ∧
    (∀ n, c'.version? = some n → c.version? = some n ∨ d.versions.get? n = none) ∧
    ∀ n, c'.stage? = some n → c.stage? = some n ∨ d.stages.get? n = none
  stages : ∀ n stage, d.stages.get? n = some stage → c.stage? ≠ some n →
    t.1.stages.get? n = d.stages.get? n
  handed : t.1.handed = d.handed ∧ t.1.allocated = d.allocated ∨
    ∃ n, n ∉ d.handed ∧ t.1.handed = n :: d.handed ∧
      (∃ v, t.1.versions.get? n = some v ∧ v.content.isSome = true) ∧
      (c.version? = some n ∨ ∀ v, d.versions.get? n = some v → v.content = none) ∧
      (t.1.allocated = d.allocated ∨ t.1.allocated = n :: d.allocated ∧
        ∀ v, t.1.versions.get? n = some v → v.manifest.isSome = true → n ∈ t.1.sealed)

variable {d : Directory} {c : Call} {calls : Dict ℕ Call}

theorem Turned.ends (d : Directory) (c : Call) : Turned d c d.ends where
  evolves := .of_same rfl rfl
  calls := rfl
  next := nofun
  stages _ _ _ _ := rfl
  handed := .inl ⟨rfl, rfl⟩

theorem Turned.goes (ok : c'.Ok d) (version : ∀ n, c'.version? = some n → c.version? = some n)
    (stage : ∀ n, c'.stage? = some n → c.stage? = some n) : Turned d c (d, some c') :=
  { Turned.ends d c with
    next := by
      rintro _ ⟨⟩
      exact ⟨ok, fun n own => .inl (version n own), fun n own => .inl (stage n own)⟩ }

theorem Turned.version {v' : VersionDir} (evolves : d.Evolves (d.setVersion n v'))
    (ok : c'.Ok (d.setVersion n v'))
    (version : ∀ n, c'.version? = some n → c.version? = some n ∨ d.versions.get? n = none)
    (stage : c'.stage? = none) : Turned d c (d.setVersion n v', some c') :=
  { Turned.ends d c with
    evolves
    next := by
      rintro _ ⟨⟩
      exact ⟨ok, version, fun n own => nomatch stage.symm.trans own⟩
    handed := .inl ⟨rfl, rfl⟩ }

theorem Turned.stage {stage : Stage} (own : c.stage? = some n ∨ d.stages.get? n = none)
    (ok : c'.Ok (d.setStage n stage)) (version : c'.version? = none) (same : c'.stage? = some n) :
    Turned d c (d.setStage n stage, some c') :=
  { Turned.ends d c with
    evolves := .of_same rfl rfl
    next := by
      rintro _ ⟨⟩
      refine ⟨ok, (fun n own => nomatch version.symm.trans own), fun m owns => ?_⟩
      cases same.symm.trans owns
      exact own
    stages := by
      intro m found listed other
      refine get?_set_of_ne fun eq => ?_
      subst eq
      exact own.elim other fun absent => nomatch absent.symm.trans listed }

section
variable (d : Directory) (n : ℕ)

theorem get?_setVersion_self (v : VersionDir) :
    (d.setVersion n v).versions.get? n = some v := get?_set_self ..

theorem get?_setStage_self (stage : Stage) :
    (d.setStage n stage).stages.get? n = some stage := get?_set_self ..

theorem turned_claim : Turned d (.claiming n) (d.claim n) := by
  unfold claim
  split_ifs with taken
  · exact .goes trivial nofun nofun
  · have absent : d.versions.get? n = none := by simpa [Dict.contains] using taken
    refine .version (.set rfl (List.Subset.refl _) (fun v found => ?_) fun _ => ?_)
      ⟨_, d.get?_setVersion_self n _⟩ ?_ rfl
    · cases absent.symm.trans found
    · rintro _ ⟨⟩
    · rintro m ⟨⟩
      exact .inr absent

end

theorem turned_grant (n : ℕ) (ok : (granting n).Ok d) : Turned d (.granting n) (d.grant n) := by
  obtain ⟨unhanded, v, found, content, published⟩ := ok
  unfold grant
  rw [found]
  dsimp only
  split_ifs with claimed
  · exact .ends ..
  · have evolves : v.Evolves { v with claim := true } :=
      ⟨fun _ same => same, fun _ same => .inl same, fun _ same => .inl same, id⟩
    refine ⟨.change found rfl (List.Subset.refl _) evolves .inl, rfl, nofun, fun _ _ _ _ => rfl,
      .inr ⟨n, unhanded, rfl, ?_, .inl rfl, ?_⟩⟩
    · exact ⟨_, d.get?_setVersion_self n _, content⟩
    · refine .inr ⟨rfl, fun v' found' now => ?_⟩
      cases (d.get?_setVersion_self n _).symm.trans found'
      exact published now

theorem turned_admit (kind : Kind) (n producer : ℕ) :
    Turned d (.admitting n producer) (d.admitVersion kind n producer) := by
  unfold admitVersion
  split
  · exact .ends ..
  · split_ifs
    · exact .ends ..
    · exact .goes trivial nofun nofun

theorem turned_digestContent (n producer : ℕ) :
    Turned d (.digesting n producer) (d.digestContent n producer) := by
  unfold digestContent
  cases found : d.versions.get? n with
  | none => exact .ends ..
  | some v =>
    rw [bind_some]
    cases content : v.content with
    | none => exact .ends ..
    | some entries =>
      dsimp only
      cases digest : treeDigest entries with
      | none => exact .ends ..
      | some taken =>
        have ok : (judging n producer taken).Ok d := ⟨v, entries, found, content, digest⟩
        exact .goes ok nofun nofun

theorem turned_edit {change : VersionDir → VersionDir} {next : Call}
    (content : ∀ v, (change v).content = v.content)
    (manifest : ∀ v, (change v).manifest = v.manifest)
    (pending : ∀ v, d.versions.get? n = some v → ∀ m, (change v).pending = some m →
      v.pending = some m ∨ Describes m v.content)
    (ok : ∀ v, d.versions.get? n = some v → next.Ok (d.setVersion n (change v)))
    (version : next.version? = none) (stage : next.stage? = none) :
    Turned d c (d.edit n change next) := by
  unfold edit
  cases found : d.versions.get? n with
  | none => exact .ends ..
  | some v =>
    have evolves : v.Evolves (change v) := by
      refine ⟨fun entries same => (content v).trans same, fun m now => ?_, fun m now => ?_, ?_⟩
      · rw [content]
        exact pending v found m now
      · exact .inl (manifest v ▸ now)
      · rw [manifest]
        exact id
    exact .version (.change found rfl (List.Subset.refl _) evolves fun now => .inl (manifest v ▸ now))
      (ok v found) (fun n own => nomatch version.symm.trans own) stage

theorem turned_publish (n : ℕ) (ok : (publishing n).Ok d) :
    Turned d (.publishing n) (d.publish n) := by
  obtain ⟨v, found, content, pending⟩ := ok
  unfold publish
  rw [found]
  dsimp only
  cases written : v.pending with
  | none => exact .ends ..
  | some m =>
    have describes := pending m written
    refine ⟨.change found rfl (subset_cons_self ..) ⟨fun _ same => same, nofun,
      fun m' now => ?_, fun _ => rfl⟩ fun _ => .inr (.inl mem_cons_self), rfl, nofun,
      fun _ _ _ _ => rfl, .inl ⟨rfl, rfl⟩⟩
    cases now
    exact .inr describes

theorem turned_stage (producer n : ℕ) : Turned d (.staging producer n) (d.stage producer n) := by
  unfold stage
  split_ifs with taken
  · exact .goes trivial nofun nofun
  · have absent : d.stages.get? n = none := by simpa [Dict.contains] using taken
    exact .stage (.inr absent) ⟨_, d.get?_setStage_self n _⟩ rfl rfl

theorem turned_editStage {change : Stage → Stage} {next : Call} (own : c.stage? = some n)
    {stage : Stage} (found : d.stages.get? n = some stage)
    (ok : next.Ok (d.setStage n (change stage))) (version : next.version? = none)
    (same : next.stage? = some n) : Turned d c (d.editStage n change next) := by
  unfold editStage
  rw [found]
  exact .stage (.inl own) ok version same

theorem turned_digestStage (producer n : ℕ) (ok : (hashing producer n).Ok d) :
    Turned d (.hashing producer n) (d.digestStage producer n) := by
  obtain ⟨stage, found⟩ := ok
  have cleaning : (cleaning n).Ok d := ⟨stage, found⟩
  unfold digestStage
  rw [found, bind_some]
  cases content : stage.content with
  | none => exact .goes cleaning nofun (fun _ own => own)
  | some entries =>
    rw [bind_some]
    cases digest : treeDigest entries with
    | none => exact .goes cleaning nofun (fun _ own => own)
    | some taken =>
      have ok : (recording producer n taken).Ok d := ⟨stage, entries, found, content, digest⟩
      exact .goes ok nofun (fun _ own => own)

theorem turned_clean (n : ℕ) (copied : Entries) (more : Bool) (ok : (cleaning n).Ok d) :
    Turned d (.cleaning n) (if more then
      d.editStage n ({ · with content := some copied }) (.cleaning n)
    else ends { d with stages := d.stages.erase n }) := by
  obtain ⟨stage, found⟩ := ok
  split_ifs
  · exact turned_editStage rfl found ⟨_, d.get?_setStage_self n _⟩ rfl rfl
  · refine ⟨.of_same rfl rfl, rfl, nofun, fun other stage' listed differ => ?_, .inl ⟨rfl, rfl⟩⟩
    refine get?_erase_of_ne fun same => ?_
    exact differ (congrArg some same.symm)

theorem turned_raised (ok : c.Ok d) : Turned d c (d.raised c) := by
  cases c with
  | copying producer n | hashing producer n => exact .goes ok nofun (fun _ own => own)
  | recording producer n digest =>
    obtain ⟨stage, entries, found, -⟩ := ok
    exact .goes ⟨stage, found⟩ nofun (fun _ own => own)
  | voting n | moving n =>
    obtain ⟨stage, m, found, -⟩ := ok
    exact .goes ⟨stage, found⟩ nofun (fun _ own => own)
  | _ => exact .ends ..

theorem get?_calls_next {id id' : ℕ} {next : Option Call}
    (found : (next.elim (calls.erase id) (calls.set id)).get? id' = some c') :
    id' = id ∧ next = some c' ∨ id' ≠ id ∧ calls.get? id' = some c' := by
  by_cases same : id' = id
  · subst same
    refine .inl ⟨rfl, ?_⟩
    cases next with
    | none => simp at found
    | some c => simpa using found
  · refine .inr ⟨same, ?_⟩
    cases next with
    | none => simpa [get?_erase_of_ne same] using found
    | some c => simpa [get?_set_of_ne same] using found

theorem Sole.next {own : Call → Option ℕ} (sole : Sole own calls) {id : ℕ}
    (running : calls.get? id = some c) {next : Option Call} {fresh : ℕ → Prop}
    (owned : ∀ id' c' n, calls.get? id' = some c' → own c' = some n → ¬fresh n)
    (keeps : ∀ c', next = some c' → ∀ n, own c' = some n → own c = some n ∨ fresh n) :
    Sole own (next.elim (calls.erase id) (calls.set id)) := by
  -- the call that took the turn keeps its directory, or has made one that was not there
  have apart : ∀ {id' c' c'' n}, id' ≠ id → calls.get? id' = some c' → next = some c'' →
      own c' = some n → own c'' = some n → False := by
    intro id' c' c'' n differ running' after owns owns'
    rcases keeps c'' after n owns' with before | new
    · exact differ (sole _ _ _ _ n running' running owns before)
    · exact owned id' c' n running' owns new
  intro id' id'' c' c'' n found found' owns owns'
  rcases get?_calls_next found with ⟨rfl, after⟩ | ⟨differ, running'⟩ <;>
    rcases get?_calls_next found' with ⟨rfl, after'⟩ | ⟨differ', running''⟩
  · rfl
  · exact (apart differ' running'' after owns' owns).elim
  · exact (apart differ running' after' owns owns').elim
  · exact sole _ _ _ _ n running' running'' owns owns'

theorem Sound.start : Directory.empty.Sound := by
  constructor <;> simp [empty]

theorem mem_listVersions :
    n ∈ d.listVersions ↔ ∃ v, d.versions.get? n = some v ∧ v.manifest.isSome = true := by
  unfold listVersions
  rw [List.mem_insertionSort, List.mem_map]
  constructor
  · rintro ⟨⟨m, v⟩, listed, rfl⟩
    obtain ⟨found, published⟩ := mem_filter.mp listed
    exact ⟨v, (get?_eq_some_iff ..).mpr found, published⟩
  · rintro ⟨v, found, published⟩
    exact ⟨(n, v), mem_filter.mpr ⟨(get?_eq_some_iff ..).mp found, published⟩, rfl⟩

theorem latest_ne_of_not_listed (hidden : n ∉ d.listVersions) : d.latest ≠ some n :=
  fun last => hidden (mem_of_getLast? last)

def contentOf (d : Directory) (n : ℕ) : Option Entries := (d.versions.get? n).bind (·.content)

structure Durable (d : Directory) : Prop where
  once : d.handed.Nodup
  /-- The manifest of a published version has the digest of its content. -/
  described : ∀ n ∈ d.listVersions, ∃ v m entries, d.versions.get? n = some v ∧
    v.manifest = some m ∧ v.content = some entries ∧ treeDigest entries = some m.digest
  holes : ∀ n ∈ d.allocated, n ∉ d.sealed → n ∉ d.listVersions ∧ d.latest ≠ some n

theorem Evolves.stays {d' : Directory} (evolves : d.Evolves d') (sound : d.Sound)
    (listed : n ∈ d.listVersions) : n ∈ d'.listVersions ∧ d'.contentOf n = d.contentOf n := by
  obtain ⟨v, found, published⟩ := mem_listVersions.mp listed
  obtain ⟨m, manifest⟩ := isSome_iff_exists.mp published
  obtain ⟨entries, content, -⟩ := sound.digests n v m found manifest
  obtain ⟨v', found', evolved, -⟩ := evolves.version n v found
  refine ⟨mem_listVersions.mpr ⟨v', found', evolved.published published⟩, ?_⟩
  rw [contentOf, contentOf, found, found', bind_some, bind_some, content,
    evolved.content entries content]

/-- What is published stays, with its content. -/
def Stays (d d' : Directory) : Prop :=
  ∀ n ∈ d.listVersions, n ∈ d'.listVersions ∧ d'.contentOf n = d.contentOf n

section
variable (sound : d.Sound)
include sound

theorem turned_make (n : ℕ) : Turned d (.making n) (d.make n) := by
  unfold make
  cases found : d.versions.get? n with
  | none => exact .ends ..
  | some v =>
    dsimp only
    cases content : v.content with
    | some entries => exact .ends ..
    | none =>
      have unpublished : v.manifest = none := by
        cases manifest : v.manifest with
        | none => rfl
        | some m =>
          obtain ⟨entries, content', -⟩ := sound.digests n v m found manifest
          cases content.symm.trans content'
      have unhanded : n ∉ d.handed := by
        intro handed
        obtain ⟨v', found', content'⟩ := sound.made n handed
        cases found.symm.trans found'
        rw [content] at content'
        cases content'
      refine .version (.change found rfl (List.Subset.refl _)
        ⟨fun entries now => (nomatch content.symm.trans now), fun m now => .inl now,
          fun m now => .inl now, id⟩ .inl) ?_ ?_ rfl
      · refine ⟨unhanded, _, d.get?_setVersion_self n _, rfl, fun now => ?_⟩
        rw [unpublished] at now
        cases now
      · rintro m ⟨⟩
        exact .inl rfl

theorem turned_rename (n : ℕ) (ok : (moving n).Ok d) : Turned d (.moving n) (d.rename n) := by
  obtain ⟨stage, m, found, manifest, describes⟩ := ok
  unfold rename
  rw [found]
  split_ifs with empty
  · have bare : ∀ v, d.versions.get? n = some v →
        v.content = none ∧ v.pending = none ∧ v.manifest = none := by
      intro v listed
      rw [listed] at empty
      simp only [all_some, VersionDir.isEmpty, Bool.and_eq_true, isNone_iff_eq_none] at empty
      exact ⟨empty.1.1.1.1, empty.1.2, empty.2⟩
    have unhanded : n ∉ d.handed := by
      intro handed
      obtain ⟨v, listed, content⟩ := sound.made n handed
      rw [(bare v listed).1] at content
      cases content
    refine ⟨.set rfl (List.Subset.refl _) (fun v listed => ?_) (fun _ m' now => ?_), rfl,
      nofun, fun other stage' listed differ => ?_,
      .inr ⟨n, unhanded, rfl, ?_, .inr fun v listed => (bare v listed).1, .inl rfl⟩⟩
    · obtain ⟨content, pending, unpublished⟩ := bare v listed
      refine ⟨⟨fun entries now => (nomatch content.symm.trans now), nofun, fun m' now => .inr ?_,
        fun now => ?_⟩, fun _ => .inr (.inr content)⟩
      · cases manifest.symm.trans now
        exact describes
      · rw [unpublished] at now
        cases now
    · cases manifest.symm.trans now
      exact describes
    · refine get?_erase_of_ne fun same => ?_
      exact differ (congrArg some same.symm)
    · obtain ⟨entries, content, -⟩ := describes
      refine ⟨_, d.get?_setVersion_self n _, ?_⟩
      rw [content]
      rfl
  · exact .goes ⟨stage, found⟩ nofun (fun _ own => own)

theorem turned_turn (kind : Option Kind) (copied : Entries) (more : Bool)
    (ok : c.Ok d) : Turned d c (d.turn kind copied more c) := by
  cases c with
  | listing | guessing => exact .goes trivial nofun nofun
  | claiming n => exact turned_claim d n
  | making n => exact turned_make sound n
  | granting n => exact turned_grant n ok
  | resolving n producer =>
    dsimp only [turn]
    split_ifs
    · exact .goes trivial nofun nofun
    · exact .ends ..
  | unpublished n producer =>
    dsimp only [turn]
    split_ifs
    · exact .ends ..
    · exact .goes trivial nofun nofun
  | admitting n producer =>
    cases kind with
    | none => exact .ends ..
    | some kind => exact turned_admit kind n producer
  | digesting n producer => exact turned_digestContent n producer
  | judging n producer digest =>
    obtain ⟨v, entries, found, content, digest'⟩ := ok
    refine turned_edit (fun _ => rfl) (fun _ => rfl) (fun _ _ _ now => .inl now)
      (fun v' found' => ?_) rfl rfl
    cases found.symm.trans found'
    exact ⟨_, entries, d.get?_setVersion_self n _, content, digest'⟩
  | writing n producer digest =>
    obtain ⟨v, entries, found, content, digest'⟩ := ok
    refine turned_edit (fun _ => rfl) (fun _ => rfl) (fun v' found' m now => ?_)
      (fun v' found' => ?_) rfl rfl
    · cases found.symm.trans found'
      cases now
      exact .inr ⟨entries, content, digest'⟩
    · cases found.symm.trans found'
      refine ⟨_, d.get?_setVersion_self n _, by simp [content], fun m now => ?_⟩
      cases now
      exact ⟨entries, content, digest'⟩
  | publishing n => exact turned_publish n ok
  | checking producer source =>
    cases kind with
    | none => exact .ends ..
    | some kind =>
      dsimp only [turn]
      split_ifs
      · exact .goes trivial nofun nofun
      · exact .ends ..
  | staging producer n => exact turned_stage producer n
  | copying producer n =>
    obtain ⟨stage, found⟩ := ok
    cases more <;> exact turned_editStage rfl found ⟨_, d.get?_setStage_self n _⟩ rfl rfl
  | hashing producer n => exact turned_digestStage producer n ok
  | recording producer n digest =>
    obtain ⟨stage, entries, found, content, digest'⟩ := ok
    refine turned_editStage rfl found ⟨_, _, d.get?_setStage_self n _, rfl, ?_⟩ rfl rfl
    exact ⟨entries, content, digest'⟩
  | voting n =>
    obtain ⟨stage, m, found, manifest, describes⟩ := ok
    exact turned_editStage rfl found ⟨_, m, d.get?_setStage_self n _, manifest, describes⟩ rfl rfl
  | moving n => exact turned_rename sound n ok
  | cleaning n => exact turned_clean n copied more ok

theorem Sound.turned {id : ℕ} (running : d.calls.get? id = some c) {t : Turn}
    (turned : Turned d c t) :
    Sound { t.1 with calls := t.2.elim (t.1.calls.erase id) (t.1.calls.set id) } := by
  obtain ⟨evolves, calls, next, stages, handed⟩ := turned
  have others : ∀ {id' c'}, id' ≠ id → d.calls.get? id' = some c' → c'.Ok t.1 := by
    intro id' c' differ running'
    refine (sound.calls id' c' running').evolves evolves (fun n granting unhanded => ?_)
      fun n own => ?_
    · rcases handed with ⟨same, -⟩ | ⟨m, -, added, -, maker, -⟩
      · rwa [same]
      · rw [added, mem_cons]
        rintro (rfl | before)
        · rcases maker with owner | empty
          · have own : c'.version? = some n := by rw [granting]; rfl
            exact differ (sound.versionOwner _ _ _ _ n running' running own owner)
          · have ok := sound.calls id' c' running'
            rw [granting] at ok
            obtain ⟨-, v, found, content, -⟩ := ok
            rw [empty v found] at content
            cases content
        · exact unhanded before
    · obtain ⟨stage, found⟩ := (sound.calls id' c' running').staged own
      exact stages n stage found fun owns =>
        differ (sound.stageOwner _ _ _ _ n running' running own owns)
  have same : Evolves t.1 { t.1 with calls := t.2.elim (t.1.calls.erase id) (t.1.calls.set id) } :=
    .of_same rfl rfl
  have kept : ∀ n ∈ d.handed, ∃ v, t.1.versions.get? n = some v ∧ v.content.isSome = true := by
    intro n mem
    obtain ⟨v, found, content⟩ := sound.made n mem
    obtain ⟨v', found', evolved, -⟩ := evolves.version n v found
    exact ⟨v', found', evolved.filled content⟩
  have sealed : ∀ n ∈ d.allocated, ∀ v, t.1.versions.get? n = some v →
      v.manifest.isSome = true → n ∈ t.1.sealed := by
    intro n mem v' found' now
    obtain ⟨v, found, content⟩ := sound.made n (sound.returned mem)
    obtain ⟨v'', found'', -, origin⟩ := evolves.version n v found
    cases found'.symm.trans found''
    rcases origin now with before | sealed | empty
    · exact evolves.sealed (sound.sealed n mem v found before)
    · exact sealed
    · rw [empty] at content
      cases content
  constructor
  · intro n mem
    rcases handed with ⟨unchanged, -⟩ | ⟨m, -, added, made, -, -⟩
    · exact kept n (unchanged ▸ mem)
    · rcases mem_cons.mp (added ▸ mem) with rfl | before
      · exact made
      · exact kept n before
  · rcases handed with ⟨unchanged, -⟩ | ⟨m, new, added, -⟩
    · exact unchanged ▸ sound.once
    · exact added ▸ nodup_cons.mpr ⟨new, sound.once⟩
  · intro n mem
    rcases handed with ⟨unchanged, allocated⟩ | ⟨m, -, added, -, -, allocated | ⟨allocated, -⟩⟩
    · exact unchanged ▸ sound.returned (allocated ▸ mem)
    · exact added ▸ mem_cons_of_mem m (sound.returned (allocated ▸ mem))
    · rcases mem_cons.mp (allocated ▸ mem) with rfl | before
      · exact added ▸ mem_cons_self
      · exact added ▸ mem_cons_of_mem m (sound.returned before)
  · intro n v' m found' manifest
    cases found : d.versions.get? n with
    | none => exact evolves.fresh n v' found found' m manifest
    | some v =>
      obtain ⟨v'', found'', evolved, -⟩ := evolves.version n v found
      cases found'.symm.trans found''
      rcases evolved.manifest m manifest with before | describes
      · exact evolved.describes (sound.digests n v m found before)
      · exact describes
  · intro n mem
    rcases handed with ⟨-, allocated⟩ | ⟨m, -, -, -, -, allocated | ⟨allocated, granted⟩⟩
    · exact sealed n (allocated ▸ mem)
    · exact sealed n (allocated ▸ mem)
    · rcases mem_cons.mp (allocated ▸ mem) with rfl | before
      · exact granted
      · exact sealed n before
  · intro id' c' found
    refine Ok.evolves ?_ same (fun _ _ unhanded => unhanded) (fun _ _ => rfl)
    rcases get?_calls_next found with ⟨-, after⟩ | ⟨differ, running'⟩
    · exact (next c' after).1
    · exact others differ (calls ▸ running')
  · rw [calls]
    refine Sole.next sound.versionOwner running (fun id' c' n running' own absent => ?_)
      fun c' after => (next c' after).2.1
    obtain ⟨v, found⟩ := (sound.calls id' c' running').versioned own
    exact nomatch absent.symm.trans found
  · rw [calls]
    refine Sole.next sound.stageOwner running (fun id' c' n running' own absent => ?_)
      fun c' after => (next c' after).2.2
    obtain ⟨stage, found⟩ := (sound.calls id' c' running').staged own
    exact nomatch absent.symm.trans found

theorem Sound.with_calls
    (old : ∀ id c, calls.get? id = some c → c.isInitial = true ∨ d.calls.get? id = some c) :
    Sound { d with calls } := by
  have idle : ∀ c : Call, c.isInitial = true → c.Ok d ∧ c.version? = none ∧ c.stage? = none := by
    intro c initial
    cases c <;> first | exact ⟨trivial, rfl, rfl⟩ | cases initial
  have sole : ∀ {own : Call → Option ℕ}, Sole own d.calls →
      (∀ c : Call, c.isInitial = true → own c = none) → Sole own calls := by
    intro own sole unowned id id' c c' n found found' owns owns'
    rcases old id c found with initial | running
    · exact nomatch (unowned c initial).symm.trans owns
    · rcases old id' c' found' with initial | running'
      · exact nomatch (unowned c' initial).symm.trans owns'
      · exact sole id id' c c' n running running' owns owns'
  refine { sound with
    calls id c found := ?_
    versionOwner := sole sound.versionOwner fun c initial => (idle c initial).2.1
    stageOwner := sole sound.stageOwner fun c initial => (idle c initial).2.2 }
  · refine Ok.evolves ?_ (.of_same rfl rfl) (fun _ _ unhanded => unhanded) (fun _ _ => rfl)
    exact (old id c found).elim (fun initial => (idle c initial).1) (sound.calls id c)

theorem Sound.write {content : Entries} {v : VersionDir}
    (found : d.versions.get? n = some v) (unpublished : v.manifest = none)
    (undigested : ∀ id c, d.calls.get? id = some c → c.hasDigestOf n = false) :
    (d.setVersion n { v with content := some content }).Sound := by
  set d' := d.setVersion n { v with content := some content }
  have own : d'.versions.get? n = some { v with content := some content } :=
    d.get?_setVersion_self n _
  have elsewhere : ∀ m, m ≠ n → d'.versions.get? m = d.versions.get? m :=
    fun m differ => get?_set_of_ne differ
  have versions : ∀ m v', d'.versions.get? m = some v' →
      v'.manifest = none ∨ d.versions.get? m = some v' := by
    intro m v' listed
    rcases get?_set_cases listed with ⟨-, rfl⟩ | ⟨-, before⟩
    · exact .inl unpublished
    · exact .inr before
  have present : ∀ m v', d.versions.get? m = some v' → v'.content.isSome = true →
      ∃ v'', d'.versions.get? m = some v'' ∧ v''.content.isSome = true ∧
        v''.manifest = v'.manifest := by
    intro m v' listed content'
    by_cases same : m = n
    · subst same
      cases found.symm.trans listed
      exact ⟨_, own, rfl, rfl⟩
    · exact ⟨v', (elsewhere m same).trans listed, content', rfl⟩
  refine { sound with made := ?_, digests := ?_, sealed := ?_, calls := ?_ }
  · intro m handed
    obtain ⟨v', listed, content'⟩ := sound.made m handed
    obtain ⟨v'', listed', content'', -⟩ := present m v' listed content'
    exact ⟨v'', listed', content''⟩
  · intro m v' manifest listed published
    rcases versions m v' listed with none | before
    · exact nomatch none.symm.trans published
    · exact sound.digests m v' manifest before published
  · intro m allocated v' listed published
    rcases versions m v' listed with none | before
    · rw [none] at published
      cases published
    · exact sound.sealed m allocated v' before published
  · intro id c running
    have ok := sound.calls id c running
    have other := undigested id c running
    cases c with
    | making m =>
      obtain ⟨v', listed⟩ := ok
      by_cases same : m = n
      · subst same
        exact ⟨_, own⟩
      · exact ⟨v', (elsewhere m same).trans listed⟩
    | granting m =>
      obtain ⟨unhanded, v', listed, content', origin⟩ := ok
      obtain ⟨v'', listed', content'', manifest⟩ := present m v' listed content'
      exact ⟨unhanded, v'', listed', content'', manifest ▸ origin⟩
    | judging m producer digest | writing m producer digest =>
      have differ : m ≠ n := by simpa [hasDigestOf] using other
      obtain ⟨v', entries, listed, rest⟩ := ok
      exact ⟨v', entries, (elsewhere m differ).trans listed, rest⟩
    | publishing m =>
      have differ : m ≠ n := by simpa [hasDigestOf] using other
      obtain ⟨v', listed, rest⟩ := ok
      exact ⟨v', (elsewhere m differ).trans listed, rest⟩
    | _ => exact ok

theorem Sound.durable : d.Durable where
  once := sound.once
  described := by
    intro n listed
    obtain ⟨v, found, published⟩ := mem_listVersions.mp listed
    obtain ⟨m, manifest⟩ := isSome_iff_exists.mp published
    obtain ⟨entries, content, digest⟩ := sound.digests n v m found manifest
    exact ⟨v, m, entries, found, manifest, content, digest⟩
  holes := by
    intro n allocated unsealed
    have hidden : n ∉ d.listVersions := by
      intro listed
      obtain ⟨v, found, published⟩ := mem_listVersions.mp listed
      exact unsealed (sound.sealed n allocated v found published)
    exact ⟨hidden, latest_ne_of_not_listed hidden⟩

theorem Sound.step (kind : Option Kind) {e : Event} (careful : d.Careful e) :
    (d.step kind e).Sound ∧ d.Stays (d.step kind e) := by
  have still : d.Stays d := fun n listed => ⟨listed, rfl⟩
  cases e with
  | begin id call =>
    dsimp only [Directory.step]
    split_ifs with begins
    · refine ⟨sound.with_calls fun id' c found => ?_, still⟩
      rcases get?_set_cases found with ⟨-, rfl⟩ | ⟨-, found⟩
      · exact .inl begins.1
      · exact .inr found
    · exact ⟨sound, still⟩
  | turn id copied more fails =>
    dsimp only [Directory.step]
    cases running : d.calls.get? id with
    | none => exact ⟨sound, still⟩
    | some c =>
      have ok := sound.calls id c running
      have taken : ∀ t, Turned d c t →
          Sound { t.1 with calls := t.2.elim (t.1.calls.erase id) (t.1.calls.set id) } ∧
            d.Stays t.1 := fun t turned =>
        ⟨sound.turned running turned, fun n listed => turned.evolves.stays sound listed⟩
      split_ifs
      · exact taken _ (turned_raised ok)
      · exact taken _ (turned_turn sound kind copied more ok)
  | crash ids =>
    refine ⟨sound.with_calls fun id c found => .inr ?_, still⟩
    rw [get?_eraseAll] at found
    split_ifs at found
    exact found
  | write m content =>
    dsimp only [Directory.step]
    cases found : d.versions.get? m with
    | none => exact ⟨sound, still⟩
    | some v =>
      dsimp only
      split_ifs
      · have unpublished : v.manifest = none := by
          have hole := careful.1
          rw [exists?, found] at hole
          simpa using hole
        refine ⟨sound.write found unpublished fun id c running => careful.2 c ?_,
          fun n listed => ?_⟩
        · exact mem_values_iff.mpr ⟨id, running⟩
        · have differ : n ≠ m := by
            rintro rfl
            obtain ⟨v', found', published⟩ := mem_listVersions.mp listed
            cases found.symm.trans found'
            rw [unpublished] at published
            cases published
          have same : (d.setVersion m { v with content := some content }).versions.get? n =
              d.versions.get? n := get?_set_of_ne differ
          rw [mem_listVersions, contentOf, same]
          exact ⟨mem_listVersions.mp listed, rfl⟩
      · exact ⟨sound, still⟩

end

end Directory

namespace FilesystemStore

/-- In every history, and in each state of it: numbers are unique, manifests describe what they
publish, holes stay hidden, and what is published stays. -/
theorem published_versions_durable {store : FilesystemStore}
    (reached : Reaches Start step Careful store) (hid : ℕ) :
    (store.dirs hid).Durable ∧ ∀ e, store.Careful e → ∀ n ∈ (store.dirs hid).listVersions,
      n ∈ ((store.step e).dirs hid).listVersions ∧
        ((store.step e).dirs hid).contentOf n = (store.dirs hid).contentOf n := by
  have base : ∀ store : FilesystemStore, store.Start → ∀ hid, (store.dirs hid).Sound := by
    intro store start hid
    rw [start hid]
    exact .start
  have sound : ∀ hid, (store.dirs hid).Sound := by
    refine reached.invariant base fun store e sound careful hid => ?_
    by_cases same : hid = e.1
    · subst same
      simpa [step] using ((sound e.1).step (store.kindFor e.1) careful).1
    · simpa [step, Function.update_of_ne same] using sound hid
  refine ⟨(sound hid).durable, fun e careful n listed => ?_⟩
  by_cases same : hid = e.1
  · subst same
    simpa [step] using ((sound e.1).step (store.kindFor e.1) careful).2 n listed
  · simpa [step, Function.update_of_ne same] using listed

def anyKind : FilesystemStore := ⟨fun _ => some ⟨"text", fun _ => true⟩, fun _ => .empty⟩

def note : Entries := .cons (ascii "README.md") (.file false (ascii "hi")) .nil

def runs (id count : ℕ) : List (ℕ × Directory.Event) :=
  List.replicate count (0, .turn id note false false)

/-- A version is allocated, written and sealed, one is put, and a third is allocated and its
process dies in the middle of the seal. -/
def history : List (ℕ × Directory.Event) :=
  (0, .begin 0 .listing) :: runs 0 4 ++ [(0, .write 0 note), (0, .begin 1 (.resolving 0 7))] ++
    runs 1 7 ++ [(0, .begin 2 (.checking 7 note))] ++ runs 2 8 ++ [(0, .begin 3 .listing)] ++
    runs 3 4 ++ [(0, .write 2 note), (0, .begin 4 (.resolving 2 7))] ++ runs 4 6 ++ [(0, .crash [4])]

theorem history_durable :
    ((history.foldl step anyKind).dirs 0).Durable ∧
      ((history.foldl step anyKind).dirs 0).handed = [2, 1, 0] ∧
      ((history.foldl step anyKind).dirs 0).listVersions = [0, 1] := by
  refine ⟨(published_versions_durable (Reaches.along _ (.start fun _ => rfl) ?_) 0).1, ?_, ?_⟩
  all_goals decide +kernel

end FilesystemStore
end Infera.Handoff
