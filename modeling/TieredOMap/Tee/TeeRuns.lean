import TieredOMap.Tee.TeeOmap

/-!
# Runs of the tiered map of the enclave

A run loads the map and then serves accesses. When a maintenance step is due after an access, a
key is demoted and then one promoted, before the next access: the states in between are states
of the run as well. What a run promises of the state before each step is a parameter.
-/

namespace TieredOmap

/-- One access of a run. -/
structure Served where
  key : Int
  newValue : Option Bytes
  wasHot : Bool
  epoch : Int

/-- What the run does next. -/
inductive Stage where
  | idle
  | demoting
  | promoting
deriving DecidableEq, Repr

namespace TeeOmap

variable {Ω : Type} {s : TeeOmap Ω}

/-- The current epoch: `access_counter_ / observation_window`. -/
def epoch (s : TeeOmap Ω) : Int := s.accessCounter.tdiv s.config.maintenance.observationWindow

/-- What the history says about an access. -/
def served (s : TeeOmap Ω) (key : Int) (newValue : Option Bytes) : Served :=
  ⟨key, newValue, s.isHot key, s.epoch⟩

/-- What the run does after an access. -/
def afterServe (s : TeeOmap Ω) : Stage := if s.maintenanceDue then .demoting else .idle

variable [ColdMap Ω]

/-- Runs of `access` from `init`: each one is served, and when a maintenance step is due a key
is demoted and one is promoted. Signed overflow of the counter has no meaning. -/
inductive Ran (config : TeeOmapConfig) (allData : List (Int × Bytes)) (hotKeys : List Int)
    (promise : Stage → List Served → TeeOmap Ω → Prop) : Stage → List Served → TeeOmap Ω → Prop
  | init {built s : TeeOmap Ω} {world world' loading loaded : TeeWorld}
      (constructed : (new config).runFrom world = (.ok built, world'))
      (initialised : (built.init allData hotKeys).runFrom loading = (.ok s, loaded)) :
      Ran config allData hotKeys promise .idle [] s
  | serve {history : List Served} {s s' : TeeOmap Ω} {key : Int} {newValue : Option Bytes}
      {result : TeeAccessResult} {world world' : TeeWorld}
      (before : Ran config allData hotKeys promise .idle history s)
      (allowed : promise .idle history s)
      (counts : s.accessCounter + 1 < 2 ^ 31)
      (returned : (s.serve key newValue).runFrom world = (.ok (result, s'), world')) :
      Ran config allData hotKeys promise s'.afterServe (history ++ [s.served key newValue]) s'
  | demote {history : List Served} {s s' : TeeOmap Ω} {world world' : TeeWorld}
      (before : Ran config allData hotKeys promise .demoting history s)
      (allowed : promise .demoting history s)
      (demoted : s.demoteStep.runFrom world = (.ok s', world')) :
      Ran config allData hotKeys promise .promoting history s'
  | promote {history : List Served} {s s' : TeeOmap Ω} {world world' : TeeWorld}
      (before : Ran config allData hotKeys promise .promoting history s)
      (allowed : promise .promoting history s)
      (promoted : s.promoteStep.runFrom world = (.ok s', world')) :
      Ran config allData hotKeys promise .idle history s'

/-- An access is served, and if a maintenance step is due then, one key is demoted and one
promoted. -/
theorem access_steps {key : Int} {newValue : Option Bytes} {result : TeeAccessResult}
    {s' : TeeOmap Ω} {world world' : TeeWorld}
    (returned : (s.access key newValue).runFrom world = (.ok (result, s'), world')) :
    ∃ mid between, (s.serve key newValue).runFrom world = (.ok (result, mid), between) ∧
      if mid.maintenanceDue then ∃ low lowWorld,
        mid.demoteStep.runFrom between = (.ok low, lowWorld) ∧
          low.promoteStep.runFrom lowWorld = (.ok s', world')
      else s' = mid := by
  rcases Prog.runs_of_bind returned with ⟨⟨answer, mid⟩, between, served, rest⟩
  rcases Prog.runs_of_bind rest with ⟨last, lastWorld, maintained, final⟩
  cases final
  refine ⟨mid, between, served, ?_⟩
  cases due : mid.maintenanceDue with
  | true =>
      rw [due] at maintained
      exact Prog.runs_of_bind maintained
  | false =>
      rw [due] at maintained
      cases maintained
      exact rfl

variable {config : TeeOmapConfig} {allData : List (Int × Bytes)} {hotKeys : List Int}
  {promise : Stage → List Served → TeeOmap Ω → Prop} {history : List Served}

/-- A maintenance step comes after an access. -/
theorem Ran.history_ne_nil {stage : Stage}
    (run : Ran config allData hotKeys promise stage history s) (busy : stage ≠ .idle) :
    history ≠ [] := by
  induction run with
  | init => exact absurd rfl busy
  | serve => simp
  | demote _ _ _ ih => exact ih (by decide)
  | promote => exact absurd rfl busy

theorem returns_new (config : TeeOmapConfig) :
    Returns (new (Ω := Ω) config) (fun s => 0 ≤ config.hotCapacity ∧ s = {
      config
      hotDir := PackedDirectory.new config.hotCapacity.toNat
      hotOram := EnclaveOram.new config.hotCapacity config.storedValueSize config.bucketSize
      coldOmap := ColdMap.make
        (if config.maintenance.enabled then max (config.totalKeys - config.hotSetSize)
          config.totalKeys else config.totalKeys)
        config.storedValueSize config.bucketSize
        (if config.useSplitOram then max 1 (ceilLog2 (max config.hotSetSize 2) : Int) else 0)
      hotCapacity := config.hotCapacity }) := by
  unfold new
  dsimp only
  split
  · exact Prog.ends_fail trivial
  · exact Prog.ends_pure ⟨by omega, rfl⟩

/-! ## Runs from init -/

/-- Accesses before any maintenance step is due. -/
def serveAll : List Int → List Served × TeeOmap Ω → TeeRand (List Served × TeeOmap Ω)
  | [], run => return run
  | key :: rest, (history, s) => do
      let served ← (if s.maintenanceDue || decide (2 ^ 31 ≤ s.accessCounter + 1)
        then Prog.fail .lengthError else s.serve key none : TeeRand (TeeAccessResult × TeeOmap Ω))
      serveAll rest (history ++ [s.served key none], served.2)

/-- A map that is loaded and then accessed. -/
def freshRun (config : TeeOmapConfig) (allData : List (Int × Bytes)) (hotKeys keys : List Int) :
    TeeRand (List Served × TeeOmap Ω) := do
  let s ← new config
  let s ← s.init allData hotKeys
  serveAll keys ([], s)

theorem returns_serveAll (keys : List Int) (kept : ∀ history s, promise .idle history s)
    (run : Ran config allData hotKeys promise s.afterServe history s) :
    ∀ world result world', (serveAll keys (history, s)).runFrom world = (.ok result, world') →
      Ran config allData hotKeys promise result.2.afterServe result.1 result.2 := by
  induction keys generalizing history s with
  | nil =>
      intro world result world' returned
      cases returned
      exact run
  | cons key rest ih =>
      intro world result world' returned
      rcases Prog.runs_of_bind returned with ⟨⟨answer, s'⟩, between, first, later⟩
      split at first
      · cases first
      · rename_i idle
        simp only [Bool.or_eq_true, decide_eq_true_eq, not_or, not_le, Bool.not_eq_true] at idle
        rw [afterServe, idle.1] at run
        exact ih (.serve run (kept _ _) idle.2 first) _ _ _ later

theorem returns_init_counter (allData : List (Int × Bytes)) (hotKeys : List Int) :
    Returns (s.init allData hotKeys) (fun s' => s'.accessCounter = s.accessCounter) := by
  unfold TeeOmap.init
  refine Prog.ends_bind (returns_any _) (fun loaded _ => ?_)
  refine Prog.ends_bind (returns_any _) (fun coldOmap _ => ?_)
  exact Prog.ends_pure rfl

theorem freshRun_ran {keys : List Int} {world world' : TeeWorld}
    {result : List Served × TeeOmap Ω} (kept : ∀ history s, promise .idle history s)
    (returned : (freshRun config allData hotKeys keys).runFrom world = (.ok result, world')) :
    Ran config allData hotKeys promise result.2.afterServe result.1 result.2 := by
  rcases Prog.runs_of_bind returned with ⟨built, loading, constructed, rest⟩
  rcases Prog.runs_of_bind rest with ⟨s, loaded, initialised, served⟩
  have start : Ran config allData hotKeys promise .idle [] s := .init constructed initialised
  have idle : s.afterServe = .idle := by
    have fresh := ((returns_new config).returned constructed).2
    have counter := (returns_init_counter _ _).returned initialised
    rw [fresh] at counter
    simp [afterServe, maintenanceDue, counter]
  exact returns_serveAll keys kept (idle.symm ▸ start) _ _ _ served

/-- Two hot keys, with a maintenance step after every `swapInterval` accesses and epochs of
`window` accesses. -/
def twoHotKeys (window swapInterval demoteThreshold : Int) : TeeOmapConfig :=
  { totalKeys := 2, hotSetSize := 2, valueSize := 1, bucketSize := 1, mode := .tierMembership
    useSplitOram := false
    maintenance := {
      enabled := true, observationWindow := window, swapInterval, demoteThreshold } }

end TeeOmap

end TieredOmap
