import Mathlib.Data.List.Range

/-!
# Connecting

`Connect` of `mailbox.go` opens the store, sets up the event bus, initialises the plugins and
registers the mailbox.  When one of these fails, it takes back what it has done so far.
-/

namespace Mailbox.Service.Connecting

inductive Resource where
  | store
  | bus
  | plugin (i : ℕ)
  | notifier
  deriving DecidableEq

inductive Action where
  | opens (r : Resource)
  | closes (r : Resource)
  deriving DecidableEq

/-- The steps that can fail. -/
inductive Step where
  | store
  | transport
  | newBus
  | registerServiceEvents
  | registerEvents
  | subscribeStats (event : Fin 4)
  | subscribeNotify (event : Fin 6)
  | plugin (i : ℕ)
  | register

/-- The first `n` plugins, the last one first. -/
def plugins (n : ℕ) : List Resource := (List.range n).reverse.map .plugin

def closeAll (n : ℕ) : List Action := (plugins n).map .closes

/-- `initAll` from the plugin `i` on, with `rest` plugins to go, and whether it succeeds. -/
def initAll (fails : Step → Bool) : (rest i : ℕ) → List Action × Bool
  | 0, _ => ([], true)
  | rest + 1, i =>
    if fails (.plugin i) then (closeAll i, false)
    else
      let r := initAll fails rest (i + 1)
      (.opens (.plugin i) :: r.1, r.2)

/-- What is open after a trace, the last one first.  Only that may be closed. -/
def openAfter : List Action → List Resource → Option (List Resource)
  | [], s => some s
  | .opens r :: trace, s => openAfter trace (r :: s)
  | .closes _ :: _, [] => none
  | .closes r :: trace, q :: s => if r = q then openAfter trace s else none

lemma openAfter_foreign {r : Resource} {s : List Resource} (h : r ∉ s) (trace : List Action) :
    openAfter (.closes r :: trace) s = none := by
  rcases s with _ | ⟨q, s⟩
  · rfl
  · exact if_neg fun (hr : r = q) => h (hr ▸ List.mem_cons_self)

lemma openAfter_append (a b : List Action) (s : List Resource) :
    openAfter (a ++ b) s = (openAfter a s).bind (openAfter b) := by
  fun_induction openAfter a s with simp_all [openAfter]

lemma openAfter_closes (rs s : List Resource) : openAfter (rs.map .closes) (rs ++ s) = some s := by
  induction rs with simp_all [openAfter]

lemma openAfter_initAll (fails : Step → Bool) (rest i : ℕ) (s : List Resource) :
    openAfter (initAll fails rest i).1 (plugins i ++ s)
      = some (if (initAll fails rest i).2 then plugins (i + rest) ++ s else s) := by
  induction rest generalizing i with
  | zero => rfl
  | succ rest ih =>
    cases hi : fails (.plugin i) with
    | true => simpa [initAll, hi, closeAll] using openAfter_closes (plugins i) s
    | false =>
      have hrest := ih (i + 1)
      rw [Nat.add_right_comm, Nat.add_assoc] at hrest
      simpa [initAll, hi, openAfter, plugins, List.range_succ] using hrest

/-- Everything opened is closed again, and nothing else. -/
def Balanced (trace : List Action) : Prop := ∀ s, openAfter trace s = some s

lemma Balanced.wrap {trace : List Action} (h : Balanced trace) (r : Resource) :
    Balanced (.opens r :: trace ++ [.closes r]) := by
  intro s
  simp [openAfter, openAfter_append, h (r :: s)]

/-- The options of the service that `Connect` reads. -/
structure Options where
  callerBus : Bool
  redis : Bool
  notifier : Bool
  plugins : ℕ
  registrar : Bool

variable (opts : Options) (fails : Step → Bool)

/-- Registering the events and subscribing to them. -/
def setup : List Step :=
  [.registerServiceEvents, .registerEvents] ++ (List.finRange 4).map .subscribeStats
    ++ if opts.notifier then (List.finRange 6).map .subscribeNotify else []

/-- On failure, `initEventBus` closes only a bus that it has created. -/
def initEventBus : List Action × Bool :=
  if opts.callerBus then ([], !(setup opts).any fails)
  else if opts.redis && fails .transport || fails .newBus then ([], false)
  else if (setup opts).any fails then ([.opens .bus, .closes .bus], false)
  else ([.opens .bus], true)

/-- `Connect` of a disconnected service, and whether the service is connected afterwards. -/
def connect : List Action × Bool :=
  if fails .store then ([], false)
  else
    let bus := initEventBus opts fails
    let started := initAll fails opts.plugins 0
    let trace := .opens .store :: bus.1
    if !bus.2 then (trace ++ [.closes .store], false)
    else if !started.2 then (trace ++ started.1 ++ [.closes .bus, .closes .store], false)
    else if opts.registrar && fails .register then
      (trace ++ started.1 ++ closeAll opts.plugins ++ [.closes .bus, .closes .store], false)
    else (trace ++ started.1, true)

/-- What `initEventBus` opens if it succeeds. -/
def ownBus : List Action := if opts.callerBus then [] else [.opens .bus]

/-- The bus is ready, or nothing of it is left. -/
lemma initEventBus_cases :
    initEventBus opts fails = (ownBus opts, true) ∧ (setup opts).any fails = false
      ∨ (∃ trace, initEventBus opts fails = (trace, false) ∧ Balanced trace)
        ∧ (opts.callerBus = false ∨ (setup opts).any fails = true) := by
  unfold initEventBus ownBus Balanced
  cases hsetup : (setup opts).any fails <;> split_ifs <;> simp_all [openAfter]

/-- With the bus ready, the plugins are running, or nothing of them is left and the bus is closed,
whoever has opened it. -/
lemma connect_of_bus (hstore : fails .store = false)
    (hbus : initEventBus opts fails = (ownBus opts, true)) :
    (∃ trace, Balanced trace ∧ connect opts fails
        = (.opens .store :: ownBus opts ++ trace ++ [.closes .bus, .closes .store], false))
      ∨ ∃ trace, (∀ s, openAfter trace s = some (plugins opts.plugins ++ s))
        ∧ connect opts fails = (.opens .store :: ownBus opts ++ trace, true) := by
  have hinit := openAfter_initAll fails opts.plugins 0
  simp only [connect, hstore, hbus, Bool.false_eq_true, ↓reduceIte, Bool.not_true]
  cases hstarted : (initAll fails opts.plugins 0).2 with
  | false =>
    -- The plugins that were initialised have been closed by `initAll` itself.
    exact .inl ⟨_, fun s => by simpa [hstarted, plugins] using hinit s, by simp⟩
  | true =>
    have hrun : ∀ s, openAfter (initAll fails opts.plugins 0).1 s
        = some (plugins opts.plugins ++ s) := fun s => by
      simpa [hstarted, plugins] using hinit s
    cases hreg : opts.registrar && fails .register with
    | true =>
      refine .inl ⟨(initAll fails opts.plugins 0).1 ++ closeAll opts.plugins, fun s => ?_, by simp⟩
      rw [openAfter_append, hrun]
      exact openAfter_closes _ s
    | false => exact .inr ⟨_, hrun, by simp⟩

/-- What comes of `Connect`: everything is taken back; or a bus of the caller's is closed, too; or
the service is connected. -/
lemma connect_cases : (∃ trace, Balanced trace ∧ connect opts fails = (trace, false))
        ∧ (opts.callerBus = false ∨ fails .store = true ∨ (setup opts).any fails = true)
      ∨ (∃ trace, Balanced trace ∧ connect opts fails
          = (.opens .store :: trace ++ [.closes .bus, .closes .store], false))
        ∧ opts.callerBus = true ∧ fails .store = false ∧ (setup opts).any fails = false
      ∨ ∃ trace, (∀ s, openAfter trace s = some (plugins opts.plugins ++ s))
        ∧ connect opts fails = (.opens .store :: ownBus opts ++ trace, true) := by
  cases hstore : fails .store with
  | true => exact .inl ⟨⟨[], fun _ => rfl, by simp [connect, hstore]⟩, by simp⟩
  | false =>
    rcases initEventBus_cases opts fails with ⟨hbus, hsetup⟩ | ⟨⟨trace, hbus, htrace⟩, hsetup⟩
    · rcases connect_of_bus opts fails hstore hbus with ⟨trace, htrace, hconnect⟩ | hconnected
      · cases hcaller : opts.callerBus with
        | true =>
          simp only [ownBus, hcaller, ↓reduceIte] at hconnect
          exact .inr (.inl ⟨⟨trace, htrace, hconnect⟩, rfl, rfl, hsetup⟩)
        | false =>
          refine .inl ⟨⟨_, (htrace.wrap .bus).wrap .store, ?_⟩, .inl rfl⟩
          simpa [ownBus, hcaller] using hconnect
      · exact .inr (.inr hconnected)
    · refine .inl ⟨⟨_, htrace.wrap .store, by simp [connect, hstore, hbus]⟩, ?_⟩
      exact hsetup.imp_right .inr

/-- Closing the caller's bus is not for `Connect`. -/
lemma openAfter_closes_bus {trace : List Action} (h : Balanced trace) :
    openAfter (.opens .store :: trace ++ [.closes .bus, .closes .store]) [] = none := by
  rw [List.cons_append, openAfter, openAfter_append, h, Option.bind_some]
  exact openAfter_foreign (by simp) _

/-- **A failed `Connect` takes everything back in reverse order**, but when a plugin or the
registrar fails, it closes the bus also if that is the caller's. -/
theorem connect_rolls_back_iff (hfailed : (connect opts fails).2 = false) :
    openAfter (connect opts fails).1 [] = some []
      ↔ opts.callerBus = false ∨ fails .store = true ∨ (setup opts).any fails = true := by
  rcases connect_cases opts fails with ⟨⟨trace, htrace, hconnect⟩, hsafe⟩
    | ⟨⟨trace, htrace, hconnect⟩, hcaller, hstore, hsetup⟩ | ⟨trace, -, hconnect⟩
  · rw [hconnect]
    exact iff_of_true (htrace []) hsafe
  · rw [hconnect, openAfter_closes_bus htrace, hcaller, hstore, hsetup]
    simp
  · simp [hconnect] at hfailed

/-- The only plugin fails, and the bus is the service's own. -/
theorem connect_rolls_back_own_bus :
    let opts : Options := ⟨false, false, false, 1, false⟩
    let fails : Step → Bool := fun | .plugin _ => true | _ => false
    connect opts fails = ([.opens .store, .opens .bus, .closes .bus, .closes .store], false)
      ∧ openAfter (connect opts fails).1 [] = some [] :=
  ⟨by decide, (connect_rolls_back_iff _ _ (by decide)).mpr (.inl rfl)⟩

/-- The only plugin fails. -/
theorem connect_closes_caller_bus :
    connect ⟨true, false, false, 1, false⟩ (fun | .plugin _ => true | _ => false)
      = ([.opens .store, .closes .bus, .closes .store], false) := by
  decide

variable (real : Bool)

/-- `Close`; `real` says whether the options name a transport. -/
def close : List Action :=
  (if opts.notifier then [.closes .notifier] else []) ++ closeAll opts.plugins
    ++ (if !opts.callerBus && real then [.closes .bus] else []) ++ [.closes .store]

/-- `Connect`, and `Close` if that succeeds. -/
def cycle : List Action :=
  (connect opts fails).1 ++ if (connect opts fails).2 then close opts real else []

/-- `Close` leaves no bus open and has no notifier of the caller's to close, and a failed `Connect`
does not close the bus of the caller. -/
def tidy : Bool :=
  if (connect opts fails).2 then !opts.notifier && (opts.callerBus || real)
  else !opts.callerBus || fails .store || (setup opts).any fails

/-- Without a notifier, `Close` closes the plugins, the bus if it is to, and the store. -/
lemma openAfter_close (hnotifier : opts.notifier = false) (s : List Resource) :
    openAfter (close opts real) (plugins opts.plugins ++ s)
      = openAfter ((if !opts.callerBus && real then [.closes .bus] else []) ++ [.closes .store])
        s := by
  simp [close, hnotifier, closeAll, openAfter_append, openAfter_closes]

/-- After a `Connect` that succeeds. -/
lemma openAfter_connected {trace : List Action}
    (htrace : ∀ s, openAfter trace s = some (plugins opts.plugins ++ s)) :
    openAfter (.opens .store :: ownBus opts ++ trace ++ close opts real) []
      = if !opts.notifier && (opts.callerBus || real) then some [] else none := by
  have hopen : openAfter (.opens .store :: ownBus opts ++ trace) []
      = some (plugins opts.plugins ++ if opts.callerBus then [.store] else [.bus, .store]) := by
    cases hcaller : opts.callerBus <;> simp [ownBus, hcaller, openAfter, htrace]
  rw [openAfter_append, hopen, Option.bind_some]
  cases hnotifier : opts.notifier with
  | true =>
    simp only [close, hnotifier, ↓reduceIte, Bool.not_true, Bool.false_and, Bool.false_eq_true]
    refine openAfter_foreign ?_ _
    cases opts.callerBus <;> simp [plugins]
  | false =>
    rw [openAfter_close opts real hnotifier]
    cases opts.callerBus <;> cases real <;> rfl

lemma openAfter_cycle : openAfter (cycle opts fails real) []
      = if tidy opts fails real then some [] else none := by
  rcases connect_cases opts fails with ⟨⟨trace, htrace, hconnect⟩, hsafe⟩
    | ⟨⟨trace, htrace, hconnect⟩, hcaller, hstore, hsetup⟩ | ⟨trace, htrace, hconnect⟩
  · simp only [cycle, tidy, hconnect]
    rcases hsafe with h | h | h <;> simp [htrace [], h]
  · simp only [cycle, tidy, hconnect]
    simpa [hcaller, hstore, hsetup] using openAfter_closes_bus htrace
  · simp only [cycle, tidy, hconnect]
    exact openAfter_connected opts real htrace

end Mailbox.Service.Connecting
