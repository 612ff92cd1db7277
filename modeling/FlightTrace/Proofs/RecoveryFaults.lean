import FlightTrace.Proofs.Reopening

/-! Errors that say that a configuration cannot be used. Recovery never fails with one: its errors come from the log,
from the medium or from the entries. -/
namespace FlightTrace

def Error.refusesConfig : Error → Bool
  | serialization _ | invalidConfig _ => true
  | _ => false

/-- What does not fail because of a configuration. -/
def SparesConfig {α : Type} (x : Except Error α) : Prop := ∀ e, x = .error e → e.refusesConfig = false

namespace SparesConfig

variable {α β : Type} {x : Except Error α} {f : α → Except Error β}

theorem ok (a : α) : SparesConfig (.ok a : Except Error α) := fun _ h => by cases h

theorem error {e : Error} (h : e.refusesConfig = false) : SparesConfig (.error e : Except Error α) :=
  fun _ he => Except.error.inj he ▸ h

theorem bind (hx : SparesConfig x) (hf : ∀ a, SparesConfig (f a)) : SparesConfig (x >>= f) := by
  cases x with
  | error e => exact error (hx e rfl)
  | ok a => exact hf a

end SparesConfig

namespace Index

theorem Keyed.lock_spares {κ : Type} [Ord κ] [Std.TransOrd κ] (x : Keyed κ) (k : κ) (timeout : Nat) :
    SparesConfig (x.lock k timeout) := by
  simp only [Keyed.lock]
  split
  · exact .error rfl
  · exact .ok _

theorem Time.lock_spares (x : Time) (t : Instant) (timeout : Nat) : SparesConfig (x.lock t timeout) :=
  (Keyed.lock_spares _ _ _).bind fun _ => .ok _

end Index

theorem TraceTables.lock_spares (t : TraceTables) (r : Trace) : SparesConfig (t.lock r) := by
  unfold lock
  refine (Index.Time.lock_spares _ _ _).bind fun time => (Index.Keyed.lock_spares _ _ _).bind fun address => ?_
  cases r.callsign <;> cases r.squawk
  · exact .ok _
  · exact (Index.Keyed.lock_spares _ _ _).bind fun _ => .ok _
  · exact (Index.Keyed.lock_spares _ _ _).bind fun _ => .ok _
  · exact (Index.Keyed.lock_spares _ _ _).bind fun _ => (Index.Keyed.lock_spares _ _ _).bind fun _ => .ok _

theorem TraceTables.start_spares (t : TraceTables) (r : Trace) : SparesConfig (t.start r) := by
  refine (t.lock_spares r).bind fun t' => ?_
  split
  · exact .ok _
  · exact .error rfl

namespace Recovery

theorem redo_spares (t : Tables) (r : Recovery) (e : Log.Entry) : SparesConfig (redo t r e) := by
  cases e with
  | trace x =>
    have hstart := t.traces.start_spares x
    rw [redo, TraceTables.appendWith]
    cases h : t.traces.start x with
    | ok p => exact .ok _
    | error e => exact .error (hstart e h)
  | registration row => exact .ok _
  | model row => exact .ok _
  | tagAdded a tag =>
    rw [redo]
    split <;> exact .ok _
  | tagRemoved a tag => exact .ok _
  | document key text =>
    rw [redo]
    split
    · exact .ok _
    · exact .error rfl

theorem redoAll_spares (t : Tables) (r : Recovery) (es : List Log.Entry) : SparesConfig (redoAll t r es) := by
  induction es generalizing t r with
  | nil => exact .ok _
  | cons e es ih => exact (redo_spares t r e).bind fun p => ih p.1 p.2

end Recovery

namespace Log

variable (m : Medium) (l : Log)

theorem flush_spares : SparesConfig (l.flush m).1 := by
  rw [flush]
  split
  · exact .ok _
  · exact .error rfl

theorem replay_spares : SparesConfig (l.replay m).1 := by
  have hflush := l.flush_spares m
  rw [replay, replayFrom]
  split
  · rename_i e l' h
    rw [h] at hflush
    exact .error (hflush e rfl)
  · simp only
    split
    · exact .ok _
    · exact .error rfl

theorem truncate_spares (n : Nat) : SparesConfig (l.truncate m n).1 := by
  have hflush := l.flush_spares m
  rw [truncate]
  split
  · rename_i e l' h
    rw [h] at hflush
    exact .error (hflush e rfl)
  · split
    · simp only
      split
      · exact .ok _
      · exact .error rfl
    · exact .error rfl

/-- Entries that a log can hold, and whose changes can be made again. -/
structure Recoverable (es : List Entry) : Prop where
  fits : ∀ e ∈ es, Frame.Fits e
  numbered : (traces es).length ≤ UInt64.size
  redoable : ∀ e ∈ es, Tables.Redoable e

theorem Recoverable.nil : Recoverable [] :=
  ⟨fun _ h => absurd h List.not_mem_nil, Nat.zero_le _, fun _ h => absurd h List.not_mem_nil⟩

end Log

namespace Database

variable {folder : String} {config : Config} {settings : Settings} {m : Medium} {log : Log} {d : Database}

theorem recover_spares (folder : String) (config : Config) (settings : Settings) (m : Medium) (log : Log) :
    SparesConfig (recover folder config settings m log).1 := by
  have hreplay := log.replay_spares m
  rw [recover]
  split
  · rename_i e l h
    rw [h] at hreplay
    exact .error (hreplay e rfl)
  · rename_i r l h
    have hcut : SparesConfig (if r.tornLength = 0 then (.ok (), l) else l.truncate m r.soundLength).1 := by
      split
      · exact .ok _
      · exact l.truncate_spares m _
    split
    · rename_i e l' h'
      rw [h'] at hcut
      exact .error (hcut e rfl)
    · have hredo := Recovery.redoAll_spares (.ofSettings settings) { torn := r.tornLength } r.entries
      split
      · rename_i e h'
        exact .error (hredo e h')
      · exact .ok _

theorem config_of_recover (h : (recover folder config settings m log).1 = .ok d) : d.config = config := by
  rw [recover] at h
  split at h
  · cases h
  · split at h
    · cases h
    · split at h
      · cases h
      · cases h
        rfl

theorem config_change {α : Type} (d : Database)
    (f : Option Log → Tables → Except (Failure Empty) α × Option Log × Tables) :
    (d.change f).2.config = d.config := by
  rw [change]
  split <;> rfl

theorem config_flush (m : Medium) (now : Nat) (d : Database) : (d.flush m now).2.config = d.config := by
  rw [flush]
  split <;> rfl

theorem config_shutdown (m : Medium) (now : Nat) (d : Database) : (d.shutdown m now).2.config = d.config :=
  config_flush m now { d with accepting := false }

theorem config_syncIfOverdue (m : Medium) (now : Nat) (d : Database) :
    (d.syncIfOverdue m now).config = d.config := by
  rw [syncIfOverdue]
  split <;> rfl

theorem recover_recoverable {es : List Log.Entry} (h : Log.Recoverable es) (folder : String) (config : Config)
    (settings : Settings) (m : Medium) (durability : Durability) (opened : Nat) :
    ∃ d, (recover folder config settings m (.ofFile durability (Log.Replay.frames es) opened)).1 = .ok d := by
  rcases recover_cases h.fits h.numbered folder config settings m durability opened with
    ⟨-, d, hok, -⟩ | ⟨key, text, hmem, hnone, -⟩
  · exact ⟨d, hok⟩
  · exact absurd hnone (h.redoable _ hmem key text rfl)

end Database

end FlightTrace
