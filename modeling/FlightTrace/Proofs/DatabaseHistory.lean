import FlightTrace.Database
import FlightTrace.Proofs.LogCalls
import FlightTrace.Proofs.Replaying

/-! The runs of a database. In each state the log holds the entries of the changes that were made, and replay
of them gives tables that answer like the live ones. A change is made and logged, or neither. -/
namespace FlightTrace

namespace Database

/-- A change of the tables. The documents are those that their text keeps. -/
inductive Change where
  | append (r : Trace)
  | setRegistration (row : Registration)
  | setModel (row : AircraftModel)
  | addTag (a : Address) (tag : String)
  | removeTag (a : Address) (tag : String)
  | setDocument (key : String) (v : { v : Json // v.Readable })

namespace Change

def entry : Change → Log.Entry
  | append r => .trace r
  | setRegistration row => .registration row
  | setModel row => .model row
  | addTag a tag => .tagAdded a tag
  | removeTag a tag => .tagRemoved a tag
  | setDocument key v => .ofDocument key v.val

/-- Makes a change and says whether there was anything to change. -/
def make (m : Medium) (now : Nat) (d : Database) : Change → Except Error Bool × Database
  | append r => (d.append m now r).map (·.map fun _ => true) id
  | setRegistration row => (d.setRegistration m now row).map (·.map fun _ => true) id
  | setModel row => (d.setModel m now row).map (·.map fun _ => true) id
  | addTag a tag => (d.addTag m now a tag).map (·.map fun _ => true) id
  | removeTag a tag => d.removeTag m now a tag
  | setDocument key v => (d.setDocument m now key v.val).map (·.map fun _ => true) id

end Change

inductive Call where
  | change (c : Change)
  | flush
  | syncIfOverdue
  | shutdown

structure Step where
  call : Call
  now : Nat
  faults : Log.Faults

/-- A database and the entries of the changes that it has acknowledged. -/
structure History where
  database : Database
  acknowledged : List Log.Entry

namespace History

/-- A change that reports success is acknowledged, unless there was nothing to change. -/
def acknowledge (es : List Log.Entry) (e : Log.Entry) : Except Error Bool → List Log.Entry
  | .ok true => es ++ [e]
  | _ => es

def step (h : History) (s : Step) : History :=
  match s.call with
  | .change c =>
    let (x, database) := c.make s.faults.medium s.now h.database
    { database, acknowledged := acknowledge h.acknowledged c.entry x }
  | .flush => { h with database := (h.database.flush s.faults.medium s.now).2 }
  | .syncIfOverdue => { h with database := h.database.syncIfOverdue s.faults.medium s.now }
  | .shutdown => { h with database := (h.database.shutdown s.faults.medium s.now).2 }

def run (h : History) (steps : List Step) : History := steps.foldl step h

end History

/-- What holds in every state: the log holds the acknowledged entries, and their replay stands beside the live
tables. -/
structure Sound (settings : Settings) (es : List Log.Entry) (d : Database) : Prop where
  logged : ∃ l, d.log = some l ∧ l.Holds es
  replayed : ∃ t, Tables.ofEntries settings es = .ok t ∧ d.tables.Beside settings t

variable {settings : Settings} {es : List Log.Entry} {d : Database} (f : Log.Faults) (now : Nat)

theorem change_open (h : d.accepting = true) {α : Type}
    (g : Option Log → Tables → Except (Failure Empty) α × Option Log × Tables) : d.change g =
      ((g d.log d.tables).1.mapError Failure.toError,
        { d with log := (g d.log d.tables).2.1, tables := (g d.log d.tables).2.2 }) :=
  if_pos h

theorem change_closed (h : d.accepting = false) {α : Type}
    (g : Option Log → Tables → Except (Failure Empty) α × Option Log × Tables) :
    d.change g = (.error (.storage .closed), d) :=
  if_neg (Bool.eq_false_iff.mp h)

def Logs (es : List Log.Entry) (d : Database) : Prop := ∃ l, d.log = some l ∧ l.Holds es

theorem Logs.record_ok (h : d.Logs es) {e : Log.Entry} {log : Option Log}
    (hr : record f.medium now e d.log = (.ok (), log)) : ∃ l, log = some l ∧ l.Holds (es ++ [e]) := by
  obtain ⟨l, hlog, hl⟩ := h
  rw [hlog, record] at hr
  cases ha : l.append f.medium now e with
  | mk x l' =>
    rw [ha] at hr
    cases x with
    | ok n =>
      cases hr
      exact ⟨l', rfl, (Log.append_ok_holds f now hl ha).1⟩
    | error g => cases hr

theorem Logs.record_error (h : d.Logs es) {e : Log.Entry} {g : Failure Empty} {log : Option Log}
    (hr : record f.medium now e d.log = (.error g, log)) : ∃ l, log = some l ∧ l.Holds es := by
  obtain ⟨l, hlog, hl⟩ := h
  rw [hlog, record] at hr
  cases ha : l.append f.medium now e with
  | mk x l' =>
    rw [ha] at hr
    cases x with
    | ok n => cases hr
    | error g =>
      cases hr
      exact ⟨l', rfl, Log.append_error_holds f now hl ha⟩

/-- How a change can end: it is logged and made, or neither. -/
inductive Outcome (P : Json → Prop) (es : List Log.Entry) (e : Log.Entry) (d : Database) :
    Except Error Bool → Database → Prop where
  | made {d' : Database} (hlog : d'.Logs (es ++ [e])) (h : d.tables.Made P e d'.tables) :
    Outcome P es e d (.ok true) d'
  | unmade {x : Except Error Bool} {d' : Database} (hx : x ≠ .ok true) (hlog : d'.Logs es)
    (h : d.tables.Unmade d'.tables) : Outcome P es e d x d'

/-- It is enough to look at changes of a database that is not shut down. -/
theorem change_outcome {P : Json → Prop} {e : Log.Entry} (h : d.Logs es) {α : Type}
    {g : Option Log → Tables → Except (Failure Empty) α × Option Log × Tables}
    (report : Except Error α → Except Error Bool) (herror : ∀ x, report (.error x) ≠ .ok true)
    (hopen : Outcome P es e d (report ((g d.log d.tables).1.mapError Failure.toError))
      { d with log := (g d.log d.tables).2.1, tables := (g d.log d.tables).2.2 }) :
    Outcome P es e d (report (d.change g).1) (d.change g).2 := by
  cases hd : d.accepting with
  | false =>
    rw [change_closed hd]
    exact .unmade (herror _) h .same
  | true =>
    rw [change_open hd]
    exact hopen

section

variable {P : Json → Prop} (h : d.Logs es)
include h

theorem append_outcome (r : Trace) : Outcome P es (.trace r) d ((d.append f.medium now r).1.map fun _ => true)
    (d.append f.medium now r).2 := by
  refine change_outcome h _ (fun _ => nofun) ?_
  cases ha : d.tables.traces.appendWith (record f.medium now (.trace r)).beside r d.log with
  | mk x p =>
    obtain ⟨log, traces⟩ := p
    rcases TraceTables.appendWith_cases ha with
      ⟨e, -, rfl, rfl, -⟩ | ⟨i, t₁, -, ⟨hr, rfl, -⟩ | ⟨e, hr, rfl, -⟩ | ⟨k, hr, rfl, -⟩⟩
    · exact .unmade nofun h (.trace ha)
    · exact .made (h.record_ok f now hr) (.trace ha)
    · exact .unmade nofun (h.record_error f now hr) (.trace ha)
    · exact .unmade nofun (h.record_error f now hr) (.trace ha)

theorem setRegistration_outcome (row : Registration) : Outcome P es (.registration row) d
    ((d.setRegistration f.medium now row).1.map fun _ => true) (d.setRegistration f.medium now row).2 := by
  refine change_outcome h _ (fun _ => nofun) ?_
  simp only [Catalog.changeWith]
  rcases hr : record f.medium now (.registration row) d.log with ⟨g | u, log⟩
  · exact .unmade nofun (h.record_error f now hr) .same
  · exact .made (h.record_ok f now hr) (.registration row)

theorem setModel_outcome (row : AircraftModel) : Outcome P es (.model row) d
    ((d.setModel f.medium now row).1.map fun _ => true) (d.setModel f.medium now row).2 := by
  refine change_outcome h _ (fun _ => nofun) ?_
  simp only [Catalog.changeWith]
  rcases hr : record f.medium now (.model row) d.log with ⟨g | u, log⟩
  · exact .unmade nofun (h.record_error f now hr) .same
  · exact .made (h.record_ok f now hr) (.model row)

theorem addTag_outcome (a : Address) (tag : String) : Outcome P es (.tagAdded a tag) d
    ((d.addTag f.medium now a tag).1.map fun _ => true) (d.addTag f.medium now a tag).2 := by
  refine change_outcome h _ (fun _ => nofun) ?_
  simp only [Tags.addWith]
  by_cases hc : d.tables.tags.contains a tag = true
  · rw [if_pos hc]
    exact .unmade nofun h .same
  · rw [if_neg hc]
    rcases hr : record f.medium now (.tagAdded a tag) d.log with ⟨g | u, log⟩
    · exact .unmade nofun (h.record_error f now hr) .same
    · exact .made (h.record_ok f now hr) (.tagAdded hc)

theorem removeTag_outcome (a : Address) (tag : String) : Outcome P es (.tagRemoved a tag) d
    (d.removeTag f.medium now a tag).1 (d.removeTag f.medium now a tag).2 := by
  refine change_outcome h id (fun _ => nofun) ?_
  simp only [Tags.removeWith]
  by_cases hc : d.tables.tags.contains a tag = true
  · rw [if_pos hc]
    rcases hr : record f.medium now (.tagRemoved a tag) d.log with ⟨g | u, log⟩
    · exact .unmade nofun (h.record_error f now hr) .same
    · exact .made (h.record_ok f now hr) (.tagRemoved hc)
  · rw [if_neg hc]
    exact .unmade nofun h .same

theorem setDocument_outcome (key : String) {v : Json} (hv : P v) : Outcome P es (.ofDocument key v) d
    ((d.setDocument f.medium now key v).1.map fun _ => true) (d.setDocument f.medium now key v).2 := by
  refine change_outcome h _ (fun _ => nofun) ?_
  simp only [Metadata.setWith]
  rcases hr : record f.medium now (.ofDocument key v) d.log with ⟨g | u, log⟩
  · exact .unmade nofun (h.record_error f now hr) .same
  · exact .made (h.record_ok f now hr) (.document key hv)

theorem make_outcome (c : Change) :
    Outcome Json.Readable es c.entry d (c.make f.medium now d).1 (c.make f.medium now d).2 := by
  cases c with
  | append r => exact append_outcome f now h r
  | setRegistration row => exact setRegistration_outcome f now h row
  | setModel row => exact setModel_outcome f now h row
  | addTag a tag => exact addTag_outcome f now h a tag
  | removeTag a tag => exact removeTag_outcome f now h a tag
  | setDocument key v => exact setDocument_outcome f now h key v.property

end

theorem Outcome.acknowledge {P : Json → Prop} {e : Log.Entry} {x : Except Error Bool} {d' : Database}
    (h : Outcome P es e d x d') : (x = .ok true ∧ History.acknowledge es e x = es ++ [e] ∧
        d'.Logs (es ++ [e]) ∧ d.tables.Made P e d'.tables) ∨
      (x ≠ .ok true ∧ History.acknowledge es e x = es ∧ d'.Logs es ∧ d.tables.Unmade d'.tables) := by
  cases h with
  | made hlog h => exact .inl ⟨rfl, rfl, hlog, h⟩
  | unmade hx hlog h =>
    refine .inr ⟨hx, ?_, hlog, h⟩
    rcases x with _ | _ | _
    · rfl
    · rfl
    · exact absurd rfl hx

/-- A change is logged, and made on the tables as replay will make it, or neither. -/
theorem make_sound (h : d.Sound settings es) (c : Change) : (c.make f.medium now d).2.Sound settings
    (History.acknowledge es c.entry (c.make f.medium now d).1) := by
  obtain ⟨t, ht, hbeside⟩ := h.replayed
  rcases (make_outcome f now h.logged c).acknowledge with ⟨-, hes, hlog, hmade⟩ | ⟨-, hes, hlog, hunmade⟩
  · obtain ⟨t', hredone, hbeside'⟩ := hbeside.made hmade
    rw [hes]
    exact ⟨hlog, t', Tables.ofEntries_append ht hredone, hbeside'⟩
  · rw [hes]
    exact ⟨hlog, t, ht, hbeside.unmade hunmade⟩

theorem Logs.flush (h : d.Logs es) : (d.flush f.medium now).2.Logs es := by
  obtain ⟨l, hlog, hl⟩ := h
  simp only [Database.flush, hlog]
  exact ⟨_, rfl, hl.moved (Log.fsync_moved f now hl.written)⟩

theorem Logs.syncIfOverdue (h : d.Logs es) : (d.syncIfOverdue f.medium now).Logs es := by
  rw [Database.syncIfOverdue]
  by_cases hopen : d.accepting = true
  · rw [if_pos hopen]
    obtain ⟨l, hlog, hl⟩ := h
    refine ⟨_, ?_, hl.moved (Log.syncIfOverdue_moved f now hl.written)⟩
    rw [hlog]
    rfl
  · rw [if_neg hopen]
    exact h

theorem tables_flush (m : Medium) : (d.flush m now).2.tables = d.tables := by
  rw [flush]
  split <;> rfl

theorem tables_syncIfOverdue (m : Medium) : (d.syncIfOverdue m now).tables = d.tables := by
  rw [syncIfOverdue]
  split <;> rfl

theorem flush_sound (h : d.Sound settings es) : (d.flush f.medium now).2.Sound settings es :=
  ⟨Logs.flush f now h.logged, (tables_flush now f.medium).symm ▸ h.replayed⟩

theorem shutdown_sound (h : d.Sound settings es) : (d.shutdown f.medium now).2.Sound settings es :=
  flush_sound f now ⟨h.logged, h.replayed⟩

theorem syncIfOverdue_sound (h : d.Sound settings es) : (d.syncIfOverdue f.medium now).Sound settings es :=
  ⟨Logs.syncIfOverdue f now h.logged, (tables_syncIfOverdue now f.medium).symm ▸ h.replayed⟩

theorem History.step_sound {h : History} (hs : h.database.Sound settings h.acknowledged) (s : Step) :
    (h.step s).database.Sound settings (h.step s).acknowledged := by
  rw [step]
  cases s.call with
  | change c => exact make_sound s.faults s.now hs c
  | flush => exact flush_sound s.faults s.now hs
  | syncIfOverdue => exact syncIfOverdue_sound s.faults s.now hs
  | shutdown => exact shutdown_sound s.faults s.now hs

theorem History.run_sound {h : History} (hs : h.database.Sound settings h.acknowledged) (steps : List Step) :
    (h.run steps).database.Sound settings (h.run steps).acknowledged := by
  induction steps generalizing h with
  | nil => exact hs
  | cons s steps ih => exact ih (step_sound hs s)

theorem recover_ofFile {bs : List UInt8} {n : Nat} {t : Tables}
    (hbytes : Log.Replay.ofBytes bs = .ok ⟨es, n, 0⟩) (ht : Tables.ofEntries settings es = .ok t)
    (folder : String) (config : Config) (m : Medium) (durability : Durability) :
    ∃ recovery, (recover folder config settings m (.ofFile durability bs now)).1 =
      .ok { folder, config, tables := t, log := some (.ofFile durability bs now), recovery } := by
  have hreplay : (Log.ofFile durability bs now).replay m =
      (.ok ⟨es, n, 0⟩, .ofFile durability bs now) := by
    simp only [Log.replay, Log.replayFrom, Log.flush, Log.writePending, Log.ofFile, if_true, hbytes]
  rw [Tables.ofEntries] at ht
  rw [recover, hreplay]
  simp only [if_true]
  cases hall : Recovery.redoAll (.ofSettings settings) {} es with
  | error g =>
    rw [hall] at ht
    cases ht
  | ok p =>
    rw [hall] at ht
    cases ht
    exact ⟨p.2, rfl⟩

theorem recover_empty (folder : String) (config : Config) (settings : Settings) (m : Medium)
    (durability : Durability) : ∃ recovery, (recover folder config settings m (.ofFile durability [] now)).1 =
      .ok { folder, config, tables := .ofSettings settings, log := some (.ofFile durability [] now), recovery } :=
  recover_ofFile now (Log.Replay.ofBytes_frames fun _ he => absurd he List.not_mem_nil) rfl folder config m durability

/-- A database that takes changes: it is not shut down, nobody holds a bucket, and its log can be used if it has one. -/
structure Ready (d : Database) : Prop where
  accepting : d.accepting = true
  free : ∃ settings rs, d.tables.traces.Contains settings rs
  usable : ∀ l, d.log = some l → l.poisoned = false

theorem ready_of_recover_empty {folder : String} {config : Config} {m : Medium} {durability : Durability}
    (h : (recover folder config settings m (.ofFile durability [] now)).1 = .ok d) : d.Ready := by
  obtain ⟨recovery, hd⟩ := recover_empty now folder config settings m durability
  rw [h] at hd
  cases hd
  refine ⟨rfl, ⟨settings, [], .ofSettings settings⟩, fun l hl => ?_⟩
  cases hl
  rfl

theorem Ready.record_sound (h : d.Ready) {e : Log.Entry} (he : Log.Frame.Fits e) :
    ∃ log, record .sound now e d.log = (.ok (), log) ∧ ∀ l, log = some l → l.poisoned = false := by
  cases hlog : d.log with
  | none => exact ⟨none, rfl, nofun⟩
  | some l =>
    obtain ⟨l', happend, -⟩ := Log.append_sound now he (h.usable l hlog)
    refine ⟨some l', by rw [record, happend], fun l₁ hl => ?_⟩
    cases hl
    exact Log.usable_of_append_ok happend

theorem Ready.append_sound (h : d.Ready) {r : Trace} (he : Log.Frame.Fits (.trace r))
    (hleft : d.tables.traces.watermark.reserved < UInt64.size) :
    ∃ i d', d.append .sound now r = (.ok i, d') ∧ d'.Ready ∧
      d'.tables.traces.watermark.reserved = d.tables.traces.watermark.reserved + 1 := by
  obtain ⟨log, hrecord, husable⟩ := h.record_sound now he
  obtain ⟨settings, rs, hrs⟩ := h.free
  obtain ⟨i, traces, happend, hreserved⟩ :=
    TraceTables.exists_appendWith (r := r) (fun _ s _ => hrs.free s) hleft hrecord
  refine ⟨i, { d with log, tables := { d.tables with traces } }, ?_, ⟨h.accepting, ?_, husable⟩, hreserved⟩
  · rw [append, change_open h.accepting, happend]
    rfl
  · exact ⟨settings, _, hrs.appendWith happend⟩

/-- The tables themselves refuse a change only if there is no number left for a trace, or the tag is there. -/
def Change.Admitted (d : Database) : Change → Prop
  | append _ => d.tables.traces.watermark.reserved < UInt64.size
  | addTag a tag => d.tables.tags.contains a tag = false
  | _ => True

def Change.Effective (d : Database) : Change → Bool
  | removeTag a tag => d.tables.tags.contains a tag
  | _ => true

/-- A change that has nothing in its way succeeds. -/
theorem Ready.make_sound (h : d.Ready) {c : Change} (he : Log.Frame.Fits c.entry) (hc : c.Admitted d) :
    ∃ d', c.make .sound now d = (.ok (c.Effective d), d') ∧ d'.Ready := by
  obtain ⟨log, hrecord, husable⟩ := h.record_sound now he
  have hready (tables : Tables) (htraces : tables.traces = d.tables.traces) :
      Ready { d with log, tables } := ⟨h.accepting, htraces ▸ h.free, husable⟩
  cases c with
  | append r =>
    obtain ⟨i, d', happend, hd', -⟩ := h.append_sound now he hc
    exact ⟨d', by rw [Change.make, happend]; rfl, hd'⟩
  | setRegistration row =>
    rw [Change.entry] at hrecord
    refine ⟨_, ?_, hready { d.tables with catalog := d.tables.catalog.setRegistration row } rfl⟩
    rw [Change.make, setRegistration, change_open h.accepting, Catalog.changeWith, hrecord]
    rfl
  | setModel row =>
    rw [Change.entry] at hrecord
    refine ⟨_, ?_, hready { d.tables with catalog := d.tables.catalog.setModel row } rfl⟩
    rw [Change.make, setModel, change_open h.accepting, Catalog.changeWith, hrecord]
    rfl
  | addTag a tag =>
    rw [Change.entry] at hrecord
    refine ⟨_, ?_, hready { d.tables with tags := d.tables.tags.insert a tag } rfl⟩
    rw [Change.make, addTag, change_open h.accepting, Tags.addWith, if_neg (Bool.eq_false_iff.mp hc), hrecord]
    rfl
  | removeTag a tag =>
    rw [Change.entry] at hrecord
    rw [Change.make, removeTag, change_open h.accepting, Tags.removeWith, Change.Effective]
    cases hold : d.tables.tags.contains a tag with
    | true =>
      refine ⟨_, ?_, hready { d.tables with tags := d.tables.tags.erase a tag } rfl⟩
      rw [if_pos rfl, hrecord]
      rfl
    | false => exact ⟨d, rfl, h⟩
  | setDocument key v =>
    rw [Change.entry] at hrecord
    refine ⟨_, ?_, hready { d.tables with metadata := d.tables.metadata.set key v.val } rfl⟩
    rw [Change.make, setDocument, change_open h.accepting, Metadata.setWith, hrecord]
    rfl

/-- The log of a database, with its waiting frames, holds just these entries, and recovery from it gives tables
that answer like the live ones. -/
def Mirrored (settings : Settings) (es : List Log.Entry) (d : Database) : Prop :=
  ∃ l t, d.log = some l ∧
    Log.Replay.ofBytes (l.file ++ l.pending) = .ok ⟨es, (l.file ++ l.pending).length, 0⟩ ∧
    Tables.ofEntries settings es = .ok t ∧ d.tables.ReadAlike t ∧
    ∀ folder config m durability now, ∃ d',
      (recover folder config settings m (.ofFile durability (l.file ++ l.pending) now)).1 = .ok d' ∧
      d'.tables = t

theorem Sound.mirrored (h : d.Sound settings es) : d.Mirrored settings es := by
  obtain ⟨⟨l, hlog, hl⟩, t, ht, hbeside⟩ := h
  have hbytes : Log.Replay.ofBytes (l.file ++ l.pending) = .ok ⟨es, (l.file ++ l.pending).length, 0⟩ := by
    rw [hl.stream]
    exact Log.Replay.ofBytes_frames hl.fits
  refine ⟨l, t, hlog, hbytes, ht, hbeside.readAlike, fun folder config m durability now => ?_⟩
  obtain ⟨recovery, hr⟩ := recover_ofFile now hbytes ht folder config m durability
  exact ⟨_, hr, rfl⟩

/-- An empty folder is opened, and in every run from there, whatever fails, replay of the log gives tables that
answer like the live ones. A change that succeeds is in both, and one that fails is in neither. -/
theorem run_mirrored (folder : String) (config : Config) (settings : Settings) (durability : Durability)
    (opened : Nat) (m : Medium) :
    ∃ d, (recover folder config settings m (.ofFile durability [] opened)).1 = .ok d ∧
      ∀ steps : List Step, let h := History.run ⟨d, []⟩ steps
        h.database.Mirrored settings h.acknowledged ∧
        ∀ (c : Change) (f : Log.Faults) now x d', c.make f.medium now h.database = (x, d') →
          (x = .ok true → d'.Mirrored settings (h.acknowledged ++ [c.entry])) ∧
          (∀ e, x = .error e → d'.Mirrored settings h.acknowledged) := by
  obtain ⟨recovery, hd⟩ := recover_empty opened folder config settings m durability
  have hnone : Tables.ofEntries settings [] = .ok (.ofSettings settings) := rfl
  refine ⟨_, hd, fun steps => ?_⟩
  let d : Database :=
    { folder, config, tables := .ofSettings settings, log := some (.ofFile durability [] opened), recovery }
  have hstart : d.Sound settings [] :=
    ⟨⟨_, rfl, Log.History.start_holds durability opened⟩, _, hnone, .start settings⟩
  have hrun := History.run_sound (h := ⟨d, []⟩) hstart steps
  refine ⟨hrun.mirrored, fun c f now x d' hmake => ?_⟩
  have hnext := make_sound f now hrun c
  rw [hmake] at hnext
  refine ⟨?_, ?_⟩
  · rintro rfl
    exact hnext.mirrored
  · rintro e rfl
    exact hnext.mirrored

namespace Undisturbed

def trace : Trace := { time := default, address := ⟨0x4ca1b3, by decide⟩ }

def model : AircraftModel := ⟨"A320", none, none, none⟩

end Undisturbed

open Undisturbed

/-- In an empty folder a trace is appended and a model is set, and the log has both. -/
theorem two_changes_are_mirrored : ∃ d d₁ d₂ : Database,
    (recover "" .standard {} .sound (.ofFile .strict [] 0)).1 = .ok d ∧
    (Change.append trace).make .sound 0 d = (.ok true, d₁) ∧
    (Change.setModel model).make .sound 1 d₁ = (.ok true, d₂) ∧
    d₂.Mirrored {} [.trace trace, .model model] := by
  obtain ⟨d, hd, hrun⟩ := run_mirrored "" .standard {} .strict 0 .sound
  have hready := ready_of_recover_empty 0 hd
  have hleft : Change.Admitted d (.append trace) := by
    obtain ⟨recovery, hempty⟩ := recover_empty 0 "" .standard {} .sound .strict
    rw [hd] at hempty
    cases hempty
    exact (by decide : 0 < UInt64.size)
  obtain ⟨d₁, hfirst, hready₁⟩ := hready.make_sound 0 (by decide +kernel) hleft
  obtain ⟨d₂, hsecond, -⟩ := hready₁.make_sound 1 (c := .setModel model) (by decide +kernel) trivial
  have hrun₁ : History.run ⟨d, []⟩ [⟨.change (.append trace), 0, .clear⟩] = ⟨d₁, [.trace trace]⟩ := by
    change History.mk ((Change.append trace).make .sound 0 d).2
      (History.acknowledge [] (.trace trace) ((Change.append trace).make .sound 0 d).1) = _
    rw [hfirst]
    rfl
  obtain ⟨-, hnext⟩ := hrun [⟨.change (.append trace), 0, .clear⟩]
  rw [hrun₁] at hnext
  exact ⟨d, d₁, d₂, hd, hfirst, hsecond, (hnext (.setModel model) .clear 1 _ d₂ hsecond).1 rfl⟩

end Database
end FlightTrace
