import FlightTrace.Proofs.DatabaseHistory
import FlightTrace.Proofs.JsonDepth
import FlightTrace.Proofs.LogCalls
import FlightTrace.Proofs.Recovered

/-! A database that is shut down and opened again. Its documents may be any, and those that are too deep for the
reader are taken like the others, so that the log of such a database cannot be recovered. -/
namespace FlightTrace

namespace Log

variable {l : Log} {es : List Entry}

/-- Once nothing waits, closing leaves the frames of all entries, however the last sync goes. -/
theorem Holds.close_eq (h : l.Holds es) (hp : l.pending = []) (m : Medium) (now : Nat) :
    l.close m now = Replay.frames es := by
  have hfile := h.stream
  rw [hp, List.append_nil] at hfile
  rw [close, sync, writePending, if_pos hp]
  cases m.syncs <;> exact hfile

end Log

namespace Database

variable {settings : Settings} {es : List Log.Entry} {d d' : Database} (f : Log.Faults) (now : Nat)

/-- A step, or the setting of a document that need not be one that its text keeps. -/
inductive AnyStep where
  | step (s : Step)
  | setDocument (key : String) (v : Json) (now : Nat) (faults : Log.Faults)

namespace History

def anyStep (h : History) : AnyStep → History
  | .step s => h.step s
  | .setDocument key v now f =>
    let (x, database) := h.database.setDocument f.medium now key v
    { database, acknowledged := acknowledge h.acknowledged (.ofDocument key v) (x.map fun _ => true) }

def runAny (h : History) (steps : List AnyStep) : History := steps.foldl anyStep h

end History

/-- The log holds some entries, and the live tables contain their traces. -/
structure Stores (settings : Settings) (es : List Log.Entry) (d : Database) : Prop where
  logged : d.Logs es
  traces : d.tables.traces.Contains settings (Log.traces es)

theorem Outcome.stores {P : Json → Prop} {e : Log.Entry} {x : Except Error Bool} (h : d.Stores settings es)
    (ho : Outcome P es e d x d') : d'.Stores settings (History.acknowledge es e x) := by
  rcases ho.acknowledge with ⟨-, hes, hlog, hmade⟩ | ⟨-, hes, hlog, hunmade⟩
  · rw [hes]
    exact ⟨hlog, hmade.contains h.traces⟩
  · rw [hes]
    exact ⟨hlog, hunmade.contains h.traces⟩

theorem flush_stores (h : d.Stores settings es) : (d.flush f.medium now).2.Stores settings es :=
  ⟨Logs.flush f now h.logged, (tables_flush now f.medium).symm ▸ h.traces⟩

theorem shutdown_stores (h : d.Stores settings es) : (d.shutdown f.medium now).2.Stores settings es :=
  flush_stores f now ⟨h.logged, h.traces⟩

namespace History

variable {h : History}

theorem step_stores (hs : h.database.Stores settings h.acknowledged) (s : Step) :
    (h.step s).database.Stores settings (h.step s).acknowledged := by
  rw [step]
  cases s.call with
  | change c => exact (make_outcome s.faults s.now hs.logged c).stores hs
  | flush => exact flush_stores s.faults s.now hs
  | syncIfOverdue =>
    exact ⟨Logs.syncIfOverdue s.faults s.now hs.logged,
      (tables_syncIfOverdue s.now s.faults.medium).symm ▸ hs.traces⟩
  | shutdown => exact shutdown_stores s.faults s.now hs

theorem anyStep_stores (hs : h.database.Stores settings h.acknowledged) (s : AnyStep) :
    (h.anyStep s).database.Stores settings (h.anyStep s).acknowledged := by
  cases s with
  | step s => exact step_stores hs s
  | setDocument key v now f =>
    exact (setDocument_outcome (P := fun _ => True) f now hs.logged key trivial).stores hs

theorem runAny_stores (hs : h.database.Stores settings h.acknowledged) (steps : List AnyStep) :
    (h.runAny steps).database.Stores settings (h.runAny steps).acknowledged := by
  induction steps generalizing h with
  | nil => exact hs
  | cons s steps ih => exact ih (anyStep_stores hs s)

end History

section

variable {bs : List UInt8} {n torn : Nat} (durability : Durability) (opened : Nat) (m : Medium)

theorem replay_ofFile (hread : Log.Replay.ofBytes bs = .ok ⟨es, n, torn⟩) :
    (Log.ofFile durability bs opened).replay m = (.ok ⟨es, n, torn⟩, .ofFile durability bs opened) := by
  simp only [Log.replay, Log.replayFrom, Log.flush, Log.writePending, Log.ofFile, if_true, hread]

theorem recover_tables (hread : Log.Replay.ofBytes bs = .ok ⟨es, n, 0⟩) (folder : String) (config : Config)
    (settings : Settings) : (recover folder config settings m (.ofFile durability bs opened)).1.map tables =
      Tables.ofEntries settings es := by
  rw [recover, replay_ofFile durability opened m hread, Tables.ofEntries]
  simp only [if_true]
  cases Recovery.redoAll (.ofSettings settings) {} es <;> rfl

/-- A file is opened with the tables of its whole frames, and a torn end is cut off it. -/
theorem recover_torn {tail : List UInt8}
    (hread : Log.Replay.ofBytes (Log.Replay.frames es ++ tail) =
      .ok ⟨es, (Log.Replay.frames es).length, tail.length⟩) {folder : String} {config : Config}
    (hopen : (recover folder config settings m
      (.ofFile durability (Log.Replay.frames es ++ tail) opened)).1 = .ok d) :
    d.log = some (.ofFile durability (Log.Replay.frames es) opened) ∧
      Tables.ofEntries settings es = .ok d.tables := by
  let whole : Log := .ofFile durability (Log.Replay.frames es) opened
  have hcut {x : Except Error Unit × Log} (hx : (if tail.length = 0 then
        (.ok (), .ofFile durability (Log.Replay.frames es ++ tail) opened)
      else (Log.ofFile durability (Log.Replay.frames es ++ tail) opened).truncate m
        (Log.Replay.frames es).length) = x) (hok : x.1 = .ok ()) : x = (.ok (), whole) := by
    obtain ⟨y, l⟩ := x
    obtain rfl : y = .ok () := hok
    split at hx
    · rename_i htail
      rw [List.length_eq_zero_iff.mp htail, List.append_nil] at hx
      exact hx.symm
    · exact congrArg _ (Log.truncate_ofFile hx)
  rw [recover, replay_ofFile durability opened m hread] at hopen
  simp only at hopen
  split at hopen
  · cases hopen
  · rename_i l hx
    obtain rfl : l = whole := congrArg Prod.snd (hcut hx rfl)
    cases hall : Recovery.redoAll (.ofSettings settings) { torn := tail.length } es with
    | error g =>
      rw [hall] at hopen
      cases hopen
    | ok p =>
      rw [hall] at hopen
      cases hopen
      refine ⟨rfl, ?_⟩
      rw [Tables.ofEntries, Recovery.redoAll_tables _ _ { torn := tail.length }, hall]
      rfl

theorem recover_stores {tail : List UInt8} (hfits : ∀ e ∈ es, Log.Frame.Fits e)
    (hread : Log.Replay.ofBytes (Log.Replay.frames es ++ tail) =
      .ok ⟨es, (Log.Replay.frames es).length, tail.length⟩) {folder : String} {config : Config}
    (hopen : (recover folder config settings m
      (.ofFile durability (Log.Replay.frames es ++ tail) opened)).1 = .ok d) : d.Stores settings es := by
  obtain ⟨hlog, htables⟩ := recover_torn durability opened m hread hopen
  exact ⟨⟨_, hlog, hfits, ⟨es, [], (List.append_nil es).symm, rfl, rfl⟩, rfl, rfl⟩,
    (Tables.recovered_of_ofEntries htables).traces⟩

end

theorem Logs.of_shutdown (h : d.Logs es) (hs : d.shutdown f.medium now = (.ok (), d')) :
    ∃ l, d'.log = some l ∧ l.Holds es ∧ l.pending = [] := by
  obtain ⟨l, hlog, hl⟩ := h
  simp only [Database.shutdown, Database.flush, hlog] at hs
  cases hsync : l.fsync f.medium now with
  | mk x l' =>
    rw [hsync] at hs
    cases hs
    have hmoved := Log.fsync_moved f now hl.written
    rw [hsync] at hmoved
    exact ⟨l', rfl, hl.moved hmoved, Log.pending_of_sync_ok (Log.fsync_eq_ok_iff.mp hsync)⟩

theorem Stores.length_le (h : d.Stores settings es) : (Log.traces es).length ≤ UInt64.size :=
  h.traces.length_le.trans h.traces.reserved_le

/-- A log is opened with its tables, or with the key of a document whose text cannot be read. -/
theorem recover_cases (hfits : ∀ e ∈ es, Log.Frame.Fits e) (hleft : (Log.traces es).length ≤ UInt64.size)
    (folder : String) (config : Config) (settings : Settings) (m : Medium) (durability : Durability)
    (opened : Nat) :
    let answer := (recover folder config settings m (.ofFile durability (Log.Replay.frames es) opened)).1
    ((∀ e ∈ es, Tables.Redoable e) ∧ ∃ d, answer = .ok d ∧ Tables.Recovered settings es d.tables) ∨
      ∃ key text, .document key text ∈ es ∧ Json.ofText? text = none ∧
        answer = .error (.corruption (.document key)) := by
  intro answer
  have hread := Log.Replay.ofBytes_frames hfits
  have htables : answer.map tables = _ :=
    recover_tables durability opened m hread folder config settings
  rcases Tables.ofEntries_cases settings es hleft with
    ⟨hall, t, ht, hrecovered⟩ | ⟨key, text, hmem, hnone, herror⟩
  · rw [ht] at htables
    cases ha : answer with
    | error e =>
      rw [ha] at htables
      cases htables
    | ok d' =>
      rw [ha] at htables
      cases htables
      exact .inl ⟨hall, d', rfl, hrecovered⟩
  · rw [herror] at htables
    cases ha : answer with
    | error e =>
      rw [ha] at htables
      cases htables
      exact .inr ⟨key, text, hmem, hnone, rfl⟩
    | ok d' =>
      rw [ha] at htables
      cases htables

/-- What a shutdown has left is opened with its tables, or with the key of a document whose text cannot be read. -/
theorem Stores.reopen_cases (h : d.Stores settings es) (hs : d.shutdown f.medium now = (.ok (), d')) :
    ∃ l, d'.log = some l ∧ ∀ folder config settings' m durability opened last ended,
      let answer := (recover folder config settings' m (.ofFile durability (l.close last ended) opened)).1
      ((∀ e ∈ es, Tables.Redoable e) ∧ ∃ d'', answer = .ok d'' ∧ Tables.Recovered settings' es d''.tables) ∨
        ∃ key text, .document key text ∈ es ∧ Json.ofText? text = none ∧
          answer = .error (.corruption (.document key)) := by
  obtain ⟨l, hlog, hl, hp⟩ := h.logged.of_shutdown f now hs
  refine ⟨l, hlog, fun folder config settings' m durability opened last ended => ?_⟩
  rw [hl.close_eq hp last ended]
  exact recover_cases hl.fits h.length_le folder config settings' m durability opened

/-- A database is opened on a log of its own, perhaps with a torn end, and is changed in any way, whatever fails.
If it is shut down then, it is opened again just if the text of every document that was set can be read, and each
key has the document that was set last. The text of a document without binary fractions can be read just if the
document is less than 128 deep, but deeper ones are set like any other. -/
theorem reopened_iff_readable {folder : String} {config : Config} {durability : Durability} {opened : Nat}
    {m : Medium} {tail : List UInt8} (hfits : ∀ e ∈ es, Log.Frame.Fits e)
    (hread : Log.Replay.ofBytes (Log.Replay.frames es ++ tail) =
      .ok ⟨es, (Log.Replay.frames es).length, tail.length⟩)
    (hopen : (recover folder config settings m
      (.ofFile durability (Log.Replay.frames es ++ tail) opened)).1 = .ok d) (steps : List AnyStep) :
    let h := History.runAny ⟨d, es⟩ steps
    (∀ (f : Log.Faults) now d', h.database.shutdown f.medium now = (.ok (), d') → ∃ l, d'.log = some l ∧
      ∀ folder' config' settings' m' durability' opened' last ended,
        let answer := (recover folder' config' settings' m'
          (.ofFile durability' (l.close last ended) opened')).1
        ((∀ key text, .document key text ∈ h.acknowledged → Json.ofText? text ≠ none) →
          ∃ d'', answer = .ok d'' ∧
            ∀ before key v after, h.acknowledged = before ++ .ofDocument key v :: after →
              (∀ text, .document key text ∉ after) → v.Canonical → v.RealFree →
              d''.tables.metadata.get? key = some v) ∧
        ((∃ key text, .document key text ∈ h.acknowledged ∧ Json.ofText? text = none) →
          ∃ key, answer = .error (.corruption (.document key)))) ∧
    ∀ v : Json, v.Canonical → v.RealFree → (Json.ofText? v.text ≠ none ↔ v.depth < 128) := by
  intro h
  have hdepth (v : Json) (hc : v.Canonical) (hr : v.RealFree) : Json.ofText? v.text ≠ none ↔ v.depth < 128 := by
    rw [Json.ofText?_text_eq hc hr]
    split <;> simp [*]
  have hstores : h.database.Stores settings h.acknowledged :=
    History.runAny_stores (recover_stores durability opened m hfits hread hopen) steps
  refine ⟨fun f now d' hs => ?_, hdepth⟩
  obtain ⟨l, hlog, hl, hp⟩ := hstores.logged.of_shutdown f now hs
  refine ⟨l, hlog, fun folder' config' settings' m' durability' opened' last ended => ?_⟩
  rw [hl.close_eq hp last ended]
  rcases recover_cases hl.fits hstores.length_le folder' config' settings' m' durability' opened' with
    ⟨hall, d'', hok, hrecovered⟩ | ⟨key, text, hmem, hnone, herror⟩
  · refine ⟨fun _ => ⟨d'', hok, fun before key v after hes hlast hc hr => ?_⟩, ?_⟩
    · have hv : Json.ofText? v.text ≠ none := hall (.ofDocument key v)
        (hes ▸ List.mem_append_right _ List.mem_cons_self) key v.text rfl
      rw [hrecovered.documents, hes, Log.Entry.ofDocument, Log.lastText?_of_last hlast]
      exact (Json.ofText?_text_eq hc hr).trans (if_pos ((hdepth v hc hr).mp hv))
    · rintro ⟨key, text, hmem, hnone⟩
      exact absurd hnone (hall _ hmem key text rfl)
  · exact ⟨fun hall => absurd hnone (hall key text hmem), fun _ => ⟨key, herror⟩⟩

namespace Nesting

def nested : Nat → Json
  | 0 => .array []
  | n + 1 => .array [nested n]

theorem depth_nested (n : Nat) : (nested n).depth = n + 1 := by
  induction n with
  | zero => rfl
  | succ n ih => rw [nested, Json.depth, Json.itemsDepth, Json.itemsDepth, ih, Nat.max_zero]

theorem canonical_nested (n : Nat) : (nested n).Canonical := by
  induction n with
  | zero => exact trivial
  | succ n ih => exact ⟨ih, trivial⟩

theorem realFree_nested (n : Nat) : (nested n).RealFree := by
  induction n with
  | zero => exact trivial
  | succ n ih => exact ⟨ih, trivial⟩

theorem ofText?_nested (n : Nat) : Json.ofText? (nested n).text = if n < 127 then some (nested n) else none := by
  rw [Json.ofText?_text_eq (canonical_nested n) (realFree_nested n), depth_nested]
  exact if_congr Nat.succ_lt_succ_iff rfl rfl

def fresh : Database := { config := .standard, tables := .ofSettings {}, log := some (.ofFile .strict [] 0) }

theorem fits_nil : ∀ e ∈ ([] : List Log.Entry), Log.Frame.Fits e := fun _ he => absurd he List.not_mem_nil

theorem ofBytes_nil : Log.Replay.ofBytes (Log.Replay.frames [] ++ []) = .ok ⟨[], 0, 0⟩ :=
  Log.Replay.ofBytes_frames fits_nil

theorem recover_fresh : (recover "" .standard {} .sound (.ofFile .strict [] 0)).1 = .ok fresh := by
  have hread : Log.Replay.ofBytes [] = .ok ⟨[], 0, 0⟩ := ofBytes_nil
  rw [recover, replay_ofFile .strict 0 .sound hread]
  rfl

theorem stores_fresh : fresh.Stores {} [] := recover_stores .strict 0 .sound fits_nil ofBytes_nil recover_fresh

theorem setDocument_fresh {key : String} {v : Json} (hfits : Log.Frame.Fits (.ofDocument key v)) :
    (fresh.setDocument .sound 0 key v).1 = .ok () := by
  obtain ⟨l, happend, -⟩ := Log.append_sound 0 (l := .ofFile .strict [] 0) hfits rfl
  rw [setDocument, change_open rfl, Metadata.setWith, fresh, record, happend]
  rfl

theorem shutdown_sound_ok (d : Database) : (d.shutdown .sound 0).1 = .ok () := by
  rw [shutdown, flush]
  split
  · rfl
  · rename_i l _
    have hsync := l.sync_sound 0
    rw [Log.fsync]
    cases hs : l.sync .sound 0 with
    | mk x l' =>
      rw [hs] at hsync
      obtain rfl : x = .ok () := hsync
      rfl

def clear : Log.Faults := ⟨fun _ _ => none, true⟩

theorem medium_clear : clear.medium = .sound := rfl

theorem shutdown_fresh {key : String} {v : Json} (hfits : Log.Frame.Fits (.ofDocument key v)) :
    ∃ d₁ d₂ l, fresh.setDocument .sound 0 key v = (.ok (), d₁) ∧ d₁.shutdown .sound 0 = (.ok (), d₂) ∧
      d₂.log = some l ∧ d₁.Stores {} [.ofDocument key v] ∧ l.Holds [.ofDocument key v] ∧ l.pending = [] := by
  have houtcome := setDocument_outcome clear 0 stores_fresh.logged key (P := (· = v)) rfl
  have hset := setDocument_fresh hfits
  rw [medium_clear] at houtcome
  cases hresult : fresh.setDocument .sound 0 key v with
  | mk x d₁ =>
    rw [hresult] at hset houtcome
    obtain rfl : x = .ok () := hset
    have hstores : d₁.Stores {} [.ofDocument key v] := houtcome.stores stores_fresh
    have hdown := shutdown_sound_ok d₁
    cases hshut : d₁.shutdown .sound 0 with
    | mk y d₂ =>
      rw [hshut] at hdown
      obtain rfl : y = .ok () := hdown
      obtain ⟨l, hlog, hl, hp⟩ := hstores.logged.of_shutdown clear 0 (medium_clear ▸ hshut)
      exact ⟨d₁, d₂, l, rfl, hshut, hlog, hstores, hl, hp⟩

end Nesting

open Nesting

/-- A document 127 deep is set in a database that is then shut down and opened again. -/
theorem shallow_document_is_reopened : ∃ d₁ d₂ l,
    fresh.setDocument .sound 0 "shallow" (nested 126) = (.ok (), d₁) ∧
    d₁.shutdown .sound 0 = (.ok (), d₂) ∧ d₂.log = some l ∧
    ∃ d₃, (recover "" .standard {} .sound (.ofFile .strict (l.close .sound 0) 0)).1 = .ok d₃ ∧
      d₃.tables.metadata.get? "shallow" = some (nested 126) := by
  have hreopened (v : Json) (hv : v.Readable) (hfits : Log.Frame.Fits (.ofDocument "shallow" v)) : ∃ d₁ d₂ l,
      fresh.setDocument .sound 0 "shallow" v = (.ok (), d₁) ∧ d₁.shutdown .sound 0 = (.ok (), d₂) ∧
      d₂.log = some l ∧
      ∃ d₃, (recover "" .standard {} .sound (.ofFile .strict (l.close .sound 0) 0)).1 = .ok d₃ ∧
        d₃.tables.metadata.get? "shallow" = some v := by
    obtain ⟨d₁, d₂, l, hset, hdown, hlog, -⟩ := shutdown_fresh hfits
    have hrun : History.runAny ⟨fresh, []⟩ [.setDocument "shallow" v 0 clear] =
        ⟨d₁, [.ofDocument "shallow" v]⟩ := by
      simp only [History.runAny, List.foldl_cons, List.foldl_nil, History.anyStep, medium_clear, hset]
      rfl
    have hresult := (reopened_iff_readable fits_nil ofBytes_nil recover_fresh
      [.setDocument "shallow" v 0 clear]).1
    rw [hrun] at hresult
    obtain ⟨l', hlog', hopen⟩ := hresult clear 0 d₂ hdown
    obtain rfl : l = l' := Option.some.inj (hlog.symm.trans hlog')
    obtain ⟨d₃, hok, hget⟩ := (hopen "" .standard {} .sound .strict 0 .sound 0).1 (by
      intro key text hmem
      cases List.mem_singleton.mp hmem
      rw [hv.ofText?_text]
      exact Option.some_ne_none v)
    exact ⟨d₁, d₂, l, hset, hdown, hlog, d₃, hok,
      hget [] "shallow" v [] rfl (fun _ => List.not_mem_nil) hv.canonical hv.realFree⟩
  exact hreopened (nested 126) ⟨canonical_nested 126, realFree_nested 126, by rw [depth_nested]; decide⟩
    (by decide +kernel)

/-- A document 128 deep is set in a database that is then shut down, and cannot be opened any more. -/
theorem deep_document_is_not_reopened : ∃ d₁ d₂ l,
    (recover "" .standard {} .sound (.ofFile .strict [] 0)).1 = .ok fresh ∧
    fresh.setDocument .sound 0 "deep" (nested 127) = (.ok (), d₁) ∧ (nested 127).RealFree ∧
    d₁.shutdown .sound 0 = (.ok (), d₂) ∧ d₂.log = some l ∧
    (recover "" .standard {} .sound (.ofFile .strict (l.close .sound 0) 0)).1 =
      .error (.corruption (.document "deep")) := by
  have hfits : Log.Frame.Fits (.ofDocument "deep" (nested 127)) := by decide +kernel
  obtain ⟨d₁, d₂, l, hset, hdown, hlog, hstores, hl, hp⟩ := shutdown_fresh hfits
  refine ⟨d₁, d₂, l, recover_fresh, hset, realFree_nested 127, hdown, hlog, ?_⟩
  rw [hl.close_eq hp]
  rcases recover_cases hl.fits hstores.length_le "" .standard {} .sound .strict 0 with
    ⟨hall, -⟩ | ⟨key, text, hmem, -, herror⟩
  · exact absurd (ofText?_nested 127) (hall _ List.mem_cons_self _ _ rfl)
  · obtain rfl : key = "deep" := (Log.Entry.document.inj (List.mem_singleton.mp hmem)).1
    exact herror

end Database
end FlightTrace
