import FlightTrace.Database.Document
import FlightTrace.Proofs.DocumentReading
import FlightTrace.Proofs.InstantText
import FlightTrace.Proofs.Reopening

/-! Values that are stored as documents. Each is found in its own document, which its text keeps, so that it comes back
from under its key while the database is used and after it is opened again. -/
namespace FlightTrace

namespace Document

variable {α : Type} {n : Nat}

theorem found_string (s : String) : Found n s := finds_string s

theorem found_instant (t : Instant) : Found n t :=
  (finds_string t.text).bind (g := fun s => present (Instant.ofText? s)) (by rw [Instant.ofText?_text]; rfl)

theorem found_address (a : Address) : Found n a := by
  have hlt : a.val < 0x100000000 := a.le_max.trans_lt (by decide)
  have h : Reader.Finds (nat 0x100000000) n (.ofNat a.val) ⟨a.val, hlt⟩ := finds_nat (by decide) ⟨a.val, hlt⟩
  exact h.bind (g := fun k => checked (Address.ofNat k.val)) (congrArg checked (Address.ofNat_val a))

theorem found_squawk (c : Squawk) : Found n c := by
  have h : Reader.Finds (nat 65536) n (.ofNat c.val) ⟨c.val, c.lt_bound⟩ :=
    finds_nat (by decide) ⟨c.val, c.lt_bound⟩
  exact h.bind (g := fun k => .ok (⟨k.val, k.property⟩ : Squawk)) rfl

theorem found_callsign (c : Callsign) : Found n c :=
  (finds_string c.text).bind (g := fun s => checked (Callsign.ofText s)) (congrArg checked (Callsign.ofText_text c))

theorem found_sourceTag (t : SourceTag) : Found n t :=
  (finds_char t.char).bind (g := fun c => checked (SourceTag.ofChar c)) (congrArg checked (SourceTag.ofChar_char t))

theorem found_wakeCategory (w : WakeCategory) : Found n w := by
  refine ⟨?_, Json.plain_string _, nofun⟩
  cases w <;> rfl

theorem found_recordId (i : RecordId) : Found n i := by
  have h : Reader.Finds (nat 0x10000000000000000) n (.ofNat i.val) ⟨i.val, i.lt_size⟩ :=
    finds_nat (by decide) ⟨i.val, i.lt_size⟩
  exact h.bind (g := fun k => .ok (⟨k.val, k.property⟩ : RecordId)) rfl

theorem found_bound [Document α] (h : ∀ a : α, Found n a) (b : Bound α) : Found (n + 1) b := by
  cases b with
  | unbounded => exact ⟨rfl, Json.plain_string _, nofun⟩
  | included a => exact ⟨congrArg (Except.map _) (h a).eq, Json.plain_single (h a).plain, nofun⟩
  | excluded a => exact ⟨congrArg (Except.map _) (h a).eq, Json.plain_single (h a).plain, nofun⟩

open FieldReader

theorem found_timeRange (r : TimeRange) : Found (n + 2) r :=
  (((takes_required "start" (found_bound found_instant r.lower)).map TimeRange.mk).seq
    (takes_required "end" (found_bound found_instant r.upper))).read (by decide)

theorem found_trace (t : Trace) : Found (n + 1) t :=
  ((((((takes_required "time" (found_instant t.time)).map Trace.mk).seq
    (takes_required "icao_address" (found_address t.address))).seq
    (takes_optional "callsign" found_callsign t.callsign)).seq
    (takes_optional "squawk" found_squawk t.squawk)).seq
    (takes_optional "data_source" found_sourceTag t.source)).read (by decide)

theorem found_registration (r : Registration) : Found (n + 1) r :=
  ((((takes_required "icao_address" (found_address r.address)).map Registration.mk).seq
    (takes_required "registration" (found_string r.mark))).seq
    (takes_optional "model" found_string r.model)).read (by decide)

theorem found_aircraftModel (m : AircraftModel) : Found (n + 1) m :=
  (((((takes_required "icao_code" (found_string m.code)).map AircraftModel.mk).seq
    (takes_optional "name" found_string m.name)).seq
    (takes_optional "description" found_string m.description)).seq
    (takes_optional "wtc" found_wakeCategory m.wake)).read (by decide)

theorem found_aircraftInfo (i : AircraftInfo) : Found (n + 2) i :=
  (((takes_required "registration" (found_registration i.registration)).map AircraftInfo.mk).seq
    (takes_optional "model" found_aircraftModel i.model)).read (by decide)

theorem found_observation (o : Observation) : Found (n + 1) o := by
  obtain ⟨hcallsign, hcallsign'⟩ := option_ofOption (n := n) finds_string o.callsign
  obtain ⟨hsquawk, hsquawk'⟩ := option_ofOption (n := n) finds_string o.squawk
  obtain ⟨hsource, hsource'⟩ := option_ofOption (n := n) finds_char o.source
  exact ((((((takes_required "time" (found_instant o.time)).map Observation.mk).seq
    (takes_required "icao_address" (finds_nat (by decide) o.address))).seq
    (takes_withDefault "callsign" none hcallsign hcallsign')).seq
    (takes_withDefault "squawk" none hsquawk hsquawk')).seq
    (takes_withDefault "data_source" none hsource hsource')).read (by decide)

theorem found_searchQuery (q : SearchQuery) : Found (n + 3) q := by
  have hrange : Found (n + 2) q.range := found_timeRange q.range
  have haddresses := finds_list (n := n + 1) found_address q.addresses
  have hcallsigns := finds_list (n := n + 1) found_callsign q.callsigns
  have hsquawks := finds_list (n := n + 1) found_squawk q.squawks
  have h := ((((takes_withDefault "range" .all hrange.eq hrange.plain).map SearchQuery.mk).seq
    (takes_withDefault "icao_addresses" [] haddresses.eq haddresses.plain)).seq
    (takes_withDefault "callsigns" [] hcallsigns.eq hcallsigns.plain)).seq
    (takes_withDefault "squawks" [] hsquawks.eq hsquawks.plain)
  exact h.read (by decide)

/-- A number of observations fits a word. -/
theorem found_sighting (s : Sighting) (h : s.observations < 0x10000000000000000) : Found (n + 1) s := by
  have hcount := (finds_nat (n := n) (Nat.le_refl 0x10000000000000000) ⟨s.observations, h⟩).map (·.val)
  exact (((((takes_required "icao_address" (found_address s.address)).map Sighting.mk).seq
    (takes_required "first_seen" (found_instant s.firstSeen))).seq
    (takes_required "last_seen" (found_instant s.lastSeen))).seq
    (takes_required "observations" hcount)).read (by decide)

theorem found_enrichedTrace (e : EnrichedTrace) : Found (n + 3) e := by
  have htags := (finds_list (n := n + 1) found_string e.tags.toList).map OrderedSet.ofList
  have hset : OrderedSet.ofList e.tags.toList = e.tags := OrderedSet.ext fun _ => OrderedSet.mem_ofList
  rw [hset] at htags
  exact ((((takes_required "record" (found_trace e.trace)).map EnrichedTrace.mk).seq
    (takes_optional "aircraft" found_aircraftInfo e.info)).seq
    (takes_required "tags" htags)).read (by decide)

theorem found_tagFields (make : Address → String → Log.Entry) (a : Address) (tag : String) :
    Reader.Finds (Log.Entry.ofTagFields make) (n + 1) (Log.Entry.tagFields a tag) (make a tag) :=
  (((takes_required "icao_address" (found_address a)).map make).seq (takes_required "tag" (found_string tag))).named
    (show ["icao_address", "tag"].Nodup by decide)

theorem found_entry (e : Log.Entry) : Found (n + 3) e := by
  cases e with
  | trace t =>
    have h := ((takes_required "record" (found_trace (n := n) t)).map Log.Entry.trace).named (by decide)
    exact ⟨h.eq, Json.plain_single h.plain, nofun⟩
  | registration row =>
    have h := ((takes_required "row" (found_registration (n := n) row)).map Log.Entry.registration).named
      (by decide)
    exact ⟨h.eq, Json.plain_single h.plain, nofun⟩
  | model row =>
    have h := ((takes_required "model" (found_aircraftModel (n := n) row)).map Log.Entry.model).named
      (by decide)
    exact ⟨h.eq, Json.plain_single h.plain, nofun⟩
  | tagAdded a tag =>
    have h := found_tagFields (n := n + 1) .tagAdded a tag
    exact ⟨h.eq, Json.plain_single h.plain, nofun⟩
  | tagRemoved a tag =>
    have h := found_tagFields (n := n + 1) .tagRemoved a tag
    exact ⟨h.eq, Json.plain_single h.plain, nofun⟩
  | document key text =>
    have h := (((takes_required (n := n + 1) "key" (found_string key)).map Log.Entry.document).seq
      (takes_required "json" (found_string text))).named (by decide)
    exact ⟨h.eq, Json.plain_single h.plain, nofun⟩

theorem found_config (c : Config) : Found (n + 1) c := by
  have hdurability := finds_string (n := n) c.durability
  have hlock := finds_nat (n := n) (Nat.le_refl _) c.lockTimeout
  have hwidth := finds_integer (n := n) c.bucketWidth
  have hcancel := finds_nat (n := n) (Nat.le_refl _) c.cancelInterval
  have hdurabilityTaken :=
    takes_withDefault "durability" Config.standard.durability hdurability.eq hdurability.plain
  have hlockTaken := takes_withDefault "lock_timeout_ms" Config.standard.lockTimeout hlock.eq hlock.plain
  have hwidthTaken := takes_withDefault "time_bucket_secs" Config.standard.bucketWidth hwidth.eq hwidth.plain
  have hcancelTaken :=
    takes_withDefault "cancel_check_interval" Config.standard.cancelInterval hcancel.eq hcancel.plain
  exact ((((hdurabilityTaken.map Config.mk).seq hlockTaken).seq hwidthTaken).seq hcancelTaken).read (by decide)

end Document

open Document

namespace Tables

variable {P : Json → Prop} {live live' : Tables} {e : Log.Entry} {key : String}

theorem Made.get?_eq (h : live.Made P e live') (he : ∀ text, e ≠ .document key text) :
    live'.metadata.get? key = live.metadata.get? key := by
  cases h with
  | document k hv =>
    have hk : key ≠ k := fun heq => he _ (by rw [heq, Log.Entry.ofDocument])
    exact OrderedMap.get?_insert.trans (if_neg hk)
  | _ => rfl

theorem Unmade.metadata_eq (h : live.Unmade live') : live'.metadata = live.metadata := by
  cases h <;> rfl

end Tables

namespace Database

variable {settings : Settings} {key : String}

def AnyStep.Sets (key : String) : AnyStep → Prop
  | .step s => ∃ v, s.call = .change (.setDocument key v)
  | .setDocument k _ _ _ => k = key

namespace History

/-- A database with its acknowledged entries that was opened on a log of its own, perhaps with a torn end, and was then
used in any way, whatever failed. -/
inductive Reached : History → Prop where
  | opened {settings : Settings} {es : List Log.Entry} {tail : List UInt8} {d : Database} {folder : String}
    {config : Config} {durability : Durability} {opened : Nat} {m : Medium} (hfits : ∀ e ∈ es, Log.Frame.Fits e)
    (hread : Log.Replay.ofBytes (Log.Replay.frames es ++ tail) =
      .ok ⟨es, (Log.Replay.frames es).length, tail.length⟩)
    (hopen : (recover folder config settings m
      (.ofFile durability (Log.Replay.frames es ++ tail) opened)).1 = .ok d) : Reached ⟨d, es⟩
  | step {h : History} (hr : Reached h) (s : AnyStep) : Reached (h.anyStep s)

variable {h h' : History}

theorem Reached.stores (hr : h.Reached) : ∃ settings, h.database.Stores settings h.acknowledged := by
  induction hr with
  | opened hfits hread hopen => exact ⟨_, recover_stores _ _ _ hfits hread hopen⟩
  | step _ s ih => exact ih.imp fun _ hs => anyStep_stores hs s

/-- What steps do that set no document under a key: its document stays, and none is acknowledged. -/
structure Leaves (key : String) (h h' : History) : Prop where
  get?_eq : h'.database.tables.metadata.get? key = h.database.tables.metadata.get? key
  acknowledged : ∃ added, h'.acknowledged = h.acknowledged ++ added ∧ ∀ text, .document key text ∉ added

theorem Leaves.refl (h : History) : h.Leaves key h := ⟨rfl, [], (List.append_nil _).symm, fun _ => List.not_mem_nil⟩

theorem Leaves.trans {h'' : History} (h₁ : h.Leaves key h') (h₂ : h'.Leaves key h'') : h.Leaves key h'' := by
  obtain ⟨added, hes, hadded⟩ := h₁.acknowledged
  obtain ⟨added', hes', hadded'⟩ := h₂.acknowledged
  refine ⟨h₂.get?_eq.trans h₁.get?_eq, added ++ added', by rw [hes', hes, List.append_assoc], fun text hmem => ?_⟩
  rcases List.mem_append.mp hmem with hmem | hmem
  · exact hadded text hmem
  · exact hadded' text hmem

theorem Leaves.of_tables (htables : h'.database.tables = h.database.tables)
    (hes : h'.acknowledged = h.acknowledged) : h.Leaves key h' :=
  ⟨by rw [htables], [], by rw [hes, List.append_nil], fun _ => List.not_mem_nil⟩

theorem Leaves.of_outcome {P : Json → Prop} {e : Log.Entry} {x : Except Error Bool} {d' : Database}
    (ho : Outcome P h.acknowledged e h.database x d') (he : ∀ text, e ≠ .document key text) :
    h.Leaves key ⟨d', acknowledge h.acknowledged e x⟩ := by
  rcases ho.acknowledge with ⟨-, hes, -, hmade⟩ | ⟨-, hes, -, hunmade⟩
  · refine ⟨hmade.get?_eq he, [e], hes, fun text hmem => he text (List.mem_singleton.mp hmem).symm⟩
  · exact ⟨by rw [hunmade.metadata_eq], [], by rw [hes, List.append_nil], fun _ => List.not_mem_nil⟩

theorem anyStep_leaves (hs : h.database.Stores settings h.acknowledged) {s : AnyStep} (hn : ¬s.Sets key) :
    h.Leaves key (h.anyStep s) := by
  cases s with
  | setDocument k v now f =>
    refine .of_outcome (setDocument_outcome (P := fun _ => True) f now hs.logged k trivial) fun text heq => ?_
    exact hn (Log.Entry.document.inj heq).1
  | step s =>
    rw [anyStep, step]
    cases hc : s.call with
    | change c =>
      refine .of_outcome (make_outcome s.faults s.now hs.logged c) fun text heq => ?_
      cases c with
      | setDocument k v =>
        obtain rfl : k = key := (Log.Entry.document.inj heq).1
        exact hn ⟨v, hc⟩
      | _ => cases heq
    | flush => exact .of_tables (tables_flush s.now s.faults.medium) rfl
    | syncIfOverdue => exact .of_tables (tables_syncIfOverdue s.now s.faults.medium) rfl
    | shutdown => exact .of_tables (tables_flush s.now s.faults.medium) rfl

theorem runAny_leaves (hs : h.database.Stores settings h.acknowledged) {steps : List AnyStep}
    (hn : ∀ s ∈ steps, ¬s.Sets key) : h.Leaves key (h.runAny steps) := by
  induction steps generalizing h with
  | nil => exact .refl h
  | cons s steps ih =>
    obtain ⟨hs₁, hsteps⟩ := List.forall_mem_cons.mp hn
    exact (anyStep_leaves hs hs₁).trans (ih (anyStep_stores hs s) hsteps)

end History

variable {α : Type} [Document α] {n : Nat} {a : α}

theorem read?_of_get? {m : Metadata} (ha : Found n a) (hget : m.get? key = some (toJson a)) :
    m.read? α key = .ok (some a) := by
  have heq : Document.ofJson (toJson a) = .ok a := ha.eq
  simp only [Metadata.read?, hget, heq]

theorem get?_of_write {d d' : Database} {m : Medium} {now : Nat} (hw : d.write m now key a = (.ok (), d')) :
    d'.tables.metadata.get? key = some (toJson a) := by
  rw [write, setDocument] at hw
  cases hd : d.accepting with
  | false =>
    rw [change_closed hd] at hw
    cases hw
  | true =>
    rw [change_open hd] at hw
    rcases hr : record m now (.ofDocument key (toJson a)) d.log with ⟨g | u, log⟩
    · simp only [Metadata.setWith, hr] at hw
      cases hw
    · simp only [Metadata.setWith, hr] at hw
      cases hw
      exact OrderedMap.get?_insert.trans (if_pos rfl)

/-- What is stored under a key comes back: from the table, from the database that took it, and while that goes on
without another document under the key. Once it is shut down, it comes back from each database that is opened on the
file, and one is opened if all documents that were set have texts that can be read. -/
structure Returned (a : α) : Prop where
  text : Json.ofText? (toJson a).text = some (toJson a)
  set : ∀ (m : Metadata) key, (m.set key (toJson a)).read? α key = .ok (some a) ∧
    (m.set key (toJson a)).require α key = .ok a
  written : ∀ (d d' : Database) (m : Medium) now key, d.write m now key a = (.ok (), d') →
    d'.tables.metadata.read? α key = .ok (some a)
  reopened : ∀ h : History, h.Reached → ∀ (f : Log.Faults) now key,
    (h.database.write f.medium now key a).1 = .ok () → ∀ steps : List AnyStep, (∀ s ∈ steps, ¬s.Sets key) →
    let h' := (h.anyStep (.setDocument key (toJson a) now f)).runAny steps
    h'.database.tables.metadata.read? α key = .ok (some a) ∧
    ∀ (f : Log.Faults) now d, h'.database.shutdown f.medium now = (.ok (), d) → ∃ l, d.log = some l ∧
      ∀ folder config settings m durability opened last ended,
        let answer := (recover folder config settings m (.ofFile durability (l.close last ended) opened)).1
        (∀ d', answer = .ok d' → d'.tables.metadata.read? α key = .ok (some a)) ∧
        ((∀ key text, .document key text ∈ h'.acknowledged → Json.ofText? text ≠ none) → ∃ d', answer = .ok d')

theorem returned_of_found (ha : Found n a) (hn : n < 128) : Returned a := by
  have htext : Json.ofText? (toJson a).text = some (toJson a) := (ha.plain.readable hn).ofText?_text
  refine ⟨htext, fun m key => ?_, fun d d' m now key hw => read?_of_get? ha (get?_of_write hw), ?_⟩
  · have hread : (m.set key (toJson a)).read? α key = .ok (some a) :=
      read?_of_get? ha (OrderedMap.get?_insert.trans (if_pos rfl))
    refine ⟨hread, ?_⟩
    rw [Metadata.require, hread]
  intro h hr f now key hw steps hsteps h'
  obtain ⟨settings, hstores⟩ := hr.stores
  have hset := History.anyStep_stores hstores (.setDocument key (toJson a) now f)
  have hstores' : h'.database.Stores settings h'.acknowledged := History.runAny_stores hset steps
  have hleaves : (h.anyStep (.setDocument key (toJson a) now f)).Leaves key h' :=
    History.runAny_leaves hset hsteps
  obtain ⟨added, hes, hadded⟩ := hleaves.acknowledged
  cases hd : h.database.write f.medium now key a with
  | mk x d₁ =>
    rw [hd] at hw
    obtain rfl : x = .ok () := hw
    have hstep : h.anyStep (.setDocument key (toJson a) now f) =
        ⟨d₁, h.acknowledged ++ [.ofDocument key (toJson a)]⟩ := by
      rw [History.anyStep, show h.database.setDocument f.medium now key (toJson a) = (.ok (), d₁) from hd]
      rfl
    rw [hstep] at hleaves hes
    refine ⟨read?_of_get? ha (hleaves.get?_eq.trans (get?_of_write hd)), fun f now d₂ hs => ?_⟩
    obtain ⟨l, hlog, hcases⟩ := hstores'.reopen_cases f now hs
    refine ⟨l, hlog, fun folder config settings m durability opened last ended => ?_⟩
    rcases hcases folder config settings m durability opened last ended with
      ⟨-, d₃, hok, hrecovered⟩ | ⟨k, text, hmem, hnone, herror⟩
    · refine ⟨fun d₄ hok' => ?_, fun _ => ⟨d₃, hok⟩⟩
      obtain rfl : d₃ = d₄ := Except.ok.inj (hok.symm.trans hok')
      have hlast : Log.lastText? h'.acknowledged key = some (toJson a).text := by
        rw [hes, List.append_assoc]
        exact Log.lastText?_of_last hadded
      refine read?_of_get? ha ?_
      rw [hrecovered.documents, hlast]
      exact htext
    · refine ⟨fun d₃ hok => ?_, fun hall => absurd hnone (hall k text hmem)⟩
      rw [herror] at hok
      cases hok

/-- Every value of every type that is stored as a document comes back. Of sightings these are the ones whose number of
observations is of 64 bits. -/
theorem stored_values_come_back :
    (∀ t : Instant, Returned t) ∧ (∀ a : Address, Returned a) ∧ (∀ c : Squawk, Returned c) ∧
    (∀ c : Callsign, Returned c) ∧ (∀ t : SourceTag, Returned t) ∧ (∀ w : WakeCategory, Returned w) ∧
    (∀ i : RecordId, Returned i) ∧ (∀ r : TimeRange, Returned r) ∧ (∀ t : Trace, Returned t) ∧
    (∀ r : Registration, Returned r) ∧ (∀ m : AircraftModel, Returned m) ∧ (∀ i : AircraftInfo, Returned i) ∧
    (∀ o : Observation, Returned o) ∧ (∀ q : SearchQuery, Returned q) ∧
    (∀ s : Sighting, s.observations < 0x10000000000000000 → Returned s) ∧ (∀ e : EnrichedTrace, Returned e) ∧
    (∀ e : Log.Entry, Returned e) ∧ ∀ c : Config, Returned c :=
  ⟨fun t => returned_of_found (n := 0) (found_instant t) (by decide),
    fun a => returned_of_found (n := 0) (found_address a) (by decide),
    fun c => returned_of_found (n := 0) (found_squawk c) (by decide),
    fun c => returned_of_found (n := 0) (found_callsign c) (by decide),
    fun t => returned_of_found (n := 0) (found_sourceTag t) (by decide),
    fun w => returned_of_found (n := 0) (found_wakeCategory w) (by decide),
    fun i => returned_of_found (n := 0) (found_recordId i) (by decide),
    fun r => returned_of_found (n := 2) (found_timeRange r) (by decide),
    fun t => returned_of_found (n := 1) (found_trace t) (by decide),
    fun r => returned_of_found (n := 1) (found_registration r) (by decide),
    fun m => returned_of_found (n := 1) (found_aircraftModel m) (by decide),
    fun i => returned_of_found (n := 2) (found_aircraftInfo i) (by decide),
    fun o => returned_of_found (n := 1) (found_observation o) (by decide),
    fun q => returned_of_found (n := 3) (found_searchQuery q) (by decide),
    fun s hs => returned_of_found (n := 1) (found_sighting s hs) (by decide),
    fun e => returned_of_found (n := 3) (found_enrichedTrace e) (by decide),
    fun e => returned_of_found (n := 3) (found_entry e) (by decide),
    fun c => returned_of_found (n := 1) (found_config c) (by decide)⟩

open Nesting

/-- A sighting in an empty store, which is shut down and opened again. -/
theorem sighting_comes_back :
    let s : Sighting :=
      ⟨⟨0x3c5eee, by decide⟩, ⟨-1, 0, by decide, by decide⟩, ⟨59, 1500000000, by decide, by decide⟩, 3⟩
    s.observations < 0x10000000000000000 ∧ ∃ d₁ d₂ l d₃, fresh.write .sound 0 "last" s = (.ok (), d₁) ∧
      d₁.shutdown .sound 0 = (.ok (), d₂) ∧ d₂.log = some l ∧
      (recover "" .standard {} .sound (.ofFile .strict (l.close .sound 0) 0)).1 = .ok d₃ ∧
      d₃.tables.metadata.read? Sighting "last" = .ok (some s) := by
  intro s
  have hbound : s.observations < 0x10000000000000000 := by decide
  have hfits : Log.Frame.Fits (.ofDocument "last" (toJson s)) := by decide +kernel
  obtain ⟨d₁, d₂, l, hset, hdown, hlog, -⟩ := shutdown_fresh hfits
  have hreached : History.Reached ⟨fresh, []⟩ := .opened fits_nil ofBytes_nil recover_fresh
  have hstep : History.anyStep ⟨fresh, []⟩ (.setDocument "last" (toJson s) 0 clear) =
      ⟨d₁, [.ofDocument "last" (toJson s)]⟩ := by
    rw [History.anyStep, medium_clear, hset]
    rfl
  obtain ⟨-, -, -, -, -, -, -, -, -, -, -, -, -, -, hsighting, -⟩ := stored_values_come_back
  have hreturned : Returned s := hsighting s hbound
  obtain ⟨-, hreopened⟩ := hreturned.reopened _ hreached clear 0 "last" (setDocument_fresh hfits) []
    (fun _ hs => absurd hs List.not_mem_nil)
  rw [hstep] at hreopened
  obtain ⟨l', hlog', hopen⟩ := hreopened clear 0 d₂ hdown
  obtain rfl : l = l' := Option.some.inj (hlog.symm.trans hlog')
  obtain ⟨hread, hopened⟩ := hopen "" .standard {} .sound .strict 0 .sound 0
  obtain ⟨d₃, hok⟩ := hopened (by
    intro key text hmem
    cases List.mem_singleton.mp hmem
    rw [hreturned.text]
    exact Option.some_ne_none _)
  exact ⟨hbound, d₁, d₂, l, d₃, hset, hdown, hlog, hok, hread d₃ hok⟩

end Database
end FlightTrace
