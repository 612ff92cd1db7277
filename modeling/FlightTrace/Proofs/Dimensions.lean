import FlightTrace.Proofs.Buckets
import FlightTrace.Tables.Trace

/-! A table of traces, one index at a time. Each operation of a whole append is a run through the four
indexes; what one of these steps does is told by the buckets that it leaves. -/
namespace FlightTrace

/-- The indexes, in the order in which an append takes hold of its buckets. -/
inductive Dimension where
  | time
  | address
  | callsign
  | squawk
deriving DecidableEq

def Dimension.all : List Dimension := [.time, .address, .callsign, .squawk]

@[simp] theorem Dimension.mem_all (d : Dimension) : d ∈ all := by cases d <;> decide

inductive Slot where
  | time (segment : Int)
  | address (a : Address)
  | callsign (c : Callsign)
  | squawk (c : Squawk)
deriving DecidableEq

/-- The bucket of a trace in an index with segments of some width, if the trace belongs to the index. -/
def Slot.of? (width : Int) (r : Trace) : Dimension → Option Slot
  | .time => some (.time (r.time.second / width))
  | .address => some (.address r.address)
  | .callsign => r.callsign.map .callsign
  | .squawk => r.squawk.map .squawk

def Slot.dimension : Slot → Dimension
  | .time _ => .time
  | .address _ => .address
  | .callsign _ => .callsign
  | .squawk _ => .squawk

theorem Slot.dimension_of? {width : Int} {r : Trace} {d : Dimension} {s : Slot}
    (h : of? width r d = some s) : s.dimension = d := by
  cases d with
  | time => cases h; rfl
  | address => cases h; rfl
  | callsign =>
    obtain ⟨c, -, rfl⟩ := Option.map_eq_some_iff.mp h
    rfl
  | squawk =>
    obtain ⟨c, -, rfl⟩ := Option.map_eq_some_iff.mp h
    rfl

namespace AccessPath

def dimension : AccessPath → Dimension
  | time => .time
  | address _ => .address
  | callsign _ => .callsign
  | squawk _ => .squawk

def slot (width : Int) (u : Instant) : AccessPath → Slot
  | time => .time (u.second / width)
  | address a => .address a
  | callsign c => .callsign c
  | squawk c => .squawk c

theorem dimension_slot (width : Int) (u : Instant) (path : AccessPath) :
    (path.slot width u).dimension = path.dimension := by
  cases path <;> rfl

theorem matchesTrace_iff {width : Int} {r : Trace} {path : AccessPath} : path.matchesTrace r = true ↔
    Slot.of? width r path.dimension = some (path.slot width r.time) := by
  cases path <;> simp [matchesTrace, dimension, slot, Slot.of?]

end AccessPath

namespace TraceTables

def lockAt (t : TraceTables) (r : Trace) : Dimension → Except Error TraceTables
  | .time => (t.time.lock r.time t.settings.lockTimeout).map fun time => { t with time }
  | .address => (t.address.lock r.address t.settings.lockTimeout).map fun address => { t with address }
  | .callsign =>
    match r.callsign with
    | none => .ok t
    | some c => (t.callsign.lock c t.settings.lockTimeout).map fun callsign => { t with callsign }
  | .squawk =>
    match r.squawk with
    | none => .ok t
    | some c => (t.squawk.lock c t.settings.lockTimeout).map fun squawk => { t with squawk }

def putAt (t : TraceTables) (r : Trace) (key : Index.Key) : Dimension → TraceTables
  | .time => { t with time := t.time.put key }
  | .address => { t with address := t.address.put r.address key }
  | .callsign => { t with callsign := onKey (fun x c => x.put c key) t.callsign r.callsign }
  | .squawk => { t with squawk := onKey (fun x c => x.put c key) t.squawk r.squawk }

def releaseAt (t : TraceTables) (r : Trace) : Dimension → TraceTables
  | .time => { t with time := t.time.release r.time }
  | .address => { t with address := t.address.release r.address }
  | .callsign => { t with callsign := onKey Index.Keyed.release t.callsign r.callsign }
  | .squawk => { t with squawk := onKey Index.Keyed.release t.squawk r.squawk }

def pruneAt (t : TraceTables) (r : Trace) : Dimension → TraceTables
  | .time => { t with time := t.time.prune r.time }
  | .address => { t with address := t.address.prune r.address }
  | .callsign => { t with callsign := onKey Index.Keyed.prune t.callsign r.callsign }
  | .squawk => { t with squawk := onKey Index.Keyed.prune t.squawk r.squawk }

def bucketAt (t : TraceTables) : Slot → Index.Bucket
  | .time n => t.time.segments.bucket n
  | .address a => t.address.bucket a
  | .callsign c => t.callsign.bucket c
  | .squawk c => t.squawk.bucket c

def hasAt (t : TraceTables) : Slot → Bool
  | .time n => t.time.segments.has n
  | .address a => t.address.has a
  | .callsign c => t.callsign.has c
  | .squawk c => t.squawk.has c

variable {t t' : TraceTables} {r : Trace} {d : Dimension} {s : Slot}

theorem store_eq_foldl (i : RecordId) : t.store i r =
    Dimension.all.foldl (fun t d => t.putAt r ⟨r.time, i⟩ d) { t with traces := t.traces.insert i r } := rfl

theorem release_eq_foldl : t.release r = Dimension.all.foldl (fun t d => t.releaseAt r d) t := rfl

theorem prune_eq_foldl : t.prune r = Dimension.all.foldl (fun t d => t.pruneAt r d) t := rfl

theorem lock_eq_foldlM : t.lock r = Dimension.all.foldlM (fun t d => t.lockAt r d) t := by
  simp only [lock, Dimension.all, List.foldlM, lockAt]
  cases t.time.lock r.time t.settings.lockTimeout with
  | error e => rfl
  | ok time =>
    cases ha : t.address.lock r.address t.settings.lockTimeout with
    | error e => simp [ha, bind, Except.bind, Except.map]
    | ok address =>
      cases r.callsign with
      | none =>
        cases r.squawk with
        | none => simp [ha, bind, Except.bind, Except.map, pure, Except.pure]
        | some q =>
          cases hq : t.squawk.lock q t.settings.lockTimeout <;>
            simp [ha, hq, bind, Except.bind, Except.map, pure, Except.pure]
      | some c =>
        cases hc : t.callsign.lock c t.settings.lockTimeout with
        | error e => simp [ha, hc, bind, Except.bind, Except.map]
        | ok callsign =>
          cases r.squawk with
          | none => simp [ha, hc, bind, Except.bind, Except.map, pure, Except.pure]
          | some q =>
            cases hq : t.squawk.lock q t.settings.lockTimeout <;>
              simp [ha, hc, hq, bind, Except.bind, Except.map, pure, Except.pure]

/-- Nothing but the contents of the indexes changes. -/
structure Framed (t t' : TraceTables) : Prop where
  settings : t'.settings = t.settings
  watermark : t'.watermark = t.watermark
  traces : t'.traces = t.traces
  width : t'.time.width = t.time.width

theorem Framed.trans {t'' : TraceTables} (h : Framed t t') (h' : Framed t' t'') : Framed t t'' :=
  ⟨h'.settings.trans h.settings, h'.watermark.trans h.watermark, h'.traces.trans h.traces,
    h'.width.trans h.width⟩

theorem putAt_framed (key : Index.Key) : Framed t (t.putAt r key d) := by
  cases d <;> exact ⟨rfl, rfl, rfl, rfl⟩

theorem releaseAt_framed : Framed t (t.releaseAt r d) := by
  cases d <;> exact ⟨rfl, rfl, rfl, rfl⟩

theorem pruneAt_framed : Framed t (t.pruneAt r d) := by
  cases d with
  | time =>
    refine ⟨rfl, rfl, rfl, ?_⟩
    simp only [pruneAt, Index.Time.prune]
    split <;> rfl
  | address => exact ⟨rfl, rfl, rfl, rfl⟩
  | callsign => exact ⟨rfl, rfl, rfl, rfl⟩
  | squawk => exact ⟨rfl, rfl, rfl, rfl⟩

theorem Framed.refl (t : TraceTables) : Framed t t := ⟨rfl, rfl, rfl, rfl⟩

/-- What it takes to take hold of a bucket in one index, and what that does. -/
theorem lockAt_eq_ok_iff : t.lockAt r d = .ok t' ↔
    match d with
    | .time => ∃ time, t.time.lock r.time t.settings.lockTimeout = .ok time ∧ t' = { t with time }
    | .address => ∃ address, t.address.lock r.address t.settings.lockTimeout = .ok address ∧
        t' = { t with address }
    | .callsign => (r.callsign = none ∧ t' = t) ∨ ∃ c callsign, r.callsign = some c ∧
        t.callsign.lock c t.settings.lockTimeout = .ok callsign ∧ t' = { t with callsign }
    | .squawk => (r.squawk = none ∧ t' = t) ∨ ∃ c squawk, r.squawk = some c ∧
        t.squawk.lock c t.settings.lockTimeout = .ok squawk ∧ t' = { t with squawk } := by
  cases d with
  | time =>
    simp only [lockAt]
    cases t.time.lock r.time t.settings.lockTimeout <;> simp [Except.map, eq_comm]
  | address =>
    simp only [lockAt]
    cases t.address.lock r.address t.settings.lockTimeout <;> simp [Except.map, eq_comm]
  | callsign =>
    simp only [lockAt]
    cases r.callsign with
    | none => simp [eq_comm]
    | some c => cases h : t.callsign.lock c t.settings.lockTimeout <;> simp [Except.map, eq_comm, h]
  | squawk =>
    simp only [lockAt]
    cases r.squawk with
    | none => simp [eq_comm]
    | some c => cases h : t.squawk.lock c t.settings.lockTimeout <;> simp [Except.map, eq_comm, h]

theorem bucketAt_putAt {key : Index.Key} (hkey : key.time = r.time) : (t.putAt r key d).bucketAt s =
    if Slot.of? t.time.width r d = some s then
      { t.bucketAt s with keys := (t.bucketAt s).keys.insert key }
    else t.bucketAt s := by
  have hseg : t.time.segmentOf key.time = r.time.second / t.time.width := by rw [hkey]; rfl
  cases d with
  | time => cases s <;> simp [putAt, bucketAt, Slot.of?, Index.Time.put, Index.Keyed.bucket_put, hseg]
  | address => cases s <;> simp [putAt, bucketAt, Slot.of?, Index.Keyed.bucket_put]
  | callsign =>
    cases h : r.callsign <;> cases s <;>
      simp [putAt, onKey, bucketAt, Slot.of?, Index.Keyed.bucket_put, h]
  | squawk =>
    cases h : r.squawk <;> cases s <;>
      simp [putAt, onKey, bucketAt, Slot.of?, Index.Keyed.bucket_put, h]

theorem hasAt_putAt {key : Index.Key} (hkey : key.time = r.time) : (t.putAt r key d).hasAt s = true ↔
    Slot.of? t.time.width r d = some s ∨ t.hasAt s = true := by
  have hseg : t.time.segmentOf key.time = r.time.second / t.time.width := by rw [hkey]; rfl
  cases d with
  | time => cases s <;> simp [putAt, hasAt, Slot.of?, Index.Time.put, Index.Keyed.has_put, hseg]
  | address => cases s <;> simp [putAt, hasAt, Slot.of?, Index.Keyed.has_put]
  | callsign =>
    cases h : r.callsign <;> cases s <;>
      simp [putAt, onKey, hasAt, Slot.of?, Index.Keyed.has_put, h]
  | squawk =>
    cases h : r.squawk <;> cases s <;>
      simp [putAt, onKey, hasAt, Slot.of?, Index.Keyed.has_put, h]

theorem bucketAt_releaseAt : (t.releaseAt r d).bucketAt s =
    if Slot.of? t.time.width r d = some s then { t.bucketAt s with held := false } else t.bucketAt s := by
  cases d with
  | time =>
    cases s <;> simp [releaseAt, bucketAt, Slot.of?, Index.Time.release, Index.Keyed.bucket_release,
      Index.Time.segmentOf]
  | address => cases s <;> simp [releaseAt, bucketAt, Slot.of?, Index.Keyed.bucket_release]
  | callsign =>
    cases h : r.callsign <;> cases s <;>
      simp [releaseAt, onKey, bucketAt, Slot.of?, Index.Keyed.bucket_release, h]
  | squawk =>
    cases h : r.squawk <;> cases s <;>
      simp [releaseAt, onKey, bucketAt, Slot.of?, Index.Keyed.bucket_release, h]

theorem hasAt_releaseAt : (t.releaseAt r d).hasAt s = t.hasAt s := by
  cases d with
  | time => cases s <;> simp [releaseAt, hasAt, Index.Time.release, Index.Keyed.has_release]
  | address => cases s <;> simp [releaseAt, hasAt, Index.Keyed.has_release]
  | callsign =>
    cases h : r.callsign <;> cases s <;> simp [releaseAt, onKey, hasAt, Index.Keyed.has_release, h]
  | squawk =>
    cases h : r.squawk <;> cases s <;> simp [releaseAt, onKey, hasAt, Index.Keyed.has_release, h]

theorem segments_prune (x : Index.Time) (u : Instant) :
    (x.prune u).segments = x.segments.prune (x.segmentOf u) := by
  rw [Index.Time.prune]
  by_cases h : x.segments.isIdle (x.segmentOf u) = true
  · rw [if_pos h]
  · rw [if_neg h, Index.Keyed.prune, if_neg h]

theorem bucketAt_pruneAt : (t.pruneAt r d).bucketAt s = t.bucketAt s := by
  cases d with
  | time => cases s <;> simp [pruneAt, bucketAt, segments_prune, Index.Keyed.bucket_prune]
  | address => cases s <;> simp [pruneAt, bucketAt, Index.Keyed.bucket_prune]
  | callsign =>
    cases h : r.callsign <;> cases s <;> simp [pruneAt, onKey, bucketAt, Index.Keyed.bucket_prune, h]
  | squawk =>
    cases h : r.squawk <;> cases s <;> simp [pruneAt, onKey, bucketAt, Index.Keyed.bucket_prune, h]

theorem hasAt_of_held (h : (t.bucketAt s).held = true) : t.hasAt s = true := by
  by_contra hs
  have hs := Bool.eq_false_iff.mpr hs
  cases s <;> rw [bucketAt, Index.Keyed.bucket_of_not_has hs] at h <;> cases h

theorem hasAt_of_mem {k : Index.Key} (h : k ∈ (t.bucketAt s).keys) : t.hasAt s = true := by
  by_contra hs
  have hs := Bool.eq_false_iff.mpr hs
  cases s <;> rw [bucketAt, Index.Keyed.bucket_of_not_has hs] at h <;> exact OrderedSet.not_mem_empty h

def IdleAt (t : TraceTables) (s : Slot) : Prop :=
  t.hasAt s = true ∧ (t.bucketAt s).held = false ∧ (t.bucketAt s).keys = ∅

theorem hasAt_pruneAt : (t.pruneAt r d).hasAt s = true ↔
    t.hasAt s = true ∧ ¬(Slot.of? t.time.width r d = some s ∧ t.IdleAt s) := by
  simp only [IdleAt]
  cases d with
  | time =>
    cases s <;> simp [pruneAt, hasAt, bucketAt, Slot.of?, segments_prune, Index.Time.segmentOf,
      Index.Keyed.has_prune, Index.Keyed.isIdle_iff]
  | address =>
    cases s <;> simp [pruneAt, hasAt, bucketAt, Slot.of?, Index.Keyed.has_prune, Index.Keyed.isIdle_iff]
  | callsign =>
    cases h : r.callsign <;> cases s <;>
      simp [pruneAt, onKey, hasAt, bucketAt, Slot.of?, Index.Keyed.has_prune, Index.Keyed.isIdle_iff, h]
  | squawk =>
    cases h : r.squawk <;> cases s <;>
      simp [pruneAt, onKey, hasAt, bucketAt, Slot.of?, Index.Keyed.has_prune, Index.Keyed.isIdle_iff, h]

theorem exists_lockAt_iff : (∃ t', t.lockAt r d = .ok t') ↔
    ∀ s, Slot.of? t.time.width r d = some s → (t.bucketAt s).held = false := by
  simp only [lockAt_eq_ok_iff]
  cases d with
  | time =>
    simp [Index.Time.lock_eq_ok_iff, Index.Keyed.lock_eq_ok_iff, Slot.of?, bucketAt, Index.Time.segmentOf]
  | address => simp [Index.Keyed.lock_eq_ok_iff, Slot.of?, bucketAt]
  | callsign => cases h : r.callsign <;> simp [Index.Keyed.lock_eq_ok_iff, Slot.of?, bucketAt, h]
  | squawk => cases h : r.squawk <;> simp [Index.Keyed.lock_eq_ok_iff, Slot.of?, bucketAt, h]

theorem lockAt_framed (h : t.lockAt r d = .ok t') : Framed t t' := by
  have hl := lockAt_eq_ok_iff.mp h
  cases d with
  | time =>
    obtain ⟨time, hlock, rfl⟩ := hl
    obtain ⟨segments, -, rfl⟩ := Index.Time.lock_eq_ok_iff.mp hlock
    exact ⟨rfl, rfl, rfl, rfl⟩
  | address =>
    obtain ⟨address, -, rfl⟩ := hl
    exact ⟨rfl, rfl, rfl, rfl⟩
  | callsign => rcases hl with ⟨-, rfl⟩ | ⟨c, callsign, -, -, rfl⟩ <;> exact ⟨rfl, rfl, rfl, rfl⟩
  | squawk => rcases hl with ⟨-, rfl⟩ | ⟨c, squawk, -, -, rfl⟩ <;> exact ⟨rfl, rfl, rfl, rfl⟩

theorem locks_cons_iff {ds : List Dimension} : (d :: ds).foldlM (fun t d => t.lockAt r d) t = .ok t' ↔
    ∃ t₁, t.lockAt r d = .ok t₁ ∧ ds.foldlM (fun t d => t.lockAt r d) t₁ = .ok t' := by
  rw [List.foldlM_cons]
  cases t.lockAt r d with
  | error e => simp [bind, Except.bind]
  | ok t₁ => simp [bind, Except.bind]

theorem locks_framed (ds : List Dimension) (h : ds.foldlM (fun t d => t.lockAt r d) t = .ok t') :
    Framed t t' := by
  induction ds generalizing t with
  | nil =>
    cases h
    exact .refl _
  | cons d ds ih =>
    obtain ⟨t₁, hd, hds⟩ := locks_cons_iff.mp h
    exact (lockAt_framed hd).trans (ih hds)

theorem bucketAt_of_lockAt (h : t.lockAt r d = .ok t') : t'.bucketAt s =
    if Slot.of? t.time.width r d = some s then { t.bucketAt s with held := true } else t.bucketAt s := by
  have hl := lockAt_eq_ok_iff.mp h
  cases d with
  | time =>
    obtain ⟨time, hlock, rfl⟩ := hl
    obtain ⟨segments, hseg, rfl⟩ := Index.Time.lock_eq_ok_iff.mp hlock
    rw [Index.Time.segmentOf] at hseg
    cases s <;> simp [bucketAt, Slot.of?, Index.Keyed.bucket_of_lock hseg]
  | address =>
    obtain ⟨address, hlock, rfl⟩ := hl
    cases s <;> simp [bucketAt, Slot.of?, Index.Keyed.bucket_of_lock hlock]
  | callsign =>
    rcases hl with ⟨hnone, rfl⟩ | ⟨c, callsign, hsome, hlock, rfl⟩
    · simp [Slot.of?, hnone]
    · cases s <;> simp [bucketAt, Slot.of?, Index.Keyed.bucket_of_lock hlock, hsome]
  | squawk =>
    rcases hl with ⟨hnone, rfl⟩ | ⟨c, squawk, hsome, hlock, rfl⟩
    · simp [Slot.of?, hnone]
    · cases s <;> simp [bucketAt, Slot.of?, Index.Keyed.bucket_of_lock hlock, hsome]

theorem exists_locks (ds : List Dimension) (hn : ds.Nodup)
    (hfree : ∀ d ∈ ds, ∀ s, Slot.of? t.time.width r d = some s → (t.bucketAt s).held = false) :
    ∃ t', ds.foldlM (fun t d => t.lockAt r d) t = .ok t' := by
  induction ds generalizing t with
  | nil => exact ⟨t, rfl⟩
  | cons d ds ih =>
    obtain ⟨hd, hn⟩ := List.nodup_cons.mp hn
    obtain ⟨t₁, hlock⟩ := exists_lockAt_iff.mpr (hfree d List.mem_cons_self)
    obtain ⟨t', hrest⟩ := ih hn (t := t₁) (by
      intro e he s hs
      rw [(lockAt_framed hlock).width] at hs
      rw [bucketAt_of_lockAt hlock, if_neg]
      · exact hfree e (List.mem_cons_of_mem d he) s hs
      · intro hs'
        exact hd ((Slot.dimension_of? hs').symm.trans (Slot.dimension_of? hs) ▸ he))
    exact ⟨t', locks_cons_iff.mpr ⟨t₁, hlock, hrest⟩⟩

theorem hasAt_of_lockAt (h : t.lockAt r d = .ok t') : t'.hasAt s = true ↔
    Slot.of? t.time.width r d = some s ∨ t.hasAt s = true := by
  have hl := lockAt_eq_ok_iff.mp h
  cases d with
  | time =>
    obtain ⟨time, hlock, rfl⟩ := hl
    obtain ⟨segments, hseg, rfl⟩ := Index.Time.lock_eq_ok_iff.mp hlock
    cases s <;> simp [hasAt, Slot.of?, Index.Keyed.has_of_lock hseg, Index.Time.segmentOf]
  | address =>
    obtain ⟨address, hlock, rfl⟩ := hl
    cases s <;> simp [hasAt, Slot.of?, Index.Keyed.has_of_lock hlock]
  | callsign =>
    rcases hl with ⟨hnone, rfl⟩ | ⟨c, callsign, hsome, hlock, rfl⟩
    · simp [Slot.of?, hnone]
    · cases s <;> simp [hasAt, Slot.of?, Index.Keyed.has_of_lock hlock, hsome]
  | squawk =>
    rcases hl with ⟨hnone, rfl⟩ | ⟨c, squawk, hsome, hlock, rfl⟩
    · simp [Slot.of?, hnone]
    · cases s <;> simp [hasAt, Slot.of?, Index.Keyed.has_of_lock hlock, hsome]

/-- What waiting for an index is called. -/
def names (t : TraceTables) : List String :=
  [t.time.segments.name, t.address.name, t.callsign.name, t.squawk.name]

theorem names_of_lockAt (h : t.lockAt r d = .ok t') : t'.names = t.names := by
  have hl := lockAt_eq_ok_iff.mp h
  cases d with
  | time =>
    obtain ⟨time, hlock, rfl⟩ := hl
    obtain ⟨segments, hseg, rfl⟩ := Index.Time.lock_eq_ok_iff.mp hlock
    obtain ⟨-, rfl⟩ := Index.Keyed.lock_eq_ok_iff.mp hseg
    rfl
  | address =>
    obtain ⟨address, hlock, rfl⟩ := hl
    obtain ⟨-, rfl⟩ := Index.Keyed.lock_eq_ok_iff.mp hlock
    rfl
  | callsign =>
    rcases hl with ⟨-, rfl⟩ | ⟨c, callsign, -, hlock, rfl⟩
    · rfl
    · obtain ⟨-, rfl⟩ := Index.Keyed.lock_eq_ok_iff.mp hlock
      rfl
  | squawk =>
    rcases hl with ⟨-, rfl⟩ | ⟨c, squawk, -, hlock, rfl⟩
    · rfl
    · obtain ⟨-, rfl⟩ := Index.Keyed.lock_eq_ok_iff.mp hlock
      rfl

theorem names_putAt (key : Index.Key) : (t.putAt r key d).names = t.names := by
  cases d with
  | callsign => cases h : r.callsign <;> simp [putAt, onKey, names, Index.Keyed.put, h]
  | squawk => cases h : r.squawk <;> simp [putAt, onKey, names, Index.Keyed.put, h]
  | _ => rfl

theorem names_releaseAt : (t.releaseAt r d).names = t.names := by
  cases d with
  | callsign => cases h : r.callsign <;> simp [releaseAt, onKey, names, Index.Keyed.name_release, h]
  | squawk => cases h : r.squawk <;> simp [releaseAt, onKey, names, Index.Keyed.name_release, h]
  | _ => simp [releaseAt, names, Index.Time.release, Index.Keyed.name_release]

theorem names_pruneAt : (t.pruneAt r d).names = t.names := by
  cases d with
  | callsign => cases h : r.callsign <;> simp [pruneAt, onKey, names, Index.Keyed.name_prune, h]
  | squawk => cases h : r.squawk <;> simp [pruneAt, onKey, names, Index.Keyed.name_prune, h]
  | _ => simp [pruneAt, names, segments_prune, Index.Keyed.name_prune]

/-- The directory of the index by time names the segments that exist. -/
def Listed (t : TraceTables) : Prop := ∀ n, n ∈ t.time.directory ↔ t.hasAt (.time n) = true

theorem lockAt_listed (h : t.lockAt r d = .ok t') (hl : t.Listed) : t'.Listed := by
  have hlock := lockAt_eq_ok_iff.mp h
  cases d with
  | time =>
    obtain ⟨time, hlock, rfl⟩ := hlock
    exact Index.Time.listed_lock hl hlock
  | address =>
    obtain ⟨address, -, rfl⟩ := hlock
    exact hl
  | callsign => rcases hlock with ⟨-, rfl⟩ | ⟨c, callsign, -, -, rfl⟩ <;> exact hl
  | squawk => rcases hlock with ⟨-, rfl⟩ | ⟨c, squawk, -, -, rfl⟩ <;> exact hl

theorem putAt_listed {key : Index.Key} (hkey : key.time = r.time)
    (h : ∀ s, Slot.of? t.time.width r d = some s → t.hasAt s = true) (hl : t.Listed) :
    (t.putAt r key d).Listed := by
  intro n
  rw [hasAt_putAt hkey]
  have hdir : (t.putAt r key d).time.directory = t.time.directory := by cases d <;> rfl
  rw [hdir, hl n]
  exact ⟨.inr, fun hn => hn.elim (h _) id⟩

theorem releaseAt_listed (hl : t.Listed) : (t.releaseAt r d).Listed := by
  intro n
  have hdir : (t.releaseAt r d).time.directory = t.time.directory := by cases d <;> rfl
  rw [hdir, hl n, hasAt_releaseAt]

theorem pruneAt_listed (hl : t.Listed) : (t.pruneAt r d).Listed := by
  cases d with
  | time => exact Index.Time.listed_prune hl r.time
  | _ => exact hl

/-! To take hold of some buckets, let go of them and prune all buckets of the trace is to prune them: each
index can be looked at alone, for a step in one leaves the others as they are. -/

theorem pruneAt_releaseAt_of_lockAt (h : t.lockAt r d = .ok t') (hl : t.Listed) :
    (t'.releaseAt r d).pruneAt r d = t.pruneAt r d := by
  have hlock := lockAt_eq_ok_iff.mp h
  cases d with
  | time =>
    obtain ⟨time, hlock, rfl⟩ := hlock
    simp only [releaseAt, pruneAt]
    rw [Index.Time.prune_release_of_lock hlock (hl _)]
  | address =>
    obtain ⟨address, hlock, rfl⟩ := hlock
    simp only [releaseAt, pruneAt]
    rw [Index.Keyed.prune_release_of_lock hlock]
  | callsign =>
    rcases hlock with ⟨hnone, rfl⟩ | ⟨c, callsign, hsome, hlock, rfl⟩
    · simp only [releaseAt, pruneAt, hnone, onKey]
    · simp only [releaseAt, pruneAt, hsome, onKey]
      rw [Index.Keyed.prune_release_of_lock hlock]
  | squawk =>
    rcases hlock with ⟨hnone, rfl⟩ | ⟨c, squawk, hsome, hlock, rfl⟩
    · simp only [releaseAt, pruneAt, hnone, onKey]
    · simp only [releaseAt, pruneAt, hsome, onKey]
      rw [Index.Keyed.prune_release_of_lock hlock]

theorem prune_eq_of_pruneAt (h : t.pruneAt r d = t'.pruneAt r d) : t.prune r = t'.prune r := by
  have hrest (t : TraceTables) :
      t.prune r = (Dimension.all.filter (· ≠ d)).foldl (fun t d => t.pruneAt r d) (t.pruneAt r d) := by
    cases d <;> rfl
  rw [hrest, hrest t', h]

theorem lockAt_releaseAt {e : Dimension} (hne : d ≠ e) :
    (t.releaseAt r e).lockAt r d = (t.lockAt r d).map fun t => t.releaseAt r e := by
  have hmap {α β : Type} (x : Except Error α) (f : α → β) (g : β → β) :
      (x.map f).map g = x.map (g ∘ f) := by cases x <;> rfl
  cases d with
  | time =>
    rw [lockAt, lockAt, hmap]
    cases e <;> first | exact absurd rfl hne | rfl
  | address =>
    rw [lockAt, lockAt, hmap]
    cases e <;> first | exact absurd rfl hne | rfl
  | callsign =>
    rw [lockAt, lockAt]
    cases r.callsign with
    | none => rfl
    | some c =>
      simp only [hmap]
      cases e <;> first | exact absurd rfl hne | rfl
  | squawk =>
    rw [lockAt, lockAt]
    cases r.squawk with
    | none => rfl
    | some c =>
      simp only [hmap]
      cases e <;> first | exact absurd rfl hne | rfl

theorem start_eq_ok_iff {i : RecordId} : t.start r = .ok (i, t') ↔
    ∃ t₁, Dimension.all.foldlM (fun t d => t.lockAt r d) t = .ok t₁ ∧ t₁.reserve? = some (i, t') := by
  rw [start, lock_eq_foldlM]
  cases hlock : Dimension.all.foldlM (fun t d => t.lockAt r d) t with
  | error e => simp [bind, Except.bind]
  | ok t₁ =>
    cases hreserve : t₁.reserve? with
    | none => simp [bind, Except.bind, hreserve, throw, throwThe, MonadExceptOf.throw]
    | some p => simp [bind, Except.bind, hreserve, pure, Except.pure]

/-- What an append comes to whose hook leaves the tables alone. -/
theorem appendWith_cases {κ σ : Type} {hook : Hook κ σ} {x : Except (Failure κ) RecordId} {y y' : σ}
    (h : t.appendWith hook.beside r y = (x, y', t')) :
    (∃ e, t.start r = .error e ∧ x = .error (.error e) ∧ y' = y ∧ t' = t.prune r) ∨
    ∃ i t₁, t.start r = .ok (i, t₁) ∧
      ((hook y = (.ok (), y') ∧ x = .ok i ∧ t' = t₁.commit i r) ∨
      (∃ e, hook y = (.error (.error e), y') ∧ x = .error (.error e) ∧ t' = t₁.abandon i r) ∨
      ∃ k, hook y = (.error (.crash k), y') ∧ x = .error (.crash k) ∧ t' = t₁.unwind i r) := by
  rw [appendWith] at h
  cases hstart : t.start r with
  | error e =>
    rw [hstart] at h
    cases h
    exact .inl ⟨e, rfl, rfl, rfl, rfl⟩
  | ok p =>
    obtain ⟨i, t₁⟩ := p
    rw [hstart] at h
    simp only [Hook.beside] at h
    refine .inr ⟨i, t₁, rfl, ?_⟩
    rcases hhook : hook y with ⟨(e | k) | _, y₁⟩
    · rw [hhook] at h
      cases h
      exact .inr (.inl ⟨e, rfl, rfl, rfl⟩)
    · rw [hhook] at h
      cases h
      exact .inr (.inr ⟨k, rfl, rfl, rfl⟩)
    · rw [hhook] at h
      cases h
      exact .inl ⟨rfl, rfl, rfl⟩

theorem reserve?_eq_some_iff {i : RecordId} : t.reserve? = some (i, t') ↔
    ∃ w, t.watermark.reserve? = some (i, w) ∧ t' = { t with watermark := w } := by
  rw [reserve?, Option.map_eq_some_iff]
  constructor
  · rintro ⟨⟨j, w⟩, hw, hp⟩
    obtain ⟨rfl, rfl⟩ := Prod.mk.inj hp
    exact ⟨w, hw, rfl⟩
  · rintro ⟨w, hw, rfl⟩
    exact ⟨(i, w), hw, rfl⟩

/-- A bucket that is let go before others are taken is let go after them too. -/
theorem locks_releaseAt (held : List Dimension) (hd : d ∉ held)
    (h : held.foldlM (fun t d => t.lockAt r d) t = .ok t') :
    held.foldlM (fun t d => t.lockAt r d) (t.releaseAt r d) = .ok (t'.releaseAt r d) := by
  induction held generalizing t with
  | nil =>
    cases h
    rfl
  | cons e held ih =>
    obtain ⟨hde, hd⟩ := List.ne_and_not_mem_of_not_mem_cons hd
    obtain ⟨t₁, he, hheld⟩ := locks_cons_iff.mp h
    refine locks_cons_iff.mpr ⟨t₁.releaseAt r d, ?_, ih hd hheld⟩
    rw [lockAt_releaseAt (Ne.symm hde), he]
    rfl

theorem prune_release_of_locks (held : List Dimension) (hn : held.Nodup)
    (h : held.foldlM (fun t d => t.lockAt r d) t = .ok t') (hl : t.Listed) :
    (held.foldl (fun t d => t.releaseAt r d) t').prune r = t.prune r := by
  induction held generalizing t t' with
  | nil =>
    cases h
    rfl
  | cons d held ih =>
    obtain ⟨hd, hn⟩ := List.nodup_cons.mp hn
    obtain ⟨t₁, hlock, hheld⟩ := locks_cons_iff.mp h
    have hlisted : (t₁.releaseAt r d).Listed := releaseAt_listed (lockAt_listed hlock hl)
    rw [List.foldl_cons, ih hn (locks_releaseAt held hd hheld) hlisted]
    exact prune_eq_of_pruneAt (pruneAt_releaseAt_of_lockAt hlock hl)

theorem hasAt_prune : (t.prune r).hasAt s = true ↔
    t.hasAt s = true ∧ ¬((∃ d, Slot.of? t.time.width r d = some s) ∧ t.IdleAt s) := by
  have key (ds : List Dimension) (t : TraceTables) : (ds.foldl (fun t d => t.pruneAt r d) t).hasAt s = true ↔
      t.hasAt s = true ∧ ¬((∃ d ∈ ds, Slot.of? t.time.width r d = some s) ∧ t.IdleAt s) := by
    induction ds generalizing t with
    | nil => simp
    | cons d ds ih =>
      rw [List.foldl_cons, ih, pruneAt_framed.width]
      simp only [IdleAt, hasAt_pruneAt, bucketAt_pruneAt, List.mem_cons, exists_eq_or_imp]
      by_cases hd : Slot.of? t.time.width r d = some s
      · simp only [hd, true_and, true_or]
        tauto
      · simp only [hd, false_and, not_false_eq_true, and_true, false_or]
  rw [prune_eq_foldl, key]
  simp

/-- The keys that can be found on a path, in ascending order. -/
def keysOn (t : TraceTables) : AccessPath → List Index.Key
  | .time => t.time.keys
  | .address a => (t.address.bucket a).keys.toList
  | .callsign c => (t.callsign.bucket c).keys.toList
  | .squawk c => (t.squawk.bucket c).keys.toList

def scanned (t : TraceTables) (range : TimeRange) (path : AccessPath) : List Slot :=
  if range.isEmpty then []
  else
    match path with
    | .time => (t.time.directory.toList.filter (t.time.reaches range)).map .time
    | .address a => [.address a]
    | .callsign c => [.callsign c]
    | .squawk c => [.squawk c]

variable {path : AccessPath} {range : TimeRange}

theorem keysOn_ascending (hs : t.time.Sound) (path : AccessPath) :
    (t.keysOn path).Pairwise fun a b => compare a b = .lt := by
  cases path with
  | time => exact Index.Time.keys_ascending hs
  | address a => exact (t.address.bucket a).keys.ascending
  | callsign c => exact (t.callsign.bucket c).keys.ascending
  | squawk c => exact (t.squawk.bucket c).keys.ascending

theorem mem_keysOn_iff (hs : t.time.Sound) {k : Index.Key} :
    k ∈ t.keysOn path ↔ k ∈ (t.bucketAt (path.slot t.time.width k.time)).keys := by
  cases path with
  | time => exact Index.Time.mem_keys_iff hs
  | _ => exact Iff.rfl

/-- A scan whose buckets nobody holds examines the keys on its path in its range. -/
theorem scan_eq (hs : t.time.Sound) (hfree : ∀ s ∈ t.scanned range path, (t.bucketAt s).held = false)
    (s : Index.Scan) (p : Index.Scan.Progress) : t.scan s range p path =
      ((t.keysOn path).filter fun k => range.contains k.time).foldl s.examine p := by
  cases path with
  | time =>
    refine Index.Time.scan_eq hs (fun he n hn hr => hfree (.time n) ?_) s p
    simp only [scanned, he, Bool.false_eq_true, if_false, List.mem_map, List.mem_filter]
    exact ⟨n, ⟨hn, hr⟩, rfl⟩
  | address a => exact Index.Keyed.scan_eq (fun he => hfree (.address a) (by simp [scanned, he])) s p
  | callsign c => exact Index.Keyed.scan_eq (fun he => hfree (.callsign c) (by simp [scanned, he])) s p
  | squawk c => exact Index.Keyed.scan_eq (fun he => hfree (.squawk c) (by simp [scanned, he])) s p

end TraceTables
end FlightTrace
