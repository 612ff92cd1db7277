import FlightTrace.Proofs.TraceContents
import FlightTrace.Search

/-! Searches by several keys. All lookups of a search share one scan, so what they find together are the traces
that can be seen and carry one of the keys, each of them once, in the order of time and arrival. A search meets
a held bucket just if one of its lookups does, and then it fails as that lookup does. -/
namespace FlightTrace

namespace SearchQuery

/-- Whether a search asks for a trace, wherever its time lies. One without keys asks for all. -/
def seeks (q : SearchQuery) (r : Trace) : Bool :=
  !q.hasKeys || (decide (r.address ∈ q.addresses) || r.callsign.any (· ∈ q.callsigns) ||
    r.squawk.any (· ∈ q.squawks))

/-- Two searches ask for the same keys in the same range, in any order and however often. -/
structure SameKeys (q q' : SearchQuery) : Prop where
  range : q'.range = q.range
  addresses : ∀ a, a ∈ q'.addresses ↔ a ∈ q.addresses
  callsigns : ∀ c, c ∈ q'.callsigns ↔ c ∈ q.callsigns
  squawks : ∀ c, c ∈ q'.squawks ↔ c ∈ q.squawks

theorem exists_path_iff {q : SearchQuery} {r : Trace} :
    (∃ path ∈ q.paths, path.matchesTrace r = true) ↔ q.seeks r = true := by
  rw [paths, seeks]
  cases hk : q.hasKeys with
  | false => simp [AccessPath.matchesTrace]
  | true =>
    have haddress : (∃ path ∈ q.addresses.map AccessPath.address, path.matchesTrace r = true) ↔
        r.address ∈ q.addresses := by
      simp [AccessPath.matchesTrace]
    have hcallsign : (∃ path ∈ q.callsigns.map AccessPath.callsign, path.matchesTrace r = true) ↔
        r.callsign.any (· ∈ q.callsigns) = true := by
      cases hc : r.callsign <;> simp [AccessPath.matchesTrace, hc]
    have hsquawk : (∃ path ∈ q.squawks.map AccessPath.squawk, path.matchesTrace r = true) ↔
        r.squawk.any (· ∈ q.squawks) = true := by
      cases hc : r.squawk <;> simp [AccessPath.matchesTrace, hc]
    simp only [if_true, List.mem_append, or_and_right, exists_or, haddress, hcallsign, hsquawk, Bool.not_true,
      Bool.false_or, Bool.or_eq_true, decide_eq_true_eq]

end SearchQuery

/-- What a search is to give for the traces that were appended: those that lie in its range and are asked for,
sorted by time, with those of one time in the order of arrival. -/
def Trace.sought (rs : List Trace) (q : SearchQuery) : List Trace :=
  (rs.filter fun r => q.seeks r && q.range.contains r.time).mergeSort (Ordered.leOn Trace.time)

/-! Where scans stop. A scan that stops elsewhere than at a bucket that is held was found cancelled. -/

namespace Index

variable {s : Scan} {range : TimeRange} {p : Scan.Progress}

theorem Keyed.scan_stopped {κ : Type} [Ord κ] (x : Keyed κ) (k : κ) (hp : p.stop.isSome = true) :
    x.scan s k range p = p := by
  obtain ⟨e, he⟩ := Option.isSome_iff_exists.mp hp
  rw [scan_eq_bucket, he]

theorem Keyed.stop_of_held {κ : Type} [Ord κ] {x : Keyed κ} {k : κ} (hp : p.stop = none)
    (hr : range.isEmpty = false) (hk : (x.bucket k).held = true) :
    (x.scan s k range p).stop = some (.timeout x.name s.lockTimeout) := by
  rw [scan_eq_bucket, hp, KeyRange.ofTimeRange?_of_not_isEmpty hr]
  exact congrArg Scan.Progress.stop (if_pos hk)

theorem Time.scan_stopped (x : Time) (hp : p.stop.isSome = true) : x.scan s range p = p := by
  rw [scan]
  split
  · rfl
  · exact List.foldl_fixed' (fun n => x.segments.scan_stopped n hp) _

theorem Time.stop_of_held {x : Time} (hp : p.stop = none) (hr : range.isEmpty = false)
    (hheld : ∃ n ∈ x.directory.toList.filter (x.reaches range), (x.segments.bucket n).held = true) :
    ∃ e, (x.scan s range p).stop = some e ∧
      ((∀ n, s.cancelled n = false) → e = .timeout x.segments.name s.lockTimeout) := by
  have hkeep (ns : List Int) {p : Scan.Progress} {e : Error} (hp : p.stop = some e) :
      (ns.foldl (fun p n => x.segments.scan s n range p) p).stop = some e := by
    rw [List.foldl_fixed' fun n => x.segments.scan_stopped n (by rw [hp]; rfl), hp]
  have key : ∀ (ns : List Int) (p : Scan.Progress), p.stop = none →
      (∃ n ∈ ns, (x.segments.bucket n).held = true) →
      ∃ e, (ns.foldl (fun p n => x.segments.scan s n range p) p).stop = some e ∧
        ((∀ n, s.cancelled n = false) → e = .timeout x.segments.name s.lockTimeout) := by
    intro ns
    induction ns with
    | nil => exact fun _ _ ⟨_, hn, _⟩ => absurd hn List.not_mem_nil
    | cons n ns ih =>
      intro p hp hheld
      rw [List.foldl_cons]
      cases hn : (x.segments.bucket n).held with
      | true => exact ⟨_, hkeep ns (Keyed.stop_of_held hp hr hn), fun _ => rfl⟩
      | false =>
        obtain ⟨m, hm, hmheld⟩ := hheld
        have hmem : m ∈ ns := by
          refine (List.mem_cons.mp hm).resolve_left ?_
          rintro rfl
          rw [hn] at hmheld
          cases hmheld
        rw [Keyed.scan_eq fun _ => hn]
        rcases s.foldl_examine ((x.segments.bucket n).keys.toList.filter fun key => range.contains key.time) hp
          with ⟨hi, hstop⟩ | ⟨-, hall⟩
        · exact ⟨_, hkeep ns hstop, fun hnever => absurd hi (s.not_interrupted hnever _ _)⟩
        · rw [hall]
          exact ih _ rfl ⟨m, hmem, hmheld⟩
  rw [scan, hr, if_neg Bool.false_ne_true]
  exact key _ p hp hheld

end Index

namespace TraceTables

def indexName (t : TraceTables) : AccessPath → String
  | .time => t.time.segments.name
  | .address _ => t.address.name
  | .callsign _ => t.callsign.name
  | .squawk _ => t.squawk.name

def blocked (t : TraceTables) (range : TimeRange) (path : AccessPath) : Bool :=
  (t.scanned range path).any fun s => (t.bucketAt s).held

def keysBelow (t : TraceTables) (mark : Nat) (range : TimeRange) (path : AccessPath) : List Index.Key :=
  ((t.keysOn path).filter fun k => range.contains k.time).filter fun k => k.id.val < mark

variable {t : TraceTables} {s : Index.Scan} {range : TimeRange} {p : Index.Scan.Progress} {path : AccessPath}

theorem stop_of_blocked (hp : p.stop = none) (hb : t.blocked range path = true) :
    ∃ e, (t.scan s range p path).stop = some e ∧
      ((∀ n, s.cancelled n = false) → e = .timeout (t.indexName path) s.lockTimeout) := by
  have hr : range.isEmpty = false := by
    by_contra hr
    simp only [blocked, scanned, eq_true_of_ne_false hr, if_true, List.any_nil] at hb
    cases hb
  simp only [blocked, scanned, hr, Bool.false_eq_true, if_false] at hb
  cases path with
  | time =>
    refine Index.Time.stop_of_held hp hr ?_
    simpa [bucketAt, and_assoc] using hb
  | address a => exact ⟨_, Index.Keyed.stop_of_held hp hr (by simpa [bucketAt] using hb), fun _ => rfl⟩
  | callsign c => exact ⟨_, Index.Keyed.stop_of_held hp hr (by simpa [bucketAt] using hb), fun _ => rfl⟩
  | squawk c => exact ⟨_, Index.Keyed.stop_of_held hp hr (by simpa [bucketAt] using hb), fun _ => rfl⟩

theorem scan_stopped (t : TraceTables) (path : AccessPath) (hp : p.stop.isSome = true) :
    t.scan s range p path = p := by
  cases path with
  | time => exact t.time.scan_stopped hp
  | address a => exact t.address.scan_stopped a hp
  | callsign c => exact t.callsign.scan_stopped c hp
  | squawk c => exact t.squawk.scan_stopped c hp

theorem blocked_eq_false_iff :
    t.blocked range path = false ↔ ∀ slot ∈ t.scanned range path, (t.bucketAt slot).held = false := by
  simp [blocked]

theorem found_of_not_stopped (hs : t.time.Sound) (hp : p.stop = none) (hstop : (t.scan s range p path).stop = none) :
    (t.scan s range p path).found = p.found ++ t.keysBelow s.watermark range path := by
  have hb : t.blocked range path = false := by
    by_contra hb
    obtain ⟨e, he, -⟩ := stop_of_blocked (s := s) hp (eq_true_of_ne_false hb)
    rw [he] at hstop
    cases hstop
  rw [scan_eq hs (blocked_eq_false_iff.mp hb)] at hstop ⊢
  rcases s.foldl_examine ((t.keysOn path).filter fun k => range.contains k.time) hp with ⟨-, hc⟩ | ⟨-, hall⟩
  · rw [hc] at hstop
    cases hstop
  · rw [hall]
    rfl

theorem not_stopped_of_not_blocked (hs : t.time.Sound) (hnever : ∀ n, s.cancelled n = false) (hp : p.stop = none)
    (hb : t.blocked range path = false) : (t.scan s range p path).stop = none := by
  rw [scan_eq hs (blocked_eq_false_iff.mp hb), Index.Scan.foldl_examine_free hnever hp]

/-- Lookups one after the other, with what the first that is blocked fails with. -/
theorem foldl_scan (hs : t.time.Sound) (hnever : ∀ n, s.cancelled n = false) (hp : p.stop = none)
    (range : TimeRange) (paths : List AccessPath) :
    let p' := paths.foldl (fun p path => t.scan s range p path) p
    p'.stop = (paths.find? (t.blocked range)).map (fun path => .timeout (t.indexName path) s.lockTimeout) ∧
      (p'.stop = none → p'.found = p.found ++ paths.flatMap (t.keysBelow s.watermark range)) := by
  induction paths generalizing p with
  | nil => exact ⟨hp, fun _ => (List.append_nil p.found).symm⟩
  | cons path paths ih =>
    intro p'
    cases hb : t.blocked range path with
    | true =>
      obtain ⟨e, hstop, he⟩ := stop_of_blocked (s := s) hp hb
      obtain rfl := he hnever
      have hp' : p' = t.scan s range p path :=
        List.foldl_fixed' (fun path => t.scan_stopped path (by rw [hstop]; rfl)) paths
      rw [hp', hstop, List.find?_cons_of_pos hb]
      exact ⟨rfl, fun h => absurd h (Option.some_ne_none _)⟩
    | false =>
      have hstop := not_stopped_of_not_blocked hs hnever hp hb
      have hfound := found_of_not_stopped hs hp hstop
      obtain ⟨hstop', hfound'⟩ := ih hstop
      rw [List.find?_cons_of_neg (by simp [hb]), List.flatMap_cons, ← List.append_assoc, ← hfound]
      exact ⟨hstop', hfound'⟩

/-- A search that is not cancelled fails as its first blocked lookup does, or finds what all of them find. -/
theorem search_eq (hs : t.time.Sound) (q : SearchQuery) : t.search q (fun _ => false) =
    match (q.paths.find? (t.blocked q.range)).map t.indexName with
    | some name => .error (.timeout name t.settings.lockTimeout)
    | none => .ok (t.resolve (OrderedSet.ofList
        (q.paths.flatMap (t.keysBelow t.watermark.visible q.range))).toList) := by
  obtain ⟨hstop, hfound⟩ := foldl_scan (s := t.beginScan fun _ => false) (p := {}) hs (fun _ => rfl) rfl
    q.range q.paths
  rw [search, if_neg Bool.false_ne_true]
  cases hb : q.paths.find? (t.blocked q.range) with
  | some path =>
    rw [hb] at hstop
    simp only [hstop, Option.map_some]
    rfl
  | none =>
    rw [hb] at hstop
    simp only [hstop, Option.map_none, hfound hstop, List.nil_append]
    rfl

theorem first_of_name {l : List AccessPath} {f : AccessPath → Bool} {name : String}
    (hname : ∀ path ∈ l, t.indexName path = name) :
    (l.find? f).map t.indexName = if l.any f then some name else none := by
  have hany : l.any f = (l.find? f).isSome := List.isSome_find?.symm
  rw [hany]
  cases hl : l.find? f with
  | none => rfl
  | some path => exact congrArg some (hname path (List.mem_of_find?_eq_some hl))

end TraceTables

namespace SearchQuery.SameKeys

variable {q q' : SearchQuery} (h : q.SameKeys q')
include h

theorem hasKeys_eq : q'.hasKeys = q.hasKeys := by
  have hempty {α : Type} {l l' : List α} (hl : ∀ a, a ∈ l' ↔ a ∈ l) : l'.isEmpty = l.isEmpty := by
    rw [Bool.eq_iff_iff, List.isEmpty_iff, List.isEmpty_iff, List.eq_nil_iff_forall_not_mem,
      List.eq_nil_iff_forall_not_mem]
    exact forall_congr' fun a => not_congr (hl a)
  rw [hasKeys, hasKeys, hempty h.addresses, hempty h.callsigns, hempty h.squawks]

theorem mem_paths_iff (path : AccessPath) : path ∈ q'.paths ↔ path ∈ q.paths := by
  rw [paths, paths, h.hasKeys_eq]
  split
  · simp only [List.mem_append, List.mem_map, h.addresses, h.callsigns, h.squawks]
  · rfl

/-- The index of the first blocked lookup is known by which lookups there are. -/
theorem stop_eq (t : TraceTables) (f : AccessPath → Bool) :
    (q'.paths.find? f).map t.indexName = (q.paths.find? f).map t.indexName := by
  have hmap {α : Type} (g : α → AccessPath) (name : String) (hname : ∀ a, t.indexName (g a) = name) {l l' : List α}
      (hl : ∀ a, a ∈ l' ↔ a ∈ l) : ((l'.map g).find? f).map t.indexName = ((l.map g).find? f).map t.indexName := by
    have hall (l : List α) : ∀ path ∈ l.map g, t.indexName path = name := by
      intro path hpath
      obtain ⟨a, -, rfl⟩ := List.mem_map.mp hpath
      exact hname a
    have hany : (l'.map g).any f = (l.map g).any f := by
      rw [Bool.eq_iff_iff, List.any_eq_true, List.any_eq_true]
      simp only [List.mem_map, hl]
    rw [TraceTables.first_of_name (hall l'), TraceTables.first_of_name (hall l), hany]
  rw [paths, paths, h.hasKeys_eq]
  cases q.hasKeys
  · rfl
  · simp only [if_true, List.find?_append, Option.map_or, hmap AccessPath.address _ (fun _ => rfl) h.addresses,
      hmap AccessPath.callsign _ (fun _ => rfl) h.callsigns, hmap AccessPath.squawk _ (fun _ => rfl) h.squawks]

theorem search_eq {t : TraceTables} (hs : t.time.Sound) :
    t.search q' (fun _ => false) = t.search q (fun _ => false) := by
  have hkeys : OrderedSet.ofList (q'.paths.flatMap (t.keysBelow t.watermark.visible q.range)) =
      OrderedSet.ofList (q.paths.flatMap (t.keysBelow t.watermark.visible q.range)) := by
    refine OrderedSet.ext fun k => ?_
    simp only [OrderedSet.mem_ofList, List.mem_flatMap, h.mem_paths_iff]
  rw [t.search_eq hs, t.search_eq hs, h.range, hkeys, h.stop_eq t]

end SearchQuery.SameKeys

namespace TraceTables

theorem keysBelow_ascending {t : TraceTables} (hs : t.time.Sound) (mark : Nat) (range : TimeRange)
    (path : AccessPath) : (t.keysBelow mark range path).Pairwise fun a b => compare a b = .lt :=
  ((keysOn_ascending hs path).filter _).filter _

theorem search_of_paths {t : TraceTables} (hs : t.time.Sound) {q : SearchQuery} {path : AccessPath}
    (hq : q.paths = [path]) (cancelled : Nat → Bool) :
    t.search q cancelled = t.query path q.range cancelled := by
  rw [search, query, hq]
  split
  · rfl
  · simp only [List.foldl_cons, List.foldl_nil]
    cases hstop : (t.scan (t.beginScan cancelled) q.range {} path).stop with
    | some e => rfl
    | none =>
      have hfound : (t.scan (t.beginScan cancelled) q.range {} path).found = t.keysBelow _ q.range path :=
        found_of_not_stopped hs rfl hstop
      rw [hfound, OrderedSet.toList_ofList (keysBelow_ascending hs _ _ _)]

end TraceTables

namespace Interleaving

def keyOf (p : RecordId × Trace) : Index.Key := ⟨p.2.time, p.1⟩

namespace State

def shown (σ : State) : List (RecordId × Trace) :=
  σ.committed.filter fun p => p.1.val < σ.tables.watermark.visible

/-- What a search is to find: the traces that can be seen, lie in its range and are asked for, in the order of
time and arrival. -/
def sought (σ : State) (q : SearchQuery) : List (RecordId × Trace) :=
  (σ.shown.filter fun p => q.seeks p.2 && q.range.contains p.2.time).mergeSort (Ordered.leOn keyOf)

variable {σ : State} {i : RecordId} {r : Trace} {q : SearchQuery}

theorem mem_sought {p : RecordId × Trace} :
    p ∈ σ.sought q ↔ p ∈ σ.shown ∧ q.seeks p.2 = true ∧ q.range.contains p.2.time = true := by
  rw [sought, List.mem_mergeSort, List.mem_filter, Bool.and_eq_true]

namespace Sound

variable (h : σ.Sound)
include h

theorem get?_of_mem_shown (hp : (i, r) ∈ σ.shown) : σ.tables.traces.get? i = some r :=
  (h.stored_of_committed (mem_committed.mp (List.mem_filter.mp hp).1)).1

theorem mem_shown_iff : (i, r) ∈ σ.shown ↔ σ.tables.get? i = some r := by
  rw [TraceTables.get?, Watermark.isVisible]
  constructor
  · intro hp
    rw [if_pos (List.mem_filter.mp hp).2, h.get?_of_mem_shown hp]
  · intro hr
    split at hr
    · rename_i hi
      refine List.mem_filter.mpr ⟨?_, hi⟩
      obtain ⟨r', hc | ⟨held, left, hu⟩⟩ := h.exists_of_lt_visible (of_decide_eq_true hi)
      · obtain rfl : r' = r := Option.some.inj ((h.stored_of_committed hc).1.symm.trans hr)
        exact mem_committed.mpr hc
      · rw [(h.absent_of_undoing hu).1] at hr
        cases hr
    · cases hr

theorem shown_distinct : σ.shown.Pairwise fun p p' => p.1 ≠ p'.1 := h.committed_pairwise.filter _

theorem sought_ascending (q : SearchQuery) :
    (σ.sought q).Pairwise fun p p' => compare (keyOf p) (keyOf p') = .lt := by
  have hnodup : ((σ.shown.filter fun p => q.seeks p.2 && q.range.contains p.2.time).map keyOf).Nodup := by
    refine List.pairwise_map.mpr ((h.shown_distinct.filter _).imp fun hne heq => hne ?_)
    exact congrArg Index.Key.id heq
  have hsort : (σ.sought q).map keyOf =
      ((σ.shown.filter fun p => q.seeks p.2 && q.range.contains p.2.time).map keyOf).mergeSort (Ordered.leOn id) :=
    Ordered.map_mergeSort id keyOf _
  rw [← List.pairwise_map (f := keyOf) (R := fun a b => compare a b = .lt), hsort]
  exact Ordered.mergeSort_ascending hnodup

/-- The lookups of a search together find the keys of what it is to find. -/
theorem found_eq (q : SearchQuery) : (OrderedSet.ofList (q.paths.flatMap
    (σ.tables.keysBelow σ.tables.watermark.visible q.range))).toList = (σ.sought q).map keyOf := by
  refine Ordered.eq_of_ascending_compare (OrderedSet.ascending _)
    (List.pairwise_map.mpr (h.sought_ascending q)) fun k => OrderedSet.mem_ofList.trans ?_
  have hkeys (path : AccessPath) : σ.tables.keysBelow σ.tables.watermark.visible q.range path =
      σ.snapshot q.range path := Run.filter_keysOn .refl h q.range path
  simp only [List.mem_flatMap, hkeys, mem_snapshot, List.mem_map, mem_sought]
  constructor
  · rintro ⟨path, hpath, r, hc, hlt, hm, hr, ht⟩
    refine ⟨(k.id, r), ⟨List.mem_filter.mpr ⟨hc, decide_eq_true hlt⟩, ?_, ht ▸ hr⟩, by rw [keyOf, ht]⟩
    exact SearchQuery.exists_path_iff.mp ⟨path, hpath, hm⟩
  · rintro ⟨⟨i, r⟩, ⟨hp, hs, hr⟩, rfl⟩
    obtain ⟨hc, hlt⟩ := List.mem_filter.mp hp
    obtain ⟨path, hpath, hm⟩ := SearchQuery.exists_path_iff.mpr hs
    exact ⟨path, hpath, r, hc, of_decide_eq_true hlt, hm, hr, rfl⟩

theorem resolve_sought (q : SearchQuery) :
    σ.tables.resolve ((σ.sought q).map keyOf) = (σ.sought q).map (·.2) := by
  rw [TraceTables.resolve, List.filterMap_map, ← List.filterMap_eq_map]
  exact List.filterMap_congr fun p hp => h.get?_of_mem_shown (mem_sought.mp hp).1

/-- A search that is not cancelled finds what it is to find, unless one of its lookups is blocked. -/
theorem search_eq (q : SearchQuery) : σ.tables.search q (fun _ => false) =
    match (q.paths.find? (σ.tables.blocked q.range)).map σ.tables.indexName with
    | some name => .error (.timeout name σ.tables.settings.lockTimeout)
    | none => .ok ((σ.sought q).map (·.2)) := by
  rw [σ.tables.search_eq h.time_sound, h.found_eq, h.resolve_sought]

theorem search_of_free (hfree : ∀ path ∈ q.paths, σ.tables.blocked q.range path = false) :
    σ.tables.search q (fun _ => false) = .ok ((σ.sought q).map (·.2)) := by
  have hnone : q.paths.find? (σ.tables.blocked q.range) = none := by simpa using hfree
  rw [h.search_eq, hnone]
  rfl

theorem search_of_blocked {path : AccessPath} (hpath : path ∈ q.paths)
    (hb : σ.tables.blocked q.range path = true) : ∃ path' ∈ q.paths, σ.tables.blocked q.range path' = true ∧
      σ.tables.search q (fun _ => false) =
        .error (.timeout (σ.tables.indexName path') σ.tables.settings.lockTimeout) := by
  obtain ⟨path', hfirst⟩ := Option.isSome_iff_exists.mp (List.find?_isSome.mpr ⟨path, hpath, hb⟩)
  refine ⟨path', List.mem_of_find?_eq_some hfirst, List.find?_some hfirst, ?_⟩
  rw [h.search_eq, hfirst]
  rfl

end Sound

theorem Settled.shown_eq (h : σ.Settled) : σ.shown = σ.committed :=
  List.filter_eq_self.mpr fun _ hp => decide_eq_true (h.arranged.lt_visible hp)

theorem Settled.search_eq (h : σ.Settled) (q : SearchQuery) :
    σ.tables.search q (fun _ => false) = .ok (Trace.sought σ.appended q) := by
  have hfree : ∀ path ∈ q.paths, σ.tables.blocked q.range path = false := fun path _ =>
    TraceTables.blocked_eq_false_iff.mpr fun s _ => h.sound.free h.ended s
  have hsought : σ.sought q = (σ.committed.filter fun p => q.seeks p.2 && q.range.contains p.2.time).mergeSort
      (Ordered.leOn fun p => p.2.time) := by
    refine Ordered.eq_of_ascending (R := fun p p' => compare (keyOf p) (keyOf p') = .lt)
      (fun p => Ordered.not_lt_self (keyOf p)) (fun _ _ => Ordered.not_lt_of_lt) (h.sound.sought_ascending q)
      (h.arranged.sorted_ascending _) fun p => ?_
    rw [sought, h.shown_eq, List.mem_mergeSort, List.mem_mergeSort]
  rw [h.sound.search_of_free hfree, hsought, Ordered.map_mergeSort Trace.time, Trace.sought, appended,
    List.filter_map]
  rfl

/-- Whether a search is found cancelled depends only on how many traces its lookups match together. -/
theorem Settled.search_cases (h : σ.Settled) (q : SearchQuery) (cancelled : Nat → Bool) (hc : cancelled 0 = false) :
    let n := (q.paths.map fun path => (Trace.matching σ.appended q.range path).length).sum
    ((σ.tables.beginScan cancelled).Interrupted 0 n ∧ σ.tables.search q cancelled = .error .cancelled) ∨
    (¬(σ.tables.beginScan cancelled).Interrupted 0 n ∧
      σ.tables.search q cancelled = .ok (Trace.sought σ.appended q)) := by
  intro n
  let keys := q.paths.flatMap (σ.snapshot q.range)
  have hlength : keys.length = n := by
    rw [List.length_flatMap]
    exact congrArg List.sum (List.map_congr_left fun path _ => h.arranged.length_snapshot q.range path)
  have hfold (s : Index.Scan) :
      q.paths.foldl (fun p path => σ.tables.scan s q.range p path) {} = keys.foldl s.examine {} := by
    have hscan : (fun p path => σ.tables.scan s q.range p path) =
        fun p path => (σ.snapshot q.range path).foldl s.examine p := by
      funext p path
      rw [TraceTables.scan_eq h.sound.time_sound fun s _ => h.arranged.free s, h.arranged.filter_keysOn]
    rw [List.foldl_flatMap, hscan]
  have hnever := h.search_eq q
  rw [TraceTables.search, if_neg Bool.false_ne_true] at hnever
  simp only [hfold, Index.Scan.foldl_examine_free (s := σ.tables.beginScan fun _ => false) (p := {}) (fun _ => rfl) rfl]
    at hnever
  rw [TraceTables.search, hc, if_neg Bool.false_ne_true]
  simp only [hfold]
  rcases Index.Scan.foldl_examine (σ.tables.beginScan cancelled) keys (p := {}) rfl with ⟨hi, hstop⟩ | ⟨hi, hall⟩
  · rw [Nat.zero_add, hlength] at hi
    exact .inl ⟨hi, by simp only [hstop]⟩
  · rw [Nat.zero_add, hlength] at hi
    refine .inr ⟨hi, ?_⟩
    rw [hall]
    exact hnever

end State

variable {σ : State}

/-- However appends interleave, a search that is not cancelled finds the traces that can be seen, lie in its range
and carry one of its keys, each of them once and in the order of time and arrival, unless one of its lookups meets
a bucket that an append holds. The keys may be given in any order and more than once. A search with one key is the
query by this key, and one without keys is the query by time. -/
theorem search_is_union (settings : Settings) (h : Run (.start settings) σ) (q : SearchQuery) :
    (∀ p, p ∈ σ.sought q ↔
      σ.tables.get? p.1 = some p.2 ∧ q.seeks p.2 = true ∧ q.range.contains p.2.time = true) ∧
    (σ.sought q).Pairwise (fun p p' => compare (keyOf p) (keyOf p') = .lt) ∧
    ((∀ path ∈ q.paths, σ.tables.blocked q.range path = false) →
      σ.tables.search q (fun _ => false) = .ok ((σ.sought q).map (·.2))) ∧
    ((∀ a ∈ σ.appends, a.stage.Ended) → ∀ path, σ.tables.blocked q.range path = false) ∧
    (∀ path ∈ q.paths, σ.tables.blocked q.range path = true → ∃ path' ∈ q.paths,
      σ.tables.blocked q.range path' = true ∧ σ.tables.search q (fun _ => false) =
        .error (.timeout (σ.tables.indexName path') σ.tables.settings.lockTimeout)) ∧
    (∀ q', q.SameKeys q' → σ.tables.search q' (fun _ => false) = σ.tables.search q (fun _ => false)) ∧
    ∀ range cancelled,
      σ.tables.search { range } cancelled = σ.tables.query .time range cancelled ∧
      (∀ a, σ.tables.search { range, addresses := [a] } cancelled =
        σ.tables.query (.address a) range cancelled) ∧
      (∀ c, σ.tables.search { range, callsigns := [c] } cancelled =
        σ.tables.query (.callsign c) range cancelled) ∧
      ∀ c, σ.tables.search { range, squawks := [c] } cancelled =
        σ.tables.query (.squawk c) range cancelled := by
  have hs := h.sound (State.start_sound settings)
  refine ⟨fun p => ?_, hs.sought_ascending q, hs.search_of_free, fun hended path => ?_,
    fun path hpath hb => hs.search_of_blocked hpath hb, fun q' hq => hq.search_eq hs.time_sound,
    fun range cancelled => ?_⟩
  · rw [State.mem_sought, hs.mem_shown_iff]
  · exact TraceTables.blocked_eq_false_iff.mpr fun s _ => hs.free hended s
  · exact ⟨TraceTables.search_of_paths hs.time_sound rfl cancelled,
      fun a => TraceTables.search_of_paths hs.time_sound rfl cancelled,
      fun c => TraceTables.search_of_paths hs.time_sound rfl cancelled,
      fun c => TraceTables.search_of_paths hs.time_sound rfl cancelled⟩

/-- One observation is stored twice, and is asked for by two keys, of which one is given twice. -/
theorem search_finds_equal_observations : ∃ (σ : State) (r : Trace) (c : Squawk), Run (.start {}) σ ∧
    r.squawk = some c ∧
    σ.tables.search { addresses := [r.address, r.address], squawks := [c] } (fun _ => false) = .ok [r, r] := by
  let c : Squawk := ⟨5, by decide⟩
  let r : Trace := { time := default, address := ⟨1, by decide⟩, squawk := some c }
  let hook : Hook Empty (Unit × TraceTables) := Hook.beside Hook.agree
  let t₁ := ((TraceTables.ofSettings {}).appendWith hook r ()).2.2
  let t₂ := (t₁.appendWith hook r ()).2.2
  obtain ⟨_, hrun₁⟩ := run_appendWith [] (State.start_sound {}).listed
    (show (TraceTables.ofSettings {}).appendWith hook r () = (.ok .min, (), t₁) from rfl)
  obtain ⟨_, hrun₂⟩ := run_appendWith [⟨r, .committed .min⟩] (hrun₁.sound (State.start_sound {})).listed
    (show t₁.appendWith hook r () = (.ok ⟨1, by decide⟩, (), t₂) from rfl)
  let second : RecordId × Trace := (⟨1, by decide⟩, r)
  let σ : State := ⟨t₂, [⟨r, .committed .min⟩, ⟨r, .committed second.1⟩]⟩
  let q : SearchQuery := { addresses := [r.address, r.address], squawks := [c] }
  have hrun : Run (.start {}) σ := hrun₁.trans hrun₂
  have hended : ∀ a ∈ σ.appends, a.stage.Ended := by
    intro a ha
    rcases List.mem_pair.mp ha with rfl | rfl <;> exact .inl ⟨_, rfl⟩
  have hsought : σ.sought q = [(.min, r), second] := List.mergeSort_of_pairwise (by decide)
  obtain ⟨-, -, hfree, hnone, -⟩ := search_is_union {} hrun q
  refine ⟨σ, r, c, hrun, rfl, (hfree fun path _ => hnone hended path).trans ?_⟩
  rw [hsought]
  rfl

end Interleaving
end FlightTrace
