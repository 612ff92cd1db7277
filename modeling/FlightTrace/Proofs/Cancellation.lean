import FlightTrace.Proofs.Searching

/-! Where cancelled scans stop. Scans that are made one after the other look at buckets one after the other and count
the keys of all of them together, shown or not. So they are one pass over the keys up to the first bucket that is
held, and a cancellation is found at the first count that is a multiple of the interval and comes after it. -/
namespace FlightTrace
namespace Index

namespace Scan

variable (s : Scan) {p : Progress} {k m : Nat}

def never : Scan := { s with cancelled := fun _ => false }

/-- The scan with a token that is cancelled once so many keys have been examined, and stays so. -/
def cancelledAfter (k : Nat) : Scan := { s with cancelled := fun n => k < n }

/-- The counts beyond a number at which the scan asks for cancellation. -/
def asksAfter (k : Nat) : Set Nat := {m | max s.interval 1 ∣ m ∧ k < m}

theorem exists_isLeast_asksAfter (k : Nat) : ∃ m, IsLeast (s.asksAfter k) m := by
  classical
  have hpos : 0 < max s.interval 1 := by omega
  have hex : ∃ m, m ∈ s.asksAfter k :=
    ⟨max s.interval 1 * (k + 1), Nat.dvd_mul_right _ _, Nat.le_mul_of_pos_left (k + 1) hpos⟩
  exact ⟨Nat.find hex, Nat.find_spec hex, fun _ hn => Nat.find_min' hex hn⟩

theorem interrupted_cancelledAfter_iff (n : Nat) :
    (s.cancelledAfter k).Interrupted 0 n ↔ ∃ m ∈ s.asksAfter k, m ≤ n := by
  constructor
  · rintro ⟨m, -, hle, hmod, hc⟩
    exact ⟨m, ⟨Nat.dvd_of_mod_eq_zero hmod, of_decide_eq_true hc⟩, hle⟩
  · rintro ⟨m, ⟨hdvd, hlt⟩, hle⟩
    exact ⟨m, by omega, hle, Nat.mod_eq_zero_of_dvd hdvd, decide_eq_true hlt⟩

theorem foldl_never (keys : List Key) : keys.foldl s.never.examine {} =
    ⟨keys.length, keys.filter fun key => key.id.val < s.watermark, none⟩ := by
  rw [foldl_examine_free (fun _ => rfl) rfl, Nat.zero_add]
  rfl

/-- A pass that ends before it asks again after the cancellation does not notice it. -/
theorem foldl_cancelledAfter_of_lt {keys : List Key} (h : ∀ m ∈ s.asksAfter k, keys.length < m) :
    keys.foldl (s.cancelledAfter k).examine {} = keys.foldl s.never.examine {} := by
  rw [foldl_never]
  rcases (s.cancelledAfter k).foldl_examine keys (p := {}) rfl with ⟨hi, -⟩ | ⟨-, hall⟩
  · rw [Nat.zero_add, interrupted_cancelledAfter_iff] at hi
    obtain ⟨m, hm, hle⟩ := hi
    exact absurd (h m hm) (Nat.not_lt.mpr hle)
  · rw [Nat.zero_add] at hall
    exact hall

/-- Any other pass ends with the first key after the cancellation at which it asks. -/
theorem foldl_cancelledAfter_of_le {keys : List Key} (hm : IsLeast (s.asksAfter k) m) (hle : m ≤ keys.length) :
    keys.foldl (s.cancelledAfter k).examine {} =
      ⟨m, (keys.take (m - 1)).filter fun key => key.id.val < s.watermark, some .cancelled⟩ := by
  obtain ⟨⟨hdvd, hlt⟩, hleast⟩ := hm
  have hlength : (keys.take (m - 1)).length = m - 1 := List.length_take_of_le (by omega)
  have hbefore : ∀ n ∈ s.asksAfter k, (keys.take (m - 1)).length < n := fun n hn => by
    have := hleast hn
    omega
  have hsplit : keys = keys.take (m - 1) ++ keys[m - 1] :: keys.drop (m - 1 + 1) := by
    rw [← List.drop_eq_getElem_cons, List.take_append_drop]
  have hask : m % max s.interval 1 = 0 ∧ (s.cancelledAfter k).cancelled m = true :=
    ⟨Nat.mod_eq_zero_of_dvd hdvd, decide_eq_true hlt⟩
  have hstop (found : List Key) (key : Key) : (s.cancelledAfter k).examine ⟨m - 1, found, none⟩ key =
      ⟨m, found, some .cancelled⟩ := by
    have hcount : m - 1 + 1 = m := by omega
    simp only [examine, Option.isSome_none, Bool.false_eq_true, if_false, hcount]
    exact if_pos hask
  rw [hsplit, List.foldl_append, foldl_cancelledAfter_of_lt s hbefore, foldl_never, hlength, List.foldl_cons, hstop,
    foldl_examine_stopped _ _ rfl, ← hsplit]

/-- What a pass comes to that ends at a held bucket, if it gets there. -/
def meet (p : Progress) : Option String → Progress
  | none => p
  | some name => if p.stop.isSome then p else { p with stop := some (.timeout name s.lockTimeout) }

theorem meet_stopped (h : p.stop.isSome = true) (held : Option String) : s.meet p held = p := by
  cases held with
  | none => rfl
  | some name => exact if_pos h

theorem scanned_meet (p : Progress) (held : Option String) : (s.meet p held).scanned = p.scanned := by
  cases held with
  | none => rfl
  | some name =>
    rw [meet]
    split <;> rfl

end Scan

/-- A bucket of the index of some name that is looked at for the keys in a range. -/
structure Look where
  index : String
  bucket : Bucket
  range : TimeRange

namespace Look

def entries (l : Look) : List Key := l.bucket.keys.toList.filter fun key => l.range.contains key.time

def blocked (l : Look) : Bool := l.bucket.held && !l.range.isEmpty

def scan (s : Scan) (p : Scan.Progress) (l : Look) : Scan.Progress :=
  if l.blocked then s.meet p (some l.index) else l.entries.foldl s.examine p

/-- The keys before the first bucket that is held, and the name of its index. -/
def reach : List Look → List Key × Option String
  | [] => ([], none)
  | l :: ls => if l.blocked then ([], some l.index) else (l.entries ++ (reach ls).1, (reach ls).2)

variable {s : Scan} {p : Scan.Progress}

theorem scan_stopped (h : p.stop.isSome = true) (l : Look) : l.scan s p = p := by
  rw [scan]
  split
  · exact s.meet_stopped h _
  · exact s.foldl_examine_stopped l.entries h

theorem foldl_scan (ls : List Look) (p : Scan.Progress) :
    ls.foldl (scan s) p = s.meet ((reach ls).1.foldl s.examine p) (reach ls).2 := by
  induction ls generalizing p with
  | nil => rfl
  | cons l ls ih =>
    rw [List.foldl_cons, reach, scan]
    cases l.blocked with
    | true =>
      have hstopped : (s.meet p (some l.index)).stop.isSome = true := by
        rw [Scan.meet]
        split
        · assumption
        · rfl
      exact List.foldl_fixed' (fun l' => scan_stopped hstopped l') ls
    | false =>
      simp only [Bool.false_eq_true, if_false]
      rw [ih, List.foldl_append]

theorem reach_of_free {ls : List Look} (h : ∀ l ∈ ls, l.blocked = false) :
    reach ls = (ls.flatMap entries, none) := by
  induction ls with
  | nil => rfl
  | cons l ls ih =>
    rw [reach, h l List.mem_cons_self, ih fun l' hl' => h l' (List.mem_cons_of_mem l hl'), List.flatMap_cons]
    rfl

end Look

/-- A scan that a reader makes, of one value of an index or of the index by time. -/
inductive Lookup : Type 1 where
  | keyed {κ : Type} [Ord κ] (x : Keyed κ) (k : κ) (range : TimeRange)
  | time (x : Time) (range : TimeRange)

namespace Lookup

def scan (s : Scan) (p : Scan.Progress) : Lookup → Scan.Progress
  | keyed x k range => x.scan s k range p
  | time x range => x.scan s range p

def looks : Lookup → List Look
  | keyed x k range => [⟨x.name, x.bucket k, range⟩]
  | time x range =>
    if range.isEmpty then []
    else (x.directory.toList.filter (x.reaches range)).map fun n => ⟨x.segments.name, x.segments.bucket n, range⟩

def entries (l : Lookup) : List Key := l.looks.flatMap Look.entries

def blocked (l : Lookup) : Bool := l.looks.any Look.blocked

theorem keyed_scan_eq {κ : Type} [Ord κ] (x : Keyed κ) (k : κ) (range : TimeRange) (s : Scan) (p : Scan.Progress) :
    x.scan s k range p = Look.scan s p ⟨x.name, x.bucket k, range⟩ := by
  cases hb : (⟨x.name, x.bucket k, range⟩ : Look).blocked with
  | true =>
    obtain ⟨hheld, hr⟩ := Bool.and_eq_true_iff.mp hb
    rw [Look.scan, hb, if_pos rfl, Scan.meet]
    cases hp : p.stop with
    | some e => exact x.scan_stopped k (by rw [hp]; rfl)
    | none =>
      rw [Keyed.scan_eq_bucket, hp, KeyRange.ofTimeRange?_of_not_isEmpty (by simpa using hr)]
      exact if_pos hheld
  | false =>
    have hfree : range.isEmpty = false → (x.bucket k).held = false := by
      intro hr
      simpa [Look.blocked, hr] using hb
    rw [Look.scan, hb, Keyed.scan_eq hfree]
    rfl

theorem scan_eq (s : Scan) (p : Scan.Progress) (l : Lookup) : l.scan s p = l.looks.foldl (Look.scan s) p := by
  cases l with
  | keyed x k range => exact keyed_scan_eq x k range s p
  | time x range =>
    rw [scan, looks, Time.scan]
    split
    · rfl
    · rw [List.foldl_map]
      simp only [keyed_scan_eq]

end Lookup

namespace Scan

/-- Scans made one after the other, with one count for all of them. -/
def scanAll (s : Scan) (ls : List Lookup) : Progress := ls.foldl (fun p l => l.scan s p) {}

/-- What scans together examine if they are not cancelled, and the held bucket that ends them. -/
def reach (ls : List Lookup) : List Key × Option String := Look.reach (ls.flatMap Lookup.looks)

variable (s : Scan) {k m : Nat} {ls : List Lookup}

theorem scanAll_eq (ls : List Lookup) :
    s.scanAll ls = s.meet ((reach ls).1.foldl s.examine {}) (reach ls).2 := by
  rw [reach, ← Look.foldl_scan, List.foldl_flatMap, scanAll]
  simp only [Lookup.scan_eq]

theorem scanned_never (ls : List Lookup) : (s.never.scanAll ls).scanned = (reach ls).1.length := by
  rw [scanAll_eq, scanned_meet, foldl_never]

theorem reach_of_free (h : ∀ l ∈ ls, l.blocked = false) : reach ls = (ls.flatMap Lookup.entries, none) := by
  have hfree : ∀ l ∈ ls.flatMap Lookup.looks, l.blocked = false := by
    intro l hl
    obtain ⟨l', hl', hmem⟩ := List.mem_flatMap.mp hl
    have hnone := h l' hl'
    rw [Lookup.blocked, List.any_eq_false] at hnone
    exact Bool.eq_false_iff.mpr (hnone l hmem)
  rw [reach, Look.reach_of_free hfree, List.flatMap_assoc]
  rfl

theorem scanAll_never_of_free (h : ∀ l ∈ ls, l.blocked = false) : s.never.scanAll ls =
    ⟨(ls.map fun l => l.entries.length).sum, (ls.flatMap Lookup.entries).filter fun key => key.id.val < s.watermark,
      none⟩ := by
  rw [scanAll_eq, reach_of_free h, foldl_never, List.length_flatMap]
  rfl

theorem scanAll_cancelledAfter_of_lt (h : ∀ m ∈ s.asksAfter k, (s.never.scanAll ls).scanned < m) :
    (s.cancelledAfter k).scanAll ls = s.never.scanAll ls := by
  rw [scanned_never] at h
  rw [scanAll_eq, scanAll_eq, s.foldl_cancelledAfter_of_lt h]
  rfl

theorem scanAll_cancelledAfter_of_le (hm : IsLeast (s.asksAfter k) m) (hle : m ≤ (s.never.scanAll ls).scanned) :
    (s.cancelledAfter k).scanAll ls =
      ⟨m, ((reach ls).1.take (m - 1)).filter fun key => key.id.val < s.watermark, some .cancelled⟩ := by
  rw [scanned_never] at hle
  rw [scanAll_eq, s.foldl_cancelledAfter_of_le hm hle]
  exact meet_stopped _ rfl _

/-- The count goes on over hidden keys and from one bucket to the next. A scan that asks after every second key and is
cancelled after the third stops with the fourth. -/
example :
    let key (i : RecordId) : Key := ⟨⟨0, 0, by decide, by decide⟩, i⟩
    let x : Keyed Nat := ⟨"squawk index", ⟨[(1200, { keys := ⟨[key .min, key .max], by decide⟩ })], by decide⟩⟩
    let s : Scan := { watermark := 1, lockTimeout := 50, interval := 2 }
    (s.cancelledAfter 3).scanAll [.keyed x 1200 .all, .keyed x 1200 .all, .keyed x 1200 .all] =
      ⟨4, [key .min, key .min], some .cancelled⟩ := by
  decide

end Scan
end Index

namespace TraceTables

variable {t : TraceTables}

def lookup (t : TraceTables) (range : TimeRange) : AccessPath → Index.Lookup
  | .time => .time t.time range
  | .address a => .keyed t.address a range
  | .callsign c => .keyed t.callsign c range
  | .squawk c => .keyed t.squawk c range

theorem scan_eq_lookup (s : Index.Scan) (range : TimeRange) (p : Index.Scan.Progress) (path : AccessPath) :
    t.scan s range p path = (t.lookup range path).scan s p := by
  cases path <;> rfl

def answer (t : TraceTables) (p : Index.Scan.Progress) : Except Error (List Trace) :=
  match p.stop with
  | some e => .error e
  | none => .ok (t.resolve (OrderedSet.ofList p.found).toList)

theorem answer_stopped {p : Index.Scan.Progress} {e : Error} (h : p.stop = some e) : t.answer p = .error e := by
  rw [answer, h]

theorem search_eq_answer (q : SearchQuery) {cancelled : Nat → Bool} (hc : cancelled 0 = false) :
    t.search q cancelled = t.answer ((t.beginScan cancelled).scanAll (q.paths.map (t.lookup q.range))) := by
  rw [search, hc, if_neg Bool.false_ne_true, Index.Scan.scanAll, List.foldl_map]
  simp only [scan_eq_lookup]
  rfl

end TraceTables

open Index in
/-- Scans with one count, made one after the other with a token that is cancelled after some number of keys, stop with
the first key after that at which they ask, if without the cancellation they get so far; otherwise it makes no
difference. Without it they examine all keys in their bounds, shown or not, unless a bucket is held. A search is a
sequence of such scans, so it is cancelled in the same way. -/
theorem cancellation_stops_at_next_check (s : Scan) (k : Nat) (ls : List Lookup) :
    let free := s.never.scanAll ls
    let run := (s.cancelledAfter k).scanAll ls
    ((∃ m ∈ s.asksAfter k, m ≤ free.scanned) →
      run.stop = some .cancelled ∧ IsLeast (s.asksAfter k) run.scanned) ∧
    ((∀ m ∈ s.asksAfter k, free.scanned < m) → run = free) ∧
    ((∀ l ∈ ls, l.blocked = false) → free = ⟨(ls.map fun l => l.entries.length).sum,
      (ls.flatMap Lookup.entries).filter fun key => key.id.val < s.watermark, none⟩) ∧
    ∀ (t : TraceTables) (q : SearchQuery), let s := t.beginScan fun _ => false
      let free := s.scanAll (q.paths.map (t.lookup q.range))
      ((∃ m ∈ s.asksAfter k, m ≤ free.scanned) → t.search q (fun n => k < n) = .error .cancelled) ∧
      ((∀ m ∈ s.asksAfter k, free.scanned < m) → t.search q (fun n => k < n) = t.search q fun _ => false) := by
  have hstops {s : Scan} {ls : List Lookup} (h : ∃ m ∈ s.asksAfter k, m ≤ (s.never.scanAll ls).scanned) :
      ((s.cancelledAfter k).scanAll ls).stop = some .cancelled ∧
        IsLeast (s.asksAfter k) ((s.cancelledAfter k).scanAll ls).scanned := by
    obtain ⟨m, hm⟩ := s.exists_isLeast_asksAfter k
    obtain ⟨n, hn, hle⟩ := h
    rw [s.scanAll_cancelledAfter_of_le hm ((hm.2 hn).trans hle)]
    exact ⟨rfl, hm⟩
  refine ⟨hstops, s.scanAll_cancelledAfter_of_lt, s.scanAll_never_of_free, fun t q => ?_⟩
  have hsearch : t.search q (fun n => k < n) =
      t.answer (((t.beginScan fun _ => false).cancelledAfter k).scanAll (q.paths.map (t.lookup q.range))) :=
    t.search_eq_answer q rfl
  refine ⟨fun h => ?_, fun h => ?_⟩
  · rw [hsearch]
    exact t.answer_stopped (hstops (s := t.beginScan fun _ => false) h).1
  · rw [hsearch, (t.beginScan fun _ => false).scanAll_cancelledAfter_of_lt h]
    exact (t.search_eq_answer q rfl).symm

end FlightTrace
