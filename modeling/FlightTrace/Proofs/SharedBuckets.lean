import FlightTrace.Proofs.KeyedIndex

/-! Shared buckets. An index has only a reference to each of its buckets. The keys of a bucket lie in a cell, and
whoever holds the bucket refers to this cell as well. So a bucket may be removed only while the index has the last
reference to it: else what is put in later would be in no bucket, and a second one could be made and held beside the
first. An index with references that is used goes in step with one that has its buckets to itself. -/
namespace FlightTrace

namespace OrderedMap

variable {κ β γ : Type} [Ord κ]

def map (f : β → γ) (m : OrderedMap κ β) : OrderedMap κ γ :=
  ⟨m.toList.map fun p => (p.1, f p.2), List.pairwise_map.mpr m.ascending⟩

theorem get?_map {f : β → γ} {m : OrderedMap κ β} {k : κ} : (m.map f).get? k = (m.get? k).map f := by
  have key (l : List (κ × β)) :
      lookupList k (l.map fun p => (p.1, f p.2)) = (lookupList k l).map f := by
    induction l with
    | nil => rfl
    | cons p ps ih =>
      rw [List.map_cons, lookupList, lookupList, ih]
      split <;> rfl
  exact key m.toList

theorem size_map {f : β → γ} {m : OrderedMap κ β} : (m.map f).size = m.size := List.length_map ..

end OrderedMap

namespace Index

/-- What the writer of a bucket has: the value whose bucket was asked for, and the cell that was found. -/
structure Guard (κ : Type) where
  value : κ
  cell : Nat
deriving DecidableEq

structure Shared (κ : Type) [Ord κ] where
  name : String
  /-- The keys in each cell. A cell that nothing refers to any more is not used again. -/
  cells : List (OrderedSet Key) := []
  /-- The cell of each bucket. -/
  buckets : OrderedMap κ Nat := ∅
  /-- Who holds what at present. -/
  guards : List (Guard κ) := []

namespace Shared

variable {κ : Type} [Ord κ]

def size (x : Shared κ) : Nat := x.buckets.size

def keysAt (x : Shared κ) (i : Nat) : OrderedSet Key := x.cells[i]?.getD ∅

/-- How many references there are to a cell, those of the index and those of guards. -/
def references (x : Shared κ) (i : Nat) : Nat :=
  (x.buckets.toList.countP fun p => p.2 = i) + x.guards.countP fun g => g.cell = i

def isHeld (x : Shared κ) (i : Nat) : Bool := x.guards.any fun g => g.cell = i

/-- Whether the index has the only reference to a bucket, which can be read and is empty. -/
def isUnused (x : Shared κ) (k : κ) : Bool :=
  match x.buckets.get? k with
  | some i => x.references i = 1 && !x.isHeld i && (x.keysAt i).isEmpty
  | none => false

def prune (x : Shared κ) (k : κ) : Shared κ :=
  if x.isUnused k then { x with buckets := x.buckets.erase k } else x

def scan (x : Shared κ) (s : Scan) (k : κ) (range : TimeRange) (p : Scan.Progress) : Scan.Progress :=
  match p.stop, KeyRange.ofTimeRange? range, x.buckets.get? k with
  | none, some r, some i =>
    if x.isHeld i then { p with stop := some (.timeout x.name s.lockTimeout) }
    else ((x.keysAt i).toList.filter r.contains).foldl s.examine p
  | _, _, _ => p

variable [Std.TransOrd κ]

def make (x : Shared κ) (k : κ) : Shared κ :=
  { x with cells := x.cells ++ [∅], buckets := x.buckets.insert k x.cells.length }

/-- Finds the cell of a bucket, which is made if need be. -/
def enter (x : Shared κ) (k : κ) : Nat × Shared κ :=
  match x.buckets.get? k with
  | some i => (i, x)
  | none => (x.cells.length, x.make k)

def hold (x : Shared κ) (g : Guard κ) : Shared κ := { x with guards := g :: x.guards }

/-- Takes hold of a bucket. If somebody else holds it until the time is out, it is left, and pruned if nothing but the
index is left to refer to it. -/
def lock (x : Shared κ) (k : κ) (timeout : Nat) : Except Error Unit × Shared κ :=
  let (i, x) := x.enter k
  if x.isHeld i then (.error (.timeout x.name timeout), x.prune k)
  else (.ok (), x.hold ⟨k, i⟩)

variable [DecidableEq κ]

def guard? (x : Shared κ) (k : κ) : Option (Guard κ) := x.guards.find? fun g => g.value = k

def fill (x : Shared κ) (i : Nat) (key : Key) : Shared κ :=
  { x with cells := x.cells.modify i fun keys => keys.insert key }

def put (x : Shared κ) (k : κ) (key : Key) : Shared κ :=
  match x.guard? k with
  | some g => x.fill g.cell key
  | none => x

def drop (x : Shared κ) (g : Guard κ) : Shared κ := { x with guards := x.guards.erase g }

def release (x : Shared κ) (k : κ) : Shared κ :=
  match x.guard? k with
  | some g => x.drop g
  | none => x

def step (x : Shared κ) : Keyed.Use κ → Shared κ
  | .lock k timeout => (x.lock k timeout).2
  | .put k key => x.put k key
  | .release k => x.release k
  | .prune k => x.prune k

def run (name : String) (uses : List (Keyed.Use κ)) : Shared κ := uses.foldl step { name }

omit [Std.TransOrd κ] [DecidableEq κ]

def bucketAt (x : Shared κ) (i : Nat) : Bucket := ⟨x.keysAt i, x.isHeld i⟩

/-- The index with its buckets to itself. -/
def view (x : Shared κ) : Keyed κ := { name := x.name, buckets := x.buckets.map x.bucketAt }

/-- No two buckets share a cell, and each guard is the only one of its cell, which is that of a bucket. -/
structure Linked (x : Shared κ) : Prop where
  allocated : ∀ {k i}, x.buckets.get? k = some i → i < x.cells.length
  apart : ∀ {j k i}, x.buckets.get? j = some i → x.buckets.get? k = some i → j = k
  guarded : ∀ {g}, g ∈ x.guards → x.buckets.get? g.value = some g.cell
  exclusive : x.guards.Nodup

variable {x : Shared κ} {k j : κ} {i : Nat} {g : Guard κ}

theorem get?_view : x.view.buckets.get? k = (x.buckets.get? k).map x.bucketAt := OrderedMap.get?_map

theorem size_view : x.view.size = x.size := OrderedMap.size_map

theorem bucket_view (h : x.buckets.get? k = some i) : x.view.bucket k = x.bucketAt i := by
  rw [Keyed.bucket, get?_view, h]
  rfl

theorem bucket_view_of_missing (h : x.buckets.get? k = none) : x.view.bucket k = {} := by
  rw [Keyed.bucket, get?_view, h]
  rfl

theorem scan_view : x.view.scan = x.scan := by
  funext s k range p
  rw [Keyed.scan, scan, get?_view]
  cases p.stop with
  | some e => rfl
  | none =>
    cases KeyRange.ofTimeRange? range with
    | none => rfl
    | some r => cases x.buckets.get? k <;> rfl

theorem isHeld_iff : x.isHeld i = true ↔ ∃ g ∈ x.guards, g.cell = i := by
  simp only [isHeld, List.any_eq_true, decide_eq_true_eq]

theorem get?_make [Std.TransOrd κ] [Std.LawfulEqOrd κ] [DecidableEq κ] :
    (x.make k).buckets.get? j = if j = k then some x.cells.length else x.buckets.get? j := OrderedMap.get?_insert

namespace Linked

theorem empty {name : String} : Linked { name : Shared κ } where
  allocated hk := by cases hk
  apart hj := by cases hj
  guarded hg := by cases hg
  exclusive := .nil

variable (h : x.Linked)
include h

theorem held_of_guard (hg : g ∈ x.guards) : (x.view.bucket g.value).held = true :=
  (congrArg Bucket.held (bucket_view (h.guarded hg))).trans (isHeld_iff.mpr ⟨g, hg, rfl⟩)

theorem isHeld_iff_mem (hi : x.buckets.get? k = some i) : x.isHeld i = true ↔ (⟨k, i⟩ : Guard κ) ∈ x.guards := by
  rw [isHeld_iff]
  constructor
  · rintro ⟨⟨j, i⟩, hg, rfl⟩
    rwa [← h.apart (h.guarded hg) hi]
  · exact fun hg => ⟨_, hg, rfl⟩

variable [Std.TransOrd κ] [Std.LawfulEqOrd κ] [DecidableEq κ]

/-- The index has one reference to the cell of a bucket. The others are those of guards. -/
theorem references_eq (hi : x.buckets.get? k = some i) :
    x.references i = 1 + x.guards.countP fun g => g.cell = i := by
  have hmem : (k, i) ∈ x.buckets.toList := OrderedMap.mem_toList_iff.mpr hi
  have hnodup : x.buckets.toList.Nodup := .of_map _ (Ordered.nodup_of_ascending x.buckets.keys_ascending)
  have hone : (x.buckets.toList.countP fun p => p.2 = i) = 1 := by
    rw [← List.count_eq_one_of_mem hnodup hmem, List.count]
    refine List.countP_congr fun p hp => ?_
    rw [decide_eq_true_eq, beq_iff_eq]
    constructor
    · rintro rfl
      exact Prod.ext (h.apart (OrderedMap.mem_toList_iff.mp hp) hi) rfl
    · rintro rfl
      rfl
  rw [references, hone]

theorem isUnused_eq : x.isUnused k = x.view.isIdle k := by
  rw [isUnused, Keyed.isIdle, get?_view]
  cases hk : x.buckets.get? k with
  | none => rfl
  | some i =>
    simp only [Option.map_some, bucketAt]
    cases hheld : x.isHeld i with
    | true => simp
    | false =>
      have hnone : (x.guards.countP fun g => g.cell = i) = 0 := by
        refine List.countP_eq_zero.mpr fun g hg hc => ?_
        rw [isHeld_iff.mpr ⟨g, hg, of_decide_eq_true hc⟩] at hheld
        cases hheld
      rw [h.references_eq hk, hnone]
      rfl

theorem view_prune : (x.prune k).view = x.view.prune k := by
  rw [prune, Keyed.prune, h.isUnused_eq]
  split
  · refine congrArg (Keyed.mk x.name) (OrderedMap.ext_get? fun j => ?_)
    rw [OrderedMap.get?_map, OrderedMap.get?_erase, OrderedMap.get?_erase, get?_view]
    split <;> rfl
  · rfl

theorem prune : (x.prune k).Linked := by
  rw [Shared.prune, h.isUnused_eq]
  split
  · rename_i hidle
    have hget {j : κ} {i : Nat} (hj : (x.buckets.erase k).get? j = some i) : x.buckets.get? j = some i := by
      rw [OrderedMap.get?_erase] at hj
      split at hj
      · cases hj
      · exact hj
    refine ⟨fun hj => h.allocated (hget hj), fun hj hk => h.apart (hget hj) (hget hk), fun {g} hg => ?_,
      h.exclusive⟩
    rw [OrderedMap.get?_erase, if_neg, h.guarded hg]
    rintro rfl
    exact Keyed.not_isIdle_of_held (h.held_of_guard hg) hidle
  · exact h

omit [Std.TransOrd κ] [Std.LawfulEqOrd κ] in
theorem guard?_of_held (hheld : (x.view.bucket k).held = true) :
    ∃ i, x.buckets.get? k = some i ∧ x.guard? k = some ⟨k, i⟩ := by
  cases hk : x.buckets.get? k with
  | none =>
    rw [bucket_view_of_missing hk] at hheld
    cases hheld
  | some i =>
    rw [bucket_view hk] at hheld
    have hmem := (h.isHeld_iff_mem hk).mp hheld
    refine ⟨i, rfl, ?_⟩
    cases hg : x.guard? k with
    | none => exact absurd (decide_eq_true rfl) (List.find?_eq_none.mp hg _ hmem)
    | some g =>
      obtain ⟨j, c⟩ := g
      have hvalue := List.find?_some (p := fun g : Guard κ => decide (g.value = k)) hg
      obtain rfl : j = k := of_decide_eq_true hvalue
      have hcell := h.guarded (List.mem_of_find?_eq_some hg)
      rw [hk] at hcell
      rw [Option.some.inj hcell]

omit [Std.TransOrd κ] [Std.LawfulEqOrd κ] in
theorem guard?_of_free (hfree : (x.view.bucket k).held = false) : x.guard? k = none := by
  refine List.find?_eq_none.mpr fun g hg hvalue => ?_
  obtain rfl := of_decide_eq_true hvalue
  rw [h.held_of_guard hg] at hfree
  cases hfree

theorem lock_of_held (timeout : Nat) (hheld : (x.view.bucket k).held = true) :
    x.lock k timeout = (.error (.timeout x.name timeout), x) := by
  obtain ⟨i, hk, -⟩ := h.guard?_of_held hheld
  have hprune : x.prune k = x := by
    rw [Shared.prune, h.isUnused_eq, if_neg (Keyed.not_isIdle_of_held hheld)]
  have hcell : x.isHeld i = true := by rwa [bucket_view hk] at hheld
  simp only [lock, enter, hk, hcell, if_true, hprune]

/-- To change a cell is to change its bucket and no other. -/
theorem view_eq_insert (hk : x.buckets.get? k = some i) {y : Shared κ} {b : Bucket} (hname : y.name = x.name)
    (hbuckets : y.buckets = x.buckets) (hi : y.bucketAt i = b)
    (hother : ∀ c < x.cells.length, i ≠ c → y.bucketAt c = x.bucketAt c) :
    y.view = { x.view with buckets := x.view.buckets.insert k b } := by
  refine (congrArg (Keyed.mk · _) hname).trans (congrArg (Keyed.mk x.name) (OrderedMap.ext_get? fun j => ?_))
  rw [OrderedMap.get?_map, OrderedMap.get?_insert, get?_view, hbuckets]
  by_cases hj : j = k
  · rw [if_pos hj, hj, hk, Option.map_some, hi]
  · rw [if_neg hj]
    cases hc : x.buckets.get? j with
    | none => rfl
    | some c =>
      have hne : i ≠ c := by
        rintro rfl
        exact hj (h.apart hc hk)
      exact congrArg some (hother c (h.allocated hc) hne)

theorem lt_of_get?_make (hi : (x.make k).buckets.get? j = some i) (hj : j ≠ k) : i < x.cells.length := by
  rw [get?_make, if_neg hj] at hi
  exact h.allocated hi

omit [Std.LawfulEqOrd κ] [DecidableEq κ] in
theorem bucketAt_make : (x.make k).bucketAt x.cells.length = {} := by
  have hfree : x.isHeld x.cells.length = false := by
    refine Bool.eq_false_iff.mpr fun hheld => ?_
    obtain ⟨g, hg, hcell⟩ := isHeld_iff.mp hheld
    exact absurd (h.allocated (h.guarded hg)) (by omega)
  rw [bucketAt, show (x.make k).isHeld x.cells.length = false from hfree, keysAt, make, List.getElem?_concat_length]
  rfl

theorem make (hk : x.buckets.get? k = none) : (x.make k).Linked where
  allocated {j i} hj := by
    rw [Shared.make, List.length_append, List.length_singleton]
    by_cases hjk : j = k
    · rw [get?_make, if_pos hjk] at hj
      have := Option.some.inj hj
      omega
    · exact Nat.lt_succ_of_lt (h.lt_of_get?_make hj hjk)
  apart {j l i} hj hl := by
    by_cases hjk : j = k <;> by_cases hlk : l = k
    · rw [hjk, hlk]
    · have := h.lt_of_get?_make hl hlk
      rw [get?_make, if_pos hjk] at hj
      have := Option.some.inj hj
      omega
    · have := h.lt_of_get?_make hj hjk
      rw [get?_make, if_pos hlk] at hl
      have := Option.some.inj hl
      omega
    · rw [get?_make, if_neg hjk] at hj
      rw [get?_make, if_neg hlk] at hl
      exact h.apart hj hl
  guarded {g} hg := by
    rw [get?_make, if_neg, h.guarded hg]
    intro hvalue
    rw [← hvalue, h.guarded hg] at hk
    cases hk
  exclusive := h.exclusive

theorem view_make : (x.make k).view = { x.view with buckets := x.view.buckets.insert k {} } := by
  refine congrArg (Keyed.mk x.name) (OrderedMap.ext_get? fun j => ?_)
  rw [OrderedMap.get?_map, get?_make, OrderedMap.get?_insert, get?_view]
  split
  · exact congrArg some h.bucketAt_make
  · cases hi : x.buckets.get? j with
    | none => rfl
    | some i =>
      rw [Option.map_some, Option.map_some, bucketAt, keysAt, Shared.make,
        List.getElem?_append_left (h.allocated hi)]
      rfl

omit [Std.TransOrd κ] [Std.LawfulEqOrd κ] [DecidableEq κ] in
theorem hold (hk : x.buckets.get? k = some i) (hfree : x.isHeld i = false) : (x.hold ⟨k, i⟩).Linked where
  allocated := h.allocated
  apart := h.apart
  guarded {g} hg := by
    rcases List.mem_cons.mp hg with rfl | hg
    · exact hk
    · exact h.guarded hg
  exclusive := by
    refine List.nodup_cons.mpr ⟨fun hg => ?_, h.exclusive⟩
    rw [(h.isHeld_iff_mem hk).mpr hg] at hfree
    cases hfree

theorem view_hold (hk : x.buckets.get? k = some i) : (x.hold ⟨k, i⟩).view =
    { x.view with buckets := x.view.buckets.insert k { x.view.bucket k with held := true } } := by
  have hbucket (c : Nat) : (x.hold ⟨k, i⟩).bucketAt c = ⟨x.keysAt c, decide (i = c) || x.isHeld c⟩ := rfl
  rw [bucket_view hk]
  refine h.view_eq_insert hk rfl rfl ?_ fun c _ hne => ?_
  · rw [hbucket, decide_eq_true rfl, Bool.true_or]
    rfl
  · rw [hbucket, decide_eq_false hne, Bool.false_or]
    rfl

theorem lock_of_free (timeout : Nat) (hfree : (x.view.bucket k).held = false) :
    ∃ x', x.lock k timeout = (.ok (), x') ∧ x'.Linked ∧ x.view.lock k timeout = .ok x'.view := by
  cases hk : x.buckets.get? k with
  | some i =>
    have hcell : x.isHeld i = false := by rwa [bucket_view hk] at hfree
    refine ⟨x.hold ⟨k, i⟩, ?_, h.hold hk hcell, Keyed.lock_eq_ok_iff.mpr ⟨hfree, h.view_hold hk⟩⟩
    simp only [lock, enter, hk, hcell, Bool.false_eq_true, if_false]
  | none =>
    have hmade := h.make hk
    have hnew : (x.make k).buckets.get? k = some x.cells.length := get?_make.trans (if_pos rfl)
    have hcell : (x.make k).isHeld x.cells.length = false := congrArg Bucket.held h.bucketAt_make
    refine ⟨(x.make k).hold ⟨k, x.cells.length⟩, ?_, hmade.hold hnew hcell,
      Keyed.lock_eq_ok_iff.mpr ⟨hfree, ?_⟩⟩
    · simp only [lock, enter, hk, hcell, Bool.false_eq_true, if_false]
    · rw [hmade.view_hold hnew, bucket_view hnew, h.bucketAt_make, h.view_make, bucket_view_of_missing hk]
      refine congrArg (Keyed.mk x.name) (OrderedMap.ext_get? fun j => ?_)
      simp only [OrderedMap.get?_insert]
      split <;> rfl

/-- Whoever waits for a bucket until the time is out leaves the index as it was. -/
theorem lock_error {timeout : Nat} {e : Error} (he : (x.lock k timeout).1 = .error e) :
    x.view.lock k timeout = .error e ∧ (x.lock k timeout).2 = x := by
  cases hheld : (x.view.bucket k).held with
  | true =>
    rw [h.lock_of_held timeout hheld] at he ⊢
    obtain rfl := Except.error.inj he
    refine ⟨?_, rfl⟩
    rw [Keyed.lock, hheld]
    rfl
  | false =>
    obtain ⟨x', hlock, -, -⟩ := h.lock_of_free timeout hheld
    rw [hlock] at he
    cases he

omit [Std.TransOrd κ] [Std.LawfulEqOrd κ] [DecidableEq κ] in
theorem fill (i : Nat) (key : Key) : (x.fill i key).Linked where
  allocated hj := by
    rw [Shared.fill, List.length_modify]
    exact h.allocated hj
  apart := h.apart
  guarded := h.guarded
  exclusive := h.exclusive

theorem view_fill (key : Key) (hk : x.buckets.get? k = some i) : (x.fill i key).view = x.view.put k key := by
  have hbucket (c : Nat) (hc : c < x.cells.length) : (x.fill i key).bucketAt c =
      ⟨if i = c then (x.keysAt c).insert key else x.keysAt c, x.isHeld c⟩ := by
    rw [bucketAt, keysAt, keysAt, Shared.fill, List.getElem?_modify, List.getElem?_eq_getElem hc]
    split <;> rfl
  rw [Keyed.put, bucket_view hk]
  refine h.view_eq_insert hk rfl rfl ?_ fun c hc hne => ?_
  · rw [hbucket i (h.allocated hk), if_pos rfl]
    rfl
  · rw [hbucket c hc, if_neg hne]
    rfl

theorem put_of_held (key : Key) (hheld : (x.view.bucket k).held = true) :
    (x.put k key).Linked ∧ (x.put k key).view = x.view.put k key := by
  obtain ⟨i, hk, hg⟩ := h.guard?_of_held hheld
  rw [put, hg]
  exact ⟨h.fill i key, h.view_fill key hk⟩

omit [Std.TransOrd κ] [Std.LawfulEqOrd κ] in
theorem put_of_free {key : Key} (hfree : (x.view.bucket k).held = false) : x.put k key = x := by
  rw [put, h.guard?_of_free hfree]

omit [Std.TransOrd κ] [Std.LawfulEqOrd κ] in
theorem drop (g : Guard κ) : (x.drop g).Linked where
  allocated := h.allocated
  apart := h.apart
  guarded hg := h.guarded (List.mem_of_mem_erase hg)
  exclusive := h.exclusive.erase g

theorem view_drop (hk : x.buckets.get? k = some i) : (x.drop ⟨k, i⟩).view =
    { x.view with buckets := x.view.buckets.insert k { x.view.bucket k with held := false } } := by
  have hmem {g : Guard κ} : g ∈ (x.drop ⟨k, i⟩).guards ↔ g ≠ ⟨k, i⟩ ∧ g ∈ x.guards := h.exclusive.mem_erase_iff
  have hfree : (x.drop ⟨k, i⟩).isHeld i = false := by
    refine Bool.eq_false_iff.mpr fun hi => ?_
    obtain ⟨g, hg, rfl⟩ := isHeld_iff.mp hi
    obtain ⟨hne, hg⟩ := hmem.mp hg
    obtain rfl := h.apart (h.guarded hg) hk
    exact hne rfl
  have hother (c : Nat) (hne : i ≠ c) : (x.drop ⟨k, i⟩).isHeld c = x.isHeld c := by
    rw [Bool.eq_iff_iff, isHeld_iff, isHeld_iff]
    refine exists_congr fun g => and_congr_left fun hc => hmem.trans (and_iff_right ?_)
    rintro rfl
    exact hne hc
  rw [bucket_view hk]
  refine h.view_eq_insert hk rfl rfl ?_ fun c _ hne => ?_
  · rw [bucketAt, hfree]
    rfl
  · rw [bucketAt, hother c hne]
    rfl

theorem release : (x.release k).Linked ∧ (x.release k).view = x.view.release k := by
  cases hheld : (x.view.bucket k).held with
  | false =>
    rw [Shared.release, h.guard?_of_free hheld, Keyed.release_of_free hheld]
    exact ⟨h, rfl⟩
  | true =>
    obtain ⟨i, hk, hg⟩ := h.guard?_of_held hheld
    have hget : x.view.buckets.get? k = some (x.bucketAt i) := by rw [get?_view, hk, Option.map_some]
    rw [Shared.release, hg, Keyed.release, hget, ← bucket_view hk]
    exact ⟨h.drop _, h.view_drop hk⟩

/-- One use of an index is the same for the index with its buckets to itself. -/
theorem step (u : Keyed.Use κ) : (x.step u).Linked ∧ (x.step u).view = x.view.step u := by
  cases u with
  | lock k timeout =>
    rw [Shared.step, Keyed.step]
    cases hheld : (x.view.bucket k).held with
    | true =>
      have hlock := h.lock_of_held timeout hheld
      rw [(h.lock_error (congrArg Prod.fst hlock)).1, hlock]
      exact ⟨h, rfl⟩
    | false =>
      obtain ⟨x', hlock, hlinked, hview⟩ := h.lock_of_free timeout hheld
      rw [hlock, hview]
      exact ⟨hlinked, rfl⟩
  | put k key =>
    rw [Shared.step, Keyed.step]
    cases hheld : (x.view.bucket k).held with
    | true => exact h.put_of_held key hheld
    | false =>
      rw [h.put_of_free hheld]
      exact ⟨h, rfl⟩
  | release k => exact h.release
  | prune k => exact ⟨h.prune, h.view_prune⟩

end Linked

variable [Std.TransOrd κ] [Std.LawfulEqOrd κ] [DecidableEq κ]

theorem run_linked (name : String) (uses : List (Keyed.Use κ)) :
    (run name uses).Linked ∧ (run name uses).view = (Keyed.History.run name uses).index := by
  induction uses using List.reverseRecOn with
  | nil => exact ⟨.empty, rfl⟩
  | append_singleton uses u ih =>
    rw [run, Keyed.History.run, List.foldl_append, List.foldl_append]
    obtain ⟨hlinked, hview⟩ := ih.1.step u
    exact ⟨hlinked, hview.trans (congrArg (Keyed.step · u) ih.2)⟩

end Shared
end Index
end FlightTrace
