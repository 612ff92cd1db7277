import FlightTrace.Proofs.Dimensions
import FlightTrace.Proofs.Watermark

/-! Overlapping appends. Any number of appends take their steps one at a time and in any order; a step is one
operation on one index, on the watermark or on the kept traces. An append whose hook crashes releases what it
holds and takes no further step. -/
namespace FlightTrace
namespace Interleaving

/-- How far an append has got. -/
inductive Stage where
  /-- It holds its buckets of some indexes and is to take hold of the others. -/
  | locking (held left : List Dimension)
  /-- It holds all buckets and has a number, and asks the hook. -/
  | asking (i : RecordId)
  /-- The hook has agreed. -/
  | agreed (i : RecordId)
  /-- The trace is kept; its key stands in some indexes and is to be put into the others. -/
  | indexing (i : RecordId) (done left : List Dimension)
  /-- The key stands in all indexes, and some buckets are still held. -/
  | releasing (i : RecordId) (held : List Dimension)
  | committed (i : RecordId)
  /-- The hook has refused. -/
  | refused (i : RecordId)
  /-- It came to nothing, with a number or without. Some buckets are still held, and some to be pruned. -/
  | undoing (o : Option RecordId) (held left : List Dimension)

namespace Stage

def held : Stage → List Dimension
  | locking held _ => held
  | asking _ | agreed _ | indexing _ _ _ | refused _ => Dimension.all
  | releasing _ held => held
  | committed _ => []
  | undoing _ held _ => held

def id? : Stage → Option RecordId
  | locking _ _ => none
  | asking i | agreed i | indexing i _ _ | releasing i _ | committed i | refused i => some i
  | undoing o _ _ => o

def kept? : Stage → Option RecordId
  | indexing i _ _ | releasing i _ | committed i => some i
  | _ => none

/-- The indexes in which the key stands, and its number. -/
def indexed : Stage → List (Dimension × RecordId)
  | indexing i done _ => done.map fun d => (d, i)
  | releasing i _ | committed i => Dimension.all.map fun d => (d, i)
  | _ => []

def finished? : Stage → Option RecordId
  | committed i => some i
  | undoing o _ _ => o
  | _ => none

/-- The indexes in which it is responsible for its bucket being there. -/
def claimed : Stage → List Dimension
  | locking held _ => held
  | undoing _ held left => held ++ left
  | _ => Dimension.all

theorem mem_claimed_of_mem_held {g : Stage} {d : Dimension} (h : d ∈ g.held) : d ∈ g.claimed := by
  cases g with
  | locking held left => exact h
  | undoing o held left => exact List.mem_append_left _ h
  | _ => exact d.mem_all

end Stage

/-- The steps of an append of a trace. -/
inductive Advance (r : Trace) : TraceTables → Stage → TraceTables → Stage → Prop where
  | lock {t t' held d left} (h : t.lockAt r d = .ok t') :
    Advance r t (.locking held (d :: left)) t' (.locking (held ++ [d]) left)
  | timeout {t held d left e} (h : t.lockAt r d = .error e) :
    Advance r t (.locking held (d :: left)) t (.undoing none held Dimension.all)
  | reserve {t t' i} (h : t.reserve? = some (i, t')) : Advance r t (.locking Dimension.all []) t' (.asking i)
  | exhaust {t} (h : t.reserve? = none) : Advance r t (.locking Dimension.all []) t (.undoing none Dimension.all Dimension.all)
  | agree {t i} : Advance r t (.asking i) t (.agreed i)
  | refuse {t i} : Advance r t (.asking i) t (.refused i)
  | keep {t i} :
    Advance r t (.agreed i) { t with traces := t.traces.insert i r } (.indexing i [] Dimension.all)
  | index {t i done d left} : Advance r t (.indexing i done (d :: left)) (t.putAt r ⟨r.time, i⟩ d)
    (.indexing i (done ++ [d]) left)
  | indexed {t i} : Advance r t (.indexing i Dimension.all []) t (.releasing i Dimension.all)
  | release {t i held d} (h : d ∈ held) :
    Advance r t (.releasing i held) (t.releaseAt r d) (.releasing i (held.filter (· ≠ d)))
  | commit {t i} : Advance r t (.releasing i []) (t.finish i) (.committed i)
  | retire {t i} : Advance r t (.refused i) (t.finish i) (.undoing (some i) Dimension.all Dimension.all)
  | unlock {t o held d} (h : d ∈ held) :
    Advance r t (.undoing o held Dimension.all) (t.releaseAt r d) (.undoing o (held.filter (· ≠ d)) Dimension.all)
  | prune {t o d left} :
    Advance r t (.undoing o [] (d :: left)) (t.pruneAt r d) (.undoing o [] left)

structure Append where
  record : Trace
  stage : Stage

def Append.start (r : Trace) : Append := ⟨r, .locking [] Dimension.all⟩

/-- A table of traces and all appends to it that have begun. -/
structure State where
  tables : TraceTables
  appends : List Append

def State.start (settings : Settings) : State := ⟨.ofSettings settings, []⟩

/-- An append begins, or one of them takes a step. -/
inductive Step : State → State → Prop where
  | start {t as} (r : Trace) : Step ⟨t, as⟩ ⟨t, as ++ [.start r]⟩
  | advance {t t' as bs r g g'} (h : Advance r t g t' g') :
    Step ⟨t, as ++ ⟨r, g⟩ :: bs⟩ ⟨t', as ++ ⟨r, g'⟩ :: bs⟩

abbrev Run : State → State → Prop := Relation.ReflTransGen Step

section

variable {r : Trace} {t t' : TraceTables} {g g' : Stage}

/-- A step keeps the trace, takes a number, finishes it, or does something to the indexes at most. -/
theorem Advance.framed_cases (h : Advance r t g t' g') :
    (∃ i, g = .agreed i ∧ g' = .indexing i [] Dimension.all ∧
      t' = { t with traces := t.traces.insert i r }) ∨
    (∃ i, t.reserve? = some (i, t') ∧ g = .locking Dimension.all [] ∧ g' = .asking i) ∨
    (∃ i, t' = t.finish i ∧ g.id? = some i ∧ g'.id? = some i ∧ g.finished? = none ∧
      g'.finished? = some i ∧ g'.kept? = g.kept?) ∨
    (TraceTables.Framed t t' ∧ g'.kept? = g.kept? ∧ g'.id? = g.id? ∧ g'.finished? = g.finished?) := by
  cases h with
  | keep => exact .inl ⟨_, rfl, rfl, rfl⟩
  | reserve h => exact .inr (.inl ⟨_, h, rfl, rfl⟩)
  | commit => exact .inr (.inr (.inl ⟨_, rfl, rfl, rfl, rfl, rfl, rfl⟩))
  | retire => exact .inr (.inr (.inl ⟨_, rfl, rfl, rfl, rfl, rfl, rfl⟩))
  | lock h => exact .inr (.inr (.inr ⟨TraceTables.lockAt_framed h, rfl, rfl, rfl⟩))
  | index => exact .inr (.inr (.inr ⟨TraceTables.putAt_framed _, rfl, rfl, rfl⟩))
  | release => exact .inr (.inr (.inr ⟨TraceTables.releaseAt_framed, rfl, rfl, rfl⟩))
  | unlock => exact .inr (.inr (.inr ⟨TraceTables.releaseAt_framed, rfl, rfl, rfl⟩))
  | prune => exact .inr (.inr (.inr ⟨TraceTables.pruneAt_framed, rfl, rfl, rfl⟩))
  | _ => exact .inr (.inr (.inr ⟨.refl _, rfl, rfl, rfl⟩))

theorem Advance.traces_cases (h : Advance r t g t' g') :
    (∃ i, g = .agreed i ∧ g' = .indexing i [] Dimension.all ∧ t'.traces = t.traces.insert i r) ∨
    (t'.traces = t.traces ∧ g'.kept? = g.kept?) := by
  rcases h.framed_cases with ⟨i, rfl, rfl, rfl⟩ | ⟨i, hr, rfl, rfl⟩ | ⟨i, rfl, -, -, -, -, hk⟩ |
    ⟨hf, hk, -, -⟩
  · exact .inl ⟨i, rfl, rfl, rfl⟩
  · obtain ⟨w, -, rfl⟩ := TraceTables.reserve?_eq_some_iff.mp hr
    exact .inr ⟨rfl, rfl⟩
  · exact .inr ⟨rfl, hk⟩
  · exact .inr ⟨hf.traces, hk⟩

theorem Advance.watermark_cases (h : Advance r t g t' g') :
    (∃ i, t.watermark.reserve? = some (i, t'.watermark) ∧ g.id? = none ∧ g'.id? = some i ∧
      g.finished? = none ∧ g'.finished? = none) ∨
    (∃ i, t'.watermark = t.watermark.finish i.val ∧ g.id? = some i ∧ g'.id? = some i ∧
      g.finished? = none ∧ g'.finished? = some i) ∨
    (t'.watermark = t.watermark ∧ g'.id? = g.id? ∧ g'.finished? = g.finished?) := by
  rcases h.framed_cases with ⟨i, rfl, rfl, rfl⟩ | ⟨i, hr, rfl, rfl⟩ |
    ⟨i, rfl, hid, hid', hfinished, hfinished', -⟩ | ⟨hf, -, hid, hfinished⟩
  · exact .inr (.inr ⟨rfl, rfl, rfl⟩)
  · obtain ⟨w, hw, rfl⟩ := TraceTables.reserve?_eq_some_iff.mp hr
    exact .inl ⟨i, hw, rfl, rfl, rfl, rfl⟩
  · exact .inr (.inl ⟨i, rfl, hid, hid', hfinished, hfinished'⟩)
  · exact .inr (.inr ⟨hf.watermark, hid, hfinished⟩)

theorem Advance.settings_width (h : Advance r t g t' g') :
    t'.settings = t.settings ∧ t'.time.width = t.time.width := by
  rcases h.framed_cases with ⟨i, -, -, rfl⟩ | ⟨i, hr, -, -⟩ | ⟨i, rfl, -⟩ | ⟨hf, -⟩
  · exact ⟨rfl, rfl⟩
  · obtain ⟨w, -, rfl⟩ := TraceTables.reserve?_eq_some_iff.mp hr
    exact ⟨rfl, rfl⟩
  · exact ⟨rfl, rfl⟩
  · exact ⟨hf.settings, hf.width⟩

theorem Advance.bucket_cases (h : Advance r t g t' g') :
    (∃ d, t.lockAt r d = .ok t' ∧ g'.held = g.held ++ [d] ∧ g'.indexed = g.indexed ∧
      g'.claimed = g.claimed ++ [d]) ∨
    (∃ i d, t' = t.putAt r ⟨r.time, i⟩ d ∧ g.held = Dimension.all ∧ g'.held = Dimension.all ∧
      g'.indexed = g.indexed ++ [(d, i)] ∧ g.claimed = Dimension.all ∧ g'.claimed = Dimension.all) ∨
    (∃ d ∈ g.held, t' = t.releaseAt r d ∧ g'.held = g.held.filter (· ≠ d) ∧ g'.indexed = g.indexed ∧
      g.claimed ⊆ g'.claimed) ∨
    (∃ d, t' = t.pruneAt r d ∧ g.held = [] ∧ g'.held = [] ∧ g'.indexed = g.indexed ∧
      g.claimed = d :: g'.claimed) ∨
    (t'.bucketAt = t.bucketAt ∧ t'.hasAt = t.hasAt ∧ t'.time.directory = t.time.directory ∧
      g'.held = g.held ∧ g'.indexed = g.indexed ∧ g.claimed ⊆ g'.claimed) := by
  have hall (ds : List Dimension) : ds ⊆ Dimension.all := fun d _ => d.mem_all
  cases h with
  | lock h => exact .inl ⟨_, h, rfl, rfl, rfl⟩
  | index => exact .inr (.inl ⟨_, _, rfl, rfl, rfl, by simp [Stage.indexed], rfl, rfl⟩)
  | release h => exact .inr (.inr (.inl ⟨_, h, rfl, rfl, rfl, List.Subset.refl _⟩))
  | unlock h =>
    refine .inr (.inr (.inl ⟨_, h, rfl, rfl, rfl, ?_⟩))
    exact fun d _ => List.mem_append_right _ d.mem_all
  | prune => exact .inr (.inr (.inr (.inl ⟨_, rfl, rfl, rfl, rfl, rfl⟩)))
  | reserve h =>
    obtain ⟨w, -, rfl⟩ := TraceTables.reserve?_eq_some_iff.mp h
    exact .inr (.inr (.inr (.inr ⟨rfl, rfl, rfl, rfl, rfl, hall _⟩)))
  | timeout =>
    refine .inr (.inr (.inr (.inr ⟨rfl, rfl, rfl, rfl, rfl, ?_⟩)))
    exact fun d _ => List.mem_append_right _ d.mem_all
  | exhaust =>
    refine .inr (.inr (.inr (.inr ⟨rfl, rfl, rfl, rfl, rfl, ?_⟩)))
    exact fun d _ => List.mem_append_right _ d.mem_all
  | retire =>
    refine .inr (.inr (.inr (.inr ⟨rfl, rfl, rfl, rfl, rfl, ?_⟩)))
    exact fun d _ => List.mem_append_right _ d.mem_all
  | _ => exact .inr (.inr (.inr (.inr ⟨rfl, rfl, rfl, rfl, rfl, hall _⟩)))

theorem Advance.names_eq (h : Advance r t g t' g') : t'.names = t.names := by
  cases h with
  | lock h => exact TraceTables.names_of_lockAt h
  | reserve h =>
    obtain ⟨w, -, rfl⟩ := TraceTables.reserve?_eq_some_iff.mp h
    rfl
  | index => exact TraceTables.names_putAt _
  | release => exact TraceTables.names_releaseAt
  | unlock => exact TraceTables.names_releaseAt
  | prune => exact TraceTables.names_pruneAt
  | _ => rfl

theorem Advance.indexed_subset (h : Advance r t g t' g') : g.indexed ⊆ g'.indexed := by
  rcases h.bucket_cases with ⟨d, -, -, hg, -⟩ | ⟨i, d, -, -, -, hg, -⟩ | ⟨d, -, -, -, hg, -⟩ |
    ⟨d, -, -, -, hg, -⟩ | ⟨-, -, -, -, hg, -⟩ <;> rw [hg]
  · exact List.Subset.refl _
  · exact List.subset_append_left _ _
  · exact List.Subset.refl _
  · exact List.Subset.refl _
  · exact List.Subset.refl _

end

theorem Step.settings_width {σ σ' : State} (h : Step σ σ') :
    σ'.tables.settings = σ.tables.settings ∧ σ'.tables.time.width = σ.tables.time.width := by
  cases h with
  | start r => exact ⟨rfl, rfl⟩
  | advance ha => exact ha.settings_width

theorem Run.settings_width {σ σ' : State} (h : Run σ σ') :
    σ'.tables.settings = σ.tables.settings ∧ σ'.tables.time.width = σ.tables.time.width := by
  induction h with
  | refl => exact ⟨rfl, rfl⟩
  | tail _ hstep ih => exact ⟨hstep.settings_width.1.trans ih.1, hstep.settings_width.2.trans ih.2⟩

theorem Run.names_eq {σ σ' : State} (h : Run σ σ') : σ'.tables.names = σ.tables.names := by
  induction h with
  | refl => rfl
  | tail _ hstep ih =>
    cases hstep with
    | start r => exact ih
    | advance ha => exact ha.names_eq.trans ih

end Interleaving
end FlightTrace
