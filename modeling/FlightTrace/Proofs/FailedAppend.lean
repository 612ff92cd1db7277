import FlightTrace.Proofs.RenumberedReaders

/-! Appends that fail. Nothing is left of an append that could not get a bucket in time or that its hook refused:
it removes the buckets that it has made, and a number that it had got is finished and never used. Later appends
go on as if it had not been made, only that they may get numbers higher by one. -/
namespace FlightTrace

namespace TraceTables

variable {κ σ : Type} {hook : Hook κ σ} {t t' : TraceTables} {r : Trace} {s s' : σ} {e : Error}

theorem abandon_of_start {i : RecordId} (hl : t.Listed) (h : t.start r = .ok (i, t')) :
    t'.abandon i r = { t.prune r with watermark := t'.watermark.finish i.val } := by
  obtain ⟨t₁, hlock, hreserve⟩ := start_eq_ok_iff.mp h
  obtain ⟨w, -, rfl⟩ := reserve?_eq_some_iff.mp hreserve
  have hprune : (t₁.release r).prune r = t.prune r := by
    rw [release_eq_foldl, prune_release_of_locks Dimension.all (by decide) hlock hl]
  rw [← hprune]
  rfl

end TraceTables

namespace Interleaving

/-- An append that came to nothing has let go of a bucket of its trace and is still to prune it. -/
def Append.Leaves (width : Int) (a : Append) (s : Slot) : Prop :=
  ∃ o held left, a.stage = .undoing o held left ∧ ∃ d ∈ left, d ∉ held ∧ Slot.of? width a.record d = some s

/-- Readers find the same in two states, but for the numbers, which are told from `n` and `n'` on. -/
structure State.SeenAlike (n n' : Nat) (σ σ' : State) : Prop where
  appends : Matched (Corresponds n n') σ.appends σ'.appends
  get? : ∀ i i', Corresponds n n' i i' → σ'.tables.get? i' = σ.tables.get? i
  query : ∀ path range cancelled,
    σ'.tables.query path range cancelled = σ.tables.query path range cancelled
  size : σ'.tables.size = σ.tables.size
  inFlight : σ'.tables.watermark.inFlight = σ.tables.watermark.inFlight

namespace State

variable {settings : Settings} {n n' : Nat} {σ σ' : State} {s : Slot}

theorem Alike.seenAlike (h : σ.Alike settings n n' σ') : σ.SeenAlike n n' σ' where
  appends := h.appends
  get? _ _ := h.get?_eq
  query := h.query_eq
  size := h.size_eq
  inFlight := h.inFlight_eq

end State

variable {κ σ : Type} {hook : Hook κ σ} {t t' : TraceTables} {as : List Append} {r : Trace} {s s' : σ} {e : Error}
  {settings : Settings} {o : Option RecordId}

theorem reserved_eq_of_undone (h : Run (.start settings) ⟨t, as⟩)
    (h' : Run (.start settings) ⟨t', as ++ [⟨r, .undoing o [] []⟩]⟩) :
    t'.watermark.reserved = t.watermark.reserved + o.toList.length := by
  have hreserved := h.counted.reserved
  have hreserved' := h'.counted.reserved
  rw [length_filterMap_middle, List.append_nil] at hreserved'
  rw [hreserved', hreserved]
  rfl

theorem alike_of_undone (h : Run (.start settings) ⟨t, as⟩)
    (h' : Run (.start settings) ⟨t', as ++ [⟨r, .undoing o [] []⟩]⟩) :
    State.Alike settings t.watermark.reserved t'.watermark.reserved ⟨t, as⟩
      ⟨t', as ++ [⟨r, .undoing o [] []⟩]⟩ where
  reached := h
  reached' := h'
  appends := by
    have hself : Matched (Corresponds t.watermark.reserved t'.watermark.reserved) as as := by
      refine .refl fun a ha i hi => .inl ⟨?_, ?_, rfl⟩
      · exact ((h.sound (State.start_sound settings)).numbered i.val).mpr ⟨a, ha, i, hi, rfl⟩
      · exact ((h'.sound (State.start_sound settings)).numbered i.val).mpr
          ⟨a, List.mem_append_left _ ha, i, hi, rfl⟩
    have happend := hself.append (.right (r := r) (o := o) .nil)
    rwa [List.append_nil] at happend
  le := Nat.le_refl _
  le' := Nat.le_refl _
  reserved := Nat.add_comm _ _

namespace Overtaking

def late : Trace := { upper with address := lower.address }

def refuse : Hook Empty Unit := fun s => (.error (.error (.storage .unsynced)), s)

end Overtaking

open Overtaking

end Interleaving
end FlightTrace
