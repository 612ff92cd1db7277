import FlightTrace.Proofs.Ordered
import FlightTrace.Tables.Tags

/-! The tag tables as one relation. After any calls, whatever their hooks did, both maps keep the pairs that
were added and not removed again, and a reader of either side sees just these. -/
namespace FlightTrace
namespace Tags

variable {κ σ : Type}

/-- The tables hold just these pairs, each of them on both sides. -/
structure Holds (t : Tags) (ps : Finset (Address × String)) : Prop where
  mem_tags : ∀ a tag, tag ∈ Multimap.values t.byAddress a ↔ (a, tag) ∈ ps
  mem_addresses : ∀ a tag, a ∈ Multimap.values t.byTag tag ↔ (a, tag) ∈ ps
  full_byAddress : Multimap.Full t.byAddress
  full_byTag : Multimap.Full t.byTag

namespace Holds

variable {t : Tags} {ps : Finset (Address × String)} (h : t.Holds ps) (a : Address) (tag : String)

theorem empty : Holds {} ∅ where
  mem_tags _ _ := iff_of_false Multimap.not_mem_values_empty (Finset.notMem_empty _)
  mem_addresses _ _ := iff_of_false Multimap.not_mem_values_empty (Finset.notMem_empty _)
  full_byAddress := Multimap.full_empty
  full_byTag := Multimap.full_empty

include h

theorem insert : (t.insert a tag).Holds (ps ∪ {(a, tag)}) where
  mem_tags b other := by
    rw [Tags.insert, Multimap.mem_values_enter, h.mem_tags, Finset.mem_union, Finset.mem_singleton,
      Prod.mk.injEq, or_comm]
  mem_addresses b other := by
    rw [Tags.insert, Multimap.mem_values_enter, h.mem_addresses, Finset.mem_union, Finset.mem_singleton,
      Prod.mk.injEq, or_comm, and_comm (a := other = tag)]
  full_byAddress := h.full_byAddress.enter
  full_byTag := h.full_byTag.enter

theorem erase : (t.erase a tag).Holds (ps.erase (a, tag)) where
  mem_tags b other := by
    rw [Tags.erase, Multimap.mem_values_strike, h.mem_tags, Finset.mem_erase, ne_eq, Prod.mk.injEq, and_comm]
  mem_addresses b other := by
    rw [Tags.erase, Multimap.mem_values_strike, h.mem_addresses, Finset.mem_erase, ne_eq, Prod.mk.injEq,
      and_comm, and_comm (a := other = tag)]
  full_byAddress := h.full_byAddress.strike
  full_byTag := h.full_byTag.strike

theorem contains_iff : t.contains a tag = true ↔ (a, tag) ∈ ps :=
  OrderedSet.contains_iff.trans (h.mem_tags a tag)

/-- The filter of a read from the side of the tags never takes anything away. -/
theorem mem_addressesWith : a ∈ t.addressesWith tag ↔ (a, tag) ∈ ps := by
  rw [addressesWith, OrderedSet.mem_filter, h.mem_addresses, h.contains_iff, and_self]

theorem size_eq : t.size = (ps.image Prod.snd).card := by
  refine h.full_byTag.size_eq fun tag => ?_
  simp only [Finset.mem_image, Prod.exists, exists_eq_right, h.mem_addresses]

variable (hook : Hook κ σ) (s : σ)

theorem addWith_of_mem (hp : (a, tag) ∈ ps) :
    addWith hook a tag s t = (.error (.error (.duplicateTag a tag)), s, t) := by
  rw [addWith, if_pos ((h.contains_iff a tag).mpr hp)]

theorem addWith_of_not_mem (hp : (a, tag) ∉ ps) : addWith hook a tag s t =
    ((hook s).1, (hook s).2, if (hook s).1.isOk then t.insert a tag else t) := by
  rw [addWith, if_neg fun hc => hp ((h.contains_iff a tag).mp hc)]
  rcases hook s with ⟨_ | _, s'⟩ <;> rfl

theorem removeWith_of_not_mem (hp : (a, tag) ∉ ps) : removeWith hook a tag s t = (.ok false, s, t) := by
  rw [removeWith, if_neg fun hc => hp ((h.contains_iff a tag).mp hc)]

theorem removeWith_of_mem (hp : (a, tag) ∈ ps) : removeWith hook a tag s t =
    ((hook s).1.map fun _ => true, (hook s).2, if (hook s).1.isOk then t.erase a tag else t) := by
  rw [removeWith, if_pos ((h.contains_iff a tag).mpr hp)]
  rcases hook s with ⟨_ | _, s'⟩ <;> rfl

end Holds

inductive Call (κ σ : Type) where
  | add (hook : Hook κ σ) (a : Address) (tag : String)
  | remove (hook : Hook κ σ) (a : Address) (tag : String)

/-- The tables after some calls, what the hooks work on, and the plain set of pairs that the calls that
succeeded have made. -/
structure History (σ : Type) where
  state : σ
  tags : Tags := {}
  pairs : Finset (Address × String) := ∅

namespace History

def step (h : History σ) : Call κ σ → History σ
  | .add hook a tag =>
    let (result, state, tags) := addWith hook a tag h.state h.tags
    ⟨state, tags, if result.isOk then h.pairs ∪ {(a, tag)} else h.pairs⟩
  | .remove hook a tag =>
    let (result, state, tags) := removeWith hook a tag h.state h.tags
    ⟨state, tags, if result.isOk then h.pairs.erase (a, tag) else h.pairs⟩

def run (s : σ) (calls : List (Call κ σ)) : History σ := calls.foldl step { state := s }

theorem step_holds {h : History σ} (hh : h.tags.Holds h.pairs) (c : Call κ σ) :
    (h.step c).tags.Holds (h.step c).pairs := by
  cases c with
  | add hook a tag =>
    by_cases hp : (a, tag) ∈ h.pairs
    · simp only [step, hh.addWith_of_mem a tag hook h.state hp]
      exact hh
    · simp only [step, hh.addWith_of_not_mem a tag hook h.state hp]
      split
      · exact hh.insert a tag
      · exact hh
  | remove hook a tag =>
    by_cases hp : (a, tag) ∈ h.pairs
    · simp only [step, hh.removeWith_of_mem a tag hook h.state hp]
      cases (hook h.state).1 with
      | ok _ => exact hh.erase a tag
      | error _ => exact hh
    · have herase : h.pairs.erase (a, tag) = h.pairs := Finset.erase_eq_of_notMem hp
      simp only [step, hh.removeWith_of_not_mem a tag hook h.state hp, herase, ite_self]
      exact hh

theorem run_holds (s : σ) (calls : List (Call κ σ)) : (run s calls).tags.Holds (run s calls).pairs := by
  induction calls using List.reverseRecOn with
  | nil => exact Holds.empty
  | append_singleton calls c ih =>
    rw [run, List.foldl_append]
    exact step_holds ih c

/-- After any calls the two maps are converses of each other, neither keeps an empty set, all reads are those of
the plain set of pairs, and so are the results of the next call. A call whose hook fails changes no table. -/
theorem run_is_one_relation (s₀ : σ) (calls : List (Call κ σ)) :
    let t := (run s₀ calls).tags
    let ps := (run s₀ calls).pairs
    (∀ a tag, tag ∈ Multimap.values t.byAddress a ↔ a ∈ Multimap.values t.byTag tag) ∧
      (∀ a tags, t.byAddress.get? a = some tags → tags ≠ ∅) ∧
      (∀ tag as, t.byTag.get? tag = some as → as ≠ ∅) ∧
      (∀ a tag, (tag ∈ t.tagsOf a ↔ (a, tag) ∈ ps) ∧ (a ∈ t.addressesWith tag ↔ (a, tag) ∈ ps) ∧
        (t.contains a tag = true ↔ (a, tag) ∈ ps)) ∧
      t.size = (ps.image Prod.snd).card ∧
      ∀ (hook : Hook κ σ) (a : Address) (tag : String) (s : σ),
        ((a, tag) ∈ ps → addWith hook a tag s t = (.error (.error (.duplicateTag a tag)), s, t)) ∧
          ((a, tag) ∉ ps → addWith hook a tag s t =
            ((hook s).1, (hook s).2, if (hook s).1.isOk then t.insert a tag else t)) ∧
          ((a, tag) ∉ ps → removeWith hook a tag s t = (.ok false, s, t)) ∧
          ((a, tag) ∈ ps → removeWith hook a tag s t =
            ((hook s).1.map fun _ => true, (hook s).2, if (hook s).1.isOk then t.erase a tag else t)) ∧
          ∀ f, (hook s).1 = .error f →
            (addWith hook a tag s t).2.2 = t ∧ (removeWith hook a tag s t).2.2 = t := by
  intro t ps
  have h : t.Holds ps := run_holds s₀ calls
  refine ⟨fun a tag => (h.mem_tags a tag).trans (h.mem_addresses a tag).symm, h.full_byAddress,
    h.full_byTag, fun a tag => ⟨h.mem_tags a tag, h.mem_addressesWith a tag, h.contains_iff a tag⟩,
    h.size_eq, fun hook a tag s => ⟨h.addWith_of_mem a tag hook s, h.addWith_of_not_mem a tag hook s,
      h.removeWith_of_not_mem a tag hook s, h.removeWith_of_mem a tag hook s, fun f hf => ?_⟩⟩
  by_cases hp : (a, tag) ∈ ps
  · simp [h.addWith_of_mem a tag hook s hp, h.removeWith_of_mem a tag hook s hp, hf, Except.isOk, Except.toBool]
  · simp [h.addWith_of_not_mem a tag hook s hp, h.removeWith_of_not_mem a tag hook s hp, hf, Except.isOk,
      Except.toBool]

end History
end Tags
end FlightTrace
