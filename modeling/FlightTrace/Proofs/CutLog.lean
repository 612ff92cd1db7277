import FlightTrace.Proofs.LogDamage
import FlightTrace.Proofs.LogHistory

/-! What is left of a log that a crash has cut. Its entries are the longest run whose frames lie within the bytes
that are left, and they are read behind whatever was read from the front of the file before. -/
namespace FlightTrace
namespace Log
namespace Replay

open FlightTrace.Log.Frame

/-- The first entries, as long as their frames take no more than so many bytes. -/
def within (n : Nat) : List Entry → List Entry
  | [] => []
  | e :: es => if (bytes e).length ≤ n then e :: within (n - (bytes e).length) es else []

variable {es more : List Entry} {n : Nat}

theorem within_isPrefix (n : Nat) (es : List Entry) : within n es <+: es := by
  induction es generalizing n with
  | nil => exact List.prefix_rfl
  | cons e es ih =>
    rw [within]
    split
    · exact List.cons_prefix_cons.mpr ⟨rfl, ih _⟩
    · exact List.nil_prefix

theorem length_frames_within (n : Nat) (es : List Entry) : (frames (within n es)).length ≤ n := by
  induction es generalizing n with
  | nil => exact Nat.zero_le n
  | cons e es ih =>
    rw [within]
    split
    · have := ih (n - (bytes e).length)
      rw [frames_cons, List.length_append]
      omega
    · exact Nat.zero_le n

theorem frames_isPrefix (h : more <+: es) : frames more <+: frames es := by
  obtain ⟨rest, rfl⟩ := h
  exact ⟨frames rest, (frames_append more rest).symm⟩

theorem length_frames_le (h : more <+: es) : (frames more).length ≤ (frames es).length :=
  (frames_isPrefix h).length_le

theorem prefix_within_iff (hmore : more <+: es) : more <+: within n es ↔ (frames more).length ≤ n := by
  constructor
  · rintro ⟨rest, hrest⟩
    have hlen := length_frames_within n es
    rw [← hrest, frames_append, List.length_append] at hlen
    omega
  · intro hlen
    induction more generalizing es n with
    | nil => exact List.nil_prefix
    | cons x more ih =>
      cases es with
      | nil => exact absurd (List.prefix_nil.mp hmore) (List.cons_ne_nil x more)
      | cons e es =>
        obtain ⟨rfl, htail⟩ := List.cons_prefix_cons.mp hmore
        rw [frames_cons, List.length_append] at hlen
        rw [within, if_pos (by omega)]
        exact List.cons_prefix_cons.mpr ⟨rfl, ih htail (by omega)⟩

theorem within_of_length_le (h : (frames es).length ≤ n) : within n es = es :=
  (within_isPrefix n es).eq_of_length_le ((prefix_within_iff List.prefix_rfl).mpr h).length_le

theorem within_length_frames (hmore : more <+: es) : within (frames more).length es = more := by
  obtain ⟨rest, hrest⟩ := (prefix_within_iff hmore).mpr (Nat.le_refl _)
  cases rest with
  | nil => rw [← hrest, List.append_nil]
  | cons e rest =>
    have hlen := length_frames_within (frames more).length es
    have hpos := bytes_pos e
    rw [← hrest, frames_append, frames_cons, List.length_append, List.length_append] at hlen
    omega

/-- Cutting a log twice leaves what the shorter cut leaves. -/
theorem within_min (hmore : more <+: es) : within (min n (frames more).length) es = within n more := by
  have hcut : within (min n (frames more).length) es <+: more := by
    have h := (prefix_within_iff (within_isPrefix _ es)).mpr
      ((length_frames_within (min n (frames more).length) es).trans (Nat.min_le_right _ _))
    rwa [within_length_frames hmore] at h
  have hback : within n more <+: within (min n (frames more).length) es :=
    (prefix_within_iff ((within_isPrefix n more).trans hmore)).mpr
      (Nat.le_min.mpr ⟨length_frames_within n more, length_frames_le (within_isPrefix n more)⟩)
  refine List.IsPrefix.eq_of_length_le ?_ hback.length_le
  exact (prefix_within_iff hcut).mpr ((length_frames_within _ es).trans (Nat.min_le_left _ _))

theorem frames_prefix_take_iff (hmore : more <+: es) :
    frames more <+: (frames es).take n ↔ more <+: within n es := by
  rw [prefix_within_iff hmore]
  constructor
  · intro h
    exact h.length_le.trans (List.length_take_le n _)
  · intro hlen
    have htake : (frames es).take n <+: frames es := List.take_prefix n _
    refine List.prefix_of_prefix_length_le (frames_isPrefix hmore) htake ?_
    rw [List.length_take]
    exact Nat.le_min.mpr ⟨hlen, length_frames_le hmore⟩

theorem take_prefix_within_iff {i : Nat} (hi : i < es.length) :
    frames (es.take (i + 1)) <+: (frames es).take n ↔ i < (within n es).length := by
  have hlen : (es.take (i + 1)).length = i + 1 := List.length_take_of_le hi
  have htake : es.take (i + 1) <+: es := List.take_prefix _ es
  rw [frames_prefix_take_iff htake]
  constructor
  · intro h
    have := h.length_le
    omega
  · intro h
    exact List.prefix_of_prefix_length_le htake (within_isPrefix n es) (by omega)

/-- What is left behind the whole frames is too short for a frame. -/
theorem take_frames_within (hes : ∀ e ∈ es, Fits e) (n : Nat) :
    ∃ part, RunsOut part ∧ (frames es).take n = frames (within n es) ++ part := by
  obtain ⟨kept, part, hkept, htake, hmax, hpart⟩ := take_frames es n
  have hlen : (frames kept).length ≤ n := by
    have := List.length_take_le n (frames es)
    rw [htake, List.length_append] at this
    omega
  have hwithin : within n es = kept :=
    (hmax _ (within_isPrefix n es) (length_frames_within n es)).eq_of_length_le
      ((prefix_within_iff hkept).mpr hlen).length_le
  refine ⟨part, ?_, by rw [hwithin, htake]⟩
  rcases hpart with rfl | ⟨e, he, j, hj, rfl⟩
  · exact .inl (by decide)
  · exact decode_eq_incomplete_iff.mp (decode_verified_take (verified_bytes (hes e he)) hj)

theorem take_onto_frames (base : List UInt8) (hmore : more <+: es) {k : Nat} (hk : base.length ≤ k) :
    (base ++ frames more).take k = base ++ (frames es).take (min (k - base.length) (frames more).length) := by
  obtain ⟨rest, rfl⟩ := hmore
  rw [List.take_append, List.take_of_length_le hk, ← List.take_take, frames_append, List.take_left]

theorem Framed.append {bs cs : List UInt8} {es fs : List Entry} (h : Framed bs es) (h' : Framed cs fs) :
    Framed (bs ++ cs) (es ++ fs) := by
  induction h with
  | nil => exact h'
  | cons hv _ ih =>
    rw [List.append_assoc]
    exact .cons hv ih

theorem Framed.isPrefix {bs cs : List UInt8} {es fs : List Entry} (h : Framed bs es) (h' : Framed cs fs)
    (hbs : bs <+: cs) : es <+: fs := by
  induction h generalizing cs fs with
  | nil => exact List.nil_prefix
  | @cons f bs e es hv _ ih =>
    cases h' with
    | nil =>
      obtain ⟨rfl, -⟩ := List.append_eq_nil_iff.mp (List.prefix_nil.mp hbs)
      exact absurd (length_of_verified hv) (by decide)
    | @cons g cs x fs hv' h' =>
      obtain ⟨rest, hrest⟩ := hbs
      rw [List.append_assoc] at hrest
      have hfirst := decode_verified_append hv (bs ++ rest)
      rw [hrest, decode_verified_append hv'] at hfirst
      obtain ⟨rfl, hlen⟩ : x = e ∧ g.length = f.length := by simpa using hfirst
      obtain ⟨-, hbehind⟩ := List.append_inj hrest hlen.symm
      exact List.cons_prefix_cons.mpr ⟨rfl, ih h' ⟨rest, hbehind⟩⟩

theorem entries_prefix_of_ofBytes {bs cs : List UInt8} {fs : List Entry} (h : Framed cs fs) (hbs : bs <+: cs)
    {r : Replay} (hr : ofBytes bs = .ok r) : r.entries <+: fs := by
  rcases ofBytes_eq_ok_iff.mp hr with ⟨sound, rest, rfl, hf, -⟩ | ⟨sound, rest, rfl, hf, -⟩ <;>
    exact hf.isPrefix h ((List.prefix_append sound rest).trans hbs)

/-- A log whose end was cut is read up to the last whole frame, if it is read at all. -/
theorem eq_of_ofBytes_cut {base : List UInt8} {old : List Entry} (hbase : Framed base old)
    (hes : ∀ e ∈ es, Fits e) {r : Replay} (hr : ofBytes (base ++ (frames es).take n) = .ok r) :
    r.entries = old ++ within n es ∧ r.soundLength = base.length + (frames (within n es)).length := by
  obtain ⟨part, hruns, htake⟩ := take_frames_within hes n
  have hwithin : ∀ e ∈ within n es, Fits e := fun e he => hes e ((within_isPrefix n es).subset he)
  have ⟨hok, herror⟩ :=
    ofBytes_framed_append (hbase.append (framed_frames hwithin)) (not_starts_of_runsOut hruns)
  rw [htake, ← List.append_assoc] at hr
  by_cases hends : Ended part ∨ Unreadable part
  · rw [hok hends] at hr
    obtain rfl := Except.ok.inj hr
    exact ⟨rfl, List.length_append⟩
  · obtain ⟨f, hf⟩ := herror hends
    rw [hf] at hr
    cases hr

end Replay
end Log
end FlightTrace
