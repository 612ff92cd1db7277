import FlightTrace.Proofs.InstantText
import FlightTrace.Proofs.LogScan

/-! Entries and frames read back. A reader that meets what the writer of its kind wrote gives the value and
leaves whatever follows, so an entry is read part by part and a log frame by frame. No reader looks behind
what it takes, so nothing is read from an entry that is cut short. -/
namespace FlightTrace

namespace Binary

/-- A reader takes a value from the front of some bytes and leaves the rest. -/
def Reads {α : Type} (read : Reader α) (bs : List UInt8) (a : α) : Prop :=
  ∀ rest, read (bs ++ rest) = some (a, rest)

theorem Reads.bind {α β : Type} {x : Reader α} {f : α → Reader β} {bs cs : List UInt8} {a : α} {b : β}
    (hx : Reads x bs a) (hf : Reads (f a) cs b) : Reads (x >>= f) (bs ++ cs) b := by
  intro rest
  have e : (x >>= f) (bs ++ cs ++ rest) = (x (bs ++ (cs ++ rest))).bind fun p => f p.1 p.2 := by
    rw [List.append_assoc]
    rfl
  rw [e, hx]
  exact hf rest

theorem Reads.map {α β : Type} {x : Reader α} {bs : List UInt8} {a : α} (f : α → β)
    (hx : Reads x bs a) : Reads (x >>= fun a => pure (f a)) bs (f a) := by
  have h : Reads (x >>= fun a => pure (f a)) (bs ++ []) (f a) := hx.bind fun rest => rfl
  rwa [List.append_nil] at h

theorem Reads.lift {α β : Type} {x : Reader α} {f : α → Option β} {bs : List UInt8} {a : α} {b : β}
    (hx : Reads x bs a) (hf : f a = some b) :
    Reads (x >>= fun a => (f a : Option β)) bs b := by
  have hb : Reads (liftM (f a)) [] b := by
    rw [hf]
    exact fun rest => rfl
  have h := hx.bind (f := fun a => liftM (f a)) hb
  rwa [List.append_nil] at h

theorem reads_natural {width n : Nat} (h : n < Nat.pow 256 width) :
    Reads (readNatural width) (natural width n) n :=
  fun rest => readNatural_natural_append width n h rest

theorem reads_text {s : String} (h : s.utf8ByteSize < Nat.pow 256 8) : Reads readText (text s) s := by
  have hbytes : Reads (readBytes s.utf8ByteSize) (Text.utf8 s) (Text.utf8 s) :=
    fun rest => readBytes_append (Text.utf8 s) rest
  exact (reads_natural h).bind (hbytes.lift (Text.ofUtf8?_utf8 s))

theorem reads_option {α : Type} {read : Reader α} {write : α → List UInt8} {o : Option α}
    (h : ∀ a ∈ o, Reads read (write a) a) : Reads (readOption read) (option write o) o := by
  cases o with
  | none =>
    have h₀ : Reads (readNatural 1) [0] 0 := reads_natural (by decide)
    have hnone : Reads (pure none) [] (none : Option α) := fun rest => rfl
    exact h₀.bind hnone
  | some a =>
    have h₁ : Reads (readNatural 1) [1] 1 := reads_natural (by decide)
    exact h₁.bind ((h a rfl).map some)

/-- What a reader takes from some bytes it takes from any that go on behind them. -/
def Extends {α : Type} (read : Reader α) : Prop :=
  ∀ ⦃bs a rest⦄, read bs = some (a, rest) → ∀ more, read (bs ++ more) = some (a, rest ++ more)

theorem Extends.bind {α β : Type} {x : Reader α} {f : α → Reader β} (hx : Extends x)
    (hf : ∀ a, Extends (f a)) : Extends (x >>= f) := by
  intro bs b rest h more
  have hbind : ∀ cs, (x >>= f) cs = (x cs).bind fun p => f p.1 p.2 := fun cs => rfl
  rw [hbind] at h ⊢
  obtain ⟨⟨a, middle⟩, ha, hb⟩ := Option.bind_eq_some_iff.mp h
  rw [hx ha more]
  exact hf a hb more

theorem extends_pure {α : Type} (a : α) : Extends (pure a) := by
  intro bs b rest h more
  obtain ⟨rfl, rfl⟩ := Prod.mk.inj (Option.some.inj h)
  rfl

theorem extends_lift {α : Type} (o : Option α) : Extends (liftM o) := by
  intro bs b rest h more
  cases o with
  | none => cases h
  | some a => exact extends_pure a h more

theorem extends_readBytes (n : Nat) : Extends (readBytes n) := by
  intro bs a rest h more
  unfold readBytes at h ⊢
  split at h
  · cases h
  · rename_i hlen
    have hle := Nat.not_lt.mp hlen
    obtain ⟨rfl, rfl⟩ := Prod.mk.inj (Option.some.inj h)
    rw [if_neg (by rw [List.length_append]; omega), List.take_append_of_le_length hle,
      List.drop_append_of_le_length hle]

theorem extends_readNatural (width : Nat) : Extends (readNatural width) :=
  (extends_readBytes width).bind fun _ => extends_pure _

theorem extends_readText : Extends readText :=
  (extends_readNatural 8).bind fun n => (extends_readBytes n).bind fun _ => extends_lift _

theorem extends_readOption {α : Type} {read : Reader α} (h : Extends read) :
    Extends (readOption read) := by
  refine (extends_readNatural 1).bind fun n => ?_
  split
  · exact extends_pure none
  · exact h.bind fun a => extends_pure (some a)
  · exact extends_lift none

end Binary

namespace Log
namespace Entry

open Binary

theorem reads_address (a : Address) : Reads readAddress (address a) a := by
  have h : a.val < Nat.pow 256 4 := Nat.lt_of_le_of_lt a.le_max (by decide)
  exact (reads_natural h).lift (Address.ofNat?_val a)

theorem reads_instant {t : Instant} (h : t.text.utf8ByteSize < Nat.pow 256 8) :
    Reads readInstant (instant t) t :=
  (reads_text h).lift (Instant.ofText?_text t)

theorem reads_callsign {c : Callsign} (h : c.text.utf8ByteSize < Nat.pow 256 8) :
    Reads readCallsign (callsign c) c :=
  (reads_text h).lift (Callsign.ofText?_text c)

theorem reads_squawk (c : Squawk) : Reads readSquawk (squawk c) c :=
  (reads_natural (Nat.lt_of_lt_of_le c.lt_bound (by decide))).lift (Squawk.ofNat?_val c)

theorem reads_source (t : SourceTag) : Reads readSource (source t) t := by
  have h : t.char.toNat < Nat.pow 256 1 := Nat.lt_of_le_of_lt t.visible.2 (by decide)
  have hc : SourceTag.ofChar? (Char.ofNat t.char.toNat) = some t := by
    rw [Char.ofNat_toNat]
    exact SourceTag.ofChar?_char t
  exact (reads_natural h).lift hc

theorem reads_wake (w : WakeCategory) : Reads readWake (wake w) w := by
  have h : w.rank < Nat.pow 256 4 := by cases w <;> decide
  exact (reads_natural h).lift (WakeCategory.ofRank?_rank w)

theorem reads_trace {t : Trace} (ht : t.time.text.utf8ByteSize < Nat.pow 256 8)
    (hc : ∀ c ∈ t.callsign, c.text.utf8ByteSize < Nat.pow 256 8) :
    Reads readTrace (instant t.time ++ (address t.address ++ (option callsign t.callsign ++
      (option squawk t.squawk ++ option source t.source)))) t :=
  (reads_instant ht).bind <| (reads_address t.address).bind <|
    (reads_option fun c h => reads_callsign (hc c h)).bind <|
    (reads_option fun c _ => reads_squawk c).bind <|
    (reads_option fun s _ => reads_source s).map fun s => { t with source := s }

theorem reads_registration {r : Registration} (hmark : r.mark.utf8ByteSize < Nat.pow 256 8)
    (hmodel : ∀ s ∈ r.model, s.utf8ByteSize < Nat.pow 256 8) :
    Reads readRegistration (address r.address ++ (text r.mark ++ option text r.model)) r :=
  (reads_address r.address).bind <| (reads_text hmark).bind <|
    (reads_option fun s h => reads_text (hmodel s h)).map fun m => { r with model := m }

theorem reads_model {m : AircraftModel} (hcode : m.code.utf8ByteSize < Nat.pow 256 8)
    (hname : ∀ s ∈ m.name, s.utf8ByteSize < Nat.pow 256 8)
    (hdescription : ∀ s ∈ m.description, s.utf8ByteSize < Nat.pow 256 8) :
    Reads readModel (text m.code ++ (option text m.name ++ (option text m.description ++
      option wake m.wake))) m :=
  (reads_text hcode).bind <| (reads_option fun s h => reads_text (hname s h)).bind <|
    (reads_option fun s h => reads_text (hdescription s h)).bind <|
    (reads_option fun w _ => reads_wake w).map fun w => { m with wake := w }

theorem size_le_of_mem {α : Type} (size : α → Nat) {o : Option α} {a : α} (h : a ∈ o) :
    size a ≤ optionSize size o := by
  rw [Option.mem_def.mp h]
  exact Nat.le_add_left _ _

/-- An entry is read back from its bytes. No text in it is longer than the whole entry. -/
theorem reads_bytes {e : Entry} (h : e.size < Nat.pow 256 8) : Reads read e.bytes e := by
  have hindex : e.index < Nat.pow 256 4 := by
    have : e.index ≤ 5 := by cases e <;> simp [index]
    exact Nat.lt_of_le_of_lt this (by decide)
  have short : ∀ k, k ≤ e.size → k < Nat.pow 256 8 := fun k hk => Nat.lt_of_le_of_lt hk h
  have shortOption : ∀ o : Option String, optionSize textSize o ≤ e.size →
      ∀ s ∈ o, s.utf8ByteSize < Nat.pow 256 8 := by
    intro o ho s hs
    have hle := (size_le_of_mem textSize hs).trans ho
    exact short _ (by simp only [textSize] at hle; omega)
  refine (reads_natural hindex).bind ?_
  cases e with
  | trace t =>
    have htime := short t.time.text.utf8ByteSize (by simp only [size, textSize]; omega)
    have hcall : ∀ c ∈ t.callsign, c.text.utf8ByteSize < Nat.pow 256 8 := by
      intro c hc
      have := size_le_of_mem (fun c => textSize c.text) hc
      exact short _ (by simp only [size, textSize] at this ⊢; omega)
    have hread := (reads_trace htime hcall).map Entry.trace
    simp only [List.append_assoc]
    exact hread
  | registration r =>
    have hmark := short r.mark.utf8ByteSize (by simp only [size, textSize]; omega)
    have hmodel := shortOption r.model (by simp only [size]; omega)
    have hread := (reads_registration hmark hmodel).map Entry.registration
    simp only [List.append_assoc]
    exact hread
  | model m =>
    have hcode := short m.code.utf8ByteSize (by simp only [size, textSize]; omega)
    have hname := shortOption m.name (by simp only [size]; omega)
    have hdescription := shortOption m.description (by simp only [size]; omega)
    have hread := (reads_model hcode hname hdescription).map Entry.model
    simp only [List.append_assoc]
    exact hread
  | tagAdded a tag =>
    have htag := short tag.utf8ByteSize (by simp only [size, textSize]; omega)
    exact (reads_address a).bind ((reads_text htag).map (Entry.tagAdded a))
  | tagRemoved a tag =>
    have htag := short tag.utf8ByteSize (by simp only [size, textSize]; omega)
    exact (reads_address a).bind ((reads_text htag).map (Entry.tagRemoved a))
  | document k v =>
    have hkey := short k.utf8ByteSize (by simp only [size, textSize]; omega)
    have htext := short v.utf8ByteSize (by simp only [size, textSize]; omega)
    exact (reads_text hkey).bind ((reads_text htext).map (Entry.document k))

theorem ofBytes?_bytes_append {e : Entry} (h : e.size < Nat.pow 256 8) (rest : List UInt8) :
    ofBytes? (e.bytes ++ rest) = some e := by
  rw [ofBytes?, reads_bytes h rest]
  rfl

theorem extends_readAddress : Extends readAddress :=
  (extends_readNatural 4).bind fun _ => extends_lift _

theorem extends_readTrace : Extends readTrace :=
  (extends_readText.bind fun _ => extends_lift _).bind fun _ =>
    extends_readAddress.bind fun _ =>
    (extends_readOption (extends_readText.bind fun _ => extends_lift _)).bind fun _ =>
    (extends_readOption ((extends_readNatural 2).bind fun _ => extends_lift _)).bind fun _ =>
    (extends_readOption ((extends_readNatural 1).bind fun _ => extends_lift _)).bind fun _ =>
    extends_pure _

theorem extends_readRegistration : Extends readRegistration :=
  extends_readAddress.bind fun _ => extends_readText.bind fun _ =>
    (extends_readOption extends_readText).bind fun _ => extends_pure _

theorem extends_readModel : Extends readModel :=
  extends_readText.bind fun _ => (extends_readOption extends_readText).bind fun _ =>
    (extends_readOption extends_readText).bind fun _ =>
    (extends_readOption ((extends_readNatural 4).bind fun _ => extends_lift _)).bind fun _ =>
    extends_pure _

theorem extends_read : Extends read := by
  refine (extends_readNatural 4).bind fun n => ?_
  split
  · exact extends_readTrace.bind fun _ => extends_pure _
  · exact extends_readRegistration.bind fun _ => extends_pure _
  · exact extends_readModel.bind fun _ => extends_pure _
  · exact extends_readAddress.bind fun _ => extends_readText.bind fun _ => extends_pure _
  · exact extends_readAddress.bind fun _ => extends_readText.bind fun _ => extends_pure _
  · exact extends_readText.bind fun _ => extends_readText.bind fun _ => extends_pure _
  · exact extends_lift none

/-- Nothing is read from the bytes of an entry if some of them are missing at the end. -/
theorem ofBytes?_take {e : Entry} (h : e.size < Nat.pow 256 8) {k : Nat} (hk : k < e.size) :
    ofBytes? (e.bytes.take k) = none := by
  cases hread : read (e.bytes.take k) with
  | none => rw [ofBytes?, hread]; rfl
  | some p =>
    have hall := extends_read hread (e.bytes.drop k)
    have hown := reads_bytes h []
    rw [List.take_append_drop] at hall
    rw [List.append_nil, hall] at hown
    have hrest := congrArg List.length (Prod.mk.inj (Option.some.inj hown)).2
    rw [List.length_append, List.length_drop, length_bytes, List.length_nil] at hrest
    omega

/-- From the front of bytes that begin as those of an entry, that entry is read or nothing. -/
theorem eq_of_ofBytes?_of_append_eq {e x : Entry} (h : e.size < Nat.pow 256 8)
    {front back rest : List UInt8} (hread : ofBytes? front = some x)
    (heq : front ++ back = e.bytes ++ rest) : e.size ≤ front.length ∧ x = e := by
  have hfront : front <+: e.bytes ++ rest := ⟨back, heq⟩
  have hbytes : e.bytes <+: e.bytes ++ rest := List.prefix_append _ _
  have hlen : e.bytes.length = e.size := length_bytes e
  by_cases hshort : front.length < e.size
  · have hcut := List.prefix_of_prefix_length_le hfront hbytes (by omega)
    rw [List.prefix_iff_eq_take.mp hcut, ofBytes?_take h hshort] at hread
    cases hread
  · have hle := Nat.not_lt.mp hshort
    obtain ⟨more, rfl⟩ := List.prefix_of_prefix_length_le hbytes hfront (by omega)
    rw [ofBytes?_bytes_append h] at hread
    exact ⟨hle, (Option.some.inj hread).symm⟩

end Entry

namespace Frame

def Fits (e : Entry) : Prop := bodySize e ≤ maxBody

instance : DecidablePred Fits := fun e => inferInstanceAs (Decidable (bodySize e ≤ maxBody))

theorem Fits.size_lt {e : Entry} (h : Fits e) : e.size < Nat.pow 256 8 :=
  Nat.lt_of_le_of_lt (Nat.le_trans (Nat.le_add_left _ _) h) (by decide)

theorem encode_eq_ok_iff {e : Entry} {bs : List UInt8} :
    encode e = .ok bs ↔ Fits e ∧ bs = bytes e := by
  unfold encode size Fits
  by_cases h : maxBody < bodySize e
  · simp [h, Except.map, Nat.not_le.mpr h]
  · simp [h, Except.map, Nat.not_lt.mp h, eq_comm]

theorem verified_bytes {e : Entry} (h : Fits e) : Verified (bytes e) e := by
  have hread : Entry.ofBytes? (e.bytes ++ []) = some e := Entry.ofBytes?_bytes_append h.size_lt []
  refine ⟨e.bytes, by rwa [List.append_nil] at hread, ?_, ?_⟩
  · rwa [Entry.length_bytes]
  · rw [Entry.length_bytes]
    rfl

theorem decode_bytes_append {e : Entry} (h : Fits e) (rest : List UInt8) :
    decode (bytes e ++ rest) = .ok (.whole e (bytes e).length) :=
  decode_verified_append (verified_bytes h) rest

/-- What is at an offset of a log, with the offset in the faults. -/
def decodeAt (offset : Nat) (bs : List UInt8) : Except CorruptionFault Decoded :=
  (decode bs).mapError (.frame offset)

theorem decodeAt_eq_ok_iff {offset : Nat} {bs : List UInt8} {d : Decoded} :
    decodeAt offset bs = .ok d ↔ decode bs = .ok d := by
  unfold decodeAt
  cases decode bs <;> simp [Except.mapError]

/-- Frames delimit themselves. The frame of an entry is decoded to that entry before any other bytes, and no
part of it that is cut short is decoded; whatever is decoded is told from its own bytes alone. An entry has
a frame unless it is too long for one. -/
theorem frames_delimit_themselves (offset : Nat) :
    (∀ e bs, encode e = .ok bs →
      (∀ rest, decodeAt offset (bs ++ rest) = .ok (.whole e bs.length)) ∧
      ∀ k < bs.length, decodeAt offset (bs.take k) = .ok .incomplete) ∧
    (∀ bs e n, decodeAt offset bs = .ok (.whole e n) →
      9 ≤ n ∧ n ≤ bs.length ∧
      ∀ more, bs.take n <+: more → decodeAt offset more = .ok (.whole e n)) ∧
    ∀ e, (bodySize e ≤ maxBody → encode e = .ok (bytes e) ∧ (bytes e).length = 4 + bodySize e) ∧
      (maxBody < bodySize e → encode e = .error (.oversized (bodySize e))) := by
  refine ⟨?_, ?_, ?_⟩
  · intro e bs he
    obtain ⟨hfits, rfl⟩ := encode_eq_ok_iff.mp he
    refine ⟨fun rest => ?_, fun k hk => ?_⟩
    · exact decodeAt_eq_ok_iff.mpr (decode_bytes_append hfits rest)
    · exact decodeAt_eq_ok_iff.mpr (decode_verified_take (verified_bytes hfits) hk)
  · intro bs e n hd
    have hd := decodeAt_eq_ok_iff.mp hd
    obtain ⟨h₉, hn⟩ := length_of_decode hd
    exact ⟨h₉, hn, fun more hp => decodeAt_eq_ok_iff.mpr (decode_of_startsWith hd hp)⟩
  · intro e
    refine ⟨fun h => ⟨encode_eq_ok_iff.mpr ⟨h, rfl⟩, length_bytes e⟩, fun h => ?_⟩
    simp [encode, size, h, Except.map]

end Frame

namespace Replay

def frames (es : List Entry) : List UInt8 := es.flatMap Frame.bytes

@[simp] theorem frames_append (es fs : List Entry) : frames (es ++ fs) = frames es ++ frames fs :=
  List.flatMap_append

@[simp] theorem frames_singleton (e : Entry) : frames [e] = Frame.bytes e := by
  simp [frames]

@[simp] theorem frames_nil : frames [] = [] := rfl

@[simp] theorem frames_cons (e : Entry) (es : List Entry) : frames (e :: es) = Frame.bytes e ++ frames es :=
  rfl

theorem framed_frames {es : List Entry} (h : ∀ e ∈ es, Frame.Fits e) : Framed (frames es) es := by
  induction es with
  | nil => exact .nil
  | cons e es ih =>
    have he := Frame.verified_bytes (h e List.mem_cons_self)
    exact .cons he (ih fun f hf => h f (List.mem_cons_of_mem _ hf))

/-- A log of whole frames is read as exactly their entries, with nothing torn. -/
theorem scan_frames {es : List Entry} (h : ∀ e ∈ es, Frame.Fits e) (offset : Nat) :
    scan offset (frames es) = .ok ⟨es, offset + (frames es).length, 0⟩ := by
  have hs := scan_framed_append (framed_frames h) offset []
  rw [List.append_nil, scan_nil] at hs
  simpa [Except.map, torn] using hs

theorem ofBytes_frames {es : List Entry} (h : ∀ e ∈ es, Frame.Fits e) :
    ofBytes (frames es) = .ok ⟨es, (frames es).length, 0⟩ := by
  have := scan_frames h 0
  rwa [Nat.zero_add] at this

end Replay
end Log
end FlightTrace
