import FlightTrace.Document
import FlightTrace.Proofs.JsonText
import FlightTrace.Proofs.Ordered

/-! What readers find in documents. A field is told by its name, wherever the order of names puts it, so that each part
of a value is found in the document of that part. The depth of a document is counted along the way. -/
namespace FlightTrace

namespace Json

/-- A document in the form of a text, without binary fractions and at most so deep. -/
structure Plain (n : Nat) (v : Json) : Prop where
  canonical : Canonical v
  realFree : RealFree v
  depth_le : depth v ≤ n

variable {n : Nat} {v : Json}

theorem Plain.readable (h : v.Plain n) (hlt : n < 128) : v.Readable :=
  ⟨h.canonical, h.realFree, h.depth_le.trans_lt hlt⟩

theorem plain_null : null.Plain n := ⟨trivial, trivial, Nat.zero_le n⟩

theorem plain_string (s : String) : (string s).Plain n := ⟨trivial, trivial, Nat.zero_le n⟩

theorem plain_number {m : Number} (hreal : ∀ x, m ≠ .real x) : (number m).Plain n :=
  ⟨trivial, hreal, Nat.zero_le n⟩

theorem plain_ofNat (k : Nat) : (ofNat k).Plain n := by
  rw [ofNat]
  split
  · exact plain_number fun x => Number.noConfusion
  · exact plain_null

theorem plain_ofInt (k : Int) : (ofInt k).Plain n := by
  rw [ofInt.eq_def]
  split
  · exact plain_ofNat _
  · split
    · exact plain_number fun x => Number.noConfusion
    · exact plain_null

theorem plain_array {vs : List Json} (h : ∀ v ∈ vs, v.Plain n) : (array vs).Plain (n + 1) := by
  suffices hitems : CanonicalItems vs ∧ RealFreeItems vs ∧ itemsDepth vs ≤ n from
    ⟨hitems.1, hitems.2.1, Nat.succ_le_succ hitems.2.2⟩
  induction vs with
  | nil => exact ⟨trivial, trivial, Nat.zero_le n⟩
  | cons v vs ih =>
    obtain ⟨hv, hvs⟩ := List.forall_mem_cons.mp h
    obtain ⟨hc, hr, hd⟩ := ih hvs
    exact ⟨⟨hv.canonical, hc⟩, ⟨hv.realFree, hr⟩, Nat.max_le.mpr ⟨hv.depth_le, hd⟩⟩

theorem plain_object {fs : List (String × Json)} (hfs : fs.Pairwise fun a b => compare a.1 b.1 = .lt)
    (h : ∀ f ∈ fs, f.2.Plain n) : (object fs).Plain (n + 1) := by
  suffices hfields : CanonicalFields fs ∧ RealFreeFields fs ∧ fieldsDepth fs ≤ n from
    ⟨⟨hfs, hfields.1⟩, hfields.2.1, Nat.succ_le_succ hfields.2.2⟩
  clear hfs
  induction fs with
  | nil => exact ⟨trivial, trivial, Nat.zero_le n⟩
  | cons f fs ih =>
    obtain ⟨hf, hfs⟩ := List.forall_mem_cons.mp h
    obtain ⟨hc, hr, hd⟩ := ih hfs
    exact ⟨⟨hf.canonical, hc⟩, ⟨hf.realFree, hr⟩, Nat.max_le.mpr ⟨hf.depth_le, hd⟩⟩

def fieldMap (fs : List (String × Json)) : OrderedMap String Json := fs.foldl (fun m f => m.insert f.1 f.2) ∅

theorem ofFields_eq (fs : List (String × Json)) : ofFields fs = object (fieldMap fs).toList := by
  have hfold : (fieldMap fs).toList = fs.foldl (fun ps f => OrderedMap.insertList f.1 f.2 ps) [] :=
    (List.foldl_hom OrderedMap.toList fun _ _ => rfl).symm
  rw [ofFields, hfold]

theorem lookup_eq_some_iff {fs : List (String × Json)} (hn : (fs.map (·.1)).Nodup) {name : String} :
    fs.lookup name = some v ↔ (name, v) ∈ fs := by
  rw [List.lookup_eq_some_iff]
  constructor
  · rintro ⟨before, after, rfl, -⟩
    exact List.mem_append_right _ List.mem_cons_self
  · intro h
    obtain ⟨before, after, rfl⟩ := List.append_of_mem h
    refine ⟨before, after, rfl, fun f hf => bne_iff_ne.mpr fun heq => ?_⟩
    rw [List.map_append, List.nodup_append] at hn
    exact hn.2.2 _ (List.mem_map_of_mem hf) _ (List.mem_map_of_mem List.mem_cons_self) heq.symm

theorem get?_fieldMap {fs : List (String × Json)} (hn : (fs.map (·.1)).Nodup) (name : String) :
    (fieldMap fs).get? name = fs.lookup name := by
  suffices key : ∀ m : OrderedMap String Json,
      (fs.foldl (fun m f => m.insert f.1 f.2) m).get? name = (fs.lookup name).or (m.get? name) from
    (key ∅).trans Option.or_none
  induction fs with
  | nil => exact fun m => rfl
  | cons f fs ih =>
    obtain ⟨hf, hn⟩ := List.nodup_cons.mp hn
    intro m
    rw [List.foldl_cons, ih hn, OrderedMap.get?_insert, List.lookup_cons]
    by_cases hname : name = f.1
    · have hnone : fs.lookup name = none := by
        rw [List.lookup_eq_none_iff]
        intro g hg
        have hne : f.1 ≠ g.1 := fun heq => hf (List.mem_map.mpr ⟨g, hg, heq.symm⟩)
        exact bne_iff_ne.mpr (hname ▸ hne)
      rw [hnone, if_pos hname, beq_iff_eq.mpr hname]
      rfl
    · rw [if_neg hname, beq_eq_false_iff_ne.mpr hname]

theorem lookup_toList (m : OrderedMap String Json) (name : String) : m.toList.lookup name = m.get? name := by
  rw [OrderedMap.get?]
  induction m.toList with
  | nil => rfl
  | cons f fs ih =>
    rw [List.lookup_cons, OrderedMap.lookupList, ih]
    by_cases hname : name = f.1
    · rw [beq_iff_eq.mpr hname, if_pos (hname ▸ Std.ReflCmp.compare_self)]
    · rw [beq_eq_false_iff_ne.mpr hname, if_neg fun h => hname (Std.LawfulEqOrd.eq_of_compare h).symm]

/-- The fields of an object are those that it is made from, if their names are different. -/
theorem mem_fieldMap_iff {fs : List (String × Json)} (hn : (fs.map (·.1)).Nodup) {f : String × Json} :
    f ∈ (fieldMap fs).toList ↔ f ∈ fs := by
  rw [OrderedMap.mem_toList_iff, get?_fieldMap hn, lookup_eq_some_iff hn]

theorem plain_ofFields {fs : List (String × Json)} (hn : (fs.map (·.1)).Nodup) (h : ∀ f ∈ fs, f.2.Plain n) :
    (ofFields fs).Plain (n + 1) := by
  rw [ofFields_eq]
  exact plain_object (fieldMap fs).ascending fun f hf => h f ((mem_fieldMap_iff hn).mp hf)

theorem plain_single {name : String} (h : v.Plain n) : (object [(name, v)]).Plain (n + 1) :=
  plain_object (List.pairwise_singleton _ _) (List.forall_mem_singleton.mpr h)

end Json

namespace Document

variable {α β : Type} {n : Nat} {v : Json} {a : α} {reader : Reader α}

/-- A reader finds a value in a document that its text keeps. The document is not null, which would be no value at
all. -/
structure Reader.Finds (reader : Reader α) (n : Nat) (v : Json) (a : α) : Prop where
  eq : reader v = .ok a
  plain : v.Plain n
  ne_null : v ≠ .null

def Found [Document α] (n : Nat) (a : α) : Prop := Reader.Finds ofJson n (toJson a) a

theorem Reader.Finds.bind (h : reader.Finds n v a) {g : α → Except Refusal β} {b : β} (hg : g a = .ok b) :
    Reader.Finds (fun v => (reader v).bind g) n v b := by
  refine ⟨?_, h.plain, h.ne_null⟩
  rw [h.eq]
  exact hg

theorem Reader.Finds.map (h : reader.Finds n v a) (f : α → β) : Reader.Finds (fun v => (reader v).map f) n v (f a) :=
  ⟨congrArg (Except.map f) h.eq, h.plain, h.ne_null⟩

theorem finds_string (s : String) : Reader.Finds string n (.string s) s := ⟨rfl, Json.plain_string s, nofun⟩

theorem finds_char (c : Char) : Reader.Finds char n (.string (String.singleton c)) c :=
  ⟨by simp [char], Json.plain_string _, nofun⟩

theorem finds_nat {bound : Nat} (hbound : bound ≤ 0x10000000000000000) (k : { k : Nat // k < bound }) :
    Reader.Finds (nat bound) n (.ofNat k.val) k := by
  have hk := k.property.trans_le hbound
  refine ⟨?_, Json.plain_ofNat _, ?_⟩
  · rw [Json.ofNat, dif_pos hk]
    exact dif_pos k.property
  · rw [Json.ofNat, dif_pos hk]
    exact nofun

theorem finds_integer (k : { k : Int // -0x8000000000000000 ≤ k ∧ k < 0x8000000000000000 }) :
    Reader.Finds integer n (.ofInt k.val) k := by
  obtain ⟨k | k, hk⟩ := k
  · have hsigned : k < 0x8000000000000000 := Int.ofNat_lt.mp hk.2
    have hlt : k < 0x10000000000000000 := by omega
    refine ⟨?_, Json.plain_ofInt _, ?_⟩
    · rw [Json.ofInt, Json.ofNat, dif_pos hlt]
      exact dif_pos hsigned
    · rw [Json.ofInt, Json.ofNat, dif_pos hlt]
      exact nofun
  · have hle : 0 < k + 1 ∧ k + 1 ≤ 0x8000000000000000 := by
      have hge := hk.1
      omega
    refine ⟨?_, Json.plain_ofInt _, ?_⟩
    · rw [Json.ofInt, dif_pos hle]
      rfl
    · rw [Json.ofInt, dif_pos hle]
      exact nofun

theorem finds_list {f : α → Json} (h : ∀ a, reader.Finds n (f a) a) (as : List α) :
    Reader.Finds (list reader) (n + 1) (.array (as.map f)) as := by
  refine ⟨?_, Json.plain_array fun v hv => ?_, nofun⟩
  · show (as.map f).mapM reader = .ok as
    induction as with
    | nil => rfl
    | cons a as ih =>
      rw [List.map_cons, List.mapM_cons, (h a).eq, ih]
      rfl
  · obtain ⟨a, -, rfl⟩ := List.mem_map.mp hv
    exact (h a).plain

theorem option_ofOption {f : α → Json} (h : ∀ a, reader.Finds n (f a) a) (o : Option α) :
    option reader (.ofOption f o) = .ok o ∧ (Json.ofOption f o).Plain n := by
  cases o with
  | none => exact ⟨rfl, Json.plain_null⟩
  | some a =>
    refine ⟨?_, (h a).plain⟩
    rw [Json.ofOption, option.eq_def]
    split
    · rename_i hnull
      exact absurd hnull (h a).ne_null
    · rw [(h a).eq]
      rfl

namespace FieldReader

variable {r : FieldReader α} {fs gs : List (String × Json)}

/-- A value is put together from fields with some names, which stand in the order of declaration. -/
structure Takes (r : FieldReader α) (n : Nat) (fs : List (String × Json)) (a : α) : Prop where
  tests : List.Forall₂ (fun t f => t.1 = f.1 ∧ t.2 f.2 = .ok ()) r.tests fs
  build : ∀ get : String → Option Json, (∀ f ∈ fs, get f.1 = some f.2) → r.build get false = .ok a
  plain : ∀ f ∈ fs, f.2.Plain n

theorem takes_required (name : String) (h : reader.Finds n v a) : (required name reader).Takes n [(name, v)] a where
  tests := .cons ⟨rfl, congrArg (Except.map _) h.eq⟩ .nil
  build get hget := by
    have hv : get name = some v := hget _ List.mem_cons_self
    simp only [required, hv, h.eq]
  plain := List.forall_mem_singleton.mpr h.plain

theorem takes_optional (name : String) {f : α → Json} (h : ∀ a, reader.Finds n (f a) a) (o : Option α) :
    (optional name reader).Takes n [(name, .ofOption f o)] o := by
  obtain ⟨hread, hplain⟩ := option_ofOption h o
  refine ⟨.cons ⟨rfl, congrArg (Except.map _) hread⟩ .nil, fun get hget => ?_,
    List.forall_mem_singleton.mpr hplain⟩
  have ho : get name = some (.ofOption f o) := hget _ List.mem_cons_self
  simp only [optional, ho, hread]

theorem takes_withDefault (name : String) (usual : α) (hread : reader v = .ok a) (hplain : v.Plain n) :
    (withDefault name reader usual).Takes n [(name, v)] a where
  tests := .cons ⟨rfl, congrArg (Except.map _) hread⟩ .nil
  build get hget := by
    have hv : get name = some v := hget _ List.mem_cons_self
    simp only [withDefault, hv, hread]
  plain := List.forall_mem_singleton.mpr hplain

theorem Takes.seq {g : FieldReader (α → β)} {f : α → β} (hg : g.Takes n fs f) (hr : r.Takes n gs a) :
    (g <*> r).Takes n (fs ++ gs) (f a) where
  tests := List.rel_append hg.tests hr.tests
  build get hget := by
    obtain ⟨hfs, hgs⟩ := List.forall_mem_append.mp hget
    show (do
      let g ← g.build get false
      let a ← r.build get false
      return g a) = _
    rw [hg.build get hfs, hr.build get hgs]
    rfl
  plain := List.forall_mem_append.mpr ⟨hg.plain, hr.plain⟩

theorem takes_pure (a : α) : (pure a : FieldReader α).Takes n [] a :=
  ⟨.nil, fun _ _ => rfl, fun _ hf => absurd hf List.not_mem_nil⟩

theorem Takes.map (h : r.Takes n fs a) (f : α → β) : (f <$> r).Takes n fs (f a) := (takes_pure f).seq h

theorem Takes.names (h : r.Takes n fs a) : r.tests.map (·.1) = fs.map (·.1) := by
  have htests := h.tests
  generalize r.tests = ts at htests
  clear h
  induction htests with
  | nil => rfl
  | cons hhead _ ih => exact congrArg₂ List.cons hhead.1 ih

theorem Takes.passes (h : r.Takes n fs a) {name : String} {t : Reader Unit} (ht : r.tests.lookup name = some t)
    (hv : fs.lookup name = some v) : t v = .ok () := by
  have htests := h.tests
  generalize r.tests = ts at ht htests
  clear h
  induction htests with
  | nil => cases ht
  | @cons t' f ts fs hhead htail ih =>
    obtain ⟨hname, hpass⟩ := hhead
    rw [List.lookup_cons, hname] at ht
    rw [List.lookup_cons] at hv
    cases he : name == f.1 with
    | true =>
      rw [he] at ht hv
      cases ht
      cases hv
      exact hpass
    | false =>
      rw [he] at ht hv
      exact ih hv ht

/-- The object of the fields is read, in whatever order its fields are tested. -/
theorem Takes.named (h : r.Takes n fs a) (hn : (r.tests.map (·.1)).Nodup) :
    Reader.Finds r.named (n + 1) (.ofFields fs) a := by
  rw [h.names] at hn
  refine ⟨?_, Json.plain_ofFields hn h.plain, nofun⟩
  have htest : r.test (Json.fieldMap fs).toList = .ok () := by
    have hall : ∀ f ∈ (Json.fieldMap fs).toList, fs.lookup f.1 = some f.2 := fun f hf =>
      (Json.lookup_eq_some_iff hn).mpr ((Json.mem_fieldMap_iff hn).mp hf)
    rw [test, List.forM_eq_forM]
    generalize (Json.fieldMap fs).toList = sorted at hall
    induction sorted with
    | nil => rfl
    | cons f sorted ih =>
      obtain ⟨hf, hsorted⟩ := List.forall_mem_cons.mp hall
      rw [List.forM_cons, ih hsorted]
      cases ht : r.tests.lookup f.1 with
      | none =>
        simp only [ht]
        rfl
      | some t =>
        simp only [ht, h.passes ht hf]
        rfl
  have hbuild : r.build (List.lookup · (Json.fieldMap fs).toList) false = .ok a := by
    refine h.build _ fun f hf => ?_
    rw [Json.lookup_toList, Json.get?_fieldMap hn]
    exact (Json.lookup_eq_some_iff hn).mpr hf
  rw [Json.ofFields_eq, FieldReader.named, htest]
  exact hbuild

theorem Takes.read (h : r.Takes n fs a) (hn : (r.tests.map (·.1)).Nodup) :
    Reader.Finds r.read (n + 1) (.ofFields fs) a :=
  have hnamed := h.named hn
  ⟨hnamed.eq, hnamed.plain, hnamed.ne_null⟩

end FieldReader

end Document
end FlightTrace
