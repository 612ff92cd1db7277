import FlightTrace.Proofs.Replaying

/-! The tables that are recovered from any entries. They contain the traces of the entries in their order, and
under each key the last document, if the text of every document can be read. Otherwise nothing is recovered. -/
namespace FlightTrace

namespace Log

def Entry.trace? : Entry → Option Trace
  | trace r => some r
  | _ => none

def traces (es : List Entry) : List Trace := es.filterMap Entry.trace?

/-- The text of the last document that some entries set under a key. -/
def lastText? (es : List Entry) (key : String) : Option String :=
  es.foldl (fun o e =>
    match e with
    | .document k text => if key = k then some text else o
    | _ => o) none

theorem traces_append (es : List Entry) (e : Entry) : traces (es ++ [e]) = traces es ++ e.trace?.toList := by
  rw [traces, List.filterMap_append, traces]
  cases h : e.trace? <;> simp [h]

theorem lastText?_append (es : List Entry) (e : Entry) (key : String) :
    lastText? (es ++ [e]) key =
      match e with
      | .document k text => if key = k then some text else lastText? es key
      | _ => lastText? es key := by
  rw [lastText?, List.foldl_append]
  rfl

theorem lastText?_of_last {before after : List Entry} {key text : String}
    (h : ∀ text, Entry.document key text ∉ after) :
    lastText? (before ++ .document key text :: after) key = some text := by
  induction after using List.reverseRecOn with
  | nil =>
    rw [lastText?_append]
    exact if_pos rfl
  | append_singleton after e ih =>
    have hlast := ih fun text hmem => h text (List.mem_append_left _ hmem)
    rw [← List.cons_append, ← List.append_assoc, lastText?_append]
    cases e with
    | document k text' =>
      have hk : key ≠ k := by
        rintro rfl
        exact h text' (List.mem_append_right _ List.mem_cons_self)
      simp only [if_neg hk, hlast]
    | _ => exact hlast

end Log

theorem TraceTables.Contains.reserved_le {t : TraceTables} {settings : Settings} {rs : List Trace}
    (h : t.Contains settings rs) : t.watermark.reserved ≤ UInt64.size := by
  obtain ⟨as, hs, -⟩ := h
  exact hs.sound.reserved_le

theorem Except.map_fst_eq {ε α β : Type} {x y : Except ε (α × β)} (h : x.map (·.1) = y.map (·.1)) :
    (∃ e, x = .error e ∧ y = .error e) ∨ ∃ a b c, x = .ok (a, b) ∧ y = .ok (a, c) := by
  rcases x with e | ⟨a, b⟩ <;> rcases y with f | ⟨a', c⟩ <;> cases h
  · exact .inl ⟨e, rfl, rfl⟩
  · exact .inr ⟨a, b, c, rfl, rfl⟩

theorem Recovery.redo_tables (t : Tables) (r r' : Recovery) (e : Log.Entry) :
    (redo t r e).map (·.1) = (redo t r' e).map (·.1) := by
  cases e with
  | trace x =>
    rw [redo, redo]
    rcases t.traces.appendWith (Hook.agree (κ := Empty)) x () with ⟨_ | _, _, _⟩ <;> rfl
  | tagAdded a tag =>
    rw [redo, redo]
    split <;> rfl
  | document key text =>
    rw [redo, redo]
    split <;> rfl
  | _ => rfl

theorem Recovery.redoAll_tables (t : Tables) (r r' : Recovery) (es : List Log.Entry) :
    (redoAll t r es).map (·.1) = (redoAll t r' es).map (·.1) := by
  induction es generalizing t r r' with
  | nil => rfl
  | cons e es ih =>
    simp only [redoAll, List.foldlM_cons] at ih ⊢
    rcases Except.map_fst_eq (redo_tables t r r' e) with ⟨f, hr, hr'⟩ | ⟨t', c, c', hr, hr'⟩
    · rw [hr, hr']
    · rw [hr, hr']
      exact ih t' c c'

namespace Tables

/-- Whether recovery can make the change of an entry again. Only a document can stand in its way. -/
def Redoable (e : Log.Entry) : Prop := ∀ key text, e = .document key text → Json.ofText? text ≠ none

/-- What recovery has made of some entries. -/
structure Recovered (settings : Settings) (es : List Log.Entry) (t : Tables) : Prop where
  traces : t.traces.Contains settings (Log.traces es)
  reserved : t.traces.watermark.reserved = (Log.traces es).length
  documents : ∀ key, t.metadata.get? key = (Log.lastText? es key).bind Json.ofText?

variable {settings : Settings} {es : List Log.Entry} {e : Log.Entry} {t t' : Tables}

theorem Recovered.ofSettings (settings : Settings) : Recovered settings [] (.ofSettings settings) :=
  ⟨.ofSettings settings, rfl, fun _ => rfl⟩

theorem redoable_of_not_document (h : ∀ key text, e ≠ .document key text) : Redoable e :=
  fun key text he => absurd he (h key text)

/-- An entry that is no trace and no document leaves the traces and the documents alone. -/
theorem Recovered.beside (h : Recovered settings es t) (htrace : e.trace? = none)
    (hdocument : ∀ key text, e ≠ .document key text) (hredone : Redone t e t')
    (htraces : t'.traces = t.traces) (hmetadata : t'.metadata = t.metadata) :
    Redoable e ∧ ∃ t', Redone t e t' ∧ Recovered settings (es ++ [e]) t' := by
  have hes : Log.traces (es ++ [e]) = Log.traces es := by
    rw [Log.traces_append, htrace]
    exact List.append_nil _
  refine ⟨redoable_of_not_document hdocument, t', hredone, ?_, ?_, fun key => ?_⟩
  · rw [hes, htraces]
    exact h.traces
  · rw [hes, htraces]
    exact h.reserved
  · rw [Log.lastText?_append, hmetadata, h.documents]
    cases e with
    | document k text => exact absurd rfl (hdocument k text)
    | _ => rfl

/-- While there are numbers left, each entry is made again, or is a document that cannot be read. -/
theorem Recovered.redo (h : Recovered settings es t)
    (hleft : (Log.traces (es ++ [e])).length ≤ UInt64.size) :
    (Redoable e ∧ ∃ t', Redone t e t' ∧ Recovered settings (es ++ [e]) t') ∨
      ∃ key text, e = .document key text ∧ Json.ofText? text = none ∧
        ∀ r, (Recovery.redo t r e).map (·.1) = .error (.corruption (.document key)) := by
  cases e with
  | trace x =>
    have htraces : Log.traces (es ++ [.trace x]) = Log.traces es ++ [x] := Log.traces_append es _
    rw [htraces, List.length_append] at hleft
    obtain ⟨i, traces, hagree, hcontains, hreserved⟩ :=
      h.traces.append_agree (h.reserved ▸ Nat.lt_of_succ_le hleft) x
    refine .inl ⟨redoable_of_not_document fun _ _ => by simp, { t with traces }, fun r => ?_, ?_, ?_,
      fun key => ?_⟩
    · rw [Recovery.redo, hagree]
      rfl
    · rw [htraces]
      exact hcontains
    · rw [htraces, List.length_append, hreserved, h.reserved]
      rfl
    · rw [Log.lastText?_append]
      exact h.documents key
  | registration row => exact .inl (h.beside rfl (fun _ _ => by simp) (fun _ => rfl) rfl rfl)
  | model row => exact .inl (h.beside rfl (fun _ _ => by simp) (fun _ => rfl) rfl rfl)
  | tagAdded a tag =>
    by_cases hc : t.tags.contains a tag = true
    · have hredone : Redone t (.tagAdded a tag) t := fun r => by
        rw [Recovery.redo, if_pos hc]
        rfl
      exact .inl (h.beside rfl (fun _ _ => by simp) hredone rfl rfl)
    · have hredone : Redone t (.tagAdded a tag) { t with tags := t.tags.insert a tag } := fun r => by
        rw [Recovery.redo, if_neg hc]
        rfl
      exact .inl (h.beside rfl (fun _ _ => by simp) hredone rfl rfl)
  | tagRemoved a tag => exact .inl (h.beside rfl (fun _ _ => by simp) (fun _ => rfl) rfl rfl)
  | document key text =>
    cases htext : Json.ofText? text with
    | none =>
      refine .inr ⟨key, text, rfl, htext, fun r => ?_⟩
      simp only [Recovery.redo, htext]
      rfl
    | some v =>
      have htraces : Log.traces (es ++ [.document key text]) = Log.traces es := by
        rw [Log.traces_append]
        exact List.append_nil _
      refine .inl ⟨fun k x he => ?_, { t with metadata := t.metadata.set key v }, fun r => ?_,
        htraces ▸ h.traces, htraces ▸ h.reserved, fun k => ?_⟩
      · cases he
        rw [htext]
        exact Option.some_ne_none v
      · simp only [Recovery.redo, htext]
        rfl
      · rw [Log.lastText?_append, Metadata.get?, Metadata.set, OrderedMap.get?_insert]
        simp only
        by_cases hk : k = key
        · rw [if_pos hk, if_pos hk]
          exact htext.symm
        · rw [if_neg hk, if_neg hk]
          exact h.documents k

theorem ofEntries_append_error {f : Error} (h : ofEntries settings es = .error f) (e : Log.Entry) :
    ofEntries settings (es ++ [e]) = .error f := by
  rw [ofEntries, Recovery.redoAll] at h ⊢
  rw [List.foldlM_append]
  generalize es.foldlM (fun p e => Recovery.redo p.1 p.2 e) (Tables.ofSettings settings, ({} : Recovery)) = x at h
  cases x with
  | error g =>
    cases h
    rfl
  | ok p => cases h

/-- Recovery succeeds unless the text of a document cannot be read; then it fails for the key of one. -/
theorem ofEntries_cases (settings : Settings) (es : List Log.Entry)
    (hleft : (Log.traces es).length ≤ UInt64.size) :
    ((∀ e ∈ es, Redoable e) ∧ ∃ t, ofEntries settings es = .ok t ∧ Recovered settings es t) ∨
      ∃ key text, .document key text ∈ es ∧ Json.ofText? text = none ∧
        ofEntries settings es = .error (.corruption (.document key)) := by
  induction es using List.reverseRecOn with
  | nil => exact .inl ⟨fun _ he => absurd he List.not_mem_nil, _, rfl, .ofSettings settings⟩
  | append_singleton es e ih =>
    have hprefix : (Log.traces es).length ≤ UInt64.size := by
      rw [Log.traces_append, List.length_append] at hleft
      exact (Nat.le_add_right _ _).trans hleft
    rcases ih hprefix with ⟨hall, t, ht, hrecovered⟩ | ⟨key, text, hmem, hnone, herror⟩
    · rcases hrecovered.redo hleft with ⟨he, t', hredone, hrecovered'⟩ | ⟨key, text, rfl, hnone, hrefused⟩
      · refine .inl ⟨fun x hx => ?_, t', ofEntries_append ht hredone, hrecovered'⟩
        rcases List.mem_append.mp hx with hx | hx
        · exact hall x hx
        · rw [List.mem_singleton.mp hx]
          exact he
      · exact .inr ⟨key, text, List.mem_append_right _ List.mem_cons_self, hnone,
          ofEntries_append ht hrefused⟩
    · exact .inr ⟨key, text, List.mem_append_left _ hmem, hnone, ofEntries_append_error herror e⟩

theorem length_traces_le (h : ofEntries settings es = .ok t) : (Log.traces es).length ≤ UInt64.size := by
  induction es using List.reverseRecOn generalizing t with
  | nil => exact Nat.zero_le _
  | append_singleton es e ih =>
    cases hes : ofEntries settings es with
    | error f =>
      rw [ofEntries_append_error hes] at h
      cases h
    | ok t₀ =>
      have hle := ih hes
      rcases ofEntries_cases settings es hle with ⟨-, t₁, ht₁, hrecovered⟩ | ⟨key, text, -, -, herror⟩
      · obtain rfl : t₁ = t₀ := Except.ok.inj (ht₁.symm.trans hes)
        rw [Log.traces_append, List.length_append]
        cases e with
        | trace x =>
          cases ha : t₁.traces.appendWith (Hook.agree (κ := Empty)).beside x () with
          | mk y p =>
            cases y with
            | ok i =>
              have hlt := i.lt_size
              rw [Interleaving.id_of_appendWith ha, hrecovered.reserved] at hlt
              exact hlt
            | error f =>
              have herror : ∀ r, (Recovery.redo t₁ r (.trace x)).map (·.1) = .error f.toError := by
                intro r
                have ha : t₁.traces.appendWith (Hook.agree (κ := Empty)) x () = (.error f, p) := ha
                rw [Recovery.redo, ha]
                rfl
              rw [ofEntries_append hes herror] at h
              cases h
        | _ => exact hle
      · rw [hes] at herror
        cases herror

theorem recovered_of_ofEntries (h : ofEntries settings es = .ok t) : Recovered settings es t := by
  rcases ofEntries_cases settings es (length_traces_le h) with ⟨-, t', ht', hrecovered⟩ | ⟨key, text, -, -, herror⟩
  · obtain rfl : t' = t := Except.ok.inj (ht'.symm.trans h)
    exact hrecovered
  · rw [h] at herror
    cases herror

theorem redoable_of_ofEntries (h : ofEntries settings es = .ok t) : ∀ e ∈ es, Redoable e := by
  rcases ofEntries_cases settings es (length_traces_le h) with ⟨hall, -⟩ | ⟨key, text, -, -, herror⟩
  · exact hall
  · rw [h] at herror
    cases herror

theorem Made.contains {P : Json → Prop} {live live' : Tables} (hm : live.Made P e live')
    (h : live.traces.Contains settings (Log.traces es)) :
    live'.traces.Contains settings (Log.traces (es ++ [e])) := by
  rw [Log.traces_append]
  cases hm with
  | trace ha => exact h.appendWith ha
  | _ => exact (List.append_nil (Log.traces es)).symm ▸ h

theorem Unmade.contains {live live' : Tables} (hm : live.Unmade live') {rs : List Trace}
    (h : live.traces.Contains settings rs) : live'.traces.Contains settings rs := by
  cases hm with
  | same => exact h
  | trace ha => exact List.append_nil rs ▸ h.appendWith ha

end Tables
end FlightTrace
