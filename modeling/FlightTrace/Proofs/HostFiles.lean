import FlightTrace.Host
import FlightTrace.Proofs.ConfigText

/-! The files of a host, and rules for actions on it: what an action gives, and where it leads from the hosts of one
kind. A configuration that is written to a file is read from there again. -/
namespace FlightTrace

namespace Volume

variable {v v' : Volume} {p q : Path} {node : Option Node}

theorem lookup_others (nodes : List (Path × Node)) (p q : Path) :
    (nodes.filter fun n => n.1 ≠ p).lookup q = if q = p then none else nodes.lookup q := by
  induction nodes with
  | nil => simp
  | cons n nodes ih =>
    obtain ⟨r, node⟩ := n
    rw [lookup_cons_eq_ite]
    by_cases hr : r = p
    · rw [List.filter_cons_of_neg (by simp [hr]), ih, hr]
      split <;> rfl
    · rw [List.filter_cons_of_pos (by simp [hr]), lookup_cons_eq_ite, ih]
      by_cases hq : q = r
      · rw [if_pos hq, if_pos hq, if_neg (hq ▸ hr)]
      · rw [if_neg hq, if_neg hq]

theorem get?_put (hp : p ≠ []) : (v.put p node).get? q = if q = p then node else v.get? q := by
  rw [get?, get?]
  by_cases hq : q = []
  · subst hq
    rw [if_pos rfl, if_neg (Ne.symm hp), if_pos rfl]
  · rw [if_neg hq, if_neg hq]
    cases node with
    | none => exact lookup_others v.nodes p q
    | some n =>
      change ((p, n) :: v.nodes.filter fun n => n.1 ≠ p).lookup q = _
      rw [lookup_cons_eq_ite, lookup_others]
      by_cases hqp : q = p
      · rw [if_pos hqp, if_pos hqp]
      · rw [if_neg hqp, if_neg hqp, if_neg hqp]

def Passable (v : Volume) (p : Path) : Prop := v.get? p = none ∨ v.get? p = some .folder

def wayTo (p : Path) : List Path := (List.range p.length).map fun n => p.take (n + 1)

def makeFolder (v : Volume) (p : Path) : Option Volume :=
  match v.get? p with
  | none => some (v.put p (some .folder))
  | some .folder => some v
  | some _ => none

theorem makeFolders_eq (v : Volume) (p : Path) : v.makeFolders p = (wayTo p).foldlM makeFolder v := rfl

def Folders (v v' : Volume) (ps : List Path) : Prop :=
  ∀ q, v'.get? q = if q ∈ ps then some .folder else v.get? q

theorem makeFolder_cases (v : Volume) (hp : p ≠ []) :
    (∃ v', v.makeFolder p = some v' ∧ v.Passable p ∧ Folders v v' [p]) ∨
      (v.makeFolder p = none ∧ ¬v.Passable p) := by
  rw [makeFolder]
  cases hv : v.get? p with
  | none =>
    refine .inl ⟨_, rfl, .inl hv, fun q => ?_⟩
    simp only [List.mem_singleton, get?_put hp]
  | some node =>
    cases node with
    | folder =>
      refine .inl ⟨v, rfl, .inr hv, fun q => ?_⟩
      split
      · rename_i hq
        rw [List.mem_singleton.mp hq, hv]
      · rfl
    | file bs => exact .inr ⟨rfl, by simp [Passable, hv]⟩
    | device d => exact .inr ⟨rfl, by simp [Passable, hv]⟩

theorem Folders.passable_iff (h : Folders v v' [p]) (hp : v.Passable p) : v'.Passable q ↔ v.Passable q := by
  rw [Passable, h q]
  by_cases hq : q = p
  · subst hq
    exact iff_of_true (.inr (if_pos List.mem_cons_self)) hp
  · rw [if_neg (by simpa using hq)]
    rfl

theorem foldlM_makeFolder_cases (ps : List Path) (hps : ∀ p ∈ ps, p ≠ []) (v : Volume) :
    (∃ v', ps.foldlM makeFolder v = some v' ∧ Folders v v' ps) ∨
      (ps.foldlM makeFolder v = none ∧ ∃ p ∈ ps, ¬v.Passable p) := by
  induction ps generalizing v with
  | nil => exact .inl ⟨v, rfl, fun q => (if_neg List.not_mem_nil).symm⟩
  | cons p ps ih =>
    rw [List.foldlM_cons]
    rcases v.makeFolder_cases (hps p List.mem_cons_self) with ⟨v₁, hv₁, hp, h₁⟩ | ⟨hnone, hp⟩
    · rw [hv₁]
      rcases ih (fun q hq => hps q (List.mem_cons_of_mem _ hq)) v₁ with ⟨v', hv', h'⟩ | ⟨hnone, q, hq, hfree⟩
      · refine .inl ⟨v', hv', fun q => ?_⟩
        rw [h' q, h₁ q]
        simp only [List.mem_cons, List.not_mem_nil, or_false]
        by_cases hq : q ∈ ps <;> simp [hq]
      · exact .inr ⟨hnone, q, List.mem_cons_of_mem _ hq, fun h => hfree ((h₁.passable_iff hp).mpr h)⟩
    · rw [hnone]
      exact .inr ⟨rfl, p, List.mem_cons_self, hp⟩

theorem makeFolders_cases (v : Volume) (p : Path) :
    (∃ v', v.makeFolders p = some v' ∧ Folders v v' (wayTo p)) ∨
      (v.makeFolders p = none ∧ ∃ q ∈ wayTo p, ¬v.Passable q) := by
  rw [makeFolders_eq]
  refine foldlM_makeFolder_cases _ (fun q hq => ?_) v
  obtain ⟨n, hn, rfl⟩ := List.mem_map.mp hq
  cases p with
  | nil => simp at hn
  | cons a p => simp

/-- A place where a text can be written as a file. -/
structure Writable (v : Volume) (limit : Option Nat) (p : Path) (text : String) : Prop where
  folder : v.get? p.dropLast = some .folder
  place : v.get? p = none ∨ ∃ bs, v.get? p = some (.file bs)
  room : ∀ n ∈ limit, text.utf8ByteSize ≤ n

theorem Writable.ne_nil {limit : Option Nat} {text : String} (h : v.Writable limit p text) : p ≠ [] := by
  rintro rfl
  rcases h.place with hp | ⟨bs, hp⟩ <;> cases hp

theorem Writable.write {limit : Option Nat} {text : String} (h : v.Writable limit p text) :
    v.write limit p (Text.utf8 text) = (true, v.put p (some (.file (Text.utf8 text)))) := by
  unfold Volume.write
  cases limit with
  | none => rcases h.place with hp | ⟨bs, hp⟩ <;> simp only [hp, h.folder, if_true]
  | some n =>
    have hroom : (Text.utf8 text).length ≤ n := h.room n rfl
    rcases h.place with hp | ⟨bs, hp⟩ <;>
      simp only [hp, h.folder, if_true, List.take_of_length_le hroom, hroom, decide_true]

/-- Only devices take what no file can. -/
theorem writable_of_write {limit : Option Nat} {text : String} (hdevice : ∀ d, v.get? p ≠ some (.device d))
    (h : (v.write limit p (Text.utf8 text)).1 = true) : v.Writable limit p text := by
  unfold Volume.write at h
  split at h
  · cases h
  · rename_i hp
    exact absurd hp (hdevice .sink)
  · rename_i hp
    exact absurd hp (hdevice .full)
  · rename_i hfolder _ _
    split at h
    · rename_i hparent
      refine ⟨hparent, ?_, ?_⟩
      · rcases hp : v.get? p with _ | node
        · exact .inl rfl
        · cases node with
          | folder => exact absurd hp hfolder
          | file bs => exact .inr ⟨bs, rfl⟩
          | device d => exact absurd hp (hdevice d)
      · rintro n rfl
        exact of_decide_eq_true h
    · cases h

end Volume

namespace Host

/-- What an action gives on a host, and the host that it leaves. -/
def perform {α : Type} (a : Action α) (h : Host) : Except Error α × Host := a.run.run h

section

variable {α β : Type} {a : Action α} {f : α → Action β} {h h' : Host} {x y : α} {e : Error}

theorem perform_bind (a : Action α) (f : α → Action β) (h : Host) : perform (a >>= f) h =
    match perform a h with
    | (.ok x, h') => perform (f x) h'
    | (.error e, h') => (.error e, h') := by
  rcases ha : perform a h with ⟨x | x, h'⟩
  · simp only [perform] at ha
    simp only [perform, ExceptT.run_bind, StateT.run_bind, ha]
    rfl
  · simp only [perform] at ha
    simp only [perform, ExceptT.run_bind, StateT.run_bind, ha]
    rfl

theorem perform_bind_ok (ha : perform a h = (.ok x, h')) : perform (a >>= f) h = perform (f x) h' := by
  rw [perform_bind, ha]

theorem perform_bind_error (ha : perform a h = (.error e, h')) : perform (a >>= f) h = (.error e, h') := by
  rw [perform_bind, ha]

theorem perform_get (h : Host) : perform get h = (.ok h, h) := rfl

theorem perform_modify (g : Host → Host) (h : Host) : perform (modify g) h = (.ok (), g h) := rfl

theorem perform_liftConfig {x : Except ConfigFault α} (hx : x = .ok y) (h : Host) :
    perform (liftConfig x) h = (.ok y, h) := by
  rw [hx]
  rfl

/-- What is known of a result: of its value and the host, or of its error and the host. -/
inductive Ends (Q : α → Host → Prop) (E : Error → Host → Prop) : Except Error α × Host → Prop where
  | ok {x : α} {h : Host} (hq : Q x h) : Ends Q E (.ok x, h)
  | error {e : Error} {h : Host} (he : E e h) : Ends Q E (.error e, h)

/-- Where an action leads from the hosts of one kind. -/
def Leads (P : Host → Prop) (a : Action α) (Q : α → Host → Prop) (E : Error → Host → Prop) : Prop :=
  ∀ h, P h → Ends Q E (perform a h)

variable {P : Host → Prop} {Q R : α → Host → Prop} {S : β → Host → Prop} {E F : Error → Host → Prop}

theorem Ends.mono {r : Except Error α × Host} (hr : Ends Q E r) (hq : ∀ x h, Q x h → R x h)
    (he : ∀ e h, E e h → F e h) : Ends R F r := by
  cases hr with
  | ok hx => exact .ok (hq _ _ hx)
  | error hx => exact .error (he _ _ hx)

theorem Leads.mono (ha : Leads P a Q E) (hq : ∀ x h, Q x h → R x h) (he : ∀ e h, E e h → F e h) :
    Leads P a R F :=
  fun h hp => (ha h hp).mono hq he

theorem Leads.mono_error (ha : Leads P a Q E) (he : ∀ e h, E e h → F e h) : Leads P a Q F :=
  ha.mono (fun _ _ hq => hq) he

theorem Leads.bind (ha : Leads P a Q E) (hf : ∀ x, Leads (Q x) (f x) S E) : Leads P (a >>= f) S E := by
  intro h hp
  have hx := ha h hp
  rw [perform_bind]
  generalize perform a h = r at hx ⊢
  cases hx with
  | ok hq => exact hf _ _ hq
  | error he => exact .error he

end

variable {limit : Option Nat} {p : Path} {h : Host} {c : Config} {t : String}

theorem perform_writeFile (limit : Option Nat) (p : Path) (text : String) (h : Host) :
    perform (writeFile limit p text) h = (.ok (h.volume.write limit p (Text.utf8 text)).1,
      { h with volume := (h.volume.write limit p (Text.utf8 text)).2 }) := rfl

theorem perform_writeConfig (ht : c.text = .ok t) (limit : Option Nat) (p : Path) (h : Host) :
    perform (writeConfig limit p c) h =
      (if (h.volume.write limit p (Text.utf8 t)).1 then .ok () else .error (.storage (.configUnwritten (h.pathText p))),
        { h with volume := (h.volume.write limit p (Text.utf8 t)).2 }) := by
  have hlift : perform (lift (c.text.mapError .serialization)) h = (.ok t, h) := by
    rw [ht]
    rfl
  rw [writeConfig, perform_bind_ok hlift, perform_bind_ok (perform_writeFile limit p t h)]
  cases (h.volume.write limit p (Text.utf8 t)).1 <;> rfl

theorem writeConfig_of_writable (ht : c.text = .ok t) (hw : h.volume.Writable limit p t) :
    perform (writeConfig limit p c) h =
      (.ok (), { h with volume := h.volume.put p (some (.file (Text.utf8 t))) }) := by
  rw [perform_writeConfig ht, hw.write]
  rfl

theorem writeConfig_of_not_saveable (hc : ¬c.Saveable) (limit : Option Nat) (p : Path) (h : Host) :
    perform (writeConfig limit p c) h = (.error (.serialization .config), h) := by
  have hlift : perform (lift (c.text.mapError .serialization)) h = (.error (.serialization .config), h) := by
    rw [Config.text_of_not_saveable hc]
    rfl
  rw [writeConfig, perform_bind_error hlift]

theorem readConfig_of_text (hv : c.validate = .ok ()) (ht : c.text = .ok t)
    (hfile : h.volume.get? p = some (.file (Text.utf8 t))) : perform (readConfig p) h = (.ok c, h) := by
  rw [readConfig, perform_bind_ok (perform_get h)]
  simp only [hfile, Option.bind_some, Node.content?, Text.ofUtf8?_utf8, Config.ofText?_text hv ht]
  rw [perform_bind_ok (perform_liftConfig hv h)]
  rfl

end Host
end FlightTrace
