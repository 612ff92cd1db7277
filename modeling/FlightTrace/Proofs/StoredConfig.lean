import FlightTrace.Proofs.Opening

/-! Databases and their configurations. A database that is opened with a valid configuration has it stored, and is
opened with the same one from then on, provided that a file can hold its numbers. Otherwise it is not opened. -/
namespace FlightTrace
namespace Host

open Volume

variable {limit : Option Nat} {h : Host} {c : Config} {t : String}

/-- The file holds a text of a configuration, and a database that is open has the configuration. -/
structure Settled (c : Config) (t : String) (h : Host) : Prop where
  file : h.volume.get? configFile = some (.file (Text.utf8 t))
  database : ∀ d ∈ h.database, d.config = c

theorem Opened.settled (ho : h.Opened c (some (.file (Text.utf8 t)))) : h.Settled c t := by
  obtain ⟨d, hd, hconfig⟩ := ho.running
  exact ⟨ho.stored, fun d' hd' => Option.some.inj (hd.symm.trans hd') ▸ hconfig⟩

theorem Settled.openStored (hs : h.Settled c t) (hv : c.validate = .ok ()) (ht : c.text = .ok t) (limit : Option Nat) :
    Ends (fun _ => Opened c (some (.file (Text.utf8 t))))
      (fun e g => g.Settled c t ∧ e.refusesConfig = false ∧ ¬h.Ready) (perform (openStored limit) h) := by
  have hrefused (e : Error) (g : Host) (hr : Refused h.database (some (.file (Text.utf8 t))) h.Ready e g) :
      g.Settled c t ∧ e.refusesConfig = false ∧ ¬h.Ready :=
    ⟨⟨hr.stored, hr.running ▸ hs.database⟩, hr.spares, hr.unready⟩
  have hb : Before h.database (some (.file (Text.utf8 t))) h.Ready h := ⟨rfl, hs.file, id⟩
  rw [Host.openStored]
  refine (((makeFolders_leads (by decide) (by decide)).mono_error hrefused).bind fun _ g he => ?_) h hb
  have hdefault : perform (writeDefaultConfig limit configFile) g = (.ok (), g) := by
    rw [writeDefaultConfig, perform_bind_ok (perform_get g), he.stored]
    rfl
  rw [perform_bind_ok hdefault, perform_bind_ok (readConfig_of_text hv ht he.stored)]
  cases hd : h.database with
  | none =>
    rw [hd] at he hrefused
    exact (start_leads hv).mono_error hrefused g he
  | some d =>
    rw [hd] at he
    rw [start_of_open hv he.running fun hnew => by cases hnew]
    exact .ok ⟨he.stored, d, he.running, hs.database d hd⟩

theorem Settled.withSite (hs : h.Settled c t) (s : Log.Site) : (h.withSite s).Settled c t := by
  refine ⟨(get?_withSite h s).trans hs.file, fun d hd => ?_⟩
  obtain ⟨d', hd', rfl⟩ := Option.map_eq_some_iff.mp hd
  exact hs.database d' hd'

theorem Settled.run (hs : h.Settled c t) {α : Type} {f : Medium → Nat → Database → α × Database}
    (hf : ∀ m now d, (f m now d).2.config = d.config) {a : α} {h' : Host} (hrun : h.run limit f = some (a, h')) :
    h'.Settled c t := by
  obtain ⟨d, hd, hrun⟩ := Option.map_eq_some_iff.mp hrun
  have hchanged : Settled c t { h with database := some (f (.of limit h.device) h.now d).2 } := by
    refine ⟨hs.file, fun d' hd' => ?_⟩
    obtain rfl := Option.some.inj hd'
    exact (hf _ _ d).trans (hs.database d hd)
  obtain ⟨-, rfl⟩ := Prod.mk.inj hrun
  split
  · exact hchanged.withSite _
  · exact hchanged

/-- What can be done on a host where a database has been opened, by its user or by somebody else. -/
inductive Use where
  | openStored
  | close
  /-- Does something with the database, which keeps its configuration. -/
  | work (f : Medium → Nat → Database → Database) (hf : ∀ m now d, (f m now d).config = d.config)
  | sleep (milliseconds : Nat)
  | lockElsewhere (locked : Bool)
  | editLog (f : Log.Site → Option Log.Site)

def use (h : Host) : Option Nat × Use → Host
  | (limit, .openStored) => (perform (openStored limit) h).2
  | (limit, .close) => h.close limit
  | (limit, .work f _) =>
    match h.run limit fun m now d => ((), f m now d) with
    | some (_, h) => h
    | none => h
  | (limit, .sleep milliseconds) => h.sleep limit milliseconds
  | (_, .lockElsewhere locked) => { h with lockedElsewhere := locked }
  | (_, .editLog f) => (h.editLog f).getD h

theorem Settled.syncAt (hs : h.Settled c t) (limit : Option Nat) (time : Nat) : (h.syncAt limit time).Settled c t := by
  have hnow : Settled c t { h with now := time } := ⟨hs.file, hs.database⟩
  rw [Host.syncAt]
  split
  · rename_i hrun
    exact hnow.run (fun m now d => d.config_syncIfOverdue m now) hrun
  · exact hs

theorem Settled.use (hs : h.Settled c t) (hv : c.validate = .ok ()) (ht : c.text = .ok t) (u : Option Nat × Use) :
    (h.use u).Settled c t := by
  obtain ⟨limit, u⟩ := u
  cases u with
  | openStored =>
    have hends := hs.openStored hv ht limit
    rw [Host.use]
    generalize perform (Host.openStored limit) h = r at hends
    cases hends with
    | ok ho => exact ho.settled
    | error he => exact he.1
  | close => exact ⟨(hs.withSite _).file, fun d hd => by cases hd⟩
  | work f hf =>
    rw [Host.use]
    split
    · rename_i hrun
      exact hs.run hf hrun
    · exact hs
  | sleep milliseconds =>
    have hfold (times : List Nat) : (times.foldl (Host.syncAt limit) h).Settled c t := by
      induction times generalizing h with
      | nil => exact hs
      | cons time times ih => exact ih (hs.syncAt limit time)
    exact ⟨(hfold _).file, (hfold _).database⟩
  | lockElsewhere locked => exact ⟨hs.file, hs.database⟩
  | editLog f =>
    rw [Host.use, Host.editLog]
    cases f h.site with
    | none => exact hs
    | some s => exact hs.withSite s

theorem Settled.uses (hs : h.Settled c t) (hv : c.validate = .ok ()) (ht : c.text = .ok t)
    (us : List (Option Nat × Use)) : (us.foldl Host.use h).Settled c t := by
  induction us generalizing h with
  | nil => exact hs
  | cons u us ih => exact ih (hs.use hv ht u)

/-- A configuration is kept: its file is read as the same one, a database that is open has it, and so has one that
is opened with the file, unless there is something else in the way. -/
structure Keeps (c : Config) (h : Host) : Prop where
  read : perform (readConfig configFile) h = (.ok c, h)
  running : ∀ d ∈ h.database, d.config = c
  reopened : ∀ limit, Ends (fun _ g => ∃ d, g.database = some d ∧ d.config = c)
    (fun e _ => e.refusesConfig = false ∧ ¬h.Ready) (perform (openStored limit) h)

theorem Settled.keeps (hs : h.Settled c t) (hv : c.validate = .ok ())
    (ht : c.text = .ok t) : h.Keeps c :=
  ⟨readConfig_of_text hv ht hs.file, hs.database, fun limit =>
    (hs.openStored hv ht limit).mono (fun _ _ ho => ho.running) fun _ _ he => he.2⟩

/-- A host that is ready, and where a text can be written as the file of the configuration. -/
structure Accepts (limit : Option Nat) (text : String) (h : Host) : Prop extends h.Ready where
  place : h.volume.get? configFile = none ∨ ∃ bs, h.volume.get? configFile = some (.file bs)
  room : ∀ n ∈ limit, text.utf8ByteSize ≤ n

/-- A valid configuration has a text, and is read from a text, just if its numbers are less than 2 ^ 63. Then it is
written wherever a file can be written and is read again from there; a database is opened with it, unless there is
something else in the way, and it is kept in whatever way the database is used and opened from then on. Otherwise it
is written nowhere, and no database is opened with it. A database that is open already with the configuration stays
as it is. -/
theorem config_is_kept_iff_saveable (c : Config) (hv : c.validate = .ok ()) :
    ((∃ t, c.text = .ok t) ↔ c.Saveable) ∧ ((∃ t, Config.ofText? t = some c) ↔ c.Saveable) ∧
    (∀ t, c.text = .ok t →
      (∀ limit p (h : Host), h.volume.Writable limit p t →
        ∃ g, perform (writeConfig limit p c) h = (.ok (), g) ∧ perform (readConfig p) g = (.ok c, g)) ∧
      ∀ limit (h : Host), h.database = none → (∀ d, h.volume.get? configFile ≠ some (.device d)) →
        Ends (fun _ g => (∃ d, g.database = some d ∧ d.config = c) ∧
            ∀ us : List (Option Nat × Use), (us.foldl use g).Keeps c)
          (fun e g => e.refusesConfig = false ∧ g.database = none ∧ ¬h.Accepts limit t)
          (perform (openWith limit c) h)) ∧
    (¬c.Saveable →
      (∀ limit p (h : Host), perform (writeConfig limit p c) h = (.error (.serialization .config), h)) ∧
      ∀ limit (h : Host), h.database = none → Ends (fun _ _ => False)
        (fun e g => (h.Ready → e = .serialization .config) ∧ g.database = none ∧
          g.volume.get? configFile = h.volume.get? configFile)
        (perform (openWith limit c) h)) ∧
    ∀ limit (h : Host) d, h.database = some d → d.config = c →
      Ends (fun _ g => g.database = some d ∧ g.volume.get? configFile = h.volume.get? configFile)
        (fun e _ => e.refusesConfig = false ∧ ¬h.Ready) (perform (openWith limit c) h) := by
  refine ⟨c.exists_text_iff, ⟨fun ⟨t, ht⟩ => Config.saveable_of_ofText? ht, fun hc => ?_⟩, fun t ht => ⟨?_, ?_⟩,
    fun hc => ⟨writeConfig_of_not_saveable hc, fun limit h hclosed => ?_⟩, fun limit h d hopen hd => ?_⟩
  · obtain ⟨t, ht⟩ := c.exists_text_iff.mpr hc
    exact ⟨t, Config.ofText?_text hv ht⟩
  · intro limit p h hw
    refine ⟨_, writeConfig_of_writable ht hw, readConfig_of_text hv ht ?_⟩
    exact (get?_put hw.ne_nil).trans (if_pos rfl)
  · intro limit h hclosed hdevice
    have hb : Before none (h.volume.get? configFile) (h.Accepts limit t) h := ⟨hclosed, rfl, Accepts.toReady⟩
    refine ((openWith_leads hv ht hdevice fun hr => ⟨hr.place, hr.room⟩) h hb).mono
      (fun _ g ho => ⟨ho.running, fun us => (ho.settled.uses hv ht us).keeps hv ht⟩) fun e g he =>
      ⟨he.1, he.2.2, he.2.1⟩
  · exact openWith_leads_of_not_saveable hv hc limit h ⟨hclosed, rfl, id⟩
  · have hb : Before (some d) (h.volume.get? configFile) h.Ready h := ⟨hopen, rfl, id⟩
    exact (openWith_leads_of_open hv hd limit h hb).mono (fun _ _ hq => hq) fun e g he => ⟨he.spares, he.unready⟩

/-- The usual configuration is kept while a tag is added, the database is shut down and closed. -/
theorem usual_config_is_kept :
    let tag : Use := .work (fun m now d => (d.addTag m now ⟨5, by decide⟩ "seen").2) fun _ _ d => d.config_change _
    let shutdown : Use := .work (fun m now d => (d.shutdown m now).2) fun m now d => d.config_shutdown m now
    Config.standard.validate = .ok () ∧ ∃ g, perform (openWith none .standard) { root := "" } = (.ok (), g) ∧
      ([(none, tag), (none, shutdown), (none, .close)].foldl use g).Keeps .standard := by
  intro tag shutdown
  have hv : Config.standard.validate = .ok () := rfl
  obtain ⟨t, ht⟩ := Config.standard.exists_text_iff.mpr (by decide)
  have hends := ((config_is_kept_iff_saveable .standard hv).2.2.1 t ht).2 none { root := "" } rfl (by
    intro d hd
    cases hd)
  refine ⟨hv, ?_⟩
  generalize perform (openWith none .standard) { root := "" } = r at hends
  cases hends with
  | ok hq => exact ⟨_, rfl, hq.2 _⟩
  | error he =>
    have hready : Ready { root := "" } := .of_fresh rfl (.inl rfl) (by decide)
    exact absurd ⟨hready, .inl rfl, fun n hn => by cases hn⟩ he.2.2

/-- The longest timeouts are valid, but no file can hold them. -/
theorem immense_timeout_is_not_kept :
    let c : Config := { durability := "always", lockTimeout := ⟨0x8000000000000000, by decide⟩ }
    let h : Host := { root := "", volume := ⟨[(dataFolder, .folder)]⟩ }
    c.validate = .ok () ∧ (∀ t, Config.ofText? t ≠ some c) ∧ (∀ t, h.volume.Writable none configFile t) ∧
      perform (writeConfig none configFile c) h = (.error (.serialization .config), h) ∧
      (perform (openWith none c) h).1 = .error (.serialization .config) := by
  intro c h
  have hv : c.validate = .ok () := rfl
  have hc : ¬c.Saveable := by decide
  refine ⟨hv, fun t ht => hc (Config.saveable_of_ofText? ht), fun t => ⟨rfl, .inl rfl, fun n hn => by cases hn⟩,
    writeConfig_of_not_saveable hc none configFile h, ?_⟩
  have hready : h.Ready := .of_fresh rfl (.inr rfl) (by decide)
  have hbefore : Before none none h.Ready h := ⟨rfl, rfl, id⟩
  have hends := openWith_leads_of_not_saveable hv hc none h hbefore
  generalize perform (openWith none c) h = r at hends ⊢
  cases hends with
  | ok hq => exact hq.elim
  | error he => exact congrArg Except.error (he.1 hready)

end Host
end FlightTrace
