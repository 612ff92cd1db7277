import FlightTrace.Proofs.HostFiles
import FlightTrace.Proofs.RecoveryFaults

/-! The opening of a database on a host, part by part: the folder, the lock, the file of the configuration, the log.
Each part ends on a host of a known kind, or fails for a reason that was there before. -/
namespace FlightTrace

namespace Host

open Volume

/-- Nothing is in the way of opening a database, and its log can be recovered. -/
structure Ready (h : Host) : Prop where
  unlocked : h.lockedElsewhere = false
  folders : ∀ p ∈ wayTo logFolder, h.volume.Passable p
  lock : h.volume.get? lockFile = none ∨ ∃ bs, h.volume.get? lockFile = some (.file bs)
  log : ∃ es, Log.Recoverable es ∧ (h.volume.get? logFile).getD (.file []) = .file (Log.Replay.frames es)

theorem Ready.of_fresh {h : Host} (hunlocked : h.lockedElsewhere = false) (hdata : h.volume.Passable dataFolder)
    (hfree : ∀ p ∈ [logFolder, lockFile, logFile], h.volume.get? p = none) : h.Ready := by
  simp only [List.forall_mem_cons] at hfree
  obtain ⟨hfolder, hlock, hlog, -⟩ := hfree
  have hfolders : ∀ p ∈ wayTo logFolder, h.volume.Passable p :=
    List.forall_mem_cons.mpr ⟨hdata, List.forall_mem_singleton.mpr (.inl hfolder)⟩
  refine ⟨hunlocked, hfolders, .inl hlock, [], .nil, ?_⟩
  rw [hlog]
  rfl

/-- A host on which a database is about to be opened: what is running there, what stands in the place of the
configuration file, and whether the host is ready. -/
structure Before (running : Option Database) (node : Option Node) (ready : Prop) (h : Host) : Prop where
  running : h.database = running
  stored : h.volume.get? configFile = node
  ready : ready → h.Ready

structure Entered (running : Option Database) (node : Option Node) (ready : Prop) (h : Host) : Prop
    extends Before running node ready h where
  folder : h.volume.get? dataFolder = some .folder

structure Opened (c : Config) (node : Option Node) (h : Host) : Prop where
  stored : h.volume.get? configFile = node
  running : ∃ d, h.database = some d ∧ d.config = c

/-- Opening has failed, but not because of a configuration, and nothing has changed that matters. -/
structure Refused (running : Option Database) (node : Option Node) (ready : Prop) (e : Error) (h : Host) :
    Prop where
  spares : e.refusesConfig = false
  unready : ¬ready
  running : h.database = running
  stored : h.volume.get? configFile = node

variable {limit : Option Nat} {running : Option Database} {node : Option Node} {ready : Prop} {h : Host} {c : Config}
  {t : String}

theorem Before.refused (hb : Before running node ready h) {e : Error} (he : e.refusesConfig = false)
    (hr : ¬ready) : Refused running node ready e h :=
  ⟨he, hr, hb.running, hb.stored⟩

/-- Of the paths of a database only the folders lead to another. -/
theorem not_mem_wayTo : configFile ∉ wayTo logFolder ∧ lockFile ∉ wayTo logFolder ∧ logFile ∉ wayTo logFolder := by
  decide

theorem Ready.makeFolders (hr : h.Ready) {p : Path} (hp : wayTo p ⊆ wayTo logFolder) {v : Volume}
    (hv : Folders h.volume v (wayTo p)) : Ready { h with volume := v } := by
  have hkept {q : Path} (hq : q ∉ wayTo logFolder) : v.get? q = h.volume.get? q :=
    (hv q).trans (if_neg fun hmem => hq (hp hmem))
  refine ⟨hr.unlocked, fun q hq => ?_, ?_, ?_⟩
  · rw [Passable, hv q]
    split
    · exact .inr rfl
    · exact hr.folders q hq
  · rw [hkept not_mem_wayTo.2.1]
    exact hr.lock
  · rw [hkept not_mem_wayTo.2.2]
    exact hr.log

theorem makeFolders_leads {p : Path} (hp : wayTo p ⊆ wayTo logFolder) (hdata : dataFolder ∈ wayTo p) :
    Leads (Before running node ready) (makeFolders p) (fun _ => Entered running node ready)
      (Refused running node ready) := by
  intro h hb
  rw [makeFolders, perform_bind_ok (perform_get h)]
  rcases h.volume.makeFolders_cases p with ⟨v, hv, hfolders⟩ | ⟨hnone, q, hq, hfree⟩
  · rw [hv]
    refine .ok ⟨⟨hb.running, ?_, fun hr => (hb.ready hr).makeFolders hp hfolders⟩, ?_⟩
    · exact (hfolders configFile).trans ((if_neg fun hmem => not_mem_wayTo.1 (hp hmem)).trans hb.stored)
    · exact (hfolders dataFolder).trans (if_pos hdata)
  · rw [hnone]
    exact .error (hb.refused rfl fun hr => hfree ((hb.ready hr).folders q (hp hq)))

/-- Writing a file in the folder of the database, other than its log, takes nothing away. -/
theorem Entered.put (he : Entered running node ready h) {p : Path} (bs : List UInt8)
    (hp : p = configFile ∨ p = lockFile) : Entered running (if p = configFile then some (.file bs) else node) ready
      { h with volume := h.volume.put p (some (.file bs)) } := by
  have hne : p ≠ [] ∧ p ∉ wayTo logFolder ∧ p ≠ logFile ∧ p ≠ dataFolder := by
    rcases hp with rfl | rfl <;> decide
  have hget (q : Path) : (h.volume.put p (some (.file bs))).get? q =
      if q = p then some (.file bs) else h.volume.get? q :=
    get?_put hne.1
  refine ⟨⟨he.running, ?_, fun hr => ⟨(he.ready hr).unlocked, fun q hq => ?_, ?_, ?_⟩⟩, ?_⟩
  · rw [hget]
    exact if_congr eq_comm rfl he.stored
  · rw [Passable, hget, if_neg (ne_of_mem_of_not_mem hq hne.2.1)]
    exact (he.ready hr).folders q hq
  · rw [hget]
    split
    · exact .inr ⟨bs, rfl⟩
    · exact (he.ready hr).lock
  · rw [hget, if_neg hne.2.2.1.symm]
    exact (he.ready hr).log
  · rw [hget, if_neg hne.2.2.2.symm]
    exact he.folder

theorem lock_leads : Leads (Entered running node ready) lock (fun _ => Entered running node ready)
    (Refused running node ready) := by
  intro h he
  rw [lock, perform_bind_ok (perform_get h)]
  -- Whether others hold the lock is known from before the lock file was made.
  have hcheck : Leads (Entered running node ready)
      (if h.lockedElsewhere then throw (.storage (.lockedElsewhere (h.pathText dataFolder))) else pure ())
      (fun _ => Entered running node ready) (Refused running node ready) := by
    intro g hg
    cases hl : h.lockedElsewhere with
    | false => exact .ok hg
    | true => exact .error (hg.refused rfl fun hr => by simp [(he.ready hr).unlocked] at hl)
  rcases hl : h.volume.get? lockFile with _ | place
  · have hput := he.put [] (.inr rfl)
    rw [if_neg (by decide)] at hput
    simp only
    rw [perform_bind_ok (perform_modify _ h)]
    exact hcheck _ hput
  · have hfree (hne : ∀ bs, place ≠ .file bs) : ¬ready := fun hr => by
      rcases (he.ready hr).lock with hnone | ⟨bs, hbs⟩
      · cases hl.symm.trans hnone
      · exact hne bs (Option.some.inj (hl.symm.trans hbs))
    cases place with
    | file bs => exact hcheck h he
    | folder => exact .error (he.refused rfl (hfree fun _ hn => by cases hn))
    | device d => exact .error (he.refused rfl (hfree fun _ hn => by cases hn))

/-- A file that is not a device takes the text of a configuration, unless it cannot. -/
theorem writeConfig_leads (ht : c.text = .ok t) (hdevice : ∀ d, node ≠ some (.device d))
    (hplace : ready → (node = none ∨ ∃ bs, node = some (.file bs)) ∧ ∀ n ∈ limit, t.utf8ByteSize ≤ n) :
    Leads (Entered running node ready) (writeConfig limit configFile c)
      (fun _ => Entered running (some (.file (Text.utf8 t))) ready)
      (fun e h => e.refusesConfig = false ∧ ¬ready ∧ h.database = running) := by
  intro h he
  by_cases hw : h.volume.Writable limit configFile t
  · have hput := he.put (Text.utf8 t) (.inl rfl)
    rw [if_pos rfl] at hput
    rw [writeConfig_of_writable ht hw]
    exact .ok hput
  · have hfull : (h.volume.write limit configFile (Text.utf8 t)).1 = false :=
      Bool.eq_false_iff.mpr fun hdone => hw (writable_of_write (he.stored ▸ hdevice) hdone)
    rw [perform_writeConfig ht, hfull]
    exact .error ⟨rfl, fun hr => hw ⟨he.folder, he.stored ▸ (hplace hr).1, (hplace hr).2⟩, he.running⟩

theorem get?_withSite (h : Host) (s : Log.Site) :
    (h.withSite s).volume.get? configFile = h.volume.get? configFile :=
  (get?_put (by decide)).trans (if_neg (by decide))

def openLog (limit : Option Nat) (config : Config) (durability : Durability) (settings : Settings) (folder : String) :
    Action Unit := do
  makeFolders logFolder
  let h ← get
  let some site := h.site.openWith durability h.now | throw (.file .refused)
  let some log := site.log | throw (.file .refused)
  let (r, log) := Database.recover folder config settings (.of limit site.device) log
  let site := site.settle log
  match r with
  | .ok d => set { h.withSite site with database := some d, opened := h.now }
  | .error e =>
    set (h.withSite (site.close limit h.now))
    throw e

theorem openLog_leads (limit : Option Nat) (c : Config) (durability : Durability) (settings : Settings)
    (folder : String) :
    Leads (Entered none node ready) (openLog limit c durability settings folder)
      (fun _ => Opened c node) (Refused none node ready) := by
  refine fun h he => ((makeFolders_leads (List.Subset.refl _) (by decide)).bind fun _ h he => ?_) h he.toBefore
  rw [perform_bind_ok (perform_get h)]
  -- Neither the site of the log nor its end changes what stands in the place of the configuration file.
  have hrunning (s : Log.Site) : (h.withSite s).database = none := by rw [withSite, he.running]; rfl
  cases hcontent : ((h.volume.get? logFile).getD (.file [])).content? with
  | none =>
    have hsite : h.site.openWith durability h.now = none := by
      simp only [Log.Site.openWith, site, hcontent, Option.map_none]
    rw [hsite]
    refine .error (he.refused rfl fun hr => ?_)
    obtain ⟨es, -, hlog⟩ := (he.ready hr).log
    rw [hlog] at hcontent
    cases hcontent
  | some bs =>
    have hsite : h.site.openWith durability h.now =
        some ⟨some ((h.volume.get? logFile).getD (.file [])), some (.ofFile durability bs h.now),
          ((h.volume.get? logFile).getD (.file [])).device?, true⟩ := by
      simp only [Log.Site.openWith, site, hcontent, Option.map_some]
    rw [hsite]
    simp only
    generalize hrecover : Database.recover folder c settings _ _ = r
    obtain ⟨e | d, log⟩ := r
    · have hspares : e.refusesConfig = false := Database.recover_spares _ _ _ _ _ e (congrArg Prod.fst hrecover)
      refine .error ⟨hspares, fun hr => ?_, hrunning _, (get?_withSite h _).trans he.stored⟩
      obtain ⟨es, hes, hlog⟩ := (he.ready hr).log
      rw [hlog] at hcontent
      obtain rfl : Log.Replay.frames es = bs := Option.some.inj hcontent
      obtain ⟨d, hd⟩ := Database.recover_recoverable hes folder c settings _ durability h.now
      rw [hrecover] at hd
      cases hd
    · have hconfig : d.config = c := Database.config_of_recover (congrArg Prod.fst hrecover)
      exact .ok ⟨(get?_withSite h _).trans he.stored, d, rfl, hconfig⟩

theorem start_of_closed {durability : Durability} {settings : Settings} (hd : c.mode = .ok durability)
    (hs : c.settings = .ok settings) (hnone : h.database = none) (isNew : Bool) :
    perform (start limit c isNew) h = perform (do
      lock
      if isNew then writeConfig limit configFile c
      openLog limit c durability settings (h.pathText dataFolder)) h := by
  rw [start, perform_bind_ok (perform_liftConfig hd h), perform_bind_ok (perform_liftConfig hs h),
    perform_bind_ok (perform_get h), perform_bind_ok (perform_get h)]
  simp only [hnone]
  rfl

/-- A database that is open stays as it is, unless it is to have another configuration. -/
theorem start_of_open (hv : c.validate = .ok ()) {d : Database} (hd : h.database = some d) {isNew : Bool}
    (hsame : isNew = true → d.config = c) : perform (start limit c isNew) h = (.ok (), h) := by
  obtain ⟨⟨durability, hm⟩, settings, hs⟩ := c.validate_eq_ok_iff_exists.mp hv
  rw [start, perform_bind_ok (perform_liftConfig hm h), perform_bind_ok (perform_liftConfig hs h),
    perform_bind_ok (perform_get h), perform_bind_ok (perform_get h)]
  simp only [hd]
  rw [if_neg fun hother => hother.2 (hsame hother.1)]
  rfl

theorem start_leads (hv : c.validate = .ok ()) :
    Leads (Entered none node ready) (start limit c false) (fun _ => Opened c node) (Refused none node ready) := by
  intro h he
  obtain ⟨⟨durability, hm⟩, settings, hs⟩ := c.validate_eq_ok_iff_exists.mp hv
  rw [start_of_closed hm hs he.running]
  exact (lock_leads.bind fun _ => openLog_leads limit c durability settings _) h he

/-- A configuration with a text is stored, and the database has it. -/
theorem openWith_leads (hv : c.validate = .ok ()) (ht : c.text = .ok t) (hdevice : ∀ d, node ≠ some (.device d))
    (hplace : ready → (node = none ∨ ∃ bs, node = some (.file bs)) ∧ ∀ n ∈ limit, t.utf8ByteSize ≤ n) :
    Leads (Before none node ready) (openWith limit c)
      (fun _ => Opened c (some (.file (Text.utf8 t))))
      (fun e h => e.refusesConfig = false ∧ ¬ready ∧ h.database = none) := by
  intro h hb
  obtain ⟨⟨durability, hm⟩, settings, hs⟩ := c.validate_eq_ok_iff_exists.mp hv
  have hrefused {node' : Option Node} (e : Error) (h : Host) (hr : Refused none node' ready e h) :
      e.refusesConfig = false ∧ ¬ready ∧ h.database = none :=
    ⟨hr.spares, hr.unready, hr.running⟩
  rw [openWith, perform_bind_ok (perform_liftConfig hv h)]
  refine (((makeFolders_leads (by decide) (by decide)).mono_error hrefused).bind fun _ h he => ?_) h hb
  rw [start_of_closed hm hs he.running]
  exact ((lock_leads.mono_error hrefused).bind fun _ =>
    (writeConfig_leads ht hdevice hplace).bind fun _ =>
      (openLog_leads limit c durability settings _).mono_error hrefused) h he

theorem openWith_leads_of_open (hv : c.validate = .ok ()) {d : Database} (hd : d.config = c) (limit : Option Nat) :
    Leads (Before (some d) node ready) (openWith limit c)
      (fun _ h => h.database = some d ∧ h.volume.get? configFile = node) (Refused (some d) node ready) := by
  intro h hb
  rw [openWith, perform_bind_ok (perform_liftConfig hv h)]
  refine ((makeFolders_leads (by decide) (by decide)).bind fun _ h he => ?_) h hb
  rw [start_of_open hv he.running fun _ => hd]
  exact .ok ⟨he.running, he.stored⟩

theorem openWith_leads_of_not_saveable (hv : c.validate = .ok ()) (hc : ¬c.Saveable) (limit : Option Nat) :
    Leads (Before none node ready) (openWith limit c) (fun _ _ => False)
      (fun e h => (ready → e = .serialization .config) ∧ h.database = none ∧ h.volume.get? configFile = node) := by
  intro h hb
  obtain ⟨⟨durability, hm⟩, settings, hs⟩ := c.validate_eq_ok_iff_exists.mp hv
  have hrefused (e : Error) (h : Host) (hr : Refused none node ready e h) :
      (ready → e = .serialization .config) ∧ h.database = none ∧ h.volume.get? configFile = node :=
    ⟨fun hready => absurd hready hr.unready, hr.running, hr.stored⟩
  rw [openWith, perform_bind_ok (perform_liftConfig hv h)]
  refine (((makeFolders_leads (by decide) (by decide)).mono_error hrefused).bind fun _ h he => ?_) h hb
  rw [start_of_closed hm hs he.running]
  refine ((lock_leads.mono_error hrefused).bind fun _ h he => ?_) h he
  rw [if_pos rfl, perform_bind_error (writeConfig_of_not_saveable hc limit configFile h)]
  exact .error ⟨fun _ => rfl, he.running, he.stored⟩

end Host
end FlightTrace
