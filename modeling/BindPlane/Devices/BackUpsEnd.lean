import BindPlane.Devices.BackUp
import BindPlane.Worker.Verdict

/-!
# How a backup ends

**Failures.**  Every failure behind the handler of `back_up` is told: no text of
`describe_failure` is the one that `process_device_item` writes (`describeFailure_ne`).  So the
switches of a run in which executors ask for what they lead to never hold that text.

**Endings.**  An executor that keeps its lease leaves the item skipped, or succeeded without an
error and an alert, or failed with both, unless it has read the configuration and cannot compile
an ignore pattern, or seal the text (`Plane.Worked.backup_told`).
-/

namespace BindPlane.Devices

open ReadCommitted Contract

/-! ## What describe_failure tells -/

/-- What `process_device_item` writes on an exception. -/
def unexpected : String := "Unexpected worker error"

/-- The message of a failure that has one is another. -/
def Failed.Told : Failed → Prop
  | .rejected message | .session message => message ≠ unexpected
  | _ => True

/-- Whatever is raised is told. -/
def Tells {α : Type} (x : Except Failed α) : Prop := ∀ e, x = .error e → e.Told

section Tells

variable {α β : Type}

theorem Tells.ok (a : α) : Tells (.ok a : Except Failed α) := nofun

theorem Tells.error {e : Failed} (h : e.Told) : Tells (.error e : Except Failed α) := by
  rintro _ ⟨⟩
  exact h

theorem Tells.rejected {message : String} (h : message ≠ unexpected) :
    Tells (.error (.rejected message) : Except Failed α) := .error h

theorem Tells.session {message : String} (h : message ≠ unexpected) :
    Tells (.error (.session message) : Except Failed α) := .error h

theorem Tells.bind {x : Except Failed α} {f : α → Except Failed β} (hx : Tells x)
    (hf : ∀ a, x = .ok a → Tells (f a)) : Tells (x >>= f) := by
  cases x with
  | error e =>
      rintro _ ⟨⟩
      exact hx e rfl
  | ok a => exact hf a rfl

theorem tells_raisedBy (x : Except Exc α) : Tells (raisedBy x) := by
  cases x with
  | error e => exact .error trivial
  | ok a => exact .ok a

theorem Raised.failed_told (e : Raised) : e.failed.Told := by
  cases e <;> exact trivial

variable (py : DevicePython) (net : Netmiko)

theorem connect_tells (settings : Settings) : Tells (net.connect settings) := by
  unfold Netmiko.connect
  split
  · exact .ok ()
  · exact .session (by decide)
  · exact .session (by decide)
  · split
    · exact .session (by decide)
    · exact .error (Raised.failed_told _)

theorem readFailed_tells (x : Except Raised α) : Tells (readFailed x) := by
  unfold readFailed
  split
  · exact .ok _
  · exact .session (by decide)
  · exact .session (by decide)
  · split
    · exact .session (by decide)
    · exact .error (Raised.failed_told _)

theorem backupCommand_tells (profile : Profile) : Tells (backupCommand py profile) := by
  refine .bind (tells_raisedBy _) fun value _ => ?_
  split
  · split
    · exact .rejected (by decide)
    · exact .ok _
  · exact .rejected (by decide)

theorem checkConfiguration_tells (profile : Profile) (text : Chars) :
    Tells (checkConfiguration py profile text) := by
  unfold checkConfiguration
  split
  · exact .rejected (by decide)
  · split
    · exact .rejected (by decide)
    · refine .bind (tells_raisedBy _) fun matched _ => ?_
      split
      · exact .rejected (by decide)
      · exact .ok text

theorem backupText_tells (dep : Dependencies) : Tells (backupText py net dep) := by
  unfold backupText
  split
  · refine .bind (tells_raisedBy _) fun profile _ => ?_
    refine .bind (backupCommand_tells py profile) fun command _ => ?_
    refine .bind (tells_raisedBy _) fun paging _ => ?_
    refine .bind (tells_raisedBy _) fun settings _ => ?_
    refine .bind (connect_tells net settings) fun _ _ => ?_
    refine .bind (.bind (readFailed_tells _) fun _ _ => readFailed_tells _) fun raw _ => ?_
    exact checkConfiguration_tells py profile _
  · exact .rejected (by decide)

end Tells

/-- A failure that is told is not described as an unexpected error of the worker. -/
theorem describeFailure_ne {e : Failed} (h : e.Told) : describeFailure e ≠ unexpected := by
  -- the texts differ in their twelfth character
  have hother : ∀ name : String, "Unexpected error (" ++ name ++ ")" ≠ unexpected := by
    intro name heq
    have hchar := congrArg (fun s : String => s.toList[11]?) heq
    simp [unexpected, String.toList_append] at hchar
  have hos : ∀ name : String, "Network error (" ++ name ++ ")" ≠ unexpected := by
    intro name heq
    have hchar := congrArg (fun s : String => s.toList[0]?) heq
    simp [unexpected, String.toList_append] at hchar
  cases e with
  | rejected message => exact h
  | session message => exact h
  | timeout => decide
  | connectionRefused => decide
  | os name => exact hos name
  | other name => exact hother name

/-! ## What is raised behind the handler -/

section Capture

variable {out : Surroundings} {item : ClaimedItem} {dep : Dependencies} {text : Chars}

/-- Every element of the list is a pattern. -/
def Compiles (py : DevicePython) (ignore : List Json) : Prop :=
  ∀ p ∈ ignore, ∃ search, compilePattern py p = .ok search

theorem mapM_compilePattern {py : DevicePython} {ignore : List Json} :
    (∃ patterns, ignore.mapM (compilePattern py) = .ok patterns) ↔ Compiles py ignore := by
  constructor
  · rintro ⟨patterns, hmap⟩ p hp
    obtain ⟨search, -, hsearch⟩ := exists_related (mapM_eq_ok.mp hmap) hp
    exact ⟨search, hsearch⟩
  · intro hall
    induction ignore with
    | nil => exact ⟨[], rfl⟩
    | cons p ignore ih =>
        obtain ⟨search, hsearch⟩ := hall p List.mem_cons_self
        obtain ⟨patterns, hmap⟩ := ih fun q hq => hall q (List.mem_cons_of_mem p hq)
        exact ⟨search :: patterns, mapM_eq_ok.mpr (.cons hsearch (mapM_eq_ok.mp hmap))⟩

theorem mapping_ok {py : Python} {value rules : Json} (h : mapping py value = .ok rules) :
    ∃ fields, rules = .obj fields := by
  unfold mapping at h
  dsimp only at h
  split at h
  -- a text is decoded first, and then the value is looked at like any other
  all_goals
    obtain ⟨value, -, h⟩ := bind_eq_ok.mp h
    split at h
    · exact ⟨_, (Except.ok.inj h).symm⟩
    · exact ⟨_, (Except.ok.inj h).symm⟩

/-- The rules that a text was read with are decoded again. -/
theorem ignorePatterns_ok (h : backupText out.py out.net dep = .ok text) :
    ∃ ignore, ignorePatterns out.py dep = .ok ignore := by
  unfold backupText at h
  split at h
  · obtain ⟨profile, hprofile, -⟩ := bind_eq_ok.mp h
    have hdecoded : backupProfile out.py dep = .ok profile := by
      revert hprofile
      cases backupProfile out.py dep <;> rintro ⟨⟩
      rfl
    obtain ⟨_, -, hdecoded⟩ := bind_eq_ok.mp hdecoded
    obtain ⟨_, -, hdecoded⟩ := bind_eq_ok.mp hdecoded
    obtain ⟨_, -, hdecoded⟩ := bind_eq_ok.mp hdecoded
    obtain ⟨_, -, hdecoded⟩ := bind_eq_ok.mp hdecoded
    obtain ⟨rules, hrules, -⟩ := bind_eq_ok.mp hdecoded
    obtain ⟨fields, rfl⟩ := mapping_ok hrules
    unfold ignorePatterns
    rw [hrules]
    dsimp only [Bind.bind, Except.bind, Json.get]
    split
    · exact ⟨_, rfl⟩
    · exact ⟨_, rfl⟩
  · cases h

/-- A text is recorded if the patterns compile and the text is sealed. -/
theorem capture_ok {ignore : List Json} (h : ignorePatterns out.py dep = .ok ignore) :
    (∃ c, capture out.py dep text = .ok c) ↔
      Compiles out.py ignore ∧ ∃ sealed, out.py.sealConfig text = .ok sealed := by
  unfold capture
  simp only [bind_eq_ok]
  constructor
  · rintro ⟨c, ignore', hignore, patterns, hpatterns, sealed, hsealed, -⟩
    obtain rfl := Except.ok.inj (h.symm.trans hignore)
    exact ⟨mapM_compilePattern.mp ⟨patterns, hpatterns⟩, sealed, hsealed⟩
  · rintro ⟨hcompiles, sealed, hsealed⟩
    obtain ⟨patterns, hpatterns⟩ := mapM_compilePattern.mpr hcompiles
    exact ⟨_, ignore, h, patterns, hpatterns, sealed, hsealed, rfl⟩

/-- A configuration was read, but a pattern of the profile does not compile, or the text is not
sealed.

Both cases come behind the `try` of `back_up`, where the text has been read and its fingerprint and
its ciphertext are computed.  Nobody looks at the ignore patterns of a profile when it is saved, so
that the first to compile them is the worker that has just read a configuration. -/
def Unguarded (out : Surroundings) : Option Dependencies → Prop
  | none => False
  | some dep => dep.isEnabled = true ∧ ∃ text, backupText out.py out.net dep = .ok text ∧
      ¬((∀ ignore, ignorePatterns out.py dep = .ok ignore → Compiles out.py ignore) ∧
        ∃ sealed, out.py.sealConfig text = .ok sealed)

/-- The transactions that end a backup. -/
inductive Asked (out : Surroundings) (item : ClaimedItem) : Option Dependencies → Op → Prop
  | skipped {dep : Option Dependencies}
      (hdisabled : ∀ row, dep = some row → row.isEnabled = false) :
      Asked out item dep (.skipItem item)
  | recorded {row : Dependencies} (c : Capture) (hguarded : ¬Unguarded out (some row)) :
      Asked out item (some row) (.recordBackup item c)
  | told {row : Dependencies} (e : Failed) (he : e.Told) (hguarded : ¬Unguarded out (some row)) :
      Asked out item (some row) (.recordBackupFailure item (describeFailure e))
  | unguarded {row : Dependencies} (h : Unguarded out (some row)) :
      Asked out item (some row) (.failItem item)

theorem processDeviceItem_asked (hkind : item.kind = .configBackup)
    (dep : Option Dependencies) : Asked out item dep (processDeviceItem out item dep) := by
  cases dep with
  | none =>
      show Asked out item none (.skipItem item)
      refine .skipped fun row heq => ?_
      cases heq
  | some row =>
      unfold processDeviceItem
      dsimp only
      cases henabled : row.isEnabled with
      | false =>
          rw [if_pos (by decide)]
          refine .skipped fun row' heq => ?_
          obtain rfl := Option.some.inj heq
          exact henabled
      | true =>
          rw [if_neg (by decide), hkind]
          unfold backUp
          cases htext : backupText out.py out.net row with
          | error e =>
              refine .told e (backupText_tells out.py out.net row e htext) ?_
              rintro ⟨-, text, hread, -⟩
              rw [htext] at hread
              cases hread
          | ok text =>
              obtain ⟨ignore, hignore⟩ := ignorePatterns_ok htext
              have hcaptured := @capture_ok out row text ignore hignore
              dsimp only
              cases hcapture : capture out.py row text with
              | ok c =>
                  show Asked out item (some row) (.recordBackup item c)
                  refine .recorded c ?_
                  rintro ⟨-, text', hread, hnot⟩
                  obtain rfl := Except.ok.inj (htext.symm.trans hread)
                  obtain ⟨hcompiles, hsealed⟩ := hcaptured.mp ⟨c, hcapture⟩
                  refine hnot ⟨fun ignore' hignore' => ?_, hsealed⟩
                  rwa [← Except.ok.inj (hignore.symm.trans hignore')]
              | error e =>
                  show Asked out item (some row) (.failItem item)
                  refine .unguarded ⟨henabled, text, htext, ?_⟩
                  rintro ⟨hcompiles, hsealed⟩
                  obtain ⟨c, hc⟩ := hcaptured.mpr ⟨hcompiles ignore hignore, hsealed⟩
                  rw [hcapture] at hc
                  cases hc

end Capture

/-! ## What a commit leaves -/

section Commits

variable {P : Platform} {op : Op} {u : Unit} {K : Set (Resource Key)} {d d' : Db} {r : Reply}

/-- An error of a switch was there before, or is the message of the failure that was recorded. -/
theorem Commit.configError (h : Commit P op u K d d' r) {id : Id} {sw' : Switch} {m : String}
    (hsw' : d'.switches.get? id = some sw') (hm : sw'.configError = some m) :
    (∃ sw, d.switches.get? id = some sw ∧ sw.configError = some m) ∨
      ∃ item, op = .recordBackupFailure item m := by
  -- an update of one row leaves every row as it was, or as `f` makes it
  have hmodify : ∀ {i : Id} {f : Switch → Switch},
      (d.switches.modify i f).get? id = some sw' →
        (∃ sw, d.switches.get? id = some sw ∧ sw.configError = some m) ∨
          ∃ sw, d.switches.get? id = some sw ∧ sw' = f sw := by
    intro i f hget
    rw [Table.get?_modify] at hget
    split at hget
    · obtain ⟨sw, hsw, rfl⟩ := Option.map_eq_some_iff.mp hget
      exact .inr ⟨sw, hsw, rfl⟩
    · exact .inl ⟨sw', hget, hm⟩
  cases h with
  | switchMade actor input i e hkey hfresh =>
      have hget : (d.switches.insert i input.row).get? id = some sw' := hsw'
      rw [Table.get?_insert] at hget
      split at hget
      · obtain rfl := Option.some.inj hget
        cases hm
      · exact .inl ⟨sw', hget, hm⟩
  | switchEdited actor uid edit i e n =>
      obtain hsame | ⟨sw, hsw, rfl⟩ := hmodify hsw'
      · exact .inl hsame
      · exact .inl ⟨sw, hsw, hm⟩
  | checked item p start write =>
      obtain hsame | ⟨sw, hsw, rfl⟩ := hmodify hsw'
      · exact .inl hsame
      · exact .inl ⟨sw, hsw, hm⟩
  | backupFailed item message start write =>
      obtain hsame | ⟨sw, hsw, rfl⟩ := hmodify hsw'
      · exact .inl hsame
      · obtain rfl := Option.some.inj hm
        exact .inr ⟨item, rfl⟩
  | unchanged item c start write =>
      obtain hsame | ⟨sw, hsw, rfl⟩ := hmodify hsw'
      · exact .inl hsame
      · cases hm
  | backedUp item c start write =>
      obtain hsame | ⟨sw, hsw, rfl⟩ := hmodify hsw'
      · exact .inl hsame
      · cases hm
  | _ => exact .inl ⟨sw', hsw', hm⟩

/-- The item of an executor that has ended it. -/
theorem ClaimedItem.Runs.finished {item : ClaimedItem} (h : item.Runs K d) {start : Instant}
    {f : Finish} : ∃ i, (d.items.modify item.id (Item.finished start f)).get? item.id = some i ∧
      i.status = f.status ∧ i.message = f.message := by
  obtain ⟨i, hi, -⟩ := Db.held_eq_true.mp h.held
  refine ⟨i.finished start f, ?_, rfl, rfl⟩
  rw [Table.get?_modify_self, hi]
  rfl

/-- The switch of an executor that has written its status. -/
theorem get?_backedUp {s : Id} {sw : Switch} {start : Instant} {error : Option String}
    (hsw : d.switches.get? s = some sw) :
    ∃ sw', (d.switches.modify s (Switch.backedUp start error)).get? s = some sw' ∧
      sw'.configError = error := by
  refine ⟨sw.backedUp start error, ?_, rfl⟩
  rw [Table.get?_modify_self, hsw]
  rfl

/-- The alert that an upsert leaves carries its message. -/
theorem Upserts.carries {start : Instant} {new : NewAlert} {write : Table Alert → Table Alert}
    (h : Upserts K d start new (Alert.seen start new) write) :
    ∃ id a, (write d.alerts).get? id = some a ∧ a.dedupeKey = new.key ∧ a.active = true ∧
      a.message = new.message := by
  cases h with
  | touched id hid =>
      obtain ⟨a, ha, hkey, hactive⟩ := hid
      refine ⟨id, a.seen start new, ?_, hkey, hactive, rfl⟩
      rw [Table.get?_modify_self, ha]
      rfl
  | opened id hnone hserial hfresh hswitch =>
      exact ⟨id, new.row start, Table.get?_insert_self .., rfl, rfl, rfl⟩

end Commits

/-! ## Endings of a backup -/

/-- **How a backup is meant to leave its item**, and the switch and the alert with it.

Each of the three ends has a row, and for the last two a switch and an alert that agree with it.  An
end that is none of these is one that the operator is not told of. -/
inductive Db.BackupTold (d : Db) (item : ClaimedItem) (disabled : Prop) : Prop
  | skipped (i : Item) (hi : d.items.get? item.id = some i) (hstatus : i.status = .skipped)
      (h : disabled)
  | succeeded (i : Item) (sw : Switch) (hi : d.items.get? item.id = some i)
      (hstatus : i.status = .succeeded) (hsw : d.switches.get? item.switchId = some sw)
      (herror : sw.configError = none)
      (halert : activeIn d.alerts (.backupFailed item.switchId) = ∅)
  | failed (i : Item) (sw : Switch) (id : Id) (a : Alert) (message : String)
      (hi : d.items.get? item.id = some i) (hstatus : i.status = .failed)
      (hmessage : i.message = some message) (hsw : d.switches.get? item.switchId = some sw)
      (herror : sw.configError = some message) (ha : d.alerts.get? id = some a)
      (hkey : a.dedupeKey = .backupFailed item.switchId) (hactive : a.active = true)
      (hcarries : a.message = "Backup failed: " ++ message)

section Endings

variable {P : Platform} {u : Unit} {K : Set (Resource Key)} {d d' : Db} {r : Reply}
  {item : ClaimedItem} {disabled : Prop}

theorem Commit.skip_told (h : Commit P (.skipItem item) u K d d' (.won true)) (hd : disabled) :
    d'.BackupTold item disabled := by
  cases h with
  | ended item start f hop hbackup hruns =>
      obtain ⟨hitem, hstatus⟩ | ⟨hitem, -⟩ := hop
      · obtain rfl := Op.skipItem.inj hitem
        obtain ⟨i, hi, hskipped, -⟩ := hruns.finished (f := f)
        exact .skipped i hi (hskipped.trans hstatus) hd
      · cases hitem

theorem Commit.record_told {c : Capture} (h : Commit P (.recordBackup item c) u K d d' r)
    (hd : d.AlertsMatch) (hsw : ∃ sw, d.switches.get? item.switchId = some sw) :
    d'.BackupTold item disabled := by
  obtain ⟨sw, hsw⟩ := hsw
  cases h with
  | unchanged item c start write m hkind hruns halerts =>
      obtain ⟨i, hi, hstatus, -⟩ := hruns.finished
      obtain ⟨sw', hsw', herror⟩ := get?_backedUp hsw
      exact .succeeded i sw' hi hstatus hsw' herror (halerts.closes (hd.one _)).1
  | backedUp item c start write m id hkind hruns halerts =>
      obtain ⟨i, hi, hstatus, -⟩ := hruns.finished
      obtain ⟨sw', hsw', herror⟩ := get?_backedUp hsw
      exact .succeeded i sw' hi hstatus hsw' herror (halerts.closes (hd.one _)).1
  | lost item' hop => obtain hop | hop | ⟨_, hop⟩ | ⟨_, hop⟩ := hop <;> cases hop
  | ended item' start f hop => obtain ⟨hop, -⟩ | ⟨hop, -⟩ := hop <;> cases hop

theorem Commit.failure_told {m : String}
    (h : Commit P (.recordBackupFailure item m) u K d d' (.won true))
    (hsw : ∃ sw, d.switches.get? item.switchId = some sw) : d'.BackupTold item disabled := by
  obtain ⟨sw, hsw⟩ := hsw
  cases h with
  | backupFailed item m start write hkind hruns hkey halerts =>
      obtain ⟨i, hi, hstatus, hmessage⟩ := hruns.finished
      obtain ⟨sw', hsw', herror⟩ := get?_backedUp hsw
      obtain ⟨id, a, ha, hakey, hactive, hcarries⟩ := halerts.carries
      exact .failed i sw' id a m hi hstatus hmessage hsw' herror ha hakey hactive hcarries
  | ended item' start f hop => obtain ⟨hop, -⟩ | ⟨hop, -⟩ := hop <;> cases hop

theorem Commit.failItem_runs (h : Commit P (.failItem item) u K d d' (.won true)) :
    item.Runs K d := by
  cases h with
  | ended item' start f hop hbackup hruns =>
      obtain ⟨hitem, -⟩ | ⟨hitem, -⟩ := hop
      · cases hitem
      · exact Op.failItem.inj hitem ▸ hruns

end Endings

/-- The transaction has not lost its lease. -/
def Op.Keeps : Op → Reply → Prop
  | .recordBackup _ _, _ => True
  | _, r => r = .won true

theorem Op.keeps_won (op : Op) : op.Keeps (.won true) := by
  unfold Op.Keeps
  split
  · exact trivial
  · rfl

/-- `failItem` writes its message to the item, and nothing else. -/
def Naming (op : Op) (_ : Unit) : Except Failure Reply → View Db Key → Prop
  | .ok r, v => ∀ item, op = .failItem item → r = .won true → ∃ start,
      v.snapshot = v.db.modifyItem item.id
        (Item.finished start ⟨.failed, some unexpected, none, none⟩)
  | .error _, _ => True

section Runs

variable {P : Platform} {v : View Db Key}

private theorem failItem_names {item : ClaimedItem} (hv : (contract P).Good v)
    (hpending : v.pending = id) :
    (body P (.failItem item) ()).Ensures (contract P).interference
      (Naming (.failItem item) ()) v := by
  refine yields ?_
  refine claimedAt_bind hv hpending (fun _ _ => trivial) fun v₁ h₁ hv₁ hhanded => ?_
  have hpending₁ := h₁.pending.trans hpending
  rw [← Tx.bind_pure (finishItem ..)]
  refine finishItem_bind hv₁ hhanded (fun d => by rw [hpending₁]; rfl)
    (fun v₂ h₂ hv₂ hruns => ?_) (fun v₂ h₂ hv₂ => ?_)
  · refine Good.yield (v := v₂.queue _) hv₂ fun v₃ h₃ hv₃ => ?_
    rintro item' ⟨⟩ -
    refine ⟨v₁.db.clock, ?_⟩
    rw [View.snapshot, h₃.pending, View.queue_pending, h₂.pending, hpending₁]
    rfl
  · refine Good.yield hv₂ fun v₃ h₃ hv₃ => ?_
    rintro item' - hwon
    cases hwon

/-- The transaction of the outer handler. -/
def Op.Fails : Op → Prop
  | .failItem _ => True
  | _ => False

private theorem naming_of_not {op : Op} (h : ¬op.Fails) :
    ∀ (r : Except Failure Reply) (v : View Db Key), Naming op () r v
  | .ok _, _ => by
      rintro item rfl
      exact absurd trivial h
  | .error _, _ => trivial

theorem naming_kept : (contract P).KeptWithin (fun _ => True) (body P) Naming := by
  intro op _ v hinv _ hpending hheld
  rw [Contract.within_true]
  have hv : (contract P).Good v := ⟨hinv, fun n hn => by rw [hheld] at hn; cases hn⟩
  cases op with
  | failItem item => exact failItem_names hv hpending
  | _ =>
      refine Tx.Ensures.trivial (naming_of_not ?_) _
      exact not_false

/-- What `failItem` leaves. -/
theorem Plane.Reachable.failItem_leaves {s : Plane} (h : Plane.Reachable P s) {t : ℕ}
    {item : ClaimedItem} {w : Db → Db} (hend : s.txns t = .active (.failItem item) () w
      (.pure (.won true))) :
    ∃ start, w s.db = s.db.modifyItem item.id
      (Item.finished start ⟨.failed, some unexpected, none, none⟩) := by
  have hinit : Sound (contract P) (Sys.init Db.empty 0 : Plane) := .init Db.valid_empty
  have hwithin : Sys.StepsWithin (body P) (fun _ => True) (Sys.init Db.empty 0 : Plane) s :=
    Relation.ReflTransGen.mono (fun _ _ hs => ⟨hs, trivial⟩) _ _ h
  exact hinit.follow device_kept naming_kept trivial (fun _ _ _ _ => nofun) hwithin hend
    item rfl rfl

/-! ## Runs of executors -/

/-- A failure is recorded by an executor that has come to it. -/
def Op.Worked : Op → Prop
  | .recordBackupFailure item message => ∃ out dep,
      processDeviceItem out item (some dep) = .recordBackupFailure item message
  | _ => True

/-- Any number of actions, in which executors ask for what they have come to. -/
def Plane.Worked (P : Platform) : Plane → Plane → Prop :=
  Relation.ReflTransGen fun s s' =>
    ∃ a, s.step (body P) a = some s' ∧ ∀ t op, a = .request t op → op.Worked

theorem Plane.Worked.steps {s s' : Plane} (h : Plane.Worked P s s') : Plane.Steps P s s' :=
  Relation.ReflTransGen.mono (fun _ _ ⟨a, ha, _⟩ => ⟨a, ha⟩) _ _ h

/-- No switch has the message of `process_device_item`. -/
def Db.NoneUnexpected (d : Db) : Prop :=
  ∀ id sw, d.switches.get? id = some sw → sw.configError ≠ some unexpected

theorem Op.Worked.ne_unexpected {item : ClaimedItem} {message : String}
    (h : (Op.recordBackupFailure item message).Worked) (hkind : item.kind = .configBackup) :
    message ≠ unexpected := by
  obtain ⟨out, dep, heq⟩ := h
  have hasked := @processDeviceItem_asked out item hkind (some dep)
  rw [heq] at hasked
  cases hasked with
  | told e he _ => exact describeFailure_ne he

theorem Plane.Worked.noneUnexpected {s : Plane}
    (h : Plane.Worked P (Sys.init Db.empty 0) s) :
    (∀ t op, (s.txns t).op? = some op → op.Worked) ∧ s.db.NoneUnexpected := by
  induction h with
  | refl =>
      refine ⟨fun t op hop => ?_, fun id sw hsw => ?_⟩
      · cases hop
      · cases hsw
  | @tail s₁ s₂ hrun hstep ih =>
      obtain ⟨a, ha, hasked⟩ := hstep
      obtain ⟨hops, hnone⟩ := ih
      have hs₁ : Plane.Reachable P s₁ := Plane.Worked.steps hrun
      refine ⟨fun t op hop => ?_, ?_⟩
      · obtain hop | rfl := Sys.step_op_back ha hop
        · exact hops t op hop
        · exact hasked t op rfl
      · cases Sys.step_moved ha with
        | quiet hdb =>
            rw [hdb]
            exact hnone
        | commit op u r w ht hdb htxns =>
            have hc := (hs₁.commit ht).2
            rw [← hdb] at hc
            generalize s₂.db = left at hc
            intro id sw hsw herror
            obtain ⟨sw₁, hsw₁, herror₁⟩ | ⟨item, rfl⟩ := hc.configError hsw herror
            · exact hnone id sw₁ hsw₁ herror₁
            · have hworked := hops a.txn _ (by rw [ht]; rfl)
              cases hc with
              | lost => exact hnone id sw hsw herror
              | ended item' start f hop => obtain ⟨⟨⟩, -⟩ | ⟨⟨⟩, -⟩ := hop
              | backupFailed item' m start write hkind =>
                  exact hworked.ne_unexpected hkind rfl

/-- A switch stays for the rest of a run. -/
theorem Plane.Reachable.switch_stays {s₀ s : Plane} (h₀ : Plane.Reachable P s₀)
    (hrun : Plane.Steps P s₀ s) {id : Id} (hsw : ∃ sw, s₀.db.switches.get? id = some sw) :
    ∃ sw, s.db.switches.get? id = some sw :=
  h₀.induct_from (N := ∅) (I := fun d => ∃ sw, d.switches.get? id = some sw) hrun nofun hsw
    fun _ _ hc ⟨_, hsw⟩ => hc.switch hsw

/-- The switch is disabled. -/
def Db.Disabled (d : Db) (s : Id) : Prop :=
  ∀ sw, d.switches.get? s = some sw → sw.isEnabled = false

/-- **A backup ends as it is meant to**, whatever the others do meanwhile, exactly if nothing is
raised behind the handler of `back_up`: the switch was loaded in `s₀`, and the transaction that
the executor has come to stands before its commit.

The condition is about what the executor finds and not about what it does: the rules of the profile,
the output of the device and the key.  An executor ends its item in one of four ways (`Asked`), and
each of them is one transaction that is followed to its commit.  Only the last one is reached with
an exception behind `back_up`, and what it writes is a text that no failure of the handler has, so
that the switch keeps no trace of it. -/
theorem Plane.Worked.backup_told {s₀ s : Plane} (h₀ : Plane.Worked P (Sys.init Db.empty 0) s₀)
    (hrun : Plane.Worked P s₀ s) {out : Surroundings} {item : ClaimedItem} {dep : Dependencies}
    {t : ℕ} {op : Op} {w : Db → Db} {r : Reply} (hkind : item.kind = .configBackup)
    (hop : op = processDeviceItem out item (s₀.db.loadDevice dep item.switchId))
    (hend : s.txns t = .active op () w (.pure r)) (hkeeps : op.Keeps r) :
    (w s.db).BackupTold item (s₀.db.Disabled item.switchId) ↔
      ¬Unguarded out (s₀.db.loadDevice dep item.switchId) := by
  have hs₀ : Plane.Reachable P s₀ := h₀.steps
  have hworked : Plane.Worked P (Sys.init Db.empty 0) s := h₀.trans hrun
  have hs : Plane.Reachable P s := hworked.steps
  have hc := (hs.commit hend).2
  have hmatch : s.db.AlertsMatch := hs.induct .empty fun _ _ hc hd => hc.alertsMatch hd
  -- a row that was loaded is one of the switches still
  have hloaded : ∀ row, s₀.db.loadDevice dep item.switchId = some row →
      ∃ sw, s.db.switches.get? item.switchId = some sw := by
    intro row hrow
    obtain ⟨sw, hsw, -⟩ := Option.map_eq_some_iff.mp hrow
    exact hs₀.switch_stays hrun.steps ⟨sw, hsw⟩
  have hasked : Asked out item (s₀.db.loadDevice dep item.switchId) op :=
    hop ▸ processDeviceItem_asked hkind _
  generalize hload : s₀.db.loadDevice dep item.switchId = loaded at hasked hloaded ⊢
  cases hasked with
  | skipped hdisabled =>
      obtain rfl : r = .won true := hkeeps
      refine iff_of_true (hc.skip_told fun sw hsw => ?_) ?_
      · exact hdisabled _ (by rw [← hload, Db.loadDevice, hsw]; rfl)
      · cases loaded with
        | none => exact not_false
        | some row =>
            rintro ⟨henabled, -⟩
            rw [hdisabled row rfl] at henabled
            cases henabled
  | recorded c hguarded => exact iff_of_true (hc.record_told hmatch (hloaded _ rfl)) hguarded
  | told e he hguarded =>
      obtain rfl : r = .won true := hkeeps
      exact iff_of_true (hc.failure_told (hloaded _ rfl)) hguarded
  | unguarded h =>
      obtain rfl : r = .won true := hkeeps
      refine iff_of_false (fun htold => ?_) (not_not.mpr h)
      obtain ⟨start, hleft⟩ := hs.failItem_leaves hend
      obtain ⟨i₀, hi₀, hfailed, hmessage₀⟩ :=
        hc.failItem_runs.finished (f := ⟨.failed, some unexpected, none, none⟩)
      rw [hleft] at htold
      cases htold with
      | skipped i hi hstatus =>
          obtain rfl := Option.some.inj (hi₀.symm.trans hi)
          exact nomatch hfailed.symm.trans hstatus
      | succeeded i sw hi hstatus =>
          obtain rfl := Option.some.inj (hi₀.symm.trans hi)
          exact nomatch hfailed.symm.trans hstatus
      | failed i sw id a message hi hstatus hmessage hsw herror =>
          obtain rfl := Option.some.inj (hi₀.symm.trans hi)
          obtain rfl := Option.some.inj (hmessage₀.symm.trans hmessage)
          exact hworked.noneUnexpected.2 _ sw hsw herror

/-- An executor asks for what it has come to. -/
theorem processDeviceItem_worked {out : Surroundings} {item : ClaimedItem}
    (hkind : item.kind = .configBackup) (dep : Option Dependencies) :
    (processDeviceItem out item dep).Worked := by
  have hasked := @processDeviceItem_asked out item hkind dep
  generalize hop : processDeviceItem out item dep = op at hasked ⊢
  cases hasked with
  | skipped _ => exact trivial
  | recorded _ _ => exact trivial
  | @told row e _ _ => exact ⟨out, row, hop⟩
  | unguarded _ => exact trivial

theorem Plane.Worked.run {as : List (Action ℕ Op Unit)} {s s' : Plane}
    (hworked : ∀ t op, .request t op ∈ as → op.Worked) (h : s.run (body P) as = some s') :
    Plane.Worked P s s' := by
  induction as generalizing s with
  | nil =>
      cases h
      exact .refl
  | cons a as ih =>
      rw [Sys.run, Option.bind_eq_some_iff] at h
      obtain ⟨s₁, h₁, h⟩ := h
      refine .head ⟨a, h₁, fun t op ha => hworked t op (ha ▸ List.mem_cons_self)⟩ ?_
      exact ih (fun t op hmem => hworked t op (List.mem_cons_of_mem a hmem)) h

end Runs

/-! ## A pattern that does not compile -/

namespace Demo

/-- The library, as far as the runs below use it: `[` does not compile. -/
def python : DevicePython where
  loads text :=
    if text = "\x7b\"config_backup\": \"show run\"\x7d" then
      .ok (.obj [("config_backup", .str "show run")])
    else if text = "\x7b\"config_ignore_patterns\": [\"[\"]\x7d" then
      .ok (.obj [("config_ignore_patterns", .arr [.str "["])])
    else if text = "\x7b\x7d" then .ok (.obj [])
    else if text = "[]" then .ok (.arr [])
    else .error { name := "JSONDecodeError" }
  search _ _ := some false
  finditer _ _ := some []
  lower := id
  strip := id
  int value := match value with
    | .int n => .ok n
    | _ => .error { name := "TypeError" }
  float _ := .ok "1.0"
  str _ := ""
  nonzero _ := true
  decrypt _ := .ok "secret"
  compile pattern := if pattern = "[" then .error { name := "error" } else .ok fun _ => false
  sha256 := String.ofList
  sealConfig text := .ok ("v1:" ++ String.ofList text)

/-- A switch that is reached by SSH, with one ignore pattern. -/
def device : Dependencies where
  managementIp := .text "10.0.0.1"
  isEnabled := true
  switchVersion := 1
  profileVersion := 1
  vendor := .text "cisco"
  protocol := .text "ssh"
  port := .null
  username := .text "backup"
  encryptedPassword := .text "v1:password"
  encryptedSecret := .null
  credentialActive := true
  profileActive := true
  loginPromptPatterns := .json "\x7b\x7d"
  commandTemplates := .json "\x7b\"config_backup\": \"show run\"\x7d"
  promptPatterns := .json "\x7b\x7d"
  paginationRules := .json "\x7b\x7d"
  successPatterns := .json "[]"
  errorPatterns := .json "[]"
  parserRules := .json "\x7b\"config_ignore_patterns\": [\"[\"]\x7d"

/-- A device that answers with three lines. -/
def answering : Surroundings where
  py := python
  net :=
    { connectHandler := fun _ => .ok ()
      disablePaging := fun _ => .ok ()
      sendCommand := fun _ => .ok "interface 1\ninterface 2\ninterface 3".toList }
  dial _ _ := .ok 1

/-- A device that refuses the connection. -/
def refusing : Surroundings :=
  { answering with
    net := { answering.net with connectHandler := fun _ => .error .connectionRefused } }

/-- The backup of the switch `0`. -/
def backup : ClaimedItem := ⟨2, 3, .configBackup, 0⟩

/-- One transaction, in `n` steps. -/
def actions (t : ℕ) (op : Op) (n : ℕ) : List (Action ℕ Op Unit) :=
  .request t op :: .begin t () :: List.replicate n (.advance t)

/-- Up to the claim of the item. -/
def claiming : Option Plane :=
  Sys.run (body platform) (Sys.init Db.empty 0)
    (actions 0 (.createSwitch admin ⟨"test", true, none⟩) 4 ++
      (actions 1 (.runTask admin ⟨"config_backup", "all", .empty, []⟩) 10 ++
        actions 2 (.claimDeviceItems 1) 8))

theorem claiming_worked {s : Plane} (h : claiming = some s) :
    Plane.Worked platform (Sys.init Db.empty 0) s := by
  refine .run (fun t op hmem => ?_) h
  simp only [actions, List.mem_append, List.mem_cons, List.mem_replicate, reduceCtorEq, and_false,
    or_false, Action.request.injEq] at hmem
  obtain ⟨-, rfl⟩ | ⟨-, rfl⟩ | ⟨-, rfl⟩ := hmem <;> exact trivial

/-- The executor in its surroundings, up to the commit of its transaction, in `n` steps. -/
def ending (out : Surroundings) (n : ℕ) : Option (Plane × Plane) :=
  claiming.bind fun s₀ =>
    (s₀.run (body platform)
      (actions 3 (processDeviceItem out backup (s₀.db.loadDevice device 0)) n)).map fun s => (s₀, s)

theorem ending_stands {out : Surroundings} {n : ℕ} {s₀ s : Plane} {r : Reply}
    (h : ending out n = some (s₀, s)) (hanswer : s.answer 3 = some r) :
    Plane.Worked platform (Sys.init Db.empty 0) s₀ ∧ Plane.Worked platform s₀ s ∧
      ∃ w, s.txns 3 = .active (processDeviceItem out backup (s₀.db.loadDevice device 0)) () w
        (.pure r) ∧ s.left 3 = some (w s.db) := by
  obtain ⟨s₁, hclaiming, h⟩ := Option.bind_eq_some_iff.mp h
  obtain ⟨s₂, hrun, heq⟩ := Option.map_eq_some_iff.mp h
  obtain ⟨rfl, rfl⟩ := Prod.mk.inj heq
  have hrequest : ∀ t op, .request t op ∈ actions 3
      (processDeviceItem out backup (s₁.db.loadDevice device 0)) n →
        t = 3 ∧ op = processDeviceItem out backup (s₁.db.loadDevice device 0) := by
    intro t op hmem
    simpa [actions] using hmem
  refine ⟨claiming_worked hclaiming, .run (fun t op hmem => ?_) hrun, ?_⟩
  · rw [(hrequest t op hmem).2]
    exact processDeviceItem_worked rfl _
  · have hfree : (claiming.any fun s => (s.txns 3).op?.isNone) = true := by decide +kernel
    rw [hclaiming, Option.any_some, Option.isNone_iff_eq_none] at hfree
    obtain ⟨op, u, w, ht, hleft⟩ := Sys.answer_eq_some hanswer
    have hask : (s₂.txns 3).op? = some op := by
      rw [ht]
      rfl
    obtain hop | hmem := Sys.run_op_back hrun hask
    · rw [hfree] at hop
      cases hop
    · obtain ⟨-, rfl⟩ := hrequest 3 op hmem
      exact ⟨w, ht, hleft⟩

end Demo

/-- A refused connection is told: the run of the theorem with a device that does not answer. -/
theorem backup_told_refused : ∃ (s₀ s : Plane) (w : Db → Db),
    Demo.ending Demo.refusing 10 = some (s₀, s) ∧ s.left 3 = some (w s.db) ∧
      (w s.db).BackupTold Demo.backup (s₀.db.Disabled Demo.backup.switchId) := by
  have hanswer : ((Demo.ending Demo.refusing 10).bind fun s => s.2.answer 3) =
      some (.won true) := by decide +kernel
  have hloaded : (Demo.ending Demo.refusing 10).any (fun s =>
      s.1.db.loadDevice Demo.device 0 = some Demo.device) = true := by decide +kernel
  have hread : backupText Demo.refusing.py Demo.refusing.net Demo.device =
      .error (.session "Switch connection failed") := by decide +kernel
  obtain ⟨⟨s₀, s⟩, hending, hanswer⟩ := Option.bind_eq_some_iff.mp hanswer
  obtain ⟨h₀, hrun, w, ht, hleft⟩ := Demo.ending_stands hending hanswer
  refine ⟨s₀, s, w, hending, hleft, ?_⟩
  refine (h₀.backup_told hrun rfl rfl ht (Op.keeps_won _)).mpr ?_
  rw [hending, Option.any_some] at hloaded
  rw [show s₀.db.loadDevice Demo.device Demo.backup.switchId = _ from of_decide_eq_true hloaded]
  rintro ⟨-, text, htext, -⟩
  rw [hread] at htext
  cases htext

/-- With a pattern that does not compile, a backup fails without an error of the switch and
without an alert. -/
theorem backup_untold : ¬∀ (P : Platform) (s₀ s : Plane),
    Plane.Worked P (Sys.init Db.empty 0) s₀ → Plane.Worked P s₀ s →
    ∀ (out : Surroundings) (item : ClaimedItem) (dep : Dependencies) (t : ℕ) (op : Op)
      (w : Db → Db) (r : Reply), item.kind = .configBackup →
      op = processDeviceItem out item (s₀.db.loadDevice dep item.switchId) →
      s.txns t = .active op () w (.pure r) → op.Keeps r →
      (w s.db).BackupTold item (s₀.db.Disabled item.switchId) := by
  intro hall
  have hanswer : ((Demo.ending Demo.answering 4).bind fun s => s.2.answer 3) =
      some (.won true) := by decide +kernel
  have hleft : ((Demo.ending Demo.answering 4).bind fun s => s.2.left 3).any (fun d =>
      (d.items.get? 2).any (·.status = .failed) &&
        (d.switches.get? 0).any (·.configError = none)) = true := by decide +kernel
  obtain ⟨⟨s₀, s⟩, hending, hanswer⟩ := Option.bind_eq_some_iff.mp hanswer
  obtain ⟨h₀, hrun, w, ht, hstore⟩ := Demo.ending_stands hending hanswer
  rw [hending, Option.bind_some, hstore, Option.any_some, Bool.and_eq_true] at hleft
  obtain ⟨i₀, hi₀, hfailed⟩ := (Option.any_eq_true _ _).mp hleft.1
  obtain ⟨sw₀, hsw₀, hnone⟩ := (Option.any_eq_true _ _).mp hleft.2
  have hfailed : i₀.status = .failed := of_decide_eq_true hfailed
  have hnone : sw₀.configError = none := of_decide_eq_true hnone
  cases hall _ s₀ s h₀ hrun Demo.answering Demo.backup Demo.device 3 _ w _ rfl rfl ht
      (Op.keeps_won _) with
  | skipped i hi hstatus =>
      obtain rfl := Option.some.inj (hi₀.symm.trans hi)
      exact nomatch hfailed.symm.trans hstatus
  | succeeded i sw hi hstatus =>
      obtain rfl := Option.some.inj (hi₀.symm.trans hi)
      exact nomatch hfailed.symm.trans hstatus
  | failed i sw id a message hi hstatus hmessage hsw herror =>
      obtain rfl := Option.some.inj (hsw₀.symm.trans hsw)
      exact nomatch hnone.symm.trans herror

end BindPlane.Devices
