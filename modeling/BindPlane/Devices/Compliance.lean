import BindPlane.Codec.Trim
import BindPlane.Devices.Executor

/-!
# Compliance

`evaluateCompliance` compares the latest configuration of every switch with the rules in whose
scope it is (`internal/release/ops_compliance.go`).  It is a sequence of statements, each of which
commits by itself, and between any two of them others write what they like, and the process may die.

* `Store` has the tables, with one function for each statement.
* `Stage` is where an evaluation is, and `World` is a store with any number of evaluations.
* A statement succeeds, or fails with or without its effect.

**Texts.**  A configuration is the list of its runes.  What opens a sealed one and what finds a
pattern in one are parameters (`Platform`).

**No transaction.**  An evaluation is not one transaction but a loop of statements, each of which
commits by itself.  It may be stopped between any two of them, two evaluations may run at once, and
users edit rules while one runs.  So what an evaluation knows when it writes a result is what it has
read some statements before, and the result says so by the version of the rule.
-/

namespace BindPlane.Compliance

open ReadCommitted Devices

/-! ## Rules -/

inductive Mode
  | mustContain
  | mustNotContain
  deriving DecidableEq, Repr

/-- `FindStringIndex`: where the first match begins and ends. -/
abbrev Regexp := List Char → Option (ℕ × ℕ)

structure Platform where
  /-- `openConfig`, with the key of the process. -/
  openConfig : String → Option (List Char)
  /-- `regexp.Compile`. -/
  compile : String → Except String Regexp
  /-- `%q`. -/
  quote : String → String

def compileRule (P : Platform) (pattern : String) : Except String Regexp :=
  if Trim.trim isGoSpace pattern.toList = [] ∨ 2000 < pattern.utf8ByteSize then
    .error "pattern must be 1-2000 characters"
  else
    match P.compile ("(?m)" ++ pattern) with
    | .error e => .error ("invalid pattern: " ++ e)
    | .ok re => .ok re

/-- The line that a match begins in, up to the end of the one it begins in. -/
def excerpt (content : List Char) (start : ℕ) : List Char :=
  let before := (content.take start).reverse.takeWhile (· ≠ '\n')
  let behind := (content.drop start).takeWhile (· ≠ '\n')
  let line := Trim.trim isGoSpace (before.reverse ++ behind)
  if 160 < line.length then line.take 160 ++ ['…'] else line

def evaluateRule (re : Regexp) (mode : Mode) (content : List Char) : Bool × String :=
  match re content with
  | none =>
      match mode with
      | .mustContain => (false, "Pattern not found")
      | .mustNotContain => (true, "")
  | some (start, _) =>
      (mode = .mustContain, "Line " ++ toString ((content.take start).count '\n' + 1) ++ ": " ++
        String.ofList (excerpt content start))

/-- What the loop of `evaluateCompliance` makes of a configuration, opened or not. -/
def judge (P : Platform) (pattern : String) (mode : Mode) (opened : Option (List Char)) :
    Bool × String :=
  match opened with
  | none => (false, "Configuration could not be decrypted")
  | some content =>
      match compileRule P pattern with
      | .error e => (false, e)
      | .ok re => evaluateRule re mode content

/-! ## The store -/

/-- What the rules read of a row of `bp_switches`. -/
structure Switch where
  vendor : String
  groupId : Option Id
  isEnabled : Bool
  deriving DecidableEq, Repr

/-- A row of `bp_compliance_rules` but for its version. -/
structure Rule where
  name : String
  description : Option String
  pattern : String
  mode : Mode
  severity : Severity
  vendor : Option String
  groupId : Option Id
  isEnabled : Bool
  deriving DecidableEq, Repr

/-- A row of `bp_compliance_rules`. -/
structure RuleRow extends Rule where
  version : ℕ
  deriving DecidableEq, Repr

/-- A row of `bp_compliance_results`. -/
structure Result where
  backupId : Id
  ruleVersion : ℕ
  passed : Bool
  detail : Option String
  deriving DecidableEq, Repr

structure Store where
  clock : Instant
  switches : Table Switch
  rules : Table RuleRow
  backups : Table Backup
  /-- The primary key is the pair. -/
  results : Id → Id → Option Result
  alerts : Table Alert
  /-- The sequence of the alerts' keys. -/
  nextAlert : Id

/-- The rule is enabled, and so is the switch, which is in its scope. -/
def applies (rule : Rule) (sw : Switch) : Bool :=
  rule.isEnabled && sw.isEnabled && (rule.vendor.isNone || rule.vendor = some sw.vendor) &&
    (rule.groupId.isNone || rule.groupId = sw.groupId)

/-- An item of the work. -/
structure Work where
  backupId : Id
  switchId : Id
  ruleId : Id
  ruleVersion : ℕ
  pattern : String
  mode : Mode
  severity : Severity
  ruleName : String
  deriving DecidableEq, Repr

/-- The row of the work for a backup, a switch and a rule. -/
def RuleRow.work (rule : RuleRow) (backupId switchId ruleId : Id) : Work :=
  ⟨backupId, switchId, ruleId, rule.version, rule.pattern, rule.mode, rule.severity, rule.name⟩

/-- `ORDER BY captured_at DESC,id DESC`: whether the second row comes first. -/
def later (a b : ℕ × Backup) : Bool :=
  a.2.capturedAt < b.2.capturedAt || (a.2.capturedAt = b.2.capturedAt && a.1 < b.1)

def latestOf : List (ℕ × Backup) → Option (ℕ × Backup)
  | [] => none
  | b :: rest =>
      match latestOf rest with
      | none => some b
      | some a => if later b a then some a else some b

namespace Store

variable (d : Store)

/-- The row of `latest` for a switch. -/
def latest (s : Id) : Option (ℕ × Backup) :=
  latestOf (d.backups.rows.filter fun b => b.2.switchId = s)

/-- `WHERE r.switch_id IS NULL OR r.backup_id<>l.id OR r.rule_version<>ru.version`. -/
def stale (w : Work) : Bool :=
  match d.results w.switchId w.ruleId with
  | none => true
  | some r => r.backupId ≠ w.backupId || r.ruleVersion ≠ w.ruleVersion

/-- The joins of the work, without that with the results. -/
def duties : List Work :=
  d.switches.rows.flatMap fun sw =>
    match d.latest sw.1 with
    | none => []
    | some b =>
        (d.rules.rows.filter fun rule => applies rule.2.toRule sw.2).map fun rule =>
          rule.2.work b.1 sw.1 rule.1

/-- `ORDER BY l.id LIMIT 5000`, in any order of the rows of one backup.

The order among the rules of one backup is left open by the query, and with more than five thousand
rows it decides which of them are evaluated this time.  So the work is any list that the query may
return. -/
def IsWork (work : List Work) : Prop :=
  ∃ rows : List Work, rows.Perm (d.duties.filter d.stale) ∧
    rows.Pairwise (fun a b => a.backupId ≤ b.backupId) ∧ work = rows.take 5000

/-- `DELETE FROM bp_compliance_results`, out of scope. -/
def deleteResults : Store :=
  { d with results := fun s r =>
      match d.switches.get? s, d.rules.get? r with
      | some sw, some rule => if applies rule.toRule sw then d.results s r else none
      | _, _ => d.results s r }

/-- There is a result that has not passed, of a critical rule. -/
def violated (s r : Id) : Bool :=
  match d.results s r, d.rules.get? r with
  | some result, some rule => !result.passed && rule.severity = .critical
  | _, _ => false

/-- `UPDATE bp_alerts` of the violations that are none. -/
def resolveStale : Store :=
  { d with
    alerts := d.alerts.updateWhere
      (fun _ a => a.kind = .complianceViolation && a.active &&
        !(a.ruleId.any fun r => d.violated a.switchId r))
      (Alert.resolve d.clock) }

/-- `INSERT INTO bp_compliance_results … ON CONFLICT (switch_id,rule_id) DO UPDATE`. -/
def saveResult (w : Work) (passed : Bool) (detail : String) : Store :=
  { d with
    results := Function.update d.results w.switchId
      (Function.update (d.results w.switchId) w.ruleId
        (some ⟨w.backupId, w.ruleVersion, passed, if detail = "" then none else some detail⟩)) }

/-- The entry of `bp_alerts_active_key`. -/
def activeAlert (key : DedupeKey) : Option (Id × Alert) :=
  d.alerts.find? fun _ a => a.dedupeKey = key && a.active

/-- `INSERT … ON CONFLICT (dedupe_key) WHERE status<>'resolved' DO UPDATE SET touch`. -/
def upsertAlert (new : NewAlert) (touch : Alert → Alert) : Store :=
  match d.activeAlert new.key with
  | some (id, _) => { d with alerts := d.alerts.modify id touch }
  | none =>
      { d with
        alerts := d.alerts.insert d.nextAlert (new.row d.clock), nextAlert := d.nextAlert + 1 }

/-- `UPDATE bp_alerts … WHERE dedupe_key=$1 AND status<>'resolved'`. -/
def resolveAlert (key : DedupeKey) : Store :=
  { d with
    alerts := d.alerts.updateWhere (fun _ a => a.dedupeKey = key && a.active)
      (Alert.resolve d.clock) }

end Store

/-! ## The other writers -/

/-- What an admin, a worker or the clock writes. -/
inductive Write
  | tick (now : Instant)
  | createSwitch (id : Id) (sw : Switch)
  | editSwitch (id : Id) (sw : Switch)
  | createRule (id : Id) (rule : Rule)
  /-- An edit that changes something. -/
  | editRule (id : Id) (rule : Rule)
  | captureBackup (id : Id) (backup : Backup)
  | acknowledge (id : Id) (email : String)
  /-- `upsert_alert` of the worker. -/
  | workerAlert (new : NewAlert)
  | workerResolves (key : DedupeKey)
  /-- The alerts that have been resolved before some time are deleted. -/
  | prune (before : Instant)

/-- A key of an alert of the worker. -/
def DedupeKey.ofWorker : DedupeKey → Bool
  | .compliance .. => false
  | _ => true

/-- Whether the constraints of the tables, and who writes, let a write be. -/
def Store.permits (d : Store) : Write → Bool
  | .createSwitch id _ => (d.switches.get? id).isNone
  | .createRule id _ => (d.rules.get? id).isNone
  | .captureBackup id backup =>
      -- identity columns count from 1
      0 < id && (d.backups.get? id).isNone && (d.switches.get? backup.switchId).isSome
  | .workerAlert new => DedupeKey.ofWorker new.key && new.kind ≠ .complianceViolation
  | .workerResolves key => DedupeKey.ofWorker key
  | _ => true

/-- What a write does. -/
def Store.written (d : Store) : Write → Store
  | .tick now => { d with clock := now }
  | .createSwitch id sw => { d with switches := d.switches.insert id sw }
  | .editSwitch id sw => { d with switches := d.switches.modify id fun _ => sw }
  | .createRule id rule => { d with rules := d.rules.insert id ⟨rule, 1⟩ }
  | .editRule id rule => { d with rules := d.rules.modify id fun old => ⟨rule, old.version + 1⟩ }
  | .captureBackup id backup => { d with backups := d.backups.insert id backup }
  | .acknowledge id email =>
      { d with
        alerts := d.alerts.updateWhere (fun i a => i = id && a.status = .opened)
          (Alert.acknowledge d.clock email) }
  | .workerAlert new => d.upsertAlert new (Alert.seen d.clock new)
  | .workerResolves key => d.resolveAlert key
  | .prune before =>
      { d with
        alerts := d.alerts.deleteWhere fun _ a =>
          a.status = .resolved && a.resolvedAt.any (· < before) }

/-! ## Evaluations -/

/-- `cachedID`, `content` and `openErr`. -/
structure Cache where
  backupId : Id := 0
  opened : Option (List Char) := some []
  deriving DecidableEq, Repr

/-- Where an evaluation is, before its next statement; `count` is the index of the loop.

A stage is the program counter together with the variables of the function.  A statement that fails
ends the evaluation, as in the source, and what it had written before stays. -/
inductive Stage
  | idle
  | deleting
  | resolving
  | reading
  | opening (count : ℕ) (item : Work) (rest : List Work)
  | saving (count : ℕ) (cache : Cache) (item : Work) (rest : List Work)
  /-- Before `upsertAlert` or `resolveAlert`. -/
  | alerting (count : ℕ) (cache : Cache) (item : Work) (passed : Bool) (detail : String)
      (rest : List Work)
  | returned (count : ℕ) (failed : Bool)
  deriving DecidableEq, Repr

/-- The head of the loop. -/
def Stage.next (count : ℕ) (cache : Cache) : List Work → Stage
  | [] => .returned count false
  | item :: rest =>
      if item.backupId ≠ cache.backupId then .opening count item rest
      else .saving count cache item rest

/-- No evaluation is running. -/
def Stage.rests : Stage → Bool
  | .idle | .returned .. => true
  | _ => false

/-- The index of the loop that an evaluation returns with an error. -/
def Stage.count : Stage → ℕ
  | .opening count .. | .saving count .. | .alerting count .. | .returned count _ => count
  | _ => 0

structure World where
  store : Store
  stages : ℕ → Stage

inductive Event
  | write (w : Write)
  | start (e : ℕ)
  /-- The statement of an evaluation succeeds. -/
  | go (e : ℕ)
  /-- The work is read. -/
  | reads (e : ℕ) (work : List Work)
  /-- The statement fails, and its effect is there or not. -/
  | fails (e : ℕ) (committed : Bool)
  /-- The process dies. -/
  | crash (e : ℕ)

/-- The violation of a rule. -/
def violation (P : Platform) (item : Work) (detail : String) : NewAlert :=
  complianceAlert item.switchId item.ruleId
    ("Rule " ++ P.quote item.ruleName ++ " failed: " ++ detail)

namespace World

variable (P : Platform) (w : World)

def goTo (e : ℕ) (store : Store) (stage : Stage) : World :=
  ⟨store, Function.update w.stages e stage⟩

/-- What the statement of an evaluation does, and where it goes on.

An evaluation has no transaction around it: each of these statements commits alone, and others run
between any two.  The result of a pair is saved before its alert is raised or resolved, so there is
a moment at which they disagree. -/
def statement (d : Store) : Stage → Option (Store × Stage)
  | .deleting => some (d.deleteResults, .resolving)
  | .resolving => some (d.resolveStale, .reading)
  | .opening count item rest =>
      match d.backups.get? item.backupId with
      | none => some (d, .returned count true)
      | some b => some (d, .saving count ⟨item.backupId, P.openConfig b.encryptedContent⟩ item rest)
  | .saving count cache item rest =>
      let verdict := judge P item.pattern item.mode cache.opened
      some (d.saveResult item verdict.1 verdict.2,
        if item.severity = .critical then .alerting count cache item verdict.1 verdict.2 rest
        else .next (count + 1) cache rest)
  | .alerting count cache item passed detail rest =>
      let new := violation P item detail
      some (if passed then d.resolveAlert new.key else d.upsertAlert new (Alert.seenAs d.clock new),
        .next (count + 1) cache rest)
  | _ => none

/-- One step of anybody.

A statement that fails may have been committed, and its error may be that of the connection; `fails`
has both cases.  A crash leaves the store as it is. -/
def step : Event → Option World
  | .write write =>
      if w.store.permits write then some { w with store := w.store.written write } else none
  | .start e => if (w.stages e).rests then some (w.goTo e w.store .deleting) else none
  | .go e => (statement P w.store (w.stages e)).map fun (store, stage) => w.goTo e store stage
  | .reads e work =>
      match w.stages e with
      | .reading => some (w.goTo e w.store (.next 0 {} work))
      | _ => none
  | .fails e committed =>
      if (w.stages e).rests then none
      else
        let stopped := Stage.returned (w.stages e).count true
        match statement P w.store (w.stages e) with
        | none => some (w.goTo e w.store stopped)
        | some (store, _) => some (w.goTo e (if committed then store else w.store) stopped)
  | .crash e => some (w.goTo e w.store .idle)

/-- The work that is read is what the statement returns. -/
def Faithful : Event → Prop
  | .reads _ work => w.store.IsWork work
  | _ => True

/-- The steps of a list, one after the other. -/
inductive Run : World → List Event → World → Prop
  | nil (w : World) : Run w [] w
  | cons {w w' w'' : World} {event : Event} {events : List Event} (hfaithful : w.Faithful event)
      (hstep : w.step P event = some w') (hrun : Run w' events w'') : Run w (event :: events) w''

end World

end BindPlane.Compliance
