import BindPlane.Auth.OperationLog
import BindPlane.Codec.Base64
import BindPlane.Codec.Trim
import BindPlane.Mail.Outbox

/-!
# The list of mail tasks

`ListMailTasks` and its cursor, with tasks that are added, delivered, retried and deleted while they
are listed.

**The cursor is a position.**  It carries the time of creation and the id of the last row, and the
filter.  A time of PostgreSQL has no more digits than the cursor writes.  Nothing that happens to a
task moves it in the list or changes whether a filter that does not mention the status selects it.

**What moves.**  A task is updated all the time, by claims, retries and results, and some of its
columns are shown.  The list is ordered by columns that never change, and that is why a cursor which
holds a position stays good, even when the row that it was taken from has been deleted.

**Source.**  What is modelled here is in `internal/auth/adapter/postgres/mail_tasks.go` and
`internal/auth/application/mail_tasks.go`.
-/

namespace BindPlane.Mail.Listing

open Moving
open UserList (Uuid)
open Assets (isCanonicalUUID)

/-! ## The table -/

/-- The year 10000, in microseconds: what no JSON text of a time reaches. -/
def endOfYears : Instant := 253402300800000000

/-- The store. -/
structure Store where
  clock : Instant
  tasks : List (Uuid × MailTask)
  ids : (tasks.map Prod.fst).Nodup
  years : ∀ r ∈ tasks, r.2.createdAt < endOfYears

/-! ## Cursors -/

/-- `mailTaskCursor`; the zero time is `none`. -/
structure MailTaskCursor where
  version : ℤ
  createdAt : Option Instant
  id : String
  recipient : String
  kind : String
  status : String
  fromTime : String
  toTime : String
  failedOnly : Bool
  deriving DecidableEq

/-- `MailTaskListOptions`. -/
structure MailTaskListOptions where
  cursor : String
  recipient : String
  kind : Option MailKind
  status : String
  fromTime : Option Instant
  toTime : Option Instant
  failedOnly : Bool
  limit : ℤ
  deriving DecidableEq

/-- What is used of Go's packages and of PostgreSQL. -/
structure Platform where
  /-- `strings.ToLower`. -/
  toLower : String → String
  /-- `lower`. -/
  lower : String → String
  /-- `Format(time.RFC3339Nano)`. -/
  formatTime : Instant → String
  /-- A parameter of type `uuid`. -/
  readUuid : String → Option Uuid
  /-- `json.Marshal`; of a year that has more than four digits, nothing. -/
  marshal : MailTaskCursor → List UInt8
  /-- `json.Unmarshal`. -/
  unmarshal : List UInt8 → Option MailTaskCursor
  readUuid_text : ∀ id : Uuid, readUuid id.1 = some id
  unmarshal_marshal : ∀ cursor, (∀ t ∈ cursor.createdAt, t < endOfYears) →
    unmarshal (marshal cursor) = some cursor
  marshal_ne_nil : ∀ cursor, (∀ t ∈ cursor.createdAt, t < endOfYears) → marshal cursor ≠ []

variable (P : Platform)

def MailKind.text : MailKind → String
  | .passwordReset => "password_reset"
  | .passwordChanged => "password_changed"
  | .userInvitation => "user_invitation"
  | .emailChangeCode => "email_change_code"
  | .emailChanged => "email_changed"
  | .testEmail => "test_email"

/-- The text of a kind, or none. -/
def kindText (kind : Option MailKind) : String := (kind.map MailKind.text).getD ""

/-- The text of a time, or of none. -/
def timeText (time : Option Instant) : String := (time.map P.formatTime).getD ""

def canonicalRecipient (options : MailTaskListOptions) : String :=
  P.toLower (Devices.trimSpace options.recipient)

/-- The cursor that `encodeMailTaskCursor` writes. -/
def taskCursor (createdAt : Instant) (id : Uuid) (options : MailTaskListOptions) :
    MailTaskCursor :=
  ⟨1, some createdAt, id.1, canonicalRecipient P options, kindText options.kind, options.status,
    timeText P options.fromTime, timeText P options.toTime, options.failedOnly⟩

/-- `encodeMailTaskCursor`. -/
def encodeMailTaskCursor (createdAt : Instant) (id : Uuid) (options : MailTaskListOptions) :
    String :=
  String.ofList (Base64.encode Base64.urlAlphabet (P.marshal (taskCursor P createdAt id options)))

/-- `decodeMailTaskCursor`. -/
def decodeMailTaskCursor (value : String) : Option MailTaskCursor :=
  match Base64.decodeRaw Base64.urlAlphabet value.toList with
  | none => none
  | some decoded =>
      if decoded = [] then none
      else
        match P.unmarshal decoded with
        | none => none
        | some cursor =>
            if cursor.version ≠ 1 ∨ cursor.createdAt = none ∨ ¬ isCanonicalUUID cursor.id then none
            else some cursor

/-- `mailTaskCursorMatchesOptions`. -/
def mailTaskCursorMatchesOptions (cursor : MailTaskCursor) (options : MailTaskListOptions) : Bool :=
  if cursor.recipient ≠ canonicalRecipient P options ∨ cursor.kind ≠ kindText options.kind ∨
      cursor.status ≠ options.status ∨ cursor.failedOnly ≠ options.failedOnly then false
  else cursor.fromTime = timeText P options.fromTime && cursor.toTime = timeText P options.toTime

/-! ## ListMailTasks -/

/-- `mailTaskStatusSQL`. -/
def mailTaskStatus (o : MailTask) (clock : Instant) : String :=
  if o.sentAt.isSome then "sent"
  else if o.deadAt.isSome || o.canceledAt.isSome then "failed"
  else if o.leaseToken.isSome && o.leaseExpiresAt.any (clock < ·) then "sending"
  else if clock < o.availableAt then "waiting_retry"
  else "queued"

/-- `mailTaskStatusFilter`. -/
def mailTaskStatusFilter (status : String) (o : MailTask) (clock : Instant) : Bool :=
  match status with
  | "queued" => o.open? && o.unheld clock && o.availableAt ≤ clock
  | "sending" => o.open? && o.leaseToken.isSome && o.leaseExpiresAt.any (clock < ·)
  | "waiting_retry" => o.open? && o.unheld clock && clock < o.availableAt
  | "sent" => o.sentAt.isSome
  | "failed" => o.deadAt.isSome || o.canceledAt.isSome
  | _ => false

/-- An item of a page. -/
structure TaskItem where
  id : Uuid
  kind : MailKind
  recipientEmail : String
  recipientName : String
  locale : String
  status : String
  createdAt : Instant
  availableAt : Instant
  finishedAt : Option Instant
  attemptCount : ℕ
  round : ℕ
  roundAttemptCount : ℕ
  lastErrorCode : String
  deriving DecidableEq

/-- The columns of a row. -/
def taskItem (clock : Instant) (r : Uuid × MailTask) : TaskItem where
  id := r.1
  kind := r.2.kind
  recipientEmail := r.2.recipientEmail.getD ""
  recipientName := r.2.recipientName.getD ""
  locale := r.2.locale
  status := mailTaskStatus r.2 clock
  createdAt := r.2.createdAt
  availableAt := r.2.availableAt
  finishedAt := r.2.finishedAt.or (r.2.sentAt.or (r.2.deadAt.or r.2.canceledAt))
  attemptCount := r.2.attemptCount
  round := r.2.roundNumber
  roundAttemptCount := r.2.roundAttemptCount
  lastErrorCode := r.2.lastErrorCode.getD ""

/-- `(o.created_at, o.id)`. -/
def position (r : Uuid × MailTask) : Instant ×ₗ Uuid := toLex (r.2.createdAt, r.1)

def TaskItem.position (item : TaskItem) : Instant ×ₗ Uuid := toLex (item.createdAt, item.id)

/-- The clauses of the filter that do not mention the status. -/
def selects (options : MailTaskListOptions) (o : MailTask) : Bool :=
  (options.recipient = "" || o.recipientEmail.map P.lower = some (canonicalRecipient P options)) &&
    options.kind.all (o.kind = ·) && options.fromTime.all (· ≤ o.createdAt) &&
    options.toTime.all (o.createdAt < ·)

/-- Those that do. -/
def selectsStatus (options : MailTaskListOptions) (o : MailTask) (clock : Instant) : Bool :=
  (options.status = "" || mailTaskStatusFilter options.status o clock) &&
    (!options.failedOnly || mailTaskStatusFilter "failed" o clock)

inductive ListError
  | invalidLimit
  | invalidCursor
  /-- An error of the database. -/
  | database
  deriving DecidableEq

/-- The rows behind a cursor. -/
def boundary (options : MailTaskListOptions) :
    Except ListError (Uuid × MailTask → Bool) :=
  if options.cursor = "" then .ok fun _ => true
  else
    match decodeMailTaskCursor P options.cursor with
    | none => .error .invalidCursor
    | some cursor =>
        if mailTaskCursorMatchesOptions P cursor options then
          match cursor.createdAt, P.readUuid cursor.id with
          | some createdAt, some id => .ok fun r => position r < toLex (createdAt, id)
          | _, _ => .error .database
        else .error .invalidCursor

def pageSize (limit : ℤ) : ℤ := if limit = 0 then 25 else limit

/-- `ListMailTasks`: the items of a page, and the next cursor.

One row more than a page holds is asked for, and its presence is what makes a next page; the cursor
is that of the last row which is shown. -/
def listMailTasks (options : MailTaskListOptions) (db : Store) :
    Except ListError (List TaskItem × String) :=
  if pageSize options.limit < 1 ∨ 100 < pageSize options.limit then .error .invalidLimit
  else
    match boundary P options with
    | .error e => .error e
    | .ok behind =>
        let found := db.tasks.filter fun r =>
          selects P options r.2 && selectsStatus options r.2 db.clock && behind r
        let items := ((newest position found).take ((pageSize options.limit).toNat + 1)).map
          (taskItem db.clock)
        let page := pageOf (pageSize options.limit).toNat items
        .ok (page.1,
          (page.2.map fun last => encodeMailTaskCursor P last.createdAt last.id options).getD "")

/-- `normalizeMailTaskListOptions`, as far as it looks at what differs from page to page: the
size, and the cursor, which is trimmed and has at most 512 bytes.  Its checks on the filter come
out alike for all pages. -/
def normalizeMailTaskListOptions (options : MailTaskListOptions) :
    Except ListError MailTaskListOptions :=
  if pageSize options.limit < 1 ∨ 100 < pageSize options.limit then .error .invalidLimit
  else if 512 < (Devices.trimSpace options.cursor).utf8ByteSize then .error .invalidCursor
  else .ok { options with cursor := Devices.trimSpace options.cursor }

/-- `MailTaskManagement.List`, for an actor who may read the tasks. -/
def managementList (options : MailTaskListOptions) (db : Store) :
    Except ListError (List TaskItem × String) :=
  match normalizeMailTaskListOptions options with
  | .error e => .error e
  | .ok options => listMailTasks P options db

/-! ## What the others do -/

/-- Updates of a row. -/
inductive Update
  /-- `ClaimMail`, whatever the accounts are. -/
  | claimMail (accounts : Authority) (leaseToken : String) (leaseDuration : ℕ)
  | markMailSent (leaseToken : String)
  | retryMail (leaseToken : String) (delay : ℕ) (errorCode : String)
  | deadLetterMail (leaseToken errorCode : String)
  | discardMail (leaseToken errorCode : String)
  /-- `SweepMail`, and the statements that supersede a message. -/
  | cancel (errorCode : String)
  | retryMailTask

/-- `COALESCE(lease_expires_at > clock_timestamp(), false) AND …`. -/
def leaseActive (o : MailTask) (clock : Instant) : Bool :=
  o.leaseExpiresAt.any (clock < ·) && o.open?

/-- The condition of an update. -/
def Update.allowed (clock : Instant) (o : MailTask) : Update → Bool
  | .claimMail accounts _ _ => o.claimable accounts clock
  | .markMailSent leaseToken | .retryMail leaseToken _ _ | .deadLetterMail leaseToken _
  | .discardMail leaseToken _ => o.heldBy leaseToken
  | .cancel _ => o.open?
  | .retryMailTask => !leaseActive o clock && (o.canceledAt.isSome || o.deadAt.isSome)

/-- What it sets. -/
def Update.set (clock : Instant) (o : MailTask) : Update → MailTask
  | .claimMail _ leaseToken leaseDuration => o.claimed leaseToken (clock + leaseDuration)
  | .markMailSent _ => o.markSent clock
  | .retryMail _ delay errorCode => o.retry delay errorCode clock
  | .deadLetterMail _ errorCode => o.deadLetter errorCode clock
  | .discardMail _ errorCode | .cancel errorCode => o.cancel clock errorCode
  | .retryMailTask => o.nextRound clock

/-- The columns that place a task in the list, or a filter reads. -/
structure Same (o o' : MailTask) : Prop where
  createdAt : o'.createdAt = o.createdAt
  kind : o'.kind = o.kind
  recipientEmail : o'.recipientEmail = o.recipientEmail

/-- No update sets them. -/
theorem Update.set_same (u : Update) (clock : Instant) (o : MailTask) : Same o (u.set clock o) := by
  cases u <;> exact ⟨rfl, rfl, rfl⟩

/-- The condition of `CleanupMail`. -/
def doomed (o : MailTask) (days : ℕ) (clock : Instant) : Bool :=
  (o.finishedAt.or (o.sentAt.or (o.canceledAt.or o.deadAt))).any fun t =>
    o.unheld clock && t + days * 86400000000 < clock

/-- Commits. -/
inductive Move
  | elapse (time : ℕ)
  | enqueueMailTask (id : Uuid) (input : MailTaskInput)
  | update (id : Uuid) (u : Update)
  | deleteMailTask (id : Uuid)
  | cleanupMail (days : ℕ) (ids : List Uuid)

namespace Store

variable (db : Store)

/-- `INSERT INTO auth_mail_outbox`. -/
def enqueue (id : Uuid) (input : MailTaskInput) (h : id ∉ db.tasks.map Prod.fst)
    (hyear : input.createdAt < endOfYears) : Store :=
  { db with
    tasks := db.tasks ++ [(id, input.row db.clock)]
    ids := by
      rw [List.map_append, List.map_singleton, List.nodup_append]
      refine ⟨db.ids, List.nodup_singleton _, fun i hi j hj heq => ?_⟩
      rw [List.mem_singleton.mp hj] at heq
      rw [heq] at hi
      exact h hi
    years := fun r hr => by
      rcases List.mem_append.mp hr with hr | hr
      · exact db.years r hr
      · rw [List.mem_singleton.mp hr]
        exact hyear }

/-- `UPDATE auth_mail_outbox SET … WHERE id = $1`. -/
def modify (id : Uuid) (u : Update) : Store :=
  { db with
    tasks := db.tasks.map fun r => if r.1 = id then (r.1, u.set db.clock r.2) else r
    ids := by
      have hsame : (db.tasks.map fun r => if r.1 = id then (r.1, u.set db.clock r.2) else r).map
          Prod.fst = db.tasks.map Prod.fst := by
        rw [List.map_map]
        refine List.map_congr_left fun r _ => ?_
        show (if r.1 = id then (r.1, u.set db.clock r.2) else r).1 = r.1
        split <;> rfl
      rw [hsame]
      exact db.ids
    years := fun r hr => by
      obtain ⟨x, hx, rfl⟩ := List.mem_map.mp hr
      split
      · show (u.set db.clock x.2).createdAt < endOfYears
        rw [(u.set_same db.clock x.2).createdAt]
        exact db.years x hx
      · exact db.years x hx }

/-- `DELETE FROM auth_mail_outbox`. -/
def delete (ids : List Uuid) : Store :=
  { db with
    tasks := db.tasks.filter fun r => r.1 ∉ ids
    ids := db.ids.sublist (List.filter_sublist.map Prod.fst)
    years := fun r hr => db.years r (List.mem_of_mem_filter hr) }

/-- A row. -/
def task? (id : Uuid) : Option MailTask := (db.tasks.find? (·.1 = id)).map Prod.snd

end Store

def move (db : Store) : Move → Option Store
  | .elapse time => some { db with clock := db.clock + time }
  | .enqueueMailTask id input =>
      if h : id ∉ db.tasks.map Prod.fst ∧ input.createdAt < endOfYears then
        some (db.enqueue id input h.1 h.2)
      else none
  | .update id u => if (db.task? id).any (u.allowed db.clock) then some (db.modify id u) else none
  | .deleteMailTask id =>
      if (db.task? id).any fun o => !leaseActive o db.clock then some (db.delete [id]) else none
  | .cleanupMail days ids =>
      if ids.length ≤ batchSize ∧ ids.all fun id => (db.task? id).any (doomed · days db.clock) then
        some (db.delete ids)
      else none

/-- The outbox, as one lists it that follows the cursors. -/
def source (options : MailTaskListOptions) : Source Store Move String TaskItem where
  move o db := move db o
  list cursor db :=
    match listMailTasks P { options with cursor := cursor.getD "" } db with
    | .ok (items, next) => some (items, if next = "" then none else some next)
    | .error _ => none

/-- The outbox, as one lists it through the management. -/
def managed (options : MailTaskListOptions) : Source Store Move String TaskItem where
  move o db := move db o
  list cursor db :=
    match managementList P { options with cursor := cursor.getD "" } db with
    | .ok (items, next) => some (items, if next = "" then none else some next)
    | .error _ => none

/-! ## What a move does -/

variable {P} {options : MailTaskListOptions} {db db' : Store}

/-- **What a move does**: a task that is there was there before, with the same columns, or is
new. -/
theorem move_spec {o : Move} (h : move db o = some db') :
    ∀ r' ∈ db'.tasks, (∃ r ∈ db.tasks, r.1 = r'.1 ∧ Same r.2 r'.2) ∨
      r'.1 ∉ db.tasks.map Prod.fst := by
  have hrefl : ∀ r ∈ db.tasks, (∃ x ∈ db.tasks, x.1 = r.1 ∧ Same x.2 r.2) ∨
      r.1 ∉ db.tasks.map Prod.fst := fun r hr => Or.inl ⟨r, hr, rfl, rfl, rfl, rfl⟩
  have hdelete : ∀ ids, ∀ r ∈ (db.delete ids).tasks,
      (∃ x ∈ db.tasks, x.1 = r.1 ∧ Same x.2 r.2) ∨ r.1 ∉ db.tasks.map Prod.fst :=
    fun ids r hr => hrefl r (List.mem_of_mem_filter hr)
  cases o with
  | elapse time =>
      cases h
      exact hrefl
  | enqueueMailTask id input =>
      simp only [move] at h
      split at h
      · next hnew =>
          cases h
          intro r hr
          rcases List.mem_append.mp hr with hr | hr
          · exact hrefl r hr
          · rw [List.mem_singleton.mp hr]
            exact Or.inr hnew.1
      · cases h
  | update id u =>
      simp only [move] at h
      split at h
      · cases h
        intro r hr
        obtain ⟨x, hx, rfl⟩ := List.mem_map.mp hr
        split
        · exact Or.inl ⟨x, hx, rfl, u.set_same db.clock x.2⟩
        · exact hrefl x hx
      · cases h
  | deleteMailTask id =>
      simp only [move] at h
      split at h
      · cases h
        exact hdelete [id]
      · cases h
  | cleanupMail days ids =>
      simp only [move] at h
      split at h
      · cases h
        exact hdelete ids
      · cases h

theorem Store.task_unique {a b : Uuid × MailTask} (ha : a ∈ db.tasks) (hb : b ∈ db.tasks)
    (h : a.1 = b.1) : a = b := List.inj_on_of_nodup_map db.ids ha hb h

theorem Store.positions (db : Store) : (db.tasks.map position).Nodup := by
  have hids : db.tasks.Pairwise fun a b => a.1 ≠ b.1 := List.pairwise_map.mp db.ids
  refine List.pairwise_map.mpr (hids.imp fun hne heq => hne ?_)
  exact (Prod.mk.inj (toLex.injective heq)).2

/-- What is selected depends on those columns alone. -/
theorem Same.selects {o o' : MailTask} (h : Same o o') :
    selects P options o' = selects P options o := by
  unfold Listing.selects
  rw [h.createdAt, h.kind, h.recipientEmail]

/-! ## What a request does -/

/-- The cursor of a task is not empty, and says what is behind the task. -/
theorem boundary_encode {createdAt : Instant} (hyear : createdAt < endOfYears) (id : Uuid) :
    encodeMailTaskCursor P createdAt id options ≠ "" ∧
      boundary P { options with cursor := encodeMailTaskCursor P createdAt id options } =
        .ok fun r => position r < toLex (createdAt, id) := by
  have hyears : ∀ t ∈ (taskCursor P createdAt id options).createdAt, t < endOfYears := by
    intro t ht
    cases ht
    exact hyear
  have hpayload := P.marshal_ne_nil _ hyears
  -- the text of a payload has a character at least
  have hne : encodeMailTaskCursor P createdAt id options ≠ "" := by
    intro heq
    have hnil := congrArg (fun text : String => text.toList.length) heq
    unfold encodeMailTaskCursor Base64.encode at hnil
    simp only [String.toList_ofList, List.length_map, Base64.length_sextets] at hnil
    replace hnil : ((P.marshal (taskCursor P createdAt id options)).length * 8 + 5) / 6 = 0 := hnil
    have hpos := List.length_pos_of_ne_nil hpayload
    omega
  refine ⟨hne, ?_⟩
  -- it decodes to the cursor, which passes the checks
  have hdecode : decodeMailTaskCursor P (encodeMailTaskCursor P createdAt id options) =
      some (taskCursor P createdAt id options) := by
    unfold decodeMailTaskCursor encodeMailTaskCursor
    rw [String.toList_ofList, Base64.decodeRaw_encode Base64.url]
    dsimp only
    rw [if_neg hpayload, P.unmarshal_marshal _ hyears]
    dsimp only
    rw [if_neg]
    rintro (hversion | hzero | hid)
    · exact hversion rfl
    · cases hzero
    · exact hid id.2
  have hmatches : mailTaskCursorMatchesOptions P (taskCursor P createdAt id options) options =
      true := by
    unfold mailTaskCursorMatchesOptions
    rw [if_neg]
    · rw [Bool.and_eq_true, decide_eq_true_eq, decide_eq_true_eq]
      exact ⟨rfl, rfl⟩
    · rintro (h | h | h | h)
      all_goals exact h rfl
  unfold boundary
  rw [if_neg hne]
  dsimp only
  rw [hdecode]
  dsimp only
  rw [show mailTaskCursorMatchesOptions P (taskCursor P createdAt id options) { options with
    cursor := encodeMailTaskCursor P createdAt id options } = true from hmatches, if_pos rfl]
  show (match some createdAt, P.readUuid id.1 with
    | some createdAt, some id => _
    | _, _ => _) = _
  rw [P.readUuid_text]

/-- The columns of the rows are sorted as the rows are. -/
theorem newest_map (clock : Instant) (rows : List (Uuid × MailTask)) :
    (newest position rows).map (taskItem clock) =
      newest TaskItem.position (rows.map (taskItem clock)) :=
  List.map_insertionSort _ _ _ _ fun _ _ _ _ => Iff.rfl

section Walk

variable {states : List (Store × Reader String TaskItem)} {s t s' : Store × Reader String TaskItem}
  {returned : List TaskItem}

/-- A task that matches, in every state of a run. -/
def Stays (P : Platform) (options : MailTaskListOptions)
    (states : List (Store × Reader String TaskItem)) (r : Uuid × MailTask) : Prop :=
  selects P options r.2 = true ∧ ∀ t ∈ states, ∃ r' ∈ t.1.tasks, r'.1 = r.1 ∧ Same r.2 r'.2

/-- The positions of the tasks that stay. -/
def Kept (P : Platform) (options : MailTaskListOptions)
    (states : List (Store × Reader String TaskItem)) (p : Instant ×ₗ Uuid) : Prop :=
  ∃ r, Stays P options states r ∧ position r = p

/-- What a cursor has to do with the last item that was returned. -/
def Names (P : Platform) (options : MailTaskListOptions) (returned : List TaskItem) :
    Option String → Prop
  | none => returned = []
  | some cursor => ∃ front item, returned = front ++ [item] ∧ item.createdAt < endOfYears ∧
      cursor = encodeMailTaskCursor P item.createdAt item.id options

/-- A task that stays was returned at its position, if at all. -/
def Placed (P : Platform) (options : MailTaskListOptions)
    (states : List (Store × Reader String TaskItem)) (returned : List TaskItem) : Prop :=
  ∀ item ∈ returned, ∀ r, Stays P options states r → r.1 = item.id → item.position = position r

/-- **What every state of a run satisfies.** -/
def Inv (P : Platform) (options : MailTaskListOptions)
    (states : List (Store × Reader String TaskItem)) : Reader String TaskItem → Prop
  | .reading returned cursor =>
      Progress TaskItem.position (Kept P options states) returned ∧
        Placed P options states returned ∧ Names P options returned cursor
  | .finished returned =>
      Progress TaskItem.position (Kept P options states) returned ∧
        Placed P options states returned ∧
          ∀ p, Kept P options states p → p ∈ returned.map TaskItem.position
  | .failed => False

/-- Options whose filter does not mention the status, with a size that pages have. -/
structure Plain (options : MailTaskListOptions) : Prop where
  status : options.status = ""
  failedOnly : options.failedOnly = false
  limit : 0 ≤ options.limit ∧ options.limit ≤ 100

theorem Plain.pageSize (h : Plain options) :
    0 < (pageSize options.limit).toNat ∧ ¬ (pageSize options.limit < 1 ∨
      100 < pageSize options.limit) := by
  obtain ⟨hlow, hhigh⟩ := h.limit
  unfold Listing.pageSize
  split <;> omega

theorem Inv.request {cursor : Option String} {reader : Reader String TaskItem}
    (hplain : Plain options) (h : Inv P options states (.reading returned cursor))
    (ht : (db, .reading returned cursor) ∈ states)
    (hreader : request (source P options) db (.reading returned cursor) = some reader) :
    Inv P options states reader := by
  obtain ⟨hprogress, hplaced, hnames⟩ := h
  obtain ⟨hn, hsize⟩ := hplain.pageSize
  -- what the cursor selects is what is behind the rows returned
  obtain ⟨behind, hboundary, hbehind⟩ : ∃ behind,
      boundary P { options with cursor := cursor.getD "" } = .ok behind ∧
        ∀ r, behind r = true ↔ Behind TaskItem.position returned (position r) := by
    cases cursor with
    | none =>
        rw [show returned = [] from hnames]
        exact ⟨fun _ => true, rfl, fun r => iff_of_true rfl (List.forall_mem_nil _)⟩
    | some cursor =>
        obtain ⟨front, item, rfl, hyear, rfl⟩ := hnames
        refine ⟨_, (boundary_encode hyear item.id).2, fun r => ?_⟩
        rw [behind_concat hprogress.sorted, decide_eq_true_eq]
        rfl
  generalize hfound : (db.tasks.filter fun r => selects P options r.2 && behind r) = found
  have hmem : ∀ r, r ∈ found ↔ (r ∈ db.tasks ∧ selects P options r.2 = true) ∧
      Behind TaskItem.position returned (position r) := by
    intro r
    rw [← hfound, List.mem_filter, Bool.and_eq_true, hbehind, and_assoc]
  have hnodup : ((found.map (taskItem db.clock)).map TaskItem.position).Nodup := by
    rw [List.map_map, ← hfound]
    exact db.positions.sublist (List.filter_sublist.map position)
  -- every task that stays and is still to come is among the rows of the query
  have hall : ∀ p, Kept P options states p → Behind TaskItem.position returned p →
      p ∈ (found.map (taskItem db.clock)).map TaskItem.position := by
    rintro p ⟨r, ⟨hselects, hstays⟩, rfl⟩ hlate
    obtain ⟨r', hr', hid, hsame⟩ := hstays _ ht
    have hposition : position r' = position r := by
      unfold position
      rw [hid, hsame.createdAt]
    rw [List.map_map, ← hposition]
    refine List.mem_map_of_mem ((hmem r').mpr ⟨⟨hr', hsame.selects.trans hselects⟩, ?_⟩)
    rw [hposition]
    exact hlate
  have hbehindAll : ∀ item ∈ found.map (taskItem db.clock),
      Behind TaskItem.position returned item.position := by
    intro item hitem
    obtain ⟨r, hr, rfl⟩ := List.mem_map.mp hitem
    exact ((hmem r).mp hr).2
  generalize hpage : pageOf (pageSize options.limit).toNat ((newest TaskItem.position
    (found.map (taskItem db.clock))).take ((pageSize options.limit).toNat + 1)) = page
  obtain ⟨items, last⟩ := page
  obtain ⟨hnext, hsub, hdone, hlast⟩ := hprogress.request hn hnodup hbehindAll hall hpage
  have hrow : ∀ item ∈ items, ∃ r ∈ db.tasks, taskItem db.clock r = item := by
    intro item hitem
    obtain ⟨r, hr, rfl⟩ := List.mem_map.mp (hsub item hitem)
    exact ⟨r, ((hmem r).mp hr).1.1, rfl⟩
  -- and where it was returned it was returned at its own position
  have hmore : Placed P options states (returned ++ items) := by
    intro item hitem r hr hid
    rcases List.mem_append.mp hitem with hitem | hitem
    · exact hplaced item hitem r hr hid
    · obtain ⟨x, hx, rfl⟩ := hrow item hitem
      obtain ⟨r', hr', hid', hsame⟩ := hr.2 _ ht
      rw [← db.task_unique hr' hx (hid'.trans hid)]
      show toLex (r'.2.createdAt, r'.1) = toLex (r.2.createdAt, r.1)
      rw [hid', hsame.createdAt]
  -- the request computes this page
  have hlist : listMailTasks P { options with cursor := cursor.getD "" } db = .ok (items,
      (last.map fun last => encodeMailTaskCursor P last.createdAt last.id options).getD "") := by
    have hplainRows : (db.tasks.filter fun r => selects P options r.2 &&
        selectsStatus options r.2 db.clock && behind r) = found := by
      rw [← hfound]
      refine List.filter_congr fun r _ => ?_
      have hstatus : selectsStatus options r.2 db.clock = true := by
        unfold selectsStatus
        rw [hplain.status, hplain.failedOnly]
        rfl
      rw [hstatus, Bool.and_true]
    unfold listMailTasks
    dsimp only
    rw [if_neg hsize, hboundary]
    dsimp only
    rw [show (db.tasks.filter fun r => selects P { options with cursor := cursor.getD "" } r.2 &&
      selectsStatus { options with cursor := cursor.getD "" } r.2 db.clock && behind r) = found
      from hplainRows, List.map_take, newest_map, hpage]
    rfl
  simp only [Moving.request, source, hlist] at hreader
  -- with no cursor for a next page the walk is over, and nothing is left behind
  cases last with
  | none =>
      cases hreader
      exact ⟨hnext, hmore, hdone rfl⟩
  | some item =>
      obtain ⟨front, heq, hitem⟩ := hlast item rfl
      have hyear : item.createdAt < endOfYears := by
        obtain ⟨r, hr, rfl⟩ := hrow item hitem
        exact db.years r hr
      rw [Option.map_some, Option.getD_some, if_neg (boundary_encode hyear item.id).1] at hreader
      cases hreader
      exact ⟨hnext, hmore, front, item, heq, hyear, rfl⟩

theorem Inv.passes (hplain : Plain options) (h : Passes (source P options) s states s')
    (hs : s.2 = .reading [] none) : Inv P options states s'.2 := by
  refine (h.keeps (P := fun t => Inv P options states t.2) ?_ ?_).1
  · show Inv P options states s.2
    rw [hs]
    exact ⟨Progress.nil, List.forall_mem_nil _, rfl⟩
  · rintro e ⟨db, reader⟩ u ht - hinv hstep
    cases e with
    | move o =>
        obtain ⟨db', -, rfl⟩ := Option.map_eq_some_iff.mp hstep
        exact hinv
    | request =>
        obtain ⟨reader', hreader, rfl⟩ := Option.map_eq_some_iff.mp hstep
        cases reader with
        | reading returned cursor => exact Inv.request hplain hinv ht hreader
        | finished returned => cases hreader
        | failed => cases hreader

/-- A task that is there throughout keeps its place. -/
theorem stays_of_mem (h : Passes (source P options) s states s') {r : Uuid × MailTask}
    (hr : r ∈ s.1.tasks) (hselects : selects P options r.2 = true)
    (hstays : ∀ t ∈ states, r.1 ∈ t.1.tasks.map Prod.fst) : Stays P options states r := by
  refine ⟨hselects, (h.keeps (P := fun t => ∃ r' ∈ t.1.tasks, r'.1 = r.1 ∧ Same r.2 r'.2)
    ⟨r, hr, rfl, rfl, rfl, rfl⟩ ?_).2⟩
  rintro e ⟨db, reader⟩ u - hu ⟨r', hr', hid, hsame⟩ hstep
  cases e with
  | move o =>
      obtain ⟨db', hmove, rfl⟩ := Option.map_eq_some_iff.mp hstep
      obtain ⟨x, hx, hxid⟩ := List.mem_map.mp (hstays _ hu)
      refine ⟨x, hx, hxid, ?_⟩
      rcases move_spec hmove x hx with ⟨y, hy, hyid, hkept⟩ | hnew
      · obtain rfl := db.task_unique hy hr' (hyid.trans (hxid.trans hid.symm))
        exact ⟨hkept.createdAt.trans hsame.createdAt, hkept.kind.trans hsame.kind,
          hkept.recipientEmail.trans hsame.recipientEmail⟩
      · exact absurd (hxid ▸ hid ▸ List.mem_map_of_mem hr') hnew
  | request =>
      obtain ⟨reader', -, rfl⟩ := Option.map_eq_some_iff.mp hstep
      exact ⟨r', hr', hid, hsame⟩

/-- **What was returned is complete**: in strictly descending order, and every task that matches and
is there throughout once. -/
def Complete (P : Platform) (options : MailTaskListOptions) (first : Store)
    (states : List (Store × Reader String TaskItem)) (returned : List TaskItem) : Prop :=
  (returned.map TaskItem.position).Pairwise (· > ·) ∧
    ∀ r ∈ first.tasks, selects P options r.2 = true →
      (∀ t ∈ states, r.1 ∈ t.1.tasks.map Prod.fst) → (returned.map TaskItem.id).count r.1 = 1

/-- **A walk through the mail tasks** does not fail, and is complete.

The cursor is a position in an order that nothing moves, so that the pages fit together although
everything else in the table may have changed between two requests. -/
theorem walk_complete (hplain : Plain options) (h : Passes (source P options) s states s')
    (hs : s.2 = .reading [] none) :
    s'.2 ≠ .failed ∧ ∀ returned, s'.2 = .finished returned →
      Complete P options s.1 states returned := by
  have hinv := Inv.passes hplain h hs
  refine ⟨fun hfailed => ?_, fun returned hfinished => ?_⟩
  · rw [hfailed] at hinv
    exact hinv
  · rw [hfinished] at hinv
    obtain ⟨hprogress, hplaced, hdone⟩ := hinv
    refine ⟨hprogress.sorted, fun r hr hselects hstays => ?_⟩
    have hr' := stays_of_mem h hr hselects hstays
    obtain ⟨item, hitem, hposition⟩ := List.mem_map.mp (hdone _ ⟨r, hr', rfl⟩)
    -- the items of this id are those of this position, of which there is one
    have hsame : ∀ x ∈ returned, x.id = r.1 ↔ x = item := by
      intro x hx
      constructor
      · intro hid
        have hplace := (hplaced x hx r hr' hid.symm).trans hposition.symm
        exact List.inj_on_of_nodup_map
          (hprogress.sorted.imp fun hgt => ne_of_gt hgt) hx hitem hplace
      · rintro rfl
        exact (Prod.mk.inj (toLex.injective hposition)).2
    rw [List.count, List.countP_map]
    have hcount : returned.countP ((· == r.1) ∘ TaskItem.id) = returned.countP (· == item) := by
      refine List.countP_congr fun x hx => ?_
      rw [Function.comp_apply, beq_iff_eq, beq_iff_eq]
      exact hsame x hx
    rw [hcount]
    exact List.count_eq_one_of_mem hprogress.nodup hitem

/-! ### Through the management -/

/-- Trimming leaves a cursor alone that `ListMailTasks` has written. -/
theorem trimSpace_encode (createdAt : Instant) (id : Uuid) :
    Devices.trimSpace (encodeMailTaskCursor P createdAt id options) =
      encodeMailTaskCursor P createdAt id options := by
  have hspace : ∀ c ∈ Base64.encode Base64.urlAlphabet (P.marshal (taskCursor P createdAt id
      options)), isGoSpace c = false := by
    have halphabet : ∀ n < 64, isGoSpace (Base64.digit Base64.urlAlphabet n) = false := by
      decide +kernel
    intro c hc
    obtain ⟨n, hn, rfl⟩ := List.mem_map.mp hc
    exact halphabet n (Base64.sextets_lt _ n hn)
  unfold encodeMailTaskCursor
  show String.ofList (Trim.trim isGoSpace (String.ofList _).toList) = _
  rw [String.toList_ofList, Trim.trim_eq_self hspace]

/-- The cursor of a reader is one that trimming leaves alone. -/
def Trimmed : Reader String TaskItem → Prop
  | .reading _ (some cursor) => Devices.trimSpace cursor = cursor
  | _ => True

/-- The reader is about to ask for a page by a cursor that is too long. -/
def Overlong : Reader String TaskItem → Prop
  | .reading _ (some cursor) => 512 < cursor.utf8ByteSize
  | _ => False

/-- The cursor behind a page is empty, or one that was written for it. -/
theorem listMailTasks_next {items : List TaskItem} {next : String}
    (h : listMailTasks P options db = .ok (items, next)) :
    next = "" ∨ ∃ createdAt id, next = encodeMailTaskCursor P createdAt id options := by
  unfold listMailTasks at h
  split at h
  · cases h
  · cases hboundary : boundary P options with
    | error e =>
        rw [hboundary] at h
        cases h
    | ok behind =>
        rw [hboundary] at h
        obtain ⟨-, hnext⟩ := Prod.mk.inj (Except.ok.inj h)
        rw [← hnext]
        cases (pageOf (pageSize options.limit).toNat _).2 with
        | none => exact .inl rfl
        | some last => exact .inr ⟨last.createdAt, last.id, rfl⟩

theorem Trimmed.request {cursor : Option String} {reader : Reader String TaskItem}
    (h : request (source P options) db (.reading returned cursor) = some reader) :
    Trimmed reader := by
  simp only [Moving.request, source] at h
  cases hlist : listMailTasks P { options with cursor := cursor.getD "" } db with
  | error e =>
      rw [hlist] at h
      cases h
      trivial
  | ok page =>
      obtain ⟨items, next⟩ := page
      simp only [hlist] at h
      by_cases hnone : next = ""
      · rw [if_pos hnone] at h
        cases h
        trivial
      · rw [if_neg hnone] at h
        cases h
        rcases listMailTasks_next hlist with hempty | ⟨createdAt, id, rfl⟩
        · exact absurd hempty hnone
        · exact trimSpace_encode createdAt id

/-- A cursor that is too long is refused before the list is read. -/
theorem managementList_long (htrim : Devices.trimSpace options.cursor = options.cursor)
    (hlong : 512 < options.cursor.utf8ByteSize) :
    ∃ e, managementList P options db = .error e := by
  unfold managementList normalizeMailTaskListOptions
  rw [htrim, if_pos hlong]
  split_ifs <;> exact ⟨_, rfl⟩

/-- Any other cursor without white space at its ends reaches the list as it is. -/
theorem managementList_eq (htrim : Devices.trimSpace options.cursor = options.cursor)
    (hshort : ¬512 < options.cursor.utf8ByteSize) :
    managementList P options db = listMailTasks P options db := by
  unfold managementList normalizeMailTaskListOptions
  rw [htrim, if_neg hshort]
  by_cases hsize : pageSize options.limit < 1 ∨ 100 < pageSize options.limit
  · unfold listMailTasks
    rw [if_pos hsize, if_pos hsize]
  · rw [if_neg hsize]

/-- **One step through the management** is one of the walk, unless the cursor is too long; then
the request fails. -/
theorem managed_step {e : Event Move} (ht : Trimmed t.2) (h : step (managed P options) e t = some s) :
    (step (source P options) e t = some s ∧ Trimmed s.2) ∨ (s.2 = .failed ∧ Overlong t.2) := by
  obtain ⟨db, reader⟩ := t
  cases e with
  | move o =>
      obtain ⟨db', -, rfl⟩ := Option.map_eq_some_iff.mp h
      exact .inl ⟨h, ht⟩
  | request =>
      obtain ⟨reader', hreader, rfl⟩ := Option.map_eq_some_iff.mp h
      cases reader with
      | finished returned => cases hreader
      | failed => cases hreader
      | reading returned cursor =>
          have htrim : Devices.trimSpace (cursor.getD "") = cursor.getD "" := by
            cases cursor with
            | none => rfl
            | some cursor => exact ht
          by_cases hlong : 512 < (cursor.getD "").utf8ByteSize
          · obtain ⟨e, herror⟩ : ∃ e, managementList P
                { options with cursor := cursor.getD "" } db = .error e :=
              managementList_long htrim hlong
            refine .inr ⟨?_, ?_⟩
            · simp only [Moving.request, managed, herror] at hreader
              cases hreader
              rfl
            · cases cursor with
              | none => exact absurd hlong (by decide)
              | some cursor => exact hlong
          · have hsame : managementList P { options with cursor := cursor.getD "" } db =
                listMailTasks P { options with cursor := cursor.getD "" } db :=
              managementList_eq htrim hlong
            have hrequest : request (source P options) db (.reading returned cursor) =
                some reader' := by
              rw [← hreader]
              simp only [Moving.request, source, managed, hsame]
            refine .inl ⟨?_, Trimmed.request hrequest⟩
            show (request (source P options) db (.reading returned cursor)).map (db, ·) = _
            rw [hrequest]
            rfl

/-- A run through the management is a walk, or comes to a cursor that is too long. -/
theorem managed_passes (h : Passes (managed P options) s states s') (hs : Trimmed s.2) :
    Passes (source P options) s states s' ∨ s'.2 = .failed ∧ ∃ t ∈ states, Overlong t.2 := by
  induction h with
  | here s => exact .inl (.here s)
  | @next s t u states e hstep hrest ih =>
      rcases managed_step hs hstep with ⟨hsource, htrim⟩ | ⟨hfailed, hlong⟩
      · rcases ih htrim with hwalk | ⟨hfailed, a, ha, hlong⟩
        · exact .inl (.next e hsource hwalk)
        · exact .inr ⟨hfailed, a, List.mem_cons_of_mem _ ha, hlong⟩
      · exact .inr ⟨hrest.failed hfailed, s, List.mem_cons_self, hlong⟩

/-- **A walk through `MailTaskManagement.List`** is complete if it comes to its end, and fails
only at a cursor of more than 512 bytes.

The cursor carries the filter, so its length is not the reader's to choose: with a long recipient,
a kind and both times it passes the limit, and the second page is refused by the very cursor that
the first one came with.  Up to there the management adds nothing, and the walk is one through
`ListMailTasks`. -/
theorem managed_complete (hplain : Plain options) (h : Passes (managed P options) s states s')
    (hs : s.2 = .reading [] none) :
    (∀ returned, s'.2 = .finished returned → Complete P options s.1 states returned) ∧
      (s'.2 = .failed → ∃ t ∈ states, Overlong t.2) := by
  have htrim : Trimmed s.2 := by
    rw [hs]
    trivial
  rcases managed_passes h htrim with hwalk | ⟨hfailed, hlong⟩
  · obtain ⟨hok, hcomplete⟩ := walk_complete hplain hwalk hs
    exact ⟨hcomplete, fun hfailed => absurd hfailed hok⟩
  · refine ⟨fun returned hfinished => ?_, fun _ => hlong⟩
    rw [hfailed] at hfinished
    cases hfinished

end Walk

end BindPlane.Mail.Listing
