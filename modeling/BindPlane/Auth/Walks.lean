import BindPlane.Codec.Tally
import BindPlane.Mail.Listing

/-!
# Walks through the two lists

What a reader of the operation log or of the mail tasks can rely on, whatever the others do in the
meantime.

**The cursors differ.**  That of the mail tasks is a position, and a walk through them is always
complete.  That of the operation log is an id, and the retention may delete the entry that it names
while an older one stays: the walk then ends with the older one missing.

**What can be asked for.**  While a reader turns the pages, entries are appended and old ones are
deleted.  A walk is complete if it has shown, once each and in order, the entries that stayed from
its begin to its end; of those that came or went meanwhile nothing is asked.
-/

namespace BindPlane.Walks

open Moving Mail
open UserList (Uuid)
open OperationLog (Log Entry OperationLogListOptions Complete Held)

/-- **The two lists.**  A walk through the operation log is complete exactly if the entry that its
cursor names is there when a page is read, or no entry that stays is behind it; a walk through the
mail tasks, by a filter that does not mention the status, does not fail and is complete.

A walk is told by the states of the table at its requests, and everybody else may write between
them.  A cursor of the operation log is the id of an entry, and its place is looked up in the table:
if the retention has deleted the entry in the meantime, the page behind it is empty.  `Held` is the
condition that this does not happen while older entries are left.  A cursor of the mail tasks has
the place in it, so that nothing needs to be looked up. -/
theorem lists_complete_iff (options : OperationLogListOptions) (P : Listing.Platform)
    (mailOptions : Listing.MailTaskListOptions) :
    (∀ (s s' : Log × Reader Uuid Entry) (states : List (Log × Reader Uuid Entry))
      (returned : List Entry), Passes (OperationLog.source options) s states s' →
      s.2 = .reading [] none → s'.2 = .finished returned →
        (Complete options states returned ↔ Held options states)) ∧
      (Listing.Plain mailOptions → ∀ (s s' : Listing.Store × Reader String Listing.TaskItem)
        (states : List (Listing.Store × Reader String Listing.TaskItem)),
        Passes (Listing.source P mailOptions) s states s' → s.2 = .reading [] none →
          s'.2 ≠ .failed ∧ ∀ returned, s'.2 = .finished returned →
            Listing.Complete P mailOptions s.1 states returned) :=
  ⟨fun _ _ _ _ h hs hs' => OperationLog.complete_iff_held h hs hs',
    fun hplain _ _ _ h hs => Listing.walk_complete hplain h hs⟩

/-! ## Two entries -/

namespace Demo

def uuid (text : String) : Option Uuid :=
  if h : Assets.isCanonicalUUID text = true then some ⟨text, h⟩ else none

theorem uuid_text (id : Uuid) : uuid id.1 = some id := dif_pos id.2

def firstId : Uuid := ⟨"00000000-0000-4000-8000-000000000011", by decide +kernel⟩

def secondId : Uuid := ⟨"00000000-0000-4000-8000-000000000012", by decide +kernel⟩

def entry (id : Uuid) (occurredAt : ℤ) : Entry :=
  ⟨id, none, "auth.login", "session", none, "success", occurredAt⟩

def older : Entry := entry firstId 5

def newer : Entry := entry secondId 10

/-- A day after both, but for some microseconds. -/
def log : Log where
  clock := OperationLog.day + 5
  entries := [older, newer]
  issued := [firstId, secondId]
  deletions := []
  ids := by decide +kernel
  known := by decide +kernel

/-- All entries, one on a page. -/
def logOptions : OperationLogListOptions := ⟨none, 1, none, none, none, "", "", "", ""⟩

/-- The retention visits the older entry, and later the newer one. -/
def retention : List (Event OperationLog.Move) :=
  [.move (.deleteExpiredOperationLogs 1), .move (.visit 0 older), .request, .move (.elapse 6),
    .move (.visit 0 newer), .move (.commit 0), .request]

/-- **An entry is lost.**  It is there throughout, and the second page is empty. -/
theorem older_lost : ∃ states s',
    Passes (OperationLog.source logOptions) (log, .reading [] none) states s' ∧
      s'.2 = .finished [newer] ∧ OperationLog.Stays logOptions states older ∧
        ¬ Complete logOptions states [newer] := by
  have hrun : (run (OperationLog.source logOptions) (log, .reading [] none) retention).any
      (fun r => r.2.2 = .finished [newer] && r.1.all fun t => older ∈ t.1.entries) = true := by
    decide +kernel
  obtain ⟨⟨states, s'⟩, hrun, hall⟩ := (Option.any_eq_true _ _).mp hrun
  obtain ⟨hfinished, hall⟩ := Bool.and_eq_true_iff.mp hall
  have hstays : OperationLog.Stays logOptions states older :=
    ⟨by decide, fun t ht => of_decide_eq_true (List.all_eq_true.mp hall t ht)⟩
  refine ⟨states, s', run_passes hrun, of_decide_eq_true hfinished, hstays, fun hcomplete => ?_⟩
  exact absurd (hcomplete.2 older hstays) (by decide +kernel)

/-! ### Two messages -/

/-- The parts of a cursor. -/
def parts (cursor : Listing.MailTaskCursor) : (ℤ × Option ℕ × Bool) × List String :=
  ((cursor.version, cursor.createdAt, cursor.failedOnly), [cursor.id, cursor.recipient, cursor.kind,
    cursor.status, cursor.fromTime, cursor.toTime])

def ofParts : (ℤ × Option ℕ × Bool) × List String → Option Listing.MailTaskCursor
  | ((version, createdAt, failedOnly), [id, recipient, kind, status, fromTime, toTime]) =>
      some ⟨version, createdAt, id, recipient, kind, status, fromTime, toTime, failedOnly⟩
  | _ => none

instance : Encodable Listing.MailTaskCursor :=
  Encodable.ofLeftInjection parts ofParts fun _ => rfl

/-- The cursor behind the second message. -/
def cursor : Listing.MailTaskCursor := ⟨1, some 2000000, secondId.1, "", "", "", "", "", false⟩

/-- Its object. -/
def object : List UInt8 :=
  ("\x7b\"v\":1,\"createdAt\":\"1970-01-01T00:00:02Z\"," ++
    "\"id\":\"00000000-0000-4000-8000-000000000012\"\x7d").toUTF8.toList

theorem object_head : object.head? = some 123 := by decide +kernel

/-- The packages, on the texts of these messages. -/
def platform : Listing.Platform where
  toLower s := s.map Char.toLower
  lower s := s.map Char.toLower
  formatTime t := t.repr
  readUuid := uuid
  marshal c := if c = cursor then object else Tally.write 0 c
  unmarshal bytes := if bytes = object then some cursor else Tally.read bytes
  readUuid_text := uuid_text
  unmarshal_marshal c _ := by
    by_cases h : c = cursor
    · rw [if_pos h, if_pos rfl, h]
    · rw [if_neg h, if_neg (Tally.write_ne object_head (by decide)), Tally.read_write]
  marshal_ne_nil c _ := by
    split
    · intro hnil
      exact absurd (hnil ▸ object_head) (by decide)
    · exact List.cons_ne_nil _ _

def message (createdAt : Instant) : MailTaskInput where
  kind := .testEmail
  userId := none
  invitationId := none
  resetSelector := none
  recipientEmail := some "admin@test.invalid"
  recipientName := some "Admin"
  emailChangeRequestId := none
  emailChangeSelector := none
  locale := "en-US"
  systemName := "Bind Plane"
  materialCiphertext := some [0]
  createdAt := createdAt
  expiresAt := 86400000000

def outbox : Listing.Store where
  clock := 2000000
  tasks := [(firstId, (message 1000000).row 1000000), (secondId, (message 2000000).row 2000000)]
  ids := by decide +kernel
  years := by decide +kernel

def mailOptions : Listing.MailTaskListOptions := ⟨"", "", none, "", none, none, false, 1⟩

/-- Both messages, the later one first. -/
def listed : List Listing.TaskItem :=
  [Listing.taskItem 2000000 (secondId, (message 2000000).row 2000000),
    Listing.taskItem 2000000 (firstId, (message 1000000).row 1000000)]

theorem mailOptions_plain : Listing.Plain mailOptions := ⟨rfl, rfl, by decide⟩

/-- **Both lists, entry by entry.**  The message that the cursor names is deleted, and the one
behind it is found. -/
theorem second_deleted :
    (∃ states s', Passes (OperationLog.source logOptions) (log, .reading [] none) states s' ∧
      s'.2 = .finished [newer, older] ∧ Held logOptions states) ∧
    ∃ states s', Passes (Listing.source platform mailOptions) (outbox, .reading [] none) states s' ∧
      s'.2 = .finished listed ∧ Listing.Complete platform mailOptions outbox states listed := by
  constructor
  · have hrun : (run (OperationLog.source logOptions) (log, .reading [] none)
        [.request, .request]).any (fun r => r.2.2 = .finished [newer, older]) = true := by
      decide +kernel
    obtain ⟨⟨states, s'⟩, hrun, hfinished⟩ := (Option.any_eq_true _ _).mp hrun
    replace hfinished : s'.2 = .finished [newer, older] := of_decide_eq_true hfinished
    have hpasses := run_passes hrun
    refine ⟨states, s', hpasses, hfinished, ((lists_complete_iff logOptions platform
      mailOptions).1 _ s' states [newer, older] hpasses rfl hfinished).mp
        ⟨by decide +kernel, fun e he => ?_⟩⟩
    have hmem : e ∈ [older, newer] := he.2 _ hpasses.first
    rcases List.mem_pair.mp hmem with rfl | rfl
    · decide +kernel
    · decide +kernel
  · have hrun : (run (Listing.source platform mailOptions) (outbox, .reading [] none)
        [.request, .move (.deleteMailTask secondId), .request]).any
          (fun r => r.2.2 = .finished listed) = true := by
      decide +kernel
    obtain ⟨⟨states, s'⟩, hrun, hfinished⟩ := (Option.any_eq_true _ _).mp hrun
    replace hfinished : s'.2 = .finished listed := of_decide_eq_true hfinished
    have hpasses := run_passes hrun
    exact ⟨states, s', hpasses, hfinished, ((lists_complete_iff logOptions platform
      mailOptions).2 mailOptions_plain _ s' states hpasses rfl).2 listed hfinished⟩

end Demo

end BindPlane.Walks
