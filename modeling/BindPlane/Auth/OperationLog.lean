import Mathlib.Data.Prod.Lex
import BindPlane.Auth.UserList
import BindPlane.Paging.Moving

/-!
# The operation log

`ListOperationLogs` and `DeleteExpiredOperationLogs`, with entries that are appended at any
position.

**The cursor is an id.**  The next page begins behind the row that the cursor names, as a subquery
finds it when the page is read: without the row there is no position, and the page is empty.

**A deletion takes time.**  It sees the entries that were there when it began, and reads the clock
anew for each of them, in any order.  So it may delete an entry and leave an older one.

**Source.**  What is modelled here is in `internal/auth/adapter/postgres/operation_log.go` and
`internal/auth/application/operation_log.go`.
-/

namespace BindPlane.OperationLog

open Moving
open UserList (Uuid)

/-! ## The table -/

/-- A row of `auth_operation_logs`, with what the filters read. -/
structure Entry where
  id : Uuid
  actorUserId : Option Uuid
  action : String
  objectType : String
  objectId : Option String
  result : String
  occurredAt : ℤ
  deriving DecidableEq

/-- `(l.occurred_at, l.id)`. -/
def Entry.position (e : Entry) : ℤ ×ₗ Uuid := toLex (e.occurredAt, e.id)

/-- A `DELETE` that is under way: the rows that it has still to visit, and those it will delete.

A single `DELETE` is many steps here.  It has one snapshot, but it reads the clock for each row that
it visits, and the rows it has doomed disappear together when it commits. -/
structure Deletion where
  days : ℤ
  pending : List Entry
  doomed : List Uuid
  deriving DecidableEq

/-- The store.  `issued` is no column: it lists the ids that were drawn. -/
structure Log where
  clock : ℤ
  entries : List Entry
  issued : List Uuid
  deletions : List Deletion
  ids : (entries.map Entry.id).Nodup
  known : ∀ e ∈ entries, e.id ∈ issued

/-! ## ListOperationLogs -/

/-- The options, of which a handler lets an id through as a UUID only. -/
structure OperationLogListOptions where
  cursor : Option Uuid
  limit : ℕ
  fromTime : Option ℤ
  toTime : Option ℤ
  actorID : Option Uuid
  action : String
  objectType : String
  objectID : String
  result : String
  deriving DecidableEq

/-- The clauses of the filter. -/
def OperationLogListOptions.selects (options : OperationLogListOptions) (l : Entry) : Bool :=
  options.fromTime.all (· ≤ l.occurredAt) && options.toTime.all (l.occurredAt < ·) &&
    options.actorID.all (l.actorUserId = some ·) &&
    (options.action = "" || l.action = options.action) &&
    (options.objectType = "" || l.objectType = options.objectType) &&
    (options.objectID = "" || l.objectId = some options.objectID) &&
    (options.result = "" || l.result = options.result)

/-- The clause of the cursor: nothing is less than the row of an empty subquery. -/
def behindCursor (db : Log) (cursor : Option Uuid) (l : Entry) : Bool :=
  cursor.all fun id => (db.entries.find? (·.id = id)).any (l.position < ·.position)

def OperationLogListOptions.pageSize (options : OperationLogListOptions) : ℕ :=
  if options.limit = 0 then 25 else options.limit

/-- `ListOperationLogs`. -/
def listOperationLogs (options : OperationLogListOptions) (db : Log) : List Entry × Option Uuid :=
  let found := db.entries.filter fun l => options.selects l && behindCursor db options.cursor l
  let page := pageOf options.pageSize ((newest Entry.position found).take (options.pageSize + 1))
  (page.1, page.2.map Entry.id)

/-! ## What the others do -/

/-- A day, in microseconds. -/
def day : ℤ := 86400000000

inductive Move
  | elapse (time : ℕ)
  /-- `CreateOperationLog`. -/
  | createOperationLog (entry : Entry)
  /-- `DeleteExpiredOperationLogs` begins. -/
  | deleteExpiredOperationLogs (days : ℤ)
  /-- It visits a row. -/
  | visit (deletion : ℕ) (entry : Entry)
  /-- It commits. -/
  | commit (deletion : ℕ)
  deriving DecidableEq

/-- `occurred_at < clock_timestamp() - ($1 * INTERVAL '1 day')`. -/
def Entry.expired (e : Entry) (days clock : ℤ) : Bool := e.occurredAt < clock - days * day

def Deletion.visit (deletion : Deletion) (e : Entry) (clock : ℤ) : Deletion :=
  { deletion with
    pending := deletion.pending.erase e
    doomed := if e.expired deletion.days clock then e.id :: deletion.doomed else deletion.doomed }

namespace Log

variable (db : Log)

/-- `INSERT INTO auth_operation_logs`, with an id that was never drawn. -/
def create (entry : Entry) (h : entry.id ∉ db.issued) : Log :=
  { db with
    entries := db.entries ++ [entry]
    issued := entry.id :: db.issued
    ids := by
      rw [List.map_append, List.map_singleton, List.nodup_append]
      refine ⟨db.ids, List.nodup_singleton _, fun id hid id' hid' heq => ?_⟩
      obtain ⟨e, he, rfl⟩ := List.mem_map.mp hid
      rw [List.mem_singleton.mp hid'] at heq
      exact h (heq ▸ db.known e he)
    known := fun e he => by
      rcases List.mem_append.mp he with he | he
      · exact List.mem_cons_of_mem _ (db.known e he)
      · rw [List.mem_singleton.mp he]
        exact List.mem_cons_self }

def delete (doomed : List Uuid) (deletions : List Deletion) : Log :=
  { db with
    entries := db.entries.filter fun e => e.id ∉ doomed
    deletions
    ids := db.ids.sublist (List.filter_sublist.map Entry.id)
    known := fun e he => db.known e (List.mem_of_mem_filter he) }

end Log

def move (db : Log) : Move → Option Log
  | .elapse time => some { db with clock := db.clock + time }
  | .createOperationLog entry =>
      if h : entry.id ∉ db.issued then some (db.create entry h) else none
  | .deleteExpiredOperationLogs days =>
      some { db with deletions := db.deletions ++ [⟨days, db.entries, []⟩] }
  | .visit i entry =>
      match db.deletions[i]? with
      | some deletion =>
          if entry ∈ deletion.pending then
            some { db with deletions := db.deletions.set i (deletion.visit entry db.clock) }
          else none
      | none => none
  | .commit i =>
      match db.deletions[i]? with
      | some deletion =>
          if deletion.pending = [] then
            some (db.delete deletion.doomed (db.deletions.eraseIdx i))
          else none
      | none => none

/-- The log, as one lists it that follows the cursors. -/
def source (options : OperationLogListOptions) : Source Log Move Uuid Entry where
  move o db := move db o
  list cursor db := some (listOperationLogs { options with cursor } db)

/-- The entries that match. -/
def matching (options : OperationLogListOptions) (db : Log) : List Entry :=
  db.entries.filter options.selects

/-- An entry that matches, in every state of a run. -/
def Stays (options : OperationLogListOptions) (states : List (Log × Reader Uuid Entry))
    (e : Entry) : Prop :=
  options.selects e = true ∧ ∀ t ∈ states, e ∈ t.1.entries

/-- **What was returned is complete**: in strictly descending order, and every entry that stays
once. -/
def Complete (options : OperationLogListOptions) (states : List (Log × Reader Uuid Entry))
    (returned : List Entry) : Prop :=
  (returned.map Entry.position).Pairwise (· > ·) ∧
    ∀ e, Stays options states e → returned.count e = 1

/-- **The cursor holds**: in every state of a run in which a next page is to be read, the entry that
the cursor names is still there, or no entry that stays is behind what was returned. -/
def Held (options : OperationLogListOptions) (states : List (Log × Reader Uuid Entry)) : Prop :=
  ∀ t ∈ states, ∀ returned cursor, t.2 = .reading returned (some cursor) →
    cursor ∈ t.1.entries.map Entry.id ∨
      ∀ e, Stays options states e → ¬ Behind Entry.position returned e.position

/-! ## What a move does -/

variable {options : OperationLogListOptions} {db db' : Log} {returned : List Entry}

theorem position_inj {a b : Entry} (h : a.position = b.position) :
    a.occurredAt = b.occurredAt ∧ a.id = b.id := Prod.mk.inj (toLex.injective h)

theorem Log.positions (db : Log) : (db.entries.map Entry.position).Nodup := by
  have hids : db.entries.Pairwise fun a b => a.id ≠ b.id := List.pairwise_map.mp db.ids
  exact List.pairwise_map.mpr (hids.imp fun hne heq => hne (position_inj heq).2)

theorem Log.entry_unique {a b : Entry} (ha : a ∈ db.entries) (hb : b ∈ db.entries)
    (h : a.id = b.id) : a = b := List.inj_on_of_nodup_map db.ids ha hb h

/-- **What a move does**: an entry that is there was there before, or has a new id. -/
theorem move_spec {o : Move} (h : move db o = some db') :
    (∀ id ∈ db.issued, id ∈ db'.issued) ∧
      ∀ e ∈ db'.entries, e ∈ db.entries ∨ e.id ∉ db.issued := by
  cases o with
  | elapse time =>
      cases h
      exact ⟨fun _ hid => hid, fun e he => Or.inl he⟩
  | createOperationLog entry =>
      simp only [move] at h
      split at h
      · next hnew =>
          cases h
          refine ⟨fun id hid => List.mem_cons_of_mem _ hid, fun e he => ?_⟩
          rcases List.mem_append.mp he with he | he
          · exact Or.inl he
          · rw [List.mem_singleton.mp he]
            exact Or.inr hnew
      · cases h
  | deleteExpiredOperationLogs days =>
      cases h
      exact ⟨fun _ hid => hid, fun e he => Or.inl he⟩
  | visit i entry =>
      simp only [move] at h
      split at h
      · split at h
        · cases h
          exact ⟨fun _ hid => hid, fun e he => Or.inl he⟩
        · cases h
      · cases h
  | commit i =>
      simp only [move] at h
      split at h
      · split at h
        · cases h
          exact ⟨fun _ hid => hid, fun e he => Or.inl (List.mem_of_mem_filter he)⟩
        · cases h
      · cases h

/-- The rows that were returned are known by their ids. -/
def Known (db : Log) (returned : List Entry) : Prop :=
  ∀ r ∈ returned, r.id ∈ db.issued ∧ ∀ e ∈ db.entries, e.id = r.id → e = r

theorem Known.move {o : Move} (h : Known db returned) (ho : move db o = some db') :
    Known db' returned := by
  obtain ⟨hissued, hentries⟩ := move_spec ho
  intro r hr
  obtain ⟨hid, hsame⟩ := h r hr
  refine ⟨hissued r.id hid, fun e he heq => ?_⟩
  rcases hentries e he with hold | hnew
  · exact hsame e hold heq
  · exact absurd (heq ▸ hid) hnew

theorem Known.append {items : List Entry} (h : Known db returned)
    (hitems : ∀ r ∈ items, r ∈ db.entries) : Known db (returned ++ items) := by
  intro r hr
  rcases List.mem_append.mp hr with hr | hr
  · exact h r hr
  · exact ⟨db.known r (hitems r hr), fun e he heq => db.entry_unique he (hitems r hr) heq⟩

/-! ## What a request does -/

/-- Behind the cursor is behind all that was returned, while its row is there. -/
theorem behindCursor_iff {front : List Entry} {r l : Entry} (hknown : Known db (front ++ [r]))
    (hsorted : ((front ++ [r]).map Entry.position).Pairwise (· > ·))
    (hmem : r.id ∈ db.entries.map Entry.id) :
    behindCursor db (some r.id) l = true ↔ Behind Entry.position (front ++ [r]) l.position := by
  obtain ⟨e, he, heq⟩ := List.mem_map.mp hmem
  have hfind : db.entries.find? (·.id = r.id) = some r := by
    obtain ⟨-, hsame⟩ := hknown r (List.mem_append_right front (List.mem_singleton_self r))
    have hsome : (db.entries.find? (·.id = r.id)).isSome = true :=
      List.find?_isSome.mpr ⟨e, he, decide_eq_true heq⟩
    obtain ⟨x, hx⟩ := Option.isSome_iff_exists.mp hsome
    have hid := List.find?_some hx
    rw [hx, hsame x (List.mem_of_find?_eq_some hx) (of_decide_eq_true hid)]
  rw [behind_concat hsorted]
  show (db.entries.find? (·.id = r.id)).any (l.position < ·.position) = true ↔ _
  rw [hfind, Option.any_some, decide_eq_true_eq]

/-- Without its row nothing is. -/
theorem listOperationLogs_missing {cursor : Uuid} (hmissing : cursor ∉ db.entries.map Entry.id) :
    listOperationLogs { options with cursor := some cursor } db = ([], none) := by
  have hnone : db.entries.find? (·.id = cursor) = none := by
    rw [List.find?_eq_none]
    intro e he heq
    exact hmissing (List.mem_map.mpr ⟨e, he, of_decide_eq_true heq⟩)
  have hnil : (db.entries.filter fun l => options.selects l && behindCursor db (some cursor) l) =
      [] := by
    rw [List.filter_eq_nil_iff]
    intro l _ hl
    have hbehind := (Bool.and_eq_true_iff.mp hl).2
    replace hbehind : (db.entries.find? (·.id = cursor)).any (l.position < ·.position) = true :=
      hbehind
    rw [hnone] at hbehind
    cases hbehind
  unfold listOperationLogs
  dsimp only
  rw [show (db.entries.filter fun l => ({ options with cursor := some cursor } :
    OperationLogListOptions).selects l && behindCursor db (some cursor) l) = [] from hnil]
  rfl

theorem pageSize_pos (options : OperationLogListOptions) : 0 < options.pageSize := by
  unfold OperationLogListOptions.pageSize
  split <;> omega

/-! ## A walk -/

section Walk

variable {states : List (Log × Reader Uuid Entry)} {s t s' : Log × Reader Uuid Entry}

/-- What a cursor has to do with the last row that was returned. -/
def Names (returned : List Entry) : Option Uuid → Prop
  | none => returned = []
  | some cursor => ∃ front r, returned = front ++ [r] ∧ r.id = cursor

/-- The positions of the entries that stay. -/
def Kept (options : OperationLogListOptions) (states : List (Log × Reader Uuid Entry))
    (p : ℤ ×ₗ Uuid) : Prop :=
  ∃ e, Stays options states e ∧ e.position = p

/-- **What every state of a run satisfies.** -/
def Inv (options : OperationLogListOptions) (states : List (Log × Reader Uuid Entry)) :
    Log × Reader Uuid Entry → Prop
  | (db, .reading returned cursor) =>
      Progress Entry.position (Kept options states) returned ∧ Known db returned ∧
        Names returned cursor
  | (db, .finished returned) =>
      Progress Entry.position (Kept options states) returned ∧ Known db returned ∧
        ((∀ p, Kept options states p → p ∈ returned.map Entry.position) ∨
          ∃ t ∈ states, ∃ cursor, t.2 = .reading returned (some cursor) ∧
            cursor ∉ t.1.entries.map Entry.id)
  | (_, .failed) => False

theorem Inv.request {db : Log} {cursor : Option Uuid} {reader : Reader Uuid Entry}
    (h : Inv options states (db, .reading returned cursor))
    (ht : (db, .reading returned cursor) ∈ states)
    (hreader : request (source options) db (.reading returned cursor) = some reader) :
    Inv options states (db, reader) := by
  obtain ⟨hprogress, hknown, hnames⟩ := h
  -- without the row of the cursor the page is empty, and the last
  by_cases hmissing : ∃ id, cursor = some id ∧ id ∉ db.entries.map Entry.id
  · obtain ⟨id, rfl, hid⟩ := hmissing
    have hlist : (source options).list (some id) db = some ([], none) :=
      congrArg some (listOperationLogs_missing hid)
    simp only [Moving.request, hlist] at hreader
    cases hreader
    rw [List.append_nil]
    exact ⟨hprogress, hknown, Or.inr ⟨_, ht, id, rfl, hid⟩⟩
  · have hbehind : ∀ l, behindCursor db cursor l = true ↔
        Behind Entry.position returned l.position := by
      intro l
      cases cursor with
      | none =>
          rw [show returned = [] from hnames]
          exact iff_of_true rfl (List.forall_mem_nil _)
      | some id =>
          obtain ⟨front, r, rfl, rfl⟩ := hnames
          exact behindCursor_iff hknown hprogress.sorted
            (Classical.not_not.mp fun hid => hmissing ⟨_, rfl, hid⟩)
    generalize hfound : (db.entries.filter fun l => options.selects l && behindCursor db cursor l) =
      found
    have hmem : ∀ l, l ∈ found ↔ l ∈ matching options db ∧
        Behind Entry.position returned l.position := by
      intro l
      rw [← hfound, List.mem_filter, Bool.and_eq_true, hbehind, matching, List.mem_filter,
        and_assoc]
    have hnodup : (found.map Entry.position).Nodup := by
      rw [← hfound]
      exact db.positions.sublist (List.filter_sublist.map Entry.position)
    have hall : ∀ p, Kept options states p → Behind Entry.position returned p →
        p ∈ found.map Entry.position := by
      rintro p ⟨l, ⟨hselects, hstays⟩, rfl⟩ hlate
      exact List.mem_map_of_mem
        ((hmem l).mpr ⟨List.mem_filter.mpr ⟨hstays _ ht, hselects⟩, hlate⟩)
    have hlist : (source options).list cursor db = some
        ((pageOf options.pageSize ((newest Entry.position found).take (options.pageSize + 1))).1,
          (pageOf options.pageSize
            ((newest Entry.position found).take (options.pageSize + 1))).2.map Entry.id) := by
      rw [← hfound]
      rfl
    generalize hpage : pageOf options.pageSize
      ((newest Entry.position found).take (options.pageSize + 1)) = page at hlist
    obtain ⟨items, last⟩ := page
    obtain ⟨hnext, hsub, hdone, hlast⟩ := hprogress.request (pageSize_pos options) hnodup
      (fun r hr => ((hmem r).mp hr).2) hall hpage
    have hmore : Known db (returned ++ items) :=
      hknown.append fun x hx => List.mem_of_mem_filter ((hmem x).mp (hsub x hx)).1
    simp only [Moving.request, hlist] at hreader
    cases last with
    | none =>
        cases hreader
        exact ⟨hnext, hmore, Or.inl (hdone rfl)⟩
    | some r =>
        cases hreader
        obtain ⟨front, heq, -⟩ := hlast r rfl
        exact ⟨hnext, hmore, front, r, heq, rfl⟩

theorem Inv.step {e : Event Move} {u : Log × Reader Uuid Entry} (ht : t ∈ states)
    (h : Inv options states t) (hstep : step (source options) e t = some u) :
    Inv options states u := by
  obtain ⟨db, reader⟩ := t
  cases e with
  | move o =>
      obtain ⟨db', hmove, rfl⟩ := Option.map_eq_some_iff.mp hstep
      cases reader with
      | reading returned cursor => exact ⟨h.1, Known.move h.2.1 hmove, h.2.2⟩
      | finished returned => exact ⟨h.1, Known.move h.2.1 hmove, h.2.2⟩
      | failed => exact h
  | request =>
      obtain ⟨reader', hreader, rfl⟩ := Option.map_eq_some_iff.mp hstep
      cases reader with
      | reading returned cursor => exact Inv.request h ht hreader
      | finished returned => cases hreader
      | failed => cases hreader

theorem Inv.passes (h : Passes (source options) s states s') (hs : s.2 = .reading [] none) :
    Inv options states s' ∧ ∀ t ∈ states, Inv options states t := by
  refine h.keeps ?_ fun e t u ht _ hinv hstep => Inv.step ht hinv hstep
  obtain ⟨db, reader⟩ := s
  cases hs
  exact ⟨Progress.nil, List.forall_mem_nil _, rfl⟩

/-- Once the row of the cursor is gone, what was returned is all that will be. -/
theorem missing_finishes {cursor : Uuid} {more : List Entry}
    (h : Passes (source options) t states s') (hreader : t.2 = .reading returned (some cursor))
    (hissued : cursor ∈ t.1.issued) (hmissing : cursor ∉ t.1.entries.map Entry.id)
    (hs' : s'.2 = .finished more) : more = returned := by
  have hkeep : (s'.2 = .reading returned (some cursor) ∧ cursor ∈ s'.1.issued ∧
      cursor ∉ s'.1.entries.map Entry.id) ∨ s'.2 = .finished returned := by
    refine (h.keeps (P := fun u => (u.2 = .reading returned (some cursor) ∧
      cursor ∈ u.1.issued ∧ cursor ∉ u.1.entries.map Entry.id) ∨ u.2 = .finished returned)
      (Or.inl ⟨hreader, hissued, hmissing⟩) ?_).1
    rintro e ⟨db, reader⟩ u - - hP hstep
    cases e with
    | move o =>
        obtain ⟨db', hmove, rfl⟩ := Option.map_eq_some_iff.mp hstep
        rcases hP with ⟨hread, hid, hgone⟩ | hfinished
        · obtain ⟨hmore, hentries⟩ := move_spec hmove
          refine Or.inl ⟨hread, hmore cursor hid, fun hmem => ?_⟩
          obtain ⟨x, hx, rfl⟩ := List.mem_map.mp hmem
          rcases hentries x hx with hold | hnew
          · exact hgone (List.mem_map_of_mem hold)
          · exact hnew hid
        · exact Or.inr hfinished
    | request =>
        obtain ⟨reader', hrequest, rfl⟩ := Option.map_eq_some_iff.mp hstep
        rcases hP with ⟨hread, -, hgone⟩ | hfinished
        · have hlist : (source options).list (some cursor) db = some ([], none) :=
            congrArg some (listOperationLogs_missing hgone)
          replace hread : reader = .reading returned (some cursor) := hread
          rw [hread] at hrequest
          simp only [Moving.request, hlist] at hrequest
          cases hrequest
          rw [List.append_nil]
          exact Or.inr rfl
        · replace hfinished : reader = .finished returned := hfinished
          rw [hfinished] at hrequest
          cases hrequest
  rcases hkeep with ⟨hread, -⟩ | hfinished
  · rw [hs'] at hread
    cases hread
  · rw [hs'] at hfinished
    cases hfinished
    rfl

theorem mem_of_kept {e : Entry} (hknown : Known db returned) (he : e ∈ db.entries)
    (hp : e.position ∈ returned.map Entry.position) : e ∈ returned := by
  obtain ⟨r, hr, heq⟩ := List.mem_map.mp hp
  rw [(hknown r hr).2 e he (position_inj heq).2.symm]
  exact hr

/-- **When a walk through the log is complete**: exactly if its cursor holds.

From left to right: if the entry of a cursor is gone while an older one stays, the next page is
empty, the walk ends, and the older one is missing.  From right to left: with the entry in place the
page is the next part of the list, as it would be for a cursor that holds a position. -/
theorem complete_iff_held (h : Passes (source options) s states s') (hs : s.2 = .reading [] none)
    (hs' : s'.2 = .finished returned) :
    Complete options states returned ↔ Held options states := by
  obtain ⟨hlast, hall⟩ := Inv.passes h hs
  have hfinal := h.last
  obtain ⟨db', reader'⟩ := s'
  cases hs'
  obtain ⟨hprogress, hknown', hdone⟩ := hlast
  constructor
  · rintro ⟨-, honce⟩ ⟨db, reader⟩ ht seen cursor hreader
    replace hreader : reader = .reading seen (some cursor) := hreader
    obtain ⟨-, hknown, front, r, rfl, rfl⟩ : Inv options states (db, .reading seen (some cursor)) :=
      hreader ▸ hall _ ht
    by_cases hmem : r.id ∈ db.entries.map Entry.id
    · exact Or.inl hmem
    · refine Or.inr fun e he hlate => ?_
      obtain ⟨rest, hrest⟩ := h.rest ht
      have hsame : returned = front ++ [r] := missing_finishes hrest hreader
        (hknown r (List.mem_append_right front (List.mem_singleton_self r))).1 hmem rfl
      have hcount := honce e he
      have hreturned : e ∈ front ++ [r] := by
        rw [← hsame]
        exact List.count_pos_iff.mp (hcount ▸ Nat.one_pos)
      exact lt_irrefl _ (hlate e hreturned)
  · intro hheld
    have hkept : ∀ e, Stays options states e → e.position ∈ returned.map Entry.position := by
      intro e he
      rcases hdone with hdone | ⟨t, ht, cursor, hreader, hmissing⟩
      · exact hdone _ ⟨e, he, rfl⟩
      · refine (hprogress.kept _ ⟨e, he, rfl⟩).resolve_right ?_
        exact (hheld t ht returned cursor hreader).resolve_left hmissing e he
    refine ⟨hprogress.sorted, fun e he => ?_⟩
    exact List.count_eq_one_of_mem hprogress.nodup
      (mem_of_kept hknown' (he.2 _ hfinal) (hkept e he))

end Walk

end BindPlane.OperationLog
