import BindPlane.Auth.Recovery

/-!
# Sessions

`CreateVersioned`, the two ways to resolve a session (`ResolveAndTouchVersioned` and
`ResolveVersioned`), `Delete` and `CleanupExpiredSessions`, and the reads of an account around them.

A session carries the version of the account it was created for.  Nobody compares the two when it is
resolved: `current` does, with an account that it reads afterwards.

**`FOR SHARE`** waits for whoever writes the account, and reads it once more behind that.  That it
then keeps others from writing the account until the session is committed is left out, so that the
model has more runs than the service.

**Source.**  What is modelled here is in `internal/auth/adapter/postgres/accounts.go`,
`internal/auth/adapter/postgres/sessions.go` and `internal/auth/application/authentication.go`.
-/

namespace BindPlane.Auth

open ReadCommitted
open Mail (Bytes)

/-! ## Rows -/

namespace Session

/-- `now.Before(idle_expires_at)` and `now.Before(absolute_expires_at)`. -/
def live (x : Session) (now : Instant) : Bool := now < x.idleExpiresAt && now < x.absoluteExpiresAt

/-- What is over stays over, until it is used. -/
theorem live_mono {x : Session} {t t' : Instant} (ht : t ≤ t') (h : x.live t = false) :
    x.live t' = false := by
  rw [Bool.eq_false_iff] at h ⊢
  intro hlive
  refine h ?_
  rw [live, Bool.and_eq_true, decide_eq_true_eq, decide_eq_true_eq] at hlive ⊢
  exact ⟨ht.trans_lt hlive.1, ht.trans_lt hlive.2⟩

/-- The columns of a session that has been used at `now`. -/
def touch (now : Instant) (idle : ℕ) (x : Session) : Session :=
  { x with
    lastSeenAt := max now x.lastSeenAt
    idleExpiresAt := min (max now x.lastSeenAt + idle) x.absoluteExpiresAt }

/-- `SET disabled_revoked = true`. -/
def revoke (x : Session) : Session := { x with disabledRevoked := true }

end Session

namespace Db

/-- `INSERT INTO auth_sessions`. -/
def addSession (d : Db) (id : ℕ) (x : Session) : Db := { d with sessions := d.sessions.insert id x }

/-- `UPDATE auth_sessions SET … WHERE …`, of locked rows. -/
def modifySessions (d : Db) (ids : List ℕ) (f : Session → Session) : Db :=
  { d with sessions := d.sessions.updateWhere (fun id _ => ids.contains id) f }

/-- `DELETE FROM auth_sessions WHERE …`, of locked rows. -/
def deleteSessions (d : Db) (ids : List ℕ) : Db :=
  { d with sessions := d.sessions.deleteWhere fun id _ => ids.contains id }

/-- `SELECT … FROM auth_sessions WHERE token_digest = $1`. -/
def sessionOf (d : Db) (tokenDigest : Bytes) : Option (ℕ × Session) :=
  d.sessions.find? fun _ x => x.tokenDigest = tokenDigest

/-- `FindPublicAccountByID`: the account, unless it is disabled. -/
def findPublicAccount (d : Db) (userId : ℕ) : Option User :=
  (d.users.get? userId).filter User.enabled

/-- `FindByCanonicalEmail`. -/
def findByCanonicalEmail (d : Db) (canonical : String) : Option (ℕ × User) :=
  d.users.find? fun _ u => u.email.canonical = canonical && u.enabled

end Db

/-! ## CreateVersioned -/

/-- The new row. -/
def newSession (tokenDigest : Bytes) (userId authVersion idle absolute : ℕ) (now : Instant) :
    Session where
  tokenDigest := tokenDigest
  userId := userId
  authVersion := authVersion
  createdAt := now
  lastSeenAt := now
  idleExpiresAt := min (now + idle) (now + absolute)
  absoluteExpiresAt := now + absolute
  disabledRevoked := false

/-- `SELECT id FROM auth_users WHERE id = $2 AND disabled_at IS NULL AND auth_version = $3 FOR SHARE`:
the moments at which the statement begins and at which it has the row. -/
def shareAccount (userId authVersion : ℕ) : Txn (Instant × Instant) := do
  let s ← Tx.snapshot
  let p := fun u : User => u.enabled && u.authVersion = authVersion
  let _ ← Tx.expect ((s.users.get? userId).filter p) .invalidCredentials
  let _ ← Tx.acquireIf (.user userId) fun _ => false
  let latest ← Tx.snapshot
  let _ ← Tx.expect ((latest.users.get? userId).filter p) .invalidCredentials
  pure (s.clock, latest.clock)

/-- `CreateVersioned`.  Whether the clock is read before the wait for the account or behind it is up
to the planner. -/
def createSession (tokenDigest : Bytes) (userId authVersion idle absolute : ℕ) (clockFirst : Bool) :
    Txn Unit := do
  Tx.require (0 < authVersion) .database
  let (early, late) ← shareAccount userId authVersion
  Tx.acquire (.sessionDigest tokenDigest)
  let s ← Tx.snapshot
  -- `ON CONFLICT (token_digest) DO NOTHING`
  Tx.require (!(s.sessions.any fun _ x => x.tokenDigest = tokenDigest)) .invalidCredentials
  Tx.require (0 < idle && 0 < absolute) .database
  let id ← Tx.nextSerial
  Tx.update (·.addSession id (newSession tokenDigest userId authVersion idle absolute
    (if clockFirst then early else late)))

/-! ## Resolvers -/

/-- What a resolver returns: the user and the version of the session, or that there is none. -/
abbrev Resolved := Option (ℕ × ℕ)

/-- `ResolveAndTouchVersioned`. -/
def resolveAndTouch (tokenDigest : Bytes) (idle : ℕ) : Txn Resolved := do
  let account ← Tx.findForUpdate Db.users .user fun s id _ =>
    (s.sessionOf tokenDigest).map (·.2.userId) = some id
  match account with
  | none => pure none
  | some (_, user) => do
      let found ← Tx.findForUpdate Db.sessions .session fun _ _ x => x.tokenDigest = tokenDigest
      match found with
      | none => pure none
      | some (id, x) => do
          -- the clock is read behind the locks
          let s ← Tx.snapshot
          if !x.live s.clock then pure none
          else if !user.enabled && x.disabledRevoked then Tx.raise .accountDisabled
          else if !user.enabled || x.disabledRevoked then pure none
          else do
            Tx.require (0 < idle) .database
            Tx.update (·.modifySessions [id] (Session.touch s.clock idle))
            pure (some (x.userId, x.authVersion))

/-- What `ResolveVersioned` reads: the session, joined with its account. -/
def Db.resolve (d : Db) (tokenDigest : Bytes) : Except Failure Resolved :=
  let joined := (d.sessionOf tokenDigest).bind fun (_, x) =>
    if x.live d.clock then (d.users.get? x.userId).map fun u => (x, u) else none
  match joined with
  | none => .ok none
  | some (x, user) =>
      if !user.enabled && x.disabledRevoked then .error .accountDisabled
      else if !user.enabled || x.disabledRevoked then .ok none
      else .ok (some (x.userId, x.authVersion))

/-- `ResolveVersioned`. -/
def resolve (tokenDigest : Bytes) : Txn Resolved := do
  let s ← Tx.snapshot
  match s.resolve tokenDigest with
  | .ok r => pure r
  | .error e => Tx.raise e

/-- What `current` makes of a resolved session and of the account that it reads next. -/
def current (resolved : Resolved) (account : Option User) : Option User :=
  match resolved, account with
  | some (_, version), some user =>
      if 0 < user.authVersion && version = user.authVersion then some user else none
  | _, _ => none

/-! ## The end of a session -/

/-- `Delete`. -/
def deleteSession (tokenDigest : Bytes) : Txn Unit := do
  let s ← Tx.snapshot
  let ids ← Tx.collectForUpdate Db.sessions .session (fun _ x => x.tokenDigest = tokenDigest)
    (s.sessions.rows.filter fun x => x.2.tokenDigest = tokenDigest)
  Tx.update (·.deleteSessions ids)

/-- `ORDER BY sessions.idle_expires_at, sessions.absolute_expires_at`. -/
def sessionEarlier (a b : ℕ × Session) : Prop :=
  a.2.idleExpiresAt < b.2.idleExpiresAt ∨
    a.2.idleExpiresAt = b.2.idleExpiresAt ∧ a.2.absoluteExpiresAt ≤ b.2.absoluteExpiresAt

instance : DecidableRel sessionEarlier := fun _ _ => inferInstanceAs (Decidable (_ ∨ _ ∧ _))

/-- `CleanupExpiredSessions`. -/
def cleanupSessions (limit : ℕ) : Txn Unit := do
  let s ← Tx.snapshot
  let picked ← Tx.pickForUpdate Db.sessions .session (fun s x => !x.live s.clock)
    ((s.sessions.rows.filter fun x => !x.2.live s.clock).insertionSort sessionEarlier)
    (if limit = 0 then 100 else limit)
  Tx.update (·.deleteSessions (picked.map Prod.fst))

/-- The sessions that a deactivation revokes: those of the version that it finds, that are live. -/
def revokeSessions (userId revision : ℕ) : Txn Unit := do
  let s ← Tx.snapshot
  let p := fun (s : Db) (x : Session) =>
    x.userId = userId && x.authVersion = revision && x.live s.clock
  let ids ← Tx.collectForUpdate Db.sessions .session p (s.sessions.rows.filter fun x => p s x.2)
  Tx.update (·.modifySessions ids Session.revoke)

end BindPlane.Auth
