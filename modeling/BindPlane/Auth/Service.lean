import BindPlane.Auth.Lifecycle

/-!
# The auth service

The system of any number of transactions of the auth service on one store, behind the first setup.

A transaction begins at the time that its first statement reads (`started`).  The journal it writes
is that of its own commit.

**What a caller passes.**  The secrets of a link or a code are drawn by the application and given to
the transaction, together with their digests; so are the hash of a new password and the nonce with
which a mail is sealed.  Nothing is assumed of them.  Where two transactions are given the same
secret the results say so, by counting, and do not exclude it.

**What a caller gets.**  The application looks at the reply when the transaction has committed.  Its
own decisions behind the reply, as which page is shown, are left out, with one exception: `current`
compares the version of a session with that of an account, and is where a session is refused.

**Source.**  What is modelled here is in `internal/auth/adapter/postgres/store.go`.
-/

namespace BindPlane.Auth

open ReadCommitted
open Mail (Bytes)

/-- A transaction, with what its caller passes. -/
inductive Op
  | elapse (time : ℕ)
  | requestPasswordReset (nonce : Bytes) (canonical : String) (selector verifierDigest : Bytes)
      (ttl : ℕ) (locale : String)
  | completePasswordReset (nonce : Bytes) (selector verifierDigest : Bytes)
      (passwordHash locale : String) (notificationTTL : ℕ)
  | changePassword (nonce : Bytes) (userId expectedAuthVersion : ℕ) (passwordHash locale : String)
      (notificationTTL : ℕ)
  | requestEmailChange (nonce : Bytes) (userId : ℕ) (newEmail : Email)
      (selector verifierDigest : Bytes) (ttl : ℕ) (locale : String)
  | resendEmailChange (nonce : Bytes) (userId : ℕ) (selector verifierDigest : Bytes) (ttl : ℕ)
      (locale : String)
  | completeEmailChange (nonce : Bytes) (userId requestId : ℕ) (presentedDigest : Bytes)
      (locale : String) (notificationTTL : ℕ)
  | mutateUserLifecycle (actorId userId revision : ℕ) (action : LifecycleAction)
  | createRole (actorId : ℕ) (name nameCanonical description : String) (permissions : List String)
  | replaceRole (actorId id revision : ℕ) (name nameCanonical description : String)
      (permissions : List String)
  | deleteRole (actorId id : ℕ)
  | replaceUserRoles (actorId userId authVersion : ℕ) (roleIds : List ℕ)
  | revokeUserSessions (actorId userId : ℕ)
  | createInvitation (nonce : Bytes) (actorId : ℕ) (name : Name) (email : Email) (locale : String)
      (roleIds : List ℕ) (selector verifierDigest : Bytes) (ttl : ℕ)
  | resendInvitation (nonce : Bytes) (actorId id : ℕ) (locale : String)
      (selector verifierDigest : Bytes) (ttl : ℕ)
  | revokeInvitation (actorId id : ℕ)
  | completeInvitation (selector verifierDigest : Bytes) (passwordHash locale : String)
  | updateUserName (userId : ℕ) (name : Name)
  | updateUserLocale (userId : ℕ) (locale : String)
  | saveSystemIdentity (expectedRevision : ℕ) (systemName : Name)
  | sweepMail
  | createSession (tokenDigest : Bytes) (userId authVersion idle absolute : ℕ) (clockFirst : Bool)
  | resolveAndTouch (tokenDigest : Bytes) (idle : ℕ)
  | resolve (tokenDigest : Bytes)
  | deleteSession (tokenDigest : Bytes)
  | cleanupSessions (limit : ℕ)
  | findPublicAccount (userId : ℕ)
  | findByCanonicalEmail (canonical : String)
  | initializeLocale (userId : ℕ) (locale : String)
  deriving DecidableEq

/-- What comes back. -/
inductive Reply
  | done
  | changedAt (time : Instant)
  | created (id : ℕ)
  | request (id : ℕ) (r : EmailChangeRequest)
  | code (answer : CodeAnswer)
  | resolved (r : Resolved)
  | account (userId : ℕ) (user : User)
  deriving DecidableEq

/-- Time passes. -/
def elapse (time : ℕ) : Txn Unit := Tx.update fun d => { d with clock := d.clock + time }

/-- The program of an operation. -/
def program (box : Sealer) : Op → Txn Reply
  | .elapse time => (elapse time).bind fun _ => .pure .done
  | .requestPasswordReset nonce canonical selector digest ttl locale =>
      (requestPasswordReset box nonce canonical selector digest ttl locale).bind fun _ =>
        .pure .done
  | .completePasswordReset nonce selector digest hash locale ttl =>
      (completePasswordReset box nonce selector digest hash locale ttl).bind fun t =>
        .pure (.changedAt t)
  | .changePassword nonce userId version hash locale ttl =>
      (changePassword box nonce userId version hash locale ttl).bind fun t => .pure (.changedAt t)
  | .requestEmailChange nonce userId newEmail selector digest ttl locale =>
      (requestEmailChange box nonce userId newEmail selector digest ttl locale).bind fun r =>
        .pure (.request r.1 r.2)
  | .resendEmailChange nonce userId selector digest ttl locale =>
      (resendEmailChange box nonce userId selector digest ttl locale).bind fun r =>
        .pure (.request r.1 r.2)
  | .completeEmailChange nonce userId requestId digest locale ttl =>
      (completeEmailChange box nonce userId requestId digest locale ttl).bind fun r =>
        .pure (.code r)
  | .mutateUserLifecycle actorId userId revision action =>
      (mutateUserLifecycle actorId userId revision action).bind fun _ => .pure .done
  | .createRole actorId name canonical description permissions =>
      (createRole actorId name canonical description permissions).bind fun id =>
        .pure (.created id)
  | .replaceRole actorId id revision name canonical description permissions =>
      (replaceRole actorId id revision name canonical description permissions).bind fun _ =>
        .pure .done
  | .deleteRole actorId id => (deleteRole actorId id).bind fun _ => .pure .done
  | .replaceUserRoles actorId userId version roleIds =>
      (replaceUserRoles actorId userId version roleIds).bind fun _ => .pure .done
  | .revokeUserSessions actorId userId =>
      (revokeUserSessions actorId userId).bind fun _ => .pure .done
  | .createInvitation nonce actorId name email locale roleIds selector digest ttl =>
      (createInvitation box nonce actorId name email locale roleIds selector digest ttl).bind
        fun id => .pure (.created id)
  | .resendInvitation nonce actorId id locale selector digest ttl =>
      (resendInvitation box nonce actorId id locale selector digest ttl).bind fun _ => .pure .done
  | .revokeInvitation actorId id => (revokeInvitation actorId id).bind fun _ => .pure .done
  | .completeInvitation selector digest hash locale =>
      (completeInvitation selector digest hash locale).bind fun _ => .pure .done
  | .updateUserName userId name => (updateUserName userId name).bind fun _ => .pure .done
  | .updateUserLocale userId locale => (updateUserLocale userId locale).bind fun _ => .pure .done
  | .saveSystemIdentity revision name =>
      (saveSystemIdentity revision name).bind fun _ => .pure .done
  | .sweepMail => sweepAuthorities.bind fun _ => .pure .done
  | .createSession tokenDigest userId version idle absolute clockFirst =>
      (createSession tokenDigest userId version idle absolute clockFirst).bind fun _ => .pure .done
  | .resolveAndTouch tokenDigest idle =>
      (resolveAndTouch tokenDigest idle).bind fun r => .pure (.resolved r)
  | .resolve tokenDigest => (resolve tokenDigest).bind fun r => .pure (.resolved r)
  | .deleteSession tokenDigest => (deleteSession tokenDigest).bind fun _ => .pure .done
  | .cleanupSessions limit => (cleanupSessions limit).bind fun _ => .pure .done
  | .findPublicAccount userId => (publicAccount userId).bind fun u => .pure (.account userId u)
  | .findByCanonicalEmail canonical =>
      (accountByEmail canonical).bind fun x => .pure (.account x.1 x.2)
  | .initializeLocale userId locale =>
      (initializeLocale userId locale).bind fun u => .pure (.account userId u)

/-- A transaction whose first statement reads the time `now`. -/
def started (now : Instant) (p : Txn Reply) : Txn Reply := do
  let s ← Tx.snapshot
  Tx.require (s.clock = now) .database
  p

/-- What runs. -/
def body (box : Sealer) (op : Op) (now : Instant) : Txn Reply := started now (program box op)

/-! ## The system -/

/-- What the first setup is given. -/
structure Installation where
  clock : Instant
  name : Name
  email : Email
  passwordHash : String
  locale : String

/-- The roles that the migrations insert. -/
def seedRoles : List (ℕ × Role) :=
  [(0, ⟨some "super_admin", "Super Admin", "super admin",
      "Full access to every permission in the live catalog.", 1, []⟩),
    (1, ⟨none, "Operator", "operator", "Can perform normal IP binding releases.", 1, []⟩),
    (2, ⟨none, "Admin", "admin", "Can administer bind-plane and force a release.", 1,
      ["online-users.read", "online-users.write", "users.read", "users.write", "roles.read",
        "roles.write", "invitations.read", "invitations.write", "settings.read", "settings.write",
        "operation-logs.read", "mail-tasks.read", "mail-tasks.write"]⟩)]

/-- The store behind the first setup. -/
def Db.installed (x : Installation) : Db where
  clock := x.clock
  users := (∅ : Table User).insert 3
    ⟨x.name, x.email, x.passwordHash, 1, none, some (localeOr x.locale), [0]⟩
  sessions := ∅
  resets := ∅
  emailChanges := ∅
  invitations := ∅
  roles := (∅ : Table Role).insertAll seedRoles
  identity := some ⟨⟨"Bind Plane", by decide, by decide⟩, 2⟩
  outbox := ∅
  journal := []

/-- The state of the auth service: the store and the transactions on it. -/
abbrev Accounts := Sys ℕ Db Key Op Instant Failure Reply

/-- The state behind the first setup. -/
def Accounts.initial (x : Installation) : Accounts := Sys.init (Db.installed x) 4

/-- A state that some run leads to.

The first setup has created one account, a super admin, and one system role.  Everything else has
been done by transactions of the run, in any interleaving. -/
def Accounts.Reachable (box : Sealer) (s : Accounts) : Prop :=
  ∃ x, Sys.Steps (body box) (Accounts.initial x) s

end BindPlane.Auth
