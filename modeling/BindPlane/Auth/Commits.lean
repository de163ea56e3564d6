import BindPlane.Auth.Interference

/-!
# What a commit does

`Effect` says for every operation what its commit does to the store it finds, the locks that are
held then and what is known of the rows it is about.  It is a number of moves under those locks
(`Effect.moves`).

**Time.**  A transaction reads the clock at some of its statements, and the rows it writes have the
times that it has read.  All that is known of such a time is that it lies between the begin of the
transaction and its commit (`Moment`).

**Source.**  What is modelled here is in `internal/auth/domain/access.go`.
-/

namespace BindPlane.Auth

open ReadCommitted
open Mail (Bytes MailTask)
open Settings (trimSpace)

/-! ## What is known at the end of a transaction -/

/-- A moment of a transaction that began at `now` and ends on the store `d`. -/
def Moment (now : Instant) (d : Db) (t : Instant) : Prop := now ≤ t ∧ t ≤ d.clock

/-- What `mailTaskSystemName` returns. -/
def validSystemName (systemName : String) : Prop :=
  trimSpace systemName ≠ "" ∧ breaksLine systemName = false

/-- **A mail that is queued**: sealed with a name of the system, under a new number.

The name of the system is read in the same transaction, and stands in the mail.  A mail is sealed
before it is stored, under a nonce that the caller has drawn; `box` is the sealing, and may fail. -/
structure Mailed (box : Sealer) (K : Set (Resource Key)) (d : Db) (nonce : Bytes)
    (subject : MailSubject) (material : String → MailTaskMaterial) (id : ℕ) (t : MailTask) :
    Prop where
  serial : .serial id ∈ K
  fresh : d.outbox.get? id = none
  row : ∃ systemName ciphertext queuedAt, validSystemName systemName ∧
    box nonce (material systemName) = some ciphertext ∧
      t = ((material systemName).task subject ciphertext).row queuedAt

/-- An enabled account, and its lock. -/
structure Holds (K : Set (Resource Key)) (d : Db) (userId : ℕ) (user : User) : Prop where
  key : .key (.user userId) ∈ K
  row : d.users.get? userId = some user
  enabled : user.enabled = true

/-- No account but `userId` has the address, and nobody is invited under it. -/
structure Db.Vacant (d : Db) (canonical : String) (userId : ℕ) : Prop where
  user : ∀ id u, d.users.get? id = some u → u.email.canonical = canonical → id = userId
  invitation : ∀ id i, d.invitations.get? id = some i → i.email.canonical ≠ canonical

/-- The authority of an actor. -/
def Db.authority (d : Db) (actorId : ℕ) : Authority :=
  ⟨(d.roleIdsForUser actorId).contains superRole, d.permissionsOf (d.roleIdsForUser actorId)⟩

/-- **An actor may do it**: its account is enabled, and its roles have the permissions; and nobody's
roles and standing move any more.

The actor is looked at behind the lock of the system role.  This lock is taken by everybody who
changes roles or who has them, so that the answer cannot change between the check and the commit. -/
structure Authorized (K : Set (Resource Key)) (d : Db) (actorId : ℕ) (required : List String) :
    Prop where
  super : .key (.role superRole) ∈ K
  actor : ∃ u, d.users.get? actorId = some u ∧ u.enabled = true
  has : (d.authority actorId).has required = true

/-- The roles are no system roles and have no permission that the actor does not have, unless it is
a super admin. -/
def Db.Grants (d : Db) (actorId : ℕ) (roleIds : List ℕ) : Prop :=
  (d.authority actorId).superAdmin = true ∨ ∀ id ∈ roleIds, ∃ r, d.roles.get? id = some r ∧
    r.systemKey = none ∧ (d.authority actorId).contains r.permissions = true

/-- Somebody else is enabled and a super admin. -/
def Db.OtherAdmin (d : Db) (userId : ℕ) : Prop :=
  ∃ id u, id ≠ userId ∧ d.users.get? id = some u ∧ u.enabled = true ∧ superRole ∈ u.roles

/-- A user whose standing may be changed: `revision` is its version, and it is not the last super
admin where its standing `ends`.

The lock of the system role is part of it: without it the number of super admins could change
between the check and the commit. -/
structure Target (K : Set (Resource Key)) (d : Db) (userId revision : ℕ) (user : User)
    (ends : Prop) : Prop where
  key : .key (.user userId) ∈ K
  super : .key (.role superRole) ∈ K
  row : d.users.get? userId = some user
  version : user.authVersion = revision
  other : ends → user.enabled = true → superRole ∈ user.roles → d.OtherAdmin userId

/-- A request whose code is still good: it can be presented.

That it has not expired is a statement about a moment since the transaction began, and not about the
clock of the commit. -/
structure Presentable (K : Set (Resource Key)) (now : Instant) (d : Db) (userId requestId : ℕ)
    (r : EmailChangeRequest) : Prop where
  key : .key (.emailChange requestId) ∈ K
  row : d.emailChanges.get? requestId = some r
  user : r.userId = userId
  unexpired : ∃ t, Moment now d t ∧ t < r.expiresAt
  attempts : 0 < r.attemptsRemaining

/-- Another code may be issued at `t`: the last one, if it has not been used, was issued a minute
ago or has expired. -/
def Db.CodeDue (d : Db) (userId : ℕ) (t : Instant) : Prop :=
  ∀ issuedAt expiresAt, lastWord (Event.codeOfUser userId) d.journal =
    some (some (issuedAt, expiresAt)) → min (issuedAt + resendInterval) expiresAt ≤ t

/-! ## The effects -/

/-- Whether an operation that replies so has only read. -/
def Op.reads : Op → Reply → Bool
  | .resolveAndTouch _ _, .resolved none => true
  | .resolve _, .resolved _ => true
  | .findPublicAccount _, .account _ _ => true
  | .findByCanonicalEmail _, .account _ _ => true
  | .initializeLocale _ _, .account _ _ => true
  | _, _ => false

/-- **The effect of a commit.**

There is one constructor for each way in which an operation commits, and it says three things: what
was found, under which locks, and what is left.  The first two are what the checks of the code come
to at the moment of the commit; whatever a transaction had checked earlier and without a lock is not
among them. -/
inductive Effect (box : Sealer) (now : Instant) (K : Set (Resource Key)) (d : Db) :
    Op → Db → Reply → Prop
  | elapsed (time : ℕ) :
      Effect box now K d (.elapse time) { d with clock := d.clock + time } .done
  /-- No enabled account has the address. -/
  | unknown (nonce canonical selector digest ttl locale) :
      Effect box now K d (.requestPasswordReset nonce canonical selector digest ttl locale) d .done
  | resetIssued (nonce canonical selector digest ttl locale) (userId : ℕ) (user : User)
      (t t₁ : Instant) (id : ℕ) (task : MailTask) (huser : Holds K d userId user)
      (hcanonical : user.email.canonical = canonical) (hkey : .key (.reset userId) ∈ K)
      (ht : Moment now d t) (httl : 0 < ttl)
      (hmail : Mailed box K d nonce (.ofReset userId)
        (resetMaterial user ⟨selector, digest, t + ttl, t⟩ selector digest locale) id task) :
      Effect box now K d (.requestPasswordReset nonce canonical selector digest ttl locale)
        ((((d.supersede (resetMailOf userId) t₁ "superseded").putReset userId
          ⟨selector, digest, t + ttl, t⟩).addMail id task).record
            (.resetIssued userId selector digest (t + ttl))) .done
  | passwordReset (nonce selector digest hash locale ttl) (userId : ℕ) (user : User)
      (r : PasswordReset) (t t₁ t₂ : Instant) (id : ℕ) (task : MailTask)
      (huser : Holds K d userId user) (hkey : .key (.reset userId) ∈ K)
      (hrow : d.resets.get? userId = some r) (hselector : r.selector = selector)
      (hdigest : r.verifierDigest = digest) (ht : Moment now d t) (hexpiry : t < r.expiresAt)
      (hmail : Mailed box K d nonce (.ofUser userId) (noticeMaterial .passwordChanged
        user.name.value user.email.display locale t₂ (t₂ + ttl)) id task) :
      Effect box now K d (.completePasswordReset nonce selector digest hash locale ttl)
        (((((d.supersede (resetMailOf userId) t₁ "superseded").modifyUser userId
          (User.setPassword hash)).deleteResets [userId]).addMail id task).record
            (.passwordReset userId selector digest hash)) (.changedAt t₂)
  | passwordChanged (nonce userId version hash locale ttl) (user : User) (t₁ t₂ : Instant)
      (id : ℕ) (task : MailTask) (huser : Holds K d userId user)
      (hkey : .key (.reset userId) ∈ K) (hversion : user.authVersion = version)
      (hmail : Mailed box K d nonce (.ofUser userId) (noticeMaterial .passwordChanged
        user.name.value user.email.display (localeOr locale) t₂ (t₂ + noticeTTL ttl)) id task) :
      Effect box now K d (.changePassword nonce userId version hash locale ttl)
        (((((d.supersede (resetMailOf userId) t₁ "superseded").modifyUser userId
          (User.setPassword hash)).deleteResets [userId]).addMail id task).record
            (.passwordChanged userId)) (.changedAt t₂)
  | codeIssued (nonce userId newEmail selector digest ttl locale) (user : User)
      (previous : Option (ℕ × EmailChangeRequest)) (t t₁ t₂ : Instant) (requestId id : ℕ)
      (task : MailTask) (huser : Holds K d userId user)
      (haddress : .key (.address newEmail.canonical) ∈ K)
      (hvacant : d.Vacant newEmail.canonical userId)
      (hprevious : ∀ p ∈ previous, .key (.emailChange p.1) ∈ K ∧
        d.emailChanges.get? p.1 = some p.2 ∧ p.2.userId = userId ∧ p.2.resendAfter ≤ t)
      (hall : ∀ i x, d.emailChanges.get? i = some x → x.userId = userId →
        i ∈ (previous.map Prod.fst).toList)
      (hgap : d.CodeDue userId t) (ht : Moment now d t) (hserial : .serial requestId ∈ K)
      (hfresh : Others.Fresh d requestId)
      (hmail : Mailed box K d nonce (.ofEmailChange userId requestId) (codeMaterial user
        (newRequest userId user.email newEmail selector digest ttl previous t) t₂ locale) id task) :
      Effect box now K d (.requestEmailChange nonce userId newEmail selector digest ttl locale)
        (((((d.supersede (codeMailOf userId) t₁ "superseded").deleteEmailChanges
          (previous.map Prod.fst).toList).addEmailChange requestId
            (newRequest userId user.email newEmail selector digest ttl previous t)).record
              ((newRequest userId user.email newEmail selector digest ttl previous t).issued
                requestId t)).addMail id task)
        (.request requestId (newRequest userId user.email newEmail selector digest ttl previous t))
  | codeReissued (nonce userId selector digest ttl locale) (user : User) (requestId : ℕ)
      (r : EmailChangeRequest) (t t₁ t₂ : Instant) (id : ℕ) (task : MailTask)
      (huser : Holds K d userId user) (hr : Presentable K now d userId requestId r)
      (hresend : r.resendAfter ≤ t) (ht : Moment now d t)
      (hmail : Mailed box K d nonce (.ofEmailChange userId requestId)
        (codeMaterial user (r.reissue selector digest t ttl) t₂ locale) id task) :
      Effect box now K d (.resendEmailChange nonce userId selector digest ttl locale)
        ((((d.supersede (codeMailOf userId) t₁ "superseded").modifyEmailChange requestId
          fun _ => r.reissue selector digest t ttl).record
            ((r.reissue selector digest t ttl).issued requestId t)).addMail id task)
        (.request requestId (r.reissue selector digest t ttl))
  | wrongCode (nonce userId requestId digest locale ttl) (user : User) (r : EmailChangeRequest)
      (huser : Holds K d userId user) (hr : Presentable K now d userId requestId r)
      (hdigest : r.verifierDigest ≠ digest) (hmore : 1 < r.attemptsRemaining) :
      Effect box now K d (.completeEmailChange nonce userId requestId digest locale ttl)
        ((d.modifyEmailChange requestId EmailChangeRequest.fail).record
          (.wrongCode requestId userId)) (.code .wrong)
  | lastWrongCode (nonce userId requestId digest locale ttl) (user : User)
      (r : EmailChangeRequest) (t₁ : Instant) (huser : Holds K d userId user)
      (hr : Presentable K now d userId requestId r) (hdigest : r.verifierDigest ≠ digest)
      (hlast : r.attemptsRemaining = 1) :
      Effect box now K d (.completeEmailChange nonce userId requestId digest locale ttl)
        (((d.modifyEmailChange requestId EmailChangeRequest.fail).record
          (.wrongCode requestId userId)).supersede (mailOfRequest requestId) t₁
            "invalid_email_change") (.code .exceeded)
  | emailChanged (nonce userId requestId digest locale ttl) (user : User) (r : EmailChangeRequest)
      (t₁ t₂ t₃ : Instant) (id : ℕ) (task : MailTask) (huser : Holds K d userId user)
      (hr : Presentable K now d userId requestId r) (hdigest : r.verifierDigest = digest)
      (hold : user.email.display = r.oldEmail.display) (hkey : .key (.reset userId) ∈ K)
      (haddress : .key (.address r.newEmail.canonical) ∈ K)
      (hvacant : d.Vacant r.newEmail.canonical userId)
      (hmail : Mailed box K d nonce (.ofUser userId) (noticeMaterial .emailChanged user.name.value
        r.oldEmail.display (localeOr locale) t₃ (t₃ + noticeTTL ttl)) id task) :
      Effect box now K d (.completeEmailChange nonce userId requestId digest locale ttl)
        (((((((d.supersede (mailOfRequest requestId) t₁ "superseded").supersede
          (resetMailOf userId) t₂ "superseded").modifyUser userId
            (User.setEmail r.newEmail)).deleteEmailChanges [requestId]).deleteResets
              [userId]).addMail id task).record (.emailChanged requestId userId digest))
        (.code (.changed t₃))
  | deactivated (actorId userId revision : ℕ) (user : User) (sessions : List ℕ) (t t₁ : Instant)
      (hactor : Authorized K d actorId ["users.write"])
      (hself : actorId ≠ userId) (huser : Target K d userId revision user True)
      (henabled : user.enabled = true) (hkey : .key (.reset userId) ∈ K)
      (hsessions : ∀ i ∈ sessions, .key (.session i) ∈ K) :
      Effect box now K d (.mutateUserLifecycle actorId userId revision .deactivate)
        (((((d.modifySessions sessions Session.revoke).modifyUser userId
          (User.setDisabled (some t))).deleteResets [userId]).supersede
          (mailOfUser userId) t₁ "superseded").record (.deactivated userId)) .done
  | reactivated (actorId userId revision : ℕ) (user : User)
      (hactor : Authorized K d actorId ["users.write"])
      (hself : actorId ≠ userId) (huser : Target K d userId revision user False)
      (hdisabled : user.enabled = false) :
      Effect box now K d (.mutateUserLifecycle actorId userId revision .reactivate)
        ((d.modifyUser userId (User.setDisabled none)).record (.reactivated userId)) .done
  | deleted (actorId userId revision : ℕ) (user : User) (created requests sessions : List ℕ)
      (t₁ : Instant) (hactor : Authorized K d actorId ["users.write"])
      (hself : actorId ≠ userId) (huser : Target K d userId revision user True)
      (hkey : .key (.reset userId) ∈ K)
      (hcreated : ∀ i ∈ created, .key (.invitation i) ∈ K)
      (hrequests : ∀ i ∈ requests, .key (.emailChange i) ∈ K)
      (hall : ∀ i x, d.emailChanges.get? i = some x → x.userId = userId → i ∈ requests)
      (hown : ∀ i ∈ requests, ∀ x, d.emailChanges.get? i = some x → x.userId = userId)
      (hsessions : ∀ i ∈ sessions, .key (.session i) ∈ K) :
      Effect box now K d (.mutateUserLifecycle actorId userId revision .delete)
        (((((((d.clearCreator userId created).supersede (mailOfUser userId) t₁
          "superseded").deleteEmailChanges requests).deleteSessions sessions).deleteResets
            [userId]).deleteUser userId).record (.deleted userId)) .done
  | roleCreated (actorId : ℕ) (name canonical description : String) (permissions : List String)
      (id : ℕ) (hactor : Authorized K d actorId ["roles.read", "roles.write"])
      (hhas : (d.authority actorId).has permissions = true) (hserial : .serial id ∈ K)
      (hfresh : Others.Fresh d id) :
      Effect box now K d (.createRole actorId name canonical description permissions)
        (d.addRole id ⟨none, name, canonical, description, 1, permissions⟩) (.created id)
  | roleReplaced (actorId id revision : ℕ) (name canonical description : String)
      (permissions : List String) (role : Role) (holders : List ℕ)
      (hactor : Authorized K d actorId ["roles.read", "roles.write"])
      (hrow : d.roles.get? id = some role) (hsystem : role.systemKey = none)
      (hrevision : role.revision = revision) (hkey : .key (.role id) ∈ K)
      (hhas : (d.authority actorId).has (role.permissions ++ permissions) = true)
      (hholders : ∀ i ∈ holders, .key (.user i) ∈ K)
      (hall : samePermissionSet role.permissions permissions = true ∨
        ∀ i u, d.users.get? i = some u → id ∈ u.roles → i ∈ holders) :
      Effect box now K d (.replaceRole actorId id revision name canonical description permissions)
        ((d.modifyRole id (Role.replace name canonical description permissions)).bumpVersions
          holders) .done
  | roleDeleted (actorId id : ℕ) (role : Role)
      (hactor : Authorized K d actorId ["roles.read", "roles.write"])
      (hrow : d.roles.get? id = some role) (hsystem : role.systemKey = none)
      (hkey : .key (.role id) ∈ K) (hhas : (d.authority actorId).has role.permissions = true)
      (hunused : ∀ i u, d.users.get? i = some u → id ∉ u.roles) :
      Effect box now K d (.deleteRole actorId id) (d.deleteRole id) .done
  | rolesReplaced (actorId userId version : ℕ) (roleIds : List ℕ) (user : User) (changed : Bool)
      (hactor : Authorized K d actorId ["users.write", "roles.read"])
      (huser : Target K d userId version user (superRole ∉ roleIds))
      (hgrants : d.Grants actorId (changedRoleIds user.roles roleIds))
      (hchanged : changed = true ∨ user.roles.Perm roleIds)
      (hroles : ∀ i ∈ roleIds, ∃ r, d.roles.get? i = some r) :
      Effect box now K d (.replaceUserRoles actorId userId version roleIds)
        (d.modifyUser userId (User.setRoles roleIds changed)) .done
  | sessionsRevoked (actorId userId : ℕ) (hactor : Authorized K d actorId ["online-users.write"])
      (hkey : .key (.user userId) ∈ K) :
      Effect box now K d (.revokeUserSessions actorId userId) (d.bumpVersions [userId]) .done
  | invited (nonce actorId name email locale roleIds selector digest ttl) (t : Instant)
      (invitationId id : ℕ) (task : MailTask)
      (hactor : Authorized K d actorId ["invitations.write", "roles.read"])
      (hgrants : d.Grants actorId roleIds)
      (haddress : .key (.address email.canonical) ∈ K)
      (huser : ∀ i u, d.users.get? i = some u → u.email.canonical ≠ email.canonical)
      (hnone : ∀ i x, d.invitations.get? i = some x → x.email.canonical ≠ email.canonical)
      (ht : Moment now d t) (httl : 0 < ttl) (hserial : .serial invitationId ∈ K)
      (hfresh : Others.Fresh d invitationId)
      (hmail : Mailed box K d nonce (.ofInvitation invitationId) (invitationMaterial
        (newInvitation actorId name email locale roleIds selector digest ttl t)) id task) :
      Effect box now K d
        (.createInvitation nonce actorId name email locale roleIds selector digest ttl)
        (((d.addInvitation invitationId
          (newInvitation actorId name email locale roleIds selector digest ttl t)).record
            ((newInvitation actorId name email locale roleIds selector digest ttl t).issued
              invitationId)).addMail id task) (.created invitationId)
  | reinvited (nonce actorId invitationId locale selector digest ttl) (i : Invitation)
      (t t₁ : Instant) (id : ℕ) (task : MailTask)
      (hactor : Authorized K d actorId ["invitations.write", "roles.read"])
      (hgrants : d.Grants actorId i.roles) (hkey : .key (.invitation invitationId) ∈ K)
      (hrow : d.invitations.get? invitationId = some i) (ht : Moment now d t) (httl : 0 < ttl)
      (hmail : Mailed box K d nonce (.ofInvitation invitationId)
        (invitationMaterial (i.reissue selector digest locale t ttl)) id task) :
      Effect box now K d
        (.resendInvitation nonce actorId invitationId locale selector digest ttl)
        ((((d.supersede (mailOfInvitation invitationId) t₁ "superseded").modifyInvitation
          invitationId fun _ => i.reissue selector digest locale t ttl).addMail id task).record
            (.reinvited invitationId selector digest (t + ttl))) .done
  | revoked (actorId invitationId : ℕ) (i : Invitation) (t₁ : Instant)
      (hactor : Authorized K d actorId ["invitations.write", "roles.read"])
      (hkey : .key (.invitation invitationId) ∈ K)
      (hrow : d.invitations.get? invitationId = some i) :
      Effect box now K d (.revokeInvitation actorId invitationId)
        (((d.supersede (mailOfInvitation invitationId) t₁ "superseded").deleteInvitation
          invitationId).record (.revoked invitationId)) .done
  | accepted (selector digest hash locale) (invitationId : ℕ) (i : Invitation) (t t₁ : Instant)
      (userId : ℕ) (hkey : .key (.invitation invitationId) ∈ K)
      (hrow : d.invitations.get? invitationId = some i)
      (hdigest : i.verifierDigest = digest) (ht : Moment now d t) (hexpiry : t < i.expiresAt)
      (hroles : i.roles ≠ [])
      (hlocked : ∀ j ∈ i.roles, .key (.role j) ∈ K ∧ ∃ x, d.roles.get? j = some x)
      (haddress : .key (.address i.email.canonical) ∈ K)
      (hnone : ∀ j u, d.users.get? j = some u → u.email.canonical ≠ i.email.canonical)
      (hserial : .serial userId ∈ K) (hfresh : d.users.get? userId = none) :
      Effect box now K d (.completeInvitation selector digest hash locale)
        ((((d.supersede (mailOfInvitation invitationId) t₁ "superseded").addUser userId
          ⟨i.name, i.email, hash, 1, none, some (localeOr locale), i.roles⟩).deleteInvitation
            invitationId).record (.accepted invitationId userId selector digest)) .done
  | nameUpdated (userId : ℕ) (name : Name) (user : User) (huser : Holds K d userId user) :
      Effect box now K d (.updateUserName userId name)
        (d.modifyUser userId fun u => { u with name := name }) .done
  | localeUpdated (userId : ℕ) (locale : String) (user : User) (huser : Holds K d userId user) :
      Effect box now K d (.updateUserLocale userId locale)
        (d.modifyUser userId fun u => { u with locale := some locale }) .done
  | localeInitialized (userId : ℕ) (locale : String) (user : User) (huser : Holds K d userId user)
      (hnone : user.locale = none) :
      Effect box now K d (.initializeLocale userId locale)
        (d.modifyUser userId fun u => { u with locale := some locale })
        (.account userId { user with locale := some locale })
  | identitySaved (revision : ℕ) (systemName : Name) :
      Effect box now K d (.saveSystemIdentity revision systemName)
        { d with identity := some ⟨systemName, revision + 1⟩ } .done
  | swept (resets requests : List ℕ)
      (hresets : ∀ i ∈ resets, .key (.reset i) ∈ K ∧
        ∃ r, d.resets.get? i = some r ∧ r.expiresAt ≤ d.clock)
      (hrequests : ∀ i ∈ requests, .key (.emailChange i) ∈ K ∧
        ∃ r, d.emailChanges.get? i = some r ∧ r.expiresAt ≤ d.clock) :
      Effect box now K d .sweepMail
        ((d.deleteResets resets).deleteEmailChanges requests) .done
  /-- A statement that reads. -/
  | read (op : Op) (r : Reply) (hop : op.reads r = true) : Effect box now K d op d r
  | sessionCreated (tokenDigest userId version idle absolute clockFirst) (t : Instant) (id : ℕ)
      (hversion : 0 < version) (hidle : 0 < idle) (habsolute : 0 < absolute) (ht : Moment now d t)
      (hserial : .serial id ∈ K) (hfresh : Others.Fresh d id) :
      Effect box now K d (.createSession tokenDigest userId version idle absolute clockFirst)
        (d.addSession id (newSession tokenDigest userId version idle absolute t)) .done
  | touched (tokenDigest idle) (id : ℕ) (x : Session) (t : Instant)
      (hkey : .key (.session id) ∈ K) (hrow : d.sessions.get? id = some x)
      (hdigest : x.tokenDigest = tokenDigest) (hlive : x.live t = true)
      (hrevoked : x.disabledRevoked = false) (hidle : 0 < idle) (ht : Moment now d t) :
      Effect box now K d (.resolveAndTouch tokenDigest idle)
        (d.modifySessions [id] (Session.touch t idle)) (.resolved (some (x.userId, x.authVersion)))
  | sessionsDeleted (tokenDigest) (ids : List ℕ) (hids : ∀ i ∈ ids, .key (.session i) ∈ K) :
      Effect box now K d (.deleteSession tokenDigest) (d.deleteSessions ids) .done
  | sessionsCleaned (limit) (ids : List ℕ)
      (hids : ∀ i ∈ ids, .key (.session i) ∈ K ∧
        ∃ x, d.sessions.get? i = some x ∧ x.live d.clock = false) :
      Effect box now K d (.cleanupSessions limit) (d.deleteSessions ids) .done

/-! ## Moves -/

section Moves

variable {box : Sealer} {now : Instant} {K : Set (Resource Key)} {d d' : Db} {op : Op} {r : Reply}

/-- One write more, the last one first. -/
private theorem Moves.last {d₁ d₂ : Db} (hmove : Move K d₁ d₂) (h : Moves K d d₁) : Moves K d d₂ :=
  h.tail hmove

theorem mem_singleton_key {key : ℕ → Key} {id : ℕ} (h : .key (key id) ∈ K) :
    ∀ i ∈ [id], Resource.key (key i) ∈ K := by
  intro i hi
  rwa [List.mem_singleton.mp hi]

/-- The update of one account, that leaves its address, its roles and its standing alone. -/
private theorem modifyUser_move {userId : ℕ} {f : User → User} (hkey : .key (.user userId) ∈ K)
    (hf : ∀ u, (f u).email = u.email ∧ (f u).disabledAt = u.disabledAt ∧ (f u).roles = u.roles)
    (hversion : ∀ u, u.authVersion ≤ (f u).authVersion) :
    Move K d (d.modifyUser userId f) :=
  .users _ f (fun _ _ hp => of_decide_eq_true hp ▸ hkey) hf hversion

private theorem bumpVersions_move {ids : List ℕ} (hkey : ∀ i ∈ ids, .key (.user i) ∈ K) :
    Move K d (d.bumpVersions ids) :=
  .users _ _ (fun i _ hp => hkey i (List.contains_iff_mem.mp hp)) (fun _ => ⟨rfl, rfl, rfl⟩)
    fun _ => Nat.le_succ _

/-- An event that says nothing about a code. -/
private theorem record_move {e : Event} (h : e.identity? = none)
    (hcode : ∀ userId, e.codeOfUser userId = none) : Move K d (d.record e) :=
  .record e h fun userId he => absurd (hcode userId) he

/-- An event that ends the code of a user. -/
private theorem record_end {e : Event} {id : ℕ} (h : e.identity? = none)
    (hkey : .key (.user id) ∈ K) (hcode : ∀ userId, id ≠ userId → e.codeOfUser userId = none) :
    Move K d (d.record e) := by
  refine .record e h fun userId he => ?_
  by_cases hid : id = userId
  · exact hid ▸ hkey
  · exact absurd (hcode userId hid) he

private theorem modifyInvitation_move {id : ℕ} {i i' : Invitation}
    (hkey : .key (.invitation id) ∈ K) (hrow : d.invitations.get? id = some i)
    (hsame : i'.identity = i.identity) : Move K d (d.modifyInvitation id fun _ => i') := by
  refine .invitations _ _ (fun _ _ hp => of_decide_eq_true hp ▸ hkey) fun j x hx hp => ?_
  rw [of_decide_eq_true hp, hrow] at hx
  exact Option.some.inj hx ▸ hsame

private theorem clearCreator_move {userId : ℕ} {ids : List ℕ}
    (hkey : ∀ i ∈ ids, .key (.invitation i) ∈ K) : Move K d (d.clearCreator userId ids) := by
  refine .invitations _ _ (fun i _ hp => hkey i ?_) fun _ _ _ _ => rfl
  exact List.contains_iff_mem.mp (Bool.and_eq_true_iff.mp hp).1

/-- The standing of one account, that keeps its roles. -/
private theorem setDisabled_move {userId : ℕ} {t : Option Instant}
    (hkey : .key (.user userId) ∈ K) (hsuper : .key (.role superRole) ∈ K) :
    Move K d (d.modifyUser userId (User.setDisabled t)) :=
  .standing _ _ hkey hsuper (fun _ => rfl) (fun _ => Nat.le_succ _) fun _ _ _ hi => Or.inl hi

/-- **A commit is a number of writes**, under the locks that it holds.

With this an invariant is checked for the moves, and not for the operations.  The locks are those of
the commit: each move finds the one it needs among them. -/
theorem Effect.moves (h : Effect box now K d op d' r) : Moves K d d' := by
  cases h with
  | elapsed time => exact .single (.clock _ (Nat.le_add_right _ _))
  | unknown => exact .refl
  -- from the last move to the first: the event, the mail, the row, the mails it replaces
  | resetIssued =>
      rename_i hkey _ _ hmail
      exact .last (record_move rfl fun _ => rfl) <| .last (.mail _ _ hmail.serial) <|
        .last (.putReset _ _ hkey) <| .single (.supersede _ _ _)
  | passwordReset =>
      rename_i huser hkey _ _ _ _ _ hmail
      exact .last (record_move rfl fun _ => rfl) <| .last (.mail _ _ hmail.serial) <|
        .last (.deleteResets _ (mem_singleton_key hkey)) <|
        .last (modifyUser_move huser.key (fun _ => ⟨rfl, rfl, rfl⟩) fun _ => Nat.le_succ _) <|
        .single (.supersede _ _ _)
  | passwordChanged =>
      rename_i huser hkey _ hmail
      exact .last (record_move rfl fun _ => rfl) <| .last (.mail _ _ hmail.serial) <|
        .last (.deleteResets _ (mem_singleton_key hkey)) <|
        .last (modifyUser_move huser.key (fun _ => ⟨rfl, rfl, rfl⟩) fun _ => Nat.le_succ _) <|
        .single (.supersede _ _ _)
  | codeIssued =>
      rename_i previous t _ _ requestId _ _ huser haddress hvacant hprevious hall hgap ht hserial
        hfresh hmail
      -- the request before this one is locked
      have hkeys : ∀ i ∈ (previous.map Prod.fst).toList, .key (.emailChange i) ∈ K := by
        intro i hi
        obtain ⟨p, hp, rfl⟩ := Option.map_eq_some_iff.mp (Option.mem_toList.mp hi)
        exact (hprevious p hp).1
      refine .last (.mail _ _ hmail.serial) <|
        .last (.issueCode _ _ _ hserial huser.key ?_ hfresh.unborn) <|
        .last (.deleteCodes _ hkeys) <| .single (.supersede _ _ _)
      -- the number is new, and other rows that go leave it so
      show (d.emailChanges.deleteWhere _).get? requestId = none
      rw [Table.get?_deleteWhere, hfresh.emailChange, Option.filter_none]
  | codeReissued =>
      rename_i huser hr _ _ hmail
      exact .last (.mail _ _ hmail.serial) <|
        .last (.reissueCode _ _ _ _ hr.key (hr.user ▸ huser.key) hr.row rfl) <|
        .single (.supersede _ _ _)
  | wrongCode =>
      rename_i hr _ _
      exact .last (record_move rfl fun _ => rfl) <| .single (.failCode _ hr.key)
  | lastWrongCode =>
      rename_i hr _ _
      exact .last (.supersede _ _ _) <| .last (record_move rfl fun _ => rfl) <|
        .single (.failCode _ hr.key)
  | emailChanged =>
      rename_i huser hr _ _ hkey haddress _ hmail
      exact .last (record_end rfl huser.key fun _ hne => if_neg hne) <|
        .last (.mail _ _ hmail.serial) <| .last (.deleteResets _ (mem_singleton_key hkey)) <|
        .last (.deleteCodes _ (mem_singleton_key hr.key)) <|
        .last (.address _ _ huser.key haddress) <| .last (.supersede _ _ _) <|
        .single (.supersede _ _ _)
  | deactivated =>
      rename_i huser _ hkey hsessions
      exact .last (record_move rfl fun _ => rfl) <| .last (.supersede _ _ _) <|
        .last (.deleteResets _ (mem_singleton_key hkey)) <|
        .last (setDisabled_move huser.key huser.super) <| .single (.modifySessions _ _ hsessions)
  | reactivated =>
      rename_i huser _
      exact .last (record_move rfl fun _ => rfl) <|
        .single (setDisabled_move huser.key huser.super)
  -- what refers to the account goes before the account itself
  | deleted =>
      rename_i huser hkey hcreated hrequests _ _ hsessions
      exact .last (record_end rfl huser.key fun _ hne => if_neg hne) <|
        .last (.deleteUser _ huser.key huser.super) <|
        .last (.deleteResets _ (mem_singleton_key hkey)) <| .last (.deleteSessions _ hsessions) <|
        .last (.deleteCodes _ hrequests) <| .last (.supersede _ _ _) <|
        .single (clearCreator_move hcreated)
  | roleCreated =>
      rename_i hactor _ hserial hfresh
      exact .single (.addRole _ _ hserial hactor.super hfresh.role rfl)
  | roleReplaced =>
      rename_i hactor hrow hsystem _ hkey _ hholders _
      exact .last (bumpVersions_move hholders) <|
        .single (.role _ _ _ hkey hactor.super hrow hsystem fun _ => rfl)
  | roleDeleted =>
      rename_i hactor hrow hsystem hkey _ hunused
      exact .single (.deleteRole _ _ hkey hactor.super hrow hsystem hunused)
  | rolesReplaced =>
      rename_i changed _ huser _ _ hroles
      refine .single (.standing _ _ huser.key huser.super (fun _ => rfl) (fun u => ?_)
        fun _ _ i hi => Or.inr (hroles i hi))
      cases changed with
      | true => exact Nat.le_succ _
      | false => exact le_rfl
  | sessionsRevoked =>
      rename_i hkey
      exact .single (bumpVersions_move (mem_singleton_key hkey))
  | invited =>
      rename_i haddress _ _ _ _ hserial hfresh hmail
      exact .last (.mail _ _ hmail.serial) <|
        .single (.invite _ _ hserial haddress hfresh.invitation hfresh.unborn)
  | reinvited =>
      rename_i hkey hrow _ _ hmail
      exact .last (record_move rfl fun _ => rfl) <| .last (.mail _ _ hmail.serial) <|
        .last (modifyInvitation_move hkey hrow rfl) <| .single (.supersede _ _ _)
  | revoked =>
      rename_i hkey _
      exact .last (record_move rfl fun _ => rfl) <| .last (.deleteInvitation _ hkey) <|
        .single (.supersede _ _ _)
  | accepted =>
      rename_i hkey _ _ _ _ _ hlocked haddress _ hserial hfresh
      exact .last (record_move rfl fun _ => rfl) <| .last (.deleteInvitation _ hkey) <|
        .last (.addUser _ _ hserial haddress hfresh hlocked) <| .single (.supersede _ _ _)
  | nameUpdated =>
      rename_i huser
      exact .single (modifyUser_move huser.key (fun _ => ⟨rfl, rfl, rfl⟩) fun _ => le_rfl)
  | localeUpdated =>
      rename_i huser
      exact .single (modifyUser_move huser.key (fun _ => ⟨rfl, rfl, rfl⟩) fun _ => le_rfl)
  | localeInitialized =>
      rename_i huser _
      exact .single (modifyUser_move huser.key (fun _ => ⟨rfl, rfl, rfl⟩) fun _ => le_rfl)
  | identitySaved => exact .single (.identity _)
  | swept _ _ hresets hrequests =>
      exact .last (.deleteCodes _ fun i hi => (hrequests i hi).1) <|
        .single (.deleteResets _ fun i hi => (hresets i hi).1)
  | read => exact .refl
  | sessionCreated =>
      rename_i hserial hfresh
      exact .single (.addSession _ _ hserial hfresh.session)
  | touched =>
      rename_i hkey _ _ _ _ _ _
      exact .single (.modifySessions _ _ (mem_singleton_key hkey))
  | sessionsDeleted _ _ hids => exact .single (.deleteSessions _ hids)
  | sessionsCleaned _ _ hids => exact .single (.deleteSessions _ fun i hi => (hids i hi).1)

end Moves

end BindPlane.Auth
