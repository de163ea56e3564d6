import BindPlane.Auth.Commits
import BindPlane.ReadCommitted.Journal

/-!
# What the journal says

An authority is what its last issue says, unless it has been used, replaced or taken away since.
The rows of the store never say anything else (`Db.Recorded`): a row may be missing, since the sweep
takes away what has expired, but a row that is there is the last issue.

So what a transaction finds in a row it finds in the journal, and every event is one that the
journal before it allows (`Event.Allowed`): a token is presented behind its issue, no more than five
wrong codes behind one code, and the next code not before it is due.

**Why a journal.**  What a user was promised by a mail outlives the row: nobody can be shown by the
tables of today that a link of yesterday was used once.  The journal can, and the results about
links and codes are statements about it (`BindPlane.ReadCommitted.Journal`), which the commits of a
run merely instantiate.
-/

namespace BindPlane.Auth

open ReadCommitted
open Mail (Bytes MailTask)

/-- An issued authority. -/
structure Issue where
  selector : Bytes
  verifierDigest : Bytes
  expiresAt : Instant
  deriving DecidableEq

namespace Event

/-- What an event says about the reset of a user: what was issued, or that it is over. -/
def resetOf (userId : ℕ) : Event → Option (Option Issue)
  | .resetIssued id selector digest expiresAt =>
      if id = userId then some (some ⟨selector, digest, expiresAt⟩) else none
  | .passwordReset id _ _ _ | .passwordChanged id | .emailChanged _ id _ | .deactivated id
  | .deleted id => if id = userId then some none else none
  | _ => none

/-- What an event says about an invitation: what was issued, or that it is over. -/
def invitationOf (invitationId : ℕ) : Event → Option (Option Issue)
  | .invited id _ _ _ selector digest expiresAt | .reinvited id selector digest expiresAt =>
      if id = invitationId then some (some ⟨selector, digest, expiresAt⟩) else none
  | .revoked id | .accepted id _ _ _ => if id = invitationId then some none else none
  | _ => none

/-- What an event says about a request for another address: the user, both addresses and the last
code, or that it is over. -/
def codeOf (requestId : ℕ) : Event → Option (Option ((ℕ × Email × Email) × Issue))
  | .codeIssued id userId oldEmail newEmail selector digest _ expiresAt =>
      if id = requestId then some (some ((userId, oldEmail, newEmail), ⟨selector, digest, expiresAt⟩))
      else none
  | .emailChanged id _ _ => if id = requestId then some none else none
  | _ => none

/-- A code is issued to a user. -/
def issuesCode (userId : ℕ) : Event → Bool
  | .codeIssued _ id .. => id = userId
  | _ => false

/-- A user presents a wrong code. -/
def wrongFor (userId : ℕ) : Event → Bool
  | .wrongCode _ id => id = userId
  | _ => false

/-- The wrong codes of a user behind the last one issued. -/
def wrongCodes (userId : ℕ) (journal : List Event) : ℕ :=
  tallySince (issuesCode userId) (wrongFor userId) journal

/-- **An event that the journal before it allows.** -/
def Allowed (before : List Event) : Event → Prop
  | .passwordReset userId selector digest _ =>
      ∃ expiresAt, lastWord (resetOf userId) before = some (some ⟨selector, digest, expiresAt⟩)
  | .codeIssued id userId _ _ _ _ issuedAt expiresAt =>
      lastWord (codeOf id) before ≠ some none ∧ issuedAt ≤ expiresAt ∧
        ∀ earlier expiry, lastWord (codeOfUser userId) before = some (some (earlier, expiry)) →
          min (earlier + resendInterval) expiry ≤ issuedAt
  | .wrongCode id userId => ∃ c, lastWord (codeOf id) before = some (some c) ∧ c.1.1 = userId ∧
      wrongCodes userId before < emailChangeAttempts
  | .emailChanged id userId digest => ∃ c, lastWord (codeOf id) before = some (some c) ∧
      c.1.1 = userId ∧ c.2.verifierDigest = digest ∧ wrongCodes userId before < emailChangeAttempts
  | .invited id .. => lastWord (invitationOf id) before = none
  | .reinvited id .. | .revoked id => ∃ i, lastWord (invitationOf id) before = some (some i)
  | .accepted id _ _ digest => ∃ i, lastWord (invitationOf id) before = some (some i) ∧
      i.verifierDigest = digest
  | _ => True

end Event

/-- What a row of `auth_password_resets` says. -/
def PasswordReset.issue (r : PasswordReset) : Issue := ⟨r.selector, r.verifierDigest, r.expiresAt⟩

/-- What a row of `auth_user_invitations` says. -/
def Invitation.issue (i : Invitation) : Issue := ⟨i.selector, i.verifierDigest, i.expiresAt⟩

/-- What a row of `auth_email_change_requests` says. -/
def EmailChangeRequest.issue (r : EmailChangeRequest) : (ℕ × Email × Email) × Issue :=
  ((r.userId, r.oldEmail, r.newEmail), ⟨r.selector, r.verifierDigest, r.expiresAt⟩)

/-- The reset of a user, as the journal says. -/
def Db.resetAuthority (d : Db) (userId : ℕ) : Option (Option Issue) :=
  lastWord (Event.resetOf userId) d.journal

/-- An invitation, as the journal says. -/
def Db.invitationAuthority (d : Db) (id : ℕ) : Option (Option Issue) :=
  lastWord (Event.invitationOf id) d.journal

/-- **The row of a request says what the journal says**: its last code, when it was issued, and how
many attempts are left.

The attempts are counted down in the row and counted up in the journal, and the sum is constant.  A
new code sets both back, since wrong codes are counted from the last issue on. -/
structure Db.RequestRecorded (journal : List Event) (id : ℕ) (r : EmailChangeRequest) : Prop where
  code : lastWord (Event.codeOf id) journal = some (some r.issue)
  user : ∃ issuedAt, lastWord (Event.codeOfUser r.userId) journal =
    some (some (issuedAt, r.expiresAt)) ∧ r.resendAfter = issuedAt + resendInterval
  attempts : r.attemptsRemaining + Event.wrongCodes r.userId journal = emailChangeAttempts

/-- **The rows say what the journal says.**

This is what ties the two accounts together.  A transaction reads a row and commits an event, and
only with this does the event follow from the journal before it: the row that was presented was the
last issue.  The converse is not true, since rows are removed. -/
structure Db.Recorded (d : Db) : Prop where
  reset : ∀ userId r, d.resets.get? userId = some r → d.resetAuthority userId = some (some r.issue)
  invitation : ∀ id i, d.invitations.get? id = some i →
    d.invitationAuthority id = some (some i.issue)
  request : ∀ id r, d.emailChanges.get? id = some r → Db.RequestRecorded d.journal id r
  /-- One request a user. -/
  single : ∀ i j x y, d.emailChanges.get? i = some x → d.emailChanges.get? j = some y →
    x.userId = y.userId → i = j
  /-- Where there is no request, another code may be issued. -/
  due : ∀ userId, (∃ id r, d.emailChanges.get? id = some r ∧ r.userId = userId) ∨
    d.CodeDue userId d.clock
  lawful : Lawful Event.Allowed d.journal

/-- An event that is not about a request, nor about its user. -/
theorem Db.RequestRecorded.silent {journal : List Event} {id : ℕ} {x : EmailChangeRequest}
    {e : Event} (h : Db.RequestRecorded journal id x) (hcode : e.codeOf id = none)
    (huser : e.codeOfUser x.userId = none) (hwrong : e.wrongFor x.userId = false) :
    Db.RequestRecorded (journal ++ [e]) id x := by
  have hissue : e.issuesCode x.userId = false := by
    cases e with
    | codeIssued i userId =>
        refine decide_eq_false fun hi => ?_
        rw [show (Event.codeIssued i userId _ _ _ _ _ _).codeOfUser x.userId = _ from if_pos hi]
          at huser
        cases huser
    | _ => rfl
  refine ⟨(lastWord_concat_of_none hcode).trans h.code, ?_, ?_⟩
  · rw [lastWord_concat_of_none huser]
    exact h.user
  · unfold Event.wrongCodes
    rw [tallySince_concat, hissue, hwrong]
    exact h.attempts

/-- One more wrong code. -/
theorem Db.RequestRecorded.fail {journal : List Event} {id : ℕ} {x : EmailChangeRequest}
    (h : Db.RequestRecorded journal id x) (hattempts : 0 < x.attemptsRemaining) :
    Db.RequestRecorded (journal ++ [.wrongCode id x.userId]) id x.fail := by
  refine ⟨(lastWord_concat_of_none rfl).trans h.code, ?_, ?_⟩
  · rw [lastWord_concat_of_none rfl]
    exact h.user
  · have hbefore := h.attempts
    unfold Event.wrongCodes at hbefore ⊢
    rw [tallySince_concat]
    simp only [Event.issuesCode, Event.wrongFor, decide_true, if_true, Bool.false_eq_true, if_false,
      EmailChangeRequest.fail]
    omega

/-- A new code. -/
theorem Db.RequestRecorded.issued {journal : List Event} {id : ℕ} {x : EmailChangeRequest}
    {t : Instant} (hresend : x.resendAfter = t + resendInterval)
    (hattempts : x.attemptsRemaining = emailChangeAttempts) :
    Db.RequestRecorded (journal ++ [x.issued id t]) id x := by
  refine ⟨lastWord_concat_of_some (if_pos rfl), ⟨t, lastWord_concat_of_some (if_pos rfl), hresend⟩,
    ?_⟩
  unfold Event.wrongCodes EmailChangeRequest.issued
  rw [tallySince_concat, hattempts]
  simp [Event.issuesCode]

namespace Effect

variable {box : Sealer} {now : Instant} {K : Set (Resource Key)} {d d' : Db} {op : Op} {r : Reply}

/-- The rows of the resets say what the journal says, behind a commit as before. -/
theorem reset_recorded (h : Effect box now K d op d' r)
    (hd : ∀ userId x, d.resets.get? userId = some x →
      d.resetAuthority userId = some (some x.issue)) {userId : ℕ} {x : PasswordReset}
    (hx : d'.resets.get? userId = some x) : d'.resetAuthority userId = some (some x.issue) := by
  -- an event that says nothing about the user
  have hsilent : ∀ e : Event, e.resetOf userId = none → d.resets.get? userId = some x →
      lastWord (Event.resetOf userId) (d.journal ++ [e]) = some (some x.issue) := by
    intro e he hx
    rw [lastWord_concat_of_none he]
    exact hd userId x hx
  -- the end of the reset of one user
  have hends : ∀ (e : Event) (id : ℕ), (d.resets.deleteWhere fun i _ => [id].contains i).get?
      userId = some x → (id ≠ userId → e.resetOf userId = none) →
      lastWord (Event.resetOf userId) (d.journal ++ [e]) = some (some x.issue) := by
    intro e id hx he
    obtain ⟨hx, hid⟩ := deleteWhere_eq_some hx
    refine hsilent e (he ?_) hx
    rintro rfl
    simp at hid
  cases h with
  | resetIssued _ _ selector digest ttl _ id _ t =>
      by_cases hid : id = userId
      · subst hid
        obtain rfl : _ = x := Option.some.inj ((Table.get?_insert_self _ _ _).symm.trans hx)
        exact lastWord_concat_of_some (if_pos rfl)
      · exact hsilent _ (if_neg hid) ((Table.get?_insert_of_ne _ (Ne.symm hid) _).symm.trans hx)
  | passwordReset _ _ _ _ _ _ id => exact hends _ id hx fun hid => if_neg hid
  | passwordChanged _ id => exact hends _ id hx fun hid => if_neg hid
  | emailChanged _ id => exact hends _ id hx fun hid => if_neg hid
  | deactivated _ id => exact hends _ id hx fun hid => if_neg hid
  | deleted _ id => exact hends _ id hx fun hid => if_neg hid
  | codeIssued => exact hsilent _ rfl hx
  | codeReissued => exact hsilent _ rfl hx
  | wrongCode => exact hsilent _ rfl hx
  | lastWrongCode => exact hsilent _ rfl hx
  | reactivated => exact hsilent _ rfl hx
  | invited => exact hsilent _ rfl hx
  | reinvited => exact hsilent _ rfl hx
  | revoked => exact hsilent _ rfl hx
  | accepted => exact hsilent _ rfl hx
  | swept => exact hd userId x (deleteWhere_eq_some hx).1
  | _ => exact hd userId x hx

/-- So do the rows of the invitations. -/
theorem invitation_recorded (h : Effect box now K d op d' r)
    (hd : ∀ id i, d.invitations.get? id = some i → d.invitationAuthority id = some (some i.issue))
    {id : ℕ} {i : Invitation} (hi : d'.invitations.get? id = some i) :
    d'.invitationAuthority id = some (some i.issue) := by
  -- an event that says nothing about the invitation
  have hsilent : ∀ e : Event, e.invitationOf id = none → d.invitations.get? id = some i →
      lastWord (Event.invitationOf id) (d.journal ++ [e]) = some (some i.issue) := by
    intro e he hi
    rw [lastWord_concat_of_none he]
    exact hd id i hi
  -- the end of one invitation
  have hends : ∀ (e : Event) (j : ℕ), (d.invitations.deleteWhere fun k _ => k = j).get? id =
      some i → (j ≠ id → e.invitationOf id = none) →
      lastWord (Event.invitationOf id) (d.journal ++ [e]) = some (some i.issue) := by
    intro e j hi he
    obtain ⟨hi, hj⟩ := deleteWhere_eq_some hi
    exact hsilent e (he fun h => of_decide_eq_false hj h.symm) hi
  cases h with
  | invited _ _ _ _ _ _ _ _ _ _ j =>
      by_cases hj : j = id
      · subst hj
        obtain rfl : _ = i := Option.some.inj ((Table.get?_insert_self _ _ _).symm.trans hi)
        exact lastWord_concat_of_some (if_pos rfl)
      · exact hsilent _ (if_neg hj) ((Table.get?_insert_of_ne _ (Ne.symm hj) _).symm.trans hi)
  | reinvited _ _ j _ _ _ _ i₀ _ _ _ _ _ _ _ hrow =>
      by_cases hj : j = id
      · subst hj
        have hrow' := (Table.get?_modify_self d.invitations j _).symm.trans hi
        rw [hrow] at hrow'
        obtain rfl := Option.some.inj hrow'
        exact lastWord_concat_of_some (if_pos rfl)
      · exact hsilent _ (if_neg hj) ((Table.get?_modify_of_ne _ (Ne.symm hj) _).symm.trans hi)
  | revoked _ j => exact hends _ j hi fun hj => if_neg hj
  | accepted _ _ _ _ j => exact hends _ j hi fun hj => if_neg hj
  | deleted =>
      obtain ⟨i₀, hi₀, ⟨rfl, -⟩ | ⟨rfl, -⟩⟩ := updateWhere_eq_some hi
      · exact hsilent _ rfl hi₀
      · exact (lastWord_concat_of_none rfl).trans (hd id i₀ hi₀)
  | resetIssued => exact hsilent _ rfl hi
  | passwordReset => exact hsilent _ rfl hi
  | passwordChanged => exact hsilent _ rfl hi
  | codeIssued => exact hsilent _ rfl hi
  | codeReissued => exact hsilent _ rfl hi
  | wrongCode => exact hsilent _ rfl hi
  | lastWrongCode => exact hsilent _ rfl hi
  | emailChanged => exact hsilent _ rfl hi
  | deactivated => exact hsilent _ rfl hi
  | reactivated => exact hsilent _ rfl hi
  | _ => exact hd id i hi

/-- So do the rows of the requests. -/
theorem request_recorded (h : Effect box now K d op d' r) (hd : d.Recorded) {id : ℕ}
    {x : EmailChangeRequest} (hx : d'.emailChanges.get? id = some x) :
    Db.RequestRecorded d'.journal id x := by
  -- one more wrong code of a user, who has one request
  have hfail : ∀ {userId requestId : ℕ} {row : EmailChangeRequest},
      Presentable K now d userId requestId row →
      (d.emailChanges.modify requestId EmailChangeRequest.fail).get? id = some x →
      Db.RequestRecorded (d.journal ++ [.wrongCode requestId userId]) id x := by
    intro userId requestId row hr hx
    by_cases hid : requestId = id
    · subst hid
      rw [Table.get?_modify_self, hr.row] at hx
      obtain rfl := Option.some.inj hx
      rw [← hr.user]
      exact (hd.request _ _ hr.row).fail hr.attempts
    · rw [Table.get?_modify_of_ne _ (Ne.symm hid)] at hx
      refine (hd.request id x hx).silent rfl rfl (decide_eq_false fun hu => hid ?_)
      exact hd.single _ _ _ _ hr.row hx (hr.user.trans hu)
  cases h with
  | codeIssued =>
      rename_i userId _ _ _ _ _ _ previous t _ _ requestId _ _ _ _ _ _ hall _ _ _ hfresh _
      rcases insert_eq_some hx with hx | ⟨rfl, rfl⟩
      · obtain ⟨hx, hkept⟩ := deleteWhere_eq_some hx
        have hid : requestId ≠ id := by
          rintro rfl
          exact Option.some_ne_none x (Eq.trans (Eq.symm hx) hfresh.emailChange)
        have huser : userId ≠ x.userId := fun hu =>
          Bool.false_ne_true (hkept.symm.trans (List.contains_iff_mem.mpr (hall id x hx hu.symm)))
        exact (hd.request id x hx).silent (if_neg hid) (if_neg huser) rfl
      · exact .issued rfl rfl
  | codeReissued =>
      rename_i userId _ _ _ _ _ requestId row t _ _ _ _ _ hr _ _ _
      by_cases hid : requestId = id
      · subst hid
        have hrow := (Table.get?_modify_self d.emailChanges requestId _).symm.trans hx
        rw [hr.row] at hrow
        obtain rfl := Option.some.inj hrow
        exact .issued rfl rfl
      · replace hx := (Table.get?_modify_of_ne _ (Ne.symm hid) _).symm.trans hx
        have huser : row.userId ≠ x.userId := fun hu => hid (hd.single _ _ _ _ hr.row hx hu)
        exact (hd.request id x hx).silent (if_neg hid) (if_neg huser) rfl
  | wrongCode =>
      rename_i hr _ _
      exact hfail hr hx
  | lastWrongCode =>
      rename_i hr _ _
      exact hfail hr hx
  | emailChanged =>
      rename_i userId requestId _ _ _ _ row _ _ _ _ _ _ hr _ _ _ _ _ _
      obtain ⟨hx, hkept⟩ := deleteWhere_eq_some hx
      have hid : requestId ≠ id := by
        rintro rfl
        simp at hkept
      have huser : userId ≠ x.userId := fun hu =>
        hid (hd.single _ _ _ _ hr.row hx (hr.user.trans hu))
      exact (hd.request id x hx).silent (if_neg hid) (if_neg huser) rfl
  | deleted =>
      rename_i userId _ _ _ requests _ _ _ _ _ _ _ _ hall _ _
      obtain ⟨hx, hkept⟩ := deleteWhere_eq_some hx
      have huser : userId ≠ x.userId := fun hu =>
        Bool.false_ne_true (hkept.symm.trans (List.contains_iff_mem.mpr (hall id x hx hu.symm)))
      exact (hd.request id x hx).silent rfl (if_neg huser) rfl
  | swept => exact hd.request id x (deleteWhere_eq_some hx).1
  | resetIssued => exact (hd.request id x hx).silent rfl rfl rfl
  | passwordReset => exact (hd.request id x hx).silent rfl rfl rfl
  | passwordChanged => exact (hd.request id x hx).silent rfl rfl rfl
  | deactivated => exact (hd.request id x hx).silent rfl rfl rfl
  | reactivated => exact (hd.request id x hx).silent rfl rfl rfl
  | invited => exact (hd.request id x hx).silent rfl rfl rfl
  | reinvited => exact (hd.request id x hx).silent rfl rfl rfl
  | revoked => exact (hd.request id x hx).silent rfl rfl rfl
  | accepted => exact (hd.request id x hx).silent rfl rfl rfl
  | _ => exact hd.request id x hx

/-- A user has one request at most. -/
theorem single_recorded (h : Effect box now K d op d' r) (hd : d.Recorded) {i j : ℕ}
    {x y : EmailChangeRequest} (hx : d'.emailChanges.get? i = some x)
    (hy : d'.emailChanges.get? j = some y) (huser : x.userId = y.userId) : i = j := by
  -- an update that leaves the user of every request alone
  have hmodify : ∀ (id : ℕ) (f : EmailChangeRequest → EmailChangeRequest),
      (∀ z, d.emailChanges.get? id = some z → (f z).userId = z.userId) →
      (d.emailChanges.modify id f).get? i = some x →
      (d.emailChanges.modify id f).get? j = some y → i = j := by
    intro id f hf hx hy
    obtain ⟨x₀, hx₀, hxx⟩ := modify_eq_some hx
    obtain ⟨y₀, hy₀, hyy⟩ := modify_eq_some hy
    have hx' : x.userId = x₀.userId := by
      obtain rfl | ⟨rfl, rfl⟩ := hxx
      · rfl
      · exact hf _ hx₀
    have hy' : y.userId = y₀.userId := by
      obtain rfl | ⟨rfl, rfl⟩ := hyy
      · rfl
      · exact hf _ hy₀
    exact hd.single i j x₀ y₀ hx₀ hy₀ (hx'.symm.trans (huser.trans hy'))
  cases h with
  | codeIssued =>
      rename_i userId _ _ _ _ _ _ previous t _ _ requestId _ _ _ _ _ _ hall _ _ _ hfresh _
      have hrest : ∀ k z, (d.emailChanges.deleteWhere fun k _ =>
          (previous.map Prod.fst).toList.contains k).get? k = some z →
          d.emailChanges.get? k = some z ∧ z.userId ≠ userId := by
        intro k z hz
        obtain ⟨hz, hkept⟩ := deleteWhere_eq_some hz
        exact ⟨hz, fun hu =>
          Bool.false_ne_true (hkept.symm.trans (List.contains_iff_mem.mpr (hall k z hz hu)))⟩
      rcases insert_eq_some hx with hx₀ | ⟨rfl, rfl⟩
      · rcases insert_eq_some hy with hy₀ | ⟨rfl, rfl⟩
        · exact hd.single i j x y (hrest i x hx₀).1 (hrest j y hy₀).1 huser
        · exact absurd huser (hrest i x hx₀).2
      · rcases insert_eq_some hy with hy₀ | ⟨rfl, rfl⟩
        · exact absurd huser.symm (hrest j y hy₀).2
        · rfl
  | codeReissued =>
      rename_i hr _ _ _
      refine hmodify _ _ (fun z hz => ?_) hx hy
      rw [hr.row] at hz
      obtain rfl := Option.some.inj hz
      rfl
  | wrongCode => exact hmodify _ EmailChangeRequest.fail (fun _ _ => rfl) hx hy
  | lastWrongCode => exact hmodify _ EmailChangeRequest.fail (fun _ _ => rfl) hx hy
  | emailChanged =>
      exact hd.single i j x y (deleteWhere_eq_some hx).1 (deleteWhere_eq_some hy).1 huser
  | deleted =>
      exact hd.single i j x y (deleteWhere_eq_some hx).1 (deleteWhere_eq_some hy).1 huser
  | swept =>
      exact hd.single i j x y (deleteWhere_eq_some hx).1 (deleteWhere_eq_some hy).1 huser
  | _ => exact hd.single i j x y hx hy huser

/-- Where a user has no request, another code may be issued. -/
theorem due_recorded (h : Effect box now K d op d' r) (hd : d.Recorded) (userId : ℕ) :
    (∃ id x, d'.emailChanges.get? id = some x ∧ x.userId = userId) ∨
      d'.CodeDue userId d'.clock := by
  have hclock : d.clock ≤ d'.clock :=
    (Others.of_moves (Set.empty_disjoint _) h.moves).clock_le
  -- nothing is said about the code of this user, and its request stays
  have hkeep : (∀ id x, d.emailChanges.get? id = some x → x.userId = userId →
      ∃ x', d'.emailChanges.get? id = some x' ∧ x'.userId = userId) →
      lastWord (Event.codeOfUser userId) d'.journal = lastWord (Event.codeOfUser userId) d.journal →
      (∃ id x, d'.emailChanges.get? id = some x ∧ x.userId = userId) ∨
        d'.CodeDue userId d'.clock := by
    intro hrequests hword
    rcases hd.due userId with ⟨id, x, hx, huser⟩ | hdue
    · exact Or.inl ⟨id, hrequests id x hx huser⟩
    · refine Or.inr fun issuedAt expiresAt hissued => ?_
      rw [hword] at hissued
      exact (hdue issuedAt expiresAt hissued).trans hclock
  -- the code of this user is over
  have hover : lastWord (Event.codeOfUser userId) d'.journal = some none →
      d'.CodeDue userId d'.clock := by
    intro hword issuedAt expiresAt hissued
    rw [hword] at hissued
    cases hissued
  have hmodify : ∀ (id : ℕ) (f : EmailChangeRequest → EmailChangeRequest),
      (∀ z, d.emailChanges.get? id = some z → (f z).userId = z.userId) → ∀ i x,
      d.emailChanges.get? i = some x → x.userId = userId →
      ∃ x', (d.emailChanges.modify id f).get? i = some x' ∧ x'.userId = userId := by
    intro id f hf i x hx huser
    refine ⟨if i = id then f x else x, ?_, ?_⟩
    · rw [Table.get?_modify, hx]
      split <;> rfl
    · split
      · next hi => exact (hf x (hi ▸ hx)).trans huser
      · exact huser
  have hdelete : ∀ (ids : List ℕ), (∀ i x, d.emailChanges.get? i = some x → x.userId = userId →
      i ∉ ids) → ∀ i x, d.emailChanges.get? i = some x → x.userId = userId →
      ∃ x', (d.emailChanges.deleteWhere fun i _ => ids.contains i).get? i = some x' ∧
        x'.userId = userId := by
    intro ids hids i x hx huser
    refine ⟨x, ?_, huser⟩
    rw [Table.get?_deleteWhere, hx]
    simp [hids i x hx huser]
  cases h with
  | codeIssued =>
      rename_i id _ _ _ _ _ _ previous t _ _ requestId _ _ _ _ _ hprevious _ _ _ _ hfresh _
      by_cases hid : id = userId
      · exact Or.inl ⟨requestId, _, Table.get?_insert_self _ _ _, hid⟩
      · refine hkeep (fun i x hx huser => ?_) (lastWord_concat_of_none (if_neg hid))
        have hi : i ≠ requestId := by
          rintro rfl
          exact Option.some_ne_none x (Eq.trans (Eq.symm hx) hfresh.emailChange)
        have hids : ∀ j y, d.emailChanges.get? j = some y → y.userId = userId →
            j ∉ (previous.map Prod.fst).toList := by
          intro j y hy hu hj
          obtain ⟨p, hp, rfl⟩ := Option.map_eq_some_iff.mp (Option.mem_toList.mp hj)
          obtain ⟨-, hrow, hp, -⟩ := hprevious p hp
          rw [hrow] at hy
          exact hid (hp.symm.trans ((congrArg _ (Option.some.inj hy)).trans hu))
        obtain ⟨x', hx', huser'⟩ := hdelete _ hids i x hx huser
        exact ⟨x', (Table.get?_insert_of_ne _ hi _).trans hx', huser'⟩
  | codeReissued =>
      rename_i id _ _ _ _ _ requestId row t _ _ _ _ _ hr _ _ _
      by_cases hid : id = userId
      · refine Or.inl ⟨requestId, _, (Table.get?_modify_self d.emailChanges requestId _).trans
          (congrArg (Option.map _) hr.row), ?_⟩
        exact hr.user.trans hid
      · refine hkeep (hmodify _ _ fun z hz => ?_) (lastWord_concat_of_none (if_neg ?_))
        · rw [hr.row] at hz
          obtain rfl := Option.some.inj hz
          rfl
        · exact fun hu => hid (hr.user.symm.trans hu)
  | wrongCode =>
      exact hkeep (hmodify _ EmailChangeRequest.fail fun _ _ => rfl) (lastWord_concat_of_none rfl)
  | lastWrongCode =>
      exact hkeep (hmodify _ EmailChangeRequest.fail fun _ _ => rfl) (lastWord_concat_of_none rfl)
  | emailChanged =>
      rename_i id requestId _ _ _ _ row _ _ _ _ _ _ hr _ _ _ _ _ _
      by_cases hid : id = userId
      · exact Or.inr (hover (lastWord_concat_of_some (if_pos hid)))
      · refine hkeep (hdelete _ fun i x hx huser hi => hid ?_) (lastWord_concat_of_none (if_neg hid))
        obtain rfl := List.mem_singleton.mp hi
        rw [hr.row] at hx
        exact hr.user.symm.trans ((congrArg _ (Option.some.inj hx)).trans huser)
  | deleted =>
      rename_i id _ _ _ requests _ _ _ _ _ _ _ _ _ hown _
      by_cases hid : id = userId
      · exact Or.inr (hover (lastWord_concat_of_some (if_pos hid)))
      · exact hkeep (hdelete _ fun i x hx huser hi => hid ((hown i hi x hx).symm.trans huser))
          (lastWord_concat_of_none (if_neg hid))
  | swept _ requests _ hrequests =>
      rcases hd.due userId with ⟨id, x, hx, huser⟩ | hdue
      · by_cases hid : id ∈ requests
        · -- the code has expired
          obtain ⟨-, x', hx', hexpired⟩ := hrequests id hid
          obtain rfl := Option.some.inj (hx'.symm.trans hx)
          obtain ⟨issuedAt, hword, -⟩ := (hd.request id x' hx).user
          refine Or.inr fun issuedAt' expiresAt hissued => ?_
          rw [huser] at hword
          cases (show some (some (issuedAt, x'.expiresAt)) = _ from hword.symm).trans hissued
          exact (min_le_right _ _).trans hexpired
        · refine Or.inl ⟨id, x, ?_, huser⟩
          show (d.emailChanges.deleteWhere _).get? id = _
          rw [Table.get?_deleteWhere, hx]
          simp [hid]
      · exact Or.inr hdue
  | resetIssued => exact hkeep (fun _ x hx hu => ⟨x, hx, hu⟩) (lastWord_concat_of_none rfl)
  | passwordReset => exact hkeep (fun _ x hx hu => ⟨x, hx, hu⟩) (lastWord_concat_of_none rfl)
  | passwordChanged => exact hkeep (fun _ x hx hu => ⟨x, hx, hu⟩) (lastWord_concat_of_none rfl)
  | deactivated => exact hkeep (fun _ x hx hu => ⟨x, hx, hu⟩) (lastWord_concat_of_none rfl)
  | reactivated => exact hkeep (fun _ x hx hu => ⟨x, hx, hu⟩) (lastWord_concat_of_none rfl)
  | invited => exact hkeep (fun _ x hx hu => ⟨x, hx, hu⟩) (lastWord_concat_of_none rfl)
  | reinvited => exact hkeep (fun _ x hx hu => ⟨x, hx, hu⟩) (lastWord_concat_of_none rfl)
  | revoked => exact hkeep (fun _ x hx hu => ⟨x, hx, hu⟩) (lastWord_concat_of_none rfl)
  | accepted => exact hkeep (fun _ x hx hu => ⟨x, hx, hu⟩) (lastWord_concat_of_none rfl)
  | _ => exact hkeep (fun _ x hx hu => ⟨x, hx, hu⟩) rfl

/-- Nothing has been said of a request that has not been created. -/
theorem codeOf_unborn (hd : Lawful Event.Allowed d.journal) {id : ℕ} (hid : ∀ x, ¬d.Born id x) :
    lastWord (Event.codeOf id) d.journal = none := by
  have hborn : ∀ e ∈ d.journal, ¬∃ x, e.identity? = some (id, x) := by
    rintro e he ⟨x, hx⟩
    exact hid x ⟨e, he, hx⟩
  refine hd.unborn (fun before e he hword hb => ?_) hborn
  cases e with
  | codeIssued i => exact if_neg fun hi => hb ⟨_, by rw [← hi]; rfl⟩
  | emailChanged i userId digest =>
      refine if_neg ?_
      rintro rfl
      obtain ⟨c, hc, -⟩ := he
      rw [hword] at hc
      cases hc
  | _ => rfl

/-- Nor of such an invitation. -/
theorem invitationOf_unborn (hd : Lawful Event.Allowed d.journal) {id : ℕ}
    (hid : ∀ x, ¬d.Born id x) : lastWord (Event.invitationOf id) d.journal = none := by
  have hborn : ∀ e ∈ d.journal, ¬∃ x, e.identity? = some (id, x) := by
    rintro e he ⟨x, hx⟩
    exact hid x ⟨e, he, hx⟩
  refine hd.unborn (fun before e he hword hb => ?_) hborn
  -- whatever is said of it needs an earlier word
  have hneeds : ∀ i, (∃ a : Issue, lastWord (Event.invitationOf i) before = some (some a)) →
      i ≠ id := by
    rintro i ⟨a, ha⟩ rfl
    rw [hword] at ha
    cases ha
  cases e with
  | invited i => exact if_neg fun hi => hb ⟨_, by rw [← hi]; rfl⟩
  | reinvited i => exact if_neg (hneeds i he)
  | revoked i => exact if_neg (hneeds i he)
  | accepted i => exact if_neg (hneeds i (he.imp fun _ ha => ha.1))
  | _ => rfl

/-- What a commit records was allowed. -/
theorem lawful_recorded (h : Effect box now K d op d' r) (hd : d.Recorded) :
    Lawful Event.Allowed d'.journal := by
  cases h with
  | resetIssued => exact hd.lawful.concat trivial
  -- the row is what the journal says of the reset
  | passwordReset =>
      rename_i reset _ _ _ _ _ _ _ hrow hselector hdigest _ _ _
      refine hd.lawful.concat ⟨reset.expiresAt, ?_⟩
      rw [← hselector, ← hdigest]
      exact hd.reset _ _ hrow
  | passwordChanged => exact hd.lawful.concat trivial
  -- the number of the request is new, so nothing has been said of it
  | codeIssued =>
      rename_i hgap _ _ hfresh _
      refine hd.lawful.concat ⟨?_, Nat.le_add_right _ _, hgap⟩
      rw [codeOf_unborn hd.lawful hfresh.unborn]
      exact nofun
  -- the row knows when the last code was issued
  | codeReissued =>
      rename_i hr hresend _ _
      have hrequest := hd.request _ _ hr.row
      refine hd.lawful.concat ⟨?_, Nat.le_add_right _ _, fun earlier expiry hissued => ?_⟩
      · rw [hrequest.code]
        exact nofun
      · obtain ⟨issuedAt, hword, hafter⟩ := hrequest.user
        cases hword.symm.trans hissued
        rw [hafter] at hresend
        exact (min_le_left _ _).trans hresend
  -- the row counts the wrong codes since the request
  | wrongCode =>
      rename_i hr _ _
      have hrequest := hd.request _ _ hr.row
      refine hd.lawful.concat ⟨_, hrequest.code, hr.user, ?_⟩
      have hattempts := hrequest.attempts
      rw [hr.user] at hattempts
      have hpos := hr.attempts
      omega
  | lastWrongCode =>
      rename_i hr _ _
      have hrequest := hd.request _ _ hr.row
      refine hd.lawful.concat ⟨_, hrequest.code, hr.user, ?_⟩
      have hattempts := hrequest.attempts
      rw [hr.user] at hattempts
      have hpos := hr.attempts
      omega
  | emailChanged =>
      rename_i hr hdigest _ _ _ _ _
      have hrequest := hd.request _ _ hr.row
      refine hd.lawful.concat ⟨_, hrequest.code, hr.user, hdigest, ?_⟩
      have hattempts := hrequest.attempts
      rw [hr.user] at hattempts
      have hpos := hr.attempts
      omega
  | deactivated => exact hd.lawful.concat trivial
  | reactivated => exact hd.lawful.concat trivial
  | deleted => exact hd.lawful.concat trivial
  | invited =>
      rename_i hfresh _
      exact hd.lawful.concat (invitationOf_unborn hd.lawful hfresh.unborn)
  | reinvited =>
      rename_i hrow _ _ _
      exact hd.lawful.concat ⟨_, hd.invitation _ _ hrow⟩
  | revoked =>
      rename_i hrow
      exact hd.lawful.concat ⟨_, hd.invitation _ _ hrow⟩
  | accepted =>
      rename_i hrow hdigest _ _ _ _ _ _ _ _
      exact hd.lawful.concat ⟨_, hd.invitation _ _ hrow, hdigest⟩
  | _ => exact hd.lawful

/-- **A commit records what it does.**

The rows and the journal are written by the same commit.  For a row that is inserted or replaced the
event is its issue; for one that is used the event is its end, and the row is deleted; a sweep
deletes rows and says nothing, which is why rows may be missing. -/
theorem recorded (h : Effect box now K d op d' r) (hd : d.Recorded) : d'.Recorded :=
  ⟨fun _ _ hx => h.reset_recorded hd.reset hx, fun _ _ hi => h.invitation_recorded hd.invitation hi,
    fun _ _ hx => h.request_recorded hd hx, fun _ _ _ _ hx hy => h.single_recorded hd hx hy,
    h.due_recorded hd, h.lawful_recorded hd⟩

end Effect

/-! ## The contract -/

/-- **The contract of the auth service.** -/
def contract (box : Sealer) : Contract Db Key Op Instant Reply where
  inv d n := d.Valid n ∧ d.Recorded
  inv_mono h hn := ⟨h.1.up hn, h.2⟩
  commits op now K d d' r := Effect box now K d op d' r

end BindPlane.Auth
