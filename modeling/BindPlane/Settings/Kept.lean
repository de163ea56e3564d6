import BindPlane.Settings.Save
import Mathlib.Data.List.DropRight

/-!
# What saving keeps

Every save that is committed carries a password that some committed request supplied together
with the host, the port and the username of the save (`Backed`): either the request itself, or
the one behind the row that the request was checked against.  That row need not be the present
one any more, since a password never changes its company; the revision keeps the saves in one
line.
-/

namespace BindPlane.Settings

open Coroutine Codec

/-! ## Trimming -/

theorem trimSpace_trimSpace (s : String) : trimSpace (trimSpace s) = trimSpace s := by
  have hfixed : ∀ l : List Char, (((l.dropWhile isGoSpace).rdropWhile isGoSpace).dropWhile
      isGoSpace).rdropWhile isGoSpace = (l.dropWhile isGoSpace).rdropWhile isGoSpace := by
    intro l
    have hdrop : ((l.dropWhile isGoSpace).rdropWhile isGoSpace).dropWhile isGoSpace =
        (l.dropWhile isGoSpace).rdropWhile isGoSpace := by
      rw [List.dropWhile_eq_self_iff]
      intro hpos
      have hpre := List.rdropWhile_prefix isGoSpace (l := l.dropWhile isGoSpace)
      have hpos' : 0 < (l.dropWhile isGoSpace).length := hpos.trans_le hpre.length_le
      rw [hpre.getElem hpos]
      exact (List.dropWhile_eq_self_iff.mp (List.dropWhile_idempotent _ l)) hpos'
    rw [hdrop, List.rdropWhile_idempotent]
  show String.ofList _ = String.ofList _
  have h := hfixed s.toList
  unfold List.rdropWhile at h
  simp only [Devices.trimSpace, String.toList_ofList]
  rw [h]

/-! ## The invariant -/

variable {g : AesGcm} {key : Bytes}

/-- A committed request has supplied the password explicitly, together with this host, port and
username. -/
def Supplied (saves : List Save) (password : Bytes) (host : String) (port : ℤ)
    (username : String) : Prop :=
  ∃ s ∈ saves, s.input.password = some password ∧ s.input.clearPassword = false ∧
    trimSpace s.input.host = host ∧ s.input.port = port ∧
    trimSpace s.input.username = username

theorem Supplied.mono {saves saves' : List Save} {password : Bytes} {host username : String}
    {port : ℤ} (hsub : saves ⊆ saves') (h : Supplied saves password host port username) :
    Supplied saves' password host port username := by
  obtain ⟨s, hs, h⟩ := h
  exact ⟨s, hsub hs, h⟩

variable (g key) in
/-- A row has a password exactly if it has a username, and one that was supplied for it.

The password of a row need not have been supplied by the request that wrote the row, and not by the
one before either.  It was supplied by some request, for this host, port and username, and every
save in between has kept the three. -/
structure Backed (saves : List Save) (r : EmailSettingsRecord) : Prop where
  host : trimSpace r.host = r.host
  username : trimSpace r.username = r.username
  paired : r.passwordCiphertext ≠ [] ↔ r.username ≠ ""
  supplied : r.passwordCiphertext ≠ [] → ∃ password ≠ [],
    decrypt g key r.passwordCiphertext = .ok password ∧
      Supplied saves password r.host r.port r.username

theorem Backed.mono {saves saves' : List Save} {r : EmailSettingsRecord} (hsub : saves ⊆ saves')
    (h : Backed g key saves r) : Backed g key saves' r := by
  refine ⟨h.host, h.username, h.paired, fun hne => ?_⟩
  obtain ⟨password, hpassword, hdecrypt, hsupplied⟩ := h.supplied hne
  exact ⟨password, hpassword, hdecrypt, hsupplied.mono hsub⟩

/-- A password that was handed to the factory is the request's own or one that was supplied with
the same host, port and username. -/
def Handed.Paired (saves : List Save) (h : Handed) : Prop :=
  h.settings.password = [] ∨
    (∃ input, h.input = some input ∧ input.password = some h.settings.password ∧
      trimSpace input.host = h.settings.host ∧ input.port = h.settings.port ∧
      trimSpace input.username = h.settings.username) ∨
    Supplied saves h.settings.password h.settings.host h.settings.port h.settings.username

theorem Handed.Paired.mono {saves saves' : List Save} {h : Handed} (hsub : saves ⊆ saves')
    (hp : h.Paired saves) : h.Paired saves' :=
  hp.imp_right (Or.imp_right (Supplied.mono hsub))

variable (g key) in
/-- The row is the last save's, the revisions count the saves, and all passwords are backed.

The saves are kept newest first.  That a password is backed means that it was given with the host,
the port and the user name of the row in one of them. -/
structure Desk.Valid (d : Desk) : Prop where
  row : d.row = d.saves.head?.map Save.record
  counted : ∀ newer s older, d.saves = newer ++ s :: older →
    s.record.revision = (older.length : ℤ) + 1
  backed : ∀ s ∈ d.saves, Backed g key d.saves s.record
  paired : ∀ h ∈ d.handed, h.Paired d.saves

theorem Desk.Valid.row_backed {d : Desk} (h : d.Valid g key) {r : EmailSettingsRecord}
    (hrow : d.row = some r) : Backed g key d.saves r := by
  obtain ⟨s, hs, rfl⟩ := Option.map_eq_some_iff.mp (h.row.symm.trans hrow)
  exact h.backed s (List.mem_of_mem_head? hs)

/-- A write that succeeds counts one further. -/
theorem Desk.Valid.written {d : Desk} (h : d.Valid g key) {revision : ℤ}
    {record saved : EmailSettingsRecord} (hwrite : d.written revision record = some saved) :
    saved = { record with revision := (d.saves.length : ℤ) + 1 } := by
  unfold Desk.written at hwrite
  have hrow := h.row
  cases hsaves : d.saves with
  | nil =>
      simp only [hsaves, List.head?_nil, Option.map_none] at hrow
      simp only [hrow] at hwrite
      split_ifs at hwrite
      exact (Option.some.inj hwrite).symm
  | cons s older =>
      simp only [hsaves, List.head?_cons, Option.map_some] at hrow
      simp only [hrow] at hwrite
      split_ifs at hwrite
      rw [← Option.some.inj hwrite, h.counted [] s older hsaves, List.length_cons]
      push_cast
      rfl

/-- A save that is backed by what has been supplied, itself included, may be committed. -/
theorem Desk.Valid.save {d : Desk} (h : d.Valid g key) {i : ℕ} {input : EmailSettingsInput}
    {saved : EmailSettingsRecord} (hrevision : saved.revision = (d.saves.length : ℤ) + 1)
    (hbacked : Backed g key (⟨i, input, saved⟩ :: d.saves) saved) :
    Desk.Valid g key { d with row := some saved, saves := ⟨i, input, saved⟩ :: d.saves } := by
  have hsub : d.saves ⊆ ⟨i, input, saved⟩ :: d.saves := List.subset_cons_self _ _
  refine ⟨rfl, fun newer s older heq => ?_, fun s hs => ?_, fun h' hh => (h.paired h' hh).mono hsub⟩
  · cases newer with
    | nil =>
        obtain ⟨rfl, rfl⟩ := List.cons.inj heq
        exact hrevision
    | cons s' newer => exact h.counted newer s older (List.cons.inj heq).2
  · obtain rfl | hs := List.mem_cons.mp hs
    · exact hbacked
    · exact (h.backed s hs).mono hsub

theorem Desk.Valid.hand {d : Desk} (h : d.Valid g key) {handed : Handed}
    (hpaired : handed.Paired d.saves) :
    Desk.Valid g key { d with handed := handed :: d.handed } :=
  ⟨h.row, h.counted, h.backed, List.forall_mem_cons.mpr ⟨hpaired, h.paired⟩⟩

variable (g key) in
/-- A call adds a save of its own or none; the others' saves are all that comes between. -/
def rules : Rules Desk Call where
  inv := Desk.Valid g key
  moves i d d' := d'.saves = d.saves ∨ ∃ s, s.call = i ∧ d'.saves = s :: d.saves
  rely i d d' := ∃ new : List Save, d'.saves = new ++ d.saves ∧ ∀ s ∈ new, s.call ≠ i
  fresh i d := ∀ s ∈ d.saves, s.call ≠ i
  rely_refl _ _ := ⟨[], rfl, by simp⟩
  rely_trans := by
    rintro i d d' d'' ⟨new, hsaves, hnew⟩ ⟨new', hsaves', hnew'⟩
    refine ⟨new' ++ new, by rw [hsaves', hsaves, List.append_assoc], fun s hs => ?_⟩
    exact (List.mem_append.mp hs).elim (hnew' s) (hnew s)
  rely_of_moves := by
    rintro i j d d' hij (hsaves | ⟨s, rfl, hsaves⟩)
    · exact ⟨[], hsaves, by simp⟩
    · exact ⟨[s], hsaves, by simpa using Ne.symm hij⟩
  fresh_of_moves := by
    rintro i j d d' hij (hsaves | ⟨s, rfl, hsaves⟩) hfresh
    · exact hsaves ▸ hfresh
    · exact hsaves ▸ List.forall_mem_cons.mpr ⟨Ne.symm hij, hfresh⟩

theorem rely_subset {i : ℕ} {d d' : Desk} (h : (rules g key).rely i d d') :
    d.saves ⊆ d'.saves := by
  obtain ⟨new, hsaves, -⟩ := h
  exact hsaves ▸ List.subset_append_right _ _

theorem rely_fresh {i : ℕ} {d d' : Desk} (h : (rules g key).rely i d d')
    (hfresh : (rules g key).fresh i d) : (rules g key).fresh i d' := by
  obtain ⟨new, hsaves, hnew⟩ := h
  intro s hs
  rw [hsaves] at hs
  exact (List.mem_append.mp hs).elim (hnew s) (hfresh s)

/-- A call that ends with an error has saved nothing, unless it was the answer of the write that
was lost. -/
def Ends (g : AesGcm) (key : Bytes) (i : ℕ) {α : Type} (r : Except SettingsError α) (d : Desk) :
    Prop :=
  ∀ e, r = .error e → e ≠ .dependencyUnavailable (some .write) → (rules g key).fresh i d

theorem Ends.rely {i : ℕ} {α : Type} {r : Except SettingsError α} {d d' : Desk}
    (hrely : (rules g key).rely i d d') (h : Ends g key i r d) : Ends g key i r d' :=
  fun e hr he => rely_fresh hrely (h e hr he)

/-! ## Single calls -/

section

variable {i : ℕ} {call : Call} {α : Type} {d : Desk}
  {post : Except SettingsError α → Desk → Prop}

/-- A call, and what follows it. -/
theorem dependency_bind {q : Request} {k : Answer q → Program α}
    (h : ∀ d', (rules g key).rely i d d' → d'.Valid g key →
      ∀ c d'' r, react g key d' i call q c = some (d'', r) →
        d''.Valid g key ∧ (rules g key).moves i d' d'' ∧ match r with
          | .ok a => (k a).Keeps (react g key) (rules g key) i call post d''
          | .error e => post (.error (dependencyError e)) d'') :
    ((dependency q).bind k).Keeps (react g key) (rules g key) i call post d := by
  intro d' hrely hvalid c d'' r hreact
  obtain ⟨hvalid', hmoves, hrest⟩ := h d' hrely hvalid c d'' r hreact
  refine ⟨hvalid', hmoves, ?_⟩
  cases r with
  | ok a => exact hrest
  | error e => exact hrest

theorem moves_self (d : Desk) : (rules g key).moves i d d := .inl rfl

theorem encrypt_bind (hg : g.Correct) {plaintext : Bytes} {k : Bytes → Program α}
    (hok : ∀ d' ciphertext, (rules g key).rely i d d' → ciphertext ≠ [] →
      decrypt g key ciphertext = .ok plaintext →
      (k ciphertext).Keeps (react g key) (rules g key) i call post d')
    (herror : ∀ d', (rules g key).rely i d d' →
      post (.error (.dependencyUnavailable (some .encrypt))) d') :
    ((dependency (.encrypt plaintext)).bind k).Keeps (react g key) (rules g key) i call post d := by
  refine dependency_bind fun d' hrely hvalid c d'' r hreact => ?_
  cases c with
  | fails =>
      obtain ⟨rfl, rfl⟩ := Prod.mk.inj (Option.some.inj hreact)
      exact ⟨hvalid, moves_self _, herror _ hrely⟩
  | seals nonce =>
      obtain ⟨rfl, rfl⟩ := Prod.mk.inj (Option.some.inj hreact)
      exact ⟨hvalid, moves_self _,
        hok _ _ hrely (encrypt_ne g key nonce plaintext) (decrypt_encrypt key hg nonce plaintext)⟩
  | _ => cases hreact

theorem factory_bind {settings : SMTPSettings} {k : Unit → Program α}
    (hpaired : ∀ d', (rules g key).rely i d d' →
      Handed.Paired d'.saves ⟨call.input?, settings⟩)
    (hok : ∀ d', (rules g key).rely i d d' →
      (k ()).Keeps (react g key) (rules g key) i call post d')
    (herror : ∀ d', (rules g key).rely i d d' →
      post (.error (.dependencyUnavailable (some .factory))) d') :
    ((dependency (.factory settings)).bind k).Keeps (react g key) (rules g key) i call post d := by
  refine dependency_bind fun d' hrely hvalid c d'' r hreact => ?_
  -- handing settings over commits nothing
  have hsame : (rules g key).rely i d
      { d' with handed := ⟨call.input?, settings⟩ :: d'.handed } := hrely
  cases c with
  | fails =>
      obtain ⟨rfl, rfl⟩ := Prod.mk.inj (Option.some.inj hreact)
      exact ⟨hvalid.hand (hpaired _ hrely), .inl rfl, herror _ hsame⟩
  | succeeds =>
      obtain ⟨rfl, rfl⟩ := Prod.mk.inj (Option.some.inj hreact)
      exact ⟨hvalid.hand (hpaired _ hrely), .inl rfl, hok _ hsame⟩
  | _ => cases hreact

/-- Whatever row is read is a backed one. -/
theorem currentEmailSettings_bind {k : Option EmailSettingsRecord → Program α}
    (hok : ∀ d' row, (rules g key).rely i d d' → (∀ r, row = some r → Backed g key d'.saves r) →
      (k row).Keeps (react g key) (rules g key) i call post d')
    (herror : ∀ d', (rules g key).rely i d d' →
      post (.error (.dependencyUnavailable (some .read))) d') :
    (currentEmailSettings.bind k).Keeps (react g key) (rules g key) i call post d := by
  intro d' hrely hvalid c d'' r hreact
  cases c with
  | fails =>
      obtain ⟨rfl, rfl⟩ := Prod.mk.inj (Option.some.inj hreact)
      exact ⟨hvalid, moves_self _, herror _ hrely⟩
  | succeeds =>
      obtain ⟨rfl, hr⟩ := Prod.mk.inj (Option.some.inj hreact)
      refine ⟨hvalid, moves_self _, ?_⟩
      cases hrow : d'.row with
      | none =>
          rw [hrow] at hr
          subst hr
          exact hok _ none hrely nofun
      | some record =>
          rw [hrow] at hr
          subst hr
          exact hok _ (some record) hrely fun r hr => Option.some.inj hr ▸ hvalid.row_backed hrow
  | _ => cases hreact

theorem wrapped_bind {o : Except SettingsError Bytes} {k : Bytes → Program α}
    (hok : ∀ a, o = .ok a → (k a).Keeps (react g key) (rules g key) i call post d)
    (herror : ∀ e, o = .error e → post (.error (dependencyError e)) d) :
    ((wrapped o).bind k).Keeps (react g key) (rules g key) i call post d := by
  cases o with
  | ok a => exact hok a rfl
  | error e => exact herror e rfl

/-- The write commits a record that is backed by what has been supplied, or nothing. -/
theorem saveEmailSettings_bind {s : Service} {input : EmailSettingsInput} {revision : ℤ}
    {record : EmailSettingsRecord} {k : EmailSettingsRecord → Program α}
    (hfresh : (rules g key).fresh i d)
    (hbacked : ∀ d' revision, (rules g key).rely i d d' →
      Backed g key (⟨i, input, { record with revision }⟩ :: d'.saves) { record with revision })
    (hok : ∀ d' saved, (k saved).Keeps (react g key) (rules g key) i (.save s input)
      (fun r d => Ends g key i r d) d') :
    ((dependency (.saveEmailSettings revision record)).bind k).Keeps (react g key) (rules g key) i
      (.save s input) (fun r d => Ends g key i r d) d := by
  refine dependency_bind fun d' hrely hvalid c d'' r hreact => ?_
  have hstill : (rules g key).fresh i d' := rely_fresh hrely hfresh
  cases c with
  | fails =>
      obtain ⟨rfl, rfl⟩ := Prod.mk.inj (Option.some.inj hreact)
      exact ⟨hvalid, moves_self _, fun e he hne => absurd (Except.error.inj he).symm hne⟩
  | succeeds =>
      simp only [react] at hreact
      cases hwrite : d'.written revision record with
      | none =>
          rw [hwrite] at hreact
          obtain ⟨rfl, rfl⟩ := Prod.mk.inj (Option.some.inj hreact)
          exact ⟨hvalid, moves_self _, fun _ _ _ => hstill⟩
      | some saved =>
          rw [hwrite] at hreact
          obtain ⟨rfl, rfl⟩ := Prod.mk.inj (Option.some.inj hreact)
          obtain rfl := hvalid.written hwrite
          exact ⟨hvalid.save rfl (hbacked d' _ hrely), .inr ⟨_, rfl, rfl⟩, hok _ _⟩
  | loses =>
      simp only [react] at hreact
      cases hwrite : d'.written revision record with
      | none =>
          rw [hwrite] at hreact
          obtain ⟨rfl, rfl⟩ := Prod.mk.inj (Option.some.inj hreact)
          exact ⟨hvalid, moves_self _, fun _ _ _ => hstill⟩
      | some saved =>
          rw [hwrite] at hreact
          obtain ⟨rfl, rfl⟩ := Prod.mk.inj (Option.some.inj hreact)
          obtain rfl := hvalid.written hwrite
          exact ⟨hvalid.save rfl (hbacked d' _ hrely), .inr ⟨_, rfl, rfl⟩,
            fun e he hne => absurd (Except.error.inj he).symm hne⟩
  | seals nonce => cases hreact

end

/-! ## The requests -/

section

variable {i : ℕ} {call : Call} {d : Desk} {parseAddress : String → Option String}

theorem Ends.of_fresh {α : Type} {r : Except SettingsError α}
    (h : (rules g key).fresh i d) : Ends g key i r d := fun _ _ _ => h

theorem Ends.ok {α : Type} {a : α} : Ends g key i (.ok a) d := fun e he => by cases he

theorem Ends.error {α β : Type} {e : SettingsError}
    (h : Ends g key i (.error e : Except SettingsError α) d) :
    Ends g key i (.error e : Except SettingsError β) d :=
  fun e' he => h e' (congrArg Except.error (Except.error.inj he))

variable (g key) in
/-- What the password of a request can be resolved to: none, the one supplied by the request, or
one that was supplied before with the same host, port and username. -/
def Resolved (saves : List Save) (input : EmailSettingsInput) (password ciphertext : Bytes) :
    Prop :=
  (password = [] ∧ ciphertext = []) ∨
    password ≠ [] ∧ ciphertext ≠ [] ∧ decrypt g key ciphertext = .ok password ∧
      (input.password = some password ∧ input.clearPassword = false ∨
        Supplied saves password (trimSpace input.host) input.port (trimSpace input.username))

theorem Resolved.mono {saves saves' : List Save} {input : EmailSettingsInput}
    {password ciphertext : Bytes} (hsub : saves ⊆ saves')
    (h : Resolved g key saves input password ciphertext) :
    Resolved g key saves' input password ciphertext := by
  obtain h | ⟨hpassword, hciphertext, hdecrypt, hwhence⟩ := h
  · exact .inl h
  · exact .inr ⟨hpassword, hciphertext, hdecrypt, hwhence.imp_right (Supplied.mono hsub)⟩

/-- A request with the same connection may keep the password of a backed row. -/
theorem Backed.resolved {saves : List Save} {input : EmailSettingsInput}
    {current : EmailSettingsRecord} {plain : Bytes} (h : Backed g key saves current)
    (hsame : sameSMTPIdentity input current = true) (hne : current.passwordCiphertext ≠ [])
    (hdecrypt : decrypt g key current.passwordCiphertext = .ok plain) :
    Resolved g key saves input plain current.passwordCiphertext := by
  obtain ⟨password, hpassword, hdecrypt', hsupplied⟩ := h.supplied hne
  obtain rfl := Except.ok.inj (hdecrypt.symm.trans hdecrypt')
  simp only [sameSMTPIdentity, Bool.and_eq_true, decide_eq_true_eq] at hsame
  obtain ⟨⟨hhost, hport⟩, husername⟩ := hsame
  refine .inr ⟨hpassword, hne, hdecrypt, .inr ?_⟩
  rwa [hhost, hport, husername, h.host, h.username]

theorem resolveSMTPPassword_bind {α : Type} (hg : g.Correct) {s : Service}
    {input : EmailSettingsInput} {current? : Option EmailSettingsRecord}
    {k : Bytes × Bytes → Program α} (hfresh : (rules g key).fresh i d)
    (hempty : input.password = some [] → input.clearPassword = true)
    (hcurrent : ∀ r, current? = some r → Backed g key d.saves r)
    (hok : ∀ d' password ciphertext, (rules g key).rely i d d' →
      Resolved g key d'.saves input password ciphertext →
      (k (password, ciphertext)).Keeps (react g key) (rules g key) i call
        (fun r d => Ends g key i r d) d') :
    ((resolveSMTPPassword g key s input (current?.getD {}) current?.isSome true).bind k).Keeps
      (react g key) (rules g key) i call (fun r d => Ends g key i r d) d := by
  have hrefl := (rules g key).rely_refl i d
  unfold resolveSMTPPassword
  by_cases hclear : input.clearPassword = true
  · rw [if_pos hclear]
    exact hok d [] [] hrefl (.inl ⟨rfl, rfl⟩)
  rw [if_neg hclear]
  cases hpassword : input.password with
  | some password =>
      -- an explicit password is encrypted anew
      have hne : password ≠ [] := fun heq => hclear (hempty (heq ▸ hpassword))
      simp only [Bool.not_true, Bool.false_eq_true, if_false, Prog.bind_eq]
      split_ifs
      · exact .of_fresh hfresh
      · rw [Prog.bind_assoc]
        refine encrypt_bind hg (fun d' ciphertext hrely hciphertext hdecrypt => ?_)
          fun d' hrely => .of_fresh (rely_fresh hrely hfresh)
        exact hok d' password ciphertext hrely (.inr ⟨hne, hciphertext, hdecrypt,
          .inl ⟨hpassword, Bool.eq_false_iff.mpr hclear⟩⟩)
  | none =>
      simp only [Prog.bind_eq]
      split_ifs with hchanged hkeep hcipher
      · exact .of_fresh hfresh
      · exact .of_fresh hfresh
      · obtain ⟨hhas, -, hsame, hne⟩ := hkeep
        obtain ⟨current, rfl⟩ := Option.isSome_iff_exists.mp hhas
        rw [Prog.bind_assoc]
        refine wrapped_bind (fun plain hdecrypt => ?_) fun e _ => .of_fresh hfresh
        exact hok d plain _ hrefl ((hcurrent current rfl).resolved hsame hne hdecrypt)
      · exact hok d [] [] hrefl (.inl ⟨rfl, rfl⟩)

/-- Nothing but what is resolved is handed to the factory. -/
theorem mailer_bind {α : Type} {s : Service} {record : EmailSettingsRecord} {password : Bytes}
    {k : Unit → Program α} (hfresh : (rules g key).fresh i d)
    (hpaired : ∀ d', (rules g key).rely i d d' →
      Handed.Paired d'.saves ⟨call.input?, smtpSettings record password⟩)
    (hok : ∀ d', (rules g key).rely i d d' →
      (k ()).Keeps (react g key) (rules g key) i call (fun r d => Ends g key i r d) d') :
    ((mailerForSMTPSettings s record password).bind k).Keeps (react g key) (rules g key) i call
      (fun r d => Ends g key i r d) d := by
  unfold mailerForSMTPSettings
  split_ifs
  · exact hok d ((rules g key).rely_refl i d)
  · exact factory_bind hpaired hok fun d' hrely => .of_fresh (rely_fresh hrely hfresh)

/-- The settings of a backed row are paired. -/
theorem mailerForRecord_bind {α : Type} {s : Service} {record : EmailSettingsRecord}
    {k : Unit → Program α} (hfresh : (rules g key).fresh i d)
    (hbacked : Backed g key d.saves record)
    (hok : ∀ d', (rules g key).rely i d d' →
      (k ()).Keeps (react g key) (rules g key) i call (fun r d => Ends g key i r d) d') :
    ((mailerForRecord g key s record).bind k).Keeps (react g key) (rules g key) i call
      (fun r d => Ends g key i r d) d := by
  unfold mailerForRecord
  simp only [Prog.bind_eq]
  split_ifs with hne hcipher
  · exact .of_fresh hfresh
  · rw [Prog.bind_assoc]
    refine wrapped_bind (fun plain hdecrypt => ?_) fun e _ => .of_fresh hfresh
    obtain ⟨password, hpassword, hdecrypt', hsupplied⟩ := hbacked.supplied hne
    obtain rfl := Except.ok.inj (hdecrypt.symm.trans hdecrypt')
    exact mailer_bind hfresh
      (fun d' hrely => .inr (.inr (hsupplied.mono (rely_subset hrely)))) hok
  · exact mailer_bind hfresh (fun d' hrely => .inl rfl) hok

/-! What is checked on the way to a save. -/

theorem normalize_spec (input : EmailSettingsInput) :
    ((normalizeEmailSettingsInput input).password = some [] →
      (normalizeEmailSettingsInput input).clearPassword = true) ∧
    (∀ password, (normalizeEmailSettingsInput input).password = some password →
      input.password = some password) ∧
    (normalizeEmailSettingsInput input).clearPassword = input.clearPassword ∧
    (normalizeEmailSettingsInput input).host = input.host ∧
    (normalizeEmailSettingsInput input).port = input.port ∧
    (normalizeEmailSettingsInput input).username = input.username := by
  unfold normalizeEmailSettingsInput
  split_ifs with hempty
  · exact ⟨nofun, nofun, rfl, rfl, rfl, rfl⟩
  · refine ⟨fun hpassword => ?_, fun _ => id, rfl, rfl, rfl, rfl⟩
    simpa [hpassword] using hempty

/-- With a username that fits, a resolved password makes a backed record. -/
theorem Resolved.backed {saves : List Save} {input : EmailSettingsInput}
    {password ciphertext : Bytes} (h : Resolved g key saves input password ciphertext)
    (hvalid : validSMTPCredentials (trimSpace input.username) (password ≠ []) = true)
    {call : ℕ} {request : EmailSettingsInput} {revision : ℤ}
    (hpassword : ∀ p, input.password = some p → request.password = some p)
    (hclear : input.clearPassword = request.clearPassword) (hhost : input.host = request.host)
    (hport : input.port = request.port) (husername : input.username = request.username) :
    Backed g key (⟨call, request, { requestedRecord input with
      passwordCiphertext := ciphertext, revision }⟩ :: saves)
      { requestedRecord input with passwordCiphertext := ciphertext, revision } := by
  have hcredentials : trimSpace input.username = "" ↔ password = [] := by
    simpa [validSMTPCredentials, trimSpace_trimSpace] using hvalid
  refine ⟨trimSpace_trimSpace _, trimSpace_trimSpace _, ?_, fun hne => ?_⟩
  · show ciphertext ≠ [] ↔ trimSpace input.username ≠ ""
    rw [ne_eq, ne_eq, hcredentials]
    obtain ⟨rfl, rfl⟩ | ⟨hpassword, hciphertext, -⟩ := h
    · exact .rfl
    · exact ⟨fun _ => hpassword, fun _ => hciphertext⟩
  · obtain ⟨rfl, rfl⟩ | ⟨hne', -, hdecrypt, hown | hearlier⟩ := h
    · exact absurd rfl hne
    · refine ⟨password, hne', hdecrypt, _, List.mem_cons_self, hpassword _ hown.1,
        hclear ▸ hown.2, ?_⟩
      exact ⟨hhost ▸ rfl, hport.symm, husername ▸ rfl⟩
    · exact ⟨password, hne', hdecrypt, hearlier.mono (List.subset_cons_self _ _)⟩

/-- And what is handed to the factory is paired. -/
theorem Resolved.paired {saves : List Save} {input request : EmailSettingsInput}
    {password ciphertext : Bytes} (h : Resolved g key saves input password ciphertext)
    (hpassword : ∀ p, input.password = some p → request.password = some p)
    (hhost : input.host = request.host) (hport : input.port = request.port)
    (husername : input.username = request.username) :
    Handed.Paired saves ⟨some request, smtpSettings { requestedRecord input with
      passwordCiphertext := ciphertext } password⟩ := by
  obtain ⟨rfl, rfl⟩ | ⟨-, -, -, hown | hearlier⟩ := h
  · exact .inl rfl
  · exact .inr (.inl ⟨request, rfl, hpassword _ hown.1, hhost ▸ rfl, hport.symm, husername ▸ rfl⟩)
  · exact .inr (.inr hearlier)

theorem saveEmailSettings_keeps (hg : g.Correct) {s : Service} {input : EmailSettingsInput}
    (hfresh : (rules g key).fresh i d) :
    (saveEmailSettings g key parseAddress s input).Keeps (react g key) (rules g key) i
      (.save s input) (fun r d => Ends g key i r d) d := by
  obtain ⟨hempty, hpassword, hclear, hhost, hport, husername⟩ := normalize_spec input
  unfold saveEmailSettings
  simp only [Prog.bind_eq]
  -- the settings that are read first
  refine currentEmailSettings_bind (fun d₁ current? hrely₁ hcurrent => ?_)
    fun d' hrely => .of_fresh (rely_fresh hrely hfresh)
  have hfresh₁ := rely_fresh hrely₁ hfresh
  split_ifs
  · exact .of_fresh hfresh₁
  generalize happlied : applyMailPolicyDefaults (normalizeEmailSettingsInput input)
    (current?.getD {}) current?.isSome = applied
  -- the defaults touch neither the password nor the connection
  have hfields : applied.password = (normalizeEmailSettingsInput input).password ∧
      applied.clearPassword = (normalizeEmailSettingsInput input).clearPassword ∧
      applied.host = (normalizeEmailSettingsInput input).host ∧
      applied.port = (normalizeEmailSettingsInput input).port ∧
      applied.username = (normalizeEmailSettingsInput input).username := by
    subst happlied
    exact ⟨rfl, rfl, rfl, rfl, rfl⟩
  rw [← hfields.1] at hempty hpassword
  rw [← hfields.2.1] at hempty hclear
  rw [← hfields.2.2.1] at hhost
  rw [← hfields.2.2.2.1] at hport
  rw [← hfields.2.2.2.2] at husername
  cases validateEmailSettingsInput parseAddress applied s.production with
  | error e => exact Ends.of_fresh hfresh₁
  | ok u =>
      rw [show Prog.ofExcept (.ok u) = (Prog.pure u : Program Unit) from rfl, Prog.pure_bind]
      -- the password: a new one that is sealed, or the stored one that is opened
      refine resolveSMTPPassword_bind hg hfresh₁ hempty hcurrent
        fun d₂ password ciphertext hrely₂ hresolved => ?_
      have hfresh₂ := rely_fresh hrely₂ hfresh₁
      dsimp only
      cases hcredentials : validSMTPCredentials (requestedRecord applied).username
        (decide (password ≠ [])) with
      | false => exact Ends.of_fresh hfresh₂
      | true =>
          rw [if_neg (by decide)]
          -- the test of the connection, and the save behind it
          refine mailer_bind hfresh₂ (fun d' hrely => ?_) fun d₃ hrely₃ => ?_
          · exact (hresolved.mono (rely_subset hrely)).paired hpassword hhost hport husername
          refine saveEmailSettings_bind (rely_fresh hrely₃ hfresh₂) (fun d' revision hrely => ?_)
            fun d' saved => Ends.ok
          have hsub := List.Subset.trans (rely_subset hrely₃) (rely_subset hrely)
          exact (hresolved.mono hsub).backed hcredentials hpassword hclear hhost hport husername

theorem currentMailer_keeps {s : Service} (hfresh : (rules g key).fresh i d) :
    (currentMailer g key s).Keeps (react g key) (rules g key) i (.currentMailer s)
      (fun r d => Ends g key i r d) d := by
  unfold currentMailer
  simp only [Prog.bind_eq]
  refine dependency_bind fun d' hrely hvalid c d'' r hreact => ?_
  have hstill := rely_fresh hrely hfresh
  cases c with
  | fails =>
      obtain ⟨rfl, rfl⟩ := Prod.mk.inj (Option.some.inj hreact)
      exact ⟨hvalid, moves_self _, .of_fresh hstill⟩
  | succeeds =>
      obtain ⟨rfl, hr⟩ := Prod.mk.inj (Option.some.inj hreact)
      refine ⟨hvalid, moves_self _, ?_⟩
      cases hrow : d'.row with
      | none =>
          rw [hrow] at hr
          subst hr
          exact .of_fresh hstill
      | some record =>
          rw [hrow] at hr
          subst hr
          refine mailerForRecord_bind hstill (hvalid.row_backed hrow) fun d₃ hrely₃ => ?_
          split_ifs
          · exact .of_fresh (rely_fresh hrely₃ hstill)
          · exact Ends.ok
  | _ => cases hreact

theorem loadRuntime_keeps {s : Service} (hfresh : (rules g key).fresh i d) :
    (loadRuntime g key s).Keeps (react g key) (rules g key) i (.loadRuntime s)
      (fun r d => Ends g key i r d) d := by
  unfold loadRuntime
  simp only [Prog.bind_eq]
  refine currentEmailSettings_bind (fun d₁ current? hrely₁ hcurrent => ?_)
    fun d' hrely => .of_fresh (rely_fresh hrely hfresh)
  cases current? with
  | none => exact Ends.ok
  | some record =>
      dsimp only
      split_ifs
      · exact Ends.ok
      · rw [← Prog.bind_pure (mailerForRecord g key s record)]
        exact mailerForRecord_bind (rely_fresh hrely₁ hfresh) (hcurrent record rfl)
          fun d' _ => Ends.ok

theorem body_keeps (hg : g.Correct) (hfresh : (rules g key).fresh i d) :
    (call.body g key parseAddress).Keeps (react g key) (rules g key) i call
      (fun r d => Ends g key i r d) d := by
  cases call with
  | save s input =>
      refine Prog.Keeps.bind ((saveEmailSettings_keeps hg hfresh).mono fun r d h => ?_)
      cases r with
      | ok view => exact Ends.ok
      | error e => exact h.error
  | currentMailer s =>
      refine Prog.Keeps.bind ((currentMailer_keeps hfresh).mono fun r d h => ?_)
      cases r with
      | ok mailer => exact Ends.ok
      | error e => exact h.error
  | loadRuntime s =>
      refine Prog.Keeps.bind ((loadRuntime_keeps hfresh).mono fun r d h => ?_)
      cases r with
      | ok u => exact Ends.ok
      | error e => exact h.error

end

/-! ## Runs -/

section

variable {parseAddress : String → Option String} {acts : List (Act Call Choice)} {o : Office}

theorem Desk.valid_empty : Desk.Valid g key {} :=
  ⟨rfl, fun newer s older h => by simp at h, fun s hs => by simp at hs, fun h hh => by simp at hh⟩

theorem Office.sound (hg : g.Correct) (h : Office.run g key parseAddress acts = some o) :
    Pool.Sound (react g key) (rules g key) (fun i _ r d => Ends g key i r d) o := by
  refine Pool.Sound.run (p := ⟨{}, []⟩) (fun i call d _ hfresh => body_keeps hg hfresh)
    (fun i call r d d' hrely hends => hends.rely hrely) ⟨Desk.valid_empty, ?_, ?_⟩ h
  · exact fun i _ => by simp [rules]
  · exact fun hi => by simp at hi

end

/-! ## A run -/

namespace Demo

/-- A request for a server with a login. -/
def request : EmailSettingsInput :=
  ⟨"smtp.example", 587, "starttls", "mailer", some Codec.Demo.plaintext, false,
    "ops@example.com", "Ops", "en", none, none, 0⟩

/-- The same under the next revision, with the password left alone. -/
def kept : EmailSettingsInput := { request with password := none, revision := 1 }

/-- A save, and two that keep the password and are about the same revision. -/
def acts : List (Act Call Choice) :=
  [.spawn (.save {} request), .move 0 .succeeds, .move 0 (.seals Codec.Demo.nonce),
    .move 0 .succeeds, .move 0 .succeeds, .spawn (.save {} kept), .spawn (.save {} kept),
    .move 1 .succeeds, .move 2 .succeeds, .move 1 .succeeds, .move 1 .succeeds,
    .move 2 .succeeds, .move 2 .succeeds]

end Demo

end BindPlane.Settings
