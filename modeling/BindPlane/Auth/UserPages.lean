import BindPlane.Auth.UserList
import BindPlane.Codec.Tally

/-!
# Following the cursors of the list of users

The pages of a walk are parts of one list, of the users that match in the order of the query
(`walk_eq`): a page is what its cursor selects of that list.

**What may be lost.**  Where the two spellings of a sort key differ, the next page begins at another
position than behind the last row, and what makes a difference is whether there are users between
the two (`listUsers_complete_iff`).

**One list.**  The proof does not follow the pages one by one.  A page is what its cursor cuts off
the ordered list, and what matters is only whether the cut is where the last page has ended
(`BindPlane.Paging.Keyset`).
-/

namespace BindPlane.UserList

open Assets (isCanonicalUUID)

variable {P : Platform} {db : Database P}

/-! ## The cursor of a user -/

section Cursor

variable {options : AccessListOptions}

theorem canonical_length {value : String} (h : isCanonicalUUID value = true) :
    value.toList.length = 36 :=
  of_decide_eq_true (Bool.and_eq_true_iff.mp h).1

/-- The payload of the cursor that `encodeUserCursor` writes. -/
def userCursor (P : Platform) (user : AccessUser) (options : AccessListOptions) : AccessCursor :=
  ⟨1, options.query, options.roleID, options.status, options.sort, options.direction,
    cursorValue P user options.sort, user.id.1⟩

/-- Options as `storeListOptions` leaves them. -/
structure Stored (options : AccessListOptions) : Prop where
  limit : 0 < options.limit
  sort : options.sort ∈ ["name", "email", "roles", "createdAt"]
  direction : options.direction ∈ ["asc", "desc"]

theorem storeListOptions_stored (options : AccessListOptions) :
    Stored (storeListOptions options) := by
  refine ⟨?_, ?_, ?_⟩
  · show 0 < if options.limit ≤ 0 then defaultAccessPageSize else options.limit
    split
    · decide
    · omega
  · show (if options.sort ∈ ["name", "email", "roles"] then options.sort else "createdAt") ∈ _
    split
    · next h => exact List.mem_append_left ["createdAt"] h
    · decide
  · show (if options.direction ≠ "asc" ∧ options.direction ≠ "desc" then "desc"
      else options.direction) ∈ _
    split
    · decide
    · next h =>
        rw [List.mem_cons, List.mem_singleton]
        exact or_iff_not_and_not.mpr h

theorem Stored.sort_ne (h : Stored options) (other : String)
    (hother : other ∉ ["name", "email", "roles", "createdAt"]) : options.sort ≠ other := by
  intro heq
  rw [← heq] at hother
  exact hother h.sort

theorem Stored.direction_ne (h : Stored options) : options.direction ≠ "" := by
  intro heq
  have hmem := h.direction
  rw [heq] at hmem
  revert hmem
  decide

/-- What is stored stays as it is, with any cursor. -/
theorem storeListOptions_cursor (options : AccessListOptions) (cursor : String) :
    storeListOptions { options with cursor } = { storeListOptions options with cursor } := rfl

/-- The cursor of a user is written. -/
theorem encodeUserCursor_eq (h : Stored options) (user : AccessUser) :
    encodeUserCursor P user options = .ok (String.ofList
      (Base64.encode Base64.urlAlphabet (P.marshal (userCursor P user options)))) := by
  have hsort := h.sort_ne "" (by decide)
  unfold encodeUserCursor encodeAccessCursor
  dsimp only
  rw [if_neg (show ¬ (1 : ℤ) = 0 by decide), if_neg]
  · rfl
  · rintro (hversion | hid | hempty | hempty)
    · exact hversion rfl
    · exact hid user.id.2
    · exact hsort hempty
    · exact h.direction_ne hempty

/-- The text of a cursor is longer than an identifier. -/
theorem encode_length (user : AccessUser) (options : AccessListOptions) :
    36 < (Base64.encode Base64.urlAlphabet (P.marshal (userCursor P user options))).length := by
  have hid : (userCursor P user options).id.length = 36 := canonical_length user.id.2
  have hlow := P.marshal_length (userCursor P user options)
  unfold Base64.encode
  rw [List.length_map, Base64.length_sextets]
  omega

/-- **The cursor of a user is read back.** -/
theorem storeCursor_encode (h : Stored options) {user : AccessUser} {cursor : String}
    (hcursor : encodeUserCursor P user options = .ok cursor) :
    cursor ≠ "" ∧
      storeCursor P { options with cursor } = .ok (some (userCursor P user options), false) := by
  rw [encodeUserCursor_eq h user] at hcursor
  cases hcursor
  have hlength := encode_length (P := P) user options
  generalize hpayload : Base64.encode Base64.urlAlphabet
    (P.marshal (userCursor P user options)) = text at hlength ⊢
  have hne : String.ofList text ≠ "" := by
    intro heq
    have hnil := congrArg String.toList heq
    rw [String.toList_ofList] at hnil
    rw [hnil] at hlength
    exact absurd hlength (by decide)
  have huuid : ¬ isCanonicalUUID (String.ofList text) = true := by
    intro huuid
    have hsame := canonical_length huuid
    rw [String.toList_ofList] at hsame
    omega
  have hdecode : decodeAccessCursor P (String.ofList text) = .ok (userCursor P user options) := by
    unfold decodeAccessCursor
    rw [if_neg hne, String.toList_ofList, ← hpayload, Base64.decodeRaw_encode Base64.url]
    dsimp only
    rw [P.unmarshal_marshal]
    dsimp only
    rw [if_neg]
    rintro (hversion | hempty | hempty | hid)
    · exact hversion rfl
    · exact h.sort_ne "" (by decide) hempty
    · exact h.direction_ne hempty
    · exact hid user.id.2
  refine ⟨hne, ?_⟩
  unfold storeCursor
  rw [if_neg hne, if_neg huuid, hdecode]
  dsimp only
  rw [if_neg, if_neg]
  · exact h.sort_ne "expiresAt" (by decide)
  · rintro (hdiffer | hdiffer | hdiffer | hdiffer | hdiffer)
    all_goals exact hdiffer rfl

end Cursor

/-! ## Pages as parts of one list -/

section Walk

variable {options : AccessListOptions} {r x : AccessUser} {rest : List AccessUser}

/-- The users that match, of options as they are stored. -/
def ordered (db : Database P) (options : AccessListOptions) : List AccessUser :=
  (db.users.filter (filterMatches db options)).insertionSort (orderLE db options · ·)

/-- What the cursor of `r` selects. -/
def cut (db : Database P) (options : AccessListOptions) (r x : AccessUser) : Bool :=
  db.collation.behind (options.direction = "asc") (cursorKey (P := P) options.sort r, r.id)
    (position db options.sort x)

theorem mem_users {db : Database P} (h : x ∈ ordered db options) : x ∈ db.users :=
  List.mem_of_mem_filter ((List.mem_insertionSort _).mp h)

theorem ordered_ids (db : Database P) :
    ((db.users.filter (filterMatches db options)).map AccessUser.id).Nodup :=
  db.ids.sublist (List.filter_sublist.map AccessUser.id)

theorem ordered_sorted (db : Database P) : (ordered db options).Pairwise (Before db options) :=
  sorted_strict (ordered_ids db)

theorem ordered_nodup (db : Database P) : (ordered db options).Nodup := by
  refine (ordered_sorted db).imp fun {a b} h => ?_
  rintro rfl
  exact before_irrefl a h

theorem selectUsers_eq (db : Database P) (boundary : AccessUser → Bool) :
    selectUsers db options boundary =
      ((ordered db options).filter boundary).take (options.limit.toNat + 1) := by
  have hfilter : (db.users.filter fun u => filterMatches db options u && boundary u) =
      (db.users.filter (filterMatches db options)).filter boundary := by
    rw [List.filter_filter]
    exact List.filter_congr fun u _ => Bool.and_comm _ _
  unfold selectUsers ordered
  rw [hfilter, insertionSort_filter (ordered_ids db)]

theorem cursorBoundary_eq (db : Database P) (r : AccessUser) :
    cursorBoundary db options (userCursor P r options) r.id = .ok (cut db options r) := by
  unfold cursorBoundary cut cursorKey
  by_cases h : options.sort ∈ ["name", "email", "roles"]
  · rw [if_pos h, if_pos h]
    rfl
  · rw [if_neg h, if_neg h]
    have hvalue : (userCursor P r options).value = P.formatTime r.createdAt := by
      show cursorValue P r options.sort = _
      unfold cursorValue
      generalize options.sort = sort at h
      split
      · exact absurd (by decide) h
      · exact absurd (by decide) h
      · exact absurd (by decide) h
      · rfl
    rw [hvalue, P.readTime_formatTime]

/-- The cursor that asks for what is behind a position. -/
def Names (P : Platform) (options : AccessListOptions) : Option AccessUser → String → Prop
  | none, cursor => cursor = ""
  | some r, cursor => encodeUserCursor P r options = .ok cursor

/-- **A request** has a page of what is behind the position that its cursor names. -/
theorem listUsers_eq (db : Database P)
    (hrole : options.roleID = "" ∨ P.readUuid options.roleID ≠ none)
    {position : Option AccessUser} {cursor : String}
    (hcursor : Names P (storeListOptions options) position cursor) :
    listUsers db { options with cursor } =
      pageOf (storeListOptions options).limit
        ((Keyset.select (cut db (storeListOptions options))
          (ordered db (storeListOptions options)) position).take
            ((storeListOptions options).limit.toNat + 1))
        (encodeUserCursor P · (storeListOptions options)) := by
  have hreadable : ¬ ((storeListOptions options).roleID ≠ "" ∧
      P.readUuid (storeListOptions options).roleID = none) := by
    rintro ⟨hne, hnone⟩
    exact hrole.elim hne (· hnone)
  have hstored := storeListOptions_stored options
  unfold listUsers listUsersWithOptions
  rw [storeListOptions_cursor]
  generalize storeListOptions options = stored at *
  dsimp only
  cases position with
  | none =>
      cases hcursor
      have hnone : storeCursor P { stored with cursor := "" } = .ok (none, false) := rfl
      rw [hnone]
      dsimp only
      rw [if_neg hreadable]
      simp only [Bool.false_and, Bool.false_or, Bool.false_eq_true, if_false]
      rw [selectUsers_eq, List.filter_eq_self.mpr fun _ _ => rfl]
      rfl
  | some r =>
      obtain ⟨-, hstore⟩ := storeCursor_encode hstored hcursor
      rw [hstore]
      dsimp only
      rw [if_neg hreadable, show P.readUuid (userCursor P r stored).id = some r.id from
        P.readUuid_text r.id]
      simp only [Bool.false_and, Bool.false_or, Bool.false_eq_true, if_false]
      have hboundary : cursorBoundary db stored (userCursor P r stored) r.id = _ :=
        cursorBoundary_eq db r
      rw [show cursorBoundary db { stored with cursor } (userCursor P r stored) r.id =
        .ok (cut db stored r) from hboundary]
      dsimp only
      rw [selectUsers_eq]
      rfl

/-- **The walk** is one of the list of the users that match.

The requests are made one after the other, each with the cursor of the page before; this reduces
them to the walk over a fixed list that `Paging` is about. -/
theorem walk_eq (db : Database P)
    (hrole : options.roleID = "" ∨ P.readUuid options.roleID ≠ none) (fuel : ℕ) :
    ∀ {position : Option AccessUser} {cursor : String},
      Names P (storeListOptions options) position cursor →
      walk db options fuel cursor =
        Keyset.walk (cut db (storeListOptions options)) (storeListOptions options).limit.toNat
          (ordered db (storeListOptions options)) fuel position := by
  induction fuel with
  | zero =>
      intro position cursor _
      rfl
  | succ fuel ih =>
      intro position cursor hcursor
      have hstored := storeListOptions_stored options
      rw [walk, listUsers_eq db hrole hcursor, Keyset.walk]
      unfold pageOf
      generalize List.take _ _ = rows
      by_cases hmore : (storeListOptions options).limit.toNat < rows.length
      · rw [if_pos hmore, if_pos hmore]
        have hlast : (storeListOptions options).limit.toNat - 1 < rows.length := by omega
        rw [List.getElem?_eq_getElem hlast]
        dsimp only
        have hencode := encodeUserCursor_eq (P := P) hstored
          (rows.get ⟨(storeListOptions options).limit.toNat - 1, hlast⟩)
        rw [List.get_eq_getElem] at hencode
        rw [hencode]
        dsimp only
        rw [if_neg (storeCursor_encode hstored hencode).1]
        congr 1
        exact ih hencode
      · rw [if_neg hmore, if_neg hmore]
        rfl

theorem complete_iff_keyset (db : Database P)
    (hrole : options.roleID = "" ∨ P.readUuid options.roleID ≠ none) :
    Complete db options ↔
      Keyset.Complete (cut db (storeListOptions options)) (storeListOptions options).limit.toNat
        (ordered db (storeListOptions options)) := by
  unfold Complete Keyset.Complete
  have hwalk : ∀ fuel, walk db options fuel "" =
      Keyset.walk (cut db (storeListOptions options)) (storeListOptions options).limit.toNat
        (ordered db (storeListOptions options)) fuel none := fun fuel => walk_eq db hrole fuel rfl
  simp only [hwalk]
  rfl

/-- What a cursor selects is an end of the list. -/
theorem cut_suffix (db : Database P) (r : AccessUser) :
    (ordered db options).filter (cut db options r) <:+ ordered db options :=
  Keyset.filter_suffix (ordered_sorted db) fun _ _ => Collation.behind_trans

/-- Of the time of creation and of the address there is one spelling. -/
theorem cursorKey_eq (db : Database P) {sort : String} (hr : r ∈ db.users) (hname : sort ≠ "name")
    (hroles : sort ≠ "roles") : cursorKey (P := P) sort r = sortExpression db sort r := by
  unfold cursorKey cursorValue sortExpression
  split
  · next hsort =>
      simp only [List.mem_cons, List.not_mem_nil, or_false, hname, hroles, false_or] at hsort
      rw [hsort, db.emails r hr]
      rfl
  · next hsort =>
      split
      · exact absurd (by decide) hsort
      · exact absurd (by decide) hsort
      · exact absurd (by decide) hsort
      · rfl

/-- **When following the cursors lists the users.**  Sorted by the time of creation or by address,
always; sorted by name or by roles, exactly if no user that matches lies between the position of
the last row of a full page, with rows behind it, and the position that its cursor stands for.

A cursor has the sort key of the last row as Go spells it, and the next page begins where the
database puts that spelling.  For the time and the address the two agree.  For names and roles they
may not, since Go folds and compares other than the collation does, and then the users between the
row and its spelling are lost, or come twice.  Whether there are any is a question about the stored
users, and the walk itself does not occur in it. -/
theorem listUsers_complete_iff (db : Database P)
    (hrole : options.roleID = "" ∨ P.readUuid options.roleID ≠ none) :
    Complete db options ↔
      (options.sort = "name" ∨ options.sort = "roles" →
        ∀ r rest,
          Keyset.Ends (storeListOptions options).limit.toNat (orderedUsers db options) r rest →
          ∀ x ∈ orderedUsers db options, ¬ Between db options r x) := by
  have hlimit : 0 < (storeListOptions options).limit.toNat := by
    have hpos := (storeListOptions_stored options).limit
    omega
  -- the walk is complete if every page goes on where the one before has ended
  rw [complete_iff_keyset db hrole, Keyset.complete_iff hlimit (ordered_nodup db)
    fun r _ => cut_suffix db r]
  -- it does so at a row if no user lies between the row and its spelling
  have hpage : ∀ r rest, Keyset.Ends (storeListOptions options).limit.toNat
      (ordered db (storeListOptions options)) r rest →
      ((ordered db (storeListOptions options)).filter (cut db (storeListOptions options) r) = rest ↔
        ∀ x ∈ orderedUsers db options, ¬ Between db options r x) := by
    rintro r rest ⟨front, hsplit, -, -⟩
    rw [Keyset.filter_eq_rest_iff (ordered_sorted db) before_irrefl
      (fun _ _ => before_asymm) hsplit]
    refine forall₂_congr fun x _ => ?_
    unfold Between Before
    rw [Classical.not_not]
    exact Bool.eq_iff_iff.symm
  constructor
  · intro hall _ r rest hends
    exact (hpage r rest hends).mp (hall r rest hends)
  · intro hall r rest hends
    refine (hpage r rest hends).mpr ?_
    by_cases hsort : options.sort = "name" ∨ options.sort = "roles"
    · exact hall hsort r rest hends
    · -- the position of the cursor is that of the row
      obtain ⟨front, hsplit, -, -⟩ := hends
      have hmem : r ∈ ordered db (storeListOptions options) := by
        rw [show ordered db (storeListOptions options) = _ from hsplit]
        exact List.mem_append_right front List.mem_cons_self
      have hr : r ∈ db.users := mem_users hmem
      obtain ⟨hname, hroles⟩ := not_or.mp hsort
      have hstored : (storeListOptions options).sort ≠ "name" ∧
          (storeListOptions options).sort ≠ "roles" := by
        show (if options.sort ∈ ["name", "email", "roles"] then options.sort else "createdAt") ≠ _ ∧
          (if options.sort ∈ ["name", "email", "roles"] then options.sort else "createdAt") ≠ _
        split
        · exact ⟨hname, hroles⟩
        · decide
      intro x _ hbetween
      refine hbetween ?_
      rw [cursorKey_eq db hr hstored.1 hstored.2]
      rfl

end Walk

/-! ## A user who is lost -/

namespace Staff

/-- The letter without its accent. -/
def plain (c : Char) : Char := if c = 'é' then 'e' else c

/-- A collation that compares the letters before their accents. -/
def collation : Collation where
  le a b := decide (a.map plain < b.map plain ∨ a.map plain = b.map plain ∧ a ≤ b)
  total a b := by
    rw [decide_eq_true_eq, decide_eq_true_eq]
    rcases lt_trichotomy (a.map plain) (b.map plain) with h | h | h
    · exact Or.inl (Or.inl h)
    · exact (le_total a b).imp (fun hle => Or.inr ⟨h, hle⟩) fun hle => Or.inr ⟨h.symm, hle⟩
    · exact Or.inr (Or.inl h)
  trans a b c := by
    rw [decide_eq_true_eq, decide_eq_true_eq, decide_eq_true_eq]
    rintro (h | ⟨h, hle⟩) (h' | ⟨h', hle'⟩)
    · exact Or.inl (lt_trans h h')
    · exact Or.inl (h' ▸ h)
    · exact Or.inl (h.symm ▸ h')
    · exact Or.inr ⟨h.trans h', le_trans hle hle'⟩
  antisymm a b := by
    rw [decide_eq_true_eq, decide_eq_true_eq]
    rintro (h | ⟨h, hle⟩) (h' | ⟨h', hle'⟩)
    · exact absurd h' (lt_asymm h)
    · exact absurd h (h' ▸ lt_irrefl _)
    · exact absurd h' (h ▸ lt_irrefl _)
    · exact le_antisymm hle hle'

/-- The parts of a cursor. -/
def parts (cursor : AccessCursor) : ℤ × List String :=
  (cursor.version, [cursor.query, cursor.roleID, cursor.status, cursor.sort, cursor.direction,
    cursor.value, cursor.id])

def ofParts : ℤ × List String → Option AccessCursor
  | (version, [query, roleID, status, sort, direction, value, id]) =>
      some ⟨version, query, roleID, status, sort, direction, value, id⟩
  | _ => none

instance : Encodable AccessCursor := Encodable.ofLeftInjection parts ofParts fun _ => rfl

def firstId : Uuid := ⟨"00000000-0000-4000-8000-000000000001", by decide +kernel⟩

def secondId : Uuid := ⟨"00000000-0000-4000-8000-000000000002", by decide +kernel⟩

/-- The cursors of the pages of one user, in both directions. -/
def firstCursor : AccessCursor := ⟨1, "", "", "", "roles", "asc", "fr, école", firstId.1⟩

def secondCursor : AccessCursor := ⟨1, "", "", "", "roles", "desc", "fa", secondId.1⟩

/-- The object of a cursor without a filter. -/
def object (cursor : AccessCursor) : List UInt8 :=
  ("\x7b\"v\":1,\"q\":\"\",\"s\":\"" ++ cursor.sort ++ "\",\"d\":\"" ++ cursor.direction ++
    "\",\"value\":\"" ++ cursor.value ++ "\",\"id\":\"" ++ cursor.id ++ "\"\x7d").toUTF8.toList

def marshal (cursor : AccessCursor) : List UInt8 :=
  if cursor = firstCursor ∨ cursor = secondCursor then object cursor
  else Tally.write cursor.id.length cursor

def unmarshal (payload : List UInt8) : Option AccessCursor :=
  if payload = object firstCursor then some firstCursor
  else if payload = object secondCursor then some secondCursor
  else Tally.read payload

def formatTime (t : ℤ) : String :=
  if t = 0 then "1970-01-01T00:00:00Z"
  else String.ofList (List.replicate (Encodable.encode t) '1')

def readTime (value : String) : Option ℤ :=
  if value = "1970-01-01T00:00:00Z" then some 0 else Encodable.decode value.length

theorem unmarshal_marshal (cursor : AccessCursor) : unmarshal (marshal cursor) = some cursor := by
  unfold unmarshal marshal
  by_cases h : cursor = firstCursor ∨ cursor = secondCursor
  · rw [if_pos h]
    rcases h with rfl | rfl
    · rw [if_pos rfl]
    · rw [if_neg (by decide +kernel), if_pos rfl]
  · have hother : ∀ c, (object c).head? = some 123 →
        Tally.write cursor.id.length cursor ≠ object c :=
      fun c hhead => Tally.write_ne hhead (by decide)
    rw [if_neg h, if_neg (hother _ (by decide +kernel)), if_neg (hother _ (by decide +kernel)),
      Tally.read_write]

theorem readTime_formatTime (t : ℤ) : readTime (formatTime t) = some t := by
  unfold readTime formatTime
  by_cases h : t = 0
  · rw [if_pos h, if_pos rfl, h]
  · rw [if_neg h, if_neg, String.length_ofList, List.length_replicate, Encodable.encodek]
    intro heq
    have hmem : '9' ∈ List.replicate (Encodable.encode t) '1' := by
      rw [← String.toList_ofList (l := List.replicate (Encodable.encode t) '1'), heq]
      decide
    exact absurd (List.eq_of_mem_replicate hmem) (by decide)

/-- The packages, on the texts of these users. -/
def platform : Platform where
  toLower s := s.map Char.toLower
  formatTime := formatTime
  readTime := readTime
  readUuid s := if h : isCanonicalUUID s = true then some ⟨s, h⟩ else none
  marshal := marshal
  unmarshal := unmarshal
  readTime_formatTime := readTime_formatTime
  readUuid_text id := dif_pos id.2
  unmarshal_marshal := unmarshal_marshal
  marshal_length cursor := by
    unfold marshal
    split
    · next h =>
        rcases h with rfl | rfl
        · decide +kernel
        · decide +kernel
    · exact (Tally.length_write _ _).le

def role (id : Uuid) (name : String) : Role := ⟨id, none, name, canonicalRoleName platform name⟩

def user (id : Uuid) (name : String) (roles : List Role) : AccessUser :=
  ⟨id, name, name ++ "@example.org", name ++ "@example.org", 0, false, roles⟩

/-- A user with two roles, which the collation orders otherwise than their bytes. -/
def first : AccessUser := user firstId "first" [role firstId "fr", role secondId "école"]

/-- A user with a role between the two. -/
def second : AccessUser :=
  user secondId "second" [role ⟨"00000000-0000-4000-8000-000000000003", by decide +kernel⟩ "fa"]

def staff : Database platform where
  collation := collation
  lower s := s.map Char.toLower
  users := [first, second]
  ids := by decide +kernel
  emails := by decide +kernel
  roleNames := by decide +kernel
  assignments := by decide +kernel
  systemKeys := by decide +kernel

/-- The users by their roles, one on a page. -/
def byRoles (direction : String) : AccessListOptions := ⟨"", "", "", "", "roles", direction, 1⟩

/-- From the last position on, the walk is complete. -/
theorem descending_complete : Complete staff (byRoles "desc") := by
  refine (listUsers_complete_iff staff (Or.inl rfl)).mpr fun _ r rest hends => ?_
  have hordered : orderedUsers staff (byRoles "desc") = [second, first] := by decide +kernel
  have hlimit : (storeListOptions (byRoles "desc")).limit.toNat = 1 := rfl
  rw [hordered, hlimit] at hends
  rw [hordered]
  obtain ⟨front, hsplit, -, hne⟩ := hends
  have hr : r = second := by
    rcases front with - | ⟨x, - | ⟨y, front⟩⟩
    · exact (List.cons.inj hsplit).1.symm
    · -- the last row has none behind it
      exact absurd (List.cons.inj (List.cons.inj hsplit).2).2.symm hne
    · have hlength := congrArg List.length (List.cons.inj (List.cons.inj hsplit).2).2
      exact absurd hlength (by simp)
  rw [hr]
  decide +kernel

/-- **A user is lost.**  The roles of the first user are `"école, fr"` to the database and
`"fr, école"` in the cursor; the second has the role `"fa"`. -/
theorem second_lost : ¬ Complete staff (byRoles "asc") ∧
    orderedUsers staff (byRoles "asc") = [first, second] ∧
    walk staff (byRoles "asc") 2 "" = some [[first], []] := by
  have hordered : ordered staff (storeListOptions (byRoles "asc")) = [first, second] := by
    decide +kernel
  refine ⟨?_, hordered, ?_⟩
  · rw [complete_iff_keyset staff (Or.inl rfl), Keyset.complete_iff (by decide)
      (ordered_nodup staff) fun r _ => cut_suffix staff r, hordered]
    intro hall
    exact absurd (hall first [second] ⟨[], rfl, Nat.dvd_refl 1, List.cons_ne_nil _ _⟩)
      (by decide +kernel)
  · have hwalk : walk staff (byRoles "asc") 2 "" = Keyset.walk _ _ _ 2 none :=
      walk_eq staff (Or.inl rfl) 2 rfl
    rw [hwalk, hordered]
    decide +kernel

end Staff

end BindPlane.UserList
