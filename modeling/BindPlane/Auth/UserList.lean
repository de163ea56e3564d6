import Mathlib.Data.List.Sort
import Mathlib.Data.String.Basic
import Mathlib.Order.Defs.LinearOrder
import BindPlane.Assets.Data
import BindPlane.Codec.Base64
import BindPlane.Paging.Keyset

/-!
# The list of users

`ListUsersWithOptions` and its cursor.  A page is what PostgreSQL selects, in the order of an
expression in the sort key and of the id; the cursor holds the sort key and the id of its last row,
and the next page begins behind that position.

**Two spellings of one key.**  The order is the database's, in its collation, and the sort key of
the cursor is computed in Go (`encodeUserCursor`).  For the time of creation and the address both
are the same.  A name is lowered by `lower` in the one and `strings.ToLower` in the other, and the
names of a user's roles are joined in the order of the collation in the one and of their bytes in
the other.

**Source.**  What is modelled here is in `internal/auth/adapter/postgres/access.go`,
`internal/auth/application/cursor.go` and `internal/auth/domain/access.go`.
-/

namespace BindPlane.UserList

open Assets (isCanonicalUUID)

/-! ## The database -/

/-- A UUID, as its canonical text: the order of the texts is that of the UUIDs. -/
abbrev Uuid : Type := { text : String // isCanonicalUUID text = true }

instance Uuid.lawfulBEq : LawfulBEq Uuid := inferInstance

/-- A row of `auth_roles`. -/
structure Role where
  id : Uuid
  systemKey : Option String
  name : String
  nameCanonical : String
  deriving DecidableEq

/-- `IsSystem`, of the key that `COALESCE(r.system_key, '')` reads. -/
def Role.isSystem (r : Role) : Bool := r.systemKey.getD "" ≠ ""

/-- A row of `auth_users`, with the roles assigned. -/
structure AccessUser where
  id : Uuid
  name : String
  email : String
  emailCanonical : String
  createdAt : ℤ
  disabled : Bool
  roles : List Role
  deriving DecidableEq

structure AccessCursor where
  version : ℤ
  query : String
  roleID : String
  status : String
  sort : String
  direction : String
  value : String
  id : String
  deriving DecidableEq

structure AccessListOptions where
  cursor : String
  query : String
  roleID : String
  status : String
  sort : String
  direction : String
  limit : ℤ
  deriving DecidableEq

/-- What is used of Go's packages, and of how PostgreSQL reads a parameter. -/
structure Platform where
  /-- `strings.ToLower`. -/
  toLower : String → String
  /-- `Format(time.RFC3339Nano)`, of a time in microseconds. -/
  formatTime : ℤ → String
  /-- A parameter of type `timestamptz`. -/
  readTime : String → Option ℤ
  /-- A parameter of type `uuid`. -/
  readUuid : String → Option Uuid
  /-- `json.Marshal`. -/
  marshal : AccessCursor → List UInt8
  /-- `json.Unmarshal`. -/
  unmarshal : List UInt8 → Option AccessCursor
  readTime_formatTime : ∀ t, readTime (formatTime t) = some t
  readUuid_text : ∀ id : Uuid, readUuid id.1 = some id
  unmarshal_marshal : ∀ cursor, unmarshal (marshal cursor) = some cursor
  /-- The id is in the object. -/
  marshal_length : ∀ cursor, cursor.id.length ≤ (marshal cursor).length

variable (P : Platform)

/-- `CanonicalRoleName`. -/
def canonicalRoleName (value : String) : String :=
  P.toLower (String.intercalate " " ((goFields value.toList).map String.ofList))

/-- **A collation**: a total order of texts that tells different texts from each other. -/
structure Collation where
  le : String → String → Bool
  total : ∀ a b, le a b = true ∨ le b a = true
  trans : ∀ a b c, le a b = true → le b c = true → le a c = true
  antisymm : ∀ a b, le a b = true → le b a = true → a = b

/-- The tables, with what every writer of them keeps to.

The collation and `lower` belong to the database, and their counterparts in Go to the platform; the
two are independent parameters, because they are two implementations of Unicode. -/
structure Database where
  collation : Collation
  /-- `lower`. -/
  lower : String → String
  users : List AccessUser
  ids : (users.map AccessUser.id).Nodup
  /-- `NewEmail`. -/
  emails : ∀ u ∈ users, u.emailCanonical = P.toLower u.email
  /-- `CreateRole`, `UpdateRole`. -/
  roleNames : ∀ u ∈ users, ∀ r ∈ u.roles, r.nameCanonical = canonicalRoleName P r.name
  /-- The primary key of `auth_user_roles`. -/
  assignments : ∀ u ∈ users, (u.roles.map Role.id).Nodup
  /-- The constraint `auth_roles_system_key`. -/
  systemKeys : ∀ u ∈ users, ∀ r ∈ u.roles, r.systemKey = none ∨ r.systemKey = some "super_admin"

/-! ## Sort keys -/

/-- A sort key. -/
inductive Key
  | text (s : String)
  | time (t : ℤ)
  deriving DecidableEq

/-- The order of sort keys; a text and a time never meet. -/
def Collation.keyLE (collation : Collation) : Key → Key → Bool
  | .text a, .text b => collation.le a b
  | .time a, .time b => a ≤ b
  | .text _, .time _ => true
  | .time _, .text _ => false

def Collation.keyLT (collation : Collation) (a b : Key) : Bool := !collation.keyLE b a

/-- A position in the list. -/
abbrev Position : Type := Key × Uuid

/-- `(expression < value OR (expression = value AND u.id < id))`, or with `>`. -/
def Collation.behind (collation : Collation) (asc : Bool) (p q : Position) : Bool :=
  if asc then collation.keyLT p.1 q.1 || (p.1 = q.1 && p.2.1 < q.2.1)
  else collation.keyLT q.1 p.1 || (p.1 = q.1 && q.2.1 < p.2.1)

/-- The order of `string_agg`: `(r_sort.system_key IS NULL), r_sort.name_canonical, r_sort.id`. -/
def Collation.roleLE (collation : Collation) (a b : Role) : Bool :=
  if a.systemKey.isNone = b.systemKey.isNone then
    if a.nameCanonical = b.nameCanonical then a.id.1 ≤ b.id.1
    else collation.le a.nameCanonical b.nameCanonical
  else b.systemKey.isNone

variable {P} in
/-- The expression of `accessOrder` and `cursorBoundary`. -/
def sortExpression (db : Database P) (sort : String) (u : AccessUser) : Key :=
  match sort with
  | "name" => .text (db.lower u.name)
  | "email" => .text u.emailCanonical
  | "roles" => .text (String.intercalate ", "
      ((u.roles.insertionSort (db.collation.roleLE · ·)).map Role.nameCanonical))
  | _ => .time u.createdAt

/-- The order of `userRoleSortKey`. -/
def goRoleLE (a b : Role) : Bool :=
  if a.isSystem ≠ b.isSystem then a.isSystem
  else if canonicalRoleName P a.name ≠ canonicalRoleName P b.name then
    canonicalRoleName P a.name < canonicalRoleName P b.name
  else a.id.1 ≤ b.id.1

/-- `userRoleSortKey`. -/
def userRoleSortKey (user : AccessUser) : String :=
  String.intercalate ", "
    ((user.roles.insertionSort (goRoleLE P · ·)).map fun role => canonicalRoleName P role.name)

/-- The value that `encodeUserCursor` writes. -/
def cursorValue (user : AccessUser) (sort : String) : String :=
  match sort with
  | "name" => P.toLower user.name
  | "email" => P.toLower user.email
  | "roles" => userRoleSortKey P user
  | _ => P.formatTime user.createdAt

/-! ## Cursors -/

inductive ListError
  | invalidCursor
  /-- An error of the database. -/
  | database
  deriving DecidableEq

/-- `EncodeAccessCursor`. -/
def encodeAccessCursor (cursor : AccessCursor) : Except ListError String :=
  let cursor := if cursor.version = 0 then { cursor with version := 1 } else cursor
  if cursor.version ≠ 1 ∨ ¬ isCanonicalUUID cursor.id ∨ cursor.sort = "" ∨
      cursor.direction = "" then
    .error .invalidCursor
  else .ok (String.ofList (Base64.encode Base64.urlAlphabet (P.marshal cursor)))

/-- `DecodeAccessCursor`. -/
def decodeAccessCursor (value : String) : Except ListError AccessCursor :=
  if value = "" then .error .invalidCursor
  else
    match Base64.decodeRaw Base64.urlAlphabet value.toList with
    | none => .error .invalidCursor
    | some payload =>
        match P.unmarshal payload with
        | none => .error .invalidCursor
        | some cursor =>
            if cursor.version ≠ 1 ∨ cursor.sort = "" ∨ cursor.direction = "" ∨
                ¬ isCanonicalUUID cursor.id then
              .error .invalidCursor
            else .ok cursor

/-- `DefaultAccessPageSize`. -/
def defaultAccessPageSize : ℤ := 25

/-- `storeListOptions`, for users. -/
def storeListOptions (options : AccessListOptions) : AccessListOptions :=
  let query := Devices.trimSpace options.query
  let limit := if options.limit ≤ 0 then defaultAccessPageSize else options.limit
  let direction := if options.direction ≠ "asc" ∧ options.direction ≠ "desc" then "desc"
    else options.direction
  let sort := if options.sort ∈ ["name", "email", "roles"] then options.sort else "createdAt"
  { options with query, limit, sort, direction }

/-- `storeCursor`, for users; `none` without a cursor. -/
def storeCursor (options : AccessListOptions) :
    Except ListError (Option AccessCursor × Bool) :=
  if options.cursor = "" then .ok (none, false)
  else if isCanonicalUUID options.cursor then
    if options.query ≠ "" ∨ options.roleID ≠ "" ∨ options.status ≠ "" ∨
        options.sort ≠ "createdAt" ∨ options.direction ≠ "desc" then
      .error .invalidCursor
    else .ok (some ⟨1, options.query, "", "", options.sort, options.direction, "",
      options.cursor⟩, true)
  else
    match decodeAccessCursor P options.cursor with
    | .error _ => .error .invalidCursor
    | .ok cursor =>
        if cursor.query ≠ options.query ∨ cursor.roleID ≠ options.roleID ∨
            cursor.status ≠ options.status ∨ cursor.sort ≠ options.sort ∨
            cursor.direction ≠ options.direction then
          .error .invalidCursor
        else if cursor.sort = "expiresAt" then .error .invalidCursor
        else .ok (some cursor, false)

/-- `encodeUserCursor`. -/
def encodeUserCursor (user : AccessUser) (options : AccessListOptions) :
    Except ListError String :=
  encodeAccessCursor P ⟨1, options.query, options.roleID, options.status, options.sort,
    options.direction, cursorValue P user options.sort, user.id.1⟩

/-! ## Pages -/

structure UserPage where
  items : List AccessUser
  nextCursor : String := ""
  deriving DecidableEq

variable {P} (db : Database P)

/-- `text LIKE '%' || pattern || '%'`, of a pattern that is escaped. -/
def contains (pattern text : List Char) : Bool := text.tails.any pattern.isPrefixOf

/-- The `WHERE` clauses of the filter. -/
def filterMatches (options : AccessListOptions) (u : AccessUser) : Bool :=
  let pattern := (P.toLower options.query).toList
  (pattern = [] || contains pattern (db.lower u.name).toList ||
      contains pattern (db.lower u.email).toList) &&
    (if options.status = "disabled" then u.disabled
      else if options.status = "active" then !u.disabled else true) &&
    (options.roleID = "" || u.roles.any fun r => P.readUuid options.roleID = some r.id)

/-- The position of a user. -/
def position (sort : String) (u : AccessUser) : Position := (sortExpression db sort u, u.id)

/-- `accessOrder`. -/
def orderLE (options : AccessListOptions) (a b : AccessUser) : Bool :=
  !db.collation.behind (options.direction = "asc") (position db options.sort b)
    (position db options.sort a)

/-- The rows that the query returns, in its order: those of the filter and behind the boundary. -/
def selectUsers (options : AccessListOptions) (boundary : AccessUser → Bool) :
    List AccessUser :=
  ((db.users.filter fun u => filterMatches db options u && boundary u).insertionSort
    (orderLE db options · ·)).take (options.limit.toNat + 1)

/-- `cursorBoundary`, with the value as PostgreSQL reads it. -/
def cursorBoundary (options : AccessListOptions) (cursor : AccessCursor) (id : Uuid) :
    Except ListError (AccessUser → Bool) :=
  let bound (value : Key) (u : AccessUser) : Bool :=
    db.collation.behind (options.direction = "asc") (value, id) (position db options.sort u)
  if options.sort ∈ ["name", "email", "roles"] then .ok (bound (.text cursor.value))
  else
    match P.readTime cursor.value with
    | some t => .ok (bound (.time t))
    | none => .error .database

/-- The query of the previous endpoint, by ascending ids. -/
def selectLegacy (options : AccessListOptions) (boundary : AccessUser → Bool) :
    List AccessUser :=
  ((db.users.filter fun u => filterMatches db options u && boundary u).insertionSort
    fun a b => a.id.1 ≤ b.id.1).take (options.limit.toNat + 1)

/-- The page of some rows, one more than it holds. -/
def pageOf (limit : ℤ) (rows : List AccessUser)
    (next : AccessUser → Except ListError String) : Except ListError UserPage :=
  if limit.toNat < rows.length then
    match rows[limit.toNat - 1]? with
    | some last =>
        match next last with
        | .ok cursor => .ok ⟨rows.take limit.toNat, cursor⟩
        | .error e => .error e
    | none => .ok { items := rows }
  else .ok { items := rows }

/-- `listUsersWithOptions`. -/
def listUsersWithOptions (options : AccessListOptions) (forceLegacy : Bool) :
    Except ListError UserPage :=
  let options := storeListOptions options
  match storeCursor P options with
  | .error e => .error e
  | .ok (cursor, legacy) =>
      let legacy := legacy ||
        (forceLegacy && (options.cursor = "" || isCanonicalUUID options.cursor))
      if options.roleID ≠ "" ∧ P.readUuid options.roleID = none then .error .database
      else
        match cursor with
        | none =>
            if legacy then
              pageOf options.limit (selectLegacy db options fun _ => true) fun last =>
                .ok last.id.1
            else
              pageOf options.limit (selectUsers db options fun _ => true) fun last =>
                encodeUserCursor P last options
        | some cursor =>
            match P.readUuid cursor.id with
            | none => .error .database
            | some id =>
                if legacy then
                  pageOf options.limit (selectLegacy db options fun u => id.1 < u.id.1)
                    fun last => .ok last.id.1
                else
                  match cursorBoundary db options cursor id with
                  | .error e => .error e
                  | .ok boundary =>
                      pageOf options.limit (selectUsers db options boundary) fun last =>
                        encodeUserCursor P last options

/-- `ListUsersWithOptions`. -/
def listUsers (options : AccessListOptions) : Except ListError UserPage :=
  listUsersWithOptions db options false

/-! ## Walking the list -/

/-- The users that match, in the order of `accessOrder`. -/
def orderedUsers (options : AccessListOptions) : List AccessUser :=
  (db.users.filter (filterMatches db (storeListOptions options))).insertionSort
    (orderLE db (storeListOptions options) · ·)

/-- Requests one after the other, each with the cursor of the page before, until there is none: the
pages, or nothing where a request fails or some number of them is not enough. -/
def walk (options : AccessListOptions) : ℕ → String → Option (List (List AccessUser))
  | 0, _ => none
  | fuel + 1, cursor =>
      match listUsers db { options with cursor } with
      | .error _ => none
      | .ok page =>
          if page.nextCursor = "" then some [page.items]
          else (walk options fuel page.nextCursor).map (page.items :: ·)

/-- **A walk is complete** if it ends without an error and its pages are the users that match, each
once, in their order.

A walk follows the cursors from the first page, over a table that does not change.  So what is lost
here is lost by the cursors alone. -/
def Complete (options : AccessListOptions) : Prop :=
  ∃ fuel pages, walk db options fuel "" = some pages ∧
    pages.flatten = orderedUsers db options

/-- The sort key that the cursor of a user stands for. -/
def cursorKey (sort : String) (u : AccessUser) : Key :=
  if sort ∈ ["name", "email", "roles"] then .text (cursorValue P u sort) else .time u.createdAt

/-- `x` lies between the position of `r` and the one that its cursor stands for: it is behind the
one and not behind the other. -/
def Between (options : AccessListOptions) (r x : AccessUser) : Prop :=
  let options := storeListOptions options
  let asc : Bool := options.direction = "asc"
  db.collation.behind asc (cursorKey (P := P) options.sort r, r.id) (position db options.sort x) ≠
    db.collation.behind asc (position db options.sort r) (position db options.sort x)

instance (options : AccessListOptions) (r x : AccessUser) :
    Decidable (Between db options r x) :=
  inferInstanceAs (Decidable (_ ≠ _))

/-! ## Orders -/

section Orders

variable {collation : Collation} {asc : Bool} {a b c : Key} {p q r : Position}

theorem Collation.keyLE_total (a b : Key) :
    collation.keyLE a b = true ∨ collation.keyLE b a = true := by
  cases a with
  | text a =>
      cases b with
      | text b => exact collation.total a b
      | time b => exact Or.inl rfl
  | time a =>
      cases b with
      | text b => exact Or.inr rfl
      | time b =>
          unfold Collation.keyLE
          rw [decide_eq_true_eq, decide_eq_true_eq]
          exact Int.le_total a b

theorem Collation.keyLE_trans (h : collation.keyLE a b = true) (h' : collation.keyLE b c = true) :
    collation.keyLE a c = true := by
  cases a with
  | text a =>
      cases b with
      | text b =>
          cases c with
          | text c => exact collation.trans a b c h h'
          | time c => rfl
      | time b =>
          cases c with
          | text c => cases h'
          | time c => rfl
  | time a =>
      cases b with
      | text b => cases h
      | time b =>
          cases c with
          | text c => cases h'
          | time c =>
              unfold Collation.keyLE at *
              rw [decide_eq_true_eq] at *
              exact Int.le_trans h h'

theorem Collation.keyLE_antisymm (h : collation.keyLE a b = true)
    (h' : collation.keyLE b a = true) : a = b := by
  cases a with
  | text a =>
      cases b with
      | text b => rw [collation.antisymm a b h h']
      | time b => cases h'
  | time a =>
      cases b with
      | text b => cases h
      | time b =>
          unfold Collation.keyLE at *
          rw [decide_eq_true_eq] at *
          rw [Int.le_antisymm h h']

theorem Collation.keyLT_iff :
    collation.keyLT a b = true ↔ collation.keyLE a b = true ∧ a ≠ b := by
  unfold Collation.keyLT
  rw [Bool.not_eq_true', Bool.eq_false_iff]
  constructor
  · intro h
    refine ⟨(collation.keyLE_total a b).resolve_right h, ?_⟩
    rintro rfl
    exact h ((collation.keyLE_total a a).elim id id)
  · rintro ⟨h, hne⟩ h'
    exact hne (collation.keyLE_antisymm h h')

/-- What `behind` says of ascending positions. -/
def Collation.Below (collation : Collation) (p q : Position) : Prop :=
  collation.keyLT p.1 q.1 = true ∨ p.1 = q.1 ∧ p.2.1 < q.2.1

theorem Collation.behind_iff : collation.behind asc p q = true ↔
    if asc then collation.Below p q else collation.Below q p := by
  unfold Collation.behind Collation.Below
  cases asc with
  | true => simp only [if_true, Bool.or_eq_true, Bool.and_eq_true, decide_eq_true_eq]
  | false =>
      simp only [Bool.false_eq_true, if_false, Bool.or_eq_true, Bool.and_eq_true,
        decide_eq_true_eq]
      rw [eq_comm (a := p.1)]

theorem Collation.below_irrefl (p : Position) : ¬ collation.Below p p := by
  rintro (h | ⟨-, h⟩)
  · exact (Collation.keyLT_iff.mp h).2 rfl
  · exact lt_irrefl _ h

theorem Collation.below_trans (h : collation.Below p q) (h' : collation.Below q r) :
    collation.Below p r := by
  rcases h with h | ⟨heq, h⟩
  · obtain ⟨hle, hne⟩ := Collation.keyLT_iff.mp h
    rcases h' with h' | ⟨heq', -⟩
    · obtain ⟨hle', -⟩ := Collation.keyLT_iff.mp h'
      refine Or.inl (Collation.keyLT_iff.mpr ⟨Collation.keyLE_trans hle hle', fun hsame => ?_⟩)
      rw [← hsame] at hle'
      exact hne (Collation.keyLE_antisymm hle hle')
    · rw [heq'] at h
      exact Or.inl h
  · rcases h' with h' | ⟨heq', h'⟩
    · rw [← heq] at h'
      exact Or.inl h'
    · exact Or.inr ⟨heq.trans heq', lt_trans h h'⟩

theorem Collation.below_total (hne : p ≠ q) : collation.Below p q ∨ collation.Below q p := by
  by_cases heq : p.1 = q.1
  · rcases lt_trichotomy p.2.1 q.2.1 with h | h | h
    · exact Or.inl (Or.inr ⟨heq, h⟩)
    · exact absurd (Prod.ext heq (Subtype.ext h)) hne
    · exact Or.inr (Or.inr ⟨heq.symm, h⟩)
  · rcases collation.keyLE_total p.1 q.1 with h | h
    · exact Or.inl (Or.inl (Collation.keyLT_iff.mpr ⟨h, heq⟩))
    · exact Or.inr (Or.inl (Collation.keyLT_iff.mpr ⟨h, Ne.symm heq⟩))

theorem Collation.behind_irrefl (p : Position) : collation.behind asc p p = false := by
  rw [Bool.eq_false_iff]
  intro h
  rw [Collation.behind_iff, ite_self] at h
  exact Collation.below_irrefl p h

theorem Collation.behind_trans (h : collation.behind asc p q = true)
    (h' : collation.behind asc q r = true) : collation.behind asc p r = true := by
  rw [Collation.behind_iff] at *
  cases asc with
  | true => exact Collation.below_trans h h'
  | false => exact Collation.below_trans h' h

theorem Collation.behind_total (hne : p ≠ q) :
    collation.behind asc p q = true ∨ collation.behind asc q p = true := by
  rw [Collation.behind_iff, Collation.behind_iff]
  cases asc with
  | true => exact Collation.below_total hne
  | false => exact (Collation.below_total hne).symm

theorem Collation.behind_asymm (h : collation.behind asc p q = true) :
    collation.behind asc q p = false := by
  rw [Bool.eq_false_iff]
  intro h'
  have hself := Collation.behind_trans h h'
  rw [Collation.behind_irrefl] at hself
  cases hself

end Orders

/-! ## The query -/

section Query

variable {db} {options : AccessListOptions} {l : List AccessUser} {boundary : AccessUser → Bool}

/-- `a` comes before `b`. -/
def Before (db : Database P) (options : AccessListOptions) (a b : AccessUser) : Prop :=
  db.collation.behind (options.direction = "asc") (position db options.sort a)
    (position db options.sort b) = true

instance : DecidableRel (Before db options) := fun _ _ => inferInstanceAs (Decidable (_ = true))

theorem orderLE_iff (a b : AccessUser) :
    orderLE db options a b = true ↔ ¬ Before db options b a := by
  unfold orderLE Before
  rw [Bool.not_eq_true', Bool.eq_false_iff]

theorem before_asymm {a b : AccessUser} (h : Before db options a b) :
    ¬ Before db options b a := Bool.eq_false_iff.mp (Collation.behind_asymm h)

theorem before_irrefl (a : AccessUser) : ¬ Before db options a a :=
  Bool.eq_false_iff.mp (Collation.behind_irrefl _)

instance : Std.Total (orderLE db options · ·) where
  total a b := by
    rw [orderLE_iff, orderLE_iff]
    by_cases h : Before db options b a
    · exact Or.inr (before_asymm h)
    · exact Or.inl h

instance : IsTrans AccessUser (orderLE db options · ·) where
  trans a b c h h' := by
    rw [orderLE_iff] at *
    intro hca
    by_cases hsame : position db options.sort b = position db options.sort c
    · refine h ?_
      unfold Before at hca ⊢
      rw [hsame]
      exact hca
    · rcases Collation.behind_total hsame with hbc | hcb
      · exact h (Collation.behind_trans hbc hca)
      · exact h' hcb

/-- The order of the query sorts users of different ids strictly. -/
theorem sorted_strict (hids : (l.map AccessUser.id).Nodup) :
    (l.insertionSort (orderLE db options · ·)).Pairwise (Before db options) := by
  have hsorted := List.pairwise_insertionSort (orderLE db options · ·) l
  have hperm := (List.perm_insertionSort (orderLE db options · ·) l).map AccessUser.id
  have hdiffer := List.pairwise_map.mp (hperm.nodup_iff.mpr hids)
  refine (hsorted.and hdiffer).imp fun {a b} hab => ?_
  have hne : position db options.sort a ≠ position db options.sort b :=
    fun heq => hab.2 (congrArg Prod.snd heq)
  exact (Collation.behind_total hne).resolve_right ((orderLE_iff a b).mp hab.1)

/-- Selecting before sorting, or behind it, makes no difference. -/
theorem insertionSort_filter (hids : (l.map AccessUser.id).Nodup) (p : AccessUser → Bool) :
    (l.filter p).insertionSort (orderLE db options · ·) =
      (l.insertionSort (orderLE db options · ·)).filter p := by
  have hids' : ((l.filter p).map AccessUser.id).Nodup :=
    hids.sublist (List.filter_sublist.map AccessUser.id)
  refine List.Perm.eq_of_pairwise (fun a b _ _ h h' => absurd h' (before_asymm h))
    (sorted_strict hids') ((sorted_strict hids).sublist List.filter_sublist) ?_
  exact (List.perm_insertionSort _ _).trans ((List.perm_insertionSort _ l).filter p).symm

end Query

end BindPlane.UserList
