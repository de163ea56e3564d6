import BindPlane.Release.Data

/-!
# Resolving an address to a switch

`networkOf` is the longest-prefix match over the enabled, validated networks of
enabled switches; two equally specific networks of different switches are an error
rather than a choice.  The queries that feed it join a switch with its credential and
its profile (`usableSwitch`), and `Joined.pins` is the column list a job copies.

**Source.**  What is modelled here is in `internal/release/resolution.go` and
`internal/release/store.go`.
-/

namespace BindPlane

/-- The errors of the store and of the handlers over it. -/
inductive Failure
  | badRequest (detail : String)
  | forbidden (detail : String)
  | unprocessable (detail : String)
  | notFound
  | conflict
  | assetChanged
  | invalidIp
  | noSwitch
  | ambiguous
  | staleAsset
  /-- `checkpoint`'s `RuntimeError`. -/
  | leaseLost
  /-- `asyncpg.UniqueViolationError`, SQLSTATE 23505. -/
  | uniqueViolation
  /-- Any other error of a statement. -/
  | database
  deriving DecidableEq, Repr

/-! ## Addresses -/

/-- An octet in canonical decimal: no sign, no leading zero, at most 255. -/
def parseOctet : List Char → Option ℕ
  | [] => none
  | ['0'] => some 0
  | '0' :: _ => none
  | cs =>
      if cs.all Char.isDigit && cs.length ≤ 3 then
        let n := cs.foldl (fun n c => 10 * n + (c.toNat - '0'.toNat)) 0
        if n ≤ 255 then some n else none
      else none

/-- Split at the dots. -/
def splitDots : List Char → List (List Char)
  | [] => [[]]
  | c :: cs =>
      match c == '.', splitDots cs with
      | true, parts => [] :: parts
      | false, part :: parts => (c :: part) :: parts
      | false, [] => [[c]]

/-- The addresses `ResolveNetwork` accepts: `netip.ParseAddr` reads an IPv4 address
and `ip.String()` is the text again. -/
def parseAddr (address : String) : Option IPv4 :=
  match (splitDots address.toList).map parseOctet with
  | [some a, some b, some c, some d] =>
      some (BitVec.ofNat 32 (((a * 256 + b) * 256 + c) * 256 + d))
  | _ => none

/-- `prefix.Addr().Is4() && prefix.Contains(ip)`, with the prefix length. -/
def Cidr.contains (ip : IPv4) : Cidr → Option ℕ
  | .v4 addr bits =>
      if ip >>> (32 - bits.val) = addr >>> (32 - bits.val) then some bits.val else none
  | .v6 _ => none

/-- The text of a `cidr` value. -/
def Cidr.text : Cidr → String
  | .v4 addr bits =>
      let n := addr.toNat
      s!"{n / 2 ^ 24}.{n / 2 ^ 16 % 256}.{n / 2 ^ 8 % 256}.{n % 256}/{bits.val}"
  | .v6 text => text

/-! ## Longest prefix -/

structure Network where
  id : Id
  switchId : Id
  cidr : Cidr
  enabled : Bool
  validated : Bool
  switchEnabled : Bool
  deriving DecidableEq, Repr

/-- The loop variables of `ResolveNetwork` once a network has matched.

`ambiguous` is set when a second network of the same length belongs to another switch, and is taken
back when a longer one is found.  So it depends on the order of the rows while the loop runs, and
not any more at its end. -/
structure BestNetwork where
  best : ℕ
  selected : Network
  ambiguous : Bool

/-- One iteration of the loop; `none` is `best = -1`. -/
def considerNetwork (ip : IPv4) (acc : Option BestNetwork) (network : Network) :
    Option BestNetwork :=
  if !network.enabled || !network.validated || !network.switchEnabled then acc
  else
    match network.cidr.contains ip, acc with
    | none, _ => acc
    | some bits, none => some ⟨bits, network, false⟩
    | some bits, some b =>
        if b.best < bits then some ⟨bits, network, false⟩
        else if bits = b.best && network.switchId ≠ b.selected.switchId then
          some { b with ambiguous := true }
        else acc

/-- `ResolveNetwork` on an address that has been read. -/
def networkOf (ip : IPv4) (networks : List Network) : Except Failure Network :=
  match networks.foldl (considerNetwork ip) none with
  | none => .error .noSwitch
  | some b => if b.ambiguous then .error .ambiguous else .ok b.selected

/-! ## The queries -/

/-- A row of `usableSwitch`: a switch with its credential and its profile. -/
structure Joined where
  switchId : Id
  switch : Asset
  credential : Asset
  profileId : Id
  profile : Asset

namespace Joined

/-- `switchUsable`. -/
def usable (r : Joined) : Bool :=
  r.switch.flag .isEnabled && r.credential.flag .isActive && r.profile.flag .isActive

/-- `pinnedColumns`. -/
def pins (r : Joined) : Pins where
  switchId := r.switchId
  commandProfileId := r.profileId
  switchVersion := r.switch.version
  commandProfileVersion := r.profile.version
  switchName := r.switch.text .name
  switchManagementIp := r.switch.text .managementIp

end Joined

namespace Db

/-- `usableSwitch WHERE s.id=…`. -/
def usableSwitch (d : Db) (switchId : Id) : Option Joined := do
  let switch ← d.asset? .switches switchId
  let credential ← (switch.ref? .credentialId).bind (d.asset? .credentials)
  let profileId ← switch.ref? .commandProfileId
  let profile ← d.asset? .commandProfiles profileId
  return ⟨switchId, switch, credential, profileId, profile⟩

/-- What the join selects is in the tables. -/
theorem usableSwitch_eq_some {d : Db} {switchId : Id} {r : Joined}
    (h : d.usableSwitch switchId = some r) :
    r.switchId = switchId ∧ d.asset? .switches switchId = some r.switch ∧
      r.switch.ref? .commandProfileId = some r.profileId ∧
      d.asset? .commandProfiles r.profileId = some r.profile := by
  simp only [usableSwitch, Option.bind_eq_bind, Option.bind_eq_some_iff, Option.pure_def,
    Option.some.injEq] at h
  obtain ⟨s, hs, c, -, p, hp, a, ha, rfl⟩ := h
  exact ⟨rfl, hs, hp, ha⟩

/-- `activeNetworks`. -/
def activeNetworks (d : Db) : List Network :=
  (d.assetRows .networks).filterMap fun n => do
    let switchId ← n.2.ref? .switchId
    let r ← d.usableSwitch switchId
    let cidr ← match n.2.cell .cidr with
      | .cidr c => some c
      | _ => none
    if r.credential.flag .isActive && r.profile.flag .isActive then
      some ⟨n.1, switchId, cidr, n.2.flag .isEnabled, n.2.flag .isValidated,
        r.switch.flag .isEnabled⟩
    else none

/-- The pinned revision is the one the tables hold, and it is usable. -/
def pinsCurrent (d : Db) (pins : Pins) : Bool :=
  (d.usableSwitch pins.switchId).any fun r =>
    r.profileId = pins.commandProfileId && r.switch.version = pins.switchVersion &&
      r.profile.version = pins.commandProfileVersion && r.usable

end Db

example : parseAddr "10.2.1.7" = some 0x0A020107#32 ∧ parseAddr "10.2.1.07" = none := by
  decide

end BindPlane
