import BindPlane.Release.AdminEdit

/-!
# The service: all operations over one store

`Op` is every transaction the API and the workers run against the release store, with
the arguments it is called with, and `body` is its program.  `Queue` is the resulting
transition system: any number of these transactions, interleaved statement by
statement, each begun at a time of the clock's choosing.

Requests and workers are not distinguished here.  The handlers of the API and the four statements of
the workers are transactions over the same tables, and which of them runs next is up to the
schedule.  What a worker does between its transactions, and with their replies, is a matter of
`BindPlane.Worker.World`, which runs over this system.
-/

namespace BindPlane

open ReadCommitted

/-- A transaction, with what its caller passes.

The clock that a transaction reads is not among these: it is drawn when the transaction begins. -/
inductive Op
  | prepare (p : Principal) (input : PrepareInput)
  | confirm (p : Principal) (input : ConfirmInput)
  | retry (p : Principal) (original : UuidText)
  | updateAudited (actor : Principal) (table : AssetTable) (id : UuidText) (version : ℕ)
      (next : Column → Option Cell)
  | createAssets (actor : Principal) (rows : List NewAsset)
  | sweepExpired
  | claim
  | checkpoint (job : JobRef) (c : Checkpoint)
  | heartbeat (job : JobRef)
  | loadDependencies (switchId commandProfileId : Id)

/-- What comes back. -/
inductive Reply
  | prepared (p : Preparation)
  | job (j : JobReply)
  | version (n : ℕ)
  | created (ids : List Id)
  | swept (ids : List Id)
  | claimed (job : Option ClaimedJob)
  | saved
  | updated (n : ℕ)
  | dependencies (dep : Option Dependencies)
  deriving DecidableEq, Repr

/-- The program of an operation begun at `now`. -/
def body (P : Platform) : Op → Instant → Txn Reply
  | .prepare p input, now => (prepare now p input).bind fun r => .pure (.prepared r)
  | .confirm p input, now => (confirm now p input).bind fun r => .pure (.job r)
  | .retry p original, now => (retry now p original).bind fun r => .pure (.job r)
  | .updateAudited actor table id version next, _ =>
      (updateAudited P actor table id version next).bind fun r => .pure (.version r)
  | .createAssets actor rows, _ =>
      (createAssets actor rows).bind fun r => .pure (.created r)
  | .sweepExpired, now => (sweepExpired now).bind fun r => .pure (.swept r)
  | .claim, now => (claim P now).bind fun r => .pure (.claimed r)
  | .checkpoint job c, now => (checkpoint now job c).bind fun _ => .pure .saved
  | .heartbeat job, now => (heartbeat now job).bind fun r => .pure (.updated r)
  | .loadDependencies switchId profileId, _ =>
      (loadDependencies switchId profileId).bind fun r => .pure (.dependencies r)

/-- The state of the service: the store and the transactions on it, named by number. -/
abbrev Queue := Sys ℕ Db Key Op Instant Failure Reply

/-- A request, a clock tick at which a transaction begins, a statement, a failure. -/
abbrev QueueAction := Action ℕ Op Instant

/-- Any number of actions on the service. -/
abbrev Queue.Steps (P : Platform) : Queue → Queue → Prop := Sys.Steps (body P)

end BindPlane
