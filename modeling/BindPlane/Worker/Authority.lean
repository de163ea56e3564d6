import BindPlane.Worker.Commands

/-!
# On whose authority a release runs

Authority is checked at four places: by the handlers of Prepare and Confirm, by
`CanConfirmRelease` under the lock of the preparation, and by `device_task` on its fresh query.
What they give together is read off three facts: a release stands on its preparation
(`Db.Confirmed`), it was queued by a committed Confirm (`Queue.Reachable.confirmed_by`), and
its journal keeps to the guard.
-/

namespace BindPlane

open ReadCommitted Coroutine Journal

variable {py : Python}

namespace World

variable {P : Platform} {w : World py}

/-- The release command is sent behind a fresh query of the job's own session, which found
the target static, or missing under force. -/
theorem Reachable.command_allowed (h : w.Reachable P) {id : Id} {session : Session py}
    (hs : .called (Call.release session) ∈ w.journal id) :
    ∃ j h₀, w.queue.db.job? id = some j ∧ j.kind = .release ∧ session.ip = j.targetIp ∧
      .called (Call.release session) :: h₀ <:+ w.journal id ∧
      ∃ rawBefore before, .returned (Call.queryBefore session) (.ok rawBefore) ∈ h₀ ∧
        parseArpObservation py j.targetIp rawBefore session.profile.parserRules = .ok before ∧
        (before.entryType = .static ∨ (before.entryType = .missing ∧ j.force = true)) := by
  obtain ⟨t, job, j, -, -, hallowed, hj, -, hdesc⟩ := h.owner (List.ne_nil_of_mem hs)
  obtain ⟨h₀, hsuf, ⟨rawBefore, before, hm, hparse, hentry⟩, hip⟩ :=
    entered_authorised hallowed hs
  have hkind : j.kind = .release := hdesc.kind.symm.trans (entered_kind hallowed ⟨session, hs⟩)
  have hip : session.ip = j.targetIp := hip.trans hdesc.targetIp
  rw [hip] at hparse
  rw [hdesc.force] at hentry
  exact ⟨j, h₀, hj, hkind, hip, hsuf, rawBefore, before, hm, hparse, hentry⟩

/-- **The authority of a release.**  Every release has a preparation with the same actor,
address, reason and pins, and was queued by a confirmation of it by its owner; it is forced
only if that owner was an administrator then and the preparation had found no entry, and
unforced only if it had found a static one; no preparation has two releases; and a release
command is sent only when the job's own fresh query found the address static, or missing
under force.

The theorem joins what is known from three sides.  What a release copies from its preparation is an
invariant of the store (`Db.Confirmed`).  Who confirmed it is not in the store at all: it is read
off the transaction that inserted the row, which is still among the committed ones.  And that the
executor looked for itself before it sent the command is a fact of its journal, in which the fresh
query stands behind the command. -/
theorem Reachable.release_authorised (h : w.Reachable P) :
    (∀ id j, w.queue.db.job? id = some j → j.kind = .release → ∃ p prep,
      j.preparationJobId = some p ∧ w.queue.db.job? p = some prep ∧
      prep.kind = .preReleaseQuery ∧ j.actorId = prep.actorId ∧ j.targetIp = prep.targetIp ∧
      j.reason = prep.reason ∧ j.pins = prep.pins ∧
      (j.force = true → prep.entryType = some .missing) ∧
      (j.force = false → prep.entryType = some .static) ∧
      ∃ t princ input now reply,
        w.queue.txns t = .committed (.confirm princ input) now (.job reply) ∧
        input.preparationJobId = .canonical p ∧ reply.id = id ∧ princ.userId = prep.actorId ∧
        input.force = j.force ∧ (j.force = true → princ.admin = true)) ∧
    (∀ p id id', w.queue.db.IsRelease p id → w.queue.db.IsRelease p id' → id = id') ∧
    (∀ id session, .called (Call.release session) ∈ w.journal id →
      ∃ j h₀, w.queue.db.job? id = some j ∧ j.kind = .release ∧ session.ip = j.targetIp ∧
        .called (Call.release session) :: h₀ <:+ w.journal id ∧
        ∃ rawBefore before, .returned (Call.queryBefore session) (.ok rawBefore) ∈ h₀ ∧
          parseArpObservation py j.targetIp rawBefore session.profile.parserRules = .ok before ∧
          (before.entryType = .static ∨ (before.entryType = .missing ∧ j.force = true))) := by
  have hd := h.queue.confirmed
  refine ⟨fun id j hj hkind => ?_, hd.unique, fun id session hs => h.command_allowed hs⟩
  obtain ⟨p, hp, t, princ, input, now, reply, ht, hinput, hid, hactor, hforce, hadmin⟩ :=
    h.queue.confirmed_by hj hkind
  obtain ⟨prep, hprep, ha⟩ := hd.authorized id j p hj hp
  exact ⟨p, prep, hp, hprep, ha.preparation, ha.actor, ha.targetIp, ha.reason, ha.pins,
    ha.forced, ha.unforced, t, princ, input, now, reply, ht, hinput, hid,
    hactor.trans ha.actor, hforce, hadmin⟩

end World

/-- In the concrete run the release `10` stands on the pre-query `4`, and no other release
does. -/
theorem Demo.commanded_authorised : Demo.commanded.queue.db.IsRelease 4 10 ∧
    ∀ id, Demo.commanded.queue.db.IsRelease 4 id → id = 10 := by
  have hten : Demo.commanded.queue.db.IsRelease 4 10 := by
    have hany : (Demo.commanded.queue.db.job? 10).any (·.preparationJobId = some 4) := by
      decide +kernel
    obtain ⟨j, hj, hp⟩ := (Option.any_eq_true _ _).mp hany
    exact ⟨j, hj, by simpa using hp⟩
  exact ⟨hten, fun id hid => Demo.commanded_reachable.release_authorised.2.1 4 id 10 hid hten⟩

end BindPlane
