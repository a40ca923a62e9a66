import CardClub.Proofs.Cancellation
import CardClub.Proofs.Failing
import CardClub.Proofs.FinishingOrder

/-!
# Netting the plans of an event

A plan of awards or of debits has each participant of a field once, and no membership has two seats
in a field. So there is nothing to add up when such a plan is netted: each partial sum is the points
of one award, and these are in range. Ending an event and undoing the end therefore never fail at
netting, whatever has been done to the tables before and whatever failure of the database is armed.
-/

namespace CardClub

open Work

/-- The error is that the points of a membership cannot be netted. -/
def ServiceError.IsOverflow (e : ServiceError) : Prop := ∃ m, e = .internal (.pointsOverflow m)

variable {l : List Participant} {plan : List Award} {multiplier : Decimal} {time : Instant}
  {c : Club} {event : EventId}

/-! ## Plans of a field -/

theorem planAwards_nets (hl : (l.map (·.membershipId)).Nodup)
    (h : planAwards (finishingOrder time l) multiplier = .ok plan) :
    ∃ deltas, netDeltas plan = .ok deltas := by
  obtain ⟨-, hseats, -, hpoints⟩ := planAwards_ok.mp h
  refine netDeltas_succeeds ?_ fun a ha => awardPoints_fits (hpoints a ha)
  rw [Award.memberships_of_seats hseats]
  exact ((finishingOrder_perm time l).map _).nodup_iff.mpr hl

theorem planReversal_nets (hl : (l.map (·.membershipId)).Nodup)
    (h : planReversal l multiplier = .ok plan) : ∃ deltas, netDeltas plan = .ok deltas := by
  obtain ⟨-, hseats, -, hpoints⟩ := planReversal_ok.mp h
  refine netDeltas_succeeds ?_ fun a ha => (hpoints a ha).2
  rw [Award.memberships_of_seats hseats]
  exact hl.sublist (List.filter_sublist.map _)

/-! ## Errors -/

namespace ServiceError

theorem ofStore_not_overflow (x : StoreError) : ¬ (ofStore x).IsOverflow := by
  rintro ⟨m, hm⟩
  cases x <;> cases hm

theorem ofRanking_not_overflow (x : RankingError) : ¬ (ofRanking x).IsOverflow := by
  rintro ⟨m, hm⟩
  cases x <;> cases hm

theorem ofReversal_not_overflow (event : EventId) (x : RankingError) :
    ¬ (ofReversal event x).IsOverflow := by
  rintro ⟨m, hm⟩
  cases x <;> cases hm

end ServiceError

namespace Service

theorem store_not_overflow {α : Type} {w : Work StoreError α} :
    (store w).ErrsOnly (¬ ·.IsOverflow) c :=
  errsOnly_mapError ServiceError.ofStore_not_overflow

/-- What is done with an event, unless it is refused, decides about overflows. -/
theorem event_not_overflow {α : Type} (refused : Event → Bool) {why : Prohibition}
    {rest : Event → Work ServiceError α}
    (hrest : ∀ e, (rest e).ErrsOnly (¬ ·.IsOverflow) c) :
    (transaction (getEvent event >>= fun e => failIf (refused e) (.forbidden why) >>= fun _ =>
      rest e)).ErrsOnly (¬ ·.IsOverflow) c := by
  have hget : (getEvent event).ErrsOnly (¬ ·.IsOverflow) c :=
    .bind (regular_store regular_read) store_not_overflow fun _ _ _ => errsOnly_require nofun
  refine .transaction (ServiceError.ofStore_not_overflow _) ?_
  refine .bind regular_getEvent hget fun e c₁ he => ?_
  obtain ⟨-, rfl⟩ := getEvent_yields.mp he
  refine .bind regular_failIf (errsOnly_failIf nofun) fun _ c₁ hpassed => ?_
  obtain ⟨-, rfl⟩ := failIf_yields.mp hpassed
  exact hrest e

/-- Applying a plan fails with an overflow exactly if the plan cannot be netted. -/
theorem applyToRankings_overflow {s : Session} {m : MembershipId} :
    ((applyToRankings plan).run s).1 = .error (.internal (.pointsOverflow m)) ↔
      netDeltas plan = .error m := by
  rw [applyToRankings, bind_run]
  cases netDeltas plan with
  | error n => simp [Work.ofExcept]
  | ok deltas =>
      have hwritten : ((store (Store.batchUpdateRankings deltas) >>= fun _ => pure ()) :
          Work ServiceError Unit).ErrsOnly (¬ ·.IsOverflow) s.club :=
        .bind (regular_store Store.regular_batchUpdateRankings) store_not_overflow
          fun _ _ _ => errsOnly_pure
      exact iff_of_false (fun h => hwritten s rfl _ h ⟨m, rfl⟩) (by simp)

theorem applyToRankings_not_overflow (h : ∃ deltas, netDeltas plan = .ok deltas) :
    (applyToRankings plan).ErrsOnly (¬ ·.IsOverflow) c := by
  rintro s - e he ⟨m, rfl⟩
  obtain ⟨deltas, hnet⟩ := h
  cases hnet.symm.trans (applyToRankings_overflow.mp he)

/-- Whoever makes only plans that can be netted meets no overflow in applying them. -/
theorem plan_not_overflow {α : Type} {made : Except RankingError (List Award)}
    {f : RankingError → ServiceError} {rest : List Award → Work ServiceError α}
    (hf : ∀ x, ¬ (f x).IsOverflow)
    (hnets : ∀ plan, made = .ok plan → ∃ deltas, netDeltas plan = .ok deltas)
    (hrest : ∀ plan c, (rest plan).ErrsOnly (¬ ·.IsOverflow) c) :
    (Work.ofExcept f made >>= fun plan => applyToRankings plan >>= fun _ => rest plan).ErrsOnly
      (¬ ·.IsOverflow) c := by
  refine .bind regular_ofExcept (errsOnly_ofExcept fun x _ => hf x) fun plan c₁ hmade => ?_
  obtain ⟨hplan, -⟩ := ofExcept_yields.mp hmade
  exact .bind regular_applyToRankings (applyToRankings_not_overflow (hnets plan hplan))
    fun _ c₂ _ => hrest plan c₂

theorem endEvent_not_overflow (hc : c.SeatedOnce) :
    (endEvent event).ErrsOnly (¬ ·.IsOverflow) c := by
  refine event_not_overflow (·.state.isEnded) fun e => ?_
  refine .bind (regular_store Store.regular_forceSignOut) store_not_overflow fun _ c₁ hforced => ?_
  have hc₁ : c₁.SeatedOnce := (Store.composed_forceSignOut event _).keeps Written.seatedOnce
    (store_yields.mp hforced) hc
  refine .bind (regular_store Store.regular_setState) store_not_overflow fun _ c₂ hset => ?_
  have hc₂ : c₂.SeatedOnce := (Store.composed_setState event _).keeps Written.seatedOnce
    (store_yields.mp hset) hc₁
  refine .bind (regular_store regular_read) store_not_overflow fun participants c₃ hlist => ?_
  obtain ⟨rfl, rfl⟩ := read_yields.mp (store_yields.mp hlist)
  -- nobody sits twice in the field that is listed after all have been signed out
  refine plan_not_overflow ServiceError.ofRanking_not_overflow
    (fun plan => planAwards_nets (hc₂.listed_memberships event)) fun plan c₃ => ?_
  exact .bind (regular_store Store.regular_setPlacements) store_not_overflow
    fun _ _ _ => errsOnly_pure

theorem undoEndEvent_not_overflow (hc : c.SeatedOnce) :
    (undoEndEvent event).ErrsOnly (¬ ·.IsOverflow) c := by
  refine event_not_overflow (fun e => !e.state.isEnded) fun e => ?_
  refine .bind (regular_store regular_read) store_not_overflow fun participants c₁ hlist => ?_
  obtain ⟨rfl, rfl⟩ := read_yields.mp (store_yields.mp hlist)
  refine plan_not_overflow (ServiceError.ofReversal_not_overflow event)
    (fun plan => planReversal_nets (hc.listed_memberships event)) fun plan c₁ => ?_
  exact .bind (regular_store Store.regular_setState) store_not_overflow
    fun _ _ _ => errsOnly_pure

end Service

/-- Netting a plan loses nothing. It gives one delta for each membership of the plan, in ascending
order, each of them the sum of what the plan has for the membership, and they add up to the sum of
the plan. It fails exactly if a partial sum of the points of one membership leaves the range, and
names such a membership. The plans of ending an event and of undoing its end can always be netted,
so neither of them fails for this reason. -/
theorem netting_loses_nothing :
    (∀ plan deltas, netDeltas plan = .ok deltas → Award.Netted plan deltas ∧
      ∀ total, totalPoints? plan = some total → (deltas.map (·.2)).sum = total) ∧
    (∀ plan m, netDeltas plan = .error m → Award.Overflows plan m) ∧
    (∀ plan m, Award.Overflows plan m → ∃ n, netDeltas plan = .error n) ∧
    (∀ plan m s, ((Service.applyToRankings plan).run s).1 = .error (.internal (.pointsOverflow m)) ↔
      netDeltas plan = .error m) ∧
    ∀ (steps : List Step) (event : EventId),
      let s := Session.start.after steps
      (∀ time multiplier plan,
        planAwards (finishingOrder time (s.club.participantsOf event)) multiplier = .ok plan →
          ∃ deltas, netDeltas plan = .ok deltas) ∧
      (∀ multiplier plan, planReversal (s.club.participantsOf event) multiplier = .ok plan →
        ∃ deltas, netDeltas plan = .ok deltas) ∧
      ∀ m, ((Service.endEvent event).run s).1 ≠ .error (.internal (.pointsOverflow m)) ∧
        ((Service.undoEndEvent event).run s).1 ≠ .error (.internal (.pointsOverflow m)) := by
  refine ⟨fun plan deltas h => ⟨netted_of_netDeltas h, fun total htotal => ?_⟩,
    fun _ _ => overflows_of_netDeltas, fun _ _ => Award.Overflows.netDeltas_fails,
    fun _ _ _ => Service.applyToRankings_overflow, fun steps event => ?_⟩
  · obtain ⟨rfl, -⟩ := eq_of_foldlM_addPoints? htotal
    rw [Int.zero_add]
    exact (netted_of_netDeltas h).total
  · intro s
    have hs : s.club.SeatedOnce := Session.seatedOnce_after steps
    exact ⟨fun _ _ _ => planAwards_nets (hs.listed_memberships event),
      fun _ _ => planReversal_nets (hs.listed_memberships event),
      fun m => ⟨fun h => Service.endEvent_not_overflow hs s rfl _ h ⟨m, rfl⟩,
        fun h => Service.undoEndEvent_not_overflow hs s rfl _ h ⟨m, rfl⟩⟩⟩

/-! ## A steep plan

A membership stands in the plan three times, first with as many points as there can be. What it has
in the whole plan is in range again, but with one point more in between netting fails.
-/

namespace Steep

open Night (uuid)

def awards (points : Int) : List Award :=
  [⟨⟨uuid 5⟩, ⟨uuid 3⟩, 1, -30⟩, ⟨⟨uuid 6⟩, ⟨uuid 2⟩, 2, pointsLimit - 1⟩,
    ⟨⟨uuid 7⟩, ⟨uuid 3⟩, 3, 12⟩, ⟨⟨uuid 8⟩, ⟨uuid 2⟩, 4, points⟩, ⟨⟨uuid 9⟩, ⟨uuid 2⟩, 5, -20⟩]

theorem overflows : Award.Overflows (awards 1) ⟨uuid 2⟩ :=
  ⟨[pointsLimit - 1, 1], ⟨[-20], by decide +kernel⟩, by decide +kernel⟩

end Steep

namespace Night

theorem whole_listed : (Session.start.after whole).club.participantsOf ⟨uuid 4⟩ =
    (Session.start.after whole).club.field ⟨uuid 4⟩ := by
  rw [after_whole]
  exact List.mergeSort_of_pairwise (by decide +kernel)

theorem whole_planned :
    planAwards (finishingOrder (Night.time 50)
      ((Session.start.after whole).club.participantsOf ⟨uuid 4⟩)) .one = .ok awards := by
  have hordered : finishingOrder (Night.time 50) ((Session.start.after whole).club.field ⟨uuid 4⟩) =
      (Session.start.after whole).club.field ⟨uuid 4⟩ := by
    rw [after_whole]
    exact List.mergeSort_of_pairwise (by decide +kernel)
  rw [whole_listed, hordered, after_whole]
  decide +kernel

theorem whole_reversed :
    planReversal ((Session.start.after whole).club.participantsOf ⟨uuid 4⟩) .one =
      .ok (awards.map Award.debit) := by
  rw [whole_listed, after_whole]
  decide +kernel

end Night

theorem steep_plan_netted :
    Award.Netted (Steep.awards 0) [(⟨Night.uuid 2⟩, pointsLimit - 21), (⟨Night.uuid 3⟩, -18)] ∧
      [(pointsLimit - 21 : Int), -18].sum = pointsLimit - 39 ∧
      Award.Overflows (Steep.awards 1) ⟨Night.uuid 2⟩ ∧
      fitsPoints (Award.pointsFor (Steep.awards 1) ⟨Night.uuid 2⟩).sum = true ∧
      (∃ n, netDeltas (Steep.awards 1) = .error n) ∧
      (∃ deltas, netDeltas Night.awards = .ok deltas) ∧
      ∃ deltas, netDeltas (Night.awards.map Award.debit) = .ok deltas := by
  obtain ⟨hnetted, hnamed, hfails, -, hplans⟩ := netting_loses_nothing
  obtain ⟨hplan, hreversal, -⟩ := hplans Night.whole ⟨Night.uuid 4⟩
  have hsteep : netDeltas (Steep.awards 0) =
      .ok [(⟨Night.uuid 2⟩, pointsLimit - 21), (⟨Night.uuid 3⟩, -18)] := by decide +kernel
  exact ⟨(hnetted _ _ hsteep).1, (hnetted _ _ hsteep).2 _ (by decide +kernel),
    hnamed _ _ (by decide +kernel), by decide +kernel, hfails _ _ Steep.overflows,
    hplan _ .one _ Night.whole_planned, hreversal .one _ Night.whole_reversed⟩

end CardClub
