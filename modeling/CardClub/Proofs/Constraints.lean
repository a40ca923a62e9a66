import CardClub.Proofs.Money
import CardClub.Proofs.Settled
import Mathlib.Algebra.Order.Ring.Unbundled.Rat

/-!
# The constraints of the tables

Whatever services and stores are called with, keys stay unique, references lead to one record, and
amounts, dates and counters stay in their ranges. Calls of stores skip the tests that services make,
so all of this rests on the statements.
-/

namespace CardClub

theorem Decimal.value_nonneg {d : Decimal} (h : d.isNegative = false) : 0 ≤ d.value := by
  have hcoef : 0 ≤ d.coefficient := by
    simpa [isNegative] using h
  exact Rat.mkRat_nonneg hcoef _

namespace Club

variable {c : Club}

/-- No two records of a table share a key, and no membership has two rankings. -/
structure Keyed (c : Club) : Prop where
  semesters : (c.semesters.map (·.id)).Nodup
  memberships : (c.memberships.map (·.id)).Nodup
  events : (c.events.map (·.id)).Nodup
  participants : (c.participants.map (·.id)).Nodup
  rankings : (c.rankings.map (·.membershipId)).Nodup
  users : (c.memberships.map fun m => (m.semesterId, m.userId)).Nodup
  entries : (c.participants.map fun p => (p.membershipId, p.eventId)).Nodup

/-- Every reference leads to one record. -/
structure Linked (c : Club) : Prop where
  memberships : ∀ m ∈ c.memberships, ∃! s, s ∈ c.semesters ∧ s.id = m.semesterId
  events : ∀ e ∈ c.events, ∃! s, s ∈ c.semesters ∧ s.id = e.semesterId
  members : ∀ p ∈ c.participants, ∃! m, m ∈ c.memberships ∧ m.id = p.membershipId
  seats : ∀ p ∈ c.participants, ∃! e, e ∈ c.events ∧ e.id = p.eventId
  rankings : ∀ r ∈ c.rankings, ∃! m, m ∈ c.memberships ∧ m.id = r.membershipId

/-- Fees, multipliers, dates, counters and points are in their ranges. -/
structure InRange (c : Club) : Prop where
  fees : ∀ s ∈ c.semesters, 0 ≤ s.membershipFee.value ∧ 0 ≤ s.discountedFee.value ∧
    0 ≤ s.rebuyFee.value
  dates : ∀ s ∈ c.semesters, s.startDate ≤ s.endDate
  multipliers : ∀ e ∈ c.events, 0 ≤ e.multiplier.value
  rebuys : ∀ e ∈ c.events, e.rebuys ≤ 2 ^ 31 - 1
  placements : ∀ p ∈ c.participants, p.placement ≤ 2 ^ 31 - 1
  attendance : ∀ r ∈ c.rankings, r.attendance ≤ 2 ^ 31 - 1
  points : ∀ r ∈ c.rankings, -(2 ^ 63) ≤ r.points ∧ r.points ≤ 2 ^ 63 - 1

namespace Consistent

theorem keyed (hc : c.Consistent) : c.Keyed where
  semesters := hc.semester_ids
  memberships := hc.membership_ids
  events := hc.event_ids
  participants := hc.participant_ids
  rankings := hc.ranking_ids
  users := hc.membership_keys
  entries := hc.participant_keys

theorem existsUnique_key {α κ : Type} {key : α → κ} {l : List α} (hl : (l.map key).Nodup) {k : κ}
    (hk : k ∈ l.map key) : ∃! a, a ∈ l ∧ key a = k := by
  obtain ⟨a, ha, rfl⟩ := List.mem_map.mp hk
  exact ⟨a, ⟨ha, rfl⟩, fun b hb => List.inj_on_of_nodup_map hl hb.1 ha hb.2⟩

theorem linked (hc : c.Consistent) : c.Linked where
  memberships m hm := existsUnique_key hc.semester_ids (hc.membership_semester m hm)
  events e he := existsUnique_key hc.semester_ids (hc.event_semester e he)
  members p hp := existsUnique_key hc.membership_ids (hc.participant_membership p hp)
  seats p hp := existsUnique_key hc.event_ids (hc.participant_event p hp)
  rankings r hr := existsUnique_key hc.membership_ids (hc.ranking_membership r hr)

theorem inRange (hc : c.Consistent) : c.InRange where
  fees s hs := by
    obtain ⟨hm, hd, hr, -⟩ := hc.semesters_admissible s hs
    exact ⟨Decimal.value_nonneg hm, Decimal.value_nonneg hd, Decimal.value_nonneg hr⟩
  dates s hs := (hc.semesters_admissible s hs).dates
  multipliers e he := Decimal.value_nonneg (hc.events_admissible e he).multiplier
  rebuys e he := Nat.le_pred_of_lt (hc.events_admissible e he).rebuys
  placements p hp := Nat.le_pred_of_lt (hc.placements_small p hp)
  attendance r hr := Nat.le_pred_of_lt (hc.rankings_admissible r hr).attendance
  points r hr := by
    obtain ⟨hlow, hhigh⟩ := fitsPoints_iff.mp (hc.rankings_admissible r hr).points
    exact ⟨hlow, Int.le_sub_one_of_lt hhigh⟩

end Consistent

end Club

/-- After every history of calls of services and stores, the tables have unique keys, references to
existing records and numbers in range. -/
theorem tables_keep_constraints {steps : List Step} (hsteps : ∀ x ∈ steps, x.isProgram = true) :
    let c := (Session.start.after steps).club
    c.Keyed ∧ c.Linked ∧ c.InRange := by
  intro c
  have hc : c.Consistent := Session.consistent_after hsteps
  exact ⟨hc.keyed, hc.linked, hc.inRange⟩

/-! ## Calls that go too far

Stores are asked to enter a member twice, to announce an event of an unknown semester, to set a
placement that is too large and to credit points beyond the last one that there is.
-/

namespace TooFar

open Night (uuid time)

def steps : List Step :=
  Night.steps (time 50) ++
    [.call ⟨uuid 8, time 80⟩ (.store (.insertParticipant ⟨uuid 4⟩ ⟨uuid 2⟩)),
      .call ⟨uuid 8, time 80⟩ (.store (.insertEvent
        { (Night.event (time 60)).toEventPlan with semesterId := ⟨uuid 9⟩ })),
      .call ⟨uuid 8, time 80⟩ (.store (.setPlacements [(⟨uuid 5⟩, 2147483647)])),
      .call ⟨uuid 8, time 80⟩ (.store (.setPlacements [(⟨uuid 6⟩, 2147483648)])),
      .call ⟨uuid 8, time 80⟩ (.store (.updateRanking ⟨uuid 2⟩ 9223372036854775807)),
      .call ⟨uuid 8, time 80⟩ (.store (.updateRanking ⟨uuid 2⟩ 1))]

end TooFar

theorem too_far_keeps_constraints :
    let c := (Session.start.after TooFar.steps).club
    c.participants.map (·.placement) = [2 ^ 31 - 1, 0] ∧ c.rankings.map (·.points) = [2 ^ 63 - 1] ∧
      c.events.length = 1 ∧ c.Keyed ∧ c.Linked ∧ c.InRange :=
  ⟨by decide +kernel, by decide +kernel, by decide +kernel,
    tables_keep_constraints (by decide +kernel)⟩

end CardClub
