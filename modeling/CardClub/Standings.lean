import CardClub.Participant
import CardClub.Points

/-!
# Finishing order and award plans

The last player at the table wins, so the finishing order is the sign-out time from late to early,
and of two equal times the smaller identifier comes first. A plan awards placements from 1 on; a
reversal debits what the recorded placements were awarded in a field of all placed participants.
-/

namespace CardClub

/-- The points that one participant brings to its membership; negative in a reversal. -/
structure Award where
  participantId : ParticipantId
  membershipId : MembershipId
  placement : Nat
  points : Int
deriving DecidableEq, Inhabited

/-- Whether one participant finishes before or with another when players still at the table are
signed out at a given instant. -/
def finishesBefore (forcedAt : Instant) (a b : Participant) : Bool :=
  decide (b.signOutOr forcedAt < a.signOutOr forcedAt) ||
    (decide (b.signOutOr forcedAt = a.signOutOr forcedAt) && decide (a.id ≤ b.id))

/-- The participants in finishing order, winner first. -/
def finishingOrder (forcedAt : Instant) (participants : List Participant) : List Participant :=
  participants.mergeSort (finishesBefore forcedAt)

def awardFor (fieldSize : Nat) (multiplier : Decimal) (p : Participant) (placement : Nat) :
    Except RankingError Award :=
  (awardPoints fieldSize placement multiplier).map (Award.mk p.id p.membershipId placement)

/-- The awards of a field that stands in finishing order. -/
def planAwards (ordered : List Participant) (multiplier : Decimal) :
    Except RankingError (List Award) :=
  if ordered.length < countLimit then
    (ordered.zipIdx 1).mapM fun (p, placement) => awardFor ordered.length multiplier p placement
  else .error (.fieldTooLarge ordered.length)

/-- The participants with the placements of their awards, which stand in the same order. -/
def place (participants : List Participant) (awards : List Award) : List Participant :=
  participants.zipWith (fun p a => { p with placement := a.placement }) awards

/-- The debit that cancels the award of a placed participant. -/
def debitFor (fieldSize : Nat) (multiplier : Decimal) (p : Participant) :
    Except RankingError Award :=
  (awardPoints fieldSize p.placement multiplier).bind fun credited =>
    if fitsPoints (-credited) then .ok ⟨p.id, p.membershipId, p.placement, -credited⟩
    else .error (.overflow .negatedPoints)

def placed (participants : List Participant) : List Participant :=
  participants.filter fun p => decide (0 < p.placement)

/-- The debits that cancel an earlier plan. Participants without a placement are left out. -/
def planReversal (participants : List Participant) (multiplier : Decimal) :
    Except RankingError (List Award) :=
  let field := placed participants
  if field.length < countLimit then field.mapM (debitFor field.length multiplier)
  else .error (.fieldTooLarge field.length)

/-- The sum of the points of a plan. There is none when a partial sum leaves the range of points. -/
def totalPoints? (awards : List Award) : Option Int :=
  awards.foldlM (fun total a => addPoints? total a.points) 0

end CardClub
