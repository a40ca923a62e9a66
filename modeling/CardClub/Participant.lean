import CardClub.Instant
import CardClub.Uuid

/-!
# Participants

A participant is the entry of a membership in an event. It is active until it is signed out; ending
the event gives it a placement.
-/

namespace CardClub

/-- The entry of a membership in an event. -/
structure Participant where
  id : ParticipantId
  membershipId : MembershipId
  eventId : EventId
  /-- The finishing position from 1 on; 0 while there is none. -/
  placement : Nat
  /-- When the player left the table; none while the player is active. -/
  signedOutAt : Option Instant
  createdAt : Instant
deriving DecidableEq, Inhabited

def Participant.isActive (p : Participant) : Bool := p.signedOutAt.isNone

/-- The time that counts for the finishing order when players still at the table are signed out at a
given instant. -/
def Participant.signOutOr (forcedAt : Instant) (p : Participant) : Instant :=
  p.signedOutAt.getD forcedAt

end CardClub
