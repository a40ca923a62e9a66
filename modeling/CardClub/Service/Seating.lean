import CardClub.Service.Schedule

/-!
# Entries and sign-outs

Members enter a started event of their semester and are signed out of it and in again. Entries and
sign-out times are frozen once the event has ended.
-/

namespace CardClub.Service

/-- Enters a membership in an event of its semester. -/
def enterEvent (stamp : Stamp) (event : EventId) (membership : MembershipId) :
    Work ServiceError Participant :=
  .transaction do
    let e ← getEvent event
    .failIf e.state.isEnded (.forbidden (.entriesClosed event))
    let m ← getMembership membership
    .failIf (m.semesterId != e.semesterId)
      (.invalidRequest (.foreignMembership membership m.semesterId event e.semesterId))
    storeExcept StoreError.isUniqueViolation (.invalidRequest (.duplicateEntry membership event))
      (Store.insertParticipant stamp event membership)

def setSignedOutAt (participant : ParticipantId) (time : Option Instant) :
    Work ServiceError Participant :=
  .transaction do
    let p ← found .participant participant.uuid (← store (Store.getParticipant participant))
    let e ← getEvent p.eventId
    .failIf e.state.isEnded (.forbidden (.signOutsFrozen e.id))
    store (Store.setSignedOutAt participant time)
    pure { p with signedOutAt := time }

def signOut (now : Instant) (participant : ParticipantId) : Work ServiceError Participant :=
  setSignedOutAt participant (some now)

def signIn (participant : ParticipantId) : Work ServiceError Participant :=
  setSignedOutAt participant none

def listParticipants (event : EventId) : Work ServiceError (List Participant) := do
  let _ ← getEvent event
  store (Store.listParticipants event)

end CardClub.Service
