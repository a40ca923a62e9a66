import CardClub.Service.Closing
import CardClub.Service.Leaderboard

/-!
# Calls

Everything that can be done to the club is a call of a service, a call of a store, or a change made
from outside, directly in the tables. Running a call on a session gives a reply or an error, and the
next session.
-/

namespace CardClub

/-- The calls of the services. -/
inductive ServiceCall where
  | createSemester (terms : SemesterTerms)
  | getSemester (semester : SemesterId)
  | createMembership (semester : SemesterId) (user : UserId) (paid discounted : Bool)
  | getMembership (membership : MembershipId)
  | createEvent (plan : EventPlan)
  | getEvent (event : EventId)
  | listEvents (semester : SemesterId)
  | updateEvent (event : EventId) (update : EventUpdate)
  | enterEvent (event : EventId) (membership : MembershipId)
  | signOut (participant : ParticipantId)
  | signIn (participant : ParticipantId)
  | listParticipants (event : EventId)
  | endEvent (event : EventId)
  | undoEndEvent (event : EventId)
  | newRebuy (event : EventId)
  | updateRanking (membership : MembershipId) (delta : Int)
  | batchUpdateRankings (deltas : List (MembershipId × Int))
  | getRanking (semester : SemesterId) (membership : MembershipId)
  | listRankings (semester : SemesterId)

/-- The calls of the stores. -/
inductive StoreCall where
  | insertSemester (terms : SemesterTerms)
  | getSemester (semester : SemesterId)
  | adjustBudget (semester : SemesterId) (amount : Decimal)
  | insertMembership (semester : SemesterId) (user : UserId) (paid discounted : Bool)
  | getMembership (membership : MembershipId)
  | insertEvent (plan : EventPlan)
  | getEvent (event : EventId)
  | listEvents (semester : SemesterId)
  | updateEvent (event : EventId) (update : EventUpdate)
  | setState (event : EventId) (state : EventState)
  | incrementRebuys (event : EventId)
  | insertParticipant (event : EventId) (membership : MembershipId)
  | getParticipant (participant : ParticipantId)
  | listParticipants (event : EventId)
  | setSignedOutAt (participant : ParticipantId) (time : Option Instant)
  | forceSignOut (event : EventId) (time : Instant)
  | setPlacements (placements : List (ParticipantId × Nat))
  | updateRanking (membership : MembershipId) (delta : Int)
  | batchUpdateRankings (deltas : List (MembershipId × Int))
  | getRanking (membership : MembershipId)
  | getPosition (semester : SemesterId) (membership : MembershipId)

/-- Changes made directly in the tables. -/
inductive OutsideChange where
  | removeSemester (semester : SemesterId)
  | removeMembership (membership : MembershipId)
  | removeEvent (event : EventId)
  | removeParticipant (participant : ParticipantId)
  | removeRanking (membership : MembershipId)
  | setAttendance (membership : MembershipId) (value : Int)
  | setRebuys (event : EventId) (value : Int)
  | setPlacement (participant : ParticipantId) (value : Int)

/-- What a call answers when it succeeds. -/
inductive Reply where
  /-- The call has no answer of its own. -/
  | done
  /-- There is no such record. -/
  | absent
  | semester (s : Semester)
  | membership (m : Membership)
  | event (e : Event)
  | events (es : List Event)
  | participant (p : Participant)
  | participants (ps : List Participant)
  | ranking (r : Ranking)
  | position (p : RankingPosition)
  | positions (ps : List RankingPosition)
  | standings (s : Standings)
  | rebuy (r : RebuyOutcome)
  | budget (d : Decimal)
  | points (n : Int)
  | count (n : Nat)

def Reply.ofOption {α : Type} (reply : α → Reply) : Option α → Reply
  | none => absent
  | some a => reply a

def ServiceCall.run (stamp : Stamp) : ServiceCall → Work ServiceError Reply
  | createSemester terms => Reply.semester <$> Service.createSemester stamp terms
  | getSemester s => Reply.semester <$> Service.getSemester s
  | createMembership s user paid discounted =>
    Reply.membership <$> Service.createMembership stamp s user paid discounted
  | getMembership m => Reply.membership <$> Service.getMembership m
  | createEvent plan => Reply.event <$> Service.createEvent stamp plan
  | getEvent e => Reply.event <$> Service.getEvent e
  | listEvents s => Reply.events <$> Service.listEvents s
  | updateEvent e update => Reply.event <$> Service.updateEvent e update
  | enterEvent e m => Reply.participant <$> Service.enterEvent stamp e m
  | signOut p => Reply.participant <$> Service.signOut stamp.now p
  | signIn p => Reply.participant <$> Service.signIn p
  | listParticipants e => Reply.participants <$> Service.listParticipants e
  | endEvent e => Reply.standings <$> Service.endEvent e
  | undoEndEvent e => (fun _ => Reply.done) <$> Service.undoEndEvent e
  | newRebuy e => Reply.rebuy <$> Service.newRebuy e
  | updateRanking m delta => Reply.points <$> Service.updateRanking m delta
  | batchUpdateRankings deltas => Reply.count <$> Service.batchUpdateRankings deltas
  | getRanking s m => Reply.position <$> Service.getRanking s m
  | listRankings s => Reply.positions <$> Service.listRankings s

def StoreCall.run (stamp : Stamp) : StoreCall → Work StoreError Reply
  | insertSemester terms => Reply.semester <$> Store.insertSemester stamp terms
  | getSemester s => Reply.ofOption .semester <$> Store.getSemester s
  | adjustBudget s amount => Reply.budget <$> Store.adjustBudget s amount
  | insertMembership s user paid discounted =>
    Reply.membership <$> Store.insertMembership stamp s user paid discounted
  | getMembership m => Reply.ofOption .membership <$> Store.getMembership m
  | insertEvent plan => Reply.event <$> Store.insertEvent stamp plan
  | getEvent e => Reply.ofOption .event <$> Store.getEvent e
  | listEvents s => Reply.events <$> Store.listEvents s
  | updateEvent e update => Reply.ofOption .event <$> Store.updateEvent e update
  | setState e state => (fun _ => Reply.done) <$> Store.setState e state
  | incrementRebuys e => Reply.count <$> Store.incrementRebuys e
  | insertParticipant e m => Reply.participant <$> Store.insertParticipant stamp e m
  | getParticipant p => Reply.ofOption .participant <$> Store.getParticipant p
  | listParticipants e => Reply.participants <$> Store.listParticipants e
  | setSignedOutAt p time => (fun _ => Reply.done) <$> Store.setSignedOutAt p time
  | forceSignOut e time => Reply.count <$> Store.forceSignOut e time
  | setPlacements placements => Reply.count <$> Store.setPlacements placements
  | updateRanking m delta => Reply.points <$> Store.updateRanking m delta
  | batchUpdateRankings deltas => Reply.count <$> Store.batchUpdateRankings deltas
  | getRanking m => Reply.ofOption .ranking <$> Store.getRanking m
  | getPosition s m => Reply.ofOption .position <$> Store.getPosition s m

/-- Removes what a change of the tables names and gives the number of records of that name. -/
def remove {α : Type} (records : Club → List α) (test : α → Bool)
    (without : Club → (α → Bool) → Club) : Work StoreError Reply := fun s =>
  (.ok (.count ((records s.club).filter test).length), { s with club := without s.club test })

def OutsideChange.run : OutsideChange → Work StoreError Reply
  | removeSemester s => remove (·.semesters) (fun x => decide (x.id = s)) Club.removeSemesters
  | removeMembership m => remove (·.memberships) (fun x => decide (x.id = m)) Club.removeMemberships
  | removeEvent e => remove (·.events) (fun x => decide (x.id = e)) Club.removeEvents
  | removeParticipant p =>
    remove (·.participants) (fun x => decide (x.id = p)) Club.removeParticipants
  | removeRanking m =>
    remove (·.rankings) (fun x => decide (x.membershipId = m)) Club.removeRankings
  | setAttendance m value => Reply.count <$> Work.write .rankings (Statement.setAttendance m value)
  | setRebuys e value => Reply.count <$> Work.write .events (Statement.setRebuys e value)
  | setPlacement p value =>
    Reply.count <$> Work.write .participants (Statement.setPlacement p value)

/-- Everything that can be done to the club. -/
inductive Call where
  | service (call : ServiceCall)
  | store (call : StoreCall)
  | outside (change : OutsideChange)

/-- Why a call fails. -/
inductive CallError where
  | service (cause : ServiceError)
  | store (cause : StoreError)
deriving DecidableEq

def CallError.message : CallError → String
  | service cause => cause.message
  | store cause => cause.message

def Call.run (stamp : Stamp) : Call → Work CallError Reply
  | service call => (call.run stamp).mapError .service
  | store call => (call.run stamp).mapError .store
  | outside change => change.run.mapError .store

end CardClub
