import CardClub.Blank
import CardClub.Store

/-!
# Semesters and memberships at the desk

Opening a semester tests its terms. Joining one adds the fee to the budget in the same transaction
when it has been paid.
-/

namespace CardClub

/-- The first fee of some terms that is below zero. -/
def SemesterTerms.negativeFee? (terms : SemesterTerms) : Option (Fee × Decimal) :=
  [(Fee.membership, terms.membershipFee), (Fee.discounted, terms.discountedFee),
    (Fee.rebuy, terms.rebuyFee)].find? fun fee => fee.2.isNegative

def SemesterTerms.fault? (terms : SemesterTerms) : Option RequestError :=
  if isBlankText terms.name then some .blankSemesterName
  else if terms.endDate < terms.startDate then some .endsBeforeStart
  else terms.negativeFee?.map fun (fee, amount) => .negativeFee fee amount

namespace Service

/-- The work of a store as part of a service. -/
def store {α : Type} (w : Work StoreError α) : Work ServiceError α := w.mapError .ofStore

def found {α : Type} (entity : Entity) (id : Uuid) (row : Option α) : Work ServiceError α :=
  .require row (.notFound entity id)

def refuse (fault : Option RequestError) : Work ServiceError Unit :=
  match fault with
  | some e => .fail (.invalidRequest e)
  | none => pure ()

/-- Turns the errors of a store that pass a test into one of their own. -/
def storeExcept {α : Type} (test : StoreError → Bool) (e : ServiceError) (w : Work StoreError α) :
    Work ServiceError α :=
  w.mapError fun cause => if test cause then e else .ofStore cause

def getSemester (semester : SemesterId) : Work ServiceError Semester := do
  found .semester semester.uuid (← store (Store.getSemester semester))

def createSemester (stamp : Stamp) (terms : SemesterTerms) : Work ServiceError Semester := do
  refuse terms.fault?
  store (Store.insertSemester stamp terms)

def getMembership (membership : MembershipId) : Work ServiceError Membership := do
  found .membership membership.uuid (← store (Store.getMembership membership))

/-- Joins a semester. The fee of a paid membership is added to the budget. -/
def createMembership (stamp : Stamp) (semester : SemesterId) (user : UserId)
    (paid discounted : Bool) : Work ServiceError Membership :=
  .transaction do
    let terms ← getSemester semester
    let membership ← storeExcept StoreError.isUniqueViolation
      (.invalidRequest (.duplicateMembership user semester))
      (Store.insertMembership stamp semester user paid discounted)
    if membership.paid then
      let _ ← store (Store.adjustBudget semester (terms.feeFor membership.discounted))
      pure membership
    else pure membership

end Service

end CardClub
