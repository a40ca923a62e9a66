import CardClub.Json.Scalar
import CardClub.Participant
import CardClub.Ranking
import CardClub.Semester
import CardClub.Standings

/-!
# JSON forms of the records

Every record that is exchanged has one written form: an object with all its fields, absent values as
null. It is read back from this form, from an object with other members besides and with absent
optional fields, and from the array of its fields in order.
-/

namespace CardClub

namespace Semester

def fieldNames : List String :=
  ["id", "name", "start_date", "end_date", "initial_budget", "current_budget", "membership_fee",
    "membership_fee_discounted", "rebuy_fee", "created_at"]

def toJson (s : Semester) : Json :=
  .object [("id", s.id.toJson), ("name", .text s.name), ("start_date", s.startDate.toJson),
    ("end_date", s.endDate.toJson), ("initial_budget", s.initialBudget.toJson),
    ("current_budget", s.currentBudget.toJson), ("membership_fee", s.membershipFee.toJson),
    ("membership_fee_discounted", s.discountedFee.toJson), ("rebuy_fee", s.rebuyFee.toJson),
    ("created_at", s.createdAt.toJson)]

def ofJson? (v : Json) : Option Semester := do
  let [id, name, startDate, endDate, initial, current, fee, discounted, rebuy, createdAt] ←
    v.fields? fieldNames | none
  return {
    id := ← Id.ofJson? id
    name := ← name.toText?
    startDate := ← Instant.ofJson? startDate
    endDate := ← Instant.ofJson? endDate
    initialBudget := ← Decimal.ofJson? initial
    currentBudget := ← Decimal.ofJson? current
    membershipFee := ← Decimal.ofJson? fee
    discountedFee := ← Decimal.ofJson? discounted
    rebuyFee := ← Decimal.ofJson? rebuy
    createdAt := ← Instant.ofJson? createdAt }

end Semester

namespace SemesterTerms

def fieldNames : List String :=
  ["name", "start_date", "end_date", "initial_budget", "membership_fee",
    "membership_fee_discounted", "rebuy_fee"]

def toJson (t : SemesterTerms) : Json :=
  .object [("name", .text t.name), ("start_date", t.startDate.toJson),
    ("end_date", t.endDate.toJson), ("initial_budget", t.initialBudget.toJson),
    ("membership_fee", t.membershipFee.toJson),
    ("membership_fee_discounted", t.discountedFee.toJson), ("rebuy_fee", t.rebuyFee.toJson)]

def ofJson? (v : Json) : Option SemesterTerms := do
  let [name, startDate, endDate, initial, fee, discounted, rebuy] ← v.fields? fieldNames | none
  return {
    name := ← name.toText?
    startDate := ← Instant.ofJson? startDate
    endDate := ← Instant.ofJson? endDate
    initialBudget := ← Decimal.ofJson? initial
    membershipFee := ← Decimal.ofJson? fee
    discountedFee := ← Decimal.ofJson? discounted
    rebuyFee := ← Decimal.ofJson? rebuy }

end SemesterTerms

namespace Membership

def fieldNames : List String :=
  ["id", "semester_id", "user_id", "paid", "discounted", "created_at"]

def toJson (m : Membership) : Json :=
  .object [("id", m.id.toJson), ("semester_id", m.semesterId.toJson), ("user_id", m.userId.toJson),
    ("paid", .bool m.paid), ("discounted", .bool m.discounted), ("created_at", m.createdAt.toJson)]

def ofJson? (v : Json) : Option Membership := do
  let [id, semesterId, userId, paid, discounted, createdAt] ← v.fields? fieldNames | none
  return {
    id := ← Id.ofJson? id
    semesterId := ← Id.ofJson? semesterId
    userId := ← Id.ofJson? userId
    paid := ← paid.toBool?
    discounted := ← discounted.toBool?
    createdAt := ← Instant.ofJson? createdAt }

end Membership

namespace Event

def fieldNames : List String :=
  ["id", "semester_id", "structure_id", "name", "location", "start_date", "state", "rebuys",
    "points_multiplier", "created_at"]

def toJson (e : Event) : Json :=
  .object [("id", e.id.toJson), ("semester_id", e.semesterId.toJson),
    ("structure_id", e.structureId.toJson), ("name", .text e.name),
    ("location", .ofOption .text e.location), ("start_date", e.startDate.toJson),
    ("state", e.state.toJson), ("rebuys", .count e.rebuys),
    ("points_multiplier", e.multiplier.toJson), ("created_at", e.createdAt.toJson)]

def ofJson? (v : Json) : Option Event := do
  let [id, semesterId, structureId, name, location, startDate, state, rebuys, multiplier,
    createdAt] ←
    v.fields? fieldNames | none
  return {
    id := ← Id.ofJson? id
    semesterId := ← Id.ofJson? semesterId
    structureId := ← Id.ofJson? structureId
    name := ← name.toText?
    location := ← Json.optional? Json.toText? location
    startDate := ← Instant.ofJson? startDate
    state := ← EventState.ofJson? state
    rebuys := ← rebuys.toCount?
    multiplier := ← Decimal.ofJson? multiplier
    createdAt := ← Instant.ofJson? createdAt }

end Event

namespace EventPlan

def fieldNames : List String :=
  ["semester_id", "structure_id", "name", "location", "start_date", "points_multiplier"]

def toJson (p : EventPlan) : Json :=
  .object [("semester_id", p.semesterId.toJson), ("structure_id", p.structureId.toJson),
    ("name", .text p.name), ("location", .ofOption .text p.location),
    ("start_date", p.startDate.toJson), ("points_multiplier", p.multiplier.toJson)]

def ofJson? (v : Json) : Option EventPlan := do
  let [semesterId, structureId, name, location, startDate, multiplier] ← v.fields? fieldNames | none
  return {
    semesterId := ← Id.ofJson? semesterId
    structureId := ← Id.ofJson? structureId
    name := ← name.toText?
    location := ← Json.optional? Json.toText? location
    startDate := ← Instant.ofJson? startDate
    multiplier := ← Decimal.ofJson? multiplier }

end EventPlan

namespace EventUpdate

def fieldNames : List String :=
  ["structure_id", "name", "location", "start_date", "points_multiplier"]

def toJson (u : EventUpdate) : Json :=
  .object [("structure_id", .ofOption Id.toJson u.structureId), ("name", .ofOption .text u.name),
    ("location", .ofOption .text u.location), ("start_date", .ofOption Instant.toJson u.startDate),
    ("points_multiplier", .ofOption Decimal.toJson u.multiplier)]

def ofJson? (v : Json) : Option EventUpdate := do
  let [structureId, name, location, startDate, multiplier] ← v.fields? fieldNames | none
  return {
    structureId := ← Json.optional? Id.ofJson? structureId
    name := ← Json.optional? Json.toText? name
    location := ← Json.optional? Json.toText? location
    startDate := ← Json.optional? Instant.ofJson? startDate
    multiplier := ← Json.optional? Decimal.ofJson? multiplier }

end EventUpdate

namespace Participant

def fieldNames : List String :=
  ["id", "membership_id", "event_id", "placement", "signed_out_at", "created_at"]

def toJson (p : Participant) : Json :=
  .object [("id", p.id.toJson), ("membership_id", p.membershipId.toJson),
    ("event_id", p.eventId.toJson), ("placement", .count p.placement),
    ("signed_out_at", .ofOption Instant.toJson p.signedOutAt), ("created_at", p.createdAt.toJson)]

def ofJson? (v : Json) : Option Participant := do
  let [id, membershipId, eventId, placement, signedOutAt, createdAt] ← v.fields? fieldNames | none
  return {
    id := ← Id.ofJson? id
    membershipId := ← Id.ofJson? membershipId
    eventId := ← Id.ofJson? eventId
    placement := ← placement.toCount?
    signedOutAt := ← Json.optional? Instant.ofJson? signedOutAt
    createdAt := ← Instant.ofJson? createdAt }

end Participant

namespace Ranking

def fieldNames : List String := ["membership_id", "points", "attendance"]

def toJson (r : Ranking) : Json :=
  .object [("membership_id", r.membershipId.toJson), ("points", .integer r.points),
    ("attendance", .count r.attendance)]

def ofJson? (v : Json) : Option Ranking := do
  let [membershipId, points, attendance] ← v.fields? fieldNames | none
  return {
    membershipId := ← Id.ofJson? membershipId
    points := ← points.toPoints?
    attendance := ← attendance.toCount? }

end Ranking

namespace RankingPosition

def fieldNames : List String := ["membership_id", "points", "position"]

def toJson (r : RankingPosition) : Json :=
  .object [("membership_id", r.membershipId.toJson), ("points", .integer r.points),
    ("position", .count r.position)]

def ofJson? (v : Json) : Option RankingPosition := do
  let [membershipId, points, position] ← v.fields? fieldNames | none
  return {
    membershipId := ← Id.ofJson? membershipId
    points := ← points.toPoints?
    position := ← position.toCount? }

end RankingPosition

namespace Award

def fieldNames : List String := ["participant_id", "membership_id", "placement", "points"]

def toJson (a : Award) : Json :=
  .object [("participant_id", a.participantId.toJson), ("membership_id", a.membershipId.toJson),
    ("placement", .count a.placement), ("points", .integer a.points)]

def ofJson? (v : Json) : Option Award := do
  let [participantId, membershipId, placement, points] ← v.fields? fieldNames | none
  return {
    participantId := ← Id.ofJson? participantId
    membershipId := ← Id.ofJson? membershipId
    placement := ← placement.toCount?
    points := ← points.toPoints? }

end Award

end CardClub
