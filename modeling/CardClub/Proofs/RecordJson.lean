import CardClub.Json.Record
import CardClub.Proofs.ScalarJson

/-!
# Records are read back from their written form

Each record is read back from the object that it is written as, with zeros that have lost their
sign. Whatever is read, from any accepted spelling, has its numbers in range. So a written form that
was read is accepted again, and it is written once more as it stands unless a zero had a sign.
-/

namespace CardClub

open Json

variable {j : Json}

/-! ## Decimals in a record -/

/-- Where the decimals of a kind of record are written, and how all of them are changed at once. -/
structure DecimalFields {α : Type} (write : α → Json) where
  keyed : α → List (String × Option Decimal)
  change : (Decimal → Decimal) → α → α
  keyed_change : ∀ g a, keyed (change g a) = (keyed a).map fun e => (e.1, e.2.map g)
  change_eq : ∀ g a, (∀ e ∈ keyed a, e.2.map g = e.2) → change g a = a
  get_write : ∀ a, (keyed a).map (fun e => (write a).get e.1) =
    (keyed a).map fun e => ofOption Decimal.toJson e.2

namespace DecimalFields

variable {α : Type} {write : α → Json} (fields : DecimalFields write) {a : α}

protected def none : DecimalFields write where
  keyed _ := []
  change _ a := a
  keyed_change _ _ := rfl
  change_eq _ _ _ := rfl
  get_write _ := rfl

def values (a : α) : List Decimal := (fields.keyed a).filterMap (·.2)

/-- The record without signs of zeros. -/
def unsigned (a : α) : α := fields.change Decimal.unsigned a

theorem unsigned_of_plain (h : ∀ d ∈ fields.values a, d.Plain) : fields.unsigned a = a := by
  refine fields.change_eq _ _ fun e he => ?_
  cases hd : e.2 with
  | none => rfl
  | some d =>
      have hplain : d.Plain := h d (List.mem_filterMap.mpr ⟨e, he, hd⟩)
      rw [Option.map_some, Decimal.unsigned_of_plain hplain]

/-- A record that is written as it is without signs of zeros has none. -/
theorem plain_of_write (h : write (fields.unsigned a) = write a) :
    ∀ d ∈ fields.values a, d.Plain := by
  intro d hd
  obtain ⟨⟨key, _⟩, hfield, rfl⟩ := List.mem_filterMap.mp hd
  have hchanged : (key, some d.unsigned) ∈ fields.keyed (fields.unsigned a) := by
    rw [unsigned, fields.keyed_change]
    exact List.mem_map.mpr ⟨_, hfield, rfl⟩
  have hwritten := List.map_inj_left.mp (fields.get_write _) _ hchanged
  rw [h, List.map_inj_left.mp (fields.get_write _) _ hfield] at hwritten
  exact Decimal.plain_of_toJson hwritten.symm

end DecimalFields

/-! ## Records with decimals -/

namespace Semester

def decimals : DecimalFields toJson where
  keyed s :=
    [("initial_budget", s.initialBudget), ("current_budget", s.currentBudget),
      ("membership_fee", s.membershipFee), ("membership_fee_discounted", s.discountedFee),
      ("rebuy_fee", s.rebuyFee)]
  change g s :=
    { s with
      initialBudget := g s.initialBudget
      currentBudget := g s.currentBudget
      membershipFee := g s.membershipFee
      discountedFee := g s.discountedFee
      rebuyFee := g s.rebuyFee }
  keyed_change _ _ := rfl
  change_eq := by simp +contextual
  get_write _ := rfl

theorem ofJson?_toJson (s : Semester) : ofJson? s.toJson = some (decimals.unsigned s) := by
  have hfields : s.toJson.fields? fieldNames = some [s.id.toJson, .text s.name, s.startDate.toJson,
      s.endDate.toJson, s.initialBudget.toJson, s.currentBudget.toJson, s.membershipFee.toJson,
      s.discountedFee.toJson, s.rebuyFee.toJson, s.createdAt.toJson] := rfl
  rw [ofJson?, hfields]
  simp [DecimalFields.unsigned, decimals]

end Semester

namespace SemesterTerms

def decimals : DecimalFields toJson where
  keyed t :=
    [("initial_budget", t.initialBudget), ("membership_fee", t.membershipFee),
      ("membership_fee_discounted", t.discountedFee), ("rebuy_fee", t.rebuyFee)]
  change g t :=
    { t with
      initialBudget := g t.initialBudget
      membershipFee := g t.membershipFee
      discountedFee := g t.discountedFee
      rebuyFee := g t.rebuyFee }
  keyed_change _ _ := rfl
  change_eq := by simp +contextual
  get_write _ := rfl

theorem ofJson?_toJson (t : SemesterTerms) : ofJson? t.toJson = some (decimals.unsigned t) := by
  have hfields : t.toJson.fields? fieldNames = some [.text t.name, t.startDate.toJson,
      t.endDate.toJson, t.initialBudget.toJson, t.membershipFee.toJson, t.discountedFee.toJson,
      t.rebuyFee.toJson] := rfl
  rw [ofJson?, hfields]
  simp [DecimalFields.unsigned, decimals]

end SemesterTerms

namespace Event

def decimals : DecimalFields toJson where
  keyed e := [("points_multiplier", e.multiplier)]
  change g e := { e with multiplier := g e.multiplier }
  keyed_change _ _ := rfl
  change_eq := by simp +contextual
  get_write _ := rfl

theorem ofJson?_toJson {e : Event} (h : e.rebuys < countLimit) :
    ofJson? e.toJson = some (decimals.unsigned e) := by
  have hfields : e.toJson.fields? fieldNames = some [e.id.toJson, e.semesterId.toJson,
      e.structureId.toJson, .text e.name, .ofOption .text e.location, e.startDate.toJson,
      e.state.toJson, .count e.rebuys, e.multiplier.toJson, e.createdAt.toJson] := rfl
  rw [ofJson?, hfields]
  simp [DecimalFields.unsigned, decimals, toCount?_count h]

theorem rebuys_of_ofJson? {e : Event} (h : ofJson? j = some e) : e.rebuys < countLimit := by
  unfold ofJson? at h
  simp only [Option.bind_eq_bind, Option.bind_eq_some_iff] at h
  obtain ⟨l, -, h⟩ := h
  split at h
  · simp only [Option.bind_eq_some_iff] at h
    obtain ⟨_, -, _, -, _, -, _, -, _, -, _, -, _, -, n, hn, _, -, _, -, heq⟩ := h
    cases heq
    exact lt_of_toCount? hn
  · cases h

end Event

namespace EventPlan

def decimals : DecimalFields toJson where
  keyed p := [("points_multiplier", p.multiplier)]
  change g p := { p with multiplier := g p.multiplier }
  keyed_change _ _ := rfl
  change_eq := by simp +contextual
  get_write _ := rfl

theorem ofJson?_toJson (p : EventPlan) : ofJson? p.toJson = some (decimals.unsigned p) := by
  have hfields : p.toJson.fields? fieldNames = some [p.semesterId.toJson, p.structureId.toJson,
      .text p.name, .ofOption .text p.location, p.startDate.toJson, p.multiplier.toJson] := rfl
  rw [ofJson?, hfields]
  simp [DecimalFields.unsigned, decimals]

end EventPlan

namespace EventUpdate

def decimals : DecimalFields toJson where
  keyed u := [("points_multiplier", u.multiplier)]
  change g u := { u with multiplier := u.multiplier.map g }
  keyed_change _ _ := rfl
  change_eq := by simp +contextual
  get_write _ := rfl

theorem ofJson?_toJson (u : EventUpdate) : ofJson? u.toJson = some (decimals.unsigned u) := by
  have hfields : u.toJson.fields? fieldNames = some [.ofOption Id.toJson u.structureId,
      .ofOption .text u.name, .ofOption .text u.location, .ofOption Instant.toJson u.startDate,
      .ofOption Decimal.toJson u.multiplier] := rfl
  rw [ofJson?, hfields]
  simp [DecimalFields.unsigned, decimals]

end EventUpdate

/-! ## Records without decimals -/

theorem Membership.ofJson?_toJson (m : Membership) : ofJson? m.toJson = some m := by
  have hfields : m.toJson.fields? fieldNames = some [m.id.toJson, m.semesterId.toJson,
      m.userId.toJson, .bool m.paid, .bool m.discounted, m.createdAt.toJson] := rfl
  rw [ofJson?, hfields]
  simp

namespace Participant

theorem ofJson?_toJson {p : Participant} (h : p.placement < countLimit) :
    ofJson? p.toJson = some p := by
  have hfields : p.toJson.fields? fieldNames = some [p.id.toJson, p.membershipId.toJson,
      p.eventId.toJson, .count p.placement, .ofOption Instant.toJson p.signedOutAt,
      p.createdAt.toJson] := rfl
  rw [ofJson?, hfields]
  simp [toCount?_count h]

theorem placement_of_ofJson? {p : Participant} (h : ofJson? j = some p) :
    p.placement < countLimit := by
  unfold ofJson? at h
  simp only [Option.bind_eq_bind, Option.bind_eq_some_iff] at h
  obtain ⟨l, -, h⟩ := h
  split at h
  · simp only [Option.bind_eq_some_iff] at h
    obtain ⟨_, -, _, -, _, -, n, hn, _, -, _, -, heq⟩ := h
    cases heq
    exact lt_of_toCount? hn
  · cases h

end Participant

namespace Ranking

theorem ofJson?_toJson {r : Ranking} (hp : fitsPoints r.points = true)
    (ha : r.attendance < countLimit) : ofJson? r.toJson = some r := by
  have hfields : r.toJson.fields? fieldNames = some [r.membershipId.toJson, .integer r.points,
      .count r.attendance] := rfl
  rw [ofJson?, hfields]
  simp [toPoints?_integer hp, toCount?_count ha]

theorem inRange_of_ofJson? {r : Ranking} (h : ofJson? j = some r) :
    fitsPoints r.points = true ∧ r.attendance < countLimit := by
  unfold ofJson? at h
  simp only [Option.bind_eq_bind, Option.bind_eq_some_iff] at h
  obtain ⟨l, -, h⟩ := h
  split at h
  · simp only [Option.bind_eq_some_iff] at h
    obtain ⟨_, -, points, hp, attendance, ha, heq⟩ := h
    cases heq
    exact ⟨fits_of_toPoints? hp, lt_of_toCount? ha⟩
  · cases h

end Ranking

namespace RankingPosition

theorem ofJson?_toJson {r : RankingPosition} (hp : fitsPoints r.points = true)
    (hk : r.position < countLimit) : ofJson? r.toJson = some r := by
  have hfields : r.toJson.fields? fieldNames = some [r.membershipId.toJson, .integer r.points,
      .count r.position] := rfl
  rw [ofJson?, hfields]
  simp [toPoints?_integer hp, toCount?_count hk]

theorem inRange_of_ofJson? {r : RankingPosition} (h : ofJson? j = some r) :
    fitsPoints r.points = true ∧ r.position < countLimit := by
  unfold ofJson? at h
  simp only [Option.bind_eq_bind, Option.bind_eq_some_iff] at h
  obtain ⟨l, -, h⟩ := h
  split at h
  · simp only [Option.bind_eq_some_iff] at h
    obtain ⟨_, -, points, hp, position, hk, heq⟩ := h
    cases heq
    exact ⟨fits_of_toPoints? hp, lt_of_toCount? hk⟩
  · cases h

end RankingPosition

namespace Award

theorem ofJson?_toJson {a : Award} (hk : a.placement < countLimit)
    (hp : fitsPoints a.points = true) : ofJson? a.toJson = some a := by
  have hfields : a.toJson.fields? fieldNames = some [a.participantId.toJson,
      a.membershipId.toJson, .count a.placement, .integer a.points] := rfl
  rw [ofJson?, hfields]
  simp [toPoints?_integer hp, toCount?_count hk]

theorem inRange_of_ofJson? {a : Award} (h : ofJson? j = some a) :
    a.placement < countLimit ∧ fitsPoints a.points = true := by
  unfold ofJson? at h
  simp only [Option.bind_eq_bind, Option.bind_eq_some_iff] at h
  obtain ⟨l, -, h⟩ := h
  split at h
  · simp only [Option.bind_eq_some_iff] at h
    obtain ⟨_, -, _, -, placement, hk, points, hp, heq⟩ := h
    cases heq
    exact ⟨lt_of_toCount? hk, fits_of_toPoints? hp⟩
  · cases h

end Award

/-! ## All that is exchanged -/

/-- The types whose values are exchanged. -/
inductive Form where
  | semester | newSemester | membership | event | newEvent | eventUpdate | participant | ranking
  | rankingPosition | award | eventState

namespace Form

def Value : Form → Type
  | semester => Semester
  | newSemester => SemesterTerms
  | membership => Membership
  | event => Event
  | newEvent => EventPlan
  | eventUpdate => EventUpdate
  | participant => Participant
  | ranking => Ranking
  | rankingPosition => RankingPosition
  | award => Award
  | eventState => EventState

def write : (f : Form) → f.Value → Json
  | semester => Semester.toJson
  | newSemester => SemesterTerms.toJson
  | membership => Membership.toJson
  | event => Event.toJson
  | newEvent => EventPlan.toJson
  | eventUpdate => EventUpdate.toJson
  | participant => Participant.toJson
  | ranking => Ranking.toJson
  | rankingPosition => RankingPosition.toJson
  | award => Award.toJson
  | eventState => EventState.toJson

def read? : (f : Form) → Json → Option f.Value
  | semester => Semester.ofJson?
  | newSemester => SemesterTerms.ofJson?
  | membership => Membership.ofJson?
  | event => Event.ofJson?
  | newEvent => EventPlan.ofJson?
  | eventUpdate => EventUpdate.ofJson?
  | participant => Participant.ofJson?
  | ranking => Ranking.ofJson?
  | rankingPosition => RankingPosition.ofJson?
  | award => Award.ofJson?
  | eventState => EventState.ofJson?

/-- Counts have 32 bits, and points have 64 bits with a sign. -/
def InRange : (f : Form) → f.Value → Prop
  | event => fun e => Event.rebuys e < countLimit
  | participant => fun p => Participant.placement p < countLimit
  | ranking => fun r => fitsPoints (Ranking.points r) = true ∧ Ranking.attendance r < countLimit
  | rankingPosition => fun r =>
      fitsPoints (RankingPosition.points r) = true ∧ RankingPosition.position r < countLimit
  | award => fun a => Award.placement a < countLimit ∧ fitsPoints (Award.points a) = true
  | _ => fun _ => True

def decimals : (f : Form) → DecimalFields f.write
  | semester => Semester.decimals
  | newSemester => SemesterTerms.decimals
  | event => Event.decimals
  | newEvent => EventPlan.decimals
  | eventUpdate => EventUpdate.decimals
  | membership | participant | ranking | rankingPosition | award | eventState => .none

/-- No decimal of the value is a zero with a sign. -/
def Plain (f : Form) (v : f.Value) : Prop := ∀ d ∈ f.decimals.values v, d.Plain

variable (f : Form) {v : f.Value}

theorem read?_write (h : f.InRange v) : f.read? (f.write v) = some (f.decimals.unsigned v) := by
  cases f with
  | semester => exact Semester.ofJson?_toJson v
  | newSemester => exact SemesterTerms.ofJson?_toJson v
  | membership => exact Membership.ofJson?_toJson v
  | event => exact Event.ofJson?_toJson h
  | newEvent => exact EventPlan.ofJson?_toJson v
  | eventUpdate => exact EventUpdate.ofJson?_toJson v
  | participant => exact Participant.ofJson?_toJson h
  | ranking => exact Ranking.ofJson?_toJson h.1 h.2
  | rankingPosition => exact RankingPosition.ofJson?_toJson h.1 h.2
  | award => exact Award.ofJson?_toJson h.1 h.2
  | eventState => exact EventState.ofJson?_toJson v

theorem inRange_of_read? (h : f.read? j = some v) : f.InRange v := by
  cases f with
  | event => exact Event.rebuys_of_ofJson? h
  | participant => exact Participant.placement_of_ofJson? h
  | ranking => exact Ranking.inRange_of_ofJson? h
  | rankingPosition => exact RankingPosition.inRange_of_ofJson? h
  | award => exact Award.inRange_of_ofJson? h
  | _ => trivial

end Form

/-- Every value in range without a sign on a zero is read back from its written form. What is
written of a value that was read, from any accepted spelling, is accepted again, and it is written
once more as it stands exactly if no decimal was read as a zero with a sign; such a zero loses its
sign. -/
theorem written_form_read_back (f : Form) :
    (∀ v, f.InRange v → f.Plain v → f.read? (f.write v) = some v) ∧
      ∀ j v, f.read? j = some v → f.read? (f.write v) = some (f.decimals.unsigned v) ∧
        (f.write (f.decimals.unsigned v) = f.write v ↔ f.Plain v) := by
  constructor
  · intro v hrange hplain
    rw [f.read?_write hrange, f.decimals.unsigned_of_plain hplain]
  · intro j v hread
    refine ⟨f.read?_write (f.inRange_of_read? hread), f.decimals.plain_of_write, ?_⟩
    intro hplain
    rw [f.decimals.unsigned_of_plain hplain]

/-! ## Two sheets of an event

The first one gives the fields in order, in unusual spellings and with a leap second at an offset.
The second one has a multiplier that is too small to be told from zero, but keeps its sign.
-/

namespace Sheet

def plan : EventPlan where
  semesterId := ⟨⟨10, by decide⟩⟩
  structureId := ⟨⟨11, by decide⟩⟩
  name := "Opening"
  location := none
  startDate := (Instant.ofParts? 1767225599 1500000000).getD .epoch
  multiplier := ⟨false, 250, 2, by decide, by decide⟩

def foreign : Json :=
  .array [.text "\x7b00000000-0000-0000-0000-00000000000A\x7d",
    .text "0000000000000000000000000000000b", .text "Opening", .null,
    .text "2026-01-01 01:29:60.5000+01:30", .text "+2.5_0"]

/-- The plan with a negative zero of 28 fraction digits as its multiplier. -/
def belowZero : EventPlan where
  __ := plan
  multiplier := { Decimal.zero with negative := true, scale := 28, scale_le := by decide }

def small : Json :=
  .object [("name", .text "Opening"), ("points_multiplier", .text "-0.4e-28"),
    ("semester_id", .text "00000000-0000-0000-0000-00000000000a"),
    ("structure_id", .text "00000000-0000-0000-0000-00000000000b"),
    ("start_date", .text "2025-12-31T23:59:60.500Z")]

theorem ofJson?_foreign : EventPlan.ofJson? foreign = some plan := by
  decide +kernel

theorem ofJson?_small : EventPlan.ofJson? small = some belowZero := by
  decide +kernel

end Sheet

theorem foreign_sheet_read_back :
    Sheet.plan.toJson.get "start_date" = .text "2025-12-31T23:59:60.500Z" ∧
      EventPlan.ofJson? Sheet.plan.toJson = some Sheet.plan ∧
      EventPlan.ofJson? Sheet.foreign = some Sheet.plan ∧
      (EventPlan.decimals.unsigned Sheet.plan).toJson = Sheet.plan.toJson := by
  obtain ⟨hvalue, hwritten⟩ := written_form_read_back .newEvent
  have hplain : Form.newEvent.Plain Sheet.plan :=
    (List.forall_mem_singleton (p := Decimal.Plain)).mpr fun _ => rfl
  exact ⟨by rfl, hvalue Sheet.plan trivial hplain, Sheet.ofJson?_foreign,
    (hwritten Sheet.foreign Sheet.plan Sheet.ofJson?_foreign).2.mpr hplain⟩

/-- The second sheet is accepted, and what is written of it is not written back unchanged. -/
theorem small_multiplier_written_anew :
    EventPlan.ofJson? Sheet.small = some Sheet.belowZero ∧
      Sheet.belowZero.toJson.get "points_multiplier" = .text "-0.0000000000000000000000000000" ∧
      ∃ p, EventPlan.ofJson? Sheet.belowZero.toJson = some p ∧
        p.toJson.get "points_multiplier" = .text "0.0000000000000000000000000000" ∧
        p.toJson ≠ Sheet.belowZero.toJson := by
  refine ⟨Sheet.ofJson?_small, by rfl, _, Sheet.belowZero.ofJson?_toJson, by rfl, ?_⟩
  intro hsame
  have hplain := EventPlan.decimals.plain_of_write hsame _ List.mem_cons_self
  exact Bool.false_ne_true (hplain rfl).symm

end CardClub
