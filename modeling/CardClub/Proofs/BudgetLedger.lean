import CardClub.Proofs.Money
import CardClub.Proofs.Settled
import Mathlib.Algebra.Field.Rat

/-!
# The budget ledger

The running budget of a semester is its initial budget, the fees of its paid memberships and one
rebuy fee for each rebuy of its events. A membership and its fee, and a rebuy and its fee, are
written by one call or not at all, and no other call bears on the budgets, on who has paid or on the
rebuys.
-/

namespace CardClub

namespace Club

/-- The fees of the paid memberships of a semester. -/
def feesPaid (c : Club) (row : SemesterRow) : Rat :=
  ((c.memberships.filter fun m => decide (m.semesterId = row.id) && m.paid).map fun m =>
    (row.feeFor m.discounted).value).sum

/-- The rebuys of all events of a semester. -/
def rebuysIn (c : Club) (semester : SemesterId) : Nat :=
  ((c.events.filter fun e => decide (e.semesterId = semester)).map (·.rebuys)).sum

/-- What a semester has started with and taken in. -/
def takings (c : Club) (row : SemesterRow) : Rat :=
  row.initialBudget.value + c.feesPaid row + c.rebuysIn row.id * row.rebuyFee.value

/-- Each budget is what the semester has taken in, with no more fraction digits than a decimal. -/
def Balanced (c : Club) : Prop :=
  ∀ row ∈ c.semesters, row.budget.value = c.takings row ∧ row.budget.scale ≤ 28

variable {c c' : Club} {row s : SemesterRow} {e e' : Event} {m : Membership} {id : SemesterId}

/-! ## Fees and rebuys -/

theorem feesPaid_concat (h : c'.memberships = c.memberships ++ [m]) :
    c'.feesPaid row = c.feesPaid row +
      if m.semesterId = row.id ∧ m.paid = true then (row.feeFor m.discounted).value else 0 := by
  rw [feesPaid, feesPaid, h, List.filter_append, List.map_append, List.sum_append,
    List.filter_singleton]
  by_cases hid : m.semesterId = row.id <;> by_cases hpaid : m.paid = true <;> simp [hid, hpaid]

theorem feesPaid_eq_zero (h : ∀ m ∈ c.memberships, m.semesterId ≠ row.id) :
    c.feesPaid row = 0 := by
  have hnone : (c.memberships.filter fun m => decide (m.semesterId = row.id) && m.paid) = [] :=
    List.filter_eq_nil_iff.mpr fun m hm => by simp [h m hm]
  rw [feesPaid, hnone]
  rfl

theorem rebuysIn_eq_sum (c : Club) (id : SemesterId) : (c.rebuysIn id : Int) =
    (c.events.map fun e => if e.semesterId = id then (e.rebuys : Int) else 0).sum := by
  rw [rebuysIn]
  induction c.events with
  | nil => rfl
  | cons e events ih =>
      rw [List.map_cons, List.sum_cons, ← ih, List.filter_cons]
      by_cases hid : e.semesterId = id <;> simp [hid]

theorem rebuysIn_eq_zero (h : ∀ e ∈ c.events, e.semesterId ≠ id) : c.rebuysIn id = 0 := by
  have hnone : (c.events.filter fun e => decide (e.semesterId = id)) = [] :=
    List.filter_eq_nil_iff.mpr fun e he => by simp [h e he]
  rw [rebuysIn, hnone]
  rfl

theorem rebuysIn_concat (h : c'.events = c.events ++ [e]) (hrebuys : e.rebuys = 0) :
    c'.rebuysIn id = c.rebuysIn id := by
  rw [rebuysIn, rebuysIn, h, List.filter_append, List.map_append, List.sum_append,
    List.filter_singleton]
  by_cases hid : e.semesterId = id <;> simp [hid, hrebuys]

/-- When an event changes within its semester, the rebuys of the semester change as its own do. -/
theorem rebuysIn_putEvent (hc : c.Consistent) (he : e ∈ c.events)
    (hevents : c'.events = (Statement.putEvent c e').events) (hid : e'.id = e.id)
    (hsemester : e'.semesterId = e.semesterId) :
    (c'.rebuysIn id : Int) =
      c.rebuysIn id + if e.semesterId = id then (e'.rebuys : Int) - e.rebuys else 0 := by
  -- counted event by event, the two sums differ at the changed one only
  have hsum := sum_map_key hc.event_ids he
    (f := fun x => if (if x.id = e'.id then e' else x).semesterId = id then
      ((if x.id = e'.id then e' else x).rebuys : Int) else 0)
    (g := fun x => if x.semesterId = id then (x.rebuys : Int) else 0)
    fun x _ hne => by rw [hid, if_neg hne]
  rw [rebuysIn_eq_sum, rebuysIn_eq_sum, hevents, Statement.putEvent, replaceWhere, List.map_map]
  simp only [hid, if_true, hsemester] at hsum
  simp only [Function.comp_def, decide_eq_true_eq, hid]
  rw [hsum]
  split <;> simp

theorem rebuysIn_congr (hc : c.Consistent) (he : e ∈ c.events)
    (hevents : c'.events = (Statement.putEvent c e').events) (hid : e'.id = e.id)
    (hsemester : e'.semesterId = e.semesterId) (hrebuys : e'.rebuys = e.rebuys) :
    c'.rebuysIn id = c.rebuysIn id := by
  have hsum : (c'.rebuysIn id : Int) = _ := rebuysIn_putEvent hc he hevents hid hsemester
  rw [hrebuys, Int.sub_self, ite_self] at hsum
  omega

theorem rebuysIn_rebought (hc : c.Consistent) (he : e ∈ c.events)
    (hevents : c'.events = (Statement.putEvent c { e with rebuys := e.rebuys + 1 }).events) :
    c'.rebuysIn id = c.rebuysIn id + if e.semesterId = id then 1 else 0 := by
  have hsum : (c'.rebuysIn id : Int) =
      c.rebuysIn id + if e.semesterId = id then ((e.rebuys + 1 : Nat) : Int) - e.rebuys else 0 :=
    rebuysIn_putEvent hc he hevents rfl rfl
  by_cases hid : e.semesterId = id
  · rw [if_pos hid] at hsum ⊢
    omega
  · rw [if_neg hid] at hsum ⊢
    omega

/-! ## Takings -/

theorem takings_congr (hmemberships : c'.memberships = c.memberships)
    (hrebuys : c'.rebuysIn row.id = c.rebuysIn row.id) : c'.takings row = c.takings row := by
  rw [takings, takings, feesPaid, feesPaid, hmemberships, hrebuys]

theorem takings_joined (hevents : c'.events = c.events)
    (hmemberships : c'.memberships = c.memberships ++ [m]) :
    c'.takings row = c.takings row +
      if m.semesterId = row.id ∧ m.paid = true then (row.feeFor m.discounted).value else 0 := by
  rw [takings, takings, feesPaid_concat hmemberships, rebuysIn, rebuysIn, hevents]
  rw [← add_assoc, add_right_comm]

theorem takings_rebought (hc : c.Consistent) (he : e ∈ c.events)
    (hevents : c'.events = (Statement.putEvent c { e with rebuys := e.rebuys + 1 }).events)
    (hmemberships : c'.memberships = c.memberships) :
    c'.takings row = c.takings row + if e.semesterId = row.id then row.rebuyFee.value else 0 := by
  rw [takings, takings, feesPaid, feesPaid, hmemberships, rebuysIn_rebought hc he hevents]
  split
  · rw [Nat.cast_add, Nat.cast_one, add_mul, one_mul, ← add_assoc]
  · rw [Nat.add_zero, add_zero]

/-! ## What balances the books -/

namespace Balanced

theorem congr (h : c.Balanced) (hsemesters : c'.semesters = c.semesters)
    (htakings : ∀ row, c'.takings row = c.takings row) : c'.Balanced := by
  intro row hrow
  rw [htakings]
  exact h row (hsemesters ▸ hrow)

theorem opened (h : c.Balanced) (hc : c.Consistent) (hid : row.id ∉ c.semesters.map (·.id))
    (hvalue : row.budget.value = row.initialBudget.value) (hscale : row.budget.scale ≤ 28) :
    Balanced { c with semesters := c.semesters ++ [row] } := by
  intro s hs
  rcases List.mem_append.mp hs with hs | hs
  · exact h s hs
  · obtain rfl := List.mem_singleton.mp hs
    have hfees : c.feesPaid s = 0 :=
      feesPaid_eq_zero fun m hm heq => hid (heq ▸ hc.membership_semester m hm)
    have hrebuys : c.rebuysIn s.id = 0 :=
      rebuysIn_eq_zero fun e he heq => hid (heq ▸ hc.event_semester e he)
    refine ⟨?_, hscale⟩
    change s.budget.value = c.takings s
    rw [hvalue, takings, hfees, hrebuys]
    simp

/-- A sum is paid into a budget by what has made the takings grow. -/
theorem deposit (h : c.Balanced) (hc : c.Consistent) (hrow : c.semester? id = some row)
    {amount : Decimal}
    (hsemesters : c'.semesters = replaceWhere (fun s => decide (s.id = id))
      (fun s => { s with budget := row.budget + .ofDecimal amount }) c.semesters)
    (hown : c'.takings row = c.takings row + amount.value)
    (hothers : ∀ s ∈ c.semesters, s.id ≠ id → c'.takings s = c.takings s) : c'.Balanced := by
  intro s' hs'
  rw [hsemesters] at hs'
  obtain ⟨s, hs, rfl⟩ := mem_replaceWhere.mp hs'
  split
  · next hid =>
    obtain ⟨hmem, hkey⟩ := mem_of_find?_key hrow
    obtain rfl : s = row :=
      List.inj_on_of_nodup_map hc.semester_ids hs hmem ((of_decide_eq_true hid).trans hkey.symm)
    obtain ⟨hvalue, hscale⟩ := h s hs
    refine ⟨?_, ?_⟩
    · change (s.budget + Amount.ofDecimal amount).value = c'.takings s
      rw [Amount.value_add, Amount.value_ofDecimal, hvalue, hown]
    · exact Amount.scale_add_le hscale (Amount.scale_ofDecimal_le amount)
  · next hid =>
    rw [hothers s hs (by simpa using hid)]
    exact h s hs

end Balanced

end Club

open Club

variable {c c' : Club} {stamp : Stamp} {call : ServiceCall}

/-- A call pays into a budget what the takings of its semester grow by. -/
theorem ServiceCall.Effect.balanced (h : call.Effect stamp c c') (hc : c.Consistent)
    (hbalanced : c.Balanced) : c'.Balanced := by
  cases h with
  | looked | entered | signedOut | signedIn | adjusted | adjustedAll =>
      exact hbalanced.congr rfl fun _ => rfl
  | @semesterOpened terms row hst =>
      obtain ⟨hid, hrow, hterms, hbudget, -⟩ := Statement.insertSemester_ok hst
      apply hbalanced.opened hc (hrow ▸ hid)
      · rw [hbudget, hterms, Amount.value_ofDecimal]
        exact terms.initialBudget.value_stored.symm
      · exact hbudget ▸ Amount.scale_ofDecimal_le _
  | @joined semester user paid discounted row m semesters hrow hst hfee =>
      obtain ⟨-, -, -, rfl, -⟩ := Statement.insertMembership_ok hst
      obtain ⟨-, rfl⟩ := mem_of_find?_key hrow
      cases paid with
      | false =>
          refine hbalanced.congr hfee fun s => ?_
          refine Eq.trans (takings_joined (c := c) rfl rfl) ?_
          simp
      | true =>
          obtain ⟨-, hsemesters⟩ := hfee
          apply hbalanced.deposit hc hrow hsemesters
          · refine Eq.trans (takings_joined (c := c) rfl rfl) ?_
            simp
          · intro s _ hne
            refine Eq.trans (takings_joined (c := c) rfl rfl) ?_
            simp [hne.symm]
  | announced hfault hst =>
      obtain ⟨-, -, -, rfl, -⟩ := Statement.insertEvent_ok hst
      exact hbalanced.congr rfl fun _ => takings_congr rfl (rebuysIn_concat rfl rfl)
  | amended hfault he =>
      obtain ⟨hmem, -⟩ := Statement.event?_eq_some he
      exact hbalanced.congr rfl fun _ =>
        takings_congr rfl (rebuysIn_congr hc hmem rfl rfl rfl rfl)
  | ended hyields =>
      obtain ⟨e, awards, deltas, rankings, he, -, -, -, -, -, -, rfl⟩ :=
        (Service.endEvent_yields hc).mp hyields
      obtain ⟨hmem, -⟩ := Statement.event?_eq_some he
      exact hbalanced.congr rfl fun _ =>
        takings_congr rfl (rebuysIn_congr hc hmem rfl rfl rfl rfl)
  | endUndone hyields =>
      obtain ⟨e, deltas, rankings, he, -, -, -, -, rfl⟩ :=
        (Service.undoEndEvent_yields hc).mp hyields
      obtain ⟨hmem, -⟩ := Statement.event?_eq_some he
      exact hbalanced.congr rfl fun _ =>
        takings_congr rfl (rebuysIn_congr hc hmem rfl rfl rfl rfl)
  | @rebought event e row he hopen hcount hrow =>
      obtain ⟨hmem, -⟩ := Statement.event?_eq_some he
      obtain ⟨-, hid⟩ := mem_of_find?_key hrow
      apply hbalanced.deposit hc hrow rfl
      · refine Eq.trans (takings_rebought hc hmem rfl rfl) ?_
        rw [if_pos hid.symm]
      · intro s _ hne
        refine Eq.trans (takings_rebought hc hmem rfl rfl) ?_
        rw [if_neg hne.symm, add_zero]

/-- The books are balanced in every state that services can reach. -/
theorem Session.balanced_after {steps : List Step} (hsteps : ∀ x ∈ steps, x.isService = true) :
    (start.after steps).club.Balanced := by
  apply service_log (P := fun _ c => c.Balanced) ?_ ?_ ?_ hsteps
  · exact fun row hrow => absurd hrow List.not_mem_nil
  · exact fun hbalanced _ => hbalanced
  · exact fun hc hbalanced hyields => (ServiceCall.effect hyields).balanced hc hbalanced

/-- The budget of a semester is its initial budget with the fees of its paid memberships and a fee
for each rebuy of its events. While that fits a decimal, it is what the semester is shown with. -/
theorem budget_ledger {steps : List Step} (hsteps : ∀ x ∈ steps, x.isService = true)
    {row : SemesterRow} (hrow : row ∈ (Session.start.after steps).club.semesters) :
    let c := (Session.start.after steps).club
    row.budget.value =
        row.initialBudget.value + c.feesPaid row + c.rebuysIn row.id * row.rebuyFee.value ∧
      (row.budget.coefficient.natAbs < coefficientLimit →
        ∃ s, (Service.getSemester row.id).Yields c s c ∧
          s.toSemesterTerms = row.toSemesterTerms ∧ s.currentBudget.value = row.budget.value) := by
  intro c
  have hc : c.Consistent :=
    Session.consistent_after fun x hx => Step.isProgram_of_isService (hsteps x hx)
  obtain ⟨hvalue, hscale⟩ := Session.balanced_after hsteps row hrow
  refine ⟨hvalue, fun hfits => ?_⟩
  obtain ⟨d, hd, heq⟩ := Amount.toDecimal?_of_fits hfits hscale
  have hread : row.read = .ok
      { row.toSemesterTerms with id := row.id, currentBudget := d, createdAt := row.createdAt } := by
    rw [SemesterRow.read, hd]
  have hfound : c.semester? row.id = some row := find?_key hc.semester_ids hrow
  exact ⟨_, Service.getSemester_yields.mpr ⟨row, hfound, hread, rfl⟩, rfl, heq⟩

/-! ## A season of three members

Two of the members have paid, one of them the discounted fee, and their event sees two rebuys.
-/

namespace Season

open Night (uuid time event)

def amount (cents : Nat) : Decimal := (Decimal.ofParts? cents 2).getD .zero

def terms : SemesterTerms :=
  ⟨"Autumn", time 0, time 100, amount 50000, amount 2000, amount 1000, amount 500⟩

def row : SemesterRow := ⟨terms, ⟨uuid 1⟩, ⟨54000, 2⟩, time 1⟩

def steps : List Step :=
  [.call ⟨uuid 1, time 1⟩ (.service (.createSemester terms)),
    .call ⟨uuid 2, time 2⟩ (.service (.createMembership ⟨uuid 1⟩ ⟨uuid 91⟩ true false)),
    .call ⟨uuid 3, time 3⟩ (.service (.createMembership ⟨uuid 1⟩ ⟨uuid 92⟩ true true)),
    .call ⟨uuid 4, time 4⟩ (.service (.createMembership ⟨uuid 1⟩ ⟨uuid 93⟩ false false)),
    .call ⟨uuid 5, time 5⟩ (.service (.createEvent (event (time 50)).toEventPlan)),
    .call ⟨uuid 6, time 6⟩ (.service (.newRebuy ⟨uuid 5⟩)),
    .call ⟨uuid 7, time 7⟩ (.service (.newRebuy ⟨uuid 5⟩))]

end Season

theorem season_budget_ledger :
    let c := (Session.start.after Season.steps).club
    c.feesPaid Season.row = 30 ∧ c.rebuysIn Season.row.id = 2 ∧
      Season.row.budget.value = Season.row.initialBudget.value + c.feesPaid Season.row +
        c.rebuysIn Season.row.id * Season.row.rebuyFee.value ∧
      ∃ s, (Service.getSemester Season.row.id).Yields c s c ∧
        s.currentBudget.value = Season.row.budget.value := by
  have hrow : Season.row ∈ (Session.start.after Season.steps).club.semesters := by decide +kernel
  obtain ⟨hvalue, hshown⟩ := budget_ledger (by decide +kernel) hrow
  obtain ⟨s, hs, -, hbudget⟩ := hshown (by decide +kernel)
  exact ⟨by decide +kernel, by decide +kernel, hvalue, s, hs, hbudget⟩

end CardClub
