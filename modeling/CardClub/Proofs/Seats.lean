import CardClub.Proofs.History
import CardClub.Proofs.Listing

/-!
# Seats

A membership enters an event once. The tables keep this whatever is done to them: an entry tests it,
no other statement moves a participant to another membership or event, and changes from outside
remove participants or set their counters.
-/

namespace CardClub

open Work

/-- No membership has entered an event twice. -/
def Club.SeatedOnce (c : Club) : Prop :=
  (c.participants.map fun p => (p.membershipId, p.eventId)).Nodup

variable {c c' : Club}

theorem Club.Consistent.seatedOnce (hc : c.Consistent) : c.SeatedOnce := hc.participant_keys

namespace Club.SeatedOnce

theorem empty : Club.empty.SeatedOnce := List.nodup_nil

theorem replaceWhere (h : c.SeatedOnce) {test : Participant → Bool}
    {change : Participant → Participant}
    (hchange : ∀ p, (change p).membershipId = p.membershipId ∧ (change p).eventId = p.eventId) :
    { c with participants := replaceWhere test change c.participants }.SeatedOnce := by
  have hkeys : (CardClub.replaceWhere test change c.participants).map
      (fun p => (p.membershipId, p.eventId)) =
      c.participants.map fun p => (p.membershipId, p.eventId) :=
    map_replaceWhere fun p _ _ => Prod.ext (hchange p).1 (hchange p).2
  rw [SeatedOnce, hkeys]
  exact h

theorem changeParticipants (h : c.SeatedOnce) {test : Participant → Bool}
    {change : Participant → Participant} {n : Nat}
    (hst : Statement.changeParticipants test change c = .ok (n, c'))
    (hchange : ∀ p, (change p).membershipId = p.membershipId ∧ (change p).eventId = p.eventId) :
    c'.SeatedOnce := by
  obtain ⟨-, rfl⟩ := Statement.changeParticipants_ok hst
  exact h.replaceWhere hchange

theorem of_sublist (h : c.SeatedOnce) (hsub : c'.participants.Sublist c.participants) :
    c'.SeatedOnce :=
  List.Nodup.sublist (hsub.map _) h

/-- The memberships in the field of an event do not repeat. -/
theorem field_memberships (h : c.SeatedOnce) (event : EventId) :
    ((c.field event).map (·.membershipId)).Nodup := by
  have hkeys : ((c.field event).map fun p => (p.membershipId, p.eventId)).Nodup :=
    List.Nodup.sublist (List.filter_sublist.map _) h
  have hevent {p : Participant} (hp : p ∈ c.field event) : p.eventId = event :=
    of_decide_eq_true (List.mem_filter.mp hp).2
  refine List.pairwise_map.mpr ((List.pairwise_map.mp hkeys).imp_of_mem fun hp hq hne hm => hne ?_)
  rw [hm, hevent hp, hevent hq]

theorem listed_memberships (h : c.SeatedOnce) (event : EventId) :
    ((c.participantsOf event).map (·.membershipId)).Nodup :=
  ((c.participantsOf_perm event).map _).nodup_iff.mpr (h.field_memberships event)

end Club.SeatedOnce

/-! ## Statements -/

/-- Every statement of a service or a store keeps the seats. -/
theorem Written.seatedOnce (hw : Written c c') (h : c.SeatedOnce) : c'.SeatedOnce := by
  cases hw with
  | insertSemester hst =>
      obtain ⟨-, -, -, -, -, -, -, -, rfl⟩ := Statement.insertSemester_ok hst
      exact h
  | adjustBudget hst =>
      obtain ⟨-, rfl⟩ := Statement.adjustBudget_ok hst
      exact h
  | insertMembership hst =>
      obtain ⟨-, -, -, -, rfl⟩ := Statement.insertMembership_ok hst
      exact h
  | insertEvent hst =>
      obtain ⟨-, -, -, -, rfl⟩ := Statement.insertEvent_ok hst
      exact h
  | updateEvent hst =>
      rcases Statement.updateEvent_ok hst with ⟨-, -, rfl⟩ | ⟨-, -, -, -, -, -, rfl⟩
      · exact h
      · exact h
  | setState hst =>
      rcases Statement.setState_ok hst with ⟨-, -, rfl⟩ | ⟨-, -, -, rfl⟩
      · exact h
      · exact h
  | incrementRebuys hst =>
      rcases Statement.incrementRebuys_ok hst with ⟨-, -, rfl⟩ | ⟨-, -, -, -, rfl⟩
      · exact h
      · exact h
  | insertParticipant hst =>
      obtain ⟨-, hkey, -, -, rfl, rfl⟩ := Statement.insertParticipant_ok hst
      exact nodup_map_concat h hkey
  | setSignedOutAt hst => exact h.changeParticipants hst fun _ => ⟨rfl, rfl⟩
  | forceSignOut hst => exact h.changeParticipants hst fun _ => ⟨rfl, rfl⟩
  | setPlacements _ hst => exact h.changeParticipants hst fun _ => ⟨rfl, rfl⟩
  | creditRankings hst =>
      obtain ⟨-, -, -, -, rfl⟩ := Statement.creditRankings_ok.mp hst
      exact h

/-! ## Changes from outside -/

namespace OutsideChange

theorem preserves_remove {α : Type} {records : Club → List α} {test : α → Bool}
    {without : Club → (α → Bool) → Club}
    (h : ∀ c, (without c test).participants.Sublist c.participants) :
    (remove records test without).Preserves Club.SeatedOnce :=
  fun s hs => hs.of_sublist (h s.club)

theorem setCounter_ok {α : Type} {table : Table} {test : α → Bool} {set : Nat → α → α} {value : Int}
    {records : List α} {n : Nat} (put : List α → Club)
    (h : (Statement.setCounter table test set value records).map (fun x => (x.1, put x.2)) =
      .ok (n, c')) : c' = put (replaceWhere test (set value.toNat) records) := by
  unfold Statement.setCounter at h
  split at h
  · exact (Prod.mk.inj (Except.ok.inj h)).2.symm
  · cases h

theorem preserves_seatedOnce (change : OutsideChange) :
    change.run.Preserves Club.SeatedOnce := by
  cases change with
  | removeSemester s =>
      exact preserves_remove fun c => List.filter_sublist.trans List.filter_sublist
  | removeMembership m => exact preserves_remove fun c => List.filter_sublist
  | removeEvent e => exact preserves_remove fun c => List.filter_sublist
  | removeParticipant p => exact preserves_remove fun c => List.filter_sublist
  | removeRanking m => exact preserves_remove fun c => List.Sublist.refl _
  | setAttendance m value =>
      refine (preserves_write fun {c n c'} hst h => ?_).map _
      obtain rfl := setCounter_ok (fun rankings => { c with rankings }) hst
      exact h
  | setRebuys e value =>
      refine (preserves_write fun {c n c'} hst h => ?_).map _
      obtain rfl := setCounter_ok (fun events => { c with events }) hst
      exact h
  | setPlacement p value =>
      refine (preserves_write fun {c n c'} hst h => ?_).map _
      obtain rfl := setCounter_ok (fun participants => { c with participants }) hst
      exact h.replaceWhere fun _ => ⟨rfl, rfl⟩

end OutsideChange

theorem Call.preserves_seatedOnce (stamp : Stamp) (call : Call) :
    (call.run stamp).Preserves Club.SeatedOnce := by
  cases call with
  | service call => exact ((call.composed stamp).preserves Written.seatedOnce).mapError _
  | store call => exact ((call.composed stamp).preserves Written.seatedOnce).mapError _
  | outside change => exact change.preserves_seatedOnce.mapError _

/-- A membership has entered an event at most once in every state that there is. -/
theorem Session.seatedOnce_after (steps : List Step) : (start.after steps).club.SeatedOnce := by
  have hsteps : ∀ x ∈ steps, (fun _ : Step => true) x = true := fun _ _ => rfl
  exact after_keeps (fun stamp call _ => call.preserves_seatedOnce stamp) hsteps
    Club.SeatedOnce.empty

end CardClub
