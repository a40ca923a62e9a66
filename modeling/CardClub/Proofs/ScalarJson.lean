import CardClub.Json.Scalar
import CardClub.Proofs.DecimalText
import CardClub.Proofs.InstantText
import CardClub.Proofs.UuidText

/-!
# JSON forms of single values are read back

Identifiers, instants and states are read back as they were, whole numbers if they are in range, and
decimals up to the sign of a zero. What is read is in range. An absent value is told apart from all
others because none of them is written as null.
-/

namespace CardClub

@[simp] theorem Id.ofJson?_toJson {k : Kind} (i : Id k) : ofJson? i.toJson = some i := by
  rw [ofJson?, toJson, Uuid.ofJson?, Uuid.toJson, Json.toText?_text, Option.bind_some,
    Uuid.ofText?_toText, Option.map_some]

@[simp] theorem Instant.ofJson?_toJson (t : Instant) : ofJson? t.toJson = some t := by
  rw [ofJson?, toJson, Json.toText?_text, Option.bind_some, ofText?_toText]

@[simp] theorem Decimal.ofJson?_toJson (d : Decimal) : ofJson? d.toJson = some d.unsigned := by
  rw [toJson, ofJson?, ofText?_toText]

@[simp] theorem EventState.ofJson?_toJson (s : EventState) : ofJson? s.toJson = some s := by
  rw [toJson, ofJson?, ofLabel?_label]

namespace Decimal

/-- A minus sign is written at the front and nowhere else. -/
theorem head_toChars (d : Decimal) : d.toChars.head? = some '-' ↔ d.negative = true := by
  rw [toChars_eq]
  cases d.negative with
  | true => simp
  | false =>
      obtain ⟨c, hc, cs, hcs⟩ := Numeral.pad_succ_cons d.wholeDigits d.whole
      have hminus := (Numeral.digitChar_ne_sign c hc).1
      simp [hcs, hminus]

/-- Only a decimal that is no zero with a sign is written like the decimal that it is read as. -/
theorem plain_of_toJson {d : Decimal} (h : d.unsigned.toJson = d.toJson) : d.Plain := by
  intro hzero
  have htext : d.unsigned.toChars = d.toChars := String.ofList_injective (Json.text.inj h)
  have hunsigned : d.unsigned.negative = false := by
    rw [unsigned, if_pos hzero]
  rw [← Bool.not_eq_true, ← head_toChars, ← htext, head_toChars, hunsigned]
  exact Bool.false_ne_true

end Decimal

namespace Json

variable {v : Json} {n : Nat} {k : Int}

theorem toCount?_count (h : n < countLimit) : (count n).toCount? = some n := by
  rw [toCount?, count, toInt?, if_pos (fitsCount_natCast.mpr h)]
  rfl

theorem toPoints?_integer (h : fitsPoints k = true) : (integer k).toPoints? = some k :=
  if_pos h

theorem fits_of_toInt? {fits : Int → Bool} (h : v.toInt? fits = some k) : fits k = true := by
  cases v with
  | integer m =>
      rw [toInt?] at h
      split at h
      · next hfits => exact Option.some.inj h ▸ hfits
      · cases h
  | _ => cases h

theorem lt_of_toCount? (h : v.toCount? = some n) : n < countLimit := by
  obtain ⟨k, hk, rfl⟩ := Option.map_eq_some_iff.mp h
  have hfits := fitsCount_iff.mp (fits_of_toInt? hk)
  omega

theorem fits_of_toPoints? (h : v.toPoints? = some k) : fitsPoints k = true :=
  fits_of_toInt? h

/-- An absent value is read back as absent, and one that is there as it is read by itself. -/
theorem optional?_ofOption_map {α : Type} {read : Json → Option α} {write : α → Json} {f : α → α}
    (h : ∀ a, read (write a) = some (f a)) (hn : ∀ a, write a ≠ null) (a : Option α) :
    optional? read (ofOption write a) = some (a.map f) := by
  cases a with
  | none => rfl
  | some a =>
      have hnull := hn a
      rw [ofOption, optional?, h a]
      · rfl
      · exact hnull

theorem text_ne_null (s : String) : text s ≠ null := nofun

@[simp] theorem optional?_text (a : Option String) :
    optional? toText? (ofOption text a) = some a :=
  optional?_ofOption toText?_text text_ne_null a

@[simp] theorem optional?_id {k : Kind} (a : Option (Id k)) :
    optional? Id.ofJson? (ofOption Id.toJson a) = some a :=
  optional?_ofOption Id.ofJson?_toJson (fun _ => text_ne_null _) a

@[simp] theorem optional?_instant (a : Option Instant) :
    optional? Instant.ofJson? (ofOption Instant.toJson a) = some a :=
  optional?_ofOption Instant.ofJson?_toJson (fun _ => text_ne_null _) a

@[simp] theorem optional?_decimal (a : Option Decimal) :
    optional? Decimal.ofJson? (ofOption Decimal.toJson a) = some (a.map Decimal.unsigned) :=
  optional?_ofOption_map Decimal.ofJson?_toJson (fun _ => text_ne_null _) a

end Json

end CardClub
