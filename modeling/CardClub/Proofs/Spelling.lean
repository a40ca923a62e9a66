import CardClub.Yaml.Node
import CardClub.Proofs.Numerals
import Mathlib.Data.List.Forall2
import Mathlib.Data.List.Induction
import Mathlib.Data.Nat.Digits.Defs
import Mathlib.Tactic.MkIffOfInductiveProp

/-!
# How values are spelled

The grammar of the scalars of a document: which of them says which text, whole number or truth
value, or names a choice. It says nothing of how a scalar is read, and each reader finds exactly
what the grammar gives. A number that is written in its decimal digits is one of the spellings.
-/

namespace CardClub.Yaml

theorem mapM_eq_some_iff {α β : Type} {f : α → Option β} {as : List α} {bs : List β} :
    as.mapM f = some bs ↔ List.Forall₂ (fun a b => f a = some b) as bs := by
  induction as generalizing bs with
  | nil => simp [eq_comm]
  | cons a as ih =>
      simp only [List.mapM_cons, Option.bind_eq_bind, Option.bind_eq_some_iff, Option.pure_def,
        Option.some.injEq, List.forall₂_cons_left_iff, ih]
      constructor
      · rintro ⟨b, hb, bs, hbs, rfl⟩
        exact ⟨b, bs, hb, hbs, rfl⟩
      · rintro ⟨b, bs, hb, hbs, rfl⟩
        exact ⟨b, hb, bs, hbs, rfl⟩

/-! ## The grammar -/

/-- A digit of a base. Those beyond nine are letters of either case. -/
def IsDigit (base : Nat) (c : Char) (d : Nat) : Prop :=
  d < base ∧ (c = Nat.digitChar d ∨ c = (Nat.digitChar d).toUpper)

/-- Digits, the highest one first, and the number that they spell. -/
@[mk_iff] inductive Digits (base : Nat) (cs : List Char) : Nat → Prop
  | of {ds} (hne : cs ≠ []) (h : List.Forall₂ (IsDigit base) cs ds) :
      Digits base cs (Nat.ofDigits base ds.reverse)

/-- A number without a sign: decimal digits with no zero in front of others, or digits of another
base behind the mark of the base. -/
@[mk_iff] inductive SpellsUnsigned : List Char → Nat → Prop
  | decimal {cs n} (h : Digits 10 cs n) (hzero : cs.head? = some '0' → cs = ['0']) :
      SpellsUnsigned cs n
  | hexadecimal {cs n} (h : Digits 16 cs n) : SpellsUnsigned ('0' :: 'x' :: cs) n
  | octal {cs n} (h : Digits 8 cs n) : SpellsUnsigned ('0' :: 'o' :: cs) n
  | binary {cs n} (h : Digits 2 cs n) : SpellsUnsigned ('0' :: 'b' :: cs) n

@[mk_iff] inductive SpellsNumber : List Char → Nat → Prop
  | unsigned {cs n} (h : SpellsUnsigned cs n) : SpellsNumber cs n
  | positive {cs n} (h : SpellsUnsigned cs n) : SpellsNumber ('+' :: cs) n

def truthTexts : Bool → List String
  | true => ["true", "True", "TRUE"]
  | false => ["false", "False", "FALSE"]

/-- The texts that spell the absence of a value. -/
def nullTexts : List String := ["", "~", "null", "Null", "NULL"]

/-- The tag of the document's own with a name. -/
def ownTag (name : String) : List UInt8 := bang ++ name.toByteArray.data.toList

namespace Node

/-- A scalar says its text, in whatever style it is written. -/
@[mk_iff] inductive Says : Node → String → Prop
  | scalar (style : Style) (tag : Option (List UInt8)) (s : String) :
      Says (.scalar style tag s.toList) s

/-- A scalar that may say something else than a text: a plain one, or a literal one with the tag of
the thing. -/
@[mk_iff] inductive Bare (kind : List UInt8) : Node → List Char → Prop
  | plain (tag : Option (List UInt8)) (cs : List Char) : Bare kind (.scalar .plain tag cs) cs
  | tagged (cs : List Char) : Bare kind (.scalar .literal (some kind) cs) cs

/-- A scalar says a whole number below a limit. -/
def SaysNumber (limit : Nat) (node : Node) (n : Nat) : Prop :=
  n < limit ∧ ∃ cs, node.Bare wholeTag cs ∧ SpellsNumber cs n

def SaysTruth (node : Node) (b : Bool) : Prop :=
  ∃ cs, node.Bare truthTag cs ∧ String.ofList cs ∈ truthTexts b

/-- A scalar names a choice: by its text, or by a tag of the document's own on the absence of a
value. -/
@[mk_iff] inductive Names : Node → String → Prop
  | text (style : Style) {tag : Option (List UInt8)} (s : String)
      (htag : ∀ name, tag ≠ some (ownTag name)) : Names (.scalar style tag s.toList) s
  | tagged {cs : List Char} (name : String) (hnull : String.ofList cs ∈ nullTexts) :
      Names (.scalar .plain (some (ownTag name)) cs) name

end Node

/-! ## Digits -/

variable {base limit n d : Nat} {c : Char} {cs : List Char} {node : Node} {s name : String}

instance : Decidable (IsDigit base c d) := inferInstanceAs (Decidable (_ ∧ _))

theorem lt_of_hexDigit? (h : Numeral.hexDigit? c = some d) : c.toNat < 103 := by
  unfold Numeral.hexDigit? at h
  split at h
  · next hdigit =>
    simp only [Char.isDigit, Bool.and_eq_true, decide_eq_true_eq, UInt32.le_iff_toNat_le] at hdigit
    have hnine : c.toNat ≤ 57 := hdigit.2
    omega
  · split at h
    · next hlower =>
      have hlast : c.toNat ≤ 102 := UInt32.le_iff_toNat_le.mp hlower.2
      omega
    · split at h
      · next hupper =>
        have hlast : c.toNat ≤ 70 := UInt32.le_iff_toNat_le.mp hupper.2
        omega
      · cases h

theorem hexDigit?_eq_some : Numeral.hexDigit? c = some d ↔ IsDigit 16 c d := by
  constructor
  · intro h
    -- no digit comes behind the letter `f`, and up to there they are checked one by one
    have hcheck : ∀ k < 103, ∀ d ∈ Numeral.hexDigit? (Char.ofNat k),
        IsDigit 16 (Char.ofNat k) d := by
      decide +kernel
    have hdigit := hcheck c.toNat (lt_of_hexDigit? h) d
    rw [Char.ofNat_toNat] at hdigit
    exact hdigit h
  · rintro ⟨hd, rfl | rfl⟩
    · exact Numeral.hexDigit?_digitChar d hd
    · have hupper : ∀ d < 16, Numeral.hexDigit? (Nat.digitChar d).toUpper = some d := by decide
      exact hupper d hd

theorem decimalDigit?_iff_hexDigit? :
    Numeral.decimalDigit? c = some d ↔ Numeral.hexDigit? c = some d ∧ d < 10 := by
  unfold Numeral.decimalDigit? Numeral.hexDigit?
  split
  · next hdigit =>
    simp only [Char.isDigit, Bool.and_eq_true, decide_eq_true_eq, UInt32.le_iff_toNat_le] at hdigit
    have hnine : c.toNat ≤ 57 := hdigit.2
    have hzero : '0'.toNat = 48 := rfl
    simp only [Option.some.injEq]
    omega
  · refine iff_of_false (fun h => by cases h) fun ⟨h, hd⟩ => ?_
    split at h
    · obtain rfl := Option.some.inj h
      omega
    · split at h
      · obtain rfl := Option.some.inj h
        omega
      · cases h

theorem decimalDigit?_eq_some : Numeral.decimalDigit? c = some d ↔ IsDigit 10 c d := by
  rw [decimalDigit?_iff_hexDigit?, hexDigit?_eq_some]
  constructor
  · rintro ⟨⟨-, hc⟩, hd⟩
    exact ⟨hd, hc⟩
  · rintro ⟨hd, hc⟩
    exact ⟨⟨Nat.lt_trans hd (by decide), hc⟩, hd⟩

theorem digit?_eq_some (hbase : base ≤ 10) : Node.digit? base c = some d ↔ IsDigit base c d := by
  simp only [Node.digit?, Option.bind_eq_some_iff, Option.ite_none_right_eq_some,
    Option.some.injEq, decimalDigit?_eq_some]
  constructor
  · rintro ⟨_, ⟨-, hc⟩, hd, rfl⟩
    exact ⟨hd, hc⟩
  · rintro ⟨hd, hc⟩
    exact ⟨d, ⟨Nat.lt_of_lt_of_le hd hbase, hc⟩, hd, rfl⟩

/-! ## Numbers -/

theorem value_eq_ofDigits (base : Nat) (ds : List Nat) :
    Numeral.value base ds = Nat.ofDigits base ds.reverse := by
  induction ds using List.reverseRecOn with
  | nil => rfl
  | append_singleton ds d ih =>
      rw [Numeral.value_concat, ih, List.reverse_append, List.reverse_singleton,
        List.singleton_append, Nat.ofDigits_cons, Nat.mul_comm, Nat.add_comm]

theorem number?_eq_some {digit? : Char → Option Nat}
    (hdigit : ∀ c d, digit? c = some d ↔ IsDigit base c d) :
    Node.number? base digit? cs = some n ↔ Digits base cs n := by
  have hrel : IsDigit base = fun c d => digit? c = some d :=
    funext fun c => funext fun d => propext (hdigit c d).symm
  simp only [Node.number?, List.isEmpty_iff, digits_iff, hrel, ← value_eq_ofDigits]
  split
  · next hempty => simp [hempty]
  · next hne => simp [mapM_eq_some_iff, hne, eq_comm]

theorem unsigned?_eq_some : Node.unsigned? cs = some n ↔ SpellsUnsigned cs n := by
  rw [spellsUnsigned_iff]
  unfold Node.unsigned?
  split
  · simpa using number?_eq_some fun _ _ => hexDigit?_eq_some
  · simpa using number?_eq_some fun _ _ => digit?_eq_some (by decide)
  · simpa using number?_eq_some fun _ _ => digit?_eq_some (by decide)
  · have hread : Node.number? 10 Numeral.decimalDigit? ['0'] = some 0 := rfl
    have hzero : Node.number? 10 Numeral.decimalDigit? ['0'] = some n ↔ Digits 10 ['0'] n :=
      number?_eq_some fun _ _ => decimalDigit?_eq_some
    rw [hread] at hzero
    simpa using hzero
  · next hx ho hb hone =>
    refine iff_of_false (fun h => by cases h) ?_
    simp only [List.head?_cons, List.cons.injEq, true_and]
    rintro (⟨-, hzero⟩ | ⟨ds, -, h⟩ | ⟨ds, -, h⟩ | ⟨ds, -, h⟩)
    · exact hone (hzero trivial)
    · exact hx ds h
    · exact ho ds h
    · exact hb ds h
  · next hx ho hb hone hzero =>
    rw [number?_eq_some fun _ _ => decimalDigit?_eq_some]
    constructor
    · refine fun h => .inl ⟨h, fun hfirst => ?_⟩
      obtain ⟨tail, htail⟩ := List.head?_eq_some_iff.mp hfirst
      exact (hzero tail htail).elim
    · rintro (⟨h, -⟩ | ⟨ds, -, h⟩ | ⟨ds, -, h⟩ | ⟨ds, -, h⟩)
      · exact h
      · exact (hx ds h).elim
      · exact (ho ds h).elim
      · exact (hb ds h).elim

theorem numberOf?_eq_some : Node.numberOf? cs = some n ↔ SpellsNumber cs n := by
  rw [spellsNumber_iff]
  unfold Node.numberOf?
  split
  · next cs =>
    have hnone : Node.unsigned? ('+' :: cs) = none := rfl
    rw [unsigned?_eq_some]
    constructor
    · exact fun h => .inr ⟨cs, h, rfl⟩
    · rintro (h | ⟨ds, h, hds⟩)
      · cases hnone.symm.trans (unsigned?_eq_some.mpr h)
      · obtain rfl := List.tail_eq_of_cons_eq hds
        exact h
  · next hsign =>
    rw [unsigned?_eq_some]
    constructor
    · exact .inl
    · rintro (h | ⟨ds, -, h⟩)
      · exact h
      · exact (hsign ds h).elim

/-! ## Scalars -/

namespace Node

theorem text?_eq_some : node.text? = some s ↔ node.Says s := by
  cases node with
  | scalar style tag text =>
      rw [says_iff, text?, Option.some.injEq]
      constructor
      · rintro rfl
        exact ⟨style, tag, by rw [String.toList_ofList]⟩
      · rintro ⟨_, _, h⟩
        obtain ⟨-, -, rfl⟩ := Node.scalar.inj h
        exact String.ofList_toList
  | _ => simp [text?, says_iff]

theorem bare?_eq_some {kind : List UInt8} : node.bare? kind = some cs ↔ node.Bare kind cs := by
  rw [bare_iff]
  unfold bare?
  split
  · simp [eq_comm]
  · next tag text =>
    by_cases h : tag = kind
    · simp [h, eq_comm]
    · simp [h]
  · next hplain hliteral =>
    refine iff_of_false (fun h => by cases h) ?_
    rintro (⟨tag, h⟩ | h)
    · exact hplain _ _ h
    · exact hliteral _ _ h

theorem number_eq_some : node.number limit = some n ↔ node.SaysNumber limit n := by
  simp only [number, Option.bind_eq_some_iff, Option.ite_none_right_eq_some, Option.some.injEq,
    bare?_eq_some, numberOf?_eq_some, SaysNumber]
  constructor
  · rintro ⟨_, ⟨cs, hcs, hn⟩, hlimit, rfl⟩
    exact ⟨hlimit, cs, hcs, hn⟩
  · rintro ⟨hlimit, cs, hcs, hn⟩
    exact ⟨n, ⟨cs, hcs, hn⟩, hlimit, rfl⟩

theorem truthOf?_eq_some {b : Bool} :
    truthOf? cs = some b ↔ String.ofList cs ∈ truthTexts b := by
  have hapart : ∀ s ∈ truthTexts true, s ∉ truthTexts false := by decide
  have hmem (b : Bool) : (truthTexts b).contains (String.ofList cs) = true ↔
      String.ofList cs ∈ truthTexts b := List.contains_iff_mem
  change (if (truthTexts true).contains (String.ofList cs) then some true
    else if (truthTexts false).contains (String.ofList cs) then some false else none) = some b ↔ _
  simp only [hmem]
  by_cases htrue : String.ofList cs ∈ truthTexts true
  · cases b <;> simp [htrue, hapart _ htrue]
  · cases b <;> simp [htrue]

theorem truth?_eq_some {b : Bool} : node.truth? = some b ↔ node.SaysTruth b := by
  simp only [truth?, Option.bind_eq_some_iff, bare?_eq_some, truthOf?_eq_some, SaysTruth]

theorem ownTag?_eq_some {tag : List UInt8} : ownTag? tag = some name ↔ tag = ownTag name := by
  have hname (octets : List UInt8) :
      String.fromUTF8? octets.toByteArray = some name ↔ octets = name.toByteArray.data.toList := by
    have hbytes :
        octets = name.toByteArray.data.toList ↔ octets.toByteArray = name.toByteArray := by
      rw [ByteArray.ext_iff, List.data_toByteArray, ← Array.toList_inj, List.toList_toArray]
    rw [hbytes, String.fromUTF8?]
    split
    · rw [Option.some.injEq, ← String.toByteArray_inj]
      rfl
    · next hinvalid =>
      refine iff_of_false (fun h => by cases h) fun h => hinvalid ?_
      rw [h]
      exact name.isValidUTF8
  cases tag with
  | nil => simp [ownTag?, ownTag, bang, octetsOf]
  | cons octet octets =>
      rw [ownTag?, Option.ite_none_right_eq_some, hname, ownTag]
      simp [bang, octetsOf]

theorem choice?_eq_some : node.choice? = some name ↔ node.Names name := by
  rw [names_iff]
  cases node with
  | scalar style tag text =>
      rw [choice?]
      cases htag : tag.bind ownTag? with
      | none =>
          have hown (own : String) : tag ≠ some (ownTag own) := by
            rintro rfl
            cases htag.symm.trans (ownTag?_eq_some.mpr rfl)
          rw [Option.some.injEq]
          constructor
          · rintro rfl
            exact .inl ⟨style, tag, hown, by rw [String.toList_ofList]⟩
          · rintro (⟨_, _, -, h⟩ | ⟨_, -, h⟩)
            · obtain ⟨-, -, rfl⟩ := Node.scalar.inj h
              exact String.ofList_toList
            · exact (hown name (Node.scalar.inj h).2.1).elim
      | some own =>
          obtain ⟨octets, rfl, htag⟩ := Option.bind_eq_some_iff.mp htag
          obtain rfl := ownTag?_eq_some.mp htag
          have hnull : isNull text = true ↔ String.ofList text ∈ nullTexts := List.contains_iff_mem
          simp only [hnull, Option.ite_none_right_eq_some, Option.some.injEq]
          constructor
          · rintro ⟨⟨rfl, htext⟩, rfl⟩
            exact .inr ⟨text, htext, rfl⟩
          · rintro (⟨_, _, hown, h⟩ | ⟨_, htext, h⟩)
            · exact (hown own (Node.scalar.inj h).2.1.symm).elim
            · obtain ⟨rfl, htag, rfl⟩ := Node.scalar.inj h
              have hsame : some own = some name := by
                rw [← ownTag?_eq_some.mpr rfl, Option.some.inj htag, ownTag?_eq_some.mpr rfl]
              exact ⟨⟨rfl, htext⟩, Option.some.inj hsame⟩
  | _ => simp [choice?]

/-! ## Values written out -/

/-- A number in its decimal digits. -/
def ofNat (n : Nat) : Node := .scalar .plain none (Nat.toDigits 10 n)

def ofBool (b : Bool) : Node := .plain (if b then "true" else "false")

theorem says_plain (s : String) : (plain s).Says s := .scalar .plain none s

theorem names_plain (s : String) : (plain s).Names s := .text .plain s fun _ h => by cases h

theorem saysTruth_ofBool (b : Bool) : (ofBool b).SaysTruth b := by
  refine ⟨_, .plain none _, ?_⟩
  rw [String.ofList_toList]
  cases b <;> decide

theorem toDigits_cons (hn : 0 < n) :
    ∃ d cs, 0 < d ∧ d < 10 ∧ Nat.toDigits 10 n = Nat.digitChar d :: cs := by
  induction n using Nat.strongRecOn with
  | ind n ih =>
      rcases Nat.lt_or_ge n 10 with hlt | hge
      · exact ⟨n, [], hn, hlt, Nat.toDigits_of_lt_base hlt⟩
      · obtain ⟨d, cs, hpos, hd, hrest⟩ := ih (n / 10) (by omega) (by omega)
        refine ⟨d, cs ++ [Nat.digitChar (n % 10)], hpos, hd, ?_⟩
        rw [Nat.toDigits_of_base_le (by decide) hge, hrest, List.cons_append]

theorem digits_toDigits (n : Nat) : Digits 10 (Nat.toDigits 10 n) n := by
  have hdigits : List.Forall₂ (IsDigit 10) (Nat.toDigits 10 n)
      (Numeral.digits 10 (Nat.toDigits 10 n).length n) := by
    conv => lhs; rw [Numeral.toDigits_eq_pad]
    rw [Numeral.pad, List.forall₂_map_left_iff, List.forall₂_same]
    exact fun d hd => ⟨Numeral.mem_digits_lt (by decide) hd, .inl rfl⟩
  have hne : Nat.toDigits 10 n ≠ [] := List.ne_nil_of_length_pos Nat.length_toDigits_pos
  have hvalue := Digits.of hne hdigits
  rwa [← value_eq_ofDigits, Numeral.value_digits_of_lt (Numeral.lt_tenPow_length n)] at hvalue

theorem saysNumber_ofNat (h : n < limit) : (ofNat n).SaysNumber limit n := by
  refine ⟨h, _, .plain none _, .unsigned (.decimal (digits_toDigits n) fun hfirst => ?_)⟩
  rcases Nat.eq_zero_or_pos n with rfl | hn
  · rfl
  · obtain ⟨d, cs, hpos, hd, hdigits⟩ := toDigits_cons hn
    rw [hdigits, List.head?_cons, Option.some.injEq] at hfirst
    have hnonzero : ∀ d < 10, Nat.digitChar d = '0' → d = 0 := by decide
    exact absurd (hnonzero d hd hfirst) (Nat.ne_of_gt hpos)

end Node

end CardClub.Yaml
