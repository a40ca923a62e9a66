import CardClub.Settings
import CardClub.Proofs.Spelling
import Mathlib.Data.List.Nodup

/-!
# What a document assigns

A document assigns values to some of the settings. Its sections and their entries come in any order
and may be absent or left empty, and keys that nobody knows may stand between them as long as they
are scalars; a known key may come only once. `Assignment.From` says so of a document in terms of the
grammar of scalars, and reading the settings succeeds exactly for the documents that assign
something in this sense. Any values of any of the settings can be assigned, by writing them out in
any order.
-/

namespace CardClub

open Yaml (Document Node)

/-! ## Mappings by the names of their keys -/

namespace Yaml.Document

variable {α β : Type} {d : Document} {node : Node} {fields : List (String × Node)}
  {known : List String} {key : String}

/-- What stands in a document is a mapping with these names as keys, all of them scalars. Where
nothing is written stands the empty mapping. -/
inductive Maps (d : Document) (node : Node) : List (String × Node) → Prop
  | blank {tag} (h : d.follow node = .blank tag) : Maps d node []
  | mapping {entries fields} (h : d.follow node = .mapping entries)
      (hfields : List.Forall₂ (fun e f => (d.follow e.1).Says f.1 ∧ e.2 = f.2) entries fields) :
      Maps d node fields

/-- The entries with a key. -/
def entriesOf (fields : List (String × Node)) (key : String) : List (String × Node) :=
  fields.filter fun f => decide (f.1 = key)

/-- What a mapping gives for a key: nothing without such a key, and else the value of the only entry
that has it. -/
inductive Gives (fields : List (String × Node)) (key : String) (value : Node → α → Prop) :
    Option α → Prop
  | nothing (h : entriesOf fields key = []) : Gives fields key value none
  | entry {node a} (h : entriesOf fields key = [(key, node)]) (ha : value node a) :
      Gives fields key value (some a)

theorem Gives.once {value : Node → α → Prop} {x : Option α} (h : Gives fields key value x) :
    (entriesOf fields key).length ≤ 1 := by
  cases h with
  | nothing h => exact h ▸ Nat.zero_le 1
  | entry h => exact h ▸ Nat.le_refl 1

theorem gives_map {value : Node → α → Prop} {f : α → β} {y : Option β} :
    Gives fields key (fun n b => ∃ a, value n a ∧ b = f a) y ↔
      ∃ x, Gives fields key value x ∧ y = x.map f := by
  constructor
  · rintro (h | ⟨h, a, ha, rfl⟩)
    · exact ⟨none, .nothing h, rfl⟩
    · exact ⟨some a, .entry h ha, rfl⟩
  · rintro ⟨x, h | ⟨h, ha⟩, rfl⟩
    · exact .nothing h
    · exact .entry h ⟨_, ha, rfl⟩

theorem isBlank_iff : node.isBlank = true ↔ ∃ tag, node = .blank tag := by
  unfold Node.isBlank Node.blank
  split
  · simp
  · next hblank =>
    refine iff_of_false Bool.false_ne_true ?_
    rintro ⟨tag, h⟩
    exact hblank tag h

theorem entries?_eq_some {entries : List (Node × Node)} :
    d.entries? node = some entries ↔
      d.follow node = .mapping entries ∨ (∃ tag, d.follow node = .blank tag) ∧ entries = [] := by
  rw [← isBlank_iff]
  unfold entries?
  cases d.follow node with
  | scalar style tag text =>
      by_cases hblank : (Node.scalar style tag text).isBlank = true
      · simp [hblank, eq_comm]
      · simp [hblank]
  | mapping found => simp [Node.isBlank]
  | _ => simp [Node.isBlank]

theorem field?_eq_some {entry : Node × Node} {field : String × Node} :
    d.field? entry = some field ↔ (d.follow entry.1).Says field.1 ∧ entry.2 = field.2 := by
  simp [field?, Prod.ext_iff, ← Node.text?_eq_some]

theorem maps_iff :
    d.Maps node fields ↔
      ∃ entries, d.entries? node = some entries ∧ entries.mapM d.field? = some fields := by
  simp only [entries?_eq_some, Yaml.mapM_eq_some_iff, field?_eq_some]
  constructor
  · rintro (h | ⟨h, hfields⟩)
    · exact ⟨[], .inr ⟨⟨_, h⟩, rfl⟩, .nil⟩
    · exact ⟨_, .inl h, hfields⟩
  · rintro ⟨entries, h | ⟨⟨_, h⟩, rfl⟩, hfields⟩
    · exact .mapping h hfields
    · obtain rfl := List.forall₂_nil_left_iff.mp hfields
      exact .blank h

theorem entriesOf_filter (hkey : key ∈ known) :
    entriesOf (fields.filter fun f => known.contains f.1) key = entriesOf fields key := by
  rw [entriesOf, List.filter_filter]
  refine List.filter_congr fun f _ => ?_
  by_cases h : f.1 = key
  · simp [h, hkey]
  · simp [h]

theorem count_names : (fields.map (·.1)).count key = (entriesOf fields key).length := by
  rw [List.count_eq_countP, List.countP_map, List.countP_eq_length_filter]
  rfl

theorem nodup_known_iff :
    ((fields.filter fun f => known.contains f.1).map (·.1)).Nodup ↔
      ∀ key ∈ known, (entriesOf fields key).length ≤ 1 := by
  rw [List.nodup_iff_count_le_one]
  simp only [count_names]
  constructor
  · intro h key hkey
    exact entriesOf_filter hkey ▸ h key
  · intro h key
    by_cases hkey : key ∈ known
    · exact (entriesOf_filter hkey).symm ▸ h key hkey
    · have hnone : entriesOf (fields.filter fun f => known.contains f.1) key = [] := by
        simp only [entriesOf, List.filter_eq_nil_iff, List.mem_filter]
        rintro f ⟨-, hknown⟩ heq
        exact hkey (of_decide_eq_true heq ▸ List.contains_iff_mem.mp hknown)
      exact hnone ▸ Nat.zero_le 1

theorem fields?_eq_some {found : List (String × Node)} :
    d.fields? known node = some found ↔ ∃ fields, d.Maps node fields ∧
      (∀ key ∈ known, (entriesOf fields key).length ≤ 1) ∧
      found = fields.filter fun f => known.contains f.1 := by
  simp only [fields?, maps_iff, ← nodup_known_iff, Option.bind_eq_some_iff]
  constructor
  · rintro ⟨entries, hentries, fields, hfields, h⟩
    split at h
    · next hnodup => exact ⟨fields, ⟨entries, hentries, hfields⟩, hnodup, (Option.some.inj h).symm⟩
    · cases h
  · rintro ⟨fields, ⟨entries, hentries, hfields⟩, hnodup, rfl⟩
    exact ⟨entries, hentries, fields, hfields, if_pos hnodup⟩

theorem lookup_eq_head? :
    fields.lookup key = ((entriesOf fields key).head?).map (·.2) := by
  induction fields with
  | nil => rfl
  | cons f fields ih =>
      rw [List.lookup_cons, entriesOf, List.filter_cons, ← entriesOf]
      by_cases h : f.1 = key
      · simp [h]
      · have hkey : (key == f.1) = false := beq_eq_false_iff_ne.mpr (Ne.symm h)
        simp [h, hkey, ih]

end Yaml.Document

open Yaml.Document

/-- A setting is what the only entry with its name says, or the standard value. -/
theorem setting?_eq_some {α : Type} {fields : List (String × Node)} {known : List String}
    {name : String} {read : Node → Option α} {meaning : Node → α → Prop} {standard value : α}
    (hread : ∀ n a, read n = some a ↔ meaning n a) (hname : name ∈ known)
    (honce : (entriesOf fields name).length ≤ 1) :
    setting? (fields.filter fun f => known.contains f.1) name read standard = some value ↔
      ∃ x, Gives fields name meaning x ∧ value = x.getD standard := by
  obtain rfl : (fun n a => read n = some a) = meaning :=
    funext fun n => funext fun a => propext (hread n a)
  rw [setting?, lookup_eq_head?, entriesOf_filter hname]
  match hentries : entriesOf fields name with
  | [] =>
      constructor
      · intro h
        exact ⟨none, .nothing hentries, (Option.some.inj h).symm⟩
      · rintro ⟨x, h | ⟨h, -⟩, rfl⟩
        · rfl
        · cases hentries.symm.trans h
  | [(key, node)] =>
      obtain rfl : key = name := by
        have hmem : (key, node) ∈ entriesOf fields name := hentries ▸ List.mem_singleton_self _
        exact of_decide_eq_true (List.mem_filter.mp hmem).2
      constructor
      · intro h
        exact ⟨some value, .entry hentries h, rfl⟩
      · rintro ⟨x, h | ⟨h, ha⟩, rfl⟩
        · cases hentries.symm.trans h
        · obtain rfl := (Prod.mk.inj (List.head_eq_of_cons_eq (hentries.symm.trans h))).2
          exact ha
  | _ :: _ :: _ =>
      rw [hentries] at honce
      simp at honce

theorem Yaml.Document.Gives.setting {α : Type} {fields : List (String × Node)}
    {known : List String} {name : String} {read : Node → Option α} {meaning : Node → α → Prop}
    {standard : α} {x : Option α} (h : Gives fields name meaning x)
    (hread : ∀ n a, read n = some a ↔ meaning n a) (hname : name ∈ known) :
    setting? (fields.filter fun f => known.contains f.1) name read standard =
      some (x.getD standard) :=
  (setting?_eq_some hread hname h.once).mpr ⟨x, h, rfl⟩

/-! ## What a document assigns -/

/-- Values for some of the settings of the database. -/
structure DatabaseAssignment where
  url : Option String := none
  maxConnections : Option Nat := none
  connectTimeoutSecs : Option Nat := none
  idleTimeoutSecs : Option Nat := none
  runMigrations : Option Bool := none
deriving DecidableEq

namespace DatabaseAssignment

/-- The standard settings of the database, but for those that are given. -/
def settings (a : DatabaseAssignment) : DatabaseSettings :=
  let standard : DatabaseSettings := {}
  { url := a.url.getD standard.url
    maxConnections := a.maxConnections.getD standard.maxConnections
    connectTimeoutSecs := a.connectTimeoutSecs.getD standard.connectTimeoutSecs
    idleTimeoutSecs := a.idleTimeoutSecs.getD standard.idleTimeoutSecs
    runMigrations := a.runMigrations.getD standard.runMigrations }

/-- A node of a document gives these settings of the database and no others. -/
inductive From (d : Document) (node : Node) (a : DatabaseAssignment) : Prop
  | mapping {fields} (h : d.Maps node fields)
      (url : Gives fields "url" (fun n => (d.follow n).Says) a.url)
      (maxConnections : Gives fields "max_connections"
        (fun n => (d.follow n).SaysNumber countLimit) a.maxConnections)
      (connectTimeoutSecs : Gives fields "connect_timeout_secs"
        (fun n => (d.follow n).SaysNumber secondsLimit) a.connectTimeoutSecs)
      (idleTimeoutSecs : Gives fields "idle_timeout_secs"
        (fun n => (d.follow n).SaysNumber secondsLimit) a.idleTimeoutSecs)
      (runMigrations : Gives fields "run_migrations" (fun n => (d.follow n).SaysTruth)
        a.runMigrations)

end DatabaseAssignment

theorem DatabaseSettings.ofNode?_eq_some {d : Document} {node : Node} {s : DatabaseSettings} :
    ofNode? d node = some s ↔ ∃ a : DatabaseAssignment, a.From d node ∧ s = a.settings := by
  have htext (n : Node) (s : String) : (d.follow n).text? = some s ↔ (d.follow n).Says s :=
    Node.text?_eq_some
  have hnumber (limit : Nat) (n : Node) (k : Nat) :
      (d.follow n).number limit = some k ↔ (d.follow n).SaysNumber limit k := Node.number_eq_some
  have htruth (n : Node) (b : Bool) : (d.follow n).truth? = some b ↔ (d.follow n).SaysTruth b :=
    Node.truth?_eq_some
  simp only [ofNode?, Option.bind_eq_bind, Option.bind_eq_some_iff, fields?_eq_some,
    Option.pure_def, Option.some.injEq]
  constructor
  · rintro ⟨_, ⟨fields, hfields, honce, rfl⟩, url, hurl, most, hmost, connect, hconnect,
      idle, hidle, migrate, hmigrate, rfl⟩
    simp only [names, List.forall_mem_cons] at honce
    obtain ⟨x₁, h₁, rfl⟩ := (setting?_eq_some htext (by decide) honce.1).mp hurl
    obtain ⟨x₂, h₂, rfl⟩ := (setting?_eq_some (hnumber _) (by decide) honce.2.1).mp hmost
    obtain ⟨x₃, h₃, rfl⟩ := (setting?_eq_some (hnumber _) (by decide) honce.2.2.1).mp hconnect
    obtain ⟨x₄, h₄, rfl⟩ := (setting?_eq_some (hnumber _) (by decide) honce.2.2.2.1).mp hidle
    obtain ⟨x₅, h₅, rfl⟩ := (setting?_eq_some htruth (by decide) honce.2.2.2.2.1).mp hmigrate
    exact ⟨⟨x₁, x₂, x₃, x₄, x₅⟩, .mapping hfields h₁ h₂ h₃ h₄ h₅, rfl⟩
  · rintro ⟨a, ⟨hfields, h₁, h₂, h₃, h₄, h₅⟩, rfl⟩
    refine ⟨_, ⟨_, hfields, ?_, rfl⟩, _, ?_, _, ?_, _, ?_, _, ?_, _, ?_, rfl⟩
    · simp [names, h₁.once, h₂.once, h₃.once, h₄.once, h₅.once]
    · exact h₁.setting htext (by decide)
    · exact h₂.setting (hnumber _) (by decide)
    · exact h₃.setting (hnumber _) (by decide)
    · exact h₄.setting (hnumber _) (by decide)
    · exact h₅.setting htruth (by decide)

/-- Values for some of the settings of the log. -/
structure LoggingAssignment where
  level : Option String := none
  format : Option LogFormat := none
deriving DecidableEq

namespace LoggingAssignment

def settings (a : LoggingAssignment) : LoggingSettings :=
  let standard : LoggingSettings := {}
  { level := a.level.getD standard.level
    format := a.format.getD standard.format }

/-- A node of a document gives these settings of the log and no others. -/
inductive From (d : Document) (node : Node) (a : LoggingAssignment) : Prop
  | mapping {fields} (h : d.Maps node fields)
      (level : Gives fields "level" (fun n => (d.follow n).Says) a.level)
      (format : Gives fields "format" (fun n f => (d.follow n).Names (LogFormat.label f)) a.format)

end LoggingAssignment

theorem LogFormat.ofLabel?_eq_some {label : String} {f : LogFormat} :
    ofLabel? label = some f ↔ label = f.label := by
  constructor
  · intro h
    unfold ofLabel? at h
    grind [LogFormat.label]
  · rintro rfl
    exact ofLabel?_label f

theorem LoggingSettings.ofNode?_eq_some {d : Document} {node : Node} {s : LoggingSettings} :
    ofNode? d node = some s ↔ ∃ a : LoggingAssignment, a.From d node ∧ s = a.settings := by
  have htext (n : Node) (s : String) : (d.follow n).text? = some s ↔ (d.follow n).Says s :=
    Node.text?_eq_some
  have hformat (n : Node) (f : LogFormat) :
      ((d.follow n).choice?).bind LogFormat.ofLabel? = some f ↔ (d.follow n).Names f.label := by
    simp [Option.bind_eq_some_iff, LogFormat.ofLabel?_eq_some, Node.choice?_eq_some]
  simp only [ofNode?, Option.bind_eq_bind, Option.bind_eq_some_iff, fields?_eq_some,
    Option.pure_def, Option.some.injEq]
  constructor
  · rintro ⟨_, ⟨fields, hfields, honce, rfl⟩, level, hlevel, format, hread, rfl⟩
    simp only [names, List.forall_mem_cons] at honce
    obtain ⟨x₁, h₁, rfl⟩ := (setting?_eq_some htext (by decide) honce.1).mp hlevel
    obtain ⟨x₂, h₂, rfl⟩ := (setting?_eq_some hformat (by decide) honce.2.1).mp hread
    exact ⟨⟨x₁, x₂⟩, .mapping hfields h₁ h₂, rfl⟩
  · rintro ⟨a, ⟨hfields, h₁, h₂⟩, rfl⟩
    refine ⟨_, ⟨_, hfields, ?_, rfl⟩, _, ?_, _, ?_, rfl⟩
    · simp [names, h₁.once, h₂.once]
    · exact h₁.setting htext (by decide)
    · exact h₂.setting hformat (by decide)

/-- Values for some of the settings. -/
structure Assignment where
  database : DatabaseAssignment := {}
  logging : LoggingAssignment := {}
deriving DecidableEq

namespace Assignment

/-- The standard settings, but for those that are given. -/
def settings (a : Assignment) : Settings := ⟨a.database.settings, a.logging.settings⟩

/-- A document gives these settings and no others. A section that is absent gives none. -/
inductive From (d : Document) : Assignment → Prop
  | mapping {fields database logging} (h : d.Maps d.root fields)
      (hdatabase : Gives fields "database" (DatabaseAssignment.From d) database)
      (hlogging : Gives fields "logging" (LoggingAssignment.From d) logging) :
      From d ⟨database.getD {}, logging.getD {}⟩

/-- A text gives these settings and no others. A blank text gives none. -/
inductive Written (text : String) : Assignment → Prop
  | blank (h : isBlankText text = true) : Written text {}
  | document {d a} (hblank : isBlankText text = false) (hd : Document.ofText? text = some d)
      (h : From d a) : Written text a

end Assignment

namespace Settings

theorem ofDocument?_eq_some {d : Document} {s : Settings} :
    ofDocument? d = some s ↔ ∃ a : Assignment, a.From d ∧ s = a.settings := by
  simp only [ofDocument?, Option.bind_eq_bind, Option.bind_eq_some_iff, fields?_eq_some,
    Option.pure_def, Option.some.injEq]
  constructor
  · rintro ⟨_, ⟨fields, hfields, honce, rfl⟩, database, hdatabase, logging, hlogging, rfl⟩
    simp only [names, List.forall_mem_cons] at honce
    obtain ⟨_, h₁, rfl⟩ := (setting?_eq_some (fun _ _ => DatabaseSettings.ofNode?_eq_some)
      (by decide) honce.1).mp hdatabase
    obtain ⟨_, h₂, rfl⟩ := (setting?_eq_some (fun _ _ => LoggingSettings.ofNode?_eq_some)
      (by decide) honce.2.1).mp hlogging
    obtain ⟨x, hx, rfl⟩ := gives_map.mp h₁
    obtain ⟨y, hy, rfl⟩ := gives_map.mp h₂
    refine ⟨_, .mapping hfields hx hy, ?_⟩
    cases x <;> cases y <;> rfl
  · rintro ⟨_, @⟨fields, database, logging, hfields, hdatabase, hlogging⟩, rfl⟩
    have h₁ := gives_map.mpr ⟨_, hdatabase, Eq.refl (database.map DatabaseAssignment.settings)⟩
    have h₂ := gives_map.mpr ⟨_, hlogging, Eq.refl (logging.map LoggingAssignment.settings)⟩
    refine ⟨_, ⟨_, hfields, ?_, rfl⟩, (database.map DatabaseAssignment.settings).getD {}, ?_,
      (logging.map LoggingAssignment.settings).getD {}, ?_, ?_⟩
    · simp [names, h₁.once, h₂.once]
    · exact h₁.setting (fun _ _ => DatabaseSettings.ofNode?_eq_some) (by decide)
    · exact h₂.setting (fun _ _ => LoggingSettings.ofNode?_eq_some) (by decide)
    · cases database <;> cases logging <;> rfl

theorem ofText?_eq_some {text : String} {s : Settings} :
    ofText? text = some s ↔ ∃ a : Assignment, a.Written text ∧ s = a.settings := by
  unfold ofText?
  cases hblank : isBlankText text with
  | true =>
      rw [if_pos rfl, Option.some.injEq]
      constructor
      · rintro rfl
        exact ⟨{}, .blank hblank, rfl⟩
      · rintro ⟨a, h | ⟨hnot, -, -⟩, rfl⟩
        · rfl
        · rw [hblank] at hnot
          cases hnot
  | false =>
      simp only [Bool.false_eq_true, if_false, Option.bind_eq_some_iff, ofDocument?_eq_some]
      constructor
      · rintro ⟨d, hd, a, ha, rfl⟩
        exact ⟨a, .document hblank hd ha, rfl⟩
      · rintro ⟨a, h | ⟨-, hd, ha⟩, rfl⟩
        · rw [hblank] at h
          cases h
        · exact ⟨_, hd, a, ha, rfl⟩

end Settings

/-! ## Writing settings out -/

section

variable {α : Type} {entries fields : List (String × Node)} {known : List String}
  {name key : String} {write : α → Node} {value : Option α}

def Yaml.Node.ofFields (fields : List (String × Node)) : Node :=
  .mapping (fields.map fun f => (.plain f.1, f.2))

theorem maps_ofFields (d : Document) (fields : List (String × Node)) :
    d.Maps (.ofFields fields) fields := by
  refine .mapping rfl ?_
  rw [List.forall₂_map_left_iff, List.forall₂_same]
  exact fun f _ => ⟨Node.says_plain f.1, rfl⟩

/-- Whether a mapping has these fields in any order, and else only keys that are not known. -/
def Lists (known : List String) (entries fields : List (String × Node)) : Prop :=
  (entries.filter fun e => known.contains e.1).Perm fields

/-- A section lists its fields. It may be left out or left blank when it has none. -/
inductive Section (known : List String) (fields : List (String × Node)) : Option Node → Prop
  | absent (h : fields = []) : Section known fields none
  | blank {tag} (h : fields = []) : Section known fields (some (.blank tag))
  | present {found} (h : Lists known found fields) : Section known fields (some (.ofFields found))

/-- The entry of a value, if there is one. -/
def given (name : String) (write : α → Node) (value : Option α) : List (String × Node) :=
  value.toList.map fun a => (name, write a)

@[simp] theorem given_eq_nil : given name write value = [] ↔ value = none := by
  cases value <;> simp [given]

@[simp] theorem entriesOf_append (xs ys : List (String × Node)) :
    entriesOf (xs ++ ys) key = entriesOf xs key ++ entriesOf ys key :=
  List.filter_append xs ys

@[simp] theorem entriesOf_given :
    entriesOf (given name write value) key = if name = key then given name write value else [] := by
  cases value with
  | none => simp [given, entriesOf]
  | some a => by_cases h : name = key <;> simp [given, entriesOf, h]

theorem Lists.entriesOf_perm (h : Lists known entries fields) (hname : name ∈ known) :
    (entriesOf entries name).Perm (entriesOf fields name) := by
  rw [← entriesOf_filter hname]
  exact List.Perm.filter _ h

theorem Lists.gives {meaning : Node → α → Prop} (h : Lists known entries fields)
    (hname : name ∈ known) (hfield : entriesOf fields name = given name write value)
    (hmeaning : ∀ a, value = some a → meaning (write a) a) : Gives entries name meaning value := by
  have hperm := h.entriesOf_perm hname
  rw [hfield] at hperm
  cases value with
  | none => exact .nothing (List.perm_nil.mp hperm)
  | some a => exact .entry (List.perm_singleton.mp hperm) (hmeaning a rfl)

theorem Section.gives {sections : List String} {all : List (String × Node)} {node : Option Node}
    {meaning : Node → α → Prop} {standard a : α} (h : Section known fields node)
    (hempty : fields = [] → a = standard) (hblank : ∀ tag, meaning (.blank tag) standard)
    (hmeaning : ∀ found, Lists known found fields → meaning (.ofFields found) a)
    (hlists : Lists sections entries all) (hname : name ∈ sections)
    (hfield : entriesOf all name = given name id node) :
    ∃ x, Gives entries name meaning x ∧ x.getD standard = a := by
  cases h with
  | absent h =>
      have hnone : entriesOf all name = given name (fun _ : α => .blank none) none := hfield
      exact ⟨none, hlists.gives hname hnone fun _ h => (by cases h), (hempty h).symm⟩
  | @blank tag h =>
      obtain rfl := hempty h
      have hone : entriesOf all name = given name (fun _ => .blank tag) (some a) := hfield
      refine ⟨some a, hlists.gives hname hone fun b hb => ?_, rfl⟩
      exact Option.some.inj hb ▸ hblank tag
  | @present found h =>
      have hone : entriesOf all name = given name (fun _ => .ofFields found) (some a) := hfield
      refine ⟨some a, hlists.gives hname hone fun b hb => ?_, rfl⟩
      exact Option.some.inj hb ▸ hmeaning found h

end

namespace DatabaseAssignment

variable {a : DatabaseAssignment} {entries : List (String × Node)}

def fields (a : DatabaseAssignment) : List (String × Node) :=
  given "url" .plain a.url ++ given "max_connections" .ofNat a.maxConnections ++
    given "connect_timeout_secs" .ofNat a.connectTimeoutSecs ++
    given "idle_timeout_secs" .ofNat a.idleTimeoutSecs ++
    given "run_migrations" .ofBool a.runMigrations

/-- Whether the numbers that are given are in range. -/
structure Fits (a : DatabaseAssignment) : Prop where
  maxConnections : ∀ n, a.maxConnections = some n → n < countLimit
  connectTimeoutSecs : ∀ n, a.connectTimeoutSecs = some n → n < secondsLimit
  idleTimeoutSecs : ∀ n, a.idleTimeoutSecs = some n → n < secondsLimit

theorem eq_empty_of_fields (h : a.fields = []) : a = {} := by
  simp only [fields, List.append_eq_nil_iff, given_eq_nil] at h
  obtain ⟨⟨⟨⟨hurl, hmost⟩, hconnect⟩, hidle⟩, hmigrate⟩ := h
  cases a
  simp_all

theorem from_blank (d : Document) (tag : Option (List UInt8)) :
    DatabaseAssignment.From d (.blank tag) {} :=
  .mapping (.blank rfl) (.nothing rfl) (.nothing rfl) (.nothing rfl) (.nothing rfl) (.nothing rfl)

theorem from_ofFields (d : Document) (h : a.Fits)
    (hlists : Lists DatabaseSettings.names entries a.fields) : a.From d (.ofFields entries) := by
  have hurl : entriesOf a.fields "url" = given "url" .plain a.url := by simp [fields]
  have hmost : entriesOf a.fields "max_connections" =
      given "max_connections" .ofNat a.maxConnections := by simp [fields]
  have hconnect : entriesOf a.fields "connect_timeout_secs" =
      given "connect_timeout_secs" .ofNat a.connectTimeoutSecs := by simp [fields]
  have hidle : entriesOf a.fields "idle_timeout_secs" =
      given "idle_timeout_secs" .ofNat a.idleTimeoutSecs := by simp [fields]
  have hmigrate : entriesOf a.fields "run_migrations" =
      given "run_migrations" .ofBool a.runMigrations := by simp [fields]
  exact .mapping (maps_ofFields d entries)
    (hlists.gives (by decide) hurl fun s _ => Node.says_plain s)
    (hlists.gives (by decide) hmost fun n hn => Node.saysNumber_ofNat (h.maxConnections n hn))
    (hlists.gives (by decide) hconnect
      fun n hn => Node.saysNumber_ofNat (h.connectTimeoutSecs n hn))
    (hlists.gives (by decide) hidle fun n hn => Node.saysNumber_ofNat (h.idleTimeoutSecs n hn))
    (hlists.gives (by decide) hmigrate fun b _ => Node.saysTruth_ofBool b)

end DatabaseAssignment

namespace LoggingAssignment

variable {a : LoggingAssignment} {entries : List (String × Node)}

def fields (a : LoggingAssignment) : List (String × Node) :=
  given "level" .plain a.level ++ given "format" (fun f => .plain (LogFormat.label f)) a.format

theorem eq_empty_of_fields (h : a.fields = []) : a = {} := by
  simp only [fields, List.append_eq_nil_iff, given_eq_nil] at h
  obtain ⟨hlevel, hformat⟩ := h
  cases a
  simp_all

theorem from_blank (d : Document) (tag : Option (List UInt8)) :
    LoggingAssignment.From d (.blank tag) {} :=
  .mapping (.blank rfl) (.nothing rfl) (.nothing rfl)

theorem from_ofFields (d : Document) (hlists : Lists LoggingSettings.names entries a.fields) :
    a.From d (.ofFields entries) := by
  have hlevel : entriesOf a.fields "level" = given "level" .plain a.level := by simp [fields]
  have hformat : entriesOf a.fields "format" =
      given "format" (fun f => .plain (LogFormat.label f)) a.format := by simp [fields]
  exact .mapping (maps_ofFields d entries)
    (hlists.gives (by decide) hlevel fun s _ => Node.says_plain s)
    (hlists.gives (by decide) hformat fun f _ => Node.names_plain f.label)

end LoggingAssignment

namespace Assignment

variable {a : Assignment} {d : Document}

/-- A document lists the values of an assignment by their sections, each number in its decimal
digits and each text as it is. -/
inductive WrittenOut (d : Document) (a : Assignment) : Prop
  | root {database logging entries}
      (hdatabase : Section DatabaseSettings.names a.database.fields database)
      (hlogging : Section LoggingSettings.names a.logging.fields logging)
      (hlists : Lists Settings.names entries
        (given "database" id database ++ given "logging" id logging))
      (hroot : d.root = .ofFields entries)

theorem WrittenOut.gives (h : a.WrittenOut d) (hfits : a.database.Fits) : a.From d := by
  obtain @⟨database, logging, entries, hdatabase, hlogging, hlists, hroot⟩ := h
  have hfirst : entriesOf (given "database" id database ++ given "logging" id logging) "database" =
      given "database" id database := by simp
  have hsecond : entriesOf (given "database" id database ++ given "logging" id logging) "logging" =
      given "logging" id logging := by simp
  obtain ⟨x, hx, hxa⟩ := hdatabase.gives DatabaseAssignment.eq_empty_of_fields
    (DatabaseAssignment.from_blank d) (fun _ => DatabaseAssignment.from_ofFields d hfits)
    hlists (by decide) hfirst
  obtain ⟨y, hy, hya⟩ := hlogging.gives LoggingAssignment.eq_empty_of_fields
    (LoggingAssignment.from_blank d) (fun _ => LoggingAssignment.from_ofFields d)
    hlists (by decide) hsecond
  have hfrom := From.mapping (hroot ▸ maps_ofFields d entries) hx hy
  rwa [hxa, hya] at hfrom

end Assignment

end CardClub
