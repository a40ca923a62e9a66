import CardClub.Proofs.Assignment
import Mathlib

/-!
# Layers of settings

The settings are the standard ones but for what the document assigns, and over these go the
variables of the environment: one replaces the address of the database, the other one names the
format of the log. Whatever is no document of settings is refused before the environment is looked
at.
-/

namespace CardClub

open Yaml (Document Node)
open Yaml.Document

/-! ## Trimming -/

section Trimming

variable {cs before word after : List Char}

theorem dropBlanks_append (h : ∀ c ∈ before, isBlank c = true) :
    dropBlanks (before ++ cs) = dropBlanks cs :=
  List.dropWhile_append_of_pos h

theorem dropBlanks_of_head (h : ∀ c ∈ cs.head?, isBlank c = false) : dropBlanks cs = cs := by
  cases cs with
  | nil => rfl
  | cons c cs => exact List.dropWhile_cons_of_neg (by simpa using h c rfl)

theorem trimBlanks_append (hbefore : ∀ c ∈ before, isBlank c = true)
    (hafter : ∀ c ∈ after, isBlank c = true) (hword : ∀ c ∈ word, isBlank c = false) :
    trimBlanks (before ++ (word ++ after)) = word := by
  have hend : dropBlanks (after.reverse ++ word.reverse) = word.reverse := by
    rw [dropBlanks_append (by simpa using hafter)]
    exact dropBlanks_of_head fun c hc => hword c (List.mem_reverse.mp (List.mem_of_mem_head? hc))
  rw [trimBlanks, dropBlanks_append hbefore]
  cases word with
  | nil =>
      have hall : dropBlanks after = [] := List.dropWhile_eq_nil_iff.mpr hafter
      rw [List.nil_append, hall]
      rfl
  | cons c word =>
      have hfront : dropBlanks (c :: word ++ after) = c :: word ++ after :=
        dropBlanks_of_head (by simpa using (List.forall_mem_cons.mp hword).1)
      rw [hfront, List.reverse_append, hend, List.reverse_reverse]

/-- A text is what trimming leaves of it, between blanks. -/
theorem exists_trimBlanks (cs : List Char) : ∃ before after,
    cs = before ++ (trimBlanks cs ++ after) ∧ (∀ c ∈ before, isBlank c = true) ∧
      ∀ c ∈ after, isBlank c = true := by
  have hsplit (l : List Char) : l.takeWhile isBlank ++ dropBlanks l = l :=
    List.takeWhile_append_dropWhile
  refine ⟨cs.takeWhile isBlank, ((dropBlanks cs).reverse.takeWhile isBlank).reverse, ?_,
    fun c hc => List.mem_takeWhile_imp hc, fun c hc => ?_⟩
  · have hend := congrArg List.reverse (hsplit (dropBlanks cs).reverse)
    rw [List.reverse_append, List.reverse_reverse] at hend
    rw [trimBlanks, hend, hsplit]
  · exact List.mem_takeWhile_imp (List.mem_reverse.mp hc)

end Trimming

/-! ## The variables of the environment -/

namespace LogFormat

variable {f : LogFormat} {value : String}

/-- Whether a text is the label of a format, with blanks around it and letters of either case. -/
def Names (f : LogFormat) (value : String) : Prop :=
  ∃ before word after, value.toList = before ++ (word ++ after) ∧
    (∀ c ∈ before, isBlank c = true) ∧ (∀ c ∈ after, isBlank c = true) ∧
    word.map Char.toLower = f.label.toList

theorem toLower_of_isBlank {c : Char} (h : isBlank c = true) : c.toLower = c := by
  refine dif_neg fun hupper => ?_
  have hfrom : 65 ≤ c.toNat := UInt32.le_iff_toNat_le.mp hupper.1
  have hto : c.toNat ≤ 90 := UInt32.le_iff_toNat_le.mp hupper.2
  simp only [isBlank, Bool.or_eq_true, Bool.and_eq_true, beq_iff_eq, decide_eq_true_eq] at h
  omega

theorem isBlank_of_mem_label {c : Char} (h : c ∈ f.label.toList) : isBlank c = false := by
  have hall : (f.label.toList.all fun c => !isBlank c) = true := by
    cases f <;> decide +kernel
  simpa using List.all_eq_true.mp hall c h

theorem ofVariable?_eq_some : ofVariable? value = some f ↔ f.Names value := by
  rw [ofVariable?, ofLabel?_eq_some, ← String.toList_inj, String.toList_ofList]
  constructor
  · intro h
    obtain ⟨before, after, hvalue, hbefore, hafter⟩ := exists_trimBlanks value.toList
    exact ⟨before, _, after, hvalue, hbefore, hafter, h⟩
  · rintro ⟨before, word, after, hvalue, hbefore, hafter, hlabel⟩
    have hword : ∀ c ∈ word, isBlank c = false := by
      intro c hc
      by_contra hblank
      have hmem : c.toLower ∈ f.label.toList := hlabel ▸ List.mem_map_of_mem hc
      rw [toLower_of_isBlank (by simpa using hblank)] at hmem
      exact hblank (isBlank_of_mem_label hmem)
    rw [hvalue, trimBlanks_append hbefore hafter hword, hlabel]

end LogFormat

namespace Settings

variable {s : Settings} {environment : Environment} {value : String}

/-- The settings of the database with the address that the environment gives, if it gives one. -/
def databaseIn (s : Settings) (environment : Environment) : DatabaseSettings :=
  { s.database with url := (environment urlVariable).getD s.database.url }

theorem override_eq : s.override environment =
    match environment formatVariable with
    | none => .ok ⟨s.databaseIn environment, s.logging⟩
    | some value => (LogFormat.ofVariable? value).elim (.error (.badFormat value))
        fun format => .ok ⟨s.databaseIn environment, { s.logging with format }⟩ := by
  unfold override databaseIn
  cases environment urlVariable <;> cases environment formatVariable with
  | none => rfl
  | some value => cases h : LogFormat.ofVariable? value <;> simp [h]

theorem override_unset (h : environment formatVariable = none) :
    s.override environment = .ok ⟨s.databaseIn environment, s.logging⟩ := by
  rw [override_eq, h]

theorem override_names {format : LogFormat} (h : environment formatVariable = some value)
    (hnames : format.Names value) :
    s.override environment = .ok ⟨s.databaseIn environment, { s.logging with format }⟩ := by
  rw [override_eq, h]
  dsimp only
  rw [LogFormat.ofVariable?_eq_some.mpr hnames, Option.elim_some]

theorem override_of_nameless (h : environment formatVariable = some value)
    (hnames : ∀ format : LogFormat, ¬ format.Names value) :
    s.override environment = .error (.badFormat value) := by
  have hnone : LogFormat.ofVariable? value = none :=
    Option.eq_none_iff_forall_ne_some.mpr fun format hsome =>
      hnames format (LogFormat.ofVariable?_eq_some.mp hsome)
  rw [override_eq, h]
  dsimp only
  rw [hnone, Option.elim_none]

/-- The environment gives settings, or a value that names no format. -/
theorem override_cases (s : Settings) (environment : Environment) :
    (∃ settings, s.override environment = .ok settings) ∨
    ∃ value, s.override environment = .error (.badFormat value) ∧
      environment formatVariable = some value ∧ ∀ format : LogFormat, ¬ format.Names value := by
  cases hvalue : environment formatVariable with
  | none => exact .inl ⟨_, override_unset hvalue⟩
  | some value =>
      by_cases hnames : ∃ format : LogFormat, format.Names value
      · obtain ⟨format, hformat⟩ := hnames
        exact .inl ⟨_, override_names hvalue hformat⟩
      · have hnone : ∀ format : LogFormat, ¬ format.Names value := not_exists.mp hnames
        exact .inr ⟨value, override_of_nameless hvalue hnone, rfl, hnone⟩

theorem override_eq_badFormat :
    s.override environment = .error (.badFormat value) ↔
      environment formatVariable = some value ∧ ∀ format : LogFormat, ¬ format.Names value := by
  refine ⟨fun h => ?_, fun h => override_of_nameless h.1 h.2⟩
  rcases s.override_cases environment with ⟨settings, hok⟩ | ⟨value', herror, hvalue⟩
  · cases hok.symm.trans h
  · obtain rfl := SettingsError.badFormat.inj (Except.error.inj (herror.symm.trans h))
    exact hvalue

theorem load_of_written {text : String} {a : Assignment} (h : a.Written text) :
    load text environment = a.settings.override environment := by
  rw [load, ofText?_eq_some.mpr ⟨a, h, rfl⟩]

theorem load_eq_unreadable {text : String} :
    load text environment = .error .unreadable ↔ ∀ a : Assignment, ¬ a.Written text := by
  constructor
  · intro h a ha
    rw [load_of_written ha] at h
    rcases a.settings.override_cases environment with ⟨_, hok⟩ | ⟨_, herror, -⟩
    · cases hok.symm.trans h
    · cases herror.symm.trans h
  · intro h
    have hnone : ofText? text = none :=
      Option.eq_none_iff_forall_ne_some.mpr fun s hs => by
        obtain ⟨a, ha, -⟩ := ofText?_eq_some.mp hs
        exact h a ha
    rw [load, hnone]

end Settings

/-- A text that gives some of the settings, in whatever order and among whatever other keys that are
scalars, makes the settings the standard ones but for these. The address of the database is then the
one that the environment gives, if it gives one, and the format of the log the one that its variable
names, up to blanks around the name and the case of ASCII letters. If the variable is set to
anything else, and only then, the settings are refused for its value. Any other text is refused
whatever the environment is. Every choice of settings whose numbers are in range is given by the
texts of the documents that write it out. -/
theorem settings_layered (text : String) (environment : Environment) :
    (∀ a : Assignment, a.Written text →
      let database := { a.settings.database with
        url := (environment urlVariable).getD a.settings.database.url }
      (environment formatVariable = none →
        Settings.load text environment = .ok ⟨database, a.settings.logging⟩) ∧
      (∀ value format, environment formatVariable = some value → format.Names value →
        Settings.load text environment = .ok ⟨database, { a.settings.logging with format }⟩) ∧
      ∀ value, Settings.load text environment = .error (.badFormat value) ↔
        environment formatVariable = some value ∧ ∀ format : LogFormat, ¬ format.Names value) ∧
    (Settings.load text environment = .error .unreadable ↔
      ∀ a : Assignment, ¬ a.Written text) ∧
    ∀ (a : Assignment) (d : Document), a.database.Fits → a.WrittenOut d →
      isBlankText text = false → Document.ofText? text = some d → a.Written text := by
  refine ⟨fun a ha => ?_, Settings.load_eq_unreadable, fun a d hfits hd hblank htext => ?_⟩
  · rw [Settings.load_of_written ha]
    exact ⟨Settings.override_unset, fun _ _ => Settings.override_names,
      fun _ => Settings.override_eq_badFormat⟩
  · exact .document hblank htext (hd.gives hfits)

/-! ## Three texts

The first gives every setting, with the keys in an order of their own and unknown ones among them.
The second leaves a section empty and spells a number in base sixteen. In the third a scalar stands
for a section.
-/

namespace Layers

def text : String :=
  "x: 1\nlogging:\n  format: json\n  y: [2]\n  level: debug\ndatabase:\n" ++
  "  run_migrations: false\n  idle_timeout_secs: 500\n  connect_timeout_secs: 7\n" ++
  "  z: null\n  max_connections: 20\n  url: db://club\n"

def assignment : Assignment where
  database :=
    { url := some "db://club", maxConnections := some 20, connectTimeoutSecs := some 7
      idleTimeoutSecs := some 500, runMigrations := some false }
  logging := { level := some "debug", format := some .json }

def database : List (String × Node) :=
  [("run_migrations", .plain "false"), ("idle_timeout_secs", .plain "500"),
    ("connect_timeout_secs", .plain "7"), ("z", .plain "null"), ("max_connections", .plain "20"),
    ("url", .plain "db://club")]

def logging : List (String × Node) :=
  [("format", .plain "json"), ("y", .sequence [.plain "2"]), ("level", .plain "debug")]

def document : Document :=
  { root := .ofFields
      [("x", .plain "1"), ("logging", .ofFields logging), ("database", .ofFields database)] }

set_option maxRecDepth 4000 in
theorem ofText?_text : Document.ofText? text = some document := by cbv

theorem assignment_fits : assignment.database.Fits where
  maxConnections := by decide
  connectTimeoutSecs := by decide
  idleTimeoutSecs := by decide

theorem writtenOut : assignment.WrittenOut document := by
  have hdatabase : Lists DatabaseSettings.names database assignment.database.fields :=
    List.reverse_perm assignment.database.fields
  have hlogging : Lists LoggingSettings.names logging assignment.logging.fields :=
    List.reverse_perm assignment.logging.fields
  have hsections : Lists Settings.names
      [("x", .plain "1"), ("logging", .ofFields logging), ("database", .ofFields database)]
      (given "database" id (some (.ofFields database)) ++
        given "logging" id (some (.ofFields logging))) :=
    List.Perm.swap _ _ _
  exact .root (.present hdatabase) (.present hlogging) hsections rfl

def environment : Environment := fun name =>
  if name = formatVariable then some " PRETTY\t"
  else if name = urlVariable then some "db://hall"
  else none

theorem environment_names : LogFormat.pretty.Names " PRETTY\t" :=
  ⟨[' '], ['P', 'R', 'E', 'T', 'T', 'Y'], ['\t'], by decide +kernel,
    List.forall_mem_singleton.mpr rfl, List.forall_mem_singleton.mpr rfl, by decide +kernel⟩

def sparse : String := "logging:\ndatabase: {run_migrations: FALSE, max_connections: +0x1F}\n"

def sparseDatabase : List (String × Node) :=
  [("run_migrations", .plain "FALSE"), ("max_connections", .plain "+0x1F")]

def sparseSections : List (String × Node) :=
  [("logging", .blank none), ("database", .ofFields sparseDatabase)]

def sparseDocument : Document := { root := .ofFields sparseSections }

theorem ofText?_sparse : Document.ofText? sparse = some sparseDocument := by cbv

theorem sparse_written :
    Assignment.Written sparse ⟨{ maxConnections := some 31, runMigrations := some false }, {}⟩ := by
  have hdigits : List.Forall₂ (Yaml.IsDigit 16) ['1', 'F'] [1, 15] :=
    .cons (by decide) (.cons (by decide) .nil)
  have hnumber : Yaml.SpellsNumber ['+', '0', 'x', '1', 'F'] 31 :=
    .positive (.hexadecimal (.of (by decide) hdigits))
  have hdatabase : Gives sparseSections "database" (DatabaseAssignment.From sparseDocument)
      (some { maxConnections := some 31, runMigrations := some false }) :=
    .entry rfl (.mapping (maps_ofFields _ sparseDatabase) (.nothing rfl)
      (.entry rfl ⟨by decide, _, .plain none _, hnumber⟩) (.nothing rfl) (.nothing rfl)
      (.entry rfl ⟨_, .plain none _, by decide⟩))
  have hlogging : Gives sparseSections "logging" (LoggingAssignment.From sparseDocument)
      (some {}) :=
    .entry rfl (LoggingAssignment.from_blank _ none)
  exact .document (by decide +kernel) ofText?_sparse
    (.mapping (maps_ofFields _ sparseSections) hdatabase hlogging)

def nameless : Environment := fun name => if name = formatVariable then some "xml" else none

theorem xml_nameless (format : LogFormat) : ¬ format.Names "xml" := by
  intro h
  have hnone : LogFormat.ofVariable? "xml" = none := by decide +kernel
  cases hnone.symm.trans (LogFormat.ofVariable?_eq_some.mpr h)

def scalarSection : String := "logging: 5\n"

theorem scalarSection_unwritten (a : Assignment) : ¬ a.Written scalarSection := by
  intro ha
  have hnone : Settings.ofText? scalarSection = none := by decide +kernel
  cases hnone.symm.trans (Settings.ofText?_eq_some.mpr ⟨a, ha, rfl⟩)

end Layers

theorem all_settings_layered :
    Layers.assignment.database.Fits ∧ Layers.assignment.WrittenOut Layers.document ∧
      Document.ofText? Layers.text = some Layers.document ∧
      Layers.assignment.Written Layers.text ∧ LogFormat.pretty.Names " PRETTY\t" ∧
      Settings.load Layers.text Layers.environment =
        .ok ⟨⟨"db://hall", 20, 7, 500, false⟩, ⟨"debug", .pretty⟩⟩ ∧
      Settings.load Layers.sparse (fun _ => none) =
        .ok ⟨{ maxConnections := 31, runMigrations := false }, {}⟩ ∧
      Settings.load Layers.sparse Layers.nameless = .error (.badFormat "xml") ∧
      Settings.load Layers.scalarSection Layers.environment = .error .unreadable := by
  obtain ⟨hgiven, -, hwritten⟩ := settings_layered Layers.text Layers.environment
  have htext : Layers.assignment.Written Layers.text :=
    hwritten _ _ Layers.assignment_fits Layers.writtenOut (by decide +kernel) Layers.ofText?_text
  obtain ⟨-, hnamed, -⟩ := hgiven _ htext
  obtain ⟨hunset, -⟩ := (settings_layered Layers.sparse fun _ => none).1 _ Layers.sparse_written
  obtain ⟨-, -, hnameless⟩ := (settings_layered Layers.sparse Layers.nameless).1 _
    Layers.sparse_written
  obtain ⟨-, hrefused, -⟩ := settings_layered Layers.scalarSection Layers.environment
  exact ⟨Layers.assignment_fits, Layers.writtenOut, Layers.ofText?_text, htext,
    Layers.environment_names, hnamed _ _ rfl Layers.environment_names, hunset rfl,
    (hnameless "xml").mpr ⟨rfl, Layers.xml_nameless⟩,
    hrefused.mpr Layers.scalarSection_unwritten⟩

/-- An unknown key that is no scalar is refused, though nothing else is wrong with the mapping. -/
theorem unknown_sequence_key_refused :
    Document.ofText? "? [a]\n: 1\n" =
        some { root := .mapping [(.sequence [.plain "a"], .plain "1")] } ∧
      ∀ environment, Settings.load "? [a]\n: 1\n" environment = .error .unreadable := by
  have hnone : Settings.ofText? "? [a]\n: 1\n" = none := by decide +kernel
  refine ⟨by cbv, fun environment => ?_⟩
  rw [Settings.load, hnone]

end CardClub
