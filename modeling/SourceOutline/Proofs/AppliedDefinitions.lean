import Mathlib.Data.List.Forall2
import Mathlib.Data.List.TakeWhile
import SourceOutline.Definitions
import SourceOutline.Proofs.EngineRun
import SourceOutline.Proofs.SortedTables
import SourceOutline.Proofs.TriggerNames

/-! Definitions on their way to an engine.
They are collected in two tables, where the last value of a name wins, and then registered one by one
until the first of them is refused. -/
namespace SourceOutline

namespace Filter

theorem ofTexts_cases (kind : FilterKind) (name value : String) :
    (¬ TriggerName name ∧ ∃ reason,
        (checkName kind name).value = .error (.invalidTriggerName kind name reason) ∧
        (ofTexts kind name value).value = .error (.invalidTriggerName kind name reason)) ∨
      (TriggerName name ∧ ∃ cause, (Lexer.tokenize value).value = .error cause ∧
        (ofTexts kind name value).value = .error (.invalidReplacement name cause)) ∨
      (TriggerName name ∧ ∃ tokens, (Lexer.tokenize value).value = .ok tokens ∧
        (ofTexts kind name value).value = .ok ⟨kind, name, tokens.map bare⟩) := by
  rcases checkName_cases kind name with ⟨hok, -⟩ | ⟨reason, herror⟩
  · have hname := checkName_eq_ok_iff.1 hok
    cases hvalue : (Lexer.tokenize value).value with
    | error cause => exact .inr (.inl ⟨hname, cause, rfl, by simp [ofTexts, hok, hvalue]⟩)
    | ok tokens => exact .inr (.inr ⟨hname, tokens, rfl, by simp [ofTexts, hok, hvalue]⟩)
  · refine .inl ⟨fun hname => ?_, reason, herror, by simp [ofTexts, herror]⟩
    rw [checkName_eq_ok_iff.2 hname] at herror
    cases herror

end Filter

namespace Engine
open SourceOutline.Filter

structure Stands (entry : Definition) (f : Filter) : Prop where
  kind : f.kind = entry.1
  name : f.name = entry.2.1
  template : ∃ tokens, (Lexer.tokenize entry.2.2).value = .ok tokens ∧ f.template = tokens.map bare

/-- Entries that can all be registered one after the other. -/
structure Acceptable (entries : List Definition) : Prop where
  names : ∀ entry ∈ entries, TriggerName entry.2.1
  values : ∀ entry ∈ entries, ∃ tokens, (Lexer.tokenize entry.2.2).value = .ok tokens
  distinct : (entries.map (·.2.1)).Nodup
  limit : entries.length ≤ 10000

/-- Why an entry cannot be registered after those before it. The reasons are looked for in this
order. -/
inductive Refused (before : List Definition) : Definition → FilterError → Prop
  | name {kind : FilterKind} {name value reason : String} (hname : ¬ TriggerName name)
      (hreason : (checkName kind name).value = .error (.invalidTriggerName kind name reason)) :
      Refused before (kind, name, value) (.invalidTriggerName kind name reason)
  | value {kind : FilterKind} {name value : String} {cause : LexError} (hname : TriggerName name)
      (hvalue : (Lexer.tokenize value).value = .error cause) :
      Refused before (kind, name, value) (.invalidReplacement name cause)
  | clash {kind existing : FilterKind} {name value other : String} {tokens : List Token}
      (hname : TriggerName name) (hvalue : (Lexer.tokenize value).value = .ok tokens)
      (hclash : (existing, name, other) ∈ before) :
      Refused before (kind, name, value) (.duplicateFilter name kind existing)
  | limit {kind : FilterKind} {name value : String} {tokens : List Token}
      (hname : TriggerName name) (hvalue : (Lexer.tokenize value).value = .ok tokens)
      (hfresh : name ∉ before.map (·.2.1)) (hlimit : before.length = 10000) :
      Refused before (kind, name, value) (.tooManyFilters 10001)

variable {before entries : List Definition} {entry : Definition} {error : FilterError}

theorem acceptable_nil : Acceptable [] :=
  ⟨by simp, by simp, List.nodup_nil, Nat.zero_le _⟩

theorem Refused.not_acceptable (h : Refused before entry error) (after : List Definition) :
    ¬ Acceptable (before ++ entry :: after) := by
  intro ha
  have hmem : entry ∈ before ++ entry :: after := by simp
  cases h with
  | name hname _ => exact hname (ha.names _ hmem)
  | value _ hvalue =>
    obtain ⟨tokens, htokens⟩ := ha.values _ hmem
    rw [hvalue] at htokens
    cases htokens
  | clash _ _ hclash =>
    have hdistinct := ha.distinct
    rw [List.map_append, List.nodup_append] at hdistinct
    exact hdistinct.2.2 _ (List.mem_map_of_mem hclash) _ List.mem_cons_self rfl
  | limit _ _ _ hlimit =>
    have hlength := ha.limit
    rw [List.length_append, List.length_cons] at hlength
    omega

theorem Acceptable.concat (h : Acceptable before) {tokens : List Token}
    (hname : TriggerName entry.2.1) (hvalue : (Lexer.tokenize entry.2.2).value = .ok tokens)
    (hfresh : entry.2.1 ∉ before.map (·.2.1)) (hroom : before.length < 10000) :
    Acceptable (before ++ [entry]) where
  names := List.forall_mem_append.2 ⟨h.names, by simpa using hname⟩
  values := List.forall_mem_append.2 ⟨h.values, by simpa using ⟨tokens, hvalue⟩⟩
  distinct := by
    rw [List.map_append, List.nodup_append]
    refine ⟨h.distinct, List.pairwise_singleton _ _, ?_⟩
    rintro name hold _ hnew rfl
    have hname : name = entry.2.1 := List.mem_singleton.1 hnew
    exact hfresh (hname ▸ hold)
  limit := by
    rw [List.length_append, List.length_singleton]
    exact hroom

section Stands
variable {e : Engine} {filters : List Filter} {name : String}

theorem names_eq_of_stands (h : List.Forall₂ Stands entries filters) :
    filters.map (fun f => (f.kind, f.name)) = entries.map fun entry => (entry.1, entry.2.1) := by
  induction h with
  | nil => rfl
  | cons hf _ ih => simp [hf.kind, hf.name, ih]

theorem mem_of_find? (h : List.Forall₂ Stands entries e.filters) {old : Filter}
    (hfind : e.find? name = some old) : ∃ value, (old.kind, name, value) ∈ entries := by
  have hname : old.name = name := by simpa using List.find?_some hfind
  have hmem : (old.kind, old.name) ∈ e.filters.map fun f => (f.kind, f.name) :=
    List.mem_map_of_mem (List.mem_reverse.2 (List.mem_of_find?_eq_some hfind))
  rw [names_eq_of_stands h, hname] at hmem
  obtain ⟨⟨kind, _, value⟩, hentry, heq⟩ := List.mem_map.1 hmem
  cases heq
  exact ⟨value, hentry⟩

theorem not_mem_of_find? (h : List.Forall₂ Stands entries e.filters) (hfind : e.find? name = none) :
    name ∉ entries.map (·.2.1) := by
  have hnames : e.filters.map Filter.name = entries.map (·.2.1) := by
    simpa [Function.comp_def] using congrArg (List.map Prod.snd) (names_eq_of_stands h)
  rw [← hnames, filters, List.map_reverse, List.mem_reverse]
  exact name_ne_of_find?_eq_none hfind

/-- One more entry is registered, or it is refused and the engine stays as it was. -/
theorem register_stands (ha : Acceptable before) (hf : List.Forall₂ Stands before e.filters)
    (kind : FilterKind) (name value : String) :
    (∃ f, Acceptable (before ++ [(kind, name, value)]) ∧ Stands (kind, name, value) f ∧
        (e.register kind name value).value = (.ok (), { e with registered := f :: e.registered })) ∨
      ∃ error, Refused before (kind, name, value) error ∧
        (e.register kind name value).value = (.error error, e) := by
  have hlength : e.registered.length = before.length := by
    simpa [filters] using hf.length_eq.symm
  rcases ofTexts_cases kind name value with
    ⟨hname, reason, hreason, hmade⟩ | ⟨hname, cause, hcause, hmade⟩ | ⟨hname, tokens, htokens, hmade⟩
  · exact .inr ⟨_, .name hname hreason, by simp [register, hmade]⟩
  · exact .inr ⟨_, .value hname hcause, by simp [register, hmade]⟩
  · cases hfind : e.find? name with
    | some old =>
      obtain ⟨other, hother⟩ := mem_of_find? hf hfind
      exact .inr ⟨_, .clash hname htokens hother, by simp [register, hmade, Engine.add, hfind]⟩
    | none =>
      have hfresh := not_mem_of_find? hf hfind
      by_cases hroom : before.length < 10000
      · refine .inl ⟨⟨kind, name, tokens.map bare⟩, ha.concat hname htokens hfresh hroom,
          ⟨rfl, rfl, tokens, htokens, rfl⟩, ?_⟩
        simp [register, hmade, Engine.add, hfind, hlength, FilterError.filterLimit, hroom]
      · have hlimit : before.length = 10000 := Nat.le_antisymm ha.limit (Nat.le_of_not_lt hroom)
        refine .inr ⟨_, .limit hname htokens hfresh hlimit, ?_⟩
        simp [register, hmade, Engine.add, hfind, hlength, FilterError.filterLimit, hlimit]

/-- Entries are registered in turn, all of them or those before the first that is refused. -/
theorem registerFrom_stands (ha : Acceptable before) (hf : List.Forall₂ Stands before e.filters)
    (log : List Event) (entries : List Definition) :
    let r := (e.registerFrom log entries).value
    (r.1 = .ok () ∧ Acceptable (before ++ entries) ∧
        List.Forall₂ Stands (before ++ entries) r.2.filters) ∨
      ∃ done entry after error, entries = done ++ entry :: after ∧ r.1 = .error error ∧
        Acceptable (before ++ done) ∧ Refused (before ++ done) entry error ∧
        List.Forall₂ Stands (before ++ done) r.2.filters := by
  induction entries generalizing e before log with
  | nil =>
    rw [List.append_nil]
    exact .inl ⟨rfl, ha, hf⟩
  | cons entry rest ih =>
    obtain ⟨kind, name, value⟩ := entry
    rcases register_stands ha hf kind name value with ⟨f, hnext, hstands, hr⟩ | ⟨error, hrefused, hr⟩
    · have hfilters : List.Forall₂ Stands (before ++ [(kind, name, value)])
          ({ e with registered := f :: e.registered } : Engine).filters := by
        rw [filters, List.reverse_cons]
        exact List.rel_append hf (.cons hstands .nil)
      simp only [registerFrom, hr]
      rcases ih hnext hfilters _ with hall | ⟨done, entry, after, error, rfl, hdone⟩
      · simp only [List.append_assoc, List.singleton_append] at hall
        exact .inl hall
      · simp only [List.append_assoc, List.singleton_append] at hdone
        exact .inr ⟨(kind, name, value) :: done, entry, after, error, rfl, hdone⟩
    · simp only [registerFrom, hr]
      refine .inr ⟨[], (kind, name, value), rest, error, rfl, rfl, ?_⟩
      rw [List.append_nil]
      exact ⟨ha, hrefused, hf⟩

end Stands

end Engine

namespace Definitions
open Engine Text
variable {d : Definitions} {kind : FilterKind} {text name value : String}

def table (d : Definitions) : FilterKind → NameTable String
  | .define => d.defines
  | .call => d.calls

def Sorted (d : Definitions) : Prop := ∀ kind, (d.table kind).Sorted

theorem sorted_ofList (defines calls : List (String × String)) :
    Sorted ⟨.ofList defines, .ofList calls⟩ := by
  intro kind
  cases kind <;> exact NameTable.sorted_ofList _

theorem sorted_of_tableOf {fields : Toml.Fields} {t : NameTable String}
    (h : tableOf name fields = some t) : t.Sorted := by
  unfold tableOf at h
  split at h
  · cases h
    exact NameTable.sorted_empty
  · obtain ⟨entries, -, rfl⟩ := Option.map_eq_some_iff.1 h
    exact NameTable.sorted_ofList entries
  · obtain ⟨entries, -, rfl⟩ := Option.map_eq_some_iff.1 h
    exact NameTable.sorted_ofList entries
  · cases h
    exact NameTable.sorted_ofList _
  · cases h

theorem sorted_ofToml {path : String} (h : ofToml path text = .ok d) : d.Sorted := by
  unfold ofToml at h
  split at h
  · next d' hd =>
    cases h
    obtain ⟨fields, -, hfields⟩ := Option.bind_eq_some_iff.1 hd
    obtain ⟨defines, hdefines, hrest⟩ := Option.bind_eq_some_iff.1 hfields
    obtain ⟨calls, hcalls, hpure⟩ := Option.bind_eq_some_iff.1 hrest
    cases hpure
    intro kind
    cases kind with
    | define => exact sorted_of_tableOf hdefines
    | call => exact sorted_of_tableOf hcalls
  · cases h

/-- The first equals sign of the text ends the name, and the value comes after it. Blanks at their
ends do not belong to them. Without that sign the value is empty. -/
inductive Spells : String → String → String → Prop
  | valued {front back : List Char} (hfront : '=' ∉ front) (hname : trim front ≠ []) :
      Spells (.ofList (front ++ '=' :: back)) (.ofList (trim front)) (.ofList (trim back))
  | plain {front : List Char} (hfront : '=' ∉ front) (hname : trim front ≠ []) :
      Spells (.ofList front) (.ofList (trim front)) ""

theorem bne_of_not_mem {c : Char} {cs : List Char} (h : c ∉ cs) : ∀ d ∈ cs, (d != c) = true :=
  fun _ hd => bne_iff_ne.2 (ne_of_mem_of_not_mem hd h)

theorem parse_valued {front : List Char} (hfront : '=' ∉ front) (back : List Char) :
    parse (.ofList (front ++ '=' :: back)) =
      if trim front = [] then
        .error (.invalidDefinition (.ofList (front ++ '=' :: back)) "missing name")
      else .ok (.ofList (trim front), .ofList (trim back)) := by
  have hkept := bne_of_not_mem hfront
  simp [parse, List.takeWhile_append_of_pos hkept, List.dropWhile_append_of_pos hkept]

theorem parse_plain {front : List Char} (hfront : '=' ∉ front) :
    parse (.ofList front) =
      if trim front = [] then .error (.invalidDefinition (.ofList front) "missing name")
      else .ok (.ofList (trim front), "") := by
  have hkept := bne_of_not_mem hfront
  simp [parse, List.takeWhile_eq_self_iff.2 hkept, List.dropWhile_eq_nil_iff.2 hkept]

theorem parse_eq_ok_iff : parse text = .ok (name, value) ↔ Spells text name value := by
  constructor
  · intro h
    obtain ⟨cs, rfl⟩ : ∃ cs, text = String.ofList cs := ⟨_, String.ofList_toList.symm⟩
    by_cases hmem : '=' ∈ cs
    · obtain ⟨front, back, rfl, hfront⟩ := List.eq_append_cons_of_mem hmem
      rw [parse_valued hfront] at h
      split at h
      · cases h
      · next hname =>
        cases h
        exact .valued hfront hname
    · rw [parse_plain hmem] at h
      split at h
      · cases h
      · next hname =>
        cases h
        exact .plain hmem hname
  · rintro (⟨hfront, hname⟩ | ⟨hfront, hname⟩)
    · rw [parse_valued hfront, if_neg hname]
    · rw [parse_plain hfront, if_neg hname]

inductive Edit
  | add (kind : FilterKind) (text : String)
  | merge (other : Definitions) (sorted : other.Sorted)

namespace Edit

def perform (d : Definitions) : Edit → Except FilterError Definitions
  | add .define text => d.addDefine text
  | add .call text => d.addCall text
  | merge other _ => .ok (d.merge other)

def after (d : Definitions) (edit : Edit) : Definitions :=
  match edit.perform d with
  | .error _ => d
  | .ok d => d

def Gives (kind : FilterKind) (name value : String) : Edit → Prop
  | add k text => k = kind ∧ Spells text name value
  | merge other _ => (other.table kind).get? name = some value

end Edit

/-- The last value for a name is `value`. -/
def LastGiven (start : Definitions) (edits : List Edit) (kind : FilterKind) (name value : String) :
    Prop :=
  (∃ before edit after, edits = before ++ edit :: after ∧ edit.Gives kind name value ∧
      ∀ later ∈ after, ∀ v, ¬ later.Gives kind name v) ∨
    (start.table kind).get? name = some value ∧ ∀ edit ∈ edits, ∀ v, ¬ edit.Gives kind name v

theorem table_merge (d other : Definitions) (kind : FilterKind) :
    (d.merge other).table kind = (d.table kind).merge (other.table kind) := by
  cases kind <;> rfl

theorem table_after_add {k : FilterKind} (h : parse text = .ok (name, value)) (d : Definitions)
    (kind : FilterKind) : ((Edit.add k text).after d).table kind =
      if k = kind then (d.table kind).insert name value else d.table kind := by
  cases k <;> cases kind <;>
    simp [Edit.after, Edit.perform, addDefine, addCall, h, Except.map, table]

theorem after_add_error {k : FilterKind} {error : FilterError} (h : parse text = .error error)
    (d : Definitions) : (Edit.add k text).after d = d := by
  cases k <;> simp [Edit.after, Edit.perform, addDefine, addCall, h, Except.map]

theorem Sorted.after (h : d.Sorted) (edit : Edit) : (edit.after d).Sorted := by
  intro kind
  cases edit with
  | add k text =>
    cases hp : parse text with
    | error error =>
      rw [after_add_error hp]
      exact h kind
    | ok entry =>
      rw [table_after_add hp]
      split
      · exact (h kind).insert _ _
      · exact h kind
  | merge other hother =>
    rw [Edit.after, Edit.perform, table_merge]
    exact (h kind).merge (hother kind)

theorem not_gives_of_perform {edit : Edit} {error : FilterError} (h : edit.perform d = .error error) :
    edit.after d = d ∧ ∀ kind name value, ¬ edit.Gives kind name value := by
  refine ⟨by rw [Edit.after, h], fun kind name value => ?_⟩
  cases edit with
  | add k text =>
    rintro ⟨-, hspells⟩
    rw [← parse_eq_ok_iff] at hspells
    cases k <;> simp [Edit.perform, addDefine, addCall, hspells, Except.map] at h
  | merge other hother => cases h

theorem Sorted.edited (h : d.Sorted) (edits : List Edit) : (edits.foldl Edit.after d).Sorted := by
  induction edits generalizing d with
  | nil => exact h
  | cons edit edits ih => exact ih (h.after edit)

/-- A change puts what it gives and keeps all else. -/
theorem get?_table_after (d : Definitions) (edit : Edit) :
    ((edit.after d).table kind).get? name = some value ↔
      edit.Gives kind name value ∨
        (d.table kind).get? name = some value ∧ ∀ v, ¬ edit.Gives kind name v := by
  cases edit with
  | add k text =>
    simp only [Edit.Gives, ← parse_eq_ok_iff]
    cases hp : parse text with
    | error error => simp [after_add_error hp]
    | ok entry =>
      obtain ⟨n, v⟩ := entry
      rw [table_after_add hp]
      by_cases hk : k = kind
      · by_cases hn : n = name <;> simp [hk, hn]
      · simp [hk]
  | merge other hother =>
    rw [Edit.after, Edit.perform, table_merge, NameTable.get?_merge]
    simp only [Edit.Gives]
    cases (other.table kind).get? name <;> simp

theorem get?_table_edited (start : Definitions) (edits : List Edit) :
    ((edits.foldl Edit.after start).table kind).get? name = some value ↔
      LastGiven start edits kind name value := by
  induction edits generalizing start with
  | nil => simp [LastGiven]
  | cons edit edits ih =>
    rw [List.foldl_cons, ih, LastGiven, LastGiven, get?_table_after]
    constructor
    · rintro (⟨before, last, after, rfl, hlast⟩ | ⟨hgives | ⟨hstart, hnone⟩, hlater⟩)
      · exact .inl ⟨edit :: before, last, after, rfl, hlast⟩
      · exact .inl ⟨[], edit, edits, rfl, hgives, hlater⟩
      · exact .inr ⟨hstart, List.forall_mem_cons.2 ⟨hnone, hlater⟩⟩
    · rintro (⟨before, last, after, heq, hgives, hlater⟩ | ⟨hstart, hnone⟩)
      · cases before with
        | nil =>
          cases heq
          exact .inr ⟨.inl hgives, hlater⟩
        | cons first before =>
          cases heq
          exact .inl ⟨before, last, after, rfl, hgives, hlater⟩
      · obtain ⟨hnone, hlater⟩ := List.forall_mem_cons.1 hnone
        exact .inr ⟨.inr ⟨hstart, hnone⟩, hlater⟩

theorem mem_entries : (kind, name, value) ∈ d.entries ↔ (name, value) ∈ (d.table kind).entries := by
  cases kind <;> simp [entries, table]

theorem Sorted.mem_entries_iff (h : d.Sorted) :
    (kind, name, value) ∈ d.entries ↔ (d.table kind).get? name = some value :=
  mem_entries.trans (h kind).mem_entries

/-- Defines come first. Entries of one kind follow the bytes of their names. -/
def Precedes (a b : Definition) : Prop :=
  a.1 = .define ∧ b.1 = .call ∨ a.1 = b.1 ∧ bytes a.2.1 < bytes b.2.1

theorem Sorted.pairwise_entries (h : d.Sorted) : d.entries.Pairwise Precedes := by
  have htable (kind : FilterKind) :
      ((d.table kind).entries.map fun e => (kind, e.1, e.2)).Pairwise Precedes :=
    List.pairwise_map.2 ((h kind).imp fun hlt => .inr ⟨rfl, bytes_lt hlt⟩)
  refine List.pairwise_append.2 ⟨htable .define, htable .call, fun a ha b hb => .inl ?_⟩
  obtain ⟨_, -, rfl⟩ := List.mem_map.1 ha
  obtain ⟨_, -, rfl⟩ := List.mem_map.1 hb
  exact ⟨rfl, rfl⟩

theorem names_entries (d : Definitions) :
    d.entries.map (·.2.1) = d.defines.names ++ d.calls.names := by
  simp [entries, NameTable.names, Function.comp_def]

theorem length_entries (d : Definitions) : d.entries.length = d.size := by
  simp [entries, size, NameTable.size]

theorem Sorted.nodup_iff (h : d.Sorted) :
    (d.entries.map (·.2.1)).Nodup ↔
      ∀ name, ¬ (d.defines.contains name = true ∧ d.calls.contains name = true) := by
  have hdefines : d.defines.Sorted := h .define
  have hcalls : d.calls.Sorted := h .call
  rw [names_entries, List.nodup_append]
  simp only [← hdefines.mem_names, ← hcalls.mem_names]
  constructor
  · rintro ⟨-, -, hne⟩ name ⟨hdefine, hcall⟩
    exact hne name hdefine name hcall rfl
  · refine fun hone => ⟨hdefines.nodup, hcalls.nodup, ?_⟩
    rintro name hdefine _ hcall rfl
    exact hone name ⟨hdefine, hcall⟩

theorem Sorted.acceptable_iff (h : d.Sorted) :
    Acceptable d.entries ↔
      (∀ kind name value, (d.table kind).get? name = some value →
        TriggerName name ∧ ∃ tokens, (Lexer.tokenize value).value = .ok tokens) ∧
      (∀ name, ¬ (d.defines.contains name = true ∧ d.calls.contains name = true)) ∧
      d.size ≤ 10000 := by
  rw [← h.nodup_iff, ← length_entries]
  simp only [← h.mem_entries_iff]
  constructor
  · rintro ⟨hnames, hvalues, hdistinct, hlimit⟩
    exact ⟨fun kind name value hmem => ⟨hnames _ hmem, hvalues _ hmem⟩, hdistinct, hlimit⟩
  · rintro ⟨hentries, hdistinct, hlimit⟩
    exact ⟨fun _ hmem => (hentries _ _ _ hmem).1, fun _ hmem => (hentries _ _ _ hmem).2, hdistinct,
      hlimit⟩

/-- Each table has the value given last for a name. The defines are registered in the order of the bytes
of their names, and then the call filters. All of them are registered if there is nothing against any
one of them, and otherwise those before the first that is refused. -/
theorem applyTo_edited {start : Definitions} (h : start.Sorted) (edits : List Edit)
    (source : TokenSource) (preferences : FilterPreferences) :
    let d := edits.foldl Edit.after start
    let r := (d.applyTo (.ofSource source preferences)).value
    (∀ kind name value, (d.table kind).get? name = some value ↔
        LastGiven start edits kind name value) ∧
      (∀ d (edit : Edit) error, edit.perform d = .error error →
        edit.after d = d ∧ ∀ kind name value, ¬ edit.Gives kind name value) ∧
      (∀ kind name value, (kind, name, value) ∈ d.entries ↔
        (d.table kind).get? name = some value) ∧
      d.entries.Pairwise Precedes ∧
      (r.1 = .ok () ↔
        (∀ kind name value, (d.table kind).get? name = some value →
          TriggerName name ∧ ∃ tokens, (Lexer.tokenize value).value = .ok tokens) ∧
        (∀ name, ¬ (d.defines.contains name = true ∧ d.calls.contains name = true)) ∧
        d.size ≤ 10000) ∧
      (r.1 = .ok () → List.Forall₂ Stands d.entries r.2.filters) ∧
      ∀ error, r.1 = .error error → ∃ before entry after, d.entries = before ++ entry :: after ∧
        Acceptable before ∧ Refused before entry error ∧
        List.Forall₂ Stands before r.2.filters := by
  intro d r
  have hd : d.Sorted := h.edited edits
  refine ⟨fun _ _ _ => get?_table_edited start edits, fun _ _ _ => not_gives_of_perform,
    fun _ _ _ => hd.mem_entries_iff, hd.pairwise_entries, ?_⟩
  rw [← hd.acceptable_iff]
  have hfresh : List.Forall₂ Stands [] (ofSource source preferences).filters := .nil
  rcases registerFrom_stands acceptable_nil hfresh [] d.entries with
    ⟨hok, hall, hstands⟩ | ⟨before, entry, after, error, heq, herror, hbefore, hrefused, hstands⟩
  · refine ⟨iff_of_true hok hall, fun _ => hstands, fun error herror => ?_⟩
    cases hok.symm.trans herror
  · have hne : r.1 ≠ .ok () := fun hok => by cases hok.symm.trans herror
    refine ⟨iff_of_false hne (heq ▸ hrefused.not_acceptable after), (absurd · hne), ?_⟩
    intro error' herror'
    cases herror.symm.trans herror'
    exact ⟨before, entry, after, heq, hbefore, hrefused, hstands⟩

/-- The tables of a document are changed: a define gets a new value, and a text without a name fails.
In the end a call filter has the name of a define. -/
theorem applyTo_edited_clash :
    let start : Definitions := ⟨.ofList [("a", "x"), ("b", "1")], .empty⟩
    let other : Definitions := ⟨.ofList [("é", "z")], .ofList [("B", "")]⟩
    let edits := [.add .define " b = 2", .add .define "=3", .add .call "a=y",
      .merge other (sorted_ofList _ _)]
    let d := edits.foldl Edit.after start
    let r := (d.applyTo (.ofSource (.script (.ofItems [])) ⟨false, false⟩)).value
    ofText "[defines]\nb = '1'\na = 'x'\n" = .ok start ∧ start.Sorted ∧
      LastGiven start edits .define "b" "2" ∧ r.1 = .error (.duplicateFilter "a" .call .define) ∧
      ∃ before entry after, d.entries = before ++ entry :: after ∧
        Refused before entry (.duplicateFilter "a" .call .define) ∧
        List.Forall₂ Stands before r.2.filters ∧
        r.2.filters.map Filter.name = ["a", "b", "é", "B"] := by
  intro start other edits d r
  have hread : ofText "[defines]\nb = '1'\na = 'x'\n" = .ok start := by decide +kernel
  have hstart : start.Sorted := sorted_ofToml hread
  obtain ⟨hlast, -, -, -, -, -, herror⟩ :=
    applyTo_edited hstart edits (.script (.ofItems [])) ⟨false, false⟩
  have hr : r.1 = .error (.duplicateFilter "a" .call .define) := by decide +kernel
  obtain ⟨before, entry, after, heq, -, hrefused, hstands⟩ := herror _ hr
  exact ⟨hread, hstart, (hlast _ _ _).1 (by decide +kernel), hr, before, entry, after, heq, hrefused,
    hstands, by decide +kernel⟩

end Definitions
end SourceOutline
