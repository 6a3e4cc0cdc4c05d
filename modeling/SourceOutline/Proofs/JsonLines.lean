import SourceOutline.Dump
import SourceOutline.Proofs.SortedTables
import SourceOutline.Proofs.TokenText

/-! Listings of tokens and outlines as lines of JSON.
A compact text has no control characters, so it stays on its line whatever the source text holds.
Cutting a listing at its line feeds therefore gives the lines back, and each line gives back what it
tells about its token or its entry. -/
namespace SourceOutline

namespace Json

def Printable (cs : List Char) : Prop := ∀ c ∈ cs, 0x20 ≤ c.toNat

@[simp] theorem printable_append {cs ds : List Char} :
    Printable (cs ++ ds) ↔ Printable cs ∧ Printable ds := List.forall_mem_append

@[simp] theorem printable_cons {c : Char} {cs : List Char} :
    Printable (c :: cs) ↔ 0x20 ≤ c.toNat ∧ Printable cs := List.forall_mem_cons

@[simp] theorem printable_nil : Printable [] := fun _ h => by simp at h

theorem toNat_hexDigit (n : Nat) : 0x20 ≤ (hexDigit n).toNat := by
  have hall : ∀ m < 16, 0x20 ≤ (Nat.digitChar m).toNat := by decide
  exact hall (n % 16) (Nat.mod_lt n (by decide))

theorem printable_escape (c : Char) : Printable (escape c) := by
  unfold escape
  repeat' split
  all_goals simp [toNat_hexDigit]
  omega

theorem printable_digits (n : Nat) : Printable (digits n) := by
  intro c hc
  have hdigit := isDigit_of_mem_digits hc
  rw [Char.isDigit_iff_toNat, show '0'.toNat = 48 from rfl] at hdigit
  omega

theorem printable_quote (s : Option String) : Printable (quote s) := by
  cases s with
  | none =>
    change Printable "\"\\ud800\"".toList
    simp
  | some s =>
    have hchars : Printable (s.toList.flatMap escape) := by
      intro d hd
      obtain ⟨c, -, hd⟩ := List.mem_flatMap.1 hd
      exact printable_escape c d hd
    change Printable ('\x22' :: (s.toList.flatMap escape ++ ['\x22']))
    simp [hchars]

mutual

theorem printable_write : ∀ j : Json, Printable j.write
  | null => by simp [write]
  | bool true => by simp [write]
  | bool false => by simp [write]
  | number (some n) => printable_digits n
  | number none => by simp [write]
  | string s => printable_quote s
  | array items => by simp [write, printable_writeItems items]
  | object fields => by simp [write, printable_writeFields fields]

theorem printable_writeItems : ∀ items : List Json, Printable (writeItems items)
  | [] => by simp [writeItems]
  | [v] => by simp [writeItems, printable_write v]
  | v :: w :: vs => by simp [writeItems, printable_write v, printable_writeItems (w :: vs)]

theorem printable_writeFields : ∀ fields : List (Option String × Json),
    Printable (writeFields fields)
  | [] => by simp [writeFields]
  | [(k, v)] => by simp [writeFields, printable_quote k, printable_write v]
  | (k, v) :: f :: fs => by
    simp [writeFields, printable_quote k, printable_write v, printable_writeFields (f :: fs)]

end

theorem feed_not_mem_compact (j : Json) : '\n' ∉ j.compact.toList := by
  rw [compact, String.toList_ofList]
  intro h
  exact absurd (printable_write j _ h) (by decide)

end Json

namespace Text

/-- A byte below 128 stands for the character of that number and for no other. -/
theorem toNat_eq_of_mem_utf8EncodeChar {c : Char} {b : UInt8} (h : b ∈ String.utf8EncodeChar c)
    (hb : b.toNat < 128) : c.toNat = b.toNat := by
  have hc : c.val.toNat = c.toNat := rfl
  simp only [String.utf8EncodeChar] at h
  repeat' split at h
  all_goals
    simp only [List.mem_cons, List.not_mem_nil, or_false] at h
  · rw [h, UInt8.toNat_ofNat']
    omega
  · rcases h with rfl | rfl <;> rw [UInt8.toNat_ofNat'] at hb <;> omega
  · rcases h with rfl | rfl | rfl <;> rw [UInt8.toNat_ofNat'] at hb <;> omega
  · rcases h with rfl | rfl | rfl | rfl <;> rw [UInt8.toNat_ofNat'] at hb <;> omega

theorem feed_not_mem_bytes {text : String} (h : '\n' ∉ text.toList) : 10 ∉ bytes text := by
  rw [bytes_eq, List.mem_flatMap]
  rintro ⟨c, hc, hb⟩
  have hfeed : c = '\n' := Char.toNat_inj.1 (toNat_eq_of_mem_utf8EncodeChar hb (by decide))
  exact h (hfeed ▸ hc)

end Text

namespace Writer

theorem bytes_ended (line : String) :
    (ended line).toUTF8.data.toList = Text.bytes line ++ [10] := by
  change Text.bytes (line ++ "\n") = _
  rw [Text.bytes_eq, Text.bytes_eq, String.toList_append, List.flatMap_append]
  rfl

/-- Lines without line feeds of their own are told apart by those at their ends. -/
theorem splitOn_bytes {lines : List String} (h : ∀ line ∈ lines, '\n' ∉ line.toList) :
    (bytes lines).splitOn 10 = lines.map Text.bytes ++ [[]] := by
  induction lines with
  | nil => rfl
  | cons line lines ih =>
    obtain ⟨hline, hlines⟩ := List.forall_mem_cons.1 h
    rw [bytes_cons, bytes_ended, List.append_assoc, List.singleton_append,
      List.splitOn_append_cons_self_of_not_mem (Text.feed_not_mem_bytes hline), ih hlines]
    rfl

end Writer

namespace EntryKind

def all : List EntryKind :=
  [namespaceDef, classDef, structDef, unionDef, enumDef, typedef, typeAlias]

def ofName? (name : String) : Option EntryKind := all.find? (·.name = name)

@[simp] theorem ofName?_name (k : EntryKind) : ofName? k.name = some k := by
  cases k <;> decide

end EntryKind

def Entry.ofJson? (j : Json) : Option Entry :=
  match j.fields? ["kind", "name", "line"] with
  | some [some kind, some name, some line] => do
    return ⟨← kind.name?.bind EntryKind.ofName?, ← name.text?, ← line.natBelow? UInt32.size⟩
  | _ => none

theorem Entry.ofJson?_toJson {e : Entry} (h : e.line < UInt32.size) :
    ofJson? e.toJson = some e := by
  have hfields : e.toJson.fields? ["kind", "name", "line"] =
      some [some (.ofString e.kind.name), some (.ofString e.name), some (.ofNat e.line)] :=
    Json.fields?_record [("kind", .ofString e.kind.name), ("name", .ofString e.name),
      ("line", .ofNat e.line)] [] (by simp)
  simp only [ofJson?, hfields]
  rw [Json.natBelow?_ofNat h]
  simp [Json.name?, Json.text?, Json.ofString]

namespace Listing

structure TokenFields where
  kind : TokenKind
  image : String
  beginLine : Nat
  beginColumn : Nat
  endLine : Nat
  endColumn : Nat
  /-- `none` when the line has no such field. -/
  trivia : Option (List Trivia)
  deriving DecidableEq, Repr

namespace TokenFields

/-- Trivia is told where it is asked for and there is some. -/
def ofToken (trivia : Bool) (t : Token) : TokenFields :=
  ⟨t.kind, t.image, t.beginLine, t.beginColumn, t.endLine, t.endColumn,
    if trivia = true ∧ t.trivia ≠ [] then some t.trivia else none⟩

def triviaOfJson? : Option Json → Option (Option (List Trivia))
  | none => some none
  | some (.array items) => (items.mapM Trivia.ofJson?).map some
  | some _ => none

def ofJson? (j : Json) : Option TokenFields :=
  match j.fields? ["kind", "image", "line", "column", "end_line", "end_column", "trivia"] with
  | some [some kind, some image, some line, some column, some endLine, some endColumn, trivia] => do
    return ⟨← kind.name?.bind TokenKind.ofName?, ← image.text?, ← line.natBelow? UInt32.size,
      ← column.natBelow? UInt32.size, ← endLine.natBelow? UInt32.size,
      ← endColumn.natBelow? UInt32.size, ← triviaOfJson? trivia⟩
  | _ => none

theorem fields?_tokenRecord (trivia : Bool) (t : Token) :
    ∃ field, (tokenRecord trivia t).fields?
        ["kind", "image", "line", "column", "end_line", "end_column", "trivia"] =
      some [some (.ofString t.kind.name), some (.ofString t.image), some (.ofNat t.beginLine),
        some (.ofNat t.beginColumn), some (.ofNat t.endLine), some (.ofNat t.endColumn), field] ∧
      ((∀ v ∈ t.trivia, v.span.Fits) → triviaOfJson? field = some (ofToken trivia t).trivia) := by
  by_cases htold : trivia = true ∧ t.trivia ≠ []
  · refine ⟨some (.array (t.trivia.map Trivia.toJson)), ?_, fun hfits => ?_⟩
    · have hrecord : tokenRecord trivia t = .record
          [("kind", .ofString t.kind.name), ("image", .ofString t.image),
           ("line", .ofNat t.beginLine), ("column", .ofNat t.beginColumn),
           ("end_line", .ofNat t.endLine), ("end_column", .ofNat t.endColumn),
           ("trivia", .array (t.trivia.map Trivia.toJson))] := by
        simp [tokenRecord, htold]
      rw [hrecord]
      exact Json.fields?_record _ [] (by simp)
    · simp only [triviaOfJson?, Token.mapM_ofJson?_toJson hfits, Option.map_some, ofToken,
        if_pos htold]
  · refine ⟨none, ?_, fun _ => by simp only [triviaOfJson?, ofToken, if_neg htold]⟩
    have hrecord : tokenRecord trivia t = .record
        [("kind", .ofString t.kind.name), ("image", .ofString t.image),
         ("line", .ofNat t.beginLine), ("column", .ofNat t.beginColumn),
         ("end_line", .ofNat t.endLine), ("end_column", .ofNat t.endColumn)] := by
      have hleft : (trivia && !t.trivia.isEmpty) = false := by
        simpa [Bool.and_eq_false_iff] using htold
      simp [tokenRecord, hleft]
    rw [hrecord]
    exact Json.fields?_record _ ["trivia"] (by simp)

theorem endColumn_lt {t : Token} (h : t.span.Fits) : t.endColumn < UInt32.size := by
  have hcolumn : t.span.stop.column < UInt32.size := h.2.2.2
  unfold Token.endColumn
  split
  · exact hcolumn
  · exact Nat.max_lt.2 ⟨Nat.lt_of_le_of_lt (Nat.sub_le _ _) hcolumn, by decide⟩

theorem ofJson?_tokenRecord (trivia : Bool) {t : Token} (h : t.Fits) :
    ofJson? (tokenRecord trivia t) = some (ofToken trivia t) := by
  obtain ⟨field, hfields, htrivia⟩ := fields?_tokenRecord trivia t
  have hline : t.beginLine < UInt32.size := h.1.1.2.1
  have hcolumn : t.beginColumn < UInt32.size := h.1.1.2.2
  have hendLine : t.endLine < UInt32.size := h.1.2.2.1
  simp only [ofJson?, hfields]
  rw [Json.natBelow?_ofNat hline, Json.natBelow?_ofNat hcolumn, Json.natBelow?_ofNat hendLine,
    Json.natBelow?_ofNat (endColumn_lt h.1), htrivia h.2]
  simp [Json.name?, Json.text?, Json.ofString, ofToken]

end TokenFields

open Writer

/-- The bytes are lines, one for each value in order. A line holds no line feed and, read as JSON,
spells its value. -/
def Spells {α : Type} (decode : Json → Option α) (values : List α) (out : List UInt8) : Prop :=
  ∃ lines : List String, out.splitOn 10 = lines.map Text.bytes ++ [[]] ∧
    (∀ line ∈ lines, '\n' ∉ line.toList) ∧
    lines.map (fun line => (Json.parse? line).bind decode) = values.map some

theorem spells_compact {α : Type} {decode : Json → Option α} {records : List Json}
    {values : List α} (h : records.map decode = values.map some) :
    Spells decode values (bytes (records.map Json.compact)) := by
  have hfeed : ∀ line ∈ records.map Json.compact, '\n' ∉ line.toList := by
    intro line hline
    obtain ⟨j, -, rfl⟩ := List.mem_map.1 hline
    exact j.feed_not_mem_compact
  refine ⟨records.map Json.compact, splitOn_bytes hfeed, hfeed, ?_⟩
  simpa [Function.comp_def, Json.parse?_compact] using h

theorem ofTokens_json (trivia : Bool) (tokens : List Token) :
    ofTokens .json trivia tokens = (tokens.map (tokenRecord trivia)).map Json.compact := by
  rw [List.map_map, List.map_eq_flatMap]
  rfl

theorem ofEntries_json (entries : List Entry) :
    ofEntries .json entries = (entries.map Entry.toJson).map Json.compact := by
  simp [ofEntries, entryLine]

theorem exists_writeLines {σ : Type} [Writer σ] {s : σ} (hs : Steady s) (lines : List String) :
    ∃ s', writeLines s lines = (.ok (), s') ∧ received s' = received s ++ bytes lines := by
  have hok : writeLines s lines = (.ok (), (writeLines s lines).2) := Prod.ext (hs lines) rfl
  exact ⟨_, hok, received_writeLines_ok hok⟩

/-- A writer that never fails receives one line for each token, from which its kind, image, places
and, where trivia is asked for and there is some, its trivia are read back; and one line for each
entry of an outline, from which the entry is read back. -/
theorem json_lines_spell {σ : Type} [Writer σ] {s : σ} (hs : Steady s) :
    (∀ (trivia : Bool) (tokens : List Token), (∀ t ∈ tokens, t.Fits) →
      ∃ out s', writeLines s (ofTokens .json trivia tokens) = (.ok (), s') ∧
        received s' = received s ++ out ∧
        Spells TokenFields.ofJson? (tokens.map (TokenFields.ofToken trivia)) out) ∧
    ∀ entries : List Entry, (∀ e ∈ entries, e.line < UInt32.size) →
      ∃ out s', writeLines s (ofEntries .json entries) = (.ok (), s') ∧
        received s' = received s ++ out ∧ Spells Entry.ofJson? entries out := by
  constructor
  · intro trivia tokens hfits
    have hread : (tokens.map (tokenRecord trivia)).map TokenFields.ofJson? =
        (tokens.map (TokenFields.ofToken trivia)).map some := by
      rw [List.map_map, List.map_map]
      exact List.map_congr_left fun t ht => TokenFields.ofJson?_tokenRecord trivia (hfits t ht)
    obtain ⟨s', hwrite, hreceived⟩ := exists_writeLines hs (ofTokens .json trivia tokens)
    rw [ofTokens_json] at hreceived
    exact ⟨_, s', hwrite, hreceived, spells_compact hread⟩
  · intro entries hfits
    have hread : (entries.map Entry.toJson).map Entry.ofJson? = entries.map some := by
      rw [List.map_map]
      exact List.map_congr_left fun e he => Entry.ofJson?_toJson (hfits e he)
    obtain ⟨s', hwrite, hreceived⟩ := exists_writeLines hs (ofEntries .json entries)
    rw [ofEntries_json] at hreceived
    exact ⟨_, s', hwrite, hreceived, spells_compact hread⟩

/-- Line feeds stand in a raw literal and in the comment before it. -/
theorem json_lines_spell_raw :
    let v : Trivia := ⟨.blockComment, "/*\r\n\x01*/", ⟨⟨0, 1, 1⟩, ⟨7, 2, 4⟩⟩⟩
    let t : Token := ⟨.string, "R\"(\"\\\n\t)\"", ⟨⟨7, 2, 4⟩, ⟨16, 3, 7⟩⟩, [v]⟩
    let u : Token := .endMark (.point ⟨16, 3, 7⟩)
    let e : Entry := ⟨.typeAlias, "A::(anonymous)::T", 4⟩
    let shown (trivia : Option (List Trivia)) : List TokenFields :=
      [⟨.string, "R\"(\"\\\n\t)\"", 2, 4, 3, 6, trivia⟩, ⟨.eof, "", 3, 7, 3, 7, none⟩]
    Steady Sink.unbounded ∧ t.Fits ∧ u.Fits ∧ e.line < UInt32.size ∧
      (∃ out s', writeLines Sink.unbounded (ofTokens .json true [t, u]) = (.ok (), s') ∧
        received s' = received Sink.unbounded ++ out ∧
        Spells TokenFields.ofJson? (shown (some [v])) out) ∧
      (∃ out s', writeLines Sink.unbounded (ofTokens .json false [t, u]) = (.ok (), s') ∧
        received s' = received Sink.unbounded ++ out ∧
        Spells TokenFields.ofJson? (shown none) out) ∧
      ∃ out s', writeLines Sink.unbounded (ofEntries .json [e, e]) = (.ok (), s') ∧
        received s' = received Sink.unbounded ++ out ∧ Spells Entry.ofJson? [e, e] out := by
  intro v t u e shown
  obtain ⟨htokens, hentries⟩ := json_lines_spell Sink.steady_unbounded
  have ht : t.Fits := by decide
  have hu : u.Fits := by decide
  have he : e.line < UInt32.size := by decide
  have hfits : ∀ r ∈ [t, u], r.Fits := by simp [ht, hu]
  exact ⟨Sink.steady_unbounded, ht, hu, he, htokens true [t, u] hfits, htokens false [t, u] hfits,
    hentries [e, e] (by simp [he])⟩

end Listing
end SourceOutline
