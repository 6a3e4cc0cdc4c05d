import SourceOutline.Token.Record
import SourceOutline.Proofs.JsonText

/-! The JSON texts of tokens.
A token whose places fit their widths is read back from its own text, and only such tokens are ever
read. So the texts of tokens tell them apart. -/
namespace SourceOutline

namespace Json

variable {fields : List (String × Json)} {name : String} {v : Json}

theorem countField_map (name : String) (fields : List (String × Json)) :
    countField name (fields.map fun f => (some f.1, f.2)) = (fields.map (·.1)).count name := by
  simp only [countField, List.count, List.countP_map]
  rfl

theorem findField_of_not_mem (h : name ∉ fields.map (·.1)) :
    findField name (fields.map fun f => (some f.1, f.2)) = none := by
  simp only [findField, Option.map_eq_none_iff, List.find?_eq_none, List.mem_map]
  rintro _ ⟨f, hf, rfl⟩ hname
  exact h (List.mem_map.2 ⟨f, hf, by simpa using hname⟩)

theorem findField_of_mem (hnodup : (fields.map (·.1)).Nodup) (h : (name, v) ∈ fields) :
    findField name (fields.map fun f => (some f.1, f.2)) = some v := by
  induction fields with
  | nil => exact nomatch h
  | cons f fs ih =>
    obtain ⟨hfresh, hrest⟩ := List.nodup_cons.1 hnodup
    obtain rfl | h := List.mem_cons.1 h
    · simp [findField]
    · have hne : f.1 ≠ name := fun hname => hfresh (List.mem_map.2 ⟨_, h, hname.symm⟩)
      simpa [findField, hne] using ih hrest h

theorem fields?_record (fields : List (String × Json)) (others : List String)
    (h : (fields.map (·.1) ++ others).Nodup) :
    (record fields).fields? (fields.map (·.1) ++ others) =
      some (fields.map (fun f => some f.2) ++ others.map fun _ => none) := by
  obtain ⟨hown, -, hapart⟩ := List.nodup_append.1 h
  have hcount : ∀ name, countField name (fields.map fun f => (some f.1, f.2)) ≤ 1 := by
    intro name
    rw [countField_map]
    exact List.nodup_iff_count.1 hown name
  have hfound : (fields.map (·.1)).map (findField · (fields.map fun f => (some f.1, f.2))) =
      fields.map fun f => some f.2 := by
    rw [List.map_map]
    exact List.map_congr_left fun f hf => findField_of_mem hown hf
  have hlost : others.map (findField · (fields.map fun f => (some f.1, f.2))) =
      others.map fun _ => none :=
    List.map_congr_left fun name hname => findField_of_not_mem fun hmem => hapart _ hmem _ hname rfl
  simp only [record, fields?, List.map_append, hfound, hlost]
  rw [if_pos]
  simp [hcount]

theorem natBelow?_ofNat {bound n : Nat} (h : n < bound) :
    (ofNat n).natBelow? bound = some n := if_pos h

theorem lt_of_natBelow? {bound n : Nat} {j : Json} (h : j.natBelow? bound = some n) :
    n < bound := by
  unfold natBelow? at h
  split at h
  · split at h
    · next hlt => exact Option.some.inj h ▸ hlt
    · exact nomatch h
  · exact nomatch h

end Json

def Position.Fits (p : Position) : Prop :=
  p.offset < UInt64.size ∧ p.line < UInt32.size ∧ p.column < UInt32.size

def Span.Fits (s : Span) : Prop := s.start.Fits ∧ s.stop.Fits

def Token.Fits (t : Token) : Prop := t.span.Fits ∧ ∀ v ∈ t.trivia, v.span.Fits

instance (p : Position) : Decidable p.Fits := inferInstanceAs (Decidable (_ ∧ _ ∧ _))

instance (s : Span) : Decidable s.Fits := inferInstanceAs (Decidable (_ ∧ _))

instance (t : Token) : Decidable t.Fits := inferInstanceAs (Decidable (_ ∧ _))

theorem Position.ofJson?_toJson {p : Position} (h : p.Fits) : ofJson? p.toJson = some p := by
  have hfields : p.toJson.fields? ["offset", "line", "column"] =
      some [some (.ofNat p.offset), some (.ofNat p.line), some (.ofNat p.column)] :=
    Json.fields?_record [("offset", .ofNat p.offset), ("line", .ofNat p.line),
      ("column", .ofNat p.column)] [] (by simp)
  have hoffset : p.offset < 1 <<< 64 := h.1
  have hline : p.line < 1 <<< 32 := h.2.1
  have hcolumn : p.column < 1 <<< 32 := h.2.2
  simp only [ofJson?, hfields]
  rw [Json.natBelow?_ofNat hoffset, Json.natBelow?_ofNat hline, Json.natBelow?_ofNat hcolumn]
  rfl

theorem Position.fits_of_ofJson? {j : Json} {p : Position} (h : ofJson? j = some p) : p.Fits := by
  unfold ofJson? at h
  split at h
  · simp only [Option.pure_def, Option.bind_eq_bind, Option.bind_eq_some_iff] at h
    obtain ⟨offset, hoffset, line, hline, column, hcolumn, hp⟩ := h
    cases hp
    exact ⟨Json.lt_of_natBelow? hoffset, Json.lt_of_natBelow? hline, Json.lt_of_natBelow? hcolumn⟩
  · exact nomatch h

theorem Span.ofJson?_toJson {s : Span} (h : s.Fits) : ofJson? s.toJson = some s := by
  have hfields : s.toJson.fields? ["start", "end"] =
      some [some s.start.toJson, some s.stop.toJson] :=
    Json.fields?_record [("start", s.start.toJson), ("end", s.stop.toJson)] [] (by simp)
  simp only [ofJson?, hfields]
  rw [Position.ofJson?_toJson h.1, Position.ofJson?_toJson h.2]
  rfl

theorem Span.fits_of_ofJson? {j : Json} {s : Span} (h : ofJson? j = some s) : s.Fits := by
  unfold ofJson? at h
  split at h
  · simp only [Option.pure_def, Option.bind_eq_bind, Option.bind_eq_some_iff] at h
    obtain ⟨start, hstart, stop, hstop, hs⟩ := h
    cases hs
    exact ⟨Position.fits_of_ofJson? hstart, Position.fits_of_ofJson? hstop⟩
  · exact nomatch h

theorem Trivia.ofJson?_toJson {v : Trivia} (h : v.span.Fits) : ofJson? v.toJson = some v := by
  have hfields : v.toJson.fields? ["kind", "image", "span"] =
      some [some (.ofString v.kind.name), some (.ofString v.image), some v.span.toJson] :=
    Json.fields?_record [("kind", .ofString v.kind.name), ("image", .ofString v.image),
      ("span", v.span.toJson)] [] (by simp)
  simp only [ofJson?, hfields]
  rw [Span.ofJson?_toJson h]
  simp [Json.name?, Json.text?, Json.ofString]

theorem Trivia.fits_of_ofJson? {j : Json} {v : Trivia} (h : ofJson? j = some v) : v.span.Fits := by
  unfold ofJson? at h
  split at h
  · simp only [Option.pure_def, Option.bind_eq_bind, Option.bind_eq_some_iff] at h
    obtain ⟨kind, -, image, -, span, hspan, hv⟩ := h
    cases hv
    exact Span.fits_of_ofJson? hspan
  · exact nomatch h

namespace Token

variable {t : Token} {j : Json} {vs : List Trivia}

theorem mapM_ofJson?_toJson (h : ∀ v ∈ vs, v.span.Fits) :
    (vs.map Trivia.toJson).mapM Trivia.ofJson? = some vs := by
  induction vs with
  | nil => rfl
  | cons v vs ih =>
    obtain ⟨hv, hvs⟩ := List.forall_mem_cons.1 h
    rw [List.map_cons, List.mapM_cons, Trivia.ofJson?_toJson hv, ih hvs]
    rfl

theorem fits_of_mapM_ofJson? {items : List Json} (h : items.mapM Trivia.ofJson? = some vs) :
    ∀ v ∈ vs, v.span.Fits := by
  induction items generalizing vs with
  | nil => cases h; exact fun _ hv => nomatch hv
  | cons item items ih =>
    simp only [List.mapM_cons, Option.pure_def, Option.bind_eq_bind, Option.bind_eq_some_iff] at h
    obtain ⟨v, hv, rest, hrest, h⟩ := h
    cases h
    exact List.forall_mem_cons.2 ⟨Trivia.fits_of_ofJson? hv, ih hrest⟩

/-- The fields of a token, where a missing trivia field stands for no trivia. -/
theorem fields?_toJson (t : Token) :
    ∃ trivia, t.toJson.fields? ["kind", "image", "span", "trivia"] =
      some [some (.ofString t.kind.name), some (.ofString t.image), some t.span.toJson, trivia] ∧
      ((∀ v ∈ t.trivia, v.span.Fits) → triviaOfJson? trivia = some t.trivia) := by
  cases htrivia : t.trivia with
  | nil =>
    refine ⟨none, ?_, fun _ => rfl⟩
    have hjson : t.toJson = .record [("kind", .ofString t.kind.name), ("image", .ofString t.image),
        ("span", t.span.toJson)] := by simp [toJson, htrivia]
    rw [hjson]
    exact Json.fields?_record _ ["trivia"] (by simp)
  | cons v vs =>
    refine ⟨some (.array ((v :: vs).map Trivia.toJson)), ?_, mapM_ofJson?_toJson⟩
    have hjson : t.toJson = .record [("kind", .ofString t.kind.name), ("image", .ofString t.image),
        ("span", t.span.toJson), ("trivia", .array ((v :: vs).map Trivia.toJson))] := by
      simp [toJson, htrivia]
    rw [hjson]
    exact Json.fields?_record _ [] (by simp)

theorem ofJson?_toJson (h : t.Fits) : ofJson? t.toJson = some t := by
  obtain ⟨trivia, hfields, htrivia⟩ := fields?_toJson t
  simp only [ofJson?, hfields]
  rw [Span.ofJson?_toJson h.1, htrivia h.2]
  simp [Json.name?, Json.text?, Json.ofString]

theorem fits_of_ofJson? (h : ofJson? j = some t) : t.Fits := by
  unfold ofJson? at h
  split at h
  · simp only [Option.pure_def, Option.bind_eq_bind, Option.bind_eq_some_iff] at h
    obtain ⟨kind, -, image, -, span, hspan, trivia, htrivia, ht⟩ := h
    cases ht
    refine ⟨Span.fits_of_ofJson? hspan, ?_⟩
    unfold triviaOfJson? at htrivia
    split at htrivia
    · cases htrivia; exact fun _ hv => nomatch hv
    · exact fits_of_mapM_ofJson? htrivia
    · exact nomatch htrivia
  · exact nomatch h

/-- A token whose places fit is read back from its compact text. Whatever text a token was read
from, its places fit, so it is read back from its own text too. Hence different tokens have
different texts. -/
theorem text_read_back :
    (∀ t : Token, t.Fits → (Json.parse? t.toJson.compact).bind ofJson? = some t) ∧
    (∀ (text : String) (t : Token), (Json.parse? text).bind ofJson? = some t →
      t.Fits ∧ (Json.parse? t.toJson.compact).bind ofJson? = some t) ∧
    ∀ t u : Token, t.Fits → u.Fits → t ≠ u → t.toJson.compact ≠ u.toJson.compact := by
  have hback : ∀ t : Token, t.Fits → (Json.parse? t.toJson.compact).bind ofJson? = some t := by
    intro t h
    rw [Json.parse?_compact, Option.bind_some]
    exact ofJson?_toJson h
  refine ⟨hback, fun text t h => ?_, fun t u ht hu hne htext => hne ?_⟩
  · obtain ⟨j, -, hj⟩ := Option.bind_eq_some_iff.1 h
    exact ⟨fits_of_ofJson? hj, hback t (fits_of_ofJson? hj)⟩
  · have hsame := hback u hu
    rw [← htext, hback t ht] at hsame
    exact Option.some.inj hsame

theorem text_read_back_escaped :
    ∃ t u : Token,
      t.image = "\"\\\x01\né😀\"" ∧ t.trivia.map (·.image) = ["/*\t\x1f*/"] ∧ t.Fits ∧
      (Json.parse? t.toJson.compact).bind ofJson? = some t ∧
      (Json.parse?
        "\x7b \"span\":[[7,1,8],[8,1,9]],\"image\":\"\\u0041\",\"kind\":\"Identifier\"\x7d").bind
        ofJson? = some u ∧
      u.Fits ∧ (Json.parse? u.toJson.compact).bind ofJson? = some u ∧
      t ≠ u ∧ t.toJson.compact ≠ u.toJson.compact := by
  let t : Token := ⟨.string, "\"\\\x01\né😀\"", ⟨⟨UInt64.size - 1, UInt32.size - 1, 1⟩, ⟨0, 0, 0⟩⟩,
    [⟨.blockComment, "/*\t\x1f*/", ⟨⟨0, 1, 1⟩, ⟨6, 1, 9⟩⟩⟩]⟩
  let u : Token := ⟨.identifier, "A", ⟨⟨7, 1, 8⟩, ⟨8, 1, 9⟩⟩, []⟩
  obtain ⟨hback, hread, hapart⟩ := text_read_back
  have ht : t.Fits := by decide
  have hu : (Json.parse?
      "\x7b \"span\":[[7,1,8],[8,1,9]],\"image\":\"\\u0041\",\"kind\":\"Identifier\"\x7d").bind
      ofJson? = some u := by decide +kernel
  have hne : t ≠ u := by decide
  obtain ⟨hfits, hagain⟩ := hread _ u hu
  exact ⟨t, u, rfl, rfl, ht, hback t ht, hu, hfits, hagain, hne, hapart t u ht hfits hne⟩

end Token
end SourceOutline
