import Mathlib.Data.List.Find
import SourceOutline.Proofs.Returns

/-! Tokens of texts whose lines end in a carriage return and a newline.
They are the tokens of the text with plain newlines, with one exception. In a literal with a backslash
at the end of a line the backslash takes the carriage return along, and the newline behind it ends the
literal. -/
namespace SourceOutline
namespace Lexeme
open Text Scan
variable {cs : List Char}

/-- Whether the text of a token goes over a line end without being a raw literal. Only a backslash in
front of the line end can bring that about. -/
def isJoined (image : List Char) : Bool :=
  image.contains '\n' && !rawMarks.contains (image.takeWhile (· != '\x22'))

theorem isJoined_of_not_mem {image : List Char} (h : '\n' ∉ image) : isJoined image = false := by
  simp [isJoined, h]

inductive Reread (s s' : Scan TokenKind) : Prop
  | alike (h : Alike s s') (hs : ∀ k, s.outcome = .ok k → isJoined s.taken = false)
  | joined {k : TokenKind} (h : s.outcome = .ok k) (hs : isJoined s.taken = true)
      (h' : s'.outcome = .error .unterminatedLiteral)

theorem Reread.of_eq {s s' : Scan TokenKind} (hn : '\n' ∉ s.taken)
    (h : s'.outcome = s.outcome) (taken : s'.taken = s.taken) (rest : s'.rest = withReturns s.rest) :
    Reread s s' :=
  .alike (.of_eq h (by rw [taken, withReturns_eq_self hn]) rest) fun _ _ => isJoined_of_not_mem hn

section Number

theorem numberUnit_withReturns {c : Char} (hc : c ≠ '\n') (ds : List Char) :
    numberUnit (withReturns (c :: ds)) = numberUnit (c :: ds) := by
  rw [withReturns_cons hc]
  simp only [numberUnit, any_head_withReturns isSign_blank, any_head_withReturns isAlphanum_blank]

theorem newline_of_unblank {u : List Char} (h : ∀ c ∈ u, isBlankChar c = false) : '\n' ∉ u :=
  fun hm => absurd (h '\n' hm) (by decide)

theorem number_withReturns {c : Char} (hc : c ≠ '\n') (h : '\r' ∉ cs) :
    Reread (number c cs) (number c (withReturns cs)) := by
  have hplain := newline_of_unblank (isBlankChar_of_number
    (units_of_spanUnits (t := (spanUnits numberUnit cs).1) rfl (.inl numberUnit_le)))
  have hbody : spanUnits numberUnit (withReturns cs) =
      (withReturns (spanUnits numberUnit cs).1, withReturns (spanUnits numberUnit cs).2) := by
    refine spanUnits_withReturns ?_ ?_ h
    · intro ds _ hu
      cases ds with
      | nil => rfl
      | cons d ds =>
        by_cases hd : d = '\n'
        · subst hd
          rfl
        · rw [numberUnit_withReturns hd, hu]
    · intro d ds n _ hu
      have hd : d ≠ '\n' := by
        rintro rfl
        cases hu
      have htake : withReturns ((d :: ds).take (n + 1)) = (d :: ds).take (n + 1) := by
        refine withReturns_eq_self (newline_of_unblank
          (isBlankChar_of_numberUnit (r := (d :: ds).drop (n + 1)) ?_))
        rw [List.take_append_drop, hu, List.length_take_of_le]
        rw [← hu]
        exact numberUnit_le _
      refine .single (by simp) ?_
      rw [← withReturns_append, List.take_append_drop, numberUnit_withReturns hd, hu, htake,
        List.length_take_of_le]
      rw [← hu]
      exact numberUnit_le _
  rw [withReturns_eq_self hplain] at hbody
  refine .of_eq (by simp [number, hc.symm, hplain]) ?_ ?_ ?_
  · simp [number, hbody]
  · simp [number, hbody]
  · simp [number, hbody]

end Number

section Literal

theorem suffix_withReturns (cs : List Char) :
    suffix (withReturns cs) = ((suffix cs).1, withReturns (suffix cs).2) := by
  obtain ⟨htake, hdrop⟩ := takeWhile_withReturns (q := isIdentifierPart) (by decide) (by decide) cs
  unfold suffix
  rw [any_head_withReturns isIdentifierStart_blank]
  split
  · rw [htake, hdrop]
  · rfl

section Quoted
variable {quote : Char}

theorem spanUnits_quoted_cons {c : Char} (hn : c ≠ '\n') (hs : c ≠ '\\') (hq : c ≠ quote)
    (ds : List Char) :
    spanUnits (quotedUnit quote) (c :: ds) =
      (c :: (spanUnits (quotedUnit quote) ds).1, (spanUnits (quotedUnit quote) ds).2) := by
  have hu : quotedUnit quote (c :: ds) = 0 + 1 := by simp [quotedUnit, hn, hs, hq]
  rw [spanUnits_of_unit (by simp) hu]
  rfl

theorem spanUnits_quoted_escape (d : Char) (ds : List Char) :
    spanUnits (quotedUnit quote) ('\\' :: d :: ds) =
      ('\\' :: d :: (spanUnits (quotedUnit quote) ds).1,
        (spanUnits (quotedUnit quote) ds).2) := by
  have hu : quotedUnit quote ('\\' :: d :: ds) = 1 + 1 := by simp [quotedUnit]
  rw [spanUnits_of_unit (by simp) hu]
  rfl

theorem spanUnits_quoted_newline (ds : List Char) :
    spanUnits (quotedUnit quote) ('\n' :: ds) = ([], '\n' :: ds) :=
  spanUnits_of_unit_eq_zero rfl

/-- Of two splits at the end of a literal, both find the closing quote behind a body without line
ends, or the second does not find it. -/
def Kept (quote : Char) (s s' : List Char × List Char) : Prop :=
  (∃ b r, '\n' ∉ b ∧ s = (b, quote :: r) ∧ s' = (b, quote :: withReturns r)) ∨
    (s'.2.head? ≠ some quote ∧ ('\n' ∈ s.1 ∨ s.2.head? ≠ some quote))

theorem Kept.append {s s' : List Char × List Char} (h : Kept quote s s') {u : List Char}
    (hu : '\n' ∉ u) : Kept quote (u ++ s.1, s.2) (u ++ s'.1, s'.2) := by
  rcases h with ⟨b, r, hb, rfl, rfl⟩ | ⟨hlost, hs⟩
  · exact .inl ⟨u ++ b, r, by simp [hu, hb], rfl, rfl⟩
  · exact .inr ⟨hlost, hs.imp_left (List.mem_append_right u)⟩

theorem kept_quoted (hq : isQuote quote = true) (cs : List Char) (h : '\r' ∉ cs) :
    Kept quote (spanUnits (quotedUnit quote) cs)
      (spanUnits (quotedUnit quote) (withReturns cs)) := by
  have hne : ∀ c, isQuote c = false → c ≠ quote := by
    rintro c hc rfl
    rw [hq] at hc
    cases hc
  obtain ⟨n, hlen⟩ : ∃ n, n = cs.length := ⟨_, rfl⟩
  induction n using Nat.strongRecOn generalizing cs with
  | ind n ih =>
  match cs with
  | [] => exact .inr (by simp)
  | c :: ds =>
    have hds : '\r' ∉ ds := List.not_mem_of_not_mem_cons h
    by_cases hn : c = '\n'
    · subst hn
      right
      rw [withReturns_newline, spanUnits_quoted_cons (by decide) (by decide) (hne '\r' rfl),
        spanUnits_quoted_newline, spanUnits_quoted_newline]
      simp [hne '\n' rfl]
    rw [withReturns_cons hn]
    by_cases hs : c = '\\'
    · subst hs
      match ds with
      | [] => exact .inr (by simp [spanUnits, spanUnitsFrom, quotedUnit])
      | d :: ds =>
        by_cases hd : d = '\n'
        · -- the backslash takes the carriage return, and the line ends behind it
          subst hd
          right
          rw [spanUnits_quoted_escape, withReturns_newline, spanUnits_quoted_escape,
            spanUnits_quoted_newline]
          simp [hne '\n' rfl]
        · rw [spanUnits_quoted_escape, withReturns_cons hd, spanUnits_quoted_escape]
          have hu : '\n' ∉ ['\\', d] := by simpa using Ne.symm hd
          have hlt : ds.length < n := by
            rw [hlen, List.length_cons, List.length_cons]
            omega
          exact (ih _ hlt ds (List.not_mem_of_not_mem_cons hds) rfl).append hu
    by_cases hc : c = quote
    · subst hc
      have hstop : ∀ es, spanUnits (quotedUnit c) (c :: es) = ([], c :: es) := by
        intro es
        exact spanUnits_of_unit_eq_zero (by simp [quotedUnit, hs])
      exact .inl ⟨[], ds, by simp, hstop ds, hstop (withReturns ds)⟩
    · rw [spanUnits_quoted_cons hn hs hc, spanUnits_quoted_cons hn hs hc]
      have hu : '\n' ∉ [c] := by simpa using Ne.symm hn
      have hlt : ds.length < n := by simp [hlen]
      exact (ih _ hlt ds hds rfl).append hu

theorem quotedMarks_plain : ∀ w ∈ quotedMarks, '\n' ∉ w ∧ '\x22' ∉ w ∧ w ∉ rawMarks := by decide

theorem rawMarks_plain : ∀ w ∈ rawMarks, '\n' ∉ w ∧ '\x22' ∉ w ∧ '\x27' ∉ w := by decide

theorem takeWhile_mark {w : List Char} (hw : '\x22' ∉ w) (ds : List Char) :
    (w ++ '\x22' :: ds).takeWhile (· != '\x22') = w := by
  refine (takeWhile_append_stop ?_ rfl).1
  intro c hc
  exact bne_iff_ne.2 fun he => hw (he ▸ hc)

/-- A literal that is not raw does not look like a raw one. -/
theorem takeWhile_quoted {w : List Char} (hw : w ∈ [] :: quotedMarks) (hq : isQuote quote = true)
    (ds : List Char) : (w ++ quote :: ds).takeWhile (· != '\x22') ∉ rawMarks := by
  have hplain : '\x22' ∉ w ∧ w ∉ rawMarks := by
    rcases List.mem_cons.1 hw with rfl | hw
    · decide
    · exact (quotedMarks_plain w hw).2
  rcases Bool.or_eq_true_iff.1 hq with hq | hq
  · obtain rfl := of_decide_eq_true hq
    rw [takeWhile_mark hplain.1]
    exact hplain.2
  · obtain rfl := of_decide_eq_true hq
    intro hm
    refine (rawMarks_plain _ hm).2.2 ?_
    rw [List.takeWhile_append_of_pos]
    · simp
    · intro c hc
      exact bne_iff_ne.2 fun he => hplain.1 (he ▸ hc)

theorem quoted_withReturns {w : List Char} (hw : w ∈ [] :: quotedMarks)
    (hq : isQuote quote = true) (h : '\r' ∉ cs) :
    Reread (quoted (w ++ [quote]) quote cs) (quoted (w ++ [quote]) quote (withReturns cs)) := by
  have hopening : '\n' ∉ w ++ [quote] := by
    have hwn : '\n' ∉ w := by
      rcases List.mem_cons.1 hw with rfl | hw
      · simp
      · exact (quotedMarks_plain w hw).1
    have hqn : '\n' ≠ quote := by
      rintro rfl
      cases hq
    simp [hwn, hqn]
  have hfault : ∀ ds, (spanUnits (quotedUnit quote) ds).2.head? ≠ some quote →
      (quoted (w ++ [quote]) quote ds).outcome = .error .unterminatedLiteral := by
    intro ds hds
    unfold quoted
    dsimp only
    split
    · rfl
    · next c r hr =>
      rw [hr] at hds
      rw [if_neg (by simpa using hds)]
  rcases kept_quoted hq cs h with ⟨b, r, hb, hs, hs'⟩ | ⟨hlost, hs⟩
  · obtain ⟨t, r', hsuffix⟩ : ∃ t r', suffix r = (t, r') := ⟨_, _, rfl⟩
    have hsuffix' := suffix_withReturns r
    have ht := newline_of_unblank (isBlankChar_of_suffix r)
    rw [hsuffix] at hsuffix' ht
    have hread := quoted_of_spanUnits (w ++ [quote]) hs hsuffix
    have hread' := quoted_of_spanUnits (w ++ [quote]) hs' hsuffix'
    have hplain : '\n' ∉ w ++ [quote] ++ (b ++ quote :: t) := by
      simp_all
    rw [hread, hread']
    exact .of_eq hplain rfl rfl rfl
  · by_cases hend : (spanUnits (quotedUnit quote) cs).2.head? = some quote
    · obtain ⟨b, r, hspan⟩ : ∃ b r, spanUnits (quotedUnit quote) cs = (b, quote :: r) :=
        ⟨_, _, Prod.ext rfl (List.head?_eq_some_iff.1 hend).choose_spec⟩
      rw [hspan] at hs
      have hb : '\n' ∈ b := hs.resolve_right (by simp)
      obtain ⟨t, r', hsuffix⟩ : ∃ t r', suffix r = (t, r') := ⟨_, _, rfl⟩
      have hread := quoted_of_spanUnits (w ++ [quote]) hspan hsuffix
      refine .joined (k := literalKind quote) (by rw [hread]) ?_ (hfault _ hlost)
      rw [hread, List.append_assoc, List.singleton_append]
      have hraw := takeWhile_quoted hw hq (b ++ quote :: t)
      simp [isJoined, hb, hraw]
    · exact .alike (.fault (hfault _ hend) (hfault _ hlost)) (by simp [hfault _ hend])

end Quoted

section Raw

theorem delimiter_withReturns (used : Nat) (cs : List Char) :
    delimiter used (withReturns cs) = ((delimiter used cs).1, withReturns (delimiter used cs).2) ∧
      '\n' ∉ (delimiter used cs).1 ∧ '\r' ∉ (delimiter used cs).1 := by
  induction cs generalizing used with
  | nil => exact ⟨rfl, by simp [delimiter], by simp [delimiter]⟩
  | cons c cs ih =>
    by_cases hc : c = '\n'
    · subst hc
      have hn : isDelimiterChar '\n' = false := by decide
      have hr : isDelimiterChar '\r' = false := by decide
      simp [delimiter, hn, hr]
    · rw [withReturns_cons hc, delimiter, delimiter]
      split
      · next hd =>
        obtain ⟨hrest, hn, hr⟩ := ih (used + c.utf8Size)
        have hcr : c ≠ '\r' := by
          rintro rfl
          revert hd
          simp [show isDelimiterChar '\r' = false by decide]
        simp [hrest, hn, hr, Ne.symm hc, hcr.symm]
      · simp [withReturns_cons hc]

theorem rawBody_withReturns {opening closing : List Char} (ho : '\n' ∉ opening)
    (hn : '\n' ∉ closing) (hr : '\r' ∉ closing) (hne : closing ≠ []) (h : '\r' ∉ cs) :
    Alike (rawBody opening closing cs) (rawBody opening closing (withReturns cs)) := by
  have hbody := spanUnits_until_withReturns closing hn hr h
  have hstop := unit_spanUnits_snd (untilUnit closing) cs
  rcases hspan : spanUnits (untilUnit closing) cs with ⟨b, r⟩
  rw [hspan] at hbody hstop
  by_cases hnil : r = []
  · subst hnil
    exact .fault (x := .unterminatedLiteral) (by simp [rawBody, hspan]) (by simp [rawBody, hbody])
  · obtain ⟨r, rfl⟩ : ∃ r', r = closing ++ r' := ⟨_, (append_drop_of_untilUnit (hstop hnil)).symm⟩
    obtain ⟨t, r', hsuffix⟩ : ∃ t r', suffix r = (t, r') := ⟨_, _, rfl⟩
    have hsuffix' := suffix_withReturns r
    have ht := newline_of_unblank (isBlankChar_of_suffix r)
    rw [hsuffix] at hsuffix' ht
    simp only [withReturns_append, withReturns_eq_self hn] at hbody
    rw [rawBody_of_spanUnits opening hspan hne hsuffix,
      rawBody_of_spanUnits opening hbody hne hsuffix']
    refine .of_eq rfl ?_ rfl
    simp only [withReturns_append, withReturns_eq_self ho, withReturns_eq_self hn,
      withReturns_eq_self ht]

theorem raw_withReturns {w : List Char} (hw : w ∈ rawMarks) (h : '\r' ∉ cs) :
    Reread (raw (w ++ ['\x22']) cs) (raw (w ++ ['\x22']) (withReturns cs)) := by
  obtain ⟨hwn, hwq, _⟩ := rawMarks_plain w hw
  refine .alike ?_ ?_
  · obtain ⟨hd, hn, hr⟩ := delimiter_withReturns 0 cs
    have happ := delimiter_append 0 cs
    rcases hspan : delimiter 0 cs with ⟨d, r⟩
    rw [hspan] at hd hn hr happ
    by_cases hp : r.head? = some '('
    · obtain ⟨r, rfl⟩ := List.head?_eq_some_iff.1 hp
      have hrest : '\r' ∉ r := fun hm => h (by simp [← happ, hm])
      simp only [raw, hspan, hd, withReturns_cons (show '(' ≠ '\n' by decide)]
      exact rawBody_withReturns (by simp_all) (by simp_all) (by simp_all) (by simp) hrest
    · have hfault : ∀ ds, (delimiter 0 ds).2.head? ≠ some '(' →
          (raw (w ++ ['\x22']) ds).outcome = .error .unterminatedLiteral := by
        intro ds hds
        unfold raw
        dsimp only
        split
        · next r hr => simp [hr] at hds
        · rfl
      have hp' : (withReturns r).head? ≠ some '(' := by
        rw [head?_withReturns]
        intro he
        obtain ⟨c, hc, he⟩ := Option.map_eq_some_iff.1 he
        split at he
        · cases he
        · exact hp (hc.trans (congrArg some he))
      exact .fault (hfault cs (by rwa [hspan])) (hfault _ (by rwa [hd]))
  · intro k hk
    -- the mark in front of the first quote tells
    obtain ⟨z, hz⟩ := opening_of_raw (t := (raw (w ++ ['\x22']) cs).taken)
      (r := (raw (w ++ ['\x22']) cs).rest) (by rw [← hk])
    rw [hz, List.append_assoc, List.singleton_append, isJoined, takeWhile_mark hwq]
    simp [hw]

end Raw
end Literal

theorem wordKind_withReturns {w r : List Char} (hw : '\n' ∉ w) :
    Reread ⟨wordKind w, w, r⟩ ⟨wordKind w, w, withReturns r⟩ :=
  .of_eq hw rfl rfl rfl

theorem word_withReturns (h : '\r' ∉ cs) : Reread (word cs) (word (withReturns cs)) := by
  obtain ⟨w, r, rfl, hw, hr⟩ := exists_word cs
  have hwn : '\n' ∉ w := fun hm => absurd (hw _ hm) (by decide)
  have hrest : '\r' ∉ r := fun hm => h (List.mem_append_right w hm)
  rw [withReturns_append, withReturns_eq_self hwn]
  cases r with
  | nil =>
    rw [withReturns_nil, List.append_nil, word_nil hw]
    exact wordKind_withReturns hwn
  | cons q r =>
    by_cases hq : q = '\n'
    · subst hq
      rw [word_break hw (breaks_cons rfl r), withReturns_newline, word_break hw (breaks_cons rfl _)]
      exact wordKind_withReturns hwn
    · have hr' := List.not_mem_of_not_mem_cons hrest
      rw [withReturns_cons hq, word_cons hw hr, word_cons hw hr]
      split
      · next hmark =>
        obtain ⟨hquote, hmark⟩ := Bool.and_eq_true_iff.1 hmark
        have hmem : w ∈ [] :: quotedMarks := List.mem_cons_of_mem _ (by simpa using hmark)
        exact quoted_withReturns hmem hquote hr'
      · split
        · next hmark =>
          obtain ⟨hquote, hmark⟩ := Bool.and_eq_true_iff.1 hmark
          obtain rfl := of_decide_eq_true hquote
          exact raw_withReturns (by simpa using hmark) hr'
        · rw [← withReturns_cons hq]
          exact wordKind_withReturns hwn

theorem symbols_plain : ∀ s ∈ symbols, '\n' ∉ s.1 ∧ '\r' ∉ s.1 := by decide

theorem symbol_withReturns {c : Char} (hc : c ≠ '\n') :
    Reread (symbol c cs) (symbol c (withReturns cs)) := by
  have hfind : (symbols.find? fun s => s.1.isPrefixOf (c :: withReturns cs)) =
      symbols.find? fun s => s.1.isPrefixOf (c :: cs) := by
    refine List.find?_congr fun s hs => ?_
    obtain ⟨hn, hr⟩ := symbols_plain s hs
    rw [← withReturns_cons hc, isPrefixOf_withReturns hn hr]
  unfold symbol
  rw [hfind]
  split
  · next s hs =>
    have hmem := symbols_plain s (List.mem_of_find?_eq_some hs)
    have hp := List.find?_some hs
    obtain ⟨z, hz⟩ := List.isPrefixOf_iff_prefix.1 hp
    have hz' : s.1 ++ withReturns z = c :: withReturns cs := by
      rw [← withReturns_cons hc, ← hz, withReturns_append, withReturns_eq_self hmem.1]
    rw [← hz, ← hz']
    exact .of_eq (by simpa using hmem.1) rfl (by simp) (by simp)
  · exact .alike (.fault rfl rfl) (by simp)

/-- What becomes of a token when its text gets carriage returns. -/
theorem token_withReturns {c : Char} (hc : c ≠ '\n') (h : '\r' ∉ c :: cs) :
    Reread (token c cs) (token c (withReturns cs)) := by
  have hcs := List.not_mem_of_not_mem_cons h
  have hnumber : startsNumber c (withReturns cs) = startsNumber c cs := by
    simp only [startsNumber, any_head_withReturns isDigit_blank]
  unfold token
  rw [hnumber]
  split
  · exact number_withReturns hc hcs
  · split
    · rw [← withReturns_cons hc]
      exact word_withReturns h
    · split
      · next hq => exact quoted_withReturns (w := []) (by simp) hq hcs
      · exact symbol_withReturns hc

end Lexeme
end SourceOutline
